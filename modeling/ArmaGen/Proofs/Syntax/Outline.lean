import ArmaGen.Proofs.Syntax.Expression

/-!
# Outlines of trees

An `Outline` is what a tree says about a program: kinds, names and values, without places, names of
assignments and declared variables. `p.Builds st outlines a` says that a parser succeeds with the
result `a` and has made trees with the given outlines, all of them inside of functions
(`Syntax.Inners`).
-/

namespace ArmaGen

/-- Kinds, names and values of a tree. -/
inductive Outline where
  /-- A node and the outlines of what stands below it. -/
  | node (kind : Kind) (name value : String) (below : List Outline)
deriving Repr, Inhabited

/-- Whether nodes of a kind stand inside of the block of a function. -/
def Kind.isInner : Kind → Bool
  | .project | .program | .main | .func | .lambda | .declares => false
  | _ => true

namespace Syntax

mutual

def outline : Syntax → List Outline
  | .declare => []
  | .node head items =>
    [.node head.kind (if head.kind = .assign then "" else head.name) head.value
      (if head.kind = .declares then [] else outlines items)]

def outlines : List Syntax → List Outline
  | [] => []
  | item :: rest => outline item ++ outlines rest

end

mutual

/-- A tree all of whose nodes stand inside of a function, and only variables are asked to be
declared. -/
def Inner : Syntax → Prop
  | .declare => False
  | .node head items =>
    head.kind.isInner = true ∧ ((head.kind = .var ∧ items = [.declare]) ∨ Inners items)

def Inners : List Syntax → Prop
  | [] => True
  | item :: rest => Inner item ∧ Inners rest

end

/-- A variable with nothing below it. -/
def IsName : Syntax → Prop
  | .node head items => head.kind = .var ∧ items = []
  | .declare => False

/-- A function with its parts: declared variables, results, parameters and a block. -/
inductive IsFunc : Syntax → Prop where
  | mk {head declares returns params : Head} {rs ps : List Syntax} {block : Syntax}
      (hkind : head.kind = .func ∨ head.kind = .main) (hdeclares : declares.kind = .declares)
      (hreturns : returns.kind = .returns) (hparams : params.kind = .params)
      (hrs : ∀ r ∈ rs, r.IsName) (hps : ∀ q ∈ ps, q.IsName) (hblock : block.Inner) :
      IsFunc (.node head [.node declares [], .node returns rs, .node params ps, block])

lemma outlines_append (xs ys : List Syntax) : outlines (xs ++ ys) = outlines xs ++ outlines ys := by
  induction xs with
  | nil => rfl
  | cons x xs ih => rw [List.cons_append, outlines, outlines, ih, List.append_assoc]

lemma inners_append {xs ys : List Syntax} : Inners (xs ++ ys) ↔ Inners xs ∧ Inners ys := by
  induction xs with
  | nil => simp [Inners]
  | cons x xs ih => rw [List.cons_append, Inners, Inners, ih, and_assoc]

lemma Inners.exists_tree {made : List Syntax} {o : Outline} (h : Inners made)
    (hos : outlines made = [o]) : ∃ tree, made = [tree] ∧ tree.Inner ∧ tree.outline = [o] := by
  match made, h with
  | [], _ => cases hos
  | [tree], h =>
    rw [outlines, outlines, List.append_nil] at hos
    exact ⟨tree, rfl, h.1, hos⟩
  | .node _ _ :: .node _ _ :: _, _ => simp [outlines, outline] at hos

end Syntax

/-! ### Expressions -/

namespace Term

variable {sp : Spacing} {k : Int} {t : Term} {ts : List Term}

mutual

def outline : Term → Outline
  | .name n => .node .var n.text "" []
  | .numeral d => .node .int "" (String.ofList d.digits) []
  | .call f args => .node .get f.text "" (outlines args)
  | .paren t => .node .paren "" "" [outline t]
  | .neg t => .node .neg "" "" [outline t]
  | .not t => .node .not "" "" [outline t]
  | .transpose t => .node .transpose "" "" [outline t]
  | .ctranspose t => .node .ctranspose "" "" [outline t]
  | .chain op first others => .node op.kind "" "" (outline first :: outlines others)

def outlines : List Term → List Outline
  | [] => []
  | t :: ts => outline t :: outlines ts

end

lemma kind_ne (op : Operator) : op.kind ≠ .assign ∧ op.kind ≠ .declares := by
  cases op <;> decide

lemma outlines_trees {gap : Nat} (hts : ∀ t ∈ ts, ∀ k, (t.tree sp k).outline = [t.outline]) :
    Syntax.outlines (trees sp gap k ts) = outlines ts := by
  induction ts generalizing k with
  | nil => rfl
  | cons t ts ih =>
    rw [trees, Syntax.outlines, hts t (.head _), ih (List.forall_mem_cons.1 hts).2]
    rfl

lemma inners_trees {gap : Nat} (hts : ∀ t ∈ ts, ∀ k, (t.tree sp k).Inner) :
    Syntax.Inners (trees sp gap k ts) := by
  induction ts generalizing k with
  | nil => trivial
  | cons t ts ih =>
    exact ⟨hts t (.head _) k, ih (List.forall_mem_cons.1 hts).2⟩

lemma outline_tree (sp : Spacing) (t : Term) (k : Int) : (t.tree sp k).outline = [t.outline] := by
  induction t using induct generalizing k with
  | name n => rfl
  | numeral d => rfl
  | call f args ih => simp [tree, Syntax.outline, head, outline, outlines_trees ih]
  | paren t ih | neg t ih | not t ih | transpose t ih | ctranspose t ih =>
    simp [tree, Syntax.outline, Syntax.outlines, head, outline, ih]
  | chain op first others ihf iho =>
    simp [tree, Syntax.outline, Syntax.outlines, head, outline, kind_ne, ihf, outlines_trees iho]

lemma inner_tree (sp : Spacing) (t : Term) (k : Int) : (t.tree sp k).Inner := by
  induction t using induct generalizing k with
  | name n => exact ⟨rfl, .inr trivial⟩
  | numeral d => exact ⟨rfl, .inr trivial⟩
  | call f args ih => exact ⟨rfl, .inr (inners_trees ih)⟩
  | paren t ih | neg t ih | not t ih | transpose t ih | ctranspose t ih =>
    exact ⟨rfl, .inr ⟨ih _, trivial⟩⟩
  | chain op first others ihf iho => exact ⟨by cases op <;> rfl, .inr ⟨ihf k, inners_trees iho⟩⟩

end Term

/-! ### Parsers that build outlines -/

namespace Parse

variable {α β : Type} {st : Setting} {os os' : List Outline} {a : α} {b : β}

/-- A parser succeeds with a result and has made trees with given outlines. -/
def Builds (p : Parse α) (st : Setting) (os : List Outline) (a : α) : Prop :=
  ∃ made, p.Yields st made a ∧ Syntax.outlines made = os ∧ Syntax.Inners made

variable {p : Parse α} {f : α → Parse β}

lemma Builds.bind (hp : p.Builds st os a) (hf : (f a).Builds st os' b) :
    (p >>= f).Builds st (os ++ os') b := by
  obtain ⟨made, hp, rfl, hmade⟩ := hp
  obtain ⟨made', hf, rfl, hmade'⟩ := hf
  exact ⟨made ++ made', hp.bind hf, Syntax.outlines_append .., Syntax.inners_append.mpr
    ⟨hmade, hmade'⟩⟩

lemma Yields.bind_builds (hp : p.Yields st [] a) :
    (p >>= f).Builds st os b ↔ (f a).Builds st os b := by
  unfold Builds
  simp [hp.bind_iff]

@[simp]
lemma builds_pure : (pure a : Parse α).Builds st [] a :=
  ⟨[], yields_pure, rfl, trivial⟩

@[simp]
lemma builds_source_bind {f : Source → Parse β} :
    (source >>= f).Builds st os b ↔ (f st.source).Builds st os b := Iff.rfl

@[simp]
lemma builds_lift_bind : ((liftM (Except.ok a : Scan α) : Parse α) >>= f).Builds st os b ↔
      (f a).Builds st os b := Iff.rfl

@[simp]
lemma builds_progress_bind {f : Unit → Parse β} {k x y : Int} {label place : String} :
    (progress k label place x y >>= f).Builds st os b ↔ (f ()).Builds st os b :=
  yields_progress.bind_builds

@[simp]
lemma builds_note_bind {f : Unit → Parse β} {line : Unit → String} :
    (note line >>= f).Builds st os b ↔ (f ()).Builds st os b :=
  Yields.bind_builds ⟨_, rfl⟩

lemma Builds.wrap {head : Head} {close : List Syntax → α → Head × Except Failure β}
    (hp : p.Builds st os a) (hclose : ∀ made, ∃ code?, close made a = ({ head with code? }, .ok b))
    (hkind : head.kind.isInner = true) (hassign : head.kind ≠ .assign) :
    (Parse.wrap head p close).Builds st [.node head.kind head.name head.value os] b := by
  obtain ⟨made, hp, rfl, hmade⟩ := hp
  obtain ⟨code?, hclose⟩ := hclose made
  have hdeclares : head.kind ≠ .declares := by
    intro h
    exact absurd (h ▸ hkind) (by decide)
  refine ⟨_, hp.wrap hclose, ?_, ⟨hkind, .inr hmade⟩, trivial⟩
  simp [Syntax.outlines, Syntax.outline, hassign, hdeclares]

lemma Builds.nodeThen {head : Head} {code : α → String} (hp : p.Builds st os a)
    (hkind : head.kind.isInner = true) (hassign : head.kind ≠ .assign) :
    (Parse.nodeThen head p code).Builds st [.node head.kind head.name head.value os] a :=
  hp.wrap (fun _ => ⟨_, rfl⟩) hkind hassign

lemma Yields.builds_tree {sp : Spacing} {t : Term} {k : Int} (h : p.Yields st [t.tree sp k] a) :
    p.Builds st [t.outline] a := by
  refine ⟨_, h, ?_, t.inner_tree sp k, trivial⟩
  rw [Syntax.outlines, t.outline_tree sp k]
  rfl

end Parse

end ArmaGen
