import ArmaGen.Proofs.Scan.Forward

/-!
# What a setting leaves out

Comments are kept, and hints for loops are made, only if the setting asks for them. All that a
parser makes besides these asides, and its outcome, depends on the text alone (`Parse.Fixed`,
`Parse.Lightens`). Asides have nothing below them and stand in blocks only (`Syntax.NeatAll`).
-/

namespace ArmaGen

open List

/-! ### Kinds -/

namespace Kind

/-- The kinds of nodes that a setting may leave out. -/
def isAside : Kind → Bool
  | .lcomment | .bcomment | .ecomment | .pragmaFor => true
  | _ => false

/-- Neither asides nor functions, and nothing that is around programs. -/
def isOrdinary : Kind → Bool
  | .lcomment | .bcomment | .ecomment | .pragmaFor | .func | .main | .lambda | .project | .program
  | .funcs | .structs => false
  | _ => true

lemma isAside_of_isOrdinary {kind : Kind} (h : kind.isOrdinary = true) : kind.isAside = false := by
  cases kind <;> first | rfl | cases h

def funcParts : List Kind :=
  [.declares, .returns, .params, .block]

end Kind

/-! ### Trees without some nodes -/

namespace Syntax

def kind? : Syntax → Option Kind
  | .node head _ => some head.kind
  | .declare => none

def kinds (items : List Syntax) : List Kind :=
  items.filterMap kind?

def isOf (wanted : Kind → Bool) : Syntax → Bool
  | .node head _ => wanted head.kind
  | .declare => false

mutual

/-- The tree without the nodes of some kinds below its top. -/
def without (drops : Kind → Bool) : Syntax → Syntax
  | .node head items => .node head (withoutAll drops items)
  | .declare => .declare

def withoutAll (drops : Kind → Bool) : List Syntax → List Syntax
  | [] => []
  | item :: rest =>
    if item.isOf drops then withoutAll drops rest else without drops item :: withoutAll drops rest

end

mutual

/-- There are no asides in a tree, and functions in it have their parts below them. -/
def Free : Syntax → Prop
  | .node head items =>
    (head.kind.isOrdinary = true ∨
      (head.kind = .func ∨ head.kind = .lambda) ∧ kinds items <+: Kind.funcParts) ∧ FreeAll items
  | .declare => True

def FreeAll : List Syntax → Prop
  | [] => True
  | item :: rest => Free item ∧ FreeAll rest

end

mutual

/-- Asides have nothing below them and stand in blocks only, functions have their parts below them.
-/
def Neat : Syntax → Prop
  | .node head items =>
    (head.kind.isAside = true ∧ items = [] ∨
      head.kind.isOrdinary = true ∧
        (head.kind ≠ .block → ∀ item ∈ items, item.isOf Kind.isAside = false) ∨
      (head.kind = .func ∨ head.kind = .main ∨ head.kind = .lambda ∧ FreeAll items) ∧
        kinds items <+: Kind.funcParts) ∧ NeatAll items
  | .declare => True

def NeatAll : List Syntax → Prop
  | [] => True
  | item :: rest => Neat item ∧ NeatAll rest

end

variable {drops : Kind → Bool}

lemma withoutAll_append (xs ys : List Syntax) :
    withoutAll drops (xs ++ ys) = withoutAll drops xs ++ withoutAll drops ys := by
  induction xs with
  | nil => rfl
  | cons x xs ih =>
    rw [cons_append, withoutAll, withoutAll, ih]
    split <;> rfl

variable {xs ys items : List Syntax}

lemma neatAll_append : NeatAll (xs ++ ys) ↔ NeatAll xs ∧ NeatAll ys := by
  induction xs with
  | nil => simp [NeatAll]
  | cons x xs ih => rw [cons_append, NeatAll, NeatAll, ih, and_assoc]

lemma freeAll_append : FreeAll (xs ++ ys) ↔ FreeAll xs ∧ FreeAll ys := by
  induction xs with
  | nil => simp [FreeAll]
  | cons x xs ih => rw [cons_append, FreeAll, FreeAll, ih, and_assoc]

lemma Free.isAside_eq_false {tree : Syntax} (h : tree.Free) : tree.isOf Kind.isAside = false := by
  cases tree with
  | declare => rfl
  | node head items =>
    rcases h.1 with hordinary | ⟨hkind | hkind, -⟩
    · exact Kind.isAside_of_isOrdinary hordinary
    · rw [isOf, hkind]
      rfl
    · rw [isOf, hkind]
      rfl

lemma FreeAll.isAside_eq_false (h : FreeAll items) :
    ∀ item ∈ items, item.isOf Kind.isAside = false := by
  induction items with
  | nil => simp
  | cons item items ih =>
    intro other hother
    rcases mem_cons.1 hother with rfl | hother
    · exact h.1.isAside_eq_false
    · exact ih h.2 other hother

lemma isOf_eq_false (hdrops : ∀ kind, drops kind = true → kind.isAside = true) {tree : Syntax}
    (h : tree.isOf Kind.isAside = false) : tree.isOf drops = false := by
  cases tree with
  | declare => rfl
  | node head items =>
    refine Bool.eq_false_iff.2 fun hdrop => ?_
    rw [isOf, hdrops _ hdrop] at h
    cases h

mutual

lemma Free.without_eq (hdrops : ∀ kind, drops kind = true → kind.isAside = true) :
    ∀ tree : Syntax, tree.Free → tree.without drops = tree
  | .declare, _ => rfl
  | .node head items, h => by rw [without, FreeAll.withoutAll_eq hdrops items h.2]

lemma FreeAll.withoutAll_eq (hdrops : ∀ kind, drops kind = true → kind.isAside = true) :
    ∀ items : List Syntax, FreeAll items → withoutAll drops items = items
  | [], _ => rfl
  | item :: rest, h => by
    rw [withoutAll, if_neg (by simp [isOf_eq_false hdrops h.1.isAside_eq_false]),
      Free.without_eq hdrops item h.1, FreeAll.withoutAll_eq hdrops rest h.2]

end

mutual

lemma Free.neat : ∀ tree : Syntax, tree.Free → tree.Neat
  | .declare, _ => trivial
  | .node head items, h => by
    refine ⟨.inr ?_, FreeAll.neatAll items h.2⟩
    rcases h.1 with hordinary | ⟨hkind | hkind, hparts⟩
    · exact .inl ⟨hordinary, fun _ => h.2.isAside_eq_false⟩
    · exact .inr ⟨.inl hkind, hparts⟩
    · exact .inr ⟨.inr (.inr ⟨hkind, h.2⟩), hparts⟩

lemma FreeAll.neatAll : ∀ items : List Syntax, FreeAll items → NeatAll items
  | [], _ => trivial
  | item :: rest, h => ⟨Free.neat item h.1, FreeAll.neatAll rest h.2⟩

end

lemma Neat.ne_project {head : Head} (hneat : (node head items).Neat) : head.kind ≠ .project := by
  intro hkind
  rcases hneat.1 with ⟨haside, -⟩ | ⟨hordinary, -⟩ | ⟨hfunc | hmain | ⟨hlambda, -⟩, -⟩
  · rw [hkind] at haside
    cases haside
  · rw [hkind] at hordinary
    cases hordinary
  · rw [hkind] at hfunc
    cases hfunc
  · rw [hkind] at hmain
    cases hmain
  · rw [hkind] at hlambda
    cases hlambda

lemma Neat.free_of_lambda {head : Head} (hneat : (node head items).Neat)
    (hkind : head.kind = .lambda) : FreeAll items ∧ kinds items <+: Kind.funcParts := by
  rcases hneat.1 with ⟨haside, -⟩ | ⟨hordinary, -⟩ | ⟨hfunc | hmain | ⟨-, hfree⟩, hparts⟩
  · rw [hkind] at haside
    cases haside
  · rw [hkind] at hordinary
    cases hordinary
  · rw [hkind] at hfunc
    cases hfunc
  · rw [hkind] at hmain
    cases hmain
  · exact ⟨hfree, hparts⟩

lemma kinds_append (xs ys : List Syntax) : kinds (xs ++ ys) = kinds xs ++ kinds ys :=
  filterMap_append

end Syntax

/-! ### Settings -/

/-- Two settings for a text, of which the second one asks for no more than the first. -/
structure Setting.Lighter (s : Source) (st st' : Setting) : Prop where
  ended : s.Ended
  source : st.source = s
  source' : st'.source = s
  comments : st'.comments = true → st.comments = true
  disp : st'.disp = true → st.disp = true

/-- The kinds that a setting asks for and another one does not. -/
def Setting.drops (st st' : Setting) : Kind → Bool
  | .lcomment | .bcomment | .ecomment => st.comments && !st'.comments
  | .pragmaFor => st.disp && !st'.disp
  | _ => false

lemma Setting.isAside_of_drops {st st' : Setting} (kind : Kind)
    (h : st.drops st' kind = true) : kind.isAside = true := by
  cases kind <;> first | rfl | cases h

namespace Parse

open Syntax

variable {α β : Type} {p : Parse α} {f : α → Parse β}

/-! ### Parts of functions -/

/-- The nodes that a parser makes are of some kinds in turn; if it fails, the first of them. -/
def Parts (ks : List Kind) (p : Parse α) : Prop :=
  ∀ ⦃st : Setting⦄, kinds (p st).made <+: ks ∧ ∀ a, (p st).outcome = .ok a → kinds (p st).made = ks

variable {ks ks' : List Kind}

lemma Parts.bind (hp : p.Parts ks) (hf : ∀ a, (f a).Parts ks') : (p >>= f).Parts (ks ++ ks') := by
  intro st
  obtain ⟨hmade, hdone⟩ := @hp st
  rcases bind_eq p f st with ⟨failure, _, hm, hr⟩ | ⟨a, ho, hm, hr⟩ <;> rw [hm, hr]
  · exact ⟨hmade.trans (prefix_append ..), fun b hb => by cases hb⟩
  · obtain ⟨hmade', hdone'⟩ := @hf a st
    rw [kinds_append, hdone a ho]
    exact ⟨(prefix_append_right_inj ks).2 hmade', fun b hb => by rw [hdone' b hb]⟩

lemma Parts.ite {c : Prop} [Decidable c] {q : Parse α} (hp : p.Parts ks) (hq : q.Parts ks) :
    (if c then p else q).Parts ks := by
  split
  · exact hp
  · exact hq

lemma parts_pure (a : α) : (pure a : Parse α).Parts [] :=
  fun _ => ⟨prefix_rfl, fun _ _ => rfl⟩

lemma parts_lift (x : Scan α) : (liftM x : Parse α).Parts [] :=
  fun _ => ⟨prefix_rfl, fun _ _ => rfl⟩

lemma parts_source : source.Parts [] :=
  fun _ => ⟨prefix_rfl, fun _ _ => rfl⟩

lemma parts_leaf (head : Head) : (leaf head).Parts [head.kind] :=
  fun _ => ⟨prefix_rfl, fun _ _ => rfl⟩

lemma parts_wrap {head : Head} {close : List Syntax → α → Head × Except Failure β}
    (hclose : ∀ made a, (close made a).1.kind = head.kind) :
    (wrap head p close).Parts [head.kind] := by
  intro st
  unfold wrap
  rcases p st with ⟨made, notes, failure | a⟩
  · exact ⟨prefix_rfl, fun _ _ => rfl⟩
  · have hkinds : kinds [.node (close made a).1 made] = [head.kind] := by
      rw [← hclose made a]
      rfl
    exact ⟨hkinds ▸ prefix_rfl, fun _ _ => hkinds⟩

lemma parts_node (head : Head) (p : Parse α) : (node head p).Parts [head.kind] :=
  parts_wrap fun _ _ => rfl

end Parse

end ArmaGen
