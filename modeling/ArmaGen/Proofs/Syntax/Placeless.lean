import ArmaGen.Proofs.Syntax.Outline

/-!
# Trees without places

`Syntax.placeless` drops positions and texts. So an expression has one tree (`Term.form`), wherever
it stands and whatever breaks are in it (`Term.placeless_brokenTree`).
-/

namespace ArmaGen

open Syntax

/-- The head without its place. That it has a text is kept. -/
def Head.placeless (head : Head) : Head :=
  { head with cur? := none, code? := head.code?.map fun _ => "" }

namespace Syntax

mutual

def placeless : Syntax → Syntax
  | .node head items => .node head.placeless (placelessAll items)
  | .declare => .declare

def placelessAll : List Syntax → List Syntax
  | [] => []
  | item :: rest => placeless item :: placelessAll rest

end

mutual

lemma inner_placeless (tree : Syntax) : tree.placeless.Inner ↔ tree.Inner := by
  cases tree with
  | declare => rfl
  | node head items =>
    rw [placeless, Inner, Inner, inners_placelessAll items]
    have hdeclare : placelessAll items = [.declare] ↔ items = [.declare] := by
      cases items with
      | nil => simp [placelessAll]
      | cons item items => cases item <;> cases items <;> simp [placelessAll, placeless]
    rw [hdeclare]
    rfl

lemma inners_placelessAll (items : List Syntax) : Inners (placelessAll items) ↔ Inners items := by
  cases items with
  | nil => rfl
  | cons item items =>
    rw [placelessAll, Inners, Inners, inner_placeless item, inners_placelessAll items]

end

mutual

lemma outline_placeless (tree : Syntax) : tree.placeless.outline = tree.outline := by
  cases tree with
  | declare => rfl
  | node head items =>
    rw [placeless, outline, outline, outlines_placelessAll items]
    rfl

lemma outlines_placelessAll (items : List Syntax) :
    outlines (placelessAll items) = outlines items := by
  cases items with
  | nil => rfl
  | cons item items =>
    rw [placelessAll, outlines, outlines, outline_placeless item, outlines_placelessAll items]

end

@[simp]
lemma name_placeless (tree : Syntax) : tree.placeless.name = tree.name := by
  cases tree <;> rfl

end Syntax

/-! ### Expressions -/

namespace Term

variable {t : Term} {ts : List Term}

def form (t : Term) : Syntax :=
  (t.tree ⟨fun _ => 0, 0⟩ 0).placeless

lemma placelessAll_trees {sp sp' : Spacing} {gap gap' : Nat} {k k' : Int}
    (hts : ∀ t ∈ ts, ∀ k k', (t.tree sp k).placeless = (t.tree sp' k').placeless) :
    placelessAll (trees sp gap k ts) = placelessAll (trees sp' gap' k' ts) := by
  induction ts generalizing k k' with
  | nil => rfl
  | cons t ts ih =>
    rw [trees, trees, placelessAll, placelessAll, hts t (.head _) k k',
      ih (List.forall_mem_cons.1 hts).2]

/-- Without places the tree of an expression is the same wherever and however it is written. -/
lemma placeless_tree_eq (sp sp' : Spacing) (t : Term) (k k' : Int) :
    (t.tree sp k).placeless = (t.tree sp' k').placeless := by
  induction t using induct generalizing k k' with
  | name n => rfl
  | numeral d => rfl
  | call f args ih =>
    rw [tree, tree, placeless, placelessAll_trees ih]
    rfl
  | paren t ih | neg t ih | not t ih | transpose t ih | ctranspose t ih =>
    rw [tree, tree, placeless, placelessAll, ih]
    rfl
  | chain op first others ihf iho =>
    rw [tree, tree, placeless, placeless, placelessAll, ihf k k', placelessAll_trees iho]
    rfl

lemma placeless_tree (sp : Spacing) (t : Term) (k : Int) : (t.tree sp k).placeless = t.form :=
  placeless_tree_eq ..

lemma inner_form (t : Term) : t.form.Inner :=
  (inner_placeless _).mpr (inner_tree ..)

lemma outline_form (t : Term) : t.form.outline = [t.outline] :=
  (outline_placeless _).trans (outline_tree ..)

lemma placelessAll_brokenTrees {sp : Spacing} {width i : Nat} {b : Breaks} {k : Int}
    (hts : ∀ t ∈ ts, ∀ b k, (t.brokenTree sp b k).placeless = t.form) {k' : Int} {width' : Nat} :
    placelessAll (brokenTrees sp width b i k ts) = placelessAll (trees sp width' k' ts) := by
  induction ts generalizing i k k' with
  | nil => rfl
  | cons t ts ih =>
    rw [brokenTrees, trees, placelessAll, placelessAll, hts t (.head _), placeless_tree,
      ih (List.forall_mem_cons.1 hts).2]

lemma placeless_brokenTree (sp : Spacing) (t : Term) (b : Breaks) (k : Int) :
    (t.brokenTree sp b k).placeless = t.form := by
  induction t using induct generalizing b k with
  | chain op first others ihf iho =>
    rw [← placeless_tree sp _ k, brokenTree, tree, placeless, placeless, placelessAll, placelessAll,
      ihf, placeless_tree, placelessAll_brokenTrees iho]
    rfl
  | _ => exact placeless_tree ..

end Term

end ArmaGen
