import ArmaGen.Proofs.Syntax.Expression

/-!
# Un-parsing

A tree is un-parsed by writing its names and numerals, the operator of a node between the nodes
below it, and signs, quotes and brackets around them, all without blanks (`Syntax.unparse`). A tree
is spelled by a source if the text of every node, without its blanks, is what the node is un-parsed
to (`Syntax.Spelled`). The tree of a layered expression is spelled by the text it was read from
(`spelled_of_yields_expression`). Where a minus sign follows an operator that binds more than a
difference this fails: the operator is lost (`unparse_product_of_negative`).
-/

namespace ArmaGen

open List

open Syntax

def inked (cs : List Char) : List Char :=
  cs.filter fun c => !isBlank c

/-- What is written before, between and after the nodes below a node. -/
structure Marks where
  before : String := ""
  between : String := ""
  after : String := ""

def Kind.marks : Kind → Marks
  | .get => ⟨"(", ",", ")"⟩
  | .paren => ⟨"(", "", ")"⟩
  | .matrix => ⟨"[", ";", "]"⟩
  | .vector => ⟨"", ",", ""⟩
  | .cell => ⟨"\x7b", ",", "\x7d"⟩
  | .neg => ⟨"-", "", ""⟩
  | .not => ⟨"~", "", ""⟩
  | .transpose => ⟨"", "", ".'"⟩
  | .ctranspose => ⟨"", "", "'"⟩
  | .imag => ⟨"", "", "i"⟩
  | kind => ⟨"", ((Operator.inOrder.find? (·.kind == kind)).map Operator.symbol).getD "", ""⟩

namespace Syntax

mutual

/-- The text that a tree spells, without blanks. -/
def unparse : Syntax → List Char
  | .declare => []
  | .node head items =>
    head.name.toList ++ head.value.toList ++ head.kind.marks.before.toList ++
      head.kind.marks.between.toList.intercalate (unparseAll items) ++
        head.kind.marks.after.toList

def unparseAll : List Syntax → List (List Char)
  | [] => []
  | item :: rest => unparse item :: unparseAll rest

end

/-- Every node of a tree stands in a source at its position, with the text that it spells. -/
inductive Spelled (s : Source) : Syntax → Prop where
  | node {head : Head} {items : List Syntax} {k : Int} {cs : List Char} (hcur : head.cur? = some k)
      (hcode : head.code? = some (String.ofList cs)) (hshow : s.Shows k cs)
      (hspell : unparse (.node head items) = inked cs) (hitems : ∀ item ∈ items, Spelled s item) :
      Spelled s (.node head items)

end Syntax

lemma Source.shows_ofList (cs : List Char) : (Source.ofString (String.ofList cs)).Shows 0 cs := by
  have h := shows_ofString [] cs []
  rwa [nil_append, append_nil] at h

/-! Names for examples. -/

def Name.a : Name := ⟨['a'], rfl⟩

def Name.b : Name := ⟨['b'], rfl⟩

def Name.c : Name := ⟨['c'], rfl⟩

/-! ### Texts without blanks -/

lemma inked_append (cs ds : List Char) : inked (cs ++ ds) = inked cs ++ inked ds :=
  filter_append ..

lemma inked_eq_self {cs : List Char} (h : ∀ c ∈ cs, isBlank c = false) : inked cs = cs := by
  refine filter_eq_self.mpr fun c hc => ?_
  rw [h c hc]
  rfl

lemma inked_room (n : Nat) : inked (room n) = [] := by
  refine filter_eq_nil_iff.mpr fun c hc => ?_
  rw [eq_of_mem_replicate hc]
  decide

lemma inked_joint (sp : Spacing) (op : Operator) : inked (sp.joint op) = op.symbol.toList := by
  rw [Spacing.joint, inked_append, inked_append, inked_room, nil_append, append_nil]
  cases op <;> rfl

lemma inked_comma (sp : Spacing) : inked sp.comma = [','] := by
  rw [Spacing.comma, show ',' :: room sp.afterComma = [','] ++ room sp.afterComma from rfl,
    inked_append, inked_room]
  rfl

lemma inked_name (n : Name) : inked n.chars = n.chars :=
  inked_eq_self fun _ hc => Parse.isBlank_eq_false (n.isWord_of_mem hc) rfl rfl

lemma inked_digits (d : WholeNumber) : inked d.digits = d.digits :=
  inked_eq_self fun c hc => Parse.isBlank_eq_false (d.spelled c hc) rfl rfl

lemma intercalate_cons (sep cs : List Char) (css : List (List Char)) :
    sep.intercalate (cs :: css) = cs ++ css.flatMap (sep ++ ·) := by
  induction css generalizing cs with
  | nil => simp
  | cons ds css ih =>
    rw [intercalate_cons_cons, ih, flatMap_cons]
    simp

namespace Term

variable {sp : Spacing} {t : Term} {ts : List Term}

lemma inked_tailed (sp : Spacing) (sep : List Char) (ts : List Term) :
    inked (tailed sp sep ts) = (ts.map fun t => inked (t.text sp)).flatMap (inked sep ++ ·) := by
  induction ts with
  | nil => rfl
  | cons t ts ih =>
    rw [tailed, inked_append, inked_append, ih, map_cons, flatMap_cons]

lemma inked_joined (sp : Spacing) (ts : List Term) :
    inked (joined sp ts) = [','].intercalate (ts.map fun t => inked (t.text sp)) := by
  cases ts with
  | nil => rfl
  | cons t ts =>
    rw [joined, inked_append, inked_tailed, inked_comma, map_cons, intercalate_cons]

/-! ### The tree of an expression -/

lemma unparseAll_trees {gap : Nat} {k : Int}
    (hts : ∀ t ∈ ts, ∀ k, (t.tree sp k).unparse = inked (t.text sp)) :
    unparseAll (trees sp gap k ts) = ts.map fun t => inked (t.text sp) := by
  induction ts generalizing k with
  | nil => rfl
  | cons t ts ih =>
    rw [trees, unparseAll, hts t (.head _), ih (forall_mem_cons.1 hts).2, map_cons]

lemma unparse_tree (sp : Spacing) (t : Term) (k : Int) :
    (t.tree sp k).unparse = inked (t.text sp) := by
  induction t using induct generalizing k with
  | name n =>
    rw [text, inked_name]
    simp [tree, unparse, unparseAll, head, Kind.marks, Name.text, Operator.inOrder, Operator.kind]
  | numeral d =>
    rw [text, inked_digits]
    simp [tree, unparse, unparseAll, head, Kind.marks, Operator.inOrder, Operator.kind]
  | call f args ih =>
    rw [text, append_assoc, inked_append, inked_name, cons_append, ← singleton_append,
      inked_append, inked_append, inked_joined]
    simp [tree, unparse, head, Kind.marks, Name.text, unparseAll_trees ih, inked, isBlank]
  | paren t ih =>
    rw [text, ← singleton_append, append_assoc, inked_append, inked_append]
    simp [tree, unparse, unparseAll, head, Kind.marks, ih, inked, isBlank]
  | neg t ih | not t ih =>
    rw [text, ← singleton_append, inked_append]
    simp [tree, unparse, unparseAll, head, Kind.marks, ih, inked, isBlank]
  | transpose t ih | ctranspose t ih =>
    rw [text, inked_append]
    simp [tree, unparse, unparseAll, head, Kind.marks, ih, inked, isBlank]
  | chain op first others ihf iho =>
    rw [text, inked_append, inked_tailed, inked_joint, ← intercalate_cons, tree, unparse,
      unparseAll,
      ihf, unparseAll_trees iho]
    simp [head, show op.kind.marks = ⟨"", op.symbol, ""⟩ by cases op <;> rfl]

variable {s : Source} {k : Int}

lemma spelled_of_items {top : Head} {items : List Syntax} (htree : t.tree sp k = .node top items)
    (hcur : top.cur? = some k) (hcode : top.code? = some (String.ofList (t.text sp)))
    (h : s.Shows k (t.text sp)) (hitems : ∀ item ∈ items, item.Spelled s) :
    (t.tree sp k).Spelled s := by
  have hspell := unparse_tree sp t k
  rw [htree] at hspell ⊢
  exact .node hcur hcode h hspell hitems

variable {sep : List Char}

lemma spelled_trees (h : s.Shows k (tailed sp sep ts))
    (hts : ∀ t ∈ ts, ∀ {k}, s.Shows k (t.text sp) → (t.tree sp k).Spelled s) :
    ∀ item ∈ trees sp sep.length (k + sep.length) ts, item.Spelled s := by
  induction ts generalizing k with
  | nil =>
    intro item hitem
    exact absurd hitem not_mem_nil
  | cons t ts ih =>
    rw [tailed, append_assoc] at h
    have htail := h.right.right
    intro item hitem
    rcases mem_cons.mp hitem with rfl | hitem
    · exact hts t (.head _) h.right.left
    · exact ih htail ((forall_mem_cons.1 hts).2) item hitem

lemma spelled_trees_cons (h : s.Shows k (t.text sp ++ tailed sp sep ts))
    (hts : ∀ u ∈ t :: ts, ∀ {k}, s.Shows k (u.text sp) → (u.tree sp k).Spelled s) :
    ∀ item ∈ trees sp sep.length k (t :: ts), item.Spelled s := by
  intro item hitem
  rcases mem_cons.mp hitem with rfl | hitem
  · exact hts t (.head _) h.left
  · exact spelled_trees h.right ((forall_mem_cons.1 hts).2) item hitem

lemma spelled_tree (t : Term) {k : Int} (h : s.Shows k (t.text sp)) : (t.tree sp k).Spelled s := by
  induction t using induct generalizing k with
  | name n => exact spelled_of_items (by rw [tree]) rfl rfl h (by simp)
  | numeral d => exact spelled_of_items (by rw [tree]) rfl rfl h (by simp)
  | call f args ih =>
    refine spelled_of_items (by rw [tree]) rfl rfl h ?_
    rw [text, append_assoc] at h
    have hargs := h.right.tail.left
    cases args with
    | nil =>
      intro item hitem
      exact absurd hitem not_mem_nil
    | cons u us =>
      exact spelled_trees_cons hargs ih
  | paren t ih =>
    refine spelled_of_items (by rw [tree]) rfl rfl h (forall_mem_singleton.2 ?_)
    exact ih (show s.Shows k ('(' :: (t.text sp ++ [')'])) from h).tail.left
  | neg t ih | not t ih =>
    refine spelled_of_items (by rw [tree]) rfl rfl h (forall_mem_singleton.2 ?_)
    rw [text] at h
    exact ih h.tail
  | transpose t ih | ctranspose t ih =>
    exact spelled_of_items (by rw [tree]) rfl rfl h (forall_mem_singleton.2 (ih h.left))
  | chain op first others ihf iho =>
    refine spelled_of_items (by rw [tree]) rfl rfl h ?_
    rw [text] at h
    refine spelled_trees_cons h fun u hu => ?_
    rcases mem_cons.mp hu with rfl | hu
    · exact ihf
    · exact iho u hu

end Term

namespace Parse

open Term

variable {st : Setting} {sp : Spacing} {t : Term} {k : Int} {rest : List Char}

/-- No token of a layered expression is lost or invented: the one tree that is read is spelled by
the source, node by node, and is un-parsed to the text of the expression without its blanks. Layered
expressions leave out (`Term.Meet`) a sum or difference after a quote or underscore, or without
blanks before a digit, which could be an exponent, and a minus sign after a tighter operator. -/
theorem exists_spelled_tree (ht : t.Layered sp) (hfresh : st.source.Fresh k)
    (h : st.source.Shows k (t.text sp ++ rest)) (hends : t.Ends rest) :
    ∃ tree stop,
      (Parse.expression k (some (k + (t.text sp).length - 1)) none).Yields st [tree] stop ∧
        tree.Spelled st.source ∧
        tree.unparse = inked (st.source.span k (k + (t.text sp).length)) := by
  refine ⟨t.tree sp k, _, yields_expression ht (fun _ => hfresh) h (by omega) hends (by simp),
    spelled_tree t h.left, ?_⟩
  rw [h.left.span, unparse_tree]

def two : WholeNumber :=
  ⟨['2'], by simp, by decide⟩

/-- A difference of a call and a transposed name. -/
def difference : Term :=
  .chain .minus (.call .c [.name .a, .numeral two])
    [.ctranspose (.name .b)]

/-- One blank around operators and after commas. -/
def spaced : Spacing :=
  ⟨fun _ => 1, 1⟩

lemma layered_difference : difference.Layered spaced := by
  refine .chain (by simp) (.call rfl ?_) ?_ (by decide) ⟨?_, by decide, trivial⟩
  · intro t ht
    simp at ht
    rcases ht with rfl | rfl
    · exact .name rfl
    · exact .numeral _
  · intro t ht
    rw [mem_singleton.mp ht]
    exact .ctranspose (.name rfl) rfl
  · refine ⟨fun _ => by decide, fun _ h => ?_, fun _ h => ?_, fun h => ?_⟩
    iterate 3 · exact absurd h (by decide)

def differenceLine : Source :=
  .ofString (String.ofList (difference.text spaced ++ ['\n']))

theorem exists_spelled_tree_difference :
    difference.text spaced = "c(a, 2) - b'".toList ∧ ∃ tree stop,
      (Parse.expression 0 (some (0 + (difference.text spaced).length - 1)) none).Yields
          { source := differenceLine } [tree] stop ∧
        tree.Spelled differenceLine ∧
        tree.unparse = inked (differenceLine.span 0 (0 + (difference.text spaced).length)) :=
  ⟨rfl, exists_spelled_tree layered_difference (fun h => absurd h (by decide))
    (Source.shows_ofList _) ⟨follows_of_char rfl rfl (by decide), by simp⟩⟩

/-- A minus sign after an operator that binds more than a difference is taken for a difference:
the operator before it is lost. -/
theorem unparse_product_of_negative : ∃ tree,
    (Parse.expression 0 (some 3) none).Yields { source := .ofString "a*-b\n" } [tree] 3 ∧
      tree.unparse = "a-b".toList :=
  ⟨_, ⟨_, rfl⟩, rfl⟩

end Parse

end ArmaGen
