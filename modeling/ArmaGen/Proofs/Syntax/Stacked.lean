import ArmaGen.Proofs.Syntax.Unparse

/-!
# Recovering operator trees

A stacked tree has nodes of operators whose operands are leaves or nodes of operators that stand
later in the order (`Term.Stacked`). Written with one blank around each operator and after each
comma it is layered (`Stacked.layered`), so that reading the text gives the tree back
(`yields_tree_of_stacked`). Names are read as variables without blanks too, but for a few spellings
(`yields_tree_of_names`).
-/

namespace ArmaGen

/-- Whether a name may stand before a sum or a difference: it does not end with an underscore. -/
def Name.isClosed (n : Name) : Bool :=
  n.chars.getLast? != some '_'

namespace Term

/-- A tree of operators in which every operand is a leaf or a node of a later operator. -/
inductive Stacked : Term → Prop where
  | name {n : Name} (hn : n.isVariable = true) (hclosed : n.isClosed = true) : Stacked (.name n)
  | numeral (d : WholeNumber) : Stacked (.numeral d)
  | call {f : Name} {args : List Term} (hf : f.isVariable = true) (hclosed : f.isClosed = true)
      (hargs : ∀ t ∈ args, Stacked t) : Stacked (.call f args)
  | paren {t : Term} (ht : Stacked t) : Stacked (.paren t)
  | chain {op : Operator} {first : Term} {others : List Term} (hne : others ≠ [])
      (hfirst : Stacked first) (hothers : ∀ t ∈ others, Stacked t)
      (hlater : ∀ t ∈ first :: others, op.rank < t.level) : Stacked (.chain op first others)

variable {sp : Spacing} {op : Operator} {t first : Term} {others : List Term}

lemma Stacked.startsMinus_eq_false (ht : t.Stacked) : t.startsMinus = false := by
  induction ht with
  | chain _ _ _ _ ihf => exact ihf
  | _ => rfl

lemma Stacked.startsQuoted_eq_false (ht : t.Stacked) : t.startsQuoted = false := by
  induction ht with
  | chain _ _ _ _ ihf => exact ihf
  | _ => rfl

lemma endsOperand_of_isDigit {c : Char} (h : isDigit c = true) : ArmaGen.endsOperand c = true := by
  simp [ArmaGen.endsOperand, isAlnum, h]

lemma Stacked.exists_last (ht : t.Stacked) :
    ∃ cs c, t.text sp = cs ++ [c] ∧ ArmaGen.endsOperand c = true := by
  induction ht with
  | @name n _ hclosed =>
    obtain ⟨d, ds, h, -⟩ := n.exists_chars
    have hne : n.chars ≠ [] := by simp [h]
    refine ⟨_, _, (List.dropLast_concat_getLast hne).symm, ?_⟩
    -- a character of a word is a letter or a digit unless it is an underscore
    have hword := n.isWord_of_mem (List.getLast_mem hne)
    rw [Name.isClosed, List.getLast?_eq_some_getLast hne, bne_iff_ne, ne_eq,
      Option.some.injEq] at hclosed
    rw [isWord, Bool.or_eq_true, beq_iff_eq, or_iff_left hclosed] at hword
    simp [ArmaGen.endsOperand, hword]
  | numeral d =>
    exact ⟨_, _, (List.dropLast_concat_getLast d.nonempty).symm,
      endsOperand_of_isDigit (d.spelled _ (List.getLast_mem d.nonempty))⟩
  | call | paren => exact ⟨_, _, by rw [text], by decide⟩
  | chain _ _ _ _ ihf iho =>
    exact exists_last_tailed ihf iho

lemma Stacked.endsOperand_eq (ht : t.Stacked) : t.endsOperand sp = true := by
  obtain ⟨cs, c, h, hc⟩ : ∃ cs c, t.text sp = cs ++ [c] ∧ ArmaGen.endsOperand c = true :=
    ht.exists_last
  simp [endsOperand, h, hc]

/-- Stacked trees can be told apart wherever there is a blank around operators. -/
lemma Stacked.meet {l r : Term} (hl : l.Stacked) (hr : r.Stacked) (hroom : sp.around op ≠ 0) :
    Meet sp op l r where
  ends := fun _ => hl.endsOperand_eq
  exponent := fun _ h => absurd h hroom
  sign := fun _ h => absurd h (by simp [hr.startsMinus_eq_false])
  dot := fun _ _ => hroom

lemma linked_of_stacked (hroom : sp.around op ≠ 0) (hfirst : first.Stacked)
    (hothers : ∀ t ∈ others, t.Stacked) (hlater : ∀ t ∈ others, op.rank < t.level) :
    Linked sp op first others := by
  induction others generalizing first with
  | nil => trivial
  | cons t ts ih =>
    rw [List.forall_mem_cons] at hothers hlater
    exact ⟨hfirst.meet hothers.1 hroom, hlater.1, ih hothers.1 hothers.2 hlater.2⟩

lemma Stacked.layered (ht : t.Stacked) (hroom : ∀ op, sp.around op ≠ 0) : t.Layered sp := by
  induction ht with
  | name hn => exact .name hn
  | numeral d => exact .numeral d
  | call hf _ _ ih => exact .call hf ih
  | paren _ ih => exact .paren ih
  | @chain op first others hne hfirst hothers hlater ihf iho =>
    rw [List.forall_mem_cons] at hlater
    exact .chain hne ihf iho hlater.1 (linked_of_stacked (hroom op) hfirst hothers hlater.2)

/-- A name by itself, with a quote after it, or with an operator and another name after it. -/
inductive OfNames : Term → Prop where
  | name {w : Name} (hw : w.isVariable = true) : OfNames (.name w)
  | ctranspose {w : Name} (hw : w.isVariable = true)
      (hcase : "case".toList.isSuffixOf w.chars = false) : OfNames (.ctranspose (.name w))
  | transpose {w : Name} (hw : w.isVariable = true) : OfNames (.transpose (.name w))
  | chain {op : Operator} {w x : Name} (hw : w.isVariable = true) (hx : x.isVariable = true)
      (hclosed : op.isSign = true → w.isClosed = true) : OfNames (.chain op (.name w) [.name x])

lemma OfNames.layered (ht : t.OfNames) : t.Layered sp := by
  cases ht with
  | name hw => exact .name hw
  | ctranspose hw hcase => exact .ctranspose (.name hw) (by rw [takesQuote, hcase]; rfl)
  | transpose hw => exact .transpose (.name hw) rfl
  | @chain op w x hw hx hclosed =>
    have hlevel : op.rank < Operator.inOrder.length := by cases op <;> decide
    have hletter : (Term.name x).startsDigit sp = false := by
      obtain ⟨c, cs, hchars, hc, -⟩ := x.exists_chars
      simp [startsDigit, text, hchars, isDigit_eq_false_of_isLetter hc]
    refine .chain (by simp) (.name hw) (by simp [Layered.name hx]) hlevel ⟨?_, hlevel, trivial⟩
    exact ⟨fun h => (Stacked.name hw (hclosed h)).endsOperand_eq, fun _ _ => hletter,
      fun _ h => (by cases h), fun h => (by cases h)⟩

end Term

namespace Parse

open Term

/-- Reading a stacked tree up to the end of its text makes that tree and nothing else, whatever
stands before it and after its line. -/
theorem yields_tree_of_stacked {t : Term} (ht : t.Stacked) {st : Setting} {k : Int}
    {rest : List Char} (h : st.source.Shows k (t.text spaced ++ '\n' :: rest)) :
    (Parse.expression k (some (k + (t.text spaced).length - 1)) none).Yields st
      [t.tree spaced k] (k + (t.text spaced).length - 1 - t.unread) :=
  yields_expression (ht.layered fun _ => Nat.one_ne_zero)
    (fun hq => absurd hq (by simp [ht.startsQuoted_eq_false])) h (by omega)
    ⟨follows_of_char rfl rfl (by decide), by simp⟩ (by simp)

/-- A sum of a product and a power. -/
def layers : Term :=
  .chain .plus
    (.chain .mul (.call .c [.name .a, .numeral two])
      [.name .b, .call .a []])
    [.chain .exp (.paren (.chain .land (.name .a) [.chain .lt (.name .b) [.name .c]])) [.name .b]]

lemma stacked_layers : layers.Stacked := by
  have ha : (name .a).Stacked := .name rfl rfl
  have hb : (name .b).Stacked := .name rfl rfl
  have hc : (name .c).Stacked := .name rfl rfl
  refine .chain (by simp) (.chain (by simp) (.call rfl rfl ?_) ?_ (by decide)) ?_ (by decide)
  · simp [ha, Stacked.numeral]
  · simpa [hb] using Stacked.call rfl rfl (by simp)
  · have hless : (chain .lt (.name .b) [.name .c]).Stacked :=
      .chain (by simp) hb (by simpa using hc) (by decide)
    have hand : (chain .land (.name .a) [.chain .lt (.name .b) [.name .c]]).Stacked :=
      .chain (by simp) ha (by simpa using hless) (by decide)
    simpa using Stacked.chain (by simp) (.paren hand) (by simpa using hb) (by decide)

theorem yields_tree_of_stacked_layers :
    layers.text spaced = "c(a, 2) * b * a() + (a && b < c) ^ b".toList ∧ layers.Stacked ∧
      (Parse.expression 3 (some (3 + (layers.text spaced).length - 1)) none).Yields
        { source := .ofString (String.ofList ("cas".toList ++ (layers.text spaced ++ ['\n']))) }
        [layers.tree spaced 3] (3 + (layers.text spaced).length - 1 - layers.unread) :=
  ⟨by decide, stacked_layers, yields_tree_of_stacked stacked_layers
    (Source.shows_ofList ("cas".toList ++ (layers.text spaced ++ ['\n']))).right⟩

/-- A name is read as the variable it names, with the quotes after it and in sums, differences and
the other operators without blanks: but for names that start with `end`, a quote after `case`, and a
sign after an underscore. -/
theorem yields_tree_of_names {t : Term} (ht : t.OfNames) {st : Setting} {sp : Spacing} {k : Int}
    {c : Char} {cs : List Char} (hfresh : st.source.Fresh k)
    (h : st.source.Shows k (t.text sp ++ c :: cs)) (hc : c = '\n' ∨ c = ';') :
    (Parse.expression k none none).Yields st [t.tree sp k] (k + (t.text sp).length - 1) := by
  have hunread : t.unread = 0 := by cases ht <;> rfl
  have hread := yields_expression_none ht.layered hfresh h
    (by rcases hc with rfl | rfl <;> decide)
    ⟨by rcases hc with rfl | rfl <;> exact follows_of_char rfl rfl (by decide),
      by rcases hc with rfl | rfl <;> simp⟩
  rwa [hunread, Int.natCast_zero, Int.sub_zero] at hread

theorem yields_tree_of_names_sum :
    (Term.chain .minus (.name ⟨"casend2".toList, rfl⟩) [.name .b]).OfNames ∧
      (Parse.expression 0 none none).Yields { source := .ofString "casend2-b;" }
        [.node { kind := .minus, cur? := some 0, code? := some "casend2-b" }
          [.node { kind := .var, name := "casend2", cur? := some 0, code? := some "casend2" } [],
            .node { kind := .var, name := "b", cur? := some 8, code? := some "b" } []]] 8 := by
  have ht : (Term.chain .minus (.name ⟨"casend2".toList, rfl⟩) [.name .b]).OfNames :=
    .chain rfl rfl fun _ => rfl
  exact ⟨ht, @yields_tree_of_names _ ht _ ⟨fun _ => 0, 0⟩ _ _ _ (fun h => absurd h (by decide))
    (Source.shows_ofList _) (.inr rfl)⟩

end Parse

end ArmaGen
