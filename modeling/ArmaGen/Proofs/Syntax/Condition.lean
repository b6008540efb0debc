import ArmaGen.Proofs.Syntax.Reach
import ArmaGen.Proofs.Syntax.Sound.Program
import ArmaGen.Proofs.Syntax.Unparse

/-!
# Conditions

The condition of a branch or a loop ends where the expression after the keyword ends. If it does not
start with a parenthesis, it is read as a whole; if one pair of parentheses encloses it, what stands
between them is. In all other cases only the expression after the first parenthesis is read, and the
rest of the condition is lost (`Kept`).
A loop goes on one character behind its condition: where a comment stands there, its first
character is stepped over and the rest of it is read as code (`Edit.exists_load_while_comment`).
-/

namespace ArmaGen

open Scan

namespace Scan

variable {α β : Type} {a : α} {b : β}

lemma bind_mono {x : Scan α} {f g : α → Scan β} (h : (x >>= f) = .ok b)
    (hfg : ∀ a, f a = .ok b → g a = .ok b) : (x >>= g) = .ok b := by
  cases x with
  | error failure => cases h
  | ok a => exact hfg a h

lemma ite_mono {c : Prop} [Decidable c] {x y x' y' : Scan α}
    (h : (if c then x else y) = .ok a) (hx : x = .ok a → x' = .ok a)
    (hy : y = .ok a → y' = .ok a) : (if c then x' else y') = .ok a := by
  by_cases hc : c
  · rw [if_pos hc] at h ⊢
    exact hx h
  · rw [if_neg hc] at h ⊢
    exact hy h

end Scan

/-! ### The end of an expression after a break -/

namespace Source

variable {s : Source} {k j e stop : Int} {c : Char} {m n : Nat}

/-- More steps than needed do not change where an expression ends. -/
lemma expressionSteps_succ (h : s.expressionSteps n k = .ok e) :
    s.expressionSteps (n + 1) k = .ok e := by
  induction n generalizing k with
  | zero => cases h
  | succ n ih =>
    have hnext : ∀ {x : Scan Int}, (x >>= fun m => s.expressionSteps n (m + 1)) = .ok e →
        (x >>= fun m => s.expressionSteps (n + 1) (m + 1)) = .ok e :=
      fun h => bind_mono h fun _ => ih
    refine bind_mono h fun c h => ite_mono h hnext fun h => ite_mono h hnext
      fun h => bind_mono h fun _ h => ite_mono h hnext fun h => ite_mono h hnext
      fun h => ite_mono h hnext fun h => ite_mono h ?_ fun h => ite_mono h ?_
      fun h => ite_mono h id ih
    · exact fun h => bind_mono h fun _ h => ite_mono h ih id
    · exact fun h => bind_mono h fun _ h => ite_mono h ih ih

lemma expressionSteps_of_le (hle : m ≤ n) (h : s.expressionSteps m k = .ok e) :
    s.expressionSteps n k = .ok e := by
  induction hle with
  | refl => exact h
  | step _ ih => exact expressionSteps_succ ih

lemma expressionSteps_of_skipSteps (hskip : s.skipSteps isBlank m k = .ok j)
    (h : s.expressionSteps n k = .ok e) : s.expressionSteps n j = .ok e := by
  induction m generalizing k with
  | zero => cases hskip
  | succ m ih =>
    rw [skipSteps] at hskip
    cases hc : s.read k with
    | error failure => rw [hc] at hskip; cases hskip
    | ok c =>
      rw [hc, ok_bind] at hskip
      cases hblank : isBlank c with
      | false =>
        rw [hblank] at hskip
        cases hskip
        exact h
      | true =>
        rw [hblank] at hskip
        refine ih hskip ?_
        rcases n with _ | n
        · cases h
        have hdots : s.reads k "..." = false := by
          rw [← Bool.not_eq_true]
          intro hdots
          rw [read_of_reads hdots rfl] at hc
          exact ne_of_class hblank rfl (Except.ok.inj hc).symm
        have hends : endsExpression c = false := oneOf_eq_false hblank (by decide)
        have hstr := stringAt_eq_false hc (ne_of_class hblank rfl)
        rw [expressionSteps_char hc
          ⟨hdots, hstr, ne_of_class hblank rfl, ne_of_class hblank rfl, ne_of_class hblank rfl⟩,
            if_neg (ne_of_class hblank rfl), oneOf_eq_false hblank (by decide), hends] at h
        exact expressionSteps_succ h

lemma expressionEnd_eq_ok_iff : s.expressionEnd k = .ok stop ↔
    ∃ c e, s.read k = .ok c ∧ startsExpression c = true ∧ s.expressionSteps s.steps k = .ok e ∧
      s.backBlanks (e - 1) = .ok stop := by
  unfold expressionEnd
  cases hc : s.read k with
  | error failure => simp
  | ok c =>
    cases hstart : startsExpression c with
    | false =>
      simp only [ok_bind, hstart]
      constructor
      · intro h
        exact (gives_expected (P := fun _ => False) k _ h).elim
      · simp [hstart]
    | true =>
      cases hsteps : s.expressionSteps s.steps k with
      | error failure => simp [hstart]
      | ok e => simp [hstart]

lemma expressionEnd_of_dots (hdots : s.reads k "..." = true)
    (he : s.dotsEnd k = .ok e) (hj : s.skipBlanks (e + 1) = .ok j) (hc : s.read j = .ok c)
    (hstart : startsExpression c = true) (h : s.expressionEnd k = .ok stop) :
    s.expressionEnd j = .ok stop := by
  obtain ⟨d, r, hd, -, hsteps, hback⟩ := expressionEnd_eq_ok_iff.mp h
  have hdot : d = '.' := by
    rw [read_of_reads hdots rfl] at hd
    exact (Except.ok.inj hd).symm
  subst hdot
  rw [steps, expressionSteps] at hsteps
  simp only [hd, stringAt_eq_false hd (by decide), hdots, he] at hsteps
  refine expressionEnd_eq_ok_iff.mpr ⟨c, r, hc, hstart, ?_, hback⟩
  exact expressionSteps_of_le (by unfold steps; omega) (expressionSteps_of_skipSteps hj hsteps)

end Source

namespace Parse

variable {st : Setting} {made : List Syntax} {k stop e : Int}

variable {start : Int} {ends : Int × Int}

lemma Yields.of_expressionEnd {index : Parse Int} {f : Int → Parse Int}
    (hstop : ∀ last, st.source.expressionEnd start = .ok last → last = stop) (h : (do
      if (← liftM (st.source.read start)) == ':' then index
      else
        let last ← liftM (st.source.expressionEnd start)
        f last : Parse Int).Yields st made e) :
    (do if (← liftM (st.source.read start)) == ':' then index else f stop : Parse Int).Yields
      st made e := by
  obtain ⟨c, hc, h⟩ := h.exists_of_lift_bind
  rw [hc, yields_lift_bind]
  by_cases hcolon : (c == ':') = true
  · rwa [if_pos hcolon] at h ⊢
  · rw [if_neg hcolon] at h ⊢
    obtain ⟨last, hlast, h⟩ := h.exists_of_lift_bind
    rwa [← hstop last hlast]

section

variable (hend : st.source.expressionEnd k = .ok stop)

include hend

/-- If an expression is read up to where it ends, its end may as well be given. -/
lemma yields_expression_of_expressionEnd (h : (Parse.expression k none none).Yields st made e) :
    (Parse.expression k (some stop) none).Yields st made e := by
  unfold expression depthBound at h ⊢
  rw [yields_source_bind, show 32 * (st.source.size + 2) = 32 * st.source.size + 63 + 1 by omega,
    expressionSteps, expressionStep, yields_source_bind] at h ⊢
  cases hdots : st.source.reads k "..." with
  | false =>
    simp only [hdots] at h ⊢
    exact h.of_expressionEnd fun last hlast => Except.ok.inj (hlast.symm.trans hend)
  | true =>
    simp only [hdots, ite_true] at h ⊢
    obtain ⟨d, hd, h⟩ := h.exists_of_lift_bind
    obtain ⟨start, hstart, h⟩ := h.exists_of_lift_bind
    rw [hd, yields_lift_bind, hstart]
    refine h.of_expressionEnd fun last hlast => ?_
    obtain ⟨c, -, hc, hstarts, -⟩ := Source.expressionEnd_eq_ok_iff.mp hlast
    have := Source.expressionEnd_of_dots hdots hd hstart hc hstarts hend
    exact Except.ok.inj (hlast.symm.trans this)

/-- The text in a span is read as a whole. -/
def Covers (st : Setting) (start stop : Int) (made : List Syntax) : Prop :=
  ∃ e, (Parse.expression start (some stop) none).Yields st made e

/-- What is kept of the condition in `[k, stop]`. -/
inductive Kept (st : Setting) (k stop : Int) (made : List Syntax) : Prop where
  | whole (hopen : st.source.read k ≠ .ok '(') (hmade : Covers st k stop made)
  /-- All but one pair of parentheses that encloses it. -/
  | enclosed {first last : Int} (hopen : st.source.read k = .ok '(')
      (hclose : st.source.parenEnd k = .ok stop) (hfirst : st.source.skipBlanks (k + 1) = .ok first)
      (hlast : st.source.backBlanks (stop - 1) = .ok last) (hmade : Covers st first last made)
  /-- The expression after a parenthesis that does not enclose one expression and nothing else. -/
  | cut {first e : Int} (hopen : st.source.read k = .ok '(')
      (hfirst : st.source.skipBlanks (k + 1) = .ok first)
      (hother : ∀ last, st.source.parenEnd k = .ok stop →
        st.source.backBlanks (stop - 1) = .ok last → st.source.expressionEnd first ≠ .ok last)
      (hmade : (Parse.expression first none none).Yields st made e)

lemma kept_of_yields_condition (h : (condition k).Yields st made e) : Kept st k stop made := by
  obtain ⟨c, hc, h⟩ := h.exists_of_lift_bind
  by_cases hopen : c = '('
  · subst hopen
    obtain ⟨first, hfirst, h⟩ := h.exists_of_lift_bind
    by_cases hwhole : ∃ last, st.source.parenEnd k = .ok stop ∧
        st.source.backBlanks (stop - 1) = .ok last ∧ st.source.expressionEnd first = .ok last
    · obtain ⟨last, hclose, hlast, hend⟩ := hwhole
      exact .enclosed hc hclose hfirst hlast ⟨e, yields_expression_of_expressionEnd hend h⟩
    · exact .cut hc hfirst (fun last hclose hlast hend => hwhole ⟨last, hclose, hlast, hend⟩) h
  · simp only [beq_iff_eq, hopen] at h
    exact .whole (by simpa [hc] using hopen) ⟨e, yields_expression_of_expressionEnd hend h⟩

/-- A tree starts with what is kept of the condition at `k`, unless a name with a dot and no field
stands there. -/
def Guards (st : Setting) (k : Int) (kind : Kind) (tree : Syntax) : Prop :=
  ∃ head made body stop, tree = .node head (made ++ body) ∧ head.kind = kind ∧
    st.source.expressionEnd k = .ok stop ∧ Kept st k stop made ∧
    (st.source.Ended → Operand (st.source.LacksCondition k) made)

/-- A node whose parser reads a condition first keeps that condition. -/
lemma guards_of_yields {head : Head} {α : Type} {a : α} {f : Int → Parse α} {code : α → String}
    (h : (nodeThen head (condition k >>= f) code).Yields st made a) :
    ∃ tree, made = [tree] ∧ Guards st k head.kind tree := by
  obtain ⟨below, hbelow, rfl⟩ := h.exists_of_nodeThen
  obtain ⟨e, cond, body, hcond, -, rfl⟩ := hbelow.exists_of_bind
  refine ⟨_, rfl, _, cond, body, stop, rfl, rfl, hend, kept_of_yields_condition hend hcond,
    fun hs => ?_⟩
  obtain ⟨notes, hrun⟩ := hcond
  have := (sound_condition (m := .free) Int.le_rfl).gives hs rfl (by rw [hrun])
  rw [hrun] at this
  exact this.1

end

lemma Yields.exists_of_keyword_bind {β : Type} {b : β} {word : String} {f : Bool → Parse β}
    (h : (keyword word k >>= f).Yields st made b) :
    ∃ found, st.source.readsThen k word endsKeyword = .ok found ∧ (f found).Yields st made b := by
  obtain ⟨found, first, rest, hfound, hrest, rfl⟩ := h.exists_of_bind
  unfold keyword at hfound
  rw [yields_source_bind, yields_lift_iff] at hfound
  rw [hfound.2]
  exact ⟨found, hfound.1, hrest⟩

lemma not_yields_expected {α : Type} {a : α} {what : String} :
    ¬ (expected k what : Parse α).Yields st made a := by
  rintro ⟨notes, h⟩
  exact @Gives.expected _ _ (fun _ _ => False) k what st rfl a (by rw [h])

variable {block : BlockParser} {cur r : Int}

lemma exists_guards_of_while (h : (whileStatement block cur).Yields st made r) :
    ∃ k tree, st.source.skipBlanks (cur + 5) = .ok k ∧ made = [tree] ∧
      Guards st k .whileLoop tree := by
  unfold whileStatement at h
  rw [yields_source_bind] at h
  obtain ⟨ends, -, h⟩ := h.exists_of_lift_bind
  split at h
  · exact absurd h not_yields_expected
  obtain ⟨k, hk, h⟩ := h.exists_of_lift_bind
  obtain ⟨stop, hend, h⟩ := h.exists_of_lift_bind
  rw [yields_progress_bind] at h
  obtain ⟨tree, hmade, htree⟩ := guards_of_yields hend h
  exact ⟨k, tree, hk, hmade, htree⟩

def GuardsElif (st : Setting) (tree : Syntax) : Prop :=
  ∃ cur k, st.source.readsThen cur "elseif" endsKeyword = .ok true ∧
    st.source.skipBlanks (cur + 6) = .ok k ∧ Guards st k .elif tree

lemma guardsElif_of_elifs {n : Nat} (h : (elifs block n start cur).Yields st made ends) :
    ∀ tree ∈ made, GuardsElif st tree := by
  induction n generalizing made start cur with
  | zero => exact absurd h not_yields_fail
  | succ n ih =>
    obtain ⟨found, hfound, h⟩ := h.exists_of_keyword_bind
    cases found with
    | false =>
      rw [(yields_pure_iff.mp h).2]
      simp
    | true =>
      obtain ⟨k, hk, h⟩ := h.exists_of_lift_bind
      obtain ⟨stop, hend, h⟩ := h.exists_of_lift_bind
      rw [yields_progress_bind] at h
      obtain ⟨next, first, rest, hfirst, hrest, rfl⟩ := h.exists_of_bind
      obtain ⟨tree, rfl, htree⟩ := guards_of_yields hend hfirst
      rw [List.singleton_append, List.forall_mem_cons]
      exact ⟨⟨cur, k, hfound, hk, htree⟩, ih hrest⟩

lemma exists_of_yields_elsePart (h : (elsePart block start cur).Yields st made ends) :
    made = [] ∨ ∃ head items, made = [.node head items] ∧ head.kind = .elseBranch := by
  unfold elsePart at h
  rw [yields_source_bind] at h
  obtain ⟨found, -, h⟩ := h.exists_of_keyword_bind
  cases found with
  | false => exact .inl (yields_pure_iff.mp h).2
  | true =>
    rw [if_pos rfl, yields_progress_bind] at h
    obtain ⟨next, first, rest, hfirst, hrest, rfl⟩ := h.exists_of_bind
    obtain ⟨below, -, rfl⟩ := hfirst.exists_of_nodeThen
    rw [(yields_pure_iff.mp hrest).2]
    exact .inr ⟨_, below, rfl, rfl⟩

lemma exists_guards_of_if (h : (ifStatement block cur).Yields st made r) :
    ∃ k head first elifs rest, st.source.skipBlanks (cur + 2) = .ok k ∧
      made = [.node head (first :: elifs ++ rest)] ∧ Guards st k .ifBranch first ∧
      (∀ tree ∈ elifs, GuardsElif st tree) ∧
      (rest = [] ∨ ∃ head items, rest = [.node head items] ∧ head.kind = .elseBranch) := by
  unfold ifStatement at h
  rw [yields_source_bind] at h
  obtain ⟨found, -, h⟩ := h.exists_of_keyword_bind
  cases found with
  | false => exact absurd h not_yields_expected
  | true =>
    simp only [Bool.not_true, Bool.false_eq_true, ite_false] at h
    obtain ⟨below, ends, hbelow, rfl, -⟩ := Yields.exists_of_wrap h
    obtain ⟨k, hk, hbelow⟩ := hbelow.exists_of_lift_bind
    obtain ⟨c, -, hbelow⟩ := hbelow.exists_of_lift_bind
    split at hbelow
    · exact absurd hbelow not_yields_expected
    obtain ⟨stop, hend, hbelow⟩ := hbelow.exists_of_lift_bind
    rw [yields_progress_bind] at hbelow
    obtain ⟨next, first, others, hfirst, hothers, rfl⟩ := hbelow.exists_of_bind
    obtain ⟨tree, rfl, htree⟩ := guards_of_yields hend hfirst
    obtain ⟨ends, elifs, rest, helifs, hrest, rfl⟩ := hothers.exists_of_bind
    exact ⟨k, _, tree, elifs, rest, hk, rfl, htree, guardsElif_of_elifs helifs,
      exists_of_yields_elsePart hrest⟩

/-- A branch with a condition in parentheses, and one with a condition that has none. -/
def branchLines : Setting :=
  { source := .ofString "if (a)\nelseif b\nend\n\n\n" }

lemma yields_branchLines : ∃ made r, (ifStatement Parse.block 0).Yields branchLines made r :=
  ⟨_, _, _, rfl⟩

end Parse

/-- The comment after the condition of a loop is read as a use of a variable. -/
theorem Edit.exists_load_while_comment : ∃ p, load "unamed" "while a%c\nend\n" {} = .ok () p ∧
    ∃ node ∈ p.nodes, node.kind = .var ∧ node.name = "c" := by
  have hruns : (load "unamed" "while a%c\nend\n").passes {} (fun _ p =>
      decide (∃ node ∈ p.nodes, node.kind = .var ∧ node.name = "c")) = true := by decide +kernel
  obtain ⟨⟨⟩, p, hload, hnode⟩ := exists_of_passes hruns
  exact ⟨p, hload, of_decide_eq_true hnode⟩

end ArmaGen
