import ArmaGen.Proofs.Syntax.Term
import ArmaGen.Syntax.Expression

/-!
# Splitting expressions at operators

`s.Passes op last k last' k'` says that looking for `op` from `k` on, with an operand that ended at
`last`, goes as far as `k'` without finding it. What is no chain is passed as a whole
(`Term.Layered.passes`).
-/

namespace ArmaGen

open List

/-! ### Symbols of operators -/

/-- A character that ends a symbol of two. -/
def endsSymbol (c : Char) : Bool :=
  oneOf "|&=*/\\^" c

lemma endsSymbol_eq_false {c : Char} (h : startsTerm c = true) : endsSymbol c = false :=
  oneOf_eq_false h (by decide)

namespace Operator

lemma mem_inOrder (op : Operator) : op ∈ inOrder := by
  cases op <;> decide

lemma not_prefix_drop {op o : Operator} (h : op.rank < o.rank) (n : Nat)
    (hn : n < o.symbol.toList.length) : ¬ op.symbol.toList <+: o.symbol.toList.drop n := by
  have table : ∀ op ∈ inOrder, ∀ o ∈ inOrder, op.rank < o.rank →
      ∀ n < o.symbol.toList.length, ¬ op.symbol.toList <+: o.symbol.toList.drop n := by
    decide
  exact table op (mem_inOrder op) o (mem_inOrder o) h n hn

lemma symbol_ne_nil (op : Operator) : op.symbol.toList ≠ [] := by
  cases op <;> decide

lemma symbol_ne_concat (op : Operator) {x c : Char} {xs : List Char}
    (hc : endsSymbol c = false) : op.symbol.toList ≠ x :: xs ++ [c] := by
  intro h
  have hlast : ∀ d ∈ op.symbol.toList.getLast?, 2 ≤ op.symbol.toList.length →
      endsSymbol d = true := by
    cases op <;> decide
  rw [hlast c (h ▸ getLast?_concat) (by rw [h]; simp)] at hc
  cases hc

end Operator

/-! ### Going on within an operand -/

/-- A character inside an expression that is neither of a name, nor a bracket, nor a quote. -/
def isInert (c : Char) : Bool :=
  oneOf " +-*/\\^:&|=><~." c

namespace Source

variable {s : Source} {op : Operator} {last k last' k' : Int} {c : Char} {cs ds : List Char}

/-- Looking for the operator from `k` on goes as far as `k'` without finding it; the operand before
ended at `last`, then at `last'`. -/
inductive Passes (s : Source) (op : Operator) : Int → Int → Int → Int → Prop where
  | done (last k : Int) : Passes s op last k last k
  | within {last k l e last' k' : Int} (h : s.pieceAt op last k = .ok (.within l e)) (hle : k ≤ e)
      (rest : Passes s op l (e + 1) last' k') : Passes s op last k last' k'
  | sign {last k last' k' : Int} (h : s.pieceAt op last k = .ok (.sign (k + 1)))
      (hlt : k + 1 < k') (rest : Passes s op last (k + 1) last' k') : Passes s op last k last' k'

section

variable (h : s.Passes op last k last' k')

include h

lemma Passes.le : k ≤ k' := by
  induction h with
  | done => omega
  | within _ _ _ ih => omega
  | sign _ _ _ _ => omega

lemma Passes.trans {last'' k'' : Int} (h' : s.Passes op last' k' last'' k'') :
    s.Passes op last k last'' k'' := by
  induction h with
  | done => exact h'
  | within h hle _ ih => exact .within h hle (ih h')
  | sign h hlt _ ih =>
    have := h'.le
    exact .sign h (by omega) (ih h')

lemma Passes.cast {l e : Int} (hl : last' = l) (he : k' = e) : s.Passes op last k l e := hl ▸ he ▸ h

end

lemma reads_symbol_word (hk : 0 ≤ k) (hc : s.read k = .ok c) (hw : isWord c = true) :
    s.reads k op.symbol = false := by
  obtain ⟨x, xs, hx⟩ := exists_cons_of_ne_nil op.symbol_ne_nil
  refine reads_eq_false_of_read hk hc hx ?_
  exact (ne_of_class hw (isWord_of_mem_symbol (show x ∈ op.symbol.toList by simp [hx]))).symm

lemma ne_of_opening {p : Char → Bool} (hp : p c = true)
    (hclass : ∀ d ∈ ['(', '[', '\x7b', '\''], p d = false) :
    c ≠ '(' ∧ c ≠ '[' ∧ c ≠ '\x7b' ∧ c ≠ '\'' := by
  simp only [forall_mem_cons] at hclass
  exact ⟨ne_of_class hp hclass.1, ne_of_class hp hclass.2.1, ne_of_class hp hclass.2.2.1,
    ne_of_class hp hclass.2.2.2.1⟩

lemma pieceAt_inert (hc : s.read k = .ok c) (hi : isInert c = true)
    (hop : s.reads k op.symbol = false) : s.pieceAt op last k = .ok (.within last k) := by
  have hword : isWord c = false :=
    of_oneOf hi (show ∀ d ∈ " +-*/\\^:&|=><~.".toList, isWord d = false by decide)
  unfold pieceAt
  simp [hc, ne_of_opening hi (by decide), hword, hop]

lemma Passes.word (h : s.Shows k cs) (hne : cs ≠ []) (hw : ∀ c ∈ cs, isWord c = true) :
    s.Passes op last k (k + cs.length - 1) (k + cs.length) := by
  induction cs generalizing k last with
  | nil => exact absurd rfl hne
  | cons c cs ih =>
    have hword := hw c (.head _)
    have hpiece : s.pieceAt op last k = .ok (.within k k) := by
      unfold pieceAt
      simp [h.read, ne_of_opening hword (by decide), reads_symbol_word h.nonneg h.read hword, hword]
    refine .within hpiece Int.le_rfl ?_
    by_cases hcs : cs = []
    · subst hcs
      exact (Passes.done k (k + 1)).cast (by simp) (by simp)
    · refine (ih h.tail hcs fun d hd => hw d (.tail _ hd)).cast ?_ ?_ <;>
        rw [length_cons] <;> omega

lemma Passes.inert (h : s.Shows k (ds ++ c :: cs)) (hc : endsSymbol c = false)
    (hds : ∀ d ∈ ds, isInert d = true)
    (hop : ∀ n < ds.length, ¬ op.symbol.toList <+: ds.drop n) :
    s.Passes op last k last (k + ds.length) := by
  induction ds generalizing k with
  | nil => exact (Passes.done last k).cast rfl (by simp)
  | cons d ds ih =>
    have hreads : s.reads k op.symbol = false := by
      rw [← Bool.not_eq_true, reads_iff h.nonneg]
      intro hshow
      have hshows : s.Shows k (d :: ds ++ [c]) := h.upto
      have hlen : op.symbol.toList.length ≤ 2 := by cases op <;> decide
      have hstarts := prefix_of_prefix_length_le hshow.2 hshows.2 (by simp; omega)
      rcases prefix_concat_iff.mp hstarts with heq | hin
      · exact op.symbol_ne_concat hc heq
      · exact hop 0 (by simp) hin
    refine .within (pieceAt_inert h.read (hds d (.head _)) hreads) Int.le_rfl ?_
    refine (ih h.tail (fun x hx => hds x (.tail _ hx)) ?_).cast rfl ?_
    · intro n hn
      exact hop (n + 1) (by rw [length_cons]; omega)
    · rw [length_cons]
      omega

lemma Passes.char {d : Char} (h : s.Shows k (d :: c :: cs)) (hc : endsSymbol c = false)
    (hd : isInert d = true) (hop : op.symbol.toList ≠ [d]) : s.Passes op last k last (k + 1) := by
  have hshow : s.Shows k ([d] ++ c :: cs) := h
  refine Passes.inert hshow hc (by simpa using hd) ?_
  intro n hn hstarts
  obtain rfl : n = 0 := by simpa using hn
  rcases prefix_concat_iff.mp (show op.symbol.toList <+: [] ++ [d] from hstarts) with h | h
  · exact hop h
  · exact op.symbol_ne_nil (prefix_nil.mp h)

lemma Passes.group {e : Int} (hk : 0 ≤ k) (hc : s.read k = .ok '(') (he : s.Closes .paren k e)
    (hsize : e < s.size) : s.Passes op last k e (e + 1) := by
  refine .within ?_ (Int.le_of_lt he.1) (.done _ _)
  unfold pieceAt
  simp [hc, parenEnd, he.close_eq hk hsize]

lemma Passes.quote (hc : s.read k = .ok '\'') (ho : s.opensString k = .ok false) :
    s.Passes op last k k (k + 1) := by
  refine .within ?_ Int.le_rfl (.done _ _)
  unfold pieceAt
  simp [hc, ho]

lemma Passes.room {n : Nat} (h : s.Shows k (room n ++ c :: cs)) :
    s.Passes op last k last (k + (room n).length) := by
  induction n generalizing k with
  | zero => exact (Passes.done last k).cast rfl (by simp [ArmaGen.room])
  | succ n ih =>
    have hread : s.read k = .ok ' ' := h.read
    have hblank : ∀ x ∈ op.symbol.toList.head?, x ≠ ' ' := by cases op <;> decide
    obtain ⟨x, xs, hx⟩ := exists_cons_of_ne_nil op.symbol_ne_nil
    have hreads : s.reads k op.symbol = false :=
      reads_eq_false_of_read h.nonneg hread hx (hblank x (by simp [hx]))
    refine .within (pieceAt_inert hread (by decide) hreads) Int.le_rfl ?_
    refine (ih h.tail).cast rfl ?_
    simp only [ArmaGen.room, length_replicate]
    omega

lemma Passes.joint {sp : Spacing} {o : Operator} (hrank : op.rank < o.rank)
    (h : s.Shows k (sp.joint o ++ c :: cs)) (hc : endsSymbol c = false) :
    s.Passes op last k last (k + (sp.joint o).length) := by
  unfold Spacing.joint at h ⊢
  rw [append_assoc, append_assoc] at h
  obtain ⟨x, xs, hx⟩ := exists_cons_of_ne_nil o.symbol_ne_nil
  have hbefore : s.Passes op last k last (k + (ArmaGen.room (sp.around o)).length) := by
    rw [hx] at h
    exact .room h
  obtain ⟨d, ds, hds, hd⟩ := exists_room_append (sp.around o) c cs
  have hsymbol : s.Passes op last (k + (ArmaGen.room (sp.around o)).length) last
      (k + (ArmaGen.room (sp.around o)).length + o.symbol.toList.length) := by
    refine .inert (hds ▸ h.right) ?_ ?_ fun n hn => Operator.not_prefix_drop hrank n hn
    · rcases hd with rfl | rfl
      · decide
      · exact hc
    · cases o <;> decide
  refine (hbefore.trans (hsymbol.trans (.room h.right.right))).cast rfl ?_
  simp only [length_append]
  omega

lemma pieceAt_sign (hk : s.read k = .ok '-') (hreads : s.reads k "-" = true)
    (hlast : s.read last = .ok c) (hc : endsOperand c = false) :
    s.pieceAt .minus last k = .ok (.sign (k + 1)) := by
  have hsign : s.isSignAt last k = .ok true := by
    unfold endsOperand at hc
    unfold isSignAt
    simp only [hlast, Scan.ok_bind, hc, Bool.not_false, ite_true, Scan.pure_eq_ok]
  unfold pieceAt
  simp [hk, Operator.symbol, Operator.isSign, hreads, hsign]

end Source

namespace Term

open Source

variable {sp : Spacing} {s : Source} {op : Operator} {last k : Int} {t : Term}

lemma last_ne_quote {cs : List Char} {c : Char} (hp : t.isPrimary = true)
    (h : t.text sp = cs ++ [c]) : c ≠ '\'' := by
  have hmem : c ∈ t.text sp := by simp [h]
  cases t with
  | name n => exact ne_of_class (n.isWord_of_mem hmem) rfl
  | numeral d => exact ne_of_class (d.spelled c hmem) rfl
  | call f args =>
    rw [← cons.inj (append_inj' h rfl).2 |>.1]
    decide
  | paren t =>
    rw [← cons.inj (append_inj' h rfl).2 |>.1]
    decide
  | _ => cases hp

/-- The last character of a written expression, and whether a sum is recognised after it. -/
lemma exists_read_last (h : s.Shows k (t.text sp)) :
    ∃ c, s.read (k + (t.text sp).length - 1) = .ok c ∧ endsTerm c = true ∧
      t.endsOperand sp = ArmaGen.endsOperand c ∧ (t.isPrimary = true → c ≠ '\'') := by
  obtain ⟨cs, c, hlast, hc⟩ := t.exists_last sp
  refine ⟨c, ?_, hc, ?_, fun hp => last_ne_quote hp hlast⟩
  · rw [hlast] at h ⊢
    rw [length_append, length_singleton, show k + (cs.length + 1 : Nat) - 1 = k + cs.length by
      omega]
    exact h.right.read
  · simp [endsOperand, hlast]

/-- A minus sign at the start of an expression is no difference: no operand has just ended. -/
def NoDifference (s : Source) (op : Operator) (last : Int) (t : Term) : Prop :=
  op = .minus → t.startsMinus = true → ∃ c, s.read last = .ok c ∧ ArmaGen.endsOperand c = false

lemma noDifference_of_isPrimary (last : Int) (h : t.isPrimary = true) :
    NoDifference s op last t := by
  intro _ hminus
  rw [startsMinus_of_isPrimary h] at hminus
  cases hminus

/-- No operator splits a term that is no chain: one case for each form of a term. -/
lemma Layered.passes (ht : t.Layered sp) (hchain : t.isChain = false)
    (hfresh : t.startsQuoted = true → s.Fresh k) (h : s.Shows k (t.text sp))
    (hsign : NoDifference s op last t) :
    s.Passes op last k (k + (t.text sp).length - 1) (k + (t.text sp).length) := by
  induction ht generalizing last k with
  | @name n _ =>
    obtain ⟨c, cs, hchars, -⟩ := n.exists_chars
    exact .word h (by simp [text, hchars]) fun c hc => n.isWord_of_mem hc
  | numeral d => exact .word h d.nonempty fun c hc => isWord_of_isDigit (d.spelled c hc)
  | @call f args _ hargs _ =>
    rw [text, append_assoc] at h ⊢
    obtain ⟨c, cs, hchars, -⟩ := f.exists_chars
    have hname : s.Passes op last k _ _ :=
      .word h.left (by simp [hchars]) fun c hc => f.isWord_of_mem hc
    have hclose := (runs_group (fun t ht => (hargs t ht).runs) h.right).1
    have hsize := h.end_le (by simp)
    simp at hsize ⊢
    refine (hname.trans (.group h.right.nonneg h.right.read hclose (by omega))).cast ?_ ?_ <;>
      omega
  | @paren t ht _ =>
    rw [text, ← joined_singleton t] at h
    have hclose := (runs_group (fun u hu => (mem_singleton.mp hu ▸ ht).runs) h).1
    have hsize := h.end_le (by simp)
    simp only [text, joined_singleton, length_append, length_cons, length_nil] at hsize hclose ⊢
    refine (Passes.group h.nonneg h.read hclose (by omega)).cast ?_ ?_ <;> omega
  | @neg t _ hc ih =>
    rw [text] at h ⊢
    obtain ⟨c, cs, hhead, hstart⟩ := t.exists_head sp
    have hrest := ih hc (fun _ => fresh_after h rfl) h.tail fun hop _ => hsign hop rfl
    have hpos : 0 < (t.text sp).length := by simp [hhead]
    by_cases hop : op = .minus
    · subst hop
      obtain ⟨d, hd, hends⟩ := hsign rfl rfl
      have hreads := (show s.Shows k ("-".toList ++ t.text sp) from h).reads
      refine (Passes.sign (pieceAt_sign h.read hreads hd hends) (by omega) hrest).cast ?_ ?_ <;>
        rw [length_cons] <;> omega
    · have hminus : s.Passes op last k last (k + 1) := by
        refine .char (hhead ▸ h) (endsSymbol_eq_false hstart) (by decide) ?_
        revert hop
        cases op <;> decide
      refine (hminus.trans hrest).cast ?_ ?_ <;> rw [length_cons] <;> omega
  | @not t _ hc ih =>
    rw [text] at h ⊢
    obtain ⟨c, cs, hhead, hstart⟩ := t.exists_head sp
    have hrest := ih hc (fun _ => fresh_after h rfl) h.tail hsign
    have htilde : s.Passes op last k last (k + 1) :=
      .char (hhead ▸ h) (endsSymbol_eq_false hstart) (by decide) (by cases op <;> decide)
    refine (htilde.trans hrest).cast ?_ ?_ <;> rw [length_cons] <;> omega
  | @transpose t _ hq ih =>
    rw [text] at h ⊢
    have hprimary := isPrimary_of_takesDot hq
    have hbefore := ih (isChain_of_isPrimary hprimary) hfresh h.left
      (noDifference_of_isPrimary last hprimary)
    have hdot := h.right
    have hquote : s.opensString (k + (t.text sp).length + 1) = .ok false :=
      opensString_dot hdot.tail.read (by rw [Int.add_sub_cancel]; exact hdot.read)
    have hpass : s.Passes op (k + (t.text sp).length - 1) (k + (t.text sp).length) _ _ :=
      (Passes.char hdot (by decide) (by decide) (by cases op <;> decide)).trans
        (.quote hdot.tail.read hquote)
    refine (hbefore.trans hpass).cast ?_ ?_ <;>
      simp <;> omega
  | @ctranspose t _ hq ih =>
    rw [text] at h ⊢
    have hprimary := isPrimary_of_takesQuote hq
    have hbefore := ih (isChain_of_isPrimary hprimary) (fun _ => hfresh rfl) h.left
      (noDifference_of_isPrimary last hprimary)
    refine (hbefore.trans
      (.quote h.right.read (opensString_after hq (hfresh rfl) h))).cast ?_ ?_ <;>
      simp <;> omega
  | chain => cases hchain

end Term

/-! ### The loop -/

namespace Source

variable {s : Source} {op : Operator} {last k last' k' start stop : Int} {c : Char}
  {cs : List Char} {done r : List (Int × Int)}

lemma splitSteps_passes (h : s.Passes op last k last' k') (hstop : k' < stop)
    (hrest : ∀ n : Nat, stop + 1 ≤ n + k' → s.splitSteps op stop n ⟨start, done, last'⟩
      k' = .ok r) :
    ∀ n : Nat, stop + 1 ≤ n + k → s.splitSteps op stop n ⟨start, done, last⟩ k = .ok r := by
  induction h with
  | done => exact hrest
  | within h hle rest ih =>
    intro n hn
    have hk := rest.le
    rcases n with _ | n
    · omega
    rw [splitSteps]
    simp only [h, Scan.ok_bind]
    rw [if_neg (by omega)]
    exact ih hstop hrest n (by omega)
  | sign h hlt _ ih =>
    intro n hn
    rcases n with _ | n
    · omega
    rw [splitSteps]
    simp only [h]
    exact ih hstop hrest n (by omega)

lemma splitSteps_last (h : s.Passes op last k last' k') (hk : k ≤ stop) (hstop : k' = stop + 1) :
    ∀ n : Nat, stop + 1 ≤ n + k →
      s.splitSteps op stop n ⟨start, done, last⟩ k = .ok (done.reverse ++ [(start, stop)]) := by
  induction h with
  | done => omega
  | @within last k l e _ k' h hle _ ih =>
    intro n hn
    rcases n with _ | n
    · omega
    rw [splitSteps]
    simp only [h, Scan.ok_bind]
    by_cases he : e + 1 ≥ stop
    · rw [if_pos he, reverse_cons]
      rfl
    · rw [if_neg he]
      exact ih (by omega) hstop n (by omega)
  | sign h hlt _ ih =>
    intro n hn
    rcases n with _ | n
    · omega
    rw [splitSteps]
    simp only [h, Scan.ok_bind]
    exact ih (by omega) hstop n (by omega)

lemma exists_read (hlow : -s.size ≤ k) (hhigh : k < s.size) : ∃ c, s.read k = .ok c := by
  have hat : ∃ c, s.at? k = some c := by
    unfold at?
    unfold size at hlow hhigh ⊢
    by_cases hk : 0 ≤ k
    · rw [if_pos hk, Array.getElem?_eq_getElem (by omega)]
      exact ⟨_, rfl⟩
    · rw [if_neg hk, if_pos (by omega), Array.getElem?_eq_getElem (by omega)]
      exact ⟨_, rfl⟩
  obtain ⟨c, hc⟩ := hat
  exact ⟨c, by rw [read, hc]⟩

/-- A sign after an operand joins it to the next one, with blanks around it or no digit after it. -/
lemma isSignAt_eq_false {b d : Char} (hlast : s.read last = .ok c) (hc : endsOperand c = true)
    (hb : s.read (k - 1) = .ok b) (hd : s.read (k - 2) = .ok d)
    (hx : oneOf "dDeE" b = false ∨ s.holds isDigit (k + 1) = .ok false) :
    s.isSignAt last k = .ok false := by
  unfold endsOperand at hc
  unfold isSignAt
  simp only [hlast, hb, hd, Scan.ok_bind, hc, Bool.not_true, Bool.false_eq_true, ite_false]
  rcases hx with hx | hx
  · simp [hx]
  · simp only [hx]
    split
    · rfl
    · split <;> rfl

lemma pieceAt_between {n : Nat} (h : s.Shows k (op.symbol.toList ++ (room n ++ c :: cs)))
    (hblank : isBlank c = false) (hclose : oneOf ",;\n)]\x7d" c = false)
    (hsign : (if op.isSign then s.isSignAt last k else pure false) = .ok false) :
    s.pieceAt op last k = .ok (.between (k + op.symbol.toList.length + (room n).length - 1)) := by
  obtain ⟨x, xs, hx⟩ := exists_cons_of_ne_nil op.symbol_ne_nil
  have hread := h.read_first hx
  have hinert : isInert x = true := by
    have : ∀ x ∈ op.symbol.toList.head?, isInert x = true := by cases op <;> decide
    exact this x (by simp [hx])
  have hreads := h.reads
  have hblanks : s.Shows (k + op.symbol.length - 1 + 1) (room n ++ [c]) := by
    rw [Int.sub_add_cancel]
    exact h.right.upto
  have hroom : ∀ d ∈ room n, isBlank d = true := by
    intro d hd
    rw [eq_of_mem_replicate hd]
    decide
  have hthrough := through_eq hblanks hroom hblank
  have hnext : s.holds (oneOf ",;\n)]\x7d") (k + op.symbol.length - 1 + (room n).length + 1) =
      .ok false := by
    have hshow := hblanks.right
    rw [show k + op.symbol.length - 1 + (room n).length + 1 = k + op.symbol.length - 1 + 1 + (room
      n).length by omega, hshow.holds, hclose]
  unfold pieceAt
  simp only [hread, Scan.ok_bind, beq_iff_eq, ne_of_opening hinert (by decide), ite_false,
    hreads, ite_true, hsign,
    hthrough, Bool.false_eq_true]
  rw [show k + op.symbol.toList.length + (room n).length - 1 = k + op.symbol.length - 1 + (room
    n).length by rw [String.length_toList]; omega]
  split
  · rw [hnext]
    rfl
  · rfl

end Source

namespace Term

open Source

variable {sp : Spacing} {s : Source} {op : Operator} {k : Int} {t : Term} {ts : List Term}

/-- The spans of expressions from a position on, with a gap of a given width between them. -/
def spans (sp : Spacing) (gap : Nat) : Int → List Term → List (Int × Int)
  | _, [] => []
  | k, t :: ts => (k, k + (t.text sp).length - 1) :: spans sp gap (k + (t.text sp).length + gap) ts

lemma length_text_pos (sp : Spacing) (t : Term) : 0 < (t.text sp).length :=
  length_pos_iff.mpr (text_ne_nil sp t)

/-- After an operand a sum or difference is no sign, unless an exponent could stand there. -/
lemma isSignAt_joint {e : Int} {c x : Char} {xs : List Char} (he : 0 < e)
    (hop : op.isSign = true) (hc : s.read (e - 1) = .ok c) (hends : ArmaGen.endsOperand c = true)
    (hx : sp.around op = 0 → isDigit x = false)
    (h : s.Shows e (room (sp.around op) ++
      (op.symbol.toList ++ (room (sp.around op) ++ x :: xs)))) :
    s.isSignAt (e - 1) (e + (room (sp.around op)).length) = .ok false := by
  have hlen : op.symbol.toList.length = 1 := by cases op <;> first | rfl | cases hop
  have hsize := h.right.end_le (by simp)
  obtain ⟨b, hb⟩ : ∃ b, s.read (e + (room (sp.around op)).length - 1) = .ok b :=
    exists_read (by omega) (by omega)
  obtain ⟨d, hd⟩ : ∃ d, s.read (e + (room (sp.around op)).length - 2) = .ok d :=
    exists_read (by omega) (by omega)
  refine isSignAt_eq_false hc hends hb hd ?_
  by_cases haround : sp.around op = 0
  · -- without blanks the next character is the first one after the operator
    right
    have hnext := h.right.right
    rw [haround, hlen] at hnext
    have hholds : s.holds isDigit (e + (room 0).length + 1) = .ok (isDigit x) :=
      Shows.holds hnext
    rw [haround, hholds, hx haround]
  · left
    have hlast := h.left.read_at (show sp.around op - 1 < (room (sp.around op)).length by
      simp only [room, length_replicate]
      omega)
    have hroom : (room (sp.around op)).length = sp.around op := by simp [room]
    rw [hroom, show e + (sp.around op : Nat) - 1 = e + (sp.around op - 1 : Nat) by
      omega, hlast] at hb
    rw [← Except.ok.inj hb]
    simp only [room, getElem_replicate]
    decide

lemma pieceAt_joint {e : Int} {c x : Char} {xs : List Char} (he : 0 < e)
    (hc : s.read (e - 1) = .ok c) (hends : op.isSign = true → ArmaGen.endsOperand c = true)
    (hx : op.isSign = true → sp.around op = 0 → isDigit x = false) (hblank : isBlank x = false)
    (hclose : oneOf ",;\n)]\x7d" x = false) (h : s.Shows e (sp.joint op ++ x :: xs)) :
    s.pieceAt op (e - 1) (e + (room (sp.around op)).length) =
      .ok (.between (e + (sp.joint op).length - 1)) := by
  unfold Spacing.joint at h ⊢
  rw [append_assoc, append_assoc] at h
  have hsign : (if op.isSign then
      s.isSignAt (e - 1) (e + (room (sp.around op)).length) else pure false) = .ok false := by
    cases hop : op.isSign with
    | false => rfl
    | true => exact isSignAt_joint he hop hc (hends hop) (hx hop) h
  rw [pieceAt_between h.right hblank hclose hsign]
  simp only [length_append]
  congr 2
  omega

lemma exists_head_of_startsMinus (sp : Spacing) (hminus : t.startsMinus = true) :
    ∃ c cs, t.text sp = c :: cs ∧ ArmaGen.endsOperand c = false := by
  induction t using induct with
  | neg t => exact ⟨'-', _, by rw [text], by decide⟩
  | not t => exact ⟨'~', _, by rw [text], by decide⟩
  | chain op first others ih =>
    obtain ⟨c, cs, hhead, hc⟩ := ih hminus
    exact ⟨c, _, by rw [text, hhead]; rfl, hc⟩
  | _ => cases hminus

end Term

/-! ### The first operator that splits -/

namespace Operator

lemma mem_after {q op : Operator} : op ∈ after (some q) ↔ q.rank < op.rank := by
  have table : ∀ q ∈ inOrder, ∀ op ∈ inOrder, op ∈ after (some q) ↔ q.rank < op.rank := by decide
  exact table q (mem_inOrder q) op (mem_inOrder op)

lemma pairwise_after (q : Option Operator) : (after q).Pairwise fun a b => a.rank < b.rank := by
  cases q with
  | none => decide
  | some q => cases q <;> decide

end Operator

lemma occursIn_iff_infix {word cs : List Char} : occursIn word cs = true ↔ word <:+: cs := by
  induction cs with
  | nil => rw [infix_nil, occursIn, List.isEmpty_iff]
  | cons c cs ih =>
    rw [occursIn, Bool.or_eq_true, isPrefixOf_iff_prefix, ih, infix_cons_iff]

namespace Source

variable {s : Source} {k stop : Int} {ops : List Operator} {o : Operator}
  {spans : List (Int × Int)}

lemma firstSplit_eq_none (h : ∀ op ∈ ops, s.operands op k stop = .ok [(k, stop)]) :
    s.firstSplit k stop ops = .ok none := by
  induction ops with
  | nil => rfl
  | cons op ops ih =>
    have hrest := ih fun p hp => h p (.tail _ hp)
    rw [firstSplit]
    split
    · exact hrest
    · simp only [h op (.head _)]
      exact hrest

lemma firstSplit_eq_some (hsorted : ops.Pairwise fun a b => a.rank < b.rank) (ho : o ∈ ops)
    (hbefore : ∀ op ∈ ops, op.rank < o.rank → s.operands op k stop = .ok [(k, stop)])
    (hocc : occursIn o.symbol.toList (s.span k (stop + 1)) = true)
    (hspans : s.operands o k stop = .ok spans) (hlen : 1 < spans.length) :
    s.firstSplit k stop ops = .ok (some (o, spans)) := by
  induction ops with
  | nil => cases ho
  | cons op ops ih =>
    rw [pairwise_cons] at hsorted
    rw [firstSplit]
    rcases mem_cons.mp ho with rfl | ho
    · simp [hocc, hspans, hlen]
    · have hrest := ih hsorted.2 ho fun p hp => hbefore p (.tail _ hp)
      split
      · exact hrest
      · simp only [hbefore op (.head _) (hsorted.1 o ho)]
        exact hrest

end Source

end ArmaGen
