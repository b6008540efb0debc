import ArmaGen.Proofs.Scan.Expression
import ArmaGen.Syntax.Operator

/-!
# Layered expressions

An expression as the grammar sees it: names, numerals, calls, groups in parentheses, signs before
and quotes after them, and chains of operands of one operator. `Term.text` writes an expression,
with as many blanks around each operator as a `Spacing` tells. In a layered expression every operand
of a chain is itself a chain of an operator that binds more, or no chain at all (`Term.Layered`).
Where two operands meet, a minus sign must be told apart from a difference (`Term.Meet`): a sum or
difference is only recognised after a letter, a digit or a closing bracket, and there every minus
sign counts as a difference. Written text is a run (`Term.runs`), so that all scanners pass it.
-/

namespace ArmaGen

open List

/-! ### Names and numerals -/

def isName : List Char → Bool
  | [] => false
  | c :: cs => isLetter c && cs.all isWord

/-- A name: a letter, then letters, digits and underscores. -/
structure Name where
  chars : List Char
  spelled : isName chars = true
deriving DecidableEq

def Name.text (n : Name) : String :=
  String.ofList n.chars

/-- Whether a name stands for itself: it is no keyword, and does not start as the end of an index.
-/
def Name.isVariable (n : Name) : Bool :=
  !"end".toList.isPrefixOf n.chars && n.chars != "return".toList && n.chars != "break".toList

lemma Name.exists_chars (n : Name) :
    ∃ c cs, n.chars = c :: cs ∧ isLetter c = true ∧ ∀ d ∈ cs, isWord d = true := by
  have h := n.spelled
  cases hc : n.chars with
  | nil => rw [hc] at h; cases h
  | cons c cs =>
    rw [hc, isName, Bool.and_eq_true, all_eq_true] at h
    exact ⟨c, cs, rfl, h.1, h.2⟩

variable {c : Char}

lemma isWord_of_isLetter (h : isLetter c = true) : isWord c = true := by
  unfold isWord isAlnum
  rw [h, Bool.true_or, Bool.true_or]

lemma isDigit_eq_false_of_isLetter (h : isLetter c = true) : isDigit c = false := by
  simp only [isLetter, isDigit, Bool.or_eq_true, Bool.and_eq_true, decide_eq_true_eq,
    Bool.and_eq_false_iff, decide_eq_false_iff_not, Char.le_def, UInt32.le_iff_toNat_le] at h ⊢
  have h9 : '9'.val.toNat = 57 := rfl
  have ha : 'a'.val.toNat = 97 := rfl
  have hA : 'A'.val.toNat = 65 := rfl
  omega

lemma isWord_of_isDigit (h : isDigit c = true) : isWord c = true := by
  unfold isWord isAlnum
  rw [h, Bool.or_true, Bool.true_or]

lemma Name.isWord_of_mem (n : Name) (hc : c ∈ n.chars) : isWord c = true := by
  obtain ⟨d, cs, hd, hl, hw⟩ := n.exists_chars
  rw [hd, mem_cons] at hc
  rcases hc with rfl | hc
  · exact isWord_of_isLetter hl
  · exact hw c hc

/-- An unsigned whole number: one or more digits. -/
structure WholeNumber where
  digits : List Char
  nonempty : digits ≠ []
  spelled : ∀ c ∈ digits, isDigit c = true

/-! ### Expressions and their text -/

/-- An expression as the grammar sees it. -/
inductive Term where
  | name (n : Name)
  | numeral (d : WholeNumber)
  | call (f : Name) (args : List Term)
  | paren (t : Term)
  /-- A minus sign before an operand. -/
  | neg (t : Term)
  /-- A tilde before an operand. -/
  | not (t : Term)
  /-- A dot and a quote after an operand. -/
  | transpose (t : Term)
  /-- A quote after an operand. -/
  | ctranspose (t : Term)
  /-- Operands with one operator between them. -/
  | chain (op : Operator) (first : Term) (others : List Term)

namespace Term

/-- Induction on expressions, with what holds for each of their arguments and operands. -/
lemma induct {P : Term → Prop} (name : ∀ n, P (.name n)) (numeral : ∀ d, P (.numeral d))
    (call : ∀ f args, (∀ t ∈ args, P t) → P (.call f args)) (paren : ∀ t, P t → P (.paren t))
    (neg : ∀ t, P t → P (.neg t)) (not : ∀ t, P t → P (.not t))
    (transpose : ∀ t, P t → P (.transpose t)) (ctranspose : ∀ t, P t → P (.ctranspose t))
    (chain : ∀ op first others, P first → (∀ t ∈ others, P t) → P (.chain op first others)) :
    ∀ t, P t :=
  rec name numeral call paren neg not transpose ctranspose chain (fun _ ht => nomatch ht)
    fun _ _ hhead htail t ht => (mem_cons.mp ht).elim (fun h => h ▸ hhead) (htail t)

end Term

/-- How much room is left in written expressions. -/
structure Spacing where
  /-- The blanks on both sides of an operator. -/
  around : Operator → Nat
  /-- The blanks after a comma. -/
  afterComma : Nat

def room (n : Nat) : List Char :=
  replicate n ' '

def Spacing.joint (sp : Spacing) (op : Operator) : List Char :=
  room (sp.around op) ++ op.symbol.toList ++ room (sp.around op)

def Spacing.comma (sp : Spacing) : List Char :=
  ',' :: room sp.afterComma

namespace Term

mutual

def text (sp : Spacing) : Term → List Char
  | .name n => n.chars
  | .numeral d => d.digits
  | .call f args => f.chars ++ '(' :: joined sp args ++ [')']
  | .paren t => '(' :: text sp t ++ [')']
  | .neg t => '-' :: text sp t
  | .not t => '~' :: text sp t
  | .transpose t => text sp t ++ ['.', '\'']
  | .ctranspose t => text sp t ++ ['\'']
  | .chain op first others => text sp first ++ tailed sp (sp.joint op) others

def joined (sp : Spacing) : List Term → List Char
  | [] => []
  | t :: ts => text sp t ++ tailed sp sp.comma ts

def tailed (sp : Spacing) (sep : List Char) : List Term → List Char
  | [] => []
  | t :: ts => sep ++ text sp t ++ tailed sp sep ts

end

/-! ### First and last characters -/

end Term

def startsTerm (c : Char) : Bool :=
  isAlnum c || oneOf "(-~" c

def endsTerm (c : Char) : Bool :=
  isWord c || oneOf ")'" c

namespace Term

variable {sp : Spacing}

lemma exists_head (sp : Spacing) (t : Term) :
    ∃ c cs, t.text sp = c :: cs ∧ startsTerm c = true := by
  induction t using induct with
  | name n =>
    obtain ⟨c, cs, h, hc, -⟩ := n.exists_chars
    exact ⟨c, cs, h, by simp [startsTerm, isAlnum, hc]⟩
  | numeral d =>
    obtain ⟨c, cs, h⟩ := exists_cons_of_ne_nil d.nonempty
    have hc := d.spelled c (by simp [h])
    exact ⟨c, cs, h, by simp [startsTerm, isAlnum, hc]⟩
  | call f args =>
    obtain ⟨c, cs, h, hc, -⟩ := f.exists_chars
    exact ⟨c, _, by rw [text, h]; rfl, by simp [startsTerm, isAlnum, hc]⟩
  | paren t => exact ⟨'(', _, by rw [text]; rfl, by decide⟩
  | neg t => exact ⟨'-', _, by rw [text], by decide⟩
  | not t => exact ⟨'~', _, by rw [text], by decide⟩
  | transpose t ih | ctranspose t ih | chain op first others ih =>
    obtain ⟨c, cs, h, hc⟩ := ih
    exact ⟨c, _, by rw [text, h]; rfl, hc⟩

lemma text_ne_nil (sp : Spacing) (t : Term) : t.text sp ≠ [] := by
  obtain ⟨c, cs, h, -⟩ := exists_head sp t
  simp [h]

lemma exists_last_tailed {p : Char → Bool} {sep : List Char} {ts : List Term} {cs : List Char}
    (hcs : ∃ ds c, cs = ds ++ [c] ∧ p c = true)
    (hts : ∀ t ∈ ts, ∃ ds c, t.text sp = ds ++ [c] ∧ p c = true) :
    ∃ ds c, cs ++ tailed sp sep ts = ds ++ [c] ∧ p c = true := by
  induction ts generalizing cs with
  | nil => simpa [tailed] using hcs
  | cons t ts ih =>
    obtain ⟨ds, c, h, hc⟩ := hts t (.head _)
    have hhead : ∃ es d, cs ++ sep ++ t.text sp = es ++ [d] ∧ p d = true :=
      ⟨cs ++ sep ++ ds, c, by simp [h], hc⟩
    have htail := ih hhead (forall_mem_cons.1 hts).2
    simpa [tailed] using htail

lemma exists_last (sp : Spacing) (t : Term) :
    ∃ cs c, t.text sp = cs ++ [c] ∧ endsTerm c = true := by
  induction t using induct with
  | name n =>
    obtain ⟨d, ds, h, -⟩ := n.exists_chars
    have hne : n.chars ≠ [] := by simp [h]
    have hc := n.isWord_of_mem (getLast_mem hne)
    exact ⟨_, _, (dropLast_concat_getLast hne).symm, by simp [endsTerm, hc]⟩
  | numeral d =>
    have hc := isWord_of_isDigit (d.spelled _ (getLast_mem d.nonempty))
    exact ⟨_, _, (dropLast_concat_getLast d.nonempty).symm, by simp [endsTerm, hc]⟩
  | call f args => exact ⟨_, _, by rw [text], by decide⟩
  | paren t => exact ⟨_, _, by rw [text], by decide⟩
  | transpose t => exact ⟨t.text sp ++ ['.'], '\'', by simp [text], by decide⟩
  | ctranspose t => exact ⟨_, _, by rw [text], by decide⟩
  | neg t ih | not t ih =>
    obtain ⟨cs, c, h, hc⟩ := ih
    exact ⟨_ :: cs, c, by rw [text, h]; rfl, hc⟩
  | chain op first others ihf iho =>
    exact exists_last_tailed ihf iho

/-! ### Where operands meet -/

/-- Whether a minus sign stands before the first operand. -/
def startsMinus : Term → Bool
  | .neg _ => true
  | .not t => t.startsMinus
  | .chain _ first _ => first.startsMinus
  | _ => false

mutual

/-- Whether the last operand is a numeral. -/
def endsNumeral : Term → Bool
  | .numeral _ => true
  | .neg t | .not t => endsNumeral t
  | .chain _ first others => lastNumeral (endsNumeral first) others
  | _ => false

/-- Whether the last of some expressions ends with a numeral; if there is none, as told. -/
def lastNumeral : Bool → List Term → Bool
  | known, [] => known
  | _, t :: ts => lastNumeral (endsNumeral t) ts

end

def isChain : Term → Bool
  | .chain _ _ _ => true
  | _ => false

def isSigned : Term → Bool
  | .neg _ | .not _ => true
  | _ => false

/-- Whether an expression has neither operators nor signs nor quotes outside of brackets. -/
def isPrimary : Term → Bool
  | .name _ | .numeral _ | .call _ _ | .paren _ => true
  | _ => false

/-- Whether a dot and a quote right after an expression transpose it. -/
def takesDot : Term → Bool
  | .name _ | .call _ _ | .paren _ => true
  | _ => false

/-- Whether a quote right after an expression transposes it: what looks like the keyword `case`
is followed by a string. -/
def takesQuote : Term → Bool
  | .name n => !"case".toList.isSuffixOf n.chars
  | .numeral _ | .call _ _ | .paren _ => true
  | _ => false

/-- Whether a quote stands after the first operand. -/
def startsQuoted : Term → Bool
  | .ctranspose _ => true
  | .transpose t | .chain _ t _ => t.startsQuoted
  | _ => false

variable {t : Term}

lemma isPrimary_of_takesDot (h : t.takesDot = true) : t.isPrimary = true := by
  cases t <;> first | rfl | cases h

lemma isPrimary_of_takesQuote (h : t.takesQuote = true) : t.isPrimary = true := by
  cases t <;> first | rfl | cases h

lemma isChain_of_isPrimary (h : t.isPrimary = true) : t.isChain = false := by
  cases t <;> first | rfl | cases h

lemma startsMinus_of_isPrimary (h : t.isPrimary = true) : t.startsMinus = false := by
  cases t <;> first | rfl | cases h

end Term

/-- A character after which a sum or a difference is recognised. -/
def endsOperand (c : Char) : Bool :=
  isAlnum c || oneOf ")]\x7d" c

/-- The place of an operator in the order, from the one that binds least. -/
def Operator.rank (op : Operator) : Nat :=
  Operator.inOrder.idxOf op

def Operator.isDotted (op : Operator) : Bool :=
  op.symbol.toList.head? == some '.'

namespace Term

/-- The place of the operator of a chain; what is no chain binds more than all operators. -/
def level : Term → Nat
  | .chain op _ _ => op.rank
  | _ => Operator.inOrder.length

/-- Whether a sum or a difference is recognised after an expression. -/
def endsOperand (sp : Spacing) (t : Term) : Bool :=
  (t.text sp).getLast?.any ArmaGen.endsOperand

def startsDigit (sp : Spacing) (t : Term) : Bool :=
  (t.text sp).head?.any isDigit

/-- Two operands can be told apart at an operator between them. -/
structure Meet (sp : Spacing) (op : Operator) (l r : Term) : Prop where
  /-- A sum or difference is recognised. -/
  ends : op.isSign = true → l.endsOperand sp = true
  /-- It is no exponent. -/
  exponent : op.isSign = true → sp.around op = 0 → r.startsDigit sp = false
  /-- A minus sign after the operator is no difference. -/
  sign : Operator.minus.rank ≤ op.rank → r.startsMinus = true → l.endsOperand sp = false
  /-- The dot of an operator does not belong to a number. -/
  dot : l.endsNumeral = true → op.isDotted = true → sp.around op ≠ 0

/-- Operands after a first one bind more than their operator, and meet their neighbours. -/
def Linked (sp : Spacing) (op : Operator) : Term → List Term → Prop
  | _, [] => True
  | l, r :: rest => Meet sp op l r ∧ op.rank < r.level ∧ Linked sp op r rest

/-- Each operand binds more than the chain it is in. -/
inductive Layered (sp : Spacing) : Term → Prop where
  | name {n : Name} (hn : n.isVariable = true) : Layered sp (.name n)
  | numeral (d : WholeNumber) : Layered sp (.numeral d)
  | call {f : Name} {args : List Term} (hf : f.isVariable = true)
      (hargs : ∀ t ∈ args, Layered sp t) : Layered sp (.call f args)
  | paren {t : Term} (ht : Layered sp t) : Layered sp (.paren t)
  | neg {t : Term} (ht : Layered sp t) (hc : t.isChain = false) : Layered sp (.neg t)
  | not {t : Term} (ht : Layered sp t) (hc : t.isChain = false) : Layered sp (.not t)
  | transpose {t : Term} (ht : Layered sp t) (hq : t.takesDot = true) : Layered sp (.transpose t)
  | ctranspose {t : Term} (ht : Layered sp t) (hq : t.takesQuote = true) :
      Layered sp (.ctranspose t)
  | chain {op : Operator} {first : Term} {others : List Term} (hne : others ≠ [])
      (hfirst : Layered sp first) (hothers : ∀ t ∈ others, Layered sp t)
      (hrank : op.rank < first.level) (hlinked : Linked sp op first others) :
      Layered sp (.chain op first others)

end Term

/-! ### Quotes that transpose -/

namespace Source

variable {s : Source} {k : Int} {c : Char} {cs : List Char}

/-- No name is going on at a position. -/
def Fresh (s : Source) (k : Int) : Prop :=
  0 < k → ∃ c, s.read (k - 1) = .ok c ∧ isWord c = false

lemma Shows.fresh (h : s.Shows k cs) (hne : cs ≠ []) (hcs : ∀ c ∈ cs, isWord c = false) :
    s.Fresh (k + cs.length) := by
  intro _
  have hpos := length_pos_iff.mpr hne
  have hread := h.read_at (show cs.length - 1 < cs.length by omega)
  rw [show k + (cs.length - 1 : Nat) = k + cs.length - 1 by omega] at hread
  exact ⟨_, hread, hcs _ (getElem_mem _)⟩

/-- After a name, a number or a closing bracket a quote transposes, except after `case`. -/
lemma opensString_eq_false (hk : 0 < k) (hq : s.read k = .ok '\'')
    (hc : s.read (k - 1) = .ok c) (hclass : isAlnum c = true ∨ oneOf ")]\x7d_" c = true)
    (hcase : ¬ s.Shows (k - 4) "case".toList) : s.opensString k = .ok false := by
  have hblank : isBlank c = false := by
    rw [← Bool.not_eq_true]
    intro hb
    have : c = ' ' ∨ c = '\t' := by simpa [isBlank] using hb
    rcases this with rfl | rfl <;> revert hclass <;> decide
  have hback := backBlanks_eq (shows_singleton_of_read (by omega) hc) hblank
  have hslice : (s.slice (k - 1 - 3) (k - 1 + 1) == "case") = false := by
    rw [beq_eq_false_iff_ne]
    intro heq
    have hspan : s.span (k - 4) k = "case".toList := by
      rw [← heq, slice, String.toList_ofList]
      congr 1 <;> omega
    by_cases hneg : 0 ≤ k - 4
    · exact hcase (hspan ▸ shows_span hneg k)
    · have hlen := congrArg length hspan
      rw [span, Array.toList_extract, length_take] at hlen
      have hclip : s.clip k ≤ k.toNat := by
        unfold clip
        rw [if_pos (by omega)]
        omega
      have : "case".toList.length = 4 := rfl
      omega
  unfold opensString
  simp only [hq, hc, hback, Scan.ok_bind, hslice]
  simp [hclass]

lemma opensString_dot (hq : s.read k = .ok '\'') (hc : s.read (k - 1) = .ok '.') :
    s.opensString k = .ok false := by
  unfold opensString
  simp [hq, hc]

lemma read_of_shows_case (h : s.Shows (k - 4) "case".toList) : s.read (k - 1) = .ok 'e' := by
  have hread := h.read_at (show 3 < "case".toList.length by decide)
  rw [show k - 4 + (3 : Nat) = k - 1 by omega] at hread
  exact hread

lemma not_shows_case {n : Name} (hfresh : s.Fresh k) (h : s.Shows k n.chars)
    (hn : "case".toList.isSuffixOf n.chars = false) :
    ¬ s.Shows (k + n.chars.length - 4) "case".toList := by
  intro hcase
  have hk := hcase.nonneg
  by_cases hlen : 4 ≤ n.chars.length
  · -- the word would be the end of the name
    have hsplit : s.Shows k (n.chars.take (n.chars.length - 4) ++
        n.chars.drop (n.chars.length - 4)) := by
      rwa [take_append_drop]
    have hdrop := hsplit.right
    rw [length_take_of_le (by omega), show k + (n.chars.length - 4 : Nat) = k + n.chars.length - 4
      by omega] at hdrop
    have heq := hcase.eq_of_length hdrop (by
      rw [length_drop]
      show 4 = _
      omega)
    have hsuffix : "case".toList <:+ n.chars := heq ▸ drop_suffix _ _
    rw [← Bool.not_eq_true, isSuffixOf_iff_suffix] at hn
    exact hn hsuffix
  · -- the word would start before the name
    obtain ⟨d, hd, hword⟩ := hfresh (by omega)
    have hread := hcase.read_at (show 3 - n.chars.length < "case".toList.length by
      show _ < 4
      omega)
    rw [show k + n.chars.length - 4 + (3 - n.chars.length : Nat) = k - 1 by omega, hd] at hread
    have hin : d ∈ "case".toList := Except.ok.inj hread ▸ getElem_mem _
    have : ∀ x ∈ "case".toList, isWord x = true := by decide
    rw [this d hin] at hword
    cases hword

variable {sp : Spacing} {op : Operator}

lemma opensString_after {t : Term} (ht : t.takesQuote = true) (hfresh : s.Fresh k)
    (h : s.Shows k (t.text sp ++ '\'' :: cs)) :
    s.opensString (k + (t.text sp).length) = .ok false := by
  obtain ⟨ds, c, hlast, -⟩ := t.exists_last sp
  have hk := h.nonneg
  have hlen : (t.text sp).length = ds.length + 1 := by rw [hlast]; simp
  have hc : s.read (k + (t.text sp).length - 1) = .ok c := by
    have hleft := h.left
    rw [hlast] at hleft
    rw [show k + (t.text sp).length - 1 = k + ds.length by omega]
    exact hleft.right.read
  have hother : isAlnum c = true ∨ oneOf ")]\x7d_" c = true → c ≠ 'e' →
      s.opensString (k + (t.text sp).length) = .ok false := by
    intro hclass hne
    refine opensString_eq_false (by omega) h.right.read hc hclass ?_
    intro hcase
    rw [read_of_shows_case hcase] at hc
    exact hne (Except.ok.inj hc).symm
  cases t with
  | name n =>
    rw [Term.text] at hlast
    have hword : isWord c = true := n.isWord_of_mem (by simp [hlast])
    have hclass : isAlnum c = true ∨ oneOf ")]\x7d_" c = true := by
      rw [isWord, Bool.or_eq_true, beq_iff_eq] at hword
      rcases hword with hword | rfl
      · exact .inl hword
      · exact .inr (by decide)
    refine opensString_eq_false (by omega) h.right.read hc hclass ?_
    exact not_shows_case hfresh h.left (by simpa [Term.takesQuote] using ht)
  | numeral d =>
    rw [Term.text] at hlast
    have hdigit : isDigit c = true := d.spelled c (by simp [hlast])
    exact hother (.inl (by simp [isAlnum, hdigit])) (ne_of_class hdigit rfl)
  | call f args | paren t =>
    have := (append_inj' hlast rfl).2
    simp only [cons.injEq, and_true] at this
    subst this
    exact hother (.inr (by decide)) (by decide)
  | _ => cases ht

/-! ### Written text is a run -/

lemma Runs.cast {e e' : Int} (h : s.Runs k e) (he : e = e') : s.Runs k e' := he ▸ h

lemma reads_dots_eq_false (h : s.Shows k ('.' :: c :: cs)) (hc : c ≠ '.') :
    s.reads k "..." = false := by
  rw [← Bool.not_eq_true, reads_iff h.nonneg]
  intro hdots
  have := hdots.tail.read
  rw [h.tail.read] at this
  exact hc (Except.ok.inj this)

lemma runs_symbol (h : s.Shows k (op.symbol.toList ++ c :: cs)) (hc : c ≠ '=') :
    s.Runs k (k + op.symbol.toList.length) := by
  cases op with
  | ne | eq | ge | le =>
    exact (Runs.equal h.nonneg h.read (by decide) h.tail.read (.done _)).cast
      (by simp [Operator.symbol, Int.add_assoc])
  | gt | lt =>
    exact (Runs.order h.nonneg h.read (by decide) h.tail.read hc (.done _)).cast
      (by simp [Operator.symbol])
  | elmul | elementDivision | leftElementDivision | elexp =>
    exact (Runs.dot h.read (reads_dots_eq_false h (by decide))
      (.plain h.tail.nonneg h.tail.read (by decide) (.done _))).cast
        (by simp [Operator.symbol, Int.add_assoc])
  | _ => exact h.left.runs_plain (by decide)

lemma isPlain_of_mem_room {n : Nat} (h : c ∈ room n) : isPlain c = true := by
  rw [eq_of_mem_replicate h]
  decide

lemma isWord_of_mem_room {n : Nat} (h : c ∈ room n) : isWord c = false := by
  rw [eq_of_mem_replicate h]
  decide

lemma exists_room_append (n : Nat) (c : Char) (cs : List Char) :
    ∃ d ds, room n ++ c :: cs = d :: ds ∧ (d = ' ' ∨ d = c) := by
  cases n with
  | zero => exact ⟨c, cs, rfl, .inr rfl⟩
  | succ n => exact ⟨' ', _, rfl, .inl rfl⟩

lemma runs_joint (h : s.Shows k (sp.joint op ++ c :: cs)) (hc : c ≠ '=') :
    s.Runs k (k + (sp.joint op).length) := by
  unfold Spacing.joint at h ⊢
  rw [append_assoc, append_assoc] at h
  have hbefore := h.left.runs_plain fun _ => isPlain_of_mem_room
  obtain ⟨d, ds, hds, hd⟩ := exists_room_append (sp.around op) c cs
  have hne : d ≠ '=' := by
    rcases hd with rfl | rfl
    · decide
    · exact hc
  have hsymbol := runs_symbol (hds ▸ h.right) hne
  have hafter := h.right.right.left.runs_plain fun _ => isPlain_of_mem_room
  refine (hbefore.trans (hsymbol.trans hafter)).cast ?_
  simp only [length_append]
  omega

lemma isWord_of_mem_symbol (h : c ∈ op.symbol.toList) : isWord c = false := by
  have : ∀ d ∈ op.symbol.toList, isWord d = false := by cases op <;> decide
  exact this c h

lemma isWord_of_mem_joint (h : c ∈ sp.joint op) : isWord c = false := by
  simp only [Spacing.joint, mem_append] at h
  rcases h with (h | h) | h
  · exact isWord_of_mem_room h
  · exact isWord_of_mem_symbol h
  · exact isWord_of_mem_room h

lemma fresh_joint (h : s.Shows k (sp.joint op)) : s.Fresh (k + (sp.joint op).length) :=
  h.fresh (by cases op <;> simp [Spacing.joint, Operator.symbol]) fun _ => isWord_of_mem_joint

lemma fresh_comma (h : s.Shows k sp.comma) : s.Fresh (k + sp.comma.length) := by
  refine h.fresh (by simp [Spacing.comma]) ?_
  intro c hc
  rcases mem_cons.mp hc with rfl | hc
  · decide
  · exact isWord_of_mem_room hc

end Source

namespace Term

variable {sp : Spacing} {s : Source} {k : Int} {t : Term} {ts : List Term} {rest : List Char}

open Source

/-- Wherever an expression is written and no name is going on, it is a run. -/
def Running (sp : Spacing) (s : Source) (t : Term) : Prop :=
  ∀ ⦃k⦄, s.Fresh k → s.Shows k (t.text sp) → s.Runs k (k + (t.text sp).length)

@[simp]
lemma joined_singleton (t : Term) : joined sp [t] = t.text sp := by
  simp [joined, tailed]

lemma fresh_after {c : Char} (h : s.Shows k (c :: rest)) (hc : isWord c = false) :
    s.Fresh (k + 1) :=
  (show s.Shows k [c] from h.left).fresh (by simp) (by simpa)

lemma running_name (n : Name) : (Term.name n).Running sp s :=
  fun _ _ h => h.runs_plain fun _ hc => isPlain_of_isWord (n.isWord_of_mem hc)

section

variable (hts : ∀ t ∈ ts, t.Running sp s)

include hts

lemma runs_tailed {op : Operator} {e : Int} (hbefore : s.Runs k e)
    (h : s.Shows e (tailed sp (sp.joint op) ts)) :
    s.Runs k (e + (tailed sp (sp.joint op) ts).length) := by
  induction ts generalizing e with
  | nil => exact hbefore.cast (by simp [tailed])
  | cons t ts ih =>
    rw [tailed] at h ⊢
    obtain ⟨c, cs, hhead, hc⟩ := t.exists_head sp
    have hjoint := runs_joint (hhead ▸ h.left) (ne_of_class hc rfl)
    have ht := hts t (.head _) (fresh_joint h.left.left) h.left.right
    have hrest := h.right
    rw [add_length_append] at hrest
    refine (ih (forall_mem_cons.1 hts).2 (hbefore.trans (hjoint.trans ht)) hrest).cast ?_
    simp only [length_append]
    omega

lemma nested_tailed (h : s.Shows k (tailed sp sp.comma ts)) :
    s.Nested k (k + (tailed sp sp.comma ts).length) := by
  induction ts generalizing k with
  | nil =>
    rw [tailed, add_length_nil]
    exact .done k
  | cons t ts ih =>
    rw [tailed] at h ⊢
    have hcomma := h.left.left
    have hroom := (hcomma.tail.runs_plain fun _ => isPlain_of_mem_room).nested
    rw [show k + 1 + (room sp.afterComma).length = k + sp.comma.length by
      simp only [Spacing.comma, length_cons]; omega] at hroom
    have ht := (hts t (.head _) (fresh_comma h.left.left) h.left.right).nested
    have hrest := h.right
    rw [add_length_append] at hrest
    have := (hroom.trans ht).trans (ih (forall_mem_cons.1 hts).2 hrest)
    simp only [add_length_append]
    exact .ink hcomma.nonneg hcomma.read (by decide) (by decide) (by decide) this

lemma nested_joined (h : s.Shows k (joined sp ts)) (hfresh : s.Fresh k) :
    s.Nested k (k + (joined sp ts).length) := by
  cases ts with
  | nil =>
    rw [joined, add_length_nil]
    exact .done k
  | cons t ts =>
    rw [joined] at h ⊢
    have ht := (hts t (.head _) hfresh h.left).nested
    have := ht.trans (nested_tailed (forall_mem_cons.1 hts).2 h.right)
    rwa [add_length_append]

lemma runs_group (h : s.Shows k ('(' :: joined sp ts ++ [')'])) :
    s.Closes .paren k (k + 1 + (joined sp ts).length) ∧
      s.Runs k (k + 1 + (joined sp ts).length + 1) := by
  have hopen : s.Shows k ('(' :: (joined sp ts ++ [')'])) := h
  have hfresh : s.Fresh (k + 1) :=
    (show s.Shows k ['('] from hopen.left).fresh (by simp) (by decide)
  have hclose := hopen.tail.right
  have hnested := nested_joined hts hopen.tail.left hfresh
  have hcloses := Closes.paren hopen.read h.nonneg hnested hclose.read
  exact ⟨hcloses, .group hopen.read hnested hclose.read hcloses (.done _)⟩

lemma running_call (f : Name) : (Term.call f ts).Running sp s := by
  intro k hfresh h
  rw [text, append_assoc] at h ⊢
  have hname : (name f).Running sp s := running_name f
  refine ((hname hfresh h.left).trans (runs_group hts h.right).2).cast ?_
  simp
  omega

end

lemma Layered.runs (ht : t.Layered sp) : t.Running sp s := by
  intro k hfresh h
  induction ht generalizing k with
  | @name n _ => exact running_name n hfresh h
  | numeral d =>
    exact h.runs_plain fun c hc => isPlain_of_isWord (isWord_of_isDigit (d.spelled c hc))
  | @call f _ _ _ ih => exact running_call ih f hfresh h
  | @paren t _ ih =>
    rw [text] at h ⊢
    have hgroup : s.Runs k (k + 1 + (joined sp [t]).length + 1) := by
      refine (runs_group ?_ (by rwa [joined_singleton])).2
      intro u hu
      rw [mem_singleton.mp hu]
      exact ih
    refine hgroup.cast ?_
    simp only [joined_singleton, length_append, length_cons, length_nil]
    omega
  | @neg t _ _ ih =>
    rw [text] at h ⊢
    refine (Runs.plain h.nonneg h.read (by decide) (ih (fresh_after h rfl) h.tail)).cast ?_
    simp only [length_cons]
    omega
  | @not t _ _ ih =>
    rw [text] at h ⊢
    obtain ⟨c, cs, hhead, hstart⟩ := t.exists_head sp
    refine (Runs.order h.nonneg h.read (by decide) (hhead ▸ h.tail).read (ne_of_class hstart rfl)
      (ih (fresh_after h rfl) h.tail)).cast ?_
    simp only [length_cons]
    omega
  | @transpose t _ _ ih =>
    rw [text] at h ⊢
    have hdot := h.right
    have hquote : s.opensString (k + (t.text sp).length + 1) = .ok false :=
      opensString_dot hdot.tail.read (by rw [Int.add_sub_cancel]; exact hdot.read)
    refine ((ih hfresh h.left).trans (.dot hdot.read (reads_dots_eq_false hdot (by decide))
      (.quote hdot.tail.nonneg hdot.tail.read hquote (.done _)))).cast ?_
    simp
    omega
  | @ctranspose t _ hq ih =>
    rw [text] at h ⊢
    refine ((ih hfresh h.left).trans (.quote h.right.nonneg h.right.read
      (opensString_after hq hfresh h) (.done _))).cast ?_
    simp
    omega
  | @chain op first others _ _ _ _ _ ihf iho =>
    rw [text] at h ⊢
    refine (runs_tailed iho (ihf hfresh h.left) h.right).cast ?_
    simp only [length_append]
    omega

end Term

end ArmaGen
