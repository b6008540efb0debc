import ArmaGen.Proofs.Supplement.Literal
import ArmaGen.Proofs.Supplement.Verbatim

/-!
# What emitted expressions amount to

Emitted text is read from left to right (`Reader.step`). What is seen in it are the characters
outside of expressions and, for each longest expression, its value (`reading`). Words stand for any
numbers, and what is done to the things seen between parentheses after a word is left open too
(`Meaning`). Subtractions of one from numerals are carried out without a change to what is seen
(`reading_foldDecrements`), as long as a passage that is replaced is a whole difference wherever it
stands (`isFoldable`). If more belongs to the `1` the value changes, and a zero after a blank is
lost.
-/

namespace ArmaGen

open List

/-! ### Reading expressions -/

def isDecimal (c : Char) : Bool :=
  (digitValue? c).isSome

/-- A character of a word: of a numeral, a name or a name with fields. -/
def isWordPart (c : Char) : Bool :=
  isWord c || isDecimal c || c == '.'

/-- An operator that binds more than signs. -/
def isTight (c : Char) : Bool :=
  oneOf "*/%" c

/-- What is seen in a text: characters, and expressions by their values. -/
inductive Sight where
  | char (c : Char)
  | value (v : Int)
deriving DecidableEq

inductive Factor where
  | word (cs : List Char)
  | value (v : Int)

/-- What words, calls, brackets and operators stand for. -/
structure Meaning where
  word : List Char → Int
  call : List Char → List Sight → Int
  apply : Int → List Sight → Int
  group : List Sight → Int
  operator : Char → Int → Int → Int

namespace Meaning

variable (m : Meaning)

def factor : Factor → Int
  | .word cs => if cs.all isDecimal then digitsValue cs else m.word cs
  | .value v => v

def tight (c : Char) (l r : Int) : Int :=
  if c == '*' then l * r else m.operator c l r

/-- What is seen between parentheses, after a factor or alone. -/
def closed : Option Factor → List Sight → Int
  | some (.word f), seen => m.call f seen
  | some (.value v), seen => m.apply v seen
  | none, [.value v] => v
  | none, seen => m.group seen

end Meaning

/-- An expression that is being read: the terms before the last one, its sign, what its last factor
is joined to, and that factor. -/
structure Reckoned where
  sum? : Option Int := none
  sign : Int := 1
  left? : Option (Char × Int) := none
  factor? : Option Factor := none

namespace Reckoned

variable (m : Meaning)

def product? (e : Reckoned) : Option Int :=
  e.factor?.map fun f => match e.left? with
    | none => m.factor f
    | some (c, l) => m.tight c l (m.factor f)

def total? (e : Reckoned) : Option Int :=
  match e.product? m with
  | none => e.sum?
  | some p => some (e.sum?.getD 0 + e.sign * p)

/-- A sign ends a term, or belongs to the one that starts. -/
def signed (c : Char) (e : Reckoned) : Reckoned :=
  match e.factor? with
  | none => { e with sign := if c == '-' then -e.sign else e.sign }
  | some _ => { sum? := e.total? m, sign := if c == '-' then -1 else 1 }

end Reckoned

/-- Reading a text: what came before the parentheses that are open, the sights since, and the
expression at hand. -/
structure Reader where
  outer : List (List Sight × Reckoned) := []
  seen : List Sight := []
  current : Reckoned := {}

namespace Reader

variable (m : Meaning)

def sights (seen : List Sight) (e : Reckoned) : List Sight :=
  seen ++ (e.total? m).toList.map .value

def step (r : Reader) (c : Char) : Reader :=
  if isWordPart c then
    match r.current.factor? with
    | none => { r with current := { r.current with factor? := some (.word [c]) } }
    | some (.word cs) =>
        { r with current := { r.current with factor? := some (.word (cs ++ [c])) } }
    | some (.value _) =>
      { r with seen := sights m r.seen r.current, current := { factor? := some (.word [c]) } }
  else if c == '(' then { outer := (r.seen, r.current) :: r.outer }
  else if c == ')' then
    let (seen, before) := r.outer.headD ([], {})
    let value := m.closed before.factor? (sights m r.seen r.current)
    { outer := r.outer.tail, seen, current := { before with factor? := some (.value value) } }
  else if c == '+' || c == '-' then { r with current := r.current.signed m c }
  else
    match isTight c, r.current.product? m with
    | true, some p => { r with current := { r.current with left? := some (c, p), factor? := none } }
    | _, _ => { r with seen := sights m r.seen r.current ++ [.char c], current := {} }

def read (r : Reader) (cs : List Char) : Reader :=
  cs.foldl (step m) r

/-- All that was seen; parentheses that are still open are seen as characters. -/
def result (r : Reader) : List Sight :=
  (r.outer.reverse.flatMap fun (seen, e) => sights m seen e ++ [.char '(']) ++
    sights m r.seen r.current

end Reader

/-- What is seen in a text. -/
def reading (m : Meaning) (cs : List Char) : List Sight :=
  (Reader.read m {} cs).result m

/-! ### Differences -/

/-- Nothing that follows belongs to a numeral: no word, no operator that binds more, no call. -/
def leavesNumeral : List Char → Bool
  | [] => true
  | c :: _ => !(isWordPart c || isTight c || c == '(')

namespace Reader

variable {m : Meaning} {r r' r'' : Reader} {c : Char} {cs ds post : List Char} {s v : Int}

lemma read_append : read m r (cs ++ ds) = read m (read m r cs) ds :=
  foldl_append

/-- A reader has gone on with the expression at hand, which ends with a factor, up to a value. -/
structure Amounts (m : Meaning) (r r' : Reader) (v : Int) : Prop where
  outer : r'.outer = r.outer
  seen : r'.seen = r.seen
  factor : r'.current.factor?.isSome = true
  total : r'.current.total? m = some v

section

variable (h : Amounts m r r' v) (h' : Amounts m r r'' v)

include h h'

/-- Readers that stand at the same value go on alike where the last numeral is left. -/
lemma Amounts.step_eq (hc : leavesNumeral (c :: post) = true) : step m r' c = step m r'' c := by
  obtain ⟨f, hf⟩ := Option.isSome_iff_exists.mp h.factor
  obtain ⟨f', hf'⟩ := Option.isSome_iff_exists.mp h'.factor
  have hsights (seen) : sights m seen r'.current = sights m seen r''.current := by
    rw [sights, sights, h.total, h'.total]
  simp only [leavesNumeral, Bool.not_eq_true', Bool.or_eq_false_iff] at hc
  obtain ⟨⟨hword, htight⟩, hopen⟩ := hc
  have hsigned : r'.current.signed m c = r''.current.signed m c := by
    simp [Reckoned.signed, hf, hf', h.total, h'.total]
  simp [step, hword, hopen, htight, hsights, hsigned, h.outer, h'.outer, h.seen, h'.seen]

lemma Amounts.result_eq : r'.result m = r''.result m := by
  rw [result, result, sights, sights, h.outer, h'.outer, h.seen, h'.seen, h.total, h'.total]

lemma Amounts.result_read (hpost : leavesNumeral post = true) :
    (read m r' post).result m = (read m r'' post).result m := by
  cases post with
  | nil => exact h.result_eq h'
  | cons c post =>
    show (read m (step m r' c) post).result m = (read m (step m r'' c) post).result m
    rw [h.step_eq h' hpost]

end

structure Starts (r : Reader) (s : Int) : Prop where
  factor : r.current.factor? = none
  left : r.current.left? = none
  sign : r.current.sign = s

def before (r : Reader) : Int :=
  r.current.sum?.getD 0

variable {word : List Char}

lemma read_word (hf : r.current.factor? = some (.word word))
    (hcs : ∀ c ∈ cs, isWordPart c = true) : read m r cs =
      { r with current := { r.current with factor? := some (.word (word ++ cs)) } } := by
  induction cs generalizing r word with
  | nil => simp [read, ← hf]
  | cons c cs ih =>
    rw [forall_mem_cons] at hcs
    show read m (step m r c) cs = _
    rw [step, if_pos hcs.1, hf, ih rfl hcs.2]
    simp

lemma isWordPart_of_isDecimal (h : isDecimal c = true) : isWordPart c = true := by
  simp [isWordPart, h]

lemma amounts_digits (h : Starts r s) (hne : ds ≠ []) (hds : ∀ c ∈ ds, isDecimal c = true) :
    Amounts m r (read m r ds) (r.before + s * digitsValue ds) := by
  obtain ⟨c, cs, rfl⟩ := exists_cons_of_ne_nil hne
  have hall : (c :: cs).all isDecimal = true := all_eq_true.2 hds
  have hwords : ∀ d ∈ c :: cs, isWordPart d = true := fun d hd => isWordPart_of_isDecimal (hds d hd)
  rw [forall_mem_cons] at hwords
  have hread : read m r (c :: cs) =
      { r with current := { r.current with factor? := some (.word (c :: cs)) } } := by
    show read m (step m r c) cs = _
    have hstep : step m r c =
        { r with current := { r.current with factor? := some (.word [c]) } } := by
      simp [step, hwords.1, h.factor]
    rw [hstep, read_word rfl hwords.2]
    rfl
  rw [hread]
  refine ⟨rfl, rfl, rfl, ?_⟩
  simp only [Reckoned.total?, Reckoned.product?, Option.map_some, h.left, h.sign, Meaning.factor,
    hall, ite_true, before]

lemma step_sign (hc : c = '+' ∨ c = '-') :
    step m r c = { r with current := r.current.signed m c } := by
  rcases hc with rfl | rfl <;> rfl

lemma starts_of_total (hc : c = '+' ∨ c = '-') (hv : r.current.total? m = some v)
    (hf : r.current.factor?.isSome = true) :
    Starts (step m r c) (if c = '-' then -1 else 1) ∧ (step m r c).before = v := by
  obtain ⟨f, hf⟩ := Option.isSome_iff_exists.mp hf
  rw [step_sign hc, Reckoned.signed, hf]
  refine ⟨⟨rfl, rfl, ?_⟩, by simp [before, hv]⟩
  rcases hc with rfl | rfl <;> rfl

lemma Starts.neg (h : Starts r s) : Starts (step m r '-') (-s) ∧
    (step m r '-').before = r.before ∧ (step m r '-').outer = r.outer ∧
    (step m r '-').seen = r.seen := by
  rw [step_sign (.inr rfl), Reckoned.signed, h.factor]
  exact ⟨⟨rfl, h.left, by simp [h.sign]⟩, rfl, rfl, rfl⟩

lemma Amounts.trans_read (hr : r'.outer = r.outer ∧ r'.seen = r.seen)
    (h : Amounts m r' r'' v) : Amounts m r r'' v :=
  ⟨h.outer.trans hr.1, h.seen.trans hr.2, h.factor, h.total⟩

lemma amounts_difference (h : Starts r s) (hne : ds ≠ []) (hds : ∀ c ∈ ds, isDecimal c = true) :
    Amounts m r (read m r (ds ++ ['-', '1'])) (r.before + s * digitsValue ds - 1) := by
  have hdigits := amounts_digits (m := m) h hne hds
  rw [read_append]
  obtain ⟨hstarts, hbefore⟩ := starts_of_total (.inr rfl) hdigits.total hdigits.factor
  have hone := amounts_digits (m := m) hstarts (show ['1'] ≠ [] by simp) (by decide)
  rw [hbefore] at hone
  refine ⟨?_, ?_, hone.factor, ?_⟩
  · rw [← hdigits.outer]
    exact hone.outer
  · rw [← hdigits.seen]
    exact hone.seen
  · exact hone.total

lemma digitsValue_append_singleton (cs : List Char) (c : Char) :
    digitsValue (cs ++ [c]) = 10 * digitsValue cs + (digitValue? c).getD 0 := by
  simp [digitsValue]

lemma digitValue?_digitChar : ∀ d < 10, digitValue? (Nat.digitChar d) = some d := by
  decide

lemma digitsValue_toDigits (n : Nat) :
    (∀ c ∈ Nat.toDigits 10 n, isDecimal c = true) ∧ digitsValue (Nat.toDigits 10 n) = n := by
  induction n using Nat.strong_induction_on with
  | _ n ih =>
    rw [Nat.toDigits_eq_if (by decide)]
    split
    next h =>
      have hvalue := digitValue?_digitChar n h
      simp [isDecimal, digitsValue, hvalue]
    next h =>
      have hvalue := digitValue?_digitChar (n % 10) (Nat.mod_lt n (by decide))
      obtain ⟨hall, hrest⟩ := ih (n / 10) (by omega)
      refine ⟨?_, ?_⟩
      · simp only [forall_mem_append, forall_mem_singleton]
        exact ⟨hall, by rw [isDecimal, hvalue]; rfl⟩
      · rw [digitsValue_append_singleton, hvalue, Option.getD_some]
        omega

lemma amounts_natural (h : Starts r s) (n : Nat) :
    Amounts m r (read m r (Nat.toDigits 10 n)) (r.before + s * n) := by
  obtain ⟨hall, hvalue⟩ := digitsValue_toDigits n
  have := amounts_digits (m := m) h (by simp) hall
  rwa [hvalue] at this

lemma amounts_toString (h : Starts r 1) (n : Int) :
    Amounts m r (read m r (toString n).toList) (r.before + n) := by
  obtain ⟨k, ⟨htext, rfl⟩ | ⟨htext, rfl⟩⟩ := Literal.toList_toString_int n
  · have := amounts_natural (m := m) h k
    rwa [Int.one_mul, ← htext] at this
  · obtain ⟨hstarts, hbefore, hr⟩ := h.neg
    have := amounts_natural (m := m) hstarts k
    rw [hbefore, Int.neg_mul, Int.one_mul] at this
    rw [htext]
    exact this.trans_read hr

end Reader

/-! ### Replacing passages -/

section

variable {m : Meaning} {r : Reader} {old new cs : List Char} {pieces ls rs : List (List Char)}

lemma intercalate_append (hls : ls ≠ []) (hrs : rs ≠ []) : intercalate old (ls ++ rs) =
    intercalate old ls ++ old ++ intercalate old rs := by
  induction ls with
  | nil => exact absurd rfl hls
  | cons piece ls ih =>
    by_cases hnil : ls = []
    · subst hnil
      rw [singleton_append, intercalate_cons_of_ne_nil hrs]
      simp
    · rw [cons_append, intercalate_cons_of_ne_nil (by simp [hrs]), ih hnil,
        intercalate_cons_of_ne_nil hnil]
      simp

/-- Where a reader stands a passage may be replaced by another that amounts to the same. -/
def Swaps (m : Meaning) (old new : List Char) (r : Reader) (post : List Char) : Prop :=
  leavesNumeral post = true ∧
    ∃ r0 v, Reader.Amounts m r0 (r.read m old) v ∧ Reader.Amounts m r0 (r.read m new) v

section

variable (hnew : new = [] ∨ new.head? = old.head?)

include hnew

lemma leavesNumeral_intercalate
    (h : ∀ ls rs, pieces = ls ++ rs → rs ≠ [] → leavesNumeral (intercalate old rs) = true) :
    leavesNumeral (intercalate new pieces) = true := by
  induction pieces with
  | nil => rfl
  | cons piece pieces ih =>
    have hhere := h [] (piece :: pieces) rfl (by simp)
    by_cases hnil : pieces = []
    · simpa [hnil] using hhere
    have hrest := ih fun ls rs heq hrs => h (piece :: ls) rs (by rw [heq]; rfl) hrs
    rw [intercalate_cons_of_ne_nil hnil] at hhere ⊢
    cases piece with
    | cons c piece => exact hhere
    | nil =>
      rcases hnew with rfl | hhead
      · simpa using hrest
      · cases new with
        | nil => simpa using hrest
        | cons c new =>
          obtain ⟨old, rfl⟩ := head?_eq_some_iff.mp hhead.symm
          exact hhere

lemma result_intercalate (h : ∀ ls rs, pieces = ls ++ rs → ls ≠ [] → rs ≠ [] →
      Swaps m old new (r.read m (intercalate old ls)) (intercalate old rs)) :
    (r.read m (intercalate new pieces)).result m =
      (r.read m (intercalate old pieces)).result m := by
  induction pieces generalizing r with
  | nil => rfl
  | cons piece pieces ih =>
    by_cases hnil : pieces = []
    · simp [hnil]
    have hpiece : intercalate old [piece] = piece := by simp
    obtain ⟨-, r0, v, hold, hnew'⟩ := h [piece] pieces rfl (by simp) hnil
    rw [hpiece] at hold hnew'
    have hpost : leavesNumeral (intercalate new pieces) = true :=
      leavesNumeral_intercalate hnew fun ls rs heq hrs =>
        (h (piece :: ls) rs (by rw [heq]; rfl) (by simp) hrs).1
    have hrest := ih fun ls rs heq hls hrs => by
      have := h (piece :: ls) rs (by rw [heq]; rfl) (by simp) hrs
      rwa [intercalate_cons_of_ne_nil hls, Reader.read_append, Reader.read_append] at this
    rw [intercalate_cons_of_ne_nil hnil, intercalate_cons_of_ne_nil hnil, Reader.read_append,
      Reader.read_append, Reader.read_append, Reader.read_append, ← hrest]
    exact hnew'.result_read hold hpost

/-- A passage may be replaced in a text if it may be replaced wherever it stands. -/
lemma reading_replacePassage (hold : old ≠ [])
    (h : ∀ pre post, cs = pre ++ old ++ post → Swaps m old new (.read m {} pre) post) :
    reading m (replacePassage old new cs) = reading m cs := by
  have hjoin : intercalate old (splitAt old cs) = cs := intercalate_splitAt hold
  unfold reading replacePassage
  rw [result_intercalate hnew, hjoin]
  intro ls rs heq hls hrs
  refine h _ _ ?_
  rw [← intercalate_append hls hrs, ← heq, hjoin]

end

lemma reading_replaceSigns : reading m (replacePassage ['+', '-'] ['-'] cs) = reading m cs := by
  have hsigns (r : Reader) : r.read m ['+', '-'] = r.read m ['-'] := by
    show Reader.step m (.step m r '+') '-' = Reader.step m r '-'
    rw [Reader.step_sign (.inl rfl), Reader.step_sign (.inr rfl), Reader.step_sign (.inr rfl)]
    cases hf : r.current.factor? <;> simp [Reckoned.signed, hf]
  have hpieces pieces : ∀ r : Reader,
      r.read m (intercalate ['-'] pieces) = r.read m (intercalate ['+', '-'] pieces) := by
    induction pieces with
    | nil => exact fun _ => rfl
    | cons piece pieces ih =>
      intro r
      by_cases hnil : pieces = []
      · simp [hnil]
      · rw [intercalate_cons_of_ne_nil hnil, intercalate_cons_of_ne_nil hnil, Reader.read_append,
          Reader.read_append, Reader.read_append, Reader.read_append, hsigns, ih]
  unfold reading replacePassage
  rw [hpieces, intercalate_splitAt (by simp)]

end

/-! ### Decrements -/

/-- The digits of a decrement, and whether a minus sign stands before them. -/
structure Decrement.Spelled (d : Decrement) (minus : Bool) (ds : List Char) : Prop where
  nonempty : ds ≠ []
  decimal : ∀ c ∈ ds, isDecimal c = true
  passage : d.passage = d.lead :: ((if minus then ['-'] else []) ++ (ds ++ ['-', '1']))
  value : d.value = if minus then -(digitsValue ds : Int) else digitsValue ds

lemma decrementAt?_spelled {leads : String} {signed : Bool} {cs : List Char} {d : Decrement}
    (h : decrementAt? leads signed cs = some d) : d.lead ∈ leads.toList ∧
      ∃ minus ds, (minus = true → signed = true) ∧ d.Spelled minus ds := by
  cases cs with
  | nil => cases h
  | cons lead rest =>
    rw [decrementAt?] at h
    split at h
    · cases h
    next hlead =>
    have hlead : lead ∈ leads.toList := by simpa using hlead
    dsimp only at h
    generalize hsign : (if (signed && rest.head? == some '-') = true then ['-'] else []) = sign at h
    generalize hds : takeWhile _ _ = ds at h
    split at h
    · cases h
    next hne =>
    split at h
    · split at h
      · cases h
      cases h
      have hdecimal : ∀ c ∈ ds, isDecimal c = true := by
        intro c hc
        rw [← hds] at hc
        exact all_eq_true.mp all_takeWhile c hc
      refine ⟨hlead, signed && rest.head? == some '-', ds, by simp +contextual, ?_⟩
      refine ⟨by simpa using hne, hdecimal, ?_, ?_⟩
      · rw [← hsign]
        simp
      · subst hsign
        split <;> simp_all
    · cases h

lemma mem_decrements {leads : String} {signed : Bool} {skip : Nat} {cs : List Char}
    {d : Decrement} (h : d ∈ decrements leads signed skip cs) :
    ∃ cs', decrementAt? leads signed cs' = some d := by
  fun_induction decrements leads signed skip cs with
  | case1 => cases h
  | case2 skip _ rest ih => exact ih h
  | case3 c rest found hfound ih =>
    rcases mem_cons.mp h with rfl | h
    · exact ⟨_, hfound⟩
    · exact ih h
  | case4 _ rest _ ih => exact ih h

def endsFactor (c : Char) : Bool :=
  isWordPart c || c == ')'

/-- A sign after a text starts a term of a sum: a factor ends before it, or an expression starts
with it. -/
def joinsTerm (sign : Char) (pre : List Char) : Bool :=
  match pre.getLast? with
  | none => sign == '-'
  | some c =>
    if c == '+' then sign == '-' && pre.dropLast.getLast?.any endsFactor
    else endsFactor c || (sign == '-' && !(c == '-' || isTight c))

namespace Reader

variable {m : Meaning} {r : Reader} {c : Char} {pre : List Char}

lemma factor_of_endsFactor (hc : endsFactor c = true) :
    (step m r c).current.factor?.isSome = true := by
  unfold step
  cases hword : isWordPart c with
  | true =>
    rw [if_pos rfl]
    split <;> rfl
  | false =>
    obtain rfl : c = ')' := by simpa [endsFactor, hword] using hc
    rfl

lemma total_of_factor (hf : r.current.factor?.isSome = true) :
    ∃ v, r.current.total? m = some v := by
  obtain ⟨f, hf⟩ := Option.isSome_iff_exists.mp hf
  simp [Reckoned.total?, Reckoned.product?, hf]

lemma starts_of_opening (hc : c ∈ " ,([".toList) : Starts (step m r c) 1 := by
  have : c = ' ' ∨ c = ',' ∨ c = '(' ∨ c = '[' := by simpa using hc
  rcases this with rfl | rfl | rfl | rfl <;> exact ⟨rfl, rfl, rfl⟩

lemma factor_of_joinsTerm_plus (h : joinsTerm '+' pre = true) :
    (read m r pre).current.factor?.isSome = true := by
  rcases eq_nil_or_concat' pre with rfl | ⟨before, c, rfl⟩
  · cases h
  · rw [read_append]
    refine factor_of_endsFactor ?_
    by_cases hc : c = '+'
    · subst hc
      simp [joinsTerm] at h
    · simpa [joinsTerm, hc] using h

lemma starts_of_joinsTerm_minus (h : joinsTerm '-' pre = true) :
    Starts (step m (read m {} pre) '-') (-1) := by
  rcases eq_nil_or_concat' pre with rfl | ⟨before, c, rfl⟩
  · exact ⟨rfl, rfl, rfl⟩
  rw [read_append]
  by_cases hplus : c = '+'
  · subst hplus
    have hbefore : before.getLast?.any endsFactor = true := by simpa [joinsTerm] using h
    rcases eq_nil_or_concat' before with rfl | ⟨before, d, rfl⟩
    · cases hbefore
    have hfactor : (read m {} (before ++ [d])).current.factor?.isSome = true := by
      rw [read_append]
      exact factor_of_endsFactor (by simpa using hbefore)
    obtain ⟨v, hv⟩ := total_of_factor hfactor
    exact (starts_of_total (.inl rfl) hv hfactor).1.neg.1
  cases hends : endsFactor c with
  | true =>
    have hfactor := factor_of_endsFactor (m := m) (r := read m {} before) hends
    obtain ⟨v, hv⟩ := total_of_factor hfactor
    exact (starts_of_total (.inr rfl) hv hfactor).1
  | false =>
    -- an expression starts here
    simp only [joinsTerm, getLast?_append, getLast?_singleton, Option.some_or, hends,
      beq_iff_eq, hplus, ite_false, Bool.false_or, beq_self_eq_true, Bool.true_and,
      Bool.not_eq_true', Bool.or_eq_false_iff, beq_eq_false_iff_ne] at h
    simp only [endsFactor, Bool.or_eq_false_iff] at hends
    have hstarts : Starts (step m (read m {} before) c) 1 := by
      by_cases hopen : c = '('
      · subst hopen
        exact ⟨rfl, rfl, rfl⟩
      · simp only [step, hends.1, beq_iff_eq, hopen, hends.2, h.2, beq_eq_false_iff_ne.mpr hplus,
          beq_eq_false_iff_ne.mpr h.1]
        exact ⟨rfl, rfl, rfl⟩
    exact hstarts.neg.1

end Reader

namespace Decrement

variable {d : Decrement} {minus : Bool} {ds pre post : List Char} {m : Meaning} {r : Reader}

lemma Spelled.passage_ne_nil (hd : d.Spelled minus ds) : d.passage ≠ [] := by
  rw [hd.passage]
  simp

lemma Spelled.amounts (hd : d.Spelled minus ds) (h : r.Starts 1) :
    Reader.Amounts m r (r.read m ((if minus then ['-'] else []) ++ (ds ++ ['-', '1'])))
      (r.before + (d.value - 1)) := by
  cases minus with
  | false =>
    have := Reader.amounts_difference (m := m) h hd.nonempty hd.decimal
    rwa [Int.one_mul, Int.add_sub_assoc, ← show d.value = digitsValue ds from hd.value] at this
  | true =>
    obtain ⟨hstarts, hbefore, hr⟩ := h.neg
    have := Reader.amounts_difference (m := m) hstarts hd.nonempty hd.decimal
    rw [hbefore, Int.neg_mul, Int.one_mul, Int.add_sub_assoc, ← show d.value = -(digitsValue ds)
      from hd.value] at this
    exact this.trans_read hr

/-- After a blank, a comma or an opening bracket an expression starts. -/
lemma Spelled.swaps_plain (hd : d.Spelled minus ds) (hlead : d.lead ∈ " ,([".toList)
    (hpost : leavesNumeral post = true) : Swaps m d.passage d.plain r post := by
  have hstarts := Reader.starts_of_opening (m := m) (r := r) hlead
  rw [hd.passage]
  exact ⟨hpost, r.step m d.lead, _, hd.amounts hstarts, Reader.amounts_toString hstarts _⟩

/-- A decrement in a sum is a whole difference: the text after it leaves its `1` alone, its sign
joins a term to a sum, and no expression becomes zero. -/
def isWhole (d : Decrement) (pre post : List Char) : Bool :=
  leavesNumeral post && if d.lead == ' ' then !d.signed.isEmpty else joinsTerm d.lead pre

lemma signed_eq (h : d.signed ≠ []) : d.signed =
    d.lead :: (toString (if d.lead = '-' then d.value + 1 else d.value - 1)).toList := by
  simp only [signed, beq_iff_eq] at h ⊢
  generalize (if d.lead = '-' then d.value + 1 else d.value - 1) = v at h ⊢
  by_cases hv : v = 0
  · simp [hv] at h
  · rw [if_neg hv]

lemma Spelled.swaps_signed (hd : d.Spelled false ds) (hlead : d.lead ∈ "+- ".toList)
    (h : d.isWhole pre post = true) :
    Swaps m d.passage d.signed (.read m {} pre) post := by
  rw [isWhole, Bool.and_eq_true] at h
  obtain ⟨hpost, h⟩ := h
  have hleads : d.lead = '+' ∨ d.lead = '-' ∨ d.lead = ' ' := by simpa using hlead
  have hvalue : d.value = digitsValue ds := hd.value
  rw [hd.passage]
  rcases hleads with hlead | hlead | hlead
  · -- a plus sign: a factor ends before it
    rw [hlead] at h ⊢
    have hfactor := Reader.factor_of_joinsTerm_plus (m := m) (r := {}) h
    obtain ⟨v, hv⟩ := Reader.total_of_factor hfactor
    obtain ⟨hstarts, hbefore⟩ := Reader.starts_of_total (.inl rfl) hv hfactor
    have hold := hd.amounts (m := m) hstarts
    refine ⟨hpost, (Reader.read m {} pre).step m '+', _, hold, ?_⟩
    by_cases hzero : d.signed = []
    · have : d.value - 1 = 0 := by simpa [signed, hlead] using hzero
      rw [hzero, this, hbefore, Int.add_zero]
      exact ⟨rfl, rfl, hfactor, hv⟩
    · rw [signed_eq hzero, hlead]
      exact Reader.amounts_toString hstarts _
  · -- a minus sign: what is subtracted grows
    rw [hlead] at h ⊢
    have hstarts := Reader.starts_of_joinsTerm_minus (m := m) h
    have hne : d.signed ≠ [] := by simp [signed, hlead]; omega
    have hold := Reader.amounts_difference (m := m) hstarts hd.nonempty hd.decimal
    refine ⟨hpost, (Reader.read m {} pre).step m '-', _, hold, ?_⟩
    have htext : (toString (d.value + 1)).toList = Nat.toDigits 10 (digitsValue ds + 1) := by
      rw [hvalue, ← String.toList_ofList (l := Nat.toDigits 10 _)]
      rfl
    have hnew := Reader.amounts_natural (m := m) hstarts (digitsValue ds + 1)
    rw [signed_eq hne, hlead, if_pos rfl, htext]
    rwa [Int.natCast_add, Int.mul_add, ← Int.add_assoc] at hnew
  · -- a blank: an expression starts
    rw [hlead] at h ⊢
    have hne : d.signed ≠ [] := by simpa using h
    have hstarts := Reader.starts_of_opening (m := m) (r := Reader.read m {} pre) (c := ' ')
      (by decide)
    refine ⟨hpost, (Reader.read m {} pre).step m ' ', _, hd.amounts hstarts, ?_⟩
    rw [signed_eq hne, hlead]
    exact Reader.amounts_toString hstarts _

end Decrement

/-! ### Carrying out subtractions -/

/-- Whether a passage is whole wherever it stands in a text, after what was passed already. -/
def standsWhole (isWhole : List Char → List Char → Bool) (passage : List Char) :
    List Char → List Char → Bool
  | _, [] => true
  | pre, c :: rest =>
    (!passage.isPrefixOf (c :: rest) || isWhole pre ((c :: rest).drop passage.length)) &&
      standsWhole isWhole passage (pre ++ [c]) rest

lemma whole_of_standsWhole {isWhole : List Char → List Char → Bool}
    {passage done pre post : List Char} (hne : passage ≠ [])
    (h : standsWhole isWhole passage done (pre ++ passage ++ post) = true) :
    isWhole (done ++ pre) post = true := by
  induction pre generalizing done with
  | nil =>
    obtain ⟨c, cs, rfl⟩ := exists_cons_of_ne_nil hne
    simp only [nil_append, cons_append, standsWhole, Bool.and_eq_true] at h
    have hleads : (c :: cs).isPrefixOf (c :: (cs ++ post)) = true :=
      isPrefixOf_iff_prefix.mpr ⟨post, rfl⟩
    have hdrop : (c :: (cs ++ post)).drop (c :: cs).length = post :=
      @drop_left _ (c :: cs) post
    rw [hleads, hdrop, Bool.not_true] at h
    rw [append_nil]
    exact h.1
  | cons c pre ih =>
    simp only [cons_append, standsWhole, Bool.and_eq_true] at h
    simpa using ih h.2

/-- Whether each passage that is replaced is whole wherever it stands by then. -/
def staysWhole (isWhole : Decrement → List Char → List Char → Bool)
    (outcome : Decrement → List Char) : List Decrement → List Char → Bool
  | [], _ => true
  | d :: ds, cs => standsWhole (isWhole d) d.passage [] cs &&
      staysWhole isWhole outcome ds (replacePassage d.passage (outcome d) cs)

def replaceAll (outcome : Decrement → List Char) (ds : List Decrement) (cs : List Char) :
    List Char :=
  ds.foldl (fun cs d => replacePassage d.passage (outcome d) cs) cs

section

variable (order : List Decrement → List Decrement)

/-- The decrements where expressions start, and those in sums. -/
def startDecrements (cs : List Char) : List Decrement :=
  order (decrements " ,([" true 0 cs)

def sumDecrements (cs : List Char) : List Decrement :=
  order (decrements "+- " false 0 cs)

def foldStarts (cs : List Char) : List Char :=
  replaceAll Decrement.plain (startDecrements order cs) cs

def foldSums (cs : List Char) : List Char :=
  replaceAll Decrement.signed (sumDecrements order cs) cs

/-- Whether all passages that are replaced in a text are whole differences. -/
def isFoldable (text : String) : Bool :=
  let cs := text.toList
  staysWhole (fun _ _ post => leavesNumeral post) Decrement.plain (startDecrements order cs) cs &&
    staysWhole Decrement.isWhole Decrement.signed (sumDecrements order (foldStarts order cs))
      (foldStarts order cs)

end

/-- One passage is replaced at all its places in a text, and nothing else is changed. -/
inductive Round : List Char → List Char → Prop where
  | decrement {d : Decrement} {minus : Bool} {ds new : List Char} (hd : d.Spelled minus ds)
      (hnew : new = d.plain ∨ new = d.signed) (pieces : List (List Char)) :
      Round (intercalate d.passage pieces) (intercalate new pieces)
  | signs (pieces : List (List Char)) :
      Round (intercalate ['+', '-'] pieces) (intercalate ['-'] pieces)

section

variable {m : Meaning} {leads : String} {signed : Bool} {ds : List Decrement} {cs : List Char}
  {order : List Decrement → List Decrement}

lemma exists_spelled_of_mem (horder : ∀ ds, (order ds).Perm ds.eraseDups) {d : Decrement}
    (h : d ∈ order (decrements leads signed 0 cs)) :
    d.lead ∈ leads.toList ∧ ∃ minus ds, (minus = true → signed = true) ∧ d.Spelled minus ds := by
  obtain ⟨cs', hcs⟩ := mem_decrements (mem_eraseDups.mp ((horder _).mem_iff.mp h))
  exact decrementAt?_spelled hcs

variable {outcome : Decrement → List Char}

lemma round_replaceAll (houtcome : outcome = Decrement.plain ∨ outcome = Decrement.signed)
    (h : ∀ d ∈ ds, ∃ minus digits, d.Spelled minus digits) :
    Relation.ReflTransGen Round cs (replaceAll outcome ds cs) := by
  induction ds generalizing cs with
  | nil => exact .refl
  | cons d ds ih =>
    obtain ⟨⟨minus, digits, hd⟩, hds⟩ := forall_mem_cons.mp h
    have hround := Round.decrement hd (houtcome.imp (congrFun · d) (congrFun · d))
      (splitAt d.passage cs)
    rw [intercalate_splitAt hd.passage_ne_nil] at hround
    exact .head hround (ih hds)

lemma reading_replaceAll {isWhole : Decrement → List Char → List Char → Bool}
    (hhead : ∀ d, outcome d = [] ∨ (outcome d).head? = some d.lead)
    (h : ∀ d ∈ ds, ∃ minus digits, d.Spelled minus digits ∧ ∀ pre post,
      isWhole d pre post = true → Swaps m d.passage (outcome d) (.read m {} pre) post)
    (hwhole : staysWhole isWhole outcome ds cs = true) :
    reading m (replaceAll outcome ds cs) = reading m cs := by
  induction ds generalizing cs with
  | nil => rfl
  | cons d ds ih =>
    obtain ⟨⟨minus, digits, hd, hswaps⟩, hds⟩ := forall_mem_cons.mp h
    rw [staysWhole, Bool.and_eq_true] at hwhole
    rw [replaceAll, foldl_cons, ← replaceAll, ih hds hwhole.2]
    refine reading_replacePassage ?_ hd.passage_ne_nil fun pre post heq => hswaps pre post ?_
    · rw [hd.passage]
      exact hhead d
    · subst heq
      simpa using whole_of_standsWhole hd.passage_ne_nil hwhole.1

lemma foldDecrementsIn_eq (text : String) : (foldDecrementsIn order text).toList =
    replacePassage ['+', '-'] ['-'] (foldSums order (foldStarts order text.toList)) :=
  String.toList_ofList

end

/-- Carrying out subtractions of one replaces passages `n-1` by numerals, drops those after a sign
or a blank that amount to nothing, writes one minus sign for a plus and a minus sign, and keeps all
other characters. Every expression keeps its value if the passages are whole differences wherever
they stand. All this holds in whatever order the different passages are gone over. -/
theorem reading_foldDecrements (order : List Decrement → List Decrement)
    (horder : ∀ ds, (order ds).Perm ds.eraseDups) (text : String) :
    Relation.ReflTransGen Round text.toList (foldDecrementsIn order text).toList ∧
      (isFoldable order text = true →
        ∀ m, reading m (foldDecrementsIn order text).toList = reading m text.toList) := by
  rw [foldDecrementsIn_eq]
  refine ⟨?_, fun h m => ?_⟩
  · have hsigns := Round.signs (splitAt ['+', '-'] (foldSums order (foldStarts order text.toList)))
    rw [intercalate_splitAt (by simp)] at hsigns
    refine ((round_replaceAll (.inl rfl) fun d hd => ?_).trans
      (round_replaceAll (.inr rfl) fun d hd => ?_)).tail hsigns
    all_goals
      obtain ⟨-, minus, digits, -, hd⟩ := exists_spelled_of_mem horder hd
      exact ⟨minus, digits, hd⟩
  · rw [isFoldable, Bool.and_eq_true] at h
    rw [reading_replaceSigns, foldSums, reading_replaceAll ?_ ?_ h.2, foldStarts,
      reading_replaceAll ?_ ?_ h.1]
    · exact fun d => .inr rfl
    · intro d hd
      obtain ⟨hlead, minus, digits, -, hd⟩ := exists_spelled_of_mem horder hd
      exact ⟨minus, digits, hd, fun _ _ hpost => hd.swaps_plain hlead hpost⟩
    · intro d
      by_cases hne : d.signed = []
      · exact .inl hne
      · exact .inr (by rw [Decrement.signed_eq hne]; rfl)
    · intro d hd
      obtain ⟨hlead, minus, digits, hminus, hd⟩ := exists_spelled_of_mem horder hd
      obtain rfl : minus = false := by simpa using hminus
      exact ⟨false, digits, hd, fun _ _ => hd.swaps_signed hlead⟩

theorem reading_foldDecrements_calls :
    isFoldable eraseDups "y = a(8-1, n-1-1)+b(5-1-1)-x+0-1 ;" = true ∧
      foldDecrements "y = a(8-1, n-1-1)+b(5-1-1)-x+0-1 ;" = "y = a(7, n-2)+b(4-1)-x-1 ;" ∧
      ∀ m, reading m (foldDecrements "y = a(8-1, n-1-1)+b(5-1-1)-x+0-1 ;").toList =
        reading m "y = a(8-1, n-1-1)+b(5-1-1)-x+0-1 ;".toList :=
  ⟨by decide +kernel, by decide +kernel,
    (reading_foldDecrements eraseDups (fun _ => .refl _) _).2 (by decide +kernel)⟩

/-- What goes on after `-1` is not looked at: twelve is taken for one, and the value changes. -/
theorem foldDecrements_of_larger : foldDecrements "x = (5-12)" = "x = (42)" ∧
    reading ⟨fun _ => 0, fun _ _ => 0, fun _ _ => 0, fun _ => 0, fun _ _ _ => 0⟩
      "x = (5-12)".toList = [.value 0, .char ' ', .char '=', .char ' ', .value (-7)] :=
  ⟨by decide +kernel, by decide +kernel⟩

end ArmaGen
