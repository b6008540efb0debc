import ArmaGen.Supplement.Literal
import Mathlib.Tactic.Lemma

/-!
# Reading literals

A text spells a literal if the reader finds the literal there, whatever comes after it
(`Literal.Spells`). Lists and tables are read with any blanks, line ends and comments between their
parts (`Literal.Gap`). A file of assignments is read line by line (`Literal.readAssignments?_eq`).
-/

namespace ArmaGen.Literal

open List

/-! ### Blanks and comments -/

/-- Blanks, line ends and whole comments. -/
inductive Gap : List Char → Prop where
  | nil : Gap []
  | separator {c : Char} {gap : List Char} (hc : isSeparator c = true) (rest : Gap gap) :
      Gap (c :: gap)
  | comment {text gap : List Char} (htext : '\n' ∉ text) (rest : Gap gap) :
      Gap ('#' :: (text ++ '\n' :: gap))

lemma gap_blanks (n : Nat) : Gap (replicate n ' ') := by
  induction n with
  | zero => exact .nil
  | succ n ih => exact .separator rfl ih

variable {text rest : List Char} {n : Nat} {c : Char}

lemma dropWhile_ne_line (h : '\n' ∉ text) :
    (text ++ '\n' :: rest).dropWhile (· != '\n') = '\n' :: rest := by
  rw [dropWhile_append_of_pos fun c hc => ?_]
  · rfl
  · simp only [bne_iff_ne]
    rintro rfl
    exact h hc

lemma skipSteps_congr {m : Nat} (hn : text.length < n) (hm : text.length < m) :
    skipSteps n text = skipSteps m text := by
  induction n generalizing m text with
  | zero => omega
  | succ n ih =>
    rcases m with _ | m
    · omega
    rw [skipSteps, skipSteps]
    have hlength : (text.dropWhile isSeparator).length ≤ text.length :=
      (dropWhile_sublist _).length_le
    split
    · next rest heq =>
      have hrest : (rest.dropWhile (· != '\n')).length ≤ rest.length :=
        (dropWhile_sublist _).length_le
      rw [heq, length_cons] at hlength
      exact ih (by omega) (by omega)
    · rfl

lemma skip_separator (hc : isSeparator c = true) (text : List Char) :
    skip (c :: text) = skip text := by
  have hdrop : (c :: text).dropWhile isSeparator = text.dropWhile isSeparator := by
    rw [dropWhile_cons, if_pos hc]
  calc skip (c :: text) = skipSteps (text.length + 2) text := by
        rw [skip, length_cons, skipSteps, skipSteps, hdrop]
    _ = skip text := skipSteps_congr (by omega) (Nat.lt_succ_self _)

lemma skip_comment (htext : '\n' ∉ text) (rest : List Char) :
    skip ('#' :: (text ++ '\n' :: rest)) = skip rest := by
  have hdrop : ('#' :: (text ++ '\n' :: rest)).dropWhile isSeparator =
      '#' :: (text ++ '\n' :: rest) := rfl
  calc skip ('#' :: (text ++ '\n' :: rest))
      = skipSteps ((text ++ '\n' :: rest).length + 1) ('\n' :: rest) := by
        rw [skip, skipSteps, hdrop]
        simp [dropWhile_ne_line htext]
    _ = skip ('\n' :: rest) := skipSteps_congr (by grind) (Nat.lt_succ_self _)
    _ = skip rest := skip_separator rfl rest

lemma skip_gap {gap : List Char} (h : Gap gap) (text : List Char) :
    skip (gap ++ text) = skip text := by
  induction h with
  | nil => rfl
  | separator hc _ ih => rw [cons_append, skip_separator hc, ih]
  | comment htext _ ih =>
    rw [cons_append, append_assoc, cons_append, skip_comment htext, ih]

lemma skip_of_head (hc : isSeparator c = false) (hcomment : c ≠ '#') (text : List Char) :
    skip (c :: text) = c :: text := by
  have hdrop : (c :: text).dropWhile isSeparator = c :: text := by
    rw [dropWhile_cons, if_neg (by simp [hc])]
  rw [skip, skipSteps, hdrop]
  split
  · next heq => exact absurd (cons.inj heq).1 hcomment
  · rfl

/-! ### Texts in quotes -/

/-- A character that stands for itself between quotes. -/
def Unescaped (quote c : Char) : Prop :=
  c ≠ quote ∧ c ≠ '\\' ∧ c ≠ '\n' ∧ c ≠ '\r'

instance (quote c : Char) : Decidable (Unescaped quote c) :=
  inferInstanceAs (Decidable (_ ∧ _))

/-- A text that stands for itself between three double quotes. -/
structure Block (text : List Char) : Prop where
  backslash : '\\' ∉ text
  carriage : '\r' ∉ text
  quotes : ¬ ['"', '"', '"'] <:+: text
  last : text.getLast? ≠ some '"'

lemma quotedSteps_plain {quote : Char} (h : ∀ c ∈ text, Unescaped quote c) (hn : text.length < n)
    (rest : List Char) : quotedSteps [quote] n (text ++ quote :: rest) = some (text, rest) := by
  induction text generalizing n with
  | nil =>
    rcases n with _ | n
    · omega
    simp [quotedSteps]
  | cons c text ih =>
    rcases n with _ | n
    · omega
    rw [forall_mem_cons] at h
    obtain ⟨⟨hquote, hbackslash, hline, -⟩, htext⟩ := h
    have hrest := ih htext (by simpa using hn)
    have hopen : [quote].isPrefixOf (c :: (text ++ quote :: rest)) = false := by
      simp [isPrefixOf, hquote.symm]
    rw [cons_append, quotedSteps, hopen]
    simp [hbackslash, hline, hrest]

lemma Block.tail (h : Block (c :: text)) : Block text where
  backslash hmem := h.backslash (.tail _ hmem)
  carriage hmem := h.carriage (.tail _ hmem)
  quotes h3 := h.quotes (h3.trans (suffix_cons c text).isInfix)
  last hlast := by
    cases text with
    | nil => cases hlast
    | cons d text => exact h.last (by rw [getLast?_cons_cons, hlast])

lemma Block.isPrefixOf_eq_false (h : Block (c :: text)) (rest : List Char) :
    ['"', '"', '"'].isPrefixOf (c :: (text ++ '"' :: '"' :: '"' :: rest)) = false := by
  by_cases hc : c = '"'
  · subst hc
    match text, h with
    | [], h => exact absurd rfl h.last
    | [d], h =>
      have hd : '"' ≠ d := by
        rintro rfl
        exact h.last rfl
      simp [isPrefixOf, hd]
    | d :: e :: text, h =>
      have hde : ¬ ('"' = d ∧ '"' = e) := by
        rintro ⟨rfl, rfl⟩
        exact h.quotes ⟨[], text, rfl⟩
      simpa [isPrefixOf] using hde
  · simp [isPrefixOf, Ne.symm hc]

lemma quotedSteps_block (h : Block text) (hn : text.length < n) (rest : List Char) :
    quotedSteps ['"', '"', '"'] n (text ++ '"' :: '"' :: '"' :: rest) = some (text, rest) := by
  induction text generalizing n with
  | nil =>
    rcases n with _ | n
    · omega
    simp [quotedSteps]
  | cons c text ih =>
    rcases n with _ | n
    · omega
    have hrest := ih h.tail (by simpa using hn)
    have hbackslash : c ≠ '\\' := by
      rintro rfl
      exact h.backslash mem_cons_self
    have hopen := h.isPrefixOf_eq_false rest
    rw [cons_append, quotedSteps, hopen]
    simp [hbackslash, hrest]

lemma quotedText?_plain {quote : Char} (hquote : quote = '\'' ∨ quote = '"')
    (h : ∀ c ∈ text, Unescaped quote c) (rest : List Char) (hrest : rest.head? ≠ some quote) :
    quotedText? (quote :: (text ++ quote :: rest)) = some (String.ofList text, rest) := by
  have hopen : [quote, quote].isPrefixOf (text ++ quote :: rest) = false := by
    cases text with
    | nil =>
      cases rest with
      | nil => simp
      | cons d rest =>
        have hd : quote ≠ d := by
          rintro rfl
          exact hrest rfl
        simp [isPrefixOf, hd]
    | cons c text => simp [isPrefixOf, (h c mem_cons_self).1.symm]
  have hsteps := quotedSteps_plain h (n := (text ++ quote :: rest).length + 1) (by grind) rest
  have hstarts : (quote != '\'' && quote != '"') = false := by
    rcases hquote with rfl | rfl <;> rfl
  simp only [quotedText?, hstarts, hopen, hsteps, Bool.false_eq_true, if_false]
  rfl

lemma quotedText?_block (h : Block text) (rest : List Char) :
    quotedText? ('"' :: '"' :: '"' :: (text ++ '"' :: '"' :: '"' :: rest)) =
      some (String.ofList text, rest) := by
  have hsteps := quotedSteps_block h
    (n := (text ++ '"' :: '"' :: '"' :: rest).length + 1) (by grind) rest
  have hopen : ['"', '"'].isPrefixOf ('"' :: '"' :: (text ++ '"' :: '"' :: '"' :: rest)) =
    true := by
    simp
  simp only [quotedText?, hopen, if_true, drop_succ_cons, drop_zero, hsteps]
  rfl

/-! ### Numbers -/

lemma isDigit_of_mem_toDigits (h : c ∈ Nat.toDigits 10 n) : isDigit c = true := by
  have hdigit := Nat.isDigit_of_mem_toDigits (by decide) (by decide) h
  simp only [Char.isDigit, Bool.and_eq_true, decide_eq_true_eq] at hdigit
  simp only [isDigit, Bool.and_eq_true, decide_eq_true_eq]
  exact hdigit

lemma readNatural?_toDigits (n : Nat) : readNatural? (Nat.toDigits 10 n) = some n := by
  have hdigits : (Nat.toDigits 10 n).all isDigit = true :=
    all_eq_true.2 fun _ => isDigit_of_mem_toDigits
  have hsome : (Nat.toDigits 10 n).isEmpty = false := by simp
  rw [readNatural?, hdigits, hsome]
  exact congrArg some Nat.ofDigitChars_ten_toDigits

lemma splitSign_toDigits (n : Nat) :
    splitSign (Nat.toDigits 10 n) = (false, Nat.toDigits 10 n) := by
  have hdigit : ∀ c rest, Nat.toDigits 10 n = c :: rest → isDigit c = true :=
    fun c rest heq => isDigit_of_mem_toDigits (heq ▸ mem_cons_self)
  unfold splitSign
  split
  iterate 2 · next heq => exact absurd (hdigit _ _ heq) (by decide)
  · rfl

lemma toList_toString_int (n : Int) : ∃ m : Nat, (toString n).toList = Nat.toDigits 10 m ∧ n = m ∨
      (toString n).toList = '-' :: Nat.toDigits 10 m ∧ n = -(m : Int) := by
  have hdigits m : (toString m).toList = Nat.toDigits 10 m := by
    rw [Nat.toString_eq_ofList_toDigits, String.toList_ofList]
  cases n with
  | ofNat m => exact ⟨m, .inl ⟨hdigits m, rfl⟩⟩
  | negSucc m =>
    refine ⟨m + 1, .inr ⟨?_, rfl⟩⟩
    rw [← hdigits]
    exact String.toList_append

lemma readSigned?_toString (n : Int) : readSigned? (toString n).toList = some n := by
  obtain ⟨m, ⟨htext, rfl⟩ | ⟨htext, rfl⟩⟩ := toList_toString_int n
  · rw [htext, readSigned?, splitSign_toDigits]
    simp [readNatural?_toDigits]
  · rw [htext, readSigned?, splitSign]
    simp [readNatural?_toDigits]

/-! ### Values -/

/-- A character of a whole number or a word. -/
def isWordChar (c : Char) : Bool :=
  isWord c || c == '-' || c == '.'

/-- What may come after a literal. -/
def Ends (rest : List Char) : Prop :=
  ∀ c ∈ rest.head?, c ≠ '"' ∧ c ≠ '\'' ∧ isWordChar c = false

/-- A literal is found at the start of a text, whatever comes after it. -/
def Spells (value : Literal) (text : List Char) : Prop :=
  ∀ ⦃n : Nat⦄ ⦃rest : List Char⦄, text.length ≤ n → Ends rest →
    valueSteps (n + 1) (text ++ rest) = some (value, rest)

def SpellsEntries (entries : List (String × Literal)) (text : List Char) : Prop :=
  ∀ ⦃n : Nat⦄ ⦃rest : List Char⦄, text.length ≤ n →
    entriesSteps (n + 1) (text ++ '\x7d' :: rest) = some (entries, rest)

def SpellsItems (items : List Literal) (text : List Char) : Prop :=
  ∀ ⦃n : Nat⦄ ⦃rest : List Char⦄, text.length ≤ n →
    itemsSteps (n + 1) ']' (text ++ ']' :: rest) = some (items, rest)

variable {quote : Char} {text gap key more : List Char} {value : Literal}
  {entries : List (String × Literal)} {items : List Literal}

lemma Ends.head_ne (h : Ends more) (hquote : quote = '\'' ∨ quote = '"') :
    more.head? ≠ some quote := by
  intro hhead
  obtain ⟨hdouble, hsingle, -⟩ := h quote hhead
  rcases hquote with rfl | rfl
  · exact hsingle rfl
  · exact hdouble rfl

lemma valueSteps_quote {found : String} (hquote : quote = '\'' ∨ quote = '"')
    (hread : quotedText? (quote :: text) = some (found, rest)) :
    valueSteps (n + 1) (quote :: text) = some (.string found, rest) := by
  rcases hquote with rfl | rfl
  all_goals
    show Option.bind (quotedText? _) _ = _
    rw [hread]
    rfl

lemma spells_plain (hquote : quote = '\'' ∨ quote = '"') (h : ∀ c ∈ text, Unescaped quote c) :
    Spells (.string (String.ofList text)) (quote :: (text ++ [quote])) := by
  intro n rest _ hrest
  rw [cons_append, append_assoc, cons_append]
  exact valueSteps_quote hquote (quotedText?_plain hquote h rest (hrest.head_ne hquote))

lemma spells_block (h : Block text) :
    Spells (.string (String.ofList text)) ('"' :: '"' :: '"' :: (text ++ ['"', '"', '"'])) := by
  intro n rest _ _
  simp only [cons_append, append_assoc]
  exact valueSteps_quote (.inr rfl) (quotedText?_block h rest)

lemma isWordChar_of_mem_toString {n : Int} (h : c ∈ (toString n).toList) : isWordChar c = true := by
  have hdigits {m : Nat} (hmem : c ∈ Nat.toDigits 10 m) : isWordChar c = true := by
    simp [isWordChar, isWord, isAlnum, isDigit_of_mem_toDigits hmem]
  obtain ⟨m, ⟨htext, -⟩ | ⟨htext, -⟩⟩ := toList_toString_int n
  · exact hdigits (htext ▸ h)
  · rw [htext, mem_cons] at h
    rcases h with rfl | h
    · rfl
    · exact hdigits h

lemma word?_number (n : Int) (hrest : Ends rest) :
    word? ((toString n).toList ++ rest) = some (.number n, rest) := by
  have hword : ∀ c ∈ (toString n).toList, isWordChar c = true :=
    fun _ => isWordChar_of_mem_toString
  have htake : ((toString n).toList ++ rest).takeWhile isWordChar = (toString n).toList := by
    rw [takeWhile_append_of_pos hword, append_right_eq_self]
    cases rest with
    | nil => rfl
    | cons c rest => rw [takeWhile_cons, if_neg (by simp [(hrest c rfl).2.2])]
  have hdrop : ((toString n).toList ++ rest).dropWhile isWordChar = rest := by
    rw [dropWhile_append_of_pos hword]
    cases rest with
    | nil => rfl
    | cons c rest => rw [dropWhile_cons, if_neg (by simp [(hrest c rfl).2.2])]
  have hnot {word : String} (h : readSigned? word.toList = none) : toString n ≠ word := by
    rintro rfl
    exact absurd (h.symm.trans (readSigned?_toString n)) (by simp)
  have hchars : (fun c : Char => isWord c || c == '-' || c == '.') = isWordChar := rfl
  simp only [word?, hchars, htake, hdrop, String.ofList_toList]
  split
  iterate 3 · next heq => exact absurd heq (hnot (by decide))
  · rw [readSigned?_toString]
    rfl

lemma isSeparator_eq_false (h : isWordChar c = true) : isSeparator c = false := by
  rw [← Bool.not_eq_true]
  intro hc
  simp only [isSeparator, Bool.or_eq_true, beq_iff_eq] at hc
  rcases hc with (((rfl | rfl) | rfl) | rfl) | rfl <;> exact absurd h (by decide)

lemma valueSteps_word (hc : isWordChar c = true) (n : Nat) (text : List Char) :
    valueSteps (n + 1) (c :: text) = word? (c :: text) := by
  have hne {d : Char} (hd : isWordChar d = false) : c ≠ d := by
    rintro rfl
    exact absurd (hd.symm.trans hc) (by decide)
  rw [valueSteps, skip_of_head (isSeparator_eq_false hc) (hne rfl)]
  split
  iterate 3 · next heq => exact absurd (cons.inj heq).1 (hne rfl)
  · split
    iterate 2 · next heq => exact absurd (cons.inj heq).1 (hne rfl)
    · rfl

lemma spells_number (n : Int) : Spells (.number n) (toString n).toList := by
  intro fuel rest _ hrest
  have hread := word?_number n hrest
  cases htext : (toString n).toList with
  | nil =>
    have hnone := readSigned?_toString n
    rw [htext] at hnone
    cases hnone
  | cons c text =>
    rw [htext] at hread
    have hc : isWordChar c = true := isWordChar_of_mem_toString (htext ▸ mem_cons_self)
    rw [cons_append, valueSteps_word hc]
    exact hread

/-! ### Tables and lists -/

lemma spells_table (h : SpellsEntries entries text) :
    Spells (.table entries) ('\x7b' :: (text ++ ['\x7d'])) := by
  intro n rest hn _
  obtain ⟨n, rfl⟩ : ∃ k, n = k + 1 := ⟨n - 1, by simp at hn; omega⟩
  rw [cons_append, append_assoc, cons_append]
  show Option.bind (entriesSteps _ _) _ = _
  rw [h (by simp at hn; omega)]
  rfl

lemma spells_list (h : SpellsItems items text) : Spells (.list items) ('[' :: (text ++ [']'])) := by
  intro n rest hn _
  obtain ⟨n, rfl⟩ : ∃ k, n = k + 1 := ⟨n - 1, by simp at hn; omega⟩
  rw [cons_append, append_assoc, cons_append]
  show Option.bind (itemsSteps _ _ _) _ = _
  rw [h (by simp at hn; omega)]
  rfl

lemma spellsEntries_gap (h : Gap gap) : SpellsEntries [] gap := by
  intro n rest _
  rw [entriesSteps, skip_gap h]
  rfl

lemma spellsItems_gap (h : Gap gap) : SpellsItems [] gap := by
  intro n rest _
  rw [itemsSteps, skip_gap h]
  rfl

lemma SpellsEntries.after_gap (h : SpellsEntries entries text) (hgap : Gap gap) :
    SpellsEntries entries (gap ++ text) := by
  intro n rest hn
  have htext := @h n rest (by simp at hn; omega)
  rw [append_assoc, entriesSteps, skip_gap hgap]
  exact htext

lemma SpellsItems.after_gap (h : SpellsItems items text) (hgap : Gap gap) :
    SpellsItems items (gap ++ text) := by
  intro n rest hn
  have htext := @h n rest (by simp at hn; omega)
  rw [append_assoc, itemsSteps, skip_gap hgap]
  exact htext

lemma SpellsEntries.cons (hmore : SpellsEntries entries more)
    (hkey : ∀ c ∈ key, Unescaped '"' c) (hvalue : Spells value text) :
    SpellsEntries ((String.ofList key, value) :: entries)
      ('"' :: (key ++ '"' :: ' ' :: ':' :: ' ' :: (text ++ ',' :: more))) := by
  intro n rest hn
  simp only [length_cons, length_append] at hn
  rcases n with _ | n
  · omega
  have hread := quotedText?_plain (.inr rfl) hkey
    (' ' :: ':' :: ' ' :: (text ++ ',' :: (more ++ '\x7d' :: rest))) (by simp)
  have hfound : valueSteps (n + 1) (' ' :: (text ++ ',' :: (more ++ '\x7d' :: rest))) =
      some (value, ',' :: (more ++ '\x7d' :: rest)) := by
    rw [valueSteps, skip_separator rfl]
    exact hvalue (by omega) fun c hc => by cases hc; decide
  simp only [cons_append, append_assoc]
  show Option.bind (quotedText? _) _ = _
  rw [hread]
  show Option.bind (valueSteps (n + 1) (' ' :: (text ++ ',' :: (more ++ '\x7d' :: rest)))) _ = _
  rw [hfound]
  show Option.bind (entriesSteps (n + 1) (more ++ '\x7d' :: rest)) _ = _
  rw [hmore (by omega)]
  rfl

lemma SpellsItems.cons (hmore : SpellsItems items more) (htext : ∀ c ∈ text, Unescaped '\'' c) :
    SpellsItems (.string (String.ofList text) :: items)
      ('\'' :: (text ++ '\'' :: ',' :: more)) := by
  intro n rest hn
  simp only [length_cons, length_append] at hn
  rcases n with _ | n
  · omega
  have hread := quotedText?_plain (.inl rfl) htext (',' :: (more ++ ']' :: rest)) (by simp)
  simp only [cons_append, append_assoc]
  show Option.bind (valueSteps (n + 1) _) _ = _
  rw [valueSteps_quote (.inl rfl) hread]
  show Option.bind (itemsSteps (n + 1) ']' (more ++ ']' :: rest)) _ = _
  rw [hmore (by omega)]
  rfl

/-! ### Files -/

/-- A text is a file of assignments. -/
def Assigns (assignments : Table Literal) (text : List Char) : Prop :=
  ∀ ⦃n : Nat⦄, text.length < n → assignmentsSteps n text = some assignments

variable {assignments : Table Literal} {rest : List Char}

lemma assigns_nil : Assigns [] [] := by
  intro n hn
  obtain ⟨n, rfl⟩ : ∃ k, n = k + 1 := ⟨n - 1, by simp at hn; omega⟩
  rfl

lemma Assigns.after_line (h : Assigns assignments rest) (hline : lineRest? text = some rest)
    (hlength : rest.length < text.length) : Assigns assignments text := by
  intro n hn
  rcases n with _ | n
  · omega
  cases text with
  | nil => simp at hlength
  | cons c text =>
    rw [assignmentsSteps, hline]
    · exact h (by omega)
    · simp

lemma Assigns.after_comment (h : Assigns assignments rest) (htext : '\n' ∉ text) :
    Assigns assignments ('#' :: (text ++ '\n' :: rest)) := by
  apply h.after_line
  · show some ((dropWhile _ (text ++ '\n' :: rest)).drop 1) = _
    rw [dropWhile_ne_line htext]
    rfl
  · simp
    omega

lemma lineRest?_word (hc : isWord c = true) (text : List Char) : lineRest? (c :: text) = none := by
  have hne {d : Char} (hd : isWord d = false) : c ≠ d := by
    rintro rfl
    exact absurd (hd.symm.trans hc) (by decide)
  have hblank : (c == ' ' || c == '\t' || c == '\x0c' || c == '\r') = false := by
    simp [hne (d := ' ') rfl, hne (d := '\t') rfl, hne (d := '\x0c') rfl, hne (d := '\r') rfl]
  rw [lineRest?, dropWhile_cons, hblank]
  split
  · next heq => cases heq
  iterate 2 · next heq => exact absurd (cons.inj heq).1 (hne rfl)
  · rfl

lemma Assigns.cons {name : List Char} (h : Assigns assignments more) (hname : name ≠ [])
    (hword : ∀ c ∈ name, isWord c = true) (hc : c ≠ ' ') (hvalue : Spells value (c :: text))
    (hends : Ends rest) (hline : lineRest? rest = some more) (hlength : more.length ≤ rest.length) :
    Assigns ((String.ofList name, value) :: assignments)
      (name ++ ' ' :: '=' :: ' ' :: c :: (text ++ rest)) := by
  intro n hn
  simp only [length_append, length_cons] at hn
  rcases n with _ | n
  · omega
  have htake : (name ++ ' ' :: '=' :: ' ' :: c :: (text ++ rest)).takeWhile isWord = name := by
    rw [takeWhile_append_of_pos hword]
    exact append_nil name
  have hdrop : (name ++ ' ' :: '=' :: ' ' :: c :: (text ++ rest)).dropWhile isWord =
      ' ' :: '=' :: ' ' :: c :: (text ++ rest) :=
    dropWhile_append_of_pos hword
  have hread : read? ((' ' :: c :: (text ++ rest)).dropWhile (· == ' ')) = some (value, rest) := by
    have hblank : (' ' :: c :: (text ++ rest)).dropWhile (· == ' ') = c :: text ++ rest := by
      simp [hc]
    rw [hblank]
    exact hvalue (by simp; omega) hends
  have hfirst : lineRest? (name ++ ' ' :: '=' :: ' ' :: c :: (text ++ rest)) = none := by
    cases name with
    | nil => exact absurd rfl hname
    | cons d name => exact lineRest?_word (hword d mem_cons_self) _
  rw [assignmentsSteps, hfirst]
  · simp only [htake, hdrop]
    show (if name.isEmpty = true then none else Option.bind (read? _) _) = _
    rw [if_neg (by simpa using hname), hread]
    show Option.bind (lineRest? rest) _ = _
    rw [hline]
    show Option.bind (assignmentsSteps n more) _ = _
    rw [h (by omega)]
    rfl
  · simp

lemma readAssignments?_eq {text : String} (h : Assigns assignments text.toList) :
    readAssignments? text = some assignments := by
  apply h
  rw [String.length_toList]
  omega

end ArmaGen.Literal
