import ArmaGen.Text.Continuation
import Mathlib.Data.List.Infix
import Mathlib.Tactic.Lemma

/-!
# Continued lines

The loop over the continuation marks of a text comes to the same as going over the text once
(`continueFrom_eq`). So a line that follows a continuation mark is read with a blank in front, and
all other lines as they are (`lines_programText`).
-/

namespace ArmaGen

open List

variable {line rest text : List Char}

/-! ### The loop in one pass -/

/-- Puts a blank after the line end that follows each continuation mark; `inside` says that a mark
has been met on the line. -/
def continued : (inside : Bool) → List Char → List Char
  | _, [] => []
  | true, c :: rest =>
    if c == '\n' then '\n' :: ' ' :: continued false rest else c :: continued true rest
  | false, '.' :: '.' :: '.' :: rest => '.' :: '.' :: '.' :: continued true rest
  | false, c :: rest => c :: continued false rest

/-- What is looked for on a line: a mark, and after it the line end. -/
def sought : (inside : Bool) → List Char
  | true => ['\n']
  | false => ['.', '.', '.']

/-- Nothing changes before what is looked for, or up to the end of the text if it is not found. -/
lemma continued_eq (inside : Bool) (text : List Char) :
    continued inside text = text.take ((firstAt? (sought inside) text).getD text.length) ++
      continued inside (text.drop ((firstAt? (sought inside) text).getD text.length)) := by
  induction text with
  | nil => rfl
  | cons c rest ih =>
    rw [firstAt?]
    split
    next => rfl
    next hnot =>
      have hstep : continued inside (c :: rest) = c :: continued inside rest := by
        cases inside with
        | true =>
          rw [continued, if_neg fun hc => hnot (by simp [sought, beq_iff_eq.mp hc])]
        | false =>
          rw [continued]
          rintro more rfl rfl
          exact hnot rfl
      rw [hstep, ih]
      cases firstAt? (sought inside) rest <;> simp

lemma continued_of_firstAt?_eq_none (inside : Bool)
    (h : firstAt? (sought inside) text = none) : continued inside text = text := by
  rw [continued_eq, h, Option.getD_none, take_length, drop_length, continued, append_nil]

lemma continued_of_firstAt? (inside : Bool) {i : Nat} (h : firstAt? (sought inside) text = some i) :
    continued inside text = text.take i ++ continued inside (text.drop i) := by
  rw [continued_eq, h, Option.getD_some]

lemma continued_of_mark (h : ['.', '.', '.'] <+: text) :
    continued false text = continued true text := by
  obtain ⟨rest, rfl⟩ := h
  rfl

/-- The loop over the marks changes nothing before its cursor, and behind it what one pass over the
text changes. -/
lemma continueFrom_eq (text : List Char) (k : Nat) :
    continueFrom text k = text.take k ++ continued false (text.drop k) := by
  -- by the turns of the loop: after each of them the cursor stands on a line end before a blank
  fun_induction continueFrom text k with
  | case1 text k hmark =>
    rw [continued_of_firstAt?_eq_none false hmark, take_append_drop]
  | case2 text k i hmark hend =>
    have hdots := (lt_of_firstAt? hmark).2
    rw [drop_drop] at hdots
    rw [continued_of_firstAt? false hmark, drop_drop, continued_of_mark hdots,
      continued_of_firstAt?_eq_none true hend, ← append_assoc, ← take_add, take_append_drop]
  | case3 text k i hmark j hend stop ih =>
    have hdots := (lt_of_firstAt? hmark).2
    have hline := (lt_of_firstAt? hend).2
    rw [drop_drop] at hdots hline
    obtain ⟨rest, hrest⟩ := hline
    have hbefore : text.take (stop + 1) = text.take stop ++ ['\n'] := by
      rw [take_add, ← hrest]
      rfl
    have hbehind : text.drop (stop + 1) = rest := by
      rw [← drop_drop, ← hrest]
      rfl
    have hlength : (text.take stop).length = stop := by
      have hlt := (lt_of_firstAt? hend).1
      rw [length_drop] at hlt
      rw [length_take]
      omega
    have hread : text.take k ++ continued false (text.drop k) =
        text.take stop ++ '\n' :: ' ' :: continued false rest := by
      rw [continued_of_firstAt? false hmark, drop_drop, continued_of_mark hdots,
        continued_of_firstAt? true hend, drop_drop, ← hrest, ← append_assoc, ← append_assoc,
        ← take_add, ← take_add]
      rfl
    rw [ih, hbefore, hbehind, hread, append_assoc]
    rw [take_append_of_le_length (Nat.le_of_eq hlength.symm), take_take, min_self,
      drop_append_of_le_length (Nat.le_of_eq hlength.symm),
        drop_eq_nil_of_le (Nat.le_of_eq hlength)]
    rfl

lemma programText_eq (code : String) :
    programText code = String.ofList (continued false code.toList) ++ "\n\n\n" := by
  rw [programText, continueFrom_eq, take_zero, nil_append, drop_zero]

/-! ### Text without marks -/

section

variable {c : Char} {cs : List Char}

/-- Text that is read as another one, whatever comes after it. -/
def ContinuedAs (cs ds : List Char) : Prop :=
  ∀ es, continued false (cs ++ es) = ds ++ continued false es

lemma ContinuedAs.append {cs cs' ds ds' : List Char} (h : ContinuedAs cs ds)
    (h' : ContinuedAs cs' ds') :
    ContinuedAs (cs ++ cs') (ds ++ ds') := by
  intro es
  rw [append_assoc, h, h', append_assoc]

/-- Text that is read as it stands, whatever comes after it. -/
def Uncontinued (cs : List Char) : Prop :=
  ∀ ds, continued false (cs ++ ds) = cs ++ continued false ds

lemma Uncontinued.append {cs ds : List Char} (hcs : Uncontinued cs) (hds : Uncontinued ds) :
    Uncontinued (cs ++ ds) :=
  ContinuedAs.append hcs hds

lemma continued_char (h : c ≠ '.') : continued false (c :: cs) = c :: continued false cs := by
  rw [continued]
  intro rest heq _
  exact h heq

lemma uncontinued_of_not_mem (h : '.' ∉ cs) : Uncontinued cs := by
  intro ds
  induction cs with
  | nil => rfl
  | cons c cs ih =>
    rw [mem_cons, not_or] at h
    rw [cons_append, continued_char (Ne.symm h.1), ih h.2]
    rfl

lemma uncontinued_dot (h : c ≠ '.') : Uncontinued ['.', c] := by
  intro ds
  have hdot : continued false ('.' :: c :: ds) = '.' :: continued false (c :: ds) := by
    rw [continued]
    intro rest _ heq
    exact h (cons.inj heq).1
  exact hdot.trans (congrArg _ (continued_char h))

end

/-! ### Lines -/

/-- A line as it is read below another one: with a blank in front if that one has a continuation
mark. -/
def readBelow (above line : List Char) : List Char :=
  if ['.', '.', '.'] <:+: above then ' ' :: line else line

/-- What follows a line: nothing, or a line end. -/
def AfterLine (rest : List Char) : Prop :=
  ∀ c ∈ rest.head?, c = '\n'

lemma continued_true_append (hline : '\n' ∉ line) (rest : List Char) :
    continued true (line ++ rest) = line ++ continued true rest := by
  induction line with
  | nil => rfl
  | cons c line ih =>
    rw [mem_cons, not_or] at hline
    rw [cons_append, continued, if_neg (by simpa using Ne.symm hline.1), ih hline.2]
    rfl

lemma continued_append (hline : '\n' ∉ line) (hrest : AfterLine rest) :
    continued false (line ++ rest) =
      line ++ continued (decide (['.', '.', '.'] <:+: line)) rest := by
  induction line with
  | nil => rfl
  | cons c line ih =>
    by_cases hdots : ['.', '.', '.'] <+: c :: line
    · obtain ⟨more, hmore⟩ := hdots
      rw [← hmore, mem_append, not_or] at hline
      rw [← hmore, decide_eq_true (prefix_append _ more).isInfix, append_assoc, append_assoc,
        ← continued_true_append hline.2 rest]
      rfl
    · have hinfix : ['.', '.', '.'] <:+: c :: line ↔ ['.', '.', '.'] <:+: line := by
        rw [infix_cons_iff, or_iff_right hdots]
      rw [mem_cons, not_or] at hline
      rw [decide_eq_decide.mpr hinfix, cons_append, continued, ih hline.2]
      · rfl
      · -- the three dots would stand on the line itself
        rintro more rfl hmore
        rcases line with _ | ⟨d, _ | ⟨e, line⟩⟩
        · exact absurd (hrest '.' (by simp [show rest = _ from hmore])) (by decide)
        · exact absurd (hrest '.' (by simp [show rest = _ from (cons.inj hmore).2])) (by decide)
        · simp only [cons_append, cons.injEq] at hmore
          exact hdots (by simp [hmore.1, hmore.2.1])

lemma continued_line (hline : '\n' ∉ line) (rest : List Char) :
    continued false (line ++ '\n' :: rest) = line ++ '\n' ::
      readBelow line (continued false rest) := by
  rw [continued_append hline (by simp [AfterLine]), readBelow]
  by_cases hdots : ['.', '.', '.'] <:+: line
  · rw [decide_eq_true hdots, if_pos hdots]
    rfl
  · rw [decide_eq_false hdots, if_neg hdots]
    rfl

lemma splitOn_readBelow {first : List Char} {lines : List (List Char)} {text : List Char}
    (h : text.splitOn '\n' = first :: lines) (above : List Char) :
    (readBelow above text).splitOn '\n' = readBelow above first :: lines := by
  unfold readBelow
  split
  · rw [splitOn_cons_eq_if_modifyHead, h]
    rfl
  · exact h

lemma exists_splitOn_continued (text : List Char) :
    ∃ first lines, text.splitOn '\n' = first :: lines ∧
      (continued false text).splitOn '\n' = first :: zipWith readBelow (first :: lines) lines := by
  -- line by line: what follows the first line end is a shorter text
  induction h : text.length using Nat.strongRecOn generalizing text with
  | ind n ih =>
    by_cases hmem : '\n' ∈ text
    · obtain ⟨line, rest, rfl, hline⟩ := eq_append_cons_of_mem hmem
      obtain ⟨first, lines, hsplit, hread⟩ := ih rest.length (by simp at h; omega) rest rfl
      refine ⟨line, first :: lines, ?_, ?_⟩
      · rw [splitOn_append_cons_self_of_not_mem hline, hsplit]
      · rw [continued_line hline, splitOn_append_cons_self_of_not_mem hline,
          splitOn_readBelow hread]
        rfl
    · have hsame := @continued_append text [] hmem (by simp [AfterLine])
      rw [append_nil, continued, append_nil] at hsame
      have hone := splitOn_eq_singleton hmem
      exact ⟨text, [], hone, by rw [hsame, hone]; rfl⟩

/-- The lines of a program are read in order, with a blank in front of each line below one that has
a continuation mark, and three line ends after them. -/
theorem lines_programText (code : String) :
    ∃ text : List Char, programText code = String.ofList text ++ "\n\n\n" ∧
      (text.splitOn '\n').length = (code.toList.splitOn '\n').length ∧
      text.splitOn '\n' =
        zipWith readBelow ([] :: code.toList.splitOn '\n') (code.toList.splitOn '\n') := by
  obtain ⟨first, lines, hsplit, hread⟩ := exists_splitOn_continued code.toList
  refine ⟨continued false code.toList, programText_eq code, ?_, ?_⟩
  · rw [hsplit, hread]
    simp
  · rw [hsplit, hread]
    rfl

end ArmaGen
