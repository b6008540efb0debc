/-!
# Continued lines

A line with three dots goes on on the next line. Before a text is read, a blank is put in front of
every line that continues another one: the loop looks for a mark, puts a blank after the line end
that follows it, and goes on at that line end in the text it has changed (`continueFrom`).
-/

namespace ArmaGen

/-- Where a word stands first in a text. -/
def firstAt? (word : List Char) : List Char → Option Nat
  | [] => none
  | c :: rest =>
    if word.isPrefixOf (c :: rest) then some 0 else (firstAt? word rest).map (· + 1)

variable {text : List Char}

theorem lt_of_firstAt? {word : List Char} {i : Nat} (h : firstAt? word text = some i) :
    i < text.length ∧ word <+: text.drop i := by
  induction text generalizing i with
  | nil => cases h
  | cons c rest ih =>
    rw [firstAt?] at h
    split at h
    next hword =>
      cases h
      exact ⟨Nat.zero_lt_succ _, List.isPrefixOf_iff_prefix.mp hword⟩
    next =>
      obtain ⟨j, hj, rfl⟩ := Option.map_eq_some_iff.mp h
      exact ⟨Nat.succ_lt_succ (ih hj).1, (ih hj).2⟩

/-- The mark itself stands between its start and the line end after it. -/
theorem three_le_of_firstAt? {j : Nat} (hmark : ['.', '.', '.'] <+: text)
    (h : firstAt? ['\n'] text = some j) : 3 ≤ j := by
  obtain ⟨rest, rfl⟩ := hmark
  have hend := (lt_of_firstAt? h).2
  rcases j with _ | _ | _ | j <;> simp at hend ⊢

/-- Puts a blank after the line end that follows each continuation mark from `k` on. What is left
behind the cursor gets shorter, although the text gets longer: a step adds one character and passes
the three of a mark. -/
@[semireducible]
def continueFrom (text : List Char) (k : Nat) : List Char :=
  match _hmark : firstAt? ['.', '.', '.'] (text.drop k) with
  | none => text
  | some i =>
    match _hend : firstAt? ['\n'] (text.drop (k + i)) with
    | none => text
    | some j =>
      let stop := k + i + j
      continueFrom (text.take (stop + 1) ++ ' ' :: text.drop (stop + 1)) stop
termination_by text.length - k
decreasing_by
  have hthree := three_le_of_firstAt? (by simpa using (lt_of_firstAt? _hmark).2) _hend
  have hlt := (lt_of_firstAt? _hend).1
  simp only [List.length_drop] at hlt
  simp only [List.length_append, List.length_take, List.length_cons, List.length_drop]
  omega

/-- The text of a program as it is read: a blank stands in front of each line that continues another
one, and three line ends close the text. -/
def programText (code : String) : String :=
  String.ofList (continueFrom code.toList 0) ++ "\n\n\n"

end ArmaGen
