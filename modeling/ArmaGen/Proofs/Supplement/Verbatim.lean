import ArmaGen.Proofs.Script.Break
import ArmaGen.Proofs.Text.Continuation
import ArmaGen.Proofs.Text.Finish
import ArmaGen.Supplement.Verbatim

/-!
# Marked lines

The lines with a word are marked in the source text, and no others (`Verbatim.markWord_eq`). What is
read of one of them is a verbatim node, whose name and value are what the text splits into at the
marks (`Verbatim.exists_load_markLines`). The marks are met where they were put just if no
underscore stands before one of them (`splitAt_intercalate_mark_iff`).
-/

namespace ArmaGen

open List

/-! ### Joining what was split -/

section

variable {sep piece text : List Char} {skip : Nat}

lemma splitSteps_ne_nil : splitSteps sep skip piece text ≠ [] := by
  fun_induction splitSteps sep skip piece text with
  | case1 | case3 => simp
  | case2 _ _ _ _ ih | case4 _ _ _ _ ih => exact ih

lemma splitAt_ne_nil : splitAt sep text ≠ [] := splitSteps_ne_nil

variable {pieces : List (List Char)}

lemma intercalate_splitSteps (hsep : sep ≠ []) :
    intercalate sep (splitSteps sep skip piece text) = piece.reverse ++ text.drop skip := by
  fun_induction splitSteps sep skip piece text with
  | case1 => simp
  | case2 _ _ _ _ ih => exact ih
  | case3 piece c rest hstarts ih =>
    obtain ⟨after, hafter⟩ := isPrefixOf_iff_prefix.mp hstarts
    obtain ⟨s, sep, rfl⟩ := exists_cons_of_ne_nil hsep
    obtain ⟨rfl, rfl⟩ := cons.inj hafter
    rw [intercalate_cons_of_ne_nil splitSteps_ne_nil, ih]
    simp
  | case4 piece c rest _ ih => rw [ih]; simp

lemma intercalate_splitAt (hsep : sep ≠ []) : intercalate sep (splitAt sep text) = text := by
  rw [splitAt, intercalate_splitSteps hsep]
  rfl

lemma infix_intercalate (h : piece ∈ pieces) : piece <:+: intercalate sep pieces := by
  induction pieces with
  | nil => cases h
  | cons first pieces ih =>
    by_cases hne : pieces = []
    · subst hne
      obtain rfl := mem_singleton.mp h
      simp
    · rw [intercalate_cons_of_ne_nil hne]
      rcases mem_cons.mp h with rfl | h
      · exact ((prefix_append ..).trans (prefix_append ..)).isInfix
      · exact (ih h).trans (suffix_append ..).isInfix

lemma infix_of_mem_splitAt (hsep : sep ≠ []) (h : piece ∈ splitAt sep text) : piece <:+: text := by
  have hpiece : piece <:+: intercalate sep _ := infix_intercalate h
  rwa [intercalate_splitAt hsep] at hpiece

lemma not_mem_of_mem_splitSteps {c : Char} {part : List Char} (hpiece : c ∉ piece)
    (h : part ∈ splitSteps [c] skip piece text) : c ∉ part := by
  fun_induction splitSteps [c] skip piece text with
  | case1 => simp_all
  | case2 skip piece _ rest ih => exact ih hpiece h
  | case3 piece _ rest _ ih =>
    rcases mem_cons.mp h with rfl | h
    · simpa using hpiece
    · exact ih not_mem_nil h
  | case4 piece d rest hstarts ih =>
    have hd : c ≠ d := by simpa using hstarts
    exact ih (by simp [hd, hpiece]) h

lemma toList_joinWith (lines : List (List Char)) (sep : String) :
    (joinWith sep (lines.map String.ofList)).toList = intercalate sep.toList lines := by
  induction lines with
  | nil => rfl
  | cons line lines ih =>
    cases lines with
    | nil => simp [joinWith]
    | cons next lines =>
      rw [intercalate_cons_of_ne_nil (by simp), ← ih]
      simp [joinWith]

lemma splitSteps_eq_drop : splitSteps sep skip piece text =
    splitSteps sep 0 piece (text.drop skip) := by
  induction skip generalizing text with
  | zero => rfl
  | succ skip ih =>
    cases text with
    | nil => simp [splitSteps]
    | cons c text => rw [splitSteps, ih, drop_succ_cons]

lemma occursIn_eq_false {word : List Char} (h : ¬ word <:+: text) : occursIn word text = false :=
  Bool.eq_false_iff.mpr (mt occursIn_iff_infix.mp h)

end

/-! ### Splitting at marks -/

namespace Verbatim

variable {line piece text rest : List Char} {skip : Nat}

/-- A text does not end with an underscore, so that a mark after it starts where it was put. -/
def Closed (text : List Char) : Prop :=
  text.getLast? ≠ some '_'

instance : DecidablePred Closed :=
  fun text => inferInstanceAs (Decidable (text.getLast? ≠ some '_'))

lemma not_prefix_of_closed {c : Char} (hmark : ¬ mark <:+: c :: line) (h : Closed (c :: line))
    (rest : List Char) : mark.isPrefixOf (c :: line ++ mark ++ rest) = false := by
  match line with
  | [] =>
    have hc : '_' ≠ c := by simpa [Closed, eq_comm] using h
    simp [mark, isPrefixOf, hc]
  | [d] =>
    have hd : '_' ≠ d := by simpa [Closed, eq_comm] using h
    simp [mark, isPrefixOf, hd]
  | d :: e :: line =>
    have hnot : ¬ mark <+: c :: d :: e :: line := fun h => hmark h.isInfix
    simpa [mark, isPrefixOf] using hnot

lemma splitSteps_mark (hmark : ¬ mark <:+: line) (h : Closed line) :
    splitSteps mark 0 piece (line ++ mark ++ rest) =
      (piece.reverse ++ line) :: splitAt mark rest := by
  induction line generalizing piece with
  | nil => simp [mark, splitSteps, splitAt]
  | cons c line ih =>
    have hstep := not_prefix_of_closed hmark h rest
    rw [cons_append, cons_append] at hstep ⊢
    rw [splitSteps, hstep, ih (fun h => hmark (infix_cons h)) ?_]
    · simp
    · cases line with
      | nil => simp [Closed]
      | cons d line => simpa [Closed] using h

/-- Only the last piece may end with an underscore: the mark after any other piece would have been
met one place earlier. -/
lemma closed_of_mem_splitSteps (hskip : skip ≠ 0 → piece = [])
    (hpiece : skip = 0 → piece.head? = some '_' → mark.isPrefixOf text = false)
    (h : line ∈ (splitSteps mark skip piece text).dropLast) : Closed line := by
  fun_induction splitSteps mark skip piece text with
  | case1 => simp at h
  | case2 skip piece c rest ih =>
    obtain rfl := hskip (by omega)
    exact ih (fun _ => rfl) (by simp) h
  | case3 piece c rest hstarts ih =>
    rw [dropLast_cons_of_ne_nil splitSteps_ne_nil] at h
    rcases mem_cons.mp h with rfl | h
    · intro hlast
      rw [getLast?_reverse] at hlast
      exact absurd (hpiece rfl hlast) (by simp [hstarts])
    · exact ih (fun _ => rfl) (by simp) h
  | case4 piece c rest hstarts ih =>
    refine ih (by simp) (fun _ hhead => ?_) h
    obtain rfl : c = '_' := by simpa using hhead
    refine Bool.eq_false_iff.mpr fun hrest => hstarts ?_
    obtain ⟨after, rfl⟩ := isPrefixOf_iff_prefix.mp hrest
    rfl

/-- Pieces are told apart again just if none but the last ends with an underscore. -/
lemma splitAt_intercalate_mark_iff {pieces : List (List Char)} (hne : pieces ≠ [])
    (h : ∀ piece ∈ pieces, ¬ mark <:+: piece) :
    splitAt mark (intercalate mark pieces) = pieces ↔ ∀ piece ∈ pieces.dropLast, Closed piece := by
  constructor
  · intro hsplit piece hpiece
    rw [← hsplit] at hpiece
    exact closed_of_mem_splitSteps (by simp) (by simp) hpiece
  · intro hclosed
    induction pieces with
    | nil => exact absurd rfl hne
    | cons first pieces ih =>
      by_cases hlast : pieces = []
      · subst hlast
        have hfirst := occursIn_eq_false (h first (.head _))
        simp [splitAt, splitSteps_of_occursIn hfirst]
      · rw [dropLast_cons_of_ne_nil hlast] at hclosed
        rw [intercalate_cons_of_ne_nil hlast, splitAt,
          splitSteps_mark (h first (.head _)) (hclosed first (.head _)),
          ih hlast (fun p hp => h p (.tail _ hp))
            fun p hp => hclosed p (.tail _ hp)]
        rfl

/-! ### Marking lines -/

variable {word output : List Char} {rest : List (List Char)} {passed : Nat}
  {order : List (List Char) → List (List Char)}

/-- Lines that follow another one. -/
def following (rest : List (List Char)) : List Char :=
  rest.flatMap ('\n' :: ·)

lemma intercalate_eq_following (line : List Char) :
    intercalate ['\n'] (line :: rest) = line ++ following rest := by
  induction rest generalizing line with
  | nil => simp [following]
  | cons next rest ih =>
    rw [intercalate_cons_of_ne_nil (cons_ne_nil _ _), ih]
    simp [following]

section

variable (hword : '\n' ∉ word)

include hword

lemma prefix_of_following (h : word <+: line ++ following rest) : word <+: line := by
  rcases prefix_or_prefix_of_prefix h (prefix_append line _) with h | ⟨more, rfl⟩
  · exact h
  rw [prefix_append_right_inj] at h
  rw [mem_append, not_or] at hword
  match rest, more with
  | _, [] => simp
  | [], _ :: _ => simp [following] at h
  | next :: rest, c :: more =>
    have hc : c = '\n' := by simpa using (cons_prefix_cons.mp h).1
    exact absurd (hc ▸ .head _) hword.2

lemma splitSteps_passed (h : ¬ word <:+: line) : splitSteps word 0 piece (line ++ following rest) =
      splitSteps word 0 (line.reverse ++ piece) (following rest) := by
  induction line generalizing piece with
  | nil => rfl
  | cons c line ih =>
    rw [infix_cons_iff, not_or] at h
    have hstarts : ¬ word.isPrefixOf (c :: (line ++ following rest)) = true := fun hstarts =>
      h.1 (prefix_of_following hword ( isPrefixOf_iff_prefix.mp hstarts))
    rw [cons_append, splitSteps, if_neg hstarts, ih h.2]
    simp

variable (hne : word ≠ [])

include hne

/-- The last place of a word in a line is looked for in this line only. -/
lemma lastPlace?_cases (passed : Nat) (rest : List (List Char)) (hline : '\n' ∉ line) :
    (∃ place, lastPlace? word passed (line ++ following rest) = some place ∧
      place + word.length ≤ passed + line.length ∧ word <:+: line) ∨
    lastPlace? word passed (line ++ following rest) = none ∧ ¬ word <:+: line := by
  induction line generalizing passed with
  | nil =>
    have hnot : ¬ word <+: [] ++ following rest := fun h =>
      hne (prefix_nil.mp (prefix_of_following hword h))
    refine .inr ⟨?_, fun h => hne (infix_nil.mp h)⟩
    cases rest with
    | nil => simp [following, lastPlace?, hne]
    | cons next rest => simpa [following, lastPlace?] using hnot
  | cons c line ih =>
    rw [mem_cons, not_or] at hline
    rw [cons_append, lastPlace?, if_neg (by simpa using Ne.symm hline.1), infix_cons_iff]
    rcases ih (passed + 1) hline.2 with ⟨place, hplace, hle, hin⟩ | ⟨hnone, hnot⟩
    · exact .inl ⟨place, by rw [hplace]; rfl, by rw [length_cons]; omega, .inr hin⟩
    rw [hnone]
    by_cases h : word <+: c :: line
    · have hstarts : word.isPrefixOf (c :: (line ++ following rest)) = true :=
        isPrefixOf_iff_prefix.mpr (h.trans (prefix_append (c :: line) _))
      exact .inl ⟨passed, if_pos hstarts, Nat.add_le_add_left h.length_le _, .inl h⟩
    · refine .inr ⟨if_neg fun hstarts => h ?_, not_or.mpr ⟨h, hnot⟩⟩
      exact prefix_of_following hword ( isPrefixOf_iff_prefix.mp hstarts)

lemma passagesSteps_of_absent (h : ¬ word <:+: line) (hline : '\n' ∉ line) (n : Nat) :
    passagesSteps word (n + 1) (line ++ following rest) =
      match rest with
      | [] => []
      | next :: rest => passagesSteps word n (next ++ following rest) := by
  rcases lastPlace?_cases hword hne 0 rest hline with
    ⟨_, -, -, hin⟩ | ⟨hnone, -⟩
  · exact absurd hin h
  have hin : ∀ c ∈ line, isInLine c = true := by
    intro c hc
    simpa [isInLine] using ne_of_mem_of_not_mem hc hline
  rw [passagesSteps, hnone]
  rw [dropWhile_append_of_pos hin]
  cases rest <;> rfl

lemma passagesSteps_of_within (h : word <:+: line) (hline : '\n' ∉ line) (n : Nat) :
    passagesSteps word (n + 1) (line ++ following rest) =
      line :: passagesSteps word n (following rest) := by
  rcases lastPlace?_cases hword hne 0 rest hline with
    ⟨place, hplace, hle, -⟩ | ⟨-, hnot⟩
  swap
  · exact absurd h hnot
  rw [Nat.zero_add] at hle
  have hin : ∀ c ∈ line.drop (place + word.length), isInLine c = true := by
    intro c hc
    simpa [isInLine] using ne_of_mem_of_not_mem (mem_of_mem_drop hc) hline
  have hempty : line.isEmpty = false := by
    cases line with
    | nil => exact absurd (infix_nil.mp h) hne
    | cons => rfl
  have hwhile : (following rest).takeWhile isInLine = [] ∧
      (following rest).dropWhile isInLine = following rest := by
    cases rest <;> exact ⟨rfl, rfl⟩
  rw [passagesSteps, hplace]
  dsimp only
  rw [drop_append_of_le_length hle, take_append_of_le_length hle, takeWhile_append_of_pos hin,
    dropWhile_append_of_pos hin, hwhile.1, hwhile.2, append_nil, take_append_drop, hempty]
  rfl

/-- The passages with a word are the lines in which it stands. -/
lemma passagesSteps_eq {n : Nat} (hlines : ∀ l ∈ line :: rest, '\n' ∉ l)
    (hn : 2 * (line ++ following rest).length + 2 ≤ n) :
    passagesSteps word n (line ++ following rest) = (line :: rest).filter (word <:+: ·) := by
  induction rest generalizing line n with
  | nil =>
    obtain ⟨n, rfl⟩ : ∃ k, n = k + 2 := ⟨n - 2, by omega⟩
    by_cases h : word <:+: line
    · rw [passagesSteps_of_within hword hne h (hlines _ (.head _))]
      have hlast : passagesSteps word (n + 1) ([] ++ following []) = [] :=
        passagesSteps_of_absent hword hne (fun h => hne (infix_nil.mp h)) not_mem_nil n
      simpa [h] using hlast
    · rw [passagesSteps_of_absent hword hne h (hlines _ (.head _))]
      simp [h]
  | cons next rest ih =>
    have hnext := fun m (hm : n ≤ m + 2) => @ih next m (fun l hl => hlines l (.tail _ hl)) (by
      simp [following] at hn ⊢
      omega)
    obtain ⟨n, rfl⟩ : ∃ k, n = k + 2 := ⟨n - 2, by omega⟩
    by_cases h : word <:+: line
    · rw [passagesSteps_of_within hword hne h (hlines _ (.head _)),
        filter_cons_of_pos (by simpa using h), ← hnext n (Nat.le_refl _)]
      exact congrArg (line :: ·) (show passagesSteps word (n + 1) ([] ++ following (next :: rest)) =
        _ from passagesSteps_of_absent hword hne (fun h => hne (infix_nil.mp h)) not_mem_nil n)
    · rw [passagesSteps_of_absent hword hne h (hlines _ (.head _)),
        filter_cons_of_neg (by simpa using h), ← hnext (n + 1) (by omega)]

/-- A line that is the text, or in which it does not stand. -/
lemma replaced_line {new after : List Char} (h : line = word ∨ ¬ word <:+: line)
    (hrest : ∀ piece, intercalate new (splitSteps word 0 piece (following rest)) =
      piece.reverse ++ after) :
    intercalate new (splitSteps word 0 piece (line ++ following rest)) =
      piece.reverse ++ ((if line = word then new else line) ++ after) := by
  rcases h with rfl | hnot
  · obtain ⟨c, line, rfl⟩ := exists_cons_of_ne_nil hne
    have hsplit : splitSteps (c :: line) 0 piece (c :: line ++ following rest) =
        piece.reverse :: splitSteps (c :: line) 0 [] (following rest) := by
      rw [cons_append, splitSteps, splitSteps_eq_drop]
      simp
    rw [hsplit, intercalate_cons_of_ne_nil splitSteps_ne_nil, hrest]
    simp
  · rw [splitSteps_passed hword hnot, hrest, if_neg (by rintro rfl; exact hnot infix_rfl)]
    simp

lemma replaced_following {new : List Char} (h : ∀ l ∈ rest, l = word ∨ ¬ word <:+: l)
    (piece : List Char) :
    intercalate new (splitSteps word 0 piece (following rest)) =
      piece.reverse ++ following (rest.map fun l => if l = word then new else l) := by
  induction rest generalizing piece with
  | nil => simp [following, splitSteps]
  | cons next rest ih =>
    rw [forall_mem_cons] at h
    have hstarts : ¬ word.isPrefixOf ('\n' :: (next ++ following rest)) = true := fun hstarts =>
      hne (prefix_nil.mp (prefix_of_following hword
        (show word <+: [] ++ following (next :: rest) from isPrefixOf_iff_prefix.mp hstarts)))
    show intercalate new (splitSteps word 0 piece ('\n' :: (next ++ following rest))) = _
    rw [splitSteps, if_neg hstarts]
    exact (replaced_line hword hne h.1 (ih h.2)).trans (by simp [following])

end

lemma expand_eq {whole : List Char} (h : '\\' ∉ text) :
    Replacement.expand whole text = .ok text := by
  rw [Replacement.expand]
  generalize text.length = n
  induction text generalizing n with
  | nil => cases n <;> rfl
  | cons c text ih =>
    rw [mem_cons, not_or] at h
    cases n with
    | zero => rfl
    | succ n =>
      rw [Replacement.expandSteps, ih h.2]
      · rfl
      · exact fun hc => h.1 hc.symm

/-- The line between marks, and the output with marks for its line ends. -/
def marked (line output : List Char) : List Char :=
  mark ++ intercalate mark (line :: splitAt ['\n'] output)

lemma not_mem_marked {c : Char} (hc : c ≠ '_') (hline : c ∉ line)
    (houtput : ∀ piece ∈ splitAt ['\n'] output, c ∉ piece) : c ∉ marked line output := by
  have hmark : c ∉ mark := by simpa [mark] using hc
  rw [marked, mem_append, not_or]
  exact ⟨hmark, not_mem_intercalate hmark (forall_mem_cons.mpr ⟨hline, houtput⟩)⟩

section

variable (hword : '\n' ∉ word) (hne : word ≠ [])

include hword hne

lemma replaceAll_eq {new : List Char} {lines : List (List Char)} (hplain : '\\' ∉ new)
    (h : ∀ l ∈ lines, l = word ∨ ¬ word <:+: l) :
    Replacement.replaceAll word new (intercalate ['\n'] lines) =
      .ok (intercalate ['\n'] (lines.map fun l => if l = word then new else l)) := by
  have hsplit : intercalate new (splitAt word (intercalate ['\n'] lines)) =
      intercalate ['\n'] (lines.map fun l => if l = word then new else l) := by
    cases lines with
    | nil => simp [splitAt, splitSteps]
    | cons line rest =>
      rw [forall_mem_cons] at h
      rw [map_cons, intercalate_eq_following, intercalate_eq_following]
      exact replaced_line hword hne h.1 (replaced_following hword hne h.2)
  rw [Replacement.replaceAll, expand_eq hplain, ← hsplit]
  simp [hne]

end

lemma nodup_eraseDups {α : Type} [BEq α] [LawfulBEq α] : ∀ l : List α, l.eraseDups.Nodup
  | [] => by simp
  | a :: l => by
    rw [eraseDups_cons, nodup_cons]
    exact ⟨by simp, nodup_eraseDups _⟩
termination_by l => l.length
decreasing_by exact Nat.lt_succ_of_le (length_filter_le ..)

/-- Lines are replaced one after the other; what one of them becomes has no other one in it. -/
lemma foldlM_replaceAll_eq (new : List Char → List Char) {words lines : List (List Char)}
    (hnodup : words.Nodup) (h : ∀ w ∈ words, ('\n' ∉ w ∧ w ≠ [] ∧ '\\' ∉ new w) ∧
      (∀ l ∈ lines, l = w ∨ ¬ w <:+: l) ∧ ∀ l ∈ words, l ≠ w → ¬ w <:+: new l) :
    words.foldlM (fun text w => Replacement.replaceAll w (new w) text) (intercalate ['\n'] lines) =
      .ok (intercalate ['\n'] (lines.map fun l => if l ∈ words then new l else l)) := by
  induction words generalizing lines with
  | nil => simp
  | cons w words ih =>
    obtain ⟨⟨hline, hne, hplain⟩, hlines, -⟩ := h w (.head _)
    rw [nodup_cons] at hnodup
    have hnew : ∀ v ∈ words, ¬ v <:+: new w := fun v hv =>
      (h v (.tail _ hv)).2.2 w (.head _) (ne_of_mem_of_not_mem hv hnodup.1).symm
    rw [foldlM_cons, replaceAll_eq hline hne hplain hlines]
    refine (ih hnodup.2 fun v hv => ?_).trans ?_
    · obtain ⟨hv', hlines', hapart⟩ := h v (.tail _ hv)
      refine ⟨hv', forall_mem_map.mpr fun l hl => ?_, fun l hl => hapart l (.tail _ hl)⟩
      split
      · exact .inr (hnew v hv)
      · exact hlines' l hl
    · rw [map_map]
      refine congrArg (Except.ok ∘ intercalate ['\n']) (map_congr_left fun l _ => ?_)
      by_cases hl : l = w
      · have : new w ∉ words := fun hmem => hnew _ hmem infix_rfl
        simp [hl, this]
      · simp [hl]

/-- The lines with a word are marked, if none of them stands in another one or in its output. -/
lemma markWord_eq (horder : ∀ ls, (order ls).Perm ls.eraseDups) (lines : List (List Char))
    (hword : '\n' ∉ word) (hne : word ≠ [])
    (hlines : lines ≠ [] ∧ ∀ l ∈ lines, '\n' ∉ l) (houtput : '\\' ∉ output)
    (h : ∀ l ∈ lines, word <:+: l → '\\' ∉ l ∧
      ∀ m ∈ lines, word <:+: m → m ≠ l → ¬ l <:+: marked m output) :
    markWord order word output (intercalate ['\n'] lines) = .ok (intercalate ['\n']
      (lines.map fun l => if word <:+: l then marked l output else l)) := by
  have hjoined : ∀ l, mark ++ l ++ (mark ++ intercalate mark (splitAt ['\n'] output)) =
      marked l output := by
    intro l
    rw [marked, intercalate_cons_of_ne_nil splitAt_ne_nil]
    simp
  have hwithin : ∀ l, l <:+: marked l output := fun l =>
    (infix_intercalate (.head _)).trans (suffix_append ..).isInfix
  have hpassages : passages word (intercalate ['\n'] lines) =
      lines.filter (word <:+: ·) := by
    obtain ⟨line, rest, rfl⟩ := exists_cons_of_ne_nil hlines.1
    rw [passages, intercalate_eq_following, passagesSteps_eq hword hne hlines.2 (Nat.le_refl _)]
  have hmem : ∀ l, l ∈ order (lines.filter (word <:+: ·)) ↔ l ∈ lines ∧ word <:+: l := by
    simp [(horder _).mem_iff]
  simp only [markWord, hpassages, hjoined]
  refine (foldlM_replaceAll_eq (marked · output) ((horder _).nodup_iff.mpr (nodup_eraseDups _))
    fun w hw => ?_).trans
    (congrArg (Except.ok ∘ intercalate ['\n']) (map_congr_left fun l hl => ?_))
  · rw [hmem] at hw
    obtain ⟨hplain, hapart⟩ := h w hw.1 hw.2
    refine ⟨⟨hlines.2 w hw.1, ?_, ?_⟩, fun l hl => ?_, fun l hl => ?_⟩
    · rintro rfl
      exact hne (infix_nil.mp hw.2)
    · exact not_mem_marked (by decide) hplain fun piece hpiece hc =>
        houtput ((infix_of_mem_splitAt (by simp) hpiece).subset hc)
    · refine or_iff_not_imp_left.mpr fun hl' hin => ?_
      exact hapart l hl (hw.2.trans hin) hl' (hin.trans (hwithin l))
    · rw [hmem] at hl
      exact hapart l hl.1 hl.2
  · simp [hmem, hl]

lemma markLinesIn_singleton (key output text : String) : markLinesIn order [(key, output)] text =
    (markWord order key.toList output.toList text.toList).map String.ofList := by
  simp only [markLinesIn, foldlM_cons]
  cases markWord order key.toList output.toList text.toList <;> rfl

lemma markLines_eq {key line output : String} (hkey : key ≠ "") (h : key.toList <:+: line.toList)
    (hline : '\n' ∉ line.toList) (hslash : '\\' ∉ line.toList) (houtput : '\\' ∉ output.toList) :
    markLines [(key, output)] (line ++ "\n") =
      .ok (String.ofList (marked line.toList output.toList ++ ['\n'])) := by
  have hne : key.toList ≠ [] := by simpa using hkey
  have hword : markWord eraseDups key.toList output.toList (line.toList ++ ['\n']) =
      .ok (marked line.toList output.toList ++ ['\n']) := by
    simpa [h, hne] using markWord_eq (fun _ => .refl _) [line.toList, []]
      (fun hc => hline (h.subset hc)) hne ⟨cons_ne_nil _ _, by simp [hline]⟩ houtput
      (by simp [hne, hslash])
  rw [markLines, markLinesIn_singleton, String.toList_append,
    show "\n".toList = ['\n'] from rfl, hword]
  rfl

/-- The lines with a key are marked and all others stay, if no line with it has a backslash, or
stands in another one or in what marks it; in which order they are gone over does not matter. -/
theorem markLines_by_line (order : List (List Char) → List (List Char))
    (horder : ∀ ls, (order ls).Perm ls.eraseDups) (key output text : String) (hkey : key ≠ "")
    (hline : '\n' ∉ key.toList)
    (houtput : '\\' ∉ output.toList)
    (h : ∀ line ∈ splitAt ['\n'] text.toList, key.toList <:+: line → '\\' ∉ line ∧
      ∀ other ∈ splitAt ['\n'] text.toList, key.toList <:+: other → other ≠ line →
        ¬ line <:+: marked other output.toList) :
    markLinesIn order [(key, output)] text =
      .ok (String.ofList (intercalate ['\n'] ((splitAt ['\n'] text.toList).map fun line =>
        if key.toList <:+: line then marked line output.toList else line))) := by
  have hword := markWord_eq horder _ hline (by simpa using hkey) ⟨splitAt_ne_nil, fun l =>
    not_mem_of_mem_splitSteps not_mem_nil⟩ houtput h
  rw [intercalate_splitAt (cons_ne_nil _ _)] at hword
  rw [markLinesIn_singleton, hword]
  rfl

theorem markLines_by_line_sample :
    markLines [("b", "c\nd")] "b1\na\n2b" = .ok "___b1___c___d\na\n___2b___c___d" := by
  have hlines : splitAt ['\n'] "b1\na\n2b".toList = [['b', '1'], ['a'], ['2', 'b']] := by decide
  refine (markLines_by_line eraseDups (fun _ => .refl _) "b" "c\nd" "b1\na\n2b" (by decide)
    (by decide) (by decide) ?_).trans ?_
  · rw [hlines]
    decide
  · rw [hlines]
    rfl

end Verbatim

/-! ### Reading a marked line -/

variable {line : List Char}

lemma exists_continued_eq (h : '\n' ∉ line) :
    ∃ gap, continued false (line ++ ['\n']) = line ++ '\n' :: replicate gap ' ' := by
  rw [continued_line h, readBelow]
  split
  · exact ⟨1, rfl⟩
  · exact ⟨0, rfl⟩

namespace Parse

variable {st : Setting} {k : Int} {m : Nat} {line rest : List Char}

def verbatimTree (k : Int) (line : List Char) (name : String) (values : List String) : Syntax :=
  .leaf { kind := .verbatim, name, value := joinWith "\n" values, cur? := some k,
          code? := some (String.ofList line) }

variable {values : List String}

/-- A marked line is read as one verbatim node: its name stands before the next mark, its value
between the further ones. -/
lemma yields_verbatim {name : String} (h : st.source.Shows k (line ++ '\n' :: rest))
    (hline : '\n' ∉ line) (hmark : Verbatim.mark <+: line)
    (hsplit : splitText "___" (String.ofList line) = "" :: name :: values) :
    (verbatim k).Yields st [verbatimTree k line name values] (k + line.length - 1) := by
  have hreads : st.source.reads k "___" = true := by
    obtain ⟨more, rfl⟩ := hmark
    exact h.reads
  have hend : st.source.verbatimEnd k = .ok (k + line.length - 1) := by
    rw [Source.verbatimEnd, hreads, h.find?_eq rfl hline]
    rfl
  unfold verbatim
  rw [yields_source_bind, hend, yields_lift_bind, yields_progress_bind]
  rw [show k + line.length - 1 + 1 = k + line.length by omega, h.left.slice]
  dsimp only
  rw [hsplit]
  exact yields_leaf.bind yields_pure

lemma goesOn_gap {gap : Nat} (h : st.source.Shows k (replicate gap ' ' ++ replicate m '\n'))
    (hm : 3 ≤ m) (hsize : (st.source.size : Int) = k + gap + m) : Script.GoesOn st k (· = []) := by
  induction gap generalizing k with
  | zero => exact Script.goesOn_end h (by simpa using hsize)
  | succ gap ih =>
    refine Script.GoesOn.next (by omega) Int.le_rfl (fun n => ⟨[], ?_, fun _ h => h⟩)
      (ih h.tail (by omega))
    unfold piece
    rw [yields_source_bind, h.read, yields_lift_bind]
    exact yields_pure

lemma goesOn_verbatim {name : String} {gap : Nat}
    (h : st.source.Shows k (line ++ '\n' :: (replicate gap ' ' ++ replicate 3 '\n')))
    (hsize : (st.source.size : Int) = k + line.length + 1 + gap + 3) (hline : '\n' ∉ line)
    (hmark : Verbatim.mark <+: line)
    (hsplit : splitText "___" (String.ofList line) = "" :: name :: values) :
    Script.GoesOn st k (· = [verbatimTree k line name values]) := by
  obtain ⟨more, hmore⟩ := hmark
  have hread : st.source.read k = .ok '_' := by
    rw [← hmore] at h
    exact h.read
  have hreads : st.source.reads k "___" = true := by
    rw [← hmore] at h
    exact h.reads
  have hnot : st.source.reads k "%%PARFOR" = false := by
    rw [← hmore] at h
    exact h.reads_eq_false rfl (by decide)
  refine Script.GoesOn.next (Q := (· = [])) (e := k + line.length - 1) (by omega) (by
      rw [← hmore, length_append, show Verbatim.mark.length = 3 from rfl]; omega)
    (fun n => ⟨[verbatimTree k line name values], ?_, by rintro _ rfl; rfl⟩) ?_
  · unfold piece
    rw [yields_source_bind, hread, yields_lift_bind, hnot, hreads]
    exact (yields_verbatim h hline ⟨more, hmore⟩ hsplit).bind yields_pure
  · rw [show k + line.length - 1 + 1 = k + line.length by omega]
    refine Script.GoesOn.next (by omega) Int.le_rfl
      (fun n => ⟨[], ?_, fun _ h => h⟩) (goesOn_gap h.right.tail (by omega) (by omega))
    unfold piece
    rw [yields_source_bind, h.right.read, yields_lift_bind, if_neg (by decide), if_pos (by decide),
      if_neg (by omega)]
    exact yields_pure

end Parse

/-! ### Loading a marked line -/

namespace Verbatim

def markedOutline (file name value : String) : Outline :=
  .node .funcs file "" [.node .main "main" "" [.node .declares "" "" [], .node .returns "" "" [],
    .node .params "" "" [], .node .block "" "" [.node .verbatim name value []]]]

variable {line output : List Char} {name : List Char} {values : List (List Char)}

lemma exists_splitAt_marked (line output : List Char) : ∃ name values,
    splitAt mark (intercalate mark (line :: splitAt ['\n'] output)) = name :: values :=
  exists_cons_of_ne_nil splitSteps_ne_nil

/-- A marked line and its output are told apart just if their pieces are. -/
lemma name_value_eq_iff (hline : '\n' ∉ line)
    (h : splitAt mark (intercalate mark (line :: splitAt ['\n'] output)) = name :: values) :
    (String.ofList name = String.ofList line ∧
      joinWith "\n" (values.map String.ofList) = String.ofList output) ↔
    name :: values = line :: splitAt ['\n'] output := by
  have hjoined := congrArg (intercalate mark) h
  rw [intercalate_splitAt (by decide)] at hjoined
  constructor
  · rintro ⟨hname, hvalue⟩
    obtain rfl := String.ofList_injective hname
    have hne : values ≠ [] := by
      rintro rfl
      have hlength := congrArg length hjoined
      rw [intercalate_cons_of_ne_nil splitAt_ne_nil] at hlength
      simp [mark] at hlength
    have hvalues : splitText "\n" (joinWith "\n" (values.map String.ofList)) =
        values.map String.ofList := by
      refine splitText_joinWith (by simpa using hne) (forall_mem_map.mpr fun value hmem hc => ?_)
      rw [String.toList_ofList] at hc
      have hpiece : value <:+: intercalate mark (name :: splitAt ['\n'] output) :=
        infix_of_mem_splitAt (by decide) (h ▸ mem_cons_of_mem _ hmem)
      refine not_mem_intercalate (by decide) (forall_mem_cons.mpr ⟨hline, ?_⟩) (hpiece.subset hc)
      exact fun piece hp => not_mem_of_mem_splitSteps not_mem_nil hp
    rw [hvalue, splitText, String.toList_ofList, String.toList_ofList] at hvalues
    rw [← map_injective_iff.mpr (fun _ _ h => String.ofList_injective h) hvalues]
  · intro heq
    obtain ⟨rfl, rfl⟩ := cons.inj heq
    refine ⟨rfl, String.toList_injective ?_⟩
    rw [toList_joinWith, String.toList_ofList, String.toList_ofList]
    exact intercalate_splitAt (cons_ne_nil _ _)

lemma exists_yields_marked (st : Setting) (hline : '\n' ∉ line)
    (h : splitAt mark (intercalate mark (line :: splitAt ['\n'] output)) = name :: values)
    (hsource : st.source = .ofString (programText (String.ofList (marked line output ++ ['\n'])))) :
    ∃ code, Parse.program.Yields st [Structured.mainTree
      (.node { kind := .block, cur? := some 0, code? := some code }
        [Parse.verbatimTree 0 (marked line output) (String.ofList name)
          (values.map String.ofList)])] () := by
  have hplain : '\n' ∉ marked line output := not_mem_marked (by decide) hline
    fun piece hpiece => not_mem_of_mem_splitSteps not_mem_nil hpiece
  obtain ⟨gap, hcontinued⟩ := exists_continued_eq hplain
  rw [programText_eq, String.toList_ofList, hcontinued, ← String.ofList_append,
    append_assoc] at hsource
  have hshow : st.source.Shows 0 (marked line output ++
      '\n' :: (replicate gap ' ' ++ replicate 3 '\n')) := by
    rw [hsource]
    exact Source.shows_ofList _
  have hsize : st.source.size = (marked line output).length + 1 + gap + 3 := by
    rw [hsource]
    simp [Source.size, Source.ofString]
    omega
  have hsplit : splitText "___" (String.ofList (marked line output)) =
      "" :: String.ofList name :: values.map String.ofList := by
    have hfirst text : splitAt mark ([] ++ mark ++ text) = [] :: splitAt mark text :=
      splitSteps_mark (by decide) (by decide)
    rw [splitText, String.toList_ofList, String.toList_ofList]
    refine (congrArg (map String.ofList) (hfirst _)).trans ?_
    rw [h]
    rfl
  obtain ⟨made, code, stop, hscript, rfl⟩ := (Parse.goesOn_verbatim hshow (by omega) hplain
    (prefix_append ..) hsplit).yields_script (by omega)
  exact ⟨code, Structured.yields_program_of_script hshow (by decide)
    (hshow.reads_eq_false rfl (by decide)) hscript⟩

/-- A line with its own output is read as one verbatim line, and as that line with that output just
if no underscore stands before the end of the line and before a line end of the output. -/
theorem exists_load_markLines (file key line output : String) (options : Options)
    (directory : Directory) (hkey : key ≠ "") (h : key.toList <:+: line.toList)
    (hline : '\n' ∉ line.toList) (hmark : ¬ mark <:+: line.toList) (hslash : '\\' ∉ line.toList)
    (hmark' : ¬ mark <:+: output.toList) (hslash' : '\\' ∉ output.toList) :
    ∃ text project program funcs name value, markLines [(key, output)] (line ++ "\n") = .ok text ∧
        Edit.load file text { options, directory } = .ok () project ∧
        Edit.child Edit.root 0 project = .ok program project ∧
        Edit.child program 1 project = .ok funcs project ∧
        project.outline funcs = markedOutline file name value ∧
        (name = line ∧ value = output ↔
          ∀ piece ∈ (line.toList :: splitAt ['\n'] output.toList).dropLast, Closed piece) := by
  obtain ⟨name, values, hsplit⟩ := exists_splitAt_marked line.toList output.toList
  let code := String.ofList (marked line.toList output.toList ++ ['\n'])
  let st := options.setting (programText code)
  obtain ⟨_, hyields⟩ := exists_yields_marked st hline hsplit rfl
  obtain ⟨shown, hload⟩ := Edit.exists_load_eq file code { options, directory }
  obtain ⟨project, hbuild, hframe, hbears⟩ := Edit.exists_build_eq file
    (p := { options, directory, text? := some (programText code), shown })
    rfl rfl rfl (Project.unruled_of_nodes_eq rfl) hyields fun tree htree => by
      rw [List.mem_singleton.mp htree]
      exact .mk (.inr rfl) rfl rfl rfl (by simp) (by simp)
        ⟨rfl, .inr ⟨⟨rfl, .inr trivial⟩, trivial⟩⟩
  refine ⟨code, project, 1, 3, String.ofList name, joinWith "\n" (values.map String.ofList),
    markLines_eq hkey h hline hslash hslash', hload.trans hbuild, Edit.child_natCast_eq (i := 0) ?_,
    Edit.child_natCast_eq (i := 1) ?_, ?_, ?_⟩
  · rw [hframe.children_root]
    rfl
  · rw [hframe.children_program]
    rfl
  · rw [hbears.outline_eq]
    rfl
  · have hiff := name_value_eq_iff hline hsplit
    rw [String.ofList_toList, String.ofList_toList] at hiff
    rw [hiff, ← hsplit]
    refine splitAt_intercalate_mark_iff (by simp) (List.forall_mem_cons.mpr ⟨hmark, ?_⟩)
    exact fun piece hpiece hp =>
      hmark' (hp.trans (infix_of_mem_splitAt (List.cons_ne_nil _ _) hpiece))

/-- An underscore at the end of a line becomes a part of its output. -/
theorem exists_load_markLines_sample : ∃ text project program funcs name value,
    markLines [("a", "b")] ("a_" ++ "\n") = .ok text ∧ Edit.load "unamed" text {} = .ok () project ∧
      Edit.child Edit.root 0 project = .ok program project ∧
      Edit.child program 1 project = .ok funcs project ∧
      project.outline funcs = markedOutline "unamed" name value ∧
        ¬ (name = "a_" ∧ value = "b") := by
  obtain ⟨text, project, program, funcs, name, value, hmark, hload, hprogram, hfuncs, houtline,
    hiff⟩ :=
    exists_load_markLines "unamed" "a" "a_" "b" {} {} (by decide) (by decide) (by decide)
      (by decide)
      (by decide) (by decide) (by decide)
  refine ⟨text, project, program, funcs, name, value, hmark, hload, hprogram, hfuncs, houtline, ?_⟩
  rw [hiff]
  decide

end Verbatim

end ArmaGen
