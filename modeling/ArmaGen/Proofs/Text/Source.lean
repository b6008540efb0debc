import ArmaGen.Scan.Bracket
import Mathlib.Tactic.Lemma

/-!
# Text at positions

`s.Shows k cs` says that the characters `cs` stand at position `k` of the source `s`. It is the only
way in which later proofs look at a text. Scanners are computations in `Scan`; a computation that
succeeded did so in every step (`bind_eq_ok`).
-/

namespace ArmaGen

open List

/-! What holds for the characters of a list is decided by going over the list, also where all
characters could be gone over. -/

instance (priority := high) decidableForallMemList {p : Char → Prop} [DecidablePred p]
    (cs : List Char) : Decidable (∀ c ∈ cs, p c) :=
  decidableBAll p cs

instance (priority := high) decidableForallMemOption {p : Char → Prop} [DecidablePred p]
    (c? : Option Char) : Decidable (∀ c ∈ c?, p c) :=
  Option.decidableForallMem c?

lemma not_mem_intercalate {c : Char} {sep : List Char} {pieces : List (List Char)}
    (hsep : c ∉ sep) (h : ∀ piece ∈ pieces, c ∉ piece) : c ∉ intercalate sep pieces := by
  induction pieces with
  | nil => exact not_mem_nil
  | cons first pieces ih =>
    rw [forall_mem_cons] at h
    by_cases hne : pieces = []
    · subst hne
      simpa using h.1
    · rw [intercalate_cons_of_ne_nil hne]
      simp [hsep, h.1, ih h.2]

lemma add_length_append {α : Type} (i : Int) (xs ys : List α) :
    i + (xs ++ ys).length = i + xs.length + ys.length := by
  rw [length_append, Int.natCast_add, ← Int.add_assoc]

lemma add_length_nil {α : Type} (i : Int) : i + ([] : List α).length = i :=
  Int.add_zero i

namespace Scan

variable {α β : Type}

@[simp]
lemma ok_bind (a : α) (f : α → Scan β) : (Except.ok a >>= f) = f a := rfl

@[simp]
lemma error_bind (e : Failure) (f : α → Scan β) : (Except.error e >>= f) = Except.error e := rfl

@[simp]
lemma pure_eq_ok (a : α) : (pure a : Scan α) = Except.ok a := rfl

lemma bind_eq_ok {x : Scan α} {f : α → Scan β} {b : β} :
    (x >>= f) = .ok b ↔ ∃ a, x = .ok a ∧ f a = .ok b := by
  cases x with
  | error e => simp
  | ok a => simp

end Scan

namespace Source

variable {s : Source} {k : Int} {c : Char} {cs ds : List Char} {p : Char → Bool}

/-- The characters `cs` stand at position `k`. -/
def Shows (s : Source) (k : Int) (cs : List Char) : Prop :=
  0 ≤ k ∧ cs <+: s.chars.toList.drop k.toNat

lemma Shows.nonneg (h : s.Shows k cs) : 0 ≤ k := h.1

lemma shows_nil (h : 0 ≤ k) : s.Shows k [] := ⟨h, nil_prefix⟩

lemma at?_eq_some_iff (hk : 0 ≤ k) :
    s.at? k = some c ↔ s.chars.toList.drop k.toNat = c :: s.chars.toList.drop (k.toNat + 1) := by
  unfold at?
  rw [if_pos hk, ← Array.getElem?_toList]
  constructor
  · intro h
    obtain ⟨hlt, he⟩ := List.getElem?_eq_some_iff.mp h
    rw [drop_eq_getElem_cons hlt, he]
  · intro h
    have := congrArg head? h
    simpa using this

lemma exists_read_eq (hk : 0 ≤ k) (hlt : k < s.size) : ∃ c, s.read k = .ok c := by
  have hget : s.chars[k.toNat]? = some s.chars[k.toNat]! := by
    have : k.toNat < s.chars.size := by
      unfold size at hlt
      omega
    simp [this]
  exact ⟨_, by rw [read, at?, if_pos hk, hget]⟩

lemma lt_size_of_read (hk : 0 ≤ k) (h : s.read k = .ok c) : k < s.size := by
  unfold read at h
  split at h
  · next hat =>
    rw [at?, if_pos hk] at hat
    have hlt := (Array.getElem?_eq_some_iff.1 hat).1
    unfold size
    omega
  · cases h

lemma shows_cons_iff : s.Shows k (c :: cs) ↔ 0 ≤ k ∧ s.at? k = some c ∧ s.Shows (k + 1) cs := by
  constructor
  · rintro ⟨hk, rest, hrest⟩
    have hdrop : s.chars.toList.drop (k.toNat + 1) = cs ++ rest := by
      rw [← drop_drop, ← hrest]
      simp
    refine ⟨hk, ?_, by omega, ?_⟩
    · rw [at?_eq_some_iff hk, hdrop, ← hrest]
      rfl
    · rw [show (k + 1).toNat = k.toNat + 1 by omega, hdrop]
      exact prefix_append cs rest
  · rintro ⟨hk, hat, -, hcs⟩
    refine ⟨hk, ?_⟩
    rw [at?_eq_some_iff hk] at hat
    rw [hat, prefix_cons_inj, ← show (k + 1).toNat = k.toNat + 1 by omega]
    exact hcs

lemma shows_append_iff : s.Shows k (cs ++ ds) ↔ s.Shows k cs ∧ s.Shows (k + cs.length) ds := by
  induction cs generalizing k with
  | nil =>
    rw [length_nil, Int.ofNat_zero, Int.add_zero]
    exact ⟨fun h => ⟨shows_nil h.nonneg, h⟩, fun h => h.2⟩
  | cons c cs ih =>
    rw [cons_append, shows_cons_iff, shows_cons_iff, ih, length_cons, show k + ((cs.length + 1 :
      Nat)) = k + 1 + cs.length by omega]
    exact ⟨fun ⟨h1, h2, h3, h4⟩ => ⟨⟨h1, h2, h3⟩, h4⟩, fun ⟨⟨h1, h2, h3⟩, h4⟩ => ⟨h1, h2, h3, h4⟩⟩

lemma Shows.tail (h : s.Shows k (c :: cs)) : s.Shows (k + 1) cs := (shows_cons_iff.mp h).2.2

lemma Shows.left (h : s.Shows k (cs ++ ds)) : s.Shows k cs := (shows_append_iff.mp h).1

lemma Shows.right (h : s.Shows k (cs ++ ds)) : s.Shows (k + cs.length) ds :=
  (shows_append_iff.mp h).2

lemma Shows.upto (h : s.Shows k (cs ++ c :: ds)) : s.Shows k (cs ++ [c]) := by
  rw [append_cons] at h
  exact h.left

lemma Shows.end_le (h : s.Shows k cs) (hne : cs ≠ []) : k + cs.length ≤ s.size := by
  have hlen := h.2.length_le
  have hpos := length_pos_iff.mpr hne
  rw [length_drop, s.chars.length_toList] at hlen
  unfold size
  omega

lemma Shows.read (h : s.Shows k (c :: cs)) : s.read k = .ok c := by
  unfold Source.read
  rw [(shows_cons_iff.mp h).2.1]

lemma Shows.read_first {es : List Char} (h : s.Shows k (ds ++ es)) (hds : ds = c :: cs) :
    s.read k = .ok c := by
  rw [hds] at h
  exact h.read

lemma Shows.holds (h : s.Shows k (c :: cs)) : s.holds p k = .ok (p c) := by
  unfold Source.holds
  simp [h.read]

lemma shows_singleton_of_read (hk : 0 ≤ k) (h : s.read k = .ok c) : s.Shows k [c] := by
  rw [shows_cons_iff]
  refine ⟨hk, ?_, shows_nil (by omega)⟩
  unfold read at h
  split at h
  · next d hd => rw [hd, Except.ok.inj h]
  · cases h

lemma Shows.read_at (h : s.Shows k cs) {i : Nat} (hi : i < cs.length) :
    s.read (k + i) = .ok cs[i] := by
  have hsplit : s.Shows k (cs.take i ++ cs.drop i) := by rwa [take_append_drop]
  have hdrop := hsplit.right
  rw [drop_eq_getElem_cons hi, length_take_of_le (Nat.le_of_lt hi)] at hdrop
  exact hdrop.read

lemma Shows.eq_of_length (h : s.Shows k cs) (h' : s.Shows k ds) (hl : cs.length = ds.length) :
    cs = ds :=
  (prefix_of_prefix_length_le h.2 h'.2 (Nat.le_of_eq hl)).eq_of_length hl

/-! ### Spans and words -/

lemma Shows.span (h : s.Shows k cs) : s.span k (k + cs.length) = cs := by
  obtain ⟨hk, rest, hrest⟩ := h
  have hlen : cs.length ≤ s.size - k.toNat := by
    have := congrArg length hrest
    rw [length_append, length_drop, s.chars.length_toList] at this
    unfold size
    omega
  by_cases hnil : cs = []
  · subst hnil
    simp [span]
  · have hpos := length_pos_iff.mpr hnil
    have ha : s.clip k = k.toNat := by
      unfold clip
      rw [if_pos hk]
      omega
    have hb : s.clip (k + cs.length) = k.toNat + cs.length := by
      unfold clip
      rw [if_pos (by omega)]
      omega
    unfold Source.span
    rw [ha, hb, Array.toList_extract, extract_eq_take_drop, ← hrest]
    simp

lemma Shows.slice (h : s.Shows k cs) : s.slice k (k + cs.length) = String.ofList cs := by
  unfold Source.slice
  rw [h.span]

lemma shows_span (hk : 0 ≤ k) (e : Int) : s.Shows k (s.span k e) := by
  refine ⟨hk, ?_⟩
  unfold span
  rw [Array.toList_extract, extract_eq_take_drop]
  unfold clip
  rw [if_pos hk]
  by_cases hle : k.toNat ≤ s.size
  · rw [Nat.min_eq_left hle]
    exact take_prefix _ _
  · have hnil : s.chars.toList.drop (min k.toNat s.size) = [] := by
      apply drop_eq_nil_of_le
      rw [Array.length_toList]
      unfold size at hle ⊢
      omega
    rw [hnil, take_nil]
    exact nil_prefix

variable {word : String}

lemma reads_iff (hk : 0 ≤ k) : s.reads k word = true ↔ s.Shows k word.toList := by
  unfold reads
  rw [beq_iff_eq]
  constructor
  · intro h
    rw [← h]
    exact shows_span hk _
  · intro h
    exact h.span

lemma Shows.reads (h : s.Shows k (word.toList ++ cs)) : s.reads k word = true :=
  (reads_iff h.nonneg).mpr h.left

lemma Shows.reads_eq_false {w : Char} {ws : List Char} (h : s.Shows k (c :: cs))
    (hw : word.toList = w :: ws) (hne : w ≠ c) : s.reads k word = false := by
  rw [← Bool.not_eq_true, reads_iff h.nonneg, hw]
  intro hshow
  have h1 := (shows_cons_iff.mp h).2.1
  have h2 := (shows_cons_iff.mp hshow).2.1
  rw [h1] at h2
  exact hne (Option.some.inj h2).symm

/-! ### Runs of characters -/

section

variable (h : s.Shows k (cs ++ [c])) (hp : ∀ x ∈ cs, p x = true) (hc : p c = false)

include h hp hc

lemma skipSteps_eq : ∀ n, cs.length < n → s.skipSteps p n k = .ok (k + cs.length) := by
  induction cs generalizing k with
  | nil =>
    intro n hn
    obtain ⟨m, rfl⟩ : ∃ m, n = m + 1 := ⟨n - 1, by omega⟩
    simp [skipSteps, Shows.read h, hc]
  | cons d cs ih =>
    intro n hn
    rw [length_cons] at hn
    obtain ⟨m, rfl⟩ : ∃ m, n = m + 1 := ⟨n - 1, by omega⟩
    have hd : p d = true := hp d (.head _)
    have hrest := ih (Shows.tail h) (fun x hx => hp x (.tail _ hx)) m (by omega)
    simp only [skipSteps, Shows.read h, Scan.ok_bind, hd, ite_true, hrest, length_cons]
    congr 1
    omega

lemma skip_eq : s.skip p k = .ok (k + cs.length) := by
  have hle := h.end_le (by simp)
  have hk := h.nonneg
  rw [length_append] at hle
  exact skipSteps_eq h hp hc s.steps (by unfold steps; omega)

end

lemma skip_of_false (h : s.Shows k (c :: cs)) (hc : p c = false) : s.skip p k = .ok k := by
  have h1 : s.Shows k ([] ++ [c]) := (shows_append_iff.mp h).1
  have := skip_eq h1 (by simp) hc
  simpa using this

lemma through_eq (h : s.Shows (k + 1) (cs ++ [c])) (hp : ∀ x ∈ cs, p x = true)
    (hc : p c = false) : s.through p k = .ok (k + cs.length) := by
  unfold through
  simp only [skip_eq h hp hc, Scan.ok_bind]
  congr 1
  omega

section

variable (h : s.Shows k (c :: cs)) (hc : isBlank c = false)

include h hc

lemma skipBlanks_of_not_blank : s.skipBlanks k = .ok k :=
  skip_of_false h hc

lemma backBlanks_of_blanks
    (hcs : ∀ x ∈ cs, isBlank x = true) : s.backBlanks (k + cs.length) = .ok k := by
  have hsteps : ∀ i ≤ cs.length, ∀ n, i < n → s.backSteps isBlank n (k + i) = .ok k := by
    intro i
    induction i with
    | zero =>
      intro _ n hn
      obtain ⟨n, rfl⟩ : ∃ m, n = m + 1 := ⟨n - 1, by omega⟩
      simp [backSteps, h.read, hc]
    | succ i ih =>
      intro hi n hn
      obtain ⟨n, rfl⟩ : ∃ m, n = m + 1 := ⟨n - 1, by omega⟩
      have hread : s.read (k + (i + 1 : Nat)) = .ok cs[i] := h.read_at (Nat.succ_lt_succ hi)
      rw [backSteps, hread, Scan.ok_bind, if_pos (hcs _ (getElem_mem hi)), show k + (i + 1 : Nat)
        - 1 = k + i by omega]
      exact ih (Nat.le_of_succ_le hi) n (by omega)
  have hsize := h.end_le (by simp)
  have hk := h.nonneg
  rw [length_cons] at hsize
  exact hsteps _ .refl _ (by unfold steps; omega)

lemma backBlanks_eq : s.backBlanks k = .ok k := by
  have hfirst : s.Shows k [c] := h.left
  simpa using backBlanks_of_blanks hfirst hc (by simp)

end

/-! ### Searching -/

lemma standsAt_iff {word : List Char} {a : Nat} : s.standsAt word a = true ↔ s.Shows a word := by
  induction word generalizing a with
  | nil => exact iff_of_true rfl (shows_nil (by omega))
  | cons c word ih => simp [standsAt, ih, shows_cons_iff, at?]

lemma findIn_bounds {word : List Char} {n a j : Nat} (h : s.findIn word n a = some j) :
    a ≤ j ∧ j < a + n ∧ s.Shows j word ∧ ∀ i : Nat, a ≤ i → i < j → ¬ s.Shows i word := by
  induction n generalizing a with
  | zero => cases h
  | succ n ih =>
    rw [findIn] at h
    split at h
    · next hstands =>
      cases h
      exact ⟨.refl, by omega, standsAt_iff.1 hstands, fun i _ _ => by omega⟩
    · next hne =>
      obtain ⟨hle, hlt, hshows, hfirst⟩ := ih h
      refine ⟨by omega, by omega, hshows, fun i hi hij => ?_⟩
      rcases Nat.eq_or_lt_of_le hi with rfl | hi
      · rwa [← standsAt_iff]
      · exact hfirst i hi hij

/-- A search finds the first place at which a word stands. -/
lemma find?_spec {j : Int} (h : s.find? word k = some j) :
    k ≤ j ∧ s.Shows j word.toList ∧ ∀ i, 0 ≤ k → k ≤ i → i < j → ¬ s.Shows i word.toList := by
  obtain ⟨n, hn, rfl⟩ := Option.map_eq_some_iff.1 h
  obtain ⟨hle, hlt, hshows, hfirst⟩ := findIn_bounds hn
  simp only [Int.ofNat_eq_natCast]
  unfold clip at hle hlt hfirst
  refine ⟨?_, hshows, fun i hk hi hij => ?_⟩
  · split at hle
    · next hk =>
      rw [if_pos hk] at hlt
      omega
    · omega
  · rw [if_pos hk] at hfirst
    obtain ⟨i, rfl⟩ := Int.eq_ofNat_of_zero_le (Int.le_trans hk hi)
    exact hfirst i (by omega) (by omega)

lemma findIn_isSome {word : List Char} {n a m : Nat} (hle : a ≤ m) (hlt : m < a + n)
    (h : s.Shows m word) : (s.findIn word n a).isSome := by
  induction n generalizing a with
  | zero => omega
  | succ n ih =>
    rw [findIn]
    split
    · rfl
    · next hne =>
      have hne' : a ≠ m := by
        rintro rfl
        exact hne (standsAt_iff.2 h)
      exact ih (by omega) (by omega)

lemma exists_find?_eq {m : Nat} (hle : s.clip k ≤ m) (h : s.Shows m word.toList)
    (hword : word.toList ≠ []) : ∃ j, s.find? word k = some j := by
  have hend := h.end_le hword
  have hpos := length_pos_iff.2 hword
  obtain ⟨j, hj⟩ := Option.isSome_iff_exists.1
    (findIn_isSome (n := s.size - s.clip k) hle (by omega) h)
  exact ⟨j, congrArg (Option.map Int.ofNat) hj⟩

lemma Shows.find?_eq (hword : word.toList = [c]) (h : s.Shows k (cs ++ c :: ds)) (hcs : c ∉ cs) :
    s.find? word k = some (k + cs.length) := by
  have hk := h.nonneg
  have hlast : s.Shows (k + cs.length) word.toList := hword ▸ h.upto.right
  obtain ⟨m, hm⟩ := Int.eq_ofNat_of_zero_le hlast.nonneg
  obtain ⟨j, hj⟩ := exists_find?_eq (k := k) (by unfold clip; split <;> omega) (hm ▸ hlast)
    (by simp [hword])
  obtain ⟨hle, hshows, hfirst⟩ := find?_spec hj
  have hge : ¬ k + cs.length < j := fun hlt => hfirst _ hk (by omega) hlt hlast
  have hlt : ¬ j < k + cs.length := by
    intro hlt
    have hi : (j - k).toNat < cs.length := by omega
    have hread := h.left.read_at hi
    rw [hword] at hshows
    rw [show k + (j - k).toNat = j by omega, hshows.read] at hread
    exact hcs (Except.ok.inj hread ▸ getElem_mem hi)
  rw [hj, show j = k + cs.length by omega]

/-! ### Sources of texts -/

lemma shows_ofString (before cs after : List Char) :
    (ofString (String.ofList (before ++ cs ++ after))).Shows before.length cs := by
  refine ⟨by omega, ?_⟩
  rw [ofString, String.toList_ofList, Int.toNat_natCast, append_assoc, drop_left]
  exact prefix_append _ _

end Source

end ArmaGen
