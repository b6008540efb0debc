import ArmaGen.Proofs.Syntax.Parse

/-!
# Numerals

A numeral is read up to its last character, as one node with its value (`Parse.yields_numeral`).
Each of its parts ends where the character after it cannot go on with it.
-/

namespace ArmaGen

open List

/-- A number as it is written: digits, a dot with more of them, an exponent and the letter of an
imaginary number. -/
structure NumberText where
  whole : List Char
  decimals : List Char
  power : List Char
  imaginary : List Char
  isWhole : ∀ c ∈ whole, isDigit c = true
  isDecimals : decimals = [] ∨ ∃ digits, decimals = '.' :: digits ∧ ∀ c ∈ digits, isDigit c = true
  isPower : power = [] ∨ ∃ letter sign, ∃ digits : WholeNumber,
    power = letter :: (sign ++ digits.digits) ∧ oneOf "eEdD" letter = true ∧
      (sign = [] ∨ ∃ c, sign = [c] ∧ oneOf "+-" c = true)
  isImaginary : imaginary = [] ∨ ∃ c, imaginary = [c] ∧ oneOf "ij" c = true
  hasDigits : whole ≠ [] ∨ 1 < decimals.length

namespace NumberText

variable (n : NumberText)

def body : List Char :=
  n.whole ++ n.decimals ++ n.power

def text : List Char :=
  n.body ++ n.imaginary

def kind : Kind :=
  if n.imaginary ≠ [] then .imag else if n.decimals = [] ∧ n.power = [] then .int else .float

/-- The number without its imaginary letter, with `e` before the exponent. -/
def plain : List Char :=
  n.whole ++ n.decimals ++ n.power.modifyHead fun _ => 'e'

def value : String :=
  String.ofList (if n.kind = .float ∧ n.whole = [] then '0' :: n.plain else n.plain)

def leaf (k : Int) (kind : Kind) (value : String) : Syntax :=
  .leaf { kind, value := kind.keptValue value, cur? := some k,
          code? := some (String.ofList n.body) }

/-- A character that goes on with no part of a numeral, nor makes an operator of a dot at its
end. -/
structure EndedBy (c : Char) : Prop where
  digit : isDigit c = false
  letter : isLetter c = false
  dot : c ≠ '.'
  operator : n.text.getLast? = some '.' → oneOf "*/\\^'" c = false

variable {n} {c : Char}

lemma keptValue_plain : n.kind.keptValue (String.ofList n.plain) = n.value := by
  have htext : n.kind.holdsText = false := by
    unfold kind
    split
    · rfl
    · split <;> rfl
  have hhead : (n.plain.head? == some '.') = decide (n.whole = []) := by
    unfold plain
    cases hwhole : n.whole with
    | nil =>
      have hlength := n.hasDigits.resolve_left (by simp [hwhole])
      rcases n.isDecimals with hnil | ⟨digits, hdot, -⟩
      · simp [hnil] at hlength
      · simp [hdot]
    | cons d ds =>
      have hne : d ≠ '.' := ne_of_class (n.isWhole d (by simp [hwhole])) rfl
      simp [hne]
  unfold Kind.keptValue value
  rw [htext, String.toList_ofList, hhead]
  by_cases hkind : n.kind = .float <;> by_cases hwhole : n.whole = [] <;> simp [hkind, hwhole]

/-! ### What follows the parts of a numeral -/

lemma EndedBy.exists_after_body (hc : n.EndedBy c) (cs : List Char) :
    ∃ x xs, n.imaginary ++ c :: cs = x :: xs ∧ isDigit x = false ∧ x ≠ '.' ∧
      oneOf "eEdD" x = false ∧ oneOf "ij" x = decide (n.imaginary ≠ []) ∧
      (n.body.getLast? = some '.' → oneOf "*/" x = false) := by
  rcases n.isImaginary with himag | ⟨i, himag, hi⟩ <;> rw [himag]
  · refine ⟨c, cs, rfl, hc.digit, hc.dot, oneOf_eq_false_of_not hc.letter (by decide),
      oneOf_eq_false_of_not hc.letter (by decide), fun hlast => ?_⟩
    refine oneOf_eq_false_of_not (hc.operator ?_) (by decide)
    rwa [text, himag, append_nil]
  · exact ⟨i, c :: cs, rfl, of_oneOf (q := (isDigit · = false)) hi (by decide),
      ne_of_class hi rfl, oneOf_eq_false hi (by decide), hi, fun _ => oneOf_eq_false hi (by decide)⟩

lemma EndedBy.exists_after_decimals (hc : n.EndedBy c) (cs : List Char) :
    ∃ x xs, n.power ++ (n.imaginary ++ c :: cs) = x :: xs ∧ isDigit x = false ∧ x ≠ '.' ∧
      oneOf "eEdD" x = decide (n.power ≠ []) ∧ (n.decimals = ['.'] → oneOf "*/" x = false) := by
  rcases n.isPower with hpower | ⟨letter, sign, digits, hpower, hletter, -⟩
  · obtain ⟨x, xs, htext, hdigit, hdot, he, -, hop⟩ := hc.exists_after_body cs
    refine ⟨x, xs, by rw [hpower, htext]; rfl, hdigit, hdot, by rw [he, hpower]; rfl, fun h => ?_⟩
    exact hop (by simp [body, hpower, h])
  · exact ⟨letter, _, by rw [hpower]; rfl,
      of_oneOf (q := (isDigit · = false)) hletter (by decide), ne_of_class hletter rfl,
      by rw [hletter, hpower]; rfl, fun _ => oneOf_eq_false hletter (by decide)⟩

end NumberText

namespace Parse

open NumberText

variable {st : Setting} {k : Int} {n : NumberText} {c x : Char} {cs xs : List Char}

/-! ### Reading a numeral -/

lemma yields_numberStarts (h : st.source.Shows k (c :: cs))
    (hc : isDigit c = true ∨ c = '.' ∧ ∃ d ds, cs = d :: ds ∧ isDigit d = true) :
    (numberStarts k).Yields st [] true := by
  unfold numberStarts
  rw [yields_source_bind, h.read, yields_lift_bind]
  rcases hc with hdigit | ⟨rfl, d, ds, rfl, hdigit⟩
  · rw [hdigit]
    exact yields_pure
  · rw [h.tail.holds, hdigit]
    exact yields_lift

lemma yields_numberOf {kind : Kind} {label value : String} {m : Int}
    (h : st.source.Shows k (n.text ++ c :: cs)) (hc : n.EndedBy c)
    (hm : m = k + n.body.length) :
    (numberOf kind label value k m).Yields st
      [n.leaf k (if n.imaginary ≠ [] then .imag else kind) value] (k + n.text.length - 1) := by
  subst hm
  obtain ⟨x, xs, hafter, -, -, -, hij, -⟩ := hc.exists_after_body cs
  rw [text, append_assoc, hafter] at h
  have hleaf : ∀ kind label, (numberLeaf kind label value k (k + n.body.length)).Yields st
      [n.leaf k kind value] () := by
    intro kind label
    unfold numberLeaf
    rw [yields_source_bind, h.left.slice]
    exact yields_leaf.bind yields_progress
  unfold numberOf text
  rw [yields_source_bind, h.right.read, yields_lift_bind, hij, length_append]
  rcases n.isImaginary with himag | ⟨i, himag, -⟩ <;> rw [himag]
  · exact (hleaf kind label).bind yields_pure
  · refine Yields.cast ((hleaf .imag _).bind yields_pure) ?_
    simp
    omega

lemma slice_ne_dots (h : st.source.Shows k (x :: xs)) (hx : x ≠ '.') (e : Int) :
    st.source.slice k e ≠ ".." := by
  intro heq
  have hspan : st.source.span k e = ['.', '.'] := by
    simpa [Source.slice] using congrArg String.toList heq
  have hdots : st.source.Shows k _ := Source.shows_span h.nonneg e
  rw [hspan] at hdots
  exact hx (Except.ok.inj (h.read.symm.trans hdots.read))

/-- The sign and the digits of an exponent are passed. -/
lemma skip_power {sign : List Char} {digits : WholeNumber}
    (hsign : sign = [] ∨ ∃ c, sign = [c] ∧ oneOf "+-" c = true)
    (h : st.source.Shows k (sign ++ digits.digits ++ x :: xs)) (hx : isDigit x = false) :
    ∃ signed, st.source.holds (oneOf "+-") k = .ok signed ∧
      st.source.skip isDigit (if signed then k + 1 else k) =
        .ok (k + (sign ++ digits.digits).length) := by
  rcases hsign with rfl | ⟨c, rfl, hc⟩
  · refine ⟨false, ?_, Source.skip_eq h.upto digits.spelled hx⟩
    obtain ⟨d, ds, hdigits⟩ := exists_cons_of_ne_nil digits.nonempty
    rw [nil_append, hdigits] at h
    rw [h.holds, oneOf_eq_false (digits.spelled d (by simp [hdigits])) (by decide)]
  · refine ⟨true, by rw [← hc]; exact h.holds, ?_⟩
    rw [if_pos rfl, Source.skip_eq h.tail.upto digits.spelled hx]
    simp
    omega

lemma yields_numberFrom (h : st.source.Shows k (n.text ++ c :: cs)) (hc : n.EndedBy c) :
    (numberFrom k (decide (n.decimals ≠ [])) (k + (n.whole ++ n.decimals).length)).Yields st
      [n.leaf k n.kind (String.ofList n.plain)] (k + n.text.length - 1) := by
  obtain ⟨x, xs, hafter, -, -, hexp, -⟩ := hc.exists_after_decimals cs
  have hm : st.source.Shows k (n.whole ++ n.decimals ++ x :: xs) := by
    rw [← hafter]
    simpa [text, body] using h
  unfold numberFrom
  rw [yields_source_bind, hm.right.read, yields_lift_bind, hexp, hm.left.slice]
  rcases n.isPower with hpower | ⟨letter, sign, power, hpower, -, hsign⟩
  · have hbody : n.body = n.whole ++ n.decimals := by simp [body, hpower]
    have hplain : n.plain = n.whole ++ n.decimals := by simp [plain, hpower]
    have hkind : n.kind = if n.imaginary ≠ [] then .imag
        else if decide (n.decimals ≠ []) = true then .float else .int := by
      by_cases hdecimals : n.decimals = [] <;> simp [kind, hpower, hdecimals]
    rw [if_neg (by simp [hpower]), hplain, hkind]
    cases decide (n.decimals ≠ []) <;> exact yields_numberOf h hc (by rw [hbody])
  · obtain ⟨y, ys, hlast, hy, -⟩ := hc.exists_after_body cs
    have hshow : st.source.Shows (k + (n.whole ++ n.decimals).length + 1)
        (sign ++ power.digits ++ y :: ys) := by
      rw [text, body, append_assoc, append_assoc, hlast, hpower] at h
      exact h.right.tail
    obtain ⟨signed, hsigned, hskip⟩ := skip_power hsign hshow hy
    have hkind : n.kind = if n.imaginary ≠ [] then .imag else .float := by
      simp [kind, hpower]
    have hplain : String.ofList (n.whole ++ n.decimals) ++ "e" ++
        String.ofList (sign ++ power.digits) = String.ofList n.plain := by
      rw [plain, hpower, ← String.ofList_append, ← String.ofList_append, append_assoc]
      rfl
    have hnext : k + ((n.whole ++ n.decimals).length : Int) + 2 =
        k + (n.whole ++ n.decimals).length + 1 + 1 := by omega
    rw [if_pos (by simp [hpower]), hsigned, yields_lift_bind, hnext, hskip, yields_lift_bind,
      hshow.left.slice, hplain, hkind]
    exact yields_numberOf h hc (by simp [body, hpower]; omega)

lemma yields_numberText (h : st.source.Shows k (n.text ++ c :: cs)) (hc : n.EndedBy c) :
    (number k).Yields st [n.leaf k n.kind (String.ofList n.plain)] (k + n.text.length - 1) := by
  obtain ⟨x, xs, hafter, hdigit, hdot, -, hop⟩ := hc.exists_after_decimals cs
  have hrest := yields_numberFrom h hc
  have hm : st.source.Shows k (n.whole ++ (n.decimals ++ x :: xs)) := by
    rw [← hafter]
    simpa [text, body] using h
  have hfirst : ∀ d ds, n.whole = d :: ds → (numberStarts k).Yields st [] true := by
    intro d ds hwhole
    rw [hwhole] at hm
    exact yields_numberStarts hm (.inl (n.isWhole d (by simp [hwhole])))
  unfold number
  rw [yields_source_bind]
  rcases n.isDecimals with hnil | ⟨digits, hdecimals, hdigits⟩
  · rw [hnil] at hm hrest
    rw [append_nil] at hrest
    obtain ⟨d, ds, hwhole⟩ := exists_cons_of_ne_nil (n.hasDigits.resolve_right (by simp [hnil]))
    rw [(hfirst d ds hwhole).bind_iff, if_neg (by decide), Source.skip_eq hm.upto n.isWhole hdigit,
      yields_lift_bind, hm.right.read, yields_lift_bind, beq_eq_false_iff_ne.mpr hdot,
      Bool.false_and, if_neg (by decide)]
    exact hrest
  · rw [hdecimals] at hm hrest hop
    -- the first character after the dot makes it no operator and no continuation
    obtain ⟨y, ys, hy, hydot, hyop⟩ : ∃ y ys, digits ++ x :: xs = y :: ys ∧ y ≠ '.' ∧
        oneOf "*/" y = false := by
      cases digits with
      | nil => exact ⟨x, xs, rfl, hdot, hop rfl⟩
      | cons d ds =>
        have hd := hdigits d (.head _)
        exact ⟨d, _, rfl, ne_of_class hd rfl, oneOf_eq_false hd (by decide)⟩
    have hstarts : (numberStarts k).Yields st [] true := by
      cases hwhole : n.whole with
      | cons d ds => exact hfirst d ds hwhole
      | nil =>
        obtain ⟨d, ds, rfl⟩ : ∃ d ds, digits = d :: ds := exists_cons_of_ne_nil (by
          rintro rfl
          simpa [hwhole, hdecimals] using n.hasDigits)
        rw [hwhole] at hm
        exact yields_numberStarts hm (.inr ⟨rfl, d, _, rfl, hdigits d (.head _)⟩)
    have hnext : st.source.Shows (k + n.whole.length + 1) (y :: ys) := hy ▸ hm.right.tail
    have hend : k + (n.whole.length : Int) + 1 + digits.length =
        k + (n.whole ++ '.' :: digits).length := by
      simp
      omega
    rw [hstarts.bind_iff, if_neg (by decide), Source.skip_eq hm.upto n.isWhole (by decide),
      yields_lift_bind, hm.right.read, yields_lift_bind, beq_self_eq_true,
      bne_iff_ne.mpr (slice_ne_dots hnext hydot _), if_pos (by decide), hnext.holds,
      yields_lift_bind, hyop, yields_pure_bind]
    dsimp only
    rw [if_pos (by decide), Source.skip_eq hm.right.tail.upto hdigits hdigit, hend]
    exact hrest

/-- A numeral is read up to its last character, as one node with its value. -/
theorem yields_numeral (n : NumberText) (h : st.source.Shows k (n.text ++ c :: cs))
    (hc : n.EndedBy c) :
    (number k).Yields st
      [.leaf { kind := n.kind, value := n.value, cur? := some k,
               code? := some (String.ofList n.body) }]
      (k + n.text.length - 1) := by
  rw [← n.keptValue_plain]
  exact yields_numberText h hc

theorem yields_numeral_sample : (number 0).Yields { source := .ofString ".5D+3)" }
    [.leaf { kind := .float, value := "0.5e+3", cur? := some 0, code? := some ".5D+3" }] 4 :=
  have hpower := ⟨'D', ['+'], ⟨['3'], by decide, by decide⟩, rfl, rfl, .inr ⟨'+', rfl, rfl⟩⟩
  yields_numeral (c := ')') ⟨[], ['.', '5'], ['D', '+', '3'], [], nofun,
      .inr ⟨['5'], rfl, by decide⟩, .inr hpower, .inl rfl, .inr (by decide)⟩
    (Source.shows_ofString [] ".5D+3)".toList [] :) ⟨rfl, rfl, by decide, fun _ => rfl⟩

end Parse

end ArmaGen
