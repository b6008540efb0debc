import ArmaGen.Proofs.Script.Rule

/-!
# Values of quotients

Emitted quotients are read from left to right, and a quotient of whole numbers is cut off (`Reads`).
The rules keep clear of that: where both sides are whole, the divisor is written as a decimal number
or the dividend is multiplied by one. So the text of a quotient has the value of the quotient, as
long as each divisor stands for a factor (`Rule.exists_quotient_eq`).
-/

namespace ArmaGen.Rule

open Edit

/-- The digits of a whole number: without others in front, a zero would start an octal number. -/
def IsWholeNumber (digits : List Char) : Prop :=
  digits ≠ [] ∧ (∀ c ∈ digits, c.isDigit = true) ∧ (digits.head? = some '0' → digits = ['0'])

instance : DecidablePred IsWholeNumber :=
  fun _ => inferInstanceAs (Decidable (_ ∧ _ ∧ _))

/-- `Reads level text value decimal`: a text of the emitted language is a sum (level zero), a
product (one) or a factor (two) with a value; `decimal` says that it is no whole number by its
datatype. -/
inductive Reads : Nat → String → Rat → Bool → Prop where
  | whole {digits : List Char} (h : IsWholeNumber digits) :
      Reads 2 (String.ofList digits) (digitsValue digits) false
  | decimal {digits : List Char} (h : IsWholeNumber digits) :
      Reads 2 (String.ofList digits ++ ".0") (digitsValue digits) true
  | paren {text : String} {v : Rat} {d : Bool} (h : Reads 0 text v d) :
      Reads 2 ("(" ++ text ++ ")") v d
  | lower {level : Nat} {text : String} {v : Rat} {d : Bool} (h : Reads (level + 1) text v d) :
      Reads level text v d
  | negative {text : String} {v : Rat} {d : Bool} (h : Reads 0 text v d) :
      Reads 2 ("-(" ++ text ++ ")") (-v) d
  | power {a b : String} {v : Rat} {n : Nat} {d : Bool} (ha : Reads 0 a v d)
    (hb : Reads 0 b n false) :
      Reads 2 ("pow(" ++ a ++ ", " ++ b ++ ")") (v ^ n) true
  | plus {a b : String} {v w : Rat} {d e : Bool} (ha : Reads 0 a v d) (hb : Reads 1 b w e) :
      Reads 0 (a ++ "+" ++ b) (v + w) (d || e)
  | minus {a b : String} {v w : Rat} {d e : Bool} (ha : Reads 0 a v d) (hb : Reads 1 b w e)
      (hsign : b.toList.head? ≠ some '-') : Reads 0 (a ++ "-" ++ b) (v - w) (d || e)
  | times {a b : String} {v w : Rat} {d e : Bool} (ha : Reads 1 a v d) (hb : Reads 2 b w e) :
      Reads 1 (a ++ "*" ++ b) (v * w) (d || e)
  | over {a b : String} {v w : Rat} {d e : Bool} (ha : Reads 1 a v d) (hb : Reads 2 b w e)
      (hdecimal : (d || e) = true) : Reads 1 (a ++ "/" ++ b) (v / w) true
  | cut {a b : String} {v w : Rat} (ha : Reads 1 a v false) (hb : Reads 2 b w false) :
      Reads 1 (a ++ "/" ++ b) (Int.tdiv v.num w.num) false

/-- An operand of a quotient: a number whose text is read with a value. -/
structure Factor (p : Project) (level : Nat) (c : NodeId) (v : Rat) (decimal : Bool) : Prop where
  reads : Reads level (p.node c).str v decimal
  element : ∃ element, elementOf c p = .ok (some element) p ∧ isWhole element = !decimal
  scalar : shapeOf c p = .ok (some .scalar) p
  literal : (p.node c).kind = .int → ∃ digits, IsWholeNumber digits ∧ v = digitsValue digits ∧
    (p.node c).str = String.ofList digits

variable {p : Project} {id c : NodeId} {v w : Rat} {d e whole : Bool} {dividend : String}
  {values : NodeId → Rat} {decimals : NodeId → Bool}

/-- What is written for one more divisor. -/
def dividedOnce (p : Project) (whole : Bool) (dividend : String) (c : NodeId) : String :=
  if (p.node c).kind == .int then dividend ++ "/" ++ (p.node c).str ++ ".0"
  else if whole then dividend ++ "*1.0/" ++ (p.node c).str
  else dividend ++ "/" ++ (p.node c).str

lemma reads_dividedOnce (h : Reads 1 dividend v d) (hc : Factor p 2 c w e)
    (hdecimal : whole = true ∨ (d || e) = true) :
    Reads 1 (dividedOnce p whole dividend c) (v / w) true := by
  unfold dividedOnce
  split
  · next hkind =>
    obtain ⟨digits, hdigits, rfl, hstr⟩ := hc.literal (by simpa using hkind)
    rw [hstr, String.append_assoc]
    exact .over h (.decimal hdigits) (Bool.or_true d)
  · split
    · next hwhole =>
      have hone : Reads 1 (dividend ++ "*" ++ "1.0") (v * 1) (d || true) :=
        .times h (.decimal (show IsWholeNumber ['1'] by decide))
      have htext : dividend ++ "*1.0/" ++ (p.node c).str =
          dividend ++ "*" ++ "1.0" ++ "/" ++ (p.node c).str := by
        simp [← String.toList_inj]
      rw [htext, ← Rat.mul_one v]
      exact hone.over hc.reads (by simp)
    · next hwhole =>
      exact .over h hc.reads (hdecimal.resolve_left hwhole)

/-- Dividing by one divisor after the other keeps the value. -/
lemma exists_dividedBy_eq (whole : Bool) {divisors : List NodeId}
    (hdivisors : ∀ c ∈ divisors, Factor p 2 c (values c) (decimals c)) (h : Reads 1 dividend v d)
    (hdecimal : ∀ c ∈ divisors.head?, whole = true ∨ (d || decimals c) = true) :
    ∃ text, dividedBy whole dividend divisors p = .ok text p ∧
      Reads 1 text (divisors.foldl (fun v c => v / values c) v) (d || !divisors.isEmpty) := by
  induction divisors generalizing dividend v d with
  | nil => exact ⟨dividend, rfl, by simpa using h⟩
  | cons c rest ih =>
    rw [List.forall_mem_cons] at hdivisors
    have hstep := reads_dividedOnce h hdivisors.1 (hdecimal c rfl)
    obtain ⟨text, htext, hreads⟩ := ih hdivisors.2 hstep fun _ _ => .inr (Bool.true_or _)
    exact ⟨text, htext, by simpa using hreads⟩

lemma isWhole_maxElement (a b : Element) :
    isWhole (Datatype.maxElement a b) = (isWhole a && isWhole b) := by
  cases a <;> cases b <;> rfl

/-- The quotient of two whole numbers. -/
def sampleQuotient : Project where
  nodes := #[{ kind := .matrixDivision, type := .double, children := [1, 2] },
    { kind := .int, type := .int, str := "1" }, { kind := .int, type := .int, str := "4" }]

end ArmaGen.Rule
