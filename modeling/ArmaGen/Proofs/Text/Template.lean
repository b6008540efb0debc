import ArmaGen.Emit.Properties
import Mathlib.Tactic.Lemma

/-!
# Filling in templates
-/

namespace ArmaGen

open List

namespace Template

variable {props : Properties} {cs ds out out' key : List Char} {c : Char}

/-- A template of plain characters and directives, and what it is filled in with. -/
inductive Filled (props : Properties) : List Char → List Char → Prop where
  | nil : Filled props [] []
  | char {c : Char} {cs out : List Char} (hc : c ≠ '%') (h : Filled props cs out) :
      Filled props (c :: cs) (c :: out)
  | text {key cs out : List Char} {property : Property} (hkey : ∀ c ∈ key, c ≠ '(' ∧ c ≠ ')')
      (hlookup : props.lookup (String.ofList key) = some property) (h : Filled props cs out) :
      Filled props ('%' :: '(' :: (key ++ ')' :: 's' :: cs)) (property.shown.toList ++ out)
  | number {key cs out : List Char} {n : Int} (hkey : ∀ c ∈ key, c ≠ '(' ∧ c ≠ ')')
      (hlookup : props.lookup (String.ofList key) = some (.number n)) (h : Filled props cs out) :
      Filled props ('%' :: '(' :: (key ++ ')' :: 'd' :: cs))
        ((Layout.ofDigits {} (n < 0) "" (digitsIn 10 n)).toList ++ out)

lemma Filled.append (h : Filled props cs out) (h' : Filled props ds out') :
    Filled props (cs ++ ds) (out ++ out') := by
  induction h with
  | nil => exact h'
  | char hc _ ih => exact .char hc ih
  | text hkey hlookup _ ih =>
    simpa using Filled.text hkey hlookup ih
  | number hkey hlookup _ ih =>
    simpa using Filled.number hkey hlookup ih

lemma filled_plain (h : '%' ∉ cs) : Filled props cs cs := by
  induction cs with
  | nil => exact .nil
  | cons c cs ih =>
    rw [mem_cons, not_or] at h
    exact .char (Ne.symm h.1) (ih h.2)

lemma Filled.exists_dropWhile (h : Filled props cs out) :
    ∃ rest, out = cs.takeWhile (· != '%') ++ rest ∧
      Filled props (cs.dropWhile (· != '%')) rest := by
  induction h with
  | nil => exact ⟨[], rfl, .nil⟩
  | @char c cs out hc _ ih =>
    obtain ⟨rest, rfl, hrest⟩ := ih
    have hne : (c != '%') = true := bne_iff_ne.mpr hc
    refine ⟨rest, ?_, ?_⟩
    · rw [takeWhile_cons, if_pos hne]
      rfl
    · rwa [dropWhile_cons, if_pos hne]
  | text hkey hlookup hrest =>
    refine ⟨_, (nil_append _).symm, ?_⟩
    exact .text hkey hlookup hrest
  | number hkey hlookup hrest =>
    refine ⟨_, (nil_append _).symm, ?_⟩
    exact .number hkey hlookup hrest

lemma splitKey_eq (hkey : ∀ c ∈ key, c ≠ '(' ∧ c ≠ ')') :
    splitKey 0 (key ++ ')' :: cs) = some (key, cs) := by
  induction key with
  | nil => rfl
  | cons c key ih =>
    obtain ⟨hopen, hclose⟩ := hkey c (.head _)
    rw [cons_append, splitKey, if_neg (by simpa using hopen), ih fun d hd => hkey d (.tail _ hd)]
    · rfl
    · exact hclose

variable {supply : Supply} {between : String}

lemma directive_eq {property : Property} {text : String} (hkey : ∀ c ∈ key, c ≠ '(' ∧ c ≠ ')')
    (hlookup : props.lookup (String.ofList key) = some property) (hc : c = 's' ∨ c = 'd')
    (happly : Layout.apply {} (.one property) c = .ok text) :
    directive props supply ('(' :: (key ++ ')' :: c :: cs)) =
      .ok (text, ⟨.one property, false⟩, cs) := by
  have hkeyed : keyed props supply ('(' :: (key ++ ')' :: c :: cs)) =
      .ok (⟨.one property, true⟩, c :: cs) := by
    rw [keyed, splitKey_eq hkey]
    simp [hlookup]
  have hlayout : layoutOf ⟨.one property, true⟩ (c :: cs) =
      .ok ({}, ⟨.one property, true⟩, c :: cs) := by
    rcases hc with rfl | rfl <;> rfl
  have hsize : dropSize (c :: cs) = c :: cs := by
    rcases hc with rfl | rfl <;> rfl
  rw [directive]
  · simp only [hkeyed, hlayout, hsize, Supply.take, bind, Except.bind, ite_true, happly]
    rfl
  · exact fun _ heq => absurd (cons.inj heq).1 (by decide)

lemma apply_text (property : Property) :
    Layout.apply {} (.one property) 's' = .ok property.shown := by
  show Except.ok (blanks (0 - property.shown.length) ++ property.shown) = _
  rw [Nat.zero_sub]
  show Except.ok ("" ++ property.shown) = _
  rw [String.empty_append]

lemma fillSteps_directive {n : Nat} {supply' : Supply} {text : String} {parts : List String}
    (h : directive props supply cs = .ok (text, supply', ds))
    (hrest : fillSteps props n supply' ds = .ok parts) :
    fillSteps props (n + 1) supply ('%' :: cs) = .ok (text :: parts) := by
  rw [fillSteps, h]
  show (fillSteps props n supply' ds >>= _) = _
  rw [hrest]
  rfl

/-- The induction is on the bound, as plain characters are taken in one piece. -/
lemma Filled.fillSteps_eq {n : Nat} (h : Filled props cs out) (hn : cs.length < n)
    (supply : Supply) :
    ∃ parts, fillSteps props n supply cs = .ok parts ∧ (String.join parts).toList = out := by
  induction n generalizing cs out supply with
  | zero => exact absurd hn (Nat.not_lt_zero _)
  | succ n ih =>
    cases h with
    | nil => exact ⟨[], rfl, rfl⟩
    | @char c cs out hc h =>
      obtain ⟨rest, hout, hrest⟩ := (Filled.char hc h).exists_dropWhile
      have hne : (c != '%') = true := bne_iff_ne.mpr hc
      have hlen : ((c :: cs).dropWhile (· != '%')).length < n := by
        rw [dropWhile_cons, if_pos hne]
        have := (dropWhile_sublist (fun c : Char => c != '%') (l := cs)).length_le
        rw [length_cons] at hn
        omega
      obtain ⟨parts, hparts, hjoin⟩ := ih hrest hlen supply
      refine ⟨String.ofList ((c :: cs).takeWhile (· != '%')) :: parts, ?_, ?_⟩
      · rw [fillSteps]
        · rw [hparts]
          rfl
        · exact cons_ne_nil c cs
        · exact fun _ heq => hc (cons.inj heq).1
      · rw [hout, ← hjoin, String.join_cons, String.toList_append, String.toList_ofList]
    | @text key cs out property hkey hlookup h =>
      rw [length_cons, length_cons, length_append, length_cons, length_cons] at hn
      obtain ⟨parts, hparts, hjoin⟩ := ih h (by omega) ⟨.one property, false⟩
      refine ⟨property.shown :: parts, fillSteps_directive
        (directive_eq hkey hlookup (.inl rfl) (apply_text property)) hparts, ?_⟩
      rw [String.join_cons, String.toList_append, hjoin]
    | @number key cs out m hkey hlookup h =>
      rw [length_cons, length_cons, length_append, length_cons, length_cons] at hn
      obtain ⟨parts, hparts, hjoin⟩ := ih h (by omega) ⟨.one (.number m), false⟩
      refine ⟨_ :: parts, fillSteps_directive (directive_eq hkey hlookup (.inr rfl) rfl) hparts, ?_⟩
      rw [String.join_cons, String.toList_append, hjoin]

lemma Filled.fill_eq {template : String} (h : Filled props template.toList out) :
    fill props template = .ok (String.ofList out) := by
  obtain ⟨parts, hparts, hjoin⟩ := h.fillSteps_eq (n := template.length + 1)
    (by rw [← String.length_toList]; exact Nat.lt_succ_self _) ⟨.all props, true⟩
  unfold fill
  rw [hparts, ← hjoin]
  show Except.ok (String.join parts) = _
  rw [String.ofList_toList]

/-! ### Directives for names and children -/

/-- What properties tell about a node: its name and what is emitted for its children. -/
structure Tells (props : Properties) (name : String) (texts : List String) : Prop where
  name : props.lookup "name" = some (.text name)
  child : ∀ (i : Nat) (text : String), texts[i]? = some text →
    props.lookup (toString i) = some (.text text)

variable {name text : String} {texts : List String} {i : Nat}

lemma isDigit_of_mem_toString (h : c ∈ (toString i).toList) : c.isDigit = true := by
  rw [Nat.toString_eq_ofList_toDigits, String.toList_ofList] at h
  exact Nat.isDigit_of_mem_toDigits (by decide) (by decide) h

lemma toString_injective {j : Nat} (h : toString i = toString j) : i = j := by
  rw [Nat.toString_eq_ofList_toDigits, Nat.toString_eq_ofList_toDigits, String.ofList_inj] at h
  rw [← Nat.ofDigitChars_ten_toDigits (n := i), h, Nat.ofDigitChars_ten_toDigits]

lemma toString_ne_of_mem {key : String} (hc : c ∈ key.toList) (hdigit : c.isDigit = false) :
    toString i ≠ key := by
  rintro rfl
  rw [isDigit_of_mem_toString hc] at hdigit
  cases hdigit

lemma Tells.filled_name (h : Tells props name texts) :
    Filled props "%(name)s".toList name.toList := by
  have hkey : ∀ c ∈ "name".toList, c ≠ '(' ∧ c ≠ ')' := by decide
  have := Filled.text hkey h.name .nil
  rwa [append_nil] at this

lemma Tells.filled_child (h : Tells props name texts) (hi : texts[i]? = some text) :
    Filled props (Template.child i).toList text.toList := by
  have hkey : ∀ c ∈ (toString i).toList, c ≠ '(' ∧ c ≠ ')' := by
    intro c hc
    have := isDigit_of_mem_toString hc
    constructor <;> (rintro rfl; cases this)
  have := Filled.text hkey (by rw [String.ofList_toList]; exact h.child i text hi) .nil
  unfold Template.child key
  simpa [Property.shown] using this

/-! ### Pieces around children -/

lemma filled_join {α : Type} {items : List α} {f g : α → String}
    (h : ∀ a ∈ items, Filled props (f a).toList (g a).toList) :
    Filled props (String.join (items.map f)).toList (String.join (items.map g)).toList := by
  induction items with
  | nil => exact .nil
  | cons a items ih =>
    rw [map_cons, map_cons, String.join_cons, String.join_cons, String.toList_append,
      String.toList_append]
    exact (h a (.head _)).append (ih fun b hb => h b (.tail _ hb))

lemma Tells.filled_zip {pieces : List String} (h : Tells props name texts)
    (hpieces : ∀ piece ∈ pieces, '%' ∉ piece.toList) (hlength : pieces.length = texts.length) :
    Filled props
      (String.join ((range texts.length).map fun i => Template.child i ++ pieces.getD i "")).toList
      (String.join (zipWith (· ++ ·) texts pieces)).toList := by
  have hzip : zipWith (· ++ ·) texts pieces =
      (range texts.length).map fun i => texts.getD i "" ++ pieces.getD i "" := by
    refine ext_getElem (by simp [hlength]) fun i hi _ => ?_
    obtain ⟨htext, hpiece⟩ := Nat.lt_min.1 (length_zipWith ▸ hi)
    simp [htext, hpiece]
  rw [hzip]
  refine filled_join fun i hi => ?_
  have htext : i < texts.length := mem_range.1 hi
  have hpiece : i < pieces.length := hlength ▸ htext
  simpa [htext, hpiece] using (h.filled_child (getElem?_eq_getElem htext)).append
    (filled_plain (hpieces _ (getElem_mem hpiece)))

/-- What stands after each of so many texts: the pieces between them, the last one of these again
and again, and a last piece. -/
def separators (between : List String) (last : String) (n : Nat) : List String :=
  between ++ replicate (n - 1 - between.length) (between.getLastD "") ++ [last]

lemma not_mem_separators {between : List String} {last piece : String} {n : Nat}
    (hbetween : ∀ piece ∈ between, '%' ∉ piece.toList) (hlast : '%' ∉ last.toList)
    (h : piece ∈ separators between last n) : '%' ∉ piece.toList := by
  simp only [separators, mem_append, mem_singleton, mem_replicate] at h
  obtain (hpiece | ⟨-, rfl⟩) | rfl := h
  · exact hbetween piece hpiece
  · rcases mem_cons.1 (@getLastD_mem_cons _ between "") with hnil | hpiece
    · rw [hnil]
      exact not_mem_nil
    · exact hbetween _ hpiece
  · exact hlast

/-- Texts with pieces between and after them. -/
def interleaved (between : List String) (last : String) : List String → String
  | [] => last
  | [text] => text ++ last
  | texts => String.join (zipWith (· ++ ·) texts (separators between last texts.length))

lemma interleaved_singleton (between last : String) (texts : List String) :
    interleaved [between] last texts = joinWith between texts ++ last := by
  have hjoin : ∀ text texts, String.join (zipWith (· ++ ·) (text :: texts)
      (replicate texts.length between ++ [last])) = joinWith between (text :: texts) ++ last := by
    intro text texts
    induction texts generalizing text with
    | nil => simp [joinWith]
    | cons next texts ih =>
      rw [length_cons, replicate_succ, cons_append, zipWith_cons_cons, String.join_cons, ih]
      simp [joinWith, String.append_assoc]
  match texts with
  | [] => simp [interleaved, joinWith]
  | [text] => rfl
  | text :: next :: texts => exact hjoin text (next :: texts)

lemma Tells.filled_pieces {before last : String} {between : List String}
    (h : Tells props name texts) (hbefore : Filled props before.toList out)
    (hbetween : ∀ piece ∈ between, '%' ∉ piece.toList) (hlast : '%' ∉ last.toList)
    (hfit : texts.length < 2 ∨ between.length < texts.length) :
    Filled props (Emission.assemble before between last texts.length).toList
      (out ++ (interleaved between last texts).toList) := by
  match texts with
  | [] =>
    rw [length_nil, Emission.assemble, String.toList_append]
    exact hbefore.append (filled_plain hlast)
  | [text] =>
    rw [length_singleton, Emission.assemble, String.append_assoc, String.toList_append]
    refine hbefore.append ?_
    simpa [interleaved] using (h.filled_child rfl).append (filled_plain hlast)
  | first :: second :: others =>
    rw [Emission.assemble, String.toList_append]
    · refine hbefore.append (h.filled_zip (fun _ => not_mem_separators hbetween hlast) ?_)
      simp only [length_append, length_replicate, length_cons, length_nil] at hfit ⊢
      omega
    · simp
    · simp

lemma Tells.filled_around {before after : String} (h : Tells props name texts)
    (hbefore : Filled props before.toList out) (hbetween : '%' ∉ between.toList)
    (hafter : '%' ∉ after.toList) :
    Filled props (Emission.assemble before [between] after texts.length).toList
      (out ++ ((joinWith between texts).toList ++ after.toList)) := by
  rw [← String.toList_append, ← interleaved_singleton]
  exact h.filled_pieces hbefore (by simpa) hafter (by rw [length_singleton]; omega)

end Template

/-! ### Properties of nodes -/

lemma lookup_childProperties (count index : Nat) {i : Nat} {texts : List String} {text : String}
    (h : texts[i]? = some text) :
    (childProperties count index texts).lookup (toString (index + i)) = some (.text text) := by
  induction texts generalizing index i with
  | nil => cases h
  | cons first rest ih =>
    rw [childProperties]
    cases i with
    | zero =>
      obtain rfl : first = text := Option.some.inj h
      rw [Nat.add_zero, lookup_cons_self]
    | succ i =>
      have hne : (toString (index + (i + 1)) == toString index) = false := by
        rw [beq_eq_false_iff_ne]
        intro heq
        have := Template.toString_injective heq
        omega
      have hminus : (toString (index + (i + 1)) == "-" ++ toString (count - index)) = false := by
        rw [beq_eq_false_iff_ne]
        refine Template.toString_ne_of_mem (c := '-') ?_ (by decide)
        rw [String.toList_append]
        exact mem_append_left _ (by decide)
      rw [lookup_cons, hne, lookup_cons, hminus]
      have := ih (index + 1) h
      rwa [show index + 1 + i = index + (i + 1) by omega] at this

def isKey (key : String) : Bool :=
  key.toList.any fun c => !c.isDigit

lemma lookup_eq_none_of_isKey {props : Properties} {i : Nat}
    (h : ∀ entry ∈ props, isKey entry.1 = true) : props.lookup (toString i) = none := by
  refine lookup_eq_none_iff.mpr fun entry hentry => ?_
  obtain ⟨c, hc, hdigit⟩ := any_eq_true.mp (h entry hentry)
  exact bne_iff_ne.mpr (Template.toString_ne_of_mem hc (by simpa using hdigit))

lemma Node.tells_properties (node : Node) (line cur : Int) (code : String) (texts : List String) :
    Template.Tells (node.properties line cur code texts) node.name texts := by
  refine ⟨rfl, fun i text hi => ?_⟩
  have hown : ∀ entry ∈ node.ownProperties line cur code, isKey entry.1 = true := by
    have hletter : ∀ key ∈ ["type", "suggest", "value", "str", "name", "pointer", "backend", "line",
        "cur", "code", "ret", "class"], isKey key = true := by
      decide
    intro entry hentry
    exact hletter entry.1 (mem_map_of_mem hentry)
  have hchild := lookup_childProperties texts.length 0 hi
  rw [Nat.zero_add] at hchild
  unfold properties
  rw [lookup_append, lookup_append, lookup_eq_none_of_isKey hown, lookup_eq_none_of_isKey]
  · exact hchild
  · intro entry hentry
    obtain ⟨⟨key, extra⟩, -, rfl⟩ := mem_map.mp hentry
    show isKey key.name = true
    cases key <;> decide

end ArmaGen
