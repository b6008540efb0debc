import ArmaGen.Proofs.Script.Rule
import Mathlib.Data.List.Chain

/-!
# Finishing formulas

Emitted code is finished before it is shown, which changes nothing of lines that are settled
(`finish_joinWith`). Formulas are settled when they are written without blanks around their
operators (`Formula.settled_text`).
-/

namespace ArmaGen

open List

/-! ### Splitting texts -/

section

variable {word piece text : List Char} {c : Char}

lemma splitSteps_of_occursIn (h : occursIn word text = false) :
    splitSteps word 0 piece text = [piece.reverse ++ text] := by
  induction text generalizing piece with
  | nil => rw [splitSteps, append_nil]
  | cons c text ih =>
    rw [occursIn, Bool.or_eq_false_iff] at h
    rw [splitSteps, if_neg (by rw [h.1]; decide), ih h.2, reverse_cons, append_assoc]
    rfl

lemma replacePassage_of_occursIn (new : List Char) (h : occursIn word text = false) :
    replacePassage word new text = text := by
  rw [replacePassage, splitAt, splitSteps_of_occursIn h]
  simp

lemma occursIn_of_not_mem (hword : word.head? = some c) (h : c ∉ text) :
    occursIn word text = false := by
  obtain ⟨rest, rfl⟩ := head?_eq_some_iff.mp hword
  induction text with
  | nil => rfl
  | cons d text ih =>
    rw [mem_cons, not_or] at h
    rw [occursIn, ih h.2, Bool.or_false, isPrefixOf, beq_false_of_ne h.1, Bool.false_and]

lemma showPercent_of_not_mem {text : String} (h : '_' ∉ text.toList) : showPercent text = text := by
  rw [showPercent, replaceText, splitText, splitAt,
    splitSteps_of_occursIn (occursIn_of_not_mem (by decide) h)]
  exact String.ofList_toList

lemma splitSteps_line (h : c ∉ text) (rest : List Char) :
    splitSteps [c] 0 piece (text ++ c :: rest) =
      (piece.reverse ++ text) :: splitSteps [c] 0 [] rest := by
  induction text generalizing piece with
  | nil => simp [splitSteps]
  | cons d text ih =>
    rw [mem_cons, not_or] at h
    rw [cons_append, splitSteps, if_neg (by simp [h.1]), ih h.2, reverse_cons, append_assoc]
    rfl

lemma splitText_joinWith {lines : List String} (hne : lines ≠ [])
    (h : ∀ line ∈ lines, '\n' ∉ line.toList) : splitText "\n" (joinWith "\n" lines) = lines := by
  fun_induction joinWith "\n" lines with
  | case1 => exact absurd rfl hne
  | case2 line =>
    rw [splitText, splitAt, splitSteps_of_occursIn
      (occursIn_of_not_mem (by decide) (h line (.head _)))]
    exact congrArg ([·]) String.ofList_toList
  | case3 line rest hrest ih =>
    have hline := h line (.head _)
    have htext : (line ++ "\n" ++ joinWith "\n" rest).toList =
        line.toList ++ '\n' :: (joinWith "\n" rest).toList := by
      simp
    rw [splitText, htext]
    show (splitSteps ['\n'] 0 [] _).map String.ofList = _
    rw [splitSteps_line hline]
    have htail := ih (fun hnil => hrest hnil) fun l hl => h l (.tail _ hl)
    exact congrArg₂ cons String.ofList_toList htail

end

/-! ### Numerals -/

/-- Whether a numeral may be decremented after a character. -/
def isLead (c : Char) : Bool :=
  oneOf " ,([+-" c

/-- Whether no decrement and no pair of signs starts with a character after a lead. -/
def isCalm (c : Char) : Bool :=
  c != '-' && (digitValue? c).isNone

/-- Neighbours in a text in which nothing is decremented. -/
def Calm (c d : Char) : Prop :=
  isLead c = true → isCalm d = true

instance : DecidableRel Calm :=
  fun c d => inferInstanceAs (Decidable (isLead c = true → isCalm d = true))

section

variable {c : Char} {text rest : List Char}

lemma decrementAt?_eq_none {leads : String} (hleads : ∀ c ∈ leads.toList, isLead c = true)
    (signed : Bool) (h : (c :: rest).IsChain Calm) :
    decrementAt? leads signed (c :: rest) = none := by
  rw [decrementAt?]
  split
  · rfl
  next hlead =>
    have hc : c ∈ leads.toList := by simpa using hlead
    cases rest with
    | nil => simp
    | cons d rest =>
      have hd := (isChain_cons_cons.mp h).1 (hleads c hc)
      simp only [isCalm, Bool.and_eq_true, bne_iff_ne] at hd
      simp [hd.1, hd.2]

lemma decrements_eq_nil {leads : String} (hleads : ∀ c ∈ leads.toList, isLead c = true)
    (signed : Bool) (h : text.IsChain Calm) : decrements leads signed 0 text = [] := by
  induction text with
  | nil => rfl
  | cons c text ih => rw [decrements, decrementAt?_eq_none hleads signed h, ih h.tail]

lemma occursIn_signs (h : text.IsChain Calm) : occursIn ['+', '-'] text = false := by
  induction text with
  | nil => rfl
  | cons c text ih =>
    rw [occursIn, ih h.tail, Bool.or_false]
    cases text with
    | nil => exact Bool.and_false _
    | cons d text =>
      have hd := (isChain_cons_cons.mp h).1
      by_contra hpre
      simp only [Bool.not_eq_false, isPrefixOf, Bool.and_eq_true, beq_iff_eq] at hpre
      rw [← hpre.1, ← hpre.2.1] at hd
      exact absurd (hd rfl) (by decide)

lemma foldDecrements_of_isChain {text : String} (h : text.toList.IsChain Calm) :
    foldDecrements text = text := by
  unfold foldDecrements foldDecrementsIn
  dsimp only
  rw [decrements_eq_nil (by decide) true h, eraseDups_nil, foldl_nil,
    decrements_eq_nil (by decide) false h, eraseDups_nil, foldl_nil,
    replacePassage_of_occursIn _ (occursIn_signs h), String.ofList_toList]

end

/-! ### Settled texts -/

/-- Whether a settled text may start with a character. -/
def isStart (c : Char) : Bool :=
  isLetter c || c == '('

/-- A text in which there is nothing to finish, also when it stands between others. -/
structure Settled (cs : List Char) : Prop where
  head : ∃ c rest, cs = c :: rest ∧ isStart c = true
  last : ∃ init c, cs = init ++ [c] ∧ isLead c = false ∧ isEdge c = false
  chain : cs.IsChain Calm

lemma isCalm_of_isStart {c : Char} (h : isStart c = true) : isCalm c = true := by
  have hzeros : ∀ start ∈ digitZeros, start = 48 ∨ 1632 ≤ start := by decide
  have hbound : (c.toNat < 48 ∨ 58 ≤ c.toNat) ∧ c.toNat < 1632 ∧ c.toNat ≠ 45 := by
    simp only [isStart, isLetter, Bool.or_eq_true, Bool.and_eq_true, decide_eq_true_eq, beq_iff_eq]
      at h
    rcases h with (h | h) | rfl
    · have h1 : 97 ≤ c.toNat := h.1
      have h2 : c.toNat ≤ 122 := h.2
      omega
    · have h1 : 65 ≤ c.toNat := h.1
      have h2 : c.toNat ≤ 90 := h.2
      omega
    · decide
  have hdash : c ≠ '-' := by
    rintro rfl
    exact hbound.2.2 rfl
  have hfind : (digitZeros.find? fun start => start ≤ c.toNat && c.toNat < start + 10) = none := by
    rw [find?_eq_none]
    intro start hstart
    simp only [Bool.and_eq_true, decide_eq_true_eq]
    rcases hzeros start hstart with rfl | hge <;> omega
  simp [isCalm, hdash, digitValue?, hfind]

namespace Settled

variable {a b sep : List Char}

lemma calm_head (h : Settled a) (c : Char) : ∀ d ∈ a.head?, Calm c d := by
  obtain ⟨e, rest, rfl, he⟩ := h.head
  intro d hd _
  rw [head?_cons, Option.mem_some_iff] at hd
  exact hd ▸ isCalm_of_isStart he

lemma calm_last (h : Settled a) (d : Char) : ∀ c ∈ a.getLast?, Calm c d := by
  obtain ⟨init, e, rfl, he, -⟩ := h.last
  intro c hc hlead
  rw [getLast?_concat, Option.mem_some_iff] at hc
  rw [← hc, he] at hlead
  cases hlead

lemma between (ha : Settled a) (hsep : sep.IsChain Calm) (hb : Settled b) :
    Settled (a ++ sep ++ b) where
  head := by
    obtain ⟨c, rest, rfl, hc⟩ := ha.head
    exact ⟨c, rest ++ sep ++ b, by simp, hc⟩
  last := by
    obtain ⟨init, c, rfl, hc⟩ := hb.last
    exact ⟨a ++ sep ++ init, c, by simp, hc⟩
  chain := by
    have hfront : (a ++ sep).IsChain Calm :=
      ha.chain.append hsep fun c hc d _ => ha.calm_last d c hc
    exact hfront.append hb.chain fun c _ d hd => hb.calm_head c d hd

lemma concat (ha : Settled a) (hsep : sep.IsChain Calm)
    (hlast : ∃ init c, sep = init ++ [c] ∧ isLead c = false ∧ isEdge c = false) :
    Settled (a ++ sep) where
  head := by
    obtain ⟨c, rest, rfl, hc⟩ := ha.head
    exact ⟨c, rest ++ sep, by simp, hc⟩
  last := by
    obtain ⟨init, c, rfl, hc⟩ := hlast
    exact ⟨a ++ init, c, by simp, hc⟩
  chain := ha.chain.append hsep fun c hc d _ => ha.calm_last d c hc

lemma group (ha : Settled a) : Settled ('(' :: a ++ [')']) where
  head := ⟨'(', a ++ [')'], rfl, rfl⟩
  last := ⟨'(' :: a, ')', rfl, rfl, rfl⟩
  chain := by
    have hopen : ('(' :: a).IsChain Calm := ha.chain.cons (ha.calm_head '(')
    refine hopen.append (isChain_singleton _) fun c hc d _ => ?_
    obtain ⟨e, rest, rfl, _⟩ := ha.head
    exact ha.calm_last d c hc

lemma stripEdges_eq {text : String} (h : Settled text.toList) : stripEdges text = .ok text := by
  have hstart : ∀ c, isStart c = true → isEdge c = false := by
    intro c hc
    simp only [isEdge, Bool.or_eq_false_iff, beq_eq_false_iff_ne]
    constructor <;> rintro rfl <;> exact absurd hc (by decide)
  unfold stripEdges
  obtain ⟨c, rest, hcs, hc⟩ := h.head
  obtain ⟨init, d, hds, -, hd⟩ := h.last
  have hfirst : (text.toList.dropWhile isEdge) = text.toList := by
    rw [hcs, dropWhile_cons, hstart c hc, if_neg (by decide)]
  have hfinal : (text.toList.reverse.dropWhile isEdge).reverse = text.toList := by
    rw [hds, reverse_append, reverse_singleton, singleton_append,
      dropWhile_cons, hd, if_neg (by decide), reverse_cons, reverse_reverse]
  rw [hcs] at hfirst hfinal
  rw [hcs]
  dsimp only
  rw [hfirst]
  dsimp only
  rw [hfinal, ← hcs, String.ofList_toList]

end Settled

/-! ### Finishing lines -/

variable {lines : List String}

section

variable (h : ∀ line ∈ lines, Settled line.toList)

include h

lemma indentFrom_eq : indentFrom 0 lines = lines := by
  induction lines with
  | nil => rfl
  | cons line lines ih =>
    obtain ⟨c, rest, hcs, hc⟩ := (h line (.head _)).head
    have hstart : ∀ d, isStart d = false → c ≠ d := by
      rintro d hd rfl
      rw [hc] at hd
      cases hd
    have hne : ∀ d ds, isStart d = false →
        (line == String.ofList (d :: ds)) = false := by
      intro d ds hd
      rw [beq_eq_false_iff_ne]
      rintro rfl
      rw [String.toList_ofList] at hcs
      exact hstart d hd (cons.inj hcs).1.symm
    have hclose : closesBrace line = false := by
      have hcomment : (line.toList.take 4 == "\x7d //".toList) = false := by
        rw [hcs, beq_eq_false_iff_ne]
        exact fun heq => hstart '\x7d' rfl (cons.inj heq).1
      rw [closesBrace, hcomment, hne '\x7d' [] rfl, show (line == "\x7d ;") = false from hne '\x7d'
        " ;".toList rfl]
      rfl
    have hopen : (line == "\x7b") = false := hne '\x7b' [] rfl
    rw [indentFrom, hclose, hopen, ih fun l hl => h l (.tail _ hl)]
    exact congrArg (· :: lines) String.empty_append

lemma settled_joinWith (hne : lines ≠ []) : Settled (joinWith "\n" lines).toList := by
  fun_induction joinWith "\n" lines with
  | case1 => exact absurd rfl hne
  | case2 line => exact h line (.head _)
  | case3 line rest hrest ih =>
    have hrest := ih (fun l hl => h l (.tail _ hl)) fun hnil => hrest hnil
    have := (h line (.head _)).between (isChain_singleton '\n') hrest
    simpa using this

/-- Lines that are settled are finished. -/
lemma finish_joinWith (hplain : ∀ line ∈ lines, '\n' ∉ line.toList ∧ '_' ∉ line.toList) :
    finish (joinWith "\n" lines) = .ok (joinWith "\n" lines) := by
  by_cases hne : lines = []
  · subst hne
    decide
  · have hmark : '_' ∉ (joinWith "\n" lines).toList :=
      not_mem_joinWith "\n" (by decide) fun line hline => (hplain line hline).2
    have hsettled := settled_joinWith h hne
    rw [finish, showPercent_of_not_mem hmark, hsettled.stripEdges_eq]
    show Except.ok (indentLines (foldDecrements (joinWith "\n" lines))) = _
    rw [foldDecrements_of_isChain hsettled.chain, indentLines,
      splitText_joinWith hne fun line hline => (hplain line hline).1, indentFrom_eq h]

end

/-! ### Formulas -/

namespace Formula

/-- No blanks around operators, and one blank after each comma. -/
def tight : Spacing :=
  ⟨fun _ => 0, 1⟩

lemma settled_name (n : Unknown) : Settled n.name.chars := by
  have hleads : ∀ c ∈ " ,([+-".toList, isAlnum c = false := by decide
  have hlead : ∀ c ∈ n.name.chars, isLead c = false ∧ isEdge c = false := by
    intro c hc
    have halnum := all_eq_true.mp n.alnum c hc
    constructor
    · rw [Bool.eq_false_iff]
      intro h
      rw [hleads c (contains_iff_mem.mp h)] at halnum
      cases halnum
    · simp only [isEdge, Bool.or_eq_false_iff, beq_eq_false_iff_ne]
      constructor <;> rintro rfl <;> exact absurd halnum (by decide)
  obtain ⟨c, rest, hcs, hc, -⟩ := n.name.exists_chars
  have hne : n.name.chars ≠ [] := by simp [hcs]
  refine ⟨⟨c, rest, hcs, by rw [isStart, hc]; rfl⟩, ?_, ?_⟩
  · exact ⟨_, _, (dropLast_append_getLast hne).symm, hlead _ (getLast_mem hne)⟩
  · -- no character of the name is a lead
    have hchain : ∀ cs : List Char, (∀ c ∈ cs, isLead c = false) → cs.IsChain Calm := by
      intro cs
      induction cs with
      | nil => exact fun _ => isChain_nil
      | cons c cs ih =>
        intro h
        refine (ih fun d hd => h d (.tail _ hd)).cons fun d _ hc => ?_
        rw [h c (.head _)] at hc
        cases hc
    exact hchain _ fun c hc => (hlead c hc).1

variable {es : List Formula}

lemma settled_tailed {a : List Char} (ha : Settled a) (hes : ∀ e ∈ es, Settled (e.text tight)) :
    Settled (a ++ tailed tight es) := by
  induction es generalizing a with
  | nil => rwa [tailed, append_nil]
  | cons e es ih =>
    have hcomma : tight.comma.IsChain Calm := by decide
    have hnext := ha.between hcomma (hes e (.head _))
    have := ih hnext fun d hd => hes d (.tail _ hd)
    rwa [tailed, ← append_assoc, ← append_assoc]

lemma settled_text (e : Formula) : Settled (e.text tight) := by
  induction e using induct with
  | name n => exact settled_name n
  | call f args ih =>
    rw [text, append_assoc]
    cases args with
    | nil => exact (settled_name f).concat (by decide) ⟨['('], ')', rfl, rfl, rfl⟩
    | cons e es =>
      have hjoined := settled_tailed (ih e (.head _)) fun d hd =>
        ih d (.tail _ hd)
      exact (settled_name f).concat hjoined.group.chain hjoined.group.last
  | group e ih => exact ih.group
  | binary op l r ihl ihr => exact ihl.between (by cases op <;> decide) ihr

/-- Whether a character may stand in a formula: it ends no line and is no underscore. -/
def isPlain (c : Char) : Bool :=
  c != '\n' && c != '_'

lemma all_isPlain_chars (n : Unknown) : n.name.chars.all isPlain = true := by
  refine all_eq_true.mpr fun c hc => ?_
  have halnum := all_eq_true.mp n.alnum c hc
  simp only [isPlain, Bool.and_eq_true, bne_iff_ne]
  constructor <;> rintro rfl <;> exact absurd halnum (by decide)

lemma all_isPlain_tailed (hes : ∀ e ∈ es, (e.text tight).all isPlain = true) :
    (tailed tight es).all isPlain = true := by
  induction es with
  | nil => rfl
  | cons e es ih =>
    rw [tailed, all_append, all_append, hes e (.head _), ih fun d hd => hes d (.tail _ hd)]
    decide

lemma all_isPlain_text (e : Formula) : (e.text tight).all isPlain = true := by
  induction e using induct with
  | name n => exact all_isPlain_chars n
  | call f args ih =>
    have hjoined : (joined tight args).all isPlain = true := by
      cases args with
      | nil => rfl
      | cons e es =>
        rw [joined, all_append, ih e (.head _), all_isPlain_tailed fun d hd => ih d (.tail _ hd)]
        rfl
    rw [text, all_append, all_append, all_cons, all_isPlain_chars, hjoined]
    decide
  | group e ih =>
    rw [text, all_append, all_cons, ih]
    decide
  | binary op l r ihl ihr =>
    rw [text, all_append, all_append, ihl, ihr]
    cases op <;> rfl

/-- What is written for a statement that is a formula. -/
def statement (e : Formula) : String :=
  String.ofList (e.text tight) ++ " ;"

lemma finish_statements (es : List Formula) :
    finish (joinWith "\n" (es.map statement)) = .ok (joinWith "\n" (es.map statement)) := by
  have htext : ∀ e : Formula, (statement e).toList = e.text tight ++ [' ', ';'] := by
    simp [statement]
  apply finish_joinWith
  · intro line hline
    obtain ⟨e, -, rfl⟩ := mem_map.mp hline
    rw [htext]
    exact e.settled_text.concat (by decide) ⟨[' '], ';', rfl, rfl, rfl⟩
  · intro line hline
    obtain ⟨e, -, rfl⟩ := mem_map.mp hline
    have hplain : (statement e).toList.all isPlain = true := by
      rw [htext, all_append, e.all_isPlain_text]
      decide
    rw [all_eq_true] at hplain
    exact ⟨fun hmem => absurd (hplain _ hmem) (by decide),
      fun hmem => absurd (hplain _ hmem) (by decide)⟩

end Formula

end ArmaGen
