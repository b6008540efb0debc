import ArmaGen.Proofs.Syntax.Precedence
import ArmaGen.Proofs.Syntax.Statement
import ArmaGen.Rule.ReservedNames

/-!
# Formulas

A formula is an expression as it is written, with no parentheses but those that are written.
`Formula.term` is what it is read as: a layered expression with the same text (`Formula.text_term`,
`Formula.layered_term`), found by taking up operands from left to right (`Term.attach`).
-/

namespace ArmaGen

open List

/-! ### Formulas and their text -/

/-- Whether nothing is known about a name: it is free, not reserved, and not that of a script. -/
def Name.isUnknown (n : Name) : Bool :=
  Structured.isFree n.chars && !reservedNames.contains n.text && n.text != "main"

/-- A name of letters and digits about which nothing is known. -/
structure Unknown where
  name : Name
  /-- It has letters and digits only. -/
  alnum : name.chars.all isAlnum = true
  /-- Nothing is known about it. -/
  unknown : name.isUnknown = true

/-- The operators of formulas. -/
inductive Infix where
  | plus
  | minus
  | mul
  | lt
  | gt
  | le
  | ge
  | eq
deriving Repr, DecidableEq

def Infix.operator : Infix → Operator
  | .plus => .plus
  | .minus => .minus
  | .mul => .mul
  | .lt => .lt
  | .gt => .gt
  | .le => .le
  | .ge => .ge
  | .eq => .eq

inductive Formula where
  | name (n : Unknown)
  | call (f : Unknown) (args : List Formula)
  | group (e : Formula)
  /-- A formula, an operator and another formula. -/
  | binary (op : Infix) (l r : Formula)

namespace Formula

/-- Induction on formulas, where what holds for arguments holds for each of them. -/
lemma induct {P : Formula → Prop} (name : ∀ n, P (.name n))
    (call : ∀ f args, (∀ e ∈ args, P e) → P (.call f args)) (group : ∀ e, P e → P (.group e))
    (binary : ∀ op l r, P l → P r → P (.binary op l r)) : ∀ e, P e :=
  Formula.rec name call group binary (fun _ he => nomatch he)
    fun _ _ hhead htail e he => (mem_cons.mp he).elim (fun h => h ▸ hhead) (htail e)

mutual

def text (sp : Spacing) : Formula → List Char
  | .name n => n.name.chars
  | .call f args => f.name.chars ++ '(' :: joined sp args ++ [')']
  | .group e => '(' :: text sp e ++ [')']
  | .binary op l r => text sp l ++ sp.joint op.operator ++ text sp r

def joined (sp : Spacing) : List Formula → List Char
  | [] => []
  | e :: es => text sp e ++ tailed sp es

def tailed (sp : Spacing) : List Formula → List Char
  | [] => []
  | e :: es => sp.comma ++ text sp e ++ tailed sp es

end

end Formula

/-! ### Taking up operands -/

namespace Term

mutual

/-- An expression with one more operand, which joins the last part that binds as much as its
operator. -/
def attach (op : Operator) (u : Term) : Term → Term
  | .chain q first others =>
    if q.rank < op.rank then .chain q first (attachLast op u others)
    else extend op u (.chain q first others)
  | t => extend op u t

def attachLast (op : Operator) (u : Term) : List Term → List Term
  | [] => []
  | [t] => [attach op u t]
  | t :: t' :: ts => t :: attachLast op u (t' :: ts)

end

variable {sp : Spacing} {op q : Operator} {t u first : Term} {ts others : List Term}

lemma attach_of_lt (h : q.rank < op.rank) :
    attach op u (.chain q first others) = .chain q first (attachLast op u others) := by
  rw [attach, if_pos h]

lemma rank_le_length (op : Operator) : op.rank ≤ Operator.inOrder.length :=
  Nat.le_of_lt (idxOf_lt_length_of_mem op.mem_inOrder)

lemma attach_of_le (h : op.rank ≤ t.level) : attach op u t = extend op u t := by
  cases t with
  | chain q first others => exact (attach.eq_1 ..).trans (if_neg (Nat.not_lt.mpr h))
  | _ => rfl

section

variable (op : Operator) (u t : Term)

lemma level_extend : (extend op u t).level = op.rank := by
  unfold extend
  split
  · split <;> rfl
  · rfl

lemma level_attach : (attach op u t).level = min t.level op.rank := by
  by_cases h : op.rank ≤ t.level
  · rw [attach_of_le h, level_extend, Nat.min_eq_right h]
  · rw [Nat.min_eq_left (by omega)]
    cases t with
    | chain q first others =>
      rw [attach_of_lt (Nat.not_le.mp h)]
      rfl
    | _ => exact absurd (rank_le_length op) h

lemma startsMinus_extend : (extend op u t).startsMinus = t.startsMinus := by
  unfold extend
  split
  · split <;> rfl
  · rfl

lemma startsMinus_attach : (attach op u t).startsMinus = t.startsMinus := by
  by_cases h : op.rank ≤ t.level
  · rw [attach_of_le h, startsMinus_extend]
  · cases t with
    | chain q first others =>
      rw [attach_of_lt (Nat.not_le.mp h)]
      rfl
    | _ => exact absurd (rank_le_length op) h

end

lemma tailed_attachLast (sep : List Char) (hne : ts ≠ [])
    (hts : ∀ t ∈ ts, (attach op u t).text sp = t.text sp ++ sp.joint op ++ u.text sp) :
    tailed sp sep (attachLast op u ts) = tailed sp sep ts ++ sp.joint op ++ u.text sp := by
  induction ts with
  | nil => exact absurd rfl hne
  | cons t ts ih =>
    cases ts with
    | nil =>
      rw [attachLast, tailed, tailed, tailed, tailed, hts t (mem_singleton_self t)]
      simp
    | cons t' ts =>
      rw [attachLast, tailed, tailed, ih (cons_ne_nil _ _) fun v hv =>
        hts v (.tail _ hv)]
      simp

lemma Layered.text_attach {sp' : Spacing} (ht : t.Layered sp') :
    (attach op u t).text sp = t.text sp ++ sp.joint op ++ u.text sp := by
  induction ht with
  | @chain q first others hne _ _ _ _ _ iho =>
    by_cases h : q.rank < op.rank
    · rw [attach_of_lt h, text, text, tailed_attachLast _ hne iho]
      simp
    · rw [attach_of_le (t := .chain q first others) (Nat.not_lt.mp h), text_extend]
  | _ => rw [attach_of_le (rank_le_length op), text_extend]

lemma exists_attachLast (op : Operator) (u : Term) (hne : ts ≠ []) :
    ∃ init last, ts = init ++ [last] ∧ attachLast op u ts = init ++ [attach op u last] := by
  induction ts with
  | nil => exact absurd rfl hne
  | cons t ts ih =>
    cases ts with
    | nil => exact ⟨[], t, rfl, rfl⟩
    | cons t' ts =>
      obtain ⟨init, last, hts, hattach⟩ := ih (cons_ne_nil _ _)
      exact ⟨t :: init, last, by rw [hts]; rfl, by rw [attachLast, hattach]; rfl⟩

variable {init : List Term}

lemma level_of_linked {l : Term} (h : Linked sp q first (init ++ [l])) : q.rank < l.level := by
  induction init generalizing first with
  | nil => exact h.2.1
  | cons t ts ih => exact ih h.2.2

lemma linked_replace {l l' : Term} (h : Linked sp q first (init ++ [l]))
    (hmeet : ∀ a, Meet sp q a l → Meet sp q a l') (hlevel : q.rank < l'.level) :
    Linked sp q first (init ++ [l']) := by
  induction init generalizing first with
  | nil => exact ⟨hmeet first h.1, hlevel, trivial⟩
  | cons t ts ih => exact ⟨h.1, h.2.1, ih h.2.2⟩

/-- What an operand may follow: a sum or difference is recognised there, and no dot is lost. -/
structure Open (sp : Spacing) (t : Term) : Prop where
  layered : t.Layered sp
  ends : t.endsOperand sp = true
  numeral : t.endsNumeral = false

lemma Open.last (h : (Term.chain q first others).Open sp) (hne : others ≠ []) :
    (others.getLast hne).Open sp := by
  have hlast : (first :: others).getLast (by simp) = others.getLast hne :=
    getLast_cons hne
  refine ⟨?_, ?_, ?_⟩
  · cases h.layered with
    | chain _ _ hothers _ _ => exact hothers _ (getLast_mem hne)
  · rw [← hlast, ← endsOperand_chain q]
    exact h.ends
  · rw [← hlast, ← lastNumeral_eq]
    exact h.numeral

lemma Open.layered_attach (ht : t.Open sp) (hu : u.Layered sp) (hlevel : op.rank < u.level)
    (hmeet : ∀ l : Term, l.Open sp → Meet sp op l u) :
    (attach op u t).Layered sp := by
  induction t using induct with
  | chain q first others _ iho =>
    by_cases h : q.rank < op.rank
    · cases ht.layered with
      | chain hne hfirst hothers hrank hlinked =>
        obtain ⟨init, last, rfl, hattach⟩ := exists_attachLast op u hne
        have hlast : last.Open sp := by
          have := ht.last hne
          rwa [getLast_concat] at this
        have hmem : last ∈ init ++ [last] := mem_append_right _ (mem_singleton_self _)
        have hlayered := iho last hmem hlast
        rw [attach_of_lt h, hattach]
        refine .chain (by simp) hfirst ?_ hrank (linked_replace hlinked ?_ ?_)
        · intro v hv
          rcases mem_append.mp hv with hv | hv
          · exact hothers v (mem_append_left _ hv)
          · rwa [mem_singleton.mp hv]
        · intro a ha
          refine ⟨ha.ends, ?_, ?_, ha.dot⟩
          · intro hsign haround
            obtain ⟨c, cs, hc, -⟩ := last.exists_head sp
            have hstart := ha.exponent hsign haround
            rw [startsDigit, hc] at hstart
            rw [startsDigit, hlast.layered.text_attach, hc]
            exact hstart
          · rw [startsMinus_attach]
            exact ha.sign
        · rw [level_attach]
          exact Nat.lt_min.mpr ⟨level_of_linked hlinked, h⟩
    · rw [attach_of_le (t := .chain q first others) (Nat.not_lt.mp h)]
      exact ht.layered.extend hu (Nat.not_lt.mp h) hlevel (hmeet _ ht)
  | _ =>
    exact ht.layered.extend hu (rank_le_length op) hlevel (hmeet _ ht)

lemma endsNumeral_attach {sp' : Spacing} (ht : t.Layered sp') :
    (attach op u t).endsNumeral = u.endsNumeral := by
  by_cases h : op.rank ≤ t.level
  · rw [attach_of_le h, Expr.endsNumeral_extend]
  · induction ht with
    | @chain q first others hne _ hothers _ hlinked _ iho =>
      obtain ⟨init, last, rfl, hattach⟩ := exists_attachLast op u hne
      rw [attach_of_lt (Nat.not_le.mp h), hattach]
      show lastNumeral _ _ = _
      rw [lastNumeral_concat]
      -- the operand goes to the last part, or makes a chain with it
      by_cases hlast : op.rank ≤ last.level
      · rw [attach_of_le hlast, Expr.endsNumeral_extend]
      · exact iho last (by simp) hlast
    | _ => exact absurd (rank_le_length op) h

lemma Open.attach (ht : t.Open sp) (hu : u.Open sp) (hlevel : op.rank < u.level)
    (hmeet : ∀ l : Term, l.Open sp → Meet sp op l u) :
    (attach op u t).Open sp := by
  refine ⟨ht.layered_attach hu.layered hlevel hmeet, ?_, ?_⟩
  · rw [endsOperand, ht.layered.text_attach, getLast?_append,
      getLast?_eq_some_getLast (text_ne_nil sp u), Option.some_or,
      ← getLast?_eq_some_getLast (text_ne_nil sp u)]
    exact hu.ends
  · rw [endsNumeral_attach ht.layered, hu.numeral]

end Term

/-! ### Expressions that are written as they are read -/

/-- Whether nodes of an operator are written with the same symbol. -/
def Operator.isKept : Operator → Bool
  | .plus | .minus | .mul | .lt | .gt | .le | .ge | .eq => true
  | _ => false

namespace Term

/-- Expressions of names about which nothing is known and operators that keep their symbol. -/
inductive Kept : Term → Prop where
  | name {n : Name} (hn : n.isUnknown = true) : Kept (.name n)
  | call {f : Name} {args : List Term} (hf : f.isUnknown = true) (hargs : ∀ t ∈ args, Kept t) :
      Kept (.call f args)
  | paren {t : Term} (ht : Kept t) : Kept (.paren t)
  | chain {op : Operator} {first : Term} {others : List Term} (hop : op.isKept = true)
      (hfirst : Kept first) (hothers : ∀ t ∈ others, Kept t) : Kept (.chain op first others)

variable {op : Operator} {t u : Term}

lemma Kept.extend (ht : t.Kept) (hop : op.isKept = true) (hu : u.Kept) : (extend op u t).Kept := by
  have hpair : (Term.chain op t [u]).Kept := by
    refine .chain hop ht ?_
    intro v hv
    rwa [mem_singleton.mp hv]
  cases ht with
  | @chain q first others hq hfirst hothers =>
    rw [extend]
    split
    · refine .chain hop hfirst ?_
      intro v hv
      rcases mem_append.mp hv with hv | hv
      · exact hothers v hv
      · rwa [mem_singleton.mp hv]
    · exact hpair
  | _ => exact hpair

lemma Kept.attach (ht : t.Kept) (hop : op.isKept = true) (hu : u.Kept) : (attach op u t).Kept := by
  by_cases h : op.rank ≤ t.level
  · rw [attach_of_le h]
    exact ht.extend hop hu
  · induction ht with
    | @chain q first others hq hfirst hothers _ iho =>
      rw [attach_of_lt (Nat.not_le.mp h)]
      refine .chain hq hfirst ?_
      by_cases hne : others = []
      · subst hne
        exact fun v hv => nomatch hv
      obtain ⟨init, last, rfl, hattach⟩ := exists_attachLast op u hne
      rw [hattach]
      intro v hv
      rcases mem_append.mp hv with hv | hv
      · exact hothers v (mem_append_left _ hv)
      · rw [mem_singleton.mp hv]
        by_cases hlast : op.rank ≤ last.level
        · rw [attach_of_le hlast]
          exact (hothers last (by simp)).extend hop hu
        · exact iho last (by simp) hlast
    | _ => exact absurd (rank_le_length op) h

end Term

/-! ### What formulas are read as -/

namespace Formula

open Term (attach)

/-- The expression of a first operand and further ones with their operators. -/
def grouped (pieces : Term × List (Operator × Term)) : Term :=
  pieces.2.foldl (fun t piece => attach piece.1 piece.2 t) pieces.1

mutual

def pieces : Formula → Term × List (Operator × Term)
  | .name n => (.name n.name, [])
  | .call f args => (.call f.name (terms args), [])
  | .group e => (.paren (grouped (pieces e)), [])
  | .binary op l r =>
    ((pieces l).1, (pieces l).2 ++ (op.operator, (pieces r).1) :: (pieces r).2)

def terms : List Formula → List Term
  | [] => []
  | e :: es => grouped (pieces e) :: terms es

end

def term (e : Formula) : Term :=
  grouped e.pieces

/-- One blank on both sides of each operator, and so many blanks after a comma. -/
def spaced (w : Nat) : Spacing :=
  ⟨fun _ => 1, w⟩

structure IsOperand (w : Nat) (t : Term) : Prop where
  kept : t.Kept
  isOpen : t.Open (spaced w)
  primary : t.isPrimary = true

/-- A formula with operands of which something holds. -/
structure IsPieces (w : Nat) (pieces : Term × List (Operator × Term)) : Prop where
  first : IsOperand w pieces.1
  others : ∀ piece ∈ pieces.2, piece.1.isKept = true ∧ IsOperand w piece.2

variable {w : Nat} {ps : Term × List (Operator × Term)}

lemma level_of_isPrimary {t : Term} (h : t.isPrimary = true) :
    t.level = Operator.inOrder.length := by
  cases t <;> first | rfl | cases h

lemma meet_operand {op : Operator} {l u : Term} (hl : l.Open (spaced w))
    (hu : u.isPrimary = true) : Term.Meet (spaced w) op l u := by
  refine ⟨fun _ => hl.ends, fun _ h => absurd h Nat.one_ne_zero, fun _ h => ?_, fun h _ => ?_⟩
  · rw [Term.startsMinus_of_isPrimary hu] at h
    cases h
  · rw [hl.numeral] at h
    cases h

lemma IsPieces.grouped (h : IsPieces w ps) :
    (grouped ps).Kept ∧ (grouped ps).Open (spaced w) ∧ ∀ sp : Spacing, (grouped ps).text sp =
      ps.1.text sp ++ ps.2.flatMap fun piece => sp.joint piece.1 ++ piece.2.text sp := by
  obtain ⟨first, others⟩ := ps
  have hkept := h.first.kept
  have hopen := h.first.isOpen
  replace h := h.others
  -- what has been taken up so far is open for the next operand
  unfold Formula.grouped
  induction others generalizing first with
  | nil => exact ⟨hkept, hopen, fun sp => by simp⟩
  | cons piece others ih =>
    obtain ⟨hop, hu⟩ := h piece (.head _)
    have hlt : piece.1.rank < piece.2.level := by
      rw [level_of_isPrimary hu.primary]
      exact idxOf_lt_length_of_mem piece.1.mem_inOrder
    have hattach := hopen.attach hu.isOpen hlt fun l hl => meet_operand hl hu.primary
    obtain ⟨hk, ho, htext⟩ := ih (attach piece.1 piece.2 first) (hkept.attach hop hu.kept) hattach
      fun other hother => h other (.tail _ hother)
    refine ⟨hk, ho, fun sp => ?_⟩
    rw [foldl_cons, htext, hopen.layered.text_attach]
    simp

lemma isVariable_of_isUnknown {n : Name} (h : n.isUnknown = true) : n.isVariable = true := by
  have hfree : Structured.isFree n.chars = true := by
    simp only [Name.isUnknown, Bool.and_eq_true] at h
    exact h.1.1
  exact (Structured.Ident.mk n hfree).isVariable

lemma endsOperand_chars (n : Unknown) (sp : Spacing) :
    (Term.name n.name).endsOperand sp = true := by
  obtain ⟨c, cs, hc, -⟩ := n.name.exists_chars
  have hne : n.name.chars ≠ [] := by simp [hc]
  have hlast := all_eq_true.mp n.alnum _ (getLast_mem hne)
  rw [Term.endsOperand, Term.text, getLast?_eq_some_getLast hne]
  show endsOperand _ = true
  rw [endsOperand, hlast, Bool.true_or]

lemma terms_eq_map (es : List Formula) : terms es = es.map term := by
  induction es with
  | nil => rfl
  | cons e es ih =>
    rw [terms, ih]
    rfl

lemma isPieces_pieces (w : Nat) (e : Formula) : IsPieces w e.pieces := by
  induction e using induct with
  | name n =>
    refine ⟨⟨.name n.unknown, ⟨.name (isVariable_of_isUnknown n.unknown), ?_, rfl⟩, rfl⟩,
      fun _ h => absurd h not_mem_nil⟩
    exact endsOperand_chars n _
  | call f args ih =>
    have hargs : ∀ t ∈ terms args, t.Kept ∧ t.Open (spaced w) := by
      rw [terms_eq_map]
      intro t ht
      obtain ⟨e, he, rfl⟩ := mem_map.mp ht
      exact ⟨(ih e he).grouped.1, (ih e he).grouped.2.1⟩
    refine ⟨⟨.call f.unknown fun t ht => (hargs t ht).1, ⟨.call (isVariable_of_isUnknown f.unknown)
      fun t ht => (hargs t ht).2.layered, ?_, rfl⟩, rfl⟩, fun _ h => absurd h not_mem_nil⟩
    rw [pieces, Term.endsOperand, Term.text, getLast?_append]
    rfl
  | group e ih =>
    obtain ⟨hkept, hopen, -⟩ := ih.grouped
    refine ⟨⟨.paren hkept, ⟨.paren hopen.layered, ?_, rfl⟩, rfl⟩, fun _ h => absurd h not_mem_nil⟩
    rw [pieces, Term.endsOperand, Term.text, getLast?_append]
    rfl
  | binary op l r ihl ihr =>
    refine ⟨ihl.first, ?_⟩
    intro piece hpiece
    rcases mem_append.mp hpiece with hpiece | hpiece
    · exact ihl.others piece hpiece
    rcases mem_cons.mp hpiece with rfl | hpiece
    · exact ⟨by cases op <;> rfl, ihr.first⟩
    · exact ihr.others piece hpiece

lemma kept_term (e : Formula) : e.term.Kept :=
  (isPieces_pieces 0 e).grouped.1

lemma layered_term (w : Nat) (e : Formula) : e.term.Layered (spaced w) :=
  (isPieces_pieces w e).grouped.2.1.layered

lemma text_term_eq (sp : Spacing) (e : Formula) : e.term.text sp =
    e.pieces.1.text sp ++ e.pieces.2.flatMap fun piece => sp.joint piece.1 ++ piece.2.text sp :=
  (isPieces_pieces 0 e).grouped.2.2 sp

lemma tailed_terms {sp : Spacing} {es : List Formula} (hes : ∀ e ∈ es, e.term.text sp = e.text sp) :
    Term.tailed sp sp.comma (terms es) = tailed sp es := by
  induction es with
  | nil => rfl
  | cons e es ih =>
    rw [terms, Term.tailed, tailed, ih fun d hd => hes d (.tail _ hd), ← hes e (.head _)]
    rfl

lemma text_term (sp : Spacing) (e : Formula) : e.term.text sp = e.text sp := by
  induction e using induct with
  | name n => rfl
  | call f args ih =>
    have hjoined : Term.joined sp (terms args) = joined sp args := by
      cases args with
      | nil => rfl
      | cons e es =>
        rw [terms, Term.joined, joined, tailed_terms fun d hd => ih d (.tail _ hd),
          ← ih e (.head _)]
        rfl
    rw [text, ← hjoined]
    rfl
  | group e ih =>
    rw [text, ← ih]
    rfl
  | binary op l r ihl ihr =>
    rw [text, ← ihl, ← ihr, text_term_eq, text_term_eq, text_term_eq, pieces, flatMap_append]
    simp

end Formula

end ArmaGen
