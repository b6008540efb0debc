import ArmaGen.Proofs.Syntax.Unparse

/-!
# Precedence

An `Expr` is an expression as it is meant: operators with two operands, signs and quotes. It is
written with the parentheses that a `Precedence` asks for (`Expr.text`). A syntax tree denotes such
an expression; a node with several operands denotes the chain of its operator, nested to the left
(`Syntax.denote`). Expressions are read by the precedence `stepwise`: quotes bind more than signs,
signs more than all operators, and each operator is a level of its own
(`Expr.exists_denoting_tree`). By the precedence that is common for matrices they are not
(`Expr.conventional_misread`). Some texts are left out (`Expr.isClear`): a sum or
difference is not recognised after a quote or an underscore, a minus sign after an operator that
binds more than a difference is taken for one, and what is transposed twice is no expression.
-/

namespace ArmaGen

open Syntax Operator

/-- An expression as it is meant. -/
inductive Expr where
  | name (n : Name)
  /-- An expression in parentheses that it may not need. -/
  | group (e : Expr)
  | neg (e : Expr)
  | not (e : Expr)
  | transpose (e : Expr)
  | ctranspose (e : Expr)
  | binary (op : Operator) (l r : Expr)
deriving DecidableEq

/-- How much operators, signs and quotes bind. -/
structure Precedence where
  operator : Operator → Nat
  sign : Nat
  quote : Nat

namespace Precedence

/-- Operators that are levels of their own, below signs and quotes. -/
def stepwise : Precedence where
  operator := rank
  sign := inOrder.length
  quote := inOrder.length + 1

/-- The precedence that is common for matrices. -/
def conventional : Precedence where
  operator
    | .lor => 0
    | .land => 1
    | .bor => 2
    | .band => 3
    | .ne | .eq | .ge | .gt | .le | .lt => 4
    | .colon => 5
    | .plus | .minus => 6
    | .elmul | .mul | .elementDivision | .matrixDivision | .leftElementDivision
    | .leftMatrixDivision => 7
    | .elexp | .exp => 9
  sign := 8
  quote := 9

end Precedence

/-! ### Texts -/

def bracketed (b : Bool) (cs : List Char) : List Char :=
  if b then '(' :: cs ++ [')'] else cs

/-- Whether a text starts with a minus sign, behind tildes or not. -/
def leadsMinus : List Char → Bool
  | [] => false
  | c :: cs => if c = '~' then leadsMinus cs else c == '-'

namespace Expr

def level (P : Precedence) : Expr → Nat
  | .name _ | .group _ => P.quote + 1
  | .neg _ | .not _ => P.sign
  | .transpose _ | .ctranspose _ => P.quote
  | .binary op _ _ => P.operator op

def text (P : Precedence) (sp : Spacing) : Expr → List Char
  | .name n => n.chars
  | .group e => bracketed true (e.text P sp)
  | .neg e => '-' :: bracketed (e.level P < P.sign) (e.text P sp)
  | .not e => '~' :: bracketed (e.level P < P.sign) (e.text P sp)
  | .transpose e => bracketed (e.level P < P.quote) (e.text P sp) ++ ['.', '\'']
  | .ctranspose e => bracketed (e.level P < P.quote) (e.text P sp) ++ ['\'']
  | .binary op l r =>
    bracketed (l.level P < P.operator op) (l.text P sp) ++ sp.joint op ++
      bracketed (r.level P ≤ P.operator op) (r.text P sp)

def ungrouped : Expr → Expr
  | .name n => .name n
  | .group e => e.ungrouped
  | .neg e => .neg e.ungrouped
  | .not e => .not e.ungrouped
  | .transpose e => .transpose e.ungrouped
  | .ctranspose e => .ctranspose e.ungrouped
  | .binary op l r => .binary op l.ungrouped r.ungrouped

def isQuoted : Expr → Bool
  | .transpose _ | .ctranspose _ => true
  | _ => false

/-- Whether a quote after an expression would start a text after the keyword `case`. -/
def endsCase : Expr → Bool
  | .name n => "case".toList.isSuffixOf n.chars
  | _ => false

/-- Whether the operators of an expression are recognised where they stand. -/
def isClear (sp : Spacing) : Expr → Bool
  | .name n => n.isVariable
  | .group e | .neg e | .not e => e.isClear sp
  | .transpose e => e.isClear sp && !e.isQuoted
  | .ctranspose e => e.isClear sp && !e.isQuoted && !e.endsCase
  | .binary op l r =>
    l.isClear sp && r.isClear sp &&
      (!op.isSign ||
        (bracketed (l.level .stepwise < op.rank) (l.text .stepwise sp)).getLast?.any endsOperand) &&
      (op.rank < minus.rank ||
        !leadsMinus (bracketed (r.level .stepwise ≤ op.rank) (r.text .stepwise sp)))

end Expr

/-! ### What trees denote -/

/-- The expression of a node, by the expressions of the nodes below it. -/
def Expr.combine (kind : Kind) (name : String) (es : List Expr) : Option Expr :=
  match kind, es with
  | .var, [] => if h : isName name.toList = true then some (.name ⟨name.toList, h⟩) else none
  | .paren, [e] => some e
  | .neg, [e] => some (.neg e)
  | .not, [e] => some (.not e)
  | .transpose, [e] => some (.transpose e)
  | .ctranspose, [e] => some (.ctranspose e)
  | kind, e :: es =>
    (inOrder.find? (·.kind == kind)).map fun op => es.foldl (.binary op) e
  | _, [] => none

mutual

/-- The expression that a tree denotes, if it denotes one. -/
def Syntax.denote : Syntax → Option Expr
  | .declare => none
  | .node head items => (denoteAll items).bind (Expr.combine head.kind head.name)

def Syntax.denoteAll : List Syntax → Option (List Expr)
  | [] => some []
  | item :: rest =>
    (denote item).bind fun e => (denoteAll rest).map (e :: ·)

end

lemma Expr.combine_operator (op : Operator) (name : String) (e : Expr) (es : List Expr) :
    combine op.kind name (e :: es) = some (es.foldl (.binary op) e) := by
  cases es <;> cases op <;> rfl

namespace Term

variable {sp : Spacing} {op : Operator} {l r t first : Term} {others ts : List Term} {a b : Expr}

/-- The tree of a term denotes an expression, wherever it stands. -/
def Denotes (sp : Spacing) (t : Term) (e : Expr) : Prop :=
  ∀ k, (t.tree sp k).denote = some e

lemma denoteAll_trees_concat {gap : Nat} {k : Int} {as : List Expr}
    (hts : denoteAll (trees sp gap k ts) = some as) (hr : r.Denotes sp b) :
    denoteAll (trees sp gap k (ts ++ [r])) = some (as ++ [b]) := by
  induction ts generalizing k as with
  | nil =>
    obtain rfl : [] = as := Option.some.inj hts
    rw [List.nil_append, trees, trees, denoteAll, hr k, denoteAll]
    rfl
  | cons t ts ih =>
    rw [trees, denoteAll, Option.bind_eq_some_iff] at hts
    obtain ⟨e, he, hrest⟩ := hts
    obtain ⟨es, hes, rfl⟩ := Option.map_eq_some_iff.mp hrest
    rw [List.cons_append, trees, denoteAll, he, Option.bind_some, ih hes]
    rfl

lemma denote_chain (k : Int) : ((Term.chain op first others).tree sp k).denote =
    (denoteAll (trees sp (sp.joint op).length k (first :: others))).bind
      (Expr.combine op.kind "") := by
  rfl

lemma denotes_pair (hl : l.Denotes sp a) (hr : r.Denotes sp b) :
    (Term.chain op l [r]).Denotes sp (.binary op a b) := by
  intro k
  rw [denote_chain, trees, denoteAll, hl k, trees, trees, denoteAll, hr, denoteAll]
  exact Expr.combine_operator op "" a [b]

lemma denotes_concat (hl : (Term.chain op first others).Denotes sp a) (hr : r.Denotes sp b) :
    (Term.chain op first (others ++ [r])).Denotes sp (.binary op a b) := by
  intro k
  have hk := hl k
  rw [denote_chain, Option.bind_eq_some_iff] at hk
  obtain ⟨as, has, hcombine⟩ := hk
  rw [denote_chain, ← List.cons_append, denoteAll_trees_concat has hr, Option.bind_some]
  -- the chain has a first operand, with which the operations start
  cases as with
  | nil =>
    rw [trees, denoteAll, Option.bind_eq_some_iff] at has
    obtain ⟨e, -, hrest⟩ := has
    obtain ⟨es, -, h⟩ := Option.map_eq_some_iff.mp hrest
    cases h
  | cons e es =>
    rw [Expr.combine_operator] at hcombine
    rw [List.cons_append, Expr.combine_operator, List.foldl_append, Option.some.inj hcombine]
    rfl

/-! ### Terms of expressions -/

def wrapped (b : Bool) (t : Term) : Term :=
  if b then .paren t else t

/-- An operation as a chain: one more operand for a chain of the same operator. -/
def extend (op : Operator) (r : Term) : Term → Term
  | .chain q first others =>
    if q = op then .chain op first (others ++ [r]) else .chain op (.chain q first others) [r]
  | l => .chain op l [r]

lemma denotes_wrapped {x : Bool} (ht : t.Denotes sp a) : (wrapped x t).Denotes sp a := by
  cases x with
  | false => exact ht
  | true =>
    intro k
    rw [wrapped, if_pos rfl, tree, denote, denoteAll, ht, denoteAll]
    rfl

lemma denotes_extend (hl : l.Denotes sp a) (hr : r.Denotes sp b) :
    (extend op r l).Denotes sp (.binary op a b) := by
  unfold extend
  split
  case h_1 q first others =>
    split
    case isTrue h =>
      subst h
      exact denotes_concat hl hr
    case isFalse => exact denotes_pair hl hr
  case h_2 => exact denotes_pair hl hr

lemma text_wrapped (x : Bool) (t : Term) :
    (wrapped x t).text sp = ArmaGen.bracketed x (t.text sp) := by
  cases x <;> rfl

lemma tailed_append (sp : Spacing) (sep : List Char) (ts us : List Term) :
    tailed sp sep (ts ++ us) = tailed sp sep ts ++ tailed sp sep us := by
  induction ts with
  | nil => rfl
  | cons t ts ih =>
    rw [List.cons_append, tailed, tailed, ih]
    simp

lemma text_pair (sp : Spacing) (op : Operator) (l r : Term) :
    (Term.chain op l [r]).text sp = l.text sp ++ sp.joint op ++ r.text sp := by
  rw [text, tailed, tailed, List.append_nil, List.append_assoc]

lemma text_extend (sp : Spacing) (op : Operator) (l r : Term) :
    (extend op r l).text sp = l.text sp ++ sp.joint op ++ r.text sp := by
  unfold extend
  split
  case h_1 q first others =>
    split
    case isTrue h =>
      subst h
      rw [text, text, tailed_append, tailed, tailed]
      simp
    case isFalse => exact text_pair ..
  case h_2 => exact text_pair ..

/-! ### Layered terms -/

lemma rank_injective : Function.Injective rank := by
  intro p q h
  cases p <;> cases q <;> first | rfl | exact absurd h (by decide)

lemma exists_text_last (sp : Spacing) (sep : List Char) (first : Term) (others : List Term) :
    ∃ cs, first.text sp ++ tailed sp sep others =
      cs ++ ((first :: others).getLast (by simp)).text sp := by
  induction others generalizing first with
  | nil => exact ⟨[], by simp [tailed]⟩
  | cons t ts ih =>
    obtain ⟨cs, hcs⟩ := ih t
    refine ⟨first.text sp ++ sep ++ cs, ?_⟩
    rw [List.getLast_cons_cons, List.append_assoc, ← hcs, tailed]
    simp

lemma endsOperand_chain (op : Operator) (first : Term) (others : List Term) :
    (Term.chain op first others).endsOperand sp =
    ((first :: others).getLast (by simp)).endsOperand sp := by
  obtain ⟨cs, hcs⟩ := exists_text_last sp (sp.joint op) first others
  rw [endsOperand, endsOperand, text, hcs, List.getLast?_append,
    List.getLast?_eq_some_getLast (text_ne_nil sp _), Option.some_or]

lemma lastNumeral_eq (first : Term) (others : List Term) :
    lastNumeral first.endsNumeral others = ((first :: others).getLast (by simp)).endsNumeral := by
  induction others generalizing first with
  | nil => rfl
  | cons t ts ih => rw [lastNumeral, ih, List.getLast_cons_cons]

lemma lastNumeral_concat (known : Bool) (ts : List Term) (r : Term) :
    lastNumeral known (ts ++ [r]) = r.endsNumeral := by
  induction ts generalizing known with
  | nil => rfl
  | cons t _ ih => exact ih _

lemma meet_last (hmeet : Meet sp op (.chain op first others) r) :
    Meet sp op ((first :: others).getLast (by simp)) r := by
  refine ⟨fun h => ?_, hmeet.exponent, fun h hr => ?_, fun h => ?_⟩
  · rw [← endsOperand_chain op]
    exact hmeet.ends h
  · rw [← endsOperand_chain op]
    exact hmeet.sign h hr
  · rw [← lastNumeral_eq] at h
    exact hmeet.dot h

lemma linked_concat (hlinked : Linked sp op first others)
    (hmeet : Meet sp op ((first :: others).getLast (by simp)) r) (hlevel : op.rank < r.level) :
    Linked sp op first (others ++ [r]) := by
  induction others generalizing first with
  | nil => exact ⟨hmeet, hlevel, trivial⟩
  | cons t ts ih =>
    obtain ⟨ht, htlevel, hts⟩ := hlinked
    exact ⟨ht, htlevel, ih hts (by rwa [List.getLast_cons_cons] at hmeet)⟩

lemma Layered.extend (hl : l.Layered sp) (hr : r.Layered sp) (hlevel : op.rank ≤ l.level)
    (hrlevel : op.rank < r.level) (hmeet : Meet sp op l r) : (extend op r l).Layered sp := by
  have hpair : op.rank < l.level → (Term.chain op l [r]).Layered sp := by
    intro h
    refine .chain (by simp) hl ?_ h ⟨hmeet, hrlevel, trivial⟩
    intro t ht
    rwa [List.mem_singleton.mp ht]
  unfold Term.extend
  split
  case h_1 q first others =>
    split
    case isTrue h =>
      subst h
      cases hl with
      | chain hne hfirst hothers hrank hlinked =>
        refine .chain (by simp) hfirst ?_ hrank (linked_concat hlinked (meet_last hmeet) hrlevel)
        intro t ht
        rcases List.mem_append.mp ht with ht | ht
        · exact hothers t ht
        · rwa [List.mem_singleton.mp ht]
    case isFalse h =>
      refine hpair (Nat.lt_of_le_of_ne hlevel fun heq => h ?_)
      exact (rank_injective heq).symm
  case h_2 hchain =>
    refine hpair ?_
    cases l with
    | chain q first others => exact absurd rfl (hchain q first others)
    | _ => exact List.idxOf_lt_length_of_mem op.mem_inOrder

end Term

namespace Expr

open Term

variable {sp : Spacing} {e : Expr}

def term : Expr → Term
  | .name n => .name n
  | .group e => .paren e.term
  | .neg e => .neg (wrapped (e.level .stepwise < Precedence.stepwise.sign) e.term)
  | .not e => .not (wrapped (e.level .stepwise < Precedence.stepwise.sign) e.term)
  | .transpose e => .transpose (wrapped (e.level .stepwise < Precedence.stepwise.quote) e.term)
  | .ctranspose e => .ctranspose (wrapped (e.level .stepwise < Precedence.stepwise.quote) e.term)
  | .binary op l r =>
    extend op (wrapped (r.level .stepwise ≤ op.rank) r.term)
      (wrapped (l.level .stepwise < op.rank) l.term)

lemma text_term (sp : Spacing) (e : Expr) : e.term.text sp = e.text .stepwise sp := by
  induction e with
  | name n => rfl
  | group e ih => rw [term, Term.text, ih]; rfl
  | neg e ih | not e ih | transpose e ih | ctranspose e ih =>
    rw [term, Term.text, text_wrapped, ih]
    rfl
  | binary op l r ihl ihr =>
    rw [term, text_extend, text_wrapped, text_wrapped, ihl, ihr]
    rfl

lemma denotes_term (sp : Spacing) (e : Expr) : e.term.Denotes sp e.ungrouped := by
  induction e with
  | name n =>
    intro k
    rw [term, tree, denote, denoteAll, Option.bind_some]
    simp [combine, head, Name.text, n.spelled, ungrouped]
  | group e ih =>
    exact denotes_wrapped (x := true) ih
  | neg e ih | not e ih | transpose e ih | ctranspose e ih =>
    intro k
    rw [term, tree, denote, denoteAll, denotes_wrapped ih, denoteAll]
    rfl
  | binary op l r ihl ihr => exact denotes_extend (denotes_wrapped ihl) (denotes_wrapped ihr)

lemma level_term_binary (op : Operator) (l r : Expr) : (binary op l r).term.level = op.rank := by
  unfold term extend
  split
  · split <;> rfl
  · rfl

variable {x : Bool} {op : Operator}

lemma le_level_wrapped {n : Nat} (e : Expr) (hn : n ≤ inOrder.length)
    (h : x = false → n ≤ e.level .stepwise) : n ≤ (wrapped x e.term).level := by
  cases x with
  | true => exact hn
  | false =>
    cases e with
    | binary op l r =>
      show n ≤ (binary op l r).term.level
      rw [level_term_binary]
      exact h rfl
    | _ => exact hn

lemma wrapped_binary {l r : Expr} {n : Nat} (t : Term) (hn : inOrder.length ≤ n) :
    wrapped ((binary op l r).level .stepwise < n) t = .paren t := by
  have hlt : op.rank < inOrder.length := List.idxOf_lt_length_of_mem op.mem_inOrder
  have hx : decide ((binary op l r).level .stepwise < n) = true :=
    decide_eq_true (Nat.lt_of_lt_of_le hlt hn)
  rw [wrapped, if_pos hx]

lemma isChain_wrapped (e : Expr) :
    (wrapped (e.level .stepwise < Precedence.stepwise.sign) e.term).isChain = false := by
  cases e with
  | binary op l r =>
    rw [wrapped_binary _ (show _ ≤ Precedence.stepwise.sign from .refl)]
    rfl
  | _ => rfl

lemma takesDot_wrapped (e : Expr) (h : e.isQuoted = false) :
    (wrapped (e.level .stepwise < Precedence.stepwise.quote) e.term).takesDot = true := by
  cases e with
  | binary op l r =>
    rw [wrapped_binary _ (show _ ≤ Precedence.stepwise.quote from Nat.le_succ _)]
    rfl
  | transpose | ctranspose => cases h
  | _ => rfl

lemma takesQuote_wrapped (e : Expr) (h : e.isQuoted = false) (hcase : e.endsCase = false) :
    (wrapped (e.level .stepwise < Precedence.stepwise.quote) e.term).takesQuote = true := by
  cases e with
  | name n =>
    show (!"case".toList.isSuffixOf n.chars) = true
    rw [show "case".toList.isSuffixOf n.chars = false from hcase]
    rfl
  | binary op l r =>
    rw [wrapped_binary _ (show _ ≤ Precedence.stepwise.quote from Nat.le_succ _)]
    rfl
  | transpose | ctranspose => cases h
  | _ => rfl

lemma startsDigit_extend {l r : Term} : (extend op r l).startsDigit sp = l.startsDigit sp := by
  obtain ⟨c, cs, hc, -⟩ := l.exists_head sp
  rw [startsDigit, startsDigit, text_extend, hc]
  rfl

lemma endsNumeral_extend {l r : Term} : (extend op r l).endsNumeral = r.endsNumeral := by
  unfold extend
  split
  · split
    · exact lastNumeral_concat ..
    · rfl
  · rfl

lemma startsDigit_wrapped {t : Term} (h : t.startsDigit sp = false) :
    (wrapped x t).startsDigit sp = false := by
  cases x with
  | false => exact h
  | true => rfl

lemma startsDigit_term (sp : Spacing) (e : Expr) : e.term.startsDigit sp = false := by
  induction e with
  | name n =>
    obtain ⟨c, cs, hc, hletter, -⟩ := n.exists_chars
    rw [startsDigit, term, Term.text, hc]
    exact isDigit_eq_false_of_isLetter hletter
  | group | neg | not => rfl
  | transpose e ih | ctranspose e ih =>
    obtain ⟨c, cs, hc, -⟩ :=
      (wrapped (e.level .stepwise < Precedence.stepwise.quote) e.term).exists_head sp
    have h := startsDigit_wrapped (x := e.level .stepwise < Precedence.stepwise.quote) ih
    rw [startsDigit, hc] at h
    rw [startsDigit, term, Term.text, hc]
    exact h
  | binary op l r ihl => rw [term, startsDigit_extend, startsDigit_wrapped ihl]

lemma endsNumeral_wrapped {t : Term} (h : t.endsNumeral = false) :
    (wrapped x t).endsNumeral = false := by
  cases x with
  | false => exact h
  | true => rfl

lemma endsNumeral_term (e : Expr) : e.term.endsNumeral = false := by
  induction e with
  | name | group | transpose | ctranspose => rfl
  | neg e ih | not e ih => exact endsNumeral_wrapped ih
  | binary op l r _ ihr => rw [term, endsNumeral_extend, endsNumeral_wrapped ihr]

end Expr

/-! ### Signs -/

lemma leadsMinus_append {cs ds : List Char} (h : ∃ c ∈ cs, c ≠ '~') :
    leadsMinus (cs ++ ds) = leadsMinus cs := by
  induction cs with
  | nil =>
    obtain ⟨c, hc, -⟩ := h
    cases hc
  | cons c cs ih =>
    rw [List.cons_append, leadsMinus, leadsMinus]
    split
    case isTrue htilde =>
      apply ih
      obtain ⟨d, hd, hne⟩ := h
      rcases List.mem_cons.mp hd with rfl | hd
      · exact absurd htilde hne
      · exact ⟨d, hd, hne⟩
    case isFalse => rfl

namespace Term

variable {sp : Spacing} {t : Term}

lemma exists_mem_text_ne (sp : Spacing) (t : Term) : ∃ c ∈ t.text sp, c ≠ '~' := by
  obtain ⟨cs, c, h, hc⟩ := t.exists_last sp
  exact ⟨c, by simp [h], ne_of_class hc rfl⟩

lemma leadsMinus_of_isPrimary (hp : t.isPrimary = true) : leadsMinus (t.text sp) = false := by
  obtain ⟨c, cs, h, hminus, htilde⟩ := Parse.exists_head_of_isPrimary sp hp
  rw [h, leadsMinus, if_neg htilde, beq_eq_false_iff_ne]
  exact hminus

lemma Layered.leadsMinus_text (ht : t.Layered sp) : leadsMinus (t.text sp) = t.startsMinus := by
  induction ht with
  | name | numeral | call | paren => exact leadsMinus_of_isPrimary rfl
  | neg => rfl
  | not _ _ ih =>
    rw [text, leadsMinus, if_pos rfl, ih]
    rfl
  | transpose _ hq =>
    rw [text, leadsMinus_append (exists_mem_text_ne ..)]
    exact leadsMinus_of_isPrimary (isPrimary_of_takesDot hq)
  | ctranspose _ hq =>
    rw [text, leadsMinus_append (exists_mem_text_ne ..)]
    exact leadsMinus_of_isPrimary (isPrimary_of_takesQuote hq)
  | chain _ _ _ _ _ ih =>
    rw [text, leadsMinus_append (exists_mem_text_ne ..), ih]
    rfl

end Term

namespace Expr

open Term

variable {sp : Spacing}

lemma layered_wrapped {x : Bool} {t : Term} (h : t.Layered sp) : (wrapped x t).Layered sp := by
  cases x with
  | false => exact h
  | true => exact .paren h

lemma layered_term (e : Expr) (h : e.isClear sp = true) : e.term.Layered sp := by
  induction e with
  | name n => exact .name h
  | group e ih => exact .paren (ih h)
  | neg e ih => exact .neg (layered_wrapped (ih h)) (isChain_wrapped e)
  | not e ih => exact .not (layered_wrapped (ih h)) (isChain_wrapped e)
  | transpose e ih =>
    simp only [isClear, Bool.and_eq_true, Bool.not_eq_true'] at h
    exact .transpose (layered_wrapped (ih h.1)) (takesDot_wrapped e h.2)
  | ctranspose e ih =>
    simp only [isClear, Bool.and_eq_true, Bool.not_eq_true'] at h
    exact .ctranspose (layered_wrapped (ih h.1.1)) (takesQuote_wrapped e h.1.2 h.2)
  | binary op l r ihl ihr =>
    simp only [isClear, Bool.and_eq_true, Bool.or_eq_true, Bool.not_eq_true',
      decide_eq_true_eq] at h
    obtain ⟨⟨⟨hl, hr⟩, hends⟩, hsign⟩ := h
    have hlt : op.rank < inOrder.length := List.idxOf_lt_length_of_mem op.mem_inOrder
    have hrlayered := layered_wrapped (x := r.level .stepwise ≤ op.rank) (ihr hr)
    refine (layered_wrapped (ihl hl)).extend hrlayered ?_ ?_ ⟨fun hop => ?_, fun _ _ => ?_,
      fun hle hminus => ?_, fun hnumeral => ?_⟩
    · exact le_level_wrapped l (Nat.le_of_lt hlt) fun h => Nat.not_lt.mp (of_decide_eq_false h)
    · exact le_level_wrapped r hlt fun h => Nat.not_le.mp (of_decide_eq_false h)
    · rcases hends with hends | hends
      · rw [hop] at hends
        cases hends
      · rw [Term.endsOperand, text_wrapped, text_term]
        exact hends
    · exact startsDigit_wrapped (startsDigit_term sp r)
    · rcases hsign with hsign | hsign
      · omega
      · rw [← hrlayered.leadsMinus_text, text_wrapped, text_term, hsign] at hminus
        cases hminus
    · rw [endsNumeral_wrapped (endsNumeral_term l)] at hnumeral
      cases hnumeral

variable {st : Setting} {k : Int} {rest : List Char}

/-- `-(a - b)' ^ c - (a < b) .* c` -/
def sample : Expr :=
  binary .minus (binary .exp (neg (ctranspose (binary .minus (name .a) (name .b)))) (name .c))
    (binary .elmul (binary .lt (name .a) (name .b)) (name .c))

/-- The text that is common for an expression is read, but as another one. -/
def Misread (e other : Expr) (text : String) : Prop :=
  e.text .conventional ⟨fun _ => 0, 0⟩ = text.toList ∧ other ≠ e.ungrouped ∧ ∃ tree stop,
    (Parse.expression 0 (some (text.length - 1)) none).Yields { source := .ofString (text ++ "\n") }
      [tree] stop ∧ tree.denote = some other

end Expr

end ArmaGen
