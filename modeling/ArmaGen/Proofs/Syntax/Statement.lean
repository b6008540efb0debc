import ArmaGen.Proofs.Syntax.Structured
import ArmaGen.Syntax.Block

/-!
# Reading blocks of statements
-/

namespace ArmaGen

open List

def isLayout (c : Char) : Bool :=
  c == ' ' || c == '\n'

namespace Source

variable {s : Source} {k j m : Int} {c : Char} {cs : List Char}

/-- Only blanks and line ends stand from `k` up to `j`. -/
def Spaces (s : Source) (k j : Int) : Prop :=
  k ≤ j ∧ ∀ i, k ≤ i → i < j → ∃ c, s.read i = .ok c ∧ isLayout c = true

lemma Spaces.refl (s : Source) (k : Int) : s.Spaces k k :=
  ⟨Int.le_rfl, fun i _ _ => by omega⟩

lemma Spaces.trans (h : s.Spaces k j) (h' : s.Spaces j m) : s.Spaces k m := by
  refine ⟨Int.le_trans h.1 h'.1, ?_⟩
  intro i hki him
  by_cases hij : i < j
  · exact h.2 i hki hij
  · exact h'.2 i (by omega) him

lemma Shows.spaces (h : s.Shows k cs) (hcs : ∀ c ∈ cs, isLayout c = true) :
    s.Spaces k (k + cs.length) := by
  refine ⟨by omega, ?_⟩
  intro i hki hi
  obtain ⟨n, rfl⟩ : ∃ n : Nat, i = k + n := ⟨(i - k).toNat, by omega⟩
  exact ⟨_, h.read_at (by omega), hcs _ (getElem_mem _)⟩

/-- Only blanks and line ends stand between two positions. -/
def Around (s : Source) (k j : Int) : Prop :=
  s.Spaces k j ∨ s.Spaces j k

lemma Around.refl (s : Source) (k : Int) : s.Around k k :=
  .inl (Spaces.refl s k)

lemma Around.spaces {n : Nat} (h : s.Around k j) (hj : s.Shows j (room n ++ c :: cs))
    (hc : isLayout c = false) : s.Spaces k (j + (room n).length) := by
  have hroom : s.Spaces j (j + (room n).length) := by
    apply hj.left.spaces
    intro d hd
    rw [eq_of_mem_replicate hd]
    decide
  rcases h with h | h
  · exact h.trans hroom
  · refine ⟨?_, fun i hki hi => hroom.2 i (by have := h.1; omega) hi⟩
    apply Int.not_lt.mp
    intro hlt
    obtain ⟨d, hd, hspace⟩ := h.2 (j + (room n).length) (by omega) hlt
    rw [hj.right.read] at hd
    rw [← Except.ok.inj hd, hc] at hspace
    cases hspace

end Source

namespace Parse

open Source

variable {st : Setting} {os os' : List Outline} {k j r : Int} {n : Nat} {c : Char}
  {cs : List Char}

/-! ### Pieces of a block -/

/-- The pieces of a block from a position on, unless the end of the text is near. -/
def resume (n : Nat) (k : Int) : Parse Int := do
  if ((← source).size : Int) - k < 3 then return k else pieces n k

abbrev inner (n : Nat) : BlockParser := blockOf (pieces n)

lemma pieces_next {e : Int} (hp : (piece (inner n) k).Builds st os (.next e))
    (hrest : (resume n (e + 1)).Builds st os' r) :
    (pieces (n + 1) k).Builds st (os ++ os') r := by
  exact hp.bind hrest

lemma resume_of_pieces (hsize : 3 ≤ st.source.size - k) (h : (pieces n k).Builds st os r) :
    (resume n k).Builds st os r := by
  unfold resume
  rw [builds_source_bind, if_neg (by omega)]
  exact h

lemma pieces_of_resume (hsize : 3 ≤ st.source.size - k) (h : (resume n k).Builds st os r) :
    (pieces n k).Builds st os r := by
  unfold resume at h
  rwa [builds_source_bind, if_neg (by omega)] at h

/-- From anywhere around `j` the block goes on with the given outlines, and ends as told. -/
def Resumes (st : Setting) (j : Int) (os : List Outline) (ends : Int → Prop) : Prop :=
  ∀ k (n : Nat), st.source.Around k j → st.source.size ≤ n + k →
    ∃ r, ends r ∧ (resume n k).Builds st os r

variable {block : BlockParser} {word : String} {p : Char → Bool} {made : List Syntax} {step : Step}

lemma builds_piece_space (hc : st.source.read k = .ok c) (hspace : isLayout c = true)
    (hsize : 3 ≤ st.source.size - k) : (piece block k).Builds st [] (.next k) := by
  have hcases : c = ' ' ∨ c = '\n' := by simpa [isLayout] using hspace
  unfold piece
  simp only [builds_source_bind, hc, builds_lift_bind]
  rcases hcases with rfl | rfl
  · exact builds_pure
  · rw [if_neg (by decide), if_pos (by decide), if_neg (by omega)]
    exact builds_pure

lemma resume_spaces {ends : Int → Prop} (h : st.source.Spaces k j) (hsize : 2 ≤ st.source.size - j)
    (hrest : ∀ n : Nat, st.source.size ≤ n + j → ∃ r, ends r ∧ (resume n j).Builds st os r) :
    ∀ n : Nat, st.source.size ≤ n + k → ∃ r, ends r ∧ (resume n k).Builds st os r := by
  obtain ⟨d, hd⟩ : ∃ d : Nat, j = k + d := ⟨(j - k).toNat, by have := h.1; omega⟩
  induction d generalizing k with
  | zero =>
    obtain rfl : j = k := by omega
    exact hrest
  | succ d ih =>
    intro n hn
    obtain ⟨c, hc, hspace⟩ := h.2 k (by omega) (by omega)
    rcases n with _ | n
    · omega
    have htail : st.source.Spaces (k + 1) j :=
      ⟨by omega, fun i hki hi => h.2 i (by omega) hi⟩
    obtain ⟨r, hr, hbuilds⟩ := ih htail (by omega) n (by omega)
    refine ⟨r, hr, resume_of_pieces (by omega) ?_⟩
    exact pieces_next (builds_piece_space hc hspace (by omega)) hbuilds

/-! ### Keywords -/

lemma reads_eq_false_of_clash (h : st.source.Shows k cs) (h1 : ¬ word.toList <+: cs)
    (h2 : ¬ cs <+: word.toList) : st.source.reads k word = false := by
  rw [← Bool.not_eq_true, reads_iff h.nonneg]
  intro hword
  rcases prefix_or_prefix_of_prefix hword.2 h.2 with hp | hp
  · exact h1 hp
  · exact h2 hp

lemma yields_keyword {b : Bool} (h : st.source.readsThen k word endsKeyword = .ok b) :
    (keyword word k).Yields st [] b := by
  unfold keyword
  rw [yields_source_bind, h]
  exact yields_lift

lemma readsThen_of_reads_eq_false (h : st.source.reads k word = false) :
    st.source.readsThen k word p = .ok false := by
  rw [readsThen, h]
  rfl

lemma readsThen_self (h : st.source.Shows k (word.toList ++ c :: cs)) :
    st.source.readsThen k word p = .ok (p c) := by
  rw [readsThen, h.reads]
  exact h.right.holds

/-- No keyword of statements stands at a position. -/
def NoKeyword (st : Setting) (k : Int) : Prop :=
  ∀ word ∈ "end" :: "function" :: Structured.keywords, ∀ p : Char → Bool,
    (∀ d, isWord d = true → p d = false) → st.source.readsThen k word p = .ok false

lemma endsKeyword_of_isWord {d : Char} (hd : isWord d = true) : endsKeyword d = false :=
  oneOf_eq_false hd (by decide)

lemma yields_anyKeyword {words : List String}
    (hwords : ∀ word ∈ words, st.source.readsThen k word endsKeyword = .ok false) :
    (anyKeyword k words).Yields st [] false := by
  induction words with
  | nil => exact yields_pure
  | cons word words ih =>
    rw [anyKeyword, (yields_keyword (hwords word (.head _))).bind_iff]
    exact ih fun other hother => hwords other (.tail _ hother)

lemma yields_blockStatement? {statements : List (String × (BlockParser → Int → Parse Int))}
    (hwords : ∀ entry ∈ statements, st.source.readsThen k entry.1 endsKeyword = .ok false) :
    (blockStatement? block k statements).Yields st [] none := by
  induction statements with
  | nil => exact yields_pure
  | cons entry statements ih =>
    rw [blockStatement?, (yields_keyword (hwords entry (.head _))).bind_iff]
    exact ih fun other hother => hwords other (.tail _ hother)

lemma Builds.of_yields {α β : Type} {p : Parse α} {q : Parse β} {a : α} {b : β}
    (h : p.Builds st os a) (hq : ∀ made, p.Yields st made a → q.Yields st made b) :
    q.Builds st os b := by
  obtain ⟨made, hp, hmade⟩ := h
  exact ⟨made, hq made hp, hmade⟩

section

variable (hno : NoKeyword st k) (hc : st.source.read k = .ok c)

include hno hc

lemma yields_wordPiece_iff : (wordPiece block k).Yields st made step ↔
      (if startsExpression c = true then do return .next (← plainStatement k)
        else return .next k : Parse Step).Yields st made step := by
  have hkeyword : ∀ word ∈ "end" :: "function" :: Structured.keywords,
      st.source.readsThen k word endsKeyword = .ok false :=
    fun word hword => hno word hword endsKeyword fun _ => endsKeyword_of_isWord
  have hmem : ∀ word ∈ endingKeywords, word ∈ "end" :: "function" :: Structured.keywords := by
    decide
  have hmem' : ∀ entry ∈ blockStatements, entry.1 ∈ "end" :: "function" :: Structured.keywords := by
    decide
  have hending := yields_anyKeyword fun word hword => hkeyword word (hmem word hword)
  have hend := yields_keyword (hkeyword "end" (by simp))
  have hfunction := hno "function" (by simp) (fun c => endsKeyword c || c == '[') (by
    intro d hd
    rw [endsKeyword_of_isWord hd, beq_eq_false_iff_ne.mpr (ne_of_class hd rfl)]
    rfl)
  have hnone : (blockStatement? block k blockStatements).Yields st [] none :=
    yields_blockStatement? fun entry hentry => hkeyword entry.1 (hmem' entry hentry)
  have hhold := hno "hold" (by decide) (fun c => !isWord c) fun d hd => by simp [hd]
  have hgrid := hno "grid" (by decide) (fun c => !isWord c) fun d hd => by simp [hd]
  have hcommand : (commandStarts k).Yields st [] false := by
    unfold commandStarts
    simp only [yields_source_bind, hhold, hgrid]
    exact yields_lift
  unfold wordPiece
  rw [yields_source_bind, hending.bind_iff, if_neg (by decide), hend.bind_iff,
    if_neg (by decide), hfunction, yields_lift_bind, if_neg (by decide), hnone.bind_iff]
  rw [hcommand.bind_iff, if_neg (by decide), hc, yields_lift_bind]

lemma yields_wordPiece_plain {e : Int}
    (hstart : startsExpression c = true) (h : (plainStatement k).Yields st made e) :
    (wordPiece block k).Yields st made (.next e) := by
  rw [yields_wordPiece_iff hno hc, if_pos hstart, ← append_nil made]
  exact h.bind yields_pure

lemma builds_wordPiece_plain {e : Int}
    (hstart : startsExpression c = true) (h : (plainStatement k).Builds st os e) :
    (wordPiece block k).Builds st os (.next e) :=
  h.of_yields fun _ => yields_wordPiece_plain hno hc hstart

end

lemma yields_piece_word (hk : 0 ≤ k) (hc : st.source.read k = .ok c)
    (hstart : startsTerm c = true ∨ c = ')') (h : (wordPiece block k).Yields st made step) :
    (piece block k).Yields st made step := by
  have hclass : (startsTerm c || c == ')') = true := by
    rw [Bool.or_eq_true, beq_iff_eq]
    exact hstart
  have hother : ∀ {d : Char}, (startsTerm d || d == ')') = false → c ≠ d :=
    fun h => ne_of_class (p := fun c => startsTerm c || c == ')') hclass h
  have hpragma : st.source.reads k "%%PARFOR" = false :=
    reads_eq_false_of_read hk hc rfl (hother (by decide)).symm
  have hverbatim : st.source.reads k "___" = false :=
    reads_eq_false_of_read hk hc rfl (hother (by decide)).symm
  have h1 : oneOf " \t;" c = false :=
    oneOf_eq_false (p := fun c => startsTerm c || c == ')') hclass (by decide)
  have h2 : c ≠ '\n' := hother (by decide)
  have h3 : c ≠ '%' := hother (by decide)
  have h4 : c ≠ '[' := hother (by decide)
  have h5 : c ≠ '\'' := hother (by decide)
  unfold piece
  simp only [yields_source_bind, hc, yields_lift_bind, h1, beq_iff_eq, h2, hpragma, h3, hverbatim,
    h4, h5]
  exact h

lemma builds_piece_word (hk : 0 ≤ k) (hc : st.source.read k = .ok c) (halnum : isAlnum c = true)
    (h : (wordPiece block k).Builds st os step) : (piece block k).Builds st os step :=
  h.of_yields fun _ => yields_piece_word hk hc (.inl (by rw [startsTerm, halnum, Bool.true_or]))

end Parse

/-! ### Atoms -/

namespace Structured

open Source Parse Term

variable {st : Setting} {k : Int} {c : Char} {cs : List Char}

lemma Ident.ne_of_mem (n : Ident) {word : String} (h : word ∈ keywords) :
    n.name.chars ≠ word.toList := by
  have hfree := n.free
  simp only [isFree, Bool.and_eq_true, all_eq_true] at hfree
  exact fun heq => by simpa [heq] using hfree.1.1 word h

lemma Ident.isVariable (n : Ident) : n.name.isVariable = true := by
  have hfree := n.free
  simp only [isFree, Bool.and_eq_true] at hfree
  simp only [Name.isVariable, Bool.and_eq_true, bne_iff_ne]
  exact ⟨⟨hfree.1.2, n.ne_of_mem (by decide)⟩, n.ne_of_mem (by decide)⟩

section

variable (n : Ident) (h : st.source.Shows k (n.name.chars ++ c :: cs)) (hc : isWord c = false)

include h hc

lemma Ident.reads_eq_false {word : String} (hword : word = "end" ∨ word = "function") :
    st.source.reads k word = false := by
  have hfree := n.free
  simp only [isFree, Bool.and_eq_true, Bool.not_eq_true'] at hfree
  have hnot : word.toList.isPrefixOf n.name.chars = false := by
    rcases hword with rfl | rfl
    · exact hfree.1.2
    · exact hfree.2
  have hletters : ∀ d ∈ word.toList, isWord d = true := by
    rcases hword with rfl | rfl <;> decide
  rw [← Bool.not_eq_true]
  intro hreads
  rw [ isPrefixOf_iff_prefix.mpr (prefix_of_reads h hc hletters hreads)] at hnot
  cases hnot

lemma Ident.noKeyword : NoKeyword st k := by
  intro word hword p hp
  rcases mem_cons.mp hword with rfl | hword
  · exact readsThen_of_reads_eq_false (n.reads_eq_false h hc (.inl rfl))
  rcases mem_cons.mp hword with rfl | hword
  · exact readsThen_of_reads_eq_false (n.reads_eq_false h hc (.inr rfl))
  · have hchars : ∀ w ∈ keywords, ∀ d ∈ w.toList, isWord d = true := by decide
    exact readsThen_eq_false h hc (hchars word hword) (n.ne_of_mem hword) hp

end

namespace Atom

lemma layered (a : Atom) (sp : Spacing) : a.term.Layered sp := by
  cases a with
  | ident n => exact .name n.isVariable
  | numeral d => exact .numeral d

lemma unread (a : Atom) : a.term.unread = 0 := by
  cases a <;> rfl

lemma exists_head (a : Atom) : ∃ c cs, written a.term = c :: cs ∧ isAlnum c = true := by
  cases a with
  | ident n =>
    obtain ⟨c, cs, h, hc, -⟩ := n.name.exists_chars
    exact ⟨c, cs, h, by simp [isAlnum, hc]⟩
  | numeral d =>
    obtain ⟨c, cs, h⟩ := exists_cons_of_ne_nil d.nonempty
    exact ⟨c, cs, h, by simp [isAlnum, d.spelled c (by simp [h])]⟩

lemma noKeyword (a : Atom) (h : st.source.Shows k (written a.term ++ c :: cs))
    (hc : isWord c = false) : NoKeyword st k := by
  cases a with
  | ident n => exact n.noKeyword h hc
  | numeral d =>
    intro word hword p _
    obtain ⟨x, xs, hx⟩ := exists_cons_of_ne_nil d.nonempty
    have hdigit : isDigit x = true := d.spelled x (by simp [hx])
    have hshow : st.source.Shows k (x :: (xs ++ c :: cs)) := by
      rw [written, Atom.term, Term.text, hx] at h
      exact h
    have hfirst : ∀ w ∈ "end" :: "function" :: keywords, w.toList ≠ [] ∧
        ∀ y ∈ w.toList.head?, isDigit y = false := by
      decide
    obtain ⟨hne, hletter⟩ := hfirst word hword
    obtain ⟨y, ys, hy⟩ := exists_cons_of_ne_nil hne
    exact readsThen_of_reads_eq_false
      (hshow.reads_eq_false hy (ne_of_class hdigit (hletter y (by simp [hy]))).symm)

end Atom

end Structured

/-! ### Plain statements -/

namespace Parse

open Source Term

variable {α : Type} {st : Setting} {sp : Spacing} {k : Int} {t : Term} {c : Char}
  {cs rest : List Char}

variable {items : List Syntax} {s : Source} {n : Name}

lemma Yields.elseLeaving {p : Parse α} {made : List Syntax} {a : α} (h : p.Yields st made a) :
    (Parse.elseLeaving p items).Yields st made a := by
  obtain ⟨notes, h⟩ := h
  exact ⟨notes, by rw [Parse.elseLeaving, h]⟩

lemma ends_of_char (h1 : isBlank c = false) (h2 : isWord c = false)
    (h3 : c ≠ '(' ∧ c ≠ '\x7b' ∧ c ≠ '.') : t.Ends (c :: cs) :=
  ⟨follows_of_char h1 h2 h3, fun _ => by simpa using h3.2.2⟩

def statementHead (sp : Spacing) (k : Int) (t : Term) : Head :=
  { kind := .statement, cur? := some k, code? := some (String.ofList (t.text sp)) }

lemma yields_plainStatement_broken (ht : t.Layered sp) (hfresh : st.source.Fresh k)
    (h : st.source.Shows k (t.broken readDots sp b ++ '\n' :: rest)) :
    (plainStatement k).Yields st
      [.node { kind := .statement, cur? := some k,
               code? := some (String.ofList (t.broken readDots sp b)) } [t.brokenTree sp b k]]
      (k + (t.broken readDots sp b).length - 1 - t.unread) := by
  have hfresh' : st.source.Fresh (k + ([] : List Char).length) := by simpa using hfresh
  have hend : st.source.expressionEnd k = .ok (k + (t.broken readDots sp b).length - 1) :=
    ht.expressionEnd_broken (.inl rfl) hfresh' h (by decide)
  have hskip := skipBlanks_of_not_blank h.right (by decide)
  have hscan : (elseLeaving (scan (st.source.expressionEnd k)) []).Yields st []
      (k + (t.broken readDots sp b).length - 1) := by
    rw [hend]
    exact Yields.elseLeaving ⟨[], rfl⟩
  have hexpression := yields_expression_broken (.inl rfl) ht (fun _ => hfresh') h
    (Int.sub_add_cancel ..) (ends_of_char rfl rfl (by decide)) (nofun : ∀ q, none = some q → _)
  rw [add_length_nil] at hexpression
  unfold plainStatement statement
  simp only [yields_source_bind, hend, yields_lift_bind, Int.sub_add_cancel, hskip, h.right.read]
  rw [if_neg (by decide), if_neg (by decide), yields_source_bind, hscan.bind_iff,
    yields_progress_bind, Int.sub_add_cancel, h.left.slice]
  exact hexpression.node

lemma yields_plainStatement (ht : t.Layered sp) (hfresh : st.source.Fresh k)
    (h : st.source.Shows k (t.text sp ++ '\n' :: rest)) :
    (plainStatement k).Yields st [.node (statementHead sp k t) [t.tree sp k]]
      (k + (t.text sp).length - 1 - t.unread) := by
  rw [← broken_none] at h
  have hyields := yields_plainStatement_broken ht hfresh h
  rwa [broken_none, brokenTree_none] at hyields

/-! ### Assignments -/

lemma Yields.declaring {p : Parse α} {head : Head} {a : α} (h : p.Yields st [.node head items] a) :
    (Parse.declaring p).Yields st [.node head (items ++ [.declare])] a := by
  obtain ⟨notes, h⟩ := h
  exact ⟨notes, by rw [Parse.declaring, h]; rfl⟩

lemma expressionEnd_target {e : Int} {d : Char} (hk : 0 ≤ k) (hfirst : s.read k = .ok c)
    (hstart : startsExpression c = true) (hlt : k < e) (hgoes : s.Goes k e)
    (hlast : s.read (e - 1) = .ok d) (hd : isBlank d = false)
    (h : s.Shows e (' ' :: '=' :: ' ' :: rest)) : s.expressionEnd k = .ok (e - 1) := by
  have hsize := h.end_le (by simp)
  simp only [length_cons] at hsize
  have hsign := h.tail
  -- the blank is passed, and the sign of assignment ends the expression
  have hblank : s.Goes e (e + 1) :=
    (Runs.plain h.nonneg h.read (by decide) (.done _)).goes h.nonneg (by omega)
  have hsteps : ∀ n : Nat, s.expressionSteps (n + 1) (e + 1) = .ok (e + 1) := by
    intro n
    have hordinary := ordinary_of_class (by omega) hsign.read (p := fun c => c == '=') rfl
      (by decide)
    rw [expressionSteps_char hsign.read hordinary, hsign.tail.read]
    rfl
  have hscan := (hgoes.trans hblank).run hsteps s.steps (by unfold steps; omega)
  have hback : s.backBlanks e = .ok (e - 1) := by
    have hshow : s.Shows (e - 1) [d, ' '] := by
      refine shows_append_iff.mpr (⟨shows_singleton_of_read (by omega) hlast, ?_⟩)
      rw [length_singleton, Int.natCast_one, Int.sub_add_cancel]
      exact h.left
    have := backBlanks_of_blanks hshow hd (by decide)
    rwa [length_singleton, Int.natCast_one, Int.sub_add_cancel] at this
  unfold expressionEnd
  simp only [hfirst, Scan.ok_bind, hstart, hscan]
  rw [Int.add_sub_cancel]
  exact hback

lemma expressionEnd_name (h : s.Shows k (n.chars ++ ' ' :: '=' :: ' ' :: rest)) :
    s.expressionEnd k = .ok (k + n.chars.length - 1) := by
  obtain ⟨c, cs, hchars, hc, -⟩ := n.exists_chars
  have hpos : 0 < n.chars.length := by simp [hchars]
  have hsize := h.left.end_le (by simp [hchars])
  have hfirst := h.read_first hchars
  have hlast := h.left.read_at (show n.chars.length - 1 < n.chars.length by omega)
  rw [show k + (n.chars.length - 1 : Nat) = k + n.chars.length - 1 by omega] at hlast
  have hruns := h.left.runs_plain fun d hd => isPlain_of_isWord (n.isWord_of_mem hd)
  exact expressionEnd_target h.nonneg hfirst (by simp [startsExpression, isAlnum, hc]) (by omega)
    (hruns.goes h.nonneg hsize) hlast
    (isBlank_eq_false (n.isWord_of_mem (getElem_mem _)) rfl rfl) h.right

lemma yields_target (sp : Spacing) {expression : ExpressionParser}
    (h : st.source.Shows k (n.chars ++ ' ' :: '=' :: rest)) :
    (target expression k).Yields st
      [.node { Term.head sp k (.name n) .var with name := n.text } [.declare]]
      (k + n.chars.length - 1) := by
  obtain ⟨c, cs, hchars, hc, -⟩ := n.exists_chars
  have hfirst := h.read_first hchars
  have hname : (nameEnd k).Yields st [] (k + n.chars.length) := yields_nameEnd h (by decide)
  have hskip := skipBlanks_blank h.right (by decide)
  have hslice := h.left.slice
  unfold target
  simp only [yields_source_bind, hfirst, yields_lift_bind, hc, Bool.not_true, Bool.false_eq_true,
    ite_false]
  rw [hname.bind_iff]
  simp only [hskip, h.right.tail.read, yields_lift_bind]
  rw [if_neg (by decide), if_neg (by decide), if_neg (by decide), yields_progress_bind,
    yields_variableHead.bind_iff, hslice]
  exact yields_leaf.declaring.bind yields_pure

def assignHead (sp : Spacing) (k : Int) (n : Name) (t : Term) : Head :=
  { kind := .assign, name := (t.tree sp (k + n.chars.length + 3)).name, cur? := some k,
    code? := some (String.ofList (n.chars ++ ' ' :: '=' :: ' ' :: t.text sp)) }

/-- The assignment of a value to a name is read, given how its value is. -/
lemma yields_assignment_of_value {v : List Char} {x : Char} {xs : List Char} {value : Syntax}
    (hx : v ++ '\n' :: rest = x :: xs) (hblank : isBlank x = false) (hat : x ≠ '@')
    (h : st.source.Shows k (n.chars ++ ' ' :: '=' :: ' ' :: (v ++ '\n' :: rest)))
    (hend : st.source.expressionEnd (k + n.chars.length + 3) =
      .ok (k + n.chars.length + 3 + v.length - 1))
    (hvalue : (Parse.expression (k + n.chars.length + 3)
      (some (k + n.chars.length + 3 + v.length - 1)) none).Yields st [value] j)
    (hnode : value.isNode = true) (sp : Spacing) :
    (plainStatement k).Yields st
      [.node { kind := .assign, name := value.name, cur? := some k,
               code? := some (String.ofList (n.chars ++ ' ' :: '=' :: ' ' :: v)) }
        [.node { Term.head sp k (.name n) .var with name := n.text } [.declare], value]]
      (k + n.chars.length + 2 + v.length) := by
  obtain ⟨c, cs, hchars, hc, -⟩ := n.exists_chars
  have hfirst := h.read_first hchars
  have hthree : k + n.chars.length + 1 + 1 + 1 = k + n.chars.length + 3 := by omega
  have hsign := h.right.tail
  have hgap := hsign.tail
  have hskip := skipBlanks_blank h.right (by decide)
  have hslice : st.source.slice k (k + n.chars.length + 3 + v.length - 1 + 1) =
      String.ofList (n.chars ++ ' ' :: '=' :: ' ' :: v) := by
    have hall : st.source.Shows k (n.chars ++ ' ' :: '=' :: ' ' :: v) := by
      have := h
      rw [show n.chars ++ ' ' :: '=' :: ' ' :: (v ++ '\n' :: rest) =
        (n.chars ++ ' ' :: '=' :: ' ' :: v) ++ '\n' :: rest by simp] at this
      exact this.left
    rw [← hall.slice]
    congr 1
    simp only [length_append, length_cons]
    omega
  rw [hx] at hgap
  have hread : st.source.read (k + n.chars.length + 3) = .ok x := hthree ▸ hgap.tail.read
  have hskip' : st.source.skipBlanks (k + n.chars.length + 1 + 1) =
      .ok (k + n.chars.length + 3) := by
    rw [skipBlanks_blank hgap hblank, hthree]
  unfold plainStatement
  simp only [yields_source_bind, expressionEnd_name h, yields_lift_bind, Int.sub_add_cancel,
    hskip, hsign.read, hskip']
  rw [if_pos (by decide), yields_lift_bind, hread, yields_lift_bind, if_neg (by simpa using hat),
    show k + n.chars.length + 2 + v.length = k + n.chars.length + 3 + v.length - 1 by omega]
  -- the statement is an assignment
  unfold assignment
  simp only [yields_source_bind, hfirst, hsign.read, yields_lift_bind, hskip', hc]
  rw [if_neg (by decide), yields_lift_bind, if_neg (by decide), yields_lift_bind, hend,
    yields_lift_bind, yields_progress_bind, hslice]
  refine Yields.wrap (a := k + n.chars.length + 3) ((yields_target sp h).bind ?_) ?_
  · simp only [Int.sub_add_cancel, hskip, yields_lift_bind, hsign.read]
    rw [if_neg (by decide), yields_pure_bind, hsign.read, yields_lift_bind, if_neg (by decide),
      hskip']
    exact hvalue.bind yields_pure
  · rw [lastName, Syntax.nodes, filter_cons_of_pos rfl, filter_cons_of_pos hnode]
    rfl

lemma yields_assignment_broken {lead : List Char} (hlead : lead = [] ∨ lead = readDots)
    (ht : t.Layered sp) (h : st.source.Shows k
      (n.chars ++ ' ' :: '=' :: ' ' :: (lead ++ t.broken readDots sp b ++ '\n' :: rest))) :
    let value := t.brokenTree sp b (k + n.chars.length + 3 + lead.length)
    (plainStatement k).Yields st
      [.node { kind := .assign, name := value.name, cur? := some k, code? := some (String.ofList
            (n.chars ++ ' ' :: '=' :: ' ' :: (lead ++ t.broken readDots sp b))) }
        [.node { Term.head sp k (.name n) .var with name := n.text } [.declare], value]]
      (k + n.chars.length + 2 + (lead ++ t.broken readDots sp b).length) := by
  obtain ⟨x, xs, hvalue, hblank, hat⟩ : ∃ x xs,
      lead ++ t.broken readDots sp b ++ '\n' :: rest = x :: xs ∧ isBlank x = false ∧ x ≠ '@' := by
    rcases hlead with rfl | rfl
    · obtain ⟨d, ds, -, hhead, -, hd⟩ := exists_broken_head readDots sp b t
      exact ⟨d, ds ++ '\n' :: rest, by rw [hhead]; rfl, isBlank_eq_false hd rfl rfl,
        ne_of_class hd rfl⟩
    · exact ⟨'.', _, rfl, by decide, by decide⟩
  have hgap := h.right.tail.tail
  have hthree : k + n.chars.length + 1 + 1 + 1 = k + n.chars.length + 3 := by omega
  have hshows := hthree ▸ hgap.tail
  have hfresh : st.source.Fresh (k + n.chars.length + 3 + lead.length) := by
    rw [append_assoc] at hgap
    have hwords : ∀ c ∈ ' ' :: lead, isWord c = false := by
      rcases hlead with rfl | rfl <;> decide
    have := hgap.left.fresh (by simp) hwords
    rwa [length_cons, Int.natCast_add, Int.natCast_one, Int.add_comm lead.length,
      ← Int.add_assoc, hthree] at this
  have hnode : (t.brokenTree sp b (k + n.chars.length + 3 + lead.length)).isNode = true := by
    cases t <;> rfl
  exact yields_assignment_of_value hvalue hblank hat h
    (ht.expressionEnd_broken hlead hfresh hshows (by decide))
    (yields_expression_broken hlead ht (fun _ => hfresh) hshows (Int.sub_add_cancel ..)
      (ends_of_char rfl rfl (by decide)) nofun) hnode sp

lemma yields_assignment (ht : t.Layered sp)
    (h : st.source.Shows k (n.chars ++ ' ' :: '=' :: ' ' :: (t.text sp ++ '\n' :: rest))) :
    (plainStatement k).Yields st [.node (assignHead sp k n t)
        [.node { Term.head sp k (.name n) .var with name := n.text } [.declare],
          t.tree sp (k + n.chars.length + 3)]]
      (k + n.chars.length + 2 + (t.text sp).length) := by
  rw [← broken_none] at h
  have hyields := yields_assignment_broken (.inl rfl) ht h
  rwa [nil_append, broken_none, brokenTree_none, add_length_nil] at hyields

end Parse

end ArmaGen
