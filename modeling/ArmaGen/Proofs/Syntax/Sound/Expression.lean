import ArmaGen.Proofs.Syntax.Sound

/-!
# Expressions

Numbers, lists, variables and expressions are read soundly (`Parse.Sound`), and forward. The end of
an expression may be given, and then need not lie behind what is read: a parenthesis is read up to a
bracket before that end. But no end is stepped back behind a character that is neither a blank nor
closes anything (`Source.Anchor`), and one such character starts every expression whose end could
move (`Parse.gives_expressionStep_within`).
-/

namespace ArmaGen

open List

open Source Scan

/-- A character before which no end of an expression is moved: no blank, and nothing that closes or
transposes. -/
def Source.Anchor (s : Source) (k : Int) : Prop :=
  ∃ c, s.read k = .ok c ∧ isBlank c = false ∧ c ≠ ')' ∧ c ≠ '\'' ∧
    (c = '.' → s.read (k + 1) ≠ .ok '\'')

namespace Source

variable {s : Source} {start first lo k : Int} {P : Int → Prop}

/-- A character that the end of an expression is moved back over: a blank, or one that closes or
transposes. -/
def Trailing (s : Source) (k : Int) : Prop :=
  ∃ c, s.read k = .ok c ∧
    (isBlank c = true ∨ c = ')' ∨ c = '\'' ∨ c = '.' ∧ s.read (k + 1) = .ok '\'')

/-- Positions that are left neither by moving back so nor for a whole range. -/
structure Retreats (s : Source) (start : Int) (P : Int → Prop) : Prop where
  back : ∀ j, P j → s.Trailing j → P (j - 1)
  range : ∀ j, start ≤ j → s.read j = .ok ':' → P j

lemma Retreats.mono (h : s.Retreats start P) (hle : start ≤ first) : s.Retreats first P :=
  ⟨h.back, fun j hj => h.range j (by omega)⟩

lemma Anchor.retreats (h : s.Anchor lo) (hstart : lo ≤ start) : s.Retreats start (lo ≤ ·) := by
  refine ⟨fun j hj htrailing => ?_, fun j hj _ => by omega⟩
  have hne : j ≠ lo := by
    rintro rfl
    obtain ⟨c, hc, hblank, hclose, hquote, hdot⟩ := h
    obtain ⟨d, hd, hback⟩ := htrailing
    cases hc.symm.trans hd
    rcases hback with h | h | h | ⟨h, hnext⟩
    · exact absurd (hblank.symm.trans h) (by decide)
    · exact hclose h
    · exact hquote h
    · exact hdot h hnext
  omega

lemma Retreats.gives_backBlanks (h : s.Retreats start P) (hk : P k) : (s.backBlanks k).Gives P :=
  (Source.gives_backBlanks hk fun j c hj hc hblank => h.back j hj ⟨c, hc, .inl hblank⟩).mono
    fun _ h => h.1

/-- Where what is read from a position on starts: continuation marks are passed. -/
def Begins (s : Source) (start first : Int) : Prop :=
  s.reads start "..." = false ∧ first = start ∨ s.reads start "..." = true ∧
    ∃ e, s.dotsEnd start = .ok e ∧ s.skipBlanks (e + 1) = .ok first

lemma Begins.le (h : s.Begins start first) : start ≤ first := by
  rcases h with ⟨-, rfl⟩ | ⟨-, e, he, hfirst⟩
  · exact Int.le_rfl
  · have hle := gives_dotsEnd _ he
    have hle' := gives_skipBlanks _ hfirst
    omega

lemma Begins.eq (h : s.Begins start first) (hdots : s.reads start "..." = false) :
    first = start := by
  rcases h with ⟨-, h⟩ | ⟨h, -⟩
  · exact h
  · cases hdots.symm.trans h

/-- Signs that lead to a parenthesis. -/
inductive Opens (s : Source) : Int → Prop where
  | paren {k : Int} (h : s.read k = .ok '(') : Opens s k
  | sign {k first : Int} {c : Char} (hc : s.read k = .ok c) (hsign : c = '-' ∨ c = '~')
      (hfirst : s.skipBlanks (k + 1) = .ok first) (h : Opens s first) : Opens s k

lemma Opens.anchor (h : s.Opens k) : s.Anchor k := by
  cases h with
  | paren h => exact ⟨_, h, rfl, by decide, by decide, fun h => by cases h⟩
  | sign hc hsign =>
    rcases hsign with rfl | rfl
    iterate 2 · exact ⟨_, hc, rfl, by decide, by decide, fun h => by cases h⟩

end Source

namespace Parse

open Syntax

variable {s : Source} {m : Mode} {j k cur : Int}

lemma sound_nameEnd (start : Int) : Sound s m k (nameEnd start) fun made last =>
    made = [] ∧ s.skip isWord (start + 1) = .ok last :=
  .source (sound_lift fun _ h => h)

/-! ### Numbers and strings -/

lemma sound_numberStarts (start : Int) : Sound s m k (numberStarts start) fun made found =>
    made = [] ∧ (found = true → ∃ c, s.read start = .ok c ∧ (isDigit c = true ∨
      c = '.' ∧ ∃ d, s.read (start + 1) = .ok d ∧ isDigit d = true)) := by
  refine .source (.scan fun c hc => .ite
    (fun hdigit => .pure ⟨rfl, fun _ => ⟨c, hc, .inl hdigit⟩⟩) fun _ => .ite (fun hdot => ?_)
    fun _ => .pure ⟨rfl, nofun⟩)
  refine sound_lift fun found hfound htrue => ⟨c, hc, .inr ⟨by simpa using hdot, ?_⟩⟩
  obtain ⟨d, hd, hfound⟩ := bind_eq_ok.1 hfound
  exact ⟨d, hd, by rw [← htrue]; exact Except.ok.inj hfound⟩

lemma sound_numberOf {kind : Kind} (hkind : kind.isSimple = true)
    (hexpression : kind.isExpression = true) (label value : String) (start stop : Int) :
    Sound s m start (numberOf kind label value start stop) fun made last =>
      Whole made ∧ stop - 1 ≤ last := by
  have hleaf : ∀ {kind : Kind} {label : String} {last : Int}, kind.isSimple = true →
      kind.isExpression = true → stop - 1 ≤ last → Sound s m start (do
        numberLeaf kind label value start stop
        return last) fun made last => Whole made ∧ stop - 1 ≤ last := fun hkind hexpression hlast =>
    .then (.source ((sound_leaf hkind Int.le_rfl).bind fun made _ h =>
      (sound_progress ..).imp fun _ _ hnil =>
        ⟨⟨_, by rw [hnil, append_nil]; exact h.1, hexpression⟩, hlast⟩))
  exact .source (.test (hleaf rfl rfl (by omega)) <| hleaf hkind hexpression Int.le_rfl)

lemma sound_numberFrom {start : Int} (decimal : Bool) (hk : 0 ≤ start → start < k) :
    Sound s m start (numberFrom start decimal k) fun made stop =>
      Whole made ∧ (0 ≤ start → start ≤ stop) := by
  have hnumber : ∀ kind label value stop, kind.isSimple = true → kind.isExpression = true →
      k ≤ stop → Sound s m start (numberOf kind label value start stop) fun made stop =>
        Whole made ∧ (0 ≤ start → start ≤ stop) := fun _ _ _ _ hkind hexpression hstop =>
    (sound_numberOf hkind hexpression ..).imp fun _ _ h => ⟨h.1, fun hstart => by omega⟩
  exact .source (.test (.look fun _ => .skip
    fun _ hstop => hnumber _ _ _ _ rfl rfl (by split at hstop <;> omega)) <|
    .either (hnumber _ _ _ _ rfl rfl Int.le_rfl) <| hnumber _ _ _ _ rfl rfl Int.le_rfl)

lemma sound_number (start : Int) : Sound s m start (number start) fun made stop =>
    Whole made ∧ (0 ≤ start → start ≤ stop) := by
  refine .source ((sound_numberStarts start).bind_of_nil fun found hfound => .ite
    (fun _ => .expected ..) fun htrue => ?_)
  obtain ⟨c, hc, hfirst⟩ := hfound (by simpa using htrue)
  have hskip : (s.skip isDigit start).Gives fun whole =>
      start ≤ whole ∧ (isDigit c = true → start < whole) := fun _ h =>
    ⟨gives_skip _ h, fun hdigit => gives_skip_of_read hc hdigit h⟩
  refine .lift hskip fun whole hwhole => .scan fun e he => ?_
  obtain ⟨hwhole, hdigits⟩ := hwhole
  extract_lets finish
  have hfinish : ∀ decimal, (0 ≤ start → whole = start → decimal = true) →
      Sound s m start (finish decimal) fun made stop =>
        Whole made ∧ (0 ≤ start → start ≤ stop) := by
    intro decimal hdecimal
    refine .ite (fun _ => .skip fun k hk => sound_numberFrom _
      fun _ => by omega) fun hnot => sound_numberFrom _ fun hstart => ?_
    have hne : whole ≠ start := fun heq => hnot (hdecimal hstart heq)
    omega
  -- digits stand before or after the dot
  by_cases hcases : 0 ≤ start → start < whole
  · exact .either (.look fun _ => hfinish _ fun hstart heq => by
      omega) <| hfinish _ fun hstart heq => by
      omega
  obtain ⟨hstart, hlt⟩ := Classical.not_imp.1 hcases
  obtain rfl : whole = start := by omega
  cases hc.symm.trans he
  obtain ⟨rfl, d, hd, hdigit⟩ := hfirst.resolve_left fun hdigit => hlt (hdigits hdigit)
  have hslice : s.slice (whole + 1) (whole + 3) ≠ ".." := by
    intro hslice
    have hreads : s.reads (whole + 1) ".." = true := by
      have hspan := congrArg String.toList hslice
      rw [slice, String.toList_ofList] at hspan
      rw [reads, beq_iff_eq, ← hspan]
      congr 1
      show whole + 1 + 2 = whole + 3
      omega
    cases hd.symm.trans (read_of_reads hreads rfl)
    cases hdigit
  have hsign : (s.holds (oneOf "*/") (whole + 1)).Gives (· = false) := by
    rw [holds, hd]
    exact gives_pure (oneOf_eq_false hdigit (by decide))
  rw [if_pos (by simp [hslice])]
  exact .lift hsign fun _ h => hfinish _ fun _ _ => by rw [h]; rfl

lemma sound_stringLiteral (cur : Int) : Makes s m cur (stringLiteral cur) [.string] (cur ≤ ·) :=
  .source (.lift (gives_stringEnd cur) fun _ h =>
    (sound_leaf rfl Int.le_rfl).bind fun _ _ hmade => .progress
    (.pure ⟨by rw [append_nil]; exact hmade.1, Int.le_of_lt h.1⟩))

/-! ### Inside expressions -/

/-- What is needed of the parser for the expressions inside: it is sound, and an expression ends
after its start, or after a character that anchors it. -/
structure Orderly (s : Source) (expression : ExpressionParser) : Prop where
  /-- All nodes stand at or after the start, and an operand is made. -/
  sound {m : Mode} (start : Int) (stop? : Option Int) (op? : Option Operator) :
    Sound s m start (expression start stop? op?) fun made _ => Operand (s.Lacks start) made
  /-- An end that is looked for is found at or after the start. -/
  ahead (start : Int) (op? : Option Operator) :
    Gives s (expression start none op?) fun _ stop => start ≤ stop
  /-- A given end is moved back over characters that close or transpose only. -/
  settled {P : Int → Prop} {start stop : Int} (op? : Option Operator) (hP : s.Retreats start P)
    (hstop : P stop) : Gives s (expression start (some stop) op?) fun _ stop' => P stop'

section Inner

variable {expression : ExpressionParser} (hexpression : Orderly s expression)

include hexpression

variable {start stop : Int} {spans : List (Int × Int)} {P : Int → Prop}

lemma Orderly.from (hle : k ≤ start) (stop? : Option Int) (op? : Option Operator) :
    Sound s m k (expression start stop? op?) fun made _ => Operand (s.Lacks start) made :=
  (hexpression.sound start stop? op?).mono hle fun _ _ h => h

lemma Orderly.onward (hle : k ≤ start) (op? : Option Operator) :
    Sound s m k (expression start none op?) fun made stop =>
      Operand (s.Lacks start) made ∧ k ≤ stop :=
  ((hexpression.sound start none op?).with (hexpression.ahead start op?)).mono hle
    fun _ _ h => ⟨h.1, Int.le_trans hle h.2⟩

lemma sound_rowItems {row : List (Int × Int)} (hrow : ∀ span ∈ row, k ≤ span.1 ∧ span.1 ≤ span.2)
    (hstop : k ≤ stop) : Forward s m k (rowItems expression stop row) := by
  induction row generalizing stop with
  | nil => exact .pure hstop
  | cons span row ih =>
    obtain ⟨hspan, hrow⟩ := forall_mem_cons.1 hrow
    exact (hexpression.from hspan.1 _ _).bind fun _ _ _ => ih hrow (by omega)

lemma sound_rowsItems {rows : Rows} (hrows : Source.Rowed k rows) (hstop : k ≤ stop) :
    Forward s m k (rowsItems expression stop rows) := by
  induction rows generalizing stop with
  | nil => exact .pure hstop
  | cons row rows ih =>
    obtain ⟨hrow, hrows⟩ := forall_mem_cons.1 hrows
    exact (sound_rowItems hexpression hrow.2 hstop).bind fun _ _ h => ih hrows h

lemma sound_argumentList (cur : Int) : Forward s m cur (argumentList expression cur) := by
  refine .source (.need <| .lift (gives_commaItems cur) fun _ hrows =>
    (sound_rowsItems hexpression hrows Int.le_rfl).bind fun _ _ h => ?_)
  exact .skip fun _ h' => .test (.pure (by omega)) <| .expected ..

lemma sound_matrixRows {rows : Rows} (hrows : Source.Rowed cur rows) :
    Sound s m cur (matrixRows expression cur stop rows) fun made _ =>
      ∀ kind ∈ kinds made, kind = .vector := by
  induction rows generalizing stop with
  | nil => exact .pure (by simp [kinds])
  | cons row rows ih =>
    obtain ⟨⟨hpairs, hrow⟩, hrest⟩ := forall_mem_cons.1 hrows
    refine .source ?_
    have hvector : ∀ {first last : Int} {code : String}, cur ≤ first →
        Sound s (m.inner .vector) first (rowItems expression last row) (fun _ _ => True) →
        Sound s m cur (do
          node { kind := .vector, cur? := some first, code? := some code } do
            progress first "     Vector     " "misc.matrix" first (last + 1)
            let _ ← rowItems expression last row
          matrixRows expression cur last rows) fun made _ =>
            ∀ kind ∈ kinds made, kind = .vector := by
      intro first last code hfirst hitems
      refine (Sound.simple (R := fun _ => True) rfl hfirst (.progress (.then hitems))).bind
        fun made _ h =>
        (ih hrest).imp fun rest _ hrest => ?_
      rw [kinds_append, h.1]
      exact forall_mem_cons.2 ⟨rfl, hrest⟩
    cases row with
    | nil => exact hvector Int.le_rfl (.pure trivial)
    | cons span row =>
      obtain ⟨hbefore, -⟩ := pairwise_cons.1 hpairs
      obtain ⟨hspan, hspans⟩ := forall_mem_cons.1 hrow
      refine hvector hspan.1 ((hexpression.from Int.le_rfl _ _).bind fun _ _ _ => ?_)
      exact (sound_rowItems hexpression (fun span hspan => ⟨hbefore span hspan,
        (hspans span hspan).2⟩) hspan.2).imp fun _ _ _ => trivial

lemma sound_matrixLiteral (cur : Int) :
    Makes s m cur (matrixLiteral expression cur) [.matrix] (cur ≤ ·) := by
  refine .source (.need <| .lift (gives_close ..) fun _ hstop => .progress
    (.lift (gives_items cur) fun _ hrows => .node rfl Int.le_rfl
    (.then ((sound_matrixRows hexpression hrows).imp fun made _ h => ⟨.inl ?_, hstop⟩))))
  show (kinds made).all (· == .vector) = true
  simpa using h

lemma sound_cellLiteral (cur : Int) :
    Makes s m cur (cellLiteral expression cur) [.cell] (cur ≤ ·) :=
  .source (.need <| .lift (gives_close ..) fun _ hstop => .progress
    (.lift (gives_items cur) fun _ hrows => .simple rfl Int.le_rfl
    (.then ((sound_rowsItems hexpression hrows hstop).imp fun _ _ _ => hstop))))

/-! ### Variables -/

lemma sound_cellMemberSteps (n : Nat) (hle : k ≤ start) :
    Forward s m k (cellMemberSteps expression n start) := by
  induction n generalizing start with
  | zero => exact .fail _
  | succ n ih =>
    refine .source (.look fun _ => .either (.pure hle) <| .either ?_ <| ih (by omega))
    exact (hexpression.onward hle none).bind fun _ _ h =>
      (sound_lift (gives_skipBlanks _)).imp fun _ _ h' => by omega

lemma sound_cellMember (cur : Int) : Forward s m cur (cellMember expression cur) :=
  .source (.need <| sound_cellMemberSteps hexpression _ (by omega))

lemma sound_cellMembers (n : Nat) {last : Int} (hlast : k ≤ last) (hle : k ≤ start) :
    Forward s m k (cellMembers expression n last start) := by
  induction n generalizing last start with
  | zero => exact .fail _
  | succ n ih =>
    refine .source (.test ?_ <| .pure hlast)
    exact ((sound_cellMember hexpression start).mono hle fun _ _ h => Int.le_trans hle h).bind
      fun _ _ h => .skip fun _ h' => ih h (by omega)

omit hexpression in
lemma sound_cellExtent (start : Int) : Sound s m k (cellExtent start) fun made _ => made = [] :=
  .source (.look fun _ => .look fun _ => .test (.look fun _ => .pure rfl) <| .pure rfl)

lemma sound_cellVariable (name : String) (hle : cur ≤ start) :
    Sound s m cur (cellVariable expression name cur start) fun made stop =>
      Named False made ∧ cur ≤ stop := by
  refine .source ((sound_cellExtent start).bind_nil fun _ => .either ?_ ?_)
  · exact (Sound.headed rfl Int.le_rfl (.progress (.fail _))).imp
      fun _ _ h => ⟨named_of_kinds h.1 rfl rfl, h.2⟩
  · exact (Sound.headed rfl Int.le_rfl (.progress
      (sound_cellMembers hexpression _ Int.le_rfl hle))).imp
      fun _ _ h => ⟨named_of_kinds h.1 rfl rfl, h.2⟩

omit hexpression in
lemma sound_fieldAfter? (stop : Int) : Sound s m k (fieldAfter? stop)
    fun made last? => made = [] ∧ ∀ last ∈ last?, stop + 2 ≤ last := by
  refine .source (.test (.test ?_ <| .pure ⟨rfl, nofun⟩) <| .pure ⟨rfl, nofun⟩)
  exact .skip fun _ h => .pure ⟨rfl, by rintro _ ⟨⟩; exact h⟩

lemma forward_argumentList (hle : cur ≤ start) : Forward s m cur (argumentList expression start) :=
  (sound_argumentList hexpression start).mono hle fun _ _ h => Int.le_trans hle h

lemma sound_indexedVariable (name : String) (hle : cur ≤ start) :
    Sound s m cur (indexedVariable expression name cur start) fun made stop =>
      Named False made ∧ cur ≤ stop := by
  refine .source (.lift (gives_close ..) fun stop hstop =>
    (sound_fieldAfter? stop).bind_of_nil fun last? hlast => ?_)
  cases last? with
  | some last =>
    have hlast := hlast last rfl
    exact .progress (sound_variableHead_bind fun _ hhead hcur => .then ((Sound.simpleAt
      (R := fun _ => True) rfl Int.le_rfl hhead hcur
      (.then ((forward_argumentList hexpression hle).imp fun _ _ _ => trivial))).imp
      fun _ _ h => ⟨named_of_kinds h.1 rfl rfl, by omega⟩))
  | none =>
    exact .progress ((Sound.headed rfl Int.le_rfl (forward_argumentList hexpression hle)).imp
      fun _ _ h => ⟨named_of_kinds h.1 rfl rfl, h.2⟩)

/-- A name with a dot and no field makes nothing. -/
lemma sound_fieldVariable (name : String) (hle : cur ≤ start) :
    Sound s m cur (fieldVariable expression name cur start) fun made stop =>
      Named (∃ d, s.read start = .ok d ∧ d ≠ '(' ∧ isLetter d = false) made ∧ cur ≤ stop := by
  refine .source (.scan fun d hd => .ite (fun _ => ?_) fun hparen => .ite (fun _ => ?_)
    fun hletter => .pure ⟨.inr ⟨rfl, d, hd, by simpa using hparen, by simpa using hletter⟩,
      Int.le_rfl⟩)
  · exact .look fun _ => .progress (.skip fun _ h => (Sound.headed rfl Int.le_rfl
      ((hexpression.onward (by omega) none).right)).imp
      fun _ _ h => ⟨named_of_kinds h.1 rfl rfl, h.2⟩)
  · refine (sound_nameEnd start).bind_of_nil fun last hlast => .skip fun j hj => ?_
    have hlast := gives_skip _ hlast
    refine .test (.look fun _ => .progress ?_) (.progress ?_)
    · exact (Sound.headed rfl Int.le_rfl (.skip fun _ h =>
        (hexpression.onward (by omega) none).right)).declared.imp
        fun _ _ h => ⟨named_of_kinds h.1 rfl rfl, h.2⟩
    · exact (sound_declaredLeaf rfl Int.le_rfl).imp
        fun _ _ h => ⟨named_of_kinds h.1 rfl rfl, by omega⟩

lemma sound_reference (cur : Int) : Sound s m cur (reference expression cur) fun made stop =>
    Named (s.LacksName cur) made ∧ cur ≤ stop := by
  refine .source (.scan fun a ha => ?_)
  extract_lets start finish
  refine .scan fun c hc => .ite (fun _ => .expected ..) fun hletter =>
    (sound_nameEnd start).bind_of_nil fun last hlast => .scan fun k hk => .scan fun b hb => ?_
  have hle := gives_skip _ hlast
  have hle' := gives_skip _ hk
  have hfinish : ∀ {p : Parse Int} {L : Prop}, (L → s.LacksName cur) →
      Sound s m cur p (fun made stop => Named L made ∧ cur ≤ stop) →
      Sound s m cur (p >>= finish) fun made stop => Named (s.LacksName cur) made ∧ cur ≤ stop :=
    fun himp hp => hp.bind fun made _ h => (sound_lift (gives_skipBlanks _)).imp
      fun _ _ h' => ⟨by rw [h'.1, append_nil]; exact h.1.imp himp, by omega⟩
  have hfield : Sound s m cur (if b == '.' then liftM (s.holds namesField (k + 1)) else pure false)
      fun made found => made = [] ∧ (found = true → b = '.' ∧ ∃ d, s.read (k + 1) = .ok d ∧
        namesField d = true) := by
    refine .ite (fun hdot => ?_) fun _ => .pure ⟨rfl, nofun⟩
    refine sound_lift (Scan.Gives.bind (fun _ h => h) fun d hd => gives_pure fun hnames => ?_)
    exact ⟨by simpa using hdot, d, hd, hnames⟩
  refine hfield.bind_of_nil fun found hfound => ?_
  refine .either ?_ <| .either ?_ <| .ite (fun hfound' => ?_) fun _ => ?_
  · exact hfinish False.elim (sound_cellVariable hexpression _ (by omega))
  · exact hfinish False.elim (sound_indexedVariable hexpression _ (by omega))
  · obtain ⟨rfl, d, hd, hnames⟩ := hfound hfound'
    refine hfinish ?_ (sound_fieldVariable hexpression _ (by omega))
    rintro ⟨d', hd', hparen, hnone⟩
    obtain rfl : d = d' := Except.ok.inj (hd.symm.trans hd')
    have hdangles : s.Dangles start :=
      ⟨d, ⟨c, last, k, hc, by simpa using hletter, hlast, hk, hb, hd, hparen, hnone⟩, hnames⟩
    by_cases hat : (a == '@') = true
    · exact .inr ⟨by rw [ha, beq_iff_eq.1 hat], by simpa [start, hat] using hdangles⟩
    · exact .inl (by simpa [start, hat] using hdangles)
  · refine .progress (sound_variableHead_bind fun head hhead hcur => ?_)
    refine (sound_leaf (by rw [hhead]; rfl) (by rw [hcur]; exact Int.le_rfl)).bind
      fun made _ h => ?_
    refine (sound_lift (gives_skipBlanks _)).imp fun _ _ h' => ⟨?_, by omega⟩
    rw [h'.1, append_nil]
    exact named_of_kinds (h.1.trans (by rw [hhead])) rfl rfl

lemma sound_indexedTarget (name : String) (hle : cur ≤ start) :
    Sound s m cur (indexedTarget expression name cur start) fun made stop =>
      Aimed False made ∧ cur ≤ stop := by
  refine .source (.lift (gives_close ..) fun stop hstop =>
    (sound_fieldAfter? stop).bind_of_nil fun last? hlast => ?_)
  cases last? with
  | some last =>
    have hlast := hlast last rfl
    exact .progress (.then ((Sound.headed (R := fun _ => True) rfl Int.le_rfl
      (.then ((forward_argumentList hexpression hle).imp fun _ _ _ => trivial))).declared.imp
      fun _ _ h => ⟨aimed_of_kinds h.1 rfl, by omega⟩))
  | none =>
    exact .progress
      ((Sound.headed rfl Int.le_rfl (forward_argumentList hexpression hle)).declared.imp
      fun _ _ h => ⟨aimed_of_kinds h.1 rfl, h.2⟩)

lemma sound_fieldTarget (name : String) (hle : cur ≤ start) :
    Sound s m cur (fieldTarget expression name cur start) fun made stop =>
      Aimed (∃ d, s.read start = .ok d ∧ d ≠ '(' ∧ isLetter d = false) made ∧ cur ≤ stop := by
  refine .source (.scan fun d hd => .ite (fun _ => ?_) fun hparen => .ite (fun _ => ?_)
    fun hletter => ?_)
  · exact .look fun _ => .look fun _ => .progress ((Sound.headed rfl Int.le_rfl
      ((hexpression.onward Int.le_rfl none).right)).declared.imp
      fun _ _ h => ⟨aimed_of_kinds h.1 rfl, h.2⟩)
  · refine .skip fun last hlast => .skip fun j hj => .test (.look fun _ => .progress ?_)
      (.progress ?_)
    · exact (Sound.headed rfl Int.le_rfl (forward_argumentList hexpression (by omega))).declared.imp
        fun _ _ h => ⟨aimed_of_kinds h.1 rfl, h.2⟩
    · exact (sound_declaredLeaf rfl Int.le_rfl).imp fun _ _ h => ⟨aimed_of_kinds h.1 rfl, by omega⟩
  · -- only the node around is declared
    refine .then ((sound_emit (show FreeAll [.declare] from ⟨trivial, trivial⟩) ⟨trivial, trivial⟩
      ⟨trivial, trivial⟩).imp ?_)
    rintro _ - rfl
    exact ⟨.inr ⟨rfl, d, hd, by simpa using hparen, by simpa using hletter⟩, Int.le_rfl⟩

lemma sound_target (cur : Int) : Sound s m cur (target expression cur) fun made stop =>
    Aimed (∃ d, s.Fieldless cur d) made ∧ cur ≤ stop := by
  refine .source (.scan fun c hc => .ite (fun _ => .expected ..) fun hletter =>
    (sound_nameEnd cur).bind_of_nil fun last hlast => .scan fun k hk => .scan fun b hb => ?_)
  have hle := gives_skip _ hlast
  have hle' := gives_skip _ hk
  refine .either ?_ <| .either ?_ <| .ite (fun hdot => ?_) fun _ => .progress ?_
  · refine (sound_cellExtent k).bind_nil fun extent => ?_
    obtain ⟨_ | _, stop⟩ := extent <;>
      exact (Sound.headed rfl Int.le_rfl (.progress (.fail _))).imp
        fun _ _ h => ⟨aimed_of_kinds h.1 rfl, h.2⟩
  · exact (sound_indexedTarget hexpression _ (by omega)).imp
      fun _ _ h => ⟨h.1.imp_right fun h => h.2.elim, h.2⟩
  · obtain rfl : b = '.' := by simpa using hdot
    refine (sound_fieldTarget hexpression _ (by omega)).imp fun _ _ h =>
      ⟨h.1.imp_right (And.imp_right ?_), h.2⟩
    rintro ⟨d, hd, hparen, hnone⟩
    exact ⟨d, c, last, k, hc, by simpa using hletter, hlast, hk, hb, hd, hparen, hnone⟩
  · exact (sound_declaredLeaf rfl Int.le_rfl).imp fun _ _ h => ⟨aimed_of_kinds h.1 rfl, by omega⟩

/-! ### What no operator splits -/

omit hexpression in
lemma sound_operand {α : Type} {p : Parse α} {kind : Kind} {L : Prop}
    (hpromise : kind.promise = .operand) (hkind : kind.isExpression = true) (hle : k ≤ start)
    (hp : Sound s (m.inner kind) start p fun made _ => Operand (s.LacksAt kind start) made) :
    Sound s m k (spanNode kind start stop p) fun made _ => Operand L made := by
  have hordinary : kind.isOrdinary = true := by cases kind <;> first | rfl | cases hpromise
  exact (Sound.spanNode hordinary hle (hp.imp fun _ _ h =>
    ⟨grants_operand hpromise h, trivial⟩)).imp fun _ _ h => operand_of_kinds h.1 hkind

lemma sound_primary (whole start stop : Int) : Sound s m start
    (primary expression whole start stop) fun made _ => Operand (s.LacksName start) made := by
  have hword : ∀ {kind : Kind} {stop : Int}, kind.isSimple = true → kind.isExpression = true →
      Sound s m start (spanNode kind start stop (pure whole)) fun made _ =>
        Operand (s.LacksName start) made := fun hsimple hkind =>
    .source ((Sound.simple (R := fun _ => True) hsimple Int.le_rfl (.pure trivial)).imp
      fun _ _ h => operand_of_kinds h.1 hkind)
  have hkeyword : ∀ word, Sound s m start (keywordAt start word) fun made _ => made = [] :=
    fun _ => .source (sound_scan _)
  refine .source (.look fun _ => .either (.need <| sound_operand rfl rfl Int.le_rfl
    (.scan fun first hfirst => .look fun _ => (hexpression.from ?_ _ _).imp
      fun _ _ h => h.imp fun hlacks => ⟨first, hfirst, hlacks⟩)) <|
    .either (hword rfl rfl) <| (hkeyword _).bind_nil fun _ => .either (hword rfl rfl) <|
    (hkeyword _).bind_nil fun _ => .either (hword rfl rfl) <| .either ?_ ?_)
  · have := gives_skip _ hfirst
    omega
  · exact .need <| .orExpected <| .then ((sound_leaf rfl Int.le_rfl).imp
      fun _ _ h => operand_of_kinds h.1 rfl)
  · exact (sound_numberStarts start).bind_of_nil fun _ _ => .either
      (.then ((sound_number start).imp fun _ _ h => .inl h.1)) <| .either
      (.then ((sound_matrixLiteral hexpression start).imp
        fun _ _ h => operand_of_kinds h.1 rfl)) <| .either
      (.then ((sound_cellLiteral hexpression start).imp
        fun _ _ h => operand_of_kinds h.1 rfl)) <| .orExpected <|
      .then ((sound_reference hexpression start).imp fun _ _ h => h.1.operand)

/-- What does not start with a parenthesis ends where it is said to end. -/
lemma gives_primary_settled (whole : Int) (hP : s.Retreats start P) (hstop : P stop) :
    Gives s (primary expression whole start stop) fun _ stop' =>
      stop' = whole ∨ s.read start = .ok '(' ∧ P stop' := by
  have hdone : ∀ {α : Type} (p : Parse α), Gives s (p >>= fun _ => pure whole)
      fun _ stop' => stop' = whole ∨ s.read start = .ok '(' ∧ P stop' :=
    fun p => (gives_any p).bind fun _ _ _ => .pure (.inl rfl)
  have hspan : ∀ kind stop, Gives s (spanNode kind start stop (pure whole))
      fun _ stop' => stop' = whole ∨ s.read start = .ok '(' ∧ P stop' :=
    fun _ _ => .source (.node (.pure (.inl rfl)))
  refine .source (.lift (gives_self _) fun c hc => .ite (fun hparen => ?_)
    fun _ => .either (hspan ..) <| (gives_any _).bind fun _ _ _ => .either (hspan ..) <|
    (gives_any _).bind fun _ _ _ => .either (hspan ..) <| .either ?_ ?_)
  · refine .lift (gives_self _) fun d hd => .ite (fun _ => .expected ..)
      fun hd' => .source (.node ?_)
    have hback := hP.back stop hstop ⟨d, hd, .inr (.inl (by simpa using hd'))⟩
    refine .lift (gives_skipBlanks _) fun first hfirst => .lift
      (hP.gives_backBlanks hback) fun last hlast => ?_
    exact (hexpression.settled none (hP.mono (by omega)) hlast).mono fun _ _ h =>
      .inr ⟨by rw [hc, eq_of_beq hparen], h⟩
  · exact .lift (Scan.gives_any _) fun _ _ => .orExpected <| .orExpected <| hdone _
  · exact (gives_any _).bind fun _ _ _ => .either (hdone _) <| .either (hdone _) <|
      .either (hdone _) <| .orExpected <| hdone _

lemma sound_postfixed (start stop : Int) : Sound s m start (postfixed expression stop start)
    fun made _ => Operand (s.LacksName start) made := by
  have hquoted : ∀ kind, kind.promise = .operand → kind.isExpression = true →
      (s.Lacks start → s.LacksAt kind start) → ∀ k, Sound s m start (spanNode kind start stop
        (liftM (s.backBlanks k) >>= fun k => primary expression stop start k))
        fun made _ => Operand (s.LacksName start) made := fun _ hpromise hkind hgap _ =>
    sound_operand hpromise hkind Int.le_rfl (.look fun _ =>
      (sound_primary hexpression ..).imp fun _ _ h => h.imp fun hlacks => hgap (.inl hlacks))
  exact .source (.test (sound_primary hexpression ..) <| .test (sound_primary hexpression ..) <|
    .test (hquoted .transpose rfl rfl id _) <| hquoted .ctranspose rfl rfl id _)

lemma gives_postfixed_settled (hP : s.Retreats start P) (hstop : P stop) :
    Gives s (postfixed expression stop start) fun _ stop' =>
      stop' = stop ∨ s.read start = .ok '(' ∧ P stop' := by
  have hprimary : ∀ k, P k → Gives s (primary expression stop start k) fun _ stop' =>
      stop' = stop ∨ s.read start = .ok '(' ∧ P stop' :=
    fun k hk => gives_primary_settled hexpression stop hP hk
  have hspan : ∀ kind k, P k → Gives s (spanNode kind start stop
      (liftM (s.backBlanks k) >>= fun k => primary expression stop start k))
      fun _ stop' => stop' = stop ∨ s.read start = .ok '(' ∧ P stop' := fun _ _ hk =>
    .source (.node (.lift (hP.gives_backBlanks hk) fun _ h => hprimary _ h))
  refine .source (.lift (gives_self _) fun d hd => .ite
    (fun _ => hprimary _ hstop) fun hd' => .lift (Scan.gives_any _) fun _ _ => .either
    (hprimary _ hstop) <| .lift (gives_self _)
    fun e he => ?_)
  obtain rfl : d = '\'' := by simpa using hd'
  have hquote := hP.back stop hstop ⟨_, hd, .inr (.inr (.inl rfl))⟩
  refine .ite (fun hdot => hspan _ _ ?_) fun _ => hspan _ _ hquote
  have hback := hP.back (stop - 1) hquote
    ⟨e, he, .inr (.inr (.inr ⟨eq_of_beq hdot, by rw [Int.sub_add_cancel]; exact hd⟩))⟩
  rwa [Int.sub_sub] at hback

lemma sound_signed (stop : Int) (n : Nat) (start : Int) : Sound s m start
    (signed expression stop n start) fun made _ => Operand (s.LacksName start) made := by
  induction n generalizing m start with
  | zero => exact .fail _
  | succ n ih =>
    have hrest : ∀ {m : Mode} {kind : Kind} (k : Int),
        (∀ first, s.skipBlanks (k + 1) = .ok first → s.Lacks first → s.LacksAt kind k) →
        Sound s m k (liftM (s.skipBlanks (k + 1)) >>= signed expression stop n)
          fun made _ => Operand (s.LacksAt kind k) made := fun k hgap =>
            .scan fun first hfirst => by
      have hle := gives_skip _ hfirst
      exact (ih first).mono (by omega) fun _ _ h => h.imp fun hlacks =>
        hgap first hfirst (.inl hlacks)
    have hnot : ∀ {m : Mode} {L : Prop} {j : Int} (k : Int), j ≤ k → Sound s m j (spanNode .not k
        stop (liftM (s.skipBlanks (k + 1)) >>= signed expression stop n))
        fun made _ => Operand L made := fun k hle =>
      sound_operand rfl rfl hle (hrest k fun first hfirst hlacks => ⟨first, hfirst, hlacks⟩)
    refine .source (.look fun _ => .either (sound_operand rfl rfl Int.le_rfl
      (.test ?_ <| hrest start fun first hfirst hlacks => ⟨first, hfirst, hlacks⟩)) <|
      .either (hnot start Int.le_rfl) <| sound_postfixed hexpression ..)
    have hinner := hnot (m := m.inner .neg) (L := s.LacksAt .neg start) (j := start) (start + 1)
      (by omega)
    rwa [Int.add_assoc] at hinner

/-- Only a parenthesis, which may have signs before it, does not end where it is said to end. -/
lemma gives_signed_settled (n : Nat) (hP : s.Retreats start P) (hstop : P stop) :
    Gives s (signed expression stop n start) fun _ stop' =>
      stop' = stop ∨ s.Opens start ∧ P stop' := by
  induction n generalizing start with
  | zero => exact .fail _
  | succ n ih =>
    have hrest : ∀ {k c}, start ≤ k → s.read k = .ok c → (c = '-' ∨ c = '~') →
        Gives s (liftM (s.skipBlanks (k + 1)) >>= signed expression stop n)
          fun _ stop' => stop' = stop ∨ s.Opens k ∧ P stop' := fun hle hc hsign =>
      .lift (fun _ h => h) fun first hfirst => by
        have hle' := gives_skipBlanks _ hfirst
        exact (ih (hP.mono (by omega))).mono fun _ _ h =>
          h.imp_right (And.imp_left (.sign hc hsign hfirst))
    refine .source (.lift (gives_self _) fun c hc => .ite (fun hminus => ?_)
      fun _ => .ite (fun hnot => .source (.node (hrest Int.le_rfl hc (.inr (eq_of_beq hnot)))))
      fun _ => (gives_postfixed_settled hexpression hP hstop).mono fun _ _ h =>
        h.imp_right (And.imp_left .paren))
    have hminus : c = '-' ∨ c = '~' := .inl (eq_of_beq hminus)
    refine .source (.node (.lift (gives_self _) fun d hd => .ite (fun hnot => ?_)
      fun _ => hrest Int.le_rfl hc hminus))
    obtain rfl : d = '~' := eq_of_beq hnot
    have hnext : s.skipBlanks (start + 1) = .ok (start + 1) := by
      rw [skipBlanks, skip, steps, skipSteps, hd, ok_bind, if_neg (by decide)]
      rfl
    have hinner := hrest (show start ≤ start + 1 by omega) hd (.inr rfl)
    rw [Int.add_assoc] at hinner
    exact .source (.node (hinner.mono fun _ _ h =>
      h.imp_right (And.imp_left (.sign hc hminus hnext))))

lemma gives_signed_ahead (n : Nat) (hle : start ≤ stop) :
    Gives s (signed expression stop n start) fun _ stop' => start ≤ stop' := by
  by_cases hanchor : s.Anchor start
  · refine (gives_signed_settled hexpression n (hanchor.retreats Int.le_rfl) hle).mono
      fun _ _ h => ?_
    rcases h with rfl | ⟨-, h⟩
    · exact hle
    · exact h
  · refine (gives_signed_settled hexpression n
      ⟨fun _ _ _ => trivial, fun _ _ _ => trivial⟩ trivial).mono fun _ _ h => ?_
    rcases h with rfl | ⟨h, -⟩
    · exact hle
    · exact absurd h.anchor hanchor

/-! ### One level of an expression -/

lemma sound_operandNodes (op : Operator) (hspans : ∀ span ∈ spans, k ≤ span.1) :
    Sound s m k (operandNodes expression op spans) fun made _ =>
      (∀ kind ∈ kinds made, kind.isExpression = true) ∧
      ((kinds made).length = spans.length ∨ ∃ span ∈ spans, s.Lacks span.1) := by
  induction spans with
  | nil => exact .pure ⟨by simp [kinds], .inl rfl⟩
  | cons span spans ih =>
    obtain ⟨hspan, hspans⟩ := forall_mem_cons.1 hspans
    exact (hexpression.from hspan _ _).bind fun made _ h => (ih hspans).imp fun rest _ hrest =>
      kinds_append_cases
        (h.imp_right fun h => ⟨by rw [h.1]; rfl, h.2⟩) hrest

omit hexpression in
lemma gives_firstSplit (start stop : Int) (ops : List Operator) :
    (s.firstSplit start stop ops).Gives fun found? => ∀ op spans, found? = some (op, spans) →
      s.operands op start stop = .ok spans ∧ 1 < spans.length := by
  induction ops with
  | nil => exact gives_pure (by simp)
  | cons op ops ih =>
    refine .either ih <| Scan.Gives.bind (fun _ h => h) fun spans hspans => .ite
      (fun hlength => gives_pure ?_) fun _ => ih
    rintro _ _ ⟨⟩
    exact ⟨hspans, hlength⟩

lemma sound_operator {op : Operator} {L : Prop} (hspans : s.operands op start stop = .ok spans)
    (hlength : 1 < spans.length) (hfrom : ∀ span ∈ spans, start ≤ span.1) (hle : k ≤ start) :
    Sound s m k (spanNode op.kind start stop (operandNodes expression op spans))
      fun made _ => Operand L made := by
  have hpromise : op.kind.promise = .operands := by cases op <;> rfl
  have hkind : op.kind.isExpression = true := by cases op <;> rfl
  refine (Sound.spanNode (R := fun _ => True) (by cases op <;> rfl) hle
    ((sound_operandNodes hexpression op hfrom).imp fun made _ h => ⟨?_, trivial⟩)).imp
    fun _ _ h => operand_of_kinds h.1 hkind
  obtain ⟨hkinds, hcount⟩ := h
  have hall : (kinds made).all Kind.isExpression = true := all_eq_true.2 hkinds
  rw [Source.Grants, hpromise]
  rcases hcount with hcount | hlacks
  · refine .inl ?_
    rw [Promise.holds, hall, hcount]
    exact decide_eq_true hlength
  · refine .inr ⟨?_, start, rfl, ?_⟩
    · rw [Promise.holds, hall]
      rfl
    · cases op <;> exact ⟨_, stop, spans, rfl, hspans, hlacks⟩

lemma sound_expressionStep (start : Int) (stop? : Option Int) (op? : Option Operator) :
    Sound s m start (expressionStep expression start stop? op?)
      fun made _ => Operand (s.Lacks start) made := by
  refine .source ?_
  extract_lets read
  have hread : ∀ first, start ≤ first → (s.LacksName first → s.Lacks start) →
      Sound s m start (read first) fun made _ => Operand (s.Lacks start) made := by
    intro first hle hlacks
    refine .test (.progress (.progress (.then ((sound_leaf rfl hle).imp
      fun _ _ h => operand_of_kinds h.1 rfl)))) ?_
    extract_lets split
    have hsplit : ∀ stop, Sound s m start (split stop) fun made _ =>
        Operand (s.Lacks start) made := by
      intro stop
      have hfirst : (s.firstSplit first stop (Operator.after op?)).Gives fun found? =>
          ∀ op spans, found? = some (op, spans) →
            (s.operands op first stop = .ok spans ∧ 1 < spans.length) ∧
              ∀ span ∈ spans, first ≤ span.1 := fun _ h op spans hfound =>
        ⟨gives_firstSplit _ _ _ h op spans hfound, Source.gives_firstSplit _ _ _ h op spans hfound⟩
      refine .progress (.need <| .lift hfirst fun found? hfound => ?_)
      cases found? with
      | some found =>
        obtain ⟨⟨hspans, hlength⟩, hfrom⟩ := hfound _ _ rfl
        exact .then (sound_operator hexpression hspans hlength hfrom hle)
      | none => exact (sound_signed hexpression ..).mono hle fun _ _ h => h.imp hlacks
    cases stop? with
    | some stop => exact hsplit stop
    | none => exact .look hsplit
  refine .ite (fun hdots => .scan fun e he => .scan fun j hj => ?_) fun _ =>
    hread start Int.le_rfl .inl
  have hle := gives_dotsEnd _ he
  have hle' := gives_skip _ hj
  exact hread j (by omega) fun hlacks => .inr ⟨hdots, e, j, he, hj, hlacks⟩

omit hexpression in
/-- One level of an expression: it is a whole range, is split, or is read with its signs. -/
lemma gives_expressionStep_cases {P : List Syntax → Int → Prop} {stop? : Option Int}
    {op? : Option Operator} (hstep : ∀ first, s.Begins start first → (s.read first = .ok ':' →
        P [.leaf { kind := .wholeIndex, cur? := some first, code? := some ":" }] first) ∧
      ∀ stop, (stop? = some stop ∨ stop? = none ∧ s.expressionEnd first = .ok stop) →
        (∀ op spans, (∀ span ∈ spans, first ≤ span.1) → Gives s (do
          spanNode op.kind first stop (operandNodes expression op spans)
          return stop) P) ∧
        Gives s (signed expression stop s.steps first) P) :
    Gives s (expressionStep expression start stop? op?) P := by
  refine .source ?_
  extract_lets read
  have hread : ∀ first, s.Begins start first → Gives s (read first) P := by
    intro first hfirst
    obtain ⟨hwhole, hends⟩ := hstep first hfirst
    refine .lift (gives_self _) fun c hc => .ite (fun hcolon => ?_) fun _ => ?_
    · refine .progress (.progress ((gives_emit _).bind ?_))
      rintro _ - rfl
      exact .pure (hwhole (by rw [hc, eq_of_beq hcolon]))
    extract_lets split
    have hsplit : ∀ stop, (stop? = some stop ∨ stop? = none ∧ s.expressionEnd first = .ok stop) →
        Gives s (split stop) P := by
      intro stop hstop
      obtain ⟨hnodes, hsigned⟩ := hends stop hstop
      refine .progress (.lift (Scan.gives_any _)
        fun _ _ => .orExpected <| .lift (Source.gives_firstSplit ..)
        fun found hfound => ?_)
      cases found with
      | some found => exact hnodes _ _ (hfound _ _ rfl)
      | none => exact hsigned
    cases stop? with
    | some stop => exact hsplit stop (.inl rfl)
    | none =>
      exact .lift (fun _ h => h) fun stop h => hsplit stop (.inr ⟨rfl, h⟩)
  refine .ite (fun hdots => ?_) fun hdots => hread start (.inl ⟨by simpa using hdots, rfl⟩)
  exact .lift (fun _ h => h) fun e he => .lift (fun _ h => h)
    fun first hfirst => hread first (.inr ⟨hdots, e, he, hfirst⟩)

lemma orderly_expressionStep : Orderly s (expressionStep expression) where
  sound start stop? op? := sound_expressionStep hexpression start stop? op?
  ahead start op? := by
    refine gives_expressionStep_cases fun first hfirst => ⟨fun _ => hfirst.le, fun stop hstop => ?_⟩
    have hle := hfirst.le
    have hstop : first ≤ stop :=
      hstop.elim (fun h => by cases h) fun h => (gives_expressionEnd _ h.2).1
    refine ⟨fun op spans _ => (gives_any _).bind fun _ _ _ => .pure (by omega), ?_⟩
    exact (gives_signed_ahead hexpression _ hstop).mono fun _ _ h => by omega
  settled {P start stop} op? hP hstop := by
    refine gives_expressionStep_cases fun first hfirst => ⟨hP.range first hfirst.le,
      fun stop' hstop' => ?_⟩
    obtain rfl : stop = stop' := hstop'.elim Option.some.inj fun h => by cases h.1
    refine ⟨fun op spans _ => (gives_any _).bind fun _ _ _ => .pure hstop, ?_⟩
    refine (gives_signed_settled hexpression _ (hP.mono hfirst.le) hstop).mono fun _ _ h => ?_
    rcases h with rfl | ⟨-, h⟩
    · exact hstop
    · exact h

/-- An end that is given behind the start is not moved back behind the start. -/
lemma gives_expressionStep_within (op? : Option Operator) (hstart : 0 ≤ start)
    (hle : start ≤ stop) :
    Gives s (expressionStep expression start (some stop) op?) fun _ stop' => start ≤ stop' := by
  cases hdots : s.reads start "..." with
  | true =>
    -- the first of the dots is an anchor
    have hshows := (reads_iff hstart).1 hdots
    have hanchor : s.Anchor start := ⟨'.', hshows.read, rfl, by decide, by decide,
      fun _ hquote => by cases hshows.tail.read.symm.trans hquote⟩
    exact (orderly_expressionStep hexpression).settled op? (hanchor.retreats Int.le_rfl) hle
  | false =>
    refine gives_expressionStep_cases fun first hfirst => ⟨fun _ => hfirst.le,
      fun stop' hstop' => ?_⟩
    obtain rfl := hfirst.eq hdots
    obtain rfl : stop = stop' := hstop'.elim Option.some.inj fun h => by cases h.1
    exact ⟨fun op spans _ => (gives_any _).bind fun _ _ _ => .pure hle,
      gives_signed_ahead hexpression _ hle⟩

end Inner

lemma orderly_expressionSteps (n : Nat) : Orderly s (expressionSteps n) := by
  induction n with
  | zero => exact ⟨fun _ _ _ => .fail _, fun _ _ => .fail _, fun _ _ _ => .fail _⟩
  | succ n ih => exact orderly_expressionStep ih

lemma orderly_expression : Orderly s expression where
  sound start stop? op? := .source ((orderly_expressionSteps _).sound start stop? op?)
  ahead start op? := .source ((orderly_expressionSteps _).ahead start op?)
  settled op? hP hstop := .source ((orderly_expressionSteps _).settled op? hP hstop)

lemma sound_expression_within {start stop : Int} (op? : Option Operator) (hstart : 0 ≤ start)
    (hle : start ≤ stop) : Sound s m start (expression start (some stop) op?) fun made last =>
      Operand (s.Lacks start) made ∧ start ≤ last := by
  refine (orderly_expression.sound start (some stop) op?).with (.source ?_)
  cases depthBound s with
  | zero => exact .fail _
  | succ n => exact gives_expressionStep_within (orderly_expressionSteps n) op? hstart hle

/-- An expression ends where it is said to end, unless it is a whole range or a parenthesis with
signs before it, which leaves only what closes or transposes, and blanks. -/
theorem gives_expression_end (start : Int) (stop? : Option Int) (op? : Option Operator) :
    Gives s (expression start stop? op?) fun _ last =>
      s.Begins start last ∧ s.read last = .ok ':' ∨ ∃ first stop, s.Begins start first ∧
        (stop? = some stop ∨ stop? = none ∧ s.expressionEnd first = .ok stop) ∧
        (last = stop ∨ s.Opens first ∧ (s.read last = .ok ':' ∨ last ≤ stop ∧
          ∀ j, last < j → j ≤ stop → s.Trailing j)) := by
  refine .source ?_
  cases depthBound s with
  | zero => exact .fail _
  | succ n =>
    refine gives_expressionStep_cases fun first hfirst => ⟨fun h => .inl ⟨hfirst, h⟩,
      fun stop hstop => ?_⟩
    refine ⟨fun op spans _ => (gives_any _).bind fun _ _ _ =>
      .pure (.inr ⟨first, stop, hfirst, hstop, .inl rfl⟩), ?_⟩
    have hretreats : s.Retreats first fun last => s.read last = .ok ':' ∨
        last ≤ stop ∧ ∀ j, last < j → j ≤ stop → s.Trailing j := by
      refine ⟨fun last h htrailing => .inr ?_, fun last _ h => .inl h⟩
      rcases h with h | ⟨hle, h⟩
      · obtain ⟨c, hc, hback⟩ := htrailing
        cases h.symm.trans hc
        simp [isBlank] at hback
      · refine ⟨by omega, fun j hj hstop => ?_⟩
        by_cases heq : j = last
        · exact heq ▸ htrailing
        · exact h j (by omega) hstop
    refine (gives_signed_settled (orderly_expressionSteps n) _ hretreats
      (.inr ⟨Int.le_rfl, fun j hj hle => by omega⟩)).mono fun _ last h => ?_
    exact .inr ⟨first, stop, hfirst, hstop, h⟩

end Parse

end ArmaGen
