import ArmaGen.Proofs.Scan.Expression
import ArmaGen.Syntax.Function

/-!
# Scanners move forward

A scanner never steps back behind the position it is given (`Source.gives_close`,
`Source.gives_expressionEnd`), and the items of a list stand after each other
(`Source.gives_items`). What holds at a position goes on to hold where scanners of expressions and
lists get to, if no step leads out of it (`Source.Stays`). `Scan.Gives` and `Parse.Gives` say what
is known of a result, whenever there is one.
-/

namespace ArmaGen

open List

variable {α β : Type}

/-! ### What is known of results -/

/-- Whenever a scanner succeeds, its result has a property. -/
def Scan.Gives (x : Scan α) (P : α → Prop) : Prop :=
  ∀ ⦃a⦄, x = .ok a → P a

namespace Scan

variable {x : Scan α} {f : α → Scan β} {P P' : α → Prop} {Q : β → Prop}

lemma gives_pure {a : α} (h : P a) : Gives (pure a : Scan α) P := by
  rintro _ ⟨⟩
  exact h

lemma gives_error (failure : Failure) : Gives (.error failure : Scan α) P := by
  rintro _ ⟨⟩

lemma gives_any (x : Scan α) : Gives x fun _ => True :=
  fun _ _ => trivial

lemma gives_self (x : Scan α) : Gives x (x = .ok ·) :=
  fun _ h => h

lemma Gives.bind (hx : Gives x P) (hf : ∀ a, P a → Gives (f a) Q) : Gives (x >>= f) Q := by
  intro b hb
  cases x with
  | error failure => cases hb
  | ok a => exact hf a (hx rfl) hb

lemma Gives.mono (hx : Gives x P) (h : ∀ a, P a → P' a) : Gives x P' :=
  fun a ha => h a (hx ha)

variable {y : Scan α}

lemma Gives.ite {c : Prop} [Decidable c] (hx : c → Gives x P) (hy : ¬ c → Gives y P) :
    Gives (if c then x else y) P := by
  split
  · next h => exact hx h
  · next h => exact hy h

lemma Gives.either {c : Prop} [Decidable c] (hx : Gives x P) (hy : Gives y P) :
    Gives (if c then x else y) P :=
  .ite (fun _ => hx) fun _ => hy

lemma Gives.test {z : Scan β} {c : β → Prop} [∀ b, Decidable (c b)] (hx : Gives x P)
    (hy : Gives y P) : Gives (z >>= fun b => if c b then x else y) P :=
  (gives_any z).bind fun _ _ => .either hx hy

end Scan

/-- Whenever a parser succeeds on a text, what it made and its result are related. -/
def Parse.Gives (s : Source) (p : Parse α) (P : List Syntax → α → Prop) : Prop :=
  ∀ ⦃st : Setting⦄, st.source = s → ∀ ⦃a⦄, (p st).outcome = .ok a → P (p st).made a

namespace Parse

variable {s : Source} {p q : Parse α} {f : α → Parse β} {P P' : List Syntax → α → Prop}
  {Q : List Syntax → β → Prop}

protected lemma Gives.pure {a : α} (h : P [] a) : Gives s (pure a) P := by
  rintro st - _ ⟨⟩
  exact h

protected lemma Gives.fail (failure : Failure) : Gives s (fail failure) P := by
  rintro st - _ ⟨⟩

lemma gives_lift {x : Scan α} {P : α → Prop} (h : x.Gives P) :
    Gives s (liftM x) fun made a => made = [] ∧ P a :=
  fun _ _ _ ha => ⟨rfl, h ha⟩

lemma gives_source : Gives s source fun made a => made = [] ∧ a = s := by
  rintro st hst _ ⟨⟩
  exact ⟨rfl, hst⟩

lemma gives_note (line : Unit → String) : Gives s (note line) fun made _ => made = [] :=
  fun _ _ _ _ => rfl

lemma gives_emit (items : List Syntax) : Gives s (emit items) fun made _ => made = items :=
  fun _ _ _ _ => rfl

lemma gives_any (p : Parse α) : Gives s p fun _ _ => True :=
  fun _ _ _ _ => trivial

lemma Gives.mono (hp : Gives s p P) (h : ∀ made a, P made a → P' made a) : Gives s p P' :=
  fun _ hst a ha => h _ a (hp hst ha)

lemma bind_eq (p : Parse α) (f : α → Parse β) (st : Setting) :
    (∃ failure, (p st).outcome = .error failure ∧ ((p >>= f) st).made = (p st).made ∧
      ((p >>= f) st).outcome = .error failure) ∨
    ∃ a, (p st).outcome = .ok a ∧ ((p >>= f) st).made = (p st).made ++ (f a st).made ∧
      ((p >>= f) st).outcome = (f a st).outcome := by
  have hbind : (p >>= f) st = andThen p f st := rfl
  rw [hbind, andThen]
  rcases p st with ⟨made, notes, failure | a⟩
  · exact .inl ⟨failure, rfl, rfl, rfl⟩
  · exact .inr ⟨a, rfl, rfl, rfl⟩

lemma exists_of_outcome_bind {st : Setting} {b : β} (h : ((p >>= f) st).outcome = .ok b) :
    ∃ a, (p st).outcome = .ok a ∧ (f a st).outcome = .ok b := by
  rcases bind_eq p f st with ⟨failure, -, -, hr⟩ | ⟨a, ho, -, hr⟩
  · rw [hr] at h
    cases h
  · exact ⟨a, ho, hr ▸ h⟩

lemma outcome_source_bind {st : Setting} (hst : st.source = s) (f : Source → Parse β) :
    ((source >>= f) st).outcome = (f s st).outcome := by
  subst hst
  rfl

lemma Gives.bind (hp : Gives s p P)
    (hf : ∀ made a, P made a → Gives s (f a) fun rest b => Q (made ++ rest) b) :
    Gives s (p >>= f) Q := by
  intro st hst b hb
  rcases bind_eq p f st with ⟨failure, -, -, hr⟩ | ⟨a, ho, hm, hr⟩
  · rw [hr] at hb
    cases hb
  · rw [hm]
    exact hf _ a (hp hst ho) hst (hr ▸ hb)

lemma Gives.bind_of_nil {R : α → Prop} (hp : Gives s p fun made a => made = [] ∧ R a)
    (hf : ∀ a, R a → Gives s (f a) Q) : Gives s (p >>= f) Q := by
  refine hp.bind fun made a h => ?_
  rw [h.1]
  exact hf a h.2

protected lemma Gives.source {f : Source → Parse β} (hf : Gives s (f s) Q) :
    Gives s (source >>= f) Q :=
  gives_source.bind_of_nil fun _ h => h ▸ hf

protected lemma Gives.lift {x : Scan α} {R : α → Prop} (hx : x.Gives R)
    (hf : ∀ a, R a → Gives s (f a) Q) : Gives s (liftM x >>= f) Q :=
  (gives_lift hx).bind_of_nil hf

protected lemma Gives.expected (k : Int) (what : String) : Gives s (expected k what) P := by
  refine .source ?_
  have hreport : (s.expected k what : Scan α).Gives fun _ => False := by
    refine Scan.Gives.bind (Scan.gives_any _) fun _ _ => Scan.gives_error _
  exact (gives_lift hreport).mono fun _ _ h => h.2.elim

lemma gives_progress (k : Int) (label place : String) (x y : Int) :
    Gives s (progress k label place x y) fun made _ => made = [] :=
  .source (gives_note _)

protected lemma Gives.progress {f : Unit → Parse β} {k : Int} {label place : String} {x y : Int}
    (hf : Gives s (f ()) Q) : Gives s (progress k label place x y >>= f) Q := by
  refine (gives_progress ..).bind fun made _ h => ?_
  rw [h]
  exact hf

variable {c : Prop}

lemma Gives.ite [Decidable c] (hp : c → Gives s p P) (hq : ¬ c → Gives s q P) :
    Gives s (if c then p else q) P := by
  split
  · next h => exact hp h
  · next h => exact hq h

lemma Gives.either [Decidable c] (hp : Gives s p P) (hq : Gives s q P) :
    Gives s (if c then p else q) P :=
  .ite (fun _ => hp) fun _ => hq

lemma Gives.orExpected [Decidable c] {k : Int} {what : String} (hp : Gives s p P) :
    Gives s (if c then expected k what else p) P :=
  .either (.expected ..) hp

lemma Gives.wrap {head : Head} {close : List Syntax → α → Head × Except Failure β}
    (hp : Gives s p P)
    (hclose : ∀ made a b, P made a → (close made a).2 = .ok b →
      Q [.node (close made a).1 made] b) : Gives s (wrap head p close) Q := by
  intro st hst b hb
  have h := hp hst
  unfold Parse.wrap at hb ⊢
  rcases hrun : p st with ⟨made, notes, failure | a⟩ <;> rw [hrun] at hb h
  · cases hb
  · exact hclose made a b (h rfl) hb

lemma Gives.node {head : Head} (hp : Gives s p fun made a => P [.node head made] a) :
    Gives s (node head p) P :=
  hp.wrap fun _ _ _ h hb => Except.ok.inj hb ▸ h

end Parse

/-! ### Scanners -/

namespace Source

open Scan

/-- A text that ends with a line end. -/
def Ended (s : Source) : Prop :=
  s.read (-1) = .ok '\n'

lemma ended_append (before : String) : (ofString (before ++ "\n\n\n")).Ended := by
  have hchars : (ofString (before ++ "\n\n\n")).chars =
      (before.toList ++ ['\n', '\n', '\n']).toArray := by
    simp [ofString]
  have hsize : (ofString (before ++ "\n\n\n")).size = before.toList.length + 3 := by
    rw [size, hchars]
    simp
  have hlast : (-1 + (ofString (before ++ "\n\n\n")).size : Int).toNat =
      before.toList.length + 2 := by
    omega
  rw [Ended, read, at?, if_neg (by decide), if_pos (by omega), hlast, hchars]
  simp

variable {s : Source} {k lo : Int} {p : Char → Bool}

lemma gives_expected (k : Int) (what : String) {P : α → Prop} :
    (s.expected k what : Scan α).Gives P :=
  (gives_any _).bind fun _ _ => gives_error _

lemma gives_skipSteps (n : Nat) (k : Int) : (s.skipSteps p n k).Gives (k ≤ ·) := by
  induction n generalizing k with
  | zero => exact gives_error _
  | succ n ih =>
    refine .test ?_ <| gives_pure Int.le_rfl
    exact (ih (k + 1)).mono fun _ h => by omega

lemma gives_skip (k : Int) : (s.skip p k).Gives (k ≤ ·) :=
  gives_skipSteps ..

lemma gives_skipBlanks (k : Int) : (s.skipBlanks k).Gives (k ≤ ·) :=
  gives_skip k

variable {c : Char} {word : String} {hi : Int} {rows : Rows}

lemma gives_skip_of_read (hc : s.read k = .ok c) (hp : p c = true) :
    (s.skip p k).Gives (k < ·) := by
  have hsteps : s.skip p k = s.skipSteps p (2 * s.size + 3) (k + 1) := by
    rw [skip, steps, skipSteps, hc, ok_bind, if_pos hp]
  rw [hsteps]
  exact (gives_skipSteps ..).mono fun _ h => by omega

lemma gives_through (k : Int) : (s.through p k).Gives (k ≤ ·) :=
  (gives_skip _).bind fun _ h => gives_pure (by omega)

lemma gives_backBlanks {P : Int → Prop} (hk : P k)
    (hback : ∀ j c, P j → s.read j = .ok c → isBlank c = true → P (j - 1)) :
    (s.backBlanks k).Gives fun j => P j ∧ ∃ c, s.read j = .ok c ∧ isBlank c = false := by
  unfold backBlanks
  generalize s.steps = n
  induction n generalizing k with
  | zero => exact gives_error _
  | succ n ih =>
    exact (gives_self _).bind fun c hc => .ite (fun hblank => ih (hback k c hk hc hblank))
      fun hblank => gives_pure ⟨hk, c, hc, by simpa using hblank⟩

lemma exists_backBlanks_eq (hs : s.Ended) (hk : -1 ≤ k) (hlt : k < s.size) :
    ∃ j c, s.backBlanks k = .ok j ∧ s.read j = .ok c := by
  have hsteps : k + 2 ≤ s.steps := by
    unfold steps
    omega
  unfold backBlanks
  generalize s.steps = n at hsteps
  induction n generalizing k with
  | zero => omega
  | succ n ih =>
    by_cases hlast : k = -1
    · subst hlast
      refine ⟨-1, '\n', ?_, hs⟩
      rw [backSteps, hs]
      rfl
    · obtain ⟨c, hc⟩ := exists_read_eq (by omega) hlt
      rw [backSteps, hc, ok_bind]
      split
      · exact ih (by omega) (by omega) (by omega)
      · exact ⟨k, c, rfl, hc⟩

lemma read_of_find? {cs : List Char} {j : Int} (h : s.find? word k = some j)
    (hword : word.toList = c :: cs) : s.read j = .ok c :=
  Shows.read (hword ▸ (find?_spec h).2.1)

lemma gives_stringEnd (k : Int) : (s.stringEnd k).Gives fun e => k < e ∧ s.read e = .ok '\'' := by
  refine .test (gives_expected ..) ?_
  split
  · exact gives_expected ..
  · next h => exact .either (gives_expected ..) <| gives_pure ⟨(find?_spec h).1,
      read_of_find? h rfl⟩

lemma gives_pragmaEnd (k : Int) : (s.pragmaEnd k).Gives (k ≤ ·) := by
  unfold pragmaEnd
  split
  · exact gives_expected ..
  · next h => exact gives_pure (find?_spec h).1

lemma gives_commentEnd (k : Int) : (s.commentEnd k).Gives fun e => k ≤ e ∧
    (s.read e = .ok '\n' ∨ s.read (e - 1) = .ok '%' ∧ s.read e = .ok '\x7d') := by
  refine .test (gives_expected ..) ?_
  refine .test ?_ ?_ <;> split
  · exact gives_expected ..
  · next h =>
    obtain ⟨hle, hshows, -⟩ := find?_spec h
    refine gives_pure ⟨by omega, .inr ⟨?_, hshows.tail.read⟩⟩
    rw [Int.add_sub_cancel]
    exact hshows.read
  · exact gives_expected ..
  · next h => exact gives_pure ⟨(find?_spec h).1, .inl (read_of_find? h rfl)⟩

/-- A comment is only closed if something stands after its sign. -/
lemma gives_commentEnd_read (k : Int) :
    (s.commentEnd k).Gives fun stop => k ≤ stop ∧ ∃ c, s.read (k + 1) = .ok c := by
  intro stop hstop
  refine ⟨(gives_commentEnd k hstop).1, ?_⟩
  obtain ⟨c, -, hstop⟩ := bind_eq_ok.1 hstop
  split at hstop
  · exact (gives_expected (P := fun _ => False) _ _ hstop).elim
  · obtain ⟨d, hd, -⟩ := bind_eq_ok.1 hstop
    exact ⟨d, hd⟩

lemma gives_dotsEnd_find (k : Int) : (s.dotsEnd k).Gives (s.find? "\n" k = some ·) := by
  refine .either ?_ <| gives_expected ..
  split
  · exact gives_expected ..
  · next h => exact gives_pure h

lemma gives_dotsEnd (k : Int) : (s.dotsEnd k).Gives (k ≤ ·) :=
  (gives_dotsEnd_find k).mono fun _ h => (find?_spec h).1

lemma exists_find?_newline (hs : s.Ended) (h : s.clip k < s.size) :
    ∃ j, s.find? "\n" k = some j := by
  have hlast : s.read (s.size - 1 : Nat) = .ok '\n' := by
    rw [← hs, read, read, at?, at?, if_pos (by omega), if_neg (by decide), if_pos (by omega),
      show ((s.size - 1 : Nat) : Int) = -1 + s.size by omega]
  exact exists_find?_eq (by omega) (shows_singleton_of_read (by omega) hlast) (by decide)

lemma read_of_reads {cs : List Char} (h : s.reads k word = true) (hword : word.toList = c :: cs) :
    s.read k = .ok c := by
  have hlength : word.length = cs.length + 1 := by rw [← String.length_toList, hword]; rfl
  unfold reads at h
  rw [beq_iff_eq, hword, span, Array.toList_extract, hlength] at h
  have hcount : min (s.clip (k + (cs.length + 1 : Nat)) - s.clip k) (s.size - s.clip k) =
      cs.length + 1 := by
    have := congrArg length h
    rwa [length_take, length_drop] at this
  have hindex : s.chars[s.clip k]? = some c := by
    have := congrArg head? h
    rwa [head?_take, if_neg (by omega), head?_drop, Array.getElem?_toList] at this
  -- a word does not reach over the start of the text, so its position is not moved
  have hclip : s.at? k = s.chars[s.clip k]? := by
    unfold at?
    by_cases hk : 0 ≤ k
    · rw [if_pos hk]
      congr 1
      unfold clip at hcount ⊢
      rw [if_pos hk] at hcount ⊢
      omega
    · have hsize : 0 ≤ k + s.size := by
        unfold clip at hcount
        split at hcount <;> omega
      rw [if_neg hk, if_pos hsize, clip, if_neg hk]
  rw [read, hclip, hindex]

lemma gives_readsThen (k : Int) (word : String) (p : Char → Bool) :
    (s.readsThen k word p).Gives fun found => found = true → s.reads k word = true := by
  refine .ite (fun h => (gives_any _).mono fun _ _ _ => h) fun _ => ?_
  rintro _ ⟨⟩ h
  cases h

/-- A verbatim line ends before its line end, which does not stand where it starts. -/
lemma gives_verbatimEnd (hs : s.Ended) (hk : 0 ≤ k) : (s.verbatimEnd k).Gives (k ≤ ·) := by
  refine .ite (fun hreads => ?_) fun _ => gives_expected ..
  have hread : s.read k = .ok '_' := read_of_reads hreads rfl
  have hlt := lt_size_of_read hk hread
  obtain ⟨j, hj⟩ := exists_find?_newline hs (k := k) (by unfold clip; split <;> omega)
  have hle := (find?_spec hj).1
  have hne : j ≠ k := by
    rintro rfl
    rw [read_of_find? hj rfl] at hread
    cases hread
  rw [hj]
  exact gives_pure (by rw [Option.getD_some]; omega)

section Close

variable {close : Bracket → Int → Scan Int}
  (hclose : ∀ b k, (close b k).Gives fun e => k < e ∧ s.read e = .ok b.closing)

include hclose

lemma gives_parenSteps (n : Nat) (hk : lo ≤ k) :
    (s.parenSteps close n k).Gives fun e => lo ≤ e ∧ s.read e = .ok ')' := by
  induction n generalizing k with
  | zero => exact gives_error _
  | succ n ih =>
    refine (gives_self _).bind fun c hc => .either (gives_expected ..) <| .either
      ((gives_dotsEnd _).bind fun _ h => ih (by omega)) ?_
    refine .test ((gives_stringEnd _).bind fun _ h => ih (by omega)) ?_
    exact .either ((hclose _ _).bind fun _ h => ih (by omega)) <| .either
      ((hclose _ _).bind fun _ h => ih (by omega)) <| .ite
      (fun h => gives_pure ⟨hk, beq_iff_eq.1 h ▸ hc⟩) fun _ => ih (by omega)

lemma gives_matrixSteps (n : Nat) (hk : lo ≤ k) :
    (s.matrixSteps close n k).Gives fun e => lo ≤ e ∧ s.read e = .ok ']' := by
  induction n generalizing k with
  | zero => exact gives_error _
  | succ n ih =>
    refine (gives_self _).bind fun c hc => .either
      ((hclose _ _).bind fun _ h => ih (by omega)) <| .ite
      (fun h => gives_pure ⟨hk, beq_iff_eq.1 h ▸ hc⟩) fun _ => .either
      ((gives_commentEnd _).bind fun _ h => ih (by omega)) ?_
    exact .test ((gives_stringEnd _).bind fun _ h => ih (by omega)) <| ih (by omega)

lemma gives_cellSteps (n : Nat) (hk : lo ≤ k) :
    (s.cellSteps close n k).Gives fun e => lo ≤ e ∧ s.read e = .ok '\x7d' := by
  induction n generalizing k with
  | zero => exact gives_error _
  | succ n ih =>
    refine (gives_self _).bind fun c hc => .either (gives_expected ..) <|
      .test
      ((gives_stringEnd _).bind fun _ h => ih (by omega)) <| .either
      ((hclose _ _).bind fun _ h => ih (by omega)) <| .either
      ((hclose _ _).bind fun _ h => ih (by omega)) <| .ite (fun hclosing => ?_) fun _ =>
      ih (by omega)
    exact (gives_skipBlanks _).bind fun _ h => .test
      (gives_pure ⟨hk, beq_iff_eq.1 hclosing ▸ hc⟩) <| ih (by omega)

lemma gives_closeStep (b : Bracket) (k : Int) :
    (s.closeStep close b k).Gives fun e => k < e ∧ s.read e = .ok b.closing := by
  cases b with
  | paren =>
    exact .test (gives_expected ..) <| gives_parenSteps hclose _ (by omega)
  | matrix =>
    refine .test (gives_expected ..) <|
      .test ?_ <|
      gives_matrixSteps hclose _ (by omega)
    refine (gives_skipBlanks _).bind fun _ h => .test ?_ <| gives_matrixSteps hclose _ (by omega)
    exact (gives_stringEnd _).bind fun _ h => gives_matrixSteps hclose _ (by omega)
  | cell =>
    refine (gives_self _).bind fun c hc => .ite (fun _ => gives_expected ..) fun hopen =>
      (gives_cellSteps hclose _ Int.le_rfl).mono fun e he => ⟨?_, he.2⟩
    have hne : k ≠ e := by
      rintro rfl
      cases hc.symm.trans he.2
      exact hopen rfl
    omega

end Close

lemma gives_closing (b : Bracket) (k : Int) :
    (s.close b k).Gives fun e => k < e ∧ s.read e = .ok b.closing := by
  unfold close
  generalize s.size + 2 = n
  induction n generalizing b k with
  | zero => exact gives_error _
  | succ n ih => exact gives_closeStep ih b k

lemma gives_close (b : Bracket) (k : Int) : (s.close b k).Gives (k ≤ ·) :=
  (gives_closing b k).mono fun _ h => Int.le_of_lt h.1

/-! ### Expressions -/

/-- Positions that scanners of expressions do not leave: from `J` they get into `I`, a part of
it. -/
structure Stays (s : Source) (J I : Int → Prop) : Prop where
  weaken {k : Int} : I k → J k
  group {k m : Int} {b : Bracket} : J k → s.read k = .ok b.opening → s.close b k = .ok m → I (m + 1)
  string {k m : Int} : J k → s.stringAt k = .ok true → s.stringEnd k = .ok m → I (m + 1)
  dots {k m : Int} : J k → s.reads k "..." = true → s.dotsEnd k = .ok m → J m ∧ I (m + 1)
  pass {k : Int} {c : Char} : J k → s.read k = .ok c → opensList c = false →
    closesList c = false → s.stringAt k = .ok false → I (k + 1)
  back {k : Int} {c : Char} : I (k + 1) → s.read k = .ok c → isBlank c = true → I k

variable {J I : Int → Prop}

lemma stays_true (s : Source) : s.Stays (fun _ => True) fun _ => True := by
  constructor <;> simp

/-- Scanners do not get back to where they start, unless there is a blank. -/
lemma stays_of_read (hc : s.read k = .ok c) (hblank : isBlank c = false) :
    s.Stays (k ≤ ·) fun j => k < j ∧ (0 ≤ k → j ≤ s.size) where
  weaken h := by omega
  group hj _ hm := by
    obtain ⟨hle, hread⟩ := gives_closing _ _ hm
    exact ⟨by omega, fun _ => lt_size_of_read (by omega) hread⟩
  string hj _ hm := by
    obtain ⟨hlt, hread⟩ := gives_stringEnd _ hm
    exact ⟨by omega, fun _ => lt_size_of_read (by omega) hread⟩
  dots hj _ hm := by
    have hle := gives_dotsEnd _ hm
    have hread := read_of_find? (gives_dotsEnd_find _ hm) rfl
    exact ⟨by omega, by omega, fun _ => lt_size_of_read (by omega) hread⟩
  pass hj hd _ _ _ := ⟨by omega, fun _ => lt_size_of_read (by omega) hd⟩
  back {j d} hj hd hd' := by
    have hne : j ≠ k := by
      rintro rfl
      cases hc.symm.trans hd
      cases hblank.symm.trans hd'
    omega

section

variable (h : s.Stays J I) (hp : ∀ d ∈ "[(\x7b]\x7d)'".toList, p d = false)

include h hp

lemma Stays.gives_skip (hk : I k) : (s.skip p k).Gives fun j => I j ∧ (j = k ∨ I (j - 1)) := by
  unfold skip
  generalize s.steps = n
  suffices hsteps : ∀ k, I k → (s.skipSteps p n k).Gives fun j => I j ∧ (j = k ∨ I (j - 1)) from
    hsteps k hk
  induction n with
  | zero => exact fun _ _ => gives_error _
  | succ n ih =>
    refine fun k hk => (gives_self _).bind fun c hc => .ite (fun hpc => ?_) fun _ =>
      gives_pure ⟨hk, .inl rfl⟩
    have hclass : ∀ {set : String}, (∀ d ∈ set.toList, d ∈ "[(\x7b]\x7d)'".toList) →
        oneOf set c = false := fun hset => oneOf_eq_false hpc fun d hd => hp d (hset d hd)
    have hnext := h.pass (h.weaken hk) hc (hclass (by decide)) (hclass (by decide))
      (stringAt_eq_false hc (ne_of_class hpc (hp _ (by decide))))
    refine (ih (k + 1) hnext).mono fun j hj => ⟨hj.1, .inr ?_⟩
    rcases hj.2 with rfl | hj'
    · rwa [Int.add_sub_cancel]
    · exact hj'

lemma Stays.gives_through (hk : I (k + 1)) :
    (s.through p k).Gives fun m => I (m + 1) ∧ (m = k ∨ I m) :=
  (h.gives_skip hp hk).bind fun j hj => gives_pure
    ⟨by rw [Int.sub_add_cancel]; exact hj.1, hj.2.imp_left fun hj => by omega⟩

end

lemma Stays.gives_pair {x : Scan Int} {f : Int → Scan Int} {P : Int → Prop} (h : s.Stays J I)
    (hk : I (k + 1)) (hf : ∀ {i}, I i → (f i).Gives P)
    (hx : s.read (k + 1) ≠ .ok '=' → x.Gives P) :
    (do if (← s.read (k + 1)) == '=' then f (k + 2) else x).Gives P := by
  refine (gives_self _).bind fun d hd => .ite (fun hequal => ?_) fun hne =>
    hx (by simpa [hd] using hne)
  cases beq_iff_eq.1 hequal
  have hnext := h.pass (h.weaken hk) hd rfl rfl (stringAt_eq_false hd (by decide))
  rw [Int.add_assoc] at hnext
  exact hf hnext

/-- The search for the end of an expression stops where it starts, or it goes on. -/
lemma Stays.gives_expressionSteps (h : s.Stays J I) (n : Nat) (hk : J k) :
    (s.expressionSteps n k).Gives fun j => (j = k ∨ I j) ∧ ∃ c, s.read j = .ok c ∧
        (endsExpression c = true ∨ c = '=' ∧ s.read (j + 1) ≠ .ok '=') := by
  induction n generalizing k with
  | zero => exact gives_error _
  | succ n ih =>
    refine (gives_self _).bind fun c hc => ?_
    have hgo := fun {i} (hi : I i) => (ih (h.weaken hi)).mono fun j hj =>
      (⟨.inr (hj.1.elim (· ▸ hi) id), hj.2⟩ : (j = k ∨ I j) ∧ _)
    have hgroup := fun b (hb : (c == b.opening) = true) =>
      (gives_self (s.close b k)).bind fun m hm => hgo (h.group hk (beq_iff_eq.1 hb ▸ hc) hm)
    refine .ite (hgroup .paren) fun h1 => .ite (hgroup .matrix) fun h2 => (gives_self _).bind
      fun found hs => .ite (fun hfound => (gives_self _).bind fun m hm =>
        hgo (h.string hk (hfound ▸ hs) hm)) fun h3 => .ite (hgroup .cell) fun h4 => .ite
      (fun hd => (gives_self _).bind fun m hm => hgo (h.dots hk hd hm).2) fun _ => ?_
    have hpass : endsExpression c = false → I (k + 1) := fun hends =>
      h.pass hk hc (by simp_all [opensList, oneOf]) (oneOf_eq_false_of_not hends (by decide))
        (by simpa [h3] using hs)
    refine .ite (fun h' => ?_) fun _ => .ite (fun h' => ?_) fun _ => .ite
      (fun h' => gives_pure ⟨.inl rfl, c, hc, .inl h'⟩) fun h' => hgo (hpass (by simpa using h'))
    · cases beq_iff_eq.1 h'
      exact h.gives_pair (hpass rfl) hgo fun hne => gives_pure ⟨.inl rfl, _, hc, .inr ⟨rfl, hne⟩⟩
    · have hnext := hpass (oneOf_eq_false h' (by decide))
      exact h.gives_pair hnext hgo fun _ => hgo hnext

/-- An expression starts at a position. -/
abbrev Expressive (s : Source) (k : Int) : Prop :=
  ∃ c, s.read k = .ok c ∧ startsExpression c = true

/-- What starts an expression neither ends it nor is a blank or a sign of assignment. -/
lemma not_ends_of_starts (h : startsExpression c = true) :
    c ≠ '=' ∧ endsExpression c = false ∧ isBlank c = false := by
  refine ⟨ne_of_class h rfl, oneOf_eq_false h (by decide), ?_⟩
  simp [isBlank, ne_of_class h (d := ' ') rfl, ne_of_class h (d := '\t') rfl]

lemma Stays.gives_expressionEnd (h : s.Stays J I) (hk : J k) :
    (s.expressionEnd k).Gives fun stop => I (stop + 1) ∧ s.Expressive k := by
  refine (gives_self _).bind fun c hc => .ite (fun _ => gives_expected ..) fun hstarts => ?_
  have hstarts : startsExpression c = true := by simpa using hstarts
  obtain ⟨hne, hends, -⟩ := not_ends_of_starts hstarts
  refine (h.gives_expressionSteps _ hk).bind fun j hj =>
    (gives_backBlanks ?_ fun i d hi hd hblank => ?_).mono fun _ h => ⟨h.1, c, hc, hstarts⟩
  · rw [Int.sub_add_cancel]
    obtain ⟨rfl | hj, d, hd, hstop⟩ := hj
    · cases hc.symm.trans hd
      exact absurd hstop (by simp [hne, hends])
    · exact hj
  · rw [Int.sub_add_cancel]
    exact h.back hi hd hblank

/-- In a list separated by blanks, what was read so far grows: `last` is where it starts, or `I`
holds behind it. -/
lemma Stays.gives_spacedSteps (h : s.Stays J I) (n : Nat) {last : Int} (hk : J k)
    (hlast : last = k ∧ s.Expressive k ∨ I (last + 1)) :
    (s.spacedSteps n last k).Gives fun j => I (j + 1) := by
  induction n generalizing last k with
  | zero => exact gives_error _
  | succ n ih =>
    refine (gives_self _).bind fun c hc => ?_
    -- where the search goes on behind what was read, and where that does not grow
    have hgo : ∀ {m}, I (m + 1) → (s.spacedSteps n m (m + 1)).Gives fun j => I (j + 1) := fun hm =>
      ih (h.weaken hm) (.inr hm)
    have hgroup := fun b (hb : (c == b.opening) = true) =>
      (gives_self (s.close b k)).bind fun m hm => hgo (h.group hk (beq_iff_eq.1 hb ▸ hc) hm)
    refine .ite (hgroup .paren) fun h1 => .ite (hgroup .matrix) fun h2 => .ite (fun h3 => ?_)
      fun h3 => .ite (hgroup .cell) fun h4 => ?_
    · cases beq_iff_eq.1 h3
      refine (gives_self _).bind fun found hs => ?_
      rw [← stringAt_quote hc] at hs
      refine .ite (fun h' => (gives_self _).bind fun m hm => hgo (h.string hk (h' ▸ hs) hm))
        fun h' => hgo (h.pass hk hc rfl rfl ?_)
      simpa [h'] using hs
    have hpass : closesList c = false → I (k + 1) := fun hcloses =>
      h.pass hk hc (by simp_all [opensList, oneOf]) hcloses
        (stringAt_eq_false hc (by simpa using h3))
    have hstop : c = '=' ∨ endsExpression c = true ∨ isBlank c = true → I (last + 1) := by
      intro hnot
      rcases hlast with ⟨-, d, hd, hstarts⟩ | hlast
      · cases hc.symm.trans hd
        simp [not_ends_of_starts hstarts] at hnot
      · exact hlast
    have hkeep : ∀ {i}, I i → (s.spacedSteps n last i).Gives fun j => I (j + 1) := by
      refine fun hi => ih (h.weaken hi) (.inr ?_)
      cases hcloses : closesList c with
      | false => exact hlast.elim (fun hl => hl.1 ▸ hpass hcloses) id
      | true =>
        exact hstop (.inr (.inl (of_oneOf hcloses
          (show ∀ d ∈ "]\x7d)".toList, endsExpression d = true by decide))))
    refine .ite (fun hd => (gives_self _).bind fun m hm => hkeep (h.dots hk hd hm).2) fun _ =>
      .ite (fun h' => gives_pure (hstop (.inr (.inl (beq_iff_eq.1 h' ▸ rfl))))) fun _ =>
      .ite (fun h' => ?_) fun _ => .ite (fun h' => ?_) fun _ => .ite (fun h' => ?_) fun _ =>
      .ite (fun h' => ?_) fun _ => .ite (fun h' => gives_pure (hstop (.inr (.inl h'))))
        fun hends => ?_
    · cases beq_iff_eq.1 h'
      exact h.gives_pair (hpass rfl) hkeep fun _ => gives_pure (hstop (.inl rfl))
    · have hnext := hpass (oneOf_eq_false h' (by decide))
      exact h.gives_pair hnext hkeep fun _ => hkeep hnext
    · exact (h.gives_through (by decide) (hpass (oneOf_eq_false h' (by decide)))).bind fun _ hm =>
        hkeep hm.1
    · exact .test (gives_pure (hstop (.inr (.inr h')))) <|
        (h.gives_through (by decide) (hpass (oneOf_eq_false h' (by decide)))).bind fun _ hm =>
          hkeep hm.1
    · have hnext := hpass (oneOf_eq_false_of_not (by simpa using hends) (by decide))
      exact .either ((h.gives_through (by decide) hnext).bind fun _ hm => hgo hm.1) <| hkeep hnext

lemma Stays.gives_spacedExpressionEnd (h : s.Stays J I) (hk : J k) :
    (s.spacedExpressionEnd k).Gives fun stop => I (stop + 1) ∧ s.Expressive k := by
  refine (gives_self _).bind fun c hc => .ite (fun _ => gives_expected ..) fun hstarts => ?_
  have hstarts : s.Expressive k := ⟨c, hc, by simpa using hstarts⟩
  exact (h.gives_spacedSteps _ hk (.inl ⟨rfl, hstarts⟩)).mono fun _ h => ⟨h, hstarts⟩

lemma le_of_stays {x : Scan Int} (hx : ∀ {J I}, s.Stays J I → J k →
      x.Gives fun stop => I (stop + 1) ∧ s.Expressive k) :
    x.Gives fun stop => (k ≤ stop ∧ (0 ≤ k → stop < s.size)) ∧ s.Expressive k := by
  intro stop hstop
  obtain ⟨-, c, hc, hstarts⟩ := hx (stays_true s) trivial hstop
  have hstays := stays_of_read hc (not_ends_of_starts hstarts).2.2
  exact (hx hstays Int.le_rfl hstop).imp_left fun h => ⟨Int.lt_add_one_iff.1 h.1, h.2⟩

lemma gives_expressionEnd (k : Int) :
    (s.expressionEnd k).Gives fun stop => k ≤ stop ∧ s.Expressive k :=
  (le_of_stays Stays.gives_expressionEnd).mono fun _ h => ⟨h.1.1, h.2⟩

/-- What stands at `k` is no blank, and after it come blanks only up to what ends an expression, or
the sign of an assignment. -/
def Finishes (s : Source) (k : Int) : Prop :=
  (∃ c, s.read k = .ok c ∧ isBlank c = false) ∧ ∃ j c, k < j ∧
    (∀ i, k < i → i < j → ∃ c, s.read i = .ok c ∧ isBlank c = true) ∧ s.read j = .ok c ∧
    (endsExpression c = true ∨ c = '=' ∧ s.read (j + 1) ≠ .ok '=')

lemma gives_expressionEnd_finishes (k : Int) : (s.expressionEnd k).Gives s.Finishes := by
  refine (gives_any _).bind fun _ _ => .either (gives_expected ..) <|
    ((stays_true s).gives_expressionSteps _ trivial).bind fun j ⟨_, c, hc, hends⟩ =>
      (gives_backBlanks (P := fun last => last < j ∧ ∀ i, last < i → i < j →
        ∃ c, s.read i = .ok c ∧ isBlank c = true) ⟨by omega, fun i _ _ => by omega⟩ ?_).mono
      fun last ⟨h, hlast⟩ => ⟨hlast, j, c, h.1, h.2, hc, hends⟩
  intro last d h hd hblank
  refine ⟨by omega, fun i hi hij => ?_⟩
  rcases Int.lt_or_eq_of_le (show last ≤ i by omega) with hi | rfl
  · exact h.2 i hi hij
  · exact ⟨d, hd, hblank⟩

/-- What a scanner finds stands in the text, and not before its start: the character that closes a
construct, the first line end after a continuation mark, or the last character of an expression. -/
theorem ends_in_text (s : Source) (start : Nat) :
    (∀ b, (s.close b start).Gives fun k => start < k ∧ k < s.size ∧ s.read k = .ok b.closing) ∧
    ((s.stringEnd start).Gives fun k => start < k ∧ k < s.size ∧ s.read k = .ok '\'') ∧
    ((s.commentEnd start).Gives fun k => start ≤ k ∧ k < s.size ∧
      (s.read k = .ok '\n' ∨ s.read (k - 1) = .ok '%' ∧ s.read k = .ok '\x7d')) ∧
    ((s.dotsEnd start).Gives fun k => start ≤ k ∧ k < s.size ∧ s.read k = .ok '\n' ∧
      ∀ j : Int, start ≤ j → j < k → s.read j ≠ .ok '\n') ∧
    ((s.expressionEnd start).Gives fun k => start ≤ k ∧ k < s.size ∧ s.Finishes k) ∧
    ((s.spacedExpressionEnd start).Gives fun k => start ≤ k ∧ k < s.size) := by
  have hsize : ∀ {k : Int} {c : Char}, start ≤ k → s.read k = .ok c → k < s.size := fun hk hc =>
    lt_size_of_read (by omega) hc
  refine ⟨fun b k hk => ?_, fun k hk => ?_, fun k hk => ?_, fun k hk => ?_, fun k hk => ?_,
    fun k hk => ?_⟩
  · obtain ⟨hlt, hread⟩ := gives_closing b _ hk
    exact ⟨hlt, hsize (Int.le_of_lt hlt) hread, hread⟩
  · obtain ⟨hlt, hread⟩ := gives_stringEnd _ hk
    exact ⟨hlt, hsize (Int.le_of_lt hlt) hread, hread⟩
  · obtain ⟨hle, hread⟩ := gives_commentEnd _ hk
    exact ⟨hle, hread.elim (hsize hle) fun h => hsize hle h.2, hread⟩
  · have hfind := gives_dotsEnd_find _ hk
    obtain ⟨hle, -, hfirst⟩ := find?_spec hfind
    have hread := read_of_find? hfind rfl
    exact ⟨hle, hsize hle hread, hread, fun j hj hjk h =>
      hfirst j (by omega) hj hjk (shows_singleton_of_read (by omega) h)⟩
  · obtain ⟨⟨hle, hlt⟩, -⟩ := le_of_stays Stays.gives_expressionEnd hk
    exact ⟨hle, hlt (by omega), gives_expressionEnd_finishes _ hk⟩
  · exact (le_of_stays Stays.gives_spacedExpressionEnd hk).1.imp_right fun h => h (by omega)

/-! ### Lists -/

/-- Items stand one after the other between two positions. -/
def Listed (lo hi : Int) (spans : List (Int × Int)) : Prop :=
  spans.Pairwise (·.2 < ·.1) ∧ ∀ span ∈ spans, lo < span.1 ∧ span.1 ≤ span.2 ∧ span.2 < hi

/-- Rows in reverse order, whose items stand one after the other before a position. -/
def Piled (lo hi : Int) (rows : Rows) : Prop :=
  Listed lo hi rows.flatten.reverse

lemma Listed.mono {hi' : Int} {spans : List (Int × Int)} (h : Listed lo hi spans)
    (hle : hi ≤ hi') : Listed lo hi' spans := by
  refine ⟨h.1, fun span hspan => ?_⟩
  have := h.2 span hspan
  omega

lemma piled_nil (hi : Int) : Piled lo hi [[]] := by
  simp [Piled, Listed]

lemma Piled.addItem {start stop : Int} (h : Piled lo hi rows) (hlo : lo < start)
    (hhi : hi ≤ start) (hle : start ≤ stop) :
    Piled lo (stop + 1) (rows.addItem (start, stop)) := by
  have hflatten : (rows.addItem (start, stop)).flatten = (start, stop) :: rows.flatten := by
    cases rows <;> simp [Rows.addItem]
  rw [Piled, hflatten, reverse_cons]
  refine ⟨pairwise_append.2 ⟨h.1, pairwise_singleton .., fun span hspan => ?_⟩,
    forall_mem_append.2 ⟨fun span hspan => ?_, forall_mem_singleton.2 ?_⟩⟩
  · have := h.2 span hspan
    simp
    omega
  · have := h.2 span hspan
    omega
  · exact ⟨hlo, hle, Int.lt_succ stop⟩

lemma Piled.inOrder (h : Piled lo hi rows) : Listed lo hi rows.inOrder.flatten := by
  rwa [Rows.inOrder, ← reverse_flatten]

/-- A list was read up to a bracket that closes, among positions that are not left. -/
def Read (s : Source) (I : Int → Prop) (lo : Int) : Rows × Int → Prop
  | (rows, stop) => Listed lo stop rows.flatten ∧ I stop ∧
      ∃ c, s.read stop = .ok c ∧ closesList c = true

section

variable (h : s.Stays I I)

include h

lemma Stays.next (hk : I k) (hc : s.read k = .ok c) (hstarts : ¬ startsExpression c = true)
    (hcloses : closesList c = false) : I (k + 1) := by
  refine h.pass hk hc (oneOf_eq_false_of_not (by simpa using hstarts) (by decide)) hcloses
    (stringAt_eq_false hc ?_)
  rintro rfl
  exact hstarts rfl

lemma Stays.gives_commaSteps (n : Nat) (full : Bool) (hrows : Piled lo k rows) (hlo : lo < k)
    (hk : I k) : (s.commaSteps n rows full k).Gives (s.Read I lo) := by
  induction n generalizing rows full k with
  | zero => exact gives_error _
  | succ n ih =>
    have hgo : ∀ {rows' full' j}, rows'.flatten = rows.flatten → k ≤ j → I j →
        (s.commaSteps n rows' full' j).Gives (s.Read I lo) := by
      intro rows' full' j heq hj
      refine ih _ ?_ (by omega)
      rw [Piled, heq]
      exact hrows.mono hj
    refine (gives_self _).bind fun c hc => .ite (fun hd => (gives_self _).bind fun m hm => ?_)
      fun _ => .ite (fun _ => .either (gives_expected ..) <| (gives_self _).bind fun stop
        hstop => ?_)
      fun hstarts => ?_
    · have := gives_dotsEnd _ hm
      exact hgo rfl (by omega) (h.dots hk hd hm).2
    · have hle := Source.gives_expressionEnd k hstop
      exact ih _ (hrows.addItem hlo Int.le_rfl hle.1) (by omega) (h.gives_expressionEnd hk hstop).1
    have hnext := h.next hk hc hstarts
    refine .ite (fun h' => .either (hgo rfl (by omega) (hnext ?_)) <| gives_expected ..) fun _ =>
      .ite (fun h' => .either (hgo rfl (by omega) (hnext ?_)) <| gives_expected ..) fun _ => .ite
      (fun h' => gives_pure ⟨hrows.inOrder, hk, c, hc, h'⟩) fun h' =>
        hgo rfl (by omega) (hnext (by simpa using h'))
    all_goals exact beq_iff_eq.1 h' ▸ rfl

lemma Stays.gives_commaList (hk : I (k + 1)) : (s.commaList k).Gives (s.Read I k) := by
  refine .test (gives_expected ..) <| (gives_self _).bind fun j hj => (gives_self _).bind
    fun c hc => ?_
  have hle := gives_skipBlanks _ hj
  have hj := (h.gives_skip (by decide) hk hj).1
  refine .ite (fun hcloses => gives_pure ⟨(piled_nil j).inOrder, hj, c, hc, ?_⟩) fun _ =>
    h.gives_commaSteps _ _ (piled_nil _) (by omega) hj
  exact of_oneOf (q := (closesList · = true)) hcloses (by decide)

/-- The rows read so far lie between `lo` and the position, which stays in `I`. -/
lemma Stays.gives_spaceSteps (n : Nat) (full dots : Bool) (hrows : Piled lo k rows) (hlo : lo < k)
    (hk : I k) : (s.spaceSteps n rows full dots k).Gives (s.Read I lo) := by
  induction n generalizing rows full dots k with
  | zero => exact gives_error _
  | succ n ih =>
    have hstep : ∀ rows' full' dots' j, rows'.flatten = rows.flatten → k ≤ j → I j →
        (s.spaceStep (s.spaceSteps n) rows' full' dots' j).Gives (s.Read I lo) := by
      intro rows' full' dots' j heq hj hIj
      have hrows' : ∀ i, k ≤ i → Piled lo i rows' := by
        intro i hi
        rw [Piled, heq]
        exact hrows.mono hi
      refine (gives_self _).bind fun c hc => .ite (fun _ => .either (gives_expected ..) <|
        (gives_self _).bind fun stop hstop => ?_) fun hstarts => .ite
        (fun h' => gives_pure ⟨(hrows' j hj).inOrder, hIj, c, hc, h'⟩) fun hcloses => ?_
      · have hle := (le_of_stays Stays.gives_spacedExpressionEnd hstop).1
        exact ih _ _ ((hrows' j hj).addItem (by omega) Int.le_rfl hle.1) (by omega)
          (h.gives_spacedExpressionEnd hIj hstop).1
      · have hnext := h.next hIj hc hstarts (by simpa using hcloses)
        exact .either (ih _ _ (hrows' _ (by omega)) (by omega) hnext) <|
          ih _ _ (hrows' _ (by omega)) (by omega) hnext
    rw [spaceSteps]
    extract_lets rows' go
    have hrows' : rows'.flatten = rows.flatten := by
      unfold rows'
      split <;> rfl
    have hgo : ∀ j, k ≤ j → I j → (go j).Gives (s.Read I lo) :=
      fun j hj => hstep _ _ _ _ hrows' hj
    have hread : ∀ j, k ≤ j → I j → (do
        let c ← s.read j
        if c == ';' || c == '\n' then
          if c == ';' then s.through (oneOf " \n") j >>= go else pure j >>= go
        else s.spaceStep (s.spaceSteps n) rows full (dots || s.reads k "...") j).Gives
          (s.Read I lo) := by
      refine fun j hj hIj => (gives_self _).bind fun c hc => .either (.ite (fun h' => ?_)
        fun _ => hgo j hj hIj) <| hstep _ _ _ _ rfl hj hIj
      cases beq_iff_eq.1 h'
      refine (gives_self _).bind fun m hm => ?_
      have hle := Source.gives_through _ hm
      have hnext := h.next hIj hc (by decide) rfl
      exact hgo m (by omega) ((h.gives_through (by decide) hnext hm).2.elim (· ▸ hIj) id)
    exact .ite (fun hd => (gives_self _).bind fun m hm =>
      hread m (gives_dotsEnd k hm) (h.dots hk hd hm).1) fun _ => hread k Int.le_rfl hk

/-- The items of a list stand one after the other between its bracket and its end. -/
lemma Stays.gives_itemList (hk : I (k + 1)) : (s.itemList k).Gives (s.Read I k) := by
  refine .test (.test (gives_expected ..) <| (gives_self _).bind fun j hj => ?_) <|
    h.gives_commaList hk
  have hle := gives_skipBlanks _ hj
  exact h.gives_spaceSteps _ _ _ (piled_nil _) (by omega) (h.gives_skip (by decide) hk hj).1

end

/-- The items of each row stand one after the other from a position on. -/
def Rowed (lo : Int) (rows : Rows) : Prop :=
  ∀ row ∈ rows, row.Pairwise (·.1 ≤ ·.1) ∧ ∀ span ∈ row, lo ≤ span.1 ∧ span.1 ≤ span.2

lemma Listed.rowed (h : Listed lo hi rows.flatten) : Rowed lo rows := by
  intro row hrow
  have hspans : ∀ span ∈ row, lo < span.1 ∧ span.1 ≤ span.2 ∧ span.2 < hi := fun span hspan =>
    h.2 span (mem_flatten_of_mem hrow hspan)
  refine ⟨((pairwise_flatten.1 h.1).1 row hrow).imp_of_mem fun ha _ hlt => ?_, fun span hspan => ?_⟩
  · have := hspans _ ha
    omega
  · have := hspans span hspan
    omega

lemma Rowed.flatten (h : Rowed lo rows) : ∀ span ∈ rows.flatten, lo ≤ span.1 := by
  intro span hspan
  obtain ⟨row, hrow, hspan⟩ := mem_flatten.1 hspan
  exact ((h row hrow).2 span hspan).1

lemma gives_commaItems (k : Int) : (s.commaItems k).Gives (Rowed k) :=
  ((stays_true s).gives_commaList trivial).bind fun _ h => gives_pure h.1.rowed

lemma gives_items (k : Int) : (s.items k).Gives (Rowed k) :=
  ((stays_true s).gives_itemList trivial).bind fun _ h => gives_pure h.1.rowed

/-! ### Operands -/

/-- A piece lies at or after a position. -/
def Piece.After (lo : Int) : Piece → Prop
  | .within _ k | .between k | .sign k => lo ≤ k

lemma gives_pieceAt (op : Operator) (last k : Int) :
    (s.pieceAt op last k).Gives (Piece.After k) := by
  have hsymbol : 1 ≤ op.symbol.length := by cases op <;> decide
  refine (gives_any _).bind fun _ _ => .either
    ((gives_close ..).bind fun _ h => gives_pure h) <| .either
    ((gives_close ..).bind fun _ h => gives_pure h) <| .either
    ((gives_close ..).bind fun _ h => gives_pure h) <| .either
    (.test ((gives_stringEnd k).bind fun _ h =>
      gives_pure (Int.le_of_lt h.1)) <| gives_pure Int.le_rfl) <| .either ?_ <|
    .either (gives_pure Int.le_rfl) <| gives_pure Int.le_rfl
  refine .test (gives_pure (by show k ≤ k + 1; omega)) <|
    (gives_through _).bind fun j h => .test
    (gives_pure (by show k ≤ j + 1; omega)) <| gives_pure (by show k ≤ j; omega)

lemma gives_splitSteps (op : Operator) (stop : Int) (n : Nat) {split : Split}
    (hstart : lo ≤ split.start) (hdone : ∀ span ∈ split.done, lo ≤ span.1) (hk : lo ≤ k) :
    (s.splitSteps op stop n split k).Gives fun spans => ∀ span ∈ spans, lo ≤ span.1 := by
  induction n generalizing split k with
  | zero => exact gives_error _
  | succ n ih =>
    refine (gives_pieceAt op split.last k).bind fun piece hpiece => ?_
    cases piece with
    | sign j => exact ih hstart hdone (Int.le_trans hk hpiece)
    | within last j =>
      have hj : k ≤ j := hpiece
      refine .either (gives_pure fun span hspan => ?_) <| ih hstart hdone (by omega)
      exact (forall_mem_cons (p := fun span => lo ≤ span.1)).2 ⟨hstart, hdone⟩ span
        (mem_reverse.1 hspan)
    | between j =>
      have hj : k ≤ j := hpiece
      have hdone' : ∀ span ∈ (split.start, split.last) :: split.done, lo ≤ span.1 :=
        forall_mem_cons.2 ⟨hstart, hdone⟩
      have hnext : lo ≤ j + 1 := by omega
      refine .either (gives_pure fun span hspan => ?_) <| ih hnext hdone' hnext
      exact (forall_mem_cons (p := fun span => lo ≤ span.1)).2 ⟨hnext, hdone'⟩ span
        (mem_reverse.1 hspan)

lemma gives_firstSplit (start stop : Int) (ops : List Operator) :
    (s.firstSplit start stop ops).Gives fun found =>
      ∀ op spans, found = some (op, spans) → ∀ span ∈ spans, start ≤ span.1 := by
  induction ops with
  | nil => exact gives_pure (by rintro _ _ ⟨⟩)
  | cons op ops ih =>
    refine .either ih <| (gives_splitSteps op stop _ Int.le_rfl (by simp)
      Int.le_rfl).bind fun spans hspans => .either (gives_pure ?_) <| ih
    rintro _ _ ⟨⟩
    exact hspans

end Source

end ArmaGen
