import ArmaGen.Proofs.Scan.Forward

/-!
# Groups in brackets

A group is what stands in parentheses or in the brackets of a matrix; strings in it may hold
brackets of any kind (`Items`). The bracket that opens a group is closed by its last character,
whatever stands before and after the group (`Source.ends_of_group`). Before the brackets of a matrix
are looked for it is found out whether commas or blanks separate its items, so that what is nested
has to be passed by that search too (`Nested.exists_delimitedSteps`).
-/

namespace ArmaGen.Source

open List

variable {s : Source} {b : Bracket} {k e m : Int} {c d x : Char} {cs : List Char} {depth : Nat}

/-! ### Inside a matrix -/

lemma matrixSteps_char {close : Bracket → Int → Scan Int} (hc : s.read k = .ok c)
    (hs : s.stringAt k = .ok false) (hne : c ≠ '[' ∧ c ≠ ']' ∧ c ≠ '%') :
    Leads (fun k => k) (s.matrixSteps close) k (k + 1) := by
  refine Leads.step (by omega) fun n => ?_
  rw [matrixSteps]
  simp [hc, hs, hne]

section

variable (h : s.Nested k e)

include h

/-- Inside the brackets of a matrix what is nested is passed; parentheses have no meaning there. -/
lemma Nested.leads_matrixSteps (hdepth : e ≤ depth + k) :
    Leads (fun k => k) (s.matrixSteps (s.closeSteps depth)) k e := by
  induction h with
  | done => exact .refl _
  | @char k e c hc hp _ hs _ ih =>
    exact (matrixSteps_char hc hs ⟨ne_of_class hp rfl, ne_of_class hp rfl,
      ne_of_class hp rfl⟩).trans
      (ih (by omega))
  | @string k m e hc hs hm hlt _ ih =>
    refine (Leads.step (by omega) fun n => ?_).trans (ih (by omega))
    rw [matrixSteps]
    simp [hc, hs, hm]
  | @group k m e b hb hc _ hm hcloses rest ihinside ih =>
    have hlt := hcloses.1
    have hle := rest.le
    cases b with
    | cell => exact absurd rfl hb
    | paren =>
      exact (matrixSteps_char hc (stringAt_eq_false hc (by decide)) (by decide)).trans
        ((ihinside (by omega)).trans ((matrixSteps_char hm (stringAt_eq_false hm (by decide))
          (by decide)).trans (ih (by omega))))
    | matrix =>
      refine (Leads.step (by omega) fun n => ?_).trans (ih (by omega))
      rw [matrixSteps]
      simp [hc, Bracket.opening, hcloses.2 depth (by omega)]

lemma Nested.leads_cellSteps (hdepth : e ≤ depth + k) :
    Leads (fun k => k) (s.cellSteps (s.closeSteps depth)) k e := by
  induction h with
  | done => exact .refl _
  | @char k e c hc hp _ hs _ ih =>
    refine (Leads.step (by omega) fun n => ?_).trans (ih (by omega))
    rw [cellSteps]
    simp [hc, hs, ne_of_class hp (d := '%') rfl, ne_of_class hp (d := '[') rfl,
      ne_of_class hp (d := '(') rfl, ne_of_class hp (d := '\x7d') rfl]
  | @string k m e hc hs hm hlt _ ih =>
    refine (Leads.step (by omega) fun n => ?_).trans (ih (by omega))
    rw [cellSteps]
    simp [hc, hs, hm]
  | @group k m e b hb hc _ hm hcloses rest _ ih =>
    have hlt := hcloses.1
    have hle := rest.le
    refine (Leads.step (by omega) fun n => ?_).trans (ih (by omega))
    rw [cellSteps]
    cases b with
    | cell => exact absurd rfl hb
    | paren | matrix =>
      simp [hc, Bracket.opening, stringAt_eq_false hc (by decide), hcloses.2 depth (by omega)]

/-! ### What separates -/

variable (he : s.read e = .ok x)

include he

lemma Nested.exists_read : ∃ c, s.read k = .ok c := by
  cases h with
  | done => exact ⟨x, he⟩
  | char hc | string hc | group _ hc => exact ⟨_, hc⟩

lemma Nested.tail (hc : s.read k = .ok c)
    (hs : s.stringAt k = .ok false) (hx : c ≠ x) (hb : c ≠ '(' ∧ c ≠ '[') :
    s.Nested (k + 1) e := by
  cases h with
  | done => exact absurd (Except.ok.inj (hc.symm.trans he)) hx
  | char _ _ _ _ rest => exact rest
  | string _ hs' => cases hs.symm.trans hs'
  | @group _ _ _ b hne hb' =>
    cases hc.symm.trans hb'
    cases b with
    | cell => exact absurd rfl hne
    | paren => exact absurd rfl hb.1
    | matrix => exact absurd rfl hb.2

lemma Nested.exists_skip {p : Char → Bool} (hk : 0 ≤ k) (hx : p x = false)
    (hp : ∀ c ∈ "(['".toList, p c = false) :
    ∃ j, s.skip p k = .ok j ∧ k ≤ j ∧ s.Nested j e := by
  have hsteps : ∀ n : Nat, e < n + k →
      ∃ j, s.skipSteps p n k = .ok j ∧ k ≤ j ∧ s.Nested j e := by
    intro n
    induction n generalizing k with
    | zero =>
      have := h.le
      omega
    | succ n ih =>
      intro hn
      obtain ⟨c, hc⟩ := h.exists_read he
      simp only [skipSteps, hc, Scan.ok_bind]
      cases hpc : p c with
      | false => exact ⟨k, rfl, Int.le_rfl, h⟩
      | true =>
        have hrest := h.tail he hc (stringAt_eq_false hc (ne_of_class hpc (hp _ (by decide))))
          (ne_of_class hpc hx)
          ⟨ne_of_class hpc (hp _ (by decide)), ne_of_class hpc (hp _ (by decide))⟩
        obtain ⟨j, hj, hle, hnested⟩ := ih hrest (by omega) (by omega)
        exact ⟨j, hj, by omega, hnested⟩
  have hsize := lt_size_of_read (by have := h.le; omega) he
  exact hsteps s.steps (by unfold steps; omega)

lemma Nested.exists_delimiterSteps (hx : (isBlank x || oneOf "+-~" x) = false) :
    ∀ n : Nat, e < n + k → ∃ found, s.delimiterSteps n k = .ok found := by
  intro n
  induction n generalizing k with
  | zero =>
    have := h.le
    omega
  | succ n ih =>
    intro hn
    obtain ⟨c, hc⟩ := h.exists_read he
    simp only [delimiterSteps, hc, Scan.ok_bind]
    cases hpass : isBlank c || oneOf "+-~" c with
    | false =>
      obtain ⟨hblank, hsign⟩ := Bool.or_eq_false_iff.1 hpass
      simp only [hblank, hsign, Bool.false_eq_true, ite_false]
      repeat' split
      all_goals exact ⟨_, rfl⟩
    | true =>
      have hrest : s.Nested (k + 1) e := by
        have hne : c ≠ x := by
          rintro rfl
          cases hpass.symm.trans hx
        rcases Bool.or_eq_true_iff.1 hpass with hp | hp <;>
          exact h.tail he hc (stringAt_eq_false hc (ne_of_class hp rfl)) hne
            ⟨ne_of_class hp rfl, ne_of_class hp rfl⟩
      obtain ⟨d, hread⟩ := hrest.exists_read he
      obtain ⟨found, hfound⟩ := ih hrest (by omega)
      simp only [hread, Scan.ok_bind]
      repeat' split
      all_goals first | exact ⟨_, hfound⟩ | exact ⟨_, rfl⟩

/-- It is found out what separates the items of a list. -/
lemma Nested.exists_delimitedSteps (depth : Nat) (hk : 0 ≤ k) (hx : closesList x = true)
    (hdepth : e ≤ depth + k) :
    ∀ n : Nat, e < n + k → ∃ found, s.delimitedSteps (s.closeSteps depth) n k = .ok found := by
  have hsize := lt_size_of_read (by have := h.le; omega) he
  have hlayout : ∀ p : Char → Bool, (∀ d ∈ "]\x7d)".toList, p d = false) → p x = false :=
    fun _ hp => of_oneOf hx hp
  intro n
  induction n generalizing k with
  | zero =>
    have := h.le
    omega
  | succ n ih =>
    intro hn
    rw [delimitedSteps]
    cases h with
    | done =>
      have hends : endsExpression x = true :=
        of_oneOf hx (show ∀ d ∈ "]\x7d)".toList, endsExpression d = true by decide)
      simp [he, ne_of_class hx (d := '(') rfl, ne_of_class hx (d := '[') rfl,
        ne_of_class hx (d := '\x7b') rfl, stringAt_eq_false he (ne_of_class hx rfl), hx, hends,
        reads_dots_of_read hk he (ne_of_class hx rfl), hlayout isBlank (by decide)]
    | string hc hs => simp [hc, hs]
    | @group _ m _ b hb hc inside hm hcloses rest =>
      have hlt := hcloses.1
      have hle := rest.le
      obtain ⟨found, hfound⟩ := ih rest (by omega) (by omega) (by omega)
      cases b with
      | cell => exact absurd rfl hb
      | paren | matrix =>
        exact ⟨found, by simp [hc, Bracket.opening, hcloses.2 depth (by omega), hfound]⟩
    | @char _ _ c hc hp hd hs rest =>
      have hclass : ∀ {p : Char → Bool}, p x = false → (∀ c ∈ "(['".toList, p c = false) →
          ∃ j found, s.through p k = .ok j ∧
            s.delimitedSteps (s.closeSteps depth) n (j + 1) = .ok found := by
        intro p hx hp
        obtain ⟨j, hj, hkj, hnested⟩ := rest.exists_skip he (by omega) hx hp
        obtain ⟨found, hfound⟩ := ih hnested (by omega) (by omega) (by omega)
        exact ⟨j - 1, found, by simp [through, hj], by rwa [Int.sub_add_cancel]⟩
      obtain ⟨delimits, hdelimits⟩ :=
        (Nested.char hc hp hd hs rest).exists_delimiterSteps he
          (hlayout (fun x => isBlank x || oneOf "+-~" x) (by decide)) s.steps
            (by unfold steps; omega)
      obtain ⟨i, found, hi, hfound⟩ := hclass (hlayout isBlank (by decide)) (by decide)
      obtain ⟨i', found', hi', hfound'⟩ := hclass (hlayout isHandle (by decide)) (by decide)
      obtain ⟨next, hnext⟩ := rest.exists_read he
      obtain ⟨found'', hfound''⟩ := ih rest (by omega) (by omega) (by omega)
      simp only [hc, Scan.ok_bind, beq_iff_eq, ne_of_class hp (d := '(') rfl,
        ne_of_class hp (d := '[') rfl, ne_of_class hp (d := '\x7b') rfl, hs, hd, spaceDelimiter,
        hdelimits, hi, hi', hnext, hfound, hfound', hfound'', Bool.false_eq_true, ite_false]
      by_cases hblank : isBlank c = true
      · simp only [hblank, ite_true, Scan.ok_bind]
        split <;> exact ⟨_, rfl⟩
      · simp only [hblank, Bool.false_eq_true, ite_false]
        repeat' split
        all_goals exact ⟨_, rfl⟩

end

/-- The first character of a list, after blanks, ends it or starts an expression. -/
def Starts (s : Source) (k : Int) : Prop :=
  ∃ j c, s.skipBlanks k = .ok j ∧ s.read j = .ok c ∧
    (closesList c = true ∨ startsExpression c = true) ∧ (c = '\'' → s.stringAt j = .ok true)

lemma Closes.cell (hopen : s.read k = .ok '\x7b') (hk : 0 ≤ k) (h : s.Nested (k + 1) e)
    (hclose : s.read e = .ok '\x7d') (hm : s.skipBlanks (e + 1) = .ok m) (hx : s.read m = .ok x)
    (hne : x ≠ '\x7b') : s.Closes .cell k e := by
  have hle := h.le
  have hsize := lt_size_of_read (by omega) hclose
  refine ⟨by omega, fun n hn => ?_⟩
  rcases n with _ | n
  · omega
  rw [closeSteps, closeStep]
  simp only [hopen]
  have hfirst : Leads (fun k => k) (s.cellSteps (s.closeSteps n)) k (k + 1) := by
    refine Leads.step (by omega) fun i => ?_
    rw [cellSteps]
    simp [hopen, stringAt_eq_false hopen (by decide)]
  refine (hfirst.trans (h.leads_cellSteps (by omega))).run (fun i => ?_) _ (by unfold steps; omega)
  rw [cellSteps]
  simp [hclose, stringAt_eq_false hclose (by decide), hm, hx, hne]

lemma Closes.of_nested (hb : b ≠ .cell) (hopen : s.read k = .ok b.opening) (hk : 0 ≤ k)
    (h : s.Nested (k + 1) e) (hclose : s.read e = .ok b.closing)
    (hstart : b = .matrix → s.Starts (k + 1)) : s.Closes b k e := by
  cases b with
  | cell => exact absurd rfl hb
  | paren => exact .paren hopen hk h hclose
  | matrix =>
    have hle := h.le
    have hsize := lt_size_of_read (by omega) hclose
    refine ⟨by omega, fun n hn => ?_⟩
    rcases n with _ | n
    · omega
    rw [closeSteps, closeStep]
    have hlast : ∀ i, s.matrixSteps (s.closeSteps n) (i + 1) e = .ok e := by
      intro i
      rw [matrixSteps]
      simp [hclose, Bracket.closing]
    have hrun : ∀ j, k < j → s.Nested j e → s.matrixSteps (s.closeSteps n) s.steps j = .ok e := by
      intro j hj hnested
      exact (hnested.leads_matrixSteps (by omega)).run hlast _ (by unfold steps; omega)
    obtain ⟨j, c, hj, hc, hclass, hquote⟩ := hstart rfl
    obtain ⟨j', hj', hle', hnested⟩ := h.exists_skip (p := isBlank) hclose (by omega) (by decide)
      (by decide)
    obtain rfl : j = j' := Except.ok.inj (hj.symm.trans hj')
    simp only [hopen, Bracket.opening, Scan.ok_bind, delimitedBy, hj, hc, bne_self_eq_false,
      show opensList '[' = true by decide]
    rcases hclass with hclass | hclass
    · simp only [hclass]
      exact hrun _ (by omega) h
    have hcloses : closesList c = false := oneOf_eq_false hclass (by decide)
    simp only [hcloses, hclass, Bool.not_true, Bool.false_eq_true, ite_false, beq_iff_eq]
    by_cases hc' : c = '\''
    · -- the string that comes first
      subst hc'
      cases hnested with
      | done => exact absurd (Except.ok.inj (hc.symm.trans hclose)) (by decide)
      | char _ _ _ hs => exact absurd (Except.ok.inj (hs.symm.trans (hquote rfl))) (by decide)
      | @group _ _ _ b _ hb =>
        exact absurd (Except.ok.inj (hc.symm.trans hb)) (by cases b <;> decide)
      | @string _ m _ _ _ hm hlt rest =>
        obtain ⟨i, hi, hle, hnested⟩ := rest.exists_skip (p := isBlank) hclose (by omega)
          (by decide)
          (by decide)
        obtain ⟨found, hfound⟩ := hnested.exists_delimitedSteps hclose n (by omega) (by decide)
          (by omega) s.steps (by unfold steps; omega)
        simp only [ite_true, hm, Scan.ok_bind, skipBlanks, hi, hfound]
        split
        · exact hrun _ (by omega) rest
        · exact hrun _ (by omega) h
    · obtain ⟨found, hfound⟩ := hnested.exists_delimitedSteps hclose n (by omega) (by decide)
        (by omega) s.steps (by unfold steps; omega)
      simp only [hc', ite_false, hfound, Scan.ok_bind]
      split
      · exact hrun _ (by omega) hnested
      · exact hrun _ (by omega) h

/-! ### Lists -/

/-- Scanners of expressions do not leave what is nested behind a bracket. -/
lemma stays_nested (hk : 0 ≤ k) (hc : s.read k = .ok c) (hblank : isBlank c = false)
    (he : s.read e = .ok x) (hx : closesList x = true) :
    s.Stays (fun j => k < j ∧ s.Nested j e) (fun j => k < j ∧ s.Nested j e) where
  weaken := id
  group {j m b} := by
    rintro ⟨hj, h⟩ hc hm
    cases h with
    | done =>
      cases he.symm.trans hc
      cases b <;> cases hx
    | char hc' hp =>
      cases hc'.symm.trans hc
      cases b <;> cases hp
    | string hc' => cases b <;> cases hc'.symm.trans hc
    | @group _ m' _ b' _ hc' _ _ hcloses rest =>
      obtain rfl : b' = b := by cases b <;> cases b' <;> first | rfl | cases hc'.symm.trans hc
      have hsize := lt_size_of_read (by have := rest.le; have := hcloses.1; omega) he
      cases (hcloses.close_eq (by omega) (by have := rest.le; omega)).symm.trans hm
      have := hcloses.1
      exact ⟨by omega, rest⟩
  string {j m} := by
    rintro ⟨hj, h⟩ hs hm
    cases h with
    | done => cases (stringAt_eq_false he (ne_of_class hx rfl)).symm.trans hs
    | char _ _ _ hs' => cases hs'.symm.trans hs
    | string _ _ hm' _ rest =>
      cases hm'.symm.trans hm
      exact ⟨by omega, rest⟩
    | @group _ _ _ b _ hc' =>
      cases (stringAt_eq_false hc' (by cases b <;> decide)).symm.trans hs
  dots {j m} := by
    rintro ⟨hj, h⟩ hd -
    have hnot : s.reads j "..." = false := by
      cases h with
      | done => exact reads_dots_of_read (by omega) he (ne_of_class hx rfl)
      | char _ _ hd' => exact hd'
      | string hc' => exact reads_dots_of_read (by omega) hc' (by decide)
      | @group _ _ _ b _ hc' => exact reads_dots_of_read (by omega) hc' (by cases b <;> decide)
    cases hnot.symm.trans hd
  pass {j d} := by
    rintro ⟨hj, h⟩ hd hopen hcloses hs
    refine ⟨by omega, h.tail he hd hs ?_ ⟨?_, ?_⟩⟩
    · rintro rfl
      cases hcloses.symm.trans hx
    · rintro rfl
      cases hopen
    · rintro rfl
      cases hopen
  back {j d} := by
    rintro ⟨hj, h⟩ hd hd'
    have hne : j ≠ k := by
      rintro rfl
      cases hc.symm.trans hd
      cases hblank.symm.trans hd'
    refine ⟨by omega, .ink (by omega) hd ?_ (ne_of_class hd' rfl) (ne_of_class hd' rfl) h⟩
    simpa [isInk] using oneOf_eq_false hd' (by decide)

/-! ### Groups -/

/-- A character that stands for itself between brackets. -/
def isItem (c : Char) : Bool :=
  isWord c || oneOf ",;" c || isOperator c

/-- A character after which a quote opens a string. -/
def admitsString (c : Char) : Bool :=
  oneOf "([\x7b,;" c || isOperator c

/-- After blanks comes a character that starts an expression or closes a matrix. -/
def Leading (cs : List Char) : Prop :=
  ∃ bs c ds, cs = bs ++ c :: ds ∧ (∀ x ∈ bs, isBlank x = true) ∧ isBlank c = false ∧
    (c = ']' ∨ startsExpression c = true)

/-- What may stand between brackets after a character and blanks. -/
inductive Items : Char → List Char → Prop where
  | nil (d : Char) : Items d []
  | blank {d c : Char} {cs : List Char} (hc : isBlank c = true) (rest : Items d cs) :
      Items d (c :: cs)
  | char {d c : Char} {cs : List Char} (hc : isItem c = true) (rest : Items c cs) :
      Items d (c :: cs)
  | string {d : Char} {text cs : List Char} (hd : admitsString d = true) (hquote : '\'' ∉ text)
      (hline : '\n' ∉ text) (rest : Items '\'' cs) : Items d ('\'' :: (text ++ '\'' :: cs))
  | group {d : Char} {b : Bracket} {inside cs : List Char} (hb : b ≠ .cell)
      (hinside : Items b.opening inside) (hlead : b = .matrix → Leading (inside ++ [']']))
      (rest : Items b.closing cs) : Items d (b.opening :: (inside ++ b.closing :: cs))

lemma items_of_forall (h : ∀ c ∈ cs, isBlank c = true ∨ isItem c = true) (d : Char) :
    Items d cs := by
  induction cs generalizing d with
  | nil => exact .nil d
  | cons c cs ih =>
    obtain ⟨hc, hcs⟩ := forall_mem_cons.1 h
    rcases hc with hc | hc
    · exact .blank hc (ih hcs d)
    · exact .char hc (ih hcs c)

lemma stringAt_eq_true {bs : List Char} (hbs : ∀ x ∈ bs, isBlank x = true)
    (hd : admitsString d = true) (h : s.Shows k (d :: (bs ++ '\'' :: cs))) :
    s.stringAt (k + 1 + bs.length) = .ok true := by
  have hquote := h.tail.right.read
  have hblank : isBlank d = false := by
    simp [isBlank, ne_of_class hd (d := ' ') rfl, ne_of_class hd (d := '\t') rfl]
  have hback : s.backBlanks (k + bs.length) = .ok k :=
    backBlanks_of_blanks h.left hblank hbs
  obtain ⟨y, hy, hdot⟩ : ∃ y, s.read (k + bs.length) = .ok y ∧ y ≠ '.' := by
    rcases eq_nil_or_concat bs with rfl | ⟨bs, y, rfl⟩
    · exact ⟨d, by simpa using h.read, ne_of_class hd rfl⟩
    · have hshow : s.Shows (k + 1) (bs ++ y :: '\'' :: cs) := by simpa using h.tail
      refine ⟨y, ?_, ne_of_class (hbs y (by simp)) rfl⟩
      rw [length_concat, Int.natCast_add, ← Int.add_assoc, Int.add_right_comm]
      exact hshow.right.read
  have hclass : ∀ y ∈ "([\x7b,;^\\/*+-:<>&|".toList, (isAlnum y || oneOf ")]\x7d_" y) = false := by
    decide
  have hset : oneOf "([\x7b,;^\\/*+-:<>&|" d = true := by
    simpa [admitsString, isOperator, oneOf, or_assoc] using hd
  have hends := of_oneOf hset hclass
  rw [stringAt_quote hquote, opensString]
  simp only [hquote, Scan.ok_bind, show k + 1 + bs.length - 1 = k + bs.length by omega, hy,
    beq_iff_eq, hdot, hback, h.read, hends]
  rfl

lemma stringEnd_eq {text : List Char} (hquote : '\'' ∉ text) (hline : '\n' ∉ text)
    (h : s.Shows k ('\'' :: (text ++ '\'' :: cs))) :
    s.stringEnd k = .ok (k + 1 + text.length) := by
  have hfind : s.find? "'" (k + 1) = some (k + 1 + text.length) := h.tail.find?_eq rfl hquote
  have hspan : s.span k (k + 1 + text.length) = '\'' :: text := by
    have := (show s.Shows k ('\'' :: text ++ '\'' :: cs) from h).left.span
    rwa [length_cons, show k + (text.length + 1 : Nat) = k + 1 + text.length by omega] at this
  rw [stringEnd]
  simp [h.read, hfind, hspan, hline]

lemma Leading.starts {ds : List Char} (hlead : Leading cs) (h : s.Shows k ('[' :: (cs ++ ds))) :
    s.Starts (k + 1) := by
  obtain ⟨bs, c, rest, rfl, hbs, hc, hclass⟩ := hlead
  rw [append_assoc] at h
  have hskip := skip_eq h.tail.upto hbs hc
  refine ⟨_, c, hskip, h.tail.right.read, ?_, ?_⟩
  · rcases hclass with rfl | hclass
    · exact .inl (by decide)
    · exact .inr hclass
  · rintro rfl
    exact stringAt_eq_true hbs (by decide) h

lemma closes_of_items {inside : List Char} (hb : b ≠ .cell)
    (hinside : s.Nested (k + 1) (k + 1 + inside.length))
    (hlead : b = .matrix → Leading (inside ++ [']']))
    (h : s.Shows k (b.opening :: (inside ++ b.closing :: cs))) :
    s.Closes b k (k + 1 + inside.length) := by
  refine .of_nested hb h.read h.nonneg hinside h.tail.right.read ?_
  rintro rfl
  have hshow : s.Shows k ('[' :: (inside ++ [']'] ++ cs)) := by
    rw [append_assoc]
    exact h
  exact (hlead rfl).starts hshow

lemma Items.nested (h : Items d cs) (bs : List Char) {rest : List Char}
    (hbs : ∀ x ∈ bs, isBlank x = true) (hshow : s.Shows k (d :: (bs ++ (cs ++ rest))))
    (hm : m = k + 1 + bs.length)
    (he : e = m + cs.length) : s.Nested m e := by
  induction h generalizing k m e bs rest with
  | nil =>
    rw [add_length_nil] at he
    subst he
    exact .done e
  | @blank d c cs hc _ ih =>
    subst hm
    have hitem := hshow.tail.right
    refine .ink hitem.nonneg hitem.read ?_ (ne_of_class hc rfl) (ne_of_class hc rfl)
      (ih (bs ++ [c]) (forall_mem_append.2 ⟨hbs, by simpa using hc⟩)
        (by simpa using hshow) ?_ ?_)
    · simpa [isInk] using oneOf_eq_false hc (by decide)
    · simp [Int.add_assoc]
    · rw [he, length_cons]
      omega
  | @char d c cs hc _ ih =>
    subst hm
    have hitem := hshow.tail.right
    refine .ink hitem.nonneg hitem.read ?_ (ne_of_class hc rfl) (ne_of_class hc rfl)
      (ih [] (by simp) hitem (by simp) ?_)
    · simpa [isInk] using oneOf_eq_false hc (by decide)
    · rw [he, length_cons]
      omega
  | @string d text cs hd hquote hline _ ih =>
    subst hm
    have hitem : s.Shows (k + 1 + bs.length) ('\'' :: (text ++ '\'' :: (cs ++ rest))) := by
      simpa using hshow.tail.right
    refine .string hitem.read (stringAt_eq_true hbs hd hshow) (stringEnd_eq hquote hline hitem)
      (by omega) (ih [] (by simp) hitem.tail.right (by simp) ?_)
    rw [he]
    simp only [length_cons, length_append]
    omega
  | @group d b inside cs hb _ hlead _ ihinside ih =>
    subst hm
    have hitem :
      s.Shows (k + 1 + bs.length) (b.opening :: (inside ++ b.closing :: (cs ++ rest))) := by
      simpa using hshow.tail.right
    have hnested := ihinside [] (by simp) hitem (m := k + 1 + bs.length + 1) (by simp) rfl
    refine .group hb hitem.read hnested hitem.tail.right.read
      (closes_of_items hb hnested hlead hitem) (ih [] (by simp) hitem.tail.right (by simp) ?_)
    rw [he]
    simp only [length_cons, length_append]
    omega

/-- A group in parentheses, or in the brackets of a matrix or a cell. -/
inductive Group : Bracket → List Char → Prop where
  | mk {b : Bracket} {inside : List Char} (hinside : Items b.opening inside)
      (hlead : b = .matrix → Leading (inside ++ [']'])) :
      Group b (b.opening :: (inside ++ [b.closing]))

/-- No cell comes after blanks. -/
def Unjoined (cs : List Char) : Prop :=
  ∃ bs c ds, cs = bs ++ c :: ds ∧ (∀ x ∈ bs, isBlank x = true) ∧ isBlank c = false ∧ c ≠ '\x7b'

lemma close_of_group {w : List Char} (h : Group b w) (u v : List Char)
    (hcell : b = .cell → Unjoined v) (hs : s = ofString (String.ofList (u ++ w ++ v))) :
    s.Nested (u.length + 1) (u.length + w.length - 1) ∧
      s.read (u.length + w.length - 1) = .ok b.closing ∧
      s.close b u.length = .ok (u.length + w.length - 1) := by
  cases h with
  | @mk inside hinside hlead =>
    have hshow : s.Shows u.length (b.opening :: (inside ++ b.closing :: v)) := by
      simpa [hs] using shows_ofString u (b.opening :: (inside ++ b.closing :: v)) []
    have hclose := hshow.tail.right
    have hnested := hinside.nested [] (by simp) hshow (m := u.length + 1) (by simp) rfl
    have hsize := lt_size_of_read hclose.nonneg hclose.read
    rw [show (u.length : Int) + (b.opening :: (inside ++ [b.closing])).length - 1 =
      u.length + 1 + inside.length by simp; omega]
    refine ⟨hnested, hclose.read, Closes.close_eq ?_ hshow.nonneg (by omega)⟩
    by_cases hb : b = .cell
    · subst hb
      obtain ⟨bs, c, ds, rfl, hbs, hc, hne⟩ := hcell rfl
      have hskip : s.skipBlanks _ = .ok _ := skip_eq hclose.tail.upto hbs hc
      exact .cell hshow.read hshow.nonneg hnested hclose.read hskip hclose.tail.right.read hne
    · exact closes_of_items hb hnested hlead hshow

/-- **The bracket that opens a group is closed by the last character of the group**, whatever
stands before and after it. -/
theorem ends_of_group (u w v : List Char) :
    (Group .paren w → (ofString (String.ofList (u ++ w ++ v))).parenEnd u.length =
      .ok (u.length + w.length - 1)) ∧
    (Group .matrix w → (ofString (String.ofList (u ++ w ++ v))).matrixEnd u.length =
      .ok (u.length + w.length - 1)) :=
  ⟨fun h => (close_of_group h u v nofun rfl).2.2, fun h => (close_of_group h u v nofun rfl).2.2⟩

/-- A matrix that starts with a string of brackets, inside of quotes. -/
theorem ends_of_group_quoted : Group .matrix "[ '](',(b)]".toList ∧
    (ofString (String.ofList ("x'".toList ++ "[ '](',(b)]".toList ++ "'y".toList))).matrixEnd 2 =
      .ok 12 := by
  have hparen : Items ',' "(b)".toList :=
    .group (b := .paren) (by decide) (.char (c := 'b') rfl (.nil _)) nofun (.nil _)
  have hstring : Items '[' "'](',(b)".toList :=
    @Items.string '[' "](".toList ",(b)".toList rfl (by decide) (by decide) (.char rfl hparen)
  have hgroup : Group .matrix "[ '](',(b)]".toList := .mk (b := .matrix)
    (.blank (c := ' ') rfl hstring) fun _ => ⟨[' '], '\'', _, rfl, by decide, rfl, .inr rfl⟩
  exact ⟨hgroup, by simpa using (ends_of_group "x'".toList _ "'y".toList).2 hgroup⟩

/-- **A list is read up to the bracket that closes it**, and its items stand between the brackets
one after the other, if what stands between them is nested and starts no comment and no
continuation. -/
theorem gives_itemList_of_nested (hk : 0 ≤ k) (hopen : s.read k = .ok b.opening)
    (hinside : s.Nested (k + 1) e) (hlast : s.read e = .ok b.closing)
    (hclose : s.close b k = .ok e) :
    (s.itemList k).Gives fun (rows, stop) =>
      s.close b k = .ok stop ∧ Listed k stop rows.flatten := by
  have hstays := stays_nested hk hopen (by cases b <;> rfl) hlast (by cases b <;> rfl)
  refine (hstays.gives_itemList ⟨by omega, hinside⟩).mono ?_
  rintro ⟨rows, stop⟩ ⟨hrows, ⟨-, hstop⟩, c, hc, hcloses⟩
  have heq : stop = e := by
    cases hstop with
    | done => rfl
    | char hc' hp =>
      cases hc.symm.trans hc'
      cases hcloses.symm.trans (oneOf_eq_false hp (by decide))
    | string hc' =>
      cases hc.symm.trans hc'
      cases hcloses
    | @group _ _ _ b _ hc' =>
      cases hc.symm.trans hc'
      cases b <;> cases hcloses
  exact ⟨heq ▸ hclose, hrows⟩

/-- A list with a group in it, separated by blanks. -/
theorem gives_itemList_of_nested_blank :
    ∃ rows stop, (ofString "[(a) b]").itemList 0 = .ok (rows, stop) ∧
      (ofString "[(a) b]").close .matrix 0 = .ok stop ∧ Listed 0 stop rows.flatten := by
  have hitems : Items '[' "(a) b".toList := .group (b := .paren) (by decide)
    (.char (c := 'a') rfl (.nil _)) nofun (.blank rfl (.char rfl (.nil _)))
  have hgroup : Group .matrix "[(a) b]".toList :=
    .mk (b := .matrix) hitems fun _ => ⟨[], '(', _, rfl, by decide, rfl, .inr rfl⟩
  obtain ⟨hinside, hlast, hclose⟩ := close_of_group hgroup [] [] nofun rfl
  have hsome : ((ofString "[(a) b]").itemList 0).toOption.isSome = true := by decide +kernel
  cases hlist : (ofString "[(a) b]").itemList 0 with
  | error =>
    rw [hlist] at hsome
    cases hsome
  | ok list => exact ⟨_, _, rfl, gives_itemList_of_nested Int.le_rfl rfl hinside hlast hclose hlist⟩

end ArmaGen.Source
