import ArmaGen.Proofs.Text.Source
import ArmaGen.Scan.Expression

/-!
# What the scanners pass

`Leads` says that the steps of a scanner lead from one place to another, for every count of steps
that is large enough for the rest of the text. `s.Nested k e` describes text from `k` up to `e` in
which every bracket that opens is closed, so that a parenthesis before it is closed by the one after
it (`Closes.paren`). `s.Runs k e` describes text that belongs to one expression; an expression that
is a run ends at its last character (`expressionEnd_eq`).
-/

namespace ArmaGen

variable {c : Char} {p : Char → Bool} {set : String}

lemma ne_of_class {d : Char} (hc : p c = true) (hd : p d = false) : c ≠ d := by
  rintro rfl
  rw [hc] at hd
  cases hd

lemma of_oneOf {q : Char → Prop} (hc : oneOf set c = true) (hq : ∀ d ∈ set.toList, q d) : q c :=
  hq c (List.contains_iff_mem.mp hc)

lemma oneOf_eq_false (hp : p c = true) (hset : ∀ d ∈ set.toList, p d = false) :
    oneOf set c = false := by
  rw [← Bool.not_eq_true]
  intro hc
  have := of_oneOf hc hset
  rw [hp] at this
  cases this

lemma oneOf_eq_false_of_not (hp : p c = false) (hset : ∀ d ∈ set.toList, p d = true) :
    oneOf set c = false := by
  rw [← Bool.not_eq_true]
  intro hc
  have := of_oneOf hc hset
  rw [hp] at this
  cases this

/-- A character that is no bracket and starts no comment. -/
def isInk (c : Char) : Bool :=
  !oneOf "()[]\x7b\x7d%" c

/-- A character of an expression that means nothing to a scanner: of a name, a blank, or of some
operators. -/
def isPlain (c : Char) : Bool :=
  isWord c || oneOf " \t+-*/\\^:&|" c

lemma isPlain_of_isWord (h : isWord c = true) : isPlain c = true := by
  unfold isPlain
  rw [h, Bool.true_or]

def Bracket.opening : Bracket → Char
  | .paren => '('
  | .matrix => '['
  | .cell => '\x7b'

def Bracket.closing : Bracket → Char
  | .paren => ')'
  | .matrix => ']'
  | .cell => '\x7d'

namespace Source

/-! ### Steps of scanners -/

section Leads

variable {σ α : Type} {pos : σ → Int} {f : Nat → σ → Scan α} {a b x : σ} {r : Scan α}

/-- The steps of a scanner lead from one state to another: what it gives from there on, it gives
from here on, with enough steps. -/
def Leads (pos : σ → Int) (f : Nat → σ → Scan α) (a b : σ) : Prop :=
  pos a ≤ pos b ∧ ∀ {bound : Int} {r : Scan α}, pos b < bound →
    (∀ n : Nat, bound ≤ n + pos b → f n b = r) → ∀ n : Nat, bound ≤ n + pos a → f n a = r

lemma Leads.refl (a : σ) : Leads pos f a a :=
  ⟨Int.le_rfl, fun _ h => h⟩

lemma Leads.trans (h : Leads pos f a b) (h' : Leads pos f b x) : Leads pos f a x :=
  ⟨Int.le_trans h.1 h'.1, fun hbound hr => h.2 (Int.lt_of_le_of_lt h'.1 hbound) (h'.2 hbound hr)⟩

lemma Leads.step (hlt : pos a < pos b) (h : ∀ n, f (n + 1) a = f n b) : Leads pos f a b := by
  refine ⟨Int.le_of_lt hlt, fun hbound hr n hn => ?_⟩
  rcases n with _ | n
  · omega
  · rw [h n]
    exact hr n (by omega)

lemma Leads.run (h : Leads pos f a b) (hb : ∀ n, f (n + 1) b = r) (n : Nat)
    (hn : pos b < n + pos a) : f n a = r := by
  refine h.2 (Int.lt_succ (pos b)) (fun i hi => ?_) n hn
  rcases i with _ | i
  · omega
  · exact hb i

end Leads

variable {s : Source} {b : Bracket} {k e m : Int} {c d x : Char} {cs : List Char} {depth : Nat}

lemma reads_eq_false_of_read {word : String} {w : Char} {ws : List Char} (hk : 0 ≤ k)
    (hc : s.read k = .ok c) (hw : word.toList = w :: ws) (hne : w ≠ c) :
    s.reads k word = false :=
  (shows_singleton_of_read hk hc).reads_eq_false hw hne

lemma reads_dots_of_read (hk : 0 ≤ k) (hc : s.read k = .ok c) (hne : c ≠ '.') :
    s.reads k "..." = false :=
  reads_eq_false_of_read hk hc rfl hne.symm

lemma Shows.dots_eq_false (h : s.Shows k (c :: cs)) (hne : c ≠ '.') : s.reads k "..." = false :=
  h.reads_eq_false rfl hne.symm

lemma stringAt_eq_false (hc : s.read k = .ok c) (hne : c ≠ '\'') : s.stringAt k = .ok false := by
  unfold stringAt
  simp [hc, hne]

lemma stringAt_quote (hc : s.read k = .ok '\'') : s.stringAt k = s.opensString k := by
  unfold stringAt
  simp [hc]

/-! ### Nested brackets -/

/-- The bracket at `k` is closed by the one at `m`, with any bound on the depth that suffices. -/
def Closes (s : Source) (b : Bracket) (k m : Int) : Prop :=
  k < m ∧ ∀ n : Nat, m ≤ n + k → s.closeSteps n b k = .ok m

lemma Closes.close_eq (h : s.Closes b k m) (hk : 0 ≤ k) (hm : m < s.size) : s.close b k = .ok m :=
  h.2 _ (by omega)

/-- In the text from `k` up to `e` every bracket that opens is closed. -/
inductive Nested (s : Source) : Int → Int → Prop where
  | done (k : Int) : Nested s k k
  /-- A character that is no bracket and starts no comment, no continuation and no string. -/
  | char {k e : Int} {c : Char} (hc : s.read k = .ok c) (hp : isInk c = true)
      (hd : s.reads k "..." = false) (hs : s.stringAt k = .ok false)
      (rest : Nested s (k + 1) e) : Nested s k e
  | string {k m e : Int} (hc : s.read k = .ok '\'') (hs : s.stringAt k = .ok true)
      (hm : s.stringEnd k = .ok m) (hlt : k < m) (rest : Nested s (m + 1) e) : Nested s k e
  /-- A group in parentheses or in the brackets of a matrix. -/
  | group {k m e : Int} {b : Bracket} (hb : b ≠ .cell) (hc : s.read k = .ok b.opening)
      (inside : Nested s (k + 1) m) (hm : s.read m = .ok b.closing) (hcloses : s.Closes b k m)
      (rest : Nested s (m + 1) e) : Nested s k e

lemma Nested.le (h : s.Nested k e) : k ≤ e := by
  induction h with
  | done => omega
  | char _ _ _ _ _ ih | string _ _ _ _ _ ih => omega
  | group _ _ _ _ hcloses _ _ ih =>
    omega

lemma Nested.trans (h : s.Nested k e) (h' : s.Nested e m) : s.Nested k m := by
  induction h with
  | done => exact h'
  | char hc hp hd hs _ ih => exact .char hc hp hd hs (ih h')
  | string hc hs hm hlt _ ih => exact .string hc hs hm hlt (ih h')
  | group hb hc inside hm hcloses _ _ ih => exact .group hb hc inside hm hcloses (ih h')

lemma Nested.ink (hk : 0 ≤ k) (hc : s.read k = .ok c) (hp : isInk c = true) (hdot : c ≠ '.')
    (hquote : c ≠ '\'') (rest : s.Nested (k + 1) e) : s.Nested k e :=
  .char hc hp (reads_dots_of_read hk hc hdot) (stringAt_eq_false hc hquote) rest

lemma Nested.leads_parenSteps (h : s.Nested k e) (hk : 0 ≤ k) (hdepth : e ≤ depth + k) :
    Leads (fun k => k) (s.parenSteps (s.closeSteps depth)) k e := by
  induction h with
  | done => exact .refl _
  | @char k e c hc hp hd hs _ ih =>
    refine (Leads.step (by omega) fun n => ?_).trans (ih (by omega) (by omega))
    rw [parenSteps]
    simp [hc, hd, hs, ne_of_class hp (d := '%') rfl, ne_of_class hp (d := '[') rfl,
      ne_of_class hp (d := '(') rfl, ne_of_class hp (d := ')') rfl]
  | @string k m e hc hs hm hlt _ ih =>
    refine (Leads.step (by omega) fun n => ?_).trans (ih (by omega) (by omega))
    rw [parenSteps]
    simp [hc, hs, hm, reads_dots_of_read hk hc (by decide)]
  | @group k m e b hb hc _ hm hcloses rest _ ih =>
    have hlt := hcloses.1
    have hle := rest.le
    refine (Leads.step (by omega) fun n => ?_).trans (ih (by omega) (by omega))
    rw [parenSteps]
    cases b with
    | cell => exact absurd rfl hb
    | paren | matrix =>
      simp [hc, Bracket.opening, reads_dots_of_read hk hc (by decide),
        stringAt_eq_false hc (by decide), hcloses.2 depth (by omega)]

lemma Closes.paren (hopen : s.read k = .ok '(') (hk : 0 ≤ k) (h : s.Nested (k + 1) e)
    (hclose : s.read e = .ok ')') : s.Closes .paren k e := by
  have hle := h.le
  have hsize := lt_size_of_read (by omega) hclose
  refine ⟨by omega, fun n hn => ?_⟩
  rcases n with _ | n
  · omega
  rw [closeSteps, closeStep]
  simp only [hopen]
  refine (h.leads_parenSteps (by omega) (by omega)).run (fun i => ?_) _ (by unfold steps; omega)
  rw [parenSteps]
  simp [hclose, reads_dots_of_read (by omega) hclose (by decide),
    stringAt_eq_false hclose (by decide)]

/-! ### Runs -/

/-- The text from `k` up to `e` is part of one expression. -/
inductive Runs (s : Source) : Int → Int → Prop where
  | done (k : Int) : Runs s k k
  /-- A character of an expression that starts nothing else and is no part of a comparison. -/
  | char {k e : Int} {c : Char} (hc : s.read k = .ok c) (hp : isInk c = true)
      (hn : oneOf ",;\n=><~" c = false) (hd : s.reads k "..." = false)
      (hs : s.stringAt k = .ok false) (rest : Runs s (k + 1) e) : Runs s k e
  /-- A comparison of one character, or the sign for a negation. -/
  | order {k e : Int} {c d : Char} (hk : 0 ≤ k) (hc : s.read k = .ok c)
      (hp : oneOf "><~" c = true) (hd : s.read (k + 1) = .ok d) (hne : d ≠ '=')
      (rest : Runs s (k + 1) e) : Runs s k e
  /-- A comparison of two characters. -/
  | equal {k e : Int} {c : Char} (hk : 0 ≤ k) (hc : s.read k = .ok c)
      (hp : oneOf "=><~" c = true) (hd : s.read (k + 1) = .ok '=') (rest : Runs s (k + 1 + 1) e) :
      Runs s k e
  | group {k m e : Int} (hc : s.read k = .ok '(') (inside : s.Nested (k + 1) m)
      (hm : s.read m = .ok ')') (hcloses : s.Closes .paren k m) (rest : Runs s (m + 1) e) :
      Runs s k e

lemma Runs.trans (h : s.Runs k e) (h' : s.Runs e m) : s.Runs k m := by
  induction h with
  | done => exact h'
  | char hc hp hn hd hs _ ih => exact .char hc hp hn hd hs (ih h')
  | order hk hc hp hd hne _ ih => exact .order hk hc hp hd hne (ih h')
  | equal hk hc hp hd _ ih => exact .equal hk hc hp hd (ih h')
  | group hc inside hm hcloses _ ih => exact .group hc inside hm hcloses (ih h')

lemma Runs.plain (hk : 0 ≤ k) (hc : s.read k = .ok c) (hp : isPlain c = true)
    (rest : s.Runs (k + 1) e) : s.Runs k e := by
  have hink : isInk c = true := by simpa [isInk] using oneOf_eq_false hp (by decide)
  exact .char hc hink (oneOf_eq_false hp (by decide))
    (reads_dots_of_read hk hc (ne_of_class hp rfl)) (stringAt_eq_false hc (ne_of_class hp rfl)) rest

lemma Runs.dot (hc : s.read k = .ok '.') (hd : s.reads k "..." = false)
    (rest : s.Runs (k + 1) e) : s.Runs k e :=
  .char hc (by decide) (by decide) hd (stringAt_eq_false hc (by decide)) rest

lemma Runs.quote (hk : 0 ≤ k) (hc : s.read k = .ok '\'') (ho : s.opensString k = .ok false)
    (rest : s.Runs (k + 1) e) : s.Runs k e :=
  .char hc (by decide) (by decide) (reads_dots_of_read hk hc (by decide))
    ((stringAt_quote hc).trans ho) rest

lemma Shows.runs_plain (h : s.Shows k cs) (hp : ∀ c ∈ cs, isPlain c = true) :
    s.Runs k (k + cs.length) := by
  induction cs generalizing k with
  | nil =>
    rw [List.length_nil, Int.ofNat_zero, Int.add_zero]
    exact .done k
  | cons c cs ih =>
    have hrest := ih h.tail fun d hd => hp d (.tail _ hd)
    rw [List.length_cons, show k + (cs.length + 1 : Nat) = k + 1 + cs.length by omega]
    exact .plain h.nonneg h.read (hp c (.head _)) hrest

lemma Runs.nested (h : s.Runs k e) : s.Nested k e := by
  have hink : ∀ {k e c}, 0 ≤ k → s.read k = .ok c → oneOf "=><~" c = true → s.Nested (k + 1) e →
      s.Nested k e := by
    intro k e c hk hc hp rest
    have hclass : ∀ d ∈ "=><~".toList, isInk d = true ∧ d ≠ '.' ∧ d ≠ '\'' := by decide
    obtain ⟨hink, hdot, hquote⟩ := of_oneOf hp hclass
    exact .ink hk hc hink hdot hquote rest
  induction h with
  | done => exact .done _
  | char hc hp _ hd hs _ ih => exact .char hc hp hd hs ih
  | order hk hc hp _ _ _ ih =>
    exact hink hk hc (of_oneOf hp (show ∀ d ∈ "><~".toList, oneOf "=><~" d = true by decide)) ih
  | equal hk hc hp hd _ ih => exact hink hk hc hp (hink (by omega) hd (by decide) ih)
  | group hc inside hm hcloses _ ih =>
    exact .group (b := .paren) (by decide) hc inside hm hcloses ih

/-- On the way to the end of an expression the text from `k` up to `e` is passed. -/
abbrev Goes (s : Source) (k e : Int) : Prop :=
  Leads (fun k => k) s.expressionSteps k e

lemma expressionSteps_char {n : Nat} (hc : s.read k = .ok c) (h : s.reads k "..." = false ∧
      s.stringAt k = .ok false ∧ c ≠ '(' ∧ c ≠ '[' ∧ c ≠ '\x7b') :
    s.expressionSteps (n + 1) k =
      if c = '=' then do
        if (← s.read (k + 1)) = '=' then s.expressionSteps n (k + 2) else return k
      else if oneOf "><~" c then do
        if (← s.read (k + 1)) = '=' then s.expressionSteps n (k + 2)
        else s.expressionSteps n (k + 1)
      else if endsExpression c then return k
      else s.expressionSteps n (k + 1) := by
  obtain ⟨hdots, hstr, h1, h2, h3⟩ := h
  rw [expressionSteps]
  simp [hc, h1, h2, h3, hstr, hdots]

lemma ordinary_of_class {p : Char → Bool} (hk : 0 ≤ k) (hc : s.read k = .ok c) (hp : p c = true)
    (hclass : ∀ d ∈ ['.', '\'', '(', '[', '\x7b'], p d = false) :
    s.reads k "..." = false ∧ s.stringAt k = .ok false ∧ c ≠ '(' ∧ c ≠ '[' ∧ c ≠ '\x7b' := by
  have hne : ∀ d ∈ ['.', '\'', '(', '[', '\x7b'], c ≠ d :=
    fun d hd => ne_of_class hp (hclass d hd)
  exact ⟨reads_dots_of_read hk hc (hne '.' (by simp)), stringAt_eq_false hc (hne '\'' (by simp)),
    hne '(' (by simp), hne '[' (by simp), hne '\x7b' (by simp)⟩

/-- What is part of one expression is passed, one constructor after the other. -/
lemma Runs.goes (h : s.Runs k e) (hk : 0 ≤ k) (hsize : e ≤ s.size) : s.Goes k e := by
  induction h with
  | done => exact .refl _
  | @char k e c hc hp hn hd hs rest ih =>
    have hclass : ∀ d, oneOf ",;\n=><~" d = true → c ≠ d := fun d hd => (ne_of_class hd hn).symm
    have horder : oneOf "><~" c = false := oneOf_eq_false_of_not hn (by decide)
    have hend : endsExpression c = false := by
      rw [isInk, Bool.not_eq_true'] at hp
      have hboth : (oneOf "()[]\x7b\x7d%" c || oneOf ",;\n=><~" c) = false := by rw [hp, hn]; rfl
      exact oneOf_eq_false_of_not (p := fun c => oneOf "()[]\x7b\x7d%" c || oneOf ",;\n=><~" c)
        hboth (by decide)
    refine (Leads.step (by omega) fun n => ?_).trans (ih (by omega) hsize)
    rw [expressionSteps_char hc ⟨hd, hs, ne_of_class hp rfl, ne_of_class hp rfl,
      ne_of_class hp rfl⟩,
      if_neg (hclass '=' (by decide)), horder, hend]
    rfl
  | @order k e c d hk' hc hp hd hne _ ih =>
    refine (Leads.step (by omega) fun n => ?_).trans (ih (by omega) hsize)
    rw [expressionSteps_char hc (ordinary_of_class hk hc hp (by decide)),
      if_neg (ne_of_class hp rfl), if_pos hp, hd, Scan.ok_bind, if_neg hne]
  | @equal k e c hk' hc hp hd _ ih =>
    refine (Leads.step (by omega) fun n => ?_).trans (ih (by omega) hsize)
    rw [expressionSteps_char hc (ordinary_of_class hk hc hp (by decide)), hd,
      show k + 2 = k + 1 + 1 by omega]
    by_cases heq : c = '='
    · rw [if_pos heq, Scan.ok_bind, if_pos rfl]
    · rw [if_neg heq, if_pos (by simpa [oneOf, heq] using hp), Scan.ok_bind, if_pos rfl]
  | @group k m e hc _ _ hcloses rest ih =>
    have hlt := hcloses.1
    have hle := rest.nested.le
    refine (Leads.step (by omega) fun n => ?_).trans (ih (by omega) hsize)
    rw [expressionSteps]
    simp [hc, parenEnd, hcloses.close_eq hk (by omega)]

/-- An expression that is passed ends at its last character, before one that ends expressions. -/
lemma expressionEnd_eq (hk : 0 ≤ k) (h : s.Goes k e) (hfirst : s.read k = .ok c)
    (hstart : startsExpression c = true) (hlast : s.read (e - 1) = .ok d)
    (hblank : isBlank d = false) (hlt : k < e) (hstop : s.Shows e (x :: cs))
    (hends : endsExpression x = true) : s.expressionEnd k = .ok (e - 1) := by
  have hle := hstop.end_le (by simp)
  have hsteps : ∀ n : Nat, s.expressionSteps (n + 1) e = .ok e := by
    intro n
    have horder : oneOf "><~" x = false := oneOf_eq_false hends (by decide)
    have hordinary := ordinary_of_class (by omega) hstop.read hends (by decide)
    rw [expressionSteps_char hstop.read hordinary, if_neg (ne_of_class hends rfl), horder,
      if_pos hends]
    rfl
  have hscan := h.run hsteps s.steps (by unfold steps; omega)
  unfold expressionEnd
  simp only [hfirst, Scan.ok_bind, hstart, hscan]
  exact backBlanks_eq (shows_singleton_of_read (by omega) hlast) hblank

end Source

end ArmaGen
