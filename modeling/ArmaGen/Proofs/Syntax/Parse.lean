import ArmaGen.Proofs.Syntax.Operator

/-!
# Runs of parsers

`p.Yields st made a` says that a parser succeeds with the result `a` and has made the nodes `made`,
so that a parser is followed step by step. `Term.tree` is the tree that an expression should be read
as. Here names and calls are read; the arguments of a call are read by a parser for expressions of
which only `Reads` is known.
-/

namespace ArmaGen

open List

namespace Parse

variable {α β : Type} {st : Setting} {made made' : List Syntax} {a : α} {b : β}

/-- A parser succeeds with a result and has made some nodes, whatever it noted. -/
def Yields (p : Parse α) (st : Setting) (made : List Syntax) (a : α) : Prop :=
  ∃ notes, p st = ⟨made, notes, .ok a⟩

@[simp]
lemma yields_pure : (pure a : Parse α).Yields st [] a := ⟨[], rfl⟩

variable {f : α → Parse β} {p : Parse α} {head : Head}

lemma Yields.bind (hp : p.Yields st made a) (hf : (f a).Yields st made' b) :
    (p >>= f).Yields st (made ++ made') b := by
  obtain ⟨notes, hp⟩ := hp
  obtain ⟨notes', hf⟩ := hf
  refine ⟨notes ++ notes', ?_⟩
  show andThen p f st = _
  rw [andThen, hp]
  simp [hf]

@[simp]
lemma yields_source_bind {f : Source → Parse β} :
    (source >>= f).Yields st made b ↔ (f st.source).Yields st made b := Iff.rfl

@[simp]
lemma yields_lift_bind : ((liftM (Except.ok a : Scan α) : Parse α) >>= f).Yields st made b ↔
      (f a).Yields st made b := Iff.rfl

@[simp]
lemma yields_pure_bind :
    ((pure a : Parse α) >>= f).Yields st made b ↔ (f a).Yields st made b := Iff.rfl

@[simp]
lemma yields_lift : (liftM (Except.ok a : Scan α) : Parse α).Yields st [] a := ⟨[], rfl⟩

lemma Yields.bind_iff (hp : p.Yields st [] a) :
    (p >>= f).Yields st made b ↔ (f a).Yields st made b := by
  obtain ⟨notes, hp⟩ := hp
  have hbind : (p >>= f) st = ⟨(f a st).made, notes ++ (f a st).notes, (f a st).outcome⟩ := by
    show andThen p f st = _
    rw [andThen, hp]
    rfl
  unfold Yields
  rw [hbind]
  constructor
  · rintro ⟨more, h⟩
    simp only [Parsed.mk.injEq] at h
    exact ⟨(f a st).notes, by rw [← h.1, ← h.2.2]⟩
  · rintro ⟨more, h⟩
    exact ⟨notes ++ more, by rw [h]⟩

lemma yields_progress {k x y : Int} {label place : String} :
    (progress k label place x y).Yields st [] () := ⟨_, rfl⟩

@[simp]
lemma yields_progress_bind {f : Unit → Parse β} {k x y : Int} {label place : String} :
    (progress k label place x y >>= f).Yields st made b ↔ (f ()).Yields st made b :=
  yields_progress.bind_iff

lemma Yields.wrap {head' : Head} {close : List Syntax → α → Head × Except Failure β}
    (h : p.Yields st made a) (hclose : close made a = (head', .ok b)) :
    (Parse.wrap head p close).Yields st [.node head' made] b := by
  obtain ⟨notes, h⟩ := h
  refine ⟨notes, ?_⟩
  rw [Parse.wrap, h]
  simp [hclose]

lemma Yields.node (hp : p.Yields st made a) : (Parse.node head p).Yields st [.node head made] a :=
  hp.wrap rfl

lemma Yields.nodeThen {code : α → String} (hp : p.Yields st made a) :
    (Parse.nodeThen head p code).Yields st [.node { head with code? := some (code a) } made] a :=
  hp.wrap rfl

lemma Yields.cast {i j : Int} {p : Parse Int} (h : p.Yields st made i) (heq : i = j) :
    p.Yields st made j :=
  heq ▸ h

lemma yields_leaf : (leaf head).Yields st [.leaf head] () := ⟨[], rfl⟩

end Parse

/-! ### The tree of an expression -/

namespace Term

def head (sp : Spacing) (k : Int) (t : Term) (kind : Kind) : Head :=
  { kind, cur? := some k, code? := some (String.ofList (t.text sp)) }

mutual

def tree (sp : Spacing) (k : Int) : Term → Syntax
  | .name n => .node { head sp k (.name n) .var with name := n.text } []
  | .numeral d => .node { head sp k (.numeral d) .int with value := String.ofList d.digits } []
  | .call f args =>
    .node { head sp k (.call f args) .get with name := f.text }
      (trees sp sp.comma.length (k + f.chars.length + 1) args)
  | .paren t => .node (head sp k (.paren t) .paren) [tree sp (k + 1) t]
  | .neg t => .node (head sp k (.neg t) .neg) [tree sp (k + 1) t]
  | .not t => .node (head sp k (.not t) .not) [tree sp (k + 1) t]
  | .transpose t => .node (head sp k (.transpose t) .transpose) [tree sp k t]
  | .ctranspose t => .node (head sp k (.ctranspose t) .ctranspose) [tree sp k t]
  | .chain op first others =>
    .node (head sp k (.chain op first others) op.kind)
      (tree sp k first ::
        trees sp (sp.joint op).length (k + (first.text sp).length + (sp.joint op).length) others)

def trees (sp : Spacing) (gap : Nat) (k : Int) : List Term → List Syntax
  | [] => []
  | t :: ts => tree sp k t :: trees sp gap (k + (t.text sp).length + gap) ts

end

/-- How many characters of an expression are left when it has been read: a group is left where its
inside ends. -/
def unread : Term → Nat
  | .paren t => t.unread + 1
  | .neg t | .not t => t.unread
  | .transpose (.paren t) => t.unread + 3
  | .ctranspose (.paren t) => t.unread + 2
  | _ => 0

/-- The result of reading an expression without operators, signs and quotes that ends at `stop`,
where `whole` is the end of what it is a part of. -/
def primaryEnd (whole stop : Int) : Term → Int
  | .paren t => stop - 1 - t.unread
  | _ => whole

/-- The text after an expression does not belong to it. -/
def Follows (rest : List Char) : Prop :=
  ∃ bs c cs, rest = bs ++ c :: cs ∧ (∀ b ∈ bs, isBlank b = true) ∧ isBlank c = false ∧
    isWord c = false ∧ c ≠ '(' ∧ c ≠ '\x7b' ∧
    (c = '.' → ∃ d ds, cs = d :: ds ∧ Parse.namesField d = false)

/-- The text after an expression ends it. -/
structure Ends (t : Term) (rest : List Char) : Prop where
  follows : Follows rest
  dot : t.endsNumeral = true → rest.head? ≠ some '.'

/-- What follows an expression starts with no letter or digit. -/
lemma Follows.exists_head {rest : List Char} (h : Follows rest) :
    ∃ c cs, rest = c :: cs ∧ isWord c = false := by
  obtain ⟨bs, c, cs, rfl, hbs, -, hc, -⟩ := h
  cases bs with
  | nil => exact ⟨c, cs, rfl, hc⟩
  | cons b bs =>
    refine ⟨b, _, rfl, ?_⟩
    have hb : b = ' ' ∨ b = '\t' := by simpa [isBlank] using hbs b (.head _)
    rcases hb with rfl | rfl <;> decide

end Term

namespace Parse

/-- A parser for expressions reads all layered ones that are shorter than a bound. -/
def Reads (expression : ExpressionParser) (st : Setting) (sp : Spacing) (bound : Nat) : Prop :=
  ∀ t : Term, t.Layered sp → (t.text sp).length < bound → ∀ (k stop : Int) (rest : List Char)
    (q? : Option Operator), (t.startsQuoted = true → st.source.Fresh k) →
    st.source.Shows k (t.text sp ++ rest) →
    stop + 1 = k + (t.text sp).length → t.Ends rest → (∀ q ∈ q?, q.rank < t.level) →
    (expression k (some stop) q?).Yields st [t.tree sp k] (stop - t.unread)

variable {st : Setting} {sp : Spacing} {expression : ExpressionParser} {k : Int}
  {cs rest : List Char}

open Term

/-! ### Names -/

variable {c : Char} {p : Char → Bool} {n : Name} {word : String}

lemma isBlank_eq_false (hc : p c = true) (h1 : p ' ' = false) (h2 : p '\t' = false) :
    isBlank c = false := by
  have h3 := ne_of_class hc h1
  have h4 := ne_of_class hc h2
  simp [isBlank, h3, h4]

section

variable (h : st.source.Shows k (n.chars ++ c :: cs)) (hc : isWord c = false)
  (hword : ∀ d ∈ word.toList, isWord d = true)

include h hc hword

lemma prefix_of_reads (hreads : st.source.reads k word = true) : word.toList <+: n.chars := by
  have hshow := (Source.reads_iff h.nonneg).mp hreads
  by_cases hlen : word.toList.length ≤ n.chars.length
  · exact prefix_of_prefix_length_le hshow.2 h.left.2 hlen
  · -- the character after the name would belong to the word
    have hget := hshow.read_at (show n.chars.length < word.toList.length by omega)
    rw [h.right.read] at hget
    have hin := hword _ (Except.ok.inj hget ▸ getElem_mem _)
    rw [hc] at hin
    cases hin

lemma readsThen_eq_false (hne : n.chars ≠ word.toList)
    (hp : ∀ d, isWord d = true → p d = false) : st.source.readsThen k word p = .ok false := by
  unfold Source.readsThen
  cases hreads : st.source.reads k word with
  | false => rfl
  | true =>
    obtain ⟨more, hmore⟩ := prefix_of_reads h hc hword hreads
    cases more with
    | nil => exact absurd (by simpa using hmore.symm) hne
    | cons x xs =>
      have hx : isWord x = true := n.isWord_of_mem (by rw [← hmore]; simp)
      rw [← hmore, append_assoc] at h
      have hnext := h.right
      have hholds : st.source.holds p (k + word.length) = .ok (p x) := Source.Shows.holds hnext
      rw [if_pos rfl, hholds, hp x hx]

end

lemma yields_keywordAt {b : Bool} (h : st.source.readsThen k word (oneOf " ,;\n") = .ok b) :
    (keywordAt k word).Yields st [] b := by
  unfold keywordAt
  rw [yields_source_bind, h]
  exact yields_lift

lemma yields_nameEnd (h : st.source.Shows k (n.chars ++ c :: cs)) (hc : isWord c = false) :
    (nameEnd k).Yields st [] (k + n.chars.length) := by
  obtain ⟨d, ds, hchars, -, hds⟩ := n.exists_chars
  have hskip : st.source.skip isWord (k + 1) = .ok (k + n.chars.length) := by
    rw [hchars] at h ⊢
    have htail := h.tail
    rw [Source.skip_eq htail.upto hds hc, length_cons]
    congr 1
    omega
  unfold nameEnd
  rw [yields_source_bind, hskip]
  exact yields_lift

lemma yields_variableHead {kind : Kind} {name value : String} {x y : Int} {p : Int} :
    (variableHead kind name x y value p).Yields st []
      { kind, name, value, pointer := p, cur? := some x, code? := some (st.source.slice x y) } :=
  ⟨[], rfl⟩

/-- A dot after a name that no field follows is not looked at. -/
lemma yields_field (h : st.source.Shows k (c :: cs))
    (hdot : c = '.' → ∃ d ds, cs = d :: ds ∧ namesField d = false) :
    (if c = '.' then liftM (st.source.holds namesField (k + 1)) else pure false :
      Parse Bool).Yields st [] false := by
  by_cases hc : c = '.'
  · obtain ⟨d, ds, rfl, hd⟩ := hdot hc
    rw [if_pos hc, h.tail.holds, hd]
    exact yields_lift
  · rw [if_neg hc]
    exact yields_pure

lemma yields_reference_name (h : st.source.Shows k (n.chars ++ rest)) (hf : Follows rest) :
    (reference expression k).Yields st [(Term.name n).tree sp k] (k + n.chars.length - 1) := by
  obtain ⟨x, xs, rfl, hx⟩ := hf.exists_head
  obtain ⟨d, ds, hchars, hd, _⟩ := n.exists_chars
  have hread := h.read_first hchars
  have hat : d ≠ '@' := ne_of_class hd rfl
  have hname := yields_nameEnd h hx
  have hslice := h.left.slice
  obtain ⟨bs, c, cs, hrest, hbs, hblank, hword, hparen, hbrace, hdot⟩ := hf
  rw [hrest] at h
  have hskip : st.source.skipBlanks (k + n.chars.length) =
      .ok (k + n.chars.length + bs.length) :=
    Source.skip_eq h.right.upto hbs hblank
  have hc := h.right.right.read
  have hstop : st.source.skipBlanks (k + n.chars.length - 1) = .ok (k + n.chars.length - 1) := by
    have hlast := h.left.read_at (show n.chars.length - 1 < n.chars.length by simp [hchars])
    rw [show k + (n.chars.length - 1 : Nat) = k + n.chars.length - 1 by
      rw [hchars, length_cons]; omega] at hlast
    have hk := h.nonneg
    refine Source.skipBlanks_of_not_blank (Source.shows_singleton_of_read ?_ hlast) ?_
    · rw [hchars, length_cons]
      omega
    · exact isBlank_eq_false (n.isWord_of_mem (getElem_mem _)) rfl rfl
  unfold reference
  simp only [yields_source_bind, hread, yields_lift_bind, beq_iff_eq, hat, ite_false, hd,
    Bool.not_true, Bool.false_eq_true]
  rw [hname.bind_iff]
  simp only [hskip, hc, yields_lift_bind, hparen, hbrace]
  rw [(yields_field h.right.right hdot).bind_iff]
  simp only [Bool.false_eq_true, ite_false, yields_progress_bind]
  rw [yields_variableHead.bind_iff, hslice]
  refine yields_leaf.bind ?_
  rw [yields_pure.bind_iff, hstop]
  exact yields_lift

end Parse

/-! ### Arguments -/

lemma startsExpression_of_startsTerm {c : Char} (h : startsTerm c = true) :
    startsExpression c = true := by
  unfold startsTerm at h
  unfold startsExpression
  rw [Bool.or_eq_true] at h ⊢
  refine h.imp id fun hc => ?_
  exact of_oneOf hc (show ∀ d ∈ "(-~".toList, oneOf "[(\x7b~-+:@.'" d = true by decide)

namespace Source

variable {s : Source} {k : Int} {c : Char} {cs : List Char} {rows : Rows} {full : Bool}

lemma commaSteps_char {n : Nat} (h : s.Shows k (c :: cs)) (hdot : c ≠ '.')
    (hstart : startsExpression c = false) :
    s.commaSteps (n + 1) rows full k =
      if c = ',' then
        if full then s.commaSteps n rows false (k + 1) else s.expected k "comma list indicator"
      else if c = ';' then
        if full then s.commaSteps n ([] :: rows) false (k + 1)
        else s.expected k "comma list indicator"
      else if closesList c then return (rows.inOrder, k)
      else s.commaSteps n rows full (k + 1) := by
  have hdots := h.dots_eq_false hdot
  rw [commaSteps]
  simp [h.read, hdots, hstart]

lemma commaSteps_room {bound : Int} {r : Rows × Int} {n : Nat} (h : s.Shows k (room n ++ cs))
    (hbound : k + (room n).length < bound)
    (hrest : ∀ i : Nat, bound ≤ i + (k + (room n).length) →
      s.commaSteps i rows full (k + (room n).length) = .ok r) :
    ∀ i : Nat, bound ≤ i + k → s.commaSteps i rows full k = .ok r := by
  induction n generalizing k with
  | zero => simpa [room] using hrest
  | succ n ih =>
    intro i hi
    have hlen : (room (n + 1)).length = (room n).length + 1 := by simp [room]
    rcases i with _ | i
    · omega
    have hshow : s.Shows k (' ' :: (room n ++ cs)) := h
    rw [commaSteps_char hshow (by decide) (by decide)]
    rw [hlen, show k + ((room n).length + 1 : Nat) = k + 1 + (room n).length by omega] at hrest
    exact ih hshow.tail (by omega) hrest i (by omega)

end Source

namespace Term

open Source

variable {sp : Spacing} {s : Source} {k : Int} {t : Term} {ts : List Term} {cs : List Char}

/-- The end of an argument is found where the next comma or the closing parenthesis stands. -/
lemma Running.expressionEnd_eq {x : Char} (ht : t.Running sp s) (hfresh : s.Fresh k)
    (h : s.Shows k (t.text sp ++ x :: cs)) (hx : endsExpression x = true) :
    s.expressionEnd k = .ok (k + (t.text sp).length - 1) := by
  obtain ⟨c, ds, hhead, hc⟩ := t.exists_head sp
  obtain ⟨d, hd, hends, -⟩ := exists_read_last h.left
  have hfirst := h.read_first hhead
  have hpos := length_text_pos sp t
  have hgoes := (ht hfresh h.left).goes h.nonneg (h.left.end_le (t.text_ne_nil sp))
  exact Source.expressionEnd_eq h.nonneg hgoes hfirst (startsExpression_of_startsTerm hc) hd
    (Parse.isBlank_eq_false hends rfl rfl) (by omega) h.right hx

lemma length_le_tailed (sp : Spacing) (sep : List Char) (ht : t ∈ ts) :
    (t.text sp).length ≤ (tailed sp sep ts).length := by
  induction ts with
  | nil => cases ht
  | cons u us ih =>
    simp only [tailed, length_append]
    rcases mem_cons.mp ht with rfl | ht
    · omega
    · have := ih ht
      omega

lemma length_le_joined (sp : Spacing) (ht : t ∈ ts) :
    (t.text sp).length ≤ (joined sp ts).length := by
  cases ts with
  | nil => cases ht
  | cons u us =>
    simp only [joined, length_append]
    rcases mem_cons.mp ht with rfl | ht
    · omega
    · have := length_le_tailed sp sp.comma ht
      omega

lemma exists_tailed_head (sp : Spacing) (ts : List Term) (b : Char) (cs : List Char) :
    ∃ x xs, tailed sp sp.comma ts ++ b :: cs = x :: xs ∧ (x = ',' ∨ x = b) := by
  cases ts with
  | nil => exact ⟨b, cs, by rw [tailed]; rfl, .inr rfl⟩
  | cons t ts =>
    exact ⟨',', room sp.afterComma ++ (t.text sp ++ (tailed sp sp.comma ts ++ b :: cs)),
      by simp [tailed, Spacing.comma], .inl rfl⟩

variable {b : Char}

lemma endsExpression_of_closesList (hb : closesList b = true) : endsExpression b = true :=
  of_oneOf hb (show ∀ d ∈ "]\x7d)".toList, endsExpression d = true by decide)

lemma commaSteps_item {row : List (Int × Int)} {n : Nat} (ht : t.Running sp s) (hfresh : s.Fresh k)
    (hb : closesList b = true) (h : s.Shows k (t.text sp ++ (tailed sp sp.comma ts ++ b :: cs))) :
    s.commaSteps (n + 1) [row] false k =
      s.commaSteps n [(k, k + (t.text sp).length - 1) :: row] true (k + (t.text sp).length) := by
  obtain ⟨x, xs, hx, hends⟩ := exists_tailed_head sp ts b cs
  have hend : s.expressionEnd k = .ok (k + (t.text sp).length - 1) := by
    refine ht.expressionEnd_eq hfresh (hx ▸ h) ?_
    rcases hends with rfl | rfl
    · decide
    · exact endsExpression_of_closesList hb
  obtain ⟨c, ds, hhead, hc⟩ := t.exists_head sp
  rw [hhead] at h
  have hdots := h.dots_eq_false (ne_of_class hc rfl)
  rw [commaSteps]
  simp [h.read, hdots, startsExpression_of_startsTerm hc, hend, Rows.addItem]

lemma commaSteps_close {rows : Rows} {full : Bool} {n : Nat} (h : s.Shows k (b :: cs))
    (hb : closesList b = true) : s.commaSteps (n + 1) rows full k = .ok (rows.inOrder, k) := by
  have hne : b ≠ ',' ∧ b ≠ ';' ∧ b ≠ '.' :=
    ⟨ne_of_class hb rfl, ne_of_class hb rfl, ne_of_class hb rfl⟩
  have hstart : startsExpression b = false :=
    of_oneOf hb (show ∀ d ∈ "]\x7d)".toList, startsExpression d = false by decide)
  rw [commaSteps_char h hne.2.2 hstart, if_neg hne.1, if_neg hne.2.1, if_pos hb]
  rfl

lemma commaSteps_args (row : List (Int × Int)) {bound : Int} (ht : t.Running sp s)
    (hts : ∀ u ∈ ts, u.Running sp s) (hfresh : s.Fresh k) (hb : closesList b = true)
    (h : s.Shows k (t.text sp ++ (tailed sp sp.comma ts ++ b :: cs)))
    (hbound : bound = k + (t.text sp).length + (tailed sp sp.comma ts).length + 1) :
    ∀ n : Nat, bound ≤ n + k → s.commaSteps n [row] false k =
      .ok ([row.reverse ++ spans sp sp.comma.length k (t :: ts)], bound - 1) := by
  induction ts generalizing t k row with
  | nil =>
    intro n hn
    have hpos := length_text_pos sp t
    obtain ⟨n, rfl⟩ : ∃ m, n = m + 1 + 1 := ⟨n - 2, by omega⟩
    rw [commaSteps_item ht hfresh hb h]
    rw [commaSteps_close h.right hb]
    simp [spans, Rows.inOrder, hbound, tailed]
  | cons u us ih =>
    intro n hn
    have hpos := length_text_pos sp t
    obtain ⟨n, rfl⟩ : ∃ m, n = m + 1 + 1 := ⟨n - 2, by omega⟩
    rw [commaSteps_item ht hfresh hb h]
    rw [tailed, append_assoc, append_assoc] at h
    rw [tailed] at hbound
    have hcomma := h.right
    have hlen : sp.comma.length = (room sp.afterComma).length + 1 := by simp [Spacing.comma]
    simp only [length_append] at hbound
    rw [commaSteps_char hcomma (by decide) (by decide), spans, append_cons, ← reverse_cons]
    have hrest := ih ((k, k + (t.text sp).length - 1) :: row) (hts u (.head _))
      (fun v hv => hts v (.tail _ hv)) (fresh_comma h.right.left) h.right.right
      (by omega)
    rw [show k + (t.text sp).length + sp.comma.length = k + (t.text sp).length + 1 + (room
      sp.afterComma).length by omega] at hrest ⊢
    exact commaSteps_room hcomma.tail (by omega) hrest n (by omega)

section

variable {a : Char} (hts : ∀ t ∈ ts, t.Running sp s) (ha : opensList a = true)
  (hb : closesList b = true) (h : s.Shows k (a :: (joined sp ts ++ b :: cs)))

include hts ha hb h

lemma commaList_eq :
    s.commaList k = .ok ([spans sp sp.comma.length (k + 1) ts], k + 1 + (joined sp ts).length) := by
  have hk := h.nonneg
  have hsize := h.end_le (by simp)
  simp only [length_cons] at hsize
  have hword : isWord a = false :=
    of_oneOf ha (show ∀ d ∈ "[(\x7b".toList, isWord d = false by decide)
  unfold commaList
  simp only [h.read, Scan.ok_bind, ha, Bool.not_true, Bool.false_eq_true, ite_false]
  cases ts with
  | nil =>
    have hclose := h.tail
    have hskip : s.skipBlanks (k + 1) = .ok (k + 1) :=
      skipBlanks_of_not_blank hclose (Parse.isBlank_eq_false hb rfl rfl)
    simp only [hskip, hclose.read, Scan.ok_bind]
    split
    · simp [spans, joined]
    · rw [steps, commaSteps_close hclose hb]
      simp [spans, joined, Rows.inOrder]
  | cons t ts =>
    have ht := hts t (.head _)
    have htail : s.Shows (k + 1) (t.text sp ++ (tailed sp sp.comma ts ++ b :: cs)) := by
      rw [← append_assoc]
      exact h.tail
    obtain ⟨c, ds, hhead, hc⟩ := t.exists_head sp
    have hfirst : s.Shows (k + 1) (c :: (ds ++ (tailed sp sp.comma ts ++ b :: cs))) := by
      rw [hhead] at htail
      exact htail
    have hskip : s.skipBlanks (k + 1) = .ok (k + 1) :=
      skipBlanks_of_not_blank hfirst (Parse.isBlank_eq_false hc rfl rfl)
    simp only [hskip, hfirst.read, Scan.ok_bind]
    have hbracket : oneOf "]\x7d" c = false := oneOf_eq_false hc (by decide)
    rw [hbracket]
    simp only [joined, length_append] at hsize
    rw [commaSteps_args [] ht ((forall_mem_cons.1 hts).2)
      (fresh_after h hword) hb htail rfl s.steps (by unfold steps; omega)]
    simp [joined]
    omega

lemma commaItems_eq : s.commaItems k = .ok [spans sp sp.comma.length (k + 1) ts] := by
  rw [commaItems, commaList_eq hts ha hb h]
  rfl

end

lemma follows_of_char {c : Char} (h1 : isBlank c = false) (h2 : isWord c = false)
    (h3 : c ≠ '(' ∧ c ≠ '\x7b' ∧ c ≠ '.') : Follows (c :: cs) :=
  ⟨[], c, cs, rfl, by simp, h1, h2, h3.1, h3.2.1, fun h => absurd h h3.2.2⟩

lemma ends_tailed (t : Term) (ts : List Term) : t.Ends (tailed sp sp.comma ts ++ ')' :: cs) := by
  obtain ⟨x, xs, hx, hends⟩ := exists_tailed_head sp ts ')' cs
  rw [hx]
  rcases hends with rfl | rfl
  iterate 2 · exact ⟨follows_of_char rfl rfl (by decide), by simp⟩

end Term

namespace Parse

open Term

variable {st : Setting} {sp : Spacing} {expression : ExpressionParser} {k : Int} {bound : Nat}
  {t : Term} {ts : List Term} {cs rest : List Char}

lemma yields_rowItems (hreads : Reads expression st sp bound) (before : Int)
    (ht : t.Layered sp) (hlen : (t.text sp).length < bound)
    (hts : ∀ u ∈ ts, u.Layered sp ∧ (u.text sp).length < bound) (hfresh : st.source.Fresh k)
    (h : st.source.Shows k (t.text sp ++ (tailed sp sp.comma ts ++ ')' :: cs))) :
    (rowItems expression before (spans sp sp.comma.length k (t :: ts))).Yields st
      (trees sp sp.comma.length k (t :: ts)) (k + (joined sp (t :: ts)).length - 1) := by
  have hfirst := hreads t ht hlen k (k + (t.text sp).length - 1) _ none (fun _ => hfresh) h
    (by omega)
    (ends_tailed t ts) (by simp)
  induction ts generalizing t k before with
  | nil =>
    rw [spans, joined_singleton]
    exact hfirst.bind yields_pure
  | cons u us ih =>
    obtain ⟨hu, hulen⟩ := hts u (.head _)
    rw [tailed, append_assoc, append_assoc] at h
    have hnext := h.right.right
    have hfresh' := Source.fresh_comma h.right.left
    have hrest := ih (k + (t.text sp).length - 1) hu hulen
      (fun v hv => hts v (.tail _ hv)) hfresh' hnext
      (hreads u hu hulen _ _ _ none (fun _ => hfresh') hnext (by omega) (ends_tailed u us)
        (by simp))
    have hend : k + (t.text sp).length + sp.comma.length + (joined sp (u :: us)).length - 1 =
        k + (joined sp (t :: u :: us)).length - 1 := by
      simp only [joined, tailed, length_append]
      omega
    rw [← hend]
    exact hfirst.bind hrest

lemma yields_argumentList (hreads : Reads expression st sp bound)
    (hts : ∀ t ∈ ts, t.Layered sp ∧ (t.text sp).length < bound)
    (h : st.source.Shows k ('(' :: (joined sp ts ++ ')' :: cs))) :
    (argumentList expression k).Yields st (trees sp sp.comma.length (k + 1) ts)
      (k + 1 + (joined sp ts).length) := by
  have hclose := h.tail.right
  have hskip := Source.skipBlanks_of_not_blank hclose (by decide)
  have hrows : (rowsItems expression k [spans sp sp.comma.length (k + 1) ts]).Yields st
      (trees sp sp.comma.length (k + 1) ts) (k + (joined sp ts).length) := by
    rw [← append_nil (trees sp _ _ _)]
    refine Yields.bind ?_ yields_pure
    cases ts with
    | nil =>
      rw [spans, joined, add_length_nil]
      exact yields_pure
    | cons t ts =>
      obtain ⟨ht, hlen⟩ := hts t (.head _)
      have htail : st.source.Shows (k + 1) (t.text sp ++ (tailed sp sp.comma ts ++ ')' :: cs)) := by
        rw [← append_assoc]
        exact h.tail
      have hitems := yields_rowItems hreads k ht hlen
        ((forall_mem_cons.1 hts).2) (fresh_after h rfl) htail
      rwa [show k + 1 + ((joined sp (t :: ts)).length) - 1 = k + (joined sp (t :: ts)).length by
        omega] at hitems
  unfold argumentList
  simp only [yields_source_bind, h.read, yields_lift_bind,
    commaItems_eq (fun t ht => (hts t ht).1.runs) (by decide) (by decide) h]
  rw [← append_nil (trees sp _ _ _)]
  refine hrows.bind ?_
  rw [show k + (joined sp ts).length + 1 = k + 1 + (joined sp ts).length by omega]
  simp only [hskip, yields_lift_bind, hclose.read]
  exact yields_pure

lemma yields_fieldAfter? (h : st.source.Shows (k + 1) rest) (hf : Follows rest) :
    (fieldAfter? k).Yields st [] none := by
  obtain ⟨bs, c, cs, rfl, hbs, -, -, -, -, hdot⟩ := hf
  have hother : ∀ {d ds}, bs ++ c :: cs = d :: ds → d ≠ '.' →
      (fieldAfter? k).Yields st [] none := by
    intro d ds hd hne
    rw [hd] at h
    unfold fieldAfter?
    simp only [yields_source_bind, h.read, yields_lift_bind, beq_iff_eq, hne]
    exact yields_pure
  cases bs with
  | cons b bs =>
    refine hother rfl ?_
    rintro rfl
    exact absurd (hbs '.' (.head _)) (by decide)
  | nil =>
    by_cases hc : c = '.'
    · obtain ⟨d, ds, rfl, hd⟩ := hdot hc
      have hletter : isLetter d = false := by
        rw [namesField, Bool.not_eq_false'] at hd
        exact of_oneOf hd (show ∀ x ∈ "*/\\^'".toList, isLetter x = false by decide)
      have hread : st.source.read (k + 2) = .ok d := by
        have := h.tail.read
        rwa [show k + 1 + 1 = k + 2 by omega] at this
      unfold fieldAfter?
      simp only [yields_source_bind, Source.Shows.read h, hc, yields_lift_bind, beq_self_eq_true,
        ite_true, hread, hletter]
      exact yields_pure
    · exact hother rfl hc

lemma yields_reference_call {f : Name} (hreads : Reads expression st sp bound)
    (hts : ∀ t ∈ ts, t.Layered sp ∧ (t.text sp).length < bound)
    (h : st.source.Shows k ((Term.call f ts).text sp ++ rest)) (hf : Follows rest) :
    (reference expression k).Yields st [(Term.call f ts).tree sp k]
      (k + ((Term.call f ts).text sp).length - 1) := by
  have hslice := h.left.slice
  have hlen : ((call f ts).text sp).length = f.chars.length + (joined sp ts).length + 2 := by
    simp [text]
    omega
  rw [text] at h
  simp only [append_assoc] at h
  obtain ⟨d, ds, hchars, hd, _⟩ := f.exists_chars
  have hread := h.read_first hchars
  have hat : d ≠ '@' := ne_of_class hd rfl
  have hname := yields_nameEnd h (by decide)
  have hnameText := h.left.slice
  have hopen := h.right
  have hk := hopen.nonneg
  have hskip := Source.skipBlanks_of_not_blank hopen (by decide)
  have hsize := hopen.end_le (by simp)
  simp only [length_cons, length_append] at hsize
  have hclose : st.source.parenEnd (k + f.chars.length) =
      .ok (k + f.chars.length + 1 + (joined sp ts).length) := by
    refine (runs_group (fun t ht => (hts t ht).1.runs) (Source.Shows.upto hopen)).1.close_eq hk ?_
    omega
  have hstop := hopen.tail.right
  have hnext := hstop.tail
  have hindexed : (indexedVariable expression f.text k (k + f.chars.length)).Yields st
      [(call f ts).tree sp k] (k + f.chars.length + 1 + (joined sp ts).length) := by
    unfold indexedVariable
    simp only [yields_source_bind, hclose, yields_lift_bind]
    rw [(yields_fieldAfter? hnext hf).bind_iff]
    simp only [yields_progress_bind]
    rw [yields_variableHead.bind_iff, show k + f.chars.length + 1 + (joined sp ts).length + 1 = k +
      ((call f ts).text sp).length by omega, hslice]
    exact (yields_argumentList hreads hts hopen).node
  unfold reference
  simp only [yields_source_bind, hread, yields_lift_bind, beq_iff_eq, hat, ite_false, hd,
    Bool.not_true, Bool.false_eq_true]
  rw [hname.bind_iff]
  simp only [hskip, hopen.read, yields_lift_bind, hnameText]
  refine hindexed.bind ?_
  rw [Source.skipBlanks_of_not_blank hstop (by decide), show k + f.chars.length + 1 + (joined sp
    ts).length = k + ((call f ts).text sp).length - 1 by omega]
  exact yields_lift

end Parse

end ArmaGen
