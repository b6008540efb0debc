import ArmaGen.Proofs.Syntax.Break
import ArmaGen.Proofs.Syntax.Literal

/-!
# Layered expressions are read as what they are

Every layered expression is read as the tree it was written from, at whatever position it stands and
whatever ends it (`yields_expression`), with breaks or without (`yields_expression_broken`). The
argument follows the levels of the grammar from the inside out. Each lemma assumes a parser for
expressions that reads everything shorter than a bound, and so one level more of the grammar reads
expressions that are longer by one (`ReadsBroken.step`).
-/

namespace ArmaGen

open List

namespace Parse

open Term

variable {st : Setting} {sp : Spacing} {expression : ExpressionParser} {k : Int} {bound : Nat}
  {t : Term} {ts : List Term} {cs rest : List Char}

/-! ### What has no operators -/

variable {c : Char} {made : List Syntax} {whole stop : Int} {d : WholeNumber} {q? : Option Operator}

lemma yields_primary_name {n : Name} {r : Int} (hn : n.isVariable = true)
    (h : st.source.Shows k (n.chars ++ c :: cs)) (hc : isWord c = false)
    (href : (reference expression k).Yields st made r) :
    (primary expression whole k stop).Yields st made whole := by
  obtain ⟨d, ds, hchars, hd, _⟩ := n.exists_chars
  have hread := h.read_first hchars
  simp only [Name.isVariable, Bool.and_eq_true, bne_iff_ne] at hn
  obtain ⟨⟨hend, hreturn⟩, hbreak⟩ := hn
  have hreads : st.source.reads k "end" = false := by
    rw [← Bool.not_eq_true]
    intro hreads
    rw [ isPrefixOf_iff_prefix.mpr (prefix_of_reads h hc (by decide) hreads)] at hend
    cases hend
  have h1 : d ≠ '(' := ne_of_class hd rfl
  have h2 : d ≠ '\'' := ne_of_class hd rfl
  have h3 : d ≠ '[' := ne_of_class hd rfl
  have h4 : d ≠ '\x7b' := ne_of_class hd rfl
  have h5 : d ≠ '.' := ne_of_class hd rfl
  have h6 : isDigit d = false := isDigit_eq_false_of_isLetter hd
  have hnumber : (numberStarts k).Yields st [] false := by
    unfold numberStarts
    simp only [yields_source_bind, hread, yields_lift_bind, h6, beq_iff_eq, h5]
    exact yields_pure
  unfold primary
  simp only [yields_source_bind, hread, yields_lift_bind, beq_iff_eq, h1, ite_false, hreads,
    Bool.false_eq_true]
  have hclass : ∀ x, isWord x = true → oneOf " ,;\n" x = false :=
    fun x hx => oneOf_eq_false hx (by decide)
  rw [(yields_keywordAt (readsThen_eq_false h hc (by decide) hreturn hclass)).bind_iff,
    if_neg (by decide),
    (yields_keywordAt (readsThen_eq_false h hc (by decide) hbreak hclass)).bind_iff,
    if_neg (by decide), if_neg h2, hnumber.bind_iff, if_neg h3, if_neg h4, hd, ← append_nil made]
  exact href.bind yields_pure

lemma yields_number (h : st.source.Shows k (d.digits ++ c :: cs)) (hc : isWord c = false)
    (hdot : c ≠ '.') :
    (number k).Yields st [(Term.numeral d).tree sp k] (k + d.digits.length - 1) := by
  let n : NumberText := ⟨d.digits, [], [], [], d.spelled, .inl rfl, .inl rfl, .inl rfl,
    .inl d.nonempty⟩
  have htext : n.text = d.digits := by simp [n, NumberText.text, NumberText.body]
  have htree : n.leaf k n.kind (String.ofList n.plain) = (Term.numeral d).tree sp k := by
    simp [n, NumberText.leaf, NumberText.kind, NumberText.plain, NumberText.body, tree, Term.head,
      text, Syntax.leaf, Kind.keptValue, Kind.holdsText]
  simp only [isWord, isAlnum, Bool.or_eq_false_iff] at hc
  rw [← htext] at h ⊢
  rw [← htree]
  refine yields_numberText h ⟨hc.1.2, hc.1.1, hdot, fun hlast => ?_⟩
  have hdigit := d.spelled _ (htext ▸ mem_of_getLast? hlast)
  cases hdigit

lemma Yields.spanNode {α : Type} {p : Parse α} {kind : Kind} {a : α} (hp : p.Yields st made a)
    (h : st.source.Shows k cs) (hstop : stop + 1 = k + cs.length) :
    (Parse.spanNode kind k stop p).Yields st
      [.node { kind, cur? := some k, code? := some (String.ofList cs) } made] a := by
  unfold Parse.spanNode
  rw [yields_source_bind, hstop, h.slice]
  exact hp.node

lemma yields_primary_paren (hreads : Reads expression st sp bound) (ht : t.Layered sp)
    (hlen : (t.text sp).length < bound) (h : st.source.Shows k ((Term.paren t).text sp ++ rest))
    (hstop : stop + 1 = k + ((Term.paren t).text sp).length) :
    (primary expression whole k stop).Yields st [(Term.paren t).tree sp k]
      ((Term.paren t).primaryEnd whole stop) := by
  have hwhole := h.left
  have hinside : st.source.Shows k ('(' :: (t.text sp ++ ')' :: rest)) := by
    simpa [text] using h
  simp [text] at hstop
  have hclose : st.source.Shows stop (')' :: rest) := by
    have := hinside.tail.right
    rwa [show k + 1 + (t.text sp).length = stop by omega] at this
  obtain ⟨c, ds, hhead, hc⟩ := t.exists_head sp
  obtain ⟨d, hd, hends, -⟩ := exists_read_last hinside.tail.left
  rw [show k + 1 + (t.text sp).length - 1 = stop - 1 by omega] at hd
  have hskip : st.source.skipBlanks (k + 1) = .ok (k + 1) := by
    have hfirst := hinside.tail
    rw [hhead] at hfirst
    exact Source.skipBlanks_of_not_blank hfirst (isBlank_eq_false hc rfl rfl)
  have hback : st.source.backBlanks (stop - 1) = .ok (stop - 1) := by
    have hk := hinside.nonneg
    exact Source.backBlanks_eq (Source.shows_singleton_of_read (by omega) hd)
      (isBlank_eq_false hends rfl rfl)
  have hends : t.Ends (')' :: rest) :=
    ⟨follows_of_char rfl rfl (by decide), by simp⟩
  have hinner := hreads t ht hlen (k + 1) (stop - 1) _ none (fun _ => fresh_after hinside rfl)
    hinside.tail (by omega) hends (by simp)
  unfold primary
  simp only [yields_source_bind, hinside.read, yields_lift_bind, hclose.read]
  refine .spanNode ?_ hwhole (by
    simp [text]; omega)
  simp only [hskip, hback]
  exact hinner

lemma yields_primary_numeral (h : st.source.Shows k (d.digits ++ c :: cs)) (hc : isWord c = false)
    (hdot : c ≠ '.') :
    (primary expression whole k stop).Yields st [(Term.numeral d).tree sp k] whole := by
  obtain ⟨x, xs, hx⟩ := exists_cons_of_ne_nil d.nonempty
  have hdigit : isDigit x = true := d.spelled x (by simp [hx])
  have hshow := h
  rw [hx] at hshow
  have hend : st.source.reads k "end" = false :=
    hshow.reads_eq_false rfl (ne_of_class hdigit rfl).symm
  have hreturn : st.source.reads k "return" = false :=
    hshow.reads_eq_false rfl (ne_of_class hdigit rfl).symm
  have hbreak : st.source.reads k "break" = false :=
    hshow.reads_eq_false rfl (ne_of_class hdigit rfl).symm
  have h1 : x ≠ '(' := ne_of_class hdigit rfl
  have h2 : x ≠ '\'' := ne_of_class hdigit rfl
  have hstarts := yields_numberStarts hshow (.inl hdigit)
  unfold primary
  simp only [yields_source_bind, hshow.read, yields_lift_bind, beq_iff_eq, h1, ite_false, hend,
    Bool.false_eq_true]
  rw [(yields_keywordAt (by rw [Source.readsThen, hreturn]; rfl)).bind_iff, if_neg (by decide),
    (yields_keywordAt (by rw [Source.readsThen, hbreak]; rfl)).bind_iff, if_neg (by decide),
    if_neg h2, hstarts.bind_iff]
  exact (yields_number h hc hdot).bind yields_pure

section

variable (hreads : Reads expression st sp bound) (ht : t.Layered sp)

include hreads ht

section Primary

variable (hp : t.isPrimary = true) (hlen : (t.text sp).length ≤ bound)
  (h : st.source.Shows k (t.text sp ++ rest)) (hends : t.Ends rest)
  (hstop : stop + 1 = k + (t.text sp).length)

include hp hlen h hends hstop

lemma yields_primary :
    (primary expression whole k stop).Yields st [t.tree sp k] (t.primaryEnd whole stop) := by
  obtain ⟨c, cs, hrest, hc⟩ := hends.follows.exists_head
  cases ht with
  | @name n hn =>
    exact yields_primary_name hn (by rw [hrest] at h; exact h) hc
      (yields_reference_name h hends.follows)
  | numeral d =>
    have hdot := hends.dot rfl
    rw [hrest] at h hdot
    exact yields_primary_numeral h hc (by simpa using hdot)
  | @call f args hf hargs =>
    have hargs' : ∀ u ∈ args, u.Layered sp ∧ (u.text sp).length < bound := by
      intro u hu
      refine ⟨hargs u hu, ?_⟩
      have hle := length_le_joined sp hu
      simp [text] at hlen
      omega
    have hname : st.source.Shows k (f.chars ++ '(' :: (joined sp args ++ ')' :: rest)) := by
      simpa [text] using h
    exact yields_primary_name hf hname (by decide)
      (yields_reference_call hreads hargs' h hends.follows)
  | @paren u hu =>
    simp [text] at hlen
    exact yields_primary_paren hreads hu (by omega) h hstop
  | neg | not | transpose | ctranspose | chain => cases hp

/-! ### Quotes and signs -/

lemma yields_postfixed_primary :
    (postfixed expression stop k).Yields st [t.tree sp k] (stop - t.unread) := by
  obtain ⟨c, hc, -, -, hquote⟩ := exists_read_last h.left
  rw [show k + (t.text sp).length - 1 = stop by omega] at hc
  have hresult : t.primaryEnd stop stop = stop - t.unread := by
    cases t with
    | paren => simp only [primaryEnd, unread]; omega
    | name | numeral | call => simp [primaryEnd, unread]
    | _ => cases hp
  unfold postfixed
  simp only [yields_source_bind, hc, yields_lift_bind]
  rw [if_pos (by simpa using hquote hp), ← hresult]
  exact yields_primary hreads ht hp hlen h hends hstop

lemma yields_transposed :
    (liftM (st.source.backBlanks stop) >>= primary expression whole k).Yields st [t.tree sp k]
      (t.primaryEnd whole stop) := by
  obtain ⟨c, hc, hclass, -⟩ := exists_read_last h.left
  have hk := h.nonneg
  have hpos := length_text_pos sp t
  rw [show k + (t.text sp).length - 1 = stop by omega] at hc
  rw [Source.backBlanks_eq (Source.shows_singleton_of_read (by omega) hc)
    (isBlank_eq_false hclass rfl rfl)]
  exact yields_primary hreads ht hp hlen h hends hstop

end Primary

lemma yields_postfixed_quote {mark : List Char} {w : Term}
    (hmark : mark = [] ∧ w = .ctranspose t ∨ mark = ['.'] ∧ w = .transpose t)
    (hp : t.isPrimary = true) (hends : t.Ends (mark ++ '\'' :: rest))
    (hlen : (w.text sp).length ≤ bound) (h : st.source.Shows k (w.text sp ++ rest))
    (hstop : stop + 1 = k + (w.text sp).length) :
    (postfixed expression stop k).Yields st [w.tree sp k] (stop - w.unread) := by
  have htext : w.text sp = t.text sp ++ (mark ++ ['\'']) := by
    rcases hmark with ⟨rfl, rfl⟩ | ⟨rfl, rfl⟩ <;> simp [text]
  have hshow : st.source.Shows k (t.text sp ++ (mark ++ '\'' :: rest)) := by simpa [htext] using h
  have hsize : (w.text sp).length = (t.text sp).length + mark.length + 1 := by simp [htext]; omega
  obtain ⟨x, xs, hhead, hx⟩ := t.exists_head sp
  have hfirst := hshow.read_first hhead
  have hquote : st.source.read stop = .ok '\'' := by
    have := hshow.right.right.read
    rwa [show k + (t.text sp).length + mark.length = stop by omega] at this
  have hresult : t.primaryEnd stop (stop - 1 - mark.length) = stop - w.unread := by
    rcases hmark with ⟨rfl, rfl⟩ | ⟨rfl, rfl⟩ <;> cases t with
    | paren => simp only [primaryEnd, unread, length_nil, length_singleton]; omega
    | name | numeral | call => simp [primaryEnd, unread]
    | _ => cases hp
  have hinner : (liftM (st.source.backBlanks (stop - 1 - mark.length)) >>=
      primary expression stop k).Yields st [t.tree sp k] (stop - w.unread) :=
    hresult ▸ yields_transposed hreads ht hp (by omega) hshow hends (by omega)
  unfold postfixed
  simp only [yields_source_bind, hquote, hfirst]
  rw [yields_lift_bind, if_neg (by decide), yields_lift_bind,
    if_neg (by simpa using ne_of_class hx rfl)]
  rcases hmark with ⟨rfl, rfl⟩ | ⟨rfl, rfl⟩
  · obtain ⟨c, hc, hclass, -⟩ := exists_read_last hshow.left
    rw [show k + (t.text sp).length - 1 = stop - 1 by simp at hsize; omega] at hc
    rw [hc, yields_lift_bind, if_neg (by simpa using ne_of_class hclass rfl)]
    exact .spanNode (by simpa using hinner) h.left (by omega)
  · have hdot := hshow.right.read
    rw [show k + (t.text sp).length = stop - 1 by simp at hsize; omega] at hdot
    rw [hdot, yields_lift_bind]
    exact .spanNode (by simpa [Int.sub_sub] using hinner) h.left (by omega)

lemma yields_postfixed
    (hc : t.isChain = false) (hs : t.isSigned = false) (hlen : (t.text sp).length ≤ bound)
    (h : st.source.Shows k (t.text sp ++ rest)) (hends : t.Ends rest)
    (hstop : stop + 1 = k + (t.text sp).length) :
    (postfixed expression stop k).Yields st [t.tree sp k] (stop - t.unread) := by
  cases ht with
  | name hn => exact yields_postfixed_primary hreads (.name hn) rfl hlen h hends hstop
  | numeral d => exact yields_postfixed_primary hreads (.numeral d) rfl hlen h hends hstop
  | call hf hargs => exact yields_postfixed_primary hreads (.call hf hargs) rfl hlen h hends hstop
  | paren ht => exact yields_postfixed_primary hreads (.paren ht) rfl hlen h hends hstop
  | @transpose t ht hq =>
    refine yields_postfixed_quote hreads ht (.inr ⟨rfl, rfl⟩) (isPrimary_of_takesDot hq)
      ⟨⟨[], '.', _, rfl, by simp, by decide, by decide, by decide, by decide,
        fun _ => ⟨'\'', rest, rfl, by decide⟩⟩, ?_⟩ hlen h hstop
    cases t <;> simp [takesDot, endsNumeral] at hq ⊢
  | ctranspose ht hq =>
    exact yields_postfixed_quote hreads ht (.inl ⟨rfl, rfl⟩) (isPrimary_of_takesQuote hq)
      ⟨follows_of_char rfl rfl (by decide), by simp⟩ hlen h hstop
  | neg | not => cases hs
  | chain => cases hc

end

lemma exists_head_of_isPrimary (sp : Spacing) (hp : t.isPrimary = true) :
    ∃ c cs, t.text sp = c :: cs ∧ c ≠ '-' ∧ c ≠ '~' := by
  cases t with
  | name n =>
    obtain ⟨c, cs, h, hc, -⟩ := n.exists_chars
    exact ⟨c, cs, h, ne_of_class hc rfl, ne_of_class hc rfl⟩
  | numeral d =>
    obtain ⟨c, cs, h⟩ := exists_cons_of_ne_nil d.nonempty
    have hc := d.spelled c (by simp [h])
    exact ⟨c, cs, h, ne_of_class hc rfl, ne_of_class hc rfl⟩
  | call f args =>
    obtain ⟨c, cs, h, hc, -⟩ := f.exists_chars
    exact ⟨c, _, by rw [text, h]; rfl, ne_of_class hc rfl, ne_of_class hc rfl⟩
  | paren t => exact ⟨'(', _, by rw [text]; rfl, by decide, by decide⟩
  | _ => cases hp

lemma exists_head_of_unsigned (hc : t.isChain = false) (hs : t.isSigned = false)
    (ht : t.Layered sp) : ∃ c cs, t.text sp = c :: cs ∧ c ≠ '-' ∧ c ≠ '~' := by
  cases ht with
  | name | numeral | call | paren => exact exists_head_of_isPrimary sp rfl
  | transpose _ hq =>
    obtain ⟨c, cs, h, hne⟩ := exists_head_of_isPrimary sp (isPrimary_of_takesDot hq)
    exact ⟨c, _, by rw [text, h]; rfl, hne⟩
  | ctranspose _ hq =>
    obtain ⟨c, cs, h, hne⟩ := exists_head_of_isPrimary sp (isPrimary_of_takesQuote hq)
    exact ⟨c, _, by rw [text, h]; rfl, hne⟩
  | neg | not => cases hs
  | chain => cases hc

lemma exists_head_ne_tilde (hc : t.isChain = false) (ht : t.Layered sp)
    (hnot : ∀ u, t ≠ .not u) : ∃ c cs, t.text sp = c :: cs ∧ c ≠ '~' := by
  cases hs : t.isSigned with
  | false =>
    obtain ⟨c, cs, hhead, -, htilde⟩ := exists_head_of_unsigned hc hs ht
    exact ⟨c, cs, hhead, htilde⟩
  | true =>
    cases t with
    | neg u => exact ⟨'-', _, by rw [text], by decide⟩
    | not u => exact absurd rfl (hnot u)
    | _ => cases hs

lemma skipBlanks_text (h : st.source.Shows k (t.text sp ++ rest)) :
    st.source.skipBlanks k = .ok k := by
  obtain ⟨c, cs, hhead, hc⟩ := t.exists_head sp
  rw [hhead] at h
  exact Source.skipBlanks_of_not_blank h (isBlank_eq_false hc rfl rfl)

lemma yields_signed (hreads : Reads expression st sp bound) :
    ∀ (n : Nat) {t : Term} {k : Int}, t.Layered sp → t.isChain = false →
      (t.text sp).length ≤ bound → (t.text sp).length ≤ n →
      st.source.Shows k (t.text sp ++ rest) → t.Ends rest →
      stop + 1 = k + (t.text sp).length →
      (signed expression stop n k).Yields st [t.tree sp k] (stop - t.unread) := by
  intro n
  induction n with
  | zero =>
    intro t k _ _ _ hn
    have hpos := length_text_pos sp t
    omega
  | succ n ih =>
    intro t k ht hc hbound hn h hends hstop
    rw [signed]
    cases hs : t.isSigned with
    | false =>
      obtain ⟨c, cs, hhead, hminus, htilde⟩ := exists_head_of_unsigned hc hs ht
      have hread := h.read_first hhead
      simp only [yields_source_bind, hread, yields_lift_bind]
      rw [if_neg (by simpa using hminus), if_neg (by simpa using htilde)]
      exact yields_postfixed hreads ht hc hs hbound h hends hstop
    | true =>
      cases ht with
      | @neg u hu hchain =>
        have hshow : st.source.Shows k ('-' :: (u.text sp ++ rest)) := by simpa [text] using h
        have hlen : ((neg u).text sp).length = (u.text sp).length + 1 := by simp [text]
        have hafter : u.Ends rest := ⟨hends.follows, hends.dot⟩
        simp only [yields_source_bind, hshow.read, yields_lift_bind]
        refine .spanNode ?_ h.left (by omega)
        by_cases hnot : ∃ v, u = .not v
        · -- the tilde after a minus sign is read together with it
          obtain ⟨v, rfl⟩ := hnot
          cases hu with
          | not hv hvchain =>
            have htilde : st.source.Shows (k + 1) ('~' :: (v.text sp ++ rest)) := by
              simpa [text] using hshow.tail
            have hvlen : ((not v).text sp).length = (v.text sp).length + 1 := by simp [text]
            simp only [htilde.read, show k + 2 = k + 1 + 1 by omega]
            refine .spanNode ?_ hshow.tail.left (by omega)
            rw [skipBlanks_text htilde.tail]
            exact ih hv hvchain (by omega) (by omega) htilde.tail ⟨hafter.follows, hafter.dot⟩
              (by omega)
        · obtain ⟨c, cs, hhead, htilde⟩ := exists_head_ne_tilde hchain hu fun v hv => hnot ⟨v, hv⟩
          have hread : st.source.read (k + 1) = .ok c := by
            have := hshow.tail
            rw [hhead] at this
            exact this.read
          simp only [hread, yields_lift_bind, skipBlanks_text hshow.tail]
          rw [if_neg (by simpa using htilde)]
          exact ih hu hchain (by omega) (by omega) hshow.tail hafter (by omega)
      | @not u hu hchain =>
        have hshow : st.source.Shows k ('~' :: (u.text sp ++ rest)) := by simpa [text] using h
        have hlen : ((not u).text sp).length = (u.text sp).length + 1 := by simp [text]
        have hafter : u.Ends rest := ⟨hends.follows, hends.dot⟩
        rw [hlen] at hbound hn hstop
        simp only [yields_source_bind, hshow.read, yields_lift_bind]
        refine .spanNode ?_ h.left (by omega)
        rw [skipBlanks_text hshow.tail]
        exact ih hu hchain (by omega) (by omega) hshow.tail hafter (by omega)
      | _ => cases hs

/-! ### Chains -/

lemma symbol_head (op : Operator) : ∀ x ∈ op.symbol.toList.head?,
    isBlank x = false ∧ isWord x = false ∧ x ≠ '(' ∧ x ≠ '\x7b' := by
  cases op <;> decide

lemma symbol_dot (op : Operator) (h : op.symbol.toList.head? = some '.') :
    ∃ d ds, op.symbol.toList = '.' :: d :: ds ∧ namesField d = false := by
  cases op with
  | elmul | elementDivision | leftElementDivision | elexp => exact ⟨_, [], rfl, by decide⟩
  | _ => exact absurd h (by decide)

lemma ends_joint {op : Operator} {l r : Term} (hmeet : Meet sp op l r) :
    l.Ends (sp.joint op ++ cs) := by
  obtain ⟨x, xs, hx⟩ := exists_cons_of_ne_nil op.symbol_ne_nil
  obtain ⟨hblank, hword, hparen, hbrace⟩ := symbol_head op x (by simp [hx])
  have hjoint : sp.joint op ++ cs =
      room (sp.around op) ++ x :: (xs ++ (room (sp.around op) ++ cs)) := by
    rw [Spacing.joint, hx]
    simp
  refine ⟨⟨room (sp.around op), x, _, hjoint, ?_, hblank, hword, hparen, hbrace, ?_⟩, ?_⟩
  · intro b hb
    rw [eq_of_mem_replicate hb]
    decide
  · rintro rfl
    obtain ⟨d, ds, hd, hfield⟩ := symbol_dot op (by simp [hx])
    rw [hx, cons.injEq] at hd
    exact ⟨d, _, by rw [hd.2]; rfl, hfield⟩
  · intro hnumeral
    rw [hjoint]
    by_cases haround : sp.around op = 0
    · have hdot : op.isDotted = false := by
        rw [← Bool.not_eq_true]
        exact fun hdot => hmeet.dot hnumeral hdot haround
      simpa [haround, room, Operator.isDotted, hx] using hdot
    · obtain ⟨n, hn⟩ : ∃ n, sp.around op = n + 1 := ⟨sp.around op - 1, by omega⟩
      simp [hn, room, replicate_succ]

/-! ### All expressions -/

/-- A parser for expressions reads all shorter than a bound, whatever breaks are in or before them.
-/
def ReadsBroken (expression : ExpressionParser) (st : Setting) (sp : Spacing) (bound : Nat) :
    Prop :=
  ∀ t : Term, t.Layered sp → ∀ b : Breaks, (t.broken readDots sp b).length < bound →
    ∀ lead : List Char, lead = [] ∨ lead = readDots →
    ∀ (k stop : Int) (rest : List Char) (q? : Option Operator),
    (t.startsQuoted = true → st.source.Fresh (k + lead.length)) →
    st.source.Shows k (lead ++ t.broken readDots sp b ++ rest) →
    stop + 1 = k + (lead ++ t.broken readDots sp b).length → t.Ends rest →
    (∀ q ∈ q?, q.rank < t.level) →
    (expression k (some stop) q?).Yields st [t.brokenTree sp b (k + lead.length)] (stop - t.unread)

variable {lead : List Char} {b : Breaks}

lemma ReadsBroken.reads (h : ReadsBroken expression st sp bound) :
    Reads expression st sp bound := by
  intro t ht hlen k stop rest q?
  have hread := h t ht .none (by rwa [broken_none]) [] (.inl rfl) k stop rest q?
  rwa [broken_none, brokenTree_none, add_length_nil] at hread

lemma yields_operandNodes {op : Operator} {c : Breaks} {i : Nat}
    (hreads : ReadsBroken expression st sp bound) (hlead : lead = [] ∨ lead = readDots)
    (ht : t.Layered sp) (hlen : (t.broken readDots sp c).length < bound)
    (hrank : op.rank < t.level) (hts : ∀ u ∈ ts, u.Layered sp)
    (hlens : (brokenTail readDots sp (sp.joint op) b i ts).length < bound)
    (hlinked : Linked sp op t ts)
    (hfresh : t.startsQuoted = true → st.source.Fresh (k + lead.length))
    (h : st.source.Shows k (lead ++ t.broken readDots sp c ++
      (brokenTail readDots sp (sp.joint op) b i ts ++ rest)))
    (hf : Follows rest)
    (hdot : lastNumeral t.endsNumeral ts = true → rest.head? ≠ some '.') :
    (operandNodes expression op ((k, k + (lead ++ t.broken readDots sp c).length - 1) ::
      brokenSpans sp (sp.joint op).length b i
        (k + (lead ++ t.broken readDots sp c).length + (sp.joint op).length) ts)).Yields st
      (t.brokenTree sp c (k + lead.length) :: brokenTrees sp (sp.joint op).length b i
        (k + (lead ++ t.broken readDots sp c).length + (sp.joint op).length) ts) () := by
  induction ts generalizing t c lead k i with
  | nil =>
    have hfirst := hreads t ht c hlen lead hlead k (k + (lead ++ t.broken readDots sp c).length - 1)
      rest (some op) hfresh h (by omega) ⟨hf, hdot⟩ (by simpa using hrank)
    exact hfirst.bind yields_pure
  | cons u us ih =>
    obtain ⟨hmeet, hlevel, hrest⟩ := hlinked
    rw [brokenTail, append_assoc (sp.joint op), append_assoc (sp.joint op)] at h
    simp only [brokenTail, length_append] at hlens
    have hfirst := hreads t ht c hlen lead hlead k (k + (lead ++ t.broken readDots sp c).length - 1)
      _ (some op) hfresh h (by omega) (ends_joint hmeet) (by simpa using hrank)
    have hfresh' := Source.fresh_joint_lead (by
      have hright := h.right
      rw [append_assoc, append_assoc, ← append_assoc] at hright
      exact hright.left)
    have hnext := ih (c := b.below i) (i := i + 1) (Breaks.lead_eq ..) (hts u (.head _)) (by omega)
      hlevel (fun v hv => hts v (.tail _ hv)) (by omega) hrest (fun _ => hfresh')
      (by rw [← append_assoc]; exact h.right.right) hdot
    exact hfirst.bind hnext

lemma skipBlanks_blank {s : Source} (h : s.Shows k (' ' :: c :: cs)) (hc : isBlank c = false) :
    s.skipBlanks k = .ok (k + 1) :=
  Source.skip_eq (show s.Shows k ([' '] ++ [c]) from h.left) (by decide) hc

/-- A break before an expression is passed. -/
lemma yields_expressionStep_dots {r : Int} (h : st.source.Shows k (readDots ++ c :: cs))
    (hc : startsTerm c = true) :
    (expressionStep expression k (some stop) q?).Yields st made r ↔
      (expressionStep expression (k + readDots.length) (some stop) q?).Yields st made r := by
  have hdots := (show st.source.Shows k ("...".toList ++ _) from h).reads
  have hnot := h.right.dots_eq_false (ne_of_class hc rfl)
  have hskip : st.source.skipBlanks (k + 3 + 1) = .ok (k + readDots.length) := by
    have hblank : st.source.Shows (k + 3 + 1) (' ' :: c :: cs) := by
      have := (show st.source.Shows k ("...\n".toList ++ ' ' :: c :: cs) from h).right
      rwa [show k + ("...\n".toList.length : Nat) = k + 3 + 1 from by
        show k + 4 = _; omega] at this
    rw [skipBlanks_blank hblank (isBlank_eq_false hc rfl rfl)]
    congr 1
    show k + 3 + 1 + 1 = k + 5
    omega
  unfold expressionStep
  simp [hdots, hnot, Source.dotsEnd_eq h, hskip]

lemma ReadsBroken.step (hreads : ReadsBroken expression st sp bound) :
    ReadsBroken (expressionStep expression) st sp (bound + 1) := by
  intro t ht b hlen lead hlead k stop rest q? hfresh h hstop hends hq
  obtain ⟨c, cs, ds, hhead, -, hc⟩ := exists_broken_head readDots sp b t
  rw [append_assoc] at h
  rw [length_append] at hstop
  have hshow := h.right
  rw [hhead] at hshow
  have hskip : (expressionStep expression (k + lead.length) (some stop) q?).Yields st
      [t.brokenTree sp b (k + lead.length)] (stop - t.unread) →
      (expressionStep expression k (some stop) q?).Yields st
        [t.brokenTree sp b (k + lead.length)] (stop - t.unread) := by
    rcases hlead with rfl | rfl
    · simp
    · rw [hhead] at h
      exact (yields_expressionStep_dots h hc).2
  refine hskip ?_
  have hdots := hshow.dots_eq_false (ne_of_class hc rfl)
  have hcolon : c ≠ ':' := ne_of_class hc rfl
  have hstart := startsExpression_of_startsTerm hc
  have hend : stop + 1 = k + lead.length + (t.broken readDots sp b).length := by omega
  replace h := h.right
  unfold expressionStep
  simp only [yields_source_bind, hdots, Bool.false_eq_true, ite_false, yields_pure_bind,
    hshow.read, yields_lift_bind, beq_iff_eq, hcolon, yields_progress_bind, hstart, Bool.not_true]
  cases hchain : t.isChain with
  | false =>
    rw [Source.firstSplit_eq_none fun op _ => ht.operands_broken (rank_lt_level hchain op) hfresh
      h.left hend, brokenTree_of_isChain hchain]
    rw [broken_of_isChain hchain] at hlen h hend
    refine yields_signed hreads.reads _ ht hchain (by omega) ?_ h hends hend
    have hsize := h.left.end_le (text_ne_nil sp t)
    have hk := h.nonneg
    unfold Source.steps
    omega
  | true =>
    cases ht with
    | @chain op first others hne hfirst hothers hrank hlinked =>
      rw [firstSplit_broken (.chain hne hfirst hothers hrank hlinked) hq hfresh h.left hend]
      have hpos := length_broken_pos readDots sp (b.below 0) first
      obtain ⟨u, us, rfl⟩ := exists_cons_of_ne_nil hne
      have hu := length_broken_pos readDots sp (b.below 1) u
      have hwhole := h.left
      rw [broken, append_assoc] at h
      simp only [broken, brokenTail, length_append] at hlen
      have hnodes := yields_operandNodes hreads (.inl rfl) hfirst (by omega) hrank hothers
        (by simp only [brokenTail, length_append]; omega) hlinked
        (fun hquoted => by simpa using hfresh hquoted) h hends.follows hends.dot
      rw [nil_append, add_length_nil] at hnodes
      have hunread : (chain op first (u :: us)).unread = 0 := rfl
      rw [hunread, Int.natCast_zero, Int.sub_zero]
      exact (Yields.spanNode hnodes hwhole hend).bind yields_pure
    | _ => cases hchain

lemma readsBroken_expressionSteps (st : Setting) (sp : Spacing) (n : Nat) :
    ReadsBroken (expressionSteps n) st sp n := by
  induction n with
  | zero =>
    intro t _ b hlen
    omega
  | succ n ih => exact ih.step

/-- A layered expression whose end is known is read, whatever breaks are in or before it. What is
written before it matters only if a quote stands after its first operand. -/
lemma yields_expression_broken (hlead : lead = [] ∨ lead = readDots) (ht : t.Layered sp)
    (hfresh : t.startsQuoted = true → st.source.Fresh (k + lead.length))
    (h : st.source.Shows k (lead ++ t.broken readDots sp b ++ rest))
    (hstop : stop + 1 = k + (lead ++ t.broken readDots sp b).length) (hends : t.Ends rest)
    (hq : ∀ q ∈ q?, q.rank < t.level) :
    (Parse.expression k (some stop) q?).Yields st [t.brokenTree sp b (k + lead.length)]
      (stop - t.unread) := by
  have hsize := h.left.end_le (by simp [broken_ne_nil])
  have hk := h.nonneg
  rw [length_append] at hsize
  have hdepth : (t.broken readDots sp b).length < depthBound st.source := by
    unfold depthBound
    omega
  unfold expression
  rw [yields_source_bind]
  exact readsBroken_expressionSteps st sp _ t ht b hdepth lead hlead k stop rest q? hfresh h hstop
    hends hq

lemma yields_expression (ht : t.Layered sp)
    (hfresh : t.startsQuoted = true → st.source.Fresh k) (h : st.source.Shows k (t.text sp ++ rest))
    (hstop : stop + 1 = k + (t.text sp).length) (hends : t.Ends rest)
    (hq : ∀ q ∈ q?, q.rank < t.level) :
    (Parse.expression k (some stop) q?).Yields st [t.tree sp k] (stop - t.unread) := by
  rw [← broken_none] at h hstop
  have hread := yields_expression_broken (.inl rfl) ht (by simpa using hfresh) h hstop hends hq
  rwa [brokenTree_none, add_length_nil] at hread

lemma yields_expression_none (ht : t.Layered sp) (hfresh : st.source.Fresh k)
    (h : st.source.Shows k (t.text sp ++ c :: cs)) (hc : endsExpression c = true)
    (hends : t.Ends (c :: cs)) :
    (Parse.expression k none none).Yields st [t.tree sp k]
      (k + (t.text sp).length - 1 - t.unread) := by
  have hknown : (expression k (some (k + (t.text sp).length - 1)) none).Yields st _ _ :=
    yields_expression ht (fun _ => hfresh) h (by omega) hends (by simp)
  obtain ⟨x, xs, hhead, hx⟩ := t.exists_head sp
  have hend := ht.runs.expressionEnd_eq hfresh h hc
  have hshow := h
  rw [hhead] at hshow
  have hdots := hshow.dots_eq_false (ne_of_class hx rfl)
  -- looking for the end gives the one that is known
  unfold expression depthBound at hknown ⊢
  rw [yields_source_bind, show 32 * (st.source.size + 2) = 32 * st.source.size + 63 + 1 by omega,
    expressionSteps, expressionStep] at hknown ⊢
  simp only [yields_source_bind, hdots, Bool.false_eq_true, ite_false, yields_pure_bind,
    hend] at hknown ⊢
  exact hknown

end Parse

end ArmaGen
