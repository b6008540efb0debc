import ArmaGen.Proofs.Syntax.Parse

/-!
# Expressions over several lines

A line that ends with three dots goes on on the next one. `Breaks` tells before which operands of an
expression a line is broken. Looking for an operator passes breaks (`Layered.passes_broken`), and a
chain falls into its operands (`firstSplit_broken`).
-/

namespace ArmaGen

open List

/-- Where lines are broken: a path leads through the operands of chains, and says whether the line
is broken before the operand that it leads to. -/
abbrev Breaks := List Nat → Bool

namespace Breaks

def none : Breaks :=
  fun _ => false

def below (b : Breaks) (i : Nat) : Breaks :=
  fun path => b (i :: path)

/-- What stands before the whole expression, if a break is written as `gap`. -/
def lead (gap : List Char) (b : Breaks) : List Char :=
  if b [] then gap else []

lemma lead_eq (b : Breaks) (gap : List Char) : b.lead gap = [] ∨ b.lead gap = gap := by
  unfold lead
  split
  · exact .inr rfl
  · exact .inl rfl

end Breaks

/-- A break as it is written. -/
def dots : List Char :=
  "...\n".toList

/-- A break as it is read: a blank has been put at the start of the next line. -/
def readDots : List Char :=
  "...\n ".toList

namespace Term

mutual

/-- The text of an expression with breaks. -/
def broken (gap : List Char) (sp : Spacing) (b : Breaks) : Term → List Char
  | .chain op first others =>
    broken gap sp (b.below 0) first ++ brokenTail gap sp (sp.joint op) b 1 others
  | t => t.text sp

def brokenTail (gap : List Char) (sp : Spacing) (sep : List Char) (b : Breaks) (i : Nat) :
    List Term → List Char
  | [] => []
  | t :: ts =>
    sep ++ ((b.below i).lead gap ++ broken gap sp (b.below i) t) ++
      brokenTail gap sp sep b (i + 1) ts

end

variable {gap : List Char} {sp : Spacing} {b : Breaks} {t : Term} {ts : List Term}

lemma broken_of_isChain (h : t.isChain = false) : t.broken gap sp b = t.text sp := by
  cases t with
  | chain => cases h
  | _ => rfl

/-! ### First and last characters -/

section

variable (gap sp b t)

lemma head?_broken : (t.broken gap sp b).head? = (t.text sp).head? := by
  induction t using induct generalizing b with
  | chain op first others ih =>
    obtain ⟨c, cs, hhead, -⟩ := first.exists_head sp
    rw [broken, text, head?_append, ih, hhead]
    rfl
  | _ => rfl

lemma exists_broken_head :
    ∃ c cs ds, t.broken gap sp b = c :: cs ∧ t.text sp = c :: ds ∧ startsTerm c = true := by
  obtain ⟨c, ds, htext, hc⟩ := t.exists_head sp
  have hhead := head?_broken gap sp b t
  rw [htext] at hhead
  obtain ⟨cs, hcs⟩ := head?_eq_some_iff.mp hhead
  exact ⟨c, cs, ds, hcs, htext, hc⟩

lemma broken_ne_nil : t.broken gap sp b ≠ [] := by
  obtain ⟨c, cs, ds, h, -⟩ := exists_broken_head gap sp b t
  simp [h]

lemma length_broken_pos : 0 < (t.broken gap sp b).length :=
  length_pos_iff.mpr (broken_ne_nil gap sp b t)

end

lemma getLast?_brokenTail {sep cs ds : List Char} {i : Nat} (hlast : cs.getLast? = ds.getLast?)
    (hts : ∀ t ∈ ts, ∀ b, (t.broken gap sp b).getLast? = (t.text sp).getLast?) :
    (cs ++ brokenTail gap sp sep b i ts).getLast? = (ds ++ tailed sp sep ts).getLast? := by
  induction ts generalizing cs ds i with
  | nil => rwa [brokenTail, tailed, append_nil, append_nil]
  | cons t ts ih =>
    rw [brokenTail, tailed, ← append_assoc cs, ← append_assoc ds]
    refine ih ?_ (forall_mem_cons.1 hts).2
    obtain ⟨es, c, htext, -⟩ := t.exists_last sp
    simp [hts t (.head _), htext]

lemma getLast?_broken (gap : List Char) (sp : Spacing) (b : Breaks) (t : Term) :
    (t.broken gap sp b).getLast? = (t.text sp).getLast? := by
  induction t using induct generalizing b with
  | chain op first others ihf iho =>
    exact getLast?_brokenTail (ihf _) iho
  | _ => rfl

open Source

variable {s : Source} {k : Int}

lemma exists_read_last_broken (h : s.Shows k (t.broken gap sp b)) :
    ∃ c, s.read (k + (t.broken gap sp b).length - 1) = .ok c ∧ endsTerm c = true ∧
      t.endsOperand sp = ArmaGen.endsOperand c := by
  obtain ⟨ds, c, htext, hc⟩ := t.exists_last sp
  have hlast := getLast?_broken gap sp b t
  rw [htext, getLast?_concat] at hlast
  obtain ⟨cs, hcs⟩ := getLast?_eq_some_iff.mp hlast
  refine ⟨c, ?_, hc, ?_⟩
  · rw [hcs] at h ⊢
    rw [length_append, length_singleton, show k + (cs.length + 1 : Nat) - 1 = k + cs.length by
      omega]
    exact h.right.read
  · simp [endsOperand, htext]

end Term

/-! ### Looking for operators -/

namespace Source

variable {s : Source} {op o : Operator} {last k : Int} {c : Char} {cs : List Char} {sp : Spacing}
  {b : Breaks}

lemma Passes.dots (h : s.Shows k (readDots ++ c :: cs)) (hc : endsSymbol c = false) :
    s.Passes op last k last (k + readDots.length) := by
  have hdots : s.Shows k ("...".toList ++ '\n' :: ' ' :: c :: cs) := h
  have hline : s.Shows (k + 3) ('\n' :: ' ' :: c :: cs) := hdots.right
  have hblank : s.Shows (k + 4) (' ' :: c :: cs) := by
    have := hline.tail
    rwa [show k + 3 + 1 = k + 4 by omega] at this
  have hfirst : s.Passes op last k last (k + 3) := by
    refine .inert hdots (by decide) (by decide) ?_
    cases op <;> decide
  have hend : s.Passes op last (k + 3) last (k + 4) := by
    obtain ⟨x, xs, hx⟩ := exists_cons_of_ne_nil op.symbol_ne_nil
    have hne : x ≠ '\n' := by
      have : ∀ x ∈ op.symbol.toList.head?, x ≠ '\n' := by cases op <;> decide
      exact this x (by simp [hx])
    have hpiece : s.pieceAt op last (k + 3) = .ok (.within last (k + 3)) := by
      have hreads := reads_eq_false_of_read hline.nonneg hline.read hx hne
      unfold pieceAt
      simp [hline.read, hreads, show isWord '\n' = false by decide]
    exact (Passes.within hpiece Int.le_rfl (.done ..)).cast rfl (by omega)
  have hlast : s.Passes op last (k + 4) last (k + 5) :=
    (Passes.char hblank hc (by decide) (by cases op <;> decide)).cast rfl (by omega)
  exact (hfirst.trans (hend.trans hlast)).cast rfl rfl

lemma Passes.joint_lead (hrank : op.rank < o.rank)
    (h : s.Shows k (sp.joint o ++ (b.lead readDots ++ c :: cs))) (hc : endsSymbol c = false) :
    s.Passes op last k last (k + (sp.joint o).length + (b.lead readDots).length) := by
  unfold Breaks.lead at h ⊢
  cases hb : b [] with
  | true =>
    simp only [hb] at h ⊢
    exact (Passes.joint hrank h (by decide)).trans (.dots h.right hc)
  | false =>
    simp only [hb] at h ⊢
    exact (Passes.joint hrank h hc).cast rfl (by simp)

lemma dotsEnd_eq (h : s.Shows k (readDots ++ cs)) : s.dotsEnd k = .ok (k + 3) := by
  have hdots : s.Shows k ("...".toList ++ '\n' :: ' ' :: cs) := h
  have hreads := hdots.reads
  have hfind : s.find? "\n" k = _ := hdots.find?_eq rfl (by decide)
  unfold dotsEnd
  rw [hreads, hfind]
  rfl

lemma Shows.goes_dots (h : s.Shows k (readDots ++ cs)) : s.Goes k (k + readDots.length) := by
  have hdots : s.Shows k ("...".toList ++ '\n' :: ' ' :: cs) := h
  have hreads := hdots.reads
  have hblank := hdots.right.tail
  have hlen : k + readDots.length = k + 3 + 1 + 1 := by
    show k + 5 = _
    omega
  have hfirst : s.read k = .ok '.' := hdots.read
  rw [hlen]
  refine (Leads.step (by omega) fun n => ?_).trans
    ((Runs.plain hblank.nonneg hblank.read (by decide) (.done _)).goes hblank.nonneg
      (lt_size_of_read hblank.nonneg hblank.read))
  rw [expressionSteps]
  simp [hfirst, stringAt_eq_false hfirst (by decide), dotsEnd_eq h, hreads]

lemma isWord_of_mem_lead (h : c ∈ b.lead readDots) : isWord c = false := by
  unfold Breaks.lead at h
  split at h
  · exact (show ∀ d ∈ readDots, isWord d = false by decide) c h
  · cases h

lemma fresh_joint_lead (h : s.Shows k (sp.joint o ++ b.lead readDots)) :
    s.Fresh (k + (sp.joint o).length + (b.lead readDots).length) := by
  have hfresh := h.fresh (by cases o <;> simp [Spacing.joint, Operator.symbol]) (by
    intro c hc
    rcases mem_append.mp hc with hc | hc
    · exact isWord_of_mem_joint hc
    · exact isWord_of_mem_lead hc)
  rwa [add_length_append] at hfresh

end Source

namespace Term

open Source

variable {sp : Spacing} {b : Breaks} {s : Source} {op o : Operator} {last k e stop : Int}
  {t l : Term} {ts : List Term} {i : Nat}

lemma passes_brokenTail (hrank : op.rank < o.rank) (hbefore : s.Passes op last k (e - 1) e)
    (hl : ∃ c, s.read (e - 1) = .ok c ∧ l.endsOperand sp = ArmaGen.endsOperand c)
    (hlinked : Linked sp o l ts) (h : s.Shows e (brokenTail readDots sp (sp.joint o) b i ts))
    (hts : ∀ t ∈ ts, ∀ {b last k}, op.rank < t.level → s.Fresh k →
      s.Shows k (t.broken readDots sp b) → NoDifference s op last t →
      s.Passes op last k (k + (t.broken readDots sp b).length - 1)
        (k + (t.broken readDots sp b).length)) :
    s.Passes op last k (e + (brokenTail readDots sp (sp.joint o) b i ts).length - 1)
      (e + (brokenTail readDots sp (sp.joint o) b i ts).length) := by
  induction ts generalizing l e i with
  | nil => exact hbefore.cast (by simp [brokenTail]) (by simp [brokenTail])
  | cons t ts ih =>
    obtain ⟨hmeet, hlevel, hrest⟩ := hlinked
    obtain ⟨c, cs, ds, hhead, -, hc⟩ := exists_broken_head readDots sp (b.below i) t
    rw [brokenTail, ← append_assoc] at h
    have hjoint : s.Passes op (e - 1) e (e - 1)
        (e + (sp.joint o).length + ((b.below i).lead readDots).length) := by
      have hleft := h.left
      rw [hhead, append_assoc] at hleft
      exact .joint_lead hrank hleft (endsSymbol_eq_false hc)
    have hdiff : NoDifference s op (e - 1) t := by
      rintro rfl hminus
      obtain ⟨d, hd, hends⟩ := hl
      exact ⟨d, hd, hends ▸ hmeet.sign (by omega) hminus⟩
    have htext := h.left.right
    rw [add_length_append] at htext
    have ht := hts t (.head _) (by omega) (fresh_joint_lead h.left.left) htext hdiff
    obtain ⟨d, hd, -, hends⟩ := exists_read_last_broken htext
    have hshow := h.right
    simp only [add_length_append] at hshow
    refine (ih (hbefore.trans (hjoint.trans ht)) ⟨d, hd, hends⟩ hrest hshow
      (forall_mem_cons.1 hts).2).cast ?_ ?_ <;>
      simp only [brokenTail, length_append] <;> omega

lemma Layered.passes_broken (ht : t.Layered sp) (hrank : op.rank < t.level)
    (hfresh : t.startsQuoted = true → s.Fresh k) (h : s.Shows k (t.broken readDots sp b))
    (hsign : NoDifference s op last t) :
    s.Passes op last k (k + (t.broken readDots sp b).length - 1)
      (k + (t.broken readDots sp b).length) := by
  induction ht generalizing b last k with
  | @chain o first others _ _ _ hfirstRank hlinked ihf iho =>
    have hrank : op.rank < o.rank := hrank
    rw [broken] at h ⊢
    have hbefore := ihf (by omega) hfresh h.left fun hop hm => hsign hop hm
    obtain ⟨c, hc, -, hends⟩ := exists_read_last_broken h.left
    refine (passes_brokenTail hrank hbefore ⟨c, hc, hends⟩ hlinked h.right
      fun t ht _ _ _ hlevel hfresh => iho t ht hlevel fun _ => hfresh).cast ?_ ?_ <;>
      simp only [length_append] <;> omega
  -- only chains are broken
  | _ => exact passes (by constructor <;> assumption) rfl hfresh h hsign

/-! ### Taking chains apart -/

/-- The spans of operands from the `i`-th on. A break belongs to the operand that comes after it. -/
def brokenSpans (sp : Spacing) (gap : Nat) (b : Breaks) : Nat → Int → List Term → List (Int × Int)
  | _, _, [] => []
  | i, k, t :: ts =>
    let width := ((b.below i).lead readDots ++ t.broken readDots sp (b.below i)).length
    (k, k + width - 1) :: brokenSpans sp gap b (i + 1) (k + width + gap) ts

mutual

/-- The tree of an expression with breaks that starts at a position. -/
def brokenTree (sp : Spacing) (b : Breaks) (k : Int) : Term → Syntax
  | .chain op first others =>
    .node { kind := op.kind, cur? := some k,
            code? := some (String.ofList ((chain op first others).broken readDots sp b)) }
      (brokenTree sp (b.below 0) k first :: brokenTrees sp (sp.joint op).length b 1
        (k + (first.broken readDots sp (b.below 0)).length + (sp.joint op).length) others)
  | t => t.tree sp k

def brokenTrees (sp : Spacing) (gap : Nat) (b : Breaks) (i : Nat) (k : Int) :
    List Term → List Syntax
  | [] => []
  | t :: ts =>
    brokenTree sp (b.below i) (k + ((b.below i).lead readDots).length) t ::
      brokenTrees sp gap b (i + 1)
        (k + ((b.below i).lead readDots ++ t.broken readDots sp (b.below i)).length + gap) ts

end

lemma brokenTree_of_isChain (h : t.isChain = false) : t.brokenTree sp b k = t.tree sp k := by
  cases t with
  | chain => cases h
  | _ => rfl

/-- Where two operands meet, the operator between them is found, also before a break. -/
lemma Meet.pieceAt_broken {r : Term} {c b' : Breaks} {rest : List Char} (hmeet : Meet sp op l r)
    (hl : s.Shows k (l.broken readDots sp c)) (he : e = k + (l.broken readDots sp c).length)
    (h : s.Shows e (sp.joint op ++ (b.lead readDots ++ (r.broken readDots sp b' ++ rest)))) :
    s.pieceAt op (e - 1) (e + (room (sp.around op)).length) =
      .ok (.between (e + (sp.joint op).length - 1)) := by
  obtain ⟨d, hd, -, hends⟩ := exists_read_last_broken hl
  rw [← he] at hd
  have hpos := length_broken_pos readDots sp c l
  have hk := hl.nonneg
  unfold Breaks.lead at h
  split at h
  · exact pieceAt_joint (by omega) hd (fun hop => hends ▸ hmeet.ends hop)
      (fun _ _ => by decide) (by decide) (by decide) h
  · obtain ⟨x, xs, ys, hhead, htext, hx⟩ := exists_broken_head readDots sp b' r
    rw [hhead] at h
    refine pieceAt_joint (by omega) hd (fun hop => hends ▸ hmeet.ends hop) ?_
      (Parse.isBlank_eq_false hx rfl rfl) (oneOf_eq_false hx (by decide)) h
    intro hop haround
    have := hmeet.exponent hop haround
    rwa [startsDigit, htext] at this

variable {lead : List Char} {others : List Term} {q? : Option Operator}

lemma Layered.passes_led (hlead : lead = [] ∨ lead = readDots) (ht : t.Layered sp)
    (hrank : op.rank < t.level) (hfresh : t.startsQuoted = true → s.Fresh (k + lead.length))
    (h : s.Shows k (lead ++ t.broken readDots sp b)) (hsign : NoDifference s op last t) :
    s.Passes op last k (k + (lead ++ t.broken readDots sp b).length - 1)
      (k + (lead ++ t.broken readDots sp b).length) := by
  have htext := ht.passes_broken hrank hfresh h.right hsign
  rcases hlead with rfl | rfl
  · simpa using htext
  · obtain ⟨c, cs, ds, hhead, -, hc⟩ := exists_broken_head readDots sp b t
    have hdots : s.Passes op last k last (k + readDots.length) :=
      .dots (hhead ▸ h) (endsSymbol_eq_false hc)
    refine (hdots.trans htext).cast ?_ ?_ <;> simp only [length_append] <;> omega

lemma splitSteps_broken {c : Breaks} {w : List Char} (done : List (Int × Int))
    (hlead : lead = [] ∨ lead = readDots) (ht : t.Layered sp) (hts : ∀ u ∈ ts, u.Layered sp)
    (hrank : op.rank < t.level) (hlinked : Linked sp op t ts)
    (hfresh : t.startsQuoted = true → s.Fresh (k + lead.length))
    (hw : w = lead ++ t.broken readDots sp c)
    (h : s.Shows k (w ++ brokenTail readDots sp (sp.joint op) b i ts))
    (hstop : stop + 1 = k + (w ++ brokenTail readDots sp (sp.joint op) b i ts).length)
    (hdiff : NoDifference s op last t) :
    ∀ n : Nat, stop + 1 ≤ n + k → s.splitSteps op stop n ⟨k, done, last⟩ k =
        .ok (done.reverse ++ (k, k + w.length - 1) :: brokenSpans sp (sp.joint op).length b i
          (k + w.length + (sp.joint op).length) ts) := by
  have hpos := length_broken_pos readDots sp c t
  induction ts generalizing t c lead w k last done i with
  | nil =>
    have hpass := ht.passes_led hlead hrank hfresh (hw ▸ h.left) hdiff
    simp only [brokenTail, append_nil] at hstop
    rw [← hw] at hpass
    rw [show k + w.length - 1 = stop by omega]
    exact splitSteps_last hpass (by rw [hw, length_append] at hstop; omega) (by omega)
  | cons u us ih =>
    obtain ⟨hmeet, hlevel, hrest⟩ := hlinked
    have hpass := ht.passes_led hlead hrank hfresh (hw ▸ h.left) hdiff
    rw [← hw] at hpass
    have hu := length_broken_pos readDots sp (b.below i) u
    have hsymbol := length_pos_iff.mpr op.symbol_ne_nil
    have hjoint : (sp.joint op).length = (room (sp.around op)).length +
        op.symbol.toList.length + (room (sp.around op)).length := by
      simp only [Spacing.joint, length_append]
    have htext := (hw ▸ h.left).right
    have hwidth : w.length = lead.length + (t.broken readDots sp c).length := by
      rw [hw, length_append]
    have hgap : ((b.below i).lead readDots ++ u.broken readDots sp (b.below i)).length =
        ((b.below i).lead readDots).length + (u.broken readDots sp (b.below i)).length :=
      length_append
    rw [brokenTail, append_assoc (sp.joint op)] at h hstop
    simp only [length_append] at hstop
    have hblanks : s.Passes op (k + w.length - 1) (k + w.length) (k + w.length - 1)
        (k + w.length + (room (sp.around op)).length) := by
      have hright := h.right
      obtain ⟨x, xs, hx⟩ := exists_cons_of_ne_nil op.symbol_ne_nil
      rw [Spacing.joint, append_assoc, append_assoc, hx] at hright
      exact .room hright
    have hpiece := hmeet.pieceAt_broken htext (e := k + w.length) (by omega)
      (by rw [← append_assoc (Breaks.lead ..)]; exact h.right)
    refine splitSteps_passes (hpass.trans hblanks) (by omega) ?_
    intro n hn
    rcases n with _ | n
    · omega
    rw [Source.splitSteps]
    simp only [hpiece, Scan.ok_bind, Int.sub_add_cancel]
    rw [brokenSpans, append_cons, ← reverse_cons]
    split
    · -- the last operand is a single character, and the loop does not look at it
      obtain rfl : us = [] := by
        cases us with
        | nil => rfl
        | cons v vs =>
          simp only [brokenTail, length_append] at hstop
          omega
      rw [reverse_cons, show k + w.length + (sp.joint op).length + ((b.below i).lead readDots ++
        u.broken readDots sp (b.below i)).length - 1 = stop by omega]
      rfl
    · have hdiff' : NoDifference s op (k + w.length - 1) u := by
        rintro rfl hminus
        obtain ⟨d, hd, -, hends⟩ := exists_read_last_broken htext
        refine ⟨d, ?_, hends ▸ hmeet.sign .refl hminus⟩
        rw [← hd]
        congr 1
        omega
      have hfresh' := fresh_joint_lead (by
        have hright := h.right
        rw [append_assoc, ← append_assoc] at hright
        exact hright.left)
      refine ih _ (Breaks.lead_eq ..) (hts u (.head _))
        (fun v hv => hts v (.tail _ hv)) hlevel hrest (fun _ => hfresh') rfl
        h.right.right ?_ hdiff' hu n ?_
      · simp only [length_append]
        omega
      · omega

lemma noDifference_start_broken (h : s.Shows k (t.broken readDots sp b)) :
    NoDifference s op k t := by
  intro _ hminus
  obtain ⟨c, cs, ds, hhead, htext, -⟩ := exists_broken_head readDots sp b t
  obtain ⟨c', cs', hhead', hc⟩ := exists_head_of_startsMinus sp hminus
  rw [htext, cons.injEq] at hhead'
  rw [hhead, hhead'.1] at h
  exact ⟨c', h.read, hc⟩

lemma Layered.operands_broken (ht : t.Layered sp) (hrank : op.rank < t.level)
    (hfresh : t.startsQuoted = true → s.Fresh k) (h : s.Shows k (t.broken readDots sp b))
    (hstop : stop + 1 = k + (t.broken readDots sp b).length) :
    s.operands op k stop = .ok [(k, stop)] := by
  have hpos := length_broken_pos readDots sp b t
  have hsize := h.end_le (broken_ne_nil readDots sp b t)
  have hk := h.nonneg
  have hpass := ht.passes_broken hrank hfresh h (noDifference_start_broken h)
  exact splitSteps_last hpass (by omega) (by omega) s.steps (by unfold steps; omega)

lemma rank_lt_level (h : t.isChain = false) (op : Operator) : op.rank < t.level := by
  have hlevel : t.level = Operator.inOrder.length := by cases t <;> first | rfl | cases h
  rw [hlevel]
  exact idxOf_lt_length_of_mem op.mem_inOrder

lemma firstSplit_broken {first : Term} (ht : (Term.chain op first others).Layered sp)
    (hq : ∀ q ∈ q?, q.rank < op.rank) (hfresh : first.startsQuoted = true → s.Fresh k)
    (h : s.Shows k ((Term.chain op first others).broken readDots sp b))
    (hstop : stop + 1 = k + ((Term.chain op first others).broken readDots sp b).length) :
    s.firstSplit k stop (Operator.after q?) =
      .ok (some (op, (k, k + (first.broken readDots sp (b.below 0)).length - 1) ::
        brokenSpans sp (sp.joint op).length b 1
          (k + (first.broken readDots sp (b.below 0)).length + (sp.joint op).length) others)) := by
  have hmem : op ∈ Operator.after q? := by
    cases q? with
    | none => exact op.mem_inOrder
    | some q => exact Operator.mem_after.mpr (hq q rfl)
  have hsize := h.end_le (broken_ne_nil readDots sp b _)
  have hk := h.nonneg
  have hbefore : ∀ p ∈ Operator.after q?, p.rank < op.rank →
    s.operands p k stop = .ok [(k, stop)] :=
    fun p _ hp => ht.operands_broken hp hfresh h hstop
  cases ht with
  | chain hne hfirst hothers hrank hlinked =>
    obtain ⟨u, us, rfl⟩ := exists_cons_of_ne_nil hne
    rw [broken] at h hstop hsize
    have hspans := splitSteps_broken [] (.inl rfl) hfirst
      hothers hrank hlinked (by simpa using hfresh) rfl h hstop (noDifference_start_broken h.left)
        s.steps
      (by unfold steps; omega)
    refine firstSplit_eq_some (Operator.pairwise_after q?) hmem hbefore ?_ hspans ?_
    · rw [hstop, h.span]
      apply occursIn_iff_infix.mpr
      refine ⟨first.broken readDots sp (b.below 0) ++ room (sp.around op),
        room (sp.around op) ++ ((b.below 1).lead readDots ++ u.broken readDots sp (b.below 1)) ++
          brokenTail readDots sp (sp.joint op) b 2 us, ?_⟩
      simp [brokenTail, Spacing.joint]
    · simp [brokenSpans]

/-! ### The end of expressions -/

lemma goes_brokenTail {op : Operator} (hbefore : s.Goes k e)
    (h : s.Shows e (brokenTail readDots sp (sp.joint op) b i ts))
    (hts : ∀ t ∈ ts, ∀ {b k}, s.Fresh k → s.Shows k (t.broken readDots sp b) →
      s.Goes k (k + (t.broken readDots sp b).length)) :
    s.Goes k (e + (brokenTail readDots sp (sp.joint op) b i ts).length) := by
  induction ts generalizing e i with
  | nil => simpa [brokenTail] using hbefore
  | cons t ts ih =>
    obtain ⟨c, cs, ds, hhead, -, hc⟩ := exists_broken_head readDots sp (b.below i) t
    rw [brokenTail, ← append_assoc] at h
    have hsize := h.left.left.end_le (by
      cases op <;> simp [Spacing.joint, Operator.symbol])
    have hjoint : s.Goes e (e + (sp.joint op).length + ((b.below i).lead readDots).length) := by
      have hleft := h.left
      rw [hhead, append_assoc] at hleft
      unfold Breaks.lead at hleft hsize ⊢
      cases hb : b.below i [] with
      | true =>
        simp only [hb, length_append] at hleft hsize ⊢
        exact ((runs_joint hleft (by decide)).goes h.nonneg (by omega)).trans hleft.right.goes_dots
      | false =>
        simp only [hb, Bool.false_eq_true, ite_false, append_nil, length_nil] at hleft hsize ⊢
        rw [Int.natCast_zero, Int.add_zero]
        exact (runs_joint hleft (ne_of_class hc rfl)).goes h.nonneg hsize
    have htext := h.left.right
    rw [add_length_append] at htext
    have ht := hts t (.head _) (fresh_joint_lead h.left.left) htext
    have hshow := h.right
    simp only [add_length_append] at hshow
    have hrest := ih (hbefore.trans (hjoint.trans ht)) hshow (forall_mem_cons.1 hts).2
    simpa only [brokenTail, add_length_append] using hrest

lemma Layered.goes (ht : t.Layered sp) (hfresh : s.Fresh k)
    (h : s.Shows k (t.broken readDots sp b)) : s.Goes k (k + (t.broken readDots sp b).length) := by
  induction ht generalizing b k with
  | @chain o first others _ _ _ _ _ ihf iho =>
    rw [broken] at h ⊢
    rw [add_length_append]
    exact goes_brokenTail (ihf hfresh h.left) h.right iho
  | _ =>
    -- only chains are broken
    have hend := h.end_le (text_ne_nil sp _)
    exact (runs (by constructor <;> assumption) hfresh h).goes h.nonneg hend

lemma Layered.expressionEnd_broken {lead cs : List Char} {x : Char}
    (hlead : lead = [] ∨ lead = readDots) (ht : t.Layered sp) (hfresh : s.Fresh (k + lead.length))
    (h : s.Shows k (lead ++ t.broken readDots sp b ++ x :: cs)) (hx : endsExpression x = true) :
    s.expressionEnd k = .ok (k + (lead ++ t.broken readDots sp b).length - 1) := by
  rw [append_assoc] at h
  rw [add_length_append]
  have hpos := length_broken_pos readDots sp b t
  have hsize := h.right.end_le (by simp)
  obtain ⟨d, hd, hends, -⟩ := exists_read_last_broken h.right.left
  obtain ⟨c, ds, -, hhead, -, hc⟩ := exists_broken_head readDots sp b t
  have hgoes : s.Goes k (k + lead.length + (t.broken readDots sp b).length) := by
    refine Leads.trans ?_ (ht.goes hfresh h.right.left)
    rcases hlead with rfl | rfl
    · exact (Runs.done k).cast (by simp) |>.goes h.nonneg (by omega)
    · exact h.goes_dots
  obtain ⟨y, hy, hstart⟩ : ∃ y, s.read k = .ok y ∧ startsExpression y = true := by
    rcases hlead with rfl | rfl
    · rw [hhead] at h
      exact ⟨c, h.read, startsExpression_of_startsTerm hc⟩
    · exact ⟨'.', h.read, by decide⟩
  exact expressionEnd_eq h.nonneg hgoes hy hstart hd
    (Parse.isBlank_eq_false hends rfl rfl) (by omega) h.right.right hx

/-! ### Expressions without breaks -/

lemma brokenTail_none {sep : List Char} (hts : ∀ t ∈ ts, t.broken gap sp .none = t.text sp) :
    brokenTail gap sp sep .none i ts = tailed sp sep ts := by
  induction ts generalizing i with
  | nil => rw [brokenTail, tailed]
  | cons t ts ih =>
    rw [forall_mem_cons] at hts
    rw [brokenTail, ih hts.2]
    exact congrArg (fun text => sep ++ text ++ tailed sp sep ts) hts.1

lemma broken_none (t : Term) : t.broken gap sp .none = t.text sp := by
  induction t using induct with
  | chain op first others ihf iho =>
    rw [broken, brokenTail_none iho]
    exact congrArg (· ++ tailed sp (sp.joint op) others) ihf
  | _ => rfl

lemma brokenTrees_none {width : Nat} (hts : ∀ t ∈ ts, ∀ k, t.brokenTree sp .none k = t.tree sp k) :
    brokenTrees sp width .none i k ts = trees sp width k ts := by
  induction ts generalizing i k with
  | nil => rfl
  | cons t ts ih =>
    obtain ⟨ht, hts⟩ := forall_mem_cons.1 hts
    have htext : t.broken readDots sp (Breaks.none.below i) = t.text sp := broken_none t
    have htree : t.brokenTree sp (Breaks.none.below i) k = t.tree sp k := ht k
    have hlead : (Breaks.none.below i).lead readDots = [] := rfl
    rw [brokenTrees, trees, hlead, htext, nil_append, add_length_nil, htree, ih hts]

lemma brokenTree_none (t : Term) (k : Int) : t.brokenTree sp .none k = t.tree sp k := by
  induction t using induct generalizing k with
  | chain op first others ihf iho =>
    have hfirst : first.brokenTree sp (Breaks.none.below 0) k = first.tree sp k := ihf k
    have htext : first.broken readDots sp (Breaks.none.below 0) = first.text sp := broken_none first
    rw [brokenTree, tree, hfirst, htext, brokenTrees_none iho, broken_none]
    rfl
  | _ => rfl

end Term

end ArmaGen
