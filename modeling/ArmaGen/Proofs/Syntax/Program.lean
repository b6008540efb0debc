import ArmaGen.Proofs.Scan.Bracket
import ArmaGen.Proofs.Syntax.Block
import ArmaGen.Proofs.Text.Continuation

/-!
# Reading structured programs
-/

namespace ArmaGen

open List

/-! ### Names in a list -/

namespace Source

open Scan

variable {s : Source} {k : Int} {c b : Char} {cs rest : List Char} {x : Name} {m n : Nat}

lemma delimiterSteps_room (h : s.Shows k (room m ++ (x.chars ++ b :: rest))) :
    s.delimiterSteps (n + m + 1) k = .ok true := by
  induction m generalizing k with
  | zero =>
    obtain ⟨c, cs, hchars, hc, -⟩ := x.exists_chars
    obtain ⟨d, ds, hds⟩ := exists_cons_of_ne_nil (show cs ++ b :: rest ≠ [] by simp)
    have hshow : s.Shows k ([c, d] ++ ds) := by
      rw [hchars, cons_append, hds] at h
      exact h
    have hpair : s.slice k (k + 2) ∉ pairOperators := by
      intro hmem
      rw [show s.slice k (k + 2) = _ from hshow.left.slice] at hmem
      have hall : ∀ w ∈ pairOperators, ∀ e ∈ w.toList.head?, isLetter e = false := by decide
      have := hall _ hmem c (by simp)
      rw [hc] at this
      cases this
    have hdots := hshow.dots_eq_false (ne_of_class hc rfl)
    have hsign : oneOf "+-~" c = false := oneOf_eq_false hc (by decide)
    have hoperator : isOperator c = false := oneOf_eq_false hc (by decide)
    rw [delimiterSteps, hdots, hshow.read]
    simp [Parse.isBlank_eq_false hc rfl rfl, hsign, hpair, hoperator]
  | succ m ih =>
    have hblank : s.Shows k (' ' :: (room m ++ (x.chars ++ b :: rest))) := h
    have hdots := hblank.dots_eq_false (by decide)
    rw [delimiterSteps, hdots, hblank.read]
    exact ih hblank.tail

lemma spaceDelimiter_eq (h : s.Shows k (' ' :: (room m ++ (x.chars ++ b :: rest)))) :
    s.spaceDelimiter k = .ok true := by
  have hsize := h.end_le (by simp)
  have hk := h.nonneg
  simp only [length_cons, length_append, room, length_replicate] at hsize
  unfold spaceDelimiter
  rw [h.read, ok_bind, steps, show 2 * s.size + 4 = (2 * s.size + 2 - m) + (m + 1) + 1 by omega]
  exact delimiterSteps_room h

lemma through_name {p : Char → Bool} (h : s.Shows k (x.chars ++ b :: rest))
    (hp : ∀ c, isWord c = true → p c = true) (hb : p b = false) :
    s.through p k = .ok (k + x.chars.length - 1) := by
  obtain ⟨c, cs, hchars, -, hcs⟩ := x.exists_chars
  rw [hchars] at h ⊢
  rw [through_eq (Shows.upto h.tail) (fun d hd => hp d (hcs d hd)) hb, length_cons]
  congr 1
  omega

lemma isHandle_of_isWord (h : isWord c = true) : isHandle c = true := by
  rw [isHandle, h, Bool.true_or]

lemma startsExpression_of_isLetter (h : isLetter c = true) : startsExpression c = true := by
  simp [startsExpression, isAlnum, h]

variable {close : Bracket → Int → Scan Int} {found : Bool}

lemma delimitedSteps_separator (h : s.Shows k (b :: rest)) (hb : b = ',' ∨ b = ']') :
    s.delimitedSteps close (n + 1) k = .ok false := by
  have hne : b ≠ '\'' ∧ b ≠ '.' := by rcases hb with rfl | rfl <;> decide
  rw [delimitedSteps]
  simp only [h.read, stringAt_eq_false h.read hne.1, h.dots_eq_false hne.2]
  rcases hb with rfl | rfl <;> rfl

lemma delimitedBy_eq (h : s.Shows k ('[' :: (x.chars ++ b :: rest))) (hb : isHandle b = false)
    (hnext : ∀ n, s.delimitedSteps close (n + 1) (k + 1 + x.chars.length) = .ok found) :
    s.delimitedBy close k = .ok found := by
  obtain ⟨c, cs, hchars, hc, hcs⟩ := x.exists_chars
  have hthrough := through_name h.tail (fun _ => isHandle_of_isWord) hb
  rw [hchars] at h hnext hthrough
  have hname := h.tail
  have hread := hname.read
  have hblank : isBlank c = false := Parse.isBlank_eq_false hc rfl rfl
  have hskip := skipBlanks_of_not_blank hname hblank
  have hcloses : closesList c = false := oneOf_eq_false hc (by decide)
  have hstart := startsExpression_of_isLetter hc
  have hne : c ≠ '(' ∧ c ≠ '[' ∧ c ≠ '\x7b' ∧ c ≠ '\'' :=
    ⟨ne_of_class hc rfl, ne_of_class hc rfl, ne_of_class hc rfl, ne_of_class hc rfl⟩
  have hstring : s.stringAt (k + 1) = .ok false := stringAt_eq_false hread hne.2.2.2
  have hdots := hname.dots_eq_false (ne_of_class hc rfl)
  have hends : endsExpression c = false := oneOf_eq_false hc (by decide)
  unfold delimitedBy
  simp only [h.read, ok_bind, hskip, hread, hcloses, hstart]
  rw [steps, delimitedSteps]
  simp only [hread, ok_bind, beq_iff_eq, hne, hstring, hdots, hblank, hends]
  cases cs with
  | nil =>
    rw [Shows.read hname.tail, ok_bind, hb]
    exact hnext _
  | cons y ys =>
    rw [Shows.read hname.tail, ok_bind, if_pos (isHandle_of_isWord (hcs y (.head _))), hthrough,
      ok_bind, Int.sub_add_cancel]
    exact hnext _

lemma spacedExpressionEnd_name (h : s.Shows k (x.chars ++ b :: rest))
    (hb : b = ']' ∨ b = ' ' ∧ s.spaceDelimiter (k + x.chars.length) = .ok true) :
    s.spacedExpressionEnd k = .ok (k + x.chars.length - 1) := by
  obtain ⟨c, cs, hchars, hc, -⟩ := x.exists_chars
  have hhandle : isHandle b = false := by rcases hb with rfl | ⟨rfl, -⟩ <;> decide
  have hthrough := through_name h (fun _ => isHandle_of_isWord) hhandle
  have hend := h.right
  have hdots := hend.dots_eq_false (by rcases hb with rfl | ⟨rfl, -⟩ <;> decide)
  have hlast : ∀ n last, s.spacedSteps (n + 1) last (k + x.chars.length) = .ok last := by
    intro n last
    rw [spacedSteps, hend.read, hdots]
    rcases hb with rfl | ⟨rfl, hspace⟩
    · rfl
    · rw [hspace]
      rfl
  rw [hchars] at h
  have hread : s.read k = .ok c := h.read
  have hdots := h.dots_eq_false (ne_of_class hc rfl)
  have hne : ∀ d ∈ ['(', '[', '\'', '\x7b', ';', '='], c ≠ d :=
    fun d hd => ne_of_class hc (by revert d; decide)
  have hset : ∀ set ∈ ["><~", "+-"], oneOf set c = false :=
    fun set hset => oneOf_eq_false hc (by revert set; decide)
  have hends : endsExpression c = false := oneOf_eq_false hc (by decide)
  have hstart := startsExpression_of_isLetter hc
  unfold spacedExpressionEnd
  rw [hread, ok_bind, hstart, steps, spacedSteps]
  simp only [hread, ok_bind, beq_iff_eq, hne, hset, hdots, hends, mem_cons, true_or, or_true,
    Parse.isBlank_eq_false hc rfl rfl, isHandle_of_isWord (isWord_of_isLetter hc), hthrough,
    Int.sub_add_cancel]
  exact hlast _ _

variable {rows : Rows} {full : Bool}

lemma spaceSteps_char (h : s.Shows k (c :: cs)) (hc : oneOf ".;\n" c = false) :
    s.spaceSteps (n + 1) rows full false k = s.spaceStep (s.spaceSteps n) rows full false k := by
  have hne : c ≠ '.' ∧ c ≠ ';' ∧ c ≠ '\n' := by simpa [oneOf] using hc
  have hdots := h.dots_eq_false hne.1
  rw [spaceSteps]
  simp [hdots, h.read, hne]

lemma spaceSteps_room (h : s.Shows k (' ' :: (room m ++ cs))) :
    s.spaceSteps (n + m + 1) rows full false k = s.spaceSteps n rows false false (k + 1 + m) := by
  rw [spaceSteps_char h (by decide), spaceStep, h.read]
  show s.spaceSteps (n + m) rows false false (k + 1) = _
  induction m generalizing k with
  | zero => rw [Int.natCast_zero, Int.add_zero, Nat.add_zero]
  | succ m ih =>
    have htail := h.tail
    rw [← Nat.add_assoc, spaceSteps_char htail (by decide), spaceStep, htail.read]
    show s.spaceSteps (n + m) rows false false (k + 1 + 1) = _
    rw [ih htail, Int.natCast_succ, ← Int.add_assoc, Int.add_right_comm]

lemma spaceSteps_name {row : List (Int × Int)} (h : s.Shows k (x.chars ++ b :: rest))
    (hb : b = ']' ∨ b = ' ' ∧ s.spaceDelimiter (k + x.chars.length) = .ok true) :
    s.spaceSteps (n + 1) [row] false false k =
      s.spaceSteps n [(k, k + x.chars.length - 1) :: row] true false (k + x.chars.length) := by
  have hend := spacedExpressionEnd_name h hb
  obtain ⟨c, cs, hchars, hc, -⟩ := x.exists_chars
  have hread := h.read_first hchars
  have hstart := startsExpression_of_isLetter hc
  rw [hchars] at h
  rw [spaceSteps_char h (oneOf_eq_false hc (by decide)), spaceStep, hread, ok_bind, hstart, hend]
  simp [Rows.addItem]

lemma spaceSteps_close (h : s.Shows k (']' :: rest)) :
    s.spaceSteps (n + 1) rows full false k = .ok (rows.inOrder, k) := by
  rw [spaceSteps_char h (by decide), spaceStep, h.read]
  rfl

end Source

namespace Structured

open Source Parse Term Scan

def spaced (m : Nat) : Spacing :=
  ⟨fun _ => 0, m⟩

/-- What stands between two names of a list: a comma or a blank, and so many blanks after it. -/
def between (commas : Bool) (m : Nat) : List Char :=
  (if commas then ',' else ' ') :: room m

def series (commas : Bool) (m : Nat) : List Name → List Char
  | [] => []
  | n :: ns => n.chars ++ tailed (spaced m) (between commas m) (ns.map .name)

variable {s : Source} {k : Int} {rest : List Char} {commas : Bool} {m : Nat} {ns : List Name}

lemma running_of_mem {t : Term} (ht : t ∈ ns.map .name) : t.Running (spaced m) s := by
  obtain ⟨n, -, rfl⟩ := mem_map.1 ht
  exact running_name n

lemma length_between : (between commas m).length = m + 1 := by
  simp [between, room]

lemma length_comma : (spaced m).comma.length = m + 1 := by
  simp [Spacing.comma, spaced, room]

lemma series_true (ns : List Name) : series true m ns = joined (spaced m) (ns.map .name) := by
  cases ns <;> rfl

lemma series_cons (x y : Name) (ns : List Name) (rest : List Char) :
    series commas m (x :: y :: ns) ++ rest =
      x.chars ++ (between commas m ++ (series commas m (y :: ns) ++ rest)) := by
  simp [series, tailed, Term.text]

lemma exists_series (commas : Bool) (m : Nat) (x : Name) (xs : List Name) (rest : List Char) :
    ∃ b ds, series commas m (x :: xs) ++ ']' :: rest = x.chars ++ b :: ds := by
  cases xs with
  | nil => exact ⟨']', rest, by simp [series, tailed]⟩
  | cons y ys => exact ⟨_, _, series_cons x y ys _⟩

lemma spaceSteps_series (row : List (Int × Int)) (x : Name) (xs : List Name) {n : Nat} {e : Int}
    (h : s.Shows k (series false m (x :: xs) ++ ']' :: rest))
    (hn : (series false m (x :: xs)).length < n) (he : e = k + (series false m (x :: xs)).length) :
    s.spaceSteps n [row] false false k =
      .ok ([row.reverse ++ spans (spaced m) (m + 1) k ((x :: xs).map .name)], e) := by
  have hpos : ∀ x : Name, 0 < x.chars.length := fun x => length_text_pos tight (.name x)
  induction xs generalizing x k row n with
  | nil =>
    have := hpos x
    rw [show series false m [x] = x.chars by simp [series, tailed]] at h hn he
    obtain ⟨n, rfl⟩ : ∃ i, n = i + 1 + 1 := ⟨n - 2, by omega⟩
    rw [spaceSteps_name h (.inl rfl), spaceSteps_close h.right, he]
    simp [spans, Rows.inOrder, Term.text]
  | cons y ys ih =>
    have := hpos x
    have hlen := congrArg length (series_cons x y ys [] : series false m _ ++ _ = _)
    simp only [length_append, length_between] at hlen
    rw [series_cons] at h
    have hspace : s.spaceDelimiter (k + x.chars.length) = .ok true := by
      obtain ⟨b, ds, hds⟩ := exists_series false m y ys rest
      rw [hds] at h
      exact spaceDelimiter_eq h.right
    have hrest := h.right.right
    rw [length_between] at hrest
    obtain ⟨n, rfl⟩ : ∃ i, n = i + m + 1 + 1 := ⟨n - (m + 2), by omega⟩
    rw [spaceSteps_name h (.inr ⟨rfl, hspace⟩), spaceSteps_room h.right, show k + x.chars.length + 1
      + m = k + x.chars.length + (m + 1 : Nat) by omega, ih _ y hrest (by omega) (by omega)]
    simp [spans, Term.text]

section

variable (x : Name) (xs : List Name)
  (h : s.Shows k ('[' :: (series commas m (x :: xs) ++ ']' :: rest)))

include h

lemma spaceDelimited_series : s.spaceDelimited k = .ok (!commas && !xs.isEmpty) := by
  cases xs with
  | nil =>
    rw [show series commas m [x] = x.chars by simp [series, tailed]] at h
    rw [isEmpty_nil, Bool.not_true, Bool.and_false]
    exact delimitedBy_eq h (by decide) fun _ => delimitedSteps_separator h.tail.right (.inr rfl)
  | cons y ys =>
    rw [series_cons] at h
    cases commas with
    | true =>
      exact delimitedBy_eq h (by decide) fun _ => delimitedSteps_separator h.tail.right (.inl rfl)
    | false =>
      obtain ⟨b, ds, hds⟩ := exists_series false m y ys rest
      rw [hds] at h
      refine delimitedBy_eq h (by decide) fun _ => ?_
      have hblank := h.tail.right
      have hdots := hblank.dots_eq_false (by decide)
      rw [delimitedSteps, hblank.read, ok_bind, stringAt_eq_false hblank.read (by decide), hdots,
        spaceDelimiter_eq hblank]
      rfl

lemma items_series : s.items k = .ok [spans (spaced m) (m + 1) (k + 1) ((x :: xs).map .name)] := by
  rw [items, itemList, spaceDelimited_series x xs h, ok_bind]
  cases hblanks : !commas && !xs.isEmpty with
  | true =>
    obtain rfl : commas = false := by simp_all
    have hsize := h.end_le (by simp)
    simp only [length_cons, length_append] at hsize
    obtain ⟨c, cs, hchars, hc, -⟩ := x.exists_chars
    have hskip : s.skipBlanks (k + 1) = .ok (k + 1) := by
      have hname := h.tail
      rw [series, hchars] at hname
      exact skipBlanks_of_not_blank hname (isBlank_eq_false hc rfl rfl)
    have hk := h.nonneg
    rw [if_pos rfl, spaceList, h.read, ok_bind, hskip, ok_bind, spaceSteps_series [] x xs h.tail (by
      unfold steps; omega) rfl]
    rfl
  | false =>
    have heq : series commas m (x :: xs) = joined (spaced m) ((x :: xs).map .name) := by
      cases commas with
      | true => rfl
      | false =>
        obtain rfl : xs = [] := by simpa using hblanks
        rfl
    rw [heq] at h
    rw [commaList_eq (fun _ => running_of_mem) (by decide) (by decide) h]
    rw [length_comma]
    rfl

end

lemma isItem_of_mem_series {c : Char} (hc : c ∈ series commas m ns) :
    isBlank c = true ∨ isItem c = true := by
  have hname : ∀ n : Name, c ∈ n.chars → isBlank c = true ∨ isItem c = true :=
    fun n h => .inr (by simp [isItem, n.isWord_of_mem h])
  induction ns with
  | nil => cases hc
  | cons x xs ih =>
    cases xs with
    | nil => exact hname x (by simpa [series, tailed] using hc)
    | cons y ys =>
      rw [← append_nil (series _ _ _), series_cons, append_nil] at hc
      rcases mem_append.mp hc with hc | hc
      · exact hname x hc
      rcases mem_append.mp hc with hc | hc
      · rcases mem_cons.mp hc with rfl | hc
        · cases commas <;> decide
        · rw [eq_of_mem_replicate hc]
          decide
      · exact ih hc

lemma close_series {b : Bracket} (hb : b ≠ .cell) (ns : List Name)
    (h : s.Shows k (b.opening :: (series commas m ns ++ b.closing :: rest))) :
    s.close b k = .ok (k + 1 + (series commas m ns).length) := by
  have hsize := h.end_le (by simp)
  simp only [length_cons, length_append] at hsize
  have hnested := (items_of_forall (fun _ hc => isItem_of_mem_series hc) b.opening).nested []
    (by simp) h (m := k + 1) (by simp) rfl
  refine (closes_of_items hb hnested (fun _ => ?_) h).close_eq h.nonneg (by omega)
  cases ns with
  | nil => exact ⟨[], ']', [], rfl, by simp, by decide, .inl rfl⟩
  | cons x xs =>
    obtain ⟨c, cs, hchars, hc, -⟩ := x.exists_chars
    exact ⟨[], c, _, by rw [series, hchars]; rfl, by simp, isBlank_eq_false hc rfl rfl,
      .inr (startsExpression_of_isLetter hc)⟩

/-! ### Headers -/

inductive Outputs where
  | one (r : Name)
  /-- Names in brackets, with commas or only blanks between them. -/
  | listed (commas : Bool) (first : Name) (others : List Name)

def Outputs.all : Outputs → List Name
  | .one r => [r]
  | .listed _ first others => first :: others

def Outputs.text (m : Nat) : Outputs → List Char
  | .one r => r.chars
  | .listed commas first others => '[' :: (series commas m (first :: others) ++ [']'])

structure Header where
  /-- The results, if there are any. -/
  outputs? : Option Outputs
  name : Name
  /-- The parameters, unless the parentheses are left out. -/
  params? : Option (List Name)
  /-- The blanks after each separator. -/
  gap : Nat

def paramsText (m : Nat) : Option (List Name) → List Char
  | none => []
  | some ps => '(' :: (series true m ps ++ [')'])

def Header.text (hd : Header) : List Char :=
  "function ".toList ++ hd.outputs?.elim [] (fun o => o.text hd.gap ++ " = ".toList) ++
    hd.name.chars ++ paramsText hd.gap hd.params?

def Header.outline (hd : Header) (body : Block) : Outline :=
  .node .func hd.name.text ""
    [.node .declares "" "" [],
     .node .returns "" "" ((hd.outputs?.elim [] Outputs.all).map fun n => (Term.name n).outline),
     .node .params "" "" ((hd.params?.getD []).map fun n => (Term.name n).outline), body.outline]

lemma Outputs.exists_head (o : Outputs) :
    ∃ c cs, o.text m = c :: cs ∧ (isLetter c = true ∨ c = '[') := by
  cases o with
  | one r =>
    obtain ⟨c, cs, h, hc, -⟩ := r.exists_chars
    exact ⟨c, cs, h, .inl hc⟩
  | listed commas first others => exact ⟨'[', _, rfl, .inr rfl⟩

lemma Outputs.expressionEnd_eq (o : Outputs)
    (h : s.Shows k (o.text m ++ ' ' :: '=' :: ' ' :: rest)) :
    s.expressionEnd k = .ok (k + (o.text m).length - 1) := by
  cases o with
  | one r => exact expressionEnd_name h
  | listed commas first others =>
    have hlist : s.Shows k ('[' :: (series commas m (first :: others) ++ ']' ::
        (' ' :: '=' :: ' ' :: rest))) := by
      rw [Outputs.text] at h
      simpa using h
    have hend : s.matrixEnd k = _ := close_series (by decide) _ hlist
    have hlen : ((Outputs.listed commas first others).text m).length =
        (series commas m (first :: others)).length + 2 := by simp [Outputs.text]
    refine expressionEnd_target h.nonneg hlist.read (by decide) (by omega) ?_
      (d := ']') ?_ (by decide) h.right
    · refine Leads.step (by omega) fun n => ?_
      rw [Source.expressionSteps, hlist.read, ok_bind, if_neg (by decide), if_pos (by decide), hend,
        ok_bind]
      congr 1
      omega
    · rw [← hlist.tail.right.read]
      congr 1
      omega

variable {st : Setting} {w : Nat}

def trees (m : Nat) (k : Int) (ns : List Name) : List Syntax :=
  Term.trees (spaced m) (m + 1) k (ns.map .name)

lemma isName_of_mem : ∀ tree ∈ trees m k ns, tree.IsName := by
  induction ns generalizing k with
  | nil => simp [trees, Term.trees]
  | cons x xs ih =>
    intro tree htree
    rcases mem_cons.mp htree with rfl | htree
    · exact ⟨rfl, rfl⟩
    · exact ih tree htree

lemma outlines_trees (k : Int) (ns : List Name) :
    Syntax.outlines (trees m k ns) = ns.map fun n => (Term.name n).outline := by
  induction ns generalizing k with
  | nil => rfl
  | cons x xs ih =>
    rw [map_cons, ← ih]
    rfl

lemma yields_leaf_name (x : Name) (h : st.source.Shows k (x.chars ++ rest)) :
    (leaf { kind := .var, name := st.source.slice k (k + x.chars.length), cur? := some k,
            code? := some (st.source.slice k (k + x.chars.length)) }).Yields st
      [(Term.name x).tree (spaced m) k] () := by
  rw [h.left.slice]
  exact yields_leaf

lemma shows_others {x y : Name} (h : s.Shows k (series commas m (x :: y :: ns) ++ rest)) :
    s.Shows (k + x.chars.length + (m + 1 : Nat)) (series commas m (y :: ns) ++ rest) := by
  rw [series_cons] at h
  rw [length_between.symm]
  exact h.right.right

section

variable (cur : Int) (ns : List Name) (h : st.source.Shows k (series commas m ns ++ rest))

include h

lemma yields_resultItems :
    (resultItems cur (spans (spaced m) (m + 1) k (ns.map .name))).Yields st (trees m k ns) () := by
  induction ns generalizing k with
  | nil => exact yields_pure
  | cons x xs ih =>
    have hname : st.source.Shows k (x.chars ++ _) := append_assoc .. ▸ h
    have hany : (st.source.span k (k + x.chars.length)).any isHandle = true := by
      rw [hname.left.span]
      obtain ⟨c, cs, hchars, hc, -⟩ := x.exists_chars
      simp [hchars, isHandle, isWord, isAlnum, hc]
    rw [map_cons, spans, resultItems, yields_source_bind, yields_progress_bind, show (name x).text _
      = x.chars from rfl, Int.sub_add_cancel, hany]
    refine (yields_leaf_name x hname).bind ?_
    cases xs with
    | nil => exact yields_pure
    | cons y ys => exact ih (shows_others h)

lemma yields_parameterItems :
    (parameterItems cur (spans (spaced m) (m + 1) k (ns.map .name))).Yields st
    (trees m k ns) () := by
  induction ns generalizing k with
  | nil => exact yields_pure
  | cons x xs ih =>
    have hname : st.source.Shows k (x.chars ++ _) := append_assoc .. ▸ h
    rw [map_cons, spans, parameterItems, yields_source_bind, yields_progress_bind,
      Int.sub_add_cancel]
    refine (yields_leaf_name x hname).bind ?_
    cases xs with
    | nil => exact yields_pure
    | cons y ys => exact ih (shows_others h)

end

lemma Outputs.yields (o : Outputs) (cur : Int)
    (h : st.source.Shows k (o.text m ++ ' ' :: '=' :: ' ' :: rest)) :
    ∃ j head, (results cur k (k + (o.text m).length - 1)).Yields st
      [.node { kind := .returns, code? := some head } (trees m j o.all)] () := by
  cases o with
  | one r =>
    obtain ⟨c, cs, hchars, hc, -⟩ := r.exists_chars
    have hread := h.read_first hchars
    have hbracket : c ≠ '[' := ne_of_class hc rfl
    refine ⟨k, _, .node ?_⟩
    simp only [hread, yields_lift_bind, beq_iff_eq, hbracket, ite_false, expressionEnd_name h,
      Int.sub_add_cancel]
    rw [Yields.bind_iff ⟨_, rfl⟩]
    exact yields_leaf_name r h
  | listed commas first others =>
    have hlist : st.source.Shows k ('[' :: (series commas m (first :: others) ++ ']' ::
        (' ' :: '=' :: ' ' :: rest))) := by
      rw [Outputs.text] at h
      simpa using h
    refine ⟨k + 1, _, .node ?_⟩
    rw [hlist.read, yields_lift_bind, if_pos (by decide), items_series first others hlist,
      yields_lift_bind, flatten_singleton]
    exact yields_resultItems cur _ hlist.tail

lemma yields_parameters (params? : Option (List Name))
    (h : st.source.Shows k (paramsText m params? ++ '\n' :: rest)) :
    ∃ code? stop, (parameters k).Yields st [.node { kind := .params, cur? := some k, code? }
        (trees m (k + 1) (params?.getD []))] stop ∧ k ≤ stop ∧
      st.source.Around (stop + 1) (k + (paramsText m params?).length + 1) := by
  have hleaving : ∀ {α : Type} {x : Scan α} {a : α} items, x = .ok a →
      (elseLeaving (scan x) items).Yields st [] a := by
    rintro _ _ _ _ rfl
    exact .elseLeaving ⟨[], rfl⟩
  unfold parameters
  cases params? with
  | none =>
    refine ⟨none, k, ?_, Int.le_refl k, by simpa [paramsText] using Around.refl _ _⟩
    rw [yields_source_bind, (hleaving _ h.read).bind_iff]
    exact yields_leaf.bind yields_pure
  | some ps =>
    have hlist : st.source.Shows k ('(' :: (series true m ps ++ ')' :: '\n' :: rest)) := by
      simpa [paramsText] using h
    have hend : st.source.parenEnd k = _ := close_series (by decide) ps hlist
    have hlen : (paramsText m (some ps)).length = (series true m ps).length + 2 := by
      simp [paramsText]
    refine ⟨some (st.source.slice (k + 1) (k + 1 + (series true m ps).length)),
      k + 1 + (series true m ps).length, ?_, by omega, ?_⟩
    · rw [yields_source_bind, (hleaving _ hlist.read).bind_iff, if_pos (by decide),
        (hleaving _ hend).bind_iff]
      have hitems := yields_parameterItems k ps hlist.tail
      rw [series_true] at hlist
      refine .node ?_
      rw [commaItems_eq (fun _ => running_of_mem) (by decide) (by decide) hlist, yields_lift_bind,
        flatten_singleton, ← append_nil (trees _ _ _), length_comma]
      exact hitems.bind yields_pure
    · rw [show k + 1 + (series true m ps).length + 1 = k + (paramsText m (some ps)).length by
        omega]
      exact around_newline h.right

lemma yields_block (body : Block) {j : Int} (h : st.source.Shows k ('\n' ::
      (body.text w 1 ++ ("end".toList ++ '\n' :: rest)))) (hj : 0 ≤ j)
    (haround : st.source.Around j (k + 1)) :
    ∃ tree, (block j).Yields st [tree] (k + (body.text w 1).length + 4) ∧ tree.Inner ∧
      tree.outline = [body.outline] := by
  obtain ⟨made, hmade, houtlines, hinners⟩ := (body.reads st w).builds (n := st.source.steps)
    h (closing_end 0 _) (resumes_end (m := 0) h.tail.right (by decide)) haround
    (by unfold steps; omega)
  obtain ⟨tree, rfl, htree⟩ := hinners.exists_tree houtlines
  refine ⟨tree, ?_, htree⟩
  rw [block, yields_source_bind]
  exact Yields.cast hmade (by rw [show (room 0).length = 0 from rfl]; omega)

lemma yields_skipDots {n : Nat} {c : Char} {cs : List Char}
    (h : st.source.Shows k (' ' :: c :: cs)) (hc : isLetter c = true) :
    (skipDots (n + 2) k).Yields st [] (k + 1) := by
  have hdots := h.dots_eq_false (by decide)
  have hnot : oneOf " \t." c = false := oneOf_eq_false hc (by decide)
  rw [skipDots, yields_source_bind, h.read, yields_lift_bind, if_pos (by decide)]
  simp only [hdots, Bool.false_eq_true, ite_false, yields_pure_bind]
  rw [skipDots, yields_source_bind, h.tail.read, yields_lift_bind, hnot]
  exact yields_pure

lemma exists_paramsText (m : Nat) (params? : Option (List Name)) (rest : List Char) :
    ∃ c cs, paramsText m params? ++ '\n' :: rest = c :: cs ∧ isWord c = false ∧
      isBlank c = false := by
  cases params? with
  | none => exact ⟨'\n', rest, rfl, by decide⟩
  | some ps => exact ⟨'(', _, rfl, by decide⟩

lemma exists_parametersEnd (params? : Option (List Name)) (last : Int)
    (h : st.source.Shows k (paramsText m params? ++ '\n' :: rest)) :
    ∃ stop, (parametersEnd k last).Yields st [] stop := by
  unfold parametersEnd
  simp only [yields_source_bind]
  cases params? with
  | none => exact ⟨last, by rw [h.read]; exact yields_pure⟩
  | some ps =>
    have hlist : st.source.Shows k ('(' :: (series true m ps ++ ')' :: '\n' :: rest)) := by
      simpa [paramsText] using h
    have hend : st.source.parenEnd k = _ := close_series (by decide) ps hlist
    exact ⟨_, by rw [hlist.read, hend]; exact yields_lift⟩

variable (hd : Header) (body : Block)

/-- A function is made of its results, its parameters and its block. -/
lemma Header.yields_nodeThen {R : Parse Unit} {cur j : Int} {declares? returns? : Option String}
    {code : Int → String} (hR : R.Yields st [.node { kind := .returns, code? := returns? }
      (trees hd.gap j (hd.outputs?.elim [] Outputs.all))] ())
    (h : st.source.Shows k (paramsText hd.gap hd.params? ++ '\n' ::
      (body.text w 1 ++ ("end".toList ++ '\n' :: rest)))) :
    ∃ tree : Syntax, (nodeThen { kind := .func, name := hd.name.text, cur? := some cur } (do
        leaf { kind := .declares, code? := declares? }
        R
        block ((← parameters k) + 1)) code).Yields st [tree]
      (k + (paramsText hd.gap hd.params?).length + (body.text w 1).length + 4) ∧
      tree.IsFunc ∧ tree.outline = [hd.outline body] := by
  obtain ⟨code?, last, hparams, hle, haround⟩ := yields_parameters hd.params? h
  obtain ⟨block, hblock, hinner, houtline⟩ := yields_block body h.right
    (by have := h.nonneg; omega) haround
  refine ⟨_, .nodeThen (yields_leaf.bind (hR.bind (hparams.bind hblock))),
    .mk (.inl rfl) rfl rfl rfl isName_of_mem isName_of_mem hinner, ?_⟩
  simp [Syntax.outline, Syntax.outlines, Syntax.leaf, outlines_trees, houtline, Header.outline]

lemma Header.yields_withResults {cur start stop eq j : Int} {code? : Option String}
    (hresults : (results cur start stop).Yields st [.node { kind := .returns, code? }
      (trees hd.gap j (hd.outputs?.elim [] Outputs.all))] ())
    (h : st.source.Shows eq ('=' :: ' ' ::
      (hd.name.chars ++ (paramsText hd.gap hd.params? ++ '\n' ::
      (body.text w 1 ++ ("end".toList ++ '\n' :: rest)))))) :
    ∃ tree : Syntax, (functionWithResults cur start stop eq).Yields st [tree]
      (eq + 1 + 1 + hd.name.chars.length + (paramsText hd.gap hd.params?).length +
        (body.text w 1).length + 4) ∧ tree.IsFunc ∧ tree.outline = [hd.outline body] := by
  obtain ⟨c, cs, hchars, hc, -⟩ := hd.name.exists_chars
  have hname := h.tail.tail
  have hdots : (skipDots st.source.steps (eq + 1)).Yields st [] (eq + 1 + 1) := by
    rw [hchars] at h
    exact yields_skipDots h.tail hc
  have hparams := hname.right
  obtain ⟨b, bs, hbs, hword, hblank⟩ := exists_paramsText hd.gap hd.params?
    (body.text w 1 ++ ("end".toList ++ '\n' :: rest))
  have hlast := through_name (hbs ▸ hname) (fun _ h => h) hword
  have hskip := skipBlanks_of_not_blank (hbs ▸ hparams) hblank
  obtain ⟨_, hend⟩ := exists_parametersEnd hd.params? (eq + 1 + 1 + hd.name.chars.length - 1)
    hparams
  obtain ⟨tree, hyields, htree⟩ := hd.yields_nodeThen body hresults hparams
  refine ⟨tree, ?_, htree⟩
  unfold functionWithResults
  simp only [yields_source_bind]
  rw [hdots.bind_iff, hname.read_first hchars, yields_lift_bind, hc, if_neg (by decide), hlast,
    yields_lift_bind, Int.sub_add_cancel, hskip, yields_lift_bind, hend.bind_iff, noteFunction,
    yields_progress_bind, hname.left.slice]
  exact hyields

/-- The function without results, if no digit is in its name. -/
lemma Header.yields_withoutResults (cur : Int) (houtputs : hd.outputs? = none)
    (hdigits : ∀ c ∈ hd.name.chars, isDigit c = false)
    (h : st.source.Shows k (hd.name.chars ++ (paramsText hd.gap hd.params? ++ '\n' ::
      (body.text w 1 ++ ("end".toList ++ '\n' :: rest))))) (last : Int) :
    ∃ tree : Syntax, (functionWithoutResults cur k last
        (k + hd.name.chars.length + (paramsText hd.gap hd.params?).length)).Yields st [tree]
      (k + hd.name.chars.length + (paramsText hd.gap hd.params?).length +
        (body.text w 1).length + 4) ∧ tree.IsFunc ∧ tree.outline = [hd.outline body] := by
  have hparams := h.right
  have hslice := h.left.slice
  have hskip : st.source.skip (fun c => isLetter c || c == '_') (k + 1) =
      .ok (k + hd.name.chars.length) := by
    obtain ⟨b, bs, hbs, hword, -⟩ := exists_paramsText hd.gap hd.params?
      (body.text w 1 ++ ("end".toList ++ '\n' :: rest))
    have hsame : ∀ c, isDigit c = false → (isLetter c || c == '_') = isWord c := by
      intro c hc
      rw [isWord, isAlnum, hc, Bool.or_false]
    obtain ⟨c, cs, hchars, -, hcs⟩ := hd.name.exists_chars
    have hletters : ∀ c ∈ cs, (isLetter c || c == '_') = true := fun c hc => by
      rw [hsame c (hdigits c (by rw [hchars]; exact .tail _ hc)), hcs c hc]
    have hstop : (isLetter b || b == '_') = false := by
      rw [isWord, isAlnum, Bool.or_right_comm] at hword
      exact (Bool.or_eq_false_iff.1 hword).1
    rw [hbs, hchars] at h
    rw [skip_eq (Shows.upto h.tail) hletters hstop, hchars, length_cons]
    congr 1
    omega
  have hreturns : (leaf { kind := .returns }).Yields st
      [.node { kind := .returns } (trees hd.gap 0 (hd.outputs?.elim [] Outputs.all))] () := by
    rw [houtputs]
    exact yields_leaf
  obtain ⟨tree, hyields, htree⟩ := hd.yields_nodeThen body hreturns hparams
  refine ⟨tree, ?_, htree⟩
  obtain ⟨_, hend⟩ := exists_parametersEnd (m := 0) none last hparams.right
  unfold functionWithoutResults
  rw [yields_source_bind, hend.bind_iff, noteFunction, yields_progress_bind, hskip,
    yields_lift_bind,
    hslice]
  exact hyields

lemma Header.text_append (rest : List Char) : hd.text ++ rest = "function".toList ++ ' ' ::
    (hd.outputs?.elim [] (fun o => o.text hd.gap ++ [' ', '=', ' ']) ++
      (hd.name.chars ++ (paramsText hd.gap hd.params? ++ rest))) := by
  unfold Header.text
  simp

/-- What comes after the first expression of a header says whether it has results. -/
lemma yields_function_iff {c d : Char} {cs : List Char} {made : List Syntax} {last next e : Int}
    (h : st.source.Shows k ("function".toList ++ ' ' :: c :: cs)) (hc : isLetter c = true ∨ c = '[')
    (hend : st.source.expressionEnd (k + 8 + 1) = .ok (last - 1))
    (hskip : st.source.skipBlanks last = .ok next) (hread : st.source.read next = .ok d) :
    (function k).Yields st made e ↔
    (if d = '=' then functionWithResults k (k + 8 + 1) (last - 1) next
      else functionWithoutResults k (k + 8 + 1) (last - 1) next).Yields st made e := by
  have hword := h.reads
  have hgap : st.source.Shows (k + 8) (' ' :: c :: cs) := h.right
  have hstart : (isLetter c || c == '[') = true := by simpa using hc
  have hblank : isBlank c = false := by
    rcases hc with hc | rfl
    · exact isBlank_eq_false hc rfl rfl
    · decide
  unfold function
  simp only [yields_source_bind, hword, Bool.not_true, Bool.false_eq_true, ite_false, hgap.read,
    yields_lift_bind]
  rw [if_neg (by decide), skipBlanks_blank hgap hblank, yields_lift_bind, hgap.tail.read,
    yields_lift_bind, hstart, if_neg (by decide), hend, yields_lift_bind, Int.sub_add_cancel, hskip,
    yields_lift_bind, hread]
  simp

lemma expressionEnd_params (n : Name) (params? : Option (List Name)) (hfresh : s.Fresh k)
    (h : s.Shows k (n.chars ++ (paramsText m params? ++ '\n' :: rest))) :
    s.expressionEnd k = .ok (k + n.chars.length + (paramsText m params?).length - 1) := by
  cases params? with
  | none =>
    rw [paramsText, add_length_nil]
    have hname : (name n).Running (spaced m) s := running_name n
    exact hname.expressionEnd_eq hfresh h (by decide)
  | some ps =>
    have hcall : (call n (ps.map .name)).Running (spaced m) s :=
      running_call (fun _ => running_of_mem) n
    have htext : (call n (ps.map .name)).text (spaced m) = n.chars ++ paramsText m (some ps) := by
      rw [Term.text, paramsText, series_true]
      simp
    rw [← append_assoc, ← htext] at h
    rw [hcall.expressionEnd_eq hfresh h (by decide), htext, length_append, Int.natCast_add,
      Int.add_assoc]

lemma Header.yields (hdigits : hd.outputs? = none → ∀ c ∈ hd.name.chars, isDigit c = false)
    (h : st.source.Shows k (hd.text ++ '\n' :: (body.text w 1 ++ ("end".toList ++ '\n' :: rest)))) :
    ∃ tree : Syntax, (function k).Yields st [tree]
      (k + hd.text.length + (body.text w 1).length + 4) ∧
      tree.IsFunc ∧ tree.outline = [hd.outline body] := by
  have hlen := congrArg length (hd.text_append [])
  rw [hd.text_append] at h
  simp only [length_append, length_cons, show "function".toList.length = 8 from rfl] at hlen
  have hfresh : st.source.Fresh (k + 8 + 1) := fresh_after h.right rfl
  cases houtputs : hd.outputs? with
  | none =>
    rw [houtputs, Option.elim_none, nil_append] at h
    rw [houtputs, Option.elim_none, length_nil] at hlen
    have hname : st.source.Shows (k + 8 + 1) _ := h.right.tail
    have hend := expressionEnd_params hd.name hd.params? hfresh hname
    obtain ⟨tree, hyields, htree⟩ :=
      hd.yields_withoutResults body k houtputs (hdigits houtputs) hname _
    refine ⟨tree, ?_, htree⟩
    obtain ⟨c, cs, hchars, hc, -⟩ := hd.name.exists_chars
    have hnewline := hname.right.right
    have hskip := skipBlanks_of_not_blank hnewline (by decide)
    rw [hchars] at h
    rw [yields_function_iff h (.inl hc) hend hskip hnewline.read]
    exact hyields.cast (by omega)
  | some o =>
    rw [houtputs, Option.elim_some, append_assoc] at h
    simp only [houtputs, Option.elim_some, length_append, length_cons, length_nil] at hlen
    obtain ⟨c, cs, hhead, hc⟩ := o.exists_head
    have hresults : st.source.Shows (k + 8 + 1) (o.text hd.gap ++ ' ' :: '=' :: ' ' :: _) :=
      h.right.tail
    obtain ⟨j, code, hnames⟩ := o.yields k hresults
    have hsign := hresults.right.tail
    have hskip := skipBlanks_blank hresults.right (by decide)
    obtain ⟨tree, hyields, htree⟩ := hd.yields_withResults body (by rw [houtputs]; exact hnames)
      hsign
    refine ⟨tree, ?_, htree⟩
    rw [hhead] at h
    rw [yields_function_iff h hc (o.expressionEnd_eq hresults) hskip hsign.read]
    exact hyields.cast (by omega)

/-- A function without statements is read as its header says: it has the name, the results and the
parameters in their order. Without results no digit may be in the name. -/
theorem Header.exists_function_eq (rest : List Char)
    (hdigits : hd.outputs? = none → ∀ c ∈ hd.name.chars, isDigit c = false)
    (h : st.source.Shows k (hd.text ++ "\nend\n".toList ++ rest)) :
    ∃ tree : Syntax, (function k).Yields st [tree] (k + hd.text.length + 4) ∧
      tree.outline = [.node .func hd.name.text "" [.node .declares "" "" [],
         .node .returns "" "" ((hd.outputs?.elim [] Outputs.all).map fun n =>
           .node .var n.text "" []),
         .node .params "" "" ((hd.params?.getD []).map fun n => .node .var n.text "" []),
         .node .block "" "" []]] := by
  rw [append_assoc] at h
  obtain ⟨tree, hyields, -, houtline⟩ := hd.yields (w := 0) .nil hdigits h
  exact ⟨tree, hyields.cast (by simp [Block.text]), houtline⟩

/-- A header without results. -/
def tidyHeader : Header :=
  ⟨none, ⟨"tidy_up".toList, by decide⟩, some [⟨['a'], by decide⟩, ⟨['b', '2'], by decide⟩], 1⟩

theorem exists_function_eq_sample :
    ∃ tree : Syntax, (function 0).Yields ⟨.ofString "function tidy_up(a, b2)\nend\n", true, false⟩
        [tree] 27 ∧
      tree.outline = [.node .func "tidy_up" "" [.node .declares "" "" [], .node .returns "" "" [],
        .node .params "" "" [.node .var "a" "" [], .node .var "b2" "" []],
        .node .block "" "" []]] := by
  refine tidyHeader.exists_function_eq [] (fun _ => by decide) ?_
  exact shows_ofString [] (tidyHeader.text ++ "\nend\n".toList) []

/-! ### Functions -/

def Results.outputs : Results → Outputs
  | .one r => .one r.name
  | .many first second others => .listed true first.name ((second :: others).map Ident.name)

def Func.header (f : Func) : Header :=
  ⟨some f.results.outputs, f.name.name, some (f.params.map Ident.name), 1⟩

lemma listed_eq (vs : List Ident) : listed vs = series true 1 (vs.map Ident.name) := by
  induction vs with
  | nil => rfl
  | cons v vs ih =>
    cases vs with
    | nil => simp [listed, series, tailed]
    | cons u us =>
      rw [listed, ih]
      · simp [series, tailed, between, Term.text, room]
      · simp

lemma Func.text_append (f : Func) (rest : List Char) : f.text w ++ rest =
    f.header.text ++ '\n' :: (f.body.text w 1 ++ ("end".toList ++ rest)) := by
  have hresults : f.results.text = f.results.outputs.text 1 := by
    cases f.results with
    | one r => rfl
    | many first second others => simp [Results.text, Results.outputs, Outputs.text, listed_eq]
  unfold Func.text Header.text
  simp [Func.header, hresults, listed_eq, paramsText]

lemma Func.outline_eq (f : Func) : f.outline = f.header.outline f.body := by
  have hresults : f.results.outputs.all = f.results.all.map Ident.name := by
    cases f.results <;> rfl
  simp [Func.outline, Header.outline, Func.header, hresults, Ident.outline]

lemma Func.yields (f : Func) (h : st.source.Shows k (f.text w ++ '\n' :: rest)) :
    ∃ tree : Syntax, (function k).Yields st [tree] (k + (f.text w).length) ∧
      tree.IsFunc ∧ tree.outline = [f.outline] := by
  have hlen := congrArg length (f.text_append (w := w) [])
  simp only [length_append, length_cons, show "end".toList.length = 3 from rfl] at hlen
  rw [f.text_append] at h
  obtain ⟨tree, hyields, htree⟩ := f.header.yields f.body nofun h
  rw [f.outline_eq]
  exact ⟨tree, hyields.cast (by omega), htree⟩

/-! ### Scripts -/

lemma Stmt.reads_function_eq_false (s : Stmt) {d : Nat}
    (h : st.source.Shows k (s.text w d ++ '\n' :: rest)) :
    st.source.reads k "function" = false := by
  have hclash : ∀ {cs : List Char}, st.source.Shows k cs → ∀ word : String,
      word.toList <+: cs → Clashes ["function"] word.toList →
        st.source.reads k "function" = false := by
    intro cs hcs word ⟨more, hmore⟩ hword
    rw [← hmore] at hcs
    obtain ⟨h1, h2⟩ := hword "function" (.head _)
    exact reads_eq_false_of_clash hcs.left h1 h2
  cases s with
  | expr a =>
    cases a with
    | ident v => exact v.reads_eq_false h (by decide) (.inr rfl)
    | numeral d =>
      obtain ⟨x, xs, hx⟩ := exists_cons_of_ne_nil d.nonempty
      have hshow : st.source.Shows k (x :: (xs ++ '\n' :: rest)) := by
        have : st.source.Shows k (d.digits ++ '\n' :: rest) := h
        rwa [hx] at this
      exact hshow.reads_eq_false rfl (ne_of_class (d.spelled x (by simp [hx])) (by decide)).symm
  | assign v a =>
    rw [Stmt.text_assign] at h
    exact v.reads_eq_false h (by decide) (.inr rfl)
  | branch cond body tail =>
    exact hclash h "if" (prefix_append ..) (by decide)
  | forLoop v first last body =>
    exact hclash h "for" (prefix_append ..) (by decide)
  | whileLoop cond body =>
    exact hclash h "while" (prefix_append ..) (by decide)

lemma resumes_text_end (h : st.source.Shows k (replicate m '\n'))
    (hsize : (st.source.size : Int) = k + m) : Resumes st k [] (fun _ => True) := by
  intro j n haround hn
  have hlines : st.source.Spaces k st.source.size := by
    have := h.spaces fun c hc => by rw [eq_of_mem_replicate hc]; decide
    rwa [length_replicate, ← hsize] at this
  have hspaces : st.source.Spaces j st.source.size := by
    rcases haround with hbefore | hafter
    · exact hbefore.trans hlines
    · refine ⟨?_, fun i hji hi => hlines.2 i (by have := hafter.1; omega) hi⟩
      apply Int.not_lt.mp
      intro hlt
      obtain ⟨c, hread, -⟩ := hafter.2 st.source.size (by omega) hlt
      have := (shows_singleton_of_read (by omega) hread).end_le (by simp)
      simp only [length_cons] at this
      omega
  have hstop : ∀ i : Int, st.source.size - i < 3 → ∀ n, (resume n i).Builds st [] i := by
    intro i hi n
    unfold resume
    rw [builds_source_bind, if_pos hi]
    exact builds_pure
  -- near the end of the text the block ends at once, else the line ends before it are passed
  by_cases hnear : st.source.size - j < 3
  · exact ⟨j, trivial, hstop j hnear n⟩
  · have hbefore : st.source.Spaces j (st.source.size - 2) :=
      ⟨by omega, fun i hji hi => hspaces.2 i hji (by omega)⟩
    exact resume_spaces hbefore (by omega)
      (fun n _ => ⟨_, trivial, hstop (st.source.size - 2) (by omega) n⟩) n hn

/-- The main function around the block of a script. -/
def mainTree (block : Syntax) : Syntax :=
  .node { kind := .main, name := "main" } [.leaf { kind := .declares }, .leaf { kind := .returns },
    .leaf { kind := .params }, block]

lemma yields_script_of_block {tree : Syntax} {stop : Int}
    (h : (block 0).Yields st [tree] stop) : (script 0).Yields st [mainTree tree] stop := by
  unfold script
  rw [Yields.bind_iff ⟨_, rfl⟩]
  exact .node (yields_leaf.bind (yields_leaf.bind (yields_leaf.bind h)))

lemma yields_script (first : Stmt) (others : Block) (hm : 2 ≤ m)
    (h : st.source.Shows 0 ((Block.cons first others).text w 0 ++ replicate m '\n'))
    (hsize : st.source.size = ((Block.cons first others).text w 0).length + m) :
    ∃ tree : Syntax, (∃ stop, (script 0).Yields st [tree] stop) ∧
      tree.IsFunc ∧ tree.outline = (Program.script first others).outlines := by
  have hpos : 0 < ((Block.cons first others).text w 0).length := by
    simp only [Block.text, length_append, length_cons]
    omega
  have hend : Resumes st (0 + ((Block.cons first others).text w 0).length) [] (fun _ => True) :=
    resumes_text_end h.right (by omega)
  have hresumes := (Block.cons first others).reads st w 0 0 _ [] _ (fun h => absurd h (by omega)) h
    (by simp only [ne_eq, replicate_eq_nil_iff]; omega) hend
  obtain ⟨stop, -, body, hblock, hbs, hbinner⟩ := hresumes.block (n := st.source.steps)
    (Around.refl ..) (by omega) (by unfold steps; omega)
  obtain ⟨tree, rfl, hinner, houtline⟩ := hbinner.exists_tree hbs
  refine ⟨_, ⟨stop, yields_script_of_block ?_⟩,
    .mk (.inr rfl) rfl rfl rfl (by simp) (by simp) hinner, ?_⟩
  · rw [Parse.block, yields_source_bind]
    exact hblock
  · simp [mainTree, Syntax.outline, Syntax.outlines, Syntax.leaf, houtline, Program.outlines,
      Block.outline]

/-! ### Programs -/

lemma yields_functions_end {n : Nat} (h : st.source.Shows k (replicate m '\n')) (hm : 1 ≤ m)
    (hsize : (st.source.size : Int) = k + m) (hn : m ≤ n) : (functions n k).Yields st [] () := by
  induction m generalizing k n with
  | zero => omega
  | succ m ih =>
    rcases n with _ | n
    · omega
    rw [functions, yields_source_bind, h.read, yields_lift_bind, if_pos (by decide)]
    show (if _ then _ else _ : Parse Unit).Yields st [] ()
    split
    · exact yields_pure
    · exact ih h.tail (by omega) (by omega) (by omega)

lemma yields_functions (fs : List Func) {n : Nat} (hm : 2 ≤ m)
    (h : st.source.Shows k (fs.flatMap (fun f => f.text w ++ ['\n']) ++ replicate m '\n'))
    (hsize : (st.source.size : Int) = k + (fs.flatMap fun f => f.text w ++ ['\n']).length + m)
    (hn : st.source.size ≤ n + k) :
    ∃ trees : List Syntax, (functions n k).Yields st trees () ∧
      (∀ tree ∈ trees, tree.IsFunc) ∧ Syntax.outlines trees = fs.map Func.outline := by
  induction fs generalizing k n with
  | nil =>
    exact ⟨[], yields_functions_end h (by omega) (by simpa using hsize) (by
      simp only [flatMap_nil] at hsize; omega), by simp, rfl⟩
  | cons f fs ih =>
    simp only [flatMap_cons, append_assoc, cons_append, nil_append,
      length_append, length_cons] at h hsize
    have hnewline := h.right
    obtain ⟨tree, hyields, hfunc, houtline⟩ := f.yields h
    rcases n with _ | n
    · omega
    obtain ⟨trees, hmore, hfuncs, houtlines⟩ := ih (n := n) hnewline.tail (by omega) (by omega)
    refine ⟨tree :: trees, ?_, ?_, ?_⟩
    · rw [f.text_append, f.header.text_append] at h
      have hword := h.reads
      have hread : st.source.read k = .ok 'f' := h.read
      rw [functions, yields_source_bind, hread, yields_lift_bind, hword]
      refine .bind hyields ?_
      show (if _ then _ else _ : Parse Unit).Yields st trees ()
      rw [if_neg (by omega)]
      exact hmore
    · intro other hother
      rcases mem_cons.mp hother with rfl | hother
      · exact hfunc
      · exact hfuncs other hother
    · rw [Syntax.outlines, houtline, houtlines]
      rfl

lemma yields_program_of_functions {trees : List Syntax}
    (h : (Parse.functions st.source.steps 0).Yields st trees ()) : program.Yields st trees () := by
  unfold program
  rwa [Yields.bind_iff ⟨_, rfl⟩, yields_source_bind]

/-- Text that starts with no function, comment or layout is read as a script. -/
lemma yields_program_of_script {c : Char} {cs : List Char} {tree : Syntax} {stop : Int}
    (h : st.source.Shows 0 (c :: cs)) (hc : oneOf " \t;\n%" c = false)
    (hfunction : st.source.reads 0 "function" = false)
    (hscript : (script 0).Yields st [tree] stop) : program.Yields st [tree] () := by
  have hspace : oneOf " \t;\n" c = false ∧ c ≠ '%' := by simpa [oneOf, and_assoc] using hc
  refine yields_program_of_functions ?_
  rw [steps, Parse.functions, yields_source_bind, h.read, yields_lift_bind, hspace.1,
    if_neg (by decide), if_neg (by simpa using hspace.2), hfunction]
  exact hscript.bind yields_pure

lemma Program.yields (p : Program) (hm : 2 ≤ m)
    (h : st.source = .ofString (String.ofList (p.lines w ++ replicate m '\n'))) :
    ∃ trees : List Syntax, Parse.program.Yields st trees () ∧
      (∀ tree ∈ trees, tree.IsFunc) ∧ Syntax.outlines trees = p.outlines := by
  have hshow : st.source.Shows 0 (p.lines w ++ replicate m '\n') := by
    rw [h]
    have := shows_ofString [] (p.lines w ++ replicate m '\n') []
    rwa [append_nil] at this
  have hsize : st.source.size = (p.lines w).length + m := by
    rw [h]
    simp [size, ofString]
  cases p with
  | script first others =>
    obtain ⟨tree, ⟨stop, hyields⟩, hfunc, houtline⟩ := yields_script first others hm hshow hsize
    refine ⟨[tree], ?_, ?_, ?_⟩
    · rw [Program.lines, Block.text_cons] at hshow
      have hfunction := first.reads_function_eq_false (d := 0) hshow
      obtain ⟨c, cs, hhead, hc⟩ := first.exists_head w 0
      rw [hhead] at hshow
      exact yields_program_of_script hshow (oneOf_eq_false hc (by decide)) hfunction hyields
    · intro other hother
      rw [mem_singleton.mp hother]
      exact hfunc
    · rw [Syntax.outlines, houtline]
      rfl
  | functions first others =>
    obtain ⟨trees, hyields, htrees⟩ := yields_functions (first :: others) (n := st.source.steps) hm
      hshow (by rw [hsize, Program.lines]; omega) (by unfold steps; omega)
    exact ⟨trees, yields_program_of_functions hyields, htrees⟩

/-! ### The text that is read -/

lemma Ident.dot_not_mem (v : Ident) : '.' ∉ v.name.chars :=
  fun h => absurd (v.name.isWord_of_mem h) (by decide)

lemma Atom.dot_not_mem (a : Atom) : '.' ∉ written a.term := by
  cases a with
  | ident v => exact v.dot_not_mem
  | numeral d => exact fun h => absurd (d.spelled _ h) (by decide)

lemma written_range (first last : Atom) :
    written (range first last) = written first.term ++ ':' :: written last.term := by
  simp [written, range, Term.text, tailed, Spacing.joint, tight, room, Operator.symbol]

lemma dot_not_mem_room (m : Nat) : '.' ∉ room m :=
  fun h => absurd (eq_of_mem_replicate h) (by decide)

mutual

lemma Stmt.dot_not_mem (w : Nat) : ∀ (s : Stmt) (d : Nat), '.' ∉ s.text w d
  | .expr a, _ => a.dot_not_mem
  | .assign v a, d => by
    rw [← append_nil (Stmt.text w d _), Stmt.text_assign]
    simp [v.dot_not_mem, a.dot_not_mem]
  | .branch cond body tail, d => by
    rw [← append_nil (Stmt.text w d _), Stmt.text_branch]
    simp [cond.dot_not_mem, body.dot_not_mem w (d + 1), tail.dot_not_mem w d]
  | .forLoop v first last body, d => by
    rw [← append_nil (Stmt.text w d _), Stmt.text_forLoop]
    simp [written_range, v.dot_not_mem, first.dot_not_mem, last.dot_not_mem,
      body.dot_not_mem w (d + 1), dot_not_mem_room]
  | .whileLoop cond body, d => by
    rw [← append_nil (Stmt.text w d _), Stmt.text_whileLoop]
    simp [cond.dot_not_mem, body.dot_not_mem w (d + 1), dot_not_mem_room]

lemma Block.dot_not_mem (w : Nat) : ∀ (b : Block) (d : Nat), '.' ∉ b.text w d
  | .nil, _ => not_mem_nil
  | .cons s b, d => by
    simp [Block.text, s.dot_not_mem w d, b.dot_not_mem w d, dot_not_mem_room]

lemma Tail.dot_not_mem (w : Nat) : ∀ (t : Tail) (d : Nat), '.' ∉ t.text w d
  | .done, d => by
    rw [← append_nil (Tail.text w d _), Tail.text_done]
    simp [dot_not_mem_room]
  | .otherwise body, d => by
    rw [← append_nil (Tail.text w d _), Tail.text_otherwise]
    simp [body.dot_not_mem w (d + 1), dot_not_mem_room]
  | .elif cond body tail, d => by
    rw [← append_nil (Tail.text w d _), Tail.text_elif]
    simp [cond.dot_not_mem, body.dot_not_mem w (d + 1), tail.dot_not_mem w d, dot_not_mem_room]

end

lemma dot_not_mem_listed (vs : List Ident) : '.' ∉ listed vs :=
  fun h => absurd (isItem_of_mem_series (listed_eq vs ▸ h)) (by decide)

lemma Results.dot_not_mem (r : Results) : '.' ∉ r.text := by
  cases r with
  | one r => exact r.dot_not_mem
  | many first second others => simp [Results.text, dot_not_mem_listed]

lemma Func.dot_not_mem (f : Func) : '.' ∉ f.text w := by
  unfold Func.text
  simp [f.results.dot_not_mem, f.name.dot_not_mem, dot_not_mem_listed, f.body.dot_not_mem w 1]

lemma Program.dot_not_mem (p : Program) : '.' ∉ p.lines w := by
  cases p with
  | script first others => exact (Block.cons first others).dot_not_mem w 0
  | functions first others =>
    intro h
    obtain ⟨f, -, hf⟩ := mem_flatMap.mp h
    simp [f.dot_not_mem] at hf

lemma Block.exists_lines (s : Stmt) (b : Block) (d : Nat) :
    ∃ cs, (Block.cons s b).text w d = cs ++ ['\n'] := by
  cases b with
  | nil => exact ⟨room (w * d) ++ s.text w d, by simp [Block.text]⟩
  | cons s' b =>
    obtain ⟨cs, hcs⟩ := Block.exists_lines s' b d
    exact ⟨room (w * d) ++ s.text w d ++ '\n' :: cs, by rw [Block.text, hcs]; simp⟩

lemma Program.exists_lines (p : Program) : ∃ cs, p.lines w = cs ++ ['\n'] := by
  cases p with
  | script first others => exact Block.exists_lines first others 0
  | functions first others =>
    have hlast : ∀ fs : List Func, fs ≠ [] →
        ∃ cs, fs.flatMap (fun f => f.text w ++ ['\n']) = cs ++ ['\n'] := by
      intro fs hne
      rw [← dropLast_concat_getLast hne]
      exact ⟨fs.dropLast.flatMap (fun f => f.text w ++ ['\n']) ++ (fs.getLast hne).text w, by simp⟩
    exact hlast (first :: others) (by simp)

/-- What is read are the lines of the program and two or more line ends. -/
lemma Program.programText_eq (p : Program) (ends : Nat) :
    programText (String.ofList (p.text w ends)) =
      String.ofList (p.lines w ++ replicate (ends + 2) '\n') := by
  obtain ⟨cs, hcs⟩ := p.exists_lines (w := w)
  have hdot : '.' ∉ p.text w ends := by
    have hlines := p.dot_not_mem (w := w)
    simp [Program.text, hcs] at hlines ⊢
    exact hlines
  have hread := uncontinued_of_not_mem hdot []
  rw [append_nil, continued, append_nil] at hread
  rw [ArmaGen.programText_eq, String.toList_ofList, hread, ← String.ofList_append]
  rw [Program.text, hcs, dropLast_concat, show ['\n', '\n', '\n'] = replicate 3 '\n'
    from rfl, show ['\n'] = replicate 1 '\n' from rfl, append_assoc, append_assoc,
    replicate_append_replicate, replicate_append_replicate,
    show ends + 3 = 1 + (ends + 2) by omega]

end Structured

end ArmaGen
