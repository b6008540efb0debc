import ArmaGen.Proofs.Syntax.Statement

/-!
# Reading blocks of structured programs

Every block of statements is read as its outline, wherever it stands (`Block.reads`). A block does
not end where its text ends: a loop leaves the position after its `end`, a branch goes back to the
keyword that ends its block, a plain statement stays at its last character. What holds at all of
these places is that only blanks and line ends are left before the next line (`Source.Around`), so
that is what the induction carries (`Parse.Resumes`).
-/

namespace ArmaGen

open List

namespace Parse

open Source

variable {st : Setting} {os os' : List Outline} {j k r e : Int} {n m : Nat} {c : Char}
  {cs rest : List Char}

/-! ### Keywords that are written out -/

/-- No word of a list is found where other text stands. -/
def Clashes (words : List String) (cs : List Char) : Prop :=
  ∀ word ∈ words, ¬ word.toList <+: cs ∧ ¬ cs <+: word.toList

instance (words : List String) (cs : List Char) : Decidable (Clashes words cs) :=
  inferInstanceAs (Decidable (∀ word ∈ words, ¬ word.toList <+: cs ∧ ¬ cs <+: word.toList))

variable {word : String} {before after : List (String × (BlockParser → Int → Parse Int))}
  {statement : BlockParser → Int → Parse Int} {ends : Int → Prop} {i : Nat}

lemma Clashes.readsThen {words : List String} (hclash : Clashes words cs)
    (h : st.source.Shows k (cs ++ rest)) (hword : word ∈ words) (p : Char → Bool) :
    st.source.readsThen k word p = .ok false :=
  readsThen_of_reads_eq_false
    (reads_eq_false_of_clash h.left (hclash word hword).1 (hclash word hword).2)

lemma builds_blockStatement? {block : BlockParser}
    (hbefore : ∀ entry ∈ before, st.source.readsThen k entry.1 endsKeyword = .ok false)
    (hword : st.source.readsThen k word endsKeyword = .ok true)
    (h : (statement block k).Builds st os e) :
    (blockStatement? block k (before ++ (word, statement) :: after)).Builds st os (some e) := by
  induction before with
  | nil =>
    rw [nil_append, blockStatement?, (yields_keyword hword).bind_builds, ← append_nil os]
    exact h.bind builds_pure
  | cons entry before ih =>
    rw [cons_append, blockStatement?, (yields_keyword (hbefore entry (.head _))).bind_builds]
    exact ih fun other hother => hbefore other (.tail _ hother)

lemma builds_piece_statement {block : BlockParser} {x : Char} {xs : List Char}
    (hget : blockStatements[i]? = some (word, statement))
    (hclash : Clashes ("end" :: "function" :: endingKeywords ++
      (blockStatements.take i).map (·.1)) (word.toList ++ [c])) (hx : word.toList = x :: xs)
        (halnum : isAlnum x = true)
    (hc : endsKeyword c = true) (h : st.source.Shows k (word.toList ++ [c] ++ rest))
    (hbuilds : (statement block k).Builds st os e) : (piece block k).Builds st os (.next e) := by
  have hread := h.left.read_first hx
  have hword : st.source.readsThen k word endsKeyword = .ok true := by
    rw [append_assoc] at h
    rw [← hc]
    exact readsThen_self h
  have hending := yields_anyKeyword fun word hword =>
    hclash.readsThen h (mem_append_left _ (.tail _ (.tail _ hword))) endsKeyword
  have hend := yields_keyword (hclash.readsThen h (show "end" ∈ _ by simp) endsKeyword)
  have hfunction := hclash.readsThen h (show "function" ∈ _ by simp)
    (fun c => endsKeyword c || c == '[')
  have hfound : (blockStatement? block k blockStatements).Builds st os (some e) := by
    obtain ⟨hi, hget⟩ := List.getElem?_eq_some_iff.1 hget
    rw [← take_append_drop i blockStatements, drop_eq_getElem_cons hi, hget]
    refine builds_blockStatement? (fun entry hentry => ?_) hword hbuilds
    exact hclash.readsThen h (mem_append_right _ (mem_map_of_mem hentry)) endsKeyword
  refine builds_piece_word h.nonneg hread halnum ?_
  unfold wordPiece
  rw [builds_source_bind, hending.bind_builds, if_neg (by decide), hend.bind_builds,
    if_neg (by decide), hfunction, builds_lift_bind, ← append_nil os]
  exact hfound.bind builds_pure

lemma builds_piece_ending {block : BlockParser} {x : Char} {xs : List Char}
    {before after : List String} (hlist : endingKeywords = before ++ word :: after)
    (hbefore : ∀ other ∈ before, st.source.readsThen k other endsKeyword = .ok false)
    (hx : word.toList = x :: xs) (halnum : isAlnum x = true) (hc : endsKeyword c = true)
    (h : st.source.Shows k (word.toList ++ c :: rest)) :
    (piece block k).Builds st [] (.stop k) := by
  have hread := h.read_first hx
  have hany : (anyKeyword k endingKeywords).Yields st [] true := by
    rw [hlist]
    clear hlist
    induction before with
    | nil =>
      rw [nil_append, anyKeyword, (yields_keyword (readsThen_self h)).bind_iff, if_pos hc]
      exact yields_pure
    | cons other before ih =>
      rw [cons_append, anyKeyword, (yields_keyword (hbefore other (.head _))).bind_iff]
      exact ih fun more hmore => hbefore more (.tail _ hmore)
  refine builds_piece_word h.nonneg hread halnum ?_
  unfold wordPiece
  rw [builds_source_bind, hany.bind_builds]
  exact builds_pure

lemma builds_piece_end {block : BlockParser} (hc : endsKeyword c = true)
    (h : st.source.Shows k ("end".toList ++ c :: rest)) :
    (piece block k).Builds st [] (.stop (k + 3)) := by
  have hclash : Clashes endingKeywords "end".toList := by decide
  have hending := yields_anyKeyword fun word hword => hclash.readsThen h hword endsKeyword
  refine builds_piece_word h.nonneg h.read (by decide) ?_
  unfold wordPiece
  rw [builds_source_bind, hending.bind_builds, if_neg (by decide),
    (yields_keyword (readsThen_self h)).bind_builds, if_pos hc]
  exact builds_pure

/-! ### Lines -/

section

variable (h : st.source.Shows j (room m ++ c :: cs)) (hc : isLayout c = false)
  (hsize : 3 ≤ st.source.size - (j + (room m).length))

include h hc hsize

/-- A line on which the block ends. -/
lemma Resumes.of_stop
    (hpiece : ∀ n, (piece (inner n) (j + (room m).length)).Builds st [] (.stop r)) :
    Resumes st j [] (· = r) := by
  intro k n haround hn
  refine resume_spaces (haround.spaces h hc) (by omega) ?_ n hn
  intro n hn
  rcases n with _ | n
  · omega
  exact ⟨r, rfl, resume_of_pieces hsize ((hpiece n).bind builds_pure)⟩

/-- A line on which a piece of the block starts, after which the block goes on. -/
lemma Resumes.of_next {j' : Int}
    (hpiece : ∀ n : Nat, st.source.size ≤ n + 1 + (j + (room m).length) →
      ∃ e, j + (room m).length ≤ e ∧ st.source.Around (e + 1) j' ∧
        (piece (inner n) (j + (room m).length)).Builds st os (.next e))
    (hrest : Resumes st j' os' ends) : Resumes st j (os ++ os') ends := by
  intro k n haround hn
  refine resume_spaces (haround.spaces h hc) (by omega) ?_ n hn
  intro n hn
  rcases n with _ | n
  · omega
  obtain ⟨e, hle, haround', hbuilds⟩ := hpiece n (by omega)
  obtain ⟨r, hr, hmore⟩ := hrest (e + 1) n haround' (by omega)
  exact ⟨r, hr, resume_of_pieces hsize (pieces_next hbuilds hmore)⟩

end

lemma Resumes.block (h : Resumes st j os ends) (haround : st.source.Around k j)
    (hsize : 3 ≤ st.source.size - k) (hn : st.source.size ≤ n + k) :
    ∃ r, ends r ∧ (inner n k).Builds st [.node .block "" "" os] r := by
  obtain ⟨r, hr, hbuilds⟩ := h k n haround hn
  refine ⟨r, hr, ?_⟩
  refine .nodeThen ?_ rfl (by simp)
  rw [builds_note_bind]
  exact pieces_of_resume hsize hbuilds

lemma Resumes.of_word {x : Char} {xs : List Char}
    (h : st.source.Shows j (room m ++ (word.toList ++ rest))) (hx : word.toList = x :: xs)
    (hlayout : isLayout x = false) (hlen : 2 ≤ xs.length)
    (hpiece : ∀ n, (piece (inner n) (j + (room m).length)).Builds st [] (.stop r)) :
    Resumes st j [] (· = r) := by
  rw [hx] at h
  have hsize := h.right.end_le (by simp)
  simp only [length_append, length_cons] at hsize
  exact .of_stop h hlayout (by omega) hpiece

lemma resumes_end (h : st.source.Shows j (room m ++ ("end".toList ++ c :: rest)))
    (hc : endsKeyword c = true) : Resumes st j [] (· = j + (room m).length + 3) :=
  .of_word h rfl (by decide) (by decide) fun n => builds_piece_end hc h.right

lemma resumes_else (h : st.source.Shows j (room m ++ ("else".toList ++ c :: rest)))
    (hc : endsKeyword c = true) : Resumes st j [] (· = j + (room m).length) := by
  have hclash : Clashes ["case", "catch"] "else".toList := by decide
  refine .of_word h rfl (by decide) (by decide) fun n => ?_
  have hlist : endingKeywords = ["case", "catch"] ++ "else" :: ["elseif", "otherwise"] := rfl
  exact builds_piece_ending hlist
    (fun word hword => hclash.readsThen h.right hword endsKeyword) rfl (by decide) hc h.right

lemma resumes_elseif (h : st.source.Shows j (room m ++ ("elseif".toList ++ c :: rest)))
    (hc : endsKeyword c = true) : Resumes st j [] (· = j + (room m).length) := by
  have hclash : Clashes ["case", "catch"] "else".toList := by decide
  have helse : st.source.Shows (j + (room m).length) ("else".toList ++ 'i' :: ('f' :: c :: rest)) :=
    h.right
  refine .of_word h rfl (by decide) (by decide) fun n => ?_
  have hlist : endingKeywords = ["case", "catch", "else"] ++ "elseif" :: ["otherwise"] := rfl
  refine builds_piece_ending hlist (fun word hword => ?_) rfl (by decide) hc h.right
  rcases mem_append.mp (show word ∈ ["case", "catch"] ++ ["else"] from hword) with hword | hword
  · exact hclash.readsThen helse hword endsKeyword
  · rw [mem_singleton.mp hword]
    exact readsThen_self helse

end Parse

/-! ### Statements that hold blocks -/

namespace Structured

open Source Parse Term

variable {st : Setting} {os os' : List Outline} {j k e : Int} {m : Nat} {block : BlockParser}
  {rest : List Char}

lemma Atom.yields_condition (a : Atom) (hfresh : st.source.Fresh k)
    (h : st.source.Shows k (written a.term ++ '\n' :: rest)) :
    (condition k).Yields st [a.term.tree tight k] (k + (written a.term).length - 1) := by
  obtain ⟨c, cs, hhead, hc⟩ := a.exists_head
  have hread := h.read_first hhead
  have hparen : c ≠ '(' := ne_of_class hc rfl
  have hexpression := yields_expression_none (a.layered tight) hfresh h (by decide)
    (ends_of_char rfl rfl (by decide))
  rw [a.unread, Int.natCast_zero, Int.sub_zero] at hexpression
  unfold condition
  simp only [yields_source_bind, hread, yields_lift_bind, beq_iff_eq, hparen]
  exact hexpression

lemma Atom.after_keyword (a : Atom)
    (h : st.source.Shows k (' ' :: (written a.term ++ '\n' :: rest))) :
    st.source.skipBlanks k = .ok (k + 1) ∧
    st.source.expressionEnd (k + 1) = .ok (k + 1 + (written a.term).length - 1) ∧
    (condition (k + 1)).Builds st [a.term.outline] (k + 1 + (written a.term).length - 1) := by
  have hfresh : st.source.Fresh (k + 1) := fresh_after h rfl
  refine ⟨?_, (a.layered tight).runs.expressionEnd_eq hfresh h.tail (by decide),
    (a.yields_condition hfresh h.tail).builds_tree⟩
  obtain ⟨c, cs, hhead, hc⟩ := a.exists_head
  rw [hhead] at h
  exact skipBlanks_blank h (isBlank_eq_false hc rfl rfl)

variable {cond : Atom} {start next : Int} {v : Ident} {cs : List Char} {c : Char} {body : Block}

lemma builds_while
    (h : st.source.Shows k ("while".toList ++ ' ' :: (written cond.term ++ '\n' :: rest)))
    (hstart : st.source.skipBlanks (k + 6 + (written cond.term).length + 1) = .ok start)
    (hblock : (block start).Builds st os e) :
    (whileStatement block k).Builds st [.node .whileLoop "" "" (cond.term.outline :: os)] e := by
  have hgap : st.source.Shows (k + 5) (' ' :: (written cond.term ++ '\n' :: rest)) := h.right
  obtain ⟨hskip, hend, hcond⟩ := cond.after_keyword hgap
  have hword := h.reads
  unfold whileStatement
  simp only [builds_source_bind, hword, hgap.holds, builds_lift_bind, Bool.not_true,
    Bool.false_and, Bool.false_eq_true, ite_false, hskip, hend, builds_progress_bind]
  refine .nodeThen ?_ rfl (by simp)
  refine hcond.bind ?_
  rw [show k + 5 + 1 + (written cond.term).length - 1 + 2 =
    k + 6 + (written cond.term).length + 1 by omega, hstart]
  exact hblock

lemma range_layered (first last : Atom) : (range first last).Layered tight := by
  have hlevel : ∀ a : Atom, Operator.colon.rank < a.term.level := by
    intro a
    rw [show a.term.level = 21 by cases a <;> rfl]
    decide
  have hmeet : Meet tight .colon first.term last.term :=
    ⟨fun h => absurd h (by decide), fun h => absurd h (by decide), fun h => absurd h (by decide),
      fun _ h => absurd h (by decide)⟩
  refine .chain (by simp) (first.layered tight) ?_ (hlevel first) ⟨hmeet, hlevel last, trivial⟩
  intro t ht
  rw [mem_singleton.mp ht]
  exact last.layered tight

lemma Yields.attempt {α : Type} {p : Parse α} {made : List Syntax} {a : α}
    (h : p.Yields st made a) : (Parse.attempt p).Yields st [] (made, .ok a) := by
  obtain ⟨notes, h⟩ := h
  exact ⟨notes, by rw [Parse.attempt, h]⟩

lemma builds_loopVariable {kind : Kind}
    (h : st.source.Shows k (v.name.chars ++ ' ' :: '=' :: rest)) :
    (loopVariable kind k).Builds st [v.outline] (k + v.name.chars.length - 1) := by
  have hfollows : Follows (' ' :: '=' :: rest) :=
    ⟨[' '], '=', rest, rfl, by decide, by decide, by decide, by decide, by decide,
      fun h => absurd h (by decide)⟩
  have hname : (reference expression k).Yields st [(name v.name).tree tight k]
      (k + v.name.chars.length - 1) := yields_reference_name h hfollows
  unfold loopVariable
  rw [(Yields.attempt hname.declaring).bind_builds]
  refine ⟨_, Yields.bind ⟨[], rfl⟩ yields_pure, rfl, ?_⟩
  exact ⟨⟨rfl, .inl ⟨rfl, rfl⟩⟩, trivial⟩

lemma builds_for {first last : Atom}
    (h : st.source.Shows k ("for".toList ++ ' ' :: (v.name.chars ++ ' ' :: '=' :: ' ' ::
      (written (range first last) ++ '\n' :: rest)))) (hstart : st.source.skip (oneOf " \t\n;")
      (k + 7 + v.name.chars.length + (written (range first last)).length) = .ok start)
    (hblock : (block start).Builds st os e) :
    (forStatement block k).Builds st
      [.node .forLoop "" "" (v.outline :: (range first last).outline :: os)] e := by
  have hword := h.reads
  have hgap : st.source.Shows (k + 3) _ := h.right
  have hvar := hgap.tail
  have hskip : st.source.skip (oneOf "( \t") (k + 3) = .ok (k + 3 + 1) := by
    obtain ⟨c, cs, hchars, hc, -⟩ := v.name.exists_chars
    rw [hchars] at hgap
    have hshow : st.source.Shows (k + 3) ([' '] ++ [c]) :=
      hgap.left
    exact skip_eq hshow (by decide) (oneOf_eq_false hc (by decide))
  have hsign := hvar.right.tail
  have hskip' := skipBlanks_blank hvar.right (by decide)
  have hrange := hsign.tail.tail
  have hfresh := fresh_after hsign.tail rfl
  have hskip'' : st.source.skipBlanks (k + 3 + 1 + v.name.chars.length + 1 + 1) =
      .ok (k + 3 + 1 + v.name.chars.length + 1 + 1 + 1) := by
    obtain ⟨d, ds, hhead, hd⟩ := (range first last).exists_head tight
    have hshow := hsign.tail
    rw [written, hhead] at hshow
    exact skipBlanks_blank hshow (isBlank_eq_false hd rfl rfl)
  have hexpression := yields_expression_none (range_layered first last) hfresh hrange (by decide)
    (ends_of_char rfl rfl (by decide))
  have hline : st.source.Shows (k + 3 + 1 + v.name.chars.length + 1 + 1 + 1 +
      ((range first last).text tight).length) ('\n' :: rest) := hrange.right
  unfold forStatement loopOver
  simp only [builds_source_bind, hword, Bool.not_true, Bool.false_eq_true, ite_false,
    builds_note_bind]
  refine .nodeThen ?_ rfl (by simp)
  rw [show k + (3 : Nat) = k + 3 from rfl, hskip]
  refine (builds_loopVariable hvar).bind ?_
  simp only [Int.sub_add_cancel, hskip', hsign.read, builds_lift_bind]
  rw [if_neg (by decide), hskip'']
  refine hexpression.builds_tree.bind ?_
  rw [show (range first last).unread = 0 from rfl, Int.natCast_zero, Int.sub_zero,
    Int.sub_add_cancel, skip_of_false hline (by decide), builds_lift_bind, hline.read,
    builds_lift_bind, if_neg (by decide)]
  rw [show k + 7 + v.name.chars.length + (written (range first last)).length =
    k + 3 + 1 + v.name.chars.length + 1 + 1 + 1 + ((range first last).text tight).length by
      unfold written; omega] at hstart
  rw [hstart]
  exact hblock

/-- The further parts of a branch are read: its conditions and what is done otherwise. -/
def BuildsParts (st : Setting) (block : BlockParser) (m : Nat) (start cur : Int)
    (os : List Outline) (stop : Int) : Prop :=
  ∃ mid last os1 os2, (elifs block m start cur).Builds st os1 mid ∧
    (elsePart block mid.1 mid.2).Builds st os2 (last, stop) ∧ os1 ++ os2 = os

lemma builds_if
    (h : st.source.Shows k ("if".toList ++ ' ' :: (written cond.term ++ '\n' :: rest)))
    (hblock : (block (k + 3 + (written cond.term).length)).Builds st os next)
    (hparts : BuildsParts st block st.source.steps k next os' e) :
    (ifStatement block k).Builds st
      [.node .branch "" "" (.node .ifBranch "" "" (cond.term.outline :: os) :: os')] e := by
  have hgap : st.source.Shows (k + 2) (' ' :: (written cond.term ++ '\n' :: rest)) := h.right
  obtain ⟨hskip, hend, hcond⟩ := cond.after_keyword hgap
  obtain ⟨c, cs, hhead, hc⟩ := cond.exists_head
  have hread := hgap.tail.read_first hhead
  have hstart : startsExpression c = true := by simp [startsExpression, hc]
  unfold ifStatement
  rw [builds_source_bind, (yields_keyword (readsThen_self h)).bind_builds, if_neg (by decide)]
  obtain ⟨mid, last, os1, os2, helifs, helse, rfl⟩ := hparts
  refine .wrap (a := (last, e)) ?_ (fun _ => ⟨_, rfl⟩) rfl (by simp)
  simp only [hskip, builds_lift_bind, hread, hstart, Bool.not_true, Bool.false_eq_true, ite_false,
    hend, builds_progress_bind, Int.sub_add_cancel]
  refine .bind (.nodeThen ?_ rfl (by simp)) (helifs.bind helse)
  rw [show k + 2 + 1 = k + 3 by omega] at hcond ⊢
  exact hcond.bind hblock

lemma builds_parts_elif
    (h : st.source.Shows k ("elseif".toList ++ ' ' :: (written cond.term ++ '\n' :: rest)))
    (hblock : (block (k + 7 + (written cond.term).length)).Builds st os next)
    (hparts : BuildsParts st block m k next os' e) :
    BuildsParts st block (m + 1) start k
      (.node .elif "" "" (cond.term.outline :: os) :: os') e := by
  have hgap : st.source.Shows (k + 6) (' ' :: (written cond.term ++ '\n' :: rest)) := h.right
  obtain ⟨hskip, hend, hcond⟩ := cond.after_keyword hgap
  obtain ⟨mid, last, os1, os2, helifs, helse, rfl⟩ := hparts
  refine ⟨mid, last, .node .elif "" "" (cond.term.outline :: os) :: os1, os2, ?_, helse, rfl⟩
  rw [elifs, builds_source_bind, (yields_keyword (readsThen_self h)).bind_builds,
    if_pos (by decide), hskip, builds_lift_bind, hend, builds_lift_bind, builds_progress_bind,
    Int.sub_add_cancel]
  refine .bind (.nodeThen ?_ rfl (by simp)) helifs
  rw [show k + 6 + 1 = k + 7 by omega] at hcond ⊢
  exact hcond.bind hblock

lemma builds_parts_last (last : Int)
    (helseif : st.source.readsThen k "elseif" endsKeyword = .ok false)
    (h : (elsePart block start k).Builds st os (last, e)) :
    BuildsParts st block (m + 1) start k os e := by
  refine ⟨(start, k), last, [], os, ?_, h, rfl⟩
  rw [elifs, builds_source_bind, (yields_keyword helseif).bind_builds]
  exact builds_pure

lemma builds_parts_else (h : st.source.Shows k ("else".toList ++ '\n' :: rest))
    (hblock : (block (k + 4)).Builds st os next) :
    BuildsParts st block (m + 1) start k [.node .elseBranch "" "" os] next := by
  have hclash : Clashes ["elseif"] ("else".toList ++ ['\n']) := by decide
  have hshow : st.source.Shows k ("else".toList ++ ['\n'] ++ rest) := h
  refine builds_parts_last k (hclash.readsThen hshow (.head _) endsKeyword) ?_
  unfold elsePart
  rw [builds_source_bind, (yields_keyword (readsThen_self h)).bind_builds,
    if_pos (by decide), builds_progress_bind]
  exact (Builds.nodeThen hblock rfl (by simp)).bind builds_pure

lemma builds_parts_end (h : st.source.Shows k ('\n' :: rest)) :
    BuildsParts st block (m + 1) start k [] k := by
  have hclash : Clashes ["else", "elseif"] ['\n'] := by decide
  have hshow : st.source.Shows k (['\n'] ++ rest) := h
  refine builds_parts_last start (hclash.readsThen hshow (by simp) endsKeyword) ?_
  unfold elsePart
  rw [builds_source_bind,
    (yields_keyword (hclash.readsThen hshow (.head _) endsKeyword)).bind_builds]
  exact builds_pure

/-! ### Lines of blocks -/

variable {w d : Nat} {n : Nat}

lemma Stmt.exists_head (w d : Nat) (s : Stmt) :
    ∃ c cs, s.text w d = c :: cs ∧ isAlnum c = true := by
  cases s with
  | expr a => exact a.exists_head
  | assign v a =>
    obtain ⟨c, cs, h, hc, -⟩ := v.name.exists_chars
    refine ⟨c, cs ++ " = ".toList ++ written a.term, ?_, by simp [isAlnum, hc]⟩
    rw [← append_nil (Stmt.text w d _), Stmt.text_assign, h]
    simp
  | branch cond body rest => exact ⟨'i', _, rfl, by decide⟩
  | forLoop v first last body => exact ⟨'f', _, rfl, by decide⟩
  | whileLoop cond body => exact ⟨'w', _, rfl, by decide⟩

/-- Text whose first line holds a letter or a digit after its blanks. -/
def StartsLine (cs : List Char) : Prop :=
  ∃ i c ds, cs = room i ++ c :: ds ∧ isAlnum c = true

lemma Block.startsLine (b : Block) (h : StartsLine rest) : StartsLine (b.text w d ++ rest) := by
  cases b with
  | nil => exact h
  | cons s b =>
    obtain ⟨c, cs, hs, hc⟩ := s.exists_head w d
    exact ⟨w * d, c, cs ++ '\n' :: (b.text w d ++ rest), by simp [Block.text_cons, hs], hc⟩

/-- Text whose first line starts with a keyword that ends a block. -/
def Closing (cs : List Char) : Prop :=
  ∃ i c ds, cs = room i ++ c :: ds ∧ isAlnum c = true ∧ 2 ≤ ds.length

lemma Closing.startsLine (h : Closing cs) : StartsLine cs := by
  obtain ⟨i, c, ds, rfl, hc, -⟩ := h
  exact ⟨i, c, ds, rfl, hc⟩

lemma closing_end (m : Nat) (rest : List Char) : Closing (room m ++ ("end".toList ++ rest)) :=
  ⟨m, 'e', 'n' :: 'd' :: rest, rfl, by decide, by simp⟩

lemma Tail.closing (t : Tail) : Closing (t.text w d ++ rest) := by
  cases t with
  | done =>
    rw [Tail.text_done]
    exact closing_end (w * d) rest
  | otherwise body =>
    rw [Tail.text_otherwise]
    exact ⟨w * d, 'e', 'l' :: 's' :: 'e' :: _, rfl, by decide, by simp⟩
  | elif cond body tail =>
    rw [Tail.text_elif]
    exact ⟨w * d, 'e', 'l' :: 's' :: 'e' :: 'i' :: 'f' :: _, rfl, by decide, by simp⟩

lemma isLayout_eq_false (hc : isAlnum c = true) : isLayout c = false := by
  have h1 : c ≠ ' ' := ne_of_class hc rfl
  have h2 : c ≠ '\n' := ne_of_class hc rfl
  simp [isLayout, h1, h2]

lemma isLayout_of_mem_room (hc : c ∈ room m) : isLayout c = true := by
  rw [eq_of_mem_replicate hc]
  decide

lemma StartsLine.skipBlanks (hline : StartsLine cs) (h : st.source.Shows j cs) :
    ∃ k, st.source.skipBlanks j = .ok k ∧ j ≤ k ∧ st.source.Around k j := by
  obtain ⟨i, c, ds, rfl, hc⟩ := hline
  have hblank : ∀ b ∈ room i, isBlank b = true := by
    intro b hb
    rw [eq_of_mem_replicate hb]
    decide
  have hspaces := h.left.spaces fun _ => isLayout_of_mem_room
  refine ⟨j + (room i).length, ?_, hspaces.1, .inr hspaces⟩
  exact skip_eq h.upto hblank (isBlank_eq_false hc rfl rfl)

lemma StartsLine.skip (hline : StartsLine cs) (h : st.source.Shows j ('\n' :: cs)) :
    ∃ k, st.source.skip (oneOf " \t\n;") j = .ok k ∧ j ≤ k ∧ st.source.Around k (j + 1) := by
  obtain ⟨i, c, ds, rfl, hc⟩ := hline
  have hshow : st.source.Shows j (('\n' :: room i) ++ c :: ds) := h
  have hskipped : ∀ b ∈ '\n' :: room i, oneOf " \t\n;" b = true := by
    intro b hb
    rcases mem_cons.mp hb with rfl | hb
    · decide
    · rw [eq_of_mem_replicate hb]
      decide
  refine ⟨j + ('\n' :: room i).length, ?_, by omega, .inr ?_⟩
  · exact skip_eq hshow.upto hskipped (oneOf_eq_false hc (by decide))
  · have hspaces := Shows.spaces (Shows.left h.tail) fun _ => isLayout_of_mem_room
    rwa [length_cons, show j + ((room i).length + 1 : Nat) = j + 1 + (room i).length by omega]

lemma around_newline (h : st.source.Shows j ('\n' :: cs)) : st.source.Around j (j + 1) :=
  .inl (Shows.spaces (show st.source.Shows j (['\n'] ++ cs) from h).left (by decide))

lemma fresh_room (hfresh : st.source.Fresh j) (h : st.source.Shows j (room m)) :
    st.source.Fresh (j + (room m).length) := by
  cases m with
  | zero => rwa [show room 0 = [] from rfl, add_length_nil]
  | succ m => exact h.fresh (by simp [room]) fun _ => isWord_of_mem_room

lemma le_of_around (h : st.source.Around k j) (hle : j ≤ e) (hread : st.source.read e = .ok c)
    (hc : isLayout c = false) : k ≤ e := by
  rcases h with h | h
  · have := h.1
    omega
  · apply Int.not_lt.mp
    intro hlt
    obtain ⟨d, hd, hlayout⟩ := h.2 e hle hlt
    rw [hread] at hd
    rw [← Except.ok.inj hd, hc] at hlayout
    cases hlayout

/-! ### Statements, blocks and branches -/

/-- A statement is read wherever it stands. -/
def Stmt.Reads (st : Setting) (w : Nat) (s : Stmt) : Prop :=
  ∀ (d n : Nat) (j : Int) (rest : List Char), st.source.Fresh j →
    st.source.Shows j (s.text w d ++ '\n' :: rest) → st.source.size ≤ n + 1 + j →
    ∃ e, j ≤ e ∧ st.source.Around (e + 1) (j + (s.text w d).length + 1) ∧
      (piece (inner n) j).Builds st [s.outline] (.next e)

/-- A block is read wherever it stands, if what follows it is. -/
def Block.Reads (st : Setting) (w : Nat) (b : Block) : Prop :=
  ∀ (d : Nat) (j : Int) (rest : List Char) (os : List Outline) (ends : Int → Prop),
    st.source.Fresh j → st.source.Shows j (b.text w d ++ rest) → rest ≠ [] →
    Resumes st (j + (b.text w d).length) os ends → Resumes st j (b.outlines ++ os) ends

/-- The block before the further parts of a branch ends where they start, and they are read. -/
def Tail.Reads (st : Setting) (w : Nat) (t : Tail) : Prop :=
  ∀ (d n m : Nat) (j start : Int) (rest : List Char),
    st.source.Shows j (t.text w d ++ '\n' :: rest) → st.source.size ≤ n + j →
    st.source.size ≤ m + j →
    ∃ k, Resumes st j [] (· = k) ∧
      BuildsParts st (inner n) m start k t.outlines (j + (t.text w d).length)

lemma Block.Reads.builds {b : Block} (hb : b.Reads st w)
    (h : st.source.Shows j ('\n' :: (b.text w d ++ rest))) (hrest : Closing rest)
    (hends : Resumes st (j + 1 + (b.text w d).length) [] (· = e))
    (haround : st.source.Around k (j + 1)) (hn : st.source.size ≤ n + k) :
    (inner n k).Builds st [b.outline] e := by
  obtain ⟨i, c, cs, rfl, hc, hlen⟩ := hrest
  have hend := h.tail.right.right
  have hsize := hend.end_le (by simp)
  rw [length_cons] at hsize
  have hle := le_of_around haround (by omega) hend.read (isLayout_eq_false hc)
  have hresumes := hb d _ _ [] _ (fresh_after h rfl) h.tail (by simp) hends
  rw [append_nil] at hresumes
  obtain ⟨r, rfl, hbuilds⟩ := hresumes.block haround (by omega) hn
  exact hbuilds

lemma Block.Reads.nil : Block.nil.Reads st w := by
  intro d j rest os ends _ _ _ hrest
  simpa [Block.text, Block.outlines] using hrest

lemma Block.Reads.cons {s : Stmt} {b : Block} (hs : s.Reads st w) (hb : b.Reads st w) :
    (Block.cons s b).Reads st w := by
  intro d j rest os ends hfresh h hne hrest
  rw [Block.text_cons] at h
  obtain ⟨c, cs, hhead, hc⟩ := s.exists_head w d
  have hline : st.source.Shows j (room (w * d) ++ c :: (cs ++ '\n' :: (b.text w d ++ rest))) := by
    rw [hhead] at h
    exact h
  have hstmt := h.right
  have hsize := hstmt.end_le (by simp)
  have hpos : 0 < rest.length := length_pos_iff.mpr hne
  simp only [hhead, length_append, length_cons] at hsize
  have hlen : ((Block.cons s b).text w d).length =
      (room (w * d)).length + (s.text w d).length + 1 + (b.text w d).length := by
    simp only [Block.text, length_append, length_cons]
    omega
  rw [hlen, show j + ((((room (w * d)).length + (s.text w d).length + 1 +
    (b.text w d).length : Nat))) = j + (room (w * d)).length + (s.text w d).length + 1 +
    (b.text w d).length by omega] at hrest
  have hafter := hstmt.right.tail
  show Resumes st j ([s.outline] ++ (b.outlines ++ os)) ends
  refine Resumes.of_next hline (isLayout_eq_false hc) (by omega) ?_
    (hb d _ rest os ends (fresh_after hstmt.right rfl) hafter hne hrest)
  intro n hn
  exact hs d n _ _ (fresh_room hfresh h.left) hstmt (by omega)

lemma Tail.Reads.done : Tail.done.Reads st w := by
  intro d n m j start rest h hn hm
  have hlen := congrArg length (Tail.text_done w d [])
  rw [Tail.text_done] at h
  have hsize := h.end_le (by simp)
  simp only [length_append, show "end".toList.length = 3 from rfl] at hsize hlen
  rcases m with _ | m
  · omega
  refine ⟨j + (room (w * d)).length + 3, resumes_end h (by decide), ?_⟩
  rw [show (j + (Tail.done.text w d).length) = j + (room (w * d)).length + 3 by omega]
  exact builds_parts_end h.right.right

/-- What is read up to the end of its text leaves the position at the start of the next line. -/
lemma reads_of_builds {len : Nat} (h : (piece (inner n) j).Builds st os (.next e))
    (he : e = j + len) : ∃ e, j ≤ e ∧ st.source.Around (e + 1) (j + len + 1) ∧
      (piece (inner n) j).Builds st os (.next e) := by
  subst he
  exact ⟨_, by omega, Around.refl st.source _, h⟩

section

variable (hreads : body.Reads st w)

include hreads

lemma Tail.Reads.otherwise : (Tail.otherwise body).Reads st w := by
  intro d n m j start rest h hn hm
  have hlen := congrArg length (Tail.text_otherwise w d [] body)
  rw [Tail.text_otherwise] at h
  have hsize := h.end_le (by simp)
  simp only [length_append, length_cons,
    show "else".toList.length = 4 from rfl, show "end".toList.length = 3 from rfl] at hsize hlen
  rcases m with _ | m
  · omega
  have hnewline := h.right.right
  have hbody := hnewline.tail
  have hblock := hreads.builds (n := n) hnewline (closing_end _ _)
    (resumes_end hbody.right (by decide)) (around_newline hnewline) (by omega)
  refine ⟨j + (room (w * d)).length, resumes_else h (by decide), ?_⟩
  rw [show (j + ((Tail.otherwise body).text w d).length) = j + (room (w * d)).length + 4 + 1 +
    (body.text w (d + 1)).length + (room (w * d)).length + 3 by omega]
  exact builds_parts_else h.right hblock

lemma Tail.Reads.elif {tail : Tail} (htail : tail.Reads st w) :
    (Tail.elif cond body tail).Reads st w := by
  intro d n m j start rest h hn hm
  have hlen := congrArg length (Tail.text_elif w d [] cond body tail)
  rw [Tail.text_elif] at h
  have hsize := h.end_le (by simp)
  simp only [length_append, length_cons, show "elseif".toList.length = 6 from rfl] at hsize hlen
  rcases m with _ | m
  · omega
  have hnewline : st.source.Shows (j + (room (w * d)).length + 7 + (written cond.term).length)
      ('\n' :: (body.text w (d + 1) ++ (tail.text w d ++ '\n' :: rest))) := by
    have := h.right.right.tail.right
    rwa [show "elseif".toList.length = 6 from rfl, show j + ((room (w * d)).length) +
      (6 : Nat) + 1 = j + (room (w * d)).length + 7 by omega] at this
  have hbody := hnewline.tail
  obtain ⟨next, hends, hparts⟩ := htail d n m _ (j + (room (w * d)).length) rest hbody.right
    (by omega) (by omega)
  have hblock := hreads.builds (n := n) hnewline tail.closing hends
    (around_newline hnewline) (by omega)
  refine ⟨j + (room (w * d)).length, resumes_elseif h (by decide), ?_⟩
  rw [show (j + ((Tail.elif cond body tail).text w d).length) = j + (room (w * d)).length +
    7 + (written cond.term).length + 1 + (body.text w (d + 1)).length + (tail.text w d).length by
      omega]
  exact builds_parts_elif h.right hblock hparts

/-! ### Statements -/

lemma Stmt.Reads.branch {tail : Tail} (htail : tail.Reads st w) :
    (Stmt.branch cond body tail).Reads st w := by
  intro d n j rest _ h hn
  have hlen := congrArg length (Stmt.text_branch w d [] cond body tail)
  rw [Stmt.text_branch] at h
  have hsize := h.end_le (by simp)
  simp only [length_append, length_cons, show "if".toList.length = 2 from rfl] at hsize hlen
  have hnewline : st.source.Shows (j + 3 + (written cond.term).length)
      ('\n' :: (body.text w (d + 1) ++ (tail.text w d ++ '\n' :: rest))) := by
    have := h.right.tail.right
    rwa [show "if".toList.length = 2 from rfl, show j + (2 : Nat) + 1 = j + 3 by omega] at this
  have hbody := hnewline.tail
  have hk := h.nonneg
  obtain ⟨next, hends, hparts⟩ := htail d n st.source.steps _ j rest hbody.right (by omega)
    (by unfold steps; omega)
  have hblock := hreads.builds (n := n) hnewline tail.closing hends
    (around_newline hnewline) (by omega)
  have hstatement := builds_piece_statement (i := 2) rfl (by decide) rfl (by decide)
    (by decide) h (builds_if h hblock hparts)
  exact reads_of_builds hstatement (by omega)

lemma Stmt.Reads.whileLoop : (Stmt.whileLoop cond body).Reads st w := by
  intro d n j rest _ h hn
  have hlen := congrArg length (Stmt.text_whileLoop w d [] cond body)
  rw [Stmt.text_whileLoop] at h
  have hsize := h.end_le (by simp)
  simp only [length_append, length_cons,
    show "while".toList.length = 5 from rfl, show "end".toList.length = 3 from rfl] at hsize hlen
  have hnewline : st.source.Shows (j + 6 + (written cond.term).length)
      ('\n' :: (body.text w (d + 1) ++ (room (w * d) ++ ("end".toList ++ '\n' :: rest)))) := by
    have := h.right.tail.right
    rwa [show "while".toList.length = 5 from rfl, show j + (5 : Nat) + 1 = j + 6 by omega] at this
  have hbody := hnewline.tail
  have hclosing := closing_end (w * d) ('\n' :: rest)
  obtain ⟨start, hstart, hle, haround⟩ := (body.startsLine hclosing.startsLine).skipBlanks hbody
  have hblock := hreads.builds (n := n) hnewline hclosing
    (resumes_end hbody.right (by decide)) haround (by omega)
  have hstatement := builds_piece_statement (i := 5) rfl (by decide) rfl (by decide)
    (by decide) h (builds_while h hstart hblock)
  exact reads_of_builds hstatement (by omega)

lemma Stmt.Reads.forLoop {first last : Atom} : (Stmt.forLoop v first last body).Reads st w := by
  intro d n j rest _ h hn
  have hlen := congrArg length (Stmt.text_forLoop w d [] v first last body)
  rw [Stmt.text_forLoop] at h
  have hsize := h.end_le (by simp)
  simp only [length_append, length_cons,
    show "for".toList.length = 3 from rfl, show "end".toList.length = 3 from rfl] at hsize hlen
  have hnewline : st.source.Shows
      (j + 7 + v.name.chars.length + (written (range first last)).length)
      ('\n' :: (body.text w (d + 1) ++ (room (w * d) ++ ("end".toList ++ '\n' :: rest)))) := by
    have := h.right.tail.right.tail.tail.tail.right
    rwa [show "for".toList.length = 3 from rfl, show j + (3 : Nat) + 1 + v.name.chars.length
      + 1 + 1 + 1 = j + 7 + v.name.chars.length by omega] at this
  have hbody := hnewline.tail
  have hclosing := closing_end (w * d) ('\n' :: rest)
  obtain ⟨start, hstart, hle, haround⟩ := (body.startsLine hclosing.startsLine).skip hnewline
  have hblock := hreads.builds (n := n) hnewline hclosing
    (resumes_end hbody.right (by decide)) haround (by omega)
  have hstatement := builds_piece_statement (i := 1) rfl (by decide) rfl (by decide)
    (by decide) h (builds_for h hstart hblock)
  exact reads_of_builds hstatement (by omega)

end

lemma Stmt.Reads.expr (a : Atom) : (Stmt.expr a).Reads st w := by
  intro d n j rest hfresh h hn
  obtain ⟨c, cs, hhead, hc⟩ := a.exists_head
  have hread := h.read_first hhead
  have hplain := yields_plainStatement (a.layered tight) hfresh h
  rw [a.unread, Int.natCast_zero, Int.sub_zero] at hplain
  have hbuilds : (plainStatement j).Builds st [(Stmt.expr a).outline]
      (j + (written a.term).length - 1) := by
    refine ⟨_, hplain, ?_, ⟨rfl, .inr ⟨a.term.inner_tree tight j, trivial⟩⟩, trivial⟩
    simp [Syntax.outlines, Syntax.outline, a.term.outline_tree tight j, Stmt.outline, statementHead]
  refine ⟨_, ?_, ?_, builds_piece_word h.nonneg hread hc
    (builds_wordPiece_plain (a.noKeyword h (by decide)) hread (by simp [startsExpression, hc])
      hbuilds)⟩
  · rw [hhead, length_cons]
    omega
  · rw [Int.sub_add_cancel]
    exact around_newline h.right

lemma Stmt.Reads.assign (v : Ident) (a : Atom) : (Stmt.assign v a).Reads st w := by
  intro d n j rest _ h hn
  have hlen := congrArg length (Stmt.text_assign w d [] v a)
  rw [Stmt.text_assign] at h
  simp at hlen
  obtain ⟨c, cs, hchars, hc, -⟩ := v.name.exists_chars
  have halnum : isAlnum c = true := by simp [isAlnum, hc]
  have hread := h.read_first hchars
  have hplain := yields_assignment (a.layered tight) h
  have hbuilds : (plainStatement j).Builds st [(Stmt.assign v a).outline]
      (j + v.name.chars.length + 2 + (written a.term).length) := by
    refine ⟨_, hplain, ?_, ⟨rfl, .inr ⟨⟨rfl, .inl ⟨rfl, rfl⟩⟩, a.term.inner_tree tight _,
      trivial⟩⟩, trivial⟩
    simp [Syntax.outlines, Syntax.outline, a.term.outline_tree tight, Stmt.outline,
      assignHead, Term.head, Ident.outline, Term.outline]
  refine ⟨_, by omega, ?_, builds_piece_word h.nonneg hread halnum
    (builds_wordPiece_plain (v.noKeyword h (by decide)) hread (by simp [startsExpression, halnum])
      hbuilds)⟩
  have hnewline := h.right.tail.tail.tail.right
  rw [show j + v.name.chars.length + 2 + (written a.term).length + 1 =
    j + ((Stmt.assign v a).text w d).length by omega]
  rw [show j + v.name.chars.length + 1 + 1 + 1 + (written a.term).length =
    j + ((Stmt.assign v a).text w d).length by omega] at hnewline
  exact around_newline hnewline

mutual

lemma Stmt.reads (st : Setting) (w : Nat) : ∀ s : Stmt, s.Reads st w
  | .expr a => .expr a
  | .assign v a => .assign v a
  | .branch _ body tail => .branch (body.reads st w) (tail.reads st w)
  | .forLoop _ _ _ body => .forLoop (body.reads st w)
  | .whileLoop _ body => .whileLoop (body.reads st w)

lemma Block.reads (st : Setting) (w : Nat) : ∀ b : Block, b.Reads st w
  | .nil => .nil
  | .cons s b => .cons (s.reads st w) (b.reads st w)

lemma Tail.reads (st : Setting) (w : Nat) : ∀ t : Tail, t.Reads st w
  | .done => .done
  | .otherwise body => .otherwise (body.reads st w)
  | .elif _ body tail => .elif (body.reads st w) (tail.reads st w)

end

end Structured

end ArmaGen
