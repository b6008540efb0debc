import ArmaGen.Proofs.Project.Load

/-!
# How far programs are read

A file of functions is always read to its end. A script is what comes last, wherever its block ends:
at a keyword that ends a block nothing is read any more.
-/

namespace ArmaGen

/-- What a parser leaves behind, without its result. -/
def Parsed.done {α : Type} (parsed : Parsed α) : Parsed Unit :=
  ⟨parsed.made, parsed.notes, parsed.outcome.map fun _ => ()⟩

namespace Parse

variable {α β : Type} {st : Setting} {made : List Syntax} {a : α} {b : β} {n : Nat} {k : Int}

/-! ### Runs that succeed -/

variable {f : α → Parse β} {p : Parse α} {head : Head} {e : Int} {block : BlockParser}

lemma Yields.exists_of_bind (h : (p >>= f).Yields st made b) :
    ∃ a first rest, p.Yields st first a ∧ (f a).Yields st rest b ∧ made = first ++ rest := by
  obtain ⟨notes, h⟩ := h
  change andThen p f st = _ at h
  unfold andThen at h
  split at h
  · cases h
  · next first notes1 a hp =>
    simp only [Parsed.mk.injEq] at h
    exact ⟨a, first, (f a st).made, ⟨notes1, hp⟩, ⟨(f a st).notes, by rw [← h.2.2]⟩, h.1.symm⟩

lemma yields_lift_iff {x : Scan α} :
    (liftM x : Parse α).Yields st made a ↔ x = .ok a ∧ made = [] := by
  constructor
  · rintro ⟨notes, h⟩
    cases h
    exact ⟨rfl, rfl⟩
  · rintro ⟨rfl, rfl⟩
    exact yields_lift

lemma yields_pure_iff {c : α} : (pure c : Parse α).Yields st made a ↔ c = a ∧ made = [] := by
  constructor
  · rintro ⟨notes, h⟩
    cases h
    exact ⟨rfl, rfl⟩
  · rintro ⟨rfl, rfl⟩
    exact yields_pure

lemma not_yields_fail {failure : Failure} : ¬ (fail failure : Parse α).Yields st made a := by
  rintro ⟨notes, h⟩
  cases h

lemma Yields.exists_of_lift_bind {x : Scan α} (h : ((liftM x : Parse α) >>= f).Yields st made b) :
    ∃ a, x = .ok a ∧ (f a).Yields st made b := by
  obtain ⟨a, first, rest, hlift, hf, rfl⟩ := h.exists_of_bind
  obtain ⟨hx, hnil⟩ := yields_lift_iff.mp hlift
  rw [hnil]
  exact ⟨a, hx, hf⟩

lemma Yields.exists_of_wrap {close : List Syntax → α → Head × Except Failure β}
    (h : (Parse.wrap head p close).Yields st made b) :
    ∃ below a, p.Yields st below a ∧ made = [.node (close below a).1 below] ∧
      (close below a).2 = .ok b := by
  obtain ⟨notes, h⟩ := h
  unfold Parse.wrap at h
  split at h
  · cases h
  · next below notes1 a hp =>
    simp only [Parsed.mk.injEq] at h
    exact ⟨below, a, ⟨_, hp⟩, h.1.symm, h.2.2⟩

lemma Yields.exists_of_nodeThen {code : α → String}
    (h : (Parse.nodeThen head p code).Yields st made a) :
    ∃ below, p.Yields st below a ∧ made = [.node { head with code? := some (code a) } below] := by
  obtain ⟨below, a, hp, rfl, ha⟩ := Yields.exists_of_wrap h
  cases ha
  exact ⟨below, hp, rfl⟩

/-! ### Where blocks are left -/

/-- A keyword that ends a block stands where the block is left, or right before or after it. -/
def EndsBlockAt (s : Source) (e : Int) : Prop :=
  (∃ word ∈ endingKeywords, s.readsThen e word endsKeyword = .ok true) ∨
    s.readsThen (e - 3) "end" endsKeyword = .ok true ∨
    s.readsThen (e + 1) "function" (fun c => endsKeyword c || c == '[') = .ok true

lemma not_yields_next {p : Parse Int} :
    ¬ (p >>= fun stop => pure (Step.next stop)).Yields st made (.stop e) := by
  intro h
  obtain ⟨stop, first, rest, -, hstep, -⟩ := h.exists_of_bind
  cases (yields_pure_iff.mp hstep).1

lemma exists_of_yields_anyKeyword {words : List String}
    (h : (anyKeyword k words).Yields st made true) :
    ∃ word ∈ words, st.source.readsThen k word endsKeyword = .ok true := by
  induction words generalizing made with
  | nil => cases (yields_pure_iff.mp h).1
  | cons word words ih =>
    obtain ⟨found, first, rest, hword, hrest, -⟩ := h.exists_of_bind
    unfold keyword at hword
    rw [yields_source_bind] at hword
    cases found with
    | true => exact ⟨word, .head _, (yields_lift_iff.mp hword).1⟩
    | false =>
      obtain ⟨other, hother, hreads⟩ := ih hrest
      exact ⟨other, .tail _ hother, hreads⟩

lemma endsBlockAt_of_yields_wordPiece (h : (wordPiece block k).Yields st made (.stop e)) :
    EndsBlockAt st.source e := by
  unfold wordPiece at h
  rw [yields_source_bind] at h
  obtain ⟨ending, _, _, hending, h, -⟩ := h.exists_of_bind
  cases ending with
  | true =>
    obtain ⟨heq, -⟩ := yields_pure_iff.mp h
    cases heq
    exact .inl (exists_of_yields_anyKeyword hending)
  | false =>
    obtain ⟨closes, _, _, hcloses, h, -⟩ := Yields.exists_of_bind h
    unfold keyword at hcloses
    rw [yields_source_bind] at hcloses
    cases closes with
    | true =>
      obtain ⟨heq, -⟩ := yields_pure_iff.mp h
      cases heq
      refine .inr (.inl ?_)
      rw [Int.add_sub_cancel]
      exact (yields_lift_iff.mp hcloses).1
    | false =>
      obtain ⟨opens, hopens, h⟩ := Yields.exists_of_lift_bind h
      cases opens with
      | true =>
        obtain ⟨heq, -⟩ := yields_pure_iff.mp h
        cases heq
        refine .inr (.inr ?_)
        rw [Int.sub_add_cancel]
        exact hopens
      | false =>
        -- all other pieces are followed by what comes after them
        exfalso
        obtain ⟨stop?, _, _, -, h, -⟩ := Yields.exists_of_bind h
        cases stop? with
        | some stop => cases (yields_pure_iff.mp h).1
        | none =>
          obtain ⟨commanded, _, _, -, h, -⟩ := Yields.exists_of_bind h
          cases commanded with
          | true =>
            obtain ⟨stop?, _, _, -, h, -⟩ := Yields.exists_of_bind h
            cases stop? with
            | some stop => cases (yields_pure_iff.mp h).1
            | none => exact not_yields_fail h
          | false =>
            obtain ⟨c, -, h⟩ := Yields.exists_of_lift_bind h
            split at h
            · exact not_yields_next h
            · cases (yields_pure_iff.mp h).1

lemma of_yields_piece_stop (h : (piece block k).Yields st made (.stop e)) :
    st.source.size - e < 3 ∨ EndsBlockAt st.source e := by
  obtain ⟨c, -, h⟩ := h.exists_of_lift_bind
  split at h
  · cases (yields_pure_iff.mp h).1
  split at h
  · obtain ⟨heq, -⟩ := yields_pure_iff.mp h
    split at heq
    · cases heq
      exact .inl ‹_›
    · cases heq
  iterate 5
    split at h
    · exact absurd h not_yields_next
  exact .inr (endsBlockAt_of_yields_wordPiece h)

/-- Reading the pieces of a block goes on to the end of the text, or to a word that ends the
block. -/
lemma of_yields_pieces (h : (pieces n k).Yields st made e) :
    st.source.size - e < 3 ∨ EndsBlockAt st.source e := by
  induction n generalizing k made with
  | zero => exact absurd h not_yields_fail
  | succ n ih =>
    obtain ⟨step, _, _, hpiece, h, -⟩ := h.exists_of_bind
    cases step with
    | stop stop =>
      obtain ⟨rfl, -⟩ := yields_pure_iff.mp h
      exact of_yields_piece_stop hpiece
    | next cur =>
      simp only [yields_source_bind] at h
      split at h
      · obtain ⟨rfl, -⟩ := yields_pure_iff.mp h
        exact .inl ‹_›
      · exact ih h

lemma of_yields_script (h : (script k).Yields st made e) :
    (∃ head below, made = [.node head below] ∧ head.kind = .main) ∧
      (st.source.size - e < 3 ∨ EndsBlockAt st.source e) := by
  obtain ⟨_, noted, tree, ⟨notes, hnote⟩, hmain, rfl⟩ := h.exists_of_bind
  cases hnote
  obtain ⟨below, _, hparts, rfl, hlast⟩ := Yields.exists_of_wrap hmain
  cases hlast
  refine ⟨⟨_, below, rfl, rfl⟩, ?_⟩
  obtain ⟨_, _, _, -, hparts, -⟩ := hparts.exists_of_bind
  obtain ⟨_, _, _, -, hparts, -⟩ := hparts.exists_of_bind
  obtain ⟨_, _, _, -, hblock, -⟩ := hparts.exists_of_bind
  unfold block blockOf at hblock
  rw [yields_source_bind] at hblock
  obtain ⟨_, hblock, -⟩ := hblock.exists_of_nodeThen
  obtain ⟨_, _, _, -, hpieces, -⟩ := hblock.exists_of_bind
  exact of_yields_pieces hpieces

/-! ### Programs -/

/-- The functions of a program, read as `functions` reads them; gives the last position. -/
def functionsEnd : Nat → Int → Parse Int
  | 0, _ => fail .endless
  | n + 1, cur => do
    let s ← source
    let c ← s.read cur
    let more := fun (last : Int) =>
      if (s.size : Int) - last ≤ 2 then pure last else functionsEnd n (last + 1)
    if oneOf " \t;\n" c then more cur
    else if c == '%' then more (← s.commentEnd cur)
    else if s.reads cur "function" then more (← function cur)
    else script cur

lemma andThen_done {f : α → Parse Unit} {g : α → Parse β} (h : ∀ a, f a st = (g a st).done) :
    (p >>= f) st = ((p >>= g) st).done := by
  show andThen p f st = (andThen p g st).done
  unfold andThen
  split
  · rfl
  · rw [h]
    rfl

lemma andThen_pure_done : (p >>= fun _ => pure ()) st = (p st).done := by
  show andThen p (fun _ => pure ()) st = _
  unfold andThen
  split
  · next made notes failure hp => rw [hp]; rfl
  · next made notes a hp =>
    rw [hp]
    show Parsed.mk (made ++ []) (notes ++ []) _ = _
    rw [List.append_nil, List.append_nil]
    rfl

/-- `functions` reads what `functionsEnd` does, and forgets the last position. -/
lemma functions_eq_done (st : Setting) (n : Nat) (k : Int) :
    functions n k st = (functionsEnd n k st).done := by
  induction n generalizing k with
  | zero => rfl
  | succ n ih =>
    refine andThen_done fun s => andThen_done fun c => ?_
    have hmore : ∀ last : Int,
        (if (s.size : Int) - last ≤ 2 then pure () else functions n (last + 1)) st =
        ((if s.size - last ≤ 2 then pure last else functionsEnd n (last + 1) :
          Parse Int) st).done := by
      intro last
      split
      · rfl
      · exact ih (last + 1)
    split
    · exact hmore k
    split
    · exact andThen_done hmore
    split
    · exact andThen_done hmore
    · exact andThen_pure_done

lemma Yields.exists_functionsEnd (h : program.Yields st made ()) :
    ∃ last, (functionsEnd st.source.steps 0).Yields st made last := by
  obtain ⟨_, noted, rest, ⟨_, hnote⟩, hrest, rfl⟩ := h.exists_of_bind
  cases hnote
  rw [yields_source_bind] at hrest
  obtain ⟨notes, hrest⟩ := hrest
  rw [functions_eq_done] at hrest
  generalize hend : functionsEnd st.source.steps 0 st = parsed at hrest
  obtain ⟨made, notes, outcome⟩ := parsed
  cases outcome with
  | ok last =>
    cases hrest
    exact ⟨last, notes, hend⟩
  | error failure => cases hrest

/-- Where a program is left: at the end of its text, or at a word that ends a block of a script. -/
lemma of_yields_functionsEnd {last : Int} (h : (functionsEnd n k).Yields st made last) :
    (st.source.size : Int) - 3 ≤ last ∨
      (∃ head below, .node head below ∈ made ∧ head.kind = .main) ∧ EndsBlockAt st.source last := by
  induction n generalizing k made with
  | zero => exact absurd h not_yields_fail
  | succ n ih =>
    obtain ⟨c, -, h⟩ := h.exists_of_lift_bind
    have hmore : ∀ {made : List Syntax} e,
        (if (st.source.size : Int) - e ≤ 2 then pure e else functionsEnd n (e + 1) :
          Parse Int).Yields st made last →
        st.source.size - 3 ≤ last ∨
          (∃ head below, .node head below ∈ made ∧ head.kind = .main) ∧
            EndsBlockAt st.source last := by
      intro made e h
      split at h
      · obtain ⟨rfl, -⟩ := yields_pure_iff.mp h
        exact .inl (by omega)
      · exact ih h
    split at h
    · exact hmore k h
    split at h
    · obtain ⟨e, -, h⟩ := h.exists_of_lift_bind
      exact hmore e h
    split at h
    · obtain ⟨e, first, rest, -, hrest, rfl⟩ := h.exists_of_bind
      refine (hmore e hrest).imp id ?_
      rintro ⟨⟨head, below, hmem, hkind⟩, hends⟩
      exact ⟨⟨head, below, List.mem_append_right _ hmem, hkind⟩, hends⟩
    · obtain ⟨⟨head, below, rfl, hkind⟩, hends⟩ := of_yields_script h
      exact hends.imp (fun _ => by omega) fun hends =>
        ⟨⟨head, below, List.mem_singleton_self _, hkind⟩, hends⟩

end Parse

/-! ### Loading -/

namespace Edit

lemma exists_yields_of_build {α : Type} {parent : NodeId} {text : String} {parser : Parse α}
    {a : α} {p p' : Project} (h : build parent text parser p = .ok a p') :
    ∃ made, parser.Yields (p.options.setting text) made a := by
  obtain ⟨options, p1, hget, h⟩ := exists_of_bind_ok h
  cases hget
  obtain ⟨_, p2, -, h⟩ := exists_of_bind_ok h
  obtain ⟨_, p3, -, h⟩ := exists_of_bind_ok h
  generalize hparsed : parser _ = parsed at h
  obtain ⟨made, notes, outcome⟩ := parsed
  cases outcome with
  | ok b =>
    cases h
    exact ⟨made, notes, hparsed⟩
  | error failure => cases h

lemma exists_yields_of_load {name code : String} {p p' : Project}
    (h : load name code p = .ok () p') :
    ∃ made, Parse.program.Yields (loadSetting p code) made () := by
  obtain ⟨shown, hload⟩ := exists_load_eq name code p
  rw [hload] at h
  obtain ⟨funcs, p1, hmake, h⟩ := exists_of_bind_ok h
  obtain ⟨_, p2, hbuild, -⟩ := exists_of_bind_ok h
  obtain ⟨made, hyields⟩ := exists_yields_of_build hbuild
  rw [options_of_makeProgram hmake] at hyields
  exact ⟨made, hyields⟩

/-- A program that is loaded was read to its end, or it holds a script and a word that ends a block
stands where the script was left. -/
theorem load_reaches_end {name code : String} {p p' : Project} (h : load name code p = .ok () p') :
    ∃ made last, Parse.program.Yields (loadSetting p code) made () ∧
      (Parse.functionsEnd (loadSetting p code).source.steps 0).Yields (loadSetting p code)
        made last ∧
      (((loadSetting p code).source.size : Int) - 3 ≤ last ∨
        (∃ head below, .node head below ∈ made ∧ head.kind = .main) ∧
          Parse.EndsBlockAt (loadSetting p code).source last) := by
  obtain ⟨made, hmade⟩ := exists_yields_of_load h
  obtain ⟨last, hlast⟩ := hmade.exists_functionsEnd
  exact ⟨made, last, hmade, hlast, Parse.of_yields_functionsEnd hlast⟩

/-- Of a script with an end too many the rest is never read. -/
theorem load_reaches_end_sample : ∃ p', load "unamed" "a\nend\nb\n" {} = .ok () p' ∧
    ∃ made last, Parse.program.Yields (loadSetting {} "a\nend\nb\n") made () ∧
      (Parse.functionsEnd (loadSetting {} "a\nend\nb\n").source.steps 0).Yields
        (loadSetting {} "a\nend\nb\n") made last ∧
      (((loadSetting {} "a\nend\nb\n").source.size : Int) - 3 ≤ last ∨
        (∃ head below, .node head below ∈ made ∧ head.kind = .main) ∧
          Parse.EndsBlockAt (loadSetting {} "a\nend\nb\n").source last) := by
  have hloads : (load "unamed" "a\nend\nb\n").passes {} (fun _ _ => true) = true := by
    decide +kernel
  obtain ⟨⟨⟩, p', hrun, -⟩ := exists_of_passes hloads
  exact ⟨p', hrun, load_reaches_end hrun⟩

/-- A function that comes after a script is never read. -/
theorem functionsEnd_after_script : ∃ made last,
    (Parse.functionsEnd (loadSetting {} "a\nfunction f()\nend\n").source.steps 0).Yields
      (loadSetting {} "a\nfunction f()\nend\n") made last ∧
    last < ((loadSetting {} "a\nfunction f()\nend\n").source.size : Int) - 3 :=
  ⟨_, _, ⟨_, rfl⟩, by decide⟩

end Edit

end ArmaGen
