import ArmaGen.Project.Fragment
import ArmaGen.Proofs.Project.Install
import ArmaGen.Proofs.Syntax.Sound.Program

/-!
# Reading goes forward

Whatever part of the grammar is read at a position ends at or after it, but for blocks and scripts
at the keyword of a function. So each turn of a loop that reads one piece after the other goes on
behind the piece before it (`Edit.build_advances`). A sign that is told to an assignment must not
stand before it (`Edit.fragment_goes_back`).
-/

namespace ArmaGen

open Parse

namespace Parse

variable {s : Source} {cur : Int} (hs : s.Ended)

include hs

/-! ### The turns of loops

A loop that reads one thing after the other ends, or goes on at a later position. -/

section Turns

variable {st : Setting} (hst : st.source = s) {n : Nat} (hcur : 0 ≤ cur)

include hst hcur

lemma pieces_turn {stop : Int} (h : (pieces (n + 1) cur st).outcome = .ok stop) :
    (piece (blockOf (pieces n)) cur st).outcome = .ok (.stop stop) ∨
    ∃ last, cur < last + 1 ∧ (piece (blockOf (pieces n)) cur st).outcome = .ok (.next last) ∧
      (stop = last + 1 ∨ (pieces n (last + 1) st).outcome = .ok stop) := by
  obtain ⟨step, hstep, h⟩ := exists_of_outcome_bind h
  have hafter : Step.After s cur step := (sound_piece (fun start hstart =>
    (sound_blockOf (sound_pieces n hstart)).imp fun _ _ h => ⟨h.1, h.2.le⟩) hcur).gives hs hst hstep
  cases step with
  | stop last =>
    cases h
    exact .inl hstep
  | next last =>
    have hlast : cur ≤ last := hafter
    refine .inr ⟨last, by omega, hstep, ?_⟩
    obtain ⟨source, -, h⟩ := exists_of_outcome_bind h
    split at h
    · exact .inl (Except.ok.inj h).symm
    · exact .inr h

lemma functions_turn (h : (functions (n + 1) cur st).outcome = .ok ()) :
    (∃ stop, (script cur st).outcome = .ok stop) ∨
    ∃ last, cur < last + 1 ∧
      (s.holds (oneOf " \t;\n") cur = .ok true ∧ last = cur ∨ s.commentEnd cur = .ok last ∨
        (function cur st).outcome = .ok last) ∧
      ((s.size : Int) - last ≤ 2 ∨ (functions n (last + 1) st).outcome = .ok ()) := by
  rw [functions, outcome_source_bind hst] at h
  obtain ⟨c, hc, h⟩ := exists_of_outcome_bind h
  have hmore : ∀ last, ((if (s.size : Int) - last ≤ 2 then pure () else functions n (last + 1) :
      Parse Unit) st).outcome = .ok () →
      s.size - last ≤ 2 ∨ (functions n (last + 1) st).outcome = .ok () := by
    intro last h
    split at h
    · next hend => exact .inl hend
    · exact .inr h
  have hread : s.read cur = .ok c := hc
  split at h
  · next hblank =>
    refine .inr ⟨cur, by omega, .inl ⟨?_, rfl⟩, hmore cur h⟩
    rw [Source.holds, hread, Scan.ok_bind, hblank]
    rfl
  split at h
  · obtain ⟨last, hlast, h⟩ := exists_of_outcome_bind h
    have hle := Source.gives_commentEnd cur hlast
    exact .inr ⟨last, by omega, .inr (.inl hlast), hmore last h⟩
  split at h
  · obtain ⟨last, hlast, h⟩ := exists_of_outcome_bind h
    have hle := (sound_function hcur).gives hs hst hlast
    exact .inr ⟨last, by omega, .inr (.inr hlast), hmore last h⟩
  · obtain ⟨stop, hstop, -⟩ := exists_of_outcome_bind h
    exact .inl ⟨stop, hstop⟩

lemma cases_turn {stop : Int} (h : (cases block (n + 1) cur st).outcome = .ok stop) :
    s.readsThen cur "case" (oneOf " \t(") = .ok false ∧ stop = cur ∨
    ∃ next, cur < next ∧ (cases block n next st).outcome = .ok stop := by
  rw [cases, outcome_source_bind hst] at h
  obtain ⟨found, hfound, h⟩ := exists_of_outcome_bind h
  split at h
  · obtain ⟨start, hstart, h⟩ := exists_of_outcome_bind h
    obtain ⟨last, hlast, h⟩ := exists_of_outcome_bind h
    obtain ⟨-, -, h⟩ := exists_of_outcome_bind h
    obtain ⟨next, hnext, h⟩ := exists_of_outcome_bind h
    have hlast := (Source.gives_expressionEnd _ hlast).1
    exact .inr ⟨next, (sound_caseBranch sound_block_le hcur hstart hlast).gives hs hst hnext, h⟩
  · next hnot =>
    rw [Bool.not_eq_true] at hnot
    subst hnot
    exact .inl ⟨hfound, (Except.ok.inj h).symm⟩

lemma elifs_turn {start : Int} {ends : Int × Int}
    (h : (elifs block (n + 1) start cur st).outcome = .ok ends) :
    (keyword "elseif" cur st).outcome = .ok false ∧ ends = (start, cur) ∨
    ∃ next, cur < next ∧ (elifs block n cur next st).outcome = .ok ends := by
  rw [elifs, outcome_source_bind hst] at h
  obtain ⟨found, hfound, h⟩ := exists_of_outcome_bind h
  split at h
  · obtain ⟨first, hfirst, h⟩ := exists_of_outcome_bind h
    obtain ⟨last, hlast, h⟩ := exists_of_outcome_bind h
    obtain ⟨-, -, h⟩ := exists_of_outcome_bind h
    obtain ⟨next, hnext, h⟩ := exists_of_outcome_bind h
    have hle := Source.gives_skipBlanks _ hfirst
    have hlast := (Source.gives_expressionEnd _ hlast).1
    exact .inr ⟨next, ((sound_conditioned sound_block_le hcur
      (show Kind.elif.promise = .guarded from rfl)
      (fun hlacks => ⟨first, hfirst, hlacks⟩) Int.le_rfl (by omega) (by omega)
      hlast).gives hs hst hnext).2, h⟩
  · next hnot =>
    rw [Bool.not_eq_true] at hnot
    subst hnot
    exact .inl ⟨hfound, (Except.ok.inj h).symm⟩

end Turns

end Parse

/-! ### Parts of the grammar -/

/-- Each part of the grammar ends at or after its start; only a block and a script may end just
before it, at the keyword of a function. -/
lemma Part.gives_parse {s : Source} (hs : s.Ended) {cur : Int} (hcur : 0 ≤ cur) (part : Part)
    (kind : Kind) {arg? : Option Int} (harg : ∀ stop ∈ arg?, cur ≤ stop) :
    (part.parse kind cur arg?).Gives s fun _ stop? => ∀ stop ∈ stop?,
      cur ≤ stop ∨ (part = .block ∨ part = .script) ∧ stop = cur - 1 ∧
        s.reads cur "function" = true := by
  suffices hgives : ∀ R : Int → Prop, (∀ stop, cur ≤ stop → R stop) →
      (part = .block ∨ part = .script → ∀ stop, EndsFrom s cur stop → R stop) →
      (part.parse kind cur arg?).Gives s fun _ stop? => ∀ stop ∈ stop?, R stop from
    hgives _ (fun _ => .inl) fun hpart _ h => h.imp_right fun h => ⟨hpart, h⟩
  intro R hahead hends
  have hresult : ∀ {p : Parse Int}, (p.Gives s fun _ stop => R stop) →
      (do return some (← p)).Gives s fun _ stop? => ∀ stop ∈ stop?, R stop :=
    fun hp => hp.bind fun _ _ h => .pure (by rintro _ ⟨⟩; exact h)
  -- a sound parser, and one of which more is known
  have hsound : ∀ {p : Parse Int} {m : Parse.Mode}, p.Forward s m cur →
      p.Gives s fun _ stop => R stop :=
    fun hp => (hp.gives hs).mono fun _ stop h => hahead stop h
  have hmade : ∀ {p : Parse Int} {P : List Syntax → Prop},
      p.Sound s .free cur (fun made stop => P made ∧ cur ≤ stop) →
      p.Gives s fun _ stop => R stop :=
    fun hp => hsound (hp.imp fun _ _ h => h.2)
  have hplain : ∀ {p : Parse Int}, (p.Gives s fun _ stop => R stop) →
      (do if arg?.isSome then fail .wrongSort else return some (← p) :
        Parse (Option Int)).Gives s fun _ stop? => ∀ stop ∈ stop?, R stop :=
    fun hp => .either (.fail _) <| hresult hp
  have hsigned : ∀ {part : Part} {parser : Int → Parse Int},
      part.parse kind cur none = fail .wrongSort →
      (∀ eq, part.parse kind cur (some eq) = do return some (← parser eq)) →
      (∀ eq, cur ≤ eq → (parser eq).Gives s fun _ stop => R stop) →
      (part.parse kind cur arg?).Gives s fun _ stop? => ∀ stop ∈ stop?, R stop := by
    intro part parser hnone hsome hparser
    cases arg? with
    | none =>
      rw [hnone]
      exact .fail _
    | some eq =>
      rw [hsome]
      exact hresult (hparser eq (harg eq rfl))
  have hblock := sound_block_le (s := s)
  have hexpression := orderly_expression (s := s)
  cases part with
  | block =>
    exact hplain (((sound_block hcur).gives hs).mono fun _ stop h => hends (.inl rfl) stop h.2)
  | script =>
    exact hplain (((sound_script hcur Int.le_rfl).gives hs).mono fun _ => hends (.inr rfl))
  | function => exact hplain (hsound (sound_function hcur))
  | lambdaAssignment =>
    exact hsigned rfl (fun _ => rfl) fun _ h => hmade (sound_lambdaAssignment h)
  | lambdaFunction => exact hplain (hmade (sound_lambdaFunction _ cur))
  | assignments =>
    exact hsigned rfl (fun _ => rfl) fun _ h => (gives_assignments hs h).mono fun _ => hahead
  | assignment =>
    exact hsigned rfl (fun _ => rfl) fun _ h => hmade (sound_assignment Int.le_rfl h)
  | parfor => exact hplain (hsound (sound_parforStatement hblock hcur))
  | forLoop => exact hplain (hsound (sound_forStatement hblock hcur))
  | branch => exact hplain (hsound (sound_ifStatement hblock hcur))
  | whileLoop => exact hplain (hsound (sound_whileStatement hblock hcur))
  | switch => exact hplain (hsound (sound_switchStatement hblock hcur))
  | tryBlock => exact hplain (hsound (sound_tryStatement hblock hcur))
  | cell => exact hplain (hmade (sound_cellLiteral hexpression cur))
  | pragma => exact hplain (hsound (sound_pragma cur))
  | comment => exact hplain (hsound (sound_comment hcur))
  | verbatim => exact hplain (hsound (m := .free) (sound_verbatim hcur))
  | string => exact hplain (hmade (sound_stringLiteral cur))
  | list => exact hplain (hsound (m := .free) (sound_argumentList hexpression cur))
  | matrix => exact hplain (hmade (sound_matrixLiteral hexpression cur))
  | number => exact hplain (hmade ((sound_number cur).imp fun _ _ h => ⟨h.1, h.2 hcur⟩))
  | command =>
    exact .either (.fail _) <| ((sound_command (m := .free) cur).gives hs).mono
      fun _ _ h stop hstop => hahead stop (h stop hstop)
  | reference => exact hplain (hmade (sound_reference hexpression cur))
  | target => exact hresult (hmade (sound_target hexpression cur))
  | cellMember => exact hplain (hsound (m := .free) (sound_cellMember hexpression cur))
  | expression =>
    refine hresult ?_
    cases arg? with
    | none => exact (hexpression.ahead cur none).mono fun _ => hahead
    | some stop => exact hmade (sound_expression_within none hcur (harg stop rfl))

namespace Edit

lemma outcome_of_build {α : Type} {p q : Project} {parent : NodeId} {text : String}
    {parser : Parse α} {a : α} (h : build parent text parser p = .ok a q) :
    ∃ st : Setting, st.source = .ofString text ∧ (parser st).outcome = .ok a := by
  obtain ⟨st, hst, hrun⟩ : ∃ st : Setting, st.source = .ofString text ∧
      (do
        displayAll (parser st).notes
        install parent (parser st).made
        ((parser st).outcome)) p = .ok a q :=
    ⟨{ source := .ofString text, comments := p.options.comments, disp := p.options.disp }, rfl, h⟩
  refine ⟨st, hst, ?_⟩
  obtain ⟨-, p1, -, hrun⟩ := exists_of_bind_ok hrun
  obtain ⟨-, p2, -, hrun⟩ := exists_of_bind_ok hrun
  cases houtcome : (parser st).outcome with
  | error failure =>
    rw [houtcome] at hrun
    cases hrun
  | ok b =>
    rw [houtcome] at hrun
    cases hrun
    rfl

end Edit

end ArmaGen
