import ArmaGen.Proofs.Syntax.Sound.Expression

/-!
# Statements, functions and programs

Statements, blocks, functions and programs are read soundly, and forward, but for a block that meets
the keyword of the next function where it starts, which it leaves to be read again
(`Parse.sound_program`).
-/

namespace ArmaGen.Parse

open List

open Syntax Source

variable {α β : Type} {s : Source} {m : Mode} {k cur : Int} {p : Parse α}

/-! ### Assignments -/

variable {spans : List (Int × Int)} {made rest items : List Syntax} {eq stop start : Int}

lemma sound_targets (hspans : ∀ span ∈ spans, k ≤ span.1) :
    Sound s m k (targets spans) fun made _ => (∀ kind ∈ kinds made, kind.isName = true) ∧
      ((kinds made).length = spans.length ∨ ∃ span ∈ spans, ∃ d, s.Fieldless span.1 d) := by
  induction spans with
  | nil => exact .pure ⟨by simp [kinds], .inl rfl⟩
  | cons span spans ih =>
    obtain ⟨hspan, hspans⟩ := forall_mem_cons.1 hspans
    exact ((sound_target orderly_expression span.1).mono hspan fun _ _ h => h.1).bind
      fun made _ h => (ih hspans).imp fun rest _ hrest => kinds_append_cases h hrest

lemma grants_assign {L L' : Prop} (cur? : Option Int) (h : Aimed L made) (hrest : Operand L' rest)
    (htwo : 2 ≤ (nodes (made ++ rest)).length) : s.Grants .assign cur? (kinds (made ++ rest)) := by
  rw [length_nodes, kinds_append] at htwo
  rw [kinds_append]
  refine .inl ?_
  rcases h with ⟨kind, hmade, hkind⟩ | ⟨hmade, -⟩ <;>
    rcases hrest with ⟨kind', hrest, hkind'⟩ | ⟨rfl, -⟩ <;> rw [hmade] at htwo ⊢
  · rw [hrest]
    show (kind.isName && kind'.isExpression) = true
    rw [hkind, hkind']
    rfl
  · exact absurd htwo (by simp [kinds])
  · rw [hrest] at htwo
    exact absurd htwo (by simp)
  · exact absurd htwo (by simp [kinds])

lemma sound_assignment (hk : k ≤ cur) (heq : k ≤ eq) :
    Makes s m k (assignment cur eq) [.assign] (k ≤ ·) := by
  refine .source (.need <| .need <| .skip fun _ h => .lift (gives_expressionEnd _)
    fun stop hstop => .progress ?_)
  refine .wrap rfl hk (P := fun made _ => ∃ first rest L L', made = first ++ rest ∧ Aimed L first ∧
    Operand L' rest) ?_ (.inl rfl) (fun made k => ?_) fun made k b h hb => ?_
  · refine (sound_target orderly_expression cur).bind fun first last hfirst => .skip fun j hj =>
      .look fun _ => ?_
    extract_lets finish
    have hfinish : ∀ j, cur ≤ j → Sound s .free cur (finish j) fun rest _ => ∃ first' rest' L L',
        first ++ rest = first' ++ rest' ∧ Aimed L first' ∧ Operand L' rest' := fun j hj =>
      .need <| .skip fun _ h => .then ((orderly_expression.from (by omega) _ _).imp
        fun rest _ hrest => ⟨first, rest, _, _, rfl, hfirst.1, hrest⟩)
    exact .either (.skip fun _ h => hfinish _ (by omega)) <| hfinish _ (by omega)
  · cases lastName made with
    | error failure => exact ⟨rfl, rfl⟩
    | ok name => dsimp only; split <;> exact ⟨rfl, rfl⟩
  · obtain ⟨first, rest, L, L', rfl, hfirst, hrest⟩ := h
    cases hname : lastName (first ++ rest) with
    | error failure => simp [hname] at hb
    | ok name =>
      simp only [hname] at hb
      split at hb
      · next hlength =>
        cases hb
        exact ⟨grants_assign _ hfirst hrest (Nat.le_of_eq hlength.symm), by omega⟩
      · exact (gives_expected (P := fun _ => False) k _ hb).elim

lemma sound_skipContinued (n : Nat) (start : Int) :
    Sound s m k (skipContinued n start) fun made _ => made = [] := by
  induction n generalizing start with
  | zero => exact .fail _
  | succ n ih =>
    exact .source (.look fun _ => .either (.look fun _ => ih _) <| .either (ih _) <| .pure rfl)

lemma nodes_eq_nil (h : kinds items = []) : nodes items = [] := by
  refine eq_nil_of_length_eq_zero ?_
  rw [length_nodes, h]
  rfl

lemma grants_assigns {count : Nat} {L : Prop} (hkinds : ∀ kind ∈ kinds made, kind.isName = true)
    (hrest : Operand L rest) (hsome : kinds (made ++ rest) ≠ []) (hgap : L → s.LacksTargets cur)
    (hcount : (kinds made).length = count ∨ s.LacksTargets cur)
    (htwo : 2 ≤ count ∨ s.LacksTargets cur) :
    s.Grants .assigns (some cur) (kinds (made ++ rest)) := by
  have hnames : (kinds made).all Kind.isName = true := all_eq_true.2 hkinds
  rw [kinds_append] at hsome ⊢
  rcases hrest with ⟨kind, hrest, hkind⟩ | ⟨rfl, hlacks⟩
  · have hlax : Promise.holds true .assigns (kinds made ++ [kind]) = true := by
      simp [Promise.holds, hnames, hkind]
    rw [hrest]
    rcases hcount with hcount | hgap
    · rcases htwo with htwo | hgap
      · refine .inl ?_
        show Promise.holds false .assigns (kinds made ++ [kind]) = true
        simp [Promise.holds, hnames, hkind, hcount, htwo]
      · exact .inr ⟨hlax, cur, rfl, hgap⟩
    · exact .inr ⟨hlax, cur, rfl, hgap⟩
  · refine .inr ⟨?_, cur, rfl, hgap hlacks⟩
    have hnil : kinds [] = [] := rfl
    rw [hnil, append_nil] at hsome ⊢
    have hdrop : (kinds made).dropLast.all Kind.isName = true :=
      all_eq_true.2 fun kind hkind => hkinds kind (dropLast_subset _ hkind)
    obtain ⟨last, hlast⟩ := getLast?_isSome.2 hsome |> Option.isSome_iff_exists.1
    have hname := hkinds last (mem_of_getLast? hlast)
    show Promise.holds true .assigns (kinds made) = true
    simp [Promise.holds, hdrop, hlast, hname]

lemma gives_assignments (hs : s.Ended) (heq : cur ≤ eq) :
    Gives s (assignments cur eq) fun _ stop => cur ≤ stop := by
  refine .source (.lift (Scan.gives_any _) fun _ _ => .orExpected <| .lift (Scan.gives_any _)
    fun _ _ => .orExpected <| (gives_any _).bind fun _ _ _ => .lift (Scan.gives_any _) fun stop _ =>
    (gives_any _).bind fun _ _ _ => .lift (gives_items cur) fun rows hrows => ?_)
  split
  · next start last _ =>
    have hstart : cur ≤ start := hrows.flatten (start, last) (by simp)
    exact ((sound_assignment (m := .free) hstart heq).gives hs).mono fun _ _ h => h.2
  · refine Gives.wrap (P := fun _ stop => cur ≤ stop) ?_ fun made last b hlast hb => ?_
    · exact (gives_any _).bind fun _ _ _ => .lift (gives_skipBlanks _) fun j hj =>
        (orderly_expression.ahead j none).mono fun _ _ h => by omega
    · cases hname : lastName made with
      | error failure => simp [hname] at hb
      | ok name =>
        simp only [hname] at hb
        exact Except.ok.inj hb ▸ hlast

lemma sound_assignments (hstop : s.matrixEnd cur = .ok stop)
    (heq : s.skipBlanks (stop + 1) = .ok eq) :
    Forward s m cur (assignments cur eq) := by
  have hle : cur ≤ eq := by
    have h := gives_close _ _ hstop
    have h' := gives_skip _ heq
    omega
  refine .of_ended fun hs => (Sound.with (P := fun _ _ => True) ?_ (gives_assignments hs hle)).right
  refine .source (.need <| .need <| (sound_skipContinued ..).bind_nil fun _ => .look fun stop =>
    .progress (.scan fun rows hrows => ?_))
  have hlisted := (gives_items cur hrows).flatten
  have hgap : ∀ lacks : Prop, (lacks → rows.flatten.length < 2 ∨
      (∃ span ∈ rows.flatten, ∃ d, s.Fieldless span.1 d) ∨
      ∃ j, s.skipBlanks (eq + 1) = .ok j ∧ s.Lacks j) → lacks → s.LacksTargets cur :=
    fun _ hlacks h => ⟨rows, _, eq, hrows, hstop, heq, hlacks h⟩
  split
  · next start last _ =>
    have hstart : cur ≤ start := hlisted (start, last) (by simp)
    exact (sound_assignment hstart hle).imp fun _ _ _ => trivial
  · refine (Sound.wrap rfl Int.le_rfl
      (P := fun made _ => kinds made ≠ [] → s.Grants .assigns (some cur) (kinds made)) ?_ (.inl rfl)
        (fun made k => ?_)
      fun made k b h hb => ⟨?_, trivial⟩).imp fun _ _ _ => trivial
    · refine (sound_targets hlisted).bind fun made _ h => .scan fun j hj => ?_
      have hj' := gives_skip _ hj
      refine (orderly_expression.from (by omega) _ _).imp fun rest _ hrest hsome => ?_
      obtain ⟨hkinds, hcount⟩ := h
      refine grants_assigns hkinds hrest hsome (hgap _ fun hlacks => .inr (.inr ⟨j, hj, hlacks⟩))
        (hcount.imp_right (hgap _ fun hspans => .inr (.inl hspans))) ?_
      exact (Nat.lt_or_ge rows.flatten.length 2).symm.imp_right (hgap _ fun hlt => .inl hlt)
    · cases lastName made <;> exact ⟨rfl, rfl⟩
    · cases hname : lastName made with
      | error failure => simp [hname] at hb
      | ok name =>
        refine h fun hkinds => ?_
        rw [lastName, nodes_eq_nil hkinds] at hname
        cases hname

/-! ### Anonymous functions -/

/-- The value of an anonymous function is assigned to its result; its sign anchors the value. -/
lemma sound_lambdaBody (hcur : s.read cur = .ok '@') (hstop : cur ≤ stop) :
    Makes s m cur (lambdaBody cur stop) Kind.funcParts (cur ≤ ·) := by
  have hanchor : s.Anchor cur := ⟨'@', hcur, rfl, by decide, by decide, fun h => by cases h⟩
  have hvalue : ∀ m start, cur ≤ start → Makes s m cur (wrap { kind := .assign } (do
      leaf { kind := .var, name := "_retval" }
      expression start (some stop) none) fun items last => ({ kind := .assign },
        if (nodes items).length < 2 then .error (.childRange "Assign" 1) else .ok last))
      [.assign] (cur ≤ ·) := by
    intro m start hstart
    refine .wrap rfl Int.le_rfl (P := fun made last => (∃ first rest L L',
      made = first ++ rest ∧ Aimed L first ∧ Operand L' rest) ∧ cur ≤ last) ?_ (.inl rfl)
      (fun _ _ => ⟨rfl, rfl⟩) fun made last b h hb => ?_
    · refine (sound_leaf rfl Int.le_rfl).bind fun first _ hfirst =>
        ((orderly_expression.from hstart _ _).with
          (orderly_expression.settled none (hanchor.retreats hstart) hstop)).imp fun rest _
            hrest => ?_
      exact ⟨⟨first, rest, False, _, rfl, aimed_of_kinds hfirst.1 rfl, hrest.1⟩, hrest.2⟩
    · obtain ⟨⟨first, rest, L, L', rfl, hfirst, hrest⟩, hlast⟩ := h
      split at hb
      · cases hb
      · next htwo =>
        exact ⟨grants_assign _ hfirst hrest (Nat.le_of_not_lt htwo), Except.ok.inj hb ▸ hlast⟩
  refine .source ((sound_leaf rfl Int.le_rfl).also fun _ _ =>
    (sound_leaf rfl Int.le_rfl).also fun _ _ => (Sound.simple (R := (cur ≤ ·)) rfl
    Int.le_rfl ?_).also fun last hlast => .skip fun start hstart => .simple rfl
    Int.le_rfl ((hvalue _ start (by omega)).right))
  exact .skip fun _ h => .need <| (sound_argumentList orderly_expression _).mono
    (show cur ≤ _ by omega) fun _ _ h' => by omega

lemma parts_lambdaBody (k stop : Int) : (lambdaBody k stop).Parts Kind.funcParts := by
  exact parts_source.bind fun _ => (parts_leaf _).bind fun _ => (parts_leaf _).bind fun _ =>
    (parts_node ..).bind fun _ => (parts_lift _).bind fun _ => parts_node ..

lemma nameResult_cases (items : List Syntax) :
    kinds (nameResult items) = kinds items ∧ (FreeAll items → FreeAll (nameResult items)) ∧
      (PlacedAll k items → PlacedAll k (nameResult items)) ∧
      (ShapedAll s items → ShapedAll s (nameResult items)) := by
  induction items with
  | nil => exact ⟨rfl, id, id, id⟩
  | cons item items ih =>
    obtain ⟨hkinds, hfree, hplaced, hshaped⟩ := ih
    cases item with
    | declare =>
      exact ⟨hkinds, fun h => ⟨trivial, hfree h.2⟩, fun h => ⟨trivial, hplaced h.2⟩,
        fun h => ⟨trivial, hshaped h.2⟩⟩
    | node head below =>
      rw [nameResult]
      split
      · next hkind =>
        have hkind : head.kind = .returns := by simpa using hkind
        refine ⟨rfl, fun h => ⟨⟨.inl (by rw [hkind]; rfl), freeAll_append.2 ⟨h.1.2,
          ⟨.inl rfl, trivial⟩, trivial⟩⟩, h.2⟩, fun h => ⟨⟨h.1.1, placedAll_append.2 ⟨h.1.2,
          ⟨Int.le_rfl, trivial⟩, trivial⟩⟩, h.2⟩, fun h => ⟨⟨?_, shapedAll_append.2 ⟨h.1.2,
          ⟨grants_any rfl _ _, trivial⟩, trivial⟩⟩, h.2⟩⟩
        rw [hkind]
        exact grants_any rfl _ _
      · exact ⟨congrArg (head.kind :: ·) hkinds, fun h => ⟨h.1, hfree h.2⟩,
          fun h => ⟨h.1, hplaced h.2⟩, fun h => ⟨h.1, hshaped h.2⟩⟩

lemma sound_lambdaFunction (base : Except Failure String) (cur : Int) :
    Sound s m cur (lambdaFunction base cur) fun made stop =>
      (kinds made = [.lambda] ∧ ∃ name, base = .ok name) ∧ cur ≤ stop := by
  refine .source (.scan fun c hc => .ite (fun _ => .expected ..) fun hat => .skip fun _ h =>
    .need <| .lift (gives_close ..) fun _ h => .skip fun _ h =>
    .lift (gives_expressionEnd _) fun stop hstop => .progress (.scan fun name hname => ?_))
  obtain rfl : c = '@' := by simpa using hat
  have hparts := fun st => (@parts_lambdaBody cur stop st).1
  refine sound_attempt_bind (sound_lambdaBody hc (by omega))
    (fun st failure hfree => ?_) fun st last _ _ hfree hplaced hshaped h => ?_
  · exact sound_emit_fail ⟨⟨.inr ⟨.inl rfl, hparts st⟩, hfree⟩, trivial⟩
  · obtain ⟨hkinds, hfree', hplaced', hshaped'⟩ :=
      nameResult_cases (lambdaBody cur stop st).made
    refine .then ((sound_emit ?_ ?_ ?_).imp ?_)
    · exact ⟨⟨.inr ⟨.inr rfl, hkinds ▸ hparts st⟩, hfree' hfree⟩, trivial⟩
    · exact ⟨⟨Int.le_rfl, hplaced' hplaced⟩, trivial⟩
    · refine ⟨⟨.inl ?_, hshaped' hshaped⟩, trivial⟩
      rw [hkinds, h.1]
      rfl
    · rintro _ - rfl
      exact ⟨⟨rfl, name, hname⟩, h.2⟩

lemma sound_lambdaAssignment (heq : cur ≤ eq) :
    Makes s m cur (lambdaAssignment cur eq) [.assign] (cur ≤ ·) := by
  refine .source (.need <| .need <| .note (.nodeThen rfl Int.le_rfl (sound_attempt_bind
    (sound_target orderly_expression cur) (fun _ _ hfree => sound_emit_fail hfree)
    fun st _ _ _ hfree hplaced hshaped h => (sound_emit hfree hplaced hshaped).bind ?_)))
  rintro _ - rfl
  refine .skip fun _ hj => (sound_lambdaFunction ..).mono (show cur ≤ _ by omega)
    fun rest _ hrest => ⟨.inl ?_, by omega⟩
  obtain ⟨⟨hlambda, name, hname⟩, -⟩ := hrest
  rw [kinds_append, hlambda]
  rcases h.1 with ⟨kind, hkinds, hkind⟩ | ⟨hkinds, -⟩
  · rw [hkinds]
    show (kind.isName && true) = true
    rw [hkind]
    rfl
  · rw [firstName, nodes_eq_nil hkinds] at hname
    cases hname

/-! ### Statements without blocks -/

lemma sound_statement (early : Bool) (hcur : 0 ≤ cur) :
    Makes s m cur (statement early cur) [.statement] (cur ≤ ·) := by
  refine .source ((Sound.elseLeaving ?_ (gives_expressionEnd cur)).bind_of_nil
    fun _ hstop => .progress (.node rfl Int.le_rfl
    ((sound_expression_within none hcur hstop.1).imp fun _ _ h => ⟨grants_operand rfl h.1, h.2⟩)))
  cases early
  · trivial
  · exact ⟨⟨.inl rfl, trivial⟩, trivial⟩

lemma sound_bracketStatement (hcur : 0 ≤ cur) : Forward s m cur (bracketStatement cur) :=
  .source (.scan fun _ hstop => .scan fun _ heq => .test
    (.test (sound_assignments hstop heq) <| (sound_statement true hcur).right) <|
    (sound_statement true hcur).right)

lemma sound_stringStatement (cur : Int) :
    Makes s m cur (stringStatement cur) [.statement] (cur ≤ ·) :=
  .source (.look fun _ => .progress (.node rfl Int.le_rfl
    ((sound_stringLiteral cur).imp fun _ _ h => ⟨.inl (by rw [h.1]; rfl), h.2⟩)))

lemma sound_plainStatement (hcur : 0 ≤ cur) : Forward s m cur (plainStatement cur) :=
  .source (.lift (gives_expressionEnd cur) fun _ h => .skip fun _ h' => .test
    (.look fun _ => .test ((sound_lambdaAssignment (by omega)).right) <|
      (sound_assignment Int.le_rfl (by omega)).right) <|
    (sound_statement false hcur).right)

lemma sound_verbatim (hcur : 0 ≤ cur) : Forward s m cur (verbatim cur) := by
  refine .of_ended fun hs => .source (.lift (gives_verbatimEnd hs hcur) fun _ h =>
    .progress ?_)
  extract_lets code
  cases splitText "___" code with
  | nil => exact .fail _
  | cons _ rest =>
    cases rest with
    | nil => exact .fail _
    | cons name values =>
      exact .then ((sound_leaf rfl Int.le_rfl).imp fun _ _ _ => h)

lemma sound_commandArgument (positioned : Bool) (hle : k ≤ start) (words : List String) :
    Forward s m k (commandArgument positioned start words) := by
  induction words with
  | nil => exact .pure hle
  | cons word words ih =>
    refine .source (.either (.then ((sound_leaf rfl ?_).imp fun _ _ _ => by omega)) ih)
    cases positioned with
    | true => exact hle
    | false => exact Int.le_rfl

lemma sound_commandCall (word : String) (start : Int) :
    Makes s m start (commandCall word start) [.statement] (start ≤ ·) :=
  .source (.node rfl Int.le_rfl (.skip fun _ h => .test
    ((orderly_expression.onward Int.le_rfl none).imp
      fun _ _ h => ⟨grants_operand rfl h.1, h.2⟩) <|
    (Sound.simple rfl Int.le_rfl (sound_commandArgument _ (show start ≤ _ by omega) _)).imp
      fun _ _ h => ⟨.inl (by rw [h.1]; rfl), h.2⟩))

lemma sound_command (start : Int) :
    Sound s m start (command start) fun _ stop? => ∀ stop ∈ stop?, start ≤ stop := by
  have hcall : ∀ word, Sound s m start (some <$> commandCall word start)
      fun _ stop? => ∀ stop ∈ stop?, start ≤ stop := fun word =>
    .then ((sound_commandCall word start).imp fun _ _ h => by rintro _ ⟨⟩; exact h.2)
  exact .source (.either (hcall _) <| .either (hcall _) <| .pure (by simp))

/-! ### Asides -/

lemma sound_aside {p : Parse Int} (head : Head) (keeps : Setting → Bool)
    (hkind : head.kind.isAside = true) (hcur : head.cur? = some cur)
    (hkeeps : ∀ {st st'}, Setting.Lighter s st st' → keeps st' = true → keeps st = true)
    (hdrops : ∀ st st', st.drops st' head.kind = (keeps st && !keeps st')) (hstop : cur ≤ stop)
    (hrun : ∀ st : Setting, st.source = s → (p st).outcome = .ok stop ∧
      (p st).made = if keeps st then [.leaf head] else []) :
    Forward s .opened cur p := by
  intro st st' hst
  obtain ⟨houtcome, hmade⟩ := hrun st hst.source
  obtain ⟨houtcome', hmade'⟩ := hrun st' hst.source'
  have hdrop : (Syntax.leaf head).isOf (st.drops st') = (keeps st && !keeps st') := hdrops st st'
  have hany : head.kind.grown.promise = .any := by
    cases hhead : head.kind <;> first | rfl | (rw [hhead] at hkind; cases hkind)
  rw [houtcome, houtcome', hmade, hmade']
  refine ⟨?_, rfl, ?_, fun a ha => ⟨?_, Except.ok.inj ha ▸ hstop⟩⟩
  · cases hk : keeps st with
    | false =>
      have hk' : keeps st' = false := Bool.eq_false_iff.2 fun h => by
        rw [hkeeps hst h] at hk
        cases hk
      rw [hk']
      rfl
    | true =>
      rw [if_pos rfl, withoutAll, hdrop, hk]
      cases keeps st' <;> rfl
  · cases keeps st with
    | false => exact trivial
    | true => exact ⟨⟨.inl ⟨hkind, rfl⟩, trivial⟩, trivial⟩
  · cases keeps st with
    | false => exact ⟨trivial, trivial⟩
    | true =>
      refine ⟨⟨⟨?_, trivial⟩, trivial⟩, ⟨grants_any hany _ _, trivial⟩, trivial⟩
      rw [hcur]
      exact Int.le_rfl

lemma exists_startsLine_eq (hs : s.Ended) (hcur : 0 ≤ cur) (hlt : cur < s.size) :
    ∃ found, ∀ st : Setting, st.source = s → startsLine cur st = ⟨[], [], .ok found⟩ := by
  obtain ⟨j, c, hback, hread⟩ := exists_backBlanks_eq hs (k := cur - 1) (by omega) (by omega)
  refine ⟨c == '\n', fun st hst => ?_⟩
  have hrun : startsLine cur st = (do
      return (← st.source.read (← st.source.backBlanks (cur - 1))) == '\n' : Parse Bool) st := rfl
  rw [hrun, hst, hback]
  show ((do return (← s.read j) == '\n') : Parse Bool) st = _
  rw [hread]
  rfl

lemma sound_comment (hcur : 0 ≤ cur) : Forward s .opened cur (comment cur) := by
  refine .of_ended fun hs => .source (.scan fun c hc => .ite (fun _ => .expected ..) fun _ => .lift
    (gives_commentEnd_read cur) fun stop hstop => ?_)
  obtain ⟨hstop, d, hd⟩ := hstop
  obtain ⟨found, hfound⟩ := exists_startsLine_eq hs hcur (lt_size_of_read hcur hc)
  have hcomments : ∀ {st st' : Setting}, Setting.Lighter s st st' → st'.comments = true →
      st.comments = true := fun hst => hst.comments
  have hlift : ∀ f : Char → Parse Int, ((liftM (.ok d : Scan Char)) >>= f) = f d :=
    fun _ => rfl
  simp only [hd, hlift]
  -- the three kinds of comments
  by_cases hblock : d = '\x7b'
  · subst hblock
    refine sound_aside
      { kind := .bcomment, code? := some (s.slice cur (stop + 1)), cur? := some cur,
        value := Kind.keptValue .bcomment (s.slice (cur + 2) (stop - 1)) }
      (·.comments) rfl rfl hcomments (fun _ _ => rfl) hstop fun st _ => ?_
    rcases st with ⟨source, _ | _, disp⟩
    · exact ⟨rfl, rfl⟩
    · exact ⟨rfl, rfl⟩
  · rw [show (d == '\x7b') = false by simpa using hblock]
    have hrun : ∀ (f : Bool → Parse Int) st, st.source = s →
        (startsLine cur >>= f) st = f found st := by
      intro f st hst
      show andThen (startsLine cur) f st = _
      rw [andThen, hfound st hst]
      rfl
    refine sound_aside
      { kind := if found then .lcomment else .ecomment, code? := some (s.slice cur (stop + 1)),
        cur? := some cur,
        value := (if found then Kind.lcomment else .ecomment).keptValue (s.slice (cur + 1) stop) }
      (·.comments) ?_ rfl hcomments ?_ hstop fun st hst => ?_
    · cases found <;> rfl
    · cases found <;> exact fun _ _ => rfl
    rcases st with ⟨source, _ | _, disp⟩
    · exact ⟨rfl, rfl⟩
    · exact ⟨congrArg Parsed.outcome (hrun _ _ hst), congrArg Parsed.made (hrun _ _ hst)⟩

lemma sound_pragma (cur : Int) : Forward s .opened cur (pragma cur) := by
  refine .source (.orExpected <| .lift (gives_pragmaEnd _) fun stop hstop => .progress ?_)
  refine sound_aside
    { kind := .pragmaFor, value := Kind.keptValue .pragmaFor (s.slice (cur + 9) stop),
      cur? := some cur }
    (·.disp) rfl rfl (fun hst => hst.disp) (fun _ _ => rfl) (show cur ≤ stop by omega)
    fun st _ => ?_
  rcases st with ⟨source, comments, _ | _⟩
  · exact ⟨rfl, rfl⟩
  · exact ⟨rfl, rfl⟩

/-! ### Statements with blocks -/

lemma grants_guarded {kind : Kind} (hpromise : kind.promise = .guarded)
    (h : Operand (s.LacksAt kind cur) made) (hrest : kinds rest = [.block]) :
    s.Grants kind (some cur) (kinds (made ++ rest)) := by
  rw [kinds_append, hrest, Source.Grants, hpromise]
  rcases h with ⟨k, hkinds, hk⟩ | ⟨rfl, hgap⟩
  · rw [hkinds]
    refine .inl ?_
    show (k.isExpression && true) = true
    rw [hk]
    rfl
  · exact .inr ⟨rfl, cur, rfl, hgap⟩

lemma grants_block {kind : Kind} (cur? : Option Int) (hpromise : kind.promise = .block)
    (h : kinds made = [.block]) : s.Grants kind cur? (kinds made) := by
  rw [Source.Grants, hpromise, h]
  exact .inl rfl

lemma sound_condition (hle : k ≤ start) : Sound s m k (condition start) fun made stop =>
      Operand (s.LacksCondition start) made ∧ k ≤ stop := by
  refine .source (.scan fun c hc => .ite (fun hparen => .scan fun j hj => ?_) fun _ => ?_)
  · have hj' := gives_skip _ hj
    exact (orderly_expression.onward (by omega) none).imp fun _ _ h => ⟨h.1.imp fun hlacks =>
      .inr ⟨by rw [hc, beq_iff_eq.1 hparen], j, hj, hlacks⟩, h.2⟩
  · exact (orderly_expression.onward hle none).imp fun _ _ h => ⟨h.1.imp .inl, h.2⟩

lemma outcome_declaring (p : Parse α) (st : Setting) :
    (declaring p st).outcome = (p st).outcome := by
  unfold declaring
  rcases p st with ⟨made, notes, failure | a⟩ <;> rfl

lemma sound_loopVariable (kind : Kind) (hle : k ≤ start) :
    Sound s m k (loopVariable kind start) fun made stop =>
      ((∃ kind, kinds made = [kind] ∧ kind.isName = true) ∧
        ∃ st : Setting, st.source = s ∧ (reference expression start st).outcome = .ok stop) ∧
      k ≤ stop := by
  have hreference : Sound s .free k (declaring (reference expression start)) fun made stop =>
      (made = [] ∨ ∃ kind, kinds made = [kind] ∧ kind.isName = true) ∧ k ≤ stop := by
    refine .declaring ((sound_reference orderly_expression start).mono hle fun _ _ h => h)
      fun made _ h => ⟨?_, Int.le_trans hle h.2⟩
    rcases h.1 with ⟨kind, hkind, hname, -⟩ | ⟨rfl, -⟩
    · exact .inr ⟨kind, (declareLast_cases (s := s) (k := k) made).1.trans hkind, hname⟩
    · exact .inl rfl
  refine sound_attempt_bind hreference (fun _ _ hfree => sound_emit_fail hfree)
    fun st stop hst houtcome hfree hplaced hshaped h => (sound_emit hfree hplaced hshaped).bind ?_
  rintro _ - rfl
  refine .ite (fun _ => .fail _) fun hsome => .pure ⟨⟨?_, st, hst, ?_⟩, h.2⟩
  · rw [append_nil]
    exact h.1.resolve_left fun hnil => hsome (isEmpty_iff.2 hnil)
  · rwa [outcome_declaring] at houtcome

lemma sound_keyword (word : String) (start : Int) :
    Sound s m k (keyword word start) fun made _ => made = [] :=
  .source (sound_scan _)

section Block

variable {block : BlockParser} (hblock : ∀ start, 0 ≤ start →
  Makes s .closed start (block start) [.block] (start - 1 ≤ ·))

include hblock

variable {start stop : Int}

lemma sound_skip_block {p : Char → Bool} (hstart : 0 ≤ start) (hle : k ≤ start) :
    Makes s .closed k (liftM (s.skip p start) >>= block) [.block] (start - 1 ≤ ·) :=
  .skip fun _ h => (hblock _ (by omega)).mono (by omega) fun _ _ h' => ⟨h'.1, by omega⟩

variable (hcur : 0 ≤ cur)

include hcur

lemma sound_tryStatement : Forward s .opened cur (tryStatement block cur) := by
  have hbranch : ∀ head {code : Int → String} {start : Int}, head.kind.promise = .block →
      cur ≤ head.cur?.getD cur → cur ≤ start → head.cur?.getD cur ≤ start →
      Sound s .closed cur (nodeThen head (do block (← s.skip separates start)) code)
        fun _ stop => start - 1 ≤ stop := by
    intro head code start hpromise hle hstart hle'
    have hordinary : head.kind.isOrdinary = true ∧ Mode.closed.inner head.kind = .closed := by
      cases hkind : head.kind <;> first | exact ⟨rfl, rfl⟩ |
        (rw [hkind] at hpromise; cases hpromise)
    refine (Sound.nodeThen hordinary.1 hle ?_).right
    rw [hordinary.2]
    exact (sound_skip_block hblock (by omega) hle').imp fun _ _ h =>
      ⟨grants_block _ hpromise h.1, h.2⟩
  refine .source ((sound_keyword ..).bind_nil fun _ =>
    .orExpected <| .progress ((Sound.nodeThen rfl Int.le_rfl ((hbranch { kind := .tryBranch } rfl
    Int.le_rfl (by omega) (show cur ≤ _ by omega)).bind fun _ mid hmid =>
    (sound_keyword ..).bind_nil fun _ => .orExpected <| ?_)).right))
  exact (hbranch { kind := .catchBranch, cur? := some mid } rfl
    (show cur ≤ mid by omega) (by omega) (show mid ≤ _ by omega)).imp
    fun _ _ h => ⟨grants_any rfl _ _, by omega⟩

lemma sound_caseBranch (hskip : s.skipBlanks (cur + 4) = .ok start)
    (hstop : start ≤ stop) : Sound s .closed cur (node { kind := .caseBranch, cur? := some cur } do
      let last ← expression start (some stop) none
      block (← s.skip separates (last + 1))) fun _ next => cur < next := by
  have hstart := gives_skip _ hskip
  refine (Sound.node rfl Int.le_rfl (((sound_expression_within none
    (by omega) hstop).mono (show cur ≤ _ by omega) fun _ _ h => h).bind fun made last h =>
    (sound_skip_block hblock (by omega) (by omega)).imp fun rest _ hrest =>
      ⟨?_, by omega⟩)).right
  exact grants_guarded rfl (h.1.imp fun hlacks => ⟨start, hskip, hlacks⟩) hrest.1

lemma sound_cases (n : Nat) : Forward s .closed cur (cases block n cur) := by
  induction n generalizing cur with
  | zero => exact .fail _
  | succ n ih =>
    refine .source (.test ?_ <| .pure Int.le_rfl)
    refine .scan fun start hstart => .lift (gives_expressionEnd _) fun stop hstop =>
      .progress ((sound_caseBranch hblock hcur hstart hstop.1).bind fun _ next hnext => ?_)
    exact (ih (by omega)).mono (by omega) fun _ _ h => by omega

lemma sound_switchStatement : Forward s .opened cur (switchStatement block cur) := by
  refine .source (.need <| .skip fun start hstart => .lift (gives_expressionEnd _)
    fun stop hstop => .progress ((Sound.simple rfl Int.le_rfl
    ((orderly_expression.from (show cur ≤ _ by omega) _ _).bind fun _ _ _ => .skip
      fun first hfirst => ?_)).right))
  have hcases : Forward s .closed cur (cases block s.steps first) :=
    (sound_cases hblock (by omega) _).mono (by omega) fun _ _ h => by omega
  refine hcases.bind fun _ next hnext => .test (.progress ?_) <| .pure hnext
  refine (Sound.node rfl hnext ((sound_skip_block hblock (by omega)
    (show next ≤ _ by omega)).imp fun _ _ h => ⟨grants_block _ rfl h.1, by omega⟩)).right

lemma sound_whileStatement : Forward s .opened cur (whileStatement block cur) := by
  refine .source (.need <| .scan fun start hstart => .look fun _ => .progress
    ((Sound.nodeThen rfl Int.le_rfl ?_).right))
  have hle := gives_skip _ hstart
  refine (sound_condition (show cur ≤ start by omega)).bind fun made last h => ?_
  refine (sound_skip_block hblock (by omega) (by omega)).imp fun rest _ hrest =>
    ⟨?_, by omega⟩
  exact grants_guarded rfl (h.1.imp fun hlacks => ⟨start, hstart, hlacks⟩) hrest.1

lemma sound_loopOver {kind : Kind} (hpromise : kind.promise = .loop) (label place : String)
    {length : Nat} (hgap : s.LacksRange length cur → s.LacksAt kind cur) :
    Forward s .opened cur (loopOver block kind label place length cur) := by
  have hkind : kind.isOrdinary = true ∧ Mode.opened.inner kind = .closed := by
    cases kind <;> first | exact ⟨rfl, rfl⟩ | cases hpromise
  refine .source (.note ((Sound.nodeThen hkind.1 Int.le_rfl ?_).right))
  rw [hkind.2]
  refine .scan fun start hstart => ?_
  have hle := gives_skip _ hstart
  refine (sound_loopVariable kind (show cur ≤ start by omega)).bind fun made stop h => ?_
  obtain ⟨⟨⟨target, hkinds, htarget⟩, hreference⟩, hstop⟩ := h
  refine .scan fun sign hsign => .scan fun c hc => .ite (fun _ => .expected ..) fun heq =>
    .scan fun first hfirst => ?_
  have hsign' := gives_skip _ hsign
  have hfirst' := gives_skip _ hfirst
  refine (orderly_expression.onward (by omega) none).bind fun value last hvalue => ?_
  refine .skip fun next hnext => .look fun _ => ?_
  refine (sound_skip_block hblock (by omega) (by omega)).imp fun rest _ hrest => ⟨?_, by omega⟩
  rw [kinds_append, kinds_append, hkinds, hrest.1, Source.Grants, hpromise]
  rcases hvalue.1 with ⟨e, hvalue, he⟩ | ⟨rfl, hlacks⟩
  · rw [hvalue]
    refine .inl ?_
    show (target.isName && e.isExpression && true) = true
    rw [htarget, he]
    rfl
  · refine .inr ⟨?_, cur, rfl, hgap ⟨start, stop, sign, first, hstart, hreference, hsign, ?_,
      hfirst,
      hlacks⟩⟩
    · show (true && target.isName && true) = true
      rw [htarget]
      rfl
    · rw [hc]
      simpa using heq

lemma sound_forStatement : Forward s .opened cur (forStatement block cur) :=
  .source (.orExpected <| sound_loopOver hblock hcur rfl _ _ id)

lemma sound_parforStatement : Forward s .opened cur (parforStatement block cur) :=
  .source (.orExpected <| sound_loopOver hblock hcur rfl _ _ id)

lemma sound_conditioned {kind : Kind} {code : Int → String} {place : Int}
    (hpromise : kind.promise = .guarded) (hgap : s.LacksCondition start → s.LacksAt kind place)
    (hplace : cur ≤ place) (hstart : place ≤ start) (hlt : cur < start)
    (hstop : start ≤ stop) : Makes s .closed cur (nodeThen { kind, cur? := some place } (do
      let _ ← condition start
      block (stop + 1)) code) [kind] (cur < ·) := by
  have hkind : kind.isOrdinary = true ∧ Mode.closed.inner kind = .closed := by
    cases kind <;> first | exact ⟨rfl, rfl⟩ | cases hpromise
  refine .nodeThen hkind.1 hplace ?_
  rw [hkind.2]
  refine (sound_condition hstart).bind fun made _ h => ((hblock _ (by omega)).mono (by omega)
    fun rest _ hrest => ⟨?_, by omega⟩)
  exact grants_guarded hpromise (h.1.imp hgap) hrest.1

lemma sound_elifs (n : Nat) (start : Int) :
    Sound s .closed cur (elifs block n start cur) fun made ends =>
      (∀ kind ∈ kinds made, kind = .elif) ∧ cur ≤ ends.2 := by
  induction n generalizing start cur with
  | zero => exact .fail _
  | succ n ih =>
    refine .source ((sound_keyword ..).bind_nil fun _ => .either ?_ <|
      .pure ⟨by simp [kinds], Int.le_rfl⟩)
    refine .scan fun first hfirst => .lift (gives_expressionEnd _) fun stop hstop =>
      .progress ?_
    have hle := gives_skip _ hfirst
    refine (sound_conditioned hblock hcur (show Kind.elif.promise = .guarded from rfl)
      (fun hlacks => ⟨first, hfirst, hlacks⟩) Int.le_rfl (by omega) (by omega)
      hstop.1).bind fun made next h => ?_
    refine (ih (by omega) _).mono (by omega) fun rest _ hrest => ⟨?_, by omega⟩
    rw [kinds_append, h.1]
    exact forall_mem_cons.2 ⟨rfl, hrest.1⟩

lemma sound_elsePart (start : Int) : Sound s .closed cur (elsePart block start cur) fun made ends =>
      (kinds made = [] ∨ kinds made = [.elseBranch]) ∧ cur ≤ ends.2 :=
  .source ((sound_keyword ..).bind_nil fun _ => .either (.progress (.then
    ((Sound.nodeThen rfl Int.le_rfl ((hblock _ (by omega)).mono
      (show cur ≤ cur + 4 by omega) fun _ _ h => ⟨grants_block _ rfl h.1, by omega⟩)).imp
      fun _ _ h => ⟨.inr h.1, h.2⟩))) <| .pure ⟨.inl rfl, Int.le_rfl⟩)

omit hblock hcur in
lemma holds_branch {ks rest : List Kind} (hks : ∀ kind ∈ ks, kind = .elif)
    (hrest : rest = [] ∨ rest = [.elseBranch]) :
    Promise.holds false .branch (.ifBranch :: (ks ++ rest)) = true := by
  have hall : ∀ kind ∈ ks, (kind == .elif) = true := fun kind h => by rw [hks kind h]; rfl
  rw [Promise.holds, dropWhile_append_of_pos hall]
  rcases hrest with rfl | rfl <;> rfl

lemma sound_ifStatement : Forward s .opened cur (ifStatement block cur) := by
  refine .source ((sound_keyword ..).bind_nil fun _ => .orExpected <| .imp
    (P := fun made stop => kinds made = [.branch] ∧ cur ≤ stop) (.wrap rfl Int.le_rfl
    (P := fun made (ends : Int × Int) => Promise.holds false .branch (kinds made) = true ∧
      cur ≤ ends.2) ?_ (.inr ⟨rfl, fun _ _ _ => rfl⟩) (fun _ _ => ⟨rfl, rfl⟩)
    fun _ _ _ h hb => ⟨.inl h.1, Except.ok.inj hb ▸ h.2⟩) fun _ _ h => h.2)
  refine .scan fun first hfirst => .need <| .lift (gives_expressionEnd _) fun stop hstop =>
    .progress ?_
  have hle := gives_skip _ hfirst
  refine (sound_conditioned hblock hcur rfl id (show cur ≤ first by omega) Int.le_rfl (by omega)
    hstop.1).bind fun made next h => ?_
  refine ((sound_elifs hblock (show 0 ≤ next by omega) _ cur).mono (by omega) fun _ _ h => h).bind
    fun more ends hmore => ?_
  refine (sound_elsePart hblock (by omega) _).mono (by omega) fun rest _ hrest => ⟨?_, by omega⟩
  rw [kinds_append, kinds_append, h.1]
  show Promise.holds false .branch (.ifBranch :: (kinds more ++ kinds rest)) = true
  exact holds_branch hmore.1 hrest.1

/-! ### Blocks -/

/-- A block ends at or after a position, or just before it at the keyword of a function. -/
def EndsFrom (s : Source) (start stop : Int) : Prop :=
  start ≤ stop ∨ stop = start - 1 ∧ s.reads start "function" = true

omit hblock hcur in
lemma EndsFrom.le (h : EndsFrom s start stop) : start - 1 ≤ stop := by
  rcases h with h | h <;> omega

/-- A block goes on behind a position or ends there. -/
def Step.After (s : Source) (cur : Int) : Step → Prop
  | .next last => cur ≤ last
  | .stop last => EndsFrom s cur last

omit hblock hcur in
lemma sound_anyKeyword (start : Int) (words : List String) :
    Sound s m k (anyKeyword start words) fun made _ => made = [] := by
  induction words with
  | nil => exact .pure rfl
  | cons word words ih =>
    exact (sound_keyword ..).bind_nil fun _ => .either (.pure rfl) <| ih

omit hblock hcur in
lemma sound_blockStatement? {entries : List (String × (BlockParser → Int → Parse Int))}
    (hentries : ∀ entry ∈ entries, Sound s m cur (entry.2 block cur) fun _ stop => cur ≤ stop) :
    Sound s m cur (blockStatement? block cur entries)
      fun _ stop? => ∀ stop ∈ stop?, cur ≤ stop := by
  induction entries with
  | nil => exact .pure (by simp)
  | cons entry entries ih =>
    obtain ⟨hentry, hentries⟩ := forall_mem_cons.1 hentries
    refine (sound_keyword ..).bind_nil fun _ => .either ?_ <| ih hentries
    exact .then (hentry.imp fun _ _ h => by rintro _ ⟨⟩; exact h)

lemma sound_blockStatements : ∀ entry ∈ blockStatements,
    Forward s .opened cur (entry.2 block cur) := by
  simp only [blockStatements, forall_mem_cons]
  exact ⟨sound_parforStatement hblock hcur, sound_forStatement hblock hcur,
    sound_ifStatement hblock hcur, sound_switchStatement hblock hcur,
    sound_tryStatement hblock hcur, sound_whileStatement hblock hcur, by simp⟩

lemma sound_wordPiece :
    Sound s .opened cur (wordPiece block cur) fun _ step => step.After s cur := by
  refine .source ((sound_anyKeyword ..).bind_nil fun _ => .either
    (.pure (.inl Int.le_rfl)) <| (sound_keyword ..).bind_nil fun _ => .either
    (.pure (.inl (by omega))) <| .lift
    (gives_readsThen ..) fun _ hfunction => .ite
    (fun hfound => .pure (.inr ⟨rfl, hfunction hfound⟩)) fun _ => ?_)
  refine (sound_blockStatement? (sound_blockStatements hblock hcur)).bind fun _ stop? hstop => ?_
  cases stop? with
  | some stop => exact .pure (hstop stop rfl)
  | none =>
    have hstarts : Sound s .opened cur (commandStarts cur) fun made _ => made = [] :=
      .source (.test (.pure rfl) <| sound_scan _)
    refine hstarts.bind_nil fun _ => .either ?_ <| .test ?_ <| .pure Int.le_rfl
    · refine (sound_command cur).bind fun _ stop? hstop => ?_
      cases stop? with
      | some stop => exact .pure (hstop stop rfl)
      | none => exact .fail _
    · exact .then (sound_plainStatement hcur)

lemma sound_piece : Sound s .opened cur (piece block cur) fun _ step => step.After s cur := by
  have hnext : ∀ {p : Parse Int}, (Sound s .opened cur p fun _ stop => cur ≤ stop) →
      Sound s .opened cur (Step.next <$> p) fun _ step => step.After s cur := fun hp => .then hp
  refine .source (.look fun c => .either (.pure Int.le_rfl) <| .either (.pure ?_) <| .either
    (hnext (sound_pragma cur)) <| .either (hnext (sound_comment hcur)) <| .either
    (hnext (sound_verbatim hcur)) <| .either (hnext (sound_bracketStatement hcur)) <| .either
    (hnext ((sound_stringStatement cur).right)) <| sound_wordPiece hblock hcur)
  split
  · exact .inl Int.le_rfl
  · exact Int.le_rfl

end Block

lemma sound_blockOf {pieces : Int → Parse Int}
    (hpieces : Sound s .opened start (pieces start) fun _ stop => EndsFrom s start stop) :
    Makes s .closed start (blockOf pieces start) [.block] (EndsFrom s start) :=
  .source (.nodeThen rfl Int.le_rfl (.note (hpieces.imp fun _ _ h =>
    ⟨grants_any rfl _ _, h⟩)))

lemma sound_pieces (n : Nat) (hcur : 0 ≤ cur) :
    Sound s .opened cur (pieces n cur) fun _ stop => EndsFrom s cur stop := by
  induction n generalizing cur with
  | zero => exact .fail _
  | succ n ih =>
    refine (sound_piece (fun start hstart => (sound_blockOf (ih hstart)).imp
      fun _ _ h => ⟨h.1, h.2.le⟩) hcur).bind fun _ step hstep => ?_
    cases step with
    | stop last => exact .pure hstep
    | next last =>
      have hlast : cur ≤ last := hstep
      refine .source (.either (.pure (.inl (by omega))) ?_)
      exact (ih (by omega)).mono (by omega) fun _ _ h => .inl (by have := h.le; omega)

lemma sound_block (hcur : 0 ≤ cur) : Makes s .closed cur (block cur) [.block] (EndsFrom s cur) :=
  .source (sound_blockOf (sound_pieces _ hcur))

lemma sound_block_le (start : Int) (hstart : 0 ≤ start) :
    Makes s .closed start (block start) [.block] (start - 1 ≤ ·) :=
  (sound_block hstart).imp fun _ _ h => ⟨h.1, h.2.le⟩

/-! ### Functions -/

lemma sound_resultItems (start : Int) (hspans : ∀ span ∈ spans, k ≤ span.1) :
    Sound s m k (resultItems start spans) fun _ a => a = () := by
  induction spans with
  | nil => exact .pure rfl
  | cons span spans ih =>
    obtain ⟨hspan, hspans⟩ := forall_mem_cons.1 hspans
    exact .source (.progress (.orExpected <| (sound_leaf rfl hspan).bind fun _ _ _ => ih hspans))

lemma sound_results (stop : Int) (hle : k ≤ start) :
    Makes s m k (results cur start stop) [.returns] (· = ()) :=
  .source (.simple rfl Int.le_rfl (.test
    (.lift (gives_items start) fun _ hrows => sound_resultItems cur
      fun span hspan => Int.le_trans hle (hrows.flatten span hspan)) <|
    .look fun _ => .note ((sound_leaf rfl hle).right)))

lemma parts_results (cur start stop : Int) : (results cur start stop).Parts [.returns] :=
  parts_source.bind fun _ => parts_node ..

lemma sound_parameterItems (start : Int) (hspans : ∀ span ∈ spans, k ≤ span.1) :
    Sound s m k (parameterItems start spans) fun _ _ => True := by
  induction spans with
  | nil => exact .pure trivial
  | cons span spans ih =>
    obtain ⟨hspan, hspans⟩ := forall_mem_cons.1 hspans
    exact .source (.progress ((sound_leaf rfl hspan).bind fun _ _ _ => ih hspans))

lemma sound_parameters (cur : Int) : Makes s m cur (parameters cur) [.params] (cur ≤ ·) := by
  have hleaving : ∀ {α β : Type} {x : Scan α} {R : α → Prop} {f : α → Parse β}
      {Q : List Syntax → β → Prop}, x.Gives R → (∀ a, R a → Sound s m cur (f a) Q) →
      Sound s m cur (elseLeaving (scan x) [.leaf { kind := .params, cur? := some cur }] >>= f) Q :=
    fun hx hf => .bind_of_nil (.elseLeaving ⟨⟨.inl rfl, trivial⟩, trivial⟩ hx) hf
  refine .source (hleaving (Scan.gives_any _) fun _ _ => .either ?_ ?_)
  · exact hleaving (gives_close ..) fun _ hstop => .simple rfl Int.le_rfl
      (.lift (gives_commaItems cur) fun _ hrows =>
        .then ((sound_parameterItems cur hrows.flatten).imp fun _ _ _ => hstop))
  · exact .then ((sound_leaf rfl Int.le_rfl).imp fun _ _ h => ⟨h.1, Int.le_rfl⟩)

lemma parts_parameters (cur : Int) : (parameters cur).Parts [.params] := by
  have hleaving : ∀ {α β : Type} x (f : α → Parse β), (∀ a, (f a).Parts [.params]) →
      (elseLeaving (scan x) [.leaf { kind := .params, cur? := some cur }] >>= f).Parts
        [.params] := by
    intro α β x f hf st
    cases x with
    | error failure => exact ⟨prefix_rfl, fun b hb => by cases hb⟩
    | ok a => exact @hf a st
  refine parts_source.bind fun _ => hleaving _ _ fun _ => .ite (hleaving _ _ fun _ => ?_) ?_
  · exact parts_node ..
  · exact (parts_leaf _).bind fun _ => parts_pure _

lemma parts_block (start : Int) : (block start).Parts [.block] :=
  parts_source.bind fun _ => parts_source.bind fun _ => parts_wrap fun _ _ => rfl

lemma sound_skipDots (n : Nat) (start : Int) :
    Sound s m k (skipDots n start) fun made stop => made = [] ∧ start ≤ stop := by
  induction n generalizing start with
  | zero => exact .fail _
  | succ n ih =>
    have hgo : ∀ next, start ≤ next →
        Sound s m k (skipDots n (next + 1)) fun made stop => made = [] ∧ start ≤ stop :=
      fun _ hle => (ih _).imp fun _ _ h => ⟨h.1, by omega⟩
    exact .source (.test (.either (.lift (gives_dotsEnd _) hgo) <|
      hgo start Int.le_rfl) <| .pure ⟨rfl, Int.le_rfl⟩)

lemma sound_parametersEnd (start last : Int) :
    Sound s m k (parametersEnd start last) fun made _ => made = [] :=
  .source (.test (sound_scan _) <| .pure rfl)

lemma Sound.function {head : Head} {close : α → Head × Except Failure β} {R : α → Prop}
    {R' : β → Prop} (hkind : head.kind = .func ∨ head.kind = .main) (hle : k ≤ head.cur?.getD k)
    (hp : Makes s .closed (head.cur?.getD k) p Kind.funcParts R)
    (hparts : p.Parts Kind.funcParts)
    (hclose : ∀ a, (close a).1.kind = head.kind ∧ (close a).1.cur? = head.cur?)
    (hresult : ∀ a b, R a → (close a).2 = .ok b → R' b) :
    Sound s .closed k (Parse.wrap head p fun _ a => close a) fun _ b => R' b := by
  have hhead : head.kind.isAside = false ∧ head.kind.grown.promise = .parts := by
    rcases hkind with hkind | hkind <;> rw [hkind] <;> exact ⟨rfl, rfl⟩
  refine (hp.wrap_of_admits hle (.inr fun _ _ _ => rfl) hhead.1
    (fun st head' hhead' h => ?_) (fun _ a => hclose a) fun made a b h hb =>
    ⟨.inl ?_, hresult a b h.2 hb⟩).right
  · refine Mode.admits_of_neat nofun (hhead' ▸ hhead.1) ⟨.inr (.inr ⟨?_, (@hparts st).1⟩), h.1⟩
    rw [hhead']
    exact hkind.imp_right .inl
  · rw [hhead.2, h.1]
    rfl

lemma sound_parameters_block (hcur : 0 ≤ cur) (hle : cur ≤ start) :
    Makes s .closed cur (do block ((← parameters start) + 1)) [.params, .block] (cur ≤ ·) :=
  ((sound_parameters start).mono hle fun _ _ h => ⟨h.1, Int.le_trans hle h.2⟩).also fun _ h =>
    (sound_block_le _ (by omega)).mono (by omega) fun _ _ h' => ⟨h'.1, by omega⟩

lemma parts_parameters_block (start : Int) :
    (do block ((← parameters start) + 1) : Parse Int).Parts [.params, .block] :=
  (parts_parameters start).bind fun _ => parts_block _

lemma sound_functionWithResults (stop : Int) (hcur : 0 ≤ cur) (hstart : cur ≤ start)
    (heq : cur ≤ eq) :
    Forward s .closed cur (functionWithResults cur start stop eq) := by
  refine .source ((sound_skipDots ..).bind_of_nil fun name hname => .need <|
    .lift (gives_through _) fun last hlast => .look fun _ =>
    (sound_parametersEnd ..).bind_nil fun _ => .progress (.function (.inl rfl)
    Int.le_rfl ?_ ?_ (fun _ => ⟨rfl, rfl⟩) fun _ _ h hb => Except.ok.inj hb ▸ h))
  · exact (sound_leaf rfl Int.le_rfl).also fun _ _ => (sound_results stop hstart).also
      fun _ _ => .skip fun _ h => sound_parameters_block hcur (by omega)
  · exact (parts_leaf _).bind fun _ => (parts_results ..).bind fun _ =>
      (parts_lift _).bind fun _ => parts_parameters_block _

lemma sound_functionWithoutResults (stop next : Int) (hcur : 0 ≤ cur) (hstart : cur ≤ start) :
    Forward s .closed cur (functionWithoutResults cur start stop next) := by
  refine .source ((sound_parametersEnd ..).bind_nil fun _ => .progress (.skip fun _ h =>
    Sound.function (.inl rfl) Int.le_rfl ?_ ?_ (fun _ => ⟨rfl, rfl⟩)
    fun _ _ h hb => Except.ok.inj hb ▸ h))
  · exact (sound_leaf rfl Int.le_rfl).also fun _ _ => (sound_leaf rfl Int.le_rfl).also
      fun _ _ => sound_parameters_block hcur (show cur ≤ _ by omega)
  · exact (parts_leaf _).bind fun _ => (parts_leaf _).bind fun _ => parts_parameters_block _

lemma sound_function (hcur : 0 ≤ cur) : Forward s .closed cur (function cur) :=
  .source (.orExpected <| .need <| .skip fun start hstart => .need <|
    .lift (gives_expressionEnd _) fun stop hstop => .skip fun _ h => .test
    (sound_functionWithResults _ hcur (by omega) (by omega)) <|
    sound_functionWithoutResults _ _ hcur (by omega))

lemma sound_script (hcur : 0 ≤ cur) (hle : k ≤ cur) :
    Sound s .closed k (script cur) fun _ stop => EndsFrom s cur stop := by
  refine .note (.function (.inr rfl) Int.le_rfl ?_ ?_
    (fun _ => ⟨rfl, rfl⟩) fun _ _ h hb => Except.ok.inj hb ▸ h)
  · exact (sound_leaf rfl Int.le_rfl).also fun _ _ => (sound_leaf rfl Int.le_rfl).also
      fun _ _ => (sound_leaf rfl Int.le_rfl).also fun _ _ =>
      (sound_block hcur).mono hle fun _ _ h => h
  · exact (parts_leaf _).bind fun _ => (parts_leaf _).bind fun _ => (parts_leaf _).bind
      fun _ => parts_block _

lemma sound_functions (n : Nat) (hcur : 0 ≤ cur) (hk : k ≤ cur) :
    Sound s .closed k (functions n cur) fun _ _ => True := by
  induction n generalizing cur with
  | zero => exact .fail _
  | succ n ih =>
    have hmore : ∀ last, cur ≤ last → Sound s .closed k
        (if s.size - last ≤ 2 then pure () else functions n (last + 1)) fun _ _ => True :=
      fun last hlast => .either (.pure trivial) <| ih (by omega) (by omega)
    refine .source (.look fun c => .either (hmore _ Int.le_rfl) <|
      .either (.lift (gives_commentEnd _) fun _ h => hmore _ h.1) <| .either
      (((sound_function hcur).mono hk fun _ _ h => h).bind fun _ => hmore) ?_)
    exact .then ((sound_script hcur hk).imp fun _ _ _ => trivial)

/-- What stands in a program is read soundly from its start on. -/
lemma sound_program : Sound s .closed 0 program fun _ _ => True :=
  .note (.source (sound_functions _ Int.le_rfl Int.le_rfl))

end ArmaGen.Parse
