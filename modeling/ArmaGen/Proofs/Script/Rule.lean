import ArmaGen.Emit.Nodes
import ArmaGen.Proofs.Emit.Log
import ArmaGen.Proofs.Script.Infer

/-!
# What rules give for bare programs

The rule for a node of a bare program gives a template that is filled in with what is emitted for
the nodes below it (`Edit.renders_of_ready`). Only the rule for quotients of matrices fails, since
it needs datatypes (`Edit.ruleEmission_matrixDivision`).
-/

namespace ArmaGen

open List

open Rule

/-! ### Emitted texts -/

/-- What is emitted for a node of a bare program, given what is emitted for the nodes below it. -/
def Kind.rendered (kind : Kind) (name : String) (texts : List String) : String :=
  match kind with
  | .var => name
  | .get => name ++ "(" ++ (joinWith ", " texts ++ ")")
  | .paren => "(" ++ texts.headD "" ++ ")"
  | .neg => "-(" ++ (joinWith "" texts ++ ")")
  | .not => "not " ++ (joinWith "" texts ++ "")
  | .transpose => "arma::strans(" ++ texts.headD "" ++ ")"
  | .ctranspose => "arma::trans(" ++ (joinWith "" texts ++ ")")
  | .exp | .elexp => texts.tail.foldl (fun text exponent =>
      "pow(" ++ text ++ ", " ++ exponent ++ ")") (texts.headD "")
  | .mul | .elmul => joinWith "*" texts
  | .plus => joinWith "+" texts
  | .elementDivision => joinWith "/" texts
  | .leftMatrixDivision | .leftElementDivision => joinWith "\\" texts
  | .statement => texts.headD "" ++ " ;"
  | .block => if texts = [] then "// Empty block" else joinWith "\n" texts
  | .main => withBlock "int main(int argc, char** argv)" (texts.getD 3 "" ++ "\nreturn 0 ;")
  | .funcs => squeezeLines (joinWith "\n\n" texts)
  | kind => joinWith ((operatorText? kind).getD "") texts

mutual

/-- What is emitted for an outline of a bare program. -/
def Outline.rendered : Outline → String
  | .node kind name _ below => kind.rendered name (renderedAll below)

def Outline.renderedAll : List Outline → List String
  | [] => []
  | o :: os => o.rendered :: renderedAll os

end

lemma Outline.renderedAll_eq_map (os : List Outline) : renderedAll os = os.map rendered := by
  induction os with
  | nil => rfl
  | cons o os ih => rw [renderedAll, ih, map_cons]

/-! ### No directives -/

section

variable {name : String} {texts : List String} {kind : Kind}

variable {c : Char}

lemma not_mem_append {a b : String} (ha : c ∉ a.toList) (hb : c ∉ b.toList) :
    c ∉ (a ++ b).toList := by
  rw [String.toList_append, mem_append, not_or]
  exact ⟨ha, hb⟩

lemma not_mem_joinWith (sep : String) (hsep : c ∉ sep.toList) (h : ∀ t ∈ texts, c ∉ t.toList) :
    c ∉ (joinWith sep texts).toList := by
  fun_induction joinWith sep texts with
  | case1 => exact not_mem_nil
  | case2 text => exact h text (.head _)
  | case3 text rest _ ih =>
    exact not_mem_append (not_mem_append (h text (.head _)) hsep) (ih fun t ht => h t (.tail _ ht))

lemma not_mem_hexDigits (width n : Nat) : '%' ∉ hexDigits width n := by
  have hdigit : ∀ m < 16, hexDigit m ≠ '%' := by decide
  induction width generalizing n with
  | zero => exact not_mem_nil
  | succ width ih =>
    rw [hexDigits, mem_append, mem_singleton, not_or]
    exact ⟨ih _, Ne.symm (hdigit _ (Nat.mod_lt _ (by decide)))⟩

lemma not_mem_escapedChar {quote : Char} (hc : c ≠ '%') : '%' ∉ escapedChar quote c := by
  unfold escapedChar
  split
  · simp [Ne.symm hc]
  split
  · decide
  split
  · decide
  split
  · decide
  split
  · simp [Ne.symm hc]
  · unfold escapedCode
    split
    · simp [not_mem_hexDigits]
    split
    · simp [not_mem_hexDigits]
    · simp [not_mem_hexDigits]

lemma not_mem_quoted {text : String} (h : '%' ∉ text.toList) : '%' ∉ (quoted text).toList := by
  have hquote : quoteFor text.toList ≠ '%' := by
    unfold quoteFor
    split <;> decide
  unfold quoted
  simp only [String.toList_ofList, cons_append, mem_cons, mem_append,
    mem_flatMap, not_or, not_exists, not_and]
  refine ⟨Ne.symm hquote, fun c hc => not_mem_escapedChar ?_, Ne.symm hquote, not_mem_nil⟩
  rintro rfl
  exact h hc

lemma mem_of_mem_squeezeChars {b : Bool} {cs : List Char} (h : c ∈ squeezeChars b cs) : c ∈ cs := by
  fun_induction squeezeChars b cs with
  | case1 => exact h
  | case2 d rest _ ih => exact .tail _ (ih h)
  | case3 d rest _ ih =>
    rcases mem_cons.mp h with rfl | h
    · exact .head _
    · exact .tail _ (ih h)
  | case4 d rest hrun ih =>
    have hd : d = '\n' := by
      rw [Bool.and_eq_true, beq_iff_eq] at hrun
      exact hrun.1
    iterate 2
      rcases mem_cons.mp h with rfl | h
      · exact hd ▸ mem_cons_self ..
    exact .tail _ (ih h)
  | case5 d rest _ ih =>
    rcases mem_cons.mp h with rfl | h
    · exact .head _
    · exact .tail _ (ih h)

lemma not_mem_getD (h : ∀ t ∈ texts, '%' ∉ t.toList) (i : Nat) :
    '%' ∉ (texts.getD i "").toList := by
  rw [getD_eq_getElem?_getD]
  cases heq : texts[i]? with
  | none => exact not_mem_nil
  | some t => exact h t (mem_of_getElem? heq)

lemma not_mem_headD (h : ∀ t ∈ texts, '%' ∉ t.toList) : '%' ∉ (texts.headD "").toList := by
  cases texts with
  | nil => exact not_mem_nil
  | cons t ts => exact h t (.head _)

lemma not_mem_powers {base : String} (hbase : '%' ∉ base.toList) (h : ∀ t ∈ texts, '%' ∉ t.toList) :
    '%' ∉ (texts.foldl (fun text exponent =>
      "pow(" ++ text ++ ", " ++ exponent ++ ")") base).toList := by
  induction texts generalizing base with
  | nil => exact hbase
  | cons t ts ih =>
    refine ih ?_ fun u hu => h u (.tail _ hu)
    exact not_mem_append (not_mem_append (not_mem_append (not_mem_append (by decide) hbase)
      (by decide)) (h t (.head _))) (by decide)

lemma not_mem_operatorText (kind : Kind) : '%' ∉ ((operatorText? kind).getD "").toList := by
  unfold operatorText?
  split <;> decide

lemma Kind.not_mem_rendered (hname : kind.isName = true → '%' ∉ name.toList)
    (h : ∀ t ∈ texts, '%' ∉ t.toList) : '%' ∉ (kind.rendered name texts).toList := by
  have hjoin := fun sep hsep => not_mem_joinWith sep hsep h
  have hhead := not_mem_headD h
  unfold rendered
  split
  case h_1 => exact hname rfl
  case h_2 =>
    exact not_mem_append (not_mem_append (hname rfl) (by decide))
      (not_mem_append (hjoin ", " (by decide)) (by decide))
  case h_3 | h_6 => exact not_mem_append (not_mem_append (by decide) hhead) (by decide)
  case h_4 | h_5 | h_7 =>
    exact not_mem_append (by decide) (not_mem_append (hjoin "" (by decide)) (by decide))
  case h_8 | h_9 => exact not_mem_powers hhead fun t ht => h t (mem_of_mem_tail ht)
  case h_10 | h_11 => exact hjoin "*" (by decide)
  case h_12 => exact hjoin "+" (by decide)
  case h_13 => exact hjoin "/" (by decide)
  case h_14 | h_15 => exact hjoin "\\" (by decide)
  case h_16 => exact not_mem_append hhead (by decide)
  case h_17 =>
    split
    · decide
    · exact hjoin "\n" (by decide)
  case h_18 =>
    exact not_mem_append (not_mem_append (by decide)
      (not_mem_append (not_mem_getD h 3) (by decide))) (by decide)
  case h_19 =>
    unfold squeezeLines
    rw [String.toList_ofList]
    exact fun hmem => hjoin "\n\n" (by decide) (mem_of_mem_squeezeChars hmem)
  case h_20 => exact hjoin _ (not_mem_operatorText _)

end

/-! ### Rules that give a template -/

/-- A node of a bare program that can be emitted, as the nodes below it are. -/
structure Project.Ready (id : Nat) (texts : List String) (p : Project) : Prop where
  backend : (p.node id).backend = (p.node id).kind.bareRules
  arity : (p.node id).kind.arity ≤ texts.length
  strs : (p.node id).children.map (fun c => (p.node c).str) = texts
  plain : ∀ t ∈ texts, '%' ∉ t.toList
  below : ∀ c ∈ (p.node id).children, (p.node c).kind.isBare = true
  typeless : (p.node id).kind.isBody = true →
    p.Typeless id ∧ ∀ c ∈ (p.node id).children, p.Typeless c
  remarked : (p.node id).kind.isBody = true → ∀ value p', '%' ∉ value.toList →
    Edit.error id value p = .ok () p' → p'.Typeless id
  declares : (p.node id).kind = .main →
    ∃ d rest, (p.node id).children = d :: rest ∧ (p.node d).children = []
  leaf : (p.node id).kind ∈ [.declares, .params, .inlines, .structs, .headers] →
    (p.node id).children = []

namespace Edit

open Template

variable {p : Project} {id : Nat} {name text : String} {texts : List String} {emitter : Emitter}
  {note : Option String} {emission : Emission} {rule : Rule}

variable {p' : Project} {kind : Kind} {between : String}

lemma rule_bind_ok {α β : Type} {x : Edit α} {g : α → Emit β} {a : α} (h : x p = .ok a p') :
    ((liftM x : Emit α) >>= g) emitter p = g a emitter p' :=
  bind_ok h

lemma rule_bind_run {α β : Type} {x : Edit α} {g : α → Emit β} {a : α}
    {r : EStateM.Result Failure Project β} (h : x p = .ok a p') (hg : g a emitter p' = r) :
    ((liftM x : Emit α) >>= g) emitter p = r :=
  bind_run h hg

/-- Complains about a node, or not. -/
def remark (id : Nat) : Option String → Edit Unit
  | some value => error id value
  | none => pure ()

/-- The rule for a node gives a template that is filled in with a text. -/
def Renders (emitter : Emitter) (id : Nat) (texts : List String) (text : String) (p : Project) :
    Prop :=
  ∃ (note : Option String) (emission : Emission) (template : String),
    ruleEmission emitter id p = (remark id note >>= fun _ => pure emission) p ∧
    (∀ value ∈ note, '%' ∉ value.toList) ∧ emission.template texts.length = .ok template ∧
    ∀ props, Tells props (p.node id).name texts → Filled props template.toList text.toList

section

variable (hrules : (p.node id).backend.hasRules = true)
  (hrule : (p.node id).backend.rule? (p.node id).kind (p.node id).name = some rule)

include hrules hrule

lemma ruleEmission_of_ok (hrun : (rule id).run emitter p = .ok (some emission) p') :
    ruleEmission emitter id p = .ok emission p' := by
  unfold ruleEmission
  rw [node_bind, hrules, hrule]
  exact bind_ok hrun

lemma ruleEmission_of_error {failure : Failure}
    (hrun : (rule id).run emitter p = .error failure p') :
    ruleEmission emitter id p = .error failure p' := by
  unfold ruleEmission
  rw [node_bind, hrules, hrule]
  exact bind_error hrun

lemma ruleEmission_eq
    (hrun : (rule id).run emitter p = (remark id note >>= fun _ => pure (some emission)) p) :
    ruleEmission emitter id p = (remark id note >>= fun _ => pure emission) p := by
  cases hx : remark id note p with
  | ok _ p' =>
    have hsame : (remark id note >>= fun _ => pure emission) p = .ok emission p' :=
      bind_ok hx
    rw [hsame]
    exact ruleEmission_of_ok hrules hrule (hrun.trans (bind_ok hx))
  | error failure p' =>
    rw [bind_error hx]
    exact ruleEmission_of_error hrules hrule (hrun.trans (bind_error hx))

end

lemma renders_of_rule (h : p.Ready id texts) (hkind : (p.node id).kind = kind)
    (hbare : kind.isBare = true) (note : Option String) (emission : Emission) {template : String}
    (hrule : kind.bareRules.rule? kind (p.node id).name = some rule)
    (hnote : ∀ value ∈ note, '%' ∉ value.toList)
    (hrun : (rule id).run emitter p = (remark id note >>= fun _ => pure (some emission)) p)
    (htemplate : emission.template texts.length = .ok template)
    (hfilled : ∀ props, Tells props (p.node id).name texts →
      Filled props template.toList text.toList) : Renders emitter id texts text p := by
  subst hkind
  refine ⟨note, emission, template, ruleEmission_eq ?_ ?_ hrun, hnote, htemplate, hfilled⟩
  · rw [h.backend]
    revert hbare
    cases (p.node id).kind <;> first | exact fun _ => rfl | exact nofun
  · rw [h.backend]
    exact hrule

lemma renders_var (h : p.Ready id texts) (hkind : (p.node id).kind = .var) :
    Renders emitter id texts (p.node id).name p := by
  have hless := (h.typeless (by rw [hkind]; rfl)).1
  refine renders_of_rule h hkind rfl (some "unknown data type") (.text "%(name)s") rfl ?_ ?_ rfl
    fun props hprops => hprops.filled_name
  · rintro _ ⟨⟩
    decide
  · exact bind_of_run_eq (bind_ok (isTyped_eq hless))

section

variable (h : p.Ready id texts) (hkind : (p.node id).kind = kind) (hbare : kind.isBare = true)
  (hrule : kind.bareRules.rule? kind (p.node id).name = some rule)

include h hkind hbare hrule

lemma renders_around {before after : String}
    (hrun : (rule id).run emitter p = .ok (some (.around before between after)) p)
    (hbefore : '%' ∉ before.toList) (hbetween : '%' ∉ between.toList)
    (hafter : '%' ∉ after.toList) :
    Renders emitter id texts (before ++ (joinWith between texts ++ after)) p := by
  refine renders_of_rule h hkind hbare none (.around before between after) hrule nofun hrun rfl
    fun props hprops => ?_
  rw [String.toList_append, String.toList_append]
  exact hprops.filled_around (filled_plain hbefore) hbetween hafter

lemma renders_between (hrun : (rule id).run emitter p = .ok (some (.around "" between "")) p)
    (hbetween : '%' ∉ between.toList) : Renders emitter id texts (joinWith between texts) p := by
  have := renders_around h hkind hbare hrule hrun (by decide) hbetween (by decide)
  rwa [String.append_empty] at this

lemma renders_plain
    (hrun : (rule id).run emitter p = .ok (some (.text text)) p) (hplain : '%' ∉ text.toList) :
    Renders emitter id texts text p :=
  renders_of_rule h hkind hbare none (.text text) hrule nofun hrun rfl
    fun _ _ => filled_plain hplain

end

section

variable (h : p.Ready id texts)

include h

section

variable (hkind : (p.node id).kind = kind)

include hkind

lemma renders_first (hbare : kind.isBare = true) (before after : String) (harity : 1 ≤ kind.arity)
    (hrule : kind.bareRules.rule? kind (p.node id).name = some rule)
    (hrun : (rule id).run emitter p = .ok (some (.text (before ++ Template.child 0 ++ after))) p)
    (hbefore : '%' ∉ before.toList) (hafter : '%' ∉ after.toList) :
    Renders emitter id texts (before ++ texts.headD "" ++ after) p := by
  have hfirst : texts[0]? = some (texts.headD "") := by
    have := h.arity
    rw [hkind] at this
    cases texts with
    | nil => exact absurd (Nat.le_trans harity this) (by decide)
    | cons t ts => rfl
  refine renders_of_rule h hkind hbare none _ hrule nofun hrun rfl fun props hprops => ?_
  rw [String.toList_append, String.toList_append, String.toList_append, String.toList_append]
  exact ((filled_plain hbefore).append (hprops.filled_child hfirst)).append (filled_plain hafter)

/-! ### All kinds -/

lemma exists_firstChild (harity : 1 ≤ kind.arity) :
    ∃ (first : Nat) (rest : List Nat), (p.node id).children = first :: rest ∧
      child id 0 p = .ok first p ∧
      texts = (p.node first).str :: rest.map fun c => (p.node c).str := by
  have hlen := h.arity
  have hstrs := h.strs
  rw [hkind] at hlen
  cases hchildren : (p.node id).children with
  | nil =>
    rw [hchildren] at hstrs
    rw [← hstrs] at hlen
    exact absurd (Nat.le_trans harity hlen) (Nat.not_succ_le_zero 0)
  | cons first rest =>
    rw [hchildren] at hstrs
    exact ⟨first, rest, rfl, child_natCast_eq (by rw [hchildren]; rfl), hstrs.symm⟩

lemma renders_power (hbare : kind.isBare = true) (harity : 1 ≤ kind.arity)
    (hrule : kind.bareRules.rule? kind (p.node id).name = some power) :
    Renders emitter id texts (texts.tail.foldl (fun text exponent =>
      "pow(" ++ text ++ ", " ++ exponent ++ ")") (texts.headD "")) p := by
  obtain ⟨first, rest, _, hchild, htexts⟩ := exists_firstChild h hkind harity
  have hplain := not_mem_powers (not_mem_headD h.plain) fun t ht =>
    h.plain t (mem_of_mem_tail ht)
  refine renders_plain h hkind hbare hrule ?_ hplain
  refine rule_bind_run hchild ?_
  refine rule_bind_run rfl ?_
  refine rule_bind_run childTexts_eq ?_
  rw [h.strs, htexts]
  rfl

end

lemma renders_mul (hkind : (p.node id).kind = .mul) :
    Renders emitter id texts (joinWith "*" texts) p := by
  have hbelow := (h.typeless (by rw [hkind]; rfl)).2
  obtain ⟨first, rest, hchildren, hchild, -⟩ := exists_firstChild h hkind (by decide)
  have hfirst := hbelow first (by rw [hchildren]; exact .head _)
  refine renders_between h hkind rfl rfl ?_ (by decide)
  refine rule_bind_run hchild ?_
  exact rule_bind_ok (isNumeric_eq hfirst)

lemma renders_plus (hkind : (p.node id).kind = .plus) :
    Renders emitter id texts (joinWith "+" texts) p := by
  have hbody : (p.node id).kind.isBody = true := by rw [hkind]; rfl
  obtain ⟨hless, hbelow⟩ := h.typeless hbody
  let value := "non-numerical addition " ++ ("[" ++ ", ".intercalate ((replicate
    (p.node id).children.length Datatype.unknown).map fun type => quoted type.name) ++ "]")
  have htypes : ∀ t ∈ (replicate (p.node id).children.length Datatype.unknown).map fun type =>
      quoted type.name, '%' ∉ t.toList := by
    intro t ht
    obtain ⟨type, htype, rfl⟩ := mem_map.mp ht
    rw [(mem_replicate.mp htype).2]
    exact not_mem_quoted (by decide)
  have hvalue : '%' ∉ value.toList := by
    refine not_mem_append (by decide) (not_mem_append (not_mem_append (by decide) ?_) (by decide))
    rw [String.toList_intercalate]
    exact not_mem_intercalate (by decide) (forall_mem_map.2 htypes)
  have hshown : shownTypes id p = .ok _ p := bind_ok (childTypes_eq hbelow)
  refine renders_of_rule h hkind rfl (some value) (.around "" "+" "") rfl ?_ ?_ rfl ?_
  · rintro _ ⟨⟩
    exact hvalue
  · refine rule_bind_run (isNumeric_eq hless) ?_
    refine rule_bind_run hshown ?_
    cases hrun : error id value p with
    | error failure p' =>
      have hstop : (remark id (some value) >>= fun _ => pure (some (Emission.around "" "+" ""))) p =
          .error failure p' := bind_error hrun
      rw [hstop]
      exact bind_error hrun
    | ok _ p' =>
      have hgoes : (remark id (some value) >>= fun _ => pure (some (Emission.around "" "+" ""))) p =
          .ok (some (Emission.around "" "+" "")) p' := bind_ok hrun
      have hless' := h.remarked hbody value p' hvalue hrun
      rw [hgoes]
      refine rule_bind_run hrun ?_
      refine rule_bind_run (hasElement_eq hless' .complex) ?_
      exact rule_bind_ok (bind_ok (shapeOf_eq hless'))
  · intro props hprops
    have : Filled props (Emission.assemble "" ["+"] "" texts.length).toList
        ([] ++ ((joinWith "+" texts).toList ++ "".toList)) :=
      hprops.filled_around .nil (by decide) (by decide)
    simpa using this

omit h in
lemma joinWith_merge (sep a b : String) (rest : List String) :
    joinWith sep ((a ++ sep ++ b) :: rest) = joinWith sep (a :: b :: rest) := by
  cases rest with
  | nil => rfl
  | cons c rest => simp only [joinWith, String.append_assoc]

omit h in
lemma beq_eq_false_of_isBare {a b : Kind} (ha : a.isBare = true) (hb : b.isBare = false) :
    (a == b) = false := by
  rw [beq_eq_false_iff_ne]
  rintro rfl
  cases ha.symm.trans hb

omit h in
lemma dividedBy_eq (dividend : String) (ids : List Nat)
    (hids : ∀ c ∈ ids, (p.node c).kind.isBare = true) :
    dividedBy false dividend ids p =
      .ok (joinWith "/" (dividend :: ids.map fun c => (p.node c).str)) p := by
  induction ids generalizing dividend with
  | nil => rfl
  | cons c ids ih =>
    have hkind := beq_eq_false_of_isBare (b := .int) (hids c (.head _)) rfl
    rw [map_cons, ← joinWith_merge, ← ih _ fun d hd => hids d (.tail _ hd)]
    show dividedBy false (if ((p.node c).kind == .int) = true then _ else _) ids p = _
    rw [hkind]
    rfl

lemma renders_elementDivision (hkind : (p.node id).kind = .elementDivision) :
    Renders emitter id texts (joinWith "/" texts) p := by
  have hless := (h.typeless (by rw [hkind]; rfl)).1
  obtain ⟨first, rest, hchildren, hchild, htexts⟩ := exists_firstChild h hkind (by decide)
  have hquotient := dividedBy_eq (p.node first).str rest fun c hc =>
    h.below c (by rw [hchildren]; exact .tail _ hc)
  rw [← htexts] at hquotient
  have hchildren' : children id p = .ok (first :: rest) p :=
    ok_congr hchildren
  refine renders_plain h hkind rfl rfl ?_ (not_mem_joinWith "/" (by decide) h.plain)
  refine rule_bind_run hchild ?_
  refine rule_bind_run (isTyped_eq hless) ?_
  rw [if_neg (by decide), pure_bind]
  refine rule_bind_run rfl ?_
  refine rule_bind_run hchildren' ?_
  exact rule_bind_ok hquotient

omit h in
lemma blockLines_eq (text : String) (ids : List Nat)
    (hids : ∀ c ∈ ids, (p.node c).kind.isBare = true) :
    blockLines text ids p = .ok (joinWith "\n" (text :: ids.map fun c => (p.node c).str)) p := by
  induction ids generalizing text with
  | nil => rfl
  | cons c ids ih =>
    have hkind := beq_eq_false_of_isBare (b := .ecomment) (hids c (.head _)) rfl
    rw [map_cons, ← joinWith_merge, ← ih _ fun d hd => hids d (.tail _ hd)]
    show blockLines (text ++ (if ((p.node c).kind == .ecomment) = true then _ else _) ++ _) ids
      p = _
    rw [hkind]
    rfl

lemma renders_block (hkind : (p.node id).kind = .block) :
    Renders emitter id texts (if texts = [] then "// Empty block" else joinWith "\n" texts) p := by
  have hstrs := h.strs
  cases hchildren : (p.node id).children with
  | nil =>
    rw [hchildren, map_nil] at hstrs
    rw [if_pos hstrs.symm]
    refine renders_plain h hkind rfl rfl ?_ (by decide)
    exact rule_bind_ok (show children id p = .ok [] p from ok_congr hchildren)
  | cons first rest =>
    rw [hchildren, map_cons] at hstrs
    rw [if_neg (by rw [← hstrs]; exact cons_ne_nil _ _)]
    refine renders_plain h hkind rfl rfl ?_ (not_mem_joinWith "\n" (by decide) h.plain)
    have hlines := blockLines_eq (p.node first).str rest fun c hc =>
      h.below c (by rw [hchildren]; exact .tail _ hc)
    rw [hstrs] at hlines
    refine rule_bind_run (show children id p = .ok (first :: rest) p from ok_congr hchildren) ?_
    refine rule_bind_run rfl ?_
    exact rule_bind_ok hlines

lemma renders_main (hkind : (p.node id).kind = .main) : Renders emitter id texts
      (withBlock "int main(int argc, char** argv)" (texts.getD 3 "" ++ "\nreturn 0 ;")) p := by
  obtain ⟨d, rest, hchildren, hempty⟩ := h.declares hkind
  have hchild : child id 0 p = .ok d p :=
    child_natCast_eq (by rw [hchildren]; rfl)
  have hcount : count d p = .ok 0 p :=
    congrArg (fun cs : List Nat => EStateM.Result.ok cs.length p) hempty
  have hblock : texts[3]? = some (texts.getD 3 "") := by
    have := h.arity
    rw [hkind] at this
    rw [getD_eq_getElem?_getD, getElem?_eq_getElem this]
    rfl
  refine renders_of_rule h hkind rfl none
    (.text (withBlock "int main(int argc, char** argv)"
      (Template.child 3 ++ "\nreturn 0 ;"))) rfl nofun ?_ rfl fun props hprops => ?_
  · refine rule_bind_run hchild ?_
    exact rule_bind_ok hcount
  · unfold withBlock
    simp only [String.toList_append]
    refine ((filled_plain ?_).append ((hprops.filled_child hblock).append (filled_plain ?_))).append
      (filled_plain ?_)
    · decide
    · decide
    · decide

lemma renders_funcs (hkind : (p.node id).kind = .funcs) :
    Renders emitter id texts (squeezeLines (joinWith "\n\n" texts)) p := by
  have hplain : '%' ∉ (squeezeLines (joinWith "\n\n" texts)).toList := by
    unfold squeezeLines
    rw [String.toList_ofList]
    exact fun hmem => not_mem_joinWith "\n\n" (by decide) h.plain (mem_of_mem_squeezeChars hmem)
  refine renders_plain h hkind rfl rfl ?_ hplain
  refine rule_bind_run childTexts_eq ?_
  rw [h.strs]
  rfl

end

/-- A node of a bare program is emitted by its rule, unless it is a quotient of matrices. -/
lemma renders_of_ready (emitter : Emitter) (h : p.Ready id texts)
    (hbare : (p.node id).kind.isBare = true)
    (hne : (p.node id).kind ∉ [.project, .program, .includes, .log, .matrixDivision]) :
    Renders emitter id texts ((p.node id).kind.rendered (p.node id).name texts) p := by
  have hleaf : (p.node id).kind ∈ [.declares, .params, .inlines, .structs, .headers] →
      texts = [] ∧ (p.node id).children = [] := by
    intro hmem
    have hchildren := h.leaf hmem
    exact ⟨by rw [← h.strs, hchildren, map_nil], hchildren⟩
  have hless := h.typeless
  cases hkind : (p.node id).kind
  all_goals rw [hkind] at hbare hne hleaf hless
  case var => exact renders_var h hkind
  case get =>
    refine renders_of_rule h hkind rfl none (.call "%(name)s") rfl nofun rfl rfl
      fun props hprops => ?_
    have hbefore : Filled props ("%(name)s" ++ "(").toList ((p.node id).name.toList ++ ['(']) := by
      exact hprops.filled_name.append (filled_plain (by decide))
    have := hprops.filled_around hbefore (show '%' ∉ ", ".toList by decide)
      (show '%' ∉ ")".toList by decide)
    simpa [Kind.rendered] using this
  case paren => exact renders_first h hkind rfl "(" ")" (by decide) rfl rfl (by decide) (by decide)
  case neg => exact renders_around h hkind rfl rfl rfl (by decide) (by decide) (by decide)
  case not => exact renders_around h hkind rfl rfl rfl (by decide) (by decide) (by decide)
  case transpose =>
    refine renders_first h hkind rfl "arma::strans(" ")" (by decide) rfl ?_ (by decide) (by decide)
    exact rule_bind_ok (isNumeric_eq (hless rfl).1)
  case ctranspose =>
    refine renders_around h hkind rfl rfl ?_ (by decide) (by decide) (by decide)
    exact rule_bind_ok (isNumeric_eq (hless rfl).1)
  case exp | elexp => exact renders_power h hkind rfl (by decide) rfl
  case mul => exact renders_mul h hkind
  case elmul =>
    refine renders_between h hkind rfl rfl ?_ (by decide)
    exact rule_bind_ok (isTyped_eq (hless rfl).1)
  case plus => exact renders_plus h hkind
  case elementDivision => exact renders_elementDivision h hkind
  case leftMatrixDivision | leftElementDivision =>
    refine renders_between h hkind rfl rfl ?_ (by decide)
    exact rule_bind_ok (isTyped_eq (hless rfl).1)
  case statement =>
    have : Renders emitter id texts ("" ++ texts.headD "" ++ " ;") p :=
      renders_first h hkind rfl "" " ;" (by decide) rfl rfl (by decide) (by decide)
    rwa [String.empty_append] at this
  case block => exact renders_block h hkind
  case main => exact renders_main h hkind
  case funcs => exact renders_funcs h hkind
  case minus | gt | ge | lt | le | ne | eq | band | bor | land | lor =>
    exact renders_between h hkind rfl rfl rfl (by decide)
  case declares | params =>
    obtain ⟨rfl, hnone⟩ := hleaf (by decide)
    refine renders_plain h hkind rfl rfl ?_ not_mem_nil
    exact rule_bind_ok (show children id p = .ok [] p from ok_congr hnone)
  case inlines =>
    obtain ⟨rfl, hnone⟩ := hleaf (by decide)
    refine renders_plain h hkind rfl rfl ?_ not_mem_nil
    exact rule_bind_ok (show names id p = .ok [] p from congrArg (fun ids : List Nat =>
      EStateM.Result.ok (ids.map fun c => (p.node c).name) p) hnone)
  case structs | headers =>
    obtain ⟨rfl, -⟩ := hleaf (by decide)
    exact renders_around h hkind rfl rfl rfl (by decide) (by decide) (by decide)
  case returns =>
    refine renders_of_rule h hkind rfl none (.pieces ["", ""]) rfl nofun rfl rfl
      fun props hprops => ?_
    have : Filled props (Emission.assemble "" [""] "" texts.length).toList
        ([] ++ ((joinWith "" texts).toList ++ "".toList)) :=
      hprops.filled_around .nil (by decide) (by decide)
    rwa [String.toList_empty, append_nil] at this
  all_goals first | exact absurd hbare (by decide) | exact absurd (by decide) hne

/-! ### Quotients of matrices -/

lemma matrixQuotient_eq {divisor : Nat} {rest : List Nat} (hless : p.Typeless divisor)
    (hbare : (p.node divisor).kind.isBare = true) (dividend : String) (shape : Shape)
    (element : Element) :
    matrixQuotient id dividend shape element (divisor :: rest) p = .error .wrongSort p := by
  have hkind : ((p.node divisor).kind == .int) = false := by
    rw [beq_eq_false_iff_ne]
    intro heq
    rw [heq] at hbare
    cases hbare
  refine bind_run rfl ?_
  refine bind_run (shapeOf_eq hless) ?_
  refine bind_run (show kind divisor p = .ok (p.node divisor).kind p from rfl) ?_
  rw [hkind]
  exact bind_error (bind_ok (elementOf_eq hless))

lemma ruleEmission_matrixDivision (emitter : Emitter) (h : p.Ready id texts)
    (hkind : (p.node id).kind = .matrixDivision) :
    ruleEmission emitter id p = .error .wrongSort p := by
  have hbelow := (h.typeless (by rw [hkind]; rfl)).2
  obtain ⟨first, rest, hchildren, hchild, htexts⟩ := exists_firstChild h hkind (by decide)
  have hchildren' : children id p = .ok (first :: rest) p :=
    ok_congr hchildren
  have hfirst := hbelow first (by rw [hchildren]; exact .head _)
  obtain ⟨divisor, more, rfl⟩ : ∃ divisor more, rest = divisor :: more := by
    have := h.arity
    rw [hkind, htexts, length_cons, length_map] at this
    cases rest with
    | nil => exact absurd this (by decide)
    | cons divisor more => exact ⟨divisor, more, rfl⟩
  have hdivisor : divisor ∈ (p.node id).children := by
    rw [hchildren]
    exact .tail _ (.head _)
  have hscalar : allScalar id p = .ok false p := by
    refine bind_run hchildren' ?_
    have : (first :: divisor :: more).mapM shapeOf p =
        .ok ((first :: divisor :: more).map fun _ => none) p :=
      mapM_eq fun c hc => shapeOf_eq (hbelow c (by rw [hchildren]; exact hc))
    exact bind_ok this
  have hrun : (matrixDivision id).run emitter p = .error .wrongSort p := by
    refine rule_bind_run hchild ?_
    refine rule_bind_run rfl ?_
    refine rule_bind_run (elementOf_eq hfirst) ?_
    refine rule_bind_run (shapeOf_eq hfirst) ?_
    refine rule_bind_run hscalar ?_
    refine rule_bind_run hchildren' ?_
    exact bind_error (matrixQuotient_eq (hbelow divisor hdivisor) (h.below divisor hdivisor) _ _ _)
  refine ruleEmission_of_error ?_ ?_ hrun
  · rw [h.backend, hkind]
    rfl
  · rw [h.backend, hkind]
    rfl

end Edit

end ArmaGen
