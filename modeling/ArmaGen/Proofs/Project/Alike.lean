import ArmaGen.Proofs.Project.Tidy
import ArmaGen.Proofs.Syntax.Placeless

/-!
# Loading does not look at places

Computations are alike if they take projects that differ in places only to such projects, with the
same result (`Edit.Alike`). Building trees that differ in places only is alike
(`Edit.alike_install`), so that texts with such trees are loaded as projects that are alike.
-/

namespace ArmaGen

open Syntax

namespace Project

variable {p p' : Project} {id : NodeId}

section

variable (h : p.placeless = p'.placeless)

include h

lemma nodes_map_eq : p.nodes.map Node.placeless = p'.nodes.map Node.placeless :=
  congrArg nodes h

lemma size_alike : p.size = p'.size := by
  rw [← size_placeless, ← size_placeless p', h]

lemma placeless_nodes {nodes nodes' : Array Node}
    (hnodes : nodes.map Node.placeless = nodes'.map Node.placeless) :
    { p with nodes }.placeless = { p' with nodes := nodes' }.placeless := by
  show { p.placeless with nodes := nodes.map Node.placeless } = _
  rw [h, hnodes]
  rfl

lemma placeless_update {f f' : Node → Node} (hf : ∀ node node', node.placeless = node'.placeless →
      (f node).placeless = (f' node').placeless) :
    (p.update id f).placeless = (p'.update id f').placeless := by
  refine placeless_nodes h (Array.ext_getElem? fun j => ?_)
  have hj : p.nodes[j]?.map Node.placeless = p'.nodes[j]?.map Node.placeless := by
    rw [← Array.getElem?_map, ← Array.getElem?_map, nodes_map_eq h]
  simp only [Array.getElem?_map, Array.getElem?_modify]
  split
  · cases hp : p.nodes[j]? with
    | none =>
      cases hp' : p'.nodes[j]? with
      | none => rfl
      | some node' => rw [hp, hp'] at hj; cases hj
    | some node =>
      cases hp' : p'.nodes[j]? with
      | none => rw [hp, hp'] at hj; cases hj
      | some node' =>
        rw [hp, hp'] at hj
        exact congrArg some (hf node node' (Option.some.inj hj))
  · exact hj

lemma placeless_make {node node' : Node} (hnode : node.placeless = node'.placeless) :
    (p.make id node).placeless = (p'.make id node').placeless := by
  have hnew : ({ node with parent := id }).placeless =
      ({ node' with parent := id }).placeless :=
    congrArg (fun node : Node => { node with parent := id }) hnode
  have hpush : { p with nodes := p.nodes.push { node with parent := id } }.placeless =
      { p' with nodes := p'.nodes.push { node' with parent := id } }.placeless := by
    refine placeless_nodes h ?_
    rw [Array.map_push, Array.map_push, nodes_map_eq h, hnew]
  refine placeless_update hpush fun above above' habove => ?_
  rw [size_alike h]
  exact congrArg (fun node : Node => { node with children := node.children ++ [p'.size] }) habove

end

end Project

namespace Edit

variable {α β : Type}

/-- What a computation gives, without places. -/
def placelessly : EStateM.Result Failure Project α → EStateM.Result Failure Project α
  | .ok a p => .ok a p.placeless
  | .error failure p => .error failure p.placeless

/-- Computations that take projects that are alike to such projects, with the same result or
failure. -/
def Alike (m m' : Edit α) : Prop :=
  ∀ ⦃p p' : Project⦄, p.placeless = p'.placeless → placelessly (m p) = placelessly (m' p')

/-- A computation that does not look at places. -/
abbrev Blind (m : Edit α) : Prop :=
  Alike m m

variable {m m' : Edit α} {f f' : α → Edit β}

lemma placelessly_bind {p p' : Project} (hrun : placelessly (m p) = placelessly (m' p'))
    (hf : ∀ ⦃a q q'⦄, m p = .ok a q → q.placeless = q'.placeless →
      placelessly (f a q) = placelessly (f' a q')) :
    placelessly ((m >>= f) p) = placelessly ((m' >>= f') p') := by
  show placelessly (EStateM.bind m f p) = placelessly (EStateM.bind m' f' p')
  unfold EStateM.bind
  cases h : m p with
  | ok a q =>
    cases h' : m' p' with
    | ok a' q' =>
      rw [h, h'] at hrun
      injection hrun with ha hq
      subst ha
      exact hf h hq
    | error => rw [h, h'] at hrun; cases hrun
  | error failure q =>
    cases h' : m' p' with
    | ok => rw [h, h'] at hrun; cases hrun
    | error =>
      rw [h, h'] at hrun
      injection hrun with ha hq
      subst ha
      exact congrArg (EStateM.Result.error failure) hq

lemma Alike.bind (hm : Alike m m') (hf : ∀ a, Alike (f a) (f' a)) : Alike (m >>= f) (m' >>= f') :=
  fun _ _ hp => placelessly_bind (hm hp) fun a _ _ _ hq => hf a hq

lemma blind_pure (a : α) : Blind (pure a) := by
  intro p p' hp
  exact congrArg (EStateM.Result.ok a) hp

lemma Alike.ite {c : Prop} [Decidable c] {n n' : Edit α} (h : Alike m m') (h' : Alike n n') :
    Alike (if c then m else n) (if c then m' else n') := by
  split
  · exact h
  · exact h'

lemma alike_make {parent : NodeId} {node node' : Node} (h : node.placeless = node'.placeless) :
    Alike (make parent node) (make parent node') := by
  intro p p' hp
  show EStateM.Result.ok p.size (p.make parent node).placeless =
    .ok p'.size (p'.make parent node').placeless
  rw [Project.size_alike hp, Project.placeless_make hp h]

lemma blind_make (parent : NodeId) (node : Node) : Blind (make parent node) :=
  alike_make rfl

lemma Tidy.blind (h : Tidy anywhere m) : Blind m := by
  induction h with
  | pure a => exact blind_pure a
  | throw failure => exact fun _ _ hp => congrArg (EStateM.Result.error failure) hp
  | @getBind _ f _ hplaceless ih =>
    intro p p' hp
    show placelessly (f p p) = placelessly (f p' p')
    rw [← hplaceless p, hp, hplaceless p']
    exact ih p' hp
  | @nodeBind _ id f _ hplaceless ih =>
    intro p p' hp
    show placelessly (f (p.node id) p) = placelessly (f (p'.node id) p')
    rw [← hplaceless (p.node id), ← Project.node_placeless, hp, Project.node_placeless, hplaceless]
    exact ih _ hp
  | update hplaceless =>
    intro p p' hp
    refine congrArg (EStateM.Result.ok ()) (Project.placeless_update hp fun node node' h => ?_)
    rw [← hplaceless node, h, hplaceless node']
  | make => exact blind_make ..
  | bind _ _ ihm ihf => exact ihm.bind ihf

/-! ### Building -/

section

variable {id : NodeId}

lemma alike_makeAnonymous (head : Head) :
    Alike (makeAnonymous id head) (makeAnonymous id head.placeless) :=
  tidy_funcsOf.blind.bind fun _ => tidy_names.blind.bind fun _ => alike_make rfl

mutual

lemma alike_installItem (parent : NodeId) (tree : Syntax) :
    Alike (installItem parent tree) (installItem parent tree.placeless) := by
  cases tree with
  | declare => exact tidy_declare.blind
  | node head items =>
    have hitems := fun id => alike_install id items
    have hmake : Alike (make parent (.ofHead head)) (make parent (.ofHead head.placeless)) :=
      alike_make rfl
    refine .ite ?_ (.ite ?_ ?_)
    · exact (alike_makeAnonymous _).bind fun _ => (hitems _).bind fun _ =>
        (tidy_completeAnonymous parent).blind
    · exact hmake.bind fun _ => hitems _
    · refine tidy_kind.blind.bind fun _ => .ite ?_ ?_
      · refine hmake.bind fun _ => (hitems _).bind fun _ => ?_
        rw [show head.placeless.code?.isSome = head.code?.isSome by simp [Head.placeless]]
        exact .ite tidy_completeFunction.blind (blind_pure ())
      · exact (alike_makeAnonymous head).bind fun _ => hitems _

/-- Trees that differ in places only are built into projects that do. -/
lemma alike_install (parent : NodeId) (trees : List Syntax) :
    Alike (install parent trees) (install parent (placelessAll trees)) := by
  cases trees with
  | nil => exact blind_pure ()
  | cons tree trees =>
    exact (alike_installItem parent tree).bind fun _ => alike_install parent trees

end

/-! ### Loading -/

lemma alike_makeProgram (name text text' : String) :
    Alike (makeProgram name text) (makeProgram name text') := by
  have hprogram : Alike
      (make root { kind := .program, name, cur? := some 0, code? := some text })
      (make root { kind := .program, name, cur? := some 0, code? := some text' }) :=
    alike_make rfl
  refine hprogram.bind fun _ => (blind_make ..).bind fun _ => (blind_make ..).bind fun _ => ?_
  refine (blind_make ..).bind fun _ => (blind_make ..).bind fun _ => (blind_make ..).bind fun _ =>
    (blind_make ..).bind fun _ => blind_pure _

variable {p : Project} {trees trees' : List Syntax} {code code' : String}

variable (name : String) (htrees : placelessAll trees = placelessAll trees')

include htrees

section

variable {p' : Project} (h : Parse.program.Yields (loadSetting p code) trees ())
  (h' : Parse.program.Yields (loadSetting p code') trees' ()) (hp : p.placeless = p'.placeless)

include h h' hp

lemma placelessly_build : placelessly (build id (programText code) Parse.program p) =
      placelessly (build id (programText code') Parse.program p') := by
  have hsetting : loadSetting p code' = loadSetting p' code' := by
    have hoptions : p.options = p'.options :=
      show p.placeless.options = p'.placeless.options by rw [hp]
    unfold loadSetting
    rw [hoptions]
  obtain ⟨shown, hbuild⟩ := exists_build_run id h
  obtain ⟨shown', hbuild'⟩ := exists_build_run id (hsetting ▸ h')
  rw [hbuild, hbuild']
  have hinstall : Alike (install id trees) (install id trees') := by
    intro q q' hq
    have hforms := alike_install id trees hq
    rw [htrees] at hforms
    exact hforms.trans (alike_install id trees' rfl).symm
  exact hinstall hp

lemma placelessly_program :
    placelessly ((do
        build (← makeProgram name (programText code)) (programText code) Parse.program
        findUnassigned name) p) =
      placelessly ((do
        build (← makeProgram name (programText code')) (programText code') Parse.program
        findUnassigned name) p') := by
  refine placelessly_bind (alike_makeProgram name _ _ hp) fun funcs q q' hmake hq => ?_
  have hsetting : ∀ code, loadSetting p code = loadSetting q code := by
    intro code
    unfold loadSetting
    rw [options_of_makeProgram hmake]
  rw [hsetting] at h h'
  exact placelessly_bind (placelessly_build htrees h h' hq) fun _ _ _ _ hr =>
    (tidy_findUnassigned name).blind hr

end

/-- Texts that are read as the same functions, but for places, are loaded as projects that are
alike. -/
lemma exists_load_alike (directory : Directory) {options : Options}
    (h : Parse.program.Yields (loadSetting { options } code) trees ())
    (h' : Parse.program.Yields (loadSetting { options } code') trees' ())
    (hfuncs : ∀ tree ∈ trees, tree.IsFunc) :
    ∃ p p', load name code { options, directory } = .ok () p ∧
      load name code' { options, directory } = .ok () p' ∧ p.placeless = p'.placeless ∧ p.Frame ∧
      p.Bears 3 (.node .funcs name "" (outlines trees)) := by
  obtain ⟨shown, hload⟩ := exists_load_eq name code { options, directory }
  obtain ⟨shown', hload'⟩ := exists_load_eq name code' { options, directory }
  obtain ⟨p, hbuild, hframe, hbears⟩ := exists_build_eq name
    (p := { options, directory, text? := some (programText code), shown })
    rfl rfl rfl (Project.unruled_of_nodes_eq rfl) h hfuncs
  have hrun : load name code { options, directory } = .ok () p := hload.trans hbuild
  have halike : placelessly (load name code { options, directory }) =
      placelessly (load name code' { options, directory }) := by
    rw [hload, hload']
    exact placelessly_program name htrees h h' rfl
  rw [hrun] at halike
  cases hrun' : load name code' { options, directory } with
  | ok _ p' =>
    rw [hrun'] at halike
    injection halike with _ hp
    exact ⟨p, p', hrun, rfl, hp, hframe, hbears⟩
  | error =>
    rw [hrun'] at halike
    cases halike

end

end Edit

end ArmaGen
