import ArmaGen.Infer.Configure
import ArmaGen.Project.Load
import ArmaGen.Proofs.Project.Install

/-!
# Passes over the nodes

Datatypes are inferred in passes, until a pass is made after which nothing is suggested. There need
not be such a pass: if passes lead back to the project they started from, something is suggested
after every one of them (`Edit.exists_pending_of_circles`). This is so for a function with a loop
over a variable of its own name (`Edit.exists_pending_forever`).
-/

namespace ArmaGen

deriving instance DecidableEq for Project

namespace Edit

variable {configure : NodeId → Edit Unit} {suggest : Bool} {ids : List NodeId} {k : Nat}
  {p : Project}

/-- One pass over nodes; tells whether nothing is suggested after it. -/
def inferPass (configure : NodeId → Edit Unit) (suggest : Bool) (ids : List NodeId) :
    Edit Bool := do
  inferNodes configure ids
  if suggest then adoptSuggestions (← children root) else return true

/-- A number of passes lead from one project to another, and something is suggested after each. -/
inductive Pending (configure : NodeId → Edit Unit) (suggest : Bool) (ids : List NodeId) :
    Nat → Project → Project → Prop where
  | none {p : Project} : Pending configure suggest ids 0 p p
  | pass {n : Nat} {p q r : Project} (h : inferPass configure suggest ids p = .ok false q)
      (hrest : Pending configure suggest ids n q r) : Pending configure suggest ids (n + 1) p r

/-- Whether something is suggested after each of `n` passes and one more, which leads back. -/
def circles (configure : NodeId → Edit Unit) (suggest : Bool) (ids : List NodeId) :
    Nat → Project → Bool
  | n, p =>
    match inferPass configure suggest ids p, n with
    | .ok false q, 0 => decide (q = p)
    | .ok false q, n + 1 => circles configure suggest ids n q
    | _, _ => false

lemma exists_pending_of_circles (h : circles configure suggest ids k p = true) (n : Nat) :
    ∃ r, Pending configure suggest ids n p r := by
  induction n generalizing k p with
  | zero => exact ⟨p, .none⟩
  | succ n ih =>
    have hcircles := h
    unfold circles at h
    split at h
    · next q hpass =>
      obtain rfl := of_decide_eq_true h
      obtain ⟨r, hr⟩ := ih hcircles
      exact ⟨r, .pass hpass hr⟩
    · next q k hpass =>
      obtain ⟨r, hr⟩ := ih h
      exact ⟨r, .pass hpass hr⟩
    · cases h

/-- In a function with a loop over a variable of its own name, something is suggested after every
pass. -/
theorem exists_pending_forever : ∃ p,
    load "unamed" "function y = f()\nfor f = 1:3\nend\nend" {} = .ok () p ∧
    ∀ n, ∃ r, Pending (configureSteps p.nodes.size true) true (p.postorder true root) n
      { p with configured := true } r := by
  have hruns : (load "unamed" "function y = f()\nfor f = 1:3\nend\nend").passes {} (fun _ p =>
      circles (configureSteps p.nodes.size true) true (p.postorder true root) 2
        { p with configured := true }) = true := by decide +kernel
  obtain ⟨⟨⟩, p, hload, hcircles⟩ := exists_of_passes hruns
  exact ⟨p, hload, exists_pending_of_circles hcircles⟩

end Edit

end ArmaGen
