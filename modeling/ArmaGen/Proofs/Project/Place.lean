import ArmaGen.Proofs.Project.Install

/-!
# The places of nodes

Position and text of a node are its own, or those of the node above it (`Project.Inherits`). Its
line is that of the node above it, and one more for each line end between the two
(`Project.OnLine`). This is what look-ups find (`Edit.finds_cur`, `Edit.finds_code`,
`Edit.finds_line`), whatever has been remembered before, as long as it is right
(`Project.Knows`). A look-up that succeeds changes nothing but what is remembered (`Edit.Consults`).
-/

namespace ArmaGen

/-- The node without what look-ups of its place remember, and without the literal of its rule. -/
def Node.settled (node : Node) : Node :=
  { node with cur? := none, code? := none, foundLine? := none, ret := "" }

/-- The line of a node that is known without a look at the node above it. -/
def Node.ownLine? (node : Node) : Option Int :=
  match node.foundLine? with
  | some line => some line
  | none =>
    match node.kind with
    | .project => some 0
    | .funcs => some 1
    | _ => none

namespace Project

variable {α : Type} {p r r' : Project} {read : Node → Option α} {P : Nat → α → Prop} {id : Nat}
  {a b : α} {line line' : Int} {f : Node → Node}

/-! ### Positions, texts and lines -/

/-- A property of a node is its own, or that of the node above it. -/
inductive Inherits (p : Project) (read : Node → Option α) : Nat → α → Prop where
  | own {id : Nat} {a : α} (h : read (p.node id) = some a) : Inherits p read id a
  | above {id : Nat} {a : α} (h : read (p.node id) = none) (hlt : (p.node id).parent < id)
      (rest : Inherits p read (p.node id).parent a) : Inherits p read id a

lemma Inherits.unique (h : p.Inherits read id a) (h' : p.Inherits read id b) : a = b := by
  induction h with
  | own h =>
    cases h' with
    | own h' => exact Option.some.inj (h.symm.trans h')
    | above h' => cases h.symm.trans h'
  | above h _ _ ih =>
    cases h' with
    | own h' => cases h.symm.trans h'
    | above _ _ rest => exact ih rest

/-- The position of a node. -/
abbrev Place (p : Project) : Nat → Int → Prop :=
  p.Inherits (·.cur?)

/-- The line of a node is known, or is found by climbing to the node above and counting the line
ends in between. -/
inductive OnLine (p : Project) : Nat → Int → Prop where
  | own {id : Nat} {line : Int} (h : (p.node id).ownLine? = some line) : OnLine p id line
  | above {id program : Nat} {line above cur : Int} {code : String}
      (h : (p.node id).ownLine? = none) (hlt : (p.node id).parent < id)
      (rest : OnLine p (p.node id).parent line) (habove : p.Place (p.node id).parent above)
      (hcur : p.Place id cur) (hprogram : Edit.program id p = .ok program p)
      (hsize : program < p.size) (hcode : p.Inherits (·.code?) program code) :
      OnLine p id (line + (Source.ofString code).lineEnds above cur)

lemma OnLine.unique (h : p.OnLine id line) (h' : p.OnLine id line') : line = line' := by
  induction h generalizing line' with
  | own h =>
    cases h' with
    | own h' => exact Option.some.inj (h.symm.trans h')
    | above h' => cases h.symm.trans h'
  | above h _ _ habove hcur hprogram _ hcode ih =>
    cases h' with
    | own h' => cases h.symm.trans h'
    | above _ _ rest habove' hcur' hprogram' _ hcode' =>
      cases hprogram.symm.trans hprogram'
      rw [ih rest, habove.unique habove', hcur.unique hcur', hcode.unique hcode']

/-! ### What is remembered -/

/-- A project differs from another one in what look-ups remember only. -/
structure Remembers (p r : Project) : Prop where
  size : r.size = p.size
  settled : ∀ id, (r.node id).settled = (p.node id).settled
  rest : { r with nodes := #[] } = { p with nodes := #[] }

namespace Remembers

lemma refl (p : Project) : p.Remembers p :=
  ⟨rfl, fun _ => rfl, rfl⟩

section

variable (h : p.Remembers r)

include h

lemma trans (h' : r.Remembers r') : p.Remembers r' :=
  ⟨h'.size.trans h.size, fun id => (h'.settled id).trans (h.settled id), h'.rest.trans h.rest⟩

lemma kind (id : Nat) : (r.node id).kind = (p.node id).kind :=
  (congrArg Node.kind (h.settled id) :)

lemma parent (id : Nat) : (r.node id).parent = (p.node id).parent :=
  (congrArg Node.parent (h.settled id) :)

lemma children (id : Nat) : (r.node id).children = (p.node id).children :=
  (congrArg Node.children (h.settled id) :)

lemma str (id : Nat) : (r.node id).str = (p.node id).str :=
  (congrArg Node.str (h.settled id) :)

lemma options : r.options = p.options :=
  (congrArg Project.options h.rest :)

lemma depth : r.depth = p.depth :=
  (congrArg Project.depth h.rest :)

end

end Remembers

/-- A property is as it was at each node, or has been found. -/
def Kept (read : Node → Option α) (P : Nat → α → Prop) (p r : Project) : Prop :=
  ∀ id, read (r.node id) = read (p.node id) ∨ ∃ a, P id a ∧ read (r.node id) = some a

/-- An update keeps a property, or remembers what has been found. -/
def Sets (read : Node → Option α) (P : α → Prop) (f : Node → Node) : Prop :=
  (∀ node, read (f node) = read node) ∨ ∃ a, P a ∧ ∀ node, read (f node) = some a

lemma Kept.update (h : Kept read P p r) (hf : Sets read (P id) f) :
    Kept read P p (r.update id f) := by
  intro j
  by_cases hj : j = id
  · subst hj
    rcases Nat.lt_or_ge j r.size with hlt | hge
    · rw [node_update_self hlt]
      rcases hf with hsame | ⟨a, ha, hset⟩
      · rw [hsame]
        exact h j
      · exact .inr ⟨a, ha, hset _⟩
    · rw [node_update_of_size_le hge]
      exact h j
  · rw [node_update_of_ne hj]
    exact h j

lemma Kept.eq (h : Kept read P p r) (hunique : ∀ b, P id b → b = a)
    (hown : ∀ b, read (p.node id) = some b → P id b) (hb : read (r.node id) = some b) : b = a := by
  rcases h id with hsame | ⟨c, hc, hread⟩
  · exact hunique b (hown b (hsame.symm.trans hb))
  · rw [← Option.some.inj (hread.symm.trans hb)]
    exact hunique c hc

lemma Kept.none (h : Kept read P p r) (hnone : read (r.node id) = none) :
    read (p.node id) = none := by
  rcases h id with hsame | ⟨c, -, hread⟩
  · exact hsame.symm.trans hnone
  · cases hread.symm.trans hnone

/-- A project differs from another one in what look-ups remember only, and all of that is right. -/
structure Knows (p r : Project) : Prop extends Remembers p r where
  cur : Kept (·.cur?) p.Place p r
  code : Kept (·.code?) (p.Inherits (·.code?)) p r
  line : Kept Node.ownLine? p.OnLine p r

lemma Knows.refl (p : Project) : p.Knows p :=
  ⟨.refl p, fun _ => .inl rfl, fun _ => .inl rfl, fun _ => .inl rfl⟩

lemma Knows.update (h : p.Knows r) (hf : ∀ node, (f node).settled = node.settled)
    (hcur : Sets (·.cur?) (p.Place id) f) (hcode : Sets (·.code?) (p.Inherits (·.code?) id) f)
    (hline : Sets Node.ownLine? (p.OnLine id) f) : p.Knows (r.update id f) :=
  ⟨⟨size_update.trans h.size, fun j => (apply_node_update hf).trans (h.settled j), h.rest⟩,
    h.cur.update hcur, h.code.update hcode, h.line.update hline⟩

end Project

/-! ### Looking up -/

namespace Edit

open Project

variable {α β : Type} {p r : Project} {id n : Nat} {x : Edit α} {g : α → Edit β} {a : α} {b : β}

/-- A look-up finds something, and all that is remembered is right. -/
def Finds (p : Project) (x : Edit α) (r : Project) (a : α) : Prop :=
  ∃ r', x r = .ok a r' ∧ p.Knows r'

lemma Finds.bind (hx : Finds p x r a) (hg : ∀ r', p.Knows r' → Finds p (g a) r' b) :
    Finds p (x >>= g) r b := by
  obtain ⟨r', hrun, hr'⟩ := hx
  obtain ⟨r'', hrun', hr''⟩ := hg r' hr'
  exact ⟨r'', bind_run hrun hrun', hr''⟩

lemma finds_node_bind {g : Node → Edit β} :
    Finds p (node id >>= g) r b ↔ Finds p (g (r.node id)) r b := Iff.rfl

lemma height_bind {f : Nat → Edit β} : (height >>= f) p = f (p.size + 1) p := rfl

lemma finds_inherited {read : Node → Option α} {write : α → Node → Node}
    (hkept : ∀ r, p.Knows r → Kept read (p.Inherits read) p r)
    (hwrite : ∀ r id a, p.Knows r → p.Inherits read id a → p.Knows (r.update id (write a)))
    (h : p.Knows r) (ha : p.Inherits read id a) (hn : id < n) :
    Finds p (inherited read write n id) r a := by
  induction n generalizing id r with
  | zero => exact absurd hn (Nat.not_lt_zero _)
  | succ n ih =>
    show ∃ r', inherited read write (n + 1) id r = .ok a r' ∧ p.Knows r'
    rw [inherited, node_bind]
    cases hread : read (r.node id) with
    | some b =>
      obtain rfl := (hkept r h).eq (fun _ hb => hb.unique ha) (fun _ => .own) hread
      exact ⟨r, rfl, h⟩
    | none =>
      have hown := (hkept r h).none hread
      cases ha with
      | own h' => cases hown.symm.trans h'
      | above _ hlt hrest =>
        obtain ⟨r', hrun, hr'⟩ := ih h hrest (Nat.lt_of_lt_of_le hlt (Nat.le_of_lt_succ hn))
        refine ⟨r'.update id (write a), ?_, hwrite r' id a hr' (.above hown hlt hrest)⟩
        show (if ((r.node id).parent == id) = true then (throw .violated : Edit α)
          else inherited read write n (r.node id).parent >>= _) r = _
        rw [h.parent, if_neg (by simpa using Nat.ne_of_lt hlt)]
        exact bind_ok hrun

lemma program_knows {program : Nat} (h : p.Knows r)
    (hrun : Edit.program id p = .ok program p) : Edit.program id r = .ok program r := by
  have hsteps : ∀ (n id : Nat) wanted, enclosing wanted n id p = .ok program p →
      enclosing wanted n id r = .ok program r := by
    intro n
    induction n with
    | zero => exact fun _ _ hrun => by cases hrun
    | succ n ih =>
      intro id wanted hrun
      rw [enclosing_succ] at hrun ⊢
      rw [h.kind, h.parent]
      split at hrun
      · next hwanted =>
        cases hrun
        exact if_pos hwanted
      · next hwanted => exact (if_neg hwanted).trans (ih _ _ hrun)
  rw [Edit.program, height_bind] at hrun ⊢
  rw [h.size]
  exact hsteps _ _ _ hrun

section

variable (h : p.Knows r) (hid : id < p.size)

include h hid

lemma finds_cur {c : Int} (hc : p.Place id c) : Finds p (cur id) r c := by
  refine finds_inherited (fun _ hr => hr.cur) (fun r id c hr hc => ?_) h hc
    (show id < r.size + 1 by rw [h.size]; omega)
  exact hr.update (fun _ => rfl) (.inr ⟨c, hc, fun _ => rfl⟩) (.inl fun _ => rfl)
    (.inl fun _ => rfl)

lemma finds_code {text : String} (htext : p.Inherits (·.code?) id text) :
    Finds p (code id) r text := by
  refine finds_inherited (fun _ hr => hr.code) (fun r id text hr htext => ?_) h htext
    (show id < r.size + 1 by rw [h.size]; omega)
  exact hr.update (fun _ => rfl) (.inl fun _ => rfl) (.inr ⟨text, htext, fun _ => rfl⟩)
    (.inl fun _ => rfl)

end

lemma finds_foundLine {line line' : Int} (h : p.Knows r) (hline : p.OnLine id line)
    (heq : line' = line) :
    Finds p (do
      update id fun node => { node with foundLine? := some line' }
      return line') r line := by
  subst heq
  exact ⟨_, rfl, h.update (fun _ => rfl) (.inl fun _ => rfl) (.inl fun _ => rfl)
    (.inr ⟨line', hline, fun _ => rfl⟩)⟩

lemma finds_lineSteps {line : Int} (h : p.Knows r) (hid : id < p.size)
    (hline : p.OnLine id line) (hn : id < n) : Finds p (lineSteps n id) r line := by
  induction n generalizing id r line with
  | zero => exact absurd hn (Nat.not_lt_zero _)
  | succ n ih =>
    have hread : ∀ line', (r.node id).ownLine? = some line' → line' = line := fun _ =>
      h.line.eq (fun _ hline' => hline'.unique hline) fun _ => .own
    rw [lineSteps, finds_node_bind]
    unfold Node.ownLine? at hread
    cases hfound : (r.node id).foundLine? with
    | some line' =>
      rw [hfound] at hread
      exact ⟨r, by rw [hread line' rfl]; rfl, h⟩
    | none =>
      rw [hfound] at hread
      dsimp only at hread ⊢
      split
      · next hkind => exact finds_foundLine h hline (hread 0 (by rw [hkind]))
      · next hkind => exact finds_foundLine h hline (hread 1 (by rw [hkind]))
      have hown : (p.node id).ownLine? = none := h.line.none (by
        rw [Node.ownLine?, hfound]
        dsimp only
        split <;> first | rfl | contradiction)
      cases hline with
      | own h' => cases hown.symm.trans h'
      | above _ hlt hrest habove hcur hprogram hsize hcode =>
        -- climb to the node above, and count the line ends in between
        rw [h.parent]
        have hid' := Nat.lt_trans hlt hid
        refine .bind (ih h hid' hrest (Nat.lt_of_lt_of_le hlt (Nat.le_of_lt_succ hn)))
          fun r1 h1 => ?_
        refine .bind (finds_cur h1 hid' habove) fun r2 h2 => ?_
        refine .bind (finds_cur h2 hid hcur) fun r3 h3 => ?_
        have hline := OnLine.above hown hlt hrest habove hcur hprogram hsize hcode
        split
        · next heq =>
          refine finds_foundLine h3 hline ?_
          rw [eq_of_beq heq]
          simp [Source.lineEnds, Source.span]
        · refine .bind ⟨r3, program_knows h3 hprogram, h3⟩ fun r4 h4 => ?_
          exact .bind (finds_code h4 hsize hcode) fun r5 h5 => finds_foundLine h5 hline rfl

lemma finds_line {line : Int} (h : p.Knows r) (hid : id < p.size) (hline : p.OnLine id line) :
    Finds p (Edit.line id) r line :=
  finds_lineSteps h hid hline (show id < r.size + 1 by rw [h.size]; omega)

/-! ### What look-ups leave as it is -/

/-- A computation changes nothing but what look-ups remember. -/
def Consults (x : Edit α) : Prop :=
  ∀ ⦃p a q⦄, x p = .ok a q → p.Remembers q

lemma Consults.bind (hx : Consults x) (hg : ∀ a, Consults (g a)) : Consults (x >>= g) := by
  intro p b q hrun
  obtain ⟨a, r, hr, hq⟩ := exists_of_bind_ok hrun
  exact (hx hr).trans (hg a hq)

lemma consults_read (f : Project → α) : Consults fun p => .ok (f p) p := by
  rintro p _ _ ⟨⟩
  exact .refl p

lemma consults_throw (failure : Failure) : Consults (throw failure : Edit α) := by
  rintro p _ _ ⟨⟩

lemma consults_write {f : Node → Node} (hf : ∀ node, (f node).settled = node.settled) (a : α) :
    Consults (do
      update id f
      return a) := by
  rintro p _ _ ⟨⟩
  exact ⟨size_update, fun j => apply_node_update hf, rfl⟩

lemma consults_inherited {read : Node → Option α} {write : α → Node → Node}
    (hwrite : ∀ a node, (write a node).settled = node.settled) (n : Nat) (id : NodeId) :
    Consults (inherited read write n id) := by
  induction n generalizing id with
  | zero => exact consults_throw _
  | succ n ih =>
    refine (consults_read _).bind fun node => ?_
    split
    · exact consults_read _
    · refine (consults_read _).bind fun above => ?_
      split
      · exact consults_throw _
      · exact (ih above).bind fun a => consults_write (hwrite a) a

lemma consults_cur : Consults (cur id) := by
  refine (consults_read _).bind fun n => consults_inherited ?_ n id
  exact fun _ _ => rfl

lemma consults_code : Consults (code id) := by
  refine (consults_read _).bind fun n => consults_inherited ?_ n id
  exact fun _ _ => rfl

lemma consults_program : Consults (program id) := by
  refine (consults_read _).bind fun n => ?_
  induction n generalizing id with
  | zero => exact consults_throw _
  | succ n ih =>
    refine (consults_read _).bind fun kind => ?_
    split
    · exact consults_read _
    · exact (consults_read _).bind fun above => ih

lemma consults_line : Consults (line id) := by
  refine (consults_read _).bind fun n => ?_
  induction n generalizing id with
  | zero => exact consults_throw _
  | succ n ih =>
    have hset : ∀ line : Int, Consults (do
        update id fun node => { node with foundLine? := some line }
        return line) := by
      intro line
      exact consults_write (by intro node; rfl) line
    refine (consults_read _).bind fun node => ?_
    split
    · exact consults_read _
    split
    · exact hset 0
    · exact hset 1
    · refine ih.bind fun _ => consults_cur.bind fun _ => consults_cur.bind fun _ => ?_
      split
      · exact hset _
      · exact consults_program.bind fun _ => consults_code.bind fun _ => hset _

end Edit

end ArmaGen
