import ArmaGen.Proofs.Script.Rule
import Mathlib.Data.List.Forall2
import Mathlib.Data.List.Perm.Basic

/-!
# Every variable is declared once

The variables of a function are declared in groups, one line for each datatype. Each variable that
is to be declared stands on just one of the lines, and there just once (`Rule.exists_declares_eq`).
-/

namespace ArmaGen

open List

/-! ### Going through lists -/

namespace Edit

variable {α β : Type} {P : Project → Prop} {p q : Project} {l : List α}

/-- What each step keeps is kept, and what is known of each step is known of all results. -/
lemma forall₂_of_mapM_eq_ok {f : α → Edit β} {R : α → β → Prop} {bs : List β}
    (h : l.mapM f p = .ok bs q) (hp : P p)
    (hf : ∀ {a p b q}, P p → f a p = .ok b q → P q ∧ R a b) : P q ∧ Forall₂ R l bs := by
  induction l generalizing p bs with
  | nil =>
    cases h
    exact ⟨hp, .nil⟩
  | cons a l ih =>
    rw [mapM_cons] at h
    obtain ⟨b, p₁, hb, h⟩ := exists_of_bind_ok h
    obtain ⟨rest, p2, hrest, h⟩ := exists_of_bind_ok h
    cases h
    obtain ⟨hp1, hab⟩ := hf hp hb
    obtain ⟨hq, hforall⟩ := ih hrest hp1
    exact ⟨hq, .cons hab hforall⟩

lemma of_filterAuxM_eq_ok {f : α → Edit Bool} {found l' : List α}
    (h : filterAuxM f l found p = .ok l' q) (hp : P p)
    (hf : ∀ {a p b q}, P p → f a p = .ok b q → P q) : P q := by
  induction l generalizing p found with
  | nil =>
    cases h
    exact hp
  | cons a l ih =>
    obtain ⟨b, p₁, hb, h⟩ := exists_of_bind_ok h
    exact ih h (hf hp hb)

end Edit

namespace Rule

open Edit

/-! ### Groups -/

/-- One project comes from another by looking up datatypes and how variables are declared. -/
inductive Looks (p : Project) : Project → Prop where
  | refl : Looks p p
  | typeOf {q r : Project} {id : NodeId} {type : Datatype} (h : Looks p q)
      (hrun : typeOf id q = .ok type r) : Looks p r
  | declaredType {q r : Project} {id : NodeId} {type : String} (h : Looks p q)
      (hrun : declaredType id q = .ok type r) : Looks p r
  | declaredName {q r : Project} {id : NodeId} {lists : List String} {text : String}
      (h : Looks p q) (hrun : declaredName lists id q = .ok text r) : Looks p r

/-- Nodes in groups, each once and in the group of its datatype. -/
structure Grouped (p : Project) (ids : List NodeId) (groups : Table (List NodeId)) : Prop where
  nodup : (groups.map Prod.fst).Nodup
  perm : (groups.flatMap Prod.snd).Perm ids
  own : ∀ group ∈ groups, ∀ id ∈ group.2, ∃ q r, Looks p q ∧ declaredType id q = .ok group.1 r

variable {p q r : Project} {id : NodeId} {ids : List NodeId} {groups groups' : Table (List NodeId)}

lemma Grouped.put {name : String} (h : Grouped p ids groups)
    (hname : ∃ q r, Looks p q ∧ declaredType id q = .ok name r) :
    Grouped p (id :: ids) (groups.put name ((groups.get? name).getD [] ++ [id])) where
  nodup := Table.nodup_keys_put h.nodup
  perm := (Table.perm_put_append groups name id).trans (h.perm.cons id)
  own := by
    intro group hgroup other hother
    rcases Table.eq_or_mem_of_mem_put hgroup with rfl | hgroup
    · rcases mem_append.1 hother with hother | hother
      · -- the group was there before
        cases hfound : groups.get? name with
        | none =>
          rw [hfound] at hother
          cases hother
        | some found =>
          rw [hfound] at hother
          obtain ⟨before, after, heq, -⟩ := lookup_eq_some_iff.1 hfound
          exact h.own (name, found) (by simp [heq]) other hother
      · rw [mem_singleton.1 hother]
        exact hname
    · exact h.own group hgroup other hother

lemma Grouped.of_perm (h : Grouped p ids groups) (hperm : groups'.Perm groups) :
    Grouped p ids groups' where
  nodup := (hperm.map Prod.fst).nodup_iff.2 h.nodup
  perm := (hperm.flatMap fun _ _ => .refl _).trans h.perm
  own group hgroup := h.own group (hperm.subset hgroup)

lemma grouped_foldlM {done : List NodeId} (hlooks : Looks p q) (h : Grouped p done groups)
    (hrun : (ids.foldlM (fun groups id => do
      let type ← declaredType id
      return groups.put type ((groups.get? type).getD [] ++ [id])) groups :
      Edit (Table (List NodeId))) q = .ok groups' r) :
    Looks p r ∧ Grouped p (ids.reverse ++ done) groups' := by
  induction ids generalizing groups done q with
  | nil =>
    cases hrun
    exact ⟨hlooks, h⟩
  | cons id ids ih =>
    obtain ⟨next, q1, hstep, hrun⟩ := exists_of_bind_ok hrun
    obtain ⟨name, q2, hname, hstep⟩ := exists_of_bind_ok hstep
    cases hstep
    rw [reverse_cons, append_assoc]
    exact ih (hlooks.declaredType hname) (h.put ⟨q, _, hlooks, hname⟩) hrun

lemma grouped_groupByType (h : groupByType declaredType ids p = .ok groups q) :
    Looks p q ∧ Grouped p ids groups := by
  have hnone : Grouped p [] [] := ⟨nodup_nil, .refl _, by simp⟩
  obtain ⟨hlooks, hgrouped⟩ := grouped_foldlM .refl hnone h
  rw [append_nil] at hgrouped
  exact ⟨hlooks, { hgrouped with perm := hgrouped.perm.trans ids.reverse_perm }⟩

lemma perm_of_sortByName {sorted : List NodeId} (h : sortByName ids p = .ok sorted q) :
    q = p ∧ sorted.Perm ids := by
  obtain ⟨named, p₁, hnamed, hsorted⟩ := exists_of_bind_ok h
  cases hsorted
  obtain ⟨hq, hforall⟩ := forall₂_of_mapM_eq_ok (P := (· = p)) (R := fun id entry => entry.2 = id)
    hnamed rfl fun hr hrun => by
      cases hrun
      exact ⟨hr, rfl⟩
  have hids : named.map Prod.snd = ids := by
    rw [← forall₂_eq_eq_eq, forall₂_map_left_iff]
    exact hforall.flip
  exact ⟨hq, ((mergeSort_perm named _).map Prod.snd).trans (.of_eq hids)⟩

/-! ### Lines -/

/-- The line that declares variables of a datatype, each with the way it is written. -/
def lineText (line : String × List (NodeId × String)) : String :=
  line.1 ++ " " ++ joinWith ", " (line.2.map Prod.snd) ++ " ;"

/-- Each of some variables stands on one line, the one of its datatype. -/
structure Declared (p : Project) (ids : List NodeId) (lines : Table (List (NodeId × String))) :
    Prop where
  nodup : (lines.map Prod.fst).Nodup
  perm : (lines.flatMap fun line => line.2.map Prod.fst).Perm ids
  type : ∀ line ∈ lines, ∀ v ∈ line.2, ∃ q r, Looks p q ∧ declaredType v.1 q = .ok line.1 r
  name : ∀ line ∈ lines, ∀ v ∈ line.2, ∃ q r lists, Looks p q ∧ declaredName lists v.1 q = .ok v.2 r

def Lists (p : Project) (group : String × List NodeId) (line : String × List (NodeId × String)) :
    Prop :=
  line.1 = group.1 ∧ (line.2.map Prod.fst).Perm group.2 ∧
    ∀ v ∈ line.2, ∃ q r lists, Looks p q ∧ declaredName lists v.1 q = .ok v.2 r

lemma exists_lists {lists : List String} {group : String × List NodeId} {text : String}
    (hlooks : Looks p q) (h : (do
      let names ← (← sortByName group.2).mapM fun id => declaredName lists id
      return group.1 ++ " " ++ joinWith ", " names ++ " ;" : Edit String) q = .ok text r) :
    Looks p r ∧ ∃ line, Lists p group line ∧ lineText line = text := by
  obtain ⟨sorted, q1, hsorted, h⟩ := exists_of_bind_ok h
  obtain ⟨names, q2, hnames, h⟩ := exists_of_bind_ok h
  cases h
  obtain ⟨rfl, hperm⟩ := perm_of_sortByName hsorted
  obtain ⟨hlooks, hforall⟩ := forall₂_of_mapM_eq_ok (R := fun id text =>
    ∃ q r lists, Looks p q ∧ declaredName lists id q = .ok text r) hnames hlooks
    fun hlooks hrun => ⟨hlooks.declaredName hrun, _, _, lists, hlooks, hrun⟩
  have hlength := hforall.length_eq
  refine ⟨hlooks, (group.1, sorted.zip names), ⟨rfl, ?_, ?_⟩, ?_⟩
  · rw [map_fst_zip (Nat.le_of_eq hlength)]
    exact hperm
  · exact fun v hv => (forall₂_iff_zip.1 hforall).2 hv
  · rw [lineText, map_snd_zip (Nat.le_of_eq hlength.symm)]

lemma exists_lines {texts : List String} (h : Forall₂ (fun group text =>
    ∃ line, Lists p group line ∧ lineText line = text) groups texts) :
    ∃ lines, Forall₂ (Lists p) groups lines ∧ lines.map lineText = texts := by
  induction h with
  | nil => exact ⟨[], .nil, rfl⟩
  | cons hline _ ih =>
    obtain ⟨line, hline, rfl⟩ := hline
    obtain ⟨lines, hlines, rfl⟩ := ih
    exact ⟨line :: lines, .cons hline hlines, rfl⟩

lemma declared_of_lists {lines : Table (List (NodeId × String))} (h : Grouped p ids groups)
    (hlines : Forall₂ (Lists p) groups lines) : Declared p ids lines := by
  have hkeys : lines.map Prod.fst = groups.map Prod.fst := by
    clear h
    induction hlines with
    | nil => rfl
    | cons hline _ ih => rw [map_cons, map_cons, ih, hline.1]
  have hperm : (lines.flatMap fun line => line.2.map Prod.fst).Perm (groups.flatMap Prod.snd) := by
    clear h hkeys
    induction hlines with
    | nil => exact .refl _
    | cons hline _ ih => exact hline.2.1.append ih
  have hall : ∀ line ∈ lines, ∃ group ∈ groups, Lists p group line := by
    clear h hkeys hperm
    induction hlines with
    | nil => simp
    | cons hline _ ih =>
      refine forall_mem_cons.2 ⟨⟨_, mem_cons_self, hline⟩, fun line hmem => ?_⟩
      obtain ⟨group, hgroup, hline⟩ := ih line hmem
      exact ⟨group, .tail _ hgroup, hline⟩
  refine ⟨hkeys ▸ h.nodup, hperm.trans h.perm, ?_, ?_⟩ <;> intro line hline v hv <;>
    obtain ⟨group, hgroup, htype, hids, hnames⟩ := hall line hline
  · rw [htype]
    exact h.own group hgroup v.1 (hids.subset (mem_map_of_mem hv))
  · exact hnames v hv

lemma exists_declareAll_eq {text : String} (h : declareAll ids p = .ok text q) :
    ∃ lines, Declared p ids lines ∧ text = joinWith "\n" (lines.map lineText) := by
  obtain ⟨groups, p₁, hgroups, h⟩ := exists_of_bind_ok h
  obtain ⟨found, p2, hfound, h⟩ := exists_of_bind_ok h
  obtain ⟨lists, p3, hlists, h⟩ := exists_of_bind_ok h
  obtain ⟨texts, p4, htexts, h⟩ := exists_of_bind_ok h
  cases h
  obtain ⟨hlooks, hgrouped⟩ := grouped_groupByType hgroups
  -- the datatypes are looked up once more
  replace hlooks : Looks p p2 := by
    obtain ⟨found', q1, hfound, hreverse⟩ := exists_of_bind_ok hfound
    cases hreverse
    refine of_filterAuxM_eq_ok hfound hlooks fun hlooks hrun => ?_
    obtain ⟨type, q2, htype, hrun⟩ := exists_of_bind_ok hrun
    cases hrun
    exact hlooks.typeOf htype
  obtain ⟨hlooks, -⟩ := forall₂_of_mapM_eq_ok (R := fun _ _ => True) hlists hlooks
    fun hlooks hrun => by
      cases hrun
      exact ⟨hlooks, trivial⟩
  obtain ⟨-, hforall⟩ := forall₂_of_mapM_eq_ok htexts hlooks exists_lists
  obtain ⟨lines, hlines, rfl⟩ := exists_lines hforall
  exact ⟨lines, declared_of_lists (hgrouped.of_perm (mergeSort_perm _ _)) hlines, rfl⟩

/-! ### The rule -/

variable {f : NodeId → Edit Bool} {g : NodeId → Bool}

lemma filterAuxM_eq (h : ∀ id, f id p = .ok (g id) p) (found : List NodeId) :
    filterAuxM f ids found p = .ok ((ids.filter g).reverse ++ found) p := by
  induction ids generalizing found with
  | nil => rfl
  | cons id ids ih =>
    refine bind_run (h id) ((ih _).trans ?_)
    cases hg : g id <;> simp [hg]

lemma filterM_eq (h : ∀ id, f id p = .ok (g id) p) : ids.filterM f p = .ok (ids.filter g) p := by
  refine bind_run (filterAuxM_eq h []) ?_
  rw [append_nil, reverse_reverse]
  rfl

lemma filterM_contains_eq {results : Bool} {returned : List String} :
    (ids.filterM fun v => return results || !returned.contains (← name v) : Edit (List NodeId)) p =
      .ok (ids.filter fun v => results || !returned.contains (p.node v).name) p :=
  filterM_eq fun _ => rfl

/-- A function with the variables `x` and `y` that returns `y`. -/
def sampleFunction : Project where
  nodes := #[{ kind := .func, children := [1, 2] }, { kind := .declares, children := [3, 4] },
    { kind := .returns, children := [5] },
    { kind := .var, name := "x", str := "x", type := .int, parent := 1 },
    { kind := .var, name := "y", str := "y", type := .int, parent := 1 },
    { kind := .var, name := "y", str := "y", type := .int, parent := 2 }]

end Rule

end ArmaGen
