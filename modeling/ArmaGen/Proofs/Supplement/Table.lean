import ArmaGen.Supplement.Table
import Mathlib.Tactic.Lemma

/-!
# Tables

What is put into a table is found there, under its name and under no other. A name that is there
keeps its place, so that no name comes to stand there twice.
-/

namespace ArmaGen

open List

namespace Table

variable {α : Type} {name other : String} {a : α} {table : Table α}

lemma eq_or_mem_of_mem_put {entry : String × α}
    (h : entry ∈ table.put name a) : entry = (name, a) ∨ entry ∈ table := by
  induction table with
  | nil => exact .inl (mem_singleton.1 h)
  | cons first table ih =>
    unfold put at h
    split at h
    · next hname =>
      rcases mem_cons.1 h with rfl | h
      · exact .inl (by rw [eq_of_beq hname])
      · exact .inr (.tail _ h)
    · rcases mem_cons.1 h with rfl | h
      · exact .inr mem_cons_self
      · exact (ih h).imp_right (mem_cons_of_mem _)

lemma nodup_keys_put (h : (table.map Prod.fst).Nodup) :
    ((table.put name a).map Prod.fst).Nodup := by
  induction table with
  | nil => simp [put]
  | cons entry table ih =>
    obtain ⟨other, old⟩ := entry
    rw [map_cons, nodup_cons] at h
    unfold put
    split
    · exact nodup_cons.2 h
    · next hname =>
      refine nodup_cons.2 ⟨fun hmem => ?_, ih h.2⟩
      obtain ⟨found, hfound, rfl⟩ := mem_map.1 hmem
      rcases eq_or_mem_of_mem_put hfound with rfl | hfound
      · exact hname (beq_self_eq_true _)
      · exact h.1 (mem_map.2 ⟨found, hfound, rfl⟩)

lemma get?_put (table : Table α) (name other : String) (a : α) :
    (table.put name a).get? other = if other = name then some a else table.get? other := by
  unfold get?
  induction table with
  | nil => by_cases h : other = name <;> simp [put, h]
  | cons first table ih =>
    obtain ⟨first, old⟩ := first
    unfold put
    by_cases hname : first = name
    · subst hname
      by_cases h : other = first <;> simp [lookup_cons, h, beq_false_of_ne]
    · rw [if_neg (by simpa using hname), lookup_cons, lookup_cons, ih]
      by_cases h : other = first
      · subst h
        simp [hname]
      · simp [beq_false_of_ne h]

lemma mem_iff_get?_eq_some (h : (table.map Prod.fst).Nodup) :
    (name, a) ∈ table ↔ table.get? name = some a := by
  unfold get?
  induction table with
  | nil => simp
  | cons first table ih =>
    obtain ⟨first, old⟩ := first
    rw [map_cons, nodup_cons] at h
    by_cases hname : name = first
    · subst hname
      have hnone : (name, a) ∉ table := fun hmem => h.1 (mem_map.2 ⟨_, hmem, rfl⟩)
      simp [hnone, eq_comm]
    · simp [lookup_cons, hname, beq_false_of_ne, ih h.2]

lemma perm_put_append (table : Table (List α)) (name : String) (a : α) :
    ((table.put name ((table.get? name).getD [] ++ [a])).flatMap Prod.snd).Perm
      (a :: table.flatMap Prod.snd) := by
  induction table with
  | nil => exact .refl _
  | cons entry table ih =>
    obtain ⟨other, old⟩ := entry
    by_cases hname : name = other
    · subst hname
      simp only [put, get?, lookup_cons, beq_self_eq_true, if_true, flatMap_cons, append_assoc]
      exact perm_middle
    · have hlookup : get? ((other, old) :: table) name = get? table name := by
        simp [get?, lookup_cons, beq_false_of_ne hname]
      have hput : ∀ value, put name value ((other, old) :: table) =
          (other, old) :: put name value table := by
        simp [put, Ne.symm hname]
      rw [hlookup, hput]
      exact (ih.append_left old).trans perm_middle

end Table

end ArmaGen
