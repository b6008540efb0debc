import ArmaGen.Datatype
import ArmaGen.Proofs.Text.Source
import Mathlib.Data.List.ReduceOption
import Mathlib.Data.Set.List
import Mathlib.Order.Bounds.Image
import Mathlib.Order.WithBot

/-!
# Common datatypes are least upper bounds

Numerical types are ordered by shape and element. The common type of a list, read loosely, is the
least one above its numerical types; read strictly it is the same one, unless columns stand beside
rows with nothing above them (`Datatype.common_isLUB`).
-/

namespace ArmaGen

open List Function

/-! ### The order of shapes and elements -/

def Shape.height : Shape → Nat
  | .scalar => 0
  | .column | .row => 1
  | .matrix => 2
  | .cube => 3

instance : PartialOrder Shape where
  le a b := a = b ∨ a.height < b.height
  le_refl _ := .inl rfl
  le_trans a b c hab hbc := by
    rcases hab with rfl | hab
    · exact hbc
    · exact .inr (hbc.elim (fun h => h ▸ hab) hab.trans)
  le_antisymm a b hab hba := by
    rcases hab with rfl | hab
    · rfl
    · exact (hba.resolve_right (by omega)).symm

instance : PartialOrder Element :=
  PartialOrder.lift Element.rank fun a b h => by cases a <;> cases b <;> first | rfl | cases h

lemma Shape.le_of_rank_le {a b : Shape} (h : a.rank ≤ b.rank) (hne : b = .row → a ≠ .column) :
    a ≤ b := by
  change a = b ∨ a.height < b.height
  revert h hne
  cases a <;> cases b <;> decide

lemma Shape.matrix_le {a : Shape} (hcolumn : .column ≤ a) (hrow : .row ≤ a) : .matrix ≤ a := by
  cases a with
  | matrix => exact le_rfl
  | cube => exact .inr (by decide)
  | scalar | column | row => exact absurd (And.intro hcolumn hrow) (by simp [LE.le, height])

namespace Datatype

lemma foldl_mem_and_le {α : Type} (rank : α → Nat) (greater : α → α → α)
    (h : ∀ a b, greater a b = if rank a < rank b then b else a) (a : α) (l : List α) :
    l.foldl greater a ∈ a :: l ∧ ∀ b ∈ a :: l, rank b ≤ rank (l.foldl greater a) := by
  induction l generalizing a with
  | nil => simp
  | cons c l ih =>
    obtain ⟨hmem, hle⟩ := ih (greater a c)
    simp only [foldl_cons, mem_cons, forall_eq_or_imp] at hmem hle ⊢
    rcases Nat.lt_or_ge (rank a) (rank c) with hrank | hrank
    · rw [h, if_pos hrank] at hmem hle ⊢
      exact ⟨.inr hmem, hrank.le.trans hle.1, hle⟩
    · rw [h, if_neg hrank.not_gt] at hmem hle ⊢
      exact ⟨hmem.imp_right .inr, hle.1, hrank.trans hle.1, hle.2⟩

variable {shapes : List Shape} {elements : List Element}

lemma isLUB_elements : IsLUB {e | e ∈ elements} (elements.foldl maxElement .uword) := by
  obtain ⟨hmem, hle⟩ :=
    foldl_mem_and_le Element.rank maxElement (fun _ _ => rfl) .uword elements
  refine ⟨fun e he => hle e (.tail _ he), fun e he => ?_⟩
  rcases mem_cons.1 hmem with h | h
  · rw [h]
    exact Nat.zero_le e.rank
  · exact he h

lemma isLUB_shapes : IsLUB {a | a ∈ shapes}
    (if mixesRows shapes then .matrix else shapes.foldl maxShape .scalar) := by
  obtain ⟨hmem, hle⟩ :=
    foldl_mem_and_le Shape.rank maxShape (fun _ _ => rfl) .scalar shapes
  unfold mixesRows
  generalize shapes.foldl maxShape .scalar = top at hmem hle ⊢
  split
  · next hmix =>
    obtain ⟨rfl, hcolumn⟩ : top = .row ∧ .column ∈ shapes := by simpa using hmix
    refine ⟨fun a ha => Shape.le_of_rank_le ((hle a (.tail _ ha)).trans (by decide)) nofun, ?_⟩
    exact fun a ha => Shape.matrix_le (ha hcolumn) (ha (by simpa using hmem))
  · next hmix =>
    refine ⟨fun a ha => Shape.le_of_rank_le (hle a (.tail _ ha)) ?_, fun a ha => ?_⟩
    · rintro rfl rfl
      exact hmix (by simpa using ha)
    · rcases mem_cons.1 hmem with rfl | h
      · exact Shape.le_of_rank_le (Nat.zero_le _) fun _ => by decide
      · exact ha h

lemma mixesRows_iff : mixesRows shapes = true ↔
    .column ∈ shapes ∧ .row ∈ shapes ∧ .matrix ∉ shapes ∧ .cube ∉ shapes := by
  obtain ⟨hmem, hle⟩ :=
    foldl_mem_and_le Shape.rank maxShape (fun _ _ => rfl) .scalar shapes
  simp only [mixesRows, Bool.and_eq_true, beq_iff_eq, contains_eq_mem, decide_eq_true_eq]
  generalize shapes.foldl maxShape .scalar = top at hmem hle ⊢
  constructor
  · rintro ⟨rfl, hcolumn⟩
    refine ⟨hcolumn, by simpa using hmem, fun h => ?_, fun h => ?_⟩ <;>
      exact absurd (hle _ (.tail _ h)) (by decide)
  · rintro ⟨hcolumn, hrow, hmatrix, hcube⟩
    have hrank := hle _ (.tail _ hrow)
    cases top <;> simp_all [Shape.rank]

/-! ### Lists of types -/

/-- The numerical types in their order, above the unknown type. -/
abbrev Level := WithBot (Shape × Element)

def ofLevel : Level → Datatype
  | ⊥ => .unknown
  | (pair : Shape × Element) => .num pair.1 pair.2

lemma ofLevel_injective : Injective ofLevel := by
  rintro (_ | ⟨a, b⟩) (_ | ⟨c, d⟩) h <;> cases h <;> rfl

variable {levels part rest : List Level} {pairs : List (Shape × Element)}

lemma ne_nil_of_mem_iff {l : List Level} (hsome : levels ≠ []) (h : ∀ x, x ∈ l ↔ x ∈ levels) :
    l ≠ [] := by
  rintro rfl
  exact hsome (eq_nil_iff_forall_not_mem.2 fun x hx => nomatch (h x).2 hx)

lemma exists_eraseDups_eq (levels : List Level) :
    ∃ l, (levels.map ofLevel).eraseDups = map ofLevel l ∧ ∀ x, x ∈ l ↔ x ∈ levels := by
  obtain ⟨l, hl⟩ : (levels.map ofLevel).eraseDups ∈ Set.range (map ofLevel) := by
    rw [Set.range_list_map]
    exact fun t ht => Set.mem_range.2 ((mem_map.1 (mem_eraseDups.1 ht)).imp fun _ h => h.2)
  refine ⟨l, hl.symm, fun x => ?_⟩
  rw [← mem_map_of_injective ofLevel_injective, hl, mem_eraseDups,
    mem_map_of_injective ofLevel_injective]

lemma exists_filter_eq (levels : List Level) : ∃ pairs : List (Shape × Element),
    (levels.map ofLevel).filter (· ≠ .unknown) = pairs.map (uncurry num) ∧
      ∀ pair, pair ∈ pairs ↔ ↑pair ∈ levels := by
  refine ⟨reduceOption levels, ?_, fun _ => reduceOption_mem_iff⟩
  induction levels with
  | nil => rfl
  | cons x levels ih =>
    cases x with
    | none => exact ih
    | some pair => exact congrArg (ofLevel pair :: ·) ih

/-- The shapes, or the elements, of numerical types are all known. -/
lemma bind_allKnown {α β : Type} {f : Datatype → Except Failure (Option α)}
    {g : Shape × Element → α} (h : ∀ pair, f (uncurry num pair) = .ok (some (g pair)))
    (pairs : List (Shape × Element)) (next : List α → Except Failure β) :
    ((pairs.map (uncurry num)).mapM f >>= fun found => allKnown found >>= next) =
      next (pairs.map g) := by
  induction pairs generalizing next with
  | nil => rfl
  | cons pair pairs ih =>
    rw [map_cons, mapM_cons, h, bind_assoc]
    refine Eq.trans ?_ (ih fun found => next (g pair :: found))
    simp [allKnown, Scan.ok_bind]

def joined (pairs : List (Shape × Element)) : Shape × Element :=
  let shapes := pairs.map Prod.fst
  (if mixesRows shapes then .matrix else shapes.foldl maxShape .scalar,
    (pairs.map Prod.snd).foldl maxElement .uword)

lemma joined_singleton (pair : Shape × Element) : joined [pair] = pair := by
  obtain ⟨shape, element⟩ := pair
  cases shape <;> cases element <;> rfl

lemma isLUB_joined (hsome : pairs ≠ []) (h : ∀ pair, pair ∈ pairs ↔ ↑pair ∈ levels) :
    IsLUB {x | x ∈ levels} ↑(joined pairs) := by
  have hlub : IsLUB {pair | pair ∈ pairs} (joined pairs) := by
    refine isLUB_prod.2 ⟨?_, ?_⟩
    · convert! (isLUB_shapes : IsLUB {a | a ∈ pairs.map Prod.fst} _) using 1
      ext; simp
    · convert! (isLUB_elements : IsLUB {e | e ∈ pairs.map Prod.snd} _) using 1
      ext; simp
  constructor
  · rintro (_ | pair) hx
    · exact bot_le
    · exact WithBot.coe_le_coe.2 (hlub.1 ((h pair).2 hx))
  · intro top htop
    obtain ⟨pair, hpair⟩ := exists_mem_of_ne_nil _ hsome
    obtain ⟨top, rfl, -⟩ := WithBot.coe_le_iff.1 (htop ((h pair).1 hpair))
    refine WithBot.coe_le_coe.2 (hlub.2 fun pair hpair => ?_)
    exact WithBot.coe_le_coe.1 (htop ((h pair).1 hpair))

lemma exists_commonLoose_eq (hsome : levels ≠ []) :
    ∃ x, commonLoose (levels.map ofLevel) = .ok (ofLevel x) ∧ IsLUB {x | x ∈ levels} x := by
  obtain ⟨l, hl, hmem⟩ := exists_eraseDups_eq levels
  obtain ⟨pairs, hfilter, hpairs⟩ := exists_filter_eq l
  replace hpairs := fun pair => (hpairs pair).trans (hmem pair)
  unfold commonLoose
  rw [hl]
  obtain _ | ⟨x, _ | ⟨y, l⟩⟩ := l
  · exact (ne_nil_of_mem_iff hsome hmem rfl).elim
  · refine ⟨x, rfl, ?_⟩
    simp only [← hmem, mem_singleton]
    exact isLUB_singleton
  · simp only [map_cons] at hfilter ⊢
    rw [hfilter]
    obtain _ | ⟨a, _ | ⟨b, rest⟩⟩ := pairs
    · refine ⟨⊥, rfl, ?_, fun _ _ => bot_le⟩
      rintro (_ | pair) hx
      · exact bot_le
      · cases (hpairs pair).2 hx
    · exact ⟨a, rfl, joined_singleton a ▸ isLUB_joined (cons_ne_nil _ _) hpairs⟩
    · refine ⟨_, ?_, isLUB_joined (cons_ne_nil _ _) hpairs⟩
      simp only [map_cons]
      rw [filter_eq_self.2]
      · refine (bind_allKnown (g := Prod.fst) (fun _ => rfl) (a :: b :: rest) _).trans ?_
        exact bind_allKnown (g := Prod.snd) (fun _ => rfl) (a :: b :: rest) _
      · exact forall_mem_map (f := uncurry num) (l := a :: b :: rest) |>.2 fun _ _ => rfl

/-- A column and a row stand in a list, but no matrix and no cube. -/
def Crossed (types : List Datatype) : Prop :=
  (∃ e, num .column e ∈ types) ∧ (∃ e, num .row e ∈ types) ∧
    ∀ e, num .matrix e ∉ types ∧ num .cube e ∉ types

lemma exists_commonStrict_eq (hsome : levels ≠ []) (hknown : ⊥ ∉ levels) :
    ∃ t, commonStrict (levels.map ofLevel) = .ok t ∧ (Crossed (levels.map ofLevel) → t = .unknown) ∧
      (¬ Crossed (levels.map ofLevel) → ∃ x, t = ofLevel x ∧ IsLUB {x | x ∈ levels} x) := by
  obtain ⟨l, hl, hmem⟩ := exists_eraseDups_eq levels
  obtain ⟨pairs, rfl⟩ : l ∈ Set.range (map WithBot.some) := by
    rw [Set.range_list_map]
    exact fun x hx => WithBot.ne_bot_iff_exists.1 fun h => hknown (h ▸ (hmem x).1 hx)
  have hpairs : ∀ pair, pair ∈ pairs ↔ ↑pair ∈ levels := fun pair => by simp [← hmem]
  have hnum : ∀ shape e, num shape e ∈ levels.map ofLevel ↔ (shape, e) ∈ pairs := fun shape e =>
    (mem_map_of_injective ofLevel_injective (a := ↑(shape, e))).trans (hpairs _).symm
  have hcrossed : Crossed (levels.map ofLevel) ↔ mixesRows (pairs.map Prod.fst) = true := by
    rw [mixesRows_iff]
    simp [Crossed, hnum, forall_and]
  replace hl : _ = pairs.map (uncurry num) := hl.trans map_map
  rw [hcrossed, commonStrict, hl]
  obtain _ | ⟨a, _ | ⟨b, rest⟩⟩ := pairs
  · exact (ne_nil_of_mem_iff hsome hmem rfl).elim
  · refine ⟨_, rfl, fun h => ?_, fun _ => ⟨a, rfl, ?_⟩⟩
    · obtain ⟨_ | _, _⟩ := a <;> cases h
    · exact joined_singleton a ▸ isLUB_joined (cons_ne_nil _ _) hpairs
  · have hlub := isLUB_joined (cons_ne_nil _ _) hpairs
    simp only [map_cons]
    rw [if_neg (by simp [uncurry]), ← map_cons, ← map_cons,
      bind_allKnown (g := Prod.fst) fun _ => rfl]
    split
    · next hmix => exact ⟨_, rfl, fun _ => rfl, fun h => (h hmix).elim⟩
    · next hmix =>
      refine ⟨ofLevel ↑(joined (a :: b :: rest)), ?_, fun h => (hmix h).elim,
        fun _ => ⟨_, rfl, hlub⟩⟩
      simp only [joined, if_neg hmix]
      exact bind_allKnown (g := Prod.snd) (fun _ => rfl) (a :: b :: rest) _

lemma isLUB_cons_iff {x y : Level} (h : IsLUB {x | x ∈ part} x) :
    IsLUB {z | z ∈ x :: rest} y ↔ IsLUB {z | z ∈ part ++ rest} y := by
  have hunion : {z | z ∈ part ++ rest} = {z | z ∈ part} ∪ {z | z ∈ rest} := by ext; simp
  have hinsert : {z | z ∈ x :: rest} = {x} ∪ {z | z ∈ rest} := by ext; simp
  rw [IsLUB, IsLUB, hunion, hinsert, upperBounds_union, upperBounds_union, upperBounds_singleton,
    h.upperBounds_eq]

/-- The common type of numerical types and unknown ones is the least numerical type above them,
whatever their order and however often they stand there; a part of them can be replaced by its
common type. Read strictly, columns beside rows have one only if a matrix or cube is above them. -/
theorem common_isLUB (hsome : levels ≠ []) :
    (∃ x, commonLoose (levels.map ofLevel) = .ok (ofLevel x) ∧ IsLUB {x | x ∈ levels} x) ∧
    (∀ others, (∀ x, x ∈ others ↔ x ∈ levels) →
      commonLoose (map ofLevel others) = commonLoose (levels.map ofLevel)) ∧
    (∀ part rest t, levels.Perm (part ++ rest) → part ≠ [] →
      commonLoose (map ofLevel part) = .ok t →
      commonLoose (t :: map ofLevel rest) = commonLoose (levels.map ofLevel)) ∧
    (⊥ ∉ levels →
      (Crossed (levels.map ofLevel) → commonStrict (levels.map ofLevel) = .ok .unknown) ∧
      (¬ Crossed (levels.map ofLevel) →
        commonStrict (levels.map ofLevel) = commonLoose (levels.map ofLevel))) := by
  obtain ⟨x, hx, hlub⟩ := exists_commonLoose_eq hsome
  have hunique : ∀ others, others ≠ [] →
      (∀ y, IsLUB {z | z ∈ others} y → IsLUB {z | z ∈ levels} y) →
      commonLoose (map ofLevel others) = commonLoose (levels.map ofLevel) := by
    intro others hothers h
    obtain ⟨y, hy, hlub'⟩ := exists_commonLoose_eq hothers
    rw [hx, hy, (h y hlub').unique hlub]
  refine ⟨⟨x, hx, hlub⟩, fun others h => hunique others (ne_nil_of_mem_iff hsome h) fun y hy => ?_,
    fun part rest t hperm hpart ht => ?_, fun hknown => ?_⟩
  · simpa only [h] using hy
  · obtain ⟨y, hy, hlub'⟩ := exists_commonLoose_eq hpart
    cases ht.symm.trans hy
    refine hunique (y :: rest) (cons_ne_nil _ _) fun z hz => ?_
    simpa only [hperm.mem_iff] using (isLUB_cons_iff hlub').1 hz
  · obtain ⟨t, ht, hcrossed, hlub'⟩ := exists_commonStrict_eq hsome hknown
    refine ⟨fun h => by rw [ht, hcrossed h], fun h => ?_⟩
    obtain ⟨y, rfl, hy⟩ := hlub' h
    rw [hx, ht, hy.unique hlub]

theorem common_isLUB_sample :
    commonLoose [.num .column .int, .unknown, .num .row .double] = .ok (.num .matrix .double) ∧
    ∃ x : Level, .ok (ofLevel x) = commonLoose [.num .column .int, .unknown, .num .row .double] ∧
      IsLUB {x | x ∈ [↑(Shape.column, Element.int), ⊥, ↑(Shape.row, Element.double)]} x := by
  obtain ⟨x, hx, hlub⟩ := (common_isLUB (cons_ne_nil ↑(Shape.column, Element.int)
    [⊥, ↑(Shape.row, Element.double)])).1
  exact ⟨by decide, x, hx.symm, hlub⟩

end Datatype

end ArmaGen
