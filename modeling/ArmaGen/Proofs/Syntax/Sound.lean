import ArmaGen.Proofs.Syntax.Promise

/-!
# Sound parsers

What a parser makes is as it should be in three ways: no node stands before the node above it
(`Syntax.Placed`), each node has the nodes below it that its kind promises (`Syntax.Shaped`), and a
setting that asks for less leaves out asides only. `Parse.Sound` says all of this, so that each
parser is gone through once.
-/

namespace ArmaGen

variable {α β : Type}

namespace Syntax

mutual

/-- A tree stands at or after a position, and no node in it stands before the node above it. -/
def Placed (k : Int) : Syntax → Prop
  | .declare => True
  | .node head items => k ≤ head.cur?.getD k ∧ PlacedAll (head.cur?.getD k) items

def PlacedAll (k : Int) : List Syntax → Prop
  | [] => True
  | item :: rest => Placed k item ∧ PlacedAll k rest

end

variable {j k : Int} {items rest : List Syntax}

lemma placedAll_append : PlacedAll k (items ++ rest) ↔ PlacedAll k items ∧ PlacedAll k rest := by
  induction items with
  | nil => exact ⟨fun h => ⟨trivial, h⟩, fun h => h.2⟩
  | cons item items ih =>
    rw [List.cons_append, PlacedAll, ih]
    exact and_assoc.symm

mutual

lemma Placed.mono (hle : j ≤ k) : ∀ {item : Syntax}, Placed k item → Placed j item
  | .declare, _ => trivial
  | .node ⟨kind, name, value, pointer, cur?, code?⟩ items, h => by
    cases cur? with
    | some c => exact ⟨Int.le_trans hle h.1, h.2⟩
    | none => exact ⟨Int.le_rfl, PlacedAll.mono hle h.2⟩

lemma PlacedAll.mono (hle : j ≤ k) : ∀ {items : List Syntax}, PlacedAll k items → PlacedAll j items
  | [], _ => trivial
  | _ :: _, h => ⟨h.1.mono hle, PlacedAll.mono hle h.2⟩

end

lemma declareLast_cases {s : Source} (items : List Syntax) :
    kinds (declareLast items) = kinds items ∧ (FreeAll items → FreeAll (declareLast items)) ∧
      (PlacedAll k items → PlacedAll k (declareLast items)) ∧
      (ShapedAll s items → ShapedAll s (declareLast items)) := by
  rcases List.eq_nil_or_concat items with rfl | ⟨first, last, rfl⟩
  · exact ⟨rfl, id, id, id⟩
  rw [List.concat_eq_append, show declareLast (first ++ [last]) = first ++ [last.declared] by
    simp [declareLast]]
  cases last with
  | declare => exact ⟨rfl, id, id, id⟩
  | node head below =>
    refine ⟨by rw [kinds_append, kinds_append]; rfl, fun h => ?_, fun h => ?_, fun h => ?_⟩
    · obtain ⟨hfirst, ⟨hhead, hbelow⟩, -⟩ := freeAll_append.1 h
      exact freeAll_append.2 ⟨hfirst, ⟨by rwa [kinds_declare],
        freeAll_append.2 ⟨hbelow, trivial, trivial⟩⟩, trivial⟩
    · obtain ⟨hfirst, ⟨hhead, hbelow⟩, -⟩ := placedAll_append.1 h
      exact placedAll_append.2 ⟨hfirst, ⟨hhead, placedAll_append.2 ⟨hbelow, trivial, trivial⟩⟩,
        trivial⟩
    · obtain ⟨hfirst, ⟨hgrants, hbelow⟩, -⟩ := shapedAll_append.1 h
      exact shapedAll_append.2 ⟨hfirst, ⟨by rwa [kinds_declare],
        shapedAll_append.2 ⟨hbelow, trivial, trivial⟩⟩, trivial⟩

end Syntax

namespace Parse

open Syntax

/-- Where asides may stand in what is made: nowhere, not at its top, or also there. -/
inductive Mode where
  | free
  | closed
  | opened

namespace Mode

variable {m : Mode} {items rest : List Syntax}

/-- Asides stand only where they may, and functions have their parts below them. -/
def Admits : Mode → List Syntax → Prop
  | free, items => FreeAll items
  | closed, items => NeatAll items ∧ ∀ item ∈ items, item.isOf Kind.isAside = false
  | opened, items => NeatAll items

/-- The mode of what stands below a node of a kind. -/
def inner (m : Mode) (kind : Kind) : Mode :=
  match m with
  | free => free
  | _ => if kind == .block then opened else closed

lemma admits_of_free (h : FreeAll items) : m.Admits items := by
  cases m with
  | free => exact h
  | closed => exact ⟨h.neatAll _, h.isAside_eq_false⟩
  | opened => exact h.neatAll _

lemma admits_append (h : m.Admits items) (hrest : m.Admits rest) : m.Admits (items ++ rest) := by
  cases m with
  | free => exact freeAll_append.2 ⟨h, hrest⟩
  | closed => exact ⟨neatAll_append.2 ⟨h.1, hrest.1⟩, List.forall_mem_append.2 ⟨h.2, hrest.2⟩⟩
  | opened => exact neatAll_append.2 ⟨h, hrest⟩

lemma admits_of_neat {head : Head} (hm : m ≠ free) (hhead : head.kind.isAside = false)
    (h : Neat (.node head items)) : m.Admits [.node head items] := by
  cases m with
  | free => exact absurd rfl hm
  | closed => exact ⟨⟨h, trivial⟩, fun _ hitem => List.mem_singleton.1 hitem ▸ hhead⟩
  | opened => exact ⟨h, trivial⟩

lemma admits_node {head : Head} (hhead : head.kind.isOrdinary = true)
    (h : (m.inner head.kind).Admits items) : m.Admits [.node head items] := by
  by_cases hm : m = free
  · subst hm
    exact ⟨⟨.inl hhead, h⟩, trivial⟩
  have hinner : m.inner head.kind = if head.kind == .block then opened else closed := by
    cases m <;> first | rfl | exact absurd rfl hm
  rw [hinner] at h
  refine admits_of_neat hm (Kind.isAside_of_isOrdinary hhead) ?_
  split at h
  · next hblock => exact ⟨.inr (.inl ⟨hhead, fun hne => absurd (beq_iff_eq.1 hblock) hne⟩), h⟩
  · exact ⟨.inr (.inl ⟨hhead, fun _ => h.2⟩), h.1⟩

end Mode

/-- Under a setting that asks for less, a parser makes the same but for asides, with the same
outcome. If it succeeds, what it makes is placed from a position on, keeps its promises, and has a
property together with the result. -/
def Sound (s : Source) (m : Mode) (k : Int) (p : Parse α) (P : List Syntax → α → Prop) : Prop :=
  ∀ ⦃st st' : Setting⦄, Setting.Lighter s st st' →
    (p st').made = withoutAll (st.drops st') (p st).made ∧ (p st').outcome = (p st).outcome ∧
      m.Admits (p st).made ∧ ∀ a, (p st).outcome = .ok a →
        (PlacedAll k (p st).made ∧ ShapedAll s (p st).made) ∧ P (p st).made a

/-- A parser is sound and does not step back. -/
abbrev Forward (s : Source) (m : Mode) (k : Int) (p : Parse Int) : Prop :=
  Sound s m k p fun _ stop => k ≤ stop

/-- A parser is sound, makes nodes of these kinds, and its result has a property. -/
abbrev Makes (s : Source) (m : Mode) (k : Int) (p : Parse α) (ks : List Kind) (R : α → Prop) :
    Prop :=
  Sound s m k p fun made a => kinds made = ks ∧ R a

variable {s : Source} {m : Mode} {j k cur : Int} {p q : Parse α} {f : α → Parse β}
  {P P' : List Syntax → α → Prop} {Q : List Syntax → β → Prop} {R : α → Prop}

lemma lighter_self (hs : s.Ended) {st : Setting} (hst : st.source = s) : Setting.Lighter s st st :=
  ⟨hs, hst, hst, id, id⟩

lemma Sound.gives (hp : Sound s m k p P) (hs : s.Ended) : Gives s p P :=
  fun _ hst a ha => ((hp (lighter_self hs hst)).2.2.2 a ha).2

/-- The text ends with a line end, as every text does that is read under two settings. -/
lemma Sound.of_ended (h : s.Ended → Sound s m k p P) : Sound s m k p P :=
  fun _ _ hst => h hst.ended hst

lemma Sound.mono (hp : Sound s m k p P) (hle : j ≤ k) (h : ∀ made a, P made a → P' made a) :
    Sound s m j p P' := by
  intro st st' hst
  obtain ⟨hmade, houtcome, hadmits, hok⟩ := hp hst
  refine ⟨hmade, houtcome, hadmits, fun a ha => ?_⟩
  obtain ⟨⟨hplaced, hshaped⟩, hP⟩ := hok a ha
  exact ⟨⟨hplaced.mono hle, hshaped⟩, h _ a hP⟩

lemma Sound.imp (hp : Sound s m k p P) (h : ∀ made a, P made a → P' made a) : Sound s m k p P' :=
  hp.mono Int.le_rfl h

lemma Sound.right (hp : Sound s m k p fun made a => P made a ∧ R a) :
    Sound s m k p fun _ a => R a :=
  hp.imp fun _ _ h => h.2

lemma Sound.with (hp : Sound s m k p P) (h : Gives s p fun _ a => R a) :
    Sound s m k p fun made a => P made a ∧ R a := by
  intro st st' hst
  obtain ⟨hmade, houtcome, hadmits, hok⟩ := hp hst
  exact ⟨hmade, houtcome, hadmits, fun a ha => ⟨(hok a ha).1, (hok a ha).2, h hst.source ha⟩⟩

variable {items : List Syntax} {x : Scan α} {c : Prop} {kind : Kind} {stop : Int}

/-- What depends on the text alone and is free of asides. -/
lemma sound_of_run {outcome : Except Failure α}
    (hrun : ∀ st : Setting, st.source = s → (p st).made = items ∧ (p st).outcome = outcome)
    (hfree : FreeAll items) (hok : ∀ a, outcome = .ok a →
      (PlacedAll k items ∧ ShapedAll s items) ∧ P items a) : Sound s m k p P := by
  intro st st' hst
  obtain ⟨hmade, houtcome⟩ := hrun st hst.source
  obtain ⟨hmade', houtcome'⟩ := hrun st' hst.source'
  rw [hmade, hmade', houtcome, houtcome', hfree.withoutAll_eq Setting.isAside_of_drops]
  exact ⟨rfl, rfl, Mode.admits_of_free hfree, hok⟩

protected lemma Sound.pure {a : α} (h : P [] a) : Sound s m k (pure a) P :=
  sound_of_run (fun _ _ => ⟨rfl, rfl⟩) trivial fun _ ha =>
    Except.ok.inj ha ▸ ⟨⟨trivial, trivial⟩, h⟩

protected lemma Sound.fail (failure : Failure) : Sound s m k (fail failure) P :=
  sound_of_run (fun _ _ => ⟨rfl, rfl⟩) trivial nofun

lemma sound_lift (h : x.Gives R) : Sound s m k (liftM x) fun made a => made = [] ∧ R a :=
  sound_of_run (fun _ _ => ⟨rfl, rfl⟩) trivial fun _ ha => ⟨⟨trivial, trivial⟩, rfl, h ha⟩

lemma sound_scan (x : Scan α) : Sound s m k (liftM x) fun made _ => made = [] :=
  (sound_lift (Scan.gives_any x)).imp fun _ _ h => h.1

lemma sound_source : Sound s m k source fun made a => made = [] ∧ a = s :=
  sound_of_run (fun _ hst => ⟨rfl, congrArg Except.ok hst⟩) trivial fun _ ha =>
    ⟨⟨trivial, trivial⟩, rfl, (Except.ok.inj ha).symm⟩

lemma sound_note (line : Unit → String) : Sound s m k (note line) fun made _ => made = [] :=
  sound_of_run (fun _ _ => ⟨rfl, rfl⟩) trivial fun _ _ => ⟨⟨trivial, trivial⟩, rfl⟩

lemma sound_emit (hfree : FreeAll items) (hplaced : PlacedAll k items)
    (hshaped : ShapedAll s items) : Sound s m k (emit items) fun made _ => made = items :=
  sound_of_run (fun _ _ => ⟨rfl, rfl⟩) hfree fun _ _ => ⟨⟨hplaced, hshaped⟩, rfl⟩

lemma Sound.bind (hp : Sound s m k p P)
    (hf : ∀ made a, P made a → Sound s m k (f a) fun rest b => Q (made ++ rest) b) :
    Sound s m k (p >>= f) Q := by
  intro st st' hst
  obtain ⟨hmade, houtcome, hadmits, hok⟩ := hp hst
  rcases bind_eq p f st with ⟨failure, ho, hm, hr⟩ | ⟨a, ho, hm, hr⟩ <;>
    rcases bind_eq p f st' with ⟨failure', ho', hm', hr'⟩ | ⟨a', ho', hm', hr'⟩ <;>
    rw [houtcome, ho] at ho' <;> cases ho'
  · exact ⟨by rw [hm, hm', hmade], by rw [hr, hr'], by rwa [hm],
      fun b hb => by rw [hr] at hb; cases hb⟩
  · obtain ⟨⟨hplaced, hshaped⟩, hP⟩ := hok a ho
    obtain ⟨hmade', houtcome', hadmits', hok'⟩ := hf _ a hP hst
    rw [hm, hm', hr, hr', withoutAll_append]
    refine ⟨by rw [hmade, hmade'], houtcome', Mode.admits_append hadmits hadmits', fun b hb => ?_⟩
    obtain ⟨⟨hplaced', hshaped'⟩, hQ⟩ := hok' b hb
    exact ⟨⟨placedAll_append.2 ⟨hplaced, hplaced'⟩, shapedAll_append.2 ⟨hshaped, hshaped'⟩⟩, hQ⟩

lemma Sound.bind_of_nil (hp : Sound s m k p fun made a => made = [] ∧ R a)
    (hf : ∀ a, R a → Sound s m k (f a) Q) : Sound s m k (p >>= f) Q :=
  hp.bind fun _ a h => h.1 ▸ hf a h.2

lemma Sound.bind_nil (hp : Sound s m k p fun made _ => made = [])
    (hf : ∀ a, Sound s m k (f a) Q) : Sound s m k (p >>= f) Q :=
  hp.bind fun _ a h => h ▸ hf a

lemma Sound.then {g : α → β} (hp : Sound s m k p fun made a => Q made (g a)) :
    Sound s m k (p >>= fun a => pure (g a)) Q :=
  hp.bind fun _ _ h => .pure (by rwa [List.append_nil])

lemma Sound.also {ks ks' : List Kind} {R' : β → Prop}
    (hp : Makes s m k p ks R) (hf : ∀ a, R a → Makes s m k (f a) ks' R') :
    Makes s m k (p >>= f) (ks ++ ks') R' :=
  hp.bind fun _ a h => (hf a h.2).imp fun _ _ h' => ⟨by rw [kinds_append, h.1, h'.1], h'.2⟩

protected lemma Sound.source {f : Source → Parse β} (hf : Sound s m k (f s) Q) :
    Sound s m k (source >>= f) Q :=
  sound_source.bind_of_nil fun _ h => h ▸ hf

protected lemma Sound.lift (hx : x.Gives R) (hf : ∀ a, R a → Sound s m k (f a) Q) :
    Sound s m k (liftM x >>= f) Q :=
  (sound_lift hx).bind_of_nil hf

protected lemma Sound.scan (hf : ∀ a, x = .ok a → Sound s m k (f a) Q) :
    Sound s m k (liftM x >>= f) Q :=
  .lift (fun _ h => h) hf

protected lemma Sound.look (hf : ∀ a, Sound s m k (f a) Q) : Sound s m k (liftM x >>= f) Q :=
  .scan fun a _ => hf a

protected lemma Sound.skip {d : Char → Bool} {i : Int} {f : Int → Parse β}
    (hf : ∀ j, i ≤ j → Sound s m k (f j) Q) : Sound s m k (liftM (s.skip d i) >>= f) Q :=
  .lift (Source.gives_skip _) hf

protected lemma Sound.expected (at? : Int) (what : String) : Sound s m k (expected at? what) P :=
  .source ((sound_lift (R := fun _ => False) (Source.gives_expected ..)).imp fun _ _ h => h.2.elim)

lemma sound_progress (at? : Int) (label place : String) (x y : Int) :
    Sound s m k (progress at? label place x y) fun made _ => made = [] :=
  .source (sound_note _)

protected lemma Sound.progress {f : Unit → Parse β} {label place : String} {at? x y : Int}
    (hf : Sound s m k (f ()) Q) : Sound s m k (progress at? label place x y >>= f) Q :=
  (sound_progress ..).bind_nil fun _ => hf

protected lemma Sound.note {f : Unit → Parse β} {line : Unit → String}
    (hf : Sound s m k (f ()) Q) : Sound s m k (note line >>= f) Q :=
  (sound_note line).bind_nil fun _ => hf

lemma Sound.ite [Decidable c] (hp : c → Sound s m k p P) (hq : ¬ c → Sound s m k q P) :
    Sound s m k (if c then p else q) P := by
  split
  · next h => exact hp h
  · next h => exact hq h

lemma Sound.either [Decidable c] (hp : Sound s m k p P) (hq : Sound s m k q P) :
    Sound s m k (if c then p else q) P :=
  .ite (fun _ => hp) fun _ => hq

lemma Sound.orExpected [Decidable c] {at? : Int} {what : String} (hp : Sound s m k p P) :
    Sound s m k (if c then expected at? what else p) P :=
  .either (.expected ..) hp

section Tests

variable {x : Scan α} {c : α → Prop} [∀ a, Decidable (c a)] {p q : Parse β}

protected lemma Sound.test (hp : Sound s m k p Q) (hq : Sound s m k q Q) :
    Sound s m k (liftM x >>= fun a => if c a then p else q) Q :=
  .look fun _ => .either hp hq

protected lemma Sound.need {at? : Int} {what : String} (hp : Sound s m k p Q) :
    Sound s m k (liftM x >>= fun a => if c a then expected at? what else p) Q :=
  .look fun _ => .orExpected hp

end Tests

/-! ### Nodes -/

/-- A node that is put around what a parser makes, whatever is said of it in the end. -/
lemma Sound.wrap_of_admits {head : Head} {close : List Syntax → α → Head × Except Failure β}
    {n : Mode} {R : β → Prop} (hp : Sound s n (head.cur?.getD k) p P)
    (hle : k ≤ head.cur?.getD k) (hsame : n = .free ∨ ∀ made made' a, close made a = close made' a)
    (haside : head.kind.isAside = false)
    (hadmits : ∀ (st : Setting) (head' : Head), head'.kind = head.kind → n.Admits (p st).made →
      m.Admits [.node head' (p st).made])
    (hclose : ∀ made a, (close made a).1.kind = head.kind ∧ (close made a).1.cur? = head.cur?)
    (hresult : ∀ made a b, P made a → (close made a).2 = .ok b →
      s.Grants head.kind.grown head.cur? (kinds made) ∧ R b) :
    Makes s m k (wrap head p close) [head.kind] R := by
  intro st st' hst
  obtain ⟨hmade, houtcome, hinner, hok⟩ := hp hst
  have hadmits := fun head' hhead' => hadmits st head' hhead' hinner
  have hnode : ∀ {head' : Head} {made made' : List Syntax}, head'.kind = head.kind →
      made' = withoutAll (st.drops st') made →
      [Syntax.node head' made'] = withoutAll (st.drops st') [.node head' made] := by
    intro head' made made' hkind hmade
    have hfree : (Syntax.node head' made).isOf Kind.isAside = false := by rw [isOf, hkind, haside]
    rw [withoutAll, if_neg (by simp [isOf_eq_false Setting.isAside_of_drops hfree]), without,
      withoutAll, hmade]
  unfold wrap
  rcases hrun : p st with ⟨made, notes, failure | a⟩ <;>
    rcases hrun' : p st' with ⟨made', notes', failure' | a'⟩ <;>
    rw [hrun, hrun'] at hmade houtcome <;> rw [hrun] at hinner hadmits hok <;> cases houtcome
  · exact ⟨hnode rfl hmade, rfl, hadmits head rfl, fun _ h => by cases h⟩
  · have heq : close made' a = close made a := by
      rcases hsame with rfl | hsame
      · rw [show made' = made from hmade.trans (FreeAll.withoutAll_eq
          Setting.isAside_of_drops made hinner)]
      · exact hsame ..
    obtain ⟨hkind, hcur⟩ := hclose made a
    refine ⟨?_, congrArg Prod.snd heq, hadmits (close made a).1 hkind, fun b hb => ?_⟩
    · show [Syntax.node (close made' a).1 made'] = _
      rw [heq]
      exact hnode hkind hmade
    · obtain ⟨⟨hplaced, hshaped⟩, hP⟩ := hok a rfl
      obtain ⟨hgrants, hR⟩ := hresult made a b hP hb
      refine ⟨⟨⟨⟨?_, ?_⟩, trivial⟩, ⟨?_, hshaped⟩, trivial⟩, congrArg (fun kind => [kind]) hkind,
        hR⟩
      · rwa [hcur]
      · rwa [hcur]
      · rwa [hcur, hkind]

section Node

variable {head : Head} (hhead : head.kind.isOrdinary = true) (hle : k ≤ head.cur?.getD k)

include hhead hle

lemma Sound.wrap {close : List Syntax → α → Head × Except Failure β} {n : Mode} {R : β → Prop}
    (hp : Sound s n (head.cur?.getD k) p P)
    (hmode : n = .free ∨ n = m.inner head.kind ∧ ∀ made made' a, close made a = close made' a)
    (hclose : ∀ made a, (close made a).1.kind = head.kind ∧ (close made a).1.cur? = head.cur?)
    (hresult : ∀ made a b, P made a → (close made a).2 = .ok b →
      s.Grants head.kind head.cur? (kinds made) ∧ R b) :
    Makes s m k (wrap head p close) [head.kind] R := by
  have hgrown : head.kind.grown = head.kind := by
    cases hkind : head.kind <;> first | rfl | (rw [hkind] at hhead; cases hhead)
  refine hp.wrap_of_admits hle (hmode.imp_right And.right) (Kind.isAside_of_isOrdinary hhead)
    (fun st head' hkind h => ?_) hclose (by rwa [hgrown])
  rcases hmode with rfl | ⟨rfl, -⟩
  · exact Mode.admits_of_free ⟨⟨.inl (hkind ▸ hhead), h⟩, trivial⟩
  · exact Mode.admits_node (hkind ▸ hhead) (hkind ▸ h)

section

variable (hp : Sound s (m.inner head.kind) (head.cur?.getD k) p fun made a =>
  s.Grants head.kind head.cur? (kinds made) ∧ R a)

include hp

lemma Sound.node : Makes s m k (node head p) [head.kind] R :=
  .wrap hhead hle hp (.inr ⟨rfl, fun _ _ _ => rfl⟩) (fun _ _ => ⟨rfl, rfl⟩)
    fun _ _ _ h hb => ⟨h.1, Except.ok.inj hb ▸ h.2⟩

lemma Sound.nodeThen {code : α → String} : Makes s m k (nodeThen head p code) [head.kind] R :=
  .wrap hhead hle hp (.inr ⟨rfl, fun _ _ _ => rfl⟩) (fun _ _ => ⟨rfl, rfl⟩)
    fun _ _ _ h hb => ⟨h.1, Except.ok.inj hb ▸ h.2⟩

end

end Node

section Simple

variable {head : Head} (hhead : head.kind.isSimple = true) (hle : k ≤ head.cur?.getD k)

include hhead hle

lemma Sound.simple (hp : Sound s (m.inner head.kind) (head.cur?.getD k) p fun _ a => R a) :
    Makes s m k (Parse.node head p) [head.kind] R := by
  obtain ⟨hordinary, hany⟩ := Kind.ordinary_of_isSimple hhead
  exact .node hordinary hle (hp.imp fun _ _ h => ⟨Source.grants_any hany _ _, h⟩)

lemma sound_leaf : Makes s m k (leaf head) [head.kind] (· = ()) :=
  Sound.simple hhead hle (.pure rfl)

end Simple

lemma Sound.spanNode {start : Int} (hkind : kind.isOrdinary = true) (hle : k ≤ start)
    (hp : Sound s (m.inner kind) start p fun made a =>
      s.Grants kind (some start) (kinds made) ∧ R a) :
    Makes s m k (spanNode kind start stop p) [kind] R :=
  .source (.node hkind hle hp)

lemma sound_variableHead_bind {name value : String} {pointer : Int} {f : Head → Parse β}
    (hf : ∀ head, head.kind = kind → head.cur? = some cur → Sound s m k (f head) Q) :
    Sound s m k (variableHead kind name cur stop value pointer >>= f) Q := by
  have hhead : Sound s m k (variableHead kind name cur stop value pointer) fun made head =>
      made = [] ∧ head.kind = kind ∧ head.cur? = some cur := .source (.pure ⟨rfl, rfl, rfl⟩)
  exact hhead.bind_of_nil fun head h => hf head h.1 h.2

section Variable

variable {kind : Kind} {name value : String} {stop pointer : Int} (hkind : kind.isSimple = true)
  (hle : k ≤ cur)

include hkind hle

lemma Sound.simpleAt {head : Head} (hhead : head.kind = kind) (hcur : head.cur? = some cur)
    (hp : Sound s (m.inner kind) cur p fun _ a => R a) :
    Makes s m k (Parse.node head p) [kind] R := by
  subst hhead
  refine .simple hkind ?_ ?_ <;> rw [hcur]
  · exact hle
  · exact hp

lemma Sound.headed (hp : Sound s (m.inner kind) cur p fun _ a => R a) :
    Makes s m k (variableHead kind name cur stop value pointer >>= fun head => Parse.node head p)
      [kind] R :=
  sound_variableHead_bind fun _ hhead hcur => .simpleAt hkind hle hhead hcur hp

end Variable

lemma Sound.declaring (hp : Sound s .free k p P)
    (h : ∀ made a, P made a → P' (declareLast made) a) : Sound s m k (declaring p) P' := by
  intro st st' hst
  obtain ⟨hmade, houtcome, hfree, hok⟩ := hp hst
  rw [FreeAll.withoutAll_eq Setting.isAside_of_drops _ hfree] at hmade
  unfold Parse.declaring
  rcases hrun : p st with ⟨made, notes, failure | a⟩ <;>
    rcases hrun' : p st' with ⟨made', notes', failure' | a'⟩ <;>
    rw [hrun, hrun'] at hmade houtcome <;> rw [hrun] at hfree hok <;> cases hmade <;> cases houtcome
  · exact ⟨(FreeAll.withoutAll_eq Setting.isAside_of_drops made hfree).symm, rfl,
      Mode.admits_of_free hfree, nofun⟩
  · obtain ⟨-, hdeclared, hplaces, hshapes⟩ := declareLast_cases made
    obtain ⟨⟨hplaced, hshaped⟩, hP⟩ := hok a rfl
    refine ⟨((hdeclared hfree).withoutAll_eq Setting.isAside_of_drops _).symm, rfl,
      Mode.admits_of_free (hdeclared hfree), fun b hb => ?_⟩
    cases hb
    exact ⟨⟨hplaces hplaced, hshapes hshaped⟩, h made a hP⟩

lemma Sound.declared (hp : Makes s .free k p [kind] R) :
    Makes s m k (Parse.declaring p) [kind] R :=
  hp.declaring fun made _ h => ⟨(declareLast_cases (s := s) (k := k) made).1.trans h.1, h.2⟩

lemma sound_declaredLeaf {name value : String} {pointer : Int} {b : β}
    (hkind : kind.isSimple = true) (hle : k ≤ cur) : Makes s m k (do
      Parse.declaring (leaf (← variableHead kind name cur stop value pointer))
      return b) [kind] (· = b) := by
  refine sound_variableHead_bind fun head hhead hcur => .then ?_
  subst hhead
  exact (sound_leaf hkind (by rw [hcur]; exact hle)).declared.imp fun _ _ h => ⟨h.1, rfl⟩

lemma Sound.elseLeaving (hfree : FreeAll items) (hx : x.Gives R) :
    Sound s m k (elseLeaving (scan x) items) fun made a => made = [] ∧ R a := by
  cases x with
  | error failure => exact sound_of_run (fun _ _ => ⟨rfl, rfl⟩) hfree nofun
  | ok a =>
    exact sound_of_run (fun _ _ => ⟨rfl, rfl⟩) trivial fun _ ha => ⟨⟨trivial, trivial⟩, rfl, hx ha⟩

/-- What a parser without asides makes may be looked at, and is then left behind or not. -/
lemma sound_attempt_bind {f : List Syntax × Except Failure α → Parse β} (hp : Sound s .free k p P)
    (herror : ∀ (st : Setting) failure, FreeAll (p st).made →
      Sound s m k (f ((p st).made, .error failure)) Q)
    (hok : ∀ (st : Setting) a, st.source = s → (p st).outcome = .ok a → FreeAll (p st).made →
      PlacedAll k (p st).made → ShapedAll s (p st).made → P (p st).made a →
      Sound s m k (f ((p st).made, .ok a)) Q) : Sound s m k (attempt p >>= f) Q := by
  intro st st' hst
  obtain ⟨hmade, houtcome, hfree, hdone⟩ := hp hst
  rw [FreeAll.withoutAll_eq Setting.isAside_of_drops _ hfree] at hmade
  have hrun : ∀ st, (attempt p >>= f) st = (⟨(f ((p st).made, (p st).outcome) st).made,
      (p st).notes ++ (f ((p st).made, (p st).outcome) st).notes,
      (f ((p st).made, (p st).outcome) st).outcome⟩) := fun _ => rfl
  rw [hrun, hrun, hmade, houtcome]
  cases hresult : (p st).outcome with
  | error failure => exact herror st failure hfree hst
  | ok a =>
    obtain ⟨⟨hplaced, hshaped⟩, hP⟩ := hdone a hresult
    exact hok st a hst.source hresult hfree hplaced hshaped hP hst

lemma sound_emit_fail {failure : Failure} (hfree : FreeAll items) :
    Sound s m k (emit items >>= fun _ => (fail failure : Parse β)) Q :=
  sound_of_run (fun _ _ => ⟨List.append_nil items, rfl⟩) hfree nofun

end Parse

end ArmaGen
