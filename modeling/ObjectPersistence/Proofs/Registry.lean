import Mathlib
import ObjectPersistence.Interface

/-! # The ownership registry

A runtime keeps one registry for all its contexts, naming for an object the context that
manages it. A context *holds* an object when one of its managers of the object is in a
state other than transient. The registry agrees with a context when it names the context for
exactly the objects the context holds; `OwnersAgree v` adds that the registry's other
entries are the ones the view `v` describes, so that what a call leaves of them can be
stated.

A context looks an object up by its first manager. A transient object made with a
recycled identifier can give an object a second manager, so the invariant also records that
every manager other than the first is transient (`FirstInUse`).

Each way the engine changes managers has a step lemma: a change that keeps each manager
transient or not, a lifecycle event, a new transient manager, an object bound or made
persistent (and so claimed), and an object given up. The engine's primitive operations get a
Hoare triple each, for any ending, since a failing call keeps what it did before failing. -/

set_option mvcgen.warning false

namespace ObjectPersistence

/-! ### Holding an object -/

def Holding (objs : List ManagedObject) (id : ObjectId) : Prop :=
  ∃ m ∈ objs, m.id = id ∧ m.lifecycle ≠ .transient

def FirstInUse (objs : List ManagedObject) : Prop :=
  ∀ m ∈ objs, m.lifecycle ≠ .transient → objs.find? (·.id == m.id) = some m

def updateAt (id : ObjectId) (f : ManagedObject → ManagedObject) (m : ManagedObject) :
    ManagedObject :=
  if m.id == id then f m else m

/-- A change to the managers of one object that keeps them managers of that object, each
transient exactly when it was. -/
def KeepsHolding (id : ObjectId) (f : ManagedObject → ManagedObject) : Prop :=
  ∀ m, m.id = id → (f m).id = id ∧ ((f m).lifecycle = .transient ↔ m.lifecycle = .transient)

theorem KeepsHolding.of_lifecycle {id : ObjectId} {f : ManagedObject → ManagedObject}
    (h : ∀ m, (f m).id = m.id ∧ (f m).lifecycle = m.lifecycle) : KeepsHolding id f :=
  fun m hm => ⟨(h m).1.trans hm, by rw [(h m).2]⟩

theorem KeepsHolding.comp {id : ObjectId} {f g : ManagedObject → ManagedObject}
    (hg : KeepsHolding id g) (hf : KeepsHolding id f) : KeepsHolding id (g ∘ f) := fun m hm =>
  ⟨(hg (f m) (hf m hm).1).1, (hg (f m) (hf m hm).1).2.trans (hf m hm).2⟩

section Holding

variable {objs objs' : List ManagedObject} {id j : ObjectId} {g f : ManagedObject → ManagedObject}

theorem id_of_find? {m : ManagedObject} (h : objs.find? (·.id == id) = some m) : m.id = id := by
  simpa using List.find?_some h

theorem FirstInUse.holding_iff (h : FirstInUse objs) :
    Holding objs j ↔ ∃ m, objs.find? (·.id == j) = some m ∧ m.lifecycle ≠ .transient := by
  constructor
  · rintro ⟨m, hm, rfl, ht⟩
    exact ⟨m, h m hm ht, ht⟩
  · rintro ⟨m, hf, ht⟩
    exact ⟨m, List.mem_of_find?_eq_some hf, id_of_find? hf, ht⟩

theorem holding_map (hg : ∀ m, (g m).id = m.id) :
    Holding (objs.map g) j ↔ ∃ m ∈ objs, m.id = j ∧ (g m).lifecycle ≠ .transient := by
  simp only [Holding, List.mem_map]
  constructor
  · rintro ⟨_, ⟨m, hm, rfl⟩, hj, ht⟩
    exact ⟨m, hm, (hg m) ▸ hj, ht⟩
  · rintro ⟨m, hm, hj, ht⟩
    exact ⟨g m, ⟨m, hm, rfl⟩, (hg m).trans hj, ht⟩

theorem find?_map_of_id (hg : ∀ m, (g m).id = m.id) :
    (objs.map g).find? (·.id == j) = (objs.find? (·.id == j)).map g := by
  rw [List.find?_map]
  congr 1
  simp only [Function.comp_def, hg]

/-- Mapping the managers keeps the first manager of each object the one in use, as long as
each manager the change leaves persistent is changed into what its first manager becomes. -/
theorem firstInUse_map (hg : ∀ m, (g m).id = m.id)
    (hfirst : ∀ m ∈ objs, (g m).lifecycle ≠ .transient →
      ∃ m₀, objs.find? (·.id == m.id) = some m₀ ∧ g m₀ = g m) :
    FirstInUse (objs.map g) := by
  intro m' hm' ht
  rw [List.mem_map] at hm'
  obtain ⟨m, hm, rfl⟩ := hm'
  obtain ⟨m₀, hf, he⟩ := hfirst m hm ht
  rw [find?_map_of_id hg, hg, hf, Option.map_some, he]

theorem updateAt_id (hf : ∀ m, m.id = id → (f m).id = id) (m : ManagedObject) :
    (updateAt id f m).id = m.id := by
  unfold updateAt
  split
  · rename_i he
    have hm : m.id = id := by simpa using he
    rw [hf m hm, hm]
  · rfl

theorem find?_updateAt (hf : ∀ m, m.id = id → (f m).id = id) :
    (objs.map (updateAt id f)).find? (·.id == j) =
      if j = id then (objs.find? (·.id == j)).map f else objs.find? (·.id == j) := by
  rw [find?_map_of_id (updateAt_id hf)]
  cases hfind : objs.find? (·.id == j) with
  | none => simp
  | some m =>
    have hm : m.id = j := id_of_find? hfind
    by_cases hj : j = id
    · simp [updateAt, hm, hj]
    · simp [updateAt, hm, hj]

theorem holding_update (hf : KeepsHolding id f) :
    Holding (objs.map (updateAt id f)) j ↔ Holding objs j := by
  rw [holding_map (updateAt_id fun m hm => (hf m hm).1)]
  refine exists_congr fun m => and_congr_right fun _ => and_congr_right fun _ => ?_
  unfold updateAt
  split
  · rename_i he
    exact not_congr (hf m (by simpa using he)).2
  · rfl

theorem FirstInUse.update (hs : FirstInUse objs) (hf : KeepsHolding id f) :
    FirstInUse (objs.map (updateAt id f)) := by
  refine firstInUse_map (updateAt_id fun m hm => (hf m hm).1)
    (fun m hm ht => ⟨m, hs m hm ?_, rfl⟩)
  unfold updateAt at ht
  split at ht
  · rename_i he
    exact fun h' => ht ((hf m (by simpa using he)).2.2 h')
  · exact ht

theorem holding_replace {m' : ManagedObject} (hid : m'.id = id) :
    Holding (objs.map (updateAt id fun _ => m')) j ↔
      if j = id then (∃ m ∈ objs, m.id = id) ∧ m'.lifecycle ≠ .transient
      else Holding objs j := by
  rw [holding_map (updateAt_id fun _ _ => hid)]
  split
  · subst j
    constructor
    · rintro ⟨m, hm, hj, ht⟩
      simp only [updateAt, hj, beq_self_eq_true, ↓reduceIte] at ht
      exact ⟨⟨m, hm, hj⟩, ht⟩
    · rintro ⟨⟨m, hm, hj⟩, ht⟩
      exact ⟨m, hm, hj, by simpa [updateAt, hj] using ht⟩
  · rename_i hj
    refine exists_congr fun m => and_congr_right fun _ => and_congr_right fun hmj => ?_
    have : (m.id == id) = false := by simpa [hmj] using hj
    simp only [updateAt, this, Bool.false_eq_true, ↓reduceIte]

theorem FirstInUse.replace {m' : ManagedObject} (hs : FirstInUse objs) (hid : m'.id = id) :
    FirstInUse (objs.map (updateAt id fun _ => m')) := by
  refine firstInUse_map (updateAt_id fun _ _ => hid) fun m hm ht => ?_
  by_cases hj : m.id = id
  · obtain ⟨m₀, hf⟩ : ∃ m₀, objs.find? (·.id == m.id) = some m₀ :=
      Option.isSome_iff_exists.1 (List.find?_isSome.2 ⟨m, hm, by simp⟩)
    refine ⟨m₀, hf, ?_⟩
    simp only [updateAt, id_of_find? hf, hj, beq_self_eq_true, ↓reduceIte]
  · have he : (m.id == id) = false := by simpa using hj
    simp only [updateAt, he, Bool.false_eq_true, ↓reduceIte] at ht ⊢
    exact ⟨m, hs m hm ht, by simp [he]⟩

theorem holding_append {m : ManagedObject} :
    Holding (objs ++ [m]) j ↔ Holding objs j ∨ (m.id = j ∧ m.lifecycle ≠ .transient) := by
  simp only [Holding, List.mem_append, List.mem_singleton]
  constructor
  · rintro ⟨m', hm' | rfl, hj, ht⟩
    · exact .inl ⟨m', hm', hj, ht⟩
    · exact .inr ⟨hj, ht⟩
  · rintro (⟨m', hm', hj, ht⟩ | ⟨hj, ht⟩)
    · exact ⟨m', .inl hm', hj, ht⟩
    · exact ⟨m, .inr rfl, hj, ht⟩

theorem FirstInUse.append {m : ManagedObject} (hs : FirstInUse objs)
    (hnew : m.lifecycle ≠ .transient → ∀ m' ∈ objs, m'.id ≠ m.id) :
    FirstInUse (objs ++ [m]) := by
  intro m' hm' ht
  rw [List.find?_append]
  rw [List.mem_append, List.mem_singleton] at hm'
  rcases hm' with hm' | rfl
  · rw [hs m' hm' ht, Option.some_or]
  · have : objs.find? (·.id == m'.id) = none :=
      List.find?_eq_none.2 fun x hx => by simpa using hnew ht x hx
    simp [this]

theorem holding_filter : Holding (objs.filter (·.id != id)) j ↔ j ≠ id ∧ Holding objs j := by
  simp only [Holding, List.mem_filter, bne_iff_ne, ne_eq]
  constructor
  · rintro ⟨m, ⟨hm, hid⟩, rfl, ht⟩
    exact ⟨hid, m, hm, rfl, ht⟩
  · rintro ⟨hj, m, hm, rfl, ht⟩
    exact ⟨m, ⟨hm, hj⟩, rfl, ht⟩

theorem FirstInUse.filter (hs : FirstInUse objs) : FirstInUse (objs.filter (·.id != id)) := by
  intro m hm ht
  rw [List.mem_filter] at hm
  rw [List.find?_filter, ← hs m hm.1 ht]
  congr 1
  funext a
  by_cases ha : a.id = m.id
  · simpa [ha] using hm.2
  · simp [ha]

end Holding

/-! ### The registry -/

namespace Runtime

variable {r : Runtime} {id : ObjectId} {c : Nat}

theorem ownerOf_eq_some_iff (h : (r.owners.map Prod.fst).Nodup) :
    r.ownerOf id = some c ↔ (id, c) ∈ r.owners := by
  constructor
  · intro hl
    obtain ⟨l₁, l₂, hr, -⟩ := List.lookup_eq_some_iff.1 hl
    simp [hr]
  · intro hm
    obtain ⟨c', hc'⟩ : ∃ c', r.owners.lookup id = some c' :=
      Option.isSome_iff_exists.1 (List.lookup_isSome_iff.2 ⟨(id, c), hm, by simp⟩)
    obtain ⟨l₁, l₂, hr, -⟩ := List.lookup_eq_some_iff.1 hc'
    have hm' : (id, c') ∈ r.owners := by simp [hr]
    have := List.inj_on_of_nodup_map h hm hm' rfl
    simp only [Prod.mk.injEq, true_and] at this
    rw [ownerOf, hc', this]

theorem ownerOf_eq_none_iff : r.ownerOf id = none ↔ ∀ c, (id, c) ∉ r.owners := by
  simp only [ownerOf, List.lookup_eq_none_iff, bne_iff_ne, ne_eq]
  exact ⟨fun h c hm => h _ hm rfl, fun h p hp he => h p.2 (he ▸ hp)⟩

/-- A claim that succeeds either finds the object claimed for the context already, or
registers it when no context held it. -/
theorem claim_eq_ok {r' : Runtime} (h : r.claim id c = .ok r') :
    (r.ownerOf id = some c ∧ r' = r) ∨
    (r.ownerOf id = none ∧ r' = { r with owners := r.owners ++ [(id, c)] }) := by
  unfold claim at h
  split at h
  · rename_i o ho
    by_cases hoc : o = c
    · subst hoc
      simp only [bne_self_eq_false, Bool.false_eq_true, ↓reduceIte, Except.ok.injEq] at h
      exact .inl ⟨ho, h.symm⟩
    · simp [hoc] at h
  · rename_i ho
    simp only [Except.ok.injEq] at h
    exact .inr ⟨ho, h.symm⟩

end Runtime

/-- A context as the registry sees it: its number, and which objects the registry gives to
each of the other contexts. -/
structure RegistryView where
  ctx : Nat
  others : ObjectId → Nat → Prop

/-- The registry `owners` agrees with the managers `objects` of the context `v` names, and
gives the other contexts what `v` says. -/
structure RegistryAgrees (v : RegistryView) (owners : List (ObjectId × Nat)) (ctxId : Nat)
    (objects : List ManagedObject) : Prop where
  ctx_id : ctxId = v.ctx
  keys : (owners.map Prod.fst).Nodup
  first : FirstInUse objects
  own : ∀ id, (id, v.ctx) ∈ owners ↔ Holding objects id
  others : ∀ id c, c ≠ v.ctx → ((id, c) ∈ owners ↔ v.others id c)

namespace RegistryAgrees

variable {v : RegistryView} {owners : List (ObjectId × Nat)} {cid : Nat}
  {objs : List ManagedObject} {id : ObjectId}

theorem update {f} (h : RegistryAgrees v owners cid objs) (hf : KeepsHolding id f) :
    RegistryAgrees v owners cid (objs.map (updateAt id f)) where
  ctx_id := h.ctx_id
  keys := h.keys
  first := h.first.update hf
  own := fun j => by rw [h.own j, holding_update hf]
  others := h.others

theorem transition {m m' : ManagedObject} (h : RegistryAgrees v owners cid objs)
    (hfirst : objs.find? (·.id == id) = some m) (hm' : m'.id = m.id)
    (hkeep : m'.lifecycle = .transient ↔ m.lifecycle = .transient) :
    RegistryAgrees v owners cid (objs.map (updateAt id fun _ => m')) where
  ctx_id := h.ctx_id
  keys := h.keys
  first := h.first.replace (hm'.trans (id_of_find? hfirst))
  own := fun j => by
    rw [h.own j, holding_replace (hm'.trans (id_of_find? hfirst)), h.first.holding_iff]
    split
    · subst j
      refine ⟨fun ⟨m₀, hf, ht⟩ => ?_, fun ⟨_, ht⟩ => ⟨m, hfirst, fun h' => ht (hkeep.2 h')⟩⟩
      rw [hfirst] at hf
      cases hf
      exact ⟨⟨m, List.mem_of_find?_eq_some hfirst, id_of_find? hfirst⟩,
        fun h' => ht (hkeep.1 h')⟩
    · exact Iff.rfl
  others := h.others

theorem adopt {m : ManagedObject} (h : RegistryAgrees v owners cid objs)
    (ht : m.lifecycle = .transient) : RegistryAgrees v owners cid (objs ++ [m]) where
  ctx_id := h.ctx_id
  keys := h.keys
  first := h.first.append fun h' => absurd ht h'
  own := fun j => by
    rw [h.own j, holding_append]
    simp [ht]
  others := h.others

theorem register {objs' : List ManagedObject} (h : RegistryAgrees v owners cid objs)
    (hfree : ∀ c, (id, c) ∉ owners) (hs' : FirstInUse objs')
    (hholds : ∀ j, Holding objs' j ↔ j = id ∨ Holding objs j) :
    RegistryAgrees v (owners ++ [(id, v.ctx)]) cid objs' where
  ctx_id := h.ctx_id
  keys := by
    rw [List.map_append, List.nodup_append]
    refine ⟨h.keys, List.nodup_singleton _, ?_⟩
    simp only [List.map_cons, List.map_nil, List.mem_singleton, List.mem_map]
    rintro _ ⟨⟨j, c⟩, hp, rfl⟩ _ rfl he
    exact hfree c (he ▸ hp)
  first := hs'
  own := fun j => by
    rw [hholds j, List.mem_append, List.mem_singleton, h.own j, Prod.mk.injEq]
    simp only [and_true]
    exact or_comm
  others := fun j c hc => by
    rw [List.mem_append, List.mem_singleton, Prod.mk.injEq, ← h.others j c hc]
    simp [hc]

theorem release {r : Runtime} {objs' : List ManagedObject} (h : RegistryAgrees v r.owners cid objs)
    (hs' : FirstInUse objs') (hholds : ∀ j, Holding objs' j ↔ j ≠ id ∧ Holding objs j) :
    RegistryAgrees v (r.release id cid).owners cid objs' where
  ctx_id := h.ctx_id
  keys := (List.filter_sublist.map _).nodup h.keys
  first := hs'
  own := fun j => by
    rw [hholds j, ← h.own j]
    simp [Runtime.release, h.ctx_id, and_comm]
  others := fun j c hc => by
    rw [← h.others j c hc]
    simp [Runtime.release, h.ctx_id, hc]

theorem disconnect {r : Runtime} (h : RegistryAgrees v r.owners cid objs) :
    RegistryAgrees v (r.release id cid).owners cid (objs.filter (·.id != id)) :=
  h.release h.first.filter fun _ => holding_filter

theorem releaseAll {r : Runtime} (h : RegistryAgrees v r.owners cid objs) (hnil : objs = []) :
    RegistryAgrees v (r.releaseAll cid).owners cid objs where
  ctx_id := h.ctx_id
  keys := (List.filter_sublist.map _).nodup h.keys
  first := h.first
  own := fun j => by
    subst hnil
    simp [Runtime.releaseAll, Holding, h.ctx_id]
  others := fun j c hc => by
    rw [← h.others j c hc]
    simp [Runtime.releaseAll, h.ctx_id, hc]

theorem rollBack {r : Runtime} {m m' : ManagedObject} {g : ManagedObject → ManagedObject}
    (h : RegistryAgrees v r.owners cid objs) (hfirst : objs.find? (·.id == id) = some m)
    (hm' : m'.id = m.id) (ht : m'.lifecycle = .transient)
    (hg : ∀ m, (g m).id = m.id ∧ (g m).lifecycle = m.lifecycle) :
    RegistryAgrees v (r.release id cid).owners cid
      ((objs.map (updateAt id fun _ => m')).map (updateAt id g)) := by
  have hid : m'.id = id := hm'.trans (id_of_find? hfirst)
  have hkeep : KeepsHolding id g := .of_lifecycle hg
  refine h.release ((h.first.replace hid).update hkeep) fun j => ?_
  rw [holding_update hkeep, holding_replace hid]
  split
  · rename_i hj
    simp [hj, ht]
  · rename_i hj
    exact ⟨fun hh => ⟨hj, hh⟩, fun hh => hh.2⟩

theorem bind {r r' : Runtime} {m : ManagedObject} (h : RegistryAgrees v r.owners cid objs)
    (hnone : objs.find? (·.id == id) = none) (hclaim : r.claim id cid = .ok r')
    (hmid : m.id = id) (hmt : m.lifecycle ≠ .transient) :
    RegistryAgrees v r'.owners cid (objs ++ [m]) := by
  have habsent : ∀ m' ∈ objs, m'.id ≠ id := by simpa using hnone
  rcases Runtime.claim_eq_ok hclaim with ⟨hsome, -⟩ | ⟨hfree, rfl⟩
  · rw [Runtime.ownerOf_eq_some_iff h.keys, h.ctx_id, h.own] at hsome
    obtain ⟨m', hm', hid', -⟩ := hsome
    exact absurd hid' (habsent m' hm')
  · obtain rfl := h.ctx_id
    refine h.register (Runtime.ownerOf_eq_none_iff.1 hfree)
      (h.first.append fun _ m' hm' => hmid ▸ habsent m' hm') fun j => ?_
    rw [holding_append, hmid]
    constructor
    · rintro (hj | ⟨rfl, -⟩)
      · exact .inr hj
      · exact .inl rfl
    · rintro (rfl | hj)
      · exact .inr ⟨rfl, hmt⟩
      · exact .inl hj

theorem persist {r r' : Runtime} {m m' : ManagedObject} (h : RegistryAgrees v r.owners cid objs)
    (hfirst : objs.find? (·.id == id) = some m) (ht : m.lifecycle = .transient)
    (hclaim : r.claim id cid = .ok r') (hmid : m'.id = id)
    (hmt : m'.lifecycle ≠ .transient) :
    RegistryAgrees v r'.owners cid (objs.map (updateAt id fun _ => m')) := by
  rcases Runtime.claim_eq_ok hclaim with ⟨hsome, -⟩ | ⟨hfree, rfl⟩
  · rw [Runtime.ownerOf_eq_some_iff h.keys, h.ctx_id, h.own, h.first.holding_iff,
      hfirst] at hsome
    obtain ⟨_, ⟨⟩, hnt⟩ := hsome
    exact absurd ht hnt
  · obtain rfl := h.ctx_id
    refine h.register (Runtime.ownerOf_eq_none_iff.1 hfree) (h.first.replace hmid) fun j => ?_
    rw [holding_replace hmid]
    split
    · subst j
      exact ⟨fun _ => .inl rfl,
        fun _ => ⟨⟨m, List.mem_of_find?_eq_some hfirst, id_of_find? hfirst⟩, hmt⟩⟩
    · rename_i hj
      simp [hj]

end RegistryAgrees

def OwnersAgree (v : RegistryView) (s : EngineState) : Prop :=
  RegistryAgrees v s.runtime.owners s.ctx.id s.ctx.objects

/-! ### Lifecycle events and the registry -/

def LifecycleEvent.KeepsTransient (e : LifecycleEvent) (s : LifecycleState) : Prop :=
  ∀ s', s.step e = some s' → (s' = .transient ↔ s = .transient)

namespace LifecycleEvent

def touchesTransient : LifecycleEvent → Bool
  | makePersistent | rollback | commit _ => true
  | _ => false

theorem keepsTransient {e : LifecycleEvent} (h : e.touchesTransient = false)
    (s : LifecycleState) : e.KeepsTransient s := by
  intro s' hs
  cases e <;> cases s <;> simp only [touchesTransient, LifecycleState.step, Option.some.injEq,
    reduceCtorEq, Bool.true_eq_false] at h hs <;> subst hs <;> simp

theorem keepsTransient_rollback {s : LifecycleState} (h : s.isNew = false) :
    rollback.KeepsTransient s := by
  intro s' hs
  cases s <;> simp only [LifecycleState.step, LifecycleState.isNew, Option.some.injEq,
    reduceCtorEq] at h hs <;> subst hs <;> simp

theorem keepsTransient_commit {s : LifecycleState} (r : Bool) (h : s.isDeleted = false) :
    (commit r).KeepsTransient s := by
  intro s' hs
  cases s <;> simp only [LifecycleState.step, LifecycleState.isDeleted, Option.some.injEq,
    reduceCtorEq] at h hs <;> subst hs <;> cases r <;> simp

end LifecycleEvent

namespace ManagedObject

theorem transition_eq_ok {m m' : ManagedObject} {e : LifecycleEvent} (h : m.transition e = .ok m') :
    m.lifecycle.step e = some m'.lifecycle ∧ m' = { m with lifecycle := m'.lifecycle } := by
  unfold transition at h
  split at h
  · cases h
    exact ⟨‹_›, rfl⟩
  · cases h

theorem transition_eq_error {m : ManagedObject} {e : LifecycleEvent} {err : CoreError}
    (h : m.transition e = .error err) : m.lifecycle.step e = none := by
  unfold transition at h
  split at h
  · cases h
  · assumption

theorem makeDirty_id (m : ManagedObject) (f : Nat) : (m.makeDirty f).id = m.id := by
  unfold makeDirty
  split
  · rfl
  · split <;> rfl

theorem makeDirty_transient (m : ManagedObject) (f : Nat) :
    (m.makeDirty f).lifecycle = .transient ↔ m.lifecycle = .transient := by
  unfold makeDirty
  split
  · rfl
  · split
    · rename_i s hs
      exact LifecycleEvent.keepsTransient rfl _ s hs
    · rfl

theorem install_id (m : ManagedObject) (f : Nat) (s : Slot) : (m.install f s).id = m.id := by
  unfold install
  split <;> rfl

theorem install_lifecycle (m : ManagedObject) (f : Nat) (s : Slot) :
    (m.install f s).lifecycle = m.lifecycle := by
  unfold install
  split <;> rfl

end ManagedObject

/-! ### The engine's primitive operations -/

namespace Engine

open Std.Do

theorem discard_eq {α} (x : Engine α) : discard x = (do let _ ← x; pure ()) := by
  simp only [discard, Functor.mapConst, Function.comp_def]
  rfl

@[spec] theorem discard_spec {α} (x : Engine α)
    (Q : PostCond PUnit (.except EngineError (.arg EngineState .pure))) :
    ⦃wp⟦x⟧ (fun _ => Q.1 ⟨⟩, Q.2)⦄ discard x ⦃Q⦄ := by
  rw [discard_eq]
  mvcgen

abbrev ends (I J : EngineState → Prop) {α} :
    PostCond α (.except EngineError (.arg EngineState .pure)) :=
  post⟨fun _ s => ⌜I s⌝, fun _ s => ⌜J s⌝⟩

abbrev keeps (I : EngineState → Prop) {α} :
    PostCond α (.except EngineError (.arg EngineState .pure)) :=
  ends I I

-- The operations that read the context, fail, or reach only the backend and the counters
-- are unfolded where they are called.
attribute [spec] context modifyContext modifyRuntime core lift managed? manager lifecycle?
  classOf findClass checkOwner warn access count setFaults storedHeader loadStored
  loadStoredMap storeNew storeUpdate storeDelete storeApply withConnection reserve claim
attribute [spec] GenerationManager.next BlockCounter.take

@[spec] theorem acquireManager_spec (id : ObjectId) (cls : ClassMeta) (lifecycle : LifecycleState)
    (Q : PostCond ManagedObject (.except EngineError (.arg EngineState .pure))) :
    ⦃fun s => Q.1 (ManagedObject.create id cls lifecycle)
      { s with ctx := { s.ctx with pool := (s.ctx.pool.acquire id cls lifecycle).2 } }⦄
    acquireManager id cls lifecycle ⦃Q⦄ := by
  mvcgen [acquireManager]
  rename_i hpre _
  rw [ManagerPool.acquire_fst]
  exact hpre

section Agree

variable {v : RegistryView} {id : ObjectId}

theorem updateManager_agree {f} (hf : KeepsHolding id f) :
    ⦃fun s => ⌜OwnersAgree v s⌝⦄ updateManager id f ⦃keeps (OwnersAgree v)⦄ := by
  mvcgen [updateManager]
  rename_i s h _
  exact h.update hf

theorem transition_agree (e : LifecycleEvent) :
    ⦃fun s => ⌜OwnersAgree v s ∧
      ∀ m, s.ctx.objects.find? (·.id == id) = some m → e.KeepsTransient m.lifecycle⌝⦄
    transition id e ⦃keeps (OwnersAgree v)⦄ := by
  mvcgen [transition, updateManager]
  · rename_i s h m hfirst m' ht _
    obtain ⟨hstep, hm'⟩ := ManagedObject.transition_eq_ok ht
    exact h.1.transition hfirst (by rw [hm']) (h.2 m hfirst _ hstep)
  · exact ‹_ ∧ _›.1
  · exact ‹_ ∧ _›.1

theorem transition_agree_of_neutral {e : LifecycleEvent} (he : e.touchesTransient = false) :
    ⦃fun s => ⌜OwnersAgree v s⌝⦄ transition id e ⦃keeps (OwnersAgree v)⦄ := by
  have hTransition := @transition_agree v
  mvcgen [hTransition]
  exact ⟨‹_›, fun _ _ => LifecycleEvent.keepsTransient he _⟩

theorem adopt_agree {m : ManagedObject} (ht : m.lifecycle = .transient) :
    ⦃fun s => ⌜OwnersAgree v s⌝⦄ adopt m ⦃keeps (OwnersAgree v)⦄ := by
  mvcgen [adopt]
  rename_i s h _
  exact h.adopt ht

theorem disconnect_agree :
    ⦃fun s => ⌜OwnersAgree v s⌝⦄ disconnect id ⦃keeps (OwnersAgree v)⦄ := by
  mvcgen [disconnect]
  rename_i s h _ _
  exact h.disconnect

theorem bindHollow_agree (cls : ClassMeta) (version : Option Int) :
    ⦃fun s => ⌜OwnersAgree v s ∧ s.ctx.objects.find? (·.id == id) = none⌝⦄
    bindHollow id cls version ⦃keeps (OwnersAgree v)⦄ := by
  mvcgen [bindHollow, adopt]
  · rename_i s h r hclaim _
    exact h.1.bind h.2 hclaim rfl (by simp [ManagedObject.create])
  · exact ‹_ ∧ _›.1

theorem makePersistent_agree (explicit : Bool) :
    ⦃fun s => ⌜OwnersAgree v s ∧
      ∃ m, s.ctx.objects.find? (·.id == id) = some m ∧ m.lifecycle = .transient⌝⦄
    makePersistent id explicit ⦃keeps (OwnersAgree v)⦄ := by
  mvcgen [makePersistent, updateManager]
  · rename_i s h r hclaim _ m hfirst m' hm' _
    obtain ⟨m₀, hf₀, ht⟩ := h.2
    obtain rfl : m₀ = m := Option.some.inj (hf₀.symm.trans hfirst)
    obtain ⟨hstep, hm'⟩ := ManagedObject.transition_eq_ok hm'
    rw [ht] at hstep
    have hid := id_of_find? hfirst
    refine h.1.persist hfirst ht hclaim ?_ ?_
    · rw [hm']
      exact hid
    · simp only [LifecycleState.step, Option.some.injEq] at hstep
      simp [← hstep]
  · rename_i s h r _ _ m hfirst _ hm'
    obtain ⟨m₀, hf₀, ht⟩ := h.2
    obtain rfl : m₀ = m := Option.some.inj (hf₀.symm.trans hfirst)
    have hstep := ManagedObject.transition_eq_error hm'
    simp [ht, LifecycleState.step] at hstep
  · rename_i s h _ _ _ hnone
    obtain ⟨m₀, hf₀, -⟩ := h.2
    simp [hnone] at hf₀
  · exact ‹_ ∧ _›.1

end Agree

end Engine

end ObjectPersistence
