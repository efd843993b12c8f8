import Mathlib
import ObjectPersistence.Proofs.SoundSessions

/-! # Objects a flush leaves alone

A flush writes to the backend what its phases pick: the new objects, the queued changes, the
dirty objects and the deleted ones. An object that is transient, or new and then deleted, is
none of these. A flush sends an object only the events of loading, flushing and deleting, and
each of those keeps a transient object transient and a new deleted one new and deleted
(`InertStates`). Such an object is *idle* while the context manages it in those states and
queues no change of its own; every operation of a flush or a commit keeps it idle and asks the
backend to insert, delete or apply nothing of it (`LeftAlone`).

So a commit persists no object that is transient when it begins: persistence by reachability
happens when an object is persisted, and the walk a commit makes only returns to transient the
new objects no root reaches. An object that is new and deleted is dropped by the next flush,
commit or rollback without the backend hearing of it, and the context then neither manages nor
owns it (`Gone`). -/

set_option mvcgen.warning false

namespace ObjectPersistence

open Std.Do

/-- The event leads no object out of the states `A`. -/
def LifecycleEvent.StaysIn (e : LifecycleEvent) (A : LifecycleState → Prop) : Prop :=
  ∀ L L', A L → L.step e = some L' → A L'

/-- States a flush passes over: none of them is new or deleted from the datastore's point of
view, and loading, flushing and deleting keep an object among them. -/
structure InertStates (A : LifecycleState → Prop) : Prop where
  readField : LifecycleEvent.readField.StaysIn A
  flush : LifecycleEvent.flush.StaysIn A
  delete : LifecycleEvent.delete.StaysIn A
  not_new : ¬ A .persistentNew
  not_deleted : ¬ A .persistentDeleted

theorem InertStates.transient : InertStates (· = .transient) := by
  refine ⟨?_, ?_, ?_, by decide, by decide⟩ <;> rintro L L' rfl h <;> cases h <;> rfl

theorem LifecycleEvent.commit_staysIn_transient (r : Bool) :
    (LifecycleEvent.commit r).StaysIn (· = .transient) := by
  rintro L L' rfl h
  cases h
  rfl

theorem InertStates.newDeleted : InertStates (· = .persistentNewDeleted) := by
  refine ⟨?_, ?_, ?_, by decide, by decide⟩ <;> rintro L L' rfl h <;> cases h <;> rfl

/-- The first manager of `x` is in a state of `A`, every other one is transient or in a state of
`A`, and no queued change is `x`'s own. -/
structure Idle (A : LifecycleState → Prop) (x : ObjectId) (objs : List ManagedObject)
    (queue : List Operation) : Prop where
  first : ∃ m, objs.find? (·.id == x) = some m ∧ A m.lifecycle
  states : ∀ m ∈ objs, m.id = x → m.lifecycle = .transient ∨ A m.lifecycle
  unqueued : ∀ op ∈ queue, op.owner ≠ x

/-- Since the counts `c₀`, the backend has recorded no insert, delete or apply of `x`. -/
def CallCounts.Spare (c : CallCounts) (x : ObjectId) (c₀ : CallCounts) : Prop :=
  (∃ l, c.inserted = c₀.inserted ++ l ∧ x ∉ l) ∧ (∃ l, c.deleted = c₀.deleted ++ l ∧ x ∉ l) ∧
    ∃ l, c.applied = c₀.applied ++ l ∧ ∀ op ∈ l, op.owner ≠ x

def LeftAlone (A : LifecycleState → Prop) (x : ObjectId) (c₀ : CallCounts) (s : EngineState) :
    Prop :=
  Idle A x s.ctx.objects s.ctx.queue ∧ s.ctx.backend.counts.Spare x c₀

/-- The context neither manages nor owns `x`, and since the counts `c₀` the backend has
recorded no insert, delete or apply of it. -/
def Gone (x : ObjectId) (c₀ : CallCounts) (s : EngineState) : Prop :=
  (∀ m ∈ s.ctx.objects, m.id ≠ x) ∧ (x, s.ctx.id) ∉ s.runtime.owners ∧
    s.ctx.backend.counts.Spare x c₀

namespace CallCounts.Spare

variable {x y : ObjectId} {c₀ c : CallCounts}

theorem refl (c : CallCounts) (x : ObjectId) : c.Spare x c :=
  ⟨⟨[], by simp, by simp⟩, ⟨[], by simp, by simp⟩, ⟨[], by simp, by simp⟩⟩

theorem insert (h : c.Spare x c₀) (hy : y ≠ x) (n : Nat) :
    { c with inserts := n, inserted := c.inserted ++ [y] }.Spare x c₀ := by
  obtain ⟨⟨l, hl, hx⟩, hd, ha⟩ := h
  refine ⟨⟨l ++ [y], by simp [hl], ?_⟩, hd, ha⟩
  simpa [hx] using hy.symm

theorem delete (h : c.Spare x c₀) (hy : y ≠ x) (n : Nat) :
    { c with deletes := n, deleted := c.deleted ++ [y] }.Spare x c₀ := by
  obtain ⟨hi, ⟨l, hl, hx⟩, ha⟩ := h
  refine ⟨hi, ⟨l ++ [y], by simp [hl], ?_⟩, ha⟩
  simpa [hx] using hy.symm

theorem apply {op : Operation} (h : c.Spare x c₀) (hop : op.owner ≠ x) (n : Nat) :
    { c with applies := n, applied := c.applied ++ [op] }.Spare x c₀ := by
  obtain ⟨hi, hd, ⟨l, hl, hx⟩⟩ := h
  refine ⟨hi, hd, ⟨l ++ [op], by simp [hl], ?_⟩⟩
  intro o ho
  rcases List.mem_append.1 ho with ho | ho
  · exact hx o ho
  · rw [List.mem_singleton.1 ho]
    exact hop

end CallCounts.Spare

/-! ### What the engine's changes to managers keep -/

namespace Idle

variable {A : LifecycleState → Prop} {x id : ObjectId} {objs : List ManagedObject}
  {queue : List Operation}

theorem first_lifecycle {m : ManagedObject} (h : Idle A x objs queue)
    (hm : objs.find? (·.id == x) = some m) : A m.lifecycle := by
  obtain ⟨m₀, hm₀, hA⟩ := h.first
  rw [hm] at hm₀
  cases hm₀
  exact hA

theorem updateAt_lifecycle {f : ManagedObject → ManagedObject}
    (hf : ∀ m, (f m).lifecycle = m.lifecycle) (m : ManagedObject) :
    (updateAt id f m).lifecycle = m.lifecycle := by
  unfold updateAt
  split
  · exact hf m
  · rfl

theorem update {f : ManagedObject → ManagedObject} (h : Idle A x objs queue)
    (hf : ∀ m, (f m).id = m.id ∧ (f m).lifecycle = m.lifecycle) :
    Idle A x (objs.map (updateAt id f)) queue where
  first := by
    obtain ⟨m, hm, hA⟩ := h.first
    rw [find?_updateAt (fun m hm => (hf m).1.trans hm), hm]
    split
    · exact ⟨f m, rfl, (hf m).2 ▸ hA⟩
    · exact ⟨m, rfl, hA⟩
  states := by
    intro m' hm' hx
    obtain ⟨m, hm, rfl⟩ := List.mem_map.1 hm'
    rw [updateAt_id (fun m hm => (hf m).1.trans hm) m] at hx
    rw [updateAt_lifecycle fun m => (hf m).2]
    exact h.states m hm hx
  unqueued := h.unqueued

/-- Every manager of `id` replaced by `m'`, as a lifecycle event does. -/
theorem replace {m' : ManagedObject} (h : Idle A x objs queue) (hid : m'.id = id)
    (hA : id = x → A m'.lifecycle) : Idle A x (objs.map (updateAt id fun _ => m')) queue where
  first := by
    obtain ⟨m, hm, hAm⟩ := h.first
    rw [find?_updateAt fun _ _ => hid, hm]
    split
    · exact ⟨m', rfl, hA ‹x = id›.symm⟩
    · exact ⟨m, rfl, hAm⟩
  states := by
    intro m' hm' hx
    obtain ⟨m, hm, rfl⟩ := List.mem_map.1 hm'
    unfold updateAt at hx ⊢
    split
    · rename_i he
      exact .inr (hA (hid.symm.trans (by simpa [he] using hx)))
    · rename_i he
      simp only [he] at hx
      exact h.states m hm hx
  unqueued := h.unqueued

theorem ne_of_find?_none (h : Idle A x objs queue) (hnone : objs.find? (·.id == id) = none) :
    id ≠ x := by
  rintro rfl
  obtain ⟨m, hm, -⟩ := h.first
  rw [hm] at hnone
  cases hnone

theorem adopt {m : ManagedObject} (h : Idle A x objs queue) (hm : m.id ≠ x) :
    Idle A x (objs ++ [m]) queue where
  first := by
    obtain ⟨m₀, hm₀, hA⟩ := h.first
    exact ⟨m₀, by rw [List.find?_append, hm₀]; rfl, hA⟩
  states := by
    intro m' hm' hx
    rcases List.mem_append.1 hm' with hm' | hm'
    · exact h.states m' hm' hx
    · rw [List.mem_singleton.1 hm'] at hx
      exact absurd hx hm
  unqueued := h.unqueued

theorem unqueue {queue' : List Operation} (h : Idle A x objs queue)
    (hq : ∀ op ∈ queue', op ∈ queue) : Idle A x objs queue' :=
  ⟨h.first, h.states, fun op hop => h.unqueued op (hq op hop)⟩

theorem disconnect (h : Idle A x objs queue) (hne : id ≠ x) :
    Idle A x (objs.filter (·.id != id)) (queue.filter (·.owner != id)) where
  first := by
    rw [FirstManagers.find?_filter_ne hne.symm]
    exact h.first
  states m hm hx := h.states m (List.mem_filter.1 hm).1 hx
  unqueued op hop := h.unqueued op (List.mem_filter.1 hop).1

/-- `x` is not among the objects of managers a filter picks only when new. -/
theorem not_mem_new {p : ManagedObject → Bool} (h : Idle A x objs queue) (hA : ¬ A .persistentNew)
    (hp : ∀ m, p m = true → m.lifecycle = .persistentNew) : x ∉ (objs.filter p).map (·.id) := by
  intro hx
  obtain ⟨m, hm, hid⟩ := List.mem_map.1 hx
  rw [List.mem_filter] at hm
  rcases h.states m hm.1 hid with ht | hAm
  · exact absurd (hp m hm.2) (by rw [ht]; decide)
  · exact hA (hp m hm.2 ▸ hAm)

/-- With no deleted state in `A`, `x` is not among the objects a flush removes. -/
theorem not_doomed (h : Idle A x objs queue) (hlive : ∀ L, A L → L.isDeleted = false) :
    ∀ e ∈ (objs.filter (·.lifecycle.isDeleted)).map (fun m => (m.id, m.lifecycle)), e.1 ≠ x := by
  intro e he hx
  obtain ⟨m, hm, rfl⟩ := List.mem_map.1 he
  rw [List.mem_filter] at hm
  have hlive' : m.lifecycle.isDeleted = false := by
    rcases h.states m hm.1 hx with ht | hAm
    · rw [ht]
      rfl
    · exact hlive _ hAm
  exact Bool.false_ne_true (hlive'.symm.trans hm.2)

theorem not_pending (h : Idle A x objs queue) (hA : ¬ A .persistentNew) :
    x ∉ Engine.pendingIds objs := by
  intro hx
  obtain ⟨m, hm, hnew, hid⟩ := (Engine.mem_pendingIds objs).1 hx
  rcases h.states m hm hid with ht | hAm
  · exact absurd (hnew.symm.trans ht) (by decide)
  · exact hA (hnew ▸ hAm)

/-- In a sound context, an object whose first manager is in a state of `A`, and not dirty, is
idle: any other manager of it is transient, and only dirty objects have queued changes. -/
theorem of_sound {s : EngineState} {m : ManagedObject} (hs : s.Sound)
    (hfind : s.ctx.objects.find? (·.id == x) = some m) (hA : A m.lifecycle)
    (hdirty : m.lifecycle ≠ .persistentDirty) : Idle A x s.ctx.objects s.ctx.queue where
  first := ⟨m, hfind, hA⟩
  states m' hm' hx := by
    by_cases ht : m'.lifecycle = .transient
    · exact .inl ht
    · have hfirst := hs.2.first m' hm' ht
      rw [hx, hfind] at hfirst
      cases hfirst
      exact .inr hA
  unqueued op hop hx := by
    obtain ⟨m', hm', htakes⟩ := hs.2.queue op hop
    rw [hx, hfind] at hm'
    cases hm'
    exact hdirty htakes.1

end Idle

/-! ### What keeps an object gone -/

section Gone

variable {x id : ObjectId} {objs : List ManagedObject}

theorem unmanaged_updateAt_iff {f : ManagedObject → ManagedObject}
    (hf : ∀ m, m.id = id → (f m).id = id) :
    (∀ m ∈ objs.map (updateAt id f), m.id ≠ x) ↔ ∀ m ∈ objs, m.id ≠ x := by
  simp only [List.forall_mem_map, updateAt_id hf]

theorem unmanaged_of_find?_none (h : objs.find? (·.id == x) = none) : ∀ m ∈ objs, m.id ≠ x :=
  fun m hm hid => absurd (List.find?_eq_none.1 h m hm) (by simp [hid])

theorem unmanaged_filter (h : ∀ m ∈ objs, m.id ≠ x) (p : ManagedObject → Bool) :
    ∀ m ∈ objs.filter p, m.id ≠ x :=
  fun m hm => h m (List.mem_filter.1 hm).1

theorem unmanaged_filter_self : ∀ m ∈ objs.filter (·.id != x), m.id ≠ x := by
  intro m hm
  simpa using (List.mem_filter.1 hm).2

theorem unmanaged_filter_iff (hne : id ≠ x) :
    (∀ m ∈ objs.filter (·.id != id), m.id ≠ x) ↔ ∀ m ∈ objs, m.id ≠ x := by
  refine ⟨fun h m hm hx => h m (List.mem_filter.2 ⟨hm, ?_⟩) hx, fun h => unmanaged_filter h _⟩
  rw [hx]
  exact bne_iff_ne.2 hne.symm

theorem Runtime.not_mem_release {r : Runtime} {c : Nat} (h : (x, c) ∉ r.owners) (y : ObjectId)
    (c' : Nat) : (x, c) ∉ (r.release y c').owners :=
  fun hm => h (List.mem_filter.1 hm).1

theorem Runtime.not_mem_release_self (r : Runtime) (c : Nat) : (x, c) ∉ (r.release x c).owners := by
  intro hm
  simp [Runtime.release] at hm

end Gone

/-- Since the counts `c₀` the backend has recorded no insert, delete or apply of `x`, and the
context owns `x` no longer once it stops managing it. -/
def Released (x : ObjectId) (c₀ : CallCounts) (s : EngineState) : Prop :=
  s.ctx.backend.counts.Spare x c₀ ∧
    ((∀ m ∈ s.ctx.objects, m.id ≠ x) → (x, s.ctx.id) ∉ s.runtime.owners)

/-- What the removal loop of a flush keeps of an object `x` that is new and deleted, with the
entries `rest` still to handle: `x` is released, every entry of `x` left is new and deleted, and
`x` is unmanaged or has an entry left. -/
def Dropping (x : ObjectId) (c₀ : CallCounts) (rest : List (ObjectId × LifecycleState))
    (s : EngineState) : Prop :=
  Released x c₀ s ∧ (∀ e ∈ rest, e.1 = x → e.2 = .persistentNewDeleted) ∧
    (x ∈ rest.map Prod.fst ∨ ∀ m ∈ s.ctx.objects, m.id ≠ x)

section Released

variable {x y : ObjectId} {c₀ : CallCounts} {s s' : EngineState}

/-- A step that does not start managing `x`, hands `x` to no context and logs nothing of it
keeps `x` released. -/
theorem Released.frame (h : Released x c₀ s)
    (hman : (∀ m ∈ s'.ctx.objects, m.id ≠ x) → ∀ m ∈ s.ctx.objects, m.id ≠ x)
    (hown : (x, s.ctx.id) ∉ s.runtime.owners → (x, s'.ctx.id) ∉ s'.runtime.owners)
    (hc : s'.ctx.backend.counts.Spare x c₀) : Released x c₀ s' :=
  ⟨hc, fun hun => hown (h.2 (hman hun))⟩

theorem Released.gone (h : Released x c₀ s) (hun : ∀ m ∈ s.ctx.objects, m.id ≠ x) :
    Gone x c₀ s :=
  ⟨hun, h.2 hun, h.1⟩

theorem LeftAlone.released {A : LifecycleState → Prop} (h : LeftAlone A x c₀ s) :
    Released x c₀ s := by
  refine ⟨h.2, fun hun => ?_⟩
  obtain ⟨m, hfind, -⟩ := h.1.first
  exact absurd (id_of_find? hfind) (hun m (List.mem_of_find?_eq_some hfind))

end Released

namespace Dropping

variable {x y : ObjectId} {c₀ : CallCounts} {rest : List (ObjectId × LifecycleState)}
  {s s' : EngineState}

/-- The loop starts on the deleted managers of an idle context, among them the first manager
of `x`. -/
theorem start (h : LeftAlone (· = .persistentNewDeleted) x c₀ s) :
    Dropping x c₀ ((s.ctx.objects.filter (·.lifecycle.isDeleted)).map fun m => (m.id, m.lifecycle))
      s := by
  obtain ⟨m, hfind, hm⟩ := h.1.first
  have hmem : m ∈ s.ctx.objects := List.mem_of_find?_eq_some hfind
  have hid : m.id = x := id_of_find? hfind
  refine ⟨h.released, ?_, .inl ?_⟩
  · intro e he hx
    obtain ⟨m', hm', rfl⟩ := List.mem_map.1 he
    obtain ⟨hmem', hdel⟩ := List.mem_filter.1 hm'
    rcases h.1.states m' hmem' hx with ht | hpnd
    · exact absurd (ht ▸ hdel) (by decide)
    · exact hpnd
  · refine List.mem_map.2 ⟨(m.id, m.lifecycle), List.mem_map.2 ⟨m, ?_, rfl⟩, hid⟩
    exact List.mem_filter.2 ⟨hmem, by rw [hm]; rfl⟩

/-- An entry is passed over without touching `x`'s managers, or it is an entry of `x` and `x`
is already unmanaged. -/
theorem skip {e : ObjectId × LifecycleState} (h : Dropping x c₀ (e :: rest) s)
    (hx : e.1 = x → ∀ m ∈ s.ctx.objects, m.id ≠ x) : Dropping x c₀ rest s := by
  refine ⟨h.1, fun e' he' => h.2.1 e' (List.mem_cons_of_mem _ he'), ?_⟩
  rcases h.2.2 with hmem | hun
  · rcases List.mem_cons.1 hmem with he | hmem
    · exact .inr (hx he.symm)
    · exact .inl hmem
  · exact .inr hun

/-- An entry deleted in the datastore is not an entry of `x`. -/
theorem ne_of_deleted {e : ObjectId × LifecycleState} (h : Dropping x c₀ (e :: rest) s)
    (hdel : e.2 = .persistentDeleted) : e.1 ≠ x := by
  intro hx
  have hpnd := h.2.1 e List.mem_cons_self hx
  rw [hdel] at hpnd
  cases hpnd

theorem frame (h : Dropping x c₀ rest s)
    (hman : (∀ m ∈ s'.ctx.objects, m.id ≠ x) ↔ ∀ m ∈ s.ctx.objects, m.id ≠ x)
    (hown : (x, s.ctx.id) ∉ s.runtime.owners → (x, s'.ctx.id) ∉ s'.runtime.owners)
    (hc : s'.ctx.backend.counts.Spare x c₀) : Dropping x c₀ rest s' :=
  ⟨h.1.frame hman.1 hown hc, h.2.1, h.2.2.imp_right hman.2⟩

/-- Disconnecting `x` leaves it unmanaged and unowned. -/
theorem dropped (hrest : ∀ e ∈ rest, e.1 = x → e.2 = .persistentNewDeleted)
    (hun : ∀ m ∈ s'.ctx.objects, m.id ≠ x) (hown : (x, s'.ctx.id) ∉ s'.runtime.owners)
    (hc : s'.ctx.backend.counts.Spare x c₀) : Dropping x c₀ rest s' :=
  ⟨⟨hc, fun _ => hown⟩, hrest, .inr hun⟩

/-- Once every entry is handled, `x` is gone. -/
theorem gone (h : Dropping x c₀ [] s) : Gone x c₀ s :=
  h.1.gone (h.2.2.resolve_left List.not_mem_nil)

end Dropping

namespace Engine

section LeftAlone

variable {A : LifecycleState → Prop} {x : ObjectId} {c₀ : CallCounts}

theorem updateManager_leftAlone {id : ObjectId} {f : ManagedObject → ManagedObject}
    (hf : ∀ m, (f m).id = m.id ∧ (f m).lifecycle = m.lifecycle) :
    ⦃fun s => ⌜LeftAlone A x c₀ s⌝⦄ updateManager id f ⦃keeps (LeftAlone A x c₀)⦄ := by
  mvcgen [updateManager]
  rename_i s h _
  exact ⟨h.1.update hf, h.2⟩

theorem transition_leftAlone_of {id : ObjectId} (e : LifecycleEvent) :
    ⦃fun s => ⌜LeftAlone A x c₀ s ∧ (id = x → e.StaysIn A)⌝⦄ transition id e
    ⦃keeps (LeftAlone A x c₀)⦄ := by
  mvcgen [transition, updateManager]
  · rename_i s h m hfirst m' ht _
    obtain ⟨hstep, hm'⟩ := ManagedObject.transition_eq_ok ht
    have hid := id_of_find? hfirst
    refine ⟨h.1.1.replace (by rw [hm']; exact hid) fun hx => ?_, h.1.2⟩
    exact h.2 hx _ _ (h.1.1.first_lifecycle (hx ▸ hfirst)) hstep
  · exact ‹_ ∧ _›.1
  · exact ‹_ ∧ _›.1

theorem transition_leftAlone {e : LifecycleEvent} (he : e.StaysIn A) {id : ObjectId} :
    ⦃fun s => ⌜LeftAlone A x c₀ s⌝⦄ transition id e ⦃keeps (LeftAlone A x c₀)⦄ := by
  have hTransition := @transition_leftAlone_of A x c₀ id
  mvcgen [hTransition]
  exact ⟨‹_›, fun _ => he⟩

theorem installData_leftAlone {id : ObjectId} (field : Nat) (data : Option FieldData) :
    ⦃fun s => ⌜LeftAlone A x c₀ s⌝⦄ installData id field data ⦃keeps (LeftAlone A x c₀)⦄ := by
  have hUpdateManager := @updateManager_leftAlone A x c₀ id
  mvcgen [installData, hUpdateManager]
  exact fun m => ⟨ManagedObject.install_id m _ _, ManagedObject.install_lifecycle m _ _⟩

theorem ensureLoaded_leftAlone (hA : InertStates A) {id : ObjectId} (fields : List Nat) :
    ⦃fun s => ⌜LeftAlone A x c₀ s⌝⦄ ensureLoaded id fields ⦃keeps (LeftAlone A x c₀)⦄ := by
  have hInstallData := @installData_leftAlone A x c₀ id
  have hTransition := @transition_leftAlone A x c₀ _ hA.readField id
  mvcgen [ensureLoaded, loadMapField, hInstallData, hTransition] invariants
  | inv1 => keeps (LeftAlone A x c₀)
  | inv2 => keeps (LeftAlone A x c₀)
  | inv3 => keeps (LeftAlone A x c₀)
  | inv4 => keeps (LeftAlone A x c₀)
  | inv5 => keeps (LeftAlone A x c₀)
  | inv6 => keeps (LeftAlone A x c₀)

theorem loadRelations_leftAlone (hA : InertStates A) {id : ObjectId} :
    ⦃fun s => ⌜LeftAlone A x c₀ s⌝⦄ loadRelations id ⦃keeps (LeftAlone A x c₀)⦄ := by
  have hEnsureLoaded := @ensureLoaded_leftAlone A x c₀ hA id
  mvcgen [loadRelations, hEnsureLoaded]

theorem reach_leftAlone (hA : InertStates A) (fuel : Nat) {id : ObjectId}
    (reachable : List ObjectId) :
    ⦃fun s => ⌜LeftAlone A x c₀ s⌝⦄ reach fuel id reachable ⦃keeps (LeftAlone A x c₀)⦄ := by
  induction fuel generalizing id reachable with
  | zero => mvcgen [reach]
  | succ fuel ih =>
    have hLoadRelations := @loadRelations_leftAlone A x c₀ hA
    mvcgen [reach, hLoadRelations, ih] invariants
    | inv1 => keeps (LeftAlone A x c₀)
    | inv2 => keeps (LeftAlone A x c₀)

/-- An orphan a commit returns to transient is new, so it is not `x`. -/
theorem releaseOrphan_leftAlone {id : ObjectId} :
    ⦃fun s => ⌜LeftAlone A x c₀ s ∧ id ≠ x⌝⦄ releaseOrphan id ⦃keeps (LeftAlone A x c₀)⦄ := by
  have hTransition := @transition_leftAlone_of A x c₀ id .rollback
  have hUpdateManager := @updateManager_leftAlone A x c₀ id
  mvcgen [releaseOrphan, hTransition, hUpdateManager]
  · exact ⟨‹_ ∧ _›.1, fun hx => absurd hx ‹_ ∧ _›.2⟩
  · exact fun _ => ⟨rfl, rfl⟩

theorem releaseUnreachable_leftAlone (hA : InertStates A) :
    ⦃fun s => ⌜LeftAlone A x c₀ s⌝⦄ releaseUnreachable ⦃keeps (LeftAlone A x c₀)⦄ := by
  -- the orphans are new objects, and `x` has no new manager
  have hReach := @reach_leftAlone A x c₀ hA
  have hReleaseOrphan := @releaseOrphan_leftAlone A x c₀
  mvcgen [releaseUnreachable, hReach, hReleaseOrphan] invariants
  | inv1 => keeps (LeftAlone A x c₀)
  | inv2 => post⟨fun p s => ⌜LeftAlone A x c₀ s ∧ x ∉ p.1.suffix⌝,
      fun _ s => ⌜LeftAlone A x c₀ s⌝⟩
  case step.pre =>
    rename_i h
    exact ⟨h.1, (List.ne_of_not_mem_cons h.2).symm⟩
  case step.post.success =>
    rename_i hpre _ _ h
    exact ⟨h, List.not_mem_of_not_mem_cons hpre.2⟩
  case post.success.pre =>
    rename_i h _
    refine ⟨h, h.1.not_mem_new hA.not_new fun m hm => ?_⟩
    simp only [Bool.and_eq_true, beq_iff_eq] at hm
    exact hm.1.1
  case post.success.post.success => exact ‹_ ∧ _›.1

/-! ### Deleting and flushing -/

theorem ensureManaged_leftAlone {id : ObjectId} :
    ⦃fun s => ⌜LeftAlone A x c₀ s⌝⦄ ensureManaged id ⦃keeps (LeftAlone A x c₀)⦄ := by
  mvcgen [ensureManaged, bindHollow, adopt]
  -- the object bound hollow was not managed, so it is not `x`
  have h := ‹LeftAlone A x c₀ _›
  have hne : id ≠ x := h.1.ne_of_find?_none (Option.not_isSome_iff_eq_none.1 ‹_›)
  exact ⟨h.1.adopt hne, h.2⟩

theorem bindIfStored_leftAlone {id : ObjectId} :
    ⦃fun s => ⌜LeftAlone A x c₀ s⌝⦄ bindIfStored id ⦃keeps (LeftAlone A x c₀)⦄ := by
  have hEnsureManaged := @ensureManaged_leftAlone A x c₀ id
  mvcgen [bindIfStored, hEnsureManaged]

theorem deleteCascade_leftAlone (hA : InertStates A) (fuel : Nat) {id : ObjectId}
    (visited : List ObjectId) :
    ⦃fun s => ⌜LeftAlone A x c₀ s⌝⦄ deleteCascade fuel id visited ⦃keeps (LeftAlone A x c₀)⦄ := by
  induction fuel generalizing id visited with
  | zero => mvcgen [deleteCascade]
  | succ fuel ih =>
    have hEnsureManaged := @ensureManaged_leftAlone A x c₀
    have hEnsureLoaded := @ensureLoaded_leftAlone A x c₀ hA
    have hTransition := @transition_leftAlone A x c₀ _ hA.delete
    have hUpdateManager := @updateManager_leftAlone A x c₀
    have hBindIfStored := @bindIfStored_leftAlone A x c₀
    mvcgen [deleteCascade, deleteOne, hEnsureManaged, hEnsureLoaded, hTransition, hUpdateManager,
      hBindIfStored, ih] invariants
    | inv1 => keeps (LeftAlone A x c₀)
    all_goals first
      | exact fun _ => ⟨rfl, rfl⟩
      | -- the deleted object's queued changes are dropped
        have h := ‹LeftAlone A x c₀ _›
        exact ⟨h.1.unqueue fun _ hop => (List.mem_filter.1 hop).1, h.2⟩

theorem delete_leftAlone (hA : InertStates A) {id : ObjectId} :
    ⦃fun s => ⌜LeftAlone A x c₀ s⌝⦄ delete id ⦃keeps (LeftAlone A x c₀)⦄ := by
  have hDeleteCascade := @deleteCascade_leftAlone A x c₀ hA
  mvcgen [delete, hDeleteCascade]

theorem deleteDependent_leftAlone (hA : InertStates A) {id : ObjectId} :
    ⦃fun s => ⌜LeftAlone A x c₀ s⌝⦄ deleteDependent id ⦃keeps (LeftAlone A x c₀)⦄ := by
  have hDelete := @delete_leftAlone A x c₀ hA
  have hBindIfStored := @bindIfStored_leftAlone A x c₀
  mvcgen [deleteDependent, hDelete, hBindIfStored]

theorem generateValues_leftAlone {id : ObjectId} (cls : ClassMeta) :
    ⦃fun s => ⌜LeftAlone A x c₀ s⌝⦄ generateValues id cls ⦃keeps (LeftAlone A x c₀)⦄ := by
  have hUpdateManager := @updateManager_leftAlone A x c₀ id
  mvcgen [generateValues, hUpdateManager] invariants
  | inv1 => keeps (LeftAlone A x c₀)
  all_goals exact fun m => ⟨ManagedObject.install_id m _ _, ManagedObject.install_lifecycle m _ _⟩

theorem insertObject_leftAlone (hA : InertStates A) {id : ObjectId} :
    ⦃fun s => ⌜LeftAlone A x c₀ s ∧ id ≠ x⌝⦄ insertObject id ⦃keeps (LeftAlone A x c₀)⦄ := by
  have hEnsureLoaded := @ensureLoaded_leftAlone A x c₀ hA id
  have hGenerateValues := @generateValues_leftAlone A x c₀ id
  have hUpdateManager := @updateManager_leftAlone A x c₀ id
  have hTransition := @transition_leftAlone A x c₀ _ hA.flush id
  mvcgen [insertObject, hEnsureLoaded, hGenerateValues, hUpdateManager, hTransition]
  case pre | h_2 => exact ‹_ ∧ _›.1
  case hf => exact fun _ => ⟨rfl, rfl⟩
  case pre =>
    -- the record stored is the object's own, and it is not `x`
    have h := ‹LeftAlone A x c₀ _›
    exact ⟨h.1, h.2.insert ‹_ ∧ id ≠ x›.2 _⟩

theorem flushNew_leftAlone (hA : InertStates A) (only : Option ObjectId) :
    ⦃fun s => ⌜LeftAlone A x c₀ s⌝⦄ flushNew only ⦃keeps (LeftAlone A x c₀)⦄ := by
  -- every object of the order is new, so `x` is not among them
  have hInsertObject := @insertObject_leftAlone A x c₀ hA
  mvcgen [flushNew, hInsertObject] invariants
  | inv1 => post⟨fun p s => ⌜LeftAlone A x c₀ s ∧ x ∉ p.1.suffix⌝,
      fun _ s => ⌜LeftAlone A x c₀ s⌝⟩
  case step.pre =>
    rename_i h
    exact ⟨h.1, (List.ne_of_not_mem_cons h.2).symm⟩
  case step.post.success =>
    rename_i hpre _ _ h
    exact ⟨h, List.not_mem_of_not_mem_cons hpre.2⟩
  case isFalse.pre =>
    have h := ‹LeftAlone A x c₀ _›
    exact ⟨h, fun hx => h.1.not_pending hA.not_new (mem_pendingIds_of_mem_insertionOrder hx)⟩
  case isFalse.post.success => exact ‹_ ∧ _›.1

theorem applyQueue_leftAlone (hA : InertStates A) (fuel applied : Nat) :
    ⦃fun s => ⌜LeftAlone A x c₀ s⌝⦄ applyQueue fuel applied ⦃keeps (LeftAlone A x c₀)⦄ := by
  induction fuel generalizing applied with
  | zero => mvcgen [applyQueue]
  | succ fuel ih =>
    have hDeleteDependent := @deleteDependent_leftAlone A x c₀ hA
    mvcgen [applyQueue, hDeleteDependent, ih]
    all_goals
      -- the operation applied is the head of the queue, so it is not `x`'s own
      have h := ‹LeftAlone A x c₀ _›
      first
      | exact ⟨h.1.unqueue fun _ => List.mem_of_mem_drop,
          h.2.apply (h.1.unqueued _ (List.mem_of_mem_head? ‹_ = some _›)) _⟩
      | exact ⟨h.1.unqueue fun _ => List.mem_of_mem_drop, h.2⟩

theorem knownVersion_leftAlone {id : ObjectId} (cls : ClassMeta) :
    ⦃fun s => ⌜LeftAlone A x c₀ s⌝⦄ knownVersion id cls ⦃keeps (LeftAlone A x c₀)⦄ := by
  have hUpdateManager := @updateManager_leftAlone A x c₀ id
  mvcgen [knownVersion, hUpdateManager]
  exact fun _ => trivial

theorem flushUpdates_leftAlone (hA : InertStates A) (queued : List FieldOwner) :
    ⦃fun s => ⌜LeftAlone A x c₀ s⌝⦄ flushUpdates queued ⦃keeps (LeftAlone A x c₀)⦄ := by
  have hKnownVersion := @knownVersion_leftAlone A x c₀
  have hUpdateManager := @updateManager_leftAlone A x c₀
  have hTransition := @transition_leftAlone A x c₀ _ hA.flush
  mvcgen [flushUpdates, hKnownVersion, hUpdateManager, hTransition] invariants
  | inv1 => keeps (LeftAlone A x c₀)
  exact fun _ => ⟨rfl, rfl⟩

/-- With no deleted manager, `x` is none of the objects a flush removes. -/
theorem flushDeletes_leftAlone (hlive : ∀ L, A L → L.isDeleted = false) :
    ⦃fun s => ⌜LeftAlone A x c₀ s⌝⦄ flushDeletes ⦃keeps (LeftAlone A x c₀)⦄ := by
  have hKnownVersion := @knownVersion_leftAlone A x c₀
  mvcgen [flushDeletes, hKnownVersion, disconnect] invariants
  | inv1 => post⟨fun p s => ⌜LeftAlone A x c₀ s ∧ ∀ e ∈ p.1.suffix, e.1 ≠ x⌝,
      fun _ s => ⌜LeftAlone A x c₀ s⌝⟩
  -- each object removed is another one, with its record deleted and its managers disconnected
  case step.isTrue.h_1.pre => exact ‹LeftAlone A x c₀ _ ∧ _›.1
  case step.isTrue.h_1.post.success.h_1.isTrue =>
    obtain ⟨hne, htail⟩ := List.forall_mem_cons.1 ‹LeftAlone A x c₀ _ ∧ _›.2
    have h := ‹LeftAlone A x c₀ _›
    exact ⟨⟨h.1.disconnect hne, h.2.delete hne _⟩, htail⟩
  case step.isTrue.h_1.post.success.h_1.isFalse =>
    obtain ⟨hne, htail⟩ := List.forall_mem_cons.1 ‹LeftAlone A x c₀ _ ∧ _›.2
    have h := ‹LeftAlone A x c₀ _›
    exact ⟨⟨h.1, h.2.delete hne _⟩, htail⟩
  case step.isFalse.isTrue =>
    have h := ‹LeftAlone A x c₀ _ ∧ _›
    obtain ⟨hne, htail⟩ := List.forall_mem_cons.1 h.2
    exact ⟨⟨h.1.1.disconnect hne, h.1.2⟩, htail⟩
  case step.isFalse.isFalse =>
    exact ⟨‹LeftAlone A x c₀ _ ∧ _›.1, (List.forall_mem_cons.1 ‹LeftAlone A x c₀ _ ∧ _›.2).2⟩
  case pre => exact ⟨‹LeftAlone A x c₀ _›, ‹LeftAlone A x c₀ _›.1.not_doomed hlive⟩
  -- the loop ends, or fails on a deleted entry no longer managed, with `x` left alone
  case post.success | step.isTrue.h_2 => exact ‹LeftAlone A x c₀ _ ∧ _›.1

theorem flush_leftAlone (hA : InertStates A) (hlive : ∀ L, A L → L.isDeleted = false) :
    ⦃fun s => ⌜LeftAlone A x c₀ s⌝⦄ flush ⦃keeps (LeftAlone A x c₀)⦄ := by
  have hFlushNew := @flushNew_leftAlone A x c₀ hA
  have hApplyQueue := @applyQueue_leftAlone A x c₀ hA
  have hFlushUpdates := @flushUpdates_leftAlone A x c₀ hA
  have hFlushDeletes := @flushDeletes_leftAlone A x c₀ hlive
  mvcgen [flush, hFlushNew, hApplyQueue, hFlushUpdates, hFlushDeletes]

/-- A commit keeps an object idle when the commit event keeps its states, as it keeps a
transient object transient. -/
theorem commit_leftAlone (hA : InertStates A) (hlive : ∀ L, A L → L.isDeleted = false)
    (hcommit : ∀ r, (LifecycleEvent.commit r).StaysIn A) :
    ⦃fun s => ⌜LeftAlone A x c₀ s⌝⦄ commit ⦃keeps (LeftAlone A x c₀)⦄ := by
  have hReleaseUnreachable := @releaseUnreachable_leftAlone A x c₀ hA
  have hFlush := @flush_leftAlone A x c₀ hA hlive
  have hUpdateManager := @updateManager_leftAlone A x c₀
  have hTransition := fun r => @transition_leftAlone A x c₀ _ (hcommit r)
  mvcgen [commit, hReleaseUnreachable, hFlush, hUpdateManager, hTransition] invariants
  | inv1 => keeps (LeftAlone A x c₀)
  | inv2 => keeps (LeftAlone A x c₀)
  all_goals first | exact fun _ => ⟨rfl, rfl⟩ | exact fun _ => trivial

/-! ### Dropping a new object that was deleted -/

theorem updateManager_gone {id : ObjectId} {f : ManagedObject → ManagedObject}
    (hf : ∀ m, (f m).id = m.id) :
    ⦃fun s => ⌜Gone x c₀ s⌝⦄ updateManager id f ⦃keeps (Gone x c₀)⦄ := by
  mvcgen [updateManager]
  rename_i s h _
  exact ⟨(unmanaged_updateAt_iff fun m hm => (hf m).trans hm).2 h.1, h.2.1, h.2.2⟩

theorem transition_gone {id : ObjectId} (e : LifecycleEvent) :
    ⦃fun s => ⌜Gone x c₀ s⌝⦄ transition id e ⦃keeps (Gone x c₀)⦄ := by
  mvcgen [transition, updateManager]
  rename_i s h m hfirst m' ht _
  obtain ⟨-, hm'⟩ := ManagedObject.transition_eq_ok ht
  have hid : m'.id = id := by rw [hm']; exact (id_of_find? hfirst :)
  exact ⟨(unmanaged_updateAt_iff fun _ _ => hid).2 h.1, h.2.1, h.2.2⟩

theorem knownVersion_dropping {id : ObjectId} (rest : List (ObjectId × LifecycleState))
    (cls : ClassMeta) :
    ⦃fun s => ⌜Dropping x c₀ rest s⌝⦄ knownVersion id cls ⦃keeps (Dropping x c₀ rest)⦄ := by
  mvcgen [knownVersion, updateManager]
  have h := ‹Dropping x c₀ rest _›
  exact h.frame (unmanaged_updateAt_iff fun _ h => h) (fun h => h) h.1.1

/-- A flush removes a new object that was deleted: it disconnects it without asking the
backend to delete it. -/
theorem flushDeletes_drops :
    ⦃fun s => ⌜LeftAlone (· = .persistentNewDeleted) x c₀ s⌝⦄ flushDeletes
    ⦃ends (Gone x c₀) fun _ => True⦄ := by
  have hKnownVersion := @knownVersion_dropping x c₀
  mvcgen [flushDeletes, hKnownVersion, disconnect] invariants
  | inv1 => post⟨fun p s => ⌜Dropping x c₀ p.1.suffix s⌝, fun _ _ => ⌜True⌝⟩
  -- an entry deleted in the datastore belongs to another object, whose record is deleted
  case step.isTrue.h_1.pre =>
    have h := ‹Dropping x c₀ (_ :: _) _›
    exact h.skip fun hx => absurd hx (h.ne_of_deleted (eq_of_beq ‹_›))
  case step.isTrue.h_1.post.success.h_1.isTrue =>
    have h' := ‹Dropping x c₀ _ _›
    have hne := ‹Dropping x c₀ (_ :: _) _›.ne_of_deleted (eq_of_beq ‹_›)
    refine h'.frame ?_ ?_ ?_
    exacts [unmanaged_filter_iff hne, (Runtime.not_mem_release · _ _), h'.1.1.delete hne _]
  case step.isTrue.h_1.post.success.h_1.isFalse =>
    have h' := ‹Dropping x c₀ _ _›
    have hne := ‹Dropping x c₀ (_ :: _) _›.ne_of_deleted (eq_of_beq ‹_›)
    refine h'.frame ?_ ?_ ?_
    exacts [Iff.rfl, fun h => h, h'.1.1.delete hne _]
  -- any other entry is only disconnected: the entry of `x` drops it, the others keep it
  case step.isFalse.isTrue =>
    have h := ‹Dropping x c₀ (_ :: _) _›
    by_cases hx : (‹ObjectId × LifecycleState›).1 = x
    · subst hx
      exact Dropping.dropped (fun e he => h.2.1 e (List.mem_cons_of_mem _ he))
        unmanaged_filter_self (Runtime.not_mem_release_self _ _) h.1.1
    · refine (h.skip fun h' => absurd h' hx).frame ?_ ?_ ?_
      exacts [unmanaged_filter_iff hx, (Runtime.not_mem_release · _ _), h.1.1]
  case step.isFalse.isFalse =>
    exact ‹Dropping x c₀ (_ :: _) _›.skip fun hx =>
      hx ▸ unmanaged_of_find?_none (Option.not_isSome_iff_eq_none.1 ‹_›)
  case pre => exact Dropping.start ‹_›
  case post.success => exact Dropping.gone ‹_›

theorem flush_drops :
    ⦃fun s => ⌜LeftAlone (· = .persistentNewDeleted) x c₀ s⌝⦄ flush
    ⦃ends (Gone x c₀) fun _ => True⦄ := by
  -- a new object that was deleted is neither inserted, nor updated, nor applied
  have hFlushNew := @flushNew_leftAlone _ x c₀ InertStates.newDeleted
  have hApplyQueue := @applyQueue_leftAlone _ x c₀ InertStates.newDeleted
  have hFlushUpdates := @flushUpdates_leftAlone _ x c₀ InertStates.newDeleted
  have hFlushDeletes := @flushDeletes_drops x c₀
  mvcgen [flush, hFlushNew, hApplyQueue, hFlushUpdates, hFlushDeletes]

theorem commit_drops :
    ⦃fun s => ⌜LeftAlone (· = .persistentNewDeleted) x c₀ s⌝⦄ commit
    ⦃ends (Gone x c₀) fun _ => True⦄ := by
  have hReleaseUnreachable := @releaseUnreachable_leftAlone _ x c₀ InertStates.newDeleted
  have hFlush := @flush_drops x c₀
  have hUpdateManager := @updateManager_gone x c₀
  have hTransition := @transition_gone x c₀
  mvcgen [commit, hReleaseUnreachable, hFlush, hUpdateManager, hTransition] invariants
  | inv1 => ends (Gone x c₀) fun _ => True
  | inv2 => ends (Gone x c₀) fun _ => True
  all_goals first | exact fun _ => rfl | exact fun _ => trivial

theorem updateManager_released {id : ObjectId} {f : ManagedObject → ManagedObject}
    (hf : ∀ m, (f m).id = m.id) :
    ⦃fun s => ⌜Released x c₀ s⌝⦄ updateManager id f ⦃keeps (Released x c₀)⦄ := by
  mvcgen [updateManager]
  have h := ‹Released x c₀ _›
  refine h.frame ?_ (fun h => h) h.1
  exact (unmanaged_updateAt_iff fun m hm => (hf m).trans hm).1

theorem transition_released {id : ObjectId} (e : LifecycleEvent) :
    ⦃fun s => ⌜Released x c₀ s⌝⦄ transition id e ⦃keeps (Released x c₀)⦄ := by
  mvcgen [transition, updateManager]
  rename_i s h m hfirst m' ht _
  obtain ⟨-, hm'⟩ := ManagedObject.transition_eq_ok ht
  have hid : m'.id = id := by rw [hm']; exact (id_of_find? hfirst :)
  refine h.frame ?_ (fun h => h) h.1
  exact (unmanaged_updateAt_iff fun _ _ => hid).1

theorem disconnect_released {id : ObjectId} :
    ⦃fun s => ⌜Released x c₀ s⌝⦄ disconnect id ⦃keeps (Released x c₀)⦄ := by
  mvcgen [disconnect]
  have h := ‹Released x c₀ _›
  by_cases hx : id = x
  · subst hx
    exact ⟨h.1, fun _ => Runtime.not_mem_release_self _ _⟩
  · refine h.frame ?_ (Runtime.not_mem_release · _ _) h.1
    exact (unmanaged_filter_iff hx).1

theorem rollback_released : ⦃fun s => ⌜Released x c₀ s⌝⦄ rollback ⦃keeps (Released x c₀)⦄ := by
  have hDisconnect := @disconnect_released x c₀
  have hTransition := @transition_released x c₀
  have hUpdateManager := @updateManager_released x c₀
  mvcgen [rollback, hDisconnect, hTransition, hUpdateManager] invariants
  | inv1 => keeps (Released x c₀)
  exact fun _ => rfl

/-- A rollback lets go of a new object that was deleted: the first manager of each object
becomes what a rollback makes of it, which for a new object is none. -/
theorem rollback_drops {s s' : EngineState} (h : LeftAlone (· = .persistentNewDeleted) x c₀ s)
    (hrun : (ExceptT.run rollback).run s = (.ok (), s')) : Gone x c₀ s' := by
  obtain ⟨m, hfind, hm⟩ := h.1.first
  have hrolled : RolledBack s s' := returns_run (rollback_rolledBack s) rfl hrun
  have hnone : s'.ctx.objects.find? (·.id == x) = none := by
    rw [hrolled.objects, hfind, Option.bind_some,
      ManagedObject.rolledBack_of_new (by rw [hm]; decide) (by rw [hm]; rfl)]
  have hrel := keeps_run_of rollback_released s h.released
  rw [hrun] at hrel
  exact hrel.gone (unmanaged_of_find?_none hnone)

end LeftAlone

end Engine

/-- Persistence by reachability is decided when an object is persisted, not at commit. In a
sound context, a commit that succeeds, with reachability at commit or without, leaves an object
that is transient when it begins managed and transient, and the backend records no insert,
delete or apply of it: an object put into a cascade-persist field only after its referrer was
persisted stays out of the datastore. -/
theorem commit_keeps_transient_unstored {s s' : EngineState} {x : ObjectId} {m : ManagedObject}
    (hs : s.Sound) (hfind : s.ctx.objects.find? (·.id == x) = some m)
    (ht : m.lifecycle = .transient) (hrun : (ExceptT.run Engine.commit).run s = (.ok (), s')) :
    (∃ m', s'.ctx.objects.find? (·.id == x) = some m' ∧ m'.lifecycle = .transient) ∧
      s'.ctx.backend.counts.Spare x s.ctx.backend.counts := by
  have hidle : LeftAlone (· = .transient) x s.ctx.backend.counts s :=
    ⟨Idle.of_sound hs hfind ht (by rw [ht]; decide), CallCounts.Spare.refl _ _⟩
  have h := Engine.keeps_run_of (Engine.commit_leftAlone InertStates.transient
    (fun L hL => by rw [hL]; rfl) LifecycleEvent.commit_staysIn_transient) s hidle
  rw [hrun] at h
  exact ⟨h.1.first, h.2⟩

theorem idleSample_sound : idleSample.Sound :=
  ⟨SampleModel.schema_numbered, ManagersKeep.empty⟩

/-- A book persisted, and then a new chapter put into its cascade-persist chapters field, in an
open transaction. -/
def chapterAfterPersist : EngineState :=
  ((ExceptT.run (do
    Engine.begin
    let b ← Engine.newObject "Book"
    Engine.persist b
    let c ← Engine.newObject "Chapter"
    Engine.setField b 2 (.collection [.ref c]))).run idleSample).2

theorem chapterAfterPersist_sound : chapterAfterPersist.Sound := by
  have h : ⦃fun s => ⌜s.Sound⌝⦄ (do
      Engine.begin
      let b ← Engine.newObject "Book"
      Engine.persist b
      let c ← Engine.newObject "Chapter"
      Engine.setField b 2 (.collection [.ref c])) ⦃Engine.keeps EngineState.Sound⦄ := by
    have hBegin := @begin_keeps_sound
    have hNewObject := @newObject_keeps_sound
    have hPersist := @persist_keeps_sound
    have hSetField := @setField_keeps_sound
    mvcgen [hBegin, hNewObject, hPersist, hSetField]
  exact Engine.keeps_run_of h idleSample idleSample_sound

def chapterCommitted : EngineState :=
  ((ExceptT.run Engine.commit).run chapterAfterPersist).2

/-- The chapter added after its book was persisted is still transient after the commit. -/
theorem late_chapter_stays_transient :
    (∃ m', chapterCommitted.ctx.objects.find? (·.id == ObjectId.fresh 1) = some m' ∧
      m'.lifecycle = .transient) ∧
      chapterCommitted.ctx.backend.counts.Spare (ObjectId.fresh 1)
        chapterAfterPersist.ctx.backend.counts := by
  have hl : (chapterAfterPersist.ctx.objects.find? (·.id == ObjectId.fresh 1)).map (·.lifecycle) =
      some .transient := by
    decide +kernel
  obtain ⟨m, hfind, ht⟩ := Option.map_eq_some_iff.1 hl
  have hanswer : ((ExceptT.run Engine.commit).run chapterAfterPersist).1 = .ok () := by
    decide +kernel
  have hrun : (ExceptT.run Engine.commit).run chapterAfterPersist = (.ok (), chapterCommitted) := by
    rw [← hanswer]
    exact Prod.mk.eta.symm
  exact commit_keeps_transient_unstored chapterAfterPersist_sound hfind ht hrun

/-- The stored graph is not closed under cascade-persist references: after the commit the book
is stored with the chapter in its chapters field, and the chapter is not stored. -/
theorem stored_book_references_unstored_chapter :
    (chapterCommitted.db.tables.header? (ObjectId.fresh 0)).isSome = true ∧
      (chapterCommitted.db.tables.rowsOf (ObjectId.fresh 0) 2).map (·.element) =
        [.ref (ObjectId.fresh 1)] ∧
      (chapterCommitted.db.tables.header? (ObjectId.fresh 1)).isNone = true := by
  decide +kernel

/-- A shelf persisted and then deleted in an open transaction. -/
def shelfDeletedNew : EngineState :=
  ((ExceptT.run (do
    Engine.begin
    let x ← Engine.newObject "Shelf"
    Engine.persist x
    Engine.delete x)).run idleSample).2

theorem shelfDeletedNew_sound : shelfDeletedNew.Sound := by
  have h : ⦃fun s => ⌜s.Sound⌝⦄ (do
      Engine.begin
      let x ← Engine.newObject "Shelf"
      Engine.persist x
      Engine.delete x) ⦃Engine.keeps EngineState.Sound⦄ := by
    have hBegin := @begin_keeps_sound
    have hNewObject := @newObject_keeps_sound
    have hPersist := @persist_keeps_sound
    have hDelete := @delete_keeps_sound
    mvcgen [hBegin, hNewObject, hPersist, hDelete]
  exact Engine.keeps_run_of h idleSample idleSample_sound

end ObjectPersistence
