import Mathlib
import ObjectPersistence.Proofs.Registry

/-! # Every engine operation keeps the registry in agreement

For each operation of the engine, a Hoare triple: started in a state whose registry agrees
with its context, the operation ends, returning or failing, in such a state again. Callers
cite the triples of what they call; the operations that only read, fail, or reach the
backend are unfolded. Loops carry the invariant itself, except where an operation relies on
what an earlier step found (a manager still transient, an object not managed yet, no
deleted object left after a flush), which the loop or the step then carries along. -/

set_option mvcgen.warning false

namespace ObjectPersistence

namespace Engine

open Std.Do

variable {v : RegistryView} {id : ObjectId}

/-! ### Binding and loading -/

theorem keepsHolding_install (field : Nat) (sl : Slot) : KeepsHolding id (·.install field sl) :=
  .of_lifecycle fun m => ⟨ManagedObject.install_id m field sl, ManagedObject.install_lifecycle m field sl⟩

theorem installData_agree (field : Nat) (data : Option FieldData) :
    ⦃fun s => ⌜OwnersAgree v s⌝⦄ installData id field data ⦃keeps (OwnersAgree v)⦄ := by
  have hUpdateManager := @updateManager_agree v
  mvcgen [installData, hUpdateManager]
  exact keepsHolding_install _ _

theorem newObject_agree (cls : String) :
    ⦃fun s => ⌜OwnersAgree v s⌝⦄ newObject cls ⦃keeps (OwnersAgree v)⦄ := by
  -- the new manager stays transient while its fields are installed
  have hAdopt := @adopt_agree v
  mvcgen [newObject, hAdopt] invariants
  | inv1 => post⟨fun p s => ⌜OwnersAgree v s ∧ p.2.lifecycle = .transient⌝,
      fun _ s => ⌜OwnersAgree v s⌝⟩
  with grind [ManagedObject.install_lifecycle]

theorem ensureManaged_agree :
    ⦃fun s => ⌜OwnersAgree v s⌝⦄ ensureManaged id ⦃keeps (OwnersAgree v)⦄ := by
  have hBindHollow := @bindHollow_agree v
  mvcgen [ensureManaged, hBindHollow] with grind [OwnersAgree]

theorem find_agree (cls : String) (validate : Bool) :
    ⦃fun s => ⌜OwnersAgree v s⌝⦄ find cls id validate ⦃keeps (OwnersAgree v)⦄ := by
  have hBindHollow := @bindHollow_agree v
  mvcgen [Engine.find, hBindHollow] with grind [OwnersAgree]

theorem ensureLoaded_agree (fields : List Nat) :
    ⦃fun s => ⌜OwnersAgree v s⌝⦄ ensureLoaded id fields ⦃keeps (OwnersAgree v)⦄ := by
  have hInstallData := @installData_agree v
  have hNeutral := @transition_agree_of_neutral v
  mvcgen [ensureLoaded, loadMapField, hInstallData, hNeutral] invariants
  | inv1 => keeps (OwnersAgree v)
  | inv2 => keeps (OwnersAgree v)
  | inv3 => keeps (OwnersAgree v)
  | inv4 => keeps (OwnersAgree v)
  | inv5 => keeps (OwnersAgree v)
  | inv6 => keeps (OwnersAgree v)

theorem readField_agree (field : Nat) :
    ⦃fun s => ⌜OwnersAgree v s⌝⦄ readField id field ⦃keeps (OwnersAgree v)⦄ := by
  have hEnsureLoaded := @ensureLoaded_agree v
  mvcgen [readField, hEnsureLoaded]

theorem loadRelations_agree :
    ⦃fun s => ⌜OwnersAgree v s⌝⦄ loadRelations id ⦃keeps (OwnersAgree v)⦄ := by
  have hEnsureLoaded := @ensureLoaded_agree v
  mvcgen [loadRelations, hEnsureLoaded]

/-! ### Deleting -/

theorem bindIfStored_agree :
    ⦃fun s => ⌜OwnersAgree v s⌝⦄ bindIfStored id ⦃keeps (OwnersAgree v)⦄ := by
  have hEnsureManaged := @ensureManaged_agree v
  mvcgen [bindIfStored, hEnsureManaged]

theorem deleteCascade_agree (fuel : Nat) (visited : List ObjectId) :
    ⦃fun s => ⌜OwnersAgree v s⌝⦄ deleteCascade fuel id visited ⦃keeps (OwnersAgree v)⦄ := by
  induction fuel generalizing id visited with
  | zero => mvcgen [deleteCascade]
  | succ fuel ih =>
    have hEnsureManaged := @ensureManaged_agree v
    have hEnsureLoaded := @ensureLoaded_agree v
    have hNeutral := @transition_agree_of_neutral v
    have hUpdateManager := @updateManager_agree v
    have hBindIfStored := @bindIfStored_agree v
    mvcgen [deleteCascade, deleteOne, hEnsureManaged, hEnsureLoaded, hNeutral, hUpdateManager,
      hBindIfStored, ih] invariants
    | inv1 => keeps (OwnersAgree v)
    exact .of_lifecycle fun _ => ⟨rfl, rfl⟩

theorem delete_agree : ⦃fun s => ⌜OwnersAgree v s⌝⦄ delete id ⦃keeps (OwnersAgree v)⦄ := by
  have hDeleteCascade := @deleteCascade_agree v
  mvcgen [delete, hDeleteCascade]

theorem deleteDependent_agree :
    ⦃fun s => ⌜OwnersAgree v s⌝⦄ deleteDependent id ⦃keeps (OwnersAgree v)⦄ := by
  have hDelete := @delete_agree v
  have hBindIfStored := @bindIfStored_agree v
  mvcgen [deleteDependent, hDelete, hBindIfStored]

/-! ### Flushing -/

theorem generateValues_agree (cls : ClassMeta) :
    ⦃fun s => ⌜OwnersAgree v s⌝⦄ generateValues id cls ⦃keeps (OwnersAgree v)⦄ := by
  have hUpdateManager := @updateManager_agree v
  mvcgen [generateValues, hUpdateManager] invariants
  | inv1 => keeps (OwnersAgree v)
  all_goals exact keepsHolding_install _ _

theorem insertObject_agree :
    ⦃fun s => ⌜OwnersAgree v s⌝⦄ insertObject id ⦃keeps (OwnersAgree v)⦄ := by
  have hEnsureLoaded := @ensureLoaded_agree v
  have hGenerateValues := @generateValues_agree v
  have hUpdateManager := @updateManager_agree v
  have hNeutral := @transition_agree_of_neutral v
  mvcgen [insertObject, hEnsureLoaded, hGenerateValues, hUpdateManager, hNeutral]
  exact .of_lifecycle fun _ => ⟨rfl, rfl⟩

theorem flushNew_agree (only : Option ObjectId) :
    ⦃fun s => ⌜OwnersAgree v s⌝⦄ flushNew only ⦃keeps (OwnersAgree v)⦄ := by
  have hInsertObject := @insertObject_agree v
  mvcgen [flushNew, hInsertObject] invariants
  | inv1 => keeps (OwnersAgree v)

theorem applyQueue_agree (fuel applied : Nat) :
    ⦃fun s => ⌜OwnersAgree v s⌝⦄ applyQueue fuel applied ⦃keeps (OwnersAgree v)⦄ := by
  induction fuel generalizing applied with
  | zero => mvcgen [applyQueue]
  | succ fuel ih =>
    have hDeleteDependent := @deleteDependent_agree v
    mvcgen [applyQueue, hDeleteDependent, ih]

theorem knownVersion_agree (cls : ClassMeta) :
    ⦃fun s => ⌜OwnersAgree v s⌝⦄ knownVersion id cls ⦃keeps (OwnersAgree v)⦄ := by
  have hUpdateManager := @updateManager_agree v
  mvcgen [knownVersion, hUpdateManager]
  exact .of_lifecycle fun _ => ⟨rfl, rfl⟩

theorem flushUpdates_agree (queued : List FieldOwner) :
    ⦃fun s => ⌜OwnersAgree v s⌝⦄ flushUpdates queued ⦃keeps (OwnersAgree v)⦄ := by
  have hKnownVersion := @knownVersion_agree v
  have hUpdateManager := @updateManager_agree v
  have hNeutral := @transition_agree_of_neutral v
  mvcgen [flushUpdates, hKnownVersion, hUpdateManager, hNeutral]
    invariants
  | inv1 => keeps (OwnersAgree v)
  exact .of_lifecycle fun _ => ⟨rfl, rfl⟩

/-- Every manager among `objs` that `p` picks is of an object in `ids`: what a loop that
disconnects the objects `ids` one by one has still to deal with. -/
def PickedAmong (p : ManagedObject → Bool) (ids : List ObjectId) (objs : List ManagedObject) :
    Prop :=
  ∀ m ∈ objs, p m = true → m.id ∈ ids

def NoneDeleted (objs : List ManagedObject) : Prop := ∀ m ∈ objs, m.lifecycle.isDeleted = false

section PickedAmong

variable {p : ManagedObject → Bool} {ids : List ObjectId} {objs : List ManagedObject}

theorem PickedAmong.update {g : ManagedObject → ManagedObject} (h : PickedAmong p ids objs)
    (hg : ∀ m, (g m).id = m.id ∧ p (g m) = p m) :
    PickedAmong p ids (objs.map (updateAt id g)) := by
  intro m hm hp
  obtain ⟨m₀, hm₀, rfl⟩ := List.mem_map.1 hm
  have hsame : (updateAt id g m₀).id = m₀.id ∧ p (updateAt id g m₀) = p m₀ := by
    unfold updateAt
    split
    · exact hg m₀
    · exact ⟨rfl, rfl⟩
  rw [hsame.1]
  exact h m₀ hm₀ (hsame.2 ▸ hp)

theorem PickedAmong.filter (h : PickedAmong p (id :: ids) objs) :
    PickedAmong p ids (objs.filter (·.id != id)) := by
  intro m hm hp
  rw [List.mem_filter, bne_iff_ne, ne_eq] at hm
  exact (List.mem_cons.1 (h m hm.1 hp)).resolve_left hm.2

theorem PickedAmong.of_none (h : PickedAmong p (id :: ids) objs)
    (hnone : objs.find? (·.id == id) = none) : PickedAmong p ids objs := by
  intro m hm hp
  refine (List.mem_cons.1 (h m hm hp)).resolve_left fun he => ?_
  exact absurd (List.find?_eq_none.1 hnone m hm) (by simp [he])

theorem pickedAmong_picked {β} (key : ManagedObject → β) :
    PickedAmong p (((objs.filter p).map fun m => (m.id, key m)).map Prod.fst) objs := by
  intro m hm hp
  simp only [List.map_map, List.mem_map, List.mem_filter]
  exact ⟨m, ⟨hm, hp⟩, rfl⟩

theorem pickedAmong_ids : PickedAmong p (objs.map (·.id)) objs :=
  fun _ hm _ => List.mem_map_of_mem hm

theorem PickedAmong.noneDeleted (h : PickedAmong (·.lifecycle.isDeleted) [] objs) :
    NoneDeleted objs :=
  fun m hm => Bool.eq_false_iff.2 fun hd => by simpa using h m hm hd

theorem PickedAmong.eq_nil (h : PickedAmong (fun _ => true) [] objs) : objs = [] :=
  List.eq_nil_iff_forall_not_mem.2 fun m hm => by simpa using h m hm rfl

end PickedAmong

theorem disconnect_pickedAmong (p : ManagedObject → Bool) (ids : List ObjectId) :
    ⦃fun s => ⌜OwnersAgree v s ∧ PickedAmong p (id :: ids) s.ctx.objects⌝⦄ disconnect id
    ⦃post⟨fun _ s => ⌜OwnersAgree v s ∧ PickedAmong p ids s.ctx.objects⌝,
      fun _ s => ⌜OwnersAgree v s⌝⟩⦄ := by
  mvcgen [disconnect]
  · rename_i s h _ _
    exact ⟨h.1.disconnect, h.2.filter⟩
  · rename_i s h hnone
    exact ⟨h.1, h.2.of_none (by simpa using hnone)⟩

theorem knownVersion_deletedAmong (cls : ClassMeta) (ids : List ObjectId) :
    ⦃fun s => ⌜OwnersAgree v s ∧ PickedAmong (·.lifecycle.isDeleted) ids s.ctx.objects⌝⦄
    knownVersion id cls
    ⦃keeps fun s => OwnersAgree v s ∧ PickedAmong (·.lifecycle.isDeleted) ids s.ctx.objects⦄ := by
  mvcgen [knownVersion, updateManager]
  obtain ⟨hA, hD⟩ := ‹OwnersAgree v _ ∧ PickedAmong _ ids _›
  exact ⟨hA.update (.of_lifecycle fun _ => ⟨rfl, rfl⟩), hD.update fun _ => ⟨rfl, rfl⟩⟩

theorem flushDeletes_agree :
    ⦃fun s => ⌜OwnersAgree v s⌝⦄ flushDeletes
    ⦃post⟨fun _ s => ⌜OwnersAgree v s ∧ NoneDeleted s.ctx.objects⌝,
      fun _ s => ⌜OwnersAgree v s⌝⟩⦄ := by
  -- every deleted manager left is one of an object still to be disconnected
  have hKnownVersionDeletedAmong := @knownVersion_deletedAmong v
  have hDisconnectPickedAmong := @disconnect_pickedAmong v
  mvcgen [flushDeletes, hKnownVersionDeletedAmong, hDisconnectPickedAmong] invariants
  | inv1 => post⟨fun p s => ⌜OwnersAgree v s ∧
      PickedAmong (·.lifecycle.isDeleted) (p.1.suffix.map Prod.fst) s.ctx.objects⌝,
      fun _ s => ⌜OwnersAgree v s⌝⟩
  case pre => exact ⟨‹_›, pickedAmong_picked _⟩
  all_goals grind [OwnersAgree, PickedAmong.noneDeleted]

theorem flush_agree :
    ⦃fun s => ⌜OwnersAgree v s⌝⦄ flush
    ⦃post⟨fun _ s => ⌜OwnersAgree v s ∧ NoneDeleted s.ctx.objects⌝,
      fun _ s => ⌜OwnersAgree v s⌝⟩⦄ := by
  have hFlushNew := @flushNew_agree v
  have hApplyQueue := @applyQueue_agree v
  have hFlushUpdates := @flushUpdates_agree v
  have hFlushDeletes := @flushDeletes_agree v
  mvcgen [flush, hFlushNew, hApplyQueue, hFlushUpdates, hFlushDeletes]

/-! ### Making persistent -/

theorem cascadePersist_agree (fuel : Nat) (visited : List ObjectId) :
    ⦃fun s => ⌜OwnersAgree v s⌝⦄ cascadePersist fuel id visited ⦃keeps (OwnersAgree v)⦄ := by
  induction fuel generalizing id visited with
  | zero => mvcgen [cascadePersist]
  | succ fuel ih =>
    have hMakePersistent := @makePersistent_agree v
    mvcgen [cascadePersist, hMakePersistent, ih] invariants
    | inv1 => keeps (OwnersAgree v)
    -- a target still transient is the one made persistent
    exact ⟨‹_›, Option.map_eq_some_iff.1 ‹_›⟩

theorem persist_agree : ⦃fun s => ⌜OwnersAgree v s⌝⦄ persist id ⦃keeps (OwnersAgree v)⦄ := by
  have hFlushNew := @flushNew_agree v
  have hMakePersistent := @makePersistent_agree v
  have hCascadePersist := @cascadePersist_agree v
  mvcgen [persist, hFlushNew, hMakePersistent, hCascadePersist]
  exact ⟨‹_›, _, ‹_›, ‹_›⟩

/-! ### Transactions -/

theorem reach_agree (fuel : Nat) (reachable : List ObjectId) :
    ⦃fun s => ⌜OwnersAgree v s⌝⦄ reach fuel id reachable ⦃keeps (OwnersAgree v)⦄ := by
  induction fuel generalizing id reachable with
  | zero => mvcgen [reach]
  | succ fuel ih =>
    have hLoadRelations := @loadRelations_agree v
    mvcgen [reach, hLoadRelations, ih] invariants
    | inv1 => keeps (OwnersAgree v)
    | inv2 => keeps (OwnersAgree v)

theorem reachableFrom_agree :
    ⦃fun s => ⌜OwnersAgree v s⌝⦄ reachableFrom id ⦃keeps (OwnersAgree v)⦄ := by
  have hReach := @reach_agree v
  mvcgen [reachableFrom, hReach]

theorem begin_agree : ⦃fun s => ⌜OwnersAgree v s⌝⦄ Engine.begin ⦃keeps (OwnersAgree v)⦄ := by
  mvcgen [Engine.begin]

theorem setProperty_agree (name value : String) :
    ⦃fun s => ⌜OwnersAgree v s⌝⦄ setProperty name value ⦃keeps (OwnersAgree v)⦄ := by
  mvcgen [setProperty]

/-- Each object of `ids` has no manager or a first manager that is new or transient: the
orphans a commit has still to roll back. -/
def NewOrTransient (ids : List ObjectId) (objs : List ManagedObject) : Prop :=
  ∀ i ∈ ids, ∀ m, objs.find? (·.id == i) = some m →
    m.lifecycle = .persistentNew ∨ m.lifecycle = .transient

theorem newOrTransient_of_new {objs : List ManagedObject} (hs : FirstInUse objs)
    {p : ManagedObject → Bool} (hp : ∀ m, p m = true → m.lifecycle = .persistentNew) :
    NewOrTransient ((objs.filter p).map (·.id)) objs := by
  intro i hi m hm
  obtain ⟨m₀, hm₀, rfl⟩ := List.mem_map.1 hi
  rw [List.mem_filter] at hm₀
  have hnew := hp m₀ hm₀.2
  rw [hs m₀ hm₀.1 (by rw [hnew]; decide)] at hm
  cases hm
  exact .inl hnew

theorem NewOrTransient.rollBack {ids : List ObjectId} {objs : List ManagedObject}
    {m' : ManagedObject} {g : ManagedObject → ManagedObject} (h : NewOrTransient (id :: ids) objs)
    (hm' : m'.id = id) (ht : m'.lifecycle = .transient)
    (hg : ∀ m, (g m).id = m.id ∧ (g m).lifecycle = m.lifecycle) :
    NewOrTransient ids ((objs.map (updateAt id fun _ => m')).map (updateAt id g)) := by
  intro i hi m hm
  rw [find?_updateAt fun m hm => (hg m).1.trans hm, find?_updateAt fun _ _ => hm'] at hm
  by_cases hi' : i = id
  · simp only [hi', ↓reduceIte, Option.map_map] at hm
    obtain ⟨m₀, -, rfl⟩ := Option.map_eq_some_iff.1 hm
    exact .inr ((hg m').2.trans ht)
  · simp only [hi', ↓reduceIte] at hm
    exact h i (List.mem_cons_of_mem _ hi) m hm

theorem releaseUnreachable_agree :
    ⦃fun s => ⌜OwnersAgree v s⌝⦄ releaseUnreachable ⦃keeps (OwnersAgree v)⦄ := by
  have hReach := @reach_agree v
  mvcgen [releaseUnreachable, releaseOrphan, hReach, transition, updateManager] invariants
  | inv1 => keeps (OwnersAgree v)
  | inv2 => post⟨fun p s => ⌜OwnersAgree v s ∧ NewOrTransient p.1.suffix s.ctx.objects⌝,
      fun _ s => ⌜OwnersAgree v s⌝⟩
  case pre =>
    refine ⟨‹_›, ?_⟩
    simp +zetaDelta only []
    refine newOrTransient_of_new (‹OwnersAgree v _›).first fun m hm => ?_
    simp only [Bool.and_eq_true, beq_iff_eq] at hm
    exact hm.1.1
  case step.h_1.h_1 =>
    -- the orphan's managers become transient, and its entry goes
    obtain ⟨hA, hpend⟩ := ‹OwnersAgree v _ ∧ NewOrTransient (_ :: _) _›
    rename_i m hfirst m' htr _ _
    obtain ⟨hstep, hm'⟩ := ManagedObject.transition_eq_ok htr
    have hid := id_of_find? hfirst
    rw [← congrArg ManagedObject.id hm'] at hid
    have ht : m'.lifecycle = .transient := by
      rcases hpend _ List.mem_cons_self m hfirst with h | h <;>
        rw [h] at hstep <;> simpa [LifecycleState.step] using hstep.symm
    exact ⟨hA.rollBack hfirst (by rw [hm']) ht fun _ => ⟨rfl, rfl⟩,
      hpend.rollBack hid ht fun _ => ⟨rfl, rfl⟩⟩
  all_goals exact ‹_ ∧ _›.1

theorem NoneDeleted.update {objs : List ManagedObject} {g : ManagedObject → ManagedObject}
    (h : NoneDeleted objs)
    (hg : ∀ m, m.lifecycle.isDeleted = false → (g m).lifecycle.isDeleted = false) :
    NoneDeleted (objs.map (updateAt id g)) := by
  intro m hm
  obtain ⟨m₀, hm₀, rfl⟩ := List.mem_map.1 hm
  unfold updateAt
  split
  · exact hg m₀ (h m₀ hm₀)
  · exact h m₀ hm₀

theorem LifecycleState.step_commit_isDeleted {s s' : LifecycleState} {r : Bool}
    (h : s.step (.commit r) = some s') : s'.isDeleted = false := by
  cases s <;> simp only [LifecycleState.step, Option.some.injEq, reduceCtorEq] at h <;>
    subst h <;> (try cases r) <;> rfl

theorem updateManager_noneDeleted {f : ManagedObject → ManagedObject}
    (hf : ∀ m, (f m).id = m.id ∧ (f m).lifecycle = m.lifecycle) :
    ⦃fun s => ⌜OwnersAgree v s ∧ NoneDeleted s.ctx.objects⌝⦄ updateManager id f
    ⦃ends (fun s => OwnersAgree v s ∧ NoneDeleted s.ctx.objects) (OwnersAgree v)⦄ := by
  mvcgen [updateManager]
  rename_i s h _
  exact ⟨h.1.update (.of_lifecycle hf), h.2.update fun m hm => (hf m).2 ▸ hm⟩

theorem transition_commit_noneDeleted (retain : Bool) :
    ⦃fun s => ⌜OwnersAgree v s ∧ NoneDeleted s.ctx.objects⌝⦄ transition id (.commit retain)
    ⦃ends (fun s => OwnersAgree v s ∧ NoneDeleted s.ctx.objects) (OwnersAgree v)⦄ := by
  mvcgen [transition, updateManager]
  rotate_left
  · exact ‹_ ∧ _›.1
  · exact ‹_ ∧ _›.1
  rename_i s h m hfirst m' htr _
  obtain ⟨hstep, hm'⟩ := ManagedObject.transition_eq_ok htr
  have hkeep := LifecycleEvent.keepsTransient_commit retain (h.2 m (List.mem_of_find?_eq_some hfirst))
  exact ⟨h.1.transition hfirst (by rw [hm']) (hkeep _ hstep),
    h.2.update fun _ _ => LifecycleState.step_commit_isDeleted hstep⟩

theorem commit_agree : ⦃fun s => ⌜OwnersAgree v s⌝⦄ commit ⦃keeps (OwnersAgree v)⦄ := by
  -- after a flush that succeeds no object is deleted, so committing keeps objects bound
  have hReleaseUnreachable := @releaseUnreachable_agree v
  have hFlush := @flush_agree v
  have hUpdateManagerNoneDeleted := @updateManager_noneDeleted v
  have hTransitionCommitNoneDeleted := @transition_commit_noneDeleted v
  mvcgen [commit, hReleaseUnreachable, hFlush, hUpdateManagerNoneDeleted,
    hTransitionCommitNoneDeleted] invariants
  | inv1 => ends (fun s => OwnersAgree v s ∧ NoneDeleted s.ctx.objects) (OwnersAgree v)
  | inv2 => ends (fun s => OwnersAgree v s ∧ NoneDeleted s.ctx.objects) (OwnersAgree v)
  with grind [ManagedObject.unloadAll]

theorem rollback_agree : ⦃fun s => ⌜OwnersAgree v s⌝⦄ rollback ⦃keeps (OwnersAgree v)⦄ := by
  have hDisconnect := @disconnect_agree v
  have hTransition := @transition_agree v
  have hUpdateManager := @updateManager_agree v
  mvcgen [rollback, hDisconnect, hTransition, hUpdateManager] invariants
  | inv1 => keeps (OwnersAgree v)
  next hfirst _ hold =>
    -- what is rolled back to hollow was neither new nor transient
    refine ⟨‹_›, fun m hm => ?_⟩
    rw [hfirst] at hm
    cases hm
    exact LifecycleEvent.keepsTransient_rollback (by simp_all)
  next => exact .of_lifecycle fun _ => ⟨rfl, rfl⟩

theorem close_agree : ⦃fun s => ⌜OwnersAgree v s⌝⦄ close ⦃keeps (OwnersAgree v)⦄ := by
  -- every manager left is of an object still to be disconnected, so none is left at the end
  have hDisconnectPickedAmong := @disconnect_pickedAmong v
  mvcgen [close, hDisconnectPickedAmong] invariants
  | inv1 => post⟨fun p s => ⌜OwnersAgree v s ∧
      PickedAmong (fun _ => true) p.1.suffix s.ctx.objects⌝, fun _ s => ⌜OwnersAgree v s⌝⟩
  | inv2 => post⟨fun p s => ⌜OwnersAgree v s ∧
      PickedAmong (fun _ => true) p.1.suffix s.ctx.objects⌝, fun _ s => ⌜OwnersAgree v s⌝⟩
  case isTrue.pre | isFalse.pre => exact ⟨‹_›, pickedAmong_ids⟩
  case isTrue.post.success | isFalse.post.success =>
    obtain ⟨hA, hnone⟩ := ‹OwnersAgree v _ ∧ PickedAmong _ [] _›
    exact hA.releaseAll hnone.eq_nil

/-! ### Writing fields -/

theorem keepsHolding_makeDirty (field : Nat) : KeepsHolding id (·.makeDirty field) :=
  fun m hm => ⟨(ManagedObject.makeDirty_id m field).trans hm, ManagedObject.makeDirty_transient m field⟩

theorem absorb_agree (fx : Effects) (e : HostEvent) :
    ⦃fun s => ⌜OwnersAgree v s⌝⦄ absorb fx e ⦃keeps (OwnersAgree v)⦄ := by
  have hUpdateManager := @updateManager_agree v
  cases e <;> mvcgen [absorb, recordRelation, hUpdateManager]
  exact keepsHolding_makeDirty _

theorem runWrapper_agree {α} (field : Nat) (manageRelations : Bool)
    (call : HostView → WrapperCall α) :
    ⦃fun s => ⌜OwnersAgree v s⌝⦄ runWrapper id field manageRelations call
    ⦃keeps (OwnersAgree v)⦄ := by
  have hEnsureLoaded := @ensureLoaded_agree v
  have hUpdateManager := @updateManager_agree v
  have hAbsorb := @absorb_agree v
  mvcgen [runWrapper, checkWritable, hEnsureLoaded, hUpdateManager, hAbsorb]
    invariants
  | inv1 => keeps (OwnersAgree v)
  | inv2 => keeps (OwnersAgree v)
  all_goals exact .of_lifecycle fun _ => ⟨rfl, rfl⟩

theorem keepsHolding_install_makeDirty (field : Nat) (sl : Slot) :
    KeepsHolding id fun m => (m.install field sl).makeDirty field :=
  (keepsHolding_makeDirty field).comp (keepsHolding_install field sl)

theorem applyInverse_agree (ch : RelationChange) :
    ⦃fun s => ⌜OwnersAgree v s⌝⦄ applyInverse ch ⦃keeps (OwnersAgree v)⦄ := by
  have hEnsureLoaded := @ensureLoaded_agree v
  have hRunWrapper := @runWrapper_agree v
  have hUpdateManager := @updateManager_agree v
  mvcgen [applyInverse, hEnsureLoaded, hRunWrapper, hUpdateManager]
  exact keepsHolding_install_makeDirty _ _

theorem processEffects_agree (fx : Effects) :
    ⦃fun s => ⌜OwnersAgree v s⌝⦄ processEffects fx ⦃keeps (OwnersAgree v)⦄ := by
  have hApplyInverse := @applyInverse_agree v
  have hDeleteDependent := @deleteDependent_agree v
  have hFlush := @flush_agree v
  mvcgen [processEffects, hApplyInverse, hDeleteDependent, hFlush] invariants
  | inv1 => keeps (OwnersAgree v)
  | inv2 => keeps (OwnersAgree v)
  | inv3 => keeps (OwnersAgree v)
  all_goals exact fun h _ => h

theorem setField_agree (field : Nat) (data : FieldData) :
    ⦃fun s => ⌜OwnersAgree v s⌝⦄ setField id field data ⦃keeps (OwnersAgree v)⦄ := by
  have hEnsureLoaded := @ensureLoaded_agree v
  have hUpdateManager := @updateManager_agree v
  have hProcessEffects := @processEffects_agree v
  mvcgen [setField, checkWritable, hEnsureLoaded, hUpdateManager, hProcessEffects] invariants
  | inv1 => keeps (OwnersAgree v)
  | inv2 => keeps (OwnersAgree v)
  | inv3 => keeps (OwnersAgree v)
  | inv4 => keeps (OwnersAgree v)
  | inv5 => keeps (OwnersAgree v)
  | inv6 => keeps (OwnersAgree v)
  | inv7 => keeps (OwnersAgree v)
  | inv8 => keeps (OwnersAgree v)
  all_goals exact keepsHolding_install_makeDirty _ _

theorem withWrapper_agree {α} (field : Nat) (call : HostView → WrapperCall α) :
    ⦃fun s => ⌜OwnersAgree v s⌝⦄ withWrapper id field call ⦃keeps (OwnersAgree v)⦄ := by
  have hRunWrapper := @runWrapper_agree v
  have hProcessEffects := @processEffects_agree v
  mvcgen [withWrapper, hRunWrapper, hProcessEffects]

/-! ### Detached copies -/

theorem detachInto_agree (fuel : Nat) (g : DetachedGraph) :
    ⦃fun s => ⌜OwnersAgree v s⌝⦄ detachInto fuel id g ⦃keeps (OwnersAgree v)⦄ := by
  induction fuel generalizing id g with
  | zero => mvcgen [detachInto]
  | succ fuel ih =>
    mvcgen [detachInto, ih] invariants
    | inv1 => keeps (OwnersAgree v)

theorem detachCopy_agree :
    ⦃fun s => ⌜OwnersAgree v s⌝⦄ detachCopy id ⦃keeps (OwnersAgree v)⦄ := by
  have hDetachInto := @detachInto_agree v
  mvcgen [detachCopy, hDetachInto]

theorem detach_agree : ⦃fun s => ⌜OwnersAgree v s⌝⦄ detach id ⦃keeps (OwnersAgree v)⦄ := by
  have hFlush := @flush_agree v
  have hDetachCopy := @detachCopy_agree v
  have hNeutral := @transition_agree_of_neutral v
  have hDisconnect := @disconnect_agree v
  mvcgen [detach, hFlush, hDetachCopy, hNeutral, hDisconnect]
    invariants
  | inv1 => keeps (OwnersAgree v)
  | inv2 => keeps (OwnersAgree v)
  all_goals exact ‹_ ∧ _›.1

theorem adopt_fresh {m : ManagedObject} :
    ⦃fun s => ⌜OwnersAgree v s ∧ s.ctx.objects.find? (·.id == m.id) = none ∧
      m.lifecycle = .transient⌝⦄ adopt m
    ⦃post⟨fun _ s => ⌜OwnersAgree v s ∧
      ∃ m', s.ctx.objects.find? (·.id == m.id) = some m' ∧ m'.lifecycle = .transient⌝,
      fun _ s => ⌜OwnersAgree v s⌝⟩⦄ := by
  mvcgen [adopt]
  rename_i s h _
  refine ⟨h.1.adopt h.2.2, m, ?_, h.2.2⟩
  simp +zetaDelta [List.find?_append, h.2.1]

theorem attachObject_agree (o : DetachedObject) :
    ⦃fun s => ⌜OwnersAgree v s⌝⦄ attachObject o ⦃keeps (OwnersAgree v)⦄ := by
  have hBindHollow := @bindHollow_agree v
  have hAdoptFresh := @adopt_fresh v
  have hMakePersistent := @makePersistent_agree v
  have hEnsureLoaded := @ensureLoaded_agree v
  have hUpdateManager := @updateManager_agree v
  have hWithWrapper := @withWrapper_agree v
  have hSetField := @setField_agree v
  mvcgen [attachObject, hBindHollow, hAdoptFresh, hMakePersistent, hEnsureLoaded, hUpdateManager,
    hWithWrapper, hSetField] invariants
  | inv1 => keeps (OwnersAgree v)
  | inv2 => keeps (OwnersAgree v)
  | inv3 => post⟨fun p s => ⌜OwnersAgree v s ∧ s.ctx.objects.find? (·.id == o.id) = none ∧
      p.2.id = o.id ∧ p.2.lifecycle = .transient⌝, fun _ s => ⌜OwnersAgree v s⌝⟩
  | inv4 => keeps (OwnersAgree v)
  | inv5 => keeps (OwnersAgree v)
  -- the version update keeps every lifecycle; the rest is the new object's manager being
  -- built transient and of the object, its context not managing the object before
  all_goals first
    | exact .of_lifecycle fun _ => ⟨rfl, rfl⟩
    | grind [OwnersAgree, Option.isNone_iff_eq_none, ManagedObject.install_id,
        ManagedObject.install_lifecycle, ManagedObject.create]

theorem attachCopy_agree (g : DetachedGraph) :
    ⦃fun s => ⌜OwnersAgree v s⌝⦄ attachCopy g ⦃keeps (OwnersAgree v)⦄ := by
  have hAttachObject := @attachObject_agree v
  mvcgen [attachCopy, hAttachObject] invariants
  | inv1 => keeps (OwnersAgree v)
  | inv2 => keeps (OwnersAgree v)

end Engine

/-! ### Public calls -/

open Std.Do Engine

variable {v : RegistryView} {id : ObjectId}

theorem FieldCall.run_agree (field : Nat) (c : FieldCall) :
    ⦃fun s => ⌜OwnersAgree v s⌝⦄ c.run id field ⦃keeps (OwnersAgree v)⦄ := by
  have hWithWrapper := @withWrapper_agree v
  cases c <;> mvcgen [FieldCall.run, hWithWrapper]

/-- Every public call keeps a context's registry entries in line with its managers, whether
it succeeds or fails partway. -/
theorem Call.run_agree (c : Call) :
    ⦃fun s => ⌜OwnersAgree v s⌝⦄ c.run ⦃keeps (OwnersAgree v)⦄ := by
  have hSetProperty := @setProperty_agree v
  have hBegin := @begin_agree v
  have hCommit := @commit_agree v
  have hRollback := @rollback_agree v
  have hFlush := @flush_agree v
  have hClose := @close_agree v
  have hNewObject := @newObject_agree v
  have hPersist := @persist_agree v
  have hFind := @find_agree v
  have hReadField := @readField_agree v
  have hLoadRelations := @loadRelations_agree v
  have hSetField := @setField_agree v
  have hFieldCall := @FieldCall.run_agree v
  have hDelete := @delete_agree v
  have hDetach := @detach_agree v
  have hDetachCopy := @detachCopy_agree v
  have hAttachCopy := @attachCopy_agree v
  have hReachableFrom := @reachableFrom_agree v
  cases c <;> mvcgen [Call.run, hSetProperty, hBegin, hCommit, hRollback, hFlush, hClose,
    hNewObject, hPersist, hFind, hReadField, hLoadRelations, hSetField, hFieldCall, hDelete,
    hDetach, hDetachCopy, hAttachCopy, hReachableFrom]
  case flush.post.success => exact fun h _ => h

end ObjectPersistence
