import Mathlib
import ObjectPersistence.Proofs.ManagerState
import ObjectPersistence.Proofs.Ownership

/-! # An open transaction keeps the committed tables

Inside a transaction the connection keeps every write in the transaction's own view, so the
tables the database has committed stay as they were when the transaction began, whatever
calls run and however they end, until a commit, a rollback or a close ends it. `TxKept t`
says so for the tables `t`: while a transaction is open, the connection is inside it and the
committed tables are `t`. It also says that every manager has one slot per field of its class,
which a read after the transaction relies on.

Each engine operation gets a Hoare triple for `TxKept t`, for any ending, as the registry
does in `RegistryPreservation`; a run of calls that each start inside the open transaction
then keeps it from the state the transaction began in. -/

set_option mvcgen.warning false

namespace ObjectPersistence

/-! ### Connections -/

namespace Datastore.Connection

variable {α : Type} (c : Connection) (db : Database) (a : Access α)

@[simp] theorem run_explicit : (c.run db a).2.1.explicit = c.explicit := by
  simp only [run]
  cases hc : c.explicit
  · simp only [Bool.false_eq_true, if_false]
    split
    split <;> (try split) <;> exact hc
  · simp only [if_true]
    split
    rfl

theorem run_tables (h : c.explicit = true) : (c.run db a).2.2.tables = db.tables := by
  simp only [run, h, if_true]
  split
  rfl

@[simp] theorem begin_explicit : c.begin.explicit = true := by
  unfold Connection.begin
  split <;> simp_all

end Datastore.Connection

/-! ### Managers that fit their class -/

def ManagedObject.FitsClass (m : ManagedObject) : Prop :=
  m.slots.length = m.cls.fieldCount ∧ m.loaded.len = m.cls.fieldCount

def FitClasses (objs : List ManagedObject) : Prop := ∀ m ∈ objs, m.FitsClass

theorem ManagedObject.create_fitsClass (id : ObjectId) (cls : ClassMeta) (s : LifecycleState) :
    (ManagedObject.create id cls s).FitsClass :=
  ⟨List.length_replicate, rfl⟩

/-- A change to a manager that keeps its class, its number of slots and the length of its
loaded bitmap. -/
def KeepsShape (f : ManagedObject → ManagedObject) : Prop :=
  ∀ m, (f m).cls = m.cls ∧ (f m).slots.length = m.slots.length ∧ (f m).loaded.len = m.loaded.len

namespace KeepsShape

variable {f g : ManagedObject → ManagedObject}

theorem fitsClass (hf : KeepsShape f) {m : ManagedObject} (hm : m.FitsClass) : (f m).FitsClass := by
  obtain ⟨hcls, hslots, hloaded⟩ := hf m
  rw [ManagedObject.FitsClass, hcls, hslots, hloaded]
  exact hm

theorem comp (hg : KeepsShape g) (hf : KeepsShape f) : KeepsShape (g ∘ f) := fun m =>
  ⟨(hg (f m)).1.trans (hf m).1, (hg (f m)).2.1.trans (hf m).2.1, (hg (f m)).2.2.trans (hf m).2.2⟩

theorem install (field : Nat) (sl : Slot) : KeepsShape (·.install field sl) := fun m =>
  have h := ManagedObject.install_fields m field sl
  ⟨h.2.1, h.2.2.2.2.2.1, h.2.2.2.2.2.2⟩

theorem makeDirty (field : Nat) : KeepsShape (·.makeDirty field) := fun m => by
  obtain ⟨-, hcls, hslots, hloaded⟩ := ManagedObject.makeDirty_fields m field
  rw [hcls, hslots, hloaded]
  exact ⟨rfl, rfl, rfl⟩

theorem restoreWrapper (field : Nat) (w : Wrapper) : KeepsShape (·.restoreWrapper field w) :=
  fun _ => ⟨rfl, List.length_set, rfl⟩

theorem unloadAll : KeepsShape ManagedObject.unloadAll := fun _ => ⟨rfl, List.length_map _, rfl⟩

theorem unsetWrapperOwners : KeepsShape ManagedObject.unsetWrapperOwners :=
  fun _ => ⟨rfl, List.length_map _, rfl⟩

end KeepsShape

namespace FitClasses

variable {objs : List ManagedObject} {id : ObjectId}

theorem update {f : ManagedObject → ManagedObject} (h : FitClasses objs) (hf : KeepsShape f) :
    FitClasses (objs.map (updateAt id f)) := by
  intro m hm
  obtain ⟨m₀, hm₀, rfl⟩ := List.mem_map.1 hm
  unfold updateAt
  split
  · exact hf.fitsClass (h m₀ hm₀)
  · exact h m₀ hm₀

theorem replace {m' : ManagedObject} (h : FitClasses objs) (hm' : m'.FitsClass) :
    FitClasses (objs.map (updateAt id fun _ => m')) := by
  intro m₁ hm₁
  obtain ⟨m₀, hm₀, rfl⟩ := List.mem_map.1 hm₁
  unfold updateAt
  split
  · exact hm'
  · exact h m₀ hm₀

theorem append {m : ManagedObject} (h : FitClasses objs) (hm : m.FitsClass) :
    FitClasses (objs ++ [m]) := by
  intro m₁ hm₁
  rcases List.mem_append.1 hm₁ with hm₁ | hm₁
  · exact h m₁ hm₁
  · rw [List.mem_singleton.1 hm₁]
    exact hm

theorem filter (h : FitClasses objs) (p : ManagedObject → Bool) : FitClasses (objs.filter p) :=
  fun m hm => h m (List.mem_filter.1 hm).1

theorem transition {m m' : ManagedObject} {e : LifecycleEvent} (h : FitClasses objs)
    (hfirst : objs.find? (·.id == id) = some m) (ht : m.transition e = .ok m') :
    FitClasses (objs.map (updateAt id fun _ => m')) := by
  obtain ⟨-, hm'⟩ := ManagedObject.transition_eq_ok ht
  refine h.replace ?_
  rw [hm']
  exact h m (List.mem_of_find?_eq_some hfirst)

end FitClasses

/-! ### The invariant -/

/-- What an open transaction keeps, for the tables `t` committed when it began: while it is
open, the connection works inside it and the committed tables are `t`; and every manager has
one slot per field of its class. -/
def TxKept (t : Datastore.Tables) (s : EngineState) : Prop :=
  FitClasses s.ctx.objects ∧
    (s.ctx.txActive = true → s.ctx.backend.conn.explicit = true ∧ s.db.tables = t)

theorem TxKept.of_idle {t : Datastore.Tables} {s : EngineState} (hs : FitClasses s.ctx.objects)
    (hidle : s.ctx.txActive = false) : TxKept t s :=
  ⟨hs, fun h => absurd (hidle.symm.trans h) Bool.false_ne_true⟩

namespace Engine

open Std.Do

variable {t : Datastore.Tables} {id : ObjectId}

/-! ### Primitive operations -/

theorem updateManager_kept {f : ManagedObject → ManagedObject} (hf : KeepsShape f) :
    ⦃fun s => ⌜TxKept t s⌝⦄ updateManager id f ⦃keeps (TxKept t)⦄ := by
  mvcgen [updateManager]
  rename_i s h _
  exact ⟨h.1.update hf, h.2⟩

theorem transition_kept (e : LifecycleEvent) :
    ⦃fun s => ⌜TxKept t s⌝⦄ transition id e ⦃keeps (TxKept t)⦄ := by
  mvcgen [transition, updateManager]
  rename_i s h m hfirst m' ht _
  exact ⟨h.1.transition hfirst ht, h.2⟩

theorem adopt_kept {m : ManagedObject} (hm : m.FitsClass) :
    ⦃fun s => ⌜TxKept t s⌝⦄ adopt m ⦃keeps (TxKept t)⦄ := by
  mvcgen [adopt]
  rename_i s h _
  exact ⟨h.1.append hm, h.2⟩

theorem disconnect_kept : ⦃fun s => ⌜TxKept t s⌝⦄ disconnect id ⦃keeps (TxKept t)⦄ := by
  mvcgen [disconnect]
  rename_i s h _ _
  exact ⟨h.1.filter _, h.2⟩

theorem bindHollow_kept (cls : ClassMeta) (version : Option Int) :
    ⦃fun s => ⌜TxKept t s⌝⦄ bindHollow id cls version ⦃keeps (TxKept t)⦄ := by
  have hAdopt := @adopt_kept t
  mvcgen [bindHollow, hAdopt]
  exact ManagedObject.create_fitsClass id cls .hollow

theorem makePersistent_kept (explicit : Bool) :
    ⦃fun s => ⌜TxKept t s⌝⦄ makePersistent id explicit ⦃keeps (TxKept t)⦄ := by
  mvcgen [makePersistent, updateManager]
  rename_i s h r _ _ m hfirst m' hm' _
  obtain ⟨-, hm'⟩ := ManagedObject.transition_eq_ok hm'
  refine ⟨h.1.replace ?_, h.2⟩
  rw [hm']
  exact h.1 m (List.mem_of_find?_eq_some hfirst)

/-! ### Binding and loading -/

theorem installData_kept (field : Nat) (data : Option FieldData) :
    ⦃fun s => ⌜TxKept t s⌝⦄ installData id field data ⦃keeps (TxKept t)⦄ := by
  have hUpdateManager := @updateManager_kept t
  mvcgen [installData, hUpdateManager]
  exact KeepsShape.install _ _

theorem ensureManaged_kept :
    ⦃fun s => ⌜TxKept t s⌝⦄ ensureManaged id ⦃keeps (TxKept t)⦄ := by
  have hBindHollow := @bindHollow_kept t
  mvcgen [ensureManaged, hBindHollow] with
    grind -ring -linarith [TxKept, Datastore.Connection.run_explicit, Datastore.Connection.run_tables]

theorem newObject_kept (cls : String) :
    ⦃fun s => ⌜TxKept t s⌝⦄ newObject cls ⦃keeps (TxKept t)⦄ := by
  -- the new manager keeps one slot per field while its fields are installed
  have hAdopt := @adopt_kept t
  mvcgen [newObject, hAdopt] invariants
  | inv1 => post⟨fun p s => ⌜TxKept t s ∧ p.2.FitsClass⌝,
      fun _ s => ⌜TxKept t s⌝⟩
  all_goals grind -ring -linarith [TxKept, ManagedObject.FitsClass, ManagedObject.install_fields,
    ManagedObject.create_fitsClass]

theorem find_kept (cls : String) (validate : Bool) :
    ⦃fun s => ⌜TxKept t s⌝⦄ find cls id validate ⦃keeps (TxKept t)⦄ := by
  have hBindHollow := @bindHollow_kept t
  mvcgen [Engine.find, hBindHollow] with
    grind -ring -linarith [TxKept, Datastore.Connection.run_explicit, Datastore.Connection.run_tables]

theorem ensureLoaded_kept (fields : List Nat) :
    ⦃fun s => ⌜TxKept t s⌝⦄ ensureLoaded id fields ⦃keeps (TxKept t)⦄ := by
  have hInstallData := @installData_kept t
  have hTransition := @transition_kept t
  mvcgen [ensureLoaded, loadMapField, hInstallData, hTransition] invariants
  | inv1 => keeps (TxKept t)
  | inv2 => keeps (TxKept t)
  | inv3 => keeps (TxKept t)
  | inv4 => keeps (TxKept t)
  | inv5 => keeps (TxKept t)
  | inv6 => keeps (TxKept t)
  with grind -ring -linarith [TxKept, Datastore.Connection.run_explicit, Datastore.Connection.run_tables]

theorem readField_kept (field : Nat) :
    ⦃fun s => ⌜TxKept t s⌝⦄ readField id field ⦃keeps (TxKept t)⦄ := by
  have hEnsureLoaded := @ensureLoaded_kept t
  mvcgen [readField, hEnsureLoaded]

theorem loadRelations_kept :
    ⦃fun s => ⌜TxKept t s⌝⦄ loadRelations id ⦃keeps (TxKept t)⦄ := by
  have hEnsureLoaded := @ensureLoaded_kept t
  mvcgen [loadRelations, hEnsureLoaded]

/-! ### Deleting -/

theorem bindIfStored_kept :
    ⦃fun s => ⌜TxKept t s⌝⦄ bindIfStored id ⦃keeps (TxKept t)⦄ := by
  have hEnsureManaged := @ensureManaged_kept t
  mvcgen [bindIfStored, hEnsureManaged]

theorem deleteCascade_kept (fuel : Nat) (visited : List ObjectId) :
    ⦃fun s => ⌜TxKept t s⌝⦄ deleteCascade fuel id visited ⦃keeps (TxKept t)⦄ := by
  induction fuel generalizing id visited with
  | zero => mvcgen [deleteCascade]
  | succ fuel ih =>
    have hEnsureManaged := @ensureManaged_kept t
    have hEnsureLoaded := @ensureLoaded_kept t
    have hTransition := @transition_kept t
    have hUpdateManager := @updateManager_kept t
    have hBindIfStored := @bindIfStored_kept t
    mvcgen [deleteCascade, deleteOne, hEnsureManaged, hEnsureLoaded, hTransition, hUpdateManager,
      hBindIfStored, ih] invariants
    | inv1 => keeps (TxKept t)
    exact KeepsShape.unsetWrapperOwners

theorem delete_kept : ⦃fun s => ⌜TxKept t s⌝⦄ delete id ⦃keeps (TxKept t)⦄ := by
  have hDeleteCascade := @deleteCascade_kept t
  mvcgen [delete, hDeleteCascade]

theorem deleteDependent_kept :
    ⦃fun s => ⌜TxKept t s⌝⦄ deleteDependent id ⦃keeps (TxKept t)⦄ := by
  have hDelete := @delete_kept t
  have hBindIfStored := @bindIfStored_kept t
  mvcgen [deleteDependent, hDelete, hBindIfStored]

/-! ### Flushing -/

theorem generateValues_kept (cls : ClassMeta) :
    ⦃fun s => ⌜TxKept t s⌝⦄ generateValues id cls ⦃keeps (TxKept t)⦄ := by
  have hUpdateManager := @updateManager_kept t
  mvcgen [generateValues, hUpdateManager] invariants
  | inv1 => keeps (TxKept t)
  with grind -ring -linarith [TxKept, KeepsShape, ManagedObject.FitsClass, ManagedObject.install_fields, Datastore.Connection.run_explicit,
    Datastore.Connection.run_tables]

theorem insertObject_kept :
    ⦃fun s => ⌜TxKept t s⌝⦄ insertObject id ⦃keeps (TxKept t)⦄ := by
  have hEnsureLoaded := @ensureLoaded_kept t
  have hGenerateValues := @generateValues_kept t
  have hUpdateManager := @updateManager_kept t
  have hTransition := @transition_kept t
  mvcgen [insertObject, hEnsureLoaded, hGenerateValues, hUpdateManager, hTransition] with
    grind -ring -linarith [TxKept, KeepsShape, ManagedObject.clearDirty, Datastore.Connection.run_explicit,
      Datastore.Connection.run_tables]

theorem flushNew_kept (only : Option ObjectId) :
    ⦃fun s => ⌜TxKept t s⌝⦄ flushNew only ⦃keeps (TxKept t)⦄ := by
  have hInsertObject := @insertObject_kept t
  mvcgen [flushNew, hInsertObject] invariants
  | inv1 => keeps (TxKept t)

theorem applyQueue_kept (fuel applied : Nat) :
    ⦃fun s => ⌜TxKept t s⌝⦄ applyQueue fuel applied ⦃keeps (TxKept t)⦄ := by
  induction fuel generalizing applied with
  | zero => mvcgen [applyQueue]
  | succ fuel ih =>
    have hDeleteDependent := @deleteDependent_kept t
    mvcgen [applyQueue, hDeleteDependent, ih] with
      grind -ring -linarith [TxKept, Datastore.Connection.run_explicit, Datastore.Connection.run_tables]

theorem knownVersion_kept (cls : ClassMeta) :
    ⦃fun s => ⌜TxKept t s⌝⦄ knownVersion id cls ⦃keeps (TxKept t)⦄ := by
  have hUpdateManager := @updateManager_kept t
  mvcgen [knownVersion, hUpdateManager] with
    grind -ring -linarith [TxKept, KeepsShape, Datastore.Connection.run_explicit, Datastore.Connection.run_tables]

theorem flushUpdates_kept (queued : List FieldOwner) :
    ⦃fun s => ⌜TxKept t s⌝⦄ flushUpdates queued ⦃keeps (TxKept t)⦄ := by
  have hKnownVersion := @knownVersion_kept t
  have hUpdateManager := @updateManager_kept t
  have hTransition := @transition_kept t
  mvcgen [flushUpdates, hKnownVersion, hUpdateManager, hTransition] invariants
  | inv1 => keeps (TxKept t)
  with grind -ring -linarith [TxKept, KeepsShape, ManagedObject.clearDirty, Datastore.Connection.run_explicit,
    Datastore.Connection.run_tables]

theorem flushDeletes_kept : ⦃fun s => ⌜TxKept t s⌝⦄ flushDeletes ⦃keeps (TxKept t)⦄ := by
  have hKnownVersion := @knownVersion_kept t
  have hDisconnect := @disconnect_kept t
  mvcgen [flushDeletes, hKnownVersion, hDisconnect] invariants
  | inv1 => keeps (TxKept t)
  with grind -ring -linarith [TxKept, Datastore.Connection.run_explicit, Datastore.Connection.run_tables]

theorem flush_kept : ⦃fun s => ⌜TxKept t s⌝⦄ flush ⦃keeps (TxKept t)⦄ := by
  have hFlushNew := @flushNew_kept t
  have hApplyQueue := @applyQueue_kept t
  have hFlushUpdates := @flushUpdates_kept t
  have hFlushDeletes := @flushDeletes_kept t
  mvcgen [flush, hFlushNew, hApplyQueue, hFlushUpdates, hFlushDeletes]

/-! ### Making persistent -/

theorem cascadePersist_kept (fuel : Nat) (visited : List ObjectId) :
    ⦃fun s => ⌜TxKept t s⌝⦄ cascadePersist fuel id visited ⦃keeps (TxKept t)⦄ := by
  induction fuel generalizing id visited with
  | zero => mvcgen [cascadePersist]
  | succ fuel ih =>
    have hMakePersistent := @makePersistent_kept t
    mvcgen [cascadePersist, hMakePersistent, ih] invariants
    | inv1 => keeps (TxKept t)

theorem persist_kept : ⦃fun s => ⌜TxKept t s⌝⦄ persist id ⦃keeps (TxKept t)⦄ := by
  have hFlushNew := @flushNew_kept t
  have hMakePersistent := @makePersistent_kept t
  have hCascadePersist := @cascadePersist_kept t
  mvcgen [persist, hFlushNew, hMakePersistent, hCascadePersist]

/-! ### Transactions -/

theorem reach_kept (fuel : Nat) (reachable : List ObjectId) :
    ⦃fun s => ⌜TxKept t s⌝⦄ reach fuel id reachable ⦃keeps (TxKept t)⦄ := by
  induction fuel generalizing id reachable with
  | zero => mvcgen [reach]
  | succ fuel ih =>
    have hLoadRelations := @loadRelations_kept t
    mvcgen [reach, hLoadRelations, ih] invariants
    | inv1 => keeps (TxKept t)
    | inv2 => keeps (TxKept t)

theorem reachableFrom_kept :
    ⦃fun s => ⌜TxKept t s⌝⦄ reachableFrom id ⦃keeps (TxKept t)⦄ := by
  have hReach := @reach_kept t
  mvcgen [reachableFrom, hReach]

theorem begin_kept :
    ⦃fun s => ⌜TxKept t s ∧ s.db.tables = t⌝⦄ Engine.begin ⦃keeps (TxKept t)⦄ := by
  mvcgen [Engine.begin] with grind -ring -linarith [TxKept, Datastore.Connection.begin_explicit]

theorem setProperty_kept (name value : String) :
    ⦃fun s => ⌜TxKept t s⌝⦄ setProperty name value ⦃keeps (TxKept t)⦄ := by
  mvcgen [setProperty]

theorem releaseUnreachable_kept :
    ⦃fun s => ⌜TxKept t s⌝⦄ releaseUnreachable ⦃keeps (TxKept t)⦄ := by
  have hReach := @reach_kept t
  have hTransition := @transition_kept t
  have hUpdateManager := @updateManager_kept t
  mvcgen [releaseUnreachable, releaseOrphan, hReach, hTransition, hUpdateManager] invariants
  | inv1 => keeps (TxKept t)
  | inv2 => keeps (TxKept t)
  with grind -ring -linarith [TxKept, KeepsShape, ManagedObject.clearDirty]

theorem commit_kept : ⦃fun s => ⌜TxKept t s⌝⦄ commit ⦃keeps (TxKept t)⦄ := by
  -- the commit ends the transaction before the committed tables change
  have hReleaseUnreachable := @releaseUnreachable_kept t
  have hFlush := @flush_kept t
  have hUpdateManager := @updateManager_kept t
  have hTransition := @transition_kept t
  mvcgen [commit, hReleaseUnreachable, hFlush, hUpdateManager, hTransition] invariants
  | inv1 => keeps (TxKept t)
  | inv2 => keeps (TxKept t)
  with grind -ring -linarith [TxKept, KeepsShape, KeepsShape.unloadAll]

theorem rollback_kept : ⦃fun s => ⌜TxKept t s⌝⦄ rollback ⦃keeps (TxKept t)⦄ := by
  -- the transaction is over before the loop, so only the slots are left to keep
  mvcgen [rollback, disconnect, transition, updateManager] invariants
  | inv1 => ends (fun s => FitClasses s.ctx.objects ∧ s.ctx.txActive = false) (TxKept t)
  case step.h_1.isFalse.isFalse.h_1.h_1 =>
    rename_i h _ _ _ _ m hfirst m' htr _ _
    exact ⟨(h.1.transition hfirst htr).update KeepsShape.unloadAll, h.2⟩
  all_goals grind -ring -linarith [TxKept, FitClasses.filter]

theorem close_kept : ⦃fun s => ⌜TxKept t s⌝⦄ close ⦃keeps (TxKept t)⦄ := by
  have hDisconnect := @disconnect_kept t
  mvcgen [close, hDisconnect] invariants
  | inv1 => keeps (TxKept t)
  | inv2 => keeps (TxKept t)
  case isTrue.pre =>
    rename_i s h _ _ _
    exact TxKept.of_idle h.1 rfl

/-! ### Writing fields -/

theorem absorb_kept (fx : Effects) (e : HostEvent) :
    ⦃fun s => ⌜TxKept t s⌝⦄ absorb fx e ⦃keeps (TxKept t)⦄ := by
  have hUpdateManager := @updateManager_kept t
  cases e <;> mvcgen [absorb, recordRelation, hUpdateManager]
  exact KeepsShape.makeDirty _

theorem runWrapper_kept {α} (field : Nat) (manageRelations : Bool)
    (call : HostView → WrapperCall α) :
    ⦃fun s => ⌜TxKept t s⌝⦄ runWrapper id field manageRelations call ⦃keeps (TxKept t)⦄ := by
  have hEnsureLoaded := @ensureLoaded_kept t
  have hUpdateManager := @updateManager_kept t
  have hAbsorb := @absorb_kept t
  mvcgen [runWrapper, checkWritable, hEnsureLoaded, hUpdateManager, hAbsorb] invariants
  | inv1 => keeps (TxKept t)
  | inv2 => keeps (TxKept t)
  all_goals exact KeepsShape.restoreWrapper _ _

theorem applyInverse_kept (ch : RelationChange) :
    ⦃fun s => ⌜TxKept t s⌝⦄ applyInverse ch ⦃keeps (TxKept t)⦄ := by
  have hEnsureLoaded := @ensureLoaded_kept t
  have hRunWrapper := @runWrapper_kept t
  have hUpdateManager := @updateManager_kept t
  mvcgen [applyInverse, hEnsureLoaded, hRunWrapper, hUpdateManager]
  exact (KeepsShape.makeDirty _).comp (KeepsShape.install _ _)

theorem processEffects_kept (fx : Effects) :
    ⦃fun s => ⌜TxKept t s⌝⦄ processEffects fx ⦃keeps (TxKept t)⦄ := by
  have hApplyInverse := @applyInverse_kept t
  have hDeleteDependent := @deleteDependent_kept t
  have hFlush := @flush_kept t
  mvcgen [processEffects, hApplyInverse, hDeleteDependent, hFlush] invariants
  | inv1 => keeps (TxKept t)
  | inv2 => keeps (TxKept t)
  | inv3 => keeps (TxKept t)

theorem setField_kept (field : Nat) (data : FieldData) :
    ⦃fun s => ⌜TxKept t s⌝⦄ setField id field data ⦃keeps (TxKept t)⦄ := by
  have hEnsureLoaded := @ensureLoaded_kept t
  have hUpdateManager := @updateManager_kept t
  have hProcessEffects := @processEffects_kept t
  mvcgen [setField, checkWritable, hEnsureLoaded, hUpdateManager, hProcessEffects] invariants
  | inv1 => keeps (TxKept t)
  | inv2 => keeps (TxKept t)
  | inv3 => keeps (TxKept t)
  | inv4 => keeps (TxKept t)
  | inv5 => keeps (TxKept t)
  | inv6 => keeps (TxKept t)
  | inv7 => keeps (TxKept t)
  | inv8 => keeps (TxKept t)
  all_goals exact (KeepsShape.makeDirty _).comp (KeepsShape.install _ _)

theorem withWrapper_kept {α} (field : Nat) (call : HostView → WrapperCall α) :
    ⦃fun s => ⌜TxKept t s⌝⦄ withWrapper id field call ⦃keeps (TxKept t)⦄ := by
  have hRunWrapper := @runWrapper_kept t
  have hProcessEffects := @processEffects_kept t
  mvcgen [withWrapper, hRunWrapper, hProcessEffects]

/-! ### Detached copies -/

theorem detachInto_kept (fuel : Nat) (g : DetachedGraph) :
    ⦃fun s => ⌜TxKept t s⌝⦄ detachInto fuel id g ⦃keeps (TxKept t)⦄ := by
  induction fuel generalizing id g with
  | zero => mvcgen [detachInto]
  | succ fuel ih =>
    mvcgen [detachInto, ih] invariants
    | inv1 => keeps (TxKept t)

theorem detachCopy_kept : ⦃fun s => ⌜TxKept t s⌝⦄ detachCopy id ⦃keeps (TxKept t)⦄ := by
  have hDetachInto := @detachInto_kept t
  mvcgen [detachCopy, hDetachInto]

theorem detach_kept : ⦃fun s => ⌜TxKept t s⌝⦄ detach id ⦃keeps (TxKept t)⦄ := by
  have hFlush := @flush_kept t
  have hDetachCopy := @detachCopy_kept t
  have hTransition := @transition_kept t
  have hDisconnect := @disconnect_kept t
  mvcgen [detach, hFlush, hDetachCopy, hTransition, hDisconnect] invariants
  | inv1 => keeps (TxKept t)
  | inv2 => keeps (TxKept t)

theorem attachObject_kept (o : DetachedObject) :
    ⦃fun s => ⌜TxKept t s⌝⦄ attachObject o ⦃keeps (TxKept t)⦄ := by
  -- a new object's manager keeps one slot per field while the copy's fields are installed
  have hBindHollow := @bindHollow_kept t
  have hAdopt := @adopt_kept t
  have hMakePersistent := @makePersistent_kept t
  have hEnsureLoaded := @ensureLoaded_kept t
  have hUpdateManager := @updateManager_kept t
  have hWithWrapper := @withWrapper_kept t
  have hSetField := @setField_kept t
  mvcgen [attachObject, hBindHollow, hAdopt, hMakePersistent, hEnsureLoaded, hUpdateManager,
    hWithWrapper, hSetField] invariants
  | inv1 => keeps (TxKept t)
  | inv2 => keeps (TxKept t)
  | inv3 => post⟨fun p s => ⌜TxKept t s ∧ p.2.FitsClass⌝,
      fun _ s => ⌜TxKept t s⌝⟩
  | inv4 => keeps (TxKept t)
  | inv5 => keeps (TxKept t)
  with grind -ring -linarith [TxKept, KeepsShape, ManagedObject.FitsClass, ManagedObject.install_fields, ManagedObject.create_fitsClass,
    Datastore.Connection.run_explicit, Datastore.Connection.run_tables]

theorem attachCopy_kept (g : DetachedGraph) :
    ⦃fun s => ⌜TxKept t s⌝⦄ attachCopy g ⦃keeps (TxKept t)⦄ := by
  have hAttachObject := @attachObject_kept t
  mvcgen [attachCopy, hAttachObject] invariants
  | inv1 => keeps (TxKept t)
  | inv2 => keeps (TxKept t)

end Engine

/-! ### Public calls -/

open Std.Do Engine

variable {t : Datastore.Tables} {id : ObjectId}

theorem FieldCall.run_kept (field : Nat) (c : FieldCall) :
    ⦃fun s => ⌜TxKept t s⌝⦄ c.run id field ⦃keeps (TxKept t)⦄ := by
  have hWithWrapper := @withWrapper_kept t
  cases c <;> mvcgen [FieldCall.run, hWithWrapper]

/-- Every public call started inside the open transaction keeps the committed tables and the
managers' slots, whether it succeeds or fails partway. -/
theorem Call.run_kept (c : Call) :
    ⦃fun s => ⌜TxKept t s ∧ s.ctx.txActive = true⌝⦄ c.run ⦃keeps (TxKept t)⦄ := by
  have hSetProperty := @setProperty_kept t
  have hBegin := @begin_kept t
  have hCommit := @commit_kept t
  have hRollback := @rollback_kept t
  have hFlush := @flush_kept t
  have hClose := @close_kept t
  have hNewObject := @newObject_kept t
  have hPersist := @persist_kept t
  have hFind := @find_kept t
  have hReadField := @readField_kept t
  have hLoadRelations := @loadRelations_kept t
  have hSetField := @setField_kept t
  have hFieldCall := @FieldCall.run_kept t
  have hDelete := @delete_kept t
  have hDetach := @detach_kept t
  have hDetachCopy := @detachCopy_kept t
  have hAttachCopy := @attachCopy_kept t
  have hReachableFrom := @reachableFrom_kept t
  cases c <;> mvcgen [Call.run, hSetProperty, hBegin, hCommit, hRollback, hFlush, hClose,
    hNewObject, hPersist, hFind, hReadField, hLoadRelations, hSetField, hFieldCall, hDelete,
    hDetach, hDetachCopy, hAttachCopy, hReachableFrom]
  case begin =>
    -- inside the open transaction the committed tables are the ones it began from
    obtain ⟨h, hact⟩ := ‹TxKept t _ ∧ _›
    exact ⟨h, (h.2 hact).2⟩
  all_goals exact ‹TxKept t _ ∧ _›.1

/-! ### Runs inside a transaction -/

namespace Engine

theorem returns_run {α} {P Q R : EngineState → Prop} {x : Engine α}
    (h : ⦃fun s => ⌜P s⌝⦄ x ⦃ends Q R⦄) {s s' : EngineState} {a : α} (hs : P s)
    (hrun : (ExceptT.run x).run s = (.ok a, s')) : Q s' := by
  have h' := h s hs
  simp only [wp, ExceptT.run, PredTrans.apply_pushExcept, PredTrans.apply_pushArg] at h'
  change StateT.run x s = (.ok a, s') at hrun
  rw [hrun] at h'
  exact h'

end Engine

/-- Calls run one after another inside a transaction that stays open: each starts where the
one before stopped, returned or failed, with the transaction open. -/
inductive OpenRun : EngineState → EngineState → Prop
  | refl (s : EngineState) : OpenRun s s
  | call {s s' : EngineState} (c : Call) (hopen : s.ctx.txActive = true)
      (rest : OpenRun ((ExceptT.run c.run).run s).2 s') : OpenRun s s'

theorem OpenRun.kept {s s' : EngineState} (h : OpenRun s s') (hs : TxKept t s) : TxKept t s' := by
  induction h with
  | refl => exact hs
  | call c hopen _ ih => exact ih (Engine.keeps_run_of (Call.run_kept c) _ ⟨hs, hopen⟩)

end ObjectPersistence
