import Mathlib
import ObjectPersistence.Proofs.CommittedRead
import ObjectPersistence.SampleModel

/-! # Rolling a transaction back

A rollback that succeeds drops the queued container changes and the recorded relation
changes, ends the transaction on the connection, and goes once over the objects the context
manages. A transient object stays as it is; an object the context made persistent in the
transaction, new or marked as created in it, is let go; any other object is rolled back to
hollow with nothing loaded or dirty (`ManagedObject.rolledBack`). Since nothing the
transaction wrote reached the committed tables, the next read of a field of a rolled back
object loads what the tables held when the transaction began. -/

set_option mvcgen.warning false

namespace ObjectPersistence

namespace Datastore.Connection

variable {c : Connection} {db : Database}

theorem rollback_tables : (c.rollback db).2.tables = db.tables := by
  unfold rollback
  split
  · rfl
  · split <;> rfl

theorem rollback_snapshot (h : c.explicit = true) : (c.rollback db).1.snapshot = none := by
  simp [rollback, h]

end Datastore.Connection

/-! ### What a rollback makes of one manager -/

namespace LifecycleState

theorem step_rollback {s s' : LifecycleState} (h : s.step .rollback = some s')
    (ht : s ≠ .transient) (hn : s.isNew = false) : s' = .hollow := by
  cases s <;> cases h <;> simp_all [isNew]

end LifecycleState

namespace ManagedObject

variable {m m' : ManagedObject}

/-- What a rollback leaves of an object's manager: a transient one stays as it is, one made
persistent in the transaction (new, or marked as created in it) goes, and any other is hollow
with nothing loaded. -/
def rolledBack (m : ManagedObject) : Option ManagedObject :=
  if m.lifecycle = .transient then some m
  else if (m.lifecycle.isNew || m.createdInTx) = true then none
  else some { m with lifecycle := .hollow }.unloadAll

theorem rolledBack_of_transient (h : m.lifecycle = .transient) : m.rolledBack = some m :=
  if_pos h

theorem rolledBack_of_new (ht : m.lifecycle ≠ .transient)
    (hn : (m.lifecycle.isNew || m.createdInTx) = true) : m.rolledBack = none := by
  rw [rolledBack, if_neg ht, if_pos hn]

theorem rolledBack_of_kept (ht : m.lifecycle ≠ .transient)
    (hn : (m.lifecycle.isNew || m.createdInTx) = false) :
    m.rolledBack = some { m with lifecycle := .hollow }.unloadAll := by
  rw [rolledBack, if_neg ht, if_neg (by rw [hn]; exact Bool.false_ne_true)]

theorem unloadAll_unloadAll (m : ManagedObject) : m.unloadAll.unloadAll = m.unloadAll := by
  simp only [unloadAll, List.map_map, Function.comp_def]
  rfl

theorem rolledBack_rolledBack (h : m.rolledBack = some m') : m'.rolledBack = some m' := by
  unfold rolledBack at h
  split at h
  · cases h
    exact if_pos ‹_›
  split at h
  · cases h
  · cases h
    rename_i hnew
    have hcreated : m.createdInTx = false := (by simpa using hnew : _ ∧ _).2
    unfold rolledBack
    rw [if_neg (by simp [unloadAll]), if_neg (by simp [unloadAll, LifecycleState.isNew, hcreated])]
    exact congrArg some (unloadAll_unloadAll { m with lifecycle := .hollow })

theorem bind_rolledBack (o : Option ManagedObject) :
    (o.bind rolledBack).bind rolledBack = o.bind rolledBack := by
  cases o with
  | none => rfl
  | some m =>
    show m.rolledBack.bind rolledBack = m.rolledBack
    cases h : m.rolledBack with
    | none => rfl
    | some m' => exact rolledBack_rolledBack h

theorem rolledBack_hollow (h : m.rolledBack = some m') (ht : m'.lifecycle ≠ .transient) :
    m'.lifecycle = .hollow ∧ (∀ f, m'.loaded.get f = false) ∧ (∀ f, m'.dirty.get f = false) := by
  unfold rolledBack at h
  split at h
  · cases h
    exact absurd ‹_› ht
  split at h
  · cases h
  · cases h
    exact ⟨rfl, fun f => FieldBitmap.get_clearAll _ f, fun f => FieldBitmap.get_clearAll _ f⟩

theorem rolledBack_fitsClass (h : m.rolledBack = some m') (hm : m.FitsClass) : m'.FitsClass := by
  unfold rolledBack at h
  split at h
  · cases h
    exact hm
  split at h
  · cases h
  · cases h
    exact KeepsShape.unloadAll.fitsClass hm

end ManagedObject

/-! ### The loop over the managed objects -/

/-- The first manager of each object of `done` is what a rollback makes of its first manager
among `objs₀`; the others are still those of `objs₀`. -/
def RolledBackUpTo (objs₀ : List ManagedObject) (done : List ObjectId)
    (objs : List ManagedObject) : Prop :=
  ∀ j, objs.find? (·.id == j) =
    if j ∈ done then (objs₀.find? (·.id == j)).bind ManagedObject.rolledBack
    else objs₀.find? (·.id == j)

namespace RolledBackUpTo

variable {objs₀ objs objs' : List ManagedObject} {done : List ObjectId} {cur : ObjectId}

theorem start : RolledBackUpTo objs₀ [] objs₀ := fun _ => by simp

/-- One more object rolled back: its first manager is what a rollback makes of it, and no
other object's first manager changed. -/
theorem step (h : RolledBackUpTo objs₀ done objs)
    (hcur : objs'.find? (·.id == cur) = (objs.find? (·.id == cur)).bind ManagedObject.rolledBack)
    (hother : ∀ j, j ≠ cur → objs'.find? (·.id == j) = objs.find? (·.id == j)) :
    RolledBackUpTo objs₀ (done ++ [cur]) objs' := by
  intro j
  by_cases hj : j = cur
  · subst hj
    rw [hcur, h j, if_pos (List.mem_append_right _ (List.mem_singleton_self _))]
    split
    · exact ManagedObject.bind_rolledBack _
    · rfl
  · rw [hother j hj, h j]
    simp [hj]

theorem skip (h : RolledBackUpTo objs₀ done objs)
    (hcur : (objs.find? (·.id == cur)).bind ManagedObject.rolledBack = objs.find? (·.id == cur)) :
    RolledBackUpTo objs₀ (done ++ [cur]) objs :=
  h.step hcur.symm fun _ _ => rfl

theorem drop {m : ManagedObject} (h : RolledBackUpTo objs₀ done objs)
    (hm : objs.find? (·.id == cur) = some m) (hrb : m.rolledBack = none) :
    RolledBackUpTo objs₀ (done ++ [cur]) (objs.filter (·.id != cur)) := by
  refine h.step ?_ fun j hj => FirstManagers.find?_filter_ne hj
  rw [FirstManagers.find?_filter_self, hm, Option.bind_some, hrb]

theorem hollow {m a : ManagedObject} (h : RolledBackUpTo objs₀ done objs)
    (hm : objs.find? (·.id == cur) = some m) (ht : m.lifecycle ≠ .transient)
    (hn : (m.lifecycle.isNew || m.createdInTx) = false) (htr : m.transition .rollback = .ok a) :
    RolledBackUpTo objs₀ (done ++ [cur])
      ((objs.map (updateAt cur fun _ => a)).map (updateAt cur ManagedObject.unloadAll)) := by
  obtain ⟨hstep, ha⟩ := ManagedObject.transition_eq_ok htr
  have hhollow : a.lifecycle = .hollow :=
    LifecycleState.step_rollback hstep ht (Bool.or_eq_false_iff.1 hn).1
  have hid : ∀ m₁ : ManagedObject, m₁.id = cur → a.id = cur := fun _ _ => by
    rw [ha]
    exact (id_of_find? hm : m.id = cur)
  have hid' : ∀ m₁ : ManagedObject, m₁.id = cur → m₁.unloadAll.id = cur := fun _ h => h
  refine h.step ?_ fun j hj => ?_
  · rw [find?_updateAt hid', if_pos rfl, find?_updateAt hid, if_pos rfl, hm, Option.bind_some,
      ManagedObject.rolledBack_of_kept ht hn, ha, hhollow]
    rfl
  · rw [find?_updateAt hid', if_neg hj, find?_updateAt hid, if_neg hj]

/-- Once every object of `objs₀` is rolled back, each first manager is what a rollback makes of
the one among `objs₀`. -/
theorem finish (h : RolledBackUpTo objs₀ (objs₀.map (·.id)) objs) (j : ObjectId) :
    objs.find? (·.id == j) = (objs₀.find? (·.id == j)).bind ManagedObject.rolledBack := by
  rw [h j]
  split
  · rfl
  · rename_i hj
    have hnone : objs₀.find? (·.id == j) = none := by
      rw [List.find?_eq_none]
      intro m hm hmj
      exact hj (List.mem_map.2 ⟨m, hm, by simpa using hmj⟩)
    rw [hnone]
    rfl

end RolledBackUpTo

/-! ### A rollback that succeeds -/

/-- What a rollback that succeeds leaves, from the state `s` it started in: it started inside a
transaction; nothing is queued or recorded and no transaction is open; the connection has
rolled back; and the first manager of each object is what a rollback makes of it. -/
structure RolledBack (s s' : EngineState) : Prop where
  was_open : s.ctx.txActive = true
  queue : s'.ctx.queue = []
  relations : s'.ctx.relations = []
  idle : s'.ctx.txActive = false
  conn : s'.ctx.backend.conn = (s.ctx.backend.conn.rollback s.db).1
  db : s'.db = (s.ctx.backend.conn.rollback s.db).2
  objects : ∀ j, s'.ctx.objects.find? (·.id == j) =
    (s.ctx.objects.find? (·.id == j)).bind ManagedObject.rolledBack

/-- What the loop of a rollback keeps apart from the managers: nothing queued or recorded, no
transaction, and the connection and database it started with. -/
def RollbackFrame (s s' : EngineState) : Prop :=
  s'.ctx.queue = [] ∧ s'.ctx.relations = [] ∧ s'.ctx.txActive = false ∧
    s'.ctx.backend.conn = s.ctx.backend.conn ∧ s'.db = s.db

namespace Engine

open Std.Do

theorem rollback_rolledBack (s₀ : EngineState) :
    ⦃fun s => ⌜s = s₀⌝⦄ rollback ⦃ends (RolledBack s₀) fun _ => True⦄ := by
  mvcgen [rollback, disconnect, transition, updateManager] invariants
  | inv1 => post⟨fun p s => ⌜s₀.ctx.txActive = true ∧
      RolledBackUpTo s₀.ctx.objects ( List.Cursor.prefix p.1) s.ctx.objects ∧ RollbackFrame s₀ s⌝,
      fun _ _ => ⌜True⌝⟩
  case step.h_1.isTrue =>
    rename_i cur _ _ _ s h m hm ht
    refine ⟨h.1, h.2.1.skip ?_, h.2.2⟩
    rw [hm, Option.bind_some, ManagedObject.rolledBack_of_transient (by simpa using ht)]
  case step.h_1.isFalse.isTrue.isTrue =>
    rename_i cur _ _ _ s h m hm ht hn _ _
    refine ⟨h.1, h.2.1.drop hm (ManagedObject.rolledBack_of_new (by simpa using ht) hn), ?_⟩
    grind [RollbackFrame]
  case step.h_1.isFalse.isTrue.isFalse =>
    rename_i hm _ _ hnone
    simp [hm] at hnone
  case step.h_1.isFalse.isFalse.h_1.h_1 =>
    rename_i cur _ _ _ s h m₁ hm₁ ht hn m hm a htr _ _
    obtain rfl : m₁ = m := Option.some.inj (hm₁.symm.trans hm)
    exact ⟨h.1, h.2.1.hollow hm (by simpa using ht) (by simpa using hn) htr, h.2.2⟩
  case step.h_2 =>
    rename_i cur _ _ _ s h o hnone hm
    refine ⟨h.1, h.2.1.skip ?_, h.2.2⟩
    cases o with
    | none => rw [hm]; rfl
    | some m => exact absurd rfl (hnone m)
  case isFalse.pre =>
    rename_i s hs _ hopen _
    subst hs
    exact ⟨by simpa using hopen, .start, rfl, rfl, rfl, rfl, rfl⟩
  case isFalse.post.success =>
    rename_i s' hs _ _ _ _ s h
    subst hs
    obtain ⟨hopen, hdone, hq, hr, hi, hc, hd⟩ := h
    exact ⟨hopen, hq, hr, hi, by rw [hc, hd], by rw [hc, hd], hdone.finish⟩

end Engine

/-! ### A transaction rolled back -/

theorem OpenRun.agree {v : RegistryView} {s s' : EngineState} (h : OpenRun s s')
    (hs : OwnersAgree v s) : OwnersAgree v s' := by
  induction h with
  | refl => exact hs
  | call c _ _ ih => exact ih (Engine.keeps_run_of (Call.run_agree c) _ hs)

/-- An object the context held and manages no more is owned by no context: the registry gave
it to this context alone. -/
theorem OwnersAgree.ownerOf_eq_none {v : RegistryView} {s s' : EngineState} {j : ObjectId}
    (h : OwnersAgree v s) (h' : OwnersAgree v s') (hheld : Holding s.ctx.objects j)
    (hgone : s'.ctx.objects.find? (·.id == j) = none) : s'.runtime.ownerOf j = none := by
  rw [Runtime.ownerOf_eq_none_iff]
  intro c hc
  by_cases hcv : c = v.ctx
  · subst hcv
    obtain ⟨m, hm, hmj, -⟩ := (h'.own j).1 hc
    exact List.find?_eq_none.1 hgone m hm (by simp [hmj])
  · -- another context's claim on the object was there already, next to this context's own
    have hmine := (h.own j).2 hheld
    have hother := (h.others j c hcv).2 ((h'.others j c hcv).1 hc)
    have := List.inj_on_of_nodup_map h.keys hmine hother rfl
    exact hcv (Prod.mk.inj this).2.symm

/-- What a rollback that succeeds leaves of a transaction begun in `s₀` and rolled back from
`s₁`, for the first manager of each object. -/
structure RestoredFrom (s₀ s₁ s₂ : EngineState) : Prop where
  queue : s₂.ctx.queue = []
  relations : s₂.ctx.relations = []
  /-- An object the context made persistent in the transaction is let go. -/
  released : ∀ j m, s₁.ctx.objects.find? (·.id == j) = some m → m.lifecycle ≠ .transient →
    (m.lifecycle.isNew || m.createdInTx) = true →
    s₂.ctx.objects.find? (·.id == j) = none ∧ s₂.runtime.ownerOf j = none
  transient : ∀ j m, s₁.ctx.objects.find? (·.id == j) = some m → m.lifecycle = .transient →
    s₂.ctx.objects.find? (·.id == j) = some m
  hollow : ∀ j m, s₂.ctx.objects.find? (·.id == j) = some m → m.lifecycle ≠ .transient →
    m.lifecycle = .hollow ∧ (∀ f, m.loaded.get f = false) ∧ (∀ f, m.dirty.get f = false)
  /-- Reading a field of any other object loads what the tables held when the transaction
  began. -/
  reads : ∀ j m, s₂.ctx.objects.find? (·.id == j) = some m → m.lifecycle ≠ .transient →
    ∀ field, ((ExceptT.run (Engine.readField j field)).run s₂).1 =
      Engine.committedRead s₀.db.tables j m.cls field

def idleSample : EngineState :=
  { runtime := { schema := SampleModel.schema, generators := { blockSize := 10 } },
    ctx := Context.create 0 {} { id := 0 },
    db := {} }

end ObjectPersistence
