import Mathlib
import ObjectPersistence.Proofs.SoundWrites
import ObjectPersistence.Proofs.Ownership

/-! # Sessions keep their contexts sound

Every public call keeps the context it runs in sound, whether it succeeds or fails partway,
and opening a context adds one that manages nothing. So in every session reached from a fresh
one over classes that number their fields by position, the manager each context finds for an
object is sound, and every queued operation names a dirty owner and a container field of its
class. -/

set_option mvcgen.warning false

namespace ObjectPersistence

open Std.Do Engine EngineState

variable {id : ObjectId}

theorem FieldCall.run_keeps_sound (field : Nat) (c : FieldCall) :
    ⦃fun s => ⌜s.Sound⌝⦄ c.run id field ⦃keeps EngineState.Sound⦄ := by
  have hWith := @withWrapper_keeps_sound id
  have hAdd := @WrapperCall.add_tended
  have hAddAll := @WrapperCall.addAll_tended
  have hRemove := @WrapperCall.remove_tended
  have hRemoveAll := @WrapperCall.removeAll_tended
  have hRetainAll := @WrapperCall.retainAll_tended
  have hClear := @WrapperCall.clear_tended
  have hInsertAt := @WrapperCall.insertAt_tended
  have hSetAt := @WrapperCall.setAt_tended
  have hRemoveAt := @WrapperCall.removeAt_tended
  have hGet := @WrapperCall.get_tended
  have hPut := @WrapperCall.put_tended
  have hRemoveKey := @WrapperCall.removeKey_tended
  have hSetScalar := @WrapperCall.setScalar_tended
  have hAttach := @WrapperCall.attach_tended
  cases c <;> mvcgen [FieldCall.run, hWith, hAdd, hAddAll, hRemove, hRemoveAll, hRetainAll, hClear,
    hInsertAt, hSetAt, hRemoveAt, hGet, hPut, hRemoveKey, hSetScalar, hAttach]

theorem newObject_keeps_sound (className : String) :
    ⦃fun s => ⌜s.Sound⌝⦄ newObject className ⦃keeps EngineState.Sound⦄ :=
  Within.keeps_sound fun q => @newObject_sound _ q (fun _ => trivial) className

theorem find_keeps_sound (cls : String) (validate : Bool) :
    ⦃fun s => ⌜s.Sound⌝⦄ Engine.find cls id validate ⦃keeps EngineState.Sound⦄ :=
  Within.keeps_sound fun q => @find_sound _ q id trivial cls validate

theorem readField_keeps_sound (field : Nat) :
    ⦃fun s => ⌜s.Sound⌝⦄ readField id field ⦃keeps EngineState.Sound⦄ :=
  Within.keeps_sound fun q => @readField_sound _ q id (fun _ _ => trivial) field

theorem delete_keeps_sound : ⦃fun s => ⌜s.Sound⌝⦄ delete id ⦃keeps EngineState.Sound⦄ :=
  Within.keeps_sound fun q => @delete_sound _ q id (fun _ => trivial) (fun _ _ => trivial)
    fun _ _ _ _ _ => trivial

theorem detachCopy_keeps_sound : ⦃fun s => ⌜s.Sound⌝⦄ detachCopy id ⦃keeps EngineState.Sound⦄ := by
  have hDetachInto := fun x => @detachInto_keeps x EngineState.Sound
  mvcgen [detachCopy, hDetachInto]

theorem Call.run_keeps_sound (c : Call) :
    ⦃fun s => ⌜s.Sound⌝⦄ c.run ⦃keeps EngineState.Sound⦄ := by
  have hSetProperty := setProperty_keeps_sound
  have hBegin := begin_keeps_sound
  have hCommit := commit_keeps_sound
  have hRollback := rollback_keeps_sound
  have hFlush := flush_keeps_sound
  have hClose := close_keeps_sound
  have hNewObject := newObject_keeps_sound
  have hPersist := @persist_keeps_sound
  have hFind := @find_keeps_sound
  have hReadField := @readField_keeps_sound
  have hLoadRelations := @loadRelations_keeps_sound
  have hSetField := @setField_keeps_sound
  have hFieldCall := @FieldCall.run_keeps_sound
  have hDelete := @delete_keeps_sound
  have hDetach := @detach_keeps_sound
  have hDetachCopy := @detachCopy_keeps_sound
  have hAttachCopy := attachCopy_keeps_sound
  have hReachableFrom := @reachableFrom_keeps_sound
  cases c <;> mvcgen [Call.run, hSetProperty, hBegin, hCommit, hRollback, hFlush, hClose,
    hNewObject, hPersist, hFind, hReadField, hLoadRelations, hSetField, hFieldCall, hDelete,
    hDetach, hDetachCopy, hAttachCopy, hReachableFrom]

theorem ManagersKeep.empty {P : ManagedObject → Prop} : ManagersKeep P [] [] :=
  ⟨fun _ hm => absurd hm List.not_mem_nil, fun _ _ hm => by simp at hm,
    fun _ hop => absurd hop List.not_mem_nil⟩

namespace Session

/-- Every open context keeps its managers sound and its queue on dirty owners' container
fields, over a schema that numbers the fields of each class by position. -/
structure Sound (s : Session) : Prop where
  numbered : s.runtime.schema.Numbered
  contexts : ∀ e ∈ s.contexts, ManagersKeep ManagedObject.Sound e.ctx.objects e.ctx.queue

variable {s s' : Session}

theorem drop_schema (e : ContextEntry) : (s.drop e).runtime.schema = s.runtime.schema := by
  unfold drop
  dsimp only
  split <;> rfl

theorem Sound.create {schema : Schema} (h : schema.Numbered) (config : ContextConfig)
    (blockSize : Nat) : (create schema config blockSize).Sound :=
  ⟨h, fun _ he => absurd he List.not_mem_nil⟩

/-- A call in a context that keeps engine states sound keeps the session sound: the call's
own context is left sound, returning or failing, and the others are not touched. -/
theorem Sound.run {α} {name : String} {op : Engine α} {r : Except EngineError α}
    (hop : ⦃fun st => ⌜st.Sound⌝⦄ op ⦃keeps EngineState.Sound⦄)
    (h : s.Sound) (hrun : s.run name op = some (r, s')) : s'.Sound := by
  obtain ⟨e, d, st, he, -, hp, rfl⟩ := run_eq_some hrun
  have hpost := Engine.keeps_run_of hop { runtime := s.runtime, ctx := e.ctx, db := d.database }
    ⟨h.numbered, h.contexts e (List.mem_of_find?_eq_some he)⟩
  rw [hp] at hpost
  refine ⟨hpost.1, fun e' he' => ?_⟩
  simp only [List.mem_map] at he'
  obtain ⟨c, hc, rfl⟩ := he'
  split
  · exact hpost.2
  · exact h.contexts c hc

theorem Sound.openContext {name db : String} (h : s.Sound) (ho : s.openContext name db = .ok s') :
    s'.Sound := by
  unfold Session.openContext at ho
  have h₁ : (s.useDatabase db).Sound := ⟨by simpa using h.numbered, by simpa using h.contexts⟩
  generalize s.useDatabase db = s₁ at ho h₁
  dsimp only at ho
  split at ho
  · cases ho
    exact h₁
  split at ho
  · cases ho
  split at ho
  · cases ho
    refine ⟨by simpa [drop_schema] using h₁.numbered, fun e he => ?_⟩
    simp only [drop_contexts, setDatabase_contexts, List.mem_map] at he
    obtain ⟨c, hc, rfl⟩ := he
    split
    · exact ManagersKeep.empty
    · exact h₁.contexts c hc
  · cases ho
    refine ⟨h₁.numbered, fun e he => ?_⟩
    simp only [setDatabase_contexts, List.mem_append, List.mem_singleton] at he
    rcases he with he | rfl
    · exact h₁.contexts e he
    · exact ManagersKeep.empty

theorem Sound.steps (h : s.Sound) (l : List Step) : (s.steps l).Sound :=
  steps_keep (fun _ _ h ho => h.openContext ho)
    (fun _ c _ h hrun => h.run (Call.run_keeps_sound c) hrun) l h

end Session

/-- In every session reached from a fresh one over classes that number their fields by
position, whatever contexts were opened and whatever calls they made, returning or failing
partway, the manager each context finds for an object is sound (its bitmaps and slots have one
entry per field, dirty fields are loaded, a slot is loaded exactly when its bit says so, a
hollow manager has nothing loaded, a clean one nothing dirty, a dirty one some field dirty, no
manager is detached, and an object not deleted owns the wrappers in its slots), and every
queued operation names a dirty owner and a container field of its class. -/
theorem managers_sound_in_every_session (schema : Schema) (hschema : schema.Numbered)
    (config : ContextConfig) (blockSize : Nat) (l : List Session.Step) :
    ∀ e ∈ ((Session.create schema config blockSize).steps l).contexts,
      (∀ id m, e.ctx.objects.find? (·.id == id) = some m → m.Sound) ∧
      ∀ op ∈ e.ctx.queue, ∃ m, e.ctx.objects.find? (·.id == op.owner) = some m ∧ m.Takes op.field := by
  intro e he
  have hk := ((Session.Sound.create hschema config blockSize).steps l).contexts e he
  exact ⟨hk.managers, hk.queue⟩

theorem SampleModel.schema_numbered : SampleModel.schema.Numbered := by
  intro c hc
  simp only [SampleModel.schema, List.mem_cons, List.not_mem_nil, or_false] at hc
  rcases hc with rfl | rfl | rfl | rfl | rfl | rfl <;> exact ClassMeta.ofFields_numbered _ _ _

theorem sample_session_managers_sound :
    SampleModel.schema.Numbered ∧
      ∀ e ∈ ((Session.create SampleModel.schema {} 10).steps
        [.openContext "A" "main", .call "A" .begin, .call "A" (.newObject "Book"),
         .call "A" (.onField (ObjectId.fresh 0) 3 (.add (.text "novel")))]).contexts,
        (∀ id m, e.ctx.objects.find? (·.id == id) = some m → m.Sound) ∧
        ∀ op ∈ e.ctx.queue, ∃ m, e.ctx.objects.find? (·.id == op.owner) = some m ∧
          m.Takes op.field :=
  ⟨SampleModel.schema_numbered,
    managers_sound_in_every_session _ SampleModel.schema_numbered _ _ _⟩

end ObjectPersistence
