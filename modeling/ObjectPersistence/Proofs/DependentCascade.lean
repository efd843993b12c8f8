import Mathlib
import ObjectPersistence.Proofs.Ownership
import ObjectPersistence.Proofs.WrapperRefinement
import ObjectPersistence.SampleModel

/-! # When a dependent element is deleted

A container field that owns its elements deletes an element that leaves it. With queued
updates off the wrapper asks for the delete at once, in the call that takes the element out;
with queueing on, a removal from a collection only queues an operation, and the flush, when it
applies that operation, deletes the element unless the field holds it again by then. Map
values are the exception: the queued operation names the key alone, so a dependent value is
deleted by the call that replaces or removes it, queued or not.

This module proves the queued half: no call on a collection wrapper asks for a delete in
queued mode, and applying a queue whose cascading removals all name elements their fields
still hold leaves every managed object as it was. The immediate half is shown by a session
that removes a dependent chapter and adds it back, and one that does the same with a shelf
kept as a map value in queued mode: in both the object is gone after the flush while the field
holds it. -/

set_option mvcgen.warning false

namespace ObjectPersistence

open Std.Do

namespace WrapperCall

/-! ### Calls on a collection in queued mode -/

def Defers (st : Wrapper × List HostEvent) : Prop :=
  (∃ k xs, st.1.content = .collection k xs) ∧ ∀ v, HostEvent.deleteDependent v ∉ st.2

abbrev defers {α} : PostCond α (.except EngineError (.arg (Wrapper × List HostEvent) .pure)) :=
  post⟨fun _ s => ⌜Defers s⌝, fun _ s => ⌜Defers s⌝⟩

theorem exec_keeps {α} {P : Wrapper × List HostEvent → Prop} {x : WrapperCall α}
    (h : ⦃fun s => ⌜P s⌝⦄ x ⦃post⟨fun _ s => ⌜P s⌝, fun _ s => ⌜P s⌝⟩⦄)
    (st : Wrapper × List HostEvent) (hs : P st) : P (x.exec st).2 := by
  have h' := h st hs
  simp only [wp, ExceptT.run, PredTrans.apply_pushExcept, PredTrans.apply_pushArg] at h'
  change P (StateT.run x st).2
  rcases hr : StateT.run x st with ⟨r, st'⟩
  rw [hr] at h'
  cases r <;> exact h'

theorem Defers.emit {st : Wrapper × List HostEvent} (hs : Defers st) {ev : HostEvent}
    (hev : ∀ v, ev ≠ .deleteDependent v) : Defers (st.1, st.2 ++ [ev]) := by
  refine ⟨hs.1, fun v hv => ?_⟩
  rcases List.mem_append.1 hv with hv | hv
  · exact hs.2 v hv
  · exact hev v (List.mem_singleton.1 hv).symm

theorem discard_eq {α} (x : WrapperCall α) : discard x = (do let _ ← x; pure ()) := by
  simp only [discard, Functor.mapConst, Function.comp_def]
  rfl

@[spec] theorem discard_spec {α} (x : WrapperCall α)
    (Q : PostCond PUnit (.except EngineError (.arg (Wrapper × List HostEvent) .pure))) :
    ⦃wp⟦x⟧ (fun _ => Q.1 ⟨⟩, Q.2)⦄ discard x ⦃Q⦄ := by
  rw [discard_eq]
  mvcgen

theorem forM_defers {α} {f : α → WrapperCall PUnit} (hf : ∀ a, ⦃fun s => ⌜Defers s⌝⦄ f a ⦃defers⦄) :
    ∀ l : List α, ⦃fun s => ⌜Defers s⌝⦄ l.forM f ⦃defers⦄
  | [] => by
    mvcgen [List.forM]
  | a :: l => by
    have hHead := hf a
    have hTail := forM_defers hf l
    mvcgen [List.forM, hHead, hTail]

variable {h : HostView}

theorem entries_defers : ⦃fun s => ⌜Defers s⌝⦄ entries ⦃post⟨fun _ _ => ⌜False⌝, fun _ s => ⌜Defers s⌝⟩⦄ := by
  mvcgen [entries, wrapper]
  all_goals simp_all [Defers]

theorem cascadeRemoval_defers (hq : h.queued = true) (o : FieldOwner) (p : Payload) (e : Value)
    (ac : Bool) : ⦃fun s => ⌜Defers s⌝⦄ cascadeRemoval h o p e ac ⦃defers⦄ := by
  mvcgen [cascadeRemoval, emit]
  all_goals exact (‹Defers _›).emit (by simp)

theorem removeRound_defers (hq : h.queued = true) (o : FieldOwner) (ac any : Bool) (e : Value) :
    ⦃fun s => ⌜Defers s⌝⦄ removeRound h o ac any e ⦃defers⦄ := by
  have hCascade := @cascadeRemoval_defers h hq
  mvcgen [removeRound, sequence, wrapper, setContent, emit, hCascade]
  all_goals simp_all +zetaDelta [Defers]

theorem removeEach_defers (hq : h.queued = true) (o : FieldOwner) (es : List Value) (ac : Bool) :
    ⦃fun s => ⌜Defers s⌝⦄ removeEach h o es ac ⦃defers⦄ := by
  have hRound := @removeRound_defers h hq o ac
  mvcgen [removeEach, hRound] invariants
  | inv1 => defers
  all_goals exact id

theorem insertRound_defers (o : FieldOwner) (any : Bool) (e : Value) :
    ⦃fun s => ⌜Defers s⌝⦄ insertRound h o any e ⦃defers⦄ := by
  mvcgen [insertRound, sequence, wrapper, setContent, emit]
  all_goals simp_all +zetaDelta [Defers]

theorem insertEach_defers (o : FieldOwner) (es : List Value) :
    ⦃fun s => ⌜Defers s⌝⦄ insertEach h o es ⦃defers⦄ := by
  have hRound := @insertRound_defers h o
  mvcgen [insertEach, hRound] invariants
  | inv1 => defers
  all_goals exact id

theorem releaseAll_defers (hq : h.queued = true) (o : FieldOwner) (es : List Value) :
    ⦃fun s => ⌜Defers s⌝⦄ releaseAll h o es ⦃defers⦄ := by
  have hCascade := @cascadeRemoval_defers h hq
  refine forM_defers (fun e => ?_) es
  mvcgen [releaseOne, emit, hCascade]
  all_goals simp_all +zetaDelta [Defers]

theorem changed_defers (o : FieldOwner) : ⦃fun s => ⌜Defers s⌝⦄ changed h o ⦃defers⦄ := by
  mvcgen [changed, emit]
  all_goals simp_all +zetaDelta [Defers]

theorem checks_defers (es : List Value) :
    ⦃fun s => ⌜Defers s⌝⦄ es.forM checkNullable ⦃defers⦄ := by
  refine forM_defers (fun e => ?_) es
  mvcgen [checkNullable, wrapper]

theorem addAll_defers (es : List Value) : ⦃fun s => ⌜Defers s⌝⦄ addAll h es ⦃defers⦄ := by
  have hInsertEach := @insertEach_defers h
  have hChanged := @changed_defers h
  have hChecks := @checks_defers
  mvcgen [addAll, sequence, wrapper, bound, hInsertEach, hChanged, hChecks]

theorem add_defers (e : Value) : ⦃fun s => ⌜Defers s⌝⦄ add h e ⦃defers⦄ := by
  have hInsertEach := @insertEach_defers h
  have hChanged := @changed_defers h
  mvcgen [add, sequence, wrapper, bound, checkNullable, hInsertEach, hChanged]

theorem remove_defers (hq : h.queued = true) (e : Value) (ac : Bool) :
    ⦃fun s => ⌜Defers s⌝⦄ remove h e ac ⦃defers⦄ := by
  have hRemoveEach := @removeEach_defers h hq
  have hChanged := @changed_defers h
  mvcgen [remove, sequence, wrapper, bound, hRemoveEach, hChanged]

theorem removeAll_defers (hq : h.queued = true) (es : List Value) :
    ⦃fun s => ⌜Defers s⌝⦄ removeAll h es ⦃defers⦄ := by
  have hRemoveEach := @removeEach_defers h hq
  have hChanged := @changed_defers h
  mvcgen [removeAll, sequence, wrapper, bound, hRemoveEach, hChanged]

theorem retainAll_defers (hq : h.queued = true) (keep : List Value) :
    ⦃fun s => ⌜Defers s⌝⦄ retainAll h keep ⦃defers⦄ := by
  have hRemoveEach := @removeEach_defers h hq
  have hChanged := @changed_defers h
  mvcgen [retainAll, sequence, wrapper, bound, hRemoveEach, hChanged]

theorem clear_defers (hq : h.queued = true) : ⦃fun s => ⌜Defers s⌝⦄ clear h ⦃defers⦄ := by
  have hReleaseAll := @releaseAll_defers h hq
  have hChanged := @changed_defers h
  mvcgen [clear, sequence, wrapper, bound, setContent, hReleaseAll, hChanged]
  all_goals simp_all +zetaDelta [Defers]

theorem attachCollection_defers (hq : h.queued = true) (detached : List Value) :
    ⦃fun s => ⌜Defers s⌝⦄ attachCollection h detached ⦃defers⦄ := by
  have hRemoveEach := @removeEach_defers h hq
  have hAddAll := @addAll_defers h
  have hChanged := @changed_defers h
  mvcgen [attachCollection, sequence, wrapper, bound, hRemoveEach, hAddAll, hChanged]

theorem insertAt_defers (i : Nat) (e : Value) : ⦃fun s => ⌜Defers s⌝⦄ insertAt h i e ⦃defers⦄ := by
  have hChanged := @changed_defers h
  mvcgen [insertAt, listItems, wrapper, bound, checkNullable, setContent, emit, hChanged]
  all_goals simp_all +zetaDelta [Defers]

theorem setAt_defers (hq : h.queued = true) (i : Nat) (e : Value) (ac : Bool) :
    ⦃fun s => ⌜Defers s⌝⦄ setAt h i e ac ⦃defers⦄ := by
  have hChanged := @changed_defers h
  mvcgen [setAt, listItems, wrapper, bound, checkNullable, setContent, emit, hChanged]
  all_goals simp_all +zetaDelta [Defers]

theorem removeAt_defers (hq : h.queued = true) (i : Nat) :
    ⦃fun s => ⌜Defers s⌝⦄ removeAt h i ⦃defers⦄ := by
  have hCascade := @cascadeRemoval_defers h hq
  have hChanged := @changed_defers h
  mvcgen [removeAt, listItems, wrapper, bound, setContent, emit, hCascade, hChanged]
  all_goals simp_all +zetaDelta [Defers]

theorem get_defers (i : Nat) : ⦃fun s => ⌜Defers s⌝⦄ get i ⦃defers⦄ := by
  mvcgen [get, listItems, wrapper]

theorem put_defers (k v : Value) : ⦃fun s => ⌜Defers s⌝⦄ put h k v ⦃defers⦄ := by
  have hEntries := @entries_defers
  mvcgen [put, hEntries]

theorem putAll_defers (kvs : List (Value × Value)) : ⦃fun s => ⌜Defers s⌝⦄ putAll h kvs ⦃defers⦄ := by
  have hEntries := @entries_defers
  mvcgen [putAll, hEntries]

theorem removeKey_defers (k : Value) : ⦃fun s => ⌜Defers s⌝⦄ removeKey h k ⦃defers⦄ := by
  have hEntries := @entries_defers
  mvcgen [removeKey, hEntries]

theorem retainKeys_defers (keep : List Value) : ⦃fun s => ⌜Defers s⌝⦄ retainKeys h keep ⦃defers⦄ := by
  have hEntries := @entries_defers
  mvcgen [retainKeys, hEntries]

theorem setScalar_defers (v : Value) : ⦃fun s => ⌜Defers s⌝⦄ setScalar h v ⦃defers⦄ := by
  mvcgen [setScalar, wrapper]
  all_goals simp_all [Defers]

theorem attach_defers (hq : h.queued = true) (d : FieldData) :
    ⦃fun s => ⌜Defers s⌝⦄ attach h d ⦃defers⦄ := by
  have hAttachCollection := @attachCollection_defers h hq
  mvcgen [attach, wrapper, hAttachCollection]
  all_goals simp_all [Defers]

theorem onWrapper_defers (hq : h.queued = true) (c : ScoCall) :
    ⦃fun s => ⌜Defers s⌝⦄ c.onWrapper h ⦃defers⦄ := by
  have hAdd := @add_defers h
  have hAddAll := @addAll_defers h
  have hRemove := @remove_defers h hq
  have hRemoveAll := @removeAll_defers h hq
  have hRetainAll := @retainAll_defers h hq
  have hClear := @clear_defers h hq
  have hInsertAt := @insertAt_defers h
  have hSetAt := @setAt_defers h hq
  have hRemoveAt := @removeAt_defers h hq
  have hGet := @get_defers
  have hPut := @put_defers h
  have hPutAll := @putAll_defers h
  have hRemoveKey := @removeKey_defers h
  have hRetainKeys := @retainKeys_defers h
  have hSetScalar := @setScalar_defers h
  cases c <;> mvcgen [ScoCall.onWrapper, hAdd, hAddAll, hRemove, hRemoveAll, hRetainAll, hClear,
    hInsertAt, hSetAt, hRemoveAt, hGet, hPut, hPutAll, hRemoveKey, hRetainKeys, hSetScalar]

theorem onWrapper_spares (hq : h.queued = true) (c : ScoCall) {w : Wrapper} {k : CollectionKind}
    {xs : List Value} (hw : w.content = .collection k xs) (v : Value) :
    HostEvent.deleteDependent v ∉ ((c.onWrapper h).run w).2.1 :=
  (exec_keeps (onWrapper_defers hq c) (w, []) ⟨⟨k, xs, hw⟩, fun _ => List.not_mem_nil⟩).2 v

theorem attach_spares (hq : h.queued = true) (d : FieldData) {w : Wrapper} {k : CollectionKind}
    {xs : List Value} (hw : w.content = .collection k xs) (v : Value) :
    HostEvent.deleteDependent v ∉ ((attach h d).run w).2.1 :=
  (exec_keeps (attach_defers hq d) (w, []) ⟨⟨k, xs, hw⟩, fun _ => List.not_mem_nil⟩).2 v

end WrapperCall

namespace Engine

/-! ### Applying the queue -/

/-- Every removal in `queue` that may cascade, of an element its field owns, names an element
the owner's field among `objects` holds again. -/
def CascadesHeld (queue : List Operation) (objects : List ManagedObject) : Prop :=
  ∀ op ∈ queue, (op.kind == .remove && op.allowCascade) = true →
    ∀ m, objects.find? (·.id == op.owner) = some m →
      ∀ fm, m.cls.member op.field = .ok fm →
        ∀ t, removedDependent fm.policy op.payload = some t →
          (m.wrapper? op.field).any (·.contains (.ref t)) = true

def HeldAt (objs : List ManagedObject) (s : EngineState) : Prop :=
  s.ctx.objects = objs ∧ CascadesHeld s.ctx.queue objs

theorem CascadesHeld.tail {queue : List Operation} {objs : List ManagedObject}
    (h : CascadesHeld queue objs) : CascadesHeld queue.tail objs :=
  fun op hop => h op (List.mem_of_mem_tail hop)

theorem CascadesHeld.head {queue : List Operation} {objs : List ManagedObject}
    (h : CascadesHeld queue objs) {op : Operation} (hop : queue.head? = some op)
    (hk : (op.kind == .remove && op.allowCascade) = true) {m : ManagedObject}
    (hm : objs.find? (·.id == op.owner) = some m) {fm : FieldMeta}
    (hfm : m.cls.member op.field = .ok fm) {t : ObjectId}
    (ht : removedDependent fm.policy op.payload = some t) :
    (m.wrapper? op.field).any (·.contains (.ref t)) = true :=
  h op (List.mem_of_mem_head? hop) hk m hm fm hfm t ht

theorem storeApply_held (objs : List ManagedObject) (op : Operation) (cls : ClassMeta) :
    ⦃fun s => ⌜HeldAt objs s⌝⦄ storeApply op cls ⦃keeps (HeldAt objs)⦄ := by
  mvcgen [storeApply]

theorem applyQueue_held (objs : List ManagedObject) (fuel applied : Nat) :
    ⦃fun s => ⌜HeldAt objs s⌝⦄ applyQueue fuel applied ⦃keeps (HeldAt objs)⦄ := by
  induction fuel generalizing applied with
  | zero => mvcgen [applyQueue]
  | succ fuel ih =>
    have hStore := @storeApply_held objs
    mvcgen [applyQueue, ih, hStore]
    case vc2.succ.h_1.h_1.isFalse.h_1.isTrue.h_1.h_1.h_1.isTrue =>
      -- the flush would delete here only if the field no longer held the element
      rename_i s hs op hhead _ m hm _ _ _ _ _ t _ hk fm hfm _ tgt htgt m' hm' _ hnot
      have hsame : t.2.ctx.objects = s.ctx.objects := rfl
      rw [hsame, hm] at hm'
      cases hm'
      have hheld := hs.2.head hhead hk (hs.1 ▸ hm) hfm htgt
      change (!(m.wrapper? op.field).any (·.contains (.ref tgt))) = true at hnot
      rw [hheld] at hnot
      exact absurd hnot Bool.false_ne_true
    all_goals simp_all +zetaDelta [HeldAt, CascadesHeld.tail]

/-- Applying a queue whose cascading removals all name elements held again changes no managed
object, so deletes none. -/
theorem applyQueue_keeps_objects (fuel applied : Nat) (s : EngineState)
    (h : CascadesHeld s.ctx.queue s.ctx.objects) :
    ((ExceptT.run (applyQueue fuel applied)).run s).2.ctx.objects = s.ctx.objects :=
  (Engine.keeps_run_of (applyQueue_held s.ctx.objects fuel applied) s ⟨rfl, h⟩).1

end Engine

/-! ### The claim -/

/-- With queued updates active, taking a dependent element out of a collection only queues its
removal: no call on a collection wrapper, nor an attach, asks for a delete. Applying the queue
then deletes nothing while every cascading removal in it names an element its field holds
again. -/
theorem queued_removal_waits_for_flush (h : HostView) (hq : h.queued = true) (s : EngineState)
    (hheld : Engine.CascadesHeld s.ctx.queue s.ctx.objects) :
    (∀ (c : ScoCall) (w : Wrapper) (k : CollectionKind) (xs : List Value),
      w.content = .collection k xs → ∀ v, HostEvent.deleteDependent v ∉ ((c.onWrapper h).run w).2.1) ∧
    (∀ (d : FieldData) (w : Wrapper) (k : CollectionKind) (xs : List Value),
      w.content = .collection k xs →
        ∀ v, HostEvent.deleteDependent v ∉ ((WrapperCall.attach h d).run w).2.1) ∧
    ∀ fuel applied : Nat,
      ((ExceptT.run (Engine.applyQueue fuel applied)).run s).2.ctx.objects = s.ctx.objects :=
  ⟨fun c _ _ _ hw => WrapperCall.onWrapper_spares hq c hw,
    fun d _ _ _ hw => WrapperCall.attach_spares hq d hw,
    fun fuel applied => Engine.applyQueue_keeps_objects fuel applied s hheld⟩

def heldChapters : Wrapper :=
  ⟨some ⟨⟨1⟩, 2⟩, { dependentElements := true }, .collection .list [.ref ⟨2⟩]⟩

/-- A dirty book whose dependent chapters hold chapter 2 again, with the cascading removal of
chapter 2 still queued. -/
def requeuedChapter : EngineState :=
  { runtime := { schema := SampleModel.schema, generators := { blockSize := 10 } },
    ctx := { (Context.create 0 { queuedUpdates := true } { id := 0 }) with
      objects := [(ManagedObject.create ⟨1⟩ SampleModel.book .persistentDirty).install 2
        (.wrapper heldChapters)],
      queue := [Operation.remove ⟨1⟩ 2 (.element (.ref ⟨2⟩)) true] },
    db := {} }

theorem requeuedChapter_held :
    Engine.CascadesHeld requeuedChapter.ctx.queue requeuedChapter.ctx.objects := by
  intro op hop hk m hm fm hfm t ht
  simp only [requeuedChapter, List.mem_singleton] at hop hm
  subst hop
  rw [List.find?_singleton] at hm
  split at hm
  · cases hm
    -- the queued payload names chapter 2, which the book's chapters hold
    simp only [Operation.remove, Engine.removedDependent, Value.refId?] at ht
    split at ht
    · cases ht
      decide +kernel
    · cases ht
  · cases hm

theorem queued_chapter_removal_waits :
    HostEvent.deleteDependent (.ref ⟨2⟩) ∉
        (((ScoCall.remove (.ref ⟨2⟩) true).onWrapper ⟨true, true, true⟩).run heldChapters).2.1 ∧
      HostEvent.deleteDependent (.ref ⟨2⟩) ∉
        ((WrapperCall.attach ⟨true, true, true⟩ (.collection [])).run heldChapters).2.1 ∧
      ((ExceptT.run (Engine.applyQueue 1 0)).run requeuedChapter).2.ctx.objects =
        requeuedChapter.ctx.objects := by
  obtain ⟨hcalls, hattach, happly⟩ :=
    queued_removal_waits_for_flush ⟨true, true, true⟩ rfl requeuedChapter requeuedChapter_held
  exact ⟨hcalls _ heldChapters .list [.ref ⟨2⟩] rfl _, hattach _ heldChapters .list [.ref ⟨2⟩] rfl _,
    happly 1 0⟩

/-! ### Deletes that do not wait -/

namespace Session

def fieldIn (s : Session) (ctx : String) (id : ObjectId) (f : Nat) : Option FieldData :=
  (s.context? ctx).bind fun e => (e.ctx.objects.find? (·.id == id)).bind (·.fieldData f)

def lifecycleIn (s : Session) (ctx : String) (id : ObjectId) : Option LifecycleState :=
  (s.context? ctx).bind fun e => (e.ctx.objects.find? (·.id == id)).map (·.lifecycle)

end Session

/-- Removing a dependent object and putting it back does not save it. With queued updates off,
a chapter taken out of its book and added again is deleted at once, and the flush drops it
while the book still lists it. With queueing on, a shelf kept as a library's map value and put
back under its key after the key was removed is deleted too, and the flush drops it while the
map still holds it. -/
theorem dependent_deleted_though_held_again :
    (let book := ObjectId.fresh 0
     let chapter := ObjectId.fresh 1
     let s := (Session.create SampleModel.schema {} 10).steps
       [.openContext "A" "main", .call "A" .begin, .call "A" (.newObject "Book"),
        .call "A" (.newObject "Chapter"), .call "A" (.onField book 2 (.add (.ref chapter))),
        .call "A" (.persist book), .call "A" (.onField book 2 (.remove (.ref chapter) true)),
        .call "A" (.onField book 2 (.add (.ref chapter)))]
     s.lifecycleIn "A" chapter = some .persistentNewDeleted ∧
       s.fieldIn "A" book 2 = some (.collection [.ref chapter]) ∧
       (match s.run "A" Engine.flush with
         | some (.ok (), s') => s'.lifecycleIn "A" chapter == none &&
             s'.fieldIn "A" book 2 == some (.collection [.ref chapter])
         | _ => false) = true) ∧
    (let library := ObjectId.fresh 0
     let shelf := ObjectId.fresh 1
     let s := (Session.create SampleModel.schema { queuedUpdates := true } 10).steps
       [.openContext "A" "main", .call "A" .begin, .call "A" (.newObject "Library"),
        .call "A" (.newObject "Shelf"),
        .call "A" (.onField library 2 (.put (.text "k") (.ref shelf))),
        .call "A" (.persist library), .call "A" .commit, .call "A" .begin,
        .call "A" (.onField library 2 (.removeKey (.text "k"))),
        .call "A" (.onField library 2 (.put (.text "k") (.ref shelf)))]
     s.lifecycleIn "A" shelf = some .persistentDeleted ∧
       s.fieldIn "A" library 2 = some (.map [(.text "k", .ref shelf)]) ∧
       (match s.run "A" Engine.flush with
         | some (.ok (), s') => s'.lifecycleIn "A" shelf == none &&
             s'.fieldIn "A" library 2 == some (.map [(.text "k", .ref shelf)])
         | _ => false) = true) := by
  constructor <;> decide +kernel

end ObjectPersistence
