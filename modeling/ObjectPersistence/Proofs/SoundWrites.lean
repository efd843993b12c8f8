import Mathlib
import ObjectPersistence.Proofs.SoundTransactions
import ObjectPersistence.Proofs.WrapperRequests
import ObjectPersistence.Proofs.DeleteClosure
import ObjectPersistence.Proofs.CommittedRead

/-! # Writes keep contexts sound

A write to a field, wholesale or through the wrapper of a container field, keeps every manager
a context finds sound and every queued operation on a dirty owner's container field; so does
merging a detached copy, which writes field by field.

A wrapper call runs on the wrapper of a loaded field, which the object owns while it is not
deleted, and leaves requests that the context then carries out one by one. Until the last one
is carried out, an operation the call queued may name an owner that is still clean; but a call
that queues also asks for the field to be marked dirty (`WrapperCall.Tended`), and that request
turns the owner dirty. `Absorbing` is what holds between the requests: the queue is a sound
part followed by the call's operations on the field, and the owner is ready for them as soon
as one is queued.

A wholesale write installs a slot made for the member of the object's class and marks it
dirty. Loading the field first keeps the class, so the slot fits the manager it goes into. -/

set_option mvcgen.warning false

namespace ObjectPersistence

open Std.Do Engine ManagedObject EngineState
variable {id : ObjectId} {s : EngineState}

theorem Engine.keeps_of_run {α} {P I : EngineState → Prop} {x : Engine α}
    (h : ∀ s, P s → I ((ExceptT.run x).run s).2) : ⦃fun s => ⌜P s⌝⦄ x ⦃keeps I⦄ := by
  intro s hs
  have h' := h s hs
  simp only [wp, ExceptT.run, PredTrans.apply_pushExcept, PredTrans.apply_pushArg]
  change I (StateT.run x s).2 at h'
  rcases hr : StateT.run x s with ⟨r, s'⟩
  rw [hr] at h'
  cases r <;> exact h'

namespace EngineState

def Undeleted (id : ObjectId) (s : EngineState) : Prop :=
  FirstManagers (fun m => m.id = id → m.lifecycle.isDeleted = false) s.ctx.objects

/-- An operation kept within every bound on the queue keeps the state sound together with a
condition on the first managers' objects and states. -/
theorem Within.keeps_of {α} {x : Engine α} {G : ObjectId → LifecycleState → Prop}
    (h : ∀ q, ⦃fun s => ⌜s.Within EngineState.Sound G q⌝⦄ x ⦃keeps (Within EngineState.Sound G q)⦄) :
    ⦃fun s => ⌜s.Sound ∧ FirstManagers (fun m => G m.id m.lifecycle) s.ctx.objects⌝⦄ x
    ⦃keeps fun s => s.Sound ∧ FirstManagers (fun m => G m.id m.lifecycle) s.ctx.objects⦄ :=
  keeps_of_run fun s hs =>
    have hw := keeps_run_of (h s.ctx.queue) s ⟨hs.1, hs.2, List.Sublist.refl _⟩
    ⟨hw.holds, hw.states⟩

end EngineState

theorem ensureLoaded_keeps_undeleted (fields : List Nat) :
    ⦃fun s => ⌜s.Sound ∧ s.Undeleted id⌝⦄ ensureLoaded id fields
    ⦃keeps fun s => s.Sound ∧ s.Undeleted id⦄ :=
  @Within.keeps_of _ _ (fun x L => x = id → L.isDeleted = false) fun _ =>
    ensureLoaded_sound (fun _ h => h) fields

theorem ensureLoaded_keeps_class (c : ClassMeta) (fields : List Nat) :
    ⦃fun s => ⌜s.Sound ∧ s.FirstOf id (·.cls = c)⌝⦄ ensureLoaded id fields
    ⦃keeps fun s => s.Sound ∧ s.FirstOf id (·.cls = c)⦄ :=
  keeps_of_run fun s hs => by
    refine ⟨keeps_run_of (ensureLoaded_keeps_sound fields) s hs.1, ?_⟩
    have hk := keeps_run_of (@Engine.ensureLoaded_keptByLoad s id fields) s (KeptByLoad.refl s id)
    obtain ⟨m, hm, hc⟩ := hs.2
    have hfirst := hk.first
    rw [hm] at hfirst
    obtain ⟨m', hm', he⟩ := Option.map_eq_some_iff.1 hfirst
    exact ⟨m', hm', (Prod.mk.inj he).1.trans hc⟩

theorem ManagedObject.wrapper?_eq_some {m : ManagedObject} {f : Nat} {w : Wrapper} :
    m.wrapper? f = some w ↔ m.slot? f = some (.wrapper w) := by
  unfold ManagedObject.wrapper?
  split <;> simp_all

theorem LifecycleState.clean_or_dirty {L : LifecycleState} (hp : L.isPersistent = true)
    (hn : L.isNew = false) (hd : L.isDeleted = false) (hh : L ≠ .hollow) :
    L = .persistentClean ∨ L = .persistentDirty := by
  cases L <;> simp_all [LifecycleState.isPersistent, LifecycleState.isNew, LifecycleState.isDeleted]

theorem LifecycleState.not_deleted_of_writable {L : LifecycleState}
    (h : ¬(L.isDeleted && (L.step .writeField).isNone) = true) : L.isDeleted = false := by
  revert h
  cases L <;> decide

/-! ### Carrying out the requests of a wrapper call -/

namespace EngineState

/-- The first manager of `id` takes operations on `f` already, or a request still to be carried
out marks `f` dirty and the manager is clean or dirty, so that the request leaves it dirty. -/
def Ready (id : ObjectId) (f : Nat) (rest : List HostEvent) (s : EngineState) : Prop :=
  s.FirstOf id (·.Takes f) ∨
    (.makeDirty ⟨id, f⟩ ∈ rest ∧
      s.FirstOf id fun m => m.lifecycle = .persistentClean ∨ m.lifecycle = .persistentDirty)

/-- The state while the requests `rest` of a wrapper call on field `f` of `id` are still to be
carried out: the managers are sound and the first manager of `id` holds `f` loaded as a
container field; the queue is a sound part followed by operations on that field, and the first
manager is ready for them as soon as the call queued one; the requests left name the field. -/
structure Absorbing (id : ObjectId) (f : Nat) (rest : List HostEvent) (s : EngineState) : Prop where
  numbered : s.runtime.schema.Numbered
  queue : ∃ q₀ added, s.ctx.queue = q₀ ++ added ∧
    ManagersKeep ManagedObject.Sound s.ctx.objects q₀ ∧
    (∀ op ∈ added, op.owner = id ∧ op.field = f) ∧
    (added ≠ [] ∨ (∃ op, .enqueue op ∈ rest) → s.Ready id f rest)
  field : s.FirstOf id fun m => m.loaded.get f = true ∧ ∃ fm, m.cls.member? f = some fm ∧ fm.isSco = true
  named : ∀ e ∈ rest, e.From ⟨id, f⟩

variable {f : Nat} {e : HostEvent} {rest : List HostEvent}

theorem Ready.skip (h : s.Ready id f (e :: rest)) (he : e ≠ .makeDirty ⟨id, f⟩) : s.Ready id f rest := by
  rcases h with h | ⟨hmem, hcd⟩
  · exact .inl h
  · exact .inr ⟨(List.mem_cons.1 hmem).resolve_left (Ne.symm he), hcd⟩

theorem Absorbing.skip {s' : EngineState} (h : s.Absorbing id f (e :: rest))
    (hr : s'.runtime.schema = s.runtime.schema) (ho : s'.ctx.objects = s.ctx.objects)
    (hq : s'.ctx.queue = s.ctx.queue) (hdirty : ∀ o, e ≠ .makeDirty o) :
    s'.Absorbing id f rest := by
  obtain ⟨q₀, added, hsplit, hkeep, hadded, hready⟩ := h.queue
  refine ⟨hr ▸ h.numbered, ⟨q₀, added, hq.trans hsplit, ho ▸ hkeep, hadded, fun hp => ?_⟩,
    by rw [FirstOf, ho]; exact h.field, fun e' he' => h.named e' (List.mem_cons_of_mem _ he')⟩
  have hpre : added ≠ [] ∨ ∃ op, .enqueue op ∈ e :: rest := by
    rcases hp with hp | ⟨op, hop⟩
    · exact .inl hp
    · exact .inr ⟨op, List.mem_cons_of_mem _ hop⟩
  have hR := (hready hpre).skip (hdirty _)
  simpa [Ready, FirstOf, ho] using hR

theorem Absorbing.enqueue {op : Operation} (h : s.Absorbing id f (.enqueue op :: rest)) :
    Absorbing id f rest { s with ctx := { s.ctx with queue := s.ctx.queue ++ [op] } } := by
  obtain ⟨q₀, added, hsplit, hkeep, hadded, hready⟩ := h.queue
  have hop : op.owner = id ∧ op.field = f := h.named _ List.mem_cons_self
  have hR : s.Ready id f rest :=
    (hready (.inr ⟨op, List.mem_cons_self⟩)).skip (by simp)
  refine ⟨h.numbered, ⟨q₀, added ++ [op], by simp [hsplit], hkeep, fun op' hop' => ?_,
    fun _ => hR⟩, h.field, fun e' he' => h.named e' (List.mem_cons_of_mem _ he')⟩
  rcases List.mem_append.1 hop' with hop' | hop'
  · exact hadded op' hop'
  · rw [List.mem_singleton.1 hop']
    exact hop

theorem Absorbing.makeDirty {o : FieldOwner} (h : s.Absorbing id f (.makeDirty o :: rest)) :
    Absorbing id f rest { s with ctx := { s.ctx with
      objects := s.ctx.objects.map (updateAt o.object (·.makeDirty o.field)) } } := by
  obtain rfl : o = ⟨id, f⟩ := h.named _ List.mem_cons_self
  obtain ⟨q₀, added, hsplit, hkeep, hadded, hready⟩ := h.queue
  obtain ⟨m, hm, hloaded, hsco⟩ := h.field
  have hsound : m.Sound := hkeep.managers id m hm
  have hfind : (s.ctx.objects.map (updateAt id (·.makeDirty f))).find? (·.id == id) =
      some (m.makeDirty f) :=
    find?_updateAt_self (fun m hm => (makeDirty_fields m f).1.trans hm) hm
  obtain ⟨-, hcls, -, hlo⟩ := makeDirty_fields m f
  -- whatever the manager was ready by, it takes operations on the field once marked dirty
  have htakes : s.Ready id f (.makeDirty ⟨id, f⟩ :: rest) → (m.makeDirty f).Takes f := by
    rintro (⟨m₀, hm₀, ht⟩ | ⟨-, m₀, hm₀, hcd⟩) <;> obtain rfl : m₀ = m := Option.some.inj (hm₀.symm.trans hm)
    · exact ht.makeDirty hsound.bound f
    · exact ⟨makeDirty_lifecycle hsound.bound hcd, by rw [hcls]; exact hsco⟩
  refine ⟨h.numbered, ⟨q₀, added, hsplit, hkeep.makeDirty hm hloaded, hadded, fun hp => ?_⟩,
    ⟨m.makeDirty f, hfind, by rw [hlo]; exact hloaded, by rw [hcls]; exact hsco⟩,
    fun e' he' => h.named e' (List.mem_cons_of_mem _ he')⟩
  have hpre : added ≠ [] ∨ ∃ op, .enqueue op ∈ HostEvent.makeDirty ⟨id, f⟩ :: rest := by
    rcases hp with hp | ⟨op, hop⟩
    · exact .inl hp
    · exact .inr ⟨op, List.mem_cons_of_mem _ hop⟩
  exact .inl ⟨_, hfind, htakes (hready hpre)⟩

theorem Absorbing.sound (h : s.Absorbing id f []) : s.Sound := by
  obtain ⟨q₀, added, hsplit, hkeep, hadded, hready⟩ := h.queue
  refine ⟨h.numbered, ⟨hkeep.first, hkeep.managers, fun op hop => ?_⟩⟩
  rw [hsplit] at hop
  rcases List.mem_append.1 hop with hop | hop
  · exact hkeep.queue op hop
  · obtain ⟨hown, hfield⟩ := hadded op hop
    rcases hready (.inl (List.ne_nil_of_mem hop)) with ⟨m, hm, ht⟩ | ⟨hmem, -⟩
    · exact ⟨m, hown ▸ hm, hfield ▸ ht⟩
    · exact absurd hmem List.not_mem_nil

end EngineState

theorem absorb_absorbing {f : Nat} (fx : Effects) (e : HostEvent) (rest : List HostEvent) :
    ⦃fun s => ⌜s.Absorbing id f (e :: rest)⌝⦄ absorb fx e
    ⦃post⟨fun _ s => ⌜s.Absorbing id f rest⌝, fun _ _ => ⌜False⌝⟩⦄ := by
  cases e <;> mvcgen [absorb, recordRelation, updateManager]
  case vc1.makeDirty _ _ h _ => exact h.makeDirty
  case vc1.enqueue _ _ h _ => exact h.enqueue
  -- the other requests leave the managers and the queue alone
  all_goals exact Absorbing.skip (by assumption) (by rfl) (by rfl) (by rfl) (by simp)

theorem EngineState.undeleted_of_first (h : ∀ m, s.ctx.objects.find? (·.id == id) = some m →
    m.lifecycle.isDeleted = false) : s.Undeleted id := by
  intro j m hm hid
  subst hid
  exact h m (by simpa [id_of_find? hm] using hm)

theorem checkWritable_undeleted :
    ⦃fun s => ⌜s.Sound⌝⦄ checkWritable id
    ⦃post⟨fun _ s => ⌜s.Sound ∧ s.Undeleted id⌝, fun _ s => ⌜s.Sound⌝⟩⦄ := by
  mvcgen [checkWritable, lifecycle?, managed?, context]
  next s hs L hL hw =>
    refine ⟨hs, undeleted_of_first fun m hm => ?_⟩
    rw [hm, Option.map_some, Option.some.injEq] at hL
    exact hL ▸ LifecycleState.not_deleted_of_writable hw
  next s hs _ hnone hL =>
    refine ⟨hs, undeleted_of_first fun m hm => ?_⟩
    rw [hm, Option.map_some] at hL
    exact absurd hL.symm (hnone _)

theorem EngineState.Sound.owner_of_wrapper {f : Nat} {m : ManagedObject} {w : Wrapper} (hs : s.Sound)
    (hu : s.Undeleted id) (hm : s.ctx.objects.find? (·.id == id) = some m)
    (hw : m.wrapper? f = some w) : w.owner = some ⟨id, f⟩ := by
  have h := (hs.2.managers id m hm).wrapper_owned (hu id m hm (id_of_find? hm)) f w
    (wrapper?_eq_some.1 hw)
  rwa [id_of_find? hm] at h

/-- Right after a wrapper call on a field, with its wrapper put back: nothing of the call is
carried out yet. If the call queued an operation, it was made in queued mode, so the object was
persistent, neither new nor deleted, and with a field loaded not hollow: clean or dirty. -/
theorem EngineState.Absorbing.start {f : Nat} {m : ManagedObject} {w w' : Wrapper} {events : List HostEvent}
    {h : HostView} (hs : s.Sound) (hu : s.Undeleted id)
    (hm : s.ctx.objects.find? (·.id == id) = some m) (hw : m.wrapper? f = some w)
    (hq : h.queued = true → m.lifecycle.isPersistent = true ∧ m.lifecycle.isNew = false)
    (ht : WrapperCall.Tended h ⟨id, f⟩ (w', events)) :
    Absorbing id f events { s with ctx := { s.ctx with
      objects := s.ctx.objects.map (updateAt id (·.restoreWrapper f w')) } } := by
  have hsound : m.Sound := hs.2.managers id m hm
  have hslot := wrapper?_eq_some.1 hw
  have hloaded := hsound.loaded_of_wrapper hslot
  have ho : w'.owner = w.owner := ht.1.1.trans (hs.owner_of_wrapper hu hm hw).symm
  have hfind : (s.ctx.objects.map (updateAt id (·.restoreWrapper f w'))).find? (·.id == id) =
      some (m.restoreWrapper f w') :=
    find?_updateAt_self (fun _ hm => hm) hm
  -- an operation queued by the call finds a request to mark the field dirty after it
  have hready : (∃ op, HostEvent.enqueue op ∈ events) →
      HostEvent.makeDirty ⟨id, f⟩ ∈ events ∧
        (m.lifecycle = .persistentClean ∨ m.lifecycle = .persistentDirty) := by
    rintro ⟨op, hop⟩
    have hqueued : h.queued = true := by
      by_contra hne
      exact ht.1.2.2 (by simpa using hne) op hop
    obtain ⟨hp, hn⟩ := hq hqueued
    refine ⟨ht.2.resolve_right fun hnone => hnone op hop, LifecycleState.clean_or_dirty hp hn
      (hu id m hm (id_of_find? hm)) (hsound.not_hollow hloaded)⟩
  refine ⟨hs.1, ⟨s.ctx.queue, [], by simp, hs.2.restoreWrapper hm hslot ho, by simp,
    fun hp => ?_⟩, ⟨_, hfind, hloaded, hsound.wrapper_field f w hslot⟩, ht.1.2.1⟩
  obtain ⟨hmd, hcd⟩ := hready (hp.resolve_left (by simp))
  exact .inr ⟨hmd, _, hfind, hcd⟩

theorem runWrapper_keeps_sound {α} (field : Nat) (mr : Bool) {call : HostView → WrapperCall α}
    (hcall : ∀ h, ⦃fun st => ⌜WrapperCall.Tended h ⟨id, field⟩ st⌝⦄ call h ⦃WrapperCall.tended h ⟨id, field⟩⦄) :
    ⦃fun s => ⌜s.Sound⌝⦄ runWrapper id field mr call ⦃keeps EngineState.Sound⦄ := by
  have hCheck := @checkWritable_undeleted id
  have hLoad := @ensureLoaded_keeps_undeleted id [field]
  have hAbsorb := @absorb_absorbing id field
  mvcgen [runWrapper, hCheck, hLoad, manager, managed?, context, updateManager, hAbsorb] invariants
  | inv1 => post⟨fun p s => ⌜s.Absorbing id field p.1.suffix⌝, fun _ _ => ⌜False⌝⟩
  next _ _ _ _ _ _ s hs m hm w hw L queued _ =>
    refine Absorbing.start hs.1 hs.2 hm hw (fun hq => ?_)
      (WrapperCall.exec_keeps (hcall _) _
        (WrapperCall.tended_start (hs.1.owner_of_wrapper hs.2 hm hw)))
    -- queued mode asks for a persistent object that is not new
    simp +zetaDelta at hq
    exact ⟨hq.1.1.2, hq.1.2⟩
  next h => exact h.sound
  next h => exact h.sound
  next => exact ⟨fun _ _ h => h.elim, trivial⟩
  next hs _ _ _ _ _ => exact hs.1
  next hs _ => exact hs.1
  next => exact fun h _ => h

theorem applyInverse_keeps_sound (ch : RelationChange) :
    ⦃fun s => ⌜s.Sound⌝⦄ applyInverse ch ⦃keeps EngineState.Sound⦄ := by
  have hLoad := @ensureLoaded_keeps_class ch.target
  have hWrap := @runWrapper_keeps_sound ch.target
  have hAdd := @WrapperCall.add_tended
  have hRemove := @WrapperCall.remove_tended
  mvcgen [applyInverse, managed?, context, core, hLoad, manager, updateManager, hWrap,
    WrapperCall.wrapper, hAdd, hRemove]
  case vc2.c => next target _ _ _ _ => exact target.cls
  next _ _ target htarget _ _ _ => exact ⟨by assumption, target, htarget, rfl⟩
  next hs => exact hs.1
  -- a plain inverse field: a value installed and marked dirty, in a field of the class
  next target _ _ _ hmem _ _ _ _ _ hs m hm _ _ _ _ =>
    obtain ⟨m', hm', hcls⟩ := hs.2
    obtain rfl : m = m' := Option.some.inj (hm.symm.trans hm')
    exact ⟨hs.1.1, hs.1.2.installDirty hm (hcls ▸ ClassMeta.lt_fieldCount_of_member hmem)
      (fits_value m _ _)⟩
  next hs _ _ _ _ _ => exact hs.1
  next hs _ => exact hs.1
  next hs => exact hs.1
  next => exact fun hs _ => hs

theorem flush_keeps_sound : ⦃fun s => ⌜s.Sound⌝⦄ flush ⦃keeps EngineState.Sound⦄ := by
  have hFlush := flush_sound
  mvcgen [hFlush]
  exact Within.holds

theorem deleteDependent_keeps_sound :
    ⦃fun s => ⌜s.Sound⌝⦄ deleteDependent id ⦃keeps EngineState.Sound⦄ :=
  Within.keeps_sound fun q => @deleteDependent_sound _ q id (fun _ => trivial) (fun _ _ => trivial)
    fun _ _ _ _ _ => trivial

theorem processEffects_keeps_sound (fx : Effects) :
    ⦃fun s => ⌜s.Sound⌝⦄ processEffects fx ⦃keeps EngineState.Sound⦄ := by
  have hInverse := @applyInverse_keeps_sound
  have hDependent := @deleteDependent_keeps_sound
  have hFlush := flush_keeps_sound
  mvcgen [processEffects, context, hInverse, hDependent, hFlush] invariants
  | inv1 => keeps EngineState.Sound
  | inv2 => keeps EngineState.Sound
  | inv3 => keeps EngineState.Sound

theorem recordRelation_keeps_sound (owner : FieldOwner) (element : Value) (added : Bool) :
    ⦃fun s => ⌜s.Sound⌝⦄ recordRelation owner element added ⦃keeps EngineState.Sound⦄ := by
  mvcgen [recordRelation]

theorem classOf_first :
    ⦃fun s => ⌜s.Sound⌝⦄ classOf id
    ⦃post⟨fun c s => ⌜s.Sound ∧ s.FirstOf id (·.cls = c)⌝, fun _ s => ⌜s.Sound⌝⟩⦄ := by
  mvcgen [classOf, manager, managed?, context]
  next h m hm => exact ⟨h, ⟨m, hm, rfl⟩⟩

theorem ensureLoaded_class (c : ClassMeta) (fields : List Nat) :
    ⦃fun s => ⌜s.Sound ∧ s.FirstOf id (·.cls = c)⌝⦄ ensureLoaded id fields
    ⦃ends (fun s => s.Sound ∧ s.FirstOf id (·.cls = c)) EngineState.Sound⦄ := by
  have hLoad := @ensureLoaded_keeps_class id c fields
  mvcgen [hLoad]
  next => exact And.intro
  next => exact fun hs _ => hs

namespace Engine

/-- A wholesale write once its value is checked against the member of the class. -/
def writeChecked (id : ObjectId) (field : Nat) (data : FieldData) (fm : FieldMeta) :
    Engine Unit := do
  let track := (← context).config.manageRelations && fm.mappedBy.isSome
  let previous ← if track then
      do ensureLoaded id [field]; pure ((← manager id).fieldData field)
    else pure none
  let s ← lift (makeSlot id fm (some data))
  let owner : FieldOwner := ⟨id, field⟩
  modifyContext fun c => { c with queue := c.queue.filter fun op => !(op.owner == id && op.field == field) }
  updateManager id fun m => (m.install field s).makeDirty field
  let persistent := (← manager id).lifecycle.isPersistent
  if let some prev := previous then
    let old := prev.references
    let new := data.references
    for t in old do
      if !new.contains t then recordRelation owner (.ref t) false
    for t in new do
      if !old.contains t then recordRelation owner (.ref t) true
  processEffects { flush := !(← context).txActive && persistent }

theorem setField_eq (id : ObjectId) (field : Nat) (data : FieldData) :
    setField id field data = (do
      checkWritable id
      let cls ← classOf id
      let fm ← core (cls.member field)
      if let .scalar v := data then
        if v.isNull && !fm.allowNulls then throw (.invalidElement (.nullField cls.name fm.name))
      writeChecked id field data fm) := rfl

end Engine

variable {c : ClassMeta} {field : Nat} {fm : FieldMeta} {data : FieldData} {sl : Slot}

/-- Writing a whole field of an object of class `c`: the queued operations on the field are
dropped, and a slot made for the member of the class is installed and marked dirty. -/
theorem EngineState.Sound.writeField (h : s.Sound ∧ s.FirstOf id (·.cls = c))
    (hfm : c.member field = .ok fm) (hsl : makeSlot id fm (some data) = .ok sl) :
    EngineState.Sound { s with ctx := { s.ctx with
      queue := s.ctx.queue.filter fun op => !(op.owner == id && op.field == field),
      objects := s.ctx.objects.map (updateAt id fun m => (m.install field sl).makeDirty field) } } := by
  obtain ⟨hs, m, hm, rfl⟩ := h
  have hfits : m.Fits field sl :=
    fits_of_member (hs.2.managers id m hm).numbered (id_of_find? hm) hfm hsl
  exact ⟨hs.1, (hs.2.filterQueue _).installDirty hm (ClassMeta.lt_fieldCount_of_member hfm) hfits⟩

theorem writeChecked_keeps_sound (hfm : c.member field = .ok fm) :
    ⦃fun s => ⌜s.Sound ∧ s.FirstOf id (·.cls = c)⌝⦄ writeChecked id field data fm
    ⦃keeps EngineState.Sound⦄ := by
  have hLoad := @ensureLoaded_class id c [field]
  have hEffects := processEffects_keeps_sound
  have hRecord := @recordRelation_keeps_sound
  mvcgen [writeChecked, context, hLoad, manager, managed?, lift, updateManager, hRecord,
    hEffects] invariants
  | inv1 => keeps EngineState.Sound
  | inv2 => keeps EngineState.Sound
  -- after ensureLoaded: the field written, then relation changes recorded or none
  next => exact Sound.writeField ‹_› hfm ‹_›
  next => exact Sound.writeField ‹_› hfm ‹_›
  next => exact Sound.writeField ‹_› hfm ‹_›
  next => exact And.left ‹_›
  next => exact And.left ‹_›
  -- without loading
  next => exact Sound.writeField ‹_› hfm ‹_›
  next => exact Sound.writeField ‹_› hfm ‹_›
  next => exact And.left ‹_›

theorem setField_keeps_sound (field : Nat) (data : FieldData) :
    ⦃fun s => ⌜s.Sound⌝⦄ setField id field data ⦃keeps EngineState.Sound⦄ := by
  have hCheck := @checkWritable_undeleted id
  have hClass := @classOf_first id
  have hWrite := @writeChecked_keeps_sound id
  rw [setField_eq]
  mvcgen [core, hCheck, hClass, hWrite]
  all_goals exact And.left ‹_›

theorem withWrapper_keeps_sound {α} (field : Nat) {call : HostView → WrapperCall α}
    (hcall : ∀ h, ⦃fun st => ⌜WrapperCall.Tended h ⟨id, field⟩ st⌝⦄ call h
      ⦃WrapperCall.tended h ⟨id, field⟩⦄) :
    ⦃fun s => ⌜s.Sound⌝⦄ withWrapper id field call ⦃keeps EngineState.Sound⦄ := by
  have hRun := fun mr => runWrapper_keeps_sound field mr hcall
  have hEffects := processEffects_keeps_sound
  mvcgen [withWrapper, context, hRun, hEffects]

theorem bindHollow_keeps_sound (cls : ClassMeta) (version : Option Int) :
    ⦃fun s => ⌜s.Sound ∧ s.ctx.objects.find? (·.id == id) = none ∧ cls.Numbered⌝⦄
    bindHollow id cls version ⦃keeps EngineState.Sound⦄ :=
  keeps_of_run fun s hs =>
    (keeps_run_of (@bindHollow_sound (fun _ _ => True) s.ctx.queue id trivial cls version) s
      ⟨Within.of_sound hs.1, hs.2⟩).holds

theorem attachObject_keeps_sound (o : DetachedObject) :
    ⦃fun s => ⌜s.Sound⌝⦄ attachObject o ⦃keeps EngineState.Sound⦄ := by
  have hBindHollow := @bindHollow_keeps_sound o.id
  have hMakePersistent := @makePersistent_keeps_sound o.id
  have hLoad := @ensureLoaded_keeps_sound o.id
  have hWith := @withWrapper_keeps_sound o.id
  have hAttach := @WrapperCall.attach_tended
  have hSetField := @setField_keeps_sound o.id
  mvcgen [attachObject, adopt, updateManager, hBindHollow, hMakePersistent, hLoad, hWith, hAttach,
    hSetField] invariants
  | inv1 => keeps EngineState.Sound
  | inv2 => keeps EngineState.Sound
  -- a new object's manager, not yet adopted, stays sound while the copy's fields go in
  | inv3 => post⟨fun p s => ⌜s.Sound ∧ p.2.Sound ∧ p.2.id = o.id ∧ p.2.cls = ‹ClassMeta› ∧
      p.2.lifecycle = .transient⌝, fun _ s => ⌜s.Sound⌝⟩
  | inv4 => keeps EngineState.Sound
  | inv5 => keeps EngineState.Sound
  -- an object the datastore knows is bound hollow
  next hs _ hnone _ _ _ _ _ _ hcls =>
    exact ⟨hs.frame rfl rfl rfl, by simpa using hnone, Runtime.findClass_numbered hs.1 hcls⟩
  -- a new version of a versioned class
  next hs _ => exact ⟨hs.1, hs.2.update_congr fun _ => ⟨rfl, rfl, rfl, rfl, rfl, rfl, rfl⟩⟩
  -- a field of a new object installed from the copy
  next pref cur _ hfields b _ h sl hsl _ =>
    obtain ⟨hs, hsound, hid, hcls, hlc⟩ := h
    have hnum : b.cls.Numbered := hsound.numbered
    have hmem : cur ∈ b.cls.fields := by
      rw [hcls, hfields]
      exact List.mem_append_right _ List.mem_cons_self
    have hfits : b.Fits cur.number sl := fits_of_makeSlot hnum (hnum.member?_number hmem) (hid ▸ hsl)
    obtain ⟨hid', hcls', hlc', -⟩ := install_fields b cur.number sl
    exact ⟨hs, hsound.install hfits (by rw [hlc]; decide), hid'.trans hid, hcls'.trans hcls,
      hlc'.trans hlc⟩
  next h _ _ => exact h.1
  next hs _ _ _ _ _ _ _ hcls =>
    exact ⟨hs.frame rfl rfl rfl,
      create_sound (Runtime.findClass_numbered hs.1 hcls) (by decide) (by decide), rfl, rfl, rfl⟩
  -- the new object adopted: transient, it may stand after a manager of the same object
  next h _ =>
    obtain ⟨hs, hsound, -, -, hlc⟩ := h
    exact ⟨hs.1, hs.2.append (fun hne => absurd hlc hne) fun _ => hsound⟩
  next hs _ => exact ⟨hs.1, hs.2.update_congr fun _ => ⟨rfl, rfl, rfl, rfl, rfl, rfl, rfl⟩⟩

theorem attachCopy_keeps_sound (g : DetachedGraph) :
    ⦃fun s => ⌜s.Sound⌝⦄ attachCopy g ⦃keeps EngineState.Sound⦄ := by
  have hAttachObject := @attachObject_keeps_sound
  mvcgen [attachCopy, hAttachObject] invariants
  | inv1 => keeps EngineState.Sound
  | inv2 => keeps EngineState.Sound

end ObjectPersistence
