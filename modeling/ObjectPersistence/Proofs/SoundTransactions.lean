import Mathlib
import ObjectPersistence.Proofs.SoundFlush

/-! # Transactions keep contexts sound

A commit releases the objects no longer reachable and flushes; a flush that succeeds leaves
every object `Settled`, so the commit then finds each persistent object clean or hollow, and
it stays clean or goes hollow with its values dropped. A rollback empties the queue first,
stops managing the objects made persistent in the transaction and takes the others back to
hollow, their values dropped. Closing a context, or detaching objects, stops managing them,
and their queued operations go with them. Each of these keeps a context sound, whether it
succeeds or fails part way, and so do persisting objects and the calls that only read.
-/

set_option mvcgen.warning false

namespace ObjectPersistence

open Std.Do Engine ManagedObject EngineState

variable {F : ObjectId → LifecycleState → Prop} {q : List Operation} {id : ObjectId}
  {s s' : EngineState} {m m' : ManagedObject}

/-! ### Replacing the managers of an object -/

theorem map_updateAt_replace {objs : List ManagedObject} {g : ManagedObject → ManagedObject}
    (hid : m'.id = id) :
    (objs.map (updateAt id fun _ => m')).map (updateAt id g) = objs.map (updateAt id fun _ => g m') := by
  rw [List.map_map]
  refine List.map_congr_left fun m _ => ?_
  by_cases h : m.id = id
  · simp [updateAt, h, hid]
  · simp [updateAt, h]

theorem hid_of_transition {objs : List ManagedObject} {e : LifecycleEvent}
    (hm : objs.find? (·.id == id) = some m) (htr : m.transition e = .ok m') : m'.id = id := by
  have hmid : m.id = id := id_of_find? hm
  exact (congrArg ManagedObject.id (ManagedObject.transition_eq_ok htr).2).trans hmid

theorem filter_map_updateAt {objs : List ManagedObject} {f : ManagedObject → ManagedObject}
    (hf : ∀ m, m.id = id → (f m).id = id) :
    (objs.map (updateAt id f)).filter (·.id != id) = objs.filter (·.id != id) := by
  induction objs with
  | nil => rfl
  | cons m objs ih =>
    by_cases hm : m.id = id
    · simp [updateAt, hm, hf m hm, ih]
    · simp [updateAt, hm, ih]

namespace EngineState

theorem Within.keeps_sound {α} {x : Engine α}
    (h : ∀ q, ⦃fun s => ⌜s.Within EngineState.Sound (fun _ _ => True) q⌝⦄ x
      ⦃ends (Within EngineState.Sound (fun _ _ => True) q)
        (Within EngineState.Sound (fun _ _ => True) q)⦄) :
    ⦃fun s => ⌜s.Sound⌝⦄ x ⦃keeps EngineState.Sound⦄ := by
  intro s hs
  refine Triple.entails_wp_of_post (h s.ctx.queue) ?_ s (Within.of_sound hs)
  have hholds : ∀ s' : EngineState,
      s'.Within EngineState.Sound (fun _ _ => True) s.ctx.queue → s'.Sound := fun _ h' => h'.holds
  exact ⟨fun _ => hholds, fun _ => hholds, trivial⟩

theorem Within.ends_sound {α} {x : Engine α} {G : ObjectId → LifecycleState → Prop}
    (h : ∀ q, ⦃fun s => ⌜s.Within EngineState.Sound (fun _ _ => True) q⌝⦄ x
      ⦃ends (Within EngineState.Sound G q) EngineState.Sound⦄) :
    ⦃fun s => ⌜s.Sound⌝⦄ x ⦃keeps EngineState.Sound⦄ := by
  intro s hs
  refine Triple.entails_wp_of_post (h s.ctx.queue) ?_ s (Within.of_sound hs)
  exact ⟨fun _ _ h' => h'.holds, fun _ _ h' => h', trivial⟩

theorem Sound.frame (h : s.Sound) (hr : s'.runtime.schema = s.runtime.schema)
    (ho : s'.ctx.objects = s.ctx.objects) (hq : s'.ctx.queue = s.ctx.queue) : s'.Sound := by
  refine ⟨hr ▸ h.1, ?_⟩
  rw [ho, hq]
  exact h.2

theorem Sound.replace (h : s.Sound) (hr : s'.runtime.schema = s.runtime.schema)
    (ho : s'.ctx.objects = s.ctx.objects.map (updateAt id fun _ => m'))
    (hq' : s'.ctx.queue = s.ctx.queue) (hm : s.ctx.objects.find? (·.id == id) = some m)
    (hid : m'.id = id) (hs : m'.Sound)
    (hq : ∀ op ∈ s.ctx.queue, op.owner = id → m.Takes op.field → m'.Takes op.field) :
    s'.Sound := by
  refine ⟨hr ▸ h.1, ?_⟩
  rw [ho, hq']
  refine h.2.replace hid hs (fun _ hs _ => hs) fun m₀ hm₀ op hop ho ht => hq op hop ho ?_
  rwa [Option.some.inj (hm₀.symm.trans hm)] at ht

theorem Within.replace {G : ObjectId → LifecycleState → Prop} (h : s.Within EngineState.Sound F q)
    (hr : s'.runtime.schema = s.runtime.schema)
    (ho : s'.ctx.objects = s.ctx.objects.map (updateAt id fun _ => m'))
    (hq' : s'.ctx.queue = s.ctx.queue) (hm : s.ctx.objects.find? (·.id == id) = some m)
    (hid : m'.id = id) (hs : m'.Sound) (hF : F id m.lifecycle → G id m'.lifecycle)
    (hFother : ∀ x L, x ≠ id → F x L → G x L)
    (hq : ∀ op ∈ s.ctx.queue, op.owner = id → m.Takes op.field → m'.Takes op.field) :
    s'.Within EngineState.Sound G q := by
  refine ⟨h.holds.replace hr ho hq' hm hid hs hq, ?_, hq' ▸ h.queued⟩
  rw [ho]
  exact h.states.states_replace hm hid hF hFother

theorem Within.update_congr {g : ManagedObject → ManagedObject} (h : s.Within EngineState.Sound F q)
    (hg : ∀ m, (g m).id = m.id ∧ (g m).cls = m.cls ∧ (g m).lifecycle = m.lifecycle ∧
      (g m).loaded = m.loaded ∧ (g m).dirty = m.dirty ∧ (g m).slots = m.slots ∧
      (g m).bound = m.bound) :
    Within EngineState.Sound F q
      { s with ctx := { s.ctx with objects := s.ctx.objects.map (updateAt id g) } } :=
  ⟨⟨h.holds.1, h.holds.2.update_congr hg⟩, h.states.states_update fun m => ⟨(hg m).1, (hg m).2.2.1⟩,
    h.queued⟩

theorem Within.unflag (h : s.Within EngineState.Sound F q) :
    Within EngineState.Sound F q { s with ctx := { s.ctx with
      objects := s.ctx.objects.map (updateAt id fun m =>
        { m with explicitlyPersisted := false, createdInTx := false }) } } :=
  h.update_congr fun _ => ⟨rfl, rfl, rfl, rfl, rfl, rfl, rfl⟩

end EngineState

/-! ### Ending a transaction -/

theorem LifecycleState.Settled.clean_or_hollow {L : LifecycleState} (hs : L.Settled)
    (hp : L.isPersistent = true) (hd : L ≠ .detached) :
    L = .persistentClean ∨ L = .hollow := by
  obtain ⟨hn, hdirty, hdel⟩ := hs
  cases L <;> simp_all [LifecycleState.isPersistent, LifecycleState.isDeleted]

theorem ManagedObject.Sound.transition_commit (h : m.Sound) {r : Bool}
    (hm : m.lifecycle = .persistentClean ∨ m.lifecycle = .hollow)
    (htr : m.transition (.commit r) = .ok m') (hh : m'.lifecycle ≠ .hollow) : m'.Sound := by
  obtain ⟨hstep, hm'⟩ := ManagedObject.transition_eq_ok htr
  rw [hm'] at hh ⊢
  exact (h.commit hm hstep).sound hh

namespace EngineState

theorem Within.queue_nil {I : EngineState → Prop} (h : s.Within I F []) : s.ctx.queue = [] :=
  List.sublist_nil.1 h.queued

theorem Within.cleared (h : s.Sound) (hr : s'.runtime.schema = s.runtime.schema)
    (ho : s'.ctx.objects = s.ctx.objects) (hq : s'.ctx.queue = []) :
    s'.Within EngineState.Sound (fun _ _ => True) [] := by
  refine ⟨⟨hr ▸ h.1, ?_⟩, fun _ _ _ => trivial, ?_⟩
  · rw [ho, hq]
    exact h.2.clearQueue
  · rw [hq]

theorem Sound.clear_queue (h : s.Sound) (hr : s'.runtime.schema = s.runtime.schema)
    (ho : s'.ctx.objects = s.ctx.objects) (hq : s'.ctx.queue = []) : s'.Sound :=
  (Within.cleared h hr ho hq).holds

/-- A lifecycle event that leaves an object neither dirty nor detached, its values then
dropped: the object's managers are replaced by a sound one. -/
theorem Within.transition_unloadAll {G : ObjectId → LifecycleState → Prop} {e : LifecycleEvent}
    (h : s.Within EngineState.Sound F q) (hr : s'.runtime.schema = s.runtime.schema)
    (ho : s'.ctx.objects =
      (s.ctx.objects.map (updateAt id fun _ => m')).map (updateAt id ManagedObject.unloadAll))
    (hq' : s'.ctx.queue = s.ctx.queue) (hm : s.ctx.objects.find? (·.id == id) = some m)
    (htr : m.transition e = .ok m') (hd : m'.lifecycle ≠ .persistentDirty)
    (hdet : m'.lifecycle ≠ .detached) (hF : F id m.lifecycle → G id m'.lifecycle)
    (hFother : ∀ x L, x ≠ id → F x L → G x L) (hq : ∀ op ∈ s.ctx.queue, op.owner ≠ id) :
    s'.Within EngineState.Sound G q := by
  have hmid : m.id = id := id_of_find? hm
  obtain ⟨-, hm'⟩ := ManagedObject.transition_eq_ok htr
  have hid : m'.id = id := (congrArg ManagedObject.id hm').trans hmid
  rw [map_updateAt_replace hid] at ho
  refine h.replace hr ho hq' hm hid ?_ hF hFother fun op hop hown => absurd hown (hq op hop)
  rw [hm'] at hd hdet ⊢
  exact (h.holds.2.managers id m hm).toLoading.unloadAll hd hdet

theorem Within.commit_sound (h : s.Within EngineState.Sound (fun _ L => L.Settled) [])
    (hm : s.ctx.objects.find? (·.id == id) = some m) (hp : m.lifecycle.isPersistent = true)
    {r : Bool} (htr : m.transition (.commit r) = .ok m') :
    m'.id = id ∧ m'.lifecycle.Settled ∧ (m'.lifecycle ≠ .hollow → m'.Sound) := by
  have hs := h.holds.2.managers id m hm
  have hset : m.lifecycle.Settled := h.states id m hm
  have hch := hset.clean_or_hollow hp hs.not_detached
  have hmid : m.id = id := id_of_find? hm
  obtain ⟨hstep, hm'⟩ := ManagedObject.transition_eq_ok htr
  refine ⟨(congrArg ManagedObject.id hm').trans hmid, ?_, hs.transition_commit hch htr⟩
  rcases LifecycleState.step_commit hstep hch with hL | hL <;> rw [hm', hL]
  · exact hset
  · exact ⟨by decide, by decide, rfl⟩

theorem Within.commit_kept (h : s.Within EngineState.Sound (fun _ L => L.Settled) [])
    (hr : s'.runtime.schema = s.runtime.schema)
    (ho : s'.ctx.objects = s.ctx.objects.map (updateAt id fun _ => m'))
    (hq' : s'.ctx.queue = s.ctx.queue) (hm : s.ctx.objects.find? (·.id == id) = some m)
    (hp : m.lifecycle.isPersistent = true) {r : Bool} (htr : m.transition (.commit r) = .ok m')
    (hh : m'.lifecycle ≠ .hollow) : s'.Within EngineState.Sound (fun _ L => L.Settled) [] := by
  obtain ⟨hid, hset, hsound⟩ := h.commit_sound hm hp htr
  refine h.replace hr ho hq' hm hid (hsound hh) (fun _ => hset) (fun _ _ _ hL => hL) ?_
  rw [h.queue_nil]
  exact fun _ hop => absurd hop List.not_mem_nil

theorem Within.commit_hollow (h : s.Within EngineState.Sound (fun _ L => L.Settled) [])
    (hr : s'.runtime.schema = s.runtime.schema)
    (ho : s'.ctx.objects =
      (s.ctx.objects.map (updateAt id fun _ => m')).map (updateAt id ManagedObject.unloadAll))
    (hq' : s'.ctx.queue = s.ctx.queue) (hm : s.ctx.objects.find? (·.id == id) = some m)
    (hp : m.lifecycle.isPersistent = true) {r : Bool} (htr : m.transition (.commit r) = .ok m')
    (hh : m'.lifecycle = .hollow) : s'.Within EngineState.Sound (fun _ L => L.Settled) [] := by
  obtain ⟨-, hset, -⟩ := h.commit_sound hm hp htr
  refine h.transition_unloadAll hr ho hq' hm htr (by rw [hh]; decide) (by rw [hh]; decide)
    (fun _ => hset) (fun _ _ _ hL => hL) ?_
  rw [h.queue_nil]
  exact fun _ hop => absurd hop List.not_mem_nil

end EngineState

/-! ### Persisting and reading -/

theorem ManagedObject.Sound.transition_makePersistent (h : m.Sound)
    (htr : m.transition .makePersistent = .ok m') : m'.Sound ∧ ∀ f, m.Takes f → m'.Takes f := by
  obtain ⟨hstep, hm'⟩ := ManagedObject.transition_eq_ok htr
  refine ⟨hm' ▸ h.makePersistent hstep, fun f ht => ⟨?_, ?_⟩⟩
  · rcases LifecycleState.step_makePersistent hstep with hs | ⟨ht', -⟩
    · exact hs.trans ht.1
    · rw [ht.1] at ht'
      cases ht'
  · rw [hm']
    exact ht.2

theorem ensureLoaded_keeps_sound (fields : List Nat) :
    ⦃fun s => ⌜s.Sound⌝⦄ ensureLoaded id fields ⦃keeps EngineState.Sound⦄ :=
  Within.keeps_sound fun q => @ensureLoaded_sound _ q id (fun _ _ => trivial) fields

theorem loadRelations_keeps_sound :
    ⦃fun s => ⌜s.Sound⌝⦄ loadRelations id ⦃keeps EngineState.Sound⦄ :=
  Within.keeps_sound fun q => @loadRelations_sound _ q id fun _ _ => trivial

theorem flushNew_keeps_sound (only : Option ObjectId) :
    ⦃fun s => ⌜s.Sound⌝⦄ flushNew only ⦃keeps EngineState.Sound⦄ :=
  Within.ends_sound fun q => @flushNew_sound _ q (fun _ _ => trivial) (fun _ _ => trivial) only

theorem makePersistent_keeps_sound (explicit : Bool) :
    ⦃fun s => ⌜s.Sound⌝⦄ makePersistent id explicit ⦃keeps EngineState.Sound⦄ := by
  mvcgen [makePersistent, updateManager]
  next h r hclaim _ m hm m₁ htr _ =>
    obtain ⟨hsound, htakes⟩ := (h.2.managers id m hm).transition_makePersistent htr
    have hmid : m.id = id := id_of_find? hm
    have hid : m₁.id = id := (congrArg ManagedObject.id (ManagedObject.transition_eq_ok htr).2).trans hmid
    exact h.replace (Runtime.claim_schema hclaim) rfl rfl hm hid
      (hsound.congr rfl rfl rfl rfl rfl rfl rfl) fun _ _ _ ht => htakes _ ht
  next h _ hclaim _ _ _ _ _ => exact h.frame (Runtime.claim_schema hclaim) rfl rfl
  next h _ hclaim _ _ => exact h.frame (Runtime.claim_schema hclaim) rfl rfl

theorem cascadePersist_keeps_sound (fuel : Nat) (visited : List ObjectId) :
    ⦃fun s => ⌜s.Sound⌝⦄ cascadePersist fuel id visited ⦃keeps EngineState.Sound⦄ := by
  induction fuel generalizing id visited with
  | zero => mvcgen [cascadePersist]
  | succ fuel ih =>
    have hMakePersistent := @makePersistent_keeps_sound
    mvcgen [cascadePersist, hMakePersistent, ih] invariants
    | inv1 => keeps EngineState.Sound

theorem persist_keeps_sound : ⦃fun s => ⌜s.Sound⌝⦄ persist id ⦃keeps EngineState.Sound⦄ := by
  have hFlushNew := @flushNew_keeps_sound
  have hMakePersistent := @makePersistent_keeps_sound
  have hCascadePersist := @cascadePersist_keeps_sound
  mvcgen [persist, hFlushNew, hMakePersistent, hCascadePersist]

theorem reach_keeps_sound (fuel : Nat) (reachable : List ObjectId) :
    ⦃fun s => ⌜s.Sound⌝⦄ reach fuel id reachable ⦃keeps EngineState.Sound⦄ := by
  induction fuel generalizing id reachable with
  | zero => mvcgen [reach]
  | succ fuel ih =>
    have hLoadRelations := @loadRelations_keeps_sound
    mvcgen [reach, hLoadRelations, ih] invariants
    | inv1 => keeps EngineState.Sound
    | inv2 => keeps EngineState.Sound

theorem reachableFrom_keeps_sound :
    ⦃fun s => ⌜s.Sound⌝⦄ reachableFrom id ⦃keeps EngineState.Sound⦄ := by
  have hReach := @reach_keeps_sound
  mvcgen [reachableFrom, hReach]

theorem begin_keeps_sound : ⦃fun s => ⌜s.Sound⌝⦄ Engine.begin ⦃keeps EngineState.Sound⦄ := by
  mvcgen [Engine.begin]

theorem setProperty_keeps_sound (name value : String) :
    ⦃fun s => ⌜s.Sound⌝⦄ setProperty name value ⦃keeps EngineState.Sound⦄ := by
  mvcgen [setProperty]

/-! ### Commit, rollback, close and detach -/

theorem releaseOrphan_keeps_sound (ids : List ObjectId) :
    ⦃fun s => ⌜s.Sound ∧ NewOrTransient (id :: ids) s.ctx.objects⌝⦄ releaseOrphan id
    ⦃post⟨fun _ s => ⌜s.Sound ∧ NewOrTransient ids s.ctx.objects⌝, fun _ s => ⌜s.Sound⌝⟩⦄ := by
  mvcgen [releaseOrphan, Engine.transition, updateManager]
  next h m hm m₁ htr _ _ =>
    obtain ⟨hs, hnt⟩ := h
    -- an orphan is new or transient, and rolling it back makes it transient
    have hl := hnt id List.mem_cons_self m hm
    obtain ⟨hstep, hm₁⟩ := ManagedObject.transition_eq_ok htr
    have ht : m₁.lifecycle = .transient := by
      rcases hl with hl | hl <;> rw [hl] at hstep <;> exact (Option.some.inj hstep).symm
    have hnd : m.lifecycle.isDeleted = false := by rcases hl with hl | hl <;> rw [hl] <;> rfl
    have hmid : m.id = id := id_of_find? hm
    have hid : m₁.id = id := (congrArg ManagedObject.id hm₁).trans hmid
    have hsound : m₁.Sound := by
      rw [hm₁, ht]
      exact (hs.2.managers id m hm).toTransient hnd
    refine ⟨hs.replace rfl (map_updateAt_replace hid) rfl hm hid
      ((hsound.clearDirty (by rw [ht]; decide)).congr rfl rfl rfl rfl rfl rfl rfl)
      fun op hop ho _ => absurd ho ((Within.of_sound hs).unqueued hm ?_ op hop),
      hnt.rollBack hid ht fun _ => ⟨rfl, rfl⟩⟩
    rcases hl with hl | hl <;> rw [hl] <;> decide
  next h _ _ _ _ => exact h.1
  next h _ => exact h.1

theorem releaseUnreachable_keeps_sound :
    ⦃fun s => ⌜s.Sound⌝⦄ releaseUnreachable ⦃keeps EngineState.Sound⦄ := by
  have hReach := @reach_keeps_sound
  have hReleaseOrphan := @releaseOrphan_keeps_sound
  mvcgen [releaseUnreachable, hReach, hReleaseOrphan] invariants
  | inv1 => keeps EngineState.Sound
  | inv2 => post⟨fun p s => ⌜s.Sound ∧ NewOrTransient p.1.suffix s.ctx.objects⌝,
      fun _ s => ⌜s.Sound⌝⟩
  next h _ =>
    -- the orphans are new
    refine ⟨h, newOrTransient_of_new h.2.first fun m hm => ?_⟩
    simp only [Bool.and_eq_true, beq_iff_eq] at hm
    exact hm.1.1
  next h => exact h.1

theorem commit_keeps_sound : ⦃fun s => ⌜s.Sound⌝⦄ commit ⦃keeps EngineState.Sound⦄ := by
  have hReleaseUnreachable := @releaseUnreachable_keeps_sound
  have hFlush := @flush_sound
  mvcgen [commit, hReleaseUnreachable, hFlush, updateManager, Engine.transition] invariants
  | inv1 => ends (Within EngineState.Sound (fun _ L => L.Settled) []) EngineState.Sound
  | inv2 => ends (Within EngineState.Sound (fun _ L => L.Settled) []) EngineState.Sound
  -- the first copy of the loop, after releasing unreachable objects
  next hw _ _ _ _ => exact hw.unflag
  next hw _ m₁ hm₁ hp m hm m' htr _ hh _ =>
    obtain rfl : m₁ = m := Option.some.inj (hm₁.symm.trans hm)
    exact hw.unflag.commit_hollow rfl rfl rfl hm
      (by simpa using hp) htr (beq_iff_eq.1 hh)
  next hw _ m₁ hm₁ hp m hm m' htr _ hh =>
    obtain rfl : m₁ = m := Option.some.inj (hm₁.symm.trans hm)
    exact hw.unflag.commit_kept rfl rfl rfl hm
      (by simpa using hp) htr (by simpa using hh)
  next hw _ _ _ _ _ _ _ _ => exact hw.unflag.holds
  next hw _ _ _ _ _ => exact hw.unflag.holds
  next hw _ _ => exact hw.unflag.holds
  next h => exact h.holds
  -- the second copy, with nothing released
  next hw _ _ _ _ => exact hw.unflag
  next hw _ m₁ hm₁ hp m hm m' htr _ hh _ =>
    obtain rfl : m₁ = m := Option.some.inj (hm₁.symm.trans hm)
    exact hw.unflag.commit_hollow rfl rfl rfl hm
      (by simpa using hp) htr (beq_iff_eq.1 hh)
  next hw _ m₁ hm₁ hp m hm m' htr _ hh =>
    obtain rfl : m₁ = m := Option.some.inj (hm₁.symm.trans hm)
    exact hw.unflag.commit_kept rfl rfl rfl hm
      (by simpa using hp) htr (by simpa using hh)
  next hw _ _ _ _ _ _ _ _ => exact hw.unflag.holds
  next hw _ _ _ _ _ => exact hw.unflag.holds
  next hw _ _ => exact hw.unflag.holds
  next h => exact h.holds

theorem rollback_keeps_sound : ⦃fun s => ⌜s.Sound⌝⦄ rollback ⦃keeps EngineState.Sound⦄ := by
  mvcgen [rollback, Engine.disconnect, Engine.transition, updateManager] invariants
  | inv1 => ends (Within EngineState.Sound (fun _ _ => True) []) EngineState.Sound
  next h _ _ _ _ _ fin =>
    have h' : Within EngineState.Sound (fun _ _ => True) [] fin.2 := h.disconnect rfl rfl rfl
    exact h'
  next h m₁ hm₁ ht hn m hm m' htr _ fin =>
    obtain rfl : m₁ = m := Option.some.inj (hm₁.symm.trans hm)
    -- an object neither transient nor new rolls back to hollow
    have hhollow : m'.lifecycle = .hollow := by
      obtain ⟨hstep, hm'⟩ := ManagedObject.transition_eq_ok htr
      rw [hm']
      exact LifecycleState.step_rollback hstep (by simpa using ht)
        (Bool.or_eq_false_iff.1 (Bool.eq_false_iff.2 hn)).1
    have h' : Within EngineState.Sound (fun _ _ => True) [] fin.2 :=
      h.transition_unloadAll rfl rfl rfl hm htr (by rw [hhollow]; decide) (by rw [hhollow]; decide)
        (fun _ => trivial) (fun _ _ _ _ => trivial) (by rw [h.queue_nil]; exact fun _ hop => absurd hop List.not_mem_nil)
    exact h'
  next h _ _ _ _ _ _ _ _ => exact h.holds
  next h _ _ _ _ _ => exact h.holds
  next hs _ _ _ => exact Within.cleared hs rfl rfl rfl
  next h => exact h.holds.frame rfl rfl rfl

theorem EngineState.Sound.disconnect (h : s.Sound) (hr : s'.runtime.schema = s.runtime.schema)
    (ho : s'.ctx.objects = s.ctx.objects.filter (·.id != id))
    (hq : s'.ctx.queue = s.ctx.queue.filter (·.owner != id)) : s'.Sound :=
  ((Within.of_sound h).disconnect hr ho hq).holds

theorem close_keeps_sound : ⦃fun s => ⌜s.Sound⌝⦄ close ⦃keeps EngineState.Sound⦄ := by
  mvcgen [close, Engine.disconnect] invariants
  | inv1 => post⟨fun _ s => ⌜s.Sound⌝, fun _ s => ⌜s.Sound⌝⟩
  | inv2 => post⟨fun _ s => ⌜s.Sound⌝, fun _ s => ⌜s.Sound⌝⟩
  -- with a transaction open, which is rolled back first
  next h _ fin =>
    have h' : fin.2.Sound := h.disconnect rfl rfl rfl
    exact h'
  next h _ => exact h.clear_queue rfl rfl rfl
  -- with none open
  next h _ fin =>
    have h' : fin.2.Sound := h.disconnect rfl rfl rfl
    exact h'
  next h _ => exact h.clear_queue rfl rfl rfl

theorem detachInto_keeps (P : EngineState → Prop) (fuel : Nat) (g : DetachedGraph) :
    ⦃fun s => ⌜P s⌝⦄ detachInto fuel id g ⦃keeps P⦄ := by
  induction fuel generalizing id g with
  | zero => mvcgen [detachInto]
  | succ fuel ih =>
    mvcgen [detachInto, ih] invariants
    | inv1 => keeps P

theorem detach_keeps_sound : ⦃fun s => ⌜s.Sound⌝⦄ detach id ⦃keeps EngineState.Sound⦄ := by
  have hFlush := @flush_sound
  have hDetachInto := fun x => @detachInto_keeps x EngineState.Sound
  mvcgen [detach, detachCopy, hFlush, hDetachInto, Engine.transition, updateManager,
    Engine.disconnect] invariants
  | inv1 => post⟨fun _ s => ⌜s.Sound⌝, fun _ s => ⌜s.Sound⌝⟩
  | inv2 => post⟨fun _ s => ⌜s.Sound⌝, fun _ s => ⌜s.Sound⌝⟩
  next h => exact h.holds
  -- the copy after a flush
  next h m₁ hm₁ _ m hm m' htr _ _ fin =>
    obtain rfl : m₁ = m := Option.some.inj (hm₁.symm.trans hm)
    have h' : fin.2.Sound := h.disconnect rfl (filter_map_updateAt fun _ _ => hid_of_transition hm htr) rfl
    exact h'
  next h m₁ hm₁ _ m hm m' htr _ hnone =>
    obtain rfl : m₁ = m := Option.some.inj (hm₁.symm.trans hm)
    refine absurd (Option.isSome_iff_exists.2 ⟨m', ?_⟩) hnone
    exact find?_updateAt_self (fun _ _ => hid_of_transition hm htr) hm
  -- the copy with nothing to flush
  next h m₁ hm₁ _ m hm m' htr _ _ fin =>
    obtain rfl : m₁ = m := Option.some.inj (hm₁.symm.trans hm)
    have h' : fin.2.Sound := h.disconnect rfl (filter_map_updateAt fun _ _ => hid_of_transition hm htr) rfl
    exact h'
  next h m₁ hm₁ _ m hm m' htr _ hnone =>
    obtain rfl : m₁ = m := Option.some.inj (hm₁.symm.trans hm)
    refine absurd (Option.isSome_iff_exists.2 ⟨m', ?_⟩) hnone
    exact find?_updateAt_self (fun _ _ => hid_of_transition hm htr) hm

end ObjectPersistence
