import Mathlib
import ObjectPersistence.Proofs.SoundLoading
import ObjectPersistence.Proofs.InsertionOrder

/-! # A flush keeps contexts sound

A flush inserts the new objects, applies the queue, updates the dirty objects and removes
the deleted ones; each phase keeps the context sound, and one that succeeds leaves behind
what the next phase needs. Inserting leaves no new object; applying the queue empties it,
since every round drops its first operation and a cascading delete only drops more;
updating, with nothing queued, leaves no dirty object; removing leaves no deleted one. A flush
that succeeds therefore leaves every object `Settled`.

An insert and an update forget an object's dirty fields before its flush event: in between,
the object is dirty with nothing marked (`SoundBut` the object), and the flush event makes
it clean. Each loop of a phase carries the objects still to handle (`Inserting`, `Updating`,
`Removing`), and ends with none. -/

set_option mvcgen.warning false

namespace ObjectPersistence

open Std.Do Engine ManagedObject EngineState

def EngineState.SoundBut (id : ObjectId) (Q : ManagedObject → Prop) (s : EngineState) : Prop :=
  s.Keeps fun m => m.id = id ∧ Q m ∨ m.id ≠ id ∧ m.Sound

def ManagedObject.Flushes (m : ManagedObject) : Prop :=
  ∃ s', m.lifecycle.step .flush = some s' ∧ { m with lifecycle := s' }.Sound

theorem LifecycleState.step_flush_ne_new {s s' : LifecycleState} (h : s.step .flush = some s') :
    s' ≠ .persistentNew := by
  cases s <;> cases h <;> decide

theorem LifecycleState.step_delete_ne_new {s s' : LifecycleState} (h : s.step .delete = some s') :
    s' ≠ .persistentNew := by
  cases s <;> cases h <;> decide

def LifecycleState.Settled (s : LifecycleState) : Prop :=
  s ≠ .persistentNew ∧ s ≠ .persistentDirty ∧ s.isDeleted = false

theorem LifecycleState.step_flush_some {s : LifecycleState} (h : s ≠ .detached) :
    ∃ s', s.step .flush = some s' := by
  cases s
  case detached => exact absurd rfl h
  all_goals exact ⟨_, rfl⟩

variable {F G : ObjectId → LifecycleState → Prop} {q : List Operation} {id : ObjectId}
  {s : EngineState} {m m' : ManagedObject}

theorem ManagedObject.Sound.flushes_clearDirty (h : m.Sound) (v : Option Int) :
    { m.clearDirty with version := v }.Flushes := by
  obtain ⟨s', hs⟩ := LifecycleState.step_flush_some h.not_detached
  exact ⟨s', hs, (h.flush hs).congr rfl rfl rfl rfl rfl rfl rfl⟩

theorem map_updateAt_of_find?_none {objs : List ManagedObject} (h : objs.find? (·.id == id) = none)
    (f : ManagedObject → ManagedObject) : objs.map (updateAt id f) = objs := by
  conv_rhs => rw [← List.map_id objs]
  refine List.map_congr_left fun m hm => ?_
  have hne := List.find?_eq_none.1 h m hm
  simp only [updateAt, hne, Bool.false_eq_true, if_false, id_eq]

/-- A lifecycle event on the first manager of an object takes its state from one allowed by
`F` to one allowed by `G`. -/
theorem FirstManagers.states_replace (h : FirstManagers (fun m => F m.id m.lifecycle) objs)
    (hm : objs.find? (·.id == id) = some m) (hid : m'.id = id)
    (hF : F id m.lifecycle → G id m'.lifecycle) (hother : ∀ x L, x ≠ id → F x L → G x L) :
    FirstManagers (fun m => G m.id m.lifecycle) (objs.map (updateAt id fun _ => m')) := by
  refine h.map_updateAt (fun _ _ => hid) (fun m₀ hm₀ => ?_) fun m₀ hs hne => hother _ _ hne hs
  obtain rfl : m₀ = m := Option.some.inj (hm₀.symm.trans hm)
  show G m'.id m'.lifecycle
  rw [hid]
  exact hF (id_of_find? hm ▸ h id m₀ hm₀)

namespace EngineState

theorem Within.mono {I : EngineState → Prop} (h : s.Within I F q) (hF : ∀ x L, F x L → G x L) :
    s.Within I G q :=
  ⟨h.holds, h.states.mono fun _ hm => hF _ _ hm, h.queued⟩

theorem Within.of_sound (h : s.Sound) : s.Within EngineState.Sound (fun _ _ => True) s.ctx.queue :=
  ⟨h, fun _ _ _ => trivial, List.Sublist.refl _⟩

/-- A lifecycle event on the first manager of an object: the new manager keeps `Q`, and so do
the first managers of the other objects. -/
theorem Within.transition {P Q : ManagedObject → Prop} {e : LifecycleEvent}
    (h : s.Within (Keeps P) F q) (hm : s.ctx.objects.find? (·.id == id) = some m)
    (htr : m.transition e = .ok m') (hQ : Q m') (hother : ∀ m, P m → m.id ≠ id → Q m)
    (hF : F id m.lifecycle → G id m'.lifecycle) (hFother : ∀ x L, x ≠ id → F x L → G x L)
    (hq : ∀ op ∈ s.ctx.queue, op.owner = id → m.Takes op.field → m'.Takes op.field) :
    Within (Keeps Q) G q
      { s with ctx := { s.ctx with objects := s.ctx.objects.map (updateAt id fun _ => m') } } := by
  have hmid : m.id = id := id_of_find? hm
  have hid : m'.id = id := (congrArg ManagedObject.id (ManagedObject.transition_eq_ok htr).2).trans hmid
  exact ⟨⟨h.holds.1, h.holds.2.transition hm htr hQ hother hq⟩,
    h.states.states_replace hm hid hF hFother, h.queued⟩

theorem Within.unqueued {P : ManagedObject → Prop} (h : s.Within (Keeps P) F q)
    (hm : s.ctx.objects.find? (·.id == id) = some m) (hd : m.lifecycle ≠ .persistentDirty) :
    ∀ op ∈ s.ctx.queue, op.owner ≠ id := by
  rintro op hop rfl
  obtain ⟨m₀, hm₀, ht⟩ := h.holds.2.queue op hop
  rw [hm] at hm₀
  cases hm₀
  exact hd ht.1

theorem Within.clearDirty (h : s.Within EngineState.Sound F q) (v : Option Int) :
    Within (SoundBut id Flushes) F q
      { s with ctx := { s.ctx with
        objects := s.ctx.objects.map (updateAt id fun m => { m.clearDirty with version := v }) } } := by
  refine ⟨⟨h.holds.1, h.holds.2.update (.of_lifecycle fun _ => ⟨rfl, rfl⟩) (fun m hm => ?_)
    (fun _ hs hne => .inr ⟨hne, hs⟩) fun _ _ _ _ _ ht => ht.congr rfl rfl⟩,
    h.states.states_update fun _ => ⟨rfl, rfl⟩, h.queued⟩
  have hmid : m.id = id := id_of_find? hm
  exact .inl ⟨hmid, (h.holds.2.managers id m hm).flushes_clearDirty v⟩

theorem Within.flush (h : s.Within (SoundBut id Flushes) F q)
    (hm : s.ctx.objects.find? (·.id == id) = some m) (htr : m.transition .flush = .ok m')
    (hF : F id m.lifecycle → G id m'.lifecycle) (hother : ∀ x L, x ≠ id → F x L → G x L)
    (hq : ∀ op ∈ s.ctx.queue, op.owner ≠ id) :
    Within EngineState.Sound G q
      { s with ctx := { s.ctx with objects := s.ctx.objects.map (updateAt id fun _ => m') } } := by
  obtain ⟨hstep, hm'⟩ := ManagedObject.transition_eq_ok htr
  have hsound : m'.Sound := by
    rcases h.holds.2.managers id m hm with ⟨-, s', hs', hsound⟩ | ⟨hne, -⟩
    · rw [hstep] at hs'
      cases hs'
      rw [hm']
      exact hsound
    · exact absurd (id_of_find? hm) hne
  exact h.transition hm htr hsound (fun _ hs hne => by
      rcases hs with ⟨hid, -⟩ | ⟨-, hs⟩
      · exact absurd hid hne
      · exact hs) hF hother fun op hop ho => absurd ho (hq op hop)

theorem Within.install_of (h : s.Within EngineState.Sound F q) (hh : ∀ L, F id L → L ≠ .hollow)
    {f : Nat} {sl : Slot} (hfits : ∀ m, s.ctx.objects.find? (·.id == id) = some m → m.Fits f sl) :
    Within EngineState.Sound F q
      { s with ctx := { s.ctx with objects := s.ctx.objects.map (updateAt id (·.install f sl)) } } := by
  cases hm : s.ctx.objects.find? (·.id == id) with
  | none =>
    rw [map_updateAt_of_find?_none hm]
    exact h
  | some m =>
    have hmid : m.id = id := id_of_find? hm
    exact h.install hm (hh _ (hmid ▸ h.states id m hm)) (hfits m hm)

theorem Within.dropFirst (h : s.Within EngineState.Sound F q) :
    Within EngineState.Sound F q.tail
      { s with ctx := { s.ctx with queue := s.ctx.queue.drop 1 } } := by
  have hsub : List.Sublist (s.ctx.queue.drop 1) s.ctx.queue := List.drop_sublist 1 _
  refine ⟨⟨h.holds.1, ⟨h.holds.2.first, h.holds.2.managers, fun op hop => ?_⟩⟩, h.states, ?_⟩
  · exact h.holds.2.queue op (hsub.subset hop)
  · show List.Sublist (s.ctx.queue.drop 1) q.tail
    rw [List.drop_one]
    exact h.queued.tail

theorem Within.rebound {I : EngineState → Prop} {n : Nat} (h : s.Within I F q) (hq : q.length ≤ n) :
    s.Within I F s.ctx.queue ∧ s.ctx.queue.length ≤ n :=
  ⟨⟨h.holds, h.states, List.Sublist.refl _⟩, h.queued.length_le.trans hq⟩

theorem Within.setVersion (h : s.Within EngineState.Sound F q) (v : Option Int) :
    Within EngineState.Sound F q
      { s with ctx := { s.ctx with
        objects := s.ctx.objects.map (updateAt id fun m => { m with version := v }) } } :=
  ⟨⟨h.holds.1, h.holds.2.update_congr fun _ => ⟨rfl, rfl, rfl, rfl, rfl, rfl, rfl⟩⟩,
    h.states.states_update fun _ => ⟨rfl, rfl⟩, h.queued⟩

theorem Within.disconnect {P : ManagedObject → Prop} {s' : EngineState} (h : s.Within (Keeps P) F q)
    (hr : s'.runtime.schema = s.runtime.schema) (ho : s'.ctx.objects = s.ctx.objects.filter (·.id != id))
    (hq : s'.ctx.queue = s.ctx.queue.filter (·.owner != id)) : s'.Within (Keeps P) F q := by
  refine ⟨⟨hr ▸ h.holds.1, ?_⟩, ?_, ?_⟩
  · rw [ho, hq]
    exact h.holds.2.filter
  · rw [ho]
    exact h.states.filter
  · rw [hq]
    exact List.filter_sublist.trans h.queued

theorem Within.of_head?_none {I : EngineState → Prop} (h : s.Within I F s.ctx.queue)
    (hnone : ∀ op, s.ctx.queue.head? = some op → False) : s.Within I F [] := by
  cases hq : s.ctx.queue with
  | nil =>
    rw [hq] at h
    exact h
  | cons op rest => exact absurd (by rw [hq]; rfl) (hnone op)

theorem SoundBut.sound_of_none {Q : ManagedObject → Prop} (h : s.SoundBut id Q)
    (hnone : s.ctx.objects.find? (·.id == id) = none) : s.Sound := by
  refine ⟨h.1, h.2.first, fun j m hj => ?_, h.2.queue⟩
  rcases h.2.managers j m hj with ⟨hid, -⟩ | ⟨-, hs⟩
  · have hmj : m.id = j := id_of_find? hj
    rw [← hmj, hid, hnone] at hj
    cases hj
  · exact hs

theorem Within.flush_some (h : s.Within (SoundBut id Flushes) F q)
    (hm : s.ctx.objects.find? (·.id == id) = some m) : ∃ s', m.lifecycle.step .flush = some s' := by
  rcases h.holds.2.managers id m hm with ⟨-, s', hs', -⟩ | ⟨hne, -⟩
  · exact ⟨s', hs'⟩
  · exact absurd (id_of_find? hm) hne

end EngineState

theorem generateValues_sound (hh : ∀ L, F id L → L ≠ .hollow) (cls : ClassMeta) :
    ⦃fun s => ⌜s.Within EngineState.Sound F q⌝⦄ generateValues id cls
    ⦃keeps (Within EngineState.Sound F q)⦄ := by
  mvcgen [generateValues, updateManager] invariants
  | inv1 => keeps (Within EngineState.Sound F q)
  all_goals exact ‹Within _ _ _ _›.install_of hh fun m _ => fits_value m _ _

theorem insertObject_sound (hclean : ∀ x, F x .hollow → F x .persistentClean)
    (hisnew : ∀ L, F id L → L = .persistentNew) (hnew : F id .persistentNew → G id .persistentClean)
    (hother : ∀ x L, x ≠ id → F x L → G x L) :
    ⦃fun s => ⌜s.Within EngineState.Sound F q⌝⦄ insertObject id
    ⦃ends (Within EngineState.Sound G q) EngineState.Sound⦄ := by
  have hEnsureLoaded := @ensureLoaded_sound F q id hclean
  have hGenerateValues := @generateValues_sound F q id fun L hL => by rw [hisnew L hL]; decide
  mvcgen [insertObject, hEnsureLoaded, hGenerateValues, updateManager, Engine.transition]
  next h _ _ _ _ _ cleared m hm m' htr _ =>
    have h₁ : Within (SoundBut id Flushes) F q cleared.2 := h.clearDirty _
    have hnew' : m.lifecycle = .persistentNew := hisnew _ (id_of_find? hm ▸ h₁.states id m hm)
    refine h₁.flush hm htr (fun hF => ?_) hother (h₁.unqueued hm (by rw [hnew']; decide))
    have hstep := (ManagedObject.transition_eq_ok htr).1
    rw [hnew'] at hstep hF
    rw [← Option.some.inj hstep]
    exact hnew hF
  next h _ _ _ _ _ cleared m hm _ htr =>
    -- a new object always has a flush
    have h₁ : Within (SoundBut id Flushes) F q cleared.2 := h.clearDirty _
    obtain ⟨s', hs'⟩ := h₁.flush_some hm
    rw [ManagedObject.transition_eq_error htr] at hs'
    cases hs'
  next h _ _ _ _ _ cleared hnone =>
    have h₁ : Within (SoundBut id Flushes) F q cleared.2 := h.clearDirty _
    exact h₁.holds.sound_of_none hnone
  -- a failure before the flush leaves the state the steps before it kept sound
  all_goals first
    | exact ‹Within EngineState.Sound F q _›.holds
    | exact fun h => h.holds

theorem mem_pendingIds_of_mem_insertionOrder {objects : List ManagedObject}
    {only : Option ObjectId} {x : ObjectId} (hx : x ∈ insertionOrder objects only) :
    x ∈ pendingIds objects := by
  obtain ⟨-, hnone, hsome, -⟩ := insertionOrder_spec objects only
  cases only with
  | none => exact (hnone rfl x).1 hx
  | some id => exact ((hsome id rfl x).1 hx).target

theorem FirstInUse.new_iff_pending {objs : List ManagedObject} (h : FirstInUse objs) {x : ObjectId}
    (hm : objs.find? (·.id == x) = some m) : m.lifecycle = .persistentNew ↔ x ∈ pendingIds objs := by
  rw [mem_pendingIds]
  constructor
  · intro hnew
    exact ⟨m, List.mem_of_find?_eq_some hm, hnew, id_of_find? hm⟩
  · rintro ⟨m', hm', hnew, rfl⟩
    rw [h m' hm' (by rw [hnew]; decide)] at hm
    cases hm
    exact hnew

/-- What a flush of new objects keeps while objects `rest` are still to be inserted: `F`,
the objects of `rest` are new, and without a start they are the only new ones. -/
def Inserting (F : ObjectId → LifecycleState → Prop) (only : Option ObjectId) (rest : List ObjectId)
    (x : ObjectId) (L : LifecycleState) : Prop :=
  F x L ∧ (x ∈ rest → L = .persistentNew) ∧ (only = none → L = .persistentNew → x ∈ rest)

theorem insertObject_inserting (hclean : ∀ x, F x .hollow → F x .persistentClean)
    (hnew : ∀ x, F x .persistentNew → F x .persistentClean) (only : Option ObjectId)
    (rest : List ObjectId) :
    ⦃fun s => ⌜s.Within EngineState.Sound (Inserting F only (id :: rest)) q ∧ (id :: rest).Nodup⌝⦄
    insertObject id
    ⦃ends (fun s => s.Within EngineState.Sound (Inserting F only rest) q ∧ rest.Nodup)
      EngineState.Sound⦄ := by
  intro s hs
  obtain ⟨h, hnd⟩ := hs
  obtain ⟨hnot, hrest⟩ := List.nodup_cons.1 hnd
  have hsound := @insertObject_sound (Inserting F only (id :: rest)) (Inserting F only rest) q id
    (fun x hx => ⟨hclean x hx.1, fun hmem => absurd (hx.2.1 hmem) (by decide),
      fun _ hn => absurd hn (by decide)⟩)
    (fun L hL => hL.2.1 List.mem_cons_self)
    (fun hx => ⟨hnew id hx.1, fun hmem => absurd hmem hnot, fun _ hn => absurd hn (by decide)⟩)
    (fun x L hne hx => ⟨hx.1, fun hmem => hx.2.1 (List.mem_cons_of_mem _ hmem),
      fun hn hl => (List.mem_cons.1 (hx.2.2 hn hl)).resolve_left hne⟩)
  refine Triple.entails_wp_of_post hsound ?_ s h
  exact ⟨fun _ _ h' => ⟨h', hrest⟩, fun _ _ h' => h', trivial⟩

theorem flushNew_sound (hclean : ∀ x, F x .hollow → F x .persistentClean)
    (hnew : ∀ x, F x .persistentNew → F x .persistentClean) (only : Option ObjectId) :
    ⦃fun s => ⌜s.Within EngineState.Sound F q⌝⦄ flushNew only
    ⦃ends (Within EngineState.Sound (fun x L => F x L ∧ (only = none → L ≠ .persistentNew)) q)
      EngineState.Sound⦄ := by
  have hInsertObject := fun id => @insertObject_inserting F q id hclean hnew only
  mvcgen [flushNew, hInsertObject] invariants
  | inv1 => post⟨fun p s => ⌜s.Within EngineState.Sound (Inserting F only p.1.suffix) q ∧
      p.1.suffix.Nodup⌝, fun _ s => ⌜s.Sound⌝⟩
  next h _ hempty =>
    -- nothing is new
    refine ⟨h.holds, fun x m hm => ⟨h.states x m hm, fun _ hnew => ?_⟩, h.queued⟩
    have hx := (h.holds.2.first.new_iff_pending hm).1 hnew
    rw [List.isEmpty_iff.1 hempty] at hx
    exact List.not_mem_nil hx
  next s h _ _ _ =>
    -- the order lists new objects once each, and without a start every new object
    obtain ⟨hnd, hnone, -, -⟩ := insertionOrder_spec s.ctx.objects only
    refine ⟨⟨h.holds, fun x m hm => ⟨h.states x m hm, fun hx => ?_, fun hn hnew => ?_⟩,
      h.queued⟩, hnd⟩
    · have hmx : m.id = x := id_of_find? hm
      exact (h.holds.2.first.new_iff_pending hm).2 (hmx ▸ mem_pendingIds_of_mem_insertionOrder hx)
    · have hmx : m.id = x := id_of_find? hm
      exact hmx ▸ (hnone hn x).2 ((h.holds.2.first.new_iff_pending hm).1 hnew)
  next h => exact h.1.mono fun x L hx => ⟨hx.1, fun hn hnew => absurd (hx.2.2 hn hnew) List.not_mem_nil⟩

section Applying

variable (hhollow : ∀ x, F x .hollow) (hclean : ∀ x, F x .hollow → F x .persistentClean)
  (hdel : ∀ x L L', L.step .delete = some L' → F x L → F x L')
include hhollow hclean hdel

theorem applyQueue_sound (fuel applied : Nat) :
    ⦃fun s => ⌜s.Within EngineState.Sound F s.ctx.queue ∧ s.ctx.queue.length ≤ fuel⌝⦄
    applyQueue fuel applied ⦃ends (Within EngineState.Sound F []) EngineState.Sound⦄ := by
  induction fuel generalizing applied with
  | zero =>
    mvcgen [applyQueue]
    next s h =>
      obtain ⟨h, hlen⟩ := h
      rw [List.eq_nil_of_length_eq_zero (Nat.le_zero.1 hlen)] at h
      exact h
  | succ fuel ih =>
    -- the operations left after this round are bounded by the queue's tail
    intro s₀ hs₀
    obtain ⟨h₀, hlen₀⟩ := hs₀
    have hlen : s₀.ctx.queue.tail.length ≤ fuel := by
      rw [List.length_tail]
      omega
    have hDeleteDependent := fun t => @deleteDependent_sound F s₀.ctx.queue.tail t hhollow hclean hdel
    have key : ⦃fun s => ⌜s = s₀⌝⦄ applyQueue (fuel + 1) applied
        ⦃ends (Within EngineState.Sound F []) EngineState.Sound⦄ := by
      mvcgen [applyQueue, hDeleteDependent, ih]
      all_goals subst_vars
      · exact h₀.holds
      · exact h₀.dropFirst
      · next h => exact h.rebound hlen
      · exact fun h => h.holds
      · exact h₀.dropFirst.rebound hlen
      · exact h₀.dropFirst.holds
      · exact h₀.dropFirst.rebound hlen
      · exact h₀.dropFirst.holds
      · exact h₀.dropFirst.rebound hlen
      · exact h₀.holds
      · exact h₀.dropFirst.rebound hlen
      · next hnone => exact h₀.of_head?_none hnone
    exact key s₀ rfl

end Applying

/-- What an update of the dirty objects keeps while objects `rest` are still to be updated:
`F`, and only objects of `rest` are dirty. -/
def Updating (F : ObjectId → LifecycleState → Prop) (rest : List ObjectId) (x : ObjectId)
    (L : LifecycleState) : Prop :=
  F x L ∧ (L = .persistentDirty → x ∈ rest)

theorem knownVersion_sound (cls : ClassMeta) :
    ⦃fun s => ⌜s.Within EngineState.Sound F q⌝⦄ knownVersion id cls
    ⦃keeps (Within EngineState.Sound F q)⦄ := by
  mvcgen [knownVersion, updateManager]
  exact ‹Within _ _ _ _›.setVersion _

theorem EngineState.Within.updated {rest : List ObjectId} (h : s.Within EngineState.Sound (Updating F (id :: rest)) [])
    (hflush : ∀ x L L', L.step .flush = some L' → F x L → F x L') (v : Option Int)
    (hm : (s.ctx.objects.map (updateAt id fun m => { m.clearDirty with version := v })).find?
      (·.id == id) = some m)
    (htr : m.transition .flush = .ok m') :
    Within EngineState.Sound (Updating F rest) []
      { s with ctx := { s.ctx with objects := (s.ctx.objects.map
        (updateAt id fun m => { m.clearDirty with version := v })).map (updateAt id fun _ => m') } } := by
  have hstep := (ManagedObject.transition_eq_ok htr).1
  have hempty : s.ctx.queue = [] := List.sublist_nil.1 h.queued
  refine (h.clearDirty v).flush hm htr (fun hF => ⟨hflush id _ _ hstep hF.1, fun hd => ?_⟩)
    (fun x L hne hF => ⟨hF.1, fun hd => (List.mem_cons.1 (hF.2 hd)).resolve_left hne⟩)
    fun op hop => absurd hop (by rw [hempty]; exact List.not_mem_nil)
  exact absurd hd (LifecycleState.step_flush hstep).1

theorem flushUpdates_sound (hflush : ∀ x L L', L.step .flush = some L' → F x L → F x L')
    (queued : List FieldOwner) :
    ⦃fun s => ⌜s.Within EngineState.Sound F []⌝⦄ flushUpdates queued
    ⦃ends (Within EngineState.Sound (fun x L => F x L ∧ L ≠ .persistentDirty) [])
      EngineState.Sound⦄ := by
  have hKnownVersion := fun id (rest : List ObjectId) =>
    @knownVersion_sound (Updating F (id :: rest)) [] id
  mvcgen [flushUpdates, hKnownVersion, updateManager, Engine.transition] invariants
  | inv1 => post⟨fun p s => ⌜s.Within EngineState.Sound (Updating F p.1.suffix) []⌝,
      fun _ s => ⌜s.Sound⌝⟩
  -- the failures before the object's flush leave what the steps before them kept
  next h _ _ _ _ _ _ _ => exact h.holds
  next h _ _ _ _ _ _ _ _ _ _ m hm m' htr _ => exact h.updated hflush _ hm htr
  next h _ _ _ _ _ _ _ _ _ _ m hm _ htr =>
    -- every manager has a flush
    obtain ⟨s', hs'⟩ := (h.clearDirty _).flush_some hm
    rw [ManagedObject.transition_eq_error htr] at hs'
    cases hs'
  next h _ _ _ _ _ _ _ _ _ _ hnone => exact (h.clearDirty _).holds.sound_of_none hnone
  next h _ _ _ _ _ _ _ _ => exact h.holds
  next h _ => exact h.holds
  next => exact fun _ h => h.holds
  next h _ => exact h.holds
  next h _ =>
    -- every dirty object is one of those to update
    refine ⟨h.holds, fun x m hm => ⟨h.states x m hm, fun hd => ?_⟩, h.queued⟩
    exact List.mem_map_of_mem (List.mem_filter.2 ⟨List.mem_of_find?_eq_some hm, by simp [hd]⟩)
  next h => exact h.mono fun x L hx => ⟨hx.1, fun hd => absurd (hx.2 hd) List.not_mem_nil⟩

/-- What a flush of deleted objects keeps while objects `rest` are still to be removed: `F`,
and only objects of `rest` are deleted. -/
def Removing (F : ObjectId → LifecycleState → Prop) (rest : List ObjectId) (x : ObjectId)
    (L : LifecycleState) : Prop :=
  F x L ∧ (L.isDeleted → x ∈ rest)

theorem EngineState.Within.removed {I : EngineState → Prop} {rest : List ObjectId}
    (h : s.Within I (Removing F (id :: rest)) q) (hnone : s.ctx.objects.find? (·.id == id) = none) :
    s.Within I (Removing F rest) q := by
  refine ⟨h.holds, fun x m hm => ⟨(h.states x m hm).1, fun hd => ?_⟩, h.queued⟩
  have hmx : m.id = x := id_of_find? hm
  refine (List.mem_cons.1 ((h.states x m hm).2 hd)).resolve_left fun hid => ?_
  rw [← hmx, hid, hnone] at hm
  cases hm

theorem flushDeletes_sound :
    ⦃fun s => ⌜s.Within EngineState.Sound F q⌝⦄ flushDeletes
    ⦃ends (Within EngineState.Sound (fun x L => F x L ∧ L.isDeleted = false) q)
      EngineState.Sound⦄ := by
  have hKnownVersion := fun id (rest : List ObjectId) =>
    @knownVersion_sound (Removing F (id :: rest)) q id
  mvcgen [flushDeletes, hKnownVersion, Engine.disconnect] invariants
  | inv1 => post⟨fun p s => ⌜s.Within EngineState.Sound (Removing F (p.1.suffix.map Prod.fst)) q⌝,
      fun _ s => ⌜s.Sound⌝⟩
  next h _ _ _ _ _ fin =>
    have h' : Within EngineState.Sound (Removing F _) q fin.2 := h.disconnect rfl rfl rfl
    exact h'.removed FirstManagers.find?_filter_self
  next h _ _ _ _ hnone => exact h.removed (Option.not_isSome_iff_eq_none.1 hnone)
  next h _ _ => exact h.holds
  next => exact fun _ h => h.holds
  next h _ => exact h.holds
  next h _ fin =>
    have h' : Within EngineState.Sound (Removing F _) q fin.2 := h.disconnect rfl rfl rfl
    exact h'.removed FirstManagers.find?_filter_self
  next h hnone => exact h.removed (Option.not_isSome_iff_eq_none.1 hnone)
  next h _ =>
    -- every deleted object is one of those to remove
    refine ⟨h.holds, fun x m hm => ⟨h.states x m hm, fun hd => ?_⟩, h.queued⟩
    exact List.mem_map.2 ⟨(m.id, m.lifecycle),
      List.mem_map.2 ⟨m, List.mem_filter.2 ⟨List.mem_of_find?_eq_some hm, hd⟩, rfl⟩, rfl⟩
  next h => exact h.mono fun x L hx => ⟨hx.1, Bool.eq_false_iff.2 fun hd => absurd (hx.2 hd) List.not_mem_nil⟩

theorem EngineState.Within.own_queue {α} {x : Engine α} {I J E : EngineState → Prop}
    (h : ∀ q, ⦃fun s => ⌜s.Within I F q⌝⦄ x ⦃ends (Within J G q) E⦄) :
    ⦃fun s => ⌜s.Within I F s.ctx.queue⌝⦄ x ⦃ends (fun s => s.Within J G s.ctx.queue) E⦄ := by
  intro s hs
  refine Triple.entails_wp_of_post (h s.ctx.queue) ?_ s hs
  exact ⟨fun _ _ h' => ⟨h'.holds, h'.states, List.Sublist.refl _⟩, fun _ _ h' => h', trivial⟩

theorem flush_sound :
    ⦃fun s => ⌜s.Sound⌝⦄ flush
    ⦃ends (Within EngineState.Sound (fun _ L => L.Settled) []) EngineState.Sound⦄ := by
  have hFlushNew := Within.own_queue fun q =>
    @flushNew_sound (fun _ _ => True) q (fun _ _ => trivial) (fun _ _ => trivial) none
  have hApplyQueue := @applyQueue_sound (fun _ L => L ≠ .persistentNew) (fun _ => by decide)
    (fun _ _ => by decide) fun _ _ _ hs _ => LifecycleState.step_delete_ne_new hs
  have hFlushUpdates := @flushUpdates_sound (fun _ L => L ≠ .persistentNew)
    fun _ _ _ hs _ => LifecycleState.step_flush_ne_new hs
  have hFlushDeletes := @flushDeletes_sound
    (fun _ L => L ≠ .persistentNew ∧ L ≠ .persistentDirty) []
  mvcgen [flush, hFlushNew, hApplyQueue, hFlushUpdates, hFlushDeletes]
  next h => exact Within.of_sound h
  next h => exact ⟨h.mono fun _ _ hx => hx.2, le_rfl⟩
  next => exact fun h => h.mono fun _ _ hx => ⟨hx.1.1, hx.1.2, hx.2⟩

end ObjectPersistence
