import Mathlib
import ObjectPersistence.Proofs.SoundContext

/-! # Loading and deleting keep contexts sound

A context stays sound while the engine loads objects, binds stored objects hollow, makes
new transient ones, and deletes objects with their dependents. Later steps rely on which
lifecycle states objects may be in: a flush leaves no new object behind, and the updates of
a flush start from an empty queue. So each statement here also keeps a condition `F` on the
object and state of every first manager, and a bound `q` on the queue, which these steps
only shorten: `Within Sound F q`. Each statement asks of `F` what its step may do to a
state: a load makes a hollow object clean, a delete moves an object along a delete step.

A load fills a hollow object's fields one at a time before the object turns clean; in
between, the state is only `LoadingAt` the object. The data a load brings is admitted by
the object's class, so installing it cannot fail partway. -/

set_option mvcgen.warning false

namespace ObjectPersistence
open Std.Do Engine ManagedObject

namespace EngineState

/-- The state satisfies `I`, the object and lifecycle state of every first manager satisfy
`F`, and the queue is a part of `q`, in its order. -/
def Within (I : EngineState → Prop) (F : ObjectId → LifecycleState → Prop) (q : List Operation)
    (s : EngineState) : Prop :=
  I s ∧ FirstManagers (fun m => F m.id m.lifecycle) s.ctx.objects ∧ s.ctx.queue.Sublist q

variable {I : EngineState → Prop} {F : ObjectId → LifecycleState → Prop} {q : List Operation}
  {s : EngineState}

theorem Within.holds (h : s.Within I F q) : I s := h.1

theorem Within.states (h : s.Within I F q) :
    FirstManagers (fun m => F m.id m.lifecycle) s.ctx.objects := h.2.1

theorem Within.queued (h : s.Within I F q) : s.ctx.queue.Sublist q := h.2.2

def FirstOf (id : ObjectId) (p : ManagedObject → Prop) (s : EngineState) : Prop :=
  ∃ m, s.ctx.objects.find? (·.id == id) = some m ∧ p m

theorem FirstOf.find_ne_none {id : ObjectId} {p : ManagedObject → Prop} (h : s.FirstOf id p) :
    s.ctx.objects.find? (·.id == id) ≠ none := by
  obtain ⟨m, hm, -⟩ := h
  rw [hm]
  exact Option.some_ne_none m

end EngineState

open EngineState

variable {F : ObjectId → LifecycleState → Prop} {q : List Operation} {id : ObjectId}
  {s : EngineState} {m : ManagedObject}

theorem FirstManagers.states_update {objs : List ManagedObject} {f : ManagedObject → ManagedObject}
    (h : FirstManagers (fun m => F m.id m.lifecycle) objs)
    (hf : ∀ m, (f m).id = m.id ∧ (f m).lifecycle = m.lifecycle) :
    FirstManagers (fun m => F m.id m.lifecycle) (objs.map (updateAt id f)) :=
  h.map_updateAt (fun m hm => (hf m).1.trans hm)
    (fun m hm => by rw [(hf m).1, (hf m).2]; exact h id m hm) fun _ hm _ => hm

namespace EngineState.Within

theorem install (h : s.Within EngineState.Sound F q)
    (hm : s.ctx.objects.find? (·.id == id) = some m) (hh : m.lifecycle ≠ .hollow) {f : Nat}
    {sl : Slot} (hfits : m.Fits f sl) :
    Within EngineState.Sound F q
      { s with ctx := { s.ctx with objects := s.ctx.objects.map (updateAt id (·.install f sl)) } } :=
  ⟨⟨h.holds.1, h.holds.2.install hm hh hfits⟩,
    h.states.states_update fun m => ⟨(install_fields m f sl).1, (install_fields m f sl).2.2.1⟩,
    h.queued⟩

theorem install_loading (h : s.Within (LoadingAt id) F q)
    (hm : s.ctx.objects.find? (·.id == id) = some m) {f : Nat} {sl : Slot} (hfits : m.Fits f sl) :
    Within (LoadingAt id) F q
      { s with ctx := { s.ctx with objects := s.ctx.objects.map (updateAt id (·.install f sl)) } } :=
  ⟨⟨h.holds.1, h.holds.2.install_loading hm hfits⟩,
    h.states.states_update fun m => ⟨(install_fields m f sl).1, (install_fields m f sl).2.2.1⟩,
    h.queued⟩

theorem loadingAt (h : s.Within EngineState.Sound F q) : s.Within (LoadingAt id) F q :=
  ⟨h.holds.loadingAt, h.states, h.queued⟩

theorem sound_of_not_hollow (h : s.Within (LoadingAt id) F q)
    (hm : s.ctx.objects.find? (·.id == id) = some m) (hh : m.lifecycle ≠ .hollow) :
    s.Within EngineState.Sound F q := by
  refine ⟨h.holds.sound fun m' hm' => ?_, h.states, h.queued⟩
  obtain rfl : m' = m := Option.some.inj (hm'.symm.trans hm)
  exact (h.holds.loading hm').sound hh

theorem readField (h : s.Within (LoadingAt id) F q) (hF : ∀ x, F x .hollow → F x .persistentClean)
    (hm : s.ctx.objects.find? (·.id == id) = some m) (hh : m.lifecycle = .hollow) {m' : ManagedObject}
    (htr : m.transition .readField = .ok m') :
    Within EngineState.Sound F q
      { s with ctx := { s.ctx with objects := s.ctx.objects.map (updateAt id fun _ => m') } } := by
  obtain ⟨hstep, hm'⟩ := ManagedObject.transition_eq_ok htr
  have hmid : m.id = id := id_of_find? hm
  have hid : m'.id = id := (congrArg ManagedObject.id hm').trans hmid
  have hclean : m'.lifecycle = .persistentClean := by
    rw [hh] at hstep
    exact (Option.some.inj hstep).symm
  refine ⟨⟨h.holds.1, h.holds.2.transition hm htr ?_ ?_ ?_⟩, ?_, h.queued⟩
  · rw [hm']
    exact (h.holds.loading hm).readField hstep
  · rintro m₀ (hs | ⟨hid₀, -⟩) hne
    · exact hs
    · exact absurd hid₀ hne
  · -- nothing is queued for a hollow object, which is not dirty
    intro op _ _ ht
    have hd := ht.1
    rw [hh] at hd
    cases hd
  · refine h.states.map_updateAt (fun _ _ => hid) (fun m₀ hm₀ => ?_) fun _ hm₀ _ => hm₀
    obtain rfl : m₀ = m := Option.some.inj (hm₀.symm.trans hm)
    have hF₀ : F m₀.id m₀.lifecycle := h.states id m₀ hm₀
    show F m'.id m'.lifecycle
    rw [hid, hclean]
    rw [hmid, hh] at hF₀
    exact hF id hF₀

variable {P : ManagedObject → Prop} {s' : EngineState}

/-- A manager appended after the others: one that is in use must be of an object the context
did not manage, and one found first must keep `P` and `F`. -/
theorem append (h : s.Within (Keeps P) F q) {m : ManagedObject}
    (hr : s'.runtime.schema = s.runtime.schema) (ho : s'.ctx.objects = s.ctx.objects ++ [m])
    (hq : s'.ctx.queue = s.ctx.queue)
    (hnew : m.lifecycle ≠ .transient → ∀ m' ∈ s.ctx.objects, m'.id ≠ m.id)
    (hm : s.ctx.objects.find? (·.id == m.id) = none → P m ∧ F m.id m.lifecycle) :
    s'.Within (Keeps P) F q := by
  refine ⟨⟨hr ▸ h.holds.1, ?_⟩, ?_, hq ▸ h.queued⟩
  · rw [ho, hq]
    exact h.holds.2.append hnew fun hn => (hm hn).1
  · rw [ho]
    exact h.states.append fun hn => (hm hn).2

/-- Deleting an object: its first manager moves to a deleted state, its wrappers let go of
their owner, and its queued operations are dropped. -/
theorem delete (h : s.Within EngineState.Sound F q)
    (hdel : ∀ x L L', L.step .delete = some L' → F x L → F x L')
    (hm : s.ctx.objects.find? (·.id == id) = some m) {m' : ManagedObject}
    (htr : m.transition .delete = .ok m') (hr : s'.runtime.schema = s.runtime.schema)
    (ho : s'.ctx.objects =
      (s.ctx.objects.map (updateAt id fun _ => m')).map (updateAt id (·.unsetWrapperOwners)))
    (hq : s'.ctx.queue = s.ctx.queue.filter (·.owner != id)) : s'.Within EngineState.Sound F q := by
  obtain ⟨hstep, hm'⟩ := ManagedObject.transition_eq_ok htr
  have hmid : m.id = id := id_of_find? hm
  have hid : m'.id = id := (congrArg ManagedObject.id hm').trans hmid
  have hsound : m'.Sound := hm' ▸ (h.holds.2.managers id m hm).delete hstep
  have hfind : (s.ctx.objects.map (updateAt id fun _ => m')).find? (·.id == id) = some m' :=
    find?_updateAt_self (fun _ _ => hid) hm
  -- with the object's operations dropped, nothing queued names the deleted manager
  have hdropped : ∀ op ∈ s.ctx.queue.filter (·.owner != id), op.owner ≠ id := fun op hop => by
    simpa using (List.mem_filter.1 hop).2
  have hkeep : ManagersKeep ManagedObject.Sound (s.ctx.objects.map (updateAt id fun _ => m'))
      (s.ctx.queue.filter (·.owner != id)) :=
    (h.holds.2.filterQueue _).replace hid hsound (fun _ hs _ => hs)
      fun _ _ op hop ho _ => absurd ho (hdropped op hop)
  have hstates : FirstManagers (fun m => F m.id m.lifecycle)
      (s.ctx.objects.map (updateAt id fun _ => m')) := by
    refine h.states.map_updateAt (fun _ _ => hid) (fun m₀ hm₀ => ?_) fun _ hs _ => hs
    obtain rfl : m₀ = m := Option.some.inj (hm₀.symm.trans hm)
    have hF₀ : F m₀.id m₀.lifecycle := h.states id m₀ hm₀
    show F m'.id m'.lifecycle
    rw [hid]
    rw [hmid] at hF₀
    exact hdel id _ _ hstep hF₀
  refine ⟨⟨hr ▸ h.holds.1, ?_⟩, ?_, ?_⟩
  · rw [ho, hq]
    refine hkeep.update (.of_lifecycle fun _ => ⟨rfl, rfl⟩) (fun m₀ hm₀ => ?_) (fun _ hs _ => hs)
      fun _ _ op hop ho _ => absurd ho (hdropped op hop)
    obtain rfl : m₀ = m' := Option.some.inj (hm₀.symm.trans hfind)
    exact hsound.unsetWrapperOwners (LifecycleState.step_delete hstep)
  · rw [ho]
    exact hstates.states_update fun _ => ⟨rfl, rfl⟩
  · rw [hq]
    exact List.filter_sublist.trans h.queued

end EngineState.Within

theorem ManagedObject.fits_of_member (hnum : m.cls.Numbered) (hid : m.id = id) {field : Nat}
    {fm : FieldMeta} (hfm : m.cls.member field = .ok fm) {data : Option FieldData} {sl : Slot}
    (hsl : makeSlot id fm data = .ok sl) : m.Fits field sl := by
  subst hid
  exact fits_of_makeSlot hnum (ClassMeta.member?_of_member hfm) hsl

theorem ClassMeta.Admits.member {c : ClassMeta} {f : Nat} {d : FieldData} (h : c.Admits (f, d)) :
    ∃ fm, c.member f = .ok fm ∧ fm.Admits d := by
  obtain ⟨fm, hfm, hd⟩ := h
  exact ⟨fm, by simp [ClassMeta.member, hfm], hd⟩

theorem loadMapField_map (m : ManagedObject) (cls : ClassMeta) (field : Nat) :
    ⦃fun s => ⌜s.Within EngineState.Sound F q ∧ s.ctx.objects.find? (·.id == id) = some m⌝⦄
    loadMapField id cls field
    ⦃post⟨fun d s => ⌜(s.Within EngineState.Sound F q ∧ s.ctx.objects.find? (·.id == id) = some m) ∧
        ∃ es, d = .map es⌝,
      fun _ s => ⌜s.Within EngineState.Sound F q ∧ s.ctx.objects.find? (·.id == id) = some m⌝⟩⦄ := by
  mvcgen [loadMapField]
  all_goals exact ⟨‹_›, _, rfl⟩

theorem installData_unhollow {f : Nat} {fm : FieldMeta} {data : Option FieldData} {sl : Slot}
    (h : s.Within EngineState.Sound F q ∧ s.FirstOf id (·.lifecycle ≠ .hollow))
    (hm : s.ctx.objects.find? (·.id == id) = some m) (hfm : m.cls.member f = .ok fm)
    (hsl : makeSlot id fm data = .ok sl) :
    Within EngineState.Sound F q
        { s with ctx := { s.ctx with objects := s.ctx.objects.map (updateAt id (·.install f sl)) } } ∧
      FirstOf id (·.lifecycle ≠ .hollow)
        { s with ctx := { s.ctx with objects := s.ctx.objects.map (updateAt id (·.install f sl)) } } := by
  obtain ⟨hw, m₀, hm₀, hh⟩ := h
  obtain rfl : m = m₀ := Option.some.inj (hm.symm.trans hm₀)
  have hfits := fits_of_member (hw.holds.2.managers id m hm).numbered (id_of_find? hm) hfm hsl
  refine ⟨hw.install hm hh hfits, _,
    find?_updateAt_self (fun m' hm' => (install_fields m' f sl).1.trans hm') hm, ?_⟩
  dsimp only
  rw [install_lifecycle]
  exact hh

theorem installData_loading {cls : ClassMeta} {p : Nat × FieldData} {rest : List (Nat × FieldData)}
    {fm : FieldMeta} {sl : Slot}
    (h : (s.Within (LoadingAt id) F q ∧ s.FirstOf id (·.cls = cls)) ∧ ∀ x ∈ p :: rest, cls.Admits x)
    (hm : s.ctx.objects.find? (·.id == id) = some m) (hfm : m.cls.member p.1 = .ok fm)
    (hsl : makeSlot id fm (some p.2) = .ok sl) :
    (Within (LoadingAt id) F q
        { s with ctx := { s.ctx with objects := s.ctx.objects.map (updateAt id (·.install p.1 sl)) } } ∧
      FirstOf id (·.cls = cls)
        { s with ctx := { s.ctx with objects := s.ctx.objects.map (updateAt id (·.install p.1 sl)) } }) ∧
      ∀ x ∈ rest, cls.Admits x := by
  obtain ⟨⟨hw, m₀, hm₀, hcls⟩, hadm⟩ := h
  obtain rfl : m = m₀ := Option.some.inj (hm.symm.trans hm₀)
  have hfits := fits_of_member (hw.holds.loading hm).numbered (id_of_find? hm) hfm hsl
  exact ⟨⟨hw.install_loading hm hfits, _,
    find?_updateAt_self (fun m' hm' => (install_fields m' p.1 sl).1.trans hm') hm,
    (install_fields m p.1 sl).2.1.trans hcls⟩, fun x hx => hadm x (List.mem_cons_of_mem _ hx)⟩

theorem install_admitted {cls : ClassMeta} {p : Nat × FieldData} (h : s.FirstOf id (·.cls = cls))
    (hadm : cls.Admits p) (hm : s.ctx.objects.find? (·.id == id) = some m) :
    ∃ fm, m.cls.member p.1 = .ok fm ∧ ∃ sl, makeSlot id fm (some p.2) = .ok sl := by
  obtain ⟨m₀, hm₀, rfl⟩ := h
  obtain rfl : m = m₀ := Option.some.inj (hm.symm.trans hm₀)
  obtain ⟨fm, hfm, hd⟩ := hadm.member
  exact ⟨fm, hfm, makeSlot_some hd id⟩

theorem member_admitted {cls : ClassMeta} {p : Nat × FieldData} (h : s.FirstOf id (·.cls = cls))
    (hadm : cls.Admits p) (hm : s.ctx.objects.find? (·.id == id) = some m) {e : CoreError} :
    m.cls.member p.1 ≠ .error e := by
  obtain ⟨fm, hfm, -⟩ := install_admitted h hadm hm
  rw [hfm]
  intro h'
  cases h'

theorem makeSlot_admitted {cls : ClassMeta} {p : Nat × FieldData} {fm : FieldMeta}
    (h : s.FirstOf id (·.cls = cls)) (hadm : cls.Admits p)
    (hm : s.ctx.objects.find? (·.id == id) = some m) (hfm : m.cls.member p.1 = .ok fm)
    {e : EngineError} : makeSlot id fm (some p.2) ≠ .error e := by
  obtain ⟨fm', hfm', sl, hsl⟩ := install_admitted h hadm hm
  rw [hfm'] at hfm
  cases hfm
  rw [hsl]
  intro h'
  cases h'

theorem ClassMeta.admits_append_map {c : ClassMeta} {missing pref suff : List Nat} {f : Nat}
    {b : List (Nat × FieldData)} (hb : ∀ x ∈ b, c.Admits x)
    (hf : missing.filter (fun f => (c.member? f).any FieldMeta.isMap) = pref ++ f :: suff)
    (es : List (Value × Value)) : ∀ x ∈ b ++ [(f, .map es)], c.Admits x := by
  intro x hx
  rcases List.mem_append.1 hx with hx | hx
  · exact hb x hx
  · rw [List.mem_singleton.1 hx, admits_map]
    have hmem : f ∈ missing.filter (fun f => (c.member? f).any FieldMeta.isMap) := by
      rw [hf]
      exact List.mem_append_right _ List.mem_cons_self
    exact (List.mem_filter.1 hmem).2

theorem LifecycleState.ne_hollow_of_new {s : LifecycleState}
    (h : (s == .transient || s.isNew) = true) : s ≠ .hollow := by
  rintro rfl
  cases h

theorem transition_readField_sound (hF : ∀ x, F x .hollow → F x .persistentClean) :
    ⦃fun s => ⌜s.Within (LoadingAt id) F q ∧ s.FirstOf id (·.lifecycle = .hollow)⌝⦄
    transition id .readField ⦃keeps (Within EngineState.Sound F q)⦄ := by
  mvcgen [Engine.transition, updateManager]
  · rename_i s h m hm m' htr _
    obtain ⟨hw, m₀, hm₀, hh⟩ := h
    obtain rfl : m = m₀ := Option.some.inj (hm.symm.trans hm₀)
    exact hw.readField hF hm hh htr
  · -- a hollow object can always be read
    rename_i s h m hm e htr
    obtain ⟨-, m₀, hm₀, hh⟩ := h
    obtain rfl : m = m₀ := Option.some.inj (hm.symm.trans hm₀)
    have hstep := ManagedObject.transition_eq_error htr
    rw [hh] at hstep
    cases hstep
  · rename_i s h hnone
    exact absurd hnone h.2.find_ne_none

theorem ensureLoaded_sound (hF : ∀ x, F x .hollow → F x .persistentClean) (fields : List Nat) :
    ⦃fun s => ⌜s.Within EngineState.Sound F q⌝⦄ ensureLoaded id fields
    ⦃keeps (Within EngineState.Sound F q)⦄ := by
  have hLoadMapField := @loadMapField_map F q id
  have hReadField := @transition_readField_sound F q id hF
  mvcgen [ensureLoaded, hLoadMapField, installData, updateManager, hReadField] invariants
  | inv1 => keeps fun s => s.Within EngineState.Sound F q ∧
      s.ctx.objects.find? (·.id == id) = some ‹ManagedObject›
  | inv2 => keeps fun s => s.Within EngineState.Sound F q ∧ s.FirstOf id (·.lifecycle ≠ .hollow)
  | inv3 => post⟨fun p s => ⌜(s.Within EngineState.Sound F q ∧
        s.ctx.objects.find? (·.id == id) = some ‹ManagedObject›) ∧ ∀ x ∈ p.2, ‹ClassMeta›.Admits x⌝,
      fun _ s => ⌜s.Within EngineState.Sound F q ∧
        s.ctx.objects.find? (·.id == id) = some ‹ManagedObject›⌝⟩
  | inv4 => post⟨fun p s => ⌜(s.Within (LoadingAt id) F q ∧ s.FirstOf id (·.cls = ‹ClassMeta›)) ∧
        ∀ x ∈ p.1.suffix, ‹ClassMeta›.Admits x⌝, fun _ _ => ⌜False⌝⟩
  | inv5 => post⟨fun p s => ⌜(s.Within EngineState.Sound F q ∧
        s.ctx.objects.find? (·.id == id) = some ‹ManagedObject›) ∧ ∀ x ∈ p.2, ‹ClassMeta›.Admits x⌝,
      fun _ s => ⌜s.Within EngineState.Sound F q ∧
        s.ctx.objects.find? (·.id == id) = some ‹ManagedObject›⌝⟩
  | inv6 => post⟨fun p s => ⌜(s.Within (LoadingAt id) F q ∧ s.FirstOf id (·.cls = ‹ClassMeta›)) ∧
        ∀ x ∈ p.1.suffix, ‹ClassMeta›.Admits x⌝, fun _ _ => ⌜False⌝⟩
  next s h m hm fm hfm sl hsl _ => exact installData_unhollow h hm hfm hsl
  next m hm _ _ _ _ hnew s h => exact ⟨h.1, m, h.2, LifecycleState.ne_hollow_of_new hnew⟩
  next h => exact h.1
  next => exact ⟨fun _ _ h => h.1, trivial⟩
  next h => exact h.1
  next hcur _ _ hprev r _ _ h =>
    obtain ⟨es, rfl⟩ := h.2
    exact ⟨h.1, ClassMeta.admits_append_map hprev.2 hcur es⟩
  next h _ r hr _ =>
    obtain ⟨_, _, hexec⟩ := Datastore.Connection.exec_of_run hr
    exact ⟨h, fun x hx =>
      Datastore.Access.load_admitted hexec x ((List.mem_append.1 hx).resolve_left List.not_mem_nil)⟩
  next s h m hm fm hfm sl hsl _ => exact installData_loading h hm hfm hsl
  next h m hm fm hfm _ hsl =>
    exact absurd hsl (makeSlot_admitted h.1.2 (h.2 _ List.mem_cons_self) hm hfm)
  next h m hm _ hfm => exact absurd hfm (member_admitted h.1.2 (h.2 _ List.mem_cons_self) hm)
  next h hnone => exact absurd hnone h.1.2.find_ne_none
  next h => exact ⟨⟨h.1.1.loadingAt, _, h.1.2, rfl⟩, h.2⟩
  next h m hm hh => exact ⟨h.1.1, m, hm, beq_iff_eq.1 hh⟩
  next h m hm hh => exact h.1.1.sound_of_not_hollow hm fun he => hh (beq_iff_eq.2 he)
  next h hnone => exact absurd hnone h.1.2.find_ne_none
  next => exact ⟨fun _ _ h => h.elim, trivial⟩
  next => exact ⟨fun _ _ h => h.1, trivial⟩
  next h _ _ _ => exact h.1
  next h => exact h.1
  next hcur _ _ hprev r _ _ h =>
    obtain ⟨es, rfl⟩ := h.2
    exact ⟨h.1, ClassMeta.admits_append_map hprev.2 hcur es⟩
  next h => exact ⟨h, fun _ hx => absurd hx List.not_mem_nil⟩
  next s h m hm fm hfm sl hsl _ => exact installData_loading h hm hfm hsl
  next h m hm fm hfm _ hsl =>
    exact absurd hsl (makeSlot_admitted h.1.2 (h.2 _ List.mem_cons_self) hm hfm)
  next h m hm _ hfm => exact absurd hfm (member_admitted h.1.2 (h.2 _ List.mem_cons_self) hm)
  next h hnone => exact absurd hnone h.1.2.find_ne_none
  next h => exact ⟨⟨h.1.1.loadingAt, _, h.1.2, rfl⟩, h.2⟩
  next h m hm hh => exact ⟨h.1.1, m, hm, beq_iff_eq.1 hh⟩
  next h m hm hh => exact h.1.1.sound_of_not_hollow hm fun he => hh (beq_iff_eq.2 he)
  next h hnone => exact absurd hnone h.1.2.find_ne_none
  next => exact ⟨fun _ _ h => h.elim, trivial⟩
  next => exact ⟨fun _ _ h => h.1, trivial⟩
  next => exact ⟨fun _ _ h => h.1, trivial⟩

theorem readField_sound (hF : ∀ x, F x .hollow → F x .persistentClean) (field : Nat) :
    ⦃fun s => ⌜s.Within EngineState.Sound F q⌝⦄ readField id field
    ⦃keeps (Within EngineState.Sound F q)⦄ := by
  have hEnsureLoaded := @ensureLoaded_sound F q id hF
  mvcgen [readField, hEnsureLoaded]

theorem loadRelations_sound (hF : ∀ x, F x .hollow → F x .persistentClean) :
    ⦃fun s => ⌜s.Within EngineState.Sound F q⌝⦄ loadRelations id
    ⦃keeps (Within EngineState.Sound F q)⦄ := by
  have hEnsureLoaded := @ensureLoaded_sound F q id hF
  mvcgen [loadRelations, hEnsureLoaded]

theorem Runtime.claim_schema {r r' : Runtime} {c : Nat} (h : r.claim id c = .ok r') :
    r'.schema = r.schema := by
  rcases Runtime.claim_eq_ok h with ⟨-, rfl⟩ | ⟨-, rfl⟩ <;> rfl

theorem bindHollow_sound (hF : F id .hollow) (cls : ClassMeta) (version : Option Int) :
    ⦃fun s => ⌜s.Within EngineState.Sound F q ∧ s.ctx.objects.find? (·.id == id) = none ∧
      cls.Numbered⌝⦄
    bindHollow id cls version ⦃keeps (Within EngineState.Sound F q)⦄ := by
  mvcgen [bindHollow, adopt]
  next s h r hclaim _ =>
    obtain ⟨hw, hnone, hcls⟩ := h
    refine hw.append (Runtime.claim_schema hclaim) rfl rfl (fun _ m' hm' => ?_) fun _ =>
      ⟨(@create_sound id cls .hollow hcls (by decide) (by decide)).congr rfl rfl rfl rfl rfl rfl rfl,
        hF⟩
    simpa [ManagedObject.create] using List.find?_eq_none.1 hnone m' hm'
  next h _ _ => exact h.1

theorem ensureManaged_sound (hF : F id .hollow) :
    ⦃fun s => ⌜s.Within EngineState.Sound F q⌝⦄ ensureManaged id
    ⦃keeps (Within EngineState.Sound F q)⦄ := by
  have hBindHollow := @bindHollow_sound F q id hF
  mvcgen [ensureManaged, hBindHollow]
  next h hnone _ _ _ _ _ _ _ _ hcls =>
    exact ⟨h, by simpa using hnone, Runtime.findClass_numbered h.holds.1 hcls⟩

theorem find_sound (hF : F id .hollow) (cls : String) (validate : Bool) :
    ⦃fun s => ⌜s.Within EngineState.Sound F q⌝⦄ Engine.find cls id validate
    ⦃keeps (Within EngineState.Sound F q)⦄ := by
  have hBindHollow := @bindHollow_sound F q id hF
  mvcgen [Engine.find, hBindHollow]
  next h hnone _ hcls _ _ _ _ _ _ _ _ _ =>
    exact ⟨h, by simpa using hnone, Runtime.findClass_numbered h.holds.1 hcls⟩
  next h hnone _ hcls _ _ =>
    exact ⟨h, by simpa using hnone, Runtime.findClass_numbered h.holds.1 hcls⟩

theorem deleteOne_sound (hclean : ∀ x, F x .hollow → F x .persistentClean)
    (hdel : ∀ x L L', L.step .delete = some L' → F x L → F x L') :
    ⦃fun s => ⌜s.Within EngineState.Sound F q⌝⦄ deleteOne id
    ⦃keeps (Within EngineState.Sound F q)⦄ := by
  have hEnsureLoaded := @ensureLoaded_sound F q id hclean
  mvcgen [deleteOne, hEnsureLoaded, Engine.transition, updateManager]
  next h _ _ _ m hm m' htr _ _ _ => exact h.delete hdel hm htr rfl rfl rfl

theorem bindIfStored_sound (hF : F id .hollow) :
    ⦃fun s => ⌜s.Within EngineState.Sound F q⌝⦄ bindIfStored id
    ⦃keeps (Within EngineState.Sound F q)⦄ := by
  have hEnsureManaged := @ensureManaged_sound F q id hF
  mvcgen [bindIfStored, hEnsureManaged]

theorem newObject_sound (hF : ∀ x, F x .transient) (className : String) :
    ⦃fun s => ⌜s.Within EngineState.Sound F q⌝⦄ newObject className
    ⦃keeps (Within EngineState.Sound F q)⦄ := by
  mvcgen [newObject, adopt] invariants
  | inv1 => post⟨fun p s => ⌜s.Within EngineState.Sound F q ∧ p.2.Sound ∧ p.2.id = ‹ObjectId› ∧
      p.2.cls = ‹ClassMeta› ∧ p.2.lifecycle = .transient⌝, fun _ s => ⌜s.Within EngineState.Sound F q⌝⟩
  next h₀ cls hcls _ _ fm _ hfields m _ h sl hsl _ =>
    obtain ⟨hw, hsound, hid, hcls', hlc⟩ := h
    have hnum : m.cls.Numbered := hcls' ▸ Runtime.findClass_numbered h₀.holds.1 hcls
    have hmem : fm ∈ m.cls.fields := by
      rw [hcls', hfields]
      exact List.mem_append_right _ List.mem_cons_self
    have hfits : m.Fits fm.number sl := fits_of_makeSlot hnum (hnum.member?_number hmem) (hid ▸ hsl)
    obtain ⟨hid', hcls'', hlc', -⟩ := install_fields m fm.number sl
    exact ⟨hw, hsound.install hfits (by rw [hlc]; decide), hid'.trans hid, hcls''.trans hcls',
      hlc'.trans hlc⟩
  next h _ _ => exact h.1
  next h cls hcls _ =>
    exact ⟨h, @create_sound _ cls .transient (Runtime.findClass_numbered h.holds.1 hcls)
      (by decide) (by decide), rfl, rfl, rfl⟩
  next m _ h _ =>
    obtain ⟨hw, hsound, -, -, hlc⟩ := h
    exact hw.append rfl rfl rfl (fun hne => absurd hlc hne) fun _ => ⟨hsound, by rw [hlc]; exact hF _⟩

section Deleting

variable (hhollow : ∀ x, F x .hollow) (hclean : ∀ x, F x .hollow → F x .persistentClean)
  (hdel : ∀ x L L', L.step .delete = some L' → F x L → F x L')
include hhollow hclean hdel

theorem deleteCascade_sound (fuel : Nat) (visited : List ObjectId) :
    ⦃fun s => ⌜s.Within EngineState.Sound F q⌝⦄ deleteCascade fuel id visited
    ⦃keeps (Within EngineState.Sound F q)⦄ := by
  induction fuel generalizing id visited with
  | zero => mvcgen [deleteCascade]
  | succ fuel ih =>
    have hEnsureManaged := @ensureManaged_sound F q id (hhollow id)
    have hDeleteOne := @deleteOne_sound F q id hclean hdel
    have hBindIfStored := fun t => @bindIfStored_sound F q t (hhollow t)
    mvcgen [deleteCascade, hEnsureManaged, hDeleteOne, hBindIfStored, ih] invariants
    | inv1 => keeps (Within EngineState.Sound F q)

theorem delete_sound :
    ⦃fun s => ⌜s.Within EngineState.Sound F q⌝⦄ delete id ⦃keeps (Within EngineState.Sound F q)⦄ := by
  have hDeleteCascade := @deleteCascade_sound F q id hhollow hclean hdel
  mvcgen [delete, hDeleteCascade]

theorem deleteDependent_sound :
    ⦃fun s => ⌜s.Within EngineState.Sound F q⌝⦄ deleteDependent id
    ⦃keeps (Within EngineState.Sound F q)⦄ := by
  have hDelete := @delete_sound F q id hhollow hclean hdel
  have hBindIfStored := @bindIfStored_sound F q id (hhollow id)
  mvcgen [deleteDependent, hDelete, hBindIfStored]

end Deleting

end ObjectPersistence
