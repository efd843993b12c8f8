import Mathlib
import ObjectPersistence.Proofs.ManagerState
import ObjectPersistence.Proofs.RegistryPreservation
import ObjectPersistence.Proofs.StoredOperations

/-! # Sound contexts

A context is sound when the manager it finds first for each object is sound, every manager in
use is the first of its object, and every queued operation names a container field of an
object whose manager is dirty. The engine changes the managers of one object at a time,
appends a manager, drops the managers of an object, and adds or drops queued operations: each
kind of change has a lemma here, under the condition on the changed manager that the engine's
own checks give.

A load fills a hollow object's fields one at a time before it makes the object clean, so a
state is also considered in which one object's manager is only `Loading`. The data a load
brings has the shape its field declares, so installing it cannot fail partway. -/

namespace ObjectPersistence

open ManagedObject

/-! ### The first manager of each object -/

theorem find?_updateAt_self {objs : List ManagedObject} {id : ObjectId}
    {f : ManagedObject → ManagedObject} {m : ManagedObject}
    (hf : ∀ m, m.id = id → (f m).id = id) (hm : objs.find? (·.id == id) = some m) :
    (objs.map (updateAt id f)).find? (·.id == id) = some (f m) := by
  rw [find?_updateAt hf, if_pos rfl, hm, Option.map_some]

def FirstManagers (P : ManagedObject → Prop) (objs : List ManagedObject) : Prop :=
  ∀ id m, objs.find? (·.id == id) = some m → P m

namespace FirstManagers

variable {P Q : ManagedObject → Prop} {objs : List ManagedObject} {id : ObjectId}
  {f : ManagedObject → ManagedObject}

theorem mono (h : FirstManagers P objs) (hPQ : ∀ m, P m → Q m) : FirstManagers Q objs :=
  fun j m hm => hPQ m (h j m hm)

/-- Changing the managers of one object: its first manager becomes one satisfying `Q`, and the
others keep `P`, which implies `Q` for managers of other objects. -/
theorem map_updateAt (h : FirstManagers P objs) (hid : ∀ m, m.id = id → (f m).id = id)
    (hm : ∀ m, objs.find? (·.id == id) = some m → Q (f m))
    (hother : ∀ m, P m → m.id ≠ id → Q m) : FirstManagers Q (objs.map (updateAt id f)) := by
  intro j m hj
  rw [find?_updateAt hid] at hj
  split at hj
  · rename_i hji
    subst hji
    obtain ⟨m₀, hm₀, rfl⟩ := Option.map_eq_some_iff.1 hj
    exact hm m₀ hm₀
  · rename_i hji
    exact hother m (h j m hj) (by rw [id_of_find? hj]; exact hji)

theorem append (h : FirstManagers P objs) {m : ManagedObject}
    (hm : objs.find? (·.id == m.id) = none → P m) : FirstManagers P (objs ++ [m]) := by
  intro j m' hj
  rw [List.find?_append] at hj
  cases hfind : objs.find? (·.id == j) with
  | some m₀ =>
    rw [hfind, Option.some_or] at hj
    cases hj
    exact h j _ hfind
  | none =>
    rw [hfind, Option.none_or, List.find?_singleton] at hj
    split at hj
    · cases hj
      rename_i hmj
      exact hm (by rw [show m.id = j by simpa using hmj]; exact hfind)
    · cases hj

theorem find?_filter_ne {j : ObjectId} (hj : j ≠ id) :
    (objs.filter (·.id != id)).find? (·.id == j) = objs.find? (·.id == j) := by
  rw [List.find?_filter]
  congr 1
  funext a
  by_cases ha : a.id = j
  · simp [ha, hj]
  · simp [ha]

theorem find?_filter_self : (objs.filter (·.id != id)).find? (·.id == id) = none := by
  rw [List.find?_eq_none]
  intro m hm
  rw [List.mem_filter] at hm
  simpa using hm.2

theorem filter (h : FirstManagers P objs) : FirstManagers P (objs.filter (·.id != id)) := by
  intro j m hj
  by_cases hji : j = id
  · subst hji
    rw [find?_filter_self] at hj
    cases hj
  · rw [find?_filter_ne hji] at hj
    exact h j m hj

end FirstManagers

/-! ### Managers and the queue together -/

/-- The first manager of each object keeps `P`, every manager in use is the first of its
object, and every queued operation names a container field of an object whose first manager
is dirty. -/
structure ManagersKeep (P : ManagedObject → Prop) (objs : List ManagedObject)
    (queue : List Operation) : Prop where
  first : FirstInUse objs
  managers : FirstManagers P objs
  queue : ∀ op ∈ queue, ∃ m, objs.find? (·.id == op.owner) = some m ∧ m.Takes op.field

namespace ManagersKeep

variable {P Q : ManagedObject → Prop} {objs : List ManagedObject} {queue : List Operation}
  {id : ObjectId} {f : ManagedObject → ManagedObject}

theorem mono (h : ManagersKeep P objs queue) (hPQ : ∀ m, P m → Q m) :
    ManagersKeep Q objs queue :=
  ⟨h.first, h.managers.mono hPQ, h.queue⟩

theorem map_updateAt (h : ManagersKeep P objs queue)
    (hfirst : FirstInUse (objs.map (updateAt id f))) (hid : ∀ m, m.id = id → (f m).id = id)
    (hm : ∀ m, objs.find? (·.id == id) = some m → Q (f m))
    (hother : ∀ m, P m → m.id ≠ id → Q m)
    (hq : ∀ m, objs.find? (·.id == id) = some m → ∀ op ∈ queue, op.owner = id →
      m.Takes op.field → (f m).Takes op.field) :
    ManagersKeep Q (objs.map (updateAt id f)) queue := by
  refine ⟨hfirst, h.managers.map_updateAt hid hm hother, fun op hop => ?_⟩
  obtain ⟨m, hm', ht⟩ := h.queue op hop
  rw [find?_updateAt hid]
  by_cases ho : op.owner = id
  · subst ho
    exact ⟨f m, by simp [hm'], hq m hm' op hop rfl ht⟩
  · exact ⟨m, by simp [ho, hm'], ht⟩

theorem update (h : ManagersKeep P objs queue) (hf : KeepsHolding id f)
    (hm : ∀ m, objs.find? (·.id == id) = some m → Q (f m))
    (hother : ∀ m, P m → m.id ≠ id → Q m)
    (hq : ∀ m, objs.find? (·.id == id) = some m → ∀ op ∈ queue, op.owner = id →
      m.Takes op.field → (f m).Takes op.field) :
    ManagersKeep Q (objs.map (updateAt id f)) queue :=
  h.map_updateAt (h.first.update hf) (fun m hm => (hf m hm).1) hm hother hq

theorem replace (h : ManagersKeep P objs queue) {m' : ManagedObject} (hid : m'.id = id) (hQ : Q m')
    (hother : ∀ m, P m → m.id ≠ id → Q m)
    (hq : ∀ m, objs.find? (·.id == id) = some m → ∀ op ∈ queue, op.owner = id →
      m.Takes op.field → m'.Takes op.field) :
    ManagersKeep Q (objs.map (updateAt id fun _ => m')) queue :=
  h.map_updateAt (h.first.replace hid) (fun _ _ => hid) (fun _ _ => hQ) hother hq

theorem transition (h : ManagersKeep P objs queue) {m m' : ManagedObject} {e : LifecycleEvent}
    (hm : objs.find? (·.id == id) = some m) (htr : m.transition e = .ok m') (hQ : Q m')
    (hother : ∀ m, P m → m.id ≠ id → Q m)
    (hq : ∀ op ∈ queue, op.owner = id → m.Takes op.field → m'.Takes op.field) :
    ManagersKeep Q (objs.map (updateAt id fun _ => m')) queue := by
  have hmid : m.id = id := id_of_find? hm
  have hid : m'.id = id :=
    (congrArg ManagedObject.id (ManagedObject.transition_eq_ok htr).2).trans hmid
  refine h.replace hid hQ hother fun m₀ hm₀ op hop ho ht => hq op hop ho ?_
  rwa [Option.some.inj (hm₀.symm.trans hm)] at ht

/-- A manager appended after the others: one in use must be of an object the context did not
manage, and one found first must keep `P`. -/
theorem append (h : ManagersKeep P objs queue) {m : ManagedObject}
    (hnew : m.lifecycle ≠ .transient → ∀ m' ∈ objs, m'.id ≠ m.id)
    (hm : objs.find? (·.id == m.id) = none → P m) : ManagersKeep P (objs ++ [m]) queue := by
  refine ⟨h.first.append hnew, h.managers.append hm, fun op hop => ?_⟩
  obtain ⟨m', hm', ht⟩ := h.queue op hop
  exact ⟨m', by rw [List.find?_append, hm', Option.some_or], ht⟩

theorem filter (h : ManagersKeep P objs queue) :
    ManagersKeep P (objs.filter (·.id != id)) (queue.filter (·.owner != id)) := by
  refine ⟨h.first.filter, h.managers.filter, fun op hop => ?_⟩
  rw [List.mem_filter, bne_iff_ne, ne_eq] at hop
  obtain ⟨m, hm, ht⟩ := h.queue op hop.1
  exact ⟨m, by rw [FirstManagers.find?_filter_ne hop.2]; exact hm, ht⟩

theorem filterQueue (h : ManagersKeep P objs queue) (p : Operation → Bool) :
    ManagersKeep P objs (queue.filter p) :=
  ⟨h.first, h.managers, fun op hop => h.queue op (List.mem_filter.1 hop).1⟩

theorem clearQueue (h : ManagersKeep P objs queue) : ManagersKeep P objs [] :=
  ⟨h.first, h.managers, fun _ hop => absurd hop List.not_mem_nil⟩

end ManagersKeep

/-! ### Changes to one object's managers -/

section Changes

variable {objs : List ManagedObject} {queue : List Operation} {id : ObjectId} {m : ManagedObject}
  {f : Nat}

/-- A change that keeps a manager's object, class, lifecycle state, bitmaps, slots and binding
keeps every manager sound: a new version, new flags. -/
theorem ManagersKeep.update_congr (h : ManagersKeep Sound objs queue) {g : ManagedObject → ManagedObject}
    (hg : ∀ m, (g m).id = m.id ∧ (g m).cls = m.cls ∧ (g m).lifecycle = m.lifecycle ∧
      (g m).loaded = m.loaded ∧ (g m).dirty = m.dirty ∧ (g m).slots = m.slots ∧
      (g m).bound = m.bound) :
    ManagersKeep Sound (objs.map (updateAt id g)) queue :=
  h.update (.of_lifecycle fun m => ⟨(hg m).1, (hg m).2.2.1⟩)
    (fun m hm => (h.managers id m hm).congr (hg m).1 (hg m).2.1 (hg m).2.2.1 (hg m).2.2.2.1
      (hg m).2.2.2.2.1 (hg m).2.2.2.2.2.1 (hg m).2.2.2.2.2.2)
    (fun _ hm _ => hm) (fun m _ _ _ _ ht => ht.congr (hg m).2.1 (hg m).2.2.1)

theorem ManagersKeep.install (h : ManagersKeep Sound objs queue)
    (hm : objs.find? (·.id == id) = some m) (hh : m.lifecycle ≠ .hollow) {sl : Slot}
    (hfits : m.Fits f sl) : ManagersKeep Sound (objs.map (updateAt id (·.install f sl))) queue := by
  refine h.update (Engine.keepsHolding_install f sl) (fun m' hm' => ?_) (fun m' hm' _ => hm')
    (fun m' _ op _ _ ht => ht.congr (install_fields m' f sl).2.1 (install_fields m' f sl).2.2.1)
  obtain rfl : m' = m := Option.some.inj (hm'.symm.trans hm)
  exact (h.managers id m' hm').install hfits hh

theorem ManagersKeep.install_loading
    (h : ManagersKeep (fun m => m.Sound ∨ m.id = id ∧ m.Loading) objs queue)
    (hm : objs.find? (·.id == id) = some m) {sl : Slot} (hfits : m.Fits f sl) :
    ManagersKeep (fun m => m.Sound ∨ m.id = id ∧ m.Loading)
      (objs.map (updateAt id (·.install f sl))) queue := by
  refine h.update (Engine.keepsHolding_install f sl) (fun m' hm' => ?_) (fun m' hm' _ => hm')
    (fun m' _ op _ _ ht => ht.congr (install_fields m' f sl).2.1 (install_fields m' f sl).2.2.1)
  obtain rfl : m' = m := Option.some.inj (hm'.symm.trans hm)
  have hload : m'.Loading := by
    rcases h.managers id m' hm' with hs | ⟨-, hl⟩
    · exact hs.toLoading
    · exact hl
  exact .inr ⟨(install_fields m' f sl).1.trans (id_of_find? hm'), hload.install hfits⟩

theorem ManagersKeep.makeDirty (h : ManagersKeep Sound objs queue)
    (hm : objs.find? (·.id == id) = some m) (hf : m.loaded.get f = true) :
    ManagersKeep Sound (objs.map (updateAt id (·.makeDirty f))) queue := by
  refine h.update (Engine.keepsHolding_makeDirty f) (fun m' hm' => ?_) (fun m' hm' _ => hm')
    (fun m' hm' op _ _ ht => ht.makeDirty (h.managers id m' hm').bound f)
  obtain rfl : m' = m := Option.some.inj (hm'.symm.trans hm)
  exact (h.managers id m' hm').toLoading.makeDirty hf

theorem ManagersKeep.installDirty (h : ManagersKeep Sound objs queue)
    (hm : objs.find? (·.id == id) = some m) (hlt : f < m.cls.fieldCount) {sl : Slot}
    (hfits : m.Fits f sl) :
    ManagersKeep Sound (objs.map (updateAt id fun m => (m.install f sl).makeDirty f)) queue := by
  refine h.update (Engine.keepsHolding_install_makeDirty f sl) (fun m' hm' => ?_)
    (fun m' hm' _ => hm') (fun m' hm' op _ _ ht => ?_)
  · obtain rfl : m' = m := Option.some.inj (hm'.symm.trans hm)
    have hs := h.managers id m' hm'
    have hl : m'.slots.length = m'.cls.fieldCount := hs.slots_len
    refine (hs.toLoading.install hfits).makeDirty ?_
    unfold ManagedObject.install
    rw [if_pos (by omega), FieldBitmap.get_set, hs.loaded_len]
    simp [hlt]
  · have hs := h.managers id m' hm'
    exact (ht.congr (install_fields m' f sl).2.1 (install_fields m' f sl).2.2.1).makeDirty
      ((install_fields m' f sl).2.2.2.2.1.trans hs.bound) f

theorem ManagersKeep.restoreWrapper (h : ManagersKeep Sound objs queue)
    (hm : objs.find? (·.id == id) = some m) {w w' : Wrapper} (hw : m.slot? f = some (.wrapper w))
    (ho : w'.owner = w.owner) :
    ManagersKeep Sound (objs.map (updateAt id (·.restoreWrapper f w'))) queue := by
  refine h.update (.of_lifecycle fun _ => ⟨rfl, rfl⟩) (fun m' hm' => ?_) (fun m' hm' _ => hm')
    (fun m' _ op _ _ ht => ht.congr rfl rfl)
  obtain rfl : m' = m := Option.some.inj (hm'.symm.trans hm)
  exact (h.managers id m' hm').restoreWrapper hw ho

end Changes

/-! ### Sound states -/

/-- The schema numbers its fields by position, and the context keeps `P` for the first
manager of each object. -/
def EngineState.Keeps (P : ManagedObject → Prop) (s : EngineState) : Prop :=
  s.runtime.schema.Numbered ∧ ManagersKeep P s.ctx.objects s.ctx.queue

/-- Every manager the context finds is sound, and every queued operation names a dirty
owner's container field. -/
def EngineState.Sound (s : EngineState) : Prop := s.Keeps ManagedObject.Sound

def EngineState.LoadingAt (id : ObjectId) (s : EngineState) : Prop :=
  s.Keeps fun m => m.Sound ∨ m.id = id ∧ m.Loading

namespace EngineState

variable {s : EngineState} {id : ObjectId}

theorem Sound.loadingAt (h : s.Sound) : s.LoadingAt id :=
  ⟨h.1, h.2.mono fun _ hm => .inl hm⟩

theorem LoadingAt.sound (h : s.LoadingAt id)
    (hid : ∀ m, s.ctx.objects.find? (·.id == id) = some m → m.Sound) : s.Sound := by
  refine ⟨h.1, ⟨h.2.first, fun j m hj => ?_, h.2.queue⟩⟩
  rcases h.2.managers j m hj with hm | ⟨hmid, -⟩
  · exact hm
  · obtain rfl : j = id := (id_of_find? hj).symm.trans hmid
    exact hid m hj

theorem LoadingAt.loading (h : s.LoadingAt id) {m : ManagedObject}
    (hm : s.ctx.objects.find? (·.id == id) = some m) : m.Loading := by
  rcases h.2.managers id m hm with hs | ⟨-, hl⟩
  · exact hs.toLoading
  · exact hl

end EngineState

/-! ### The shape of loaded data -/

/-- Data of the form a field declares: entries for a map field, elements for a collection
field, a single value otherwise. -/
def FieldMeta.Admits (fm : FieldMeta) : FieldData → Prop
  | .map _ => fm.isMap = true
  | .collection _ => fm.isCollection = true
  | .scalar _ => fm.isMap = false ∧ fm.isCollection = false

def ClassMeta.Admits (c : ClassMeta) (p : Nat × FieldData) : Prop :=
  ∃ fm, c.member? p.1 = some fm ∧ fm.Admits p.2

@[simp] theorem ClassMeta.admits_map (c : ClassMeta) (f : Nat) (es : List (Value × Value)) :
    c.Admits (f, .map es) ↔ (c.member? f).any FieldMeta.isMap = true := by
  cases h : c.member? f <;> simp [ClassMeta.Admits, FieldMeta.Admits, h]

theorem Wrapper.wrap_owner {shape : ContainerShape} {owner : FieldOwner} {policy : ContainerPolicy}
    {data : Option FieldData} {w : Wrapper} (h : Wrapper.wrap shape owner policy data = .ok w) :
    w.owner = some owner := by
  unfold Wrapper.wrap at h
  cases shape <;> simp only at h <;> split at h <;> cases h <;> rfl

namespace Engine

/-- What `makeSlot` makes holds something, and a wrapper only for a container field, bound to
that field of the object. -/
theorem makeSlot_fits {id : ObjectId} {fm : FieldMeta} {data : Option FieldData} {sl : Slot}
    (h : makeSlot id fm data = .ok sl) :
    sl ≠ .unloaded ∧ ∀ w, sl = .wrapper w → w.owner = some ⟨id, fm.number⟩ ∧ fm.isSco = true := by
  unfold makeSlot at h
  split at h
  · rename_i shape hshape
    obtain ⟨w, hw, rfl⟩ : ∃ w, Wrapper.wrap shape ⟨id, fm.number⟩ fm.policy data = .ok w ∧
        sl = .wrapper w := by
      cases hw : Wrapper.wrap shape ⟨id, fm.number⟩ fm.policy data <;>
        simp_all [Except.map]
    refine ⟨fun hu => ?_, fun w' hw' => ?_⟩
    · cases hu
    · cases hw'
      exact ⟨Wrapper.wrap_owner hw, by simp [FieldMeta.isSco, hshape]⟩
  · -- a value slot is neither unloaded nor a wrapper; `cases` on the slot equations is far
    -- cheaper here than `nofun`, which compiles a match over the value's constructors
    split at h <;> cases h <;> exact ⟨(fun hu => by cases hu), fun _ hw => by cases hw⟩

theorem makeSlot_some {fm : FieldMeta} {d : FieldData} (hd : fm.Admits d) (id : ObjectId) :
    ∃ sl, makeSlot id fm (some d) = .ok sl := by
  unfold makeSlot
  split
  · rename_i shape hshape
    cases d <;> cases shape <;>
      simp_all [FieldMeta.Admits, FieldMeta.isMap, FieldMeta.isCollection, ContainerShape.isMap,
        ContainerShape.isCollection, Wrapper.wrap, Except.map]
  · cases d <;> simp_all [FieldMeta.Admits, FieldMeta.isMap, FieldMeta.isCollection]

end Engine

theorem ManagedObject.fits_of_makeSlot {m : ManagedObject} {f : Nat} {fm : FieldMeta}
    {data : Option FieldData} {sl : Slot} (hnum : m.cls.Numbered) (hfm : m.cls.member? f = some fm)
    (h : Engine.makeSlot m.id fm data = .ok sl) : m.Fits f sl := by
  obtain ⟨hne, hw⟩ := Engine.makeSlot_fits h
  refine ⟨hne, fun w hsw => ?_⟩
  obtain ⟨howner, hsco⟩ := hw w hsw
  rw [hnum f fm hfm] at howner
  exact ⟨howner, fm, hfm, hsco⟩

/-! ### Loading from the datastore -/

namespace Datastore

theorem Connection.exec_of_run {α} {c : Connection} {db : Database} {a : Access α} {x : α}
    (h : (c.run db a).1 = .ok x) : ∃ w w', a.exec w = (.ok x, w') := by
  unfold Connection.run at h
  dsimp only at h
  split at h
  rename_i r w hrw
  have hr : r = .ok x := by
    split at h
    · exact h
    · split at h <;> (try split at h) <;> exact h
  exact ⟨_, w, by rw [Access.exec, ← hr]; exact hrw⟩

namespace Access

variable {α β : Type}

theorem exec_mapM_ok {f : α → Access β} {Q : α → β → Prop}
    (hf : ∀ a w b w', (f a).exec w = (.ok b, w') → Q a b) :
    ∀ (l : List α) (w : Work) (r : List β) (w' : Work), (l.mapM f).exec w = (.ok r, w') →
      ∀ b ∈ r, ∃ a ∈ l, Q a b
  | [], w, r, w', h => by
    simp only [List.mapM_nil, exec_pure, Prod.mk.injEq, Except.ok.injEq] at h
    rw [← h.1]
    exact fun _ hb => absurd hb List.not_mem_nil
  | a :: l, w, r, w', h => by
    rw [List.mapM_cons, exec_bind] at h
    rcases ha : (f a).exec w with ⟨_ | b, w₁⟩
    · rw [ha] at h
      cases h
    · rw [ha] at h
      dsimp only at h
      rw [exec_bind] at h
      rcases hl : (l.mapM f).exec w₁ with ⟨_ | bs, w₂⟩
      · rw [hl] at h
        cases h
      · rw [hl] at h
        simp only [exec_pure, Prod.mk.injEq, Except.ok.injEq] at h
        rw [← h.1]
        intro b' hb'
        rcases List.mem_cons.1 hb' with rfl | hb'
        · exact ⟨a, List.mem_cons_self, hf a w b' w₁ ha⟩
        · obtain ⟨a', ha', hq⟩ := exec_mapM_ok hf l w₁ bs w₂ hl b' hb'
          exact ⟨a', List.mem_cons_of_mem a ha', hq⟩

theorem load_admitted {id : ObjectId} {c : ClassMeta} {fields : List Nat} {w w' : Work}
    {r : List (Nat × FieldData)} (h : (load id c fields).exec w = (.ok r, w')) :
    ∀ p ∈ r, c.Admits p := by
  unfold load at h
  rw [exec_bind] at h
  simp only [header?, exec_read] at h
  split at h
  · cases h
  · -- each field is read by its own member's shape
    have hstep : ∀ field w₀ p w₁, (do
        let m ← member c field
        if m.isMap then pure (field, FieldData.map (← entriesOf field (← read fun t => t.rowsOf id field)))
        else if m.isCollection then
          pure (field, .collection ((← read fun t => t.rowsOf id field).map ElementRow.element))
        else pure (field, .scalar ((← read fun t => t.scalar? id field).getD .null))).exec w₀ =
          (.ok p, w₁) → c.Admits p := by
      intro field w₀ p w₁ hp
      rw [exec_bind] at hp
      cases hm : c.member field with
      | error e => simp [member, hm] at hp
      | ok fm =>
        rw [exec_member hm] at hp
        have hfm : c.member? field = some fm := ClassMeta.member?_of_member hm
        dsimp only at hp
        split at hp
        · rename_i hmap
          rw [exec_bind, exec_read] at hp
          dsimp only at hp
          rw [exec_bind] at hp
          split at hp
          · simp only [exec_pure, Prod.mk.injEq, Except.ok.injEq] at hp
            rw [← hp.1]
            exact ⟨fm, hfm, hmap⟩
          · simp at hp
        · split at hp
          · rename_i hmap hcoll
            simp only [exec_bind, exec_read, exec_pure, Prod.mk.injEq, Except.ok.injEq] at hp
            rw [← hp.1]
            exact ⟨fm, hfm, hcoll⟩
          · rename_i hmap hcoll
            simp only [exec_bind, exec_read, exec_pure, Prod.mk.injEq, Except.ok.injEq] at hp
            rw [← hp.1]
            exact ⟨fm, hfm, by simpa using hmap, by simpa using hcoll⟩
    intro p hp
    obtain ⟨_, -, hq⟩ := exec_mapM_ok hstep fields _ r w' h p hp
    exact hq

end Access

end Datastore

end ObjectPersistence
