import Mathlib
import ObjectPersistence.Proofs.Registry

/-! # Sound managers

A manager keeps its bitmaps, its slots and its lifecycle state in step. Both bitmaps are as
long as the class has fields, and only loaded fields are dirty. A field's slot holds something
exactly when the field is loaded. A hollow object has nothing loaded or dirty, a clean one
nothing dirty, a dirty one something dirty, and no managed object is detached. A wrapper in a
slot stands in a container field, and, unless the object is deleted and its wrappers let go,
belongs to that field of that object. A manager is also bound, and its class numbers its fields
by position, so that a field's number names its slot.

While a load installs a hollow object's fields one at a time, and between a commit that leaves
an object hollow and the unload that follows, the object holds loaded fields in the hollow
state: `Loading` is what holds then, everything but "a hollow object has nothing loaded". Each
change the engine makes to a manager has a lemma here, under the condition the engine's own
checks give it. -/

namespace ObjectPersistence

/-! ### Classes numbered by position -/

def ClassMeta.Numbered (c : ClassMeta) : Prop := ∀ n fm, c.member? n = some fm → fm.number = n

def Schema.Numbered (s : Schema) : Prop := ∀ c ∈ s.classes, c.Numbered

namespace ClassMeta

theorem addField_numbered {c : ClassMeta} (h : c.Numbered) (m : FieldMeta) :
    (c.addField m).Numbered := by
  intro n fm hn
  simp only [member?, addField] at hn
  rcases Nat.lt_or_ge n c.fields.length with hlt | hge
  · rw [List.getElem?_append_left hlt] at hn
    exact h n fm hn
  · -- past the old fields only the appended one is left, numbered by the old count
    rw [List.getElem?_append_right hge, List.getElem?_singleton] at hn
    split at hn
    · cases hn
      simp only
      omega
    · cases hn

theorem ofFields_numbered (name : String) (versioned : Bool) (fields : List FieldMeta) :
    (ofFields name versioned fields).Numbered := by
  unfold ofFields
  suffices ∀ (c : ClassMeta), c.Numbered → (fields.foldl addField c).Numbered from
    this _ fun n fm hn => by simp [member?] at hn
  induction fields with
  | nil => exact fun c hc => hc
  | cons f fs ih => exact fun c hc => ih _ (addField_numbered hc f)

theorem Numbered.member?_number {c : ClassMeta} (h : c.Numbered) {fm : FieldMeta}
    (hfm : fm ∈ c.fields) : c.member? fm.number = some fm := by
  obtain ⟨i, hi, rfl⟩ := List.getElem_of_mem hfm
  have hget : c.member? i = some c.fields[i] := List.getElem?_eq_getElem hi
  rw [h i _ hget, hget]

theorem member?_of_member {c : ClassMeta} {n : Nat} {fm : FieldMeta} (h : c.member n = .ok fm) :
    c.member? n = some fm := by
  unfold member at h
  split at h
  · cases h
    assumption
  · cases h

end ClassMeta

theorem Schema.mem_of_find? {s : Schema} {name : String} {c : ClassMeta}
    (h : s.find? name = some c) : c ∈ s.classes :=
  List.mem_reverse.1 (List.mem_of_find?_eq_some h)

theorem Runtime.findClass_numbered {r : Runtime} {name : String} {c : ClassMeta}
    (hs : r.schema.Numbered) (h : r.findClass name = .ok c) : c.Numbered := by
  unfold Runtime.findClass at h
  split at h
  · cases h
    exact hs _ (Schema.mem_of_find? ‹_›)
  · cases h

/-! ### Bitmaps -/

namespace FieldBitmap

variable (b : FieldBitmap) (f g : Nat)

@[simp] theorem len_set : (b.set f).1.len = b.len := by
  unfold set
  split <;> rfl

@[simp] theorem len_clearAll : b.clearAll.len = b.len := rfl

@[simp] theorem len_empty (n : Nat) : (empty n).len = n := rfl

@[simp] theorem get_clearAll : b.clearAll.get f = false := by
  simp [get, clearAll]

@[simp] theorem get_empty (n : Nat) : (empty n).get f = false := by
  simp [get, empty]

theorem get_set : (b.set f).1.get g = (decide (g = f ∧ f < b.len) || b.get g) := by
  unfold set get
  split
  · rename_i hf
    by_cases hg : g = f
    · subst hg
      simp [hf, Nat.pow_eq]
    · simp [hg, Nat.pow_eq, Ne.symm hg]
  · rename_i hf
    by_cases hg : g = f
    · subst hg
      simp [hf]
    · simp [hg]

theorem lt_len_of_get {b : FieldBitmap} {f : Nat} (h : b.get f = true) : f < b.len := by
  simp only [get, Bool.and_eq_true, decide_eq_true_eq] at h
  exact h.1

end FieldBitmap

/-! ### What each lifecycle event leads to -/

namespace LifecycleState

variable {s s' : LifecycleState}

-- `step` is a closed table: once the state is split, `cases h` reads the entry off by
-- computation, without rewriting with the table's many equations.

theorem step_writeField (h : s.step .writeField = some s') :
    s'.isDeleted = false ∧ s' ≠ .hollow ∧ s' ≠ .persistentClean ∧ s' ≠ .detached ∧
      (s' = .persistentDirty ∨ s' = s) := by
  cases s <;> cases h <;> decide

theorem step_flush (h : s.step .flush = some s') :
    s' ≠ .persistentDirty ∧ s' ≠ .detached ∧ (s' = .hollow → s = .hollow) ∧
      s'.isDeleted = s.isDeleted := by
  cases s <;> cases h <;> decide

theorem step_readField (h : s.step .readField = some s') :
    s' ≠ .hollow ∧ s' ≠ .detached ∧ s'.isDeleted = false ∧
      (s' = .persistentClean → s = .persistentClean ∨ s = .hollow) ∧
      (s' = .persistentDirty → s = .persistentDirty) := by
  cases s <;> cases h <;> decide

theorem step_makePersistent (h : s.step .makePersistent = some s') :
    (s' = s ∨ s = .transient ∧ s' = .persistentNew) := by
  cases s <;> cases h <;> decide

theorem step_delete (h : s.step .delete = some s') : s'.isDeleted = true := by
  cases s <;> cases h <;> rfl

theorem step_commit {r : Bool} (h : s.step (.commit r) = some s')
    (hs : s = .persistentClean ∨ s = .hollow) : s' = s ∨ s' = .hollow := by
  rcases hs with rfl | rfl <;> cases r <;> cases h <;> simp

theorem not_deleted_of_step_writeField (h : s.step .writeField = some s') : s.isDeleted = false := by
  cases s <;> cases h <;> rfl

theorem not_deleted_of_step_readField (h : s.step .readField = some s') : s.isDeleted = false := by
  cases s <;> cases h <;> rfl

end LifecycleState

namespace ManagedObject

/-! ### Sound managers -/

/-- Everything a manager keeps at every moment, also while it holds loaded fields in the
hollow state. -/
structure Loading (m : ManagedObject) : Prop where
  numbered : m.cls.Numbered
  bound : m.bound = true
  loaded_len : m.loaded.len = m.cls.fieldCount
  dirty_len : m.dirty.len = m.cls.fieldCount
  slots_len : m.slots.length = m.cls.fieldCount
  dirty_loaded : ∀ f, m.dirty.get f = true → m.loaded.get f = true
  slot_loaded : ∀ f < m.cls.fieldCount, (m.slot? f ≠ some .unloaded ↔ m.loaded.get f = true)
  hollow_clean : m.lifecycle = .hollow → ∀ f, m.dirty.get f = false
  clean : m.lifecycle = .persistentClean → ∀ f, m.dirty.get f = false
  dirty : m.lifecycle = .persistentDirty → ∃ f, m.dirty.get f = true
  not_detached : m.lifecycle ≠ .detached
  wrapper_owned : m.lifecycle.isDeleted = false →
    ∀ f w, m.slot? f = some (.wrapper w) → w.owner = some ⟨m.id, f⟩
  wrapper_field : ∀ f w, m.slot? f = some (.wrapper w) →
    ∃ fm, m.cls.member? f = some fm ∧ fm.isSco = true

/-- A sound manager: a hollow one has nothing loaded either. -/
structure Sound (m : ManagedObject) : Prop extends m.Loading where
  hollow_unloaded : m.lifecycle = .hollow → ∀ f, m.loaded.get f = false

/-- A manager that a queued operation on a field may name: dirty, and the field a container
field of its class. -/
def Takes (m : ManagedObject) (field : Nat) : Prop :=
  m.lifecycle = .persistentDirty ∧ ∃ fm, m.cls.member? field = some fm ∧ fm.isSco = true

/-- A slot that may go into a field: something loaded, and a wrapper only for a container
field, bound to that field of the object. -/
def Fits (m : ManagedObject) (field : Nat) (s : Slot) : Prop :=
  s ≠ .unloaded ∧ ∀ w, s = .wrapper w →
    w.owner = some ⟨m.id, field⟩ ∧ ∃ fm, m.cls.member? field = some fm ∧ fm.isSco = true

section Lemmas

variable {m m' : ManagedObject} {f : Nat}

theorem Sound.congr (h : m.Sound) (hid : m'.id = m.id) (hcls : m'.cls = m.cls)
    (hlc : m'.lifecycle = m.lifecycle) (hlo : m'.loaded = m.loaded) (hdi : m'.dirty = m.dirty)
    (hsl : m'.slots = m.slots) (hb : m'.bound = m.bound) : m'.Sound := by
  obtain ⟨id, cls, lc, lo, di, v, sl, b, ex, tx⟩ := m
  obtain ⟨id', cls', lc', lo', di', v', sl', b', ex', tx'⟩ := m'
  simp only at hid hcls hlc hlo hdi hsl hb
  subst hid hcls hlc hlo hdi hsl hb
  exact ⟨⟨h.numbered, h.bound, h.loaded_len, h.dirty_len, h.slots_len, h.dirty_loaded,
    h.slot_loaded, h.hollow_clean, h.clean, h.dirty, h.not_detached, h.wrapper_owned,
    h.wrapper_field⟩, h.hollow_unloaded⟩

theorem Loading.sound (h : m.Loading) (hh : m.lifecycle ≠ .hollow) : m.Sound :=
  ⟨h, fun hh' => absurd hh' hh⟩

theorem Sound.not_hollow (h : m.Sound) (hf : m.loaded.get f = true) : m.lifecycle ≠ .hollow :=
  fun hh => by simp [h.hollow_unloaded hh f] at hf

theorem Loading.lt_of_slot (h : m.Loading) {s : Slot} (hs : m.slot? f = some s) :
    f < m.cls.fieldCount :=
  h.slots_len ▸ (List.getElem?_eq_some_iff.1 hs).1

theorem Loading.loaded_of_wrapper (h : m.Loading) {w : Wrapper}
    (hw : m.slot? f = some (.wrapper w)) : m.loaded.get f = true :=
  (h.slot_loaded f (h.lt_of_slot hw)).1 (by rw [hw]; simp)

theorem create_sound {id : ObjectId} {cls : ClassMeta} {s : LifecycleState} (hc : cls.Numbered)
    (hd : s ≠ .detached) (hdirty : s ≠ .persistentDirty) : (create id cls s).Sound := by
  -- every slot is unloaded and both bitmaps are empty
  have hslot : ∀ g, (create id cls s).slot? g = if g < cls.fieldCount then some .unloaded else none := by
    intro g
    simp only [slot?, create, List.getElem?_replicate]
  have hnot : ∀ g w, (create id cls s).slot? g ≠ some (.wrapper w) := by
    intro g w hw
    rw [hslot] at hw
    split at hw <;> cases hw
  exact ⟨⟨hc, rfl, rfl, rfl, by simp [create], fun g hg => by simp [create] at hg,
    fun g hg => by simp only [hslot, show g < cls.fieldCount from hg, if_true]; simp [create],
    fun _ g => by simp [create],
    fun _ g => by simp [create], fun h => absurd h hdirty, hd,
    fun _ g w hw => absurd hw (hnot g w), fun g w hw => absurd hw (hnot g w)⟩,
    fun _ g => by simp [create]⟩

/-! ### Installing content -/

theorem install_fields (m : ManagedObject) (f : Nat) (s : Slot) :
    (m.install f s).id = m.id ∧ (m.install f s).cls = m.cls ∧
      (m.install f s).lifecycle = m.lifecycle ∧ (m.install f s).dirty = m.dirty ∧
      (m.install f s).bound = m.bound ∧ (m.install f s).slots.length = m.slots.length ∧
      (m.install f s).loaded.len = m.loaded.len := by
  unfold install
  split <;> simp

theorem slot?_install (m : ManagedObject) (f : Nat) (s : Slot) (g : Nat) :
    (m.install f s).slot? g = if g = f ∧ f < m.slots.length then some s else m.slot? g := by
  unfold install slot?
  by_cases hf : f < m.slots.length
  · by_cases hg : g = f
    · subst hg
      simp [hf]
    · simp [hf, hg, Ne.symm hg]
  · simp [hf]

theorem Loading.install (h : m.Loading) {s : Slot} (hs : m.Fits f s) : (m.install f s).Loading := by
  obtain ⟨hid, hcls, hlc, hdi, hb, hlen, hlo⟩ := install_fields m f s
  -- the field is loaded now, and every other field stays as it was
  have hload : ∀ g, (m.install f s).loaded.get g =
      (decide (g = f ∧ f < m.slots.length) || m.loaded.get g) := by
    intro g
    unfold ManagedObject.install
    split
    · rename_i hf
      rw [FieldBitmap.get_set, h.loaded_len, ← h.slots_len]
    · rename_i hf
      simp [hf]
  -- a wrapper now in a slot is the installed one or was there before
  have hwr : ∀ g w, (m.install f s).slot? g = some (.wrapper w) →
      (g = f ∧ s = .wrapper w) ∨ m.slot? g = some (.wrapper w) := by
    intro g w hw
    rw [slot?_install] at hw
    split at hw
    · exact .inl ⟨‹_ ∧ _›.1, Option.some.inj hw⟩
    · exact .inr hw
  refine ⟨hcls ▸ h.numbered, hb ▸ h.bound, hcls ▸ hlo ▸ h.loaded_len,
    hcls ▸ hdi ▸ h.dirty_len, hcls ▸ hlen ▸ h.slots_len, fun g hg => ?_, fun g hg => ?_,
    hlc ▸ hdi ▸ h.hollow_clean, hlc ▸ hdi ▸ h.clean, hlc ▸ hdi ▸ h.dirty,
    hlc ▸ h.not_detached, fun hnd g w hw => ?_, fun g w hw => ?_⟩
  · rw [hdi] at hg
    simp [hload, h.dirty_loaded g hg]
  · rw [hcls] at hg
    rw [slot?_install, hload]
    by_cases hgf : g = f ∧ f < m.slots.length
    · simp [hgf, hs.1]
    · simp only [hgf, if_false, decide_false, Bool.false_or]
      exact h.slot_loaded g hg
  · rw [hid]
    rcases hwr g w hw with ⟨rfl, rfl⟩ | hold
    · exact (hs.2 w rfl).1
    · exact h.wrapper_owned (hlc ▸ hnd) g w hold
  · rw [hcls]
    rcases hwr g w hw with ⟨rfl, rfl⟩ | hold
    · exact (hs.2 w rfl).2
    · exact h.wrapper_field g w hold

theorem Sound.install (h : m.Sound) {s : Slot} (hs : m.Fits f s) (hh : m.lifecycle ≠ .hollow) :
    (m.install f s).Sound :=
  (h.toLoading.install hs).sound (by rw [(install_fields m f s).2.2.1]; exact hh)

theorem fits_value (m : ManagedObject) (f : Nat) (v : Value) : m.Fits f (.value v) :=
  ⟨by simp, fun w hw => by cases hw⟩

/-! ### Writing -/

/-- Marking a loaded field dirty leaves a loading manager sound, hollow or not: a write takes
a hollow object to dirty. -/
theorem Loading.makeDirty (h : m.Loading) (hf : m.loaded.get f = true) : (m.makeDirty f).Sound := by
  unfold ManagedObject.makeDirty
  rw [if_neg (by simp [h.bound])]
  split
  · rename_i s' hs'
    obtain ⟨hdel, hnh, hnc, hndet, hdirty⟩ := LifecycleState.step_writeField hs'
    have hflen : f < m.dirty.len := h.dirty_len ▸ h.loaded_len ▸ FieldBitmap.lt_len_of_get hf
    have hdget : ∀ g, (m.dirty.set f).1.get g = (decide (g = f) || m.dirty.get g) := by
      intro g
      simp [FieldBitmap.get_set, hflen]
    -- a write is refused in the deleted states, so the state it found was not deleted
    have hfound : m.lifecycle.isDeleted = false := LifecycleState.not_deleted_of_step_writeField hs'
    refine ⟨⟨h.numbered, h.bound, h.loaded_len, by simp [h.dirty_len], h.slots_len,
      fun g hg => ?_, h.slot_loaded, fun hh => absurd hh hnh, fun hc => absurd hc hnc,
      fun _ => ⟨f, by simp [hdget]⟩, hndet, fun _ => h.wrapper_owned hfound, h.wrapper_field⟩,
      fun hh => absurd hh hnh⟩
    rw [hdget] at hg
    by_cases hgf : g = f
    · rw [hgf]
      exact hf
    · simp only [hgf, decide_false, Bool.false_or] at hg
      exact h.dirty_loaded g hg
  · -- a state that takes no writes keeps the manager as it was, and it was not hollow
    rename_i hnone
    refine h.sound fun hh => ?_
    rw [hh] at hnone
    cases hnone

theorem makeDirty_fields (m : ManagedObject) (f : Nat) :
    (m.makeDirty f).id = m.id ∧ (m.makeDirty f).cls = m.cls ∧
      (m.makeDirty f).slots = m.slots ∧ (m.makeDirty f).loaded = m.loaded := by
  unfold ManagedObject.makeDirty
  split
  · simp
  · split <;> simp

theorem makeDirty_lifecycle (hb : m.bound = true)
    (hm : m.lifecycle = .persistentClean ∨ m.lifecycle = .persistentDirty) :
    (m.makeDirty f).lifecycle = .persistentDirty := by
  unfold ManagedObject.makeDirty
  rw [hb]
  rcases hm with hm | hm <;> rw [hm] <;> rfl

theorem Takes.congr (h : m.Takes f) (hcls : m'.cls = m.cls) (hlc : m'.lifecycle = m.lifecycle) :
    m'.Takes f := by
  rw [Takes, hcls, hlc]
  exact h

theorem Takes.makeDirty (h : m.Takes f) (hb : m.bound = true) (g : Nat) : (m.makeDirty g).Takes f :=
  h.congr (makeDirty_fields m g).2.1 ((makeDirty_lifecycle hb (.inr h.1)).trans h.1.symm)

theorem Sound.restoreWrapper (h : m.Sound) {w w' : Wrapper} (hw : m.slot? f = some (.wrapper w))
    (ho : w'.owner = w.owner) : (m.restoreWrapper f w').Sound := by
  have hf : f < m.slots.length := (List.getElem?_eq_some_iff.1 hw).1
  have hslot : ∀ g, (m.restoreWrapper f w').slot? g =
      if g = f then some (.wrapper w') else m.slot? g := by
    intro g
    simp only [ManagedObject.restoreWrapper, slot?, List.getElem?_set]
    by_cases hg : g = f
    · simp [hg, hf]
    · simp [hg, Ne.symm hg]
  -- the new wrapper stands where the old one stood, bound as it was
  have hsame : ∀ g w'', (m.restoreWrapper f w').slot? g = some (.wrapper w'') →
      ∃ w₀, m.slot? g = some (.wrapper w₀) ∧ w''.owner = w₀.owner := by
    intro g w'' hg
    rw [hslot] at hg
    by_cases hgf : g = f
    · subst hgf
      simp only [↓reduceIte, Option.some.injEq, Slot.wrapper.injEq] at hg
      exact ⟨w, hw, hg ▸ ho⟩
    · simp only [hgf, ↓reduceIte] at hg
      exact ⟨w'', hg, rfl⟩
  refine ⟨⟨h.numbered, h.bound, h.loaded_len, h.dirty_len, by simp [ManagedObject.restoreWrapper,
    h.slots_len], h.dirty_loaded, fun g hg => ?_, h.hollow_clean, h.clean, h.dirty,
    h.not_detached, fun hnd g w'' hg => ?_, fun g w'' hg => ?_⟩, h.hollow_unloaded⟩
  · show _ ↔ m.loaded.get g = true
    rw [← h.slot_loaded g hg, hslot]
    by_cases hgf : g = f
    · simp [hgf, hw]
    · simp [hgf]
  · obtain ⟨w₀, h₀, he⟩ := hsame g w'' hg
    rw [he]
    exact h.wrapper_owned hnd g w₀ h₀
  · obtain ⟨w₀, h₀, -⟩ := hsame g w'' hg
    exact h.wrapper_field g w₀ h₀

/-! ### Flushing, reading, persisting, deleting -/

theorem Sound.clearDirty (h : m.Sound) (hd : m.lifecycle ≠ .persistentDirty) : m.clearDirty.Sound :=
  ⟨⟨h.numbered, h.bound, h.loaded_len, by simp [ManagedObject.clearDirty, h.dirty_len],
    h.slots_len, fun g hg => by simp [ManagedObject.clearDirty] at hg, h.slot_loaded,
    fun _ g => by simp [ManagedObject.clearDirty], fun _ g => by simp [ManagedObject.clearDirty],
    fun hd' => absurd hd' hd, h.not_detached, h.wrapper_owned, h.wrapper_field⟩,
    h.hollow_unloaded⟩

theorem Sound.flush (h : m.Sound) {s' : LifecycleState} (hs : m.lifecycle.step .flush = some s') :
    { m.clearDirty with lifecycle := s' }.Sound := by
  obtain ⟨hnd, hndet, hh, hdel⟩ := LifecycleState.step_flush hs
  exact ⟨⟨h.numbered, h.bound, h.loaded_len, by simp [ManagedObject.clearDirty, h.dirty_len],
    h.slots_len, fun g hg => by simp [ManagedObject.clearDirty] at hg, h.slot_loaded,
    fun _ g => by simp [ManagedObject.clearDirty], fun _ g => by simp [ManagedObject.clearDirty],
    fun hd' => absurd hd' hnd, hndet, fun hnd' => h.wrapper_owned (by rw [← hdel]; exact hnd'),
    h.wrapper_field⟩, fun hh' => h.hollow_unloaded (hh hh')⟩

/-- The first read of a field leaves a loading manager sound: a hollow one becomes clean,
and any other was sound already. -/
theorem Loading.readField (h : m.Loading) {s' : LifecycleState}
    (hs : m.lifecycle.step .readField = some s') : { m with lifecycle := s' }.Sound := by
  obtain ⟨hnh, hndet, hdel, hclean, hdirty⟩ := LifecycleState.step_readField hs
  -- reading needs a state that is not deleted
  have hfound : m.lifecycle.isDeleted = false := LifecycleState.not_deleted_of_step_readField hs
  refine ⟨⟨h.numbered, h.bound, h.loaded_len, h.dirty_len, h.slots_len, h.dirty_loaded,
    h.slot_loaded, fun hh => absurd hh hnh, fun hc g => ?_, fun hd => h.dirty (hdirty hd), hndet,
    fun _ => h.wrapper_owned hfound, h.wrapper_field⟩, fun hh => absurd hh hnh⟩
  rcases hclean hc with hc' | hh
  · exact h.clean hc' g
  · exact h.hollow_clean hh g

theorem Sound.makePersistent (h : m.Sound) {s' : LifecycleState}
    (hs : m.lifecycle.step .makePersistent = some s') : { m with lifecycle := s' }.Sound := by
  rcases LifecycleState.step_makePersistent hs with rfl | ⟨ht, rfl⟩
  · exact h.congr rfl rfl rfl rfl rfl rfl rfl
  · exact ⟨⟨h.numbered, h.bound, h.loaded_len, h.dirty_len, h.slots_len, h.dirty_loaded,
      h.slot_loaded, nofun, nofun, nofun, nofun, fun _ => h.wrapper_owned (by rw [ht]; rfl),
      h.wrapper_field⟩,
      nofun⟩

theorem Sound.delete (h : m.Sound) {s' : LifecycleState} (hs : m.lifecycle.step .delete = some s') :
    { m with lifecycle := s' }.Sound := by
  have hdel := LifecycleState.step_delete hs
  -- the deleted states are neither hollow, clean, dirty nor detached
  have hne : ∀ t : LifecycleState, t.isDeleted = false → s' ≠ t := fun t ht he => by
    rw [he, ht] at hdel
    cases hdel
  exact ⟨⟨h.numbered, h.bound, h.loaded_len, h.dirty_len, h.slots_len, h.dirty_loaded,
    h.slot_loaded, fun he => absurd he (hne _ rfl), fun he => absurd he (hne _ rfl),
    fun he => absurd he (hne _ rfl), hne _ rfl, fun hnd => by simp [hdel] at hnd,
    h.wrapper_field⟩, fun he => absurd he (hne _ rfl)⟩

theorem Sound.unsetWrapperOwners (h : m.Sound) (hdel : m.lifecycle.isDeleted = true) :
    m.unsetWrapperOwners.Sound := by
  -- the slots keep their places; a wrapper stays a wrapper, with no owner
  have hslot : ∀ g, (m.unsetWrapperOwners.slot? g = some .unloaded ↔ m.slot? g = some .unloaded) ∧
      ∀ w, m.unsetWrapperOwners.slot? g = some (.wrapper w) → ∃ w₀, m.slot? g = some (.wrapper w₀) := by
    intro g
    simp only [ManagedObject.unsetWrapperOwners, slot?, List.getElem?_map]
    cases m.slots[g]? with
    | none => simp
    | some s => cases s <;> simp
  refine ⟨⟨h.numbered, h.bound, h.loaded_len, h.dirty_len,
    by simp [ManagedObject.unsetWrapperOwners, h.slots_len], h.dirty_loaded, fun g hg => ?_,
    h.hollow_clean, h.clean, h.dirty, h.not_detached,
    fun hnd => by simp [ManagedObject.unsetWrapperOwners, hdel] at hnd, fun g w hw => ?_⟩,
    h.hollow_unloaded⟩
  · show _ ↔ m.loaded.get g = true
    rw [← h.slot_loaded g hg]
    exact not_congr (hslot g).1
  · obtain ⟨w₀, h₀⟩ := (hslot g).2 w hw
    exact h.wrapper_field g w₀ h₀

/-! ### Ending a transaction -/

theorem Loading.unloadAll (h : m.Loading) {s' : LifecycleState} (hd : s' ≠ .persistentDirty)
    (hdet : s' ≠ .detached) : { m with lifecycle := s' }.unloadAll.Sound := by
  have hslot : ∀ g, { m with lifecycle := s' }.unloadAll.slot? g =
      if g < m.cls.fieldCount then some .unloaded else none := by
    intro g
    simp only [ManagedObject.unloadAll, slot?, List.getElem?_map]
    by_cases hg : g < m.cls.fieldCount
    · simp [hg, h.slots_len]
    · simp [hg, List.getElem?_eq_none (show m.slots.length ≤ g by rw [h.slots_len]; omega)]
  have hnot : ∀ g w, { m with lifecycle := s' }.unloadAll.slot? g ≠ some (.wrapper w) := by
    intro g w hw
    rw [hslot] at hw
    split at hw <;> cases hw
  exact ⟨⟨h.numbered, h.bound, by simp [ManagedObject.unloadAll, h.loaded_len],
    by simp [ManagedObject.unloadAll, h.dirty_len], by simp [ManagedObject.unloadAll, h.slots_len],
    fun g hg => by simp [ManagedObject.unloadAll] at hg,
    fun g hg => by
      rw [hslot, if_pos (show g < m.cls.fieldCount from hg)]
      simp [ManagedObject.unloadAll],
    fun _ g => by simp [ManagedObject.unloadAll], fun _ g => by simp [ManagedObject.unloadAll],
    fun he => absurd he hd, hdet, fun _ g w hw => absurd hw (hnot g w),
    fun g w hw => absurd hw (hnot g w)⟩, fun _ g => by simp [ManagedObject.unloadAll]⟩

/-- Committing a clean or hollow object leaves its manager loading: sound, unless it went
hollow with its values, which the commit drops next. -/
theorem Sound.commit (h : m.Sound) {r : Bool} {s' : LifecycleState}
    (hm : m.lifecycle = .persistentClean ∨ m.lifecycle = .hollow)
    (hs : m.lifecycle.step (.commit r) = some s') : { m with lifecycle := s' }.Loading := by
  rcases LifecycleState.step_commit hs hm with rfl | rfl
  · exact (h.congr rfl rfl rfl rfl rfl rfl rfl).toLoading
  · -- a clean object has nothing dirty either
    have hclean : ∀ g, m.dirty.get g = false := by
      rcases hm with hm | hm
      · exact h.clean hm
      · exact h.hollow_clean hm
    exact ⟨h.numbered, h.bound, h.loaded_len, h.dirty_len, h.slots_len, h.dirty_loaded,
      h.slot_loaded, fun _ => hclean, nofun, nofun, nofun,
      fun _ => h.wrapper_owned (by rcases hm with hm | hm <;> rw [hm] <;> rfl), h.wrapper_field⟩

/-- Rolling a new object back makes it transient, and any manager of a transient object is
sound as far as its lifecycle goes. -/
theorem Sound.toTransient (h : m.Sound) (hnew : m.lifecycle.isDeleted = false) :
    { m with lifecycle := .transient }.Sound :=
  ⟨⟨h.numbered, h.bound, h.loaded_len, h.dirty_len, h.slots_len, h.dirty_loaded, h.slot_loaded,
    nofun, nofun, nofun, nofun,
    fun _ => h.wrapper_owned hnew, h.wrapper_field⟩, nofun⟩

end Lemmas

end ManagedObject

end ObjectPersistence
