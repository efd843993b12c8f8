import Mathlib
import ObjectPersistence.Proofs.DetachedCopy

/-! # What a delete removes

A delete walks from its root through the references of dependent fields: the target of a
dependent reference, the elements of a collection that owns them, the keys or values of a map
that owns them. It enters each object it has not visited that the context manages and that is
not transient, or that only the datastore holds, binding that one hollow first; an object
deleted before is marked and passed, and every other reference is ignored. Entering an object
loads its dependent fields, moves it by one delete transition, lets its wrappers go and drops
its queued changes.

`DeletesInTurn` says what a walk from a list of starts does, in the terms of `Graph.Visits`: it
marks exactly what its starts reach outside the visited list, and `Removed` says what it
changed, and that it changed nothing else. The lemmas build it a case of the walk at a time
(a start passed over, stopped at, entered, bound first), from one run lemma per engine step:
binding an object (`run_bindIfStored`), loading its dependent fields (`ensureLoaded_keptByLoad`)
and deleting it (`run_deleteOne`). The walk's bound, one more than the objects managed and
stored, is never reached, since each visit takes one of them out of those left
(`cascade_deletes`). The main theorem, `delete_deletes_dependent_closure`, reads the walk as
reachability through the references of the objects entered. -/

set_option mvcgen.warning false

namespace ObjectPersistence

open Std.Do

namespace Datastore

/-! ### Reading leaves the tables as they are -/

def Access.KeepsTables {α} (a : Access α) : Prop := ∀ w, (a.exec w).2.tables = w.tables

namespace Access

theorem keepsTables_pure {α} (x : α) : (pure x : Access α).KeepsTables := fun _ => rfl

theorem keepsTables_throw {α} (e : StorageError) : (throw e : Access α).KeepsTables := fun _ => rfl

theorem keepsTables_read {α} (f : Tables → α) : (read f).KeepsTables := fun _ => rfl

theorem KeepsTables.bind {α β} {x : Access α} {f : α → Access β} (hx : x.KeepsTables)
    (hf : ∀ a, (f a).KeepsTables) : (x >>= f).KeepsTables := by
  intro w
  rw [exec_bind]
  rcases h : x.exec w with ⟨_ | a, w₁⟩
  · simpa [h] using hx w
  · simp only
    rw [hf a w₁, ← hx w, h]

theorem KeepsTables.mapM {α β} {f : α → Access β} (hf : ∀ a, (f a).KeepsTables) :
    ∀ xs : List α, (xs.mapM f).KeepsTables
  | [] => keepsTables_pure _
  | x :: xs => by
    rw [List.mapM_cons]
    exact (hf x).bind fun _ => (KeepsTables.mapM hf xs).bind fun _ => keepsTables_pure _

theorem keepsTables_member (c : ClassMeta) (n : Nat) : (member c n).KeepsTables := by
  unfold member
  split
  · exact keepsTables_pure _
  · exact keepsTables_throw _

theorem keepsTables_entriesOf (field : Nat) (rows : List ElementRow) :
    (entriesOf field rows).KeepsTables := by
  unfold entriesOf
  refine KeepsTables.mapM (fun r => ?_) rows
  split
  · exact keepsTables_pure _
  · exact keepsTables_throw _

theorem keepsTables_header? (id : ObjectId) : (header? id).KeepsTables := keepsTables_read _

theorem keepsTables_load (id : ObjectId) (c : ClassMeta) (fields : List Nat) :
    (load id c fields).KeepsTables := by
  unfold load
  refine (keepsTables_header? id).bind fun h => ?_
  split
  · exact keepsTables_throw _
  · refine KeepsTables.mapM (fun field => (keepsTables_member c field).bind fun fm => ?_) fields
    split
    · exact (keepsTables_read _).bind fun rows =>
        (keepsTables_entriesOf field rows).bind fun _ => keepsTables_pure _
    · split
      · exact (keepsTables_read _).bind fun _ => keepsTables_pure _
      · exact (keepsTables_read _).bind fun _ => keepsTables_pure _

theorem keepsTables_loadMap (id : ObjectId) (c : ClassMeta) (field : Nat) :
    (loadMap id c field).KeepsTables := by
  unfold loadMap
  exact (keepsTables_member c field).bind fun _ => (keepsTables_read _).bind fun rows =>
    (keepsTables_entriesOf field rows).bind fun _ => keepsTables_pure _

end Access

theorem Connection.view_run {α} {a : Access α} (ha : a.KeepsTables) (c : Connection)
    (db : Database) : (c.run db a).2.1.view (c.run db a).2.2 = c.view db := by
  simp only [Connection.run]
  split
  rename_i r w hrw
  -- the unit of work ends on the tables it started from
  have hw := (congrArg (fun p => p.2.tables) hrw).symm.trans (ha _)
  simp only at hw
  split
  · cases hs : c.snapshot <;> cases r <;> cases ht : w.touched <;>
      simp_all [Connection.view]
  · cases hs : c.snapshot <;> cases r <;> cases hwr : w.wrote <;> simp_all [Connection.view]

theorem Connection.run_read_fst {α} (c : Connection) (db : Database) (f : Tables → α) :
    (c.run db (Access.read f)).1 = .ok (f (c.view db)) := by
  simp only [Connection.run, Connection.view]
  cases c.snapshot <;> cases c.explicit <;> rfl

end Datastore

/-! ### What a delete does to one manager -/

namespace ManagedObject

def WrappersReleased (m : ManagedObject) : Prop :=
  ∀ f w, m.slot? f = some (.wrapper w) → w.owner = none

theorem install_cls (m : ManagedObject) (f : Nat) (sl : Slot) : (m.install f sl).cls = m.cls := by
  unfold ManagedObject.install
  split <;> rfl

theorem fieldData_unsetWrapperOwners (m : ManagedObject) (f : Nat) :
    m.unsetWrapperOwners.fieldData f = m.fieldData f := by
  unfold ManagedObject.fieldData ManagedObject.slot? ManagedObject.unsetWrapperOwners
  simp only [List.getElem?_map]
  cases m.slots[f]? with
  | none => rfl
  | some sl => cases sl <;> rfl

theorem wrappersReleased_unsetWrapperOwners (m : ManagedObject) :
    m.unsetWrapperOwners.WrappersReleased := by
  intro f w hw
  simp only [ManagedObject.unsetWrapperOwners, ManagedObject.slot?, List.getElem?_map,
    Option.map_eq_some_iff] at hw
  obtain ⟨sl, -, hsl⟩ := hw
  cases sl <;> simp only [Slot.wrapper.injEq, reduceCtorEq] at hsl
  rw [← hsl]
  rfl

end ManagedObject

theorem LifecycleState.step_readField_delete {l l' : LifecycleState}
    (h : l.step .readField = some l') : l'.step .delete = l.step .delete := by
  cases l <;> cases h <;> rfl

namespace Runtime

variable {r : Runtime} {t : ObjectId} {c : Nat} {e : EngineError}

theorem check_error (h : r.check t c = .error e) : e = .crossContext t := by
  unfold Runtime.check at h
  split at h
  · split at h
    · cases h
      rfl
    · cases h
  · cases h

theorem claim_error (h : r.claim t c = .error e) : e = .crossContext t := by
  unfold Runtime.claim at h
  split at h
  · split at h
    · cases h
      rfl
    · cases h
  · cases h

theorem findClass_error {name : String} (h : r.findClass name = .error e) :
    e = .unknownClass name := by
  unfold Runtime.findClass at h
  split at h
  · cases h
  · cases h
    rfl

end Runtime

namespace Engine

/-! ### The graph a delete walks -/

section Graph

variable (s : EngineState)

def viewOf : Datastore.Tables := s.ctx.backend.conn.view s.db

def storedIds : List ObjectId := (viewOf s).objects.map Datastore.ObjectRow.id

/-- The objects a managed object owns through its loaded dependent fields; none for an object
the context does not manage. -/
def dependentsOf (x : ObjectId) : List ObjectId :=
  ((s.ctx.objects.find? (·.id == x)).map fun m => dependentTargets m (dependentFields m.cls)).getD []

def deletedBefore (x : ObjectId) : Bool :=
  (s.ctx.objects.find? (·.id == x)).any (·.lifecycle.isDeleted)

/-- A delete marks `x` visited: the context manages it and it is not transient, or the context
does not manage it and its view of the datastore holds it. -/
def Marks (x : ObjectId) : Prop :=
  (∃ m, s.ctx.objects.find? (·.id == x) = some m ∧ m.lifecycle ≠ .transient) ∨
    (s.ctx.objects.find? (·.id == x) = none ∧ ((viewOf s).header? x).isSome)

def Enters (x : ObjectId) : Prop := Marks s x ∧ deletedBefore s x = false

/-- What a delete leaves of an object it enters: the state one delete transition takes it to
from the state it had, hollow when it was bound from the datastore, with its wrappers let go. -/
def DeletedFrom (y : ObjectId) (m : ManagedObject) : Prop :=
  LifecycleState.step (((s.ctx.objects.find? (·.id == y)).map (·.lifecycle)).getD .hollow)
    .delete = some m.lifecycle ∧ m.WrappersReleased

end Graph

/-- The references a delete follows from `x`, read in the state `s'` that loaded its dependent
fields: none from an object deleted before the delete began in `s`. -/
def ownedBy (s s' : EngineState) (x : ObjectId) : List ObjectId :=
  if deletedBefore s x then [] else dependentsOf s' x

/-! ### What a delete changes -/

/-- From `s`, the objects `N` a delete marked are deleted if it entered them, and nothing else
a delete answers for has changed: each entered object has moved by one delete transition
with its wrappers let go and its queued changes dropped, the managers of every other object
are as they were, the context reads the same tables, and it manages no object it neither
managed nor could read before. -/
structure Removed (s : EngineState) (N : List ObjectId) (s' : EngineState) : Prop where
  deleted : ∀ y ∈ N, deletedBefore s y = false →
    ∃ m, s'.ctx.objects.find? (·.id == y) = some m ∧ DeletedFrom s y m
  kept : ∀ y, (y ∉ N ∨ deletedBefore s y = true) →
    s'.ctx.objects.find? (·.id == y) = s.ctx.objects.find? (·.id == y)
  queue : s'.ctx.queue = s.ctx.queue.filter fun op => !(N.contains op.owner && !deletedBefore s op.owner)
  view : viewOf s' = viewOf s
  stays : ∀ y ∈ managedIds s', y ∈ managedIds s ∨ y ∈ storedIds s

section Removed

variable {s s₁ s₂ s' : EngineState} {N N₁ N₂ : List ObjectId}

theorem Removed.refl (s : EngineState) : Removed s [] s where
  deleted y h := absurd h List.not_mem_nil
  kept y h := rfl
  queue := by simp
  view := rfl
  stays _ h := .inl h

theorem Removed.deletedBefore_eq (h : Removed s N s') {y : ObjectId}
    (hy : y ∉ N ∨ deletedBefore s y = true) : deletedBefore s' y = deletedBefore s y := by
  simp only [deletedBefore, h.kept y hy]

theorem Removed.marks_iff (h : Removed s N s') (hN : ∀ y ∈ N, Marks s y) (y : ObjectId) :
    Marks s' y ↔ Marks s y := by
  by_cases hk : y ∉ N ∨ deletedBefore s y = true
  · simp only [Marks, h.kept y hk, h.view]
  · simp only [not_or, not_not, Bool.not_eq_true] at hk
    obtain ⟨m, hm, hstep, -⟩ := h.deleted y hk.1 hk.2
    refine ⟨fun _ => hN y hk.1, fun _ => .inl ⟨m, hm, fun ht => ?_⟩⟩
    -- a delete transition leads to a deleted state, never to transient
    have hdel := LifecycleState.step_delete hstep
    rw [ht] at hdel
    cases hdel

theorem Removed.trans (h₁ : Removed s N₁ s₁) (h₂ : Removed s₁ N₂ s₂)
    (hdisj : ∀ y ∈ N₂, y ∉ N₁) : Removed s (N₁ ++ N₂) s₂ := by
  -- what the second walk finds of the objects it marks is what the first one started from
  have hfind₂ : ∀ y ∈ N₂, s₁.ctx.objects.find? (·.id == y) = s.ctx.objects.find? (·.id == y) :=
    fun y hy => h₁.kept y (.inl (hdisj y hy))
  refine ⟨fun y hy hd => ?_, fun y hy => ?_, ?_, h₂.view.trans h₁.view, fun y hy => ?_⟩
  · rcases List.mem_append.mp hy with hy | hy
    · obtain ⟨m, hm, hdel⟩ := h₁.deleted y hy hd
      have hy₂ : y ∉ N₂ := fun h => hdisj y h hy
      exact ⟨m, by rw [h₂.kept y (.inl hy₂), hm], hdel⟩
    · have hd₁ : deletedBefore s₁ y = false := by
        simp only [deletedBefore, hfind₂ y hy] at hd ⊢
        exact hd
      obtain ⟨m, hm, hdel⟩ := h₂.deleted y hy hd₁
      refine ⟨m, hm, ?_⟩
      simpa only [DeletedFrom, hfind₂ y hy] using hdel
  · have hk₁ : y ∉ N₁ ∨ deletedBefore s y = true := by
      rcases hy with hy | hy
      · exact .inl fun h => hy (List.mem_append_left N₂ h)
      · exact .inr hy
    have hk₂ : y ∉ N₂ ∨ deletedBefore s₁ y = true := by
      rw [h₁.deletedBefore_eq hk₁]
      rcases hy with hy | hy
      · exact .inl fun h => hy (List.mem_append_right N₁ h)
      · exact .inr hy
    rw [h₂.kept y hk₂, h₁.kept y hk₁]
  · rw [h₂.queue, h₁.queue, List.filter_filter]
    refine List.filter_congr fun op _ => ?_
    by_cases ho : op.owner ∈ N₁
    · have ho₂ : op.owner ∉ N₂ := fun h => hdisj _ h ho
      simp [ho, ho₂]
    · rw [h₁.deletedBefore_eq (.inl ho)]
      simp [ho]
  · rcases h₂.stays y hy with hy | hy
    · exact h₁.stays y hy
    · exact .inr (by simpa only [storedIds, h₁.view] using hy)

end Removed

theorem Removed.passed {s : EngineState} {t : ObjectId} (ht : deletedBefore s t = true) :
    Removed s [t] s where
  deleted y hy hd := by
    obtain rfl := List.mem_singleton.mp hy
    simp [ht] at hd
  kept y h := rfl
  queue := by
    refine (List.filter_eq_self.mpr fun op _ => ?_).symm
    by_cases ho : op.owner = t
    · simp [ho, ht]
    · simp [ho]
  view := rfl
  stays y h := .inl h

theorem mem_storedIds {s : EngineState} {t : ObjectId} (h : ((viewOf s).header? t).isSome) :
    t ∈ storedIds s := by
  obtain ⟨row, hrow⟩ := Option.isSome_iff_exists.mp h
  have hid : row.id = t := by simpa using List.find?_some hrow
  exact List.mem_map.mpr ⟨row, List.mem_of_find?_eq_some hrow, hid⟩

/-- Binding `t` from the datastore leads from `s` to `s₁`: the context did not manage it and
its view held it, it now manages it hollow, and nothing else a delete answers for changed. -/
structure BoundFrom (s : EngineState) (t : ObjectId) (s₁ : EngineState) : Prop where
  unmanaged : s.ctx.objects.find? (·.id == t) = none
  stored : ((viewOf s).header? t).isSome
  bound : ∃ m, s₁.ctx.objects.find? (·.id == t) = some m ∧ m.lifecycle = .hollow
  others : ∀ y, y ≠ t → s₁.ctx.objects.find? (·.id == y) = s.ctx.objects.find? (·.id == y)
  queue : s₁.ctx.queue = s.ctx.queue
  view : viewOf s₁ = viewOf s
  stays : ∀ y ∈ managedIds s₁, y ∈ managedIds s ∨ y = t

section BoundFrom

variable {s s₁ : EngineState} {t : ObjectId}

theorem BoundFrom.marks (h : BoundFrom s t s₁) : Marks s t := .inr ⟨h.unmanaged, h.stored⟩

theorem BoundFrom.deletedBefore_eq (h : BoundFrom s t s₁) (y : ObjectId) :
    deletedBefore s₁ y = deletedBefore s y := by
  by_cases hy : y = t
  · subst hy
    obtain ⟨m, hm, hl⟩ := h.bound
    simp [deletedBefore, hm, hl, h.unmanaged, LifecycleState.isDeleted]
  · simp only [deletedBefore, h.others y hy]

theorem BoundFrom.marks_iff (h : BoundFrom s t s₁) (y : ObjectId) : Marks s₁ y ↔ Marks s y := by
  by_cases hy : y = t
  · subst hy
    obtain ⟨m, hm, hl⟩ := h.bound
    exact ⟨fun _ => h.marks, fun _ => .inl ⟨m, hm, by rw [hl]; decide⟩⟩
  · simp only [Marks, h.others y hy, h.view]

end BoundFrom

/-! ### One walk -/

/-- A walk of a delete from the starts `ts`, finding the visited list `V` in the state `s`,
ends with the list `r` in the state `s'`: it appends the objects `N` it marks, which are what
its starts reach outside `V` through the references of the objects it enters, and it deletes
exactly those it enters. -/
def DeletesInTurn (s : EngineState) (V ts r : List ObjectId) (s' : EngineState) : Prop :=
  ∃ N, r = V ++ N ∧ Graph.Visits (ownedBy s s') (Marks s) V ts N ∧ Removed s N s'

section DeletesInTurn

variable {s s₁ s₂ s' : EngineState} {V r r₁ r₂ ts : List ObjectId} {t : ObjectId}

theorem DeletesInTurn.nil (s : EngineState) (V : List ObjectId) : DeletesInTurn s V [] V s :=
  ⟨[], by simp, .nil, .refl s⟩

/-- A start that is not marked, or visited already, adds nothing; the state may still change
in what a delete does not answer for. -/
theorem DeletesInTurn.skip (h : ¬ Marks s t ∨ t ∈ V) (hs : Removed s [] s') :
    DeletesInTurn s V [t] V s' :=
  ⟨[], by simp, .skip h, hs⟩

theorem DeletesInTurn.cons (h₁ : DeletesInTurn s V [t] r₁ s₁) (h₂ : DeletesInTurn s₁ r₁ ts r₂ s₂) :
    DeletesInTurn s V (t :: ts) r₂ s₂ := by
  obtain ⟨N₁, rfl, hv₁, hm₁⟩ := h₁
  obtain ⟨N₂, rfl, hv₂, hm₂⟩ := h₂
  have hdisj : ∀ y ∈ N₂, y ∉ N₁ := fun y hy h' => hv₂.fresh y hy (List.mem_append_right V h')
  -- the first walk's references are read in the end state, which the second leaves alone
  have hv₁' : Graph.Visits (ownedBy s s₂) (Marks s) V [t] N₁ := hv₁.congr (fun x hx => by
    simp only [ownedBy, dependentsOf, hm₂.kept x (.inl fun h => hdisj x h hx)]) fun _ => .rfl
  -- the second walk finds the objects it marks as the first one started from
  have hv₂' : Graph.Visits (ownedBy s s₂) (Marks s) (V ++ N₁) ts N₂ := hv₂.congr (fun x hx => by
    simp only [ownedBy, hm₁.deletedBefore_eq (.inl (hdisj x hx))])
    fun y => (hm₁.marks_iff hv₁.admitted y).symm
  exact ⟨N₁ ++ N₂, by simp, hv₁'.cons hv₂', hm₁.trans hm₂ hdisj⟩

theorem DeletesInTurn.stop (ht : Marks s t) (hd : deletedBefore s t = true) (htV : t ∉ V) :
    DeletesInTurn s V [t] (V ++ [t]) s := by
  have hE : ownedBy s s t = [] := by simp [ownedBy, hd]
  refine ⟨[t], rfl, .visit ht htV ?_, .passed hd⟩
  rw [hE]
  exact .nil

/-- A visit to an object the delete enters: deleting it leads from `s` to `s₁`, and the walk
then goes on from the objects it owns, as the state `s₁` reads them. -/
theorem DeletesInTurn.visit (ht : Marks s t) (hd : deletedBefore s t = false) (htV : t ∉ V)
    (hone : Removed s [t] s₁) (h : DeletesInTurn s₁ (V ++ [t]) (dependentsOf s₁ t) r s') :
    DeletesInTurn s V [t] r s' := by
  obtain ⟨N, rfl, hv, hm⟩ := h
  have hfresh : ∀ x ∈ N, x ∉ [t] := fun x hx h' =>
    hv.fresh x hx (List.mem_append_right V h')
  -- the object's references were loaded when it was deleted, and stay as they were
  have hE : ownedBy s s' t = dependentsOf s₁ t := by
    have htN : t ∉ N := fun h' => hfresh t h' (List.mem_singleton_self t)
    simp only [ownedBy, hd, Bool.false_eq_true, if_false, dependentsOf, hm.kept t (.inl htN)]
  have hv' : Graph.Visits (ownedBy s s') (Marks s) (V ++ [t]) (ownedBy s s' t) N := by
    rw [hE]
    exact hv.congr (fun x hx => by simp only [ownedBy, hone.deletedBefore_eq (.inl (hfresh x hx))])
      fun y => (hone.marks_iff (fun y hy => (List.mem_singleton.mp hy) ▸ ht) y).symm
  exact ⟨t :: N, by simp, .visit ht htV hv', hone.trans hm hfresh⟩

theorem DeletesInTurn.bound (hb : BoundFrom s t s₁) (htV : t ∉ V)
    (h : DeletesInTurn s₁ V [t] r s') : DeletesInTurn s V [t] r s' := by
  obtain ⟨N, rfl, hv, hm⟩ := h
  have htN : t ∈ N := by
    have := hv.starts t (List.mem_singleton_self t) ((hb.marks_iff t).mpr hb.marks)
    simpa [htV] using this
  have hv' : Graph.Visits (ownedBy s s') (Marks s) V [t] N :=
    hv.congr (fun x _ => by simp only [ownedBy, hb.deletedBefore_eq]) fun y => (hb.marks_iff y).symm
  refine ⟨N, rfl, hv', fun y hy hd => ?_, fun y hy => ?_, ?_, hm.view.trans hb.view, fun y hy => ?_⟩
  · obtain ⟨m, hm', hdel⟩ := hm.deleted y hy (by rw [hb.deletedBefore_eq]; exact hd)
    refine ⟨m, hm', ?_⟩
    by_cases hyt : y = t
    · subst hyt
      obtain ⟨m₁, hm₁, hl₁⟩ := hb.bound
      simpa only [DeletedFrom, hm₁, hb.unmanaged, Option.map_some, Option.map_none,
        Option.getD_some, Option.getD_none, hl₁] using hdel
    · simpa only [DeletedFrom, hb.others y hyt] using hdel
  · -- the object bound is deleted, so every object kept is another one
    have hyt : y ≠ t := by
      rintro rfl
      rcases hy with hy | hy
      · exact hy htN
      · obtain ⟨m₁, hm₁, hl₁⟩ := hb.bound
        rw [← hb.deletedBefore_eq] at hy
        simp [deletedBefore, hm₁, hl₁, LifecycleState.isDeleted] at hy
    rw [hm.kept y (by rwa [hb.deletedBefore_eq]), hb.others y hyt]
  · rw [hm.queue, hb.queue]
    simp only [hb.deletedBefore_eq]
  · rcases hm.stays y hy with hy | hy
    · rcases hb.stays y hy with hy | rfl
      · exact .inl hy
      · exact .inr (mem_storedIds hb.stored)
    · exact .inr (by simpa only [storedIds, hb.view] using hy)

end DeletesInTurn

/-! ### Binding from the datastore -/

section Bind

variable {s s' : EngineState} {t : ObjectId}

theorem Removed.of_quiet (hobj : s'.ctx.objects = s.ctx.objects) (hq : s'.ctx.queue = s.ctx.queue)
    (hv : viewOf s' = viewOf s) : Removed s [] s' where
  deleted y h := absurd h List.not_mem_nil
  kept y _ := by rw [hobj]
  queue := by simp [hq]
  view := hv
  stays y h := .inl (by simpa only [managedIds, hobj] using h)

/-- Reading a stored header answers the header the context's view holds, and changes only the
connection and the counts. -/
theorem run_storedHeader (s : EngineState) (t : ObjectId) :
    ∃ s', (ExceptT.run (storedHeader t)).run s =
        (.ok (((viewOf s).header? t).map fun r => ⟨r.id, r.cls, r.version⟩), s') ∧
      s'.ctx.objects = s.ctx.objects ∧ s'.ctx.queue = s.ctx.queue ∧ s'.runtime = s.runtime ∧
      viewOf s' = viewOf s := by
  simp only [storedHeader, run_bind, run_count, run_access, Datastore.Access.header?,
    Datastore.Connection.run_read_fst]
  refine ⟨_, rfl, rfl, rfl, rfl, ?_⟩
  exact Datastore.Connection.view_run (Datastore.Access.keepsTables_read _) _ _

theorem run_tryCatch {α} (x : Engine α) (h : EngineError → Engine α) :
    (ExceptT.run (tryCatch x h)).run s = match (ExceptT.run x).run s with
      | (.ok a, s') => (.ok a, s')
      | (.error e, s') => (ExceptT.run (h e)).run s' := by
  rw [ExceptT.run_tryCatch, StateT.run_bind]
  rcases (ExceptT.run x).run s with ⟨_ | a, s'⟩ <;> rfl

theorem run_modifyContext (f : Context → Context) :
    (ExceptT.run (modifyContext f)).run s = (.ok ⟨⟩, { s with ctx := f s.ctx }) := rfl

theorem run_acquireManager (id : ObjectId) (cls : ClassMeta) (lifecycle : LifecycleState) :
    (ExceptT.run (acquireManager id cls lifecycle)).run s =
      (.ok (ManagedObject.create id cls lifecycle),
        { s with ctx := { s.ctx with pool := (s.ctx.pool.acquire id cls lifecycle).2 } }) := by
  rw [← ManagerPool.acquire_fst s.ctx.pool id cls lifecycle]
  rfl

theorem BoundFrom.adopt (hfind : s.ctx.objects.find? (·.id == t) = none)
    (hh : ((viewOf s).header? t).isSome) (m : ManagedObject) (hid : m.id = t)
    (hl : m.lifecycle = .hollow) (hobj : s'.ctx.objects = s.ctx.objects ++ [m])
    (hq : s'.ctx.queue = s.ctx.queue) (hv : viewOf s' = viewOf s) : BoundFrom s t s' := by
  have hfind' : ∀ y, s'.ctx.objects.find? (·.id == y) =
      (s.ctx.objects.find? (·.id == y)).or (if m.id = y then some m else none) := fun y => by
    rw [hobj, List.find?_append]
    by_cases hy : m.id = y <;> simp [hy]
  refine ⟨hfind, hh, ⟨m, by simp [hfind', hfind, hid], hl⟩, fun y hy => ?_, hq, hv, fun y hy => ?_⟩
  · have : m.id ≠ y := fun h => hy (h ▸ hid)
    simp [hfind', this]
  · simp only [managedIds, hobj, List.map_append, List.mem_append, List.map_cons, List.map_nil,
      List.mem_singleton] at hy
    exact hy.imp id (·.trans hid)

/-- Binding an object the context does not manage binds it hollow when that succeeds; when it
fails because the view holds no such object, nothing a delete answers for changed. -/
theorem run_ensureManaged_unmanaged (hfind : s.ctx.objects.find? (·.id == t) = none)
    {r : Except EngineError Unit} (hrun : (ExceptT.run (ensureManaged t)).run s = (r, s')) :
    (r = .ok () ∧ BoundFrom s t s') ∨
      (r = .error (.objectNotFound t) ∧ (viewOf s).header? t = none ∧ Removed s [] s') ∨
      r = .error (.crossContext t) ∨ ∃ n, r = .error (.unknownClass n) := by
  simp only [ensureManaged, run_bind, run_managed?, hfind, Option.isSome_none,
    Bool.false_eq_true, if_false, run_checkOwner] at hrun
  cases hc : s.runtime.check t s.ctx.id with
  | error e =>
    rw [hc] at hrun
    cases hrun
    exact .inr (.inr (.inl (by rw [Runtime.check_error hc])))
  | ok _ =>
    obtain ⟨s₁, hs₁, hobj, hq, hrt, hv⟩ := run_storedHeader s t
    simp only [hc, hs₁] at hrun
    cases hh : (viewOf s).header? t with
    | none =>
      simp only [hh, Option.map_none, run_throw] at hrun
      cases hrun
      exact .inr (.inl ⟨rfl, rfl, .of_quiet hobj hq hv⟩)
    | some row =>
      simp only [hh, Option.map_some, run_bind, findClass, run_get, run_lift, hrt] at hrun
      cases hf : s.runtime.findClass row.cls with
      | error e =>
        simp only [hf] at hrun
        cases hrun
        exact .inr (.inr (.inr ⟨_, by rw [Runtime.findClass_error hf]⟩))
      | ok cls =>
        simp only [hf, bindHollow, claim, run_bind, run_get, run_lift] at hrun
        cases hcl : s₁.runtime.claim t s₁.ctx.id with
        | error e =>
          simp only [hcl] at hrun
          cases hrun
          exact .inr (.inr (.inl (by rw [Runtime.claim_error hcl])))
        | ok rt =>
          simp only [hcl, run_set, run_acquireManager, run_modifyContext, adopt] at hrun
          cases hrun
          refine .inl ⟨rfl, BoundFrom.adopt hfind (by simp [hh])
            { ManagedObject.create t cls .hollow with version := row.version } rfl rfl ?_ hq hv⟩
          simp [hobj]

/-- Binding an object the context does not manage answers whether its view holds it: if so,
the object is now bound hollow, and if not, nothing a delete answers for changed. -/
theorem run_bindIfStored (hfind : s.ctx.objects.find? (·.id == t) = none) {b : Bool}
    (hrun : (ExceptT.run (bindIfStored t)).run s = (.ok b, s')) :
    (b = true ∧ BoundFrom s t s') ∨ (b = false ∧ ¬ Marks s t ∧ Removed s [] s') := by
  rcases hm : (ExceptT.run (ensureManaged t)).run s with ⟨r, s₁⟩
  simp only [bindIfStored, run_tryCatch, run_bind, hm] at hrun
  rcases run_ensureManaged_unmanaged hfind hm with ⟨rfl, hb⟩ | ⟨rfl, hh, hq⟩ | rfl | ⟨n, rfl⟩
  · cases hrun
    exact .inl ⟨rfl, hb⟩
  · cases hrun
    exact .inr ⟨rfl, by simp [Marks, hfind, hh], hq⟩
  -- any other failure is passed on
  · cases hrun
  · cases hrun

end Bind

/-! ### Loading the dependent fields -/

/-- What loading fields of `t` keeps of the state `s₀`: the managers of every other object, the
objects managed, the queue, the tables the context reads, and of the manager of `t` its class
and the state a delete takes it to. -/
structure KeptByLoad (s₀ : EngineState) (t : ObjectId) (s : EngineState) : Prop where
  others : ∀ y, y ≠ t → s.ctx.objects.find? (·.id == y) = s₀.ctx.objects.find? (·.id == y)
  ids : managedIds s = managedIds s₀
  queue : s.ctx.queue = s₀.ctx.queue
  view : viewOf s = viewOf s₀
  first : (s.ctx.objects.find? (·.id == t)).map (fun m => (m.cls, m.lifecycle.step .delete)) =
    (s₀.ctx.objects.find? (·.id == t)).map (fun m => (m.cls, m.lifecycle.step .delete))

section Load

variable {s₀ s : EngineState} {t : ObjectId}

theorem KeptByLoad.refl (s : EngineState) (t : ObjectId) : KeptByLoad s t s :=
  ⟨fun _ _ => rfl, rfl, rfl, rfl, rfl⟩

/-- A change to the managers of `t` that keeps them managers of `t`, and keeps the class of the
first one and the state a delete takes it to. -/
theorem KeptByLoad.update {g : ManagedObject → ManagedObject} (hid : ∀ m, m.id = t → (g m).id = t)
    (hfirst : ∀ m, s.ctx.objects.find? (·.id == t) = some m →
      (g m).cls = m.cls ∧ (g m).lifecycle.step .delete = m.lifecycle.step .delete)
    (h : KeptByLoad s₀ t s) :
    KeptByLoad s₀ t { s with ctx := { s.ctx with objects := s.ctx.objects.map (updateAt t g) } } := by
  refine ⟨fun y hy => ?_, ?_, h.queue, h.view, ?_⟩
  · rw [find?_updateAt hid, if_neg hy]
    exact h.others y hy
  · rw [← h.ids]
    simp only [managedIds, List.map_map]
    congr 1
    funext m
    exact updateAt_id hid m
  · rw [find?_updateAt hid, if_pos rfl, Option.map_map, ← h.first]
    cases hm : s.ctx.objects.find? (·.id == t) with
    | none => rfl
    | some m => simp [hfirst m hm]

theorem KeptByLoad.congr {s' : EngineState} (h : KeptByLoad s₀ t s)
    (hobj : s'.ctx.objects = s.ctx.objects) (hq : s'.ctx.queue = s.ctx.queue)
    (hv : viewOf s' = viewOf s) : KeptByLoad s₀ t s' where
  others y hy := by rw [hobj]; exact h.others y hy
  ids := by rw [← h.ids]; simp only [managedIds, hobj]
  queue := hq.trans h.queue
  view := hv.trans h.view
  first := by rw [hobj]; exact h.first

theorem KeptByLoad.find_some (h : KeptByLoad s₀ t s) {m : ManagedObject}
    (hm : s₀.ctx.objects.find? (·.id == t) = some m) :
    ∃ m₁, s.ctx.objects.find? (·.id == t) = some m₁ ∧ m₁.cls = m.cls ∧
      m₁.lifecycle.step .delete = m.lifecycle.step .delete := by
  have hfirst := h.first
  rw [hm] at hfirst
  cases hm₁ : s.ctx.objects.find? (·.id == t) with
  | none =>
    rw [hm₁] at hfirst
    cases hfirst
  | some m₁ =>
    rw [hm₁] at hfirst
    simp only [Option.map_some, Option.some.injEq, Prod.mk.injEq] at hfirst
    exact ⟨m₁, rfl, hfirst.1, hfirst.2⟩

theorem loadMapField_keptByLoad (x : ObjectId) (c : ClassMeta) (f : Nat) :
    ⦃fun s => ⌜KeptByLoad s₀ t s⌝⦄ loadMapField x c f ⦃keeps (KeptByLoad s₀ t)⦄ := by
  have hkeep := Datastore.Access.keepsTables_loadMap x c f
  mvcgen [loadMapField, loadStoredMap]
  all_goals
    have h := ‹KeptByLoad s₀ t _›
    exact h.congr rfl rfl (Datastore.Connection.view_run hkeep _ _)

theorem installData_keptByLoad (field : Nat) (data : Option FieldData) :
    ⦃fun s => ⌜KeptByLoad s₀ t s⌝⦄ installData t field data ⦃keeps (KeptByLoad s₀ t)⦄ := by
  mvcgen [installData, updateManager]
  rename_i s h _ _ _ _ _ _ _
  exact h.update (fun m hm => (ManagedObject.install_id m field _).trans hm)
    fun m _ => ⟨ManagedObject.install_cls m field _, by rw [ManagedObject.install_lifecycle]⟩

theorem transition_readField_keptByLoad :
    ⦃fun s => ⌜KeptByLoad s₀ t s⌝⦄ transition t .readField ⦃keeps (KeptByLoad s₀ t)⦄ := by
  mvcgen [transition, updateManager]
  rename_i s h m hm m' ht _
  obtain ⟨hstep, hm'⟩ := ManagedObject.transition_eq_ok ht
  have hid : m'.id = t := by rw [hm']; exact (id_of_find? hm :)
  refine h.update (fun _ _ => hid) fun m₁ hm₁ => ?_
  obtain rfl : m₁ = m := Option.some.inj (hm₁.symm.trans hm)
  exact ⟨by rw [hm'], LifecycleState.step_readField_delete hstep⟩

theorem ensureLoaded_keptByLoad (fields : List Nat) :
    ⦃fun s => ⌜KeptByLoad s₀ t s⌝⦄ ensureLoaded t fields ⦃keeps (KeptByLoad s₀ t)⦄ := by
  have hInstallData := @installData_keptByLoad s₀ t
  have hLoadMapField := @loadMapField_keptByLoad s₀ t
  have hTransition := @transition_readField_keptByLoad s₀ t
  mvcgen [ensureLoaded, hInstallData, hLoadMapField, hTransition] invariants
  | inv1 => keeps (KeptByLoad s₀ t)
  | inv2 => keeps (KeptByLoad s₀ t)
  | inv3 => keeps (KeptByLoad s₀ t)
  | inv4 => keeps (KeptByLoad s₀ t)
  | inv5 => keeps (KeptByLoad s₀ t)
  | inv6 => keeps (KeptByLoad s₀ t)
  all_goals
    have h := ‹KeptByLoad s₀ t _›
    exact h.congr rfl rfl (Datastore.Connection.view_run (Datastore.Access.keepsTables_load _ _ _) _ _)

end Load

/-! ### Deleting one object -/

theorem dependentTargets_congr {m m' : ManagedObject} (hcls : m'.cls = m.cls)
    (hdata : ∀ f, m'.fieldData f = m.fieldData f) (fields : List Nat) :
    dependentTargets m' fields = dependentTargets m fields := by
  simp only [dependentTargets, hcls, hdata]

section DeleteOne

variable {s s' : EngineState} {t : ObjectId}

/-- Deleting one object the context manages and has not deleted: it removes that object alone,
and answers what the object owns as the state it leaves reads it. -/
theorem run_deleteOne {m : ManagedObject} (hfind : s.ctx.objects.find? (·.id == t) = some m)
    (hd : m.lifecycle.isDeleted = false) {ts : List ObjectId}
    (hrun : (ExceptT.run (deleteOne t)).run s = (.ok ts, s')) :
    Removed s [t] s' ∧ ts = dependentsOf s' t := by
  simp only [deleteOne] at hrun
  obtain ⟨_, _, hman, hrun⟩ := run_bind_ok hrun
  rw [run_manager, hfind] at hman
  cases hman
  -- the delete transition is legal, or the delete fails before it changes anything
  obtain ⟨_, _, hcore, hrun⟩ := run_bind_ok hrun
  obtain ⟨m₀, ht⟩ : ∃ m₀, m.transition .delete = .ok m₀ := by
    cases ht : m.transition .delete with
    | error e =>
      rw [run_discard, run_core, ht] at hcore
      cases hcore
    | ok m₀ => exact ⟨m₀, rfl⟩
  rw [run_discard, run_core, ht] at hcore
  cases hcore
  obtain ⟨hstep, -⟩ := ManagedObject.transition_eq_ok ht
  -- loading the dependent fields keeps the rest, and the class and fate of the object
  obtain ⟨_, s₁, hload, hrun⟩ := run_bind_ok hrun
  have hk : KeptByLoad s t s₁ := by
    have := keeps_run_of (ensureLoaded_keptByLoad (dependentFields m.cls)) s (KeptByLoad.refl s t)
    rwa [hload] at this
  obtain ⟨m₁, hm₁, hcls₁, hstep₁⟩ := hk.find_some hfind
  obtain ⟨_, _, hman₁, hrun⟩ := run_bind_ok hrun
  rw [run_manager, hm₁] at hman₁
  cases hman₁
  have ht₁ : m₁.transition .delete = .ok { m₁ with lifecycle := m₀.lifecycle } := by
    unfold ManagedObject.transition
    rw [hstep₁, hstep]
  obtain ⟨_, _, htr, hrun⟩ := run_bind_ok hrun
  simp only [transition, run_discard, run_bind, run_manager, hm₁, Option.elim, run_core, ht₁,
    Except.mapError, run_updateManager, run_pure] at htr
  cases htr
  obtain ⟨_, _, hupd, hrun⟩ := run_bind_ok hrun
  rw [run_updateManager] at hupd
  cases hupd
  obtain ⟨_, _, hmod, hrun⟩ := run_bind_ok hrun
  rw [run_modifyContext] at hmod
  cases hmod
  rw [run_pure] at hrun
  cases hrun
  -- in the end state the object's managers are deleted and let go, and no other changed
  have hid₁ : m₁.id = t := id_of_find? hm₁
  have hu : ∀ n : ManagedObject, n.id = t → n.unsetWrapperOwners.id = t := fun _ h => h
  have hc : ∀ n : ManagedObject, n.id = t →
      ({ m₁ with lifecycle := m₀.lifecycle } : ManagedObject).id = t := fun _ _ => hid₁
  have hobj : ∀ y, (((s₁.ctx.objects.map (updateAt t fun _ => { m₁ with lifecycle := m₀.lifecycle })).map
      (updateAt t (·.unsetWrapperOwners))).find? (·.id == y)) =
      if y = t then some { m₁ with lifecycle := m₀.lifecycle }.unsetWrapperOwners
      else s.ctx.objects.find? (·.id == y) := fun y => by
    by_cases hy : y = t
    · subst hy
      rw [find?_updateAt_self hu (find?_updateAt_self hc hm₁), if_pos rfl]
    · rw [find?_updateAt hu, if_neg hy, find?_updateAt hc, if_neg hy, if_neg hy, hk.others y hy]
  have hdt : deletedBefore s t = false := by simp [deletedBefore, hfind, hd]
  refine ⟨⟨fun y hy _ => ?_, fun y hy => ?_, ?_, hk.view, fun y hy => ?_⟩, ?_⟩
  · obtain rfl := List.mem_singleton.mp hy
    refine ⟨_, hobj y |>.trans (if_pos rfl), ?_, ManagedObject.wrappersReleased_unsetWrapperOwners _⟩
    rw [hfind]
    exact hstep
  · have hyt : y ≠ t := by
      rintro rfl
      simp [hdt] at hy
    exact (hobj y).trans (if_neg hyt)
  · rw [hk.queue]
    refine List.filter_congr fun op _ => ?_
    by_cases ho : op.owner = t <;> simp [ho, hdt]
  · -- the delete manages the objects the load did, which are those it started with
    left
    rw [← hk.ids]
    simpa only [managedIds, List.map_map, Function.comp_def, updateAt_id hu, updateAt_id hc] using hy
  · -- the object's fields were loaded before its delete, which leaves their data as it was
    simp only [dependentsOf, hobj t, if_true, Option.map_some, Option.getD_some]
    have hcls : ({ m₁ with lifecycle := m₀.lifecycle } : ManagedObject).unsetWrapperOwners.cls =
        m.cls := hcls₁
    rw [hcls, eq_comm]
    exact dependentTargets_congr (by rfl) (fun f => ManagedObject.fieldData_unsetWrapperOwners _ f) _

end DeleteOne

/-! ### The bound on a delete -/

def candidates (s : EngineState) : List ObjectId := managedIds s ++ storedIds s

section Bound

variable {s s' : EngineState} {N V ts r : List ObjectId} {t : ObjectId}

/-- A step that manages no object it neither managed nor could read before, and reads the same
tables, leaves no candidate it did not have. -/
theorem candidates_subset (hstays : ∀ y ∈ managedIds s', y ∈ managedIds s ∨ y ∈ storedIds s)
    (hview : viewOf s' = viewOf s) : ∀ x ∈ candidates s', x ∈ candidates s := by
  intro x hx
  rcases List.mem_append.mp hx with hx | hx
  · exact List.mem_append.mpr (hstays x hx)
  · exact List.mem_append_right _ (by simpa only [storedIds, hview] using hx)

theorem Removed.candidates (h : Removed s N s') : ∀ x ∈ candidates s', x ∈ candidates s :=
  candidates_subset h.stays h.view

theorem BoundFrom.candidates (h : BoundFrom s t s') : ∀ x ∈ candidates s', x ∈ candidates s := by
  refine candidates_subset (fun y hy => ?_) h.view
  rcases h.stays y hy with hy | rfl
  · exact .inl hy
  · exact .inr (mem_storedIds h.stored)

theorem BoundFrom.unvisited_lt (h : BoundFrom s t s') {f : Nat}
    (hf : (Graph.unvisited (Engine.candidates s) V).card < f) :
    (Graph.unvisited (Engine.candidates s') V).card < f :=
  (Graph.unvisited_card_le_of_subset h.candidates V).trans_lt hf

theorem BoundFrom.visited (h : BoundFrom s t s') (htV : t ∉ V)
    (hV : ∀ y ∈ V, (s.ctx.objects.find? (·.id == y)).isSome) :
    ∀ y ∈ V, (s'.ctx.objects.find? (·.id == y)).isSome := by
  intro y hy
  rw [h.others y fun hyt => htV (hyt ▸ hy)]
  exact hV y hy

theorem DeletesInTurn.card_le (h : DeletesInTurn s V ts r s') :
    (Graph.unvisited (candidates s') r).card ≤ (Graph.unvisited (candidates s) V).card := by
  obtain ⟨N, rfl, -, hm⟩ := h
  exact (Graph.unvisited_card_le_of_subset hm.candidates _).trans
    (Graph.unvisited_append_card_le _ V N)

theorem DeletesInTurn.managed (h : DeletesInTurn s V ts r s')
    (hV : ∀ y ∈ V, (s.ctx.objects.find? (·.id == y)).isSome) :
    ∀ y ∈ r, (s'.ctx.objects.find? (·.id == y)).isSome := by
  obtain ⟨N, rfl, hv, hm⟩ := h
  intro y hy
  rcases List.mem_append.mp hy with hy | hy
  · rw [hm.kept y (.inl fun h => hv.fresh y h hy)]
    exact hV y hy
  · cases hd : deletedBefore s y with
    | false =>
      obtain ⟨m, hm', -⟩ := hm.deleted y hy hd
      simp [hm']
    | true =>
      rw [hm.kept y (.inr hd)]
      simp only [deletedBefore, Option.any_eq_true] at hd
      obtain ⟨m, hm', -⟩ := hd
      simp [hm']

end Bound

/-! ### The walk of a delete -/

section Cascade

variable {s s' : EngineState} {t : ObjectId} {V r : List ObjectId}

theorem run_ensureManaged_managed (h : (s.ctx.objects.find? (·.id == t)).isSome) :
    (ExceptT.run (ensureManaged t)).run s = (.ok (), s) := by
  simp only [ensureManaged, run_bind, run_managed?, h, if_true]
  rfl

/-- What the body of the loop over an object's targets does, given what a walk from one
target does: it passes over transient targets and those no table holds, binds the others it
finds only in the datastore, and walks from each. -/
theorem body_deletes {f : Nat}
    (ih : ∀ (t : ObjectId) (V : List ObjectId) (s : EngineState) (r : List ObjectId)
      (s' : EngineState), (Graph.unvisited (candidates s) V).card < f →
      (∀ y ∈ V, (s.ctx.objects.find? (·.id == y)).isSome) →
      (ExceptT.run (deleteCascade f t V)).run s = (.ok r, s') → DeletesInTurn s V [t] r s')
    {st : ForInStep (List ObjectId)} (hf : (Graph.unvisited (candidates s) V).card < f)
    (hV : ∀ y ∈ V, (s.ctx.objects.find? (·.id == y)).isSome)
    (hrun : (ExceptT.run (do
      match ← lifecycle? t with
      | some .transient => pure (ForInStep.yield V)
      | some _ => do
        let visited ← deleteCascade f t V
        pure (ForInStep.yield visited)
      | none => do
        if ← bindIfStored t then do
          let visited ← deleteCascade f t V
          pure (ForInStep.yield visited)
        else pure (ForInStep.yield V))).run s = (.ok st, s')) :
    ∃ r, st = .yield r ∧ DeletesInTurn s V [t] r s' := by
  rw [run_bind, run_lifecycle?] at hrun
  cases hfind : s.ctx.objects.find? (·.id == t) with
  | some m =>
    simp only [hfind, Option.map_some] at hrun
    by_cases ht : m.lifecycle = .transient
    · -- a transient target is not marked
      rw [ht] at hrun
      cases hrun
      exact ⟨V, rfl, .skip (.inl fun h => by simp [Marks, hfind, ht] at h) (.refl s)⟩
    · have hrun' : (ExceptT.run (do
          let visited ← deleteCascade f t V
          pure (ForInStep.yield visited))).run s = (.ok st, s') := by
        rw [← hrun]
        cases hl : m.lifecycle <;> simp_all
      obtain ⟨r, rfl, h⟩ := run_yield hrun'
      exact ⟨r, rfl, ih t V s r s' hf hV h⟩
  | none =>
    simp only [hfind, Option.map_none, run_bind] at hrun
    rcases hb : (ExceptT.run (bindIfStored t)).run s with ⟨_ | b, s₀⟩
    · rw [hb] at hrun
      cases hrun
    · rw [hb] at hrun
      rcases run_bindIfStored hfind hb with ⟨rfl, hbound⟩ | ⟨rfl, hnot, hq⟩
      · -- a target bound from the datastore was not visited, as every visited object is managed
        have htV : t ∉ V := fun h => by simpa [hfind] using hV t h
        simp only [if_true] at hrun
        obtain ⟨r, rfl, h⟩ := run_yield hrun
        exact ⟨r, rfl, .bound hbound htV
          (ih t V s₀ r s' (hbound.unvisited_lt hf) (hbound.visited htV hV) h)⟩
      · simp only [Bool.false_eq_true, if_false, run_pure] at hrun
        cases hrun
        exact ⟨V, rfl, .skip (.inl hnot) hq⟩

/-- A delete from `t` whose bound exceeds the candidates it leaves unvisited walks in full: it
never runs out of its bound, and it deletes in turn what `t` owns. -/
theorem cascade_deletes : ∀ (f : Nat) (t : ObjectId) (V : List ObjectId) (s : EngineState)
    (r : List ObjectId) (s' : EngineState), (Graph.unvisited (candidates s) V).card < f →
    (∀ y ∈ V, (s.ctx.objects.find? (·.id == y)).isSome) →
    (ExceptT.run (deleteCascade f t V)).run s = (.ok r, s') → DeletesInTurn s V [t] r s'
  | 0, _, _, _, _, _, hf, _, _ => absurd hf (Nat.not_lt_zero _)
  | f + 1, t, V, s, r, s', hf, hV, hrun => by
    by_cases htV : t ∈ V
    · rw [deleteCascade, if_pos (by simpa using htV), run_pure] at hrun
      cases hrun
      exact .skip (.inr htV) (.refl s)
    rw [deleteCascade, if_neg (by simpa using htV)] at hrun
    obtain ⟨_, s₀, hem, hrun⟩ := run_bind_ok hrun
    -- the object is managed now: it was, or it is bound from the datastore
    obtain ⟨m₀, hm₀, hs₀⟩ : ∃ m₀, s₀.ctx.objects.find? (·.id == t) = some m₀ ∧
        (s₀ = s ∨ BoundFrom s t s₀) := by
      cases hfind : s.ctx.objects.find? (·.id == t) with
      | some m =>
        rw [run_ensureManaged_managed (by simp [hfind])] at hem
        cases hem
        exact ⟨m, hfind, .inl rfl⟩
      | none =>
        rcases run_ensureManaged_unmanaged hfind hem with ⟨-, hb⟩ | ⟨h, -⟩ | h | ⟨_, h⟩
        · obtain ⟨m, hm, -⟩ := hb.bound
          exact ⟨m, hm, .inr hb⟩
        all_goals cases h
    have hf₀ : (Graph.unvisited (candidates s₀) V).card < f + 1 := by
      rcases hs₀ with rfl | hb
      · exact hf
      · exact hb.unvisited_lt hf
    have hV₀ : ∀ y ∈ V, (s₀.ctx.objects.find? (·.id == y)).isSome := by
      rcases hs₀ with rfl | hb
      · exact hV
      · exact hb.visited htV hV
    suffices h : DeletesInTurn s₀ V [t] r s' by
      rcases hs₀ with rfl | hb
      · exact h
      · exact .bound hb htV h
    obtain ⟨_, _, hman, hrun⟩ := run_bind_ok hrun
    rw [run_manager, hm₀] at hman
    cases hman
    cases hd : m₀.lifecycle.isDeleted with
    | true =>
      -- an object deleted before is marked and passed
      simp only [hd, if_true, run_pure] at hrun
      obtain ⟨hr, hs⟩ := Prod.mk.inj hrun
      cases hr
      rw [← hs]
      have hdb : deletedBefore s₀ t = true := by simp [deletedBefore, hm₀, hd]
      refine .stop (.inl ⟨m₀, hm₀, fun h => ?_⟩) hdb htV
      simp [h, LifecycleState.isDeleted] at hd
    | false =>
      simp only [hd, Bool.false_eq_true, if_false] at hrun
      obtain ⟨ts, s₁, hdel, hrun⟩ := run_bind_ok hrun
      obtain ⟨hone, rfl⟩ := run_deleteOne hm₀ hd hdel
      have hdb : deletedBefore s₀ t = false := by simp [deletedBefore, hm₀, hd]
      obtain ⟨_, -, hstep, -⟩ := hone.deleted t (List.mem_singleton_self t) hdb
      -- a transient object has no delete transition, so the object deleted was marked
      have hmarks : Marks s₀ t := by
        refine .inl ⟨m₀, hm₀, fun h => ?_⟩
        rw [hm₀, Option.map_some, Option.getD_some, h] at hstep
        cases hstep
      obtain ⟨r₁, s₂, hloop, hrun⟩ := run_bind_ok hrun
      obtain ⟨hr, hs⟩ := Prod.mk.inj hrun
      rw [← Except.ok.inj hr, ← hs]
      -- the object deleted takes one candidate out of those left unvisited
      have hk : (Graph.unvisited (candidates s₁) (V ++ [t])).card < f := by
        have ht₀ : t ∈ candidates s₀ := List.mem_append_left _
          (List.mem_map.mpr ⟨m₀, List.mem_of_find?_eq_some hm₀, id_of_find? hm₀⟩)
        have h₁ := Graph.unvisited_card_le_of_subset hone.candidates (V ++ [t])
        have h₂ := Graph.unvisited_visit_card_lt ht₀ htV
        omega
      have hI : ∀ y ∈ V ++ [t], (s₁.ctx.objects.find? (·.id == y)).isSome := by
        intro y hy
        rcases List.mem_append.mp hy with hy | hy
        · rw [hone.kept y (.inl fun h => htV (List.mem_singleton.mp h ▸ hy))]
          exact hV₀ y hy
        · obtain rfl := List.mem_singleton.mp hy
          obtain ⟨m, hm, -⟩ := hone.deleted y (List.mem_singleton_self y) hdb
          simp [hm]
      have hwalk : DeletesInTurn s₁ (V ++ [t]) (dependentsOf s₁ t) r₁ s₂ :=
        forIn_walks_in candidates (fun s V => .nil s V) (fun h₁ h₂ => h₁.cons h₂)
          (fun h hI => ⟨h.managed hI, h.card_le⟩)
          (fun _ _ _ _ _ hk hI h => body_deletes (cascade_deletes f) hk hI h) _ _ _ _ _ hk hI hloop
      exact .visit hmarks hdb htV hone hwalk

/-- The bound a delete is given, one more than the objects the context manages and those its
view holds, exceeds the number of candidates it can leave unvisited. -/
theorem unvisited_card_lt_deleteBound (s : EngineState) :
    (Graph.unvisited (candidates s) []).card < deleteBound s := by
  have h₁ : (Graph.unvisited (candidates s) []).card ≤ (candidates s).length := by
    simpa [Graph.unvisited] using (candidates s).toFinset_card_le
  have h₂ : (candidates s).length =
      s.ctx.objects.length + (s.ctx.backend.conn.view s.db).objectCount := by
    simp [candidates, managedIds, storedIds, viewOf, Datastore.Tables.objectCount]
  simp only [deleteBound]
  omega

theorem delete_walks {root : ObjectId} (hrun : (ExceptT.run (delete root)).run s = (.ok (), s')) :
    ∃ r, DeletesInTurn s [] [root] r s' := by
  simp only [delete, run_bind, run_get, run_discard] at hrun
  rcases h : (ExceptT.run (deleteCascade (deleteBound s) root [])).run s with ⟨_ | r, s₁⟩
  · rw [h] at hrun
    cases hrun
  · rw [h] at hrun
    cases hrun
    exact ⟨r, cascade_deletes _ root [] s r _ (unvisited_card_lt_deleteBound s) (by simp) h⟩

end Cascade

/-! ### The objects a delete enters -/

section Enters

variable {s s' : EngineState} {V : List ObjectId} {a : ObjectId}

/-- A path along which a delete follows references ends, if at an object not deleted before,
on a path of objects it enters: an object deleted before has no references to follow. -/
theorem enters_path_of_marks {b : ObjectId}
    (hpath : Relation.ReflTransGen (Graph.Edge (ownedBy s s') (Marks s) V) a b)
    (hb : deletedBefore s b = false) :
    Relation.ReflTransGen (Graph.Edge (dependentsOf s') (Enters s) V) a b ∧
      deletedBefore s a = false := by
  induction hpath with
  | refl => exact ⟨.refl, hb⟩
  | @tail c b _ hcb ih =>
    have hc : deletedBefore s c = false := by
      cases hd : deletedBefore s c with
      | false => rfl
      | true => simp [Graph.Edge, ownedBy, hd] at hcb
    have hE : ownedBy s s' c = dependentsOf s' c := by simp [ownedBy, hc]
    obtain ⟨hpath', ha⟩ := ih hc
    exact ⟨.tail hpath' ⟨hE ▸ hcb.1, ⟨hcb.2.1, hb⟩, hcb.2.2⟩, ha⟩

/-- What a delete enters is what it marks and finds not deleted, reached through the
references of the objects it enters. -/
theorem reaches_enters_iff {b : ObjectId} :
    Graph.ReachesAvoiding (ownedBy s s') (Marks s) V a b ∧ deletedBefore s b = false ↔
      Graph.ReachesAvoiding (dependentsOf s') (Enters s) V a b := by
  constructor
  · rintro ⟨⟨ha, haV, hpath⟩, hb⟩
    obtain ⟨hpath', had⟩ := enters_path_of_marks hpath hb
    exact ⟨⟨ha, had⟩, haV, hpath'⟩
  · intro h
    refine ⟨⟨h.1.1, h.2.1, ?_⟩, h.target.2⟩
    obtain ⟨ha, haV, hpath⟩ := h
    induction hpath with
    | refl => exact .refl
    | @tail c b hpath' hcb ih =>
      -- the object the last reference leaves from is entered, so not deleted before
      have hc : deletedBefore s c = false := (Graph.ReachesAvoiding.target ⟨ha, haV, hpath'⟩).2
      exact .tail ih ⟨by simpa [ownedBy, hc] using hcb.1, hcb.2.1.1, hcb.2.2⟩

end Enters

/-- A delete that returns deletes exactly what its root owns, transitively. The objects `D` it
deletes are those the root reaches through the references of the dependent fields of the
objects it deletes, as the end state reads them, entering only objects the context manages and
that are not transient, or that only its view of the datastore holds, and that were not deleted
before. Each of them has moved by one delete transition from the state it had, hollow if it was
bound from the datastore, with its wrappers let go, and its queued changes are dropped; every
other object keeps its managers as they were. -/
theorem delete_deletes_dependent_closure {s s' : EngineState} {root : ObjectId}
    (hrun : (ExceptT.run (delete root)).run s = (.ok (), s')) :
    ∃ D : List ObjectId, D.Nodup ∧
      (∀ y, y ∈ D ↔ Graph.ReachesAvoiding (dependentsOf s') (Enters s) [] root y) ∧
      (∀ y ∈ D, ∃ m, s'.ctx.objects.find? (·.id == y) = some m ∧ DeletedFrom s y m) ∧
      (∀ y, y ∉ D → s'.ctx.objects.find? (·.id == y) = s.ctx.objects.find? (·.id == y)) ∧
      s'.ctx.queue = s.ctx.queue.filter fun op => !D.contains op.owner := by
  obtain ⟨_, N, -, hv, hm⟩ := delete_walks hrun
  have hmem : ∀ y, y ∈ N.filter (fun x => !deletedBefore s x) ↔ y ∈ N ∧ deletedBefore s y = false :=
    fun y => by simp
  refine ⟨N.filter fun x => !deletedBefore s x, hv.nodup.filter _, fun y => ?_,
    fun y hy => hm.deleted y ((hmem y).mp hy).1 ((hmem y).mp hy).2, fun y hy => ?_, ?_⟩
  · rw [hmem, hv.mem_iff, ← reaches_enters_iff]
    simp
  · refine hm.kept y ?_
    by_cases hyN : y ∈ N
    · exact .inr (by simpa [hmem, hyN] using hy)
    · exact .inl hyN
  · rw [hm.queue]
    refine List.filter_congr fun op _ => ?_
    simp

end Engine

/-- A book persisted with a chapter in its dependent list, both new in an open transaction:
deleting the book deletes what it reaches through its dependent fields. -/
theorem deleting_book_reaches_its_chapter :
    ∃ s', (ExceptT.run (Engine.delete (ObjectId.fresh 0))).run bookWithChapter = (.ok (), s') ∧
      ∃ D : List ObjectId, D.Nodup ∧ ∀ y, y ∈ D ↔
        Graph.ReachesAvoiding (Engine.dependentsOf s') (Engine.Enters bookWithChapter) []
          (ObjectId.fresh 0) y := by
  have hanswer : ((ExceptT.run (Engine.delete (ObjectId.fresh 0))).run bookWithChapter).1 =
      .ok () := by
    decide +kernel
  have hrun : (ExceptT.run (Engine.delete (ObjectId.fresh 0))).run bookWithChapter =
      (.ok (), ((ExceptT.run (Engine.delete (ObjectId.fresh 0))).run bookWithChapter).2) := by
    rw [← hanswer]
    exact Prod.mk.eta.symm
  obtain ⟨D, hD, hmem, -⟩ := Engine.delete_deletes_dependent_closure hrun
  exact ⟨_, hrun, D, hD, hmem⟩

end ObjectPersistence
