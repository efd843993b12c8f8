import Mathlib
import ObjectPersistence.Proofs.DeleteClosure
import ObjectPersistence.Proofs.StoredWrites

/-! # The versions an update stores

A stored object of a versioned class carries a version. An update of a dirty object checks
that the datastore still holds the version the update expects, which is the one the manager
records or, when it records none, the one stored, and moves it to the next one; a datastore
that holds another version refuses the update, and a refused unit of work changes no row. The
next version is a sixty-four bit sum, and nothing checks it: at the largest sixty-four bit
integer it wraps around. An update moves only the version it finds, so the sum cannot wrap
while the stored version can be incremented; a datastore that holds the largest version accepts
the update and stores the smallest.

Whatever version the manager records, from an attached copy or a read header, an update that
returns found exactly that version stored and left the next (`run_updateDirty`). The update
phase of a flush is one such update per dirty object (`flushUpdates_eq`), each touching only
its own object, so every dirty object of a versioned class ends one version on
(`run_flushUpdates_next`), and an object whose expected version cannot be incremented makes
the phase fail unless the datastore holds that version too.

A unit of work is followed through its statements by `Access.Moves`: a relation between the
work before and after that each statement respects, such as having written, or keeping the
stored objects. -/

namespace ObjectPersistence

namespace Datastore

/-! ### Following a unit of work statement by statement -/

def Access.Moves {α} (R : Work → Work → Prop) (a : Access α) : Prop := ∀ w, R w (a.exec w).2

namespace Access.Moves

variable {R : Work → Work → Prop} {α β : Type}

theorem of_exec {a : Access α} (ha : a.Moves R) {w w' : Work} {r : Except StorageError α}
    (h : a.exec w = (r, w')) : R w w' := by
  simpa [h] using ha w

theorem discard {x : Access α} (hx : x.Moves R) : (Functor.discard x).Moves R := by
  intro w
  rw [exec_discard]
  rcases h : x.exec w with ⟨_ | a, w₁⟩ <;> simpa [h] using hx w

variable [IsPreorder Work R]

theorem pure (x : α) : (Pure.pure x : Access α).Moves R := refl_of R

theorem throw (e : StorageError) : (MonadExcept.throw e : Access α).Moves R := refl_of R

theorem bind {x : Access α} {f : α → Access β} (hx : x.Moves R) (hf : ∀ a, (f a).Moves R) :
    (x >>= f).Moves R := by
  intro w
  rw [exec_bind]
  rcases h : x.exec w with ⟨_ | a, w₁⟩
  · simpa [h] using hx w
  · exact trans_of R (by simpa [h] using hx w) (hf a w₁)

theorem forIn {γ : Type} {f : γ → PUnit → Access (ForInStep PUnit)}
    (hf : ∀ x u, (f x u).Moves R) : ∀ (xs : List γ) (u : PUnit), (ForIn.forIn xs u f).Moves R
  | [], _ => pure _
  | x :: xs, u => by
    rw [List.forIn_cons]
    refine bind (hf x u) fun step => ?_
    cases step with
    | done u' => exact pure u'
    | yield u' => exact forIn hf xs u'

end Access.Moves

namespace Access

variable {R : Work → Work → Prop} [IsPreorder Work R]

/-- Writing a field moves along a relation that its statements respect: the write of a scalar,
and the clearing of a container followed by the insertion of its elements. -/
theorem writeField_moves {id : ObjectId} {field : Nat}
    (hput : ∀ v, (write fun t => t.putScalar id field v).Moves R)
    (hclear : (change fun t => t.clearField id field).Moves R)
    (hinsert : ∀ position element key,
      (write fun t => t.insertElement id field position element key).Moves R) (d : FieldData) :
    (writeField id field d).Moves R := by
  cases d with
  | scalar v => exact Moves.discard (hput v)
  | collection items | map es =>
    -- a container is cleared, then filled by a loop of insertions
    simp only [writeField]
    refine Moves.bind (Moves.discard hclear) fun _ => Moves.bind ?_ fun _ => Moves.pure _
    exact Moves.forIn (fun x _ => Moves.bind (Moves.discard (hinsert _ _ _)) fun _ => Moves.pure _)
      _ _

/-- An update moves along a relation that its statements respect: the change of version, the
read of the header it reports on a conflict, and the writes of the record's fields. -/
theorem update_moves (r : ObjectRecord) (expected : Option Int)
    (hread : ∀ {α : Type} (f : Tables → α), (read f).Moves R)
    (hversion : (change fun t => t.setVersion r.id r.version expected).Moves R)
    (hfield : ∀ field d, (writeField r.id field d).Moves R) :
    (update r expected).Moves R := by
  -- every way through the update ends by writing the record's fields
  have hfields : ((do
      ForIn.forIn r.fields PUnit.unit fun (x : Nat × FieldData) (_ : PUnit) => do
        writeField r.id x.1 x.2
        pure (ForInStep.yield PUnit.unit)
      pure ()) : Access Unit).Moves R := by
    refine Moves.bind (Moves.forIn (fun x _ => ?_) _ _) fun _ => Moves.pure _
    exact Moves.bind (hfield x.1 x.2) fun _ => Moves.pure _
  unfold update
  refine Moves.bind hversion fun n => ?_
  dsimp only
  split
  · refine Moves.bind (hread _) fun h => ?_
    cases h <;> exact Moves.bind (Moves.throw _) fun _ => hfields
  · exact hfields

end Access

/-! ### What a unit of work leaves the connection reading -/

/-- The work keeps the tables it had, or has touched the database and written; once it has
touched and written, it stays so. -/
def Work.Settles (w w' : Work) : Prop :=
  (w'.tables = w.tables ∨ w'.touched = true ∧ w'.wrote = true) ∧
    (w.touched = true → w'.touched = true) ∧ (w.wrote = true → w'.wrote = true)

instance : IsPreorder Work Work.Settles where
  refl _ := ⟨.inl rfl, id, id⟩
  trans _ _ _ h₁ h₂ := by
    refine ⟨?_, h₂.2.1 ∘ h₁.2.1, h₂.2.2 ∘ h₁.2.2⟩
    rcases h₂.1 with h | h
    · rcases h₁.1 with h' | h'
      · exact .inl (h.trans h')
      · exact .inr ⟨h₂.2.1 h'.1, h₂.2.2 h'.2⟩
    · exact .inr h

namespace Access

theorem settles_read {α} (f : Tables → α) : (read f).Moves Work.Settles :=
  fun _ => ⟨.inl rfl, fun _ => rfl, id⟩

theorem settles_write (f : Tables → Except DatabaseRefusal (Tables × Nat)) :
    (write f).Moves Work.Settles := by
  intro w
  rw [exec_write]
  split
  · split <;> exact ⟨.inr ⟨rfl, rfl⟩, fun _ => rfl, fun _ => rfl⟩
  · exact refl_of Work.Settles w

theorem settles_update (r : ObjectRecord) (expected : Option Int) :
    (update r expected).Moves Work.Settles :=
  update_moves r expected settles_read (settles_write _)
    fun _ => writeField_moves (fun _ => settles_write _) (settles_write _)
      fun _ _ _ => settles_write _

end Access

/-! ### The stored objects an update keeps -/

def Work.KeepsIds (w w' : Work) : Prop :=
  w'.tables.objects.map (·.id) = w.tables.objects.map (·.id)

instance : IsPreorder Work Work.KeepsIds where
  refl _ := rfl
  trans _ _ _ h₁ h₂ := h₂.trans h₁

namespace Access

theorem keepsIds_read {α} (f : Tables → α) : (read f).Moves Work.KeepsIds := fun _ => rfl

theorem keepsIds_write {f : Tables → Except DatabaseRefusal (Tables × Nat)}
    (hf : ∀ t t' n, f t = .ok (t', n) → t'.objects.map (·.id) = t.objects.map (·.id)) :
    (write f).Moves Work.KeepsIds := by
  intro w
  rw [exec_write]
  split
  · split
    · exact hf _ _ _ ‹_›
    · rfl
  · rfl

theorem keepsIds_update (r : ObjectRecord) (expected : Option Int) :
    (update r expected).Moves Work.KeepsIds := by
  refine update_moves r expected keepsIds_read (keepsIds_write fun t t' n h => ?_)
    fun _ => writeField_moves (fun _ => keepsIds_write fun t t' n h => ?_)
      (keepsIds_write fun t t' n h => ?_) fun _ _ _ => keepsIds_write fun t t' n h => ?_
  · -- a version change rewrites header rows in place
    cases h
    simp only [List.map_map]
    congr 1
    funext row
    simp only [Function.comp_apply]
    split <;> rfl
  · unfold Tables.putScalar at h
    split_ifs at h <;> cases h <;> rfl
  · cases h
    rfl
  · unfold Tables.insertElement at h
    split at h <;> cases h
    rfl

end Access

namespace Connection

variable {α : Type} {c : Connection} {db : Database} {a : Access α}

/-- Outside a transaction a connection keeps no transaction view, so it reads the tables its
writes go to. -/
def Coherent (c : Connection) : Prop := c.explicit = false → c.snapshot = none

theorem run_coherent (a : Access α) (hc : c.Coherent) : (c.run db a).2.1.Coherent := by
  intro hex
  rw [run_explicit] at hex
  -- outside a transaction a unit of work leaves the connection as it was
  have hconn : (c.run db a).2.1 = c := by
    simp only [run, hex, Bool.false_eq_true, if_false]
    split
    split <;> (try split) <;> rfl
  rw [hconn]
  exact hc hex

/-- A unit of work that returned ran on the tables the connection reads; when it settles its
work, a coherent connection then reads the tables the unit left. -/
theorem run_ok_view {x : α} (hc : c.Coherent) (ha : a.Moves Work.Settles)
    (h : (c.run db a).1 = .ok x) :
    ∃ w w', w.tables = c.view db ∧ a.exec w = (.ok x, w') ∧
      (c.run db a).2.1.view (c.run db a).2.2 = w'.tables := by
  unfold run at h ⊢
  dsimp only at h ⊢
  split at h
  rename_i r w hrw
  -- every branch answers what the unit of work answered
  have hr : r = .ok x := by
    split at h
    · exact h
    · split at h <;> (try split at h) <;> exact h
  subst hr
  obtain ⟨hkept, -, -⟩ := ha.of_exec hrw
  refine ⟨_, w, rfl, hrw, ?_⟩
  cases hex : c.explicit
  · -- outside a transaction the writes went to the committed tables, if there were any
    have hsnap : c.snapshot = none := hc hex
    simp only [hsnap, Bool.false_eq_true, if_false] at hkept ⊢
    cases hwrote : w.wrote
    · simp only [Bool.false_eq_true, if_false, view, hsnap]
      exact (by simpa [hwrote] using hkept : w.tables = db.tables).symm
    · simp [view, hsnap]
  · -- inside a transaction its view took the unit's tables, once it touched the database
    simp only [if_true]
    cases hsnap : c.snapshot
    · cases htouched : w.touched
      · simp only [hsnap, htouched, Bool.false_eq_true, false_and, or_false] at hkept
        simp [view, hkept]
      · simp [view]
    · simp [view]

end Connection

theorem wrap64_of_fits {n : Int} (h : IntCell.fits n = true) : wrap64 n = n := by
  simp only [IntCell.fits, Bool.and_eq_true, decide_eq_true_eq] at h
  have h63 : ((Nat.pow 2 63 : Nat) : Int) = 9223372036854775808 := by norm_num
  have h64 : ((Nat.pow 2 64 : Nat) : Int) = 18446744073709551616 := by norm_num
  have h63' : Nat.pow 2 63 = 9223372036854775808 := by norm_num
  unfold wrap64
  simp only [h63, h64, h63'] at h ⊢
  split <;> omega

end Datastore

open Datastore

namespace Engine

/-! ### What an update reads and changes -/

/-- The version the context's view of the datastore holds for an object; `none` when it holds
no such object. -/
def storedVersion (s : EngineState) (id : ObjectId) : Option (Option Int) :=
  ((viewOf s).header? id).map (·.version)

/-- A state an update runs from: the connection reads the tables its writes go to, and the
datastore holds each object once. -/
structure Updatable (s : EngineState) : Prop where
  coherent : s.ctx.backend.conn.Coherent
  stored : ((viewOf s).objects.map (·.id)).Nodup

/-- From `s` to `s'` the context reads the same tables through a connection that stays
coherent, and every object but `id` keeps its first manager. -/
structure ReadsBut (id : ObjectId) (s s' : EngineState) : Prop where
  view : viewOf s' = viewOf s
  coherent : s.ctx.backend.conn.Coherent → s'.ctx.backend.conn.Coherent
  others : ∀ y, y ≠ id → s'.ctx.objects.find? (·.id == y) = s.ctx.objects.find? (·.id == y)

namespace ReadsBut

variable {id : ObjectId} {s s₁ s₂ : EngineState}

theorem refl (id : ObjectId) (s : EngineState) : ReadsBut id s s :=
  ⟨rfl, fun h => h, fun _ _ => rfl⟩

theorem trans (h₁ : ReadsBut id s s₁) (h₂ : ReadsBut id s₁ s₂) : ReadsBut id s s₂ :=
  ⟨h₂.view.trans h₁.view, h₂.coherent ∘ h₁.coherent,
    fun y hy => (h₂.others y hy).trans (h₁.others y hy)⟩

theorem updatable (h : ReadsBut id s s₁) (hu : Updatable s) : Updatable s₁ :=
  ⟨h.coherent hu.coherent, h.view ▸ hu.stored⟩

theorem storedVersion_eq (h : ReadsBut id s s₁) (y : ObjectId) :
    storedVersion s₁ y = storedVersion s y := by
  rw [storedVersion, storedVersion, h.view]

end ReadsBut

section Steps

variable {α : Type} {s s' : EngineState} {id : ObjectId} {m : ManagedObject}

theorem readsBut_updateManager (s : EngineState) {f : ManagedObject → ManagedObject}
    (hf : ∀ m, m.id = id → (f m).id = id) :
    ReadsBut id s { s with ctx := { s.ctx with objects := s.ctx.objects.map (updateAt id f) } } :=
  ⟨rfl, fun h => h, fun y hy => by rw [find?_updateAt hf, if_neg hy]⟩

theorem run_storedHeader_reads {r : Except EngineError (Option ObjectHeader)}
    (hrun : (ExceptT.run (storedHeader id)).run s = (r, s')) :
    r = .ok (((viewOf s).header? id).map fun h => ⟨h.id, h.cls, h.version⟩) ∧
      ReadsBut id s s' := by
  simp only [storedHeader, run_bind, run_count, run_access, Access.header?,
    Connection.run_read_fst] at hrun
  cases hrun
  exact ⟨rfl, ⟨Connection.view_run (Access.keepsTables_read _) _ _, Connection.run_coherent _,
    fun _ _ => rfl⟩⟩

/-- The version an update expects: none for a class without versions; otherwise the one the
manager records, or when it records none, the one the view holds, which the manager then
records. -/
theorem run_knownVersion {e : Option Int} (hm : s.ctx.objects.find? (·.id == id) = some m)
    (hrun : (ExceptT.run (knownVersion id m.cls)).run s = (.ok e, s')) :
    (m.cls.versioned = true → m.version = none ∨ m.version = e) ∧
      (m.cls.versioned = false → e = none) ∧ ReadsBut id s s' := by
  unfold knownVersion at hrun
  cases hv : m.cls.versioned
  · -- a class without versions expects none
    simp only [hv, Bool.not_false, if_true, run_pure] at hrun
    obtain ⟨rfl, rfl⟩ := hrun
    exact ⟨fun h => absurd h Bool.false_ne_true, fun _ => rfl, ReadsBut.refl _ _⟩
  · simp only [hv, Bool.not_true, Bool.false_eq_true, if_false, run_bind, run_manager, hm,
      Option.elim] at hrun
    cases hmv : m.version with
    | some v =>
      -- the manager records the version
      simp only [hmv, run_pure] at hrun
      obtain ⟨rfl, rfl⟩ := hrun
      exact ⟨fun _ => .inr rfl, fun h => absurd h (by decide), ReadsBut.refl _ _⟩
    | none =>
      -- the view's header gives it, and the manager records it
      simp only [hmv] at hrun
      rw [run_bind] at hrun
      rcases hsh : (ExceptT.run (storedHeader id)).run s with ⟨r, s₁⟩
      obtain ⟨rfl, hread⟩ := run_storedHeader_reads hsh
      rw [hsh] at hrun
      cases hh : (viewOf s).header? id with
      | none =>
        simp only [hh, Option.map_none, run_throw] at hrun
        cases hrun
      | some h =>
        simp only [hh, Option.map_some, run_bind, run_updateManager, run_pure] at hrun
        obtain ⟨rfl, rfl⟩ := hrun
        exact ⟨fun _ => .inl rfl, fun h => absurd h (by decide),
          hread.trans (readsBut_updateManager _ fun _ h => h)⟩

/-- An update that returned found the object's header at the expected version in the view and
left it at the record's version, changing no other header and no manager. -/
theorem run_storeUpdate {r : ObjectRecord} {e : Option Int} (hu : Updatable s)
    (hfields : (r.fields.map (·.1)).Nodup)
    (hrun : (ExceptT.run (storeUpdate r e)).run s = (.ok (), s')) :
    (∃ cls, (viewOf s).header? r.id = some ⟨r.id, cls, e⟩ ∧
      (viewOf s').header? r.id = some ⟨r.id, cls, r.version⟩) ∧
    (∀ y, y ≠ r.id → (viewOf s').header? y = (viewOf s).header? y) ∧
    s'.ctx.objects = s.ctx.objects ∧ Updatable s' := by
  unfold storeUpdate at hrun
  simp only [run_bind, run_context] at hrun
  split at hrun
  · -- an update failure was asked for
    rw [run_bind] at hrun
    simp only [setFaults, run_modifyContext, run_bind, run_throw] at hrun
    cases hrun
  rw [run_bind, run_access] at hrun
  rcases hres : (s.ctx.backend.conn.run s.db (Access.update r e)).1 with _ | u
  · simp only [hres, Except.mapError] at hrun
    cases hrun
  simp only [hres, Except.mapError, run_count] at hrun
  cases hrun
  -- the unit of work ran on the view and the connection now reads what it left
  obtain ⟨w, w', hw, hexec, hview⟩ :=
    Connection.run_ok_view hu.coherent (Access.settles_update r e) hres
  have hkeys : (w.tables.objects.map (·.id)).Nodup := by
    rw [hw]
    exact hu.stored
  obtain ⟨⟨cls, hbefore, hafter⟩, hothers, -, -⟩ := Access.update_spec hkeys hfields hexec
  have hview' : viewOf { s with
      ctx := { s.ctx with backend := { s.ctx.backend with
        conn := (s.ctx.backend.conn.run s.db (Access.update r e)).2.1 } }
      db := (s.ctx.backend.conn.run s.db (Access.update r e)).2.2 } = w'.tables := hview
  have hids : Work.KeepsIds w w' := (Access.keepsIds_update r e).of_exec hexec
  refine ⟨⟨cls, ?_, ?_⟩, fun y hy => ?_, rfl,
    ⟨Connection.run_coherent _ hu.coherent, ?_⟩⟩
  · rw [viewOf, ← hw]
    exact hbefore
  · simp only [viewOf] at hview' ⊢
    rw [hview']
    exact hafter
  · simp only [viewOf] at hview' ⊢
    rw [hview', hothers y hy, hw]
  · simp only [viewOf] at hview' ⊢
    rw [hview', hids, hw]
    exact hu.stored

/-- A lifecycle event that succeeded moved the object's first manager and every other manager
of it to one manager, and changed nothing else. -/
theorem run_transition {ev : LifecycleEvent} {L : LifecycleState}
    (hrun : (ExceptT.run (transition id ev)).run s = (.ok L, s')) :
    ∃ m m', s.ctx.objects.find? (·.id == id) = some m ∧ m.transition ev = .ok m' ∧
      s' = { s with
        ctx := { s.ctx with objects := s.ctx.objects.map (updateAt id fun _ => m') } } := by
  unfold transition at hrun
  rw [run_bind, run_manager] at hrun
  cases hm : s.ctx.objects.find? (·.id == id) with
  | none =>
    simp only [hm, Option.elim] at hrun
    cases hrun
  | some m =>
    simp only [hm, Option.elim, run_bind, run_core] at hrun
    cases ht : m.transition ev with
    | error err =>
      simp only [ht, Except.mapError] at hrun
      cases hrun
    | ok m' =>
      simp only [ht, Except.mapError, run_updateManager, run_pure] at hrun
      cases hrun
      exact ⟨m, m', rfl, ht, rfl⟩

/-- Recording a version in the manager of `id` and moving it through the flush transition leave
that manager with the version, and change neither the view nor any other manager. -/
theorem run_recordVersion {version : Option Int} (hm : s.ctx.objects.find? (·.id == id) = some m)
    (hrun : (ExceptT.run ((updateManager id fun m => { m.clearDirty with version }) >>=
      fun _ => discard (transition id .flush))).run s = (.ok (), s')) :
    (s'.ctx.objects.find? (·.id == id)).map (·.version) = some version ∧ ReadsBut id s s' := by
  simp only [run_bind, run_updateManager] at hrun
  rw [run_discard] at hrun
  rcases ht : (ExceptT.run (transition id .flush)).run
      { s with ctx := { s.ctx with objects := s.ctx.objects.map (updateAt id fun m' =>
        { m'.clearDirty with version }) } } with ⟨_ | L, s₂⟩
  · rw [ht] at hrun
    cases hrun
  rw [ht] at hrun
  cases hrun
  obtain ⟨m₁, m₂, hm₁, htr, rfl⟩ := run_transition ht
  obtain ⟨-, hm₂⟩ := ManagedObject.transition_eq_ok htr
  -- the manager the transition moved is the one that took the version
  have hf : ∀ m' : ManagedObject, m'.id = id →
      ({ m'.clearDirty with version } : ManagedObject).id = id := fun _ h => h
  have hfind := find?_updateAt_self hf hm
  dsimp only at hm₁
  rw [hfind] at hm₁
  cases hm₁
  have hid : m₂.id = id := by
    have hsame : m₂.id = m.id := by
      rw [hm₂]
      rfl
    exact hsame.trans (id_of_find? hm)
  refine ⟨?_, (readsBut_updateManager s hf).trans (readsBut_updateManager _ fun _ _ => hid)⟩
  rw [find?_updateAt_self (fun _ _ => hid) hfind, Option.map_some, hm₂]

theorem run_manager_ok (hrun : (ExceptT.run (manager id)).run s = (.ok m, s')) :
    s.ctx.objects.find? (·.id == id) = some m ∧ s' = s := by
  rw [run_manager] at hrun
  cases hm : s.ctx.objects.find? (·.id == id) with
  | none =>
    simp only [hm, Option.elim] at hrun
    cases hrun
  | some m' =>
    simp only [hm, Option.elim] at hrun
    cases hrun
    exact ⟨rfl, rfl⟩

theorem run_classOf {c : ClassMeta} (hrun : (ExceptT.run (classOf id)).run s = (.ok c, s')) :
    s' = s ∧ ∃ m, s.ctx.objects.find? (·.id == id) = some m ∧ c = m.cls := by
  obtain ⟨m, s₁, h₁, hpure⟩ := run_bind_ok hrun
  obtain ⟨hm, rfl⟩ := run_manager_ok h₁
  rw [run_pure] at hpure
  cases hpure
  exact ⟨rfl, m, hm, rfl⟩

end Steps

/-! ### One object's update -/

/-- The update of one dirty object in a flush: the body of the loop of `flushUpdates`. -/
def updateDirty (queued : List FieldOwner) (id : ObjectId) : Engine Unit := do
  let cls ← classOf id
  let expected ← knownVersion id cls
  let m ← manager id
  let fields := (m.dirty.setFields.filter fun f => !queued.contains ⟨id, f⟩).filterMap fun f =>
    (m.fieldData f).map (f, ·)
  let version : Option Int :=
    if cls.versioned then some (Datastore.wrap64 (expected.getD 0 + 1)) else none
  storeUpdate { id, cls := cls.name, version, fields } expected
  updateManager id fun m => { m.clearDirty with version }
  discard <| transition id .flush

theorem flushUpdates_eq (queued : List FieldOwner) :
    flushUpdates queued = (do
      let dirty := ((← context).objects.filter (·.lifecycle == .persistentDirty)).map (·.id)
      for id in dirty do
        updateDirty queued id
      pure dirty.length) := by
  simp only [flushUpdates, updateDirty, bind_assoc]

theorem nodup_updatedFields (m : ManagedObject) (p : Nat → Bool) :
    (((m.dirty.setFields.filter p).filterMap fun f => (m.fieldData f).map (f, ·)).map
      (·.1)).Nodup := by
  rw [List.map_filterMap]
  refine List.Nodup.filterMap (fun a a' b ha ha' => ?_) ((List.nodup_range).filter _ |>.filter _)
  simp only [Option.map_map, Option.mem_def, Option.map_eq_some_iff, Function.comp_apply] at ha ha'
  obtain ⟨_, -, rfl⟩ := ha
  obtain ⟨_, -, rfl⟩ := ha'
  rfl

/-- What an update of `id` from `s` leaves in `s'`: the view held the version the update
expected, which is the one the manager records if it records one; for a versioned class the
view and the manager now hold the next version, a sixty-four bit sum. -/
def Updated (s s' : EngineState) (id : ObjectId) : Prop :=
  ∃ m e, s.ctx.objects.find? (·.id == id) = some m ∧ storedVersion s id = some e ∧
    (m.cls.versioned = true → (m.version = none ∨ m.version = e) ∧
      storedVersion s' id = some (some (wrap64 (e.getD 0 + 1))) ∧
      (s'.ctx.objects.find? (·.id == id)).map (·.version) = some (some (wrap64 (e.getD 0 + 1))))

def SameAt (s s' : EngineState) (y : ObjectId) : Prop :=
  storedVersion s' y = storedVersion s y ∧
    s'.ctx.objects.find? (·.id == y) = s.ctx.objects.find? (·.id == y)

theorem run_updateDirty {queued : List FieldOwner} {id : ObjectId} {s s' : EngineState}
    (hu : Updatable s) (hrun : (ExceptT.run (updateDirty queued id)).run s = (.ok (), s')) :
    Updated s s' id ∧ (∀ y, y ≠ id → SameAt s s' y) ∧ Updatable s' := by
  unfold updateDirty at hrun
  obtain ⟨cls, s₁, h₁, hrun₁⟩ := run_bind_ok hrun
  obtain ⟨rfl, m, hm, rfl⟩ := run_classOf h₁
  obtain ⟨e, s₂, h₂, hrun₂⟩ := run_bind_ok hrun₁
  obtain ⟨hexpect, hnone, hread₂⟩ := run_knownVersion hm h₂
  obtain ⟨m₂, s₃, h₃, hrun₃⟩ := run_bind_ok hrun₂
  obtain ⟨hm₂, rfl⟩ := run_manager_ok h₃
  dsimp only at hrun₃
  obtain ⟨u, s₄, h₄, hrun₄⟩ := run_bind_ok hrun₃
  obtain ⟨⟨cls', hbefore, hafter⟩, hothers, hobj₄, hu₄⟩ :=
    run_storeUpdate (hread₂.updatable hu) (nodup_updatedFields m₂ _) h₄
  obtain ⟨hversion, hread₆⟩ := run_recordVersion (hobj₄ ▸ hm₂) hrun₄
  refine ⟨⟨m, e, hm, ?_, fun hv => ⟨hexpect hv, ?_, ?_⟩⟩, fun y hy => ⟨?_, ?_⟩,
    hread₆.updatable hu₄⟩
  · rw [← hread₂.storedVersion_eq, storedVersion, hbefore]
    rfl
  · rw [hread₆.storedVersion_eq, storedVersion, hafter]
    simp [hv]
  · rw [hversion]
    simp [hv]
  · rw [hread₆.storedVersion_eq, ← hread₂.storedVersion_eq, storedVersion, storedVersion,
      hothers y hy]
  · rw [hread₆.others y hy, hobj₄, hread₂.others y hy]

theorem SameAt.trans {s s₁ s₂ : EngineState} {y : ObjectId} (h₁ : SameAt s s₁ y)
    (h₂ : SameAt s₁ s₂ y) : SameAt s s₂ y :=
  ⟨h₂.1.trans h₁.1, h₂.2.trans h₁.2⟩

theorem Updated.of_sameAt_after {s s₁ s' : EngineState} {id : ObjectId} (h : Updated s s₁ id)
    (hsame : SameAt s₁ s' id) : Updated s s' id := by
  obtain ⟨m, e, hm, he, hv⟩ := h
  refine ⟨m, e, hm, he, fun hver => ?_⟩
  obtain ⟨hexp, hstored, hmgr⟩ := hv hver
  exact ⟨hexp, hsame.1.trans hstored, by rw [hsame.2]; exact hmgr⟩

theorem SameAt.updated {s s₁ s' : EngineState} {id : ObjectId} (hsame : SameAt s s₁ id)
    (h : Updated s₁ s' id) : Updated s s' id := by
  obtain ⟨m, e, hm, he, hv⟩ := h
  exact ⟨m, e, hsame.2 ▸ hm, hsame.1 ▸ he, hv⟩

theorem run_updateDirty_all (queued : List FieldOwner) :
    ∀ (ids : List ObjectId) (s s' : EngineState), Updatable s → ids.Nodup →
      (ExceptT.run (forIn ids PUnit.unit fun id (_ : PUnit) => do
          updateDirty queued id
          pure (ForInStep.yield PUnit.unit))).run s = (.ok PUnit.unit, s') →
      (∀ id ∈ ids, Updated s s' id) ∧ (∀ y, y ∉ ids → SameAt s s' y)
  | [], s, s', _, _, hrun => by
    simp only [List.forIn_nil, run_pure] at hrun
    cases hrun
    exact ⟨fun _ h => absurd h List.not_mem_nil, fun _ _ => ⟨rfl, rfl⟩⟩
  | id :: ids, s, s', hu, hnd, hrun => by
    rw [List.forIn_cons] at hrun
    obtain ⟨step, s₁, h₁, hrest⟩ := run_bind_ok hrun
    obtain ⟨u, s₂, hupd, hpure⟩ := run_bind_ok h₁
    simp only [run_pure] at hpure
    cases hpure
    obtain ⟨hid, hothers, hu₁⟩ := run_updateDirty hu hupd
    obtain ⟨hnotin, hnd'⟩ := List.nodup_cons.mp hnd
    obtain ⟨hrest₁, hrest₂⟩ := run_updateDirty_all queued ids s₁ s' hu₁ hnd' hrest
    refine ⟨fun x hx => ?_, fun y hy => (hothers y ?_).trans (hrest₂ y ?_)⟩
    · rcases List.mem_cons.mp hx with rfl | hx
      · exact hid.of_sameAt_after (hrest₂ x hnotin)
      · exact (hothers x fun h => hnotin (h ▸ hx)).updated (hrest₁ x hx)
    · exact fun h => hy (h ▸ List.mem_cons_self)
    · exact fun h => hy (List.mem_cons_of_mem _ h)

def dirtyIds (s : EngineState) : List ObjectId :=
  (s.ctx.objects.filter (·.lifecycle == .persistentDirty)).map (·.id)

theorem run_flushUpdates {queued : List FieldOwner} {s s' : EngineState} {n : Nat}
    (hu : Updatable s) (hnd : (dirtyIds s).Nodup)
    (hrun : (ExceptT.run (flushUpdates queued)).run s = (.ok n, s')) :
    ∀ id ∈ dirtyIds s, Updated s s' id := by
  rw [flushUpdates_eq] at hrun
  obtain ⟨c, s₁, hc, hrest⟩ := run_bind_ok hrun
  rw [run_context] at hc
  cases hc
  obtain ⟨u, s₂, hloop, hpure⟩ := run_bind_ok hrest
  rw [run_pure] at hpure
  cases hpure
  exact (run_updateDirty_all queued (dirtyIds s) s _ hu hnd hloop).1

/-- An update phase that returned, from a state where each dirty object's stored version can be
incremented, moved each dirty object of a versioned class from the version it expected and found
stored to exactly one more, in the datastore and in its manager. -/
theorem run_flushUpdates_next {queued : List FieldOwner} {s s' : EngineState} {n : Nat}
    (hu : Updatable s) (hnd : (dirtyIds s).Nodup)
    (hfits : ∀ id ∈ dirtyIds s, ∀ v, storedVersion s id = some (some v) →
      IntCell.fits (v + 1) = true)
    (hrun : (ExceptT.run (flushUpdates queued)).run s = (.ok n, s')) :
    ∀ id ∈ dirtyIds s, ∀ m, s.ctx.objects.find? (·.id == id) = some m →
      m.cls.versioned = true →
      ∃ e, storedVersion s id = some e ∧ (m.version = none ∨ m.version = e) ∧
        IntCell.fits (e.getD 0 + 1) = true ∧
        storedVersion s' id = some (some (e.getD 0 + 1)) ∧
        (s'.ctx.objects.find? (·.id == id)).map (·.version) = some (some (e.getD 0 + 1)) := by
  intro id hid m hm hver
  obtain ⟨m', e, hm', he, hupd⟩ := run_flushUpdates hu hnd hrun id hid
  rw [hm] at hm'
  cases hm'
  obtain ⟨hexp, hstored, hmgr⟩ := hupd hver
  -- the stored version is the expected one, so its sum does not wrap
  have hfe : IntCell.fits (e.getD 0 + 1) = true := by
    cases e with
    | none => decide
    | some v => exact hfits id hid v he
  rw [wrap64_of_fits hfe] at hstored hmgr
  exact ⟨e, he, hexp, hfe, hstored, hmgr⟩

/-- The update phase of a flush moves the stored version of every dirty object of a versioned
class by exactly one, from the version the update expected and found stored, as long as the
stored version can be incremented in sixty-four bits (it grows by one from one, so this fails
only after that many updates of one object): the phase never stores a wrapped version. It runs
from a state whose connection reads the tables it writes and whose datastore holds each object
once, with no object dirty twice. If a dirty object's manager records a version that cannot be
incremented, as an attached copy may set, the phase fails. -/
theorem flush_updates_store_next_version (queued : List FieldOwner) (s : EngineState)
    (hu : Updatable s) (hnd : (dirtyIds s).Nodup)
    (hfits : ∀ id ∈ dirtyIds s, ∀ v, storedVersion s id = some (some v) →
      IntCell.fits (v + 1) = true) :
    (∀ n s', (ExceptT.run (flushUpdates queued)).run s = (.ok n, s') →
      ∀ id ∈ dirtyIds s, ∀ m, s.ctx.objects.find? (·.id == id) = some m →
        m.cls.versioned = true →
        ∃ e, storedVersion s id = some e ∧ (m.version = none ∨ m.version = e) ∧
          IntCell.fits (e.getD 0 + 1) = true ∧
          storedVersion s' id = some (some (e.getD 0 + 1)) ∧
          (s'.ctx.objects.find? (·.id == id)).map (·.version) = some (some (e.getD 0 + 1))) ∧
    (∀ id ∈ dirtyIds s, ∀ m v, s.ctx.objects.find? (·.id == id) = some m →
      m.cls.versioned = true → m.version = some v → IntCell.fits (v + 1) = false →
        ∃ err s', (ExceptT.run (flushUpdates queued)).run s = (.error err, s')) := by
  refine ⟨fun n s' hrun => run_flushUpdates_next hu hnd hfits hrun,
    fun id hid m v hm hver hv hbig => ?_⟩
  -- a returning phase would have found that version stored and incremented it
  rcases hrun : (ExceptT.run (flushUpdates queued)).run s with ⟨_ | n, s'⟩
  · exact ⟨_, _, rfl⟩
  obtain ⟨e, -, hexp, hfe, -⟩ := run_flushUpdates_next hu hnd hfits hrun id hid m hm hver
  rcases hexp with hnone | hsome
  · rw [hv] at hnone
    cases hnone
  · rw [hv] at hsome
    subst hsome
    rw [Option.getD_some, hbig] at hfe
    cases hfe

/-- A library stored at version one, whose manager is dirty and records `version`, in a context
outside a transaction. -/
def dirtyLibrary (version : Option Int) : EngineState where
  runtime := { schema := SampleModel.schema, generators := { blockSize := 10 } }
  ctx := { Context.create 0 {} { id := 0 } with
    objects := [{ ManagedObject.create (ObjectId.fresh 0) SampleModel.library .persistentDirty with
      version }] }
  db := { tables := { objects := [⟨ObjectId.fresh 0, "Library", some 1⟩] } }

theorem dirtyIds_dirtyLibrary (version : Option Int) :
    dirtyIds (dirtyLibrary version) = [ObjectId.fresh 0] := rfl

theorem storedVersion_dirtyLibrary (version : Option Int) :
    storedVersion (dirtyLibrary version) (ObjectId.fresh 0) = some (some 1) := rfl

theorem dirtyLibrary_ready (version : Option Int) :
    Updatable (dirtyLibrary version) ∧ (dirtyIds (dirtyLibrary version)).Nodup ∧
      ∀ id ∈ dirtyIds (dirtyLibrary version), ∀ v,
        storedVersion (dirtyLibrary version) id = some (some v) →
          IntCell.fits (v + 1) = true := by
  refine ⟨⟨fun _ => rfl, List.nodup_singleton _⟩, ?_, fun id hid v hv => ?_⟩
  · rw [dirtyIds_dirtyLibrary]
    exact List.nodup_singleton _
  rw [dirtyIds_dirtyLibrary, List.mem_singleton] at hid
  subst hid
  rw [storedVersion_dirtyLibrary] at hv
  cases hv
  decide

/-- The update phase returns on a dirty library stored at version one and leaves it at version
two; when the library's manager records the largest sixty-four bit integer, as an attached copy
may set, the phase fails. -/
theorem dirty_library_moves_to_version_two :
    (∃ n s', (ExceptT.run (flushUpdates [])).run (dirtyLibrary none) = (.ok n, s') ∧
      storedVersion s' (ObjectId.fresh 0) = some (some 2)) ∧
    ∃ err s', (ExceptT.run (flushUpdates [])).run (dirtyLibrary (some 9223372036854775807)) =
      (.error err, s') := by
  obtain ⟨hu, hnd, hfits⟩ := dirtyLibrary_ready none
  obtain ⟨hu', hnd', hfits'⟩ := dirtyLibrary_ready (some 9223372036854775807)
  have hmem : ObjectId.fresh 0 ∈ dirtyIds (dirtyLibrary none) := by
    rw [dirtyIds_dirtyLibrary]
    exact List.mem_singleton_self _
  obtain ⟨n, s', hrun⟩ : ∃ n s', (ExceptT.run (flushUpdates [])).run (dirtyLibrary none) =
      (.ok n, s') := ⟨_, _, rfl⟩
  refine ⟨⟨n, s', hrun, ?_⟩, ?_⟩
  · obtain ⟨e, he, -, -, hstored, -⟩ :=
      (flush_updates_store_next_version [] _ hu hnd hfits).1 n s' hrun _ hmem _ rfl rfl
    rw [storedVersion_dirtyLibrary] at he
    cases he
    exact hstored
  · exact (flush_updates_store_next_version [] _ hu' hnd' hfits').2 (ObjectId.fresh 0) hmem _ _
      rfl rfl rfl (by decide)

/-- The dirty library of `dirtyLibrary`, its manager recording no version, in a datastore that
holds the largest sixty-four bit version for it. -/
def dirtyLibraryAtLargest : EngineState :=
  { dirtyLibrary none with
    db := { tables := { objects := [⟨ObjectId.fresh 0, "Library", some 9223372036854775807⟩] } } }

/-- A datastore holding the largest sixty-four bit version accepts the update of a dirty object
expected at that version, and the update stores the wrapped sum, the smallest sixty-four bit
integer. -/
theorem update_wraps_largest_version :
    ∃ n s', (ExceptT.run (flushUpdates [])).run dirtyLibraryAtLargest = (.ok n, s') ∧
      storedVersion s' (ObjectId.fresh 0) = some (some (-9223372036854775808)) := by
  obtain ⟨n, s', hrun⟩ : ∃ n s', (ExceptT.run (flushUpdates [])).run dirtyLibraryAtLargest =
      (.ok n, s') := ⟨_, _, rfl⟩
  have hu : Updatable dirtyLibraryAtLargest := ⟨fun _ => rfl, List.nodup_singleton _⟩
  have hmem : ObjectId.fresh 0 ∈ dirtyIds dirtyLibraryAtLargest := List.mem_singleton_self _
  obtain ⟨m, e, hm, he, hupd⟩ :=
    run_flushUpdates hu (List.nodup_singleton (ObjectId.fresh 0)) hrun _ hmem
  cases hm
  cases he
  -- the update found the largest version and stored its wrapped successor
  obtain ⟨-, hstored, -⟩ := hupd rfl
  refine ⟨n, s', hrun, hstored.trans ?_⟩
  decide

end Engine

end ObjectPersistence

