import Mathlib
import ObjectPersistence.Proofs.OpenTransaction
import ObjectPersistence.Proofs.SoundContext
import ObjectPersistence.Proofs.StoredOperations

/-! # Reading what the datastore has committed

A field of an object with nothing loaded is read by loading it: a map field by a load of its
own, any other field together with the object's header; the data is put into a fresh slot of
the field and read back from there. `Tables.fieldContent` says what the rows of a field hold,
by the field's declaration, and `committedRead` what a read then answers. When the connection
has no transaction view, a load reads the committed tables, so reading a field of an object
with nothing loaded answers `committedRead` of the committed tables. -/

set_option mvcgen.warning false

namespace ObjectPersistence

namespace Datastore

def ElementRow.entry (field : Nat) (r : ElementRow) : Except StorageError (Value × Value) :=
  (r.key.map fun k => (k, r.element)).elim (.error (.keylessEntry field)) .ok

/-- What the rows of one field of object `id` hold, read by the field's declaration: a map
field's entries, a collection's elements in position order, a scalar's value (null when no row
is stored). A field other than a map is read only for a stored object. -/
def Tables.fieldContent (t : Tables) (id : ObjectId) (fm : FieldMeta) (field : Nat) :
    Except StorageError FieldData :=
  if fm.isMap then FieldData.map <$> (t.rowsOf id field).mapM (ElementRow.entry field)
  else if (t.header? id).isNone then .error (.notFound id)
  else if fm.isCollection then .ok (.collection ((t.rowsOf id field).map (·.element)))
  else .ok (.scalar ((t.scalar? id field).getD .null))

namespace Access

theorem exec_entriesOf_fst (field : Nat) (rows : List ElementRow) (w : Work) :
    ((entriesOf field rows).exec w).1 = rows.mapM (ElementRow.entry field) := by
  induction rows generalizing w with
  | nil => rfl
  | cons r rows ih =>
    unfold entriesOf at ih ⊢
    rw [List.mapM_cons, exec_bind, List.mapM_cons]
    cases hk : r.key with
    | none =>
      simp only [hk, exec_throw, ElementRow.entry, Option.map_none, Option.elim_none]
      rfl
    | some k =>
      simp only [hk, exec_pure, exec_bind, ElementRow.entry, Option.map_some, Option.elim_some]
      rw [← ih w]
      split <;> rename_i hrs <;> rw [hrs] <;> rfl

variable {id : ObjectId} {c : ClassMeta} {field : Nat} {fm : FieldMeta}

theorem exec_load_field (hm : c.member field = .ok fm) (hmap : fm.isMap = false) (w : Work) :
    ((load id c [field]).exec w).1 = (w.tables.fieldContent id fm field).map fun d => [(field, d)] := by
  simp only [load, header?, exec_bind, exec_read, List.mapM_cons, List.mapM_nil,
    Tables.fieldContent, hmap, Bool.false_eq_true, if_false]
  cases hh : w.tables.header? id with
  | none => rfl
  | some r =>
    cases hc : fm.isCollection <;> simp [exec_map, exec_bind, exec_member hm, hmap, hc] <;> rfl

theorem exec_loadMap_entries (hm : c.member field = .ok fm) (hmap : fm.isMap = true) (w : Work) :
    (fun f => FieldData.map f.entries) <$> ((loadMap id c field).exec w).1 =
      w.tables.fieldContent id fm field := by
  simp only [loadMap, exec_bind, exec_member hm, exec_read, Tables.fieldContent, hmap, if_true]
  rw [← exec_entriesOf_fst field (w.tables.rowsOf id field) { w with touched := true }]
  split <;> rename_i hes <;> simp [hes]

end Access

namespace Connection

variable {α : Type} {c : Connection} {db : Database} {a : Access α}

theorem run_fst_of_snapshot (h : c.snapshot = none) (db : Database) (a : Access α) :
    ∃ w : Work, w.tables = db.tables ∧ (c.run db a).1 = (a.exec w).1 := by
  refine ⟨{ tables := db.tables, mayWrite := c.holdsLock db || (db.writer.isNone && true) }, rfl, ?_⟩
  simp only [run, h]
  split
  rename_i r w hrw
  rw [Access.exec, hrw]
  split
  · rfl
  · split <;> (try split) <;> rfl

variable {id : ObjectId} {cls : ClassMeta} {field : Nat} {fm : FieldMeta}

theorem run_load_field (hs : c.snapshot = none) (hm : cls.member field = .ok fm)
    (hmap : fm.isMap = false) :
    (c.run db (Access.load id cls [field])).1 =
      (db.tables.fieldContent id fm field).map fun d => [(field, d)] := by
  obtain ⟨w, hw, h⟩ := run_fst_of_snapshot hs db (Access.load id cls [field])
  rw [h, Access.exec_load_field hm hmap, hw]

theorem run_loadMap_entries (hs : c.snapshot = none) (hm : cls.member field = .ok fm)
    (hmap : fm.isMap = true) :
    (fun f => FieldData.map f.entries) <$> (c.run db (Access.loadMap id cls field)).1 =
      db.tables.fieldContent id fm field := by
  obtain ⟨w, hw, h⟩ := run_fst_of_snapshot hs db (Access.loadMap id cls field)
  rw [h, Access.exec_loadMap_entries hm hmap, hw]

end Connection

end Datastore

theorem ClassMeta.lt_fieldCount_of_member {c : ClassMeta} {n : Nat} {fm : FieldMeta}
    (h : c.member n = .ok fm) : n < c.fieldCount :=
  (List.getElem?_eq_some_iff.mp (ClassMeta.member?_of_member h)).1

namespace ManagedObject

theorem install_self {m : ManagedObject} {f : Nat} (sl : Slot) (hs : f < m.slots.length)
    (hl : f < m.loaded.len) : (m.install f sl).loaded.get f = true ∧ (m.install f sl).slots[f]? = some sl := by
  simp [install, hs, hl, FieldBitmap.get_set]

end ManagedObject

namespace Engine

open Std.Do

/-- What reading a field of an object with nothing loaded answers when the datastore holds the
tables `t`: the field's content in `t`, put into a fresh slot of the field and read back, or
the failure that stops the load. -/
def committedRead (t : Datastore.Tables) (id : ObjectId) (cls : ClassMeta) (field : Nat) :
    Except EngineError FieldData := do
  let fm ← (cls.member field).mapError .core
  let data ← (t.fieldContent id fm field).mapError .storage
  let s ← makeSlot id fm (some data)
  (((ManagedObject.create id cls .hollow).install field s).fieldData field).elim
    (.error (.core (.unknownField cls.name field))) .ok

section Run

/-! ### Running engine steps

What one step of the engine answers from a given state, and the state it leaves: the steps a
load is built of, run one after another by `run_bind`. -/

variable {α β : Type} (s : EngineState)

@[simp] theorem run_pure (a : α) : (ExceptT.run (pure a : Engine α)).run s = (.ok a, s) := rfl

@[simp] theorem run_throw (e : EngineError) :
    (ExceptT.run (throw e : Engine α)).run s = (.error e, s) := rfl

@[simp] theorem run_get : (ExceptT.run (get : Engine EngineState)).run s = (.ok s, s) := rfl

@[simp] theorem run_set (s' : EngineState) :
    (ExceptT.run (set s' : Engine PUnit)).run s = (.ok ⟨⟩, s') := rfl

theorem run_bind (x : Engine α) (f : α → Engine β) :
    (ExceptT.run (x >>= f)).run s = match (ExceptT.run x).run s with
      | (.ok a, s') => (ExceptT.run (f a)).run s'
      | (.error e, s') => (.error e, s') := by
  simp only [ExceptT.run_bind, StateT.run_bind]
  rcases StateT.run (ExceptT.run x) s with ⟨r, s'⟩
  cases r <;> rfl

theorem run_discard (x : Engine α) :
    (ExceptT.run (discard x)).run s = match (ExceptT.run x).run s with
      | (.ok _, s') => (.ok ⟨⟩, s')
      | (.error e, s') => (.error e, s') := by
  change (ExceptT.run ((fun _ => PUnit.unit) <$> x)).run s = _
  rw [map_eq_pure_bind, run_bind]
  rcases StateT.run (ExceptT.run x) s with ⟨r, s'⟩
  cases r <;> rfl

theorem run_core (x : Except CoreError α) :
    (ExceptT.run (core x)).run s = (x.mapError .core, s) := by
  cases x <;> rfl

theorem run_lift (x : Except EngineError α) : (ExceptT.run (lift x)).run s = (x, s) := by
  cases x <;> rfl

theorem run_manager (id : ObjectId) :
    (ExceptT.run (manager id)).run s =
      ((s.ctx.objects.find? (·.id == id)).elim (.error (.notManaged id)) .ok, s) := by
  simp only [manager, managed?, context, run_bind, run_get, run_pure]
  cases s.ctx.objects.find? (·.id == id) <;> rfl

theorem run_updateManager (id : ObjectId) (f : ManagedObject → ManagedObject) :
    (ExceptT.run (updateManager id f)).run s =
      (.ok ⟨⟩, { s with ctx := { s.ctx with objects := s.ctx.objects.map (updateAt id f) } }) :=
  rfl

theorem run_count (f : CallCounts → CallCounts) :
    (ExceptT.run (count f)).run s = (.ok ⟨⟩, { s with ctx := { s.ctx with backend :=
      { s.ctx.backend with counts := f s.ctx.backend.counts } } }) :=
  rfl

theorem run_access (a : Datastore.Access α) :
    (ExceptT.run (access a)).run s = ((s.ctx.backend.conn.run s.db a).1.mapError .storage,
      { s with
        ctx := { s.ctx with backend := { s.ctx.backend with conn := (s.ctx.backend.conn.run s.db a).2.1 } }
        db := (s.ctx.backend.conn.run s.db a).2.2 }) := by
  simp only [access, run_bind, run_get, run_set]
  cases (s.ctx.backend.conn.run s.db a).1 <;> rfl

/-- A triple about one starting state gives what the run from that state answers, and what
holds of the state it leaves. -/
theorem run_eq_of_triple {x : Engine α} {r : Except EngineError α} {P : EngineState → Prop}
    (h : ⦃fun s' => ⌜s' = s⌝⦄ x
      ⦃post⟨fun a s' => ⌜.ok a = r ∧ P s'⌝, fun e s' => ⌜.error e = r ∧ P s'⌝⟩⦄) :
    ∃ s', (ExceptT.run x).run s = (r, s') ∧ P s' := by
  have h' := h s rfl
  simp only [wp, ExceptT.run, PredTrans.apply_pushExcept, PredTrans.apply_pushArg] at h'
  change ∃ s', StateT.run x s = (r, s') ∧ P s'
  rcases hr : StateT.run x s with ⟨r', s'⟩
  rw [hr] at h'
  cases r' <;> exact ⟨s', by rw [h'.1], h'.2⟩

theorem run_loadMapField (id : ObjectId) (c : ClassMeta) (f : Nat) :
    ∃ s', (ExceptT.run (loadMapField id c f)).run s =
        (((fun fetch => FieldData.map fetch.entries) <$>
          (s.ctx.backend.conn.run s.db (Datastore.Access.loadMap id c f)).1).mapError .storage, s') ∧
      s'.ctx.objects = s.ctx.objects := by
  apply run_eq_of_triple
  -- whichever warnings the key and value lists raise, the answer is the fetched entries
  mvcgen [loadMapField]
  all_goals simp_all +zetaDelta [Except.mapError]

end Run

variable {t : Datastore.Tables} {id : ObjectId}

theorem forIn_singleton {m : Type → Type} [Monad m] [LawfulMonad m] {α : Type} (x : α)
    (f : α → m PUnit) :
    forIn [x] PUnit.unit (fun a _ => do f a; pure (ForInStep.yield PUnit.unit)) = f x := by
  simp

theorem forIn_singleton_append {m : Type → Type} [Monad m] [LawfulMonad m] {α β γ : Type} (x : α)
    (acc : List γ) (g : α → m β) (h : α → β → γ) :
    forIn [x] acc (fun a l => do let y ← g a; pure (ForInStep.yield (l ++ [h a y]))) =
      (do let y ← g x; pure (acc ++ [h x y])) := by
  simp

theorem select_none {b : FieldBitmap} (hb : ∀ f, b.get f = false) (fs : List Nat) :
    b.select fs false = fs := by
  simp [FieldBitmap.select, hb]

section Hollow

variable {s : EngineState} {m : ManagedObject} {field : Nat} {fm : FieldMeta}

/-- Without a transaction view, loading a field other than a map with the object's header reads
the field's committed content, and keeps the managers. -/
theorem run_loadStored_field (id : ObjectId) (hsnap : s.ctx.backend.conn.snapshot = none)
    (hm : m.cls.member field = .ok fm) (hmap : fm.isMap = false) :
    ∃ s₁, (ExceptT.run (loadStored id m.cls [field])).run s =
        (((s.db.tables.fieldContent id fm field).map fun d => [(field, d)]).mapError .storage, s₁) ∧
      s₁.ctx.objects = s.ctx.objects := by
  simp only [loadStored, run_bind, run_count, run_access,
    Datastore.Connection.run_load_field hsnap hm hmap]
  exact ⟨_, rfl, rfl⟩

/-- Loading a field of a hollow object with nothing loaded reads the field's committed content,
a map field by a load of its own and any other field with the object's header; the content is
then installed and the object marked clean. -/
theorem run_ensureLoaded_hollow (hfind : s.ctx.objects.find? (·.id == id) = some m)
    (hh : m.lifecycle = .hollow) (hnone : ∀ f, m.loaded.get f = false)
    (hm : m.cls.member field = .ok fm) (hsnap : s.ctx.backend.conn.snapshot = none) :
    ∃ s₁, s₁.ctx.objects = s.ctx.objects ∧
      (ExceptT.run (ensureLoaded id [field])).run s =
        match s.db.tables.fieldContent id fm field with
        | .ok d => (ExceptT.run (do
            installData id field (some d)
            if (← manager id).lifecycle == .hollow then discard (transition id .readField))).run s₁
        | .error e => (.error (.storage e), s₁) := by
  have hcond : (m.lifecycle == .transient || m.lifecycle.isNew) = false := by rw [hh]; decide
  have hfm : m.cls.member? field = some fm := ClassMeta.member?_of_member hm
  cases hmap : fm.isMap
  · obtain ⟨s₁, hload, hobj⟩ := run_loadStored_field id hsnap hm hmap
    refine ⟨s₁, hobj, ?_⟩
    cases hC : s.db.tables.fieldContent id fm field <;>
      simp only [ensureLoaded, run_bind, run_manager, hfind, Option.elim, select_none hnone,
        List.isEmpty_cons, Bool.false_eq_true, if_false, List.forIn_nil, run_discard,
        run_core, hm, Except.mapError, hcond, List.filter_cons, List.filter_nil, hfm, Option.any_some,
        hmap, Bool.not_false, if_true, hload, hC, Except.map, List.nil_append, run_pure, forIn_singleton]
  · obtain ⟨s₁, hload, hobj⟩ := run_loadMapField s id m.cls field
    rw [Datastore.Connection.run_loadMap_entries hsnap hm hmap] at hload
    refine ⟨s₁, hobj, ?_⟩
    cases hC : s.db.tables.fieldContent id fm field <;>
      simp only [ensureLoaded, run_bind, run_manager, hfind, Option.elim, select_none hnone,
        List.isEmpty_cons, Bool.false_eq_true, if_false, forIn_singleton_append, run_discard,
        run_core, hm, Except.mapError, hcond, List.filter_cons, List.filter_nil, hfm, Option.any_some,
        hmap, Bool.not_true, if_true, List.isEmpty_nil, hload, hC, List.nil_append, run_pure, forIn_singleton]

/-- Reading a field of a hollow object with nothing loaded answers what the datastore has
committed for that field, when the connection has no transaction view. -/
theorem run_readField_hollow (field : Nat) (hfind : s.ctx.objects.find? (·.id == id) = some m)
    (hh : m.lifecycle = .hollow) (hnone : ∀ f, m.loaded.get f = false) (hfit : m.FitsClass)
    (hsnap : s.ctx.backend.conn.snapshot = none) :
    ((ExceptT.run (readField id field)).run s).1 = committedRead s.db.tables id m.cls field := by
  rcases hm : m.cls.member field with e | fm
  · -- the field is not declared: the check of the missing fields fails
    simp only [readField, ensureLoaded, run_bind, run_manager, hfind, Option.elim, select_none hnone,
      List.isEmpty_cons, Bool.false_eq_true, if_false, forIn_singleton, run_discard, run_core, hm,
      Except.mapError]
    rw [committedRead, hm]
    rfl
  obtain ⟨s₁, hobj, hload⟩ := run_ensureLoaded_hollow hfind hh hnone hm hsnap
  have hfind₁ : s₁.ctx.objects.find? (·.id == id) = some m := hobj ▸ hfind
  rcases hC : s.db.tables.fieldContent id fm field with e | d
  · -- the datastore has no content for the field
    simp only [readField, run_bind, hload, hC]
    simp only [committedRead, hm, hC, Except.mapError, bind, Except.bind]
  rcases hsl : makeSlot id fm (some d) with e | sl
  · -- the content does not fit the field
    simp only [readField, run_bind, hload, hC, installData, run_manager, hfind₁, Option.elim, run_core,
      hm, Except.mapError, run_lift, hsl]
    simp only [committedRead, hm, hC, hsl, Except.mapError, bind, Except.bind]
  -- the content is installed, the object becomes clean, and the field holds what was installed
  have hinst := find?_updateAt_self (f := fun x => x.install field sl)
    (fun n hn => (ManagedObject.install_fields n field sl).1.trans hn) hfind₁
  have hcls : (m.install field sl).cls = m.cls := (ManagedObject.install_fields m field sl).2.1
  have hlc : (m.install field sl).lifecycle = .hollow :=
    (ManagedObject.install_fields m field sl).2.2.1.trans hh
  have htr : (m.install field sl).transition .readField =
      .ok { m.install field sl with lifecycle := .persistentClean } := by
    simp only [ManagedObject.transition, hlc]
    rfl
  have hid : (m.install field sl).id = id :=
    (ManagedObject.install_fields m field sl).1.trans (id_of_find? hfind)
  have hread := find?_updateAt_self
    (f := fun _ => { m.install field sl with lifecycle := .persistentClean }) (fun _ _ => hid) hinst
  simp only [hcls] at htr hread
  have hlt : field < m.cls.fieldCount := ClassMeta.lt_fieldCount_of_member hm
  obtain ⟨hget, hslot⟩ := ManagedObject.install_self sl (m := m) (f := field)
    (hfit.1 ▸ hlt) (hfit.2 ▸ hlt)
  obtain ⟨hget', hslot'⟩ := ManagedObject.install_self sl
    (m := ManagedObject.create id m.cls .hollow) (f := field) (by simpa [ManagedObject.create] using hlt)
    (by simpa [ManagedObject.create] using hlt)
  simp only [readField, run_bind, hload, hC, installData, run_manager, hfind₁, Option.elim, run_core,
    hm, Except.mapError, run_lift, hsl, run_updateManager, hinst, hlc, transition, beq_self_eq_true,
    if_true, run_discard, htr, hread, run_pure, ManagedObject.fieldData, ManagedObject.slot?, hget, hslot]
  simp only [committedRead, hm, hC, hsl, Except.mapError, bind, Except.bind, ManagedObject.fieldData,
    ManagedObject.slot?, hget', hslot']
  cases sl <;> rfl

end Hollow

end Engine

end ObjectPersistence
