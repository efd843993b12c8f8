import Mathlib
import ObjectPersistence.Proofs.StoredOperations

/-! # Writing records

A record is written by one unit of work, and the connection undoes a unit that fails: it
changes no row, whichever statement failed (`Connection.run_error_keeps_tables`).

A unit that returns did exactly what its statements say. An update moves the object's
version from the expected one to the record's, comparing versions with `none` matching
`none`, then writes each field the record lists; each then reads back as its data, and
every other field of every object is as it was (`Rewrote`). A delete checks the version
the same way and removes the object's header, its scalar rows and its element rows, and no
row of another object. Inserting an object that is stored already is refused as a
duplicate. -/

namespace ObjectPersistence.Datastore

/-- A field of a stored object reads back as the data: a scalar as its scalar row, a
collection or a map as its element rows in position order, at the positions `0, 1, ...`,
a map's rows carrying their keys. -/
def StoresField (t : Tables) (id : ObjectId) (field : Nat) : FieldData → Prop
  | .scalar v => t.scalar? id field = some v
  | .collection items => ∃ rows, FieldRows t id field rows ∧
      rows.map ElementRow.item = items.map fun v => (v, none)
  | .map es => ∃ rows, FieldRows t id field rows ∧
      rows.map ElementRow.item = es.map fun e => (e.2, some e.1)

def SameField (t t' : Tables) (id : ObjectId) (field : Nat) : Prop :=
  t'.scalar? id field = t.scalar? id field ∧
    t'.elements.filter (ElementRow.inField id field) = t.elements.filter (ElementRow.inField id field)

/-- `t'` is `t` with the fields `fs` of the object `id` written: each reads back as its data,
and every other field of every object is as it was. -/
structure Rewrote (t : Tables) (id : ObjectId) (fs : List (Nat × FieldData)) (t' : Tables) :
    Prop where
  stored : ∀ f d, (f, d) ∈ fs → StoresField t' id f d
  others : ∀ y f, y ≠ id ∨ f ∉ fs.map (·.1) → SameField t t' y f

section Fields

variable {t t' t₁ t₂ t₃ : Tables} {id : ObjectId} {field : Nat}

theorem SameField.refl (t : Tables) (id : ObjectId) (field : Nat) : SameField t t id field :=
  ⟨rfl, rfl⟩

theorem SameField.trans (h₁ : SameField t₁ t₂ id field) (h₂ : SameField t₂ t₃ id field) :
    SameField t₁ t₃ id field :=
  ⟨h₂.1.trans h₁.1, h₂.2.trans h₁.2⟩

theorem SameField.of_rows (hs : t'.scalars = t.scalars) (he : t'.elements = t.elements) :
    SameField t t' id field := by
  simp [SameField, Tables.scalar?, hs, he]

theorem SameField.rowsOf_eq (h : SameField t t' id field) : t'.rowsOf id field = t.rowsOf id field := by
  simp only [Tables.rowsOf, h.2]

theorem StoresField.of_same {d : FieldData} (h : SameField t t' id field)
    (hd : StoresField t id field d) : StoresField t' id field d := by
  cases d with
  | scalar v => exact h.1.trans hd
  | collection items =>
    obtain ⟨rows, hr, hi⟩ := hd
    exact ⟨rows, ⟨h.2 ▸ hr.perm, hr.numbered⟩, hi⟩
  | map es =>
    obtain ⟨rows, hr, hi⟩ := hd
    exact ⟨rows, ⟨h.2 ▸ hr.perm, hr.numbered⟩, hi⟩

theorem Rewrote.nil (t : Tables) (id : ObjectId) : Rewrote t id [] t :=
  ⟨by simp, fun _ _ _ => SameField.refl _ _ _⟩

theorem Rewrote.cons {f : Nat} {d : FieldData} {fs : List (Nat × FieldData)}
    (h₁ : Rewrote t₁ id [(f, d)] t₂) (h₂ : Rewrote t₂ id fs t₃) (hf : f ∉ fs.map (·.1)) :
    Rewrote t₁ id ((f, d) :: fs) t₃ where
  stored f' d' hmem := by
    rcases List.mem_cons.mp hmem with heq | hmem
    · obtain ⟨rfl, rfl⟩ := Prod.mk.inj heq
      exact (h₁.stored f' d' List.mem_cons_self).of_same (h₂.others id f' (.inr hf))
    · exact h₂.stored f' d' hmem
  others y g hyg := by
    have h₁' : y ≠ id ∨ g ∉ [(f, d)].map (·.1) := by
      rcases hyg with hy | hg
      · exact .inl hy
      · exact .inr fun hg' => hg (by simp_all)
    have h₂' : y ≠ id ∨ g ∉ fs.map (·.1) := by
      rcases hyg with hy | hg
      · exact .inl hy
      · exact .inr fun hg' => hg (List.mem_cons_of_mem _ hg')
    exact (h₁.others y g h₁').trans (h₂.others y g h₂')

theorem Rewrote.of_rows {fs : List (Nat × FieldData)} (hs : t₂.scalars = t₁.scalars)
    (he : t₂.elements = t₁.elements) (h : Rewrote t₂ id fs t₃) : Rewrote t₁ id fs t₃ :=
  ⟨h.stored, fun y g hyg => (SameField.of_rows hs he).trans (h.others y g hyg)⟩

end Fields

/-! ### Statements on one field -/

namespace Tables

variable {t : Tables} {id : ObjectId} {field : Nat}

theorem scalar?_map {g : ScalarRow → ScalarRow} (hg : ∀ r, (g r).owner = r.owner ∧ (g r).field = r.field)
    (y : ObjectId) (f : Nat) :
    ({ t with scalars := t.scalars.map g } : Tables).scalar? y f =
      (t.scalars.find? fun r => r.owner == y && r.field == f).map fun r => (g r).value := by
  simp only [scalar?, List.find?_map, Option.map_map]
  congr 2
  funext r
  simp [(hg r).1, (hg r).2]

theorem putScalar_ok {t' : Tables} {v : Value} {n : Nat} (h : t.putScalar id field v = .ok (t', n)) :
    t'.objects = t.objects ∧ t'.elements = t.elements ∧ t'.sequences = t.sequences ∧
      ∀ y f, t'.scalar? y f = if y = id ∧ f = field then some v else t.scalar? y f := by
  unfold putScalar at h
  split at h
  · cases h
  split at h
  · -- the field has rows: their value is replaced, and the first of them is read
    rename_i hs
    cases h
    refine ⟨rfl, rfl, rfl, fun y f => ?_⟩
    rw [scalar?_map (fun r => by split <;> exact ⟨rfl, rfl⟩) y f]
    split
    · rename_i hyf
      obtain ⟨rfl, rfl⟩ := hyf
      obtain ⟨r, hr⟩ := Option.isSome_iff_exists.mp hs
      obtain ⟨r₀, hr₀, -⟩ := Option.map_eq_some_iff.mp hr
      have hp := List.find?_some hr₀
      simp only [Bool.and_eq_true, beq_iff_eq] at hp
      rw [hr₀]
      simp [hp]
    · rename_i hyf
      rw [scalar?]
      refine Option.map_congr fun r hr => ?_
      have hp := List.find?_some hr
      simp only [Bool.and_eq_true, beq_iff_eq] at hp
      have hne : ¬ (r.owner = id ∧ r.field = field) := fun h' => hyf ⟨hp.1 ▸ h'.1, hp.2 ▸ h'.2⟩
      simp [hne]
  · -- the field has no row: one is appended, and only that field reads it
    rename_i hs
    cases h
    refine ⟨rfl, rfl, rfl, fun y f => ?_⟩
    simp only [scalar?, List.find?_append]
    split
    · rename_i hyf
      obtain ⟨rfl, rfl⟩ := hyf
      have hnone : (t.scalars.find? fun r => r.owner == y && r.field == f) = none := by
        simpa [scalar?] using hs
      simp [hnone]
    · rename_i hyf
      have hx : (fun r : ScalarRow => r.owner == y && r.field == f) ⟨id, field, v⟩ = false := by
        simp only [Bool.and_eq_false_iff, beq_eq_false_iff_ne]
        by_cases hy : id = y
        · exact .inr fun hf => hyf ⟨hy.symm, hf.symm⟩
        · exact .inl hy
      simp [hx]

theorem putScalar_rewrites (hh : (t.header? id).isSome) (v : Value) :
    ∃ t', t.putScalar id field v = .ok (t', 1) ∧ t'.objects = t.objects ∧
      t'.elements = t.elements ∧ t'.sequences = t.sequences ∧
      Rewrote t id [(field, .scalar v)] t' := by
  have hnone : (t.header? id).isNone = false := by simpa using hh
  obtain ⟨t', hput⟩ : ∃ t', t.putScalar id field v = .ok (t', 1) := by
    unfold putScalar
    simp only [hnone, Bool.false_eq_true, if_false]
    split <;> exact ⟨_, rfl⟩
  obtain ⟨ho, he, hq, hs⟩ := putScalar_ok hput
  refine ⟨t', hput, ho, he, hq, ⟨fun f d hfd => ?_, fun y g hyg => ⟨?_, by rw [he]⟩⟩⟩
  · obtain ⟨rfl, rfl⟩ : f = field ∧ d = .scalar v := by simpa using hfd
    simp [StoresField, hs]
  · have hne : ¬ (y = id ∧ g = field) := by
      rintro ⟨rfl, rfl⟩
      simp at hyg
    rw [hs y g, if_neg hne]

theorem clearField_rows :
    (t.clearField id field).1.objects = t.objects ∧ (t.clearField id field).1.scalars = t.scalars ∧
      (t.clearField id field).1.sequences = t.sequences ∧
      FieldRows (t.clearField id field).1 id field [] ∧
      ∀ y f, ¬ (y = id ∧ f = field) → (t.clearField id field).1.elements.filter
        (ElementRow.inField y f) = t.elements.filter (ElementRow.inField y f) := by
  refine ⟨rfl, rfl, rfl, ⟨?_, Numbered.nil 0⟩, fun y f hyf => ?_⟩
  · simp [clearField, List.filter_filter]
  · simp only [clearField, List.filter_filter]
    refine List.filter_congr fun r _ => ?_
    -- a row of another field is not a row of the cleared one
    by_cases hr : ElementRow.inField y f r = true
    · have hne : ElementRow.inField id field r = false := by
        simp only [ElementRow.inField, Bool.and_eq_true, beq_iff_eq] at hr
        simp only [ElementRow.inField, Bool.and_eq_false_iff, beq_eq_false_iff_ne]
        by_cases hy : r.owner = id
        · exact .inr fun hf => hyf ⟨hr.1 ▸ hy, hr.2 ▸ hf⟩
        · exact .inl hy
      simp [hr, hne]
    · simp [hr]

theorem header?_map {g : ObjectRow → ObjectRow} (hg : ∀ r, (g r).id = r.id) (y : ObjectId) :
    ({ t with objects := t.objects.map g } : Tables).header? y = (t.header? y).map g := by
  simp only [header?, List.find?_map]
  congr 2
  funext r
  simp [hg r]

/-- Moving an object's version from the expected one changed a row only if the object's
header held that version; it then holds the new one, and every other header is as it was. -/
theorem setVersion_hit (hkeys : (t.objects.map (·.id)).Nodup) {version expected : Option Int}
    (hn : (t.setVersion id version expected).2 ≠ 0) :
    ∃ cls, t.header? id = some ⟨id, cls, expected⟩ ∧
      (t.setVersion id version expected).1.header? id = some ⟨id, cls, version⟩ ∧
      ∀ y, y ≠ id → (t.setVersion id version expected).1.header? y = t.header? y := by
  -- some row of the object held the expected version, and it is the object's only row
  obtain ⟨row, hrow, hhit⟩ := List.countP_pos_iff.mp (Nat.pos_of_ne_zero hn)
  simp only [Bool.and_eq_true, beq_iff_eq] at hhit
  obtain ⟨hid, hver⟩ := hhit
  have hfirst : t.header? id = some row := by
    obtain ⟨row₀, hrow₀⟩ := Option.isSome_iff_exists.mp
      (List.find?_isSome.mpr ⟨row, hrow, by simp [hid]⟩ : (t.header? id).isSome)
    have hid₀ : row₀.id = id := by simpa using List.find?_some hrow₀
    rw [header?, hrow₀, List.inj_on_of_nodup_map hkeys (List.mem_of_find?_eq_some hrow₀) hrow
      (hid₀.trans hid.symm)]
  have hkeep : ∀ r : ObjectRow,
      (if (r.id == id && r.version == expected) = true then { r with version } else r).id = r.id :=
    fun r => by split <;> rfl
  refine ⟨row.cls, ?_, ?_, fun y hy => ?_⟩
  · rw [hfirst, ← hid, ← hver]
  · rw [setVersion, header?_map hkeep, hfirst]
    simp [hid, hver]
  · rw [setVersion, header?_map hkeep]
    cases hy' : t.header? y with
    | none => rfl
    | some r =>
      have hr : r.id = y := by simpa using List.find?_some hy'
      have hne : r.id ≠ id := hr ▸ hy
      simp [hne]

/-- Removing an object's element rows, scalar rows and header removes the object and all its
fields, and no row of another object. -/
theorem deleted_rows (t : Tables) (id : ObjectId) :
    let t' := (((t.deleteElements id).1.deleteScalars id).1.deleteObject id).1
    t'.header? id = none ∧ (∀ f, t'.scalar? id f = none ∧ t'.rowsOf id f = []) ∧
      (∀ y, y ≠ id → t'.header? y = t.header? y ∧ ∀ f, SameField t t' y f) ∧
      t'.sequences = t.sequences := by
  refine ⟨?_, fun f => ⟨?_, ?_⟩, fun y hy => ⟨?_, fun f => ⟨?_, ?_⟩⟩, rfl⟩
  · simp [header?, deleteObject, List.find?_filter]
  · simp only [scalar?, deleteElements, deleteScalars, deleteObject, List.find?_filter]
    rw [List.find?_eq_none.mpr fun r _ => by by_cases hr : r.owner = id <;> simp [hr]]
    rfl
  · simp only [rowsOf, deleteElements, deleteScalars, deleteObject, List.filter_filter]
    rw [List.filter_eq_nil_iff.mpr fun r _ => by
      by_cases hr : r.owner = id <;> simp [ElementRow.inField, hr]]
    exact List.mergeSort_nil
  · -- the rows kept are those of the other objects, where `y`'s header is
    simp only [header?, deleteObject, List.find?_filter]
    congr 1
    funext r
    by_cases hr : r.id = y
    · simp [hr, hy]
    · simp [hr]
  · simp only [scalar?, deleteScalars, deleteObject, List.find?_filter]
    congr 2
    funext r
    by_cases hr : r.owner = y
    · by_cases hf : r.field = f <;> simp [hr, hy, hf]
    · simp [hr]
  · simp only [deleteElements, deleteScalars, deleteObject, List.filter_filter]
    refine List.filter_congr fun r _ => ?_
    by_cases hr : r.owner = y
    · simp [ElementRow.inField, hr, hy]
    · simp [ElementRow.inField, hr]

end Tables

namespace Access

variable {id : ObjectId} {field : Nat}

/-- Adding elements one after the other at the positions that follow a field's rows appends
them to the rows, in order, and changes no other row. -/
theorem exec_insertRows {β : Type} (g : β → Value × Option Value) :
    ∀ (xs : List β) (k : Nat) (w : Work) (rows : List ElementRow), w.mayWrite = true →
      (w.tables.header? id).isSome → FieldRows w.tables id field rows → rows.length = k →
      ∃ w' new, exec (forIn (xs.zipIdx k) PUnit.unit fun (x : β × Nat) (_ : PUnit) =>
          (do
            discard (write fun t => t.insertElement id field (.int x.2) (g x.1).1 (g x.1).2)
            pure (ForInStep.yield PUnit.unit) : Access (ForInStep PUnit))) w = (.ok PUnit.unit, w') ∧
        w'.mayWrite = true ∧ FieldRows w'.tables id field (rows ++ new) ∧
        new.map ElementRow.item = xs.map g ∧
        w'.tables.objects = w.tables.objects ∧ w'.tables.scalars = w.tables.scalars ∧
        w'.tables.sequences = w.tables.sequences ∧
        ∀ y f, ¬ (y = id ∧ f = field) →
          w'.tables.elements.filter (ElementRow.inField y f) =
            w.tables.elements.filter (ElementRow.inField y f)
  | [], _, w, rows, hw, _, hr, _ =>
    ⟨w, [], rfl, hw, by simpa using hr, rfl, rfl, rfl, rfl, fun _ _ _ => rfl⟩
  | x :: xs, k, w, rows, hw, hh, hr, hk => by
    obtain ⟨t', hins, hh', hr'⟩ := hr.append hh (g x).1 (g x).2
    subst hk
    have hins' : w.tables.insertElement id field (.int (rows.length : Int)) (g x).1 (g x).2 =
        .ok ({ w.tables with elements := w.tables.elements ++
          [w.tables.newRow id field (.int rows.length) (g x).1 (g x).2] }, 1) :=
      w.tables.insertElement_eq id field hh _ _ _
    rw [hins'] at hins
    cases hins
    obtain ⟨w', new, hrun, hw', hr'', hitems, ho, hs, hq, hother⟩ :=
      exec_insertRows g xs (rows.length + 1) { w with
        tables := { w.tables with elements := w.tables.elements ++
          [w.tables.newRow id field (.int rows.length) (g x).1 (g x).2] },
        touched := true, wrote := true, dirtied := w.dirtied || decide (1 > 0) }
        (rows ++ [w.tables.newRow id field (.int rows.length) (g x).1 (g x).2]) hw hh' hr' (by simp)
    refine ⟨w', w.tables.newRow id field (.int rows.length) (g x).1 (g x).2 :: new, ?_, hw',
      by simpa using hr'', by simp [hitems, ElementRow.item, Tables.newRow], ho, hs, hq,
      fun y f hyf => ?_⟩
    · simp only [List.zipIdx_cons, List.forIn_cons, exec_bind, exec_discard, exec_write, hw,
        if_true, hins', exec_pure]
      rw [hw] at hrun
      exact hrun
    · rw [hother y f hyf, List.filter_append]
      -- the new row belongs to the written field
      have hnew : ElementRow.inField y f (w.tables.newRow id field (.int rows.length) (g x).1 (g x).2)
          = false := by
        simp only [ElementRow.inField, Tables.newRow, Bool.and_eq_false_iff, beq_eq_false_iff_ne]
        by_cases hy : id = y
        · exact .inr fun hf => hyf ⟨hy.symm, hf.symm⟩
        · exact .inl hy
      simp [hnew]

/-- Replacing a field's rows by rows for the given items, in order at the positions
`0, 1, ...`, changes no other row. -/
theorem exec_replaceRows {β : Type} (g : β → Value × Option Value) (xs : List β) {w : Work}
    (hw : w.mayWrite = true) (hh : (w.tables.header? id).isSome) :
    ∃ w', exec (do
        discard (change fun t => t.clearField id field)
        forIn xs.zipIdx PUnit.unit fun (x : β × Nat) (_ : PUnit) =>
          (do
            discard (write fun t => t.insertElement id field (.int x.2) (g x.1).1 (g x.1).2)
            pure (ForInStep.yield PUnit.unit) : Access (ForInStep PUnit))
        pure ()) w = (.ok (), w') ∧
      w'.mayWrite = true ∧ w'.tables.objects = w.tables.objects ∧
      w'.tables.sequences = w.tables.sequences ∧
      (∃ rows, FieldRows w'.tables id field rows ∧ rows.map ElementRow.item = xs.map g) ∧
      ∀ y f, y ≠ id ∨ f ∉ [field] → SameField w.tables w'.tables y f := by
  obtain ⟨ho₁, hs₁, hq₁, hr₁, hf₁⟩ := @Tables.clearField_rows w.tables id field
  have hh₁ : ((w.tables.clearField id field).1.header? id).isSome := by
    rw [Tables.header?, ho₁]
    exact hh
  obtain ⟨w', new, hrun, hw', hr', hitems, ho, hs, hq, hother⟩ :=
    exec_insertRows g xs 0 { w with
      tables := (w.tables.clearField id field).1, touched := true, wrote := true,
      dirtied := w.dirtied || decide ((w.tables.clearField id field).2 > 0) } [] hw hh₁ hr₁ rfl
  refine ⟨w', ?_, hw', ho.trans ho₁, hq.trans hq₁, ⟨[] ++ new, hr', by simpa using hitems⟩,
    fun y f hyf => ⟨?_, ?_⟩⟩
  · simp only [exec_bind, exec_discard, exec_change, hw, if_true]
    rw [hw] at hrun
    simp only [hrun, exec_pure]
  · simp only [Tables.scalar?, hs, hs₁]
  · have hne : ¬ (y = id ∧ f = field) := by
      rintro ⟨rfl, rfl⟩
      simp at hyf
    rw [hother y f hne, hf₁ y f hne]

theorem exec_writeField {w : Work} (hw : w.mayWrite = true) (hh : (w.tables.header? id).isSome)
    (field : Nat) (d : FieldData) :
    ∃ w', (writeField id field d).exec w = (.ok (), w') ∧ w'.mayWrite = true ∧
      w'.tables.objects = w.tables.objects ∧ w'.tables.sequences = w.tables.sequences ∧
      Rewrote w.tables id [(field, d)] w'.tables := by
  cases d with
  | scalar v =>
    obtain ⟨t', hput, ho, -, hq, hrw⟩ := Tables.putScalar_rewrites hh v
    refine ⟨{ w with
      tables := t', touched := true, wrote := true, dirtied := w.dirtied || decide (1 > 0) },
      ?_, hw, ho, hq, hrw⟩
    simp only [writeField, exec_discard, exec_write, hw, if_true, hput]
  | collection items =>
    obtain ⟨w', hrun, hw', ho, hq, hrows, hother⟩ :=
      @exec_replaceRows id field _ (fun v => (v, none)) items w hw hh
    refine ⟨w', hrun, hw', ho, hq, fun f d hfd => ?_, hother⟩
    obtain ⟨rfl, rfl⟩ : f = field ∧ d = .collection items := by simpa using hfd
    exact hrows
  | map es =>
    obtain ⟨w', hrun, hw', ho, hq, hrows, hother⟩ :=
      @exec_replaceRows id field _ (fun e => (e.2, some e.1)) es w hw hh
    refine ⟨w', hrun, hw', ho, hq, fun f d hfd => ?_, hother⟩
    obtain ⟨rfl, rfl⟩ : f = field ∧ d = .map es := by simpa using hfd
    exact hrows

theorem exec_writeFields : ∀ (fs : List (Nat × FieldData)) (w : Work), w.mayWrite = true →
    (w.tables.header? id).isSome → (fs.map (·.1)).Nodup →
    ∃ w', exec (forIn fs PUnit.unit fun (x : Nat × FieldData) (_ : PUnit) =>
        (do
          writeField id x.1 x.2
          pure (ForInStep.yield PUnit.unit) : Access (ForInStep PUnit))) w = (.ok PUnit.unit, w') ∧
      w'.mayWrite = true ∧ w'.tables.objects = w.tables.objects ∧
      w'.tables.sequences = w.tables.sequences ∧ Rewrote w.tables id fs w'.tables
  | [], w, hw, _, _ => ⟨w, rfl, hw, rfl, rfl, Rewrote.nil _ _⟩
  | (f, d) :: fs, w, hw, hh, hnd => by
    obtain ⟨hf, hnd'⟩ := List.nodup_cons.mp hnd
    obtain ⟨w₁, h₁, hw₁, ho₁, hq₁, hrw₁⟩ := exec_writeField hw hh f d
    have hh₁ : (w₁.tables.header? id).isSome := by
      rw [Tables.header?, ho₁]
      exact hh
    obtain ⟨w', h', hw', ho, hq, hrw⟩ := exec_writeFields fs w₁ hw₁ hh₁ hnd'
    refine ⟨w', ?_, hw', ho.trans ho₁, hq.trans hq₁, hrw₁.cons hrw hf⟩
    simp only [List.forIn_cons, exec_bind, h₁, exec_pure]
    exact h'

theorem exec_bind_ok {α β : Type} {x : Access α} {f : α → Access β} {w w' : Work} {b : β}
    (h : (x >>= f).exec w = (.ok b, w')) :
    ∃ a w₁, x.exec w = (.ok a, w₁) ∧ (f a).exec w₁ = (.ok b, w') := by
  rw [exec_bind] at h
  rcases hx : x.exec w with ⟨_ | a, w₁⟩
  · rw [hx] at h
    cases h
  · rw [hx] at h
    exact ⟨a, w₁, rfl, h⟩

theorem exec_discard_ok {α : Type} {x : Access α} {w w' : Work} {u : Unit}
    (h : (discard x).exec w = (.ok u, w')) : ∃ a, x.exec w = (.ok a, w') := by
  rw [exec_discard] at h
  rcases hx : x.exec w with ⟨_ | a, w₁⟩
  · rw [hx] at h
    cases h
  · rw [hx] at h
    cases h
    exact ⟨a, rfl⟩

theorem exec_change_ok {f : Tables → Tables × Nat} {w w' : Work} {n : Nat}
    (h : (change f).exec w = (.ok n, w')) :
    w.mayWrite = true ∧ w'.mayWrite = true ∧ w'.tables = (f w.tables).1 ∧ n = (f w.tables).2 := by
  rw [exec_change] at h
  split at h
  · cases h
    exact ⟨‹_›, ‹_›, rfl, rfl⟩
  · cases h

/-- An update that returns found the object's header with the expected version, moved it to
the record's version, and wrote the record's fields, each listed once, and nothing else. -/
theorem update_spec {r : ObjectRecord} {expected : Option Int} {w w' : Work}
    (hkeys : (w.tables.objects.map (·.id)).Nodup) (hfields : (r.fields.map (·.1)).Nodup)
    (hrun : (update r expected).exec w = (.ok (), w')) :
    (∃ cls, w.tables.header? r.id = some ⟨r.id, cls, expected⟩ ∧
      w'.tables.header? r.id = some ⟨r.id, cls, r.version⟩) ∧
    (∀ y, y ≠ r.id → w'.tables.header? y = w.tables.header? y) ∧
    Rewrote w.tables r.id r.fields w'.tables ∧ w'.tables.sequences = w.tables.sequences := by
  unfold update at hrun
  obtain ⟨n, w₁, hch, hrest⟩ := exec_bind_ok hrun
  obtain ⟨hw, hw₁, ht₁, rfl⟩ := exec_change_ok hch
  by_cases hn : (w.tables.setVersion r.id r.version expected).2 = 0
  · -- no header held the expected version: the update fails either way
    rw [if_pos (by simp [hn])] at hrest
    obtain ⟨h?, w₂, -, hthrow⟩ := exec_bind_ok hrest
    cases h? <;> simp at hthrow
  · rw [if_neg (by simpa using hn)] at hrest
    obtain ⟨cls, hbefore, hafter, hothers⟩ := Tables.setVersion_hit hkeys hn
    have hh₁ : (w₁.tables.header? r.id).isSome := by
      rw [ht₁, hafter]
      rfl
    obtain ⟨w₂, hloop, -, ho, hq, hrw⟩ := exec_writeFields r.fields w₁ hw₁ hh₁ hfields
    obtain ⟨u, w₃, hloop', hpure⟩ := exec_bind_ok hrest
    rw [hloop] at hloop'
    cases hloop'
    cases hpure
    refine ⟨⟨cls, hbefore, ?_⟩, fun y hy => ?_, hrw.of_rows (by rw [ht₁]; rfl) (by rw [ht₁]; rfl),
      by rw [hq, ht₁]; rfl⟩
    · rw [Tables.header?, ho, ← Tables.header?, ht₁, hafter]
    · rw [Tables.header?, ho, ← Tables.header?, ht₁, hothers y hy]

/-- A delete that returns found the object's header with the given version, and removed the
object with all its fields, and no row of another object. -/
theorem delete_spec {id : ObjectId} {version : Option Int} {w w' : Work}
    (hrun : (delete id version).exec w = (.ok (), w')) :
    (∃ row, w.tables.header? id = some row ∧ row.version = version) ∧
    w'.tables.header? id = none ∧
    (∀ f, w'.tables.scalar? id f = none ∧ w'.tables.rowsOf id f = []) ∧
    (∀ y, y ≠ id → w'.tables.header? y = w.tables.header? y ∧
      ∀ f, SameField w.tables w'.tables y f) ∧
    w'.tables.sequences = w.tables.sequences := by
  unfold delete at hrun
  obtain ⟨h?, w₁, hread, hrest⟩ := exec_bind_ok hrun
  rw [header?, exec_read] at hread
  cases hread
  cases hrow : w.tables.header? id with
  | none =>
    rw [hrow] at hrest
    simp at hrest
  | some row =>
    rw [hrow] at hrest
    simp only [Option.map_some] at hrest
    split at hrest
    · simp at hrest
    · rename_i hver
      -- the three statements ran, each on the tables the one before left
      obtain ⟨_, w₂, h₂, hrest⟩ := exec_bind_ok hrest
      obtain ⟨_, w₃, h₃, h₄⟩ := exec_bind_ok hrest
      obtain ⟨_, h₂⟩ := exec_discard_ok h₂
      obtain ⟨_, h₃⟩ := exec_discard_ok h₃
      obtain ⟨_, h₄⟩ := exec_discard_ok h₄
      obtain ⟨-, -, ht₂, -⟩ := exec_change_ok h₂
      obtain ⟨-, -, ht₃, -⟩ := exec_change_ok h₃
      obtain ⟨-, -, ht₄, -⟩ := exec_change_ok h₄
      obtain ⟨hgone, hfields, hothers, hseq⟩ := Tables.deleted_rows w.tables id
      rw [ht₄, ht₃, ht₂]
      exact ⟨⟨row, rfl, by simpa using hver⟩, hgone, hfields, hothers, hseq⟩

theorem insert_duplicate {r : ObjectRecord} {w : Work} (hw : w.mayWrite = true)
    (h : (w.tables.header? r.id).isSome) : ((insert r).exec w).1 = .error (.duplicateObject r.id) := by
  have hnone : w.tables.insertObject ⟨r.id, r.cls, r.version⟩ = none := by
    simp [Tables.insertObject, h]
  simp [insert, exec_bind, exec_write, hw, hnone]

end Access

namespace Connection

/-- A unit of work that fails changes no rows: the connection sees the tables it saw, and the
committed tables are as they were. A transaction that took the write lock keeps it. -/
theorem run_error_keeps_tables {α : Type} {c : Connection} {db : Database} {a : Access α}
    {e : StorageError} (h : (c.run db a).1 = .error e) :
    (c.run db a).2.1.view (c.run db a).2.2 = c.view db ∧ (c.run db a).2.2.tables = db.tables := by
  unfold run at h ⊢
  dsimp only at h ⊢
  split at h
  rename_i r w _
  have hr : r = .error e := by
    split at h
    · exact h
    · split at h <;> (try split at h) <;> exact h
  subst hr
  split
  · -- in a transaction the failed unit's view is the one it started from
    cases hs : c.snapshot <;> by_cases ht : w.touched = true <;> simp [view, hs, ht]
  · simp

end Connection

end ObjectPersistence.Datastore

namespace ObjectPersistence

open Datastore

/-- The stored writes are exact and undone on failure. A unit of work that fails leaves the
tables its connection sees and the committed tables as they were. An update that returns,
on tables that hold each object once and with a record that lists each field once, found
the object's header at the expected version, moved it to the record's version, wrote
exactly the record's fields and left every other field and object unchanged. A delete that
returns found the object's header at the given version and removed the object with all
its scalar and element rows, and nothing else. Inserting an object that is stored, in work
that may write, is refused as a duplicate. -/
theorem stored_writes_exact_and_undone :
    (∀ {α : Type} (c : Connection) (db : Database) (a : Access α) (e : StorageError),
      (c.run db a).1 = .error e →
        (c.run db a).2.1.view (c.run db a).2.2 = c.view db ∧ (c.run db a).2.2.tables = db.tables) ∧
    (∀ (r : ObjectRecord) (expected : Option Int) (w w' : Work),
      (w.tables.objects.map (·.id)).Nodup → (r.fields.map (·.1)).Nodup →
      (Access.update r expected).exec w = (.ok (), w') →
      (∃ cls, w.tables.header? r.id = some ⟨r.id, cls, expected⟩ ∧
        w'.tables.header? r.id = some ⟨r.id, cls, r.version⟩) ∧
      (∀ y, y ≠ r.id → w'.tables.header? y = w.tables.header? y) ∧
      Rewrote w.tables r.id r.fields w'.tables ∧ w'.tables.sequences = w.tables.sequences) ∧
    (∀ (id : ObjectId) (version : Option Int) (w w' : Work),
      (Access.delete id version).exec w = (.ok (), w') →
      (∃ row, w.tables.header? id = some row ∧ row.version = version) ∧
      w'.tables.header? id = none ∧
      (∀ f, w'.tables.scalar? id f = none ∧ w'.tables.rowsOf id f = []) ∧
      (∀ y, y ≠ id → w'.tables.header? y = w.tables.header? y ∧
        ∀ f, SameField w.tables w'.tables y f) ∧
      w'.tables.sequences = w.tables.sequences) ∧
    ∀ (r : ObjectRecord) (w : Work), w.mayWrite = true → (w.tables.header? r.id).isSome →
      ((Access.insert r).exec w).1 = .error (.duplicateObject r.id) :=
  ⟨fun _ _ _ _ h => Connection.run_error_keeps_tables h,
    fun _ _ _ _ hkeys hfields hrun => Access.update_spec hkeys hfields hrun,
    fun _ _ _ _ hrun => Access.delete_spec hrun,
    fun _ _ hw h => Access.insert_duplicate hw h⟩

def storedBook : Work :=
  { tables := { objects := [⟨ObjectId.fresh 0, "Book", some 1⟩] }, mayWrite := true }

def bookRecord : ObjectRecord :=
  ⟨ObjectId.fresh 0, "Book", some 2, [(0, .scalar (.text "Dune"))]⟩

/-- A write refused on a locked database leaves it empty; updating the stored book from
version one writes its title; deleting it at version one removes its header; inserting it
again is a duplicate. -/
theorem stored_book_writes :
    (Connection.run { id := 0 } { writer := some 1 } (Access.update bookRecord (some 1))).2.2.tables =
        {} ∧
      (∃ w', (Access.update bookRecord (some 1)).exec storedBook = (.ok (), w') ∧
        w'.tables.scalar? (ObjectId.fresh 0) 0 = some (.text "Dune")) ∧
      (∃ w', (Access.delete (ObjectId.fresh 0) (some 1)).exec storedBook = (.ok (), w') ∧
        w'.tables.header? (ObjectId.fresh 0) = none) ∧
      ((Access.insert bookRecord).exec storedBook).1 = .error (.duplicateObject (ObjectId.fresh 0)) := by
  obtain ⟨hfail, hupdate, hdelete, hinsert⟩ := stored_writes_exact_and_undone
  refine ⟨(hfail _ _ _ (.database .locked) rfl).2, ?_, ?_, hinsert _ _ rfl rfl⟩
  · have hrun : (Access.update bookRecord (some 1)).exec storedBook =
        (.ok (), ((Access.update bookRecord (some 1)).exec storedBook).2) := rfl
    obtain ⟨-, -, hrw, -⟩ := hupdate _ _ _ _ (by decide) (by decide) hrun
    exact ⟨_, hrun, hrw.stored 0 _ List.mem_cons_self⟩
  · have hrun : (Access.delete (ObjectId.fresh 0) (some 1)).exec storedBook =
        (.ok (), ((Access.delete (ObjectId.fresh 0) (some 1)).exec storedBook).2) := rfl
    exact ⟨_, hrun, (hdelete _ _ _ _ hrun).2.1⟩

end ObjectPersistence
