import Mathlib
import ObjectPersistence.Proofs.ElementRows
import ObjectPersistence.Proofs.PlainContainer

/-! # Operations applied to a stored field

The datastore applies an operation queued for a container field to the field's rows in
place. When the rows hold a plain container's items in its order, at the positions
`0, 1, ...`, applying one of the operations a wrapper queues leaves rows that hold the plain
container after the same change, again at consecutive positions:

* adding an element appends it, a set's element only when it is not held yet;
* adding at an index inserts there, and removing at an index erases there;
* removing an element erases its first copy;
* putting an entry replaces the value of its key in place, or appends a new key;
* removing a key takes its entry out.

`Applies` states this for one operation from any unit of work that may write; the
statements of the datastore are run through `Access.exec`, one rewriting rule each. -/

namespace ObjectPersistence.Datastore

namespace Access

def exec {α} (a : Access α) (w : Work) : Except StorageError α × Work := (ExceptT.run a).run w

section Exec

variable {α β : Type}

theorem exec_bind (x : Access α) (f : α → Access β) (w : Work) :
    (x >>= f).exec w =
      match x.exec w with
      | (.ok a, w') => (f a).exec w'
      | (.error e, w') => (.error e, w') := by
  simp only [exec, ExceptT.run_bind, StateT.run_bind]
  rcases StateT.run (ExceptT.run x) w with ⟨r, w'⟩
  cases r <;> rfl

theorem exec_map (f : α → β) (x : Access α) (w : Work) :
    (f <$> x).exec w =
      match x.exec w with
      | (.ok a, w') => (.ok (f a), w')
      | (.error e, w') => (.error e, w') := by
  simp only [exec, ExceptT.run_map, StateT.run_map]
  rcases StateT.run (ExceptT.run x) w with ⟨r, w'⟩
  cases r <;> rfl

theorem exec_discard (x : Access α) (w : Work) :
    (discard x).exec w =
      match x.exec w with
      | (.ok _, w') => (.ok (), w')
      | (.error e, w') => (.error e, w') :=
  exec_map _ x w

@[simp] theorem exec_pure (a : α) (w : Work) : (pure a : Access α).exec w = (.ok a, w) := rfl

@[simp] theorem exec_throw (e : StorageError) (w : Work) :
    (throw e : Access α).exec w = (.error e, w) := rfl

@[simp] theorem exec_get (w : Work) : (get : Access Work).exec w = (.ok w, w) := rfl

@[simp] theorem exec_set (w w' : Work) : (set w' : Access PUnit).exec w = (.ok (), w') := rfl

@[simp] theorem exec_read (f : Tables → α) (w : Work) :
    (read f).exec w = (.ok (f w.tables), { w with touched := true }) := rfl

theorem exec_write (f : Tables → Except DatabaseRefusal (Tables × Nat)) (w : Work) :
    (write f).exec w =
      if w.mayWrite then
        match f w.tables with
        | .ok (t, n) => (.ok n, { w with
            tables := t, touched := true, wrote := true, dirtied := w.dirtied || decide (n > 0) })
        | .error r => (.error (.database r), { w with touched := true, wrote := true })
      else (.error (.database .locked), w) := by
  cases hw : w.mayWrite
  · simp only [write, exec_bind, exec_get, hw, Bool.not_false, if_true]
    rfl
  · simp only [write, exec_bind, exec_get, hw, Bool.not_true, Bool.false_eq_true, if_false,
      if_true]
    rcases f w.tables with r | ⟨t, n⟩ <;> rfl

theorem exec_change (f : Tables → Tables × Nat) (w : Work) :
    (change f).exec w =
      if w.mayWrite then
        (.ok (f w.tables).2, { w with
          tables := (f w.tables).1, touched := true, wrote := true,
          dirtied := w.dirtied || decide ((f w.tables).2 > 0) })
      else (.error (.database .locked), w) := by
  rw [change, exec_write]

theorem exec_member {c : ClassMeta} {n : Nat} {m : FieldMeta} (hm : c.member n = .ok m)
    (w : Work) : (member c n).exec w = (.ok m, w) := by
  simp [member, hm]

@[simp] theorem exec_integer_int (column : String) (n : Int) (w : Work) :
    (integer column (.int n)).exec w = (.ok n, w) := rfl

theorem exec_read_eq (f : Tables → α) (w : Work) :
    ∃ w', (read f).exec w = (.ok (f w.tables), w') ∧ w'.mayWrite = w.mayWrite ∧
      w'.tables = w.tables :=
  ⟨_, rfl, rfl, rfl⟩

/-- A writing statement that the tables cannot refuse, in work that may write, answers the
rows it changed and leaves the tables it made. -/
theorem exec_change_eq (f : Tables → Tables × Nat) {w : Work} (hw : w.mayWrite = true) :
    ∃ w', (change f).exec w = (.ok (f w.tables).2, w') ∧ w'.mayWrite = true ∧
      w'.tables = (f w.tables).1 := by
  rw [exec_change, if_pos hw]
  exact ⟨_, rfl, hw, rfl⟩

end Exec

/-! ## Appending and removing rows -/

section Rows

variable {w : Work} {id : ObjectId} {field : Nat} {rows : List ElementRow}

theorem exec_appendRow (hw : w.mayWrite = true) (h : FieldRows w.tables id field rows)
    (hh : (w.tables.header? id).isSome) (hb : rows.length < Nat.pow 2 63) (column : String)
    (e : Value) (key : Option Value) :
    ∃ w' r, (do
        let p ← integer column (← read fun t => t.nextPosition id field)
        discard <| write fun t => t.insertElement id field (.int p) e key).exec w = (.ok (), w') ∧
      w'.mayWrite = true ∧ (w'.tables.header? id).isSome ∧ r.element = e ∧ r.key = key ∧
      FieldRows w'.tables id field (rows ++ [r]) := by
  obtain ⟨t', hins, hh', hfr'⟩ := h.append hh e key
  simp only [exec_bind, exec_read, h.nextPosition_eq hb, exec_integer_int, exec_discard,
    exec_write, hw, hins, if_true]
  exact ⟨_, w.tables.newRow id field (.int rows.length) e key, rfl, rfl, hh', rfl, rfl, hfr'⟩

theorem exec_removeAt {pre post : List ElementRow} {r : ElementRow} (hw : w.mayWrite = true)
    (h : FieldRows w.tables id field (pre ++ r :: post))
    (hb : (pre ++ r :: post).length ≤ Nat.pow 2 63) :
    ∃ w', (removeAt id field pre.length).exec w = (.ok (), w') ∧ w'.mayWrite = true ∧
      w'.tables.header? id = w.tables.header? id ∧
      FieldRows w'.tables id field (pre ++ post.map (ElementRow.moved (-1))) := by
  obtain ⟨hpos, hfr⟩ := h.closeGap hb
  simp only [removeAt, exec_bind, exec_change, hw, hpos, if_true, exec_discard]
  exact ⟨_, rfl, rfl, rfl, hfr⟩

theorem positionOf?_eq {t : Tables} (h : FieldRows t id field rows) (e : Value) :
    t.positionOf? id field e = (rows.find? (·.element == e)).map (·.position) := by
  rw [Tables.positionOf?, h.rowsOf_eq]

theorem keyPosition?_eq {t : Tables} (h : FieldRows t id field rows) (k : Value) :
    t.keyPosition? id field k = (rows.find? (·.key == some k)).map (·.position) := by
  rw [Tables.keyPosition?, h.rowsOf_eq]

end Rows

end Access

end ObjectPersistence.Datastore

namespace ObjectPersistence

open Datastore

def CollectionKind.shape : CollectionKind → ContainerShape
  | .set => .set
  | .sortedSet => .sortedSet
  | .list => .list
  | .orderedList => .orderedList

def PlainContainer.shape : PlainContainer → ContainerShape
  | .collection k _ => k.shape
  | .map s _ => if s then .sortedMap else .map
  | .single _ => .scalarMutable

/-- Rows that hold a plain container's items in its order: a collection's elements, or each
entry's value under its key. -/
def PlainContainer.StoredIn : PlainContainer → List ElementRow → Prop
  | .collection _ xs, rows => rows.map (·.element) = xs
  | .map _ es, rows => rows.map ElementRow.item = es.map fun e => (e.2, some e.1)
  | .single _, _ => False

/-- A container field of a stored object, with the class that declares its shape. -/
structure StoredField where
  cls : ClassMeta
  owner : FieldOwner
  declared : FieldMeta
  shape : ContainerShape
  member_eq : cls.member owner.field = .ok declared
  container_eq : declared.container = some shape

/-- Tables that store a plain container in a field: the owner is stored, and the field's rows
hold the container's items in its order at the positions `0, 1, ...`. -/
structure Stored (f : StoredField) (t : Tables) (pc : PlainContainer) : Prop where
  header : (t.header? f.owner.object).isSome
  shape : pc.shape = f.shape
  rows : ∃ rows, FieldRows t f.owner.object f.owner.field rows ∧ pc.StoredIn rows

/-- Applying an operation to tables that store `pc`, in any unit of work that may write,
succeeds and leaves tables that store `pc'`. -/
def Applies (f : StoredField) (op : Operation) (pc pc' : PlainContainer) : Prop :=
  ∀ w : Work, w.mayWrite = true → Stored f w.tables pc →
    ∃ w', (Access.apply op f.cls).exec w = (.ok (), w') ∧ w'.mayWrite = true ∧
      Stored f w'.tables pc'

theorem wrap64_of_lt {n : Nat} (h : n < Nat.pow 2 63) : wrap64 n = n := by
  have h64 : (n : Int) < (Nat.pow 2 64 : Nat) := by
    have : Nat.pow 2 63 < Nat.pow 2 64 := by decide
    omega
  simp only [wrap64, Int.emod_eq_of_lt (Int.natCast_nonneg n) h64, Int.toNat_natCast, h, if_true]

theorem insertIdx_eq_take_drop {α : Type} {l : List α} {i : Nat} (h : i ≤ l.length) (a : α) :
    l.insertIdx i a = l.take i ++ a :: l.drop i := by
  induction i generalizing l with
  | zero => simp [List.insertIdx_zero]
  | succ i ih =>
    cases l with
    | nil => simp at h
    | cons x l => simp [List.insertIdx_succ_cons, ih (by simpa using h)]

theorem contains_elements {rows : List ElementRow} {e : Value} :
    (rows.map (·.element)).contains e = (rows.find? (·.element == e)).isSome := by
  rw [Bool.eq_iff_iff, List.contains_iff_mem, List.find?_isSome, List.mem_map]
  simp only [beq_iff_eq]

theorem item_withValue (key v : Value) (r : ElementRow) :
    (r.withValue key v).item = if r.key == some key then (v, r.key) else r.item := by
  unfold ElementRow.withValue
  split <;> rfl

theorem countP_key_eq {rows : List ElementRow} {es : List (Value × Value)}
    (hst : rows.map ElementRow.item = es.map fun e => (e.2, some e.1)) (k : Value) :
    rows.countP (fun r => r.key == some k) = es.countP (fun e => e.1 == k) := by
  have := congrArg (List.countP fun p : Value × Option Value => p.2 == some k) hst
  simpa [List.countP_map, Function.comp_def, ElementRow.item] using this

namespace Applies

variable {f : StoredField}

theorem addElement {k : CollectionKind} {xs : List Value} (hb : xs.length < Nat.pow 2 63)
    (e : Value) :
    Applies f (Operation.add f.owner.object f.owner.field (.element e)) (.collection k xs)
      (.collection k (Plain.insert k xs e).1) := by
  rintro w hw ⟨hh, hshape, rows, hfr, hst⟩
  simp only [PlainContainer.StoredIn] at hst
  subst hst
  rw [List.length_map] at hb
  have hunique : (f.shape == .set || f.shape == .sortedSet) = k.unique := by
    rw [← hshape]
    cases k <;> rfl
  simp only [Access.apply, Operation.add, Access.exec_bind, Access.exec_member f.member_eq,
    f.container_eq, hunique]
  cases hk : k.unique
  · obtain ⟨w', r, hexec, hw', hh', hre, -, hfr'⟩ := Access.exec_appendRow hw hfr hh hb _ e none
    simp only [Bool.false_eq_true, if_false]
    refine ⟨w', hexec, hw', hh', hshape, _, hfr', ?_⟩
    simp [PlainContainer.StoredIn, Plain.insert, hk, hre]
  · obtain ⟨w₁, hread, hw₁, ht₁⟩ :=
      Access.exec_read_eq (fun t => t.positionOf? f.owner.object f.owner.field e) w
    rw [hw] at hw₁
    rw [← ht₁] at hfr hh
    simp only [if_true, Access.exec_bind, hread, ← ht₁, Access.positionOf?_eq hfr]
    cases hfind : rows.find? (·.element == e) with
    | none =>
      -- not held: the element is appended
      have hnot : (rows.map (·.element)).contains e = false := by
        rw [contains_elements, hfind, Option.isSome_none]
      obtain ⟨w', r, hexec, hw', hh', hre, -, hfr'⟩ := Access.exec_appendRow hw₁ hfr hh hb _ e none
      simp only [Option.map_none]
      refine ⟨w', hexec, hw', hh', hshape, _, hfr', ?_⟩
      simp only [PlainContainer.StoredIn, Plain.insert, hk, hnot, Bool.and_false,
        Bool.false_eq_true, if_false, List.map_append, List.map_cons, List.map_nil, hre]
    | some r =>
      -- held: the row's position is read, and nothing changes
      have hheld : (rows.map (·.element)).contains e = true := by
        rw [contains_elements, hfind, Option.isSome_some]
      obtain ⟨pre, post, -, -, hpos⟩ := hfr.find?_split hfind
      simp only [Option.map_some, hpos, Access.exec_bind, Access.exec_discard,
        Access.exec_integer_int, Access.exec_pure, Bool.not_true, Bool.false_eq_true, if_false]
      refine ⟨_, rfl, hw₁, hh, hshape, _, hfr, ?_⟩
      simp only [PlainContainer.StoredIn, Plain.insert, hk, hheld, Bool.and_self, if_true]

theorem removeElement {k : CollectionKind} {xs : List Value} (hb : xs.length ≤ Nat.pow 2 63)
    (e : Value) (ac : Bool) :
    Applies f (Operation.remove f.owner.object f.owner.field (.element e) ac) (.collection k xs)
      (.collection k (xs.erase e)) := by
  rintro w hw ⟨hh, hshape, rows, hfr, hst⟩
  simp only [PlainContainer.StoredIn] at hst
  subst hst
  simp only [Access.apply, Operation.remove, Access.exec_bind, Access.exec_member f.member_eq,
    f.container_eq, Access.exec_read, Access.positionOf?_eq hfr]
  cases hfind : rows.find? (·.element == e) with
  | none =>
    -- not held: nothing changes
    have hnot : e ∉ rows.map (·.element) := by
      rw [← List.contains_iff_mem, contains_elements, hfind]
      exact Bool.false_ne_true
    simp only [Option.map_none]
    refine ⟨_, rfl, hw, hh, hshape, rows, hfr, ?_⟩
    simp only [PlainContainer.StoredIn, List.erase_of_not_mem hnot]
  | some r =>
    -- the first row holding it goes, and the later rows move down
    obtain ⟨pre, post, rfl, hpre, hpos⟩ := hfr.find?_split hfind
    have hre : r.element = e := by simpa using List.find?_some hfind
    have hnotpre : e ∉ pre.map (·.element) := by
      intro hmem
      obtain ⟨a, ha, rfl⟩ := List.mem_map.mp hmem
      simpa using hpre a ha
    have hw₁ : ({ w with touched := true } : Work).mayWrite = true := hw
    obtain ⟨w', hexec, hw', hh', hfr'⟩ :=
      Access.exec_removeAt hw₁ hfr (by simpa using hb)
    simp only [Option.map_some, hpos, Access.exec_bind, Access.exec_integer_int]
    refine ⟨w', hexec, hw', by rw [hh']; exact hh, hshape, _, hfr', ?_⟩
    simp only [PlainContainer.StoredIn, List.map_append, List.map_cons, List.map_map,
      List.erase_append_right _ hnotpre, hre, List.erase_cons_head]
    rfl

theorem removeIndexed {k : CollectionKind} {xs : List Value} {i : Nat} (hi : i < xs.length)
    (hb : xs.length ≤ Nat.pow 2 63) (e : Value) (ac : Bool) :
    Applies f (Operation.remove f.owner.object f.owner.field (.indexed i e) ac) (.collection k xs)
      (.collection k (xs.eraseIdx i)) := by
  rintro w hw ⟨hh, hshape, rows, hfr, hst⟩
  simp only [PlainContainer.StoredIn] at hst
  subst hst
  rw [List.length_map] at hi hb
  -- the row at the index splits the rows
  have hsplit : rows = rows.take i ++ rows[i] :: rows.drop (i + 1) := by
    rw [← List.drop_eq_getElem_cons hi, List.take_append_drop]
  have hlen : (rows.take i).length = i := List.length_take_of_le hi.le
  rw [hsplit] at hfr
  obtain ⟨w', hexec, hw', hh', hfr'⟩ := Access.exec_removeAt hw hfr (by rw [← hsplit]; exact hb)
  rw [hlen] at hexec
  simp only [Access.apply, Operation.remove, Access.exec_bind, Access.exec_member f.member_eq,
    f.container_eq, wrap64_of_lt (by omega : i < Nat.pow 2 63)]
  refine ⟨w', hexec, hw', by rw [hh']; exact hh, hshape, _, hfr', ?_⟩
  simp only [PlainContainer.StoredIn, List.map_append, List.map_map, List.eraseIdx_eq_take_drop_succ,
    List.map_take, List.map_drop]
  rfl

theorem addIndexed {k : CollectionKind} {xs : List Value} {i : Nat} (hi : i ≤ xs.length)
    (hb : xs.length < Nat.pow 2 63) (e : Value) :
    Applies f (Operation.add f.owner.object f.owner.field (.indexed i e)) (.collection k xs)
      (.collection k (xs.insertIdx i e)) := by
  rintro w hw ⟨hh, hshape, rows, hfr, hst⟩
  simp only [PlainContainer.StoredIn] at hst
  subst hst
  rw [List.length_map] at hi hb
  obtain ⟨t', r, hins, hh', hre, -, hfr'⟩ := hfr.openGap hh hi hb e none
  simp only [Access.apply, Operation.add, Access.exec_bind, Access.exec_member f.member_eq,
    f.container_eq, wrap64_of_lt (by omega : i < Nat.pow 2 63), Access.exec_discard,
    Access.exec_change, hw, if_true, Access.exec_write, hins]
  refine ⟨_, rfl, rfl, hh', hshape, _, hfr', ?_⟩
  rw [PlainContainer.StoredIn, insertIdx_eq_take_drop (by simpa using hi)]
  simp only [List.map_append, List.map_cons, List.map_map, Function.comp_def,
    ElementRow.element_moved, hre, List.map_take, List.map_drop]

theorem addEntry {s : Bool} {es : List (Value × Value)} (hb : es.length < Nat.pow 2 63)
    (k v : Value) :
    Applies f (Operation.add f.owner.object f.owner.field (.entry k v)) (.map s es)
      (.map s (Plain.putChanged es (k, v)).1) := by
  rintro w hw ⟨hh, hshape, rows, hfr, hst⟩
  simp only [PlainContainer.StoredIn] at hst
  have hlen : rows.length = es.length := by simpa using congrArg List.length hst
  obtain ⟨hcount, hfr₁⟩ := hfr.setEntry k v
  rw [countP_key_eq hst] at hcount
  obtain ⟨w₁, hset, hw₁, ht₁⟩ :=
    Access.exec_change_eq (fun t => t.setEntry f.owner.object f.owner.field k v) hw
  rw [← ht₁] at hfr₁
  simp only [Access.apply, Operation.add, Access.exec_bind, Access.exec_member f.member_eq,
    f.container_eq, hset, hcount]
  cases hl : Container.lookup es k with
  | some old =>
    -- the key is there: its row gets the value, in place
    have hpos : es.countP (fun e => e.1 == k) ≠ 0 := by
      obtain ⟨e, he, rfl⟩ := List.mem_map.mp (Container.lookup_isSome_iff.mp (by rw [hl]; rfl))
      refine Nat.pos_iff_ne_zero.mp (List.countP_pos_iff.mpr ⟨e, he, ?_⟩)
      exact beq_self_eq_true _
    simp only [hpos, beq_iff_eq, if_false]
    refine ⟨_, rfl, hw₁, by rw [ht₁]; exact hh, hshape, _, hfr₁, ?_⟩
    simp only [PlainContainer.StoredIn, Plain.putChanged, Container.put, hl, List.map_map]
    rw [show ElementRow.item ∘ ElementRow.withValue k v =
        (fun p => if p.2 == some k then (v, p.2) else p) ∘ ElementRow.item from
      funext (item_withValue k v), ← List.map_map, hst, List.map_map]
    refine List.map_congr_left fun e _ => ?_
    by_cases hk : e.1 = k <;> simp [hk]
  | none =>
    -- a new key: no row changes, and the entry is appended
    have hzero : es.countP (fun e => e.1 == k) = 0 := by
      rw [List.countP_eq_zero]
      intro e he hek
      exact Container.lookup_eq_none_iff.mp hl (List.mem_map.mpr ⟨e, he, by simpa using hek⟩)
    have hsame : rows.map (ElementRow.withValue k v) = rows := by
      refine (List.map_congr_left fun r hr => ?_).trans (List.map_id rows)
      have hr0 := (List.countP_eq_zero.mp (hzero ▸ countP_key_eq hst k)) r hr
      simp only [ElementRow.withValue, id]
      split
      · exact absurd ‹_› hr0
      · rfl
    rw [hsame] at hfr₁
    obtain ⟨w', r, hexec, hw', hh', hre, hrk, hfr'⟩ :=
      Access.exec_appendRow hw₁ hfr₁ (by rw [ht₁]; exact hh) (by omega) _ v (some k)
    simp only [hzero, beq_self_eq_true, if_true]
    refine ⟨w', hexec, hw', hh', hshape, _, hfr', ?_⟩
    simp only [PlainContainer.StoredIn, Plain.putChanged, Container.put, hl, Bool.false_eq_true,
      if_false, List.map_append, hst, List.map_cons, List.map_nil, ElementRow.item, hre, hrk]

theorem removeKey {s : Bool} {es : List (Value × Value)} (hd : Container.KeysNodup es)
    (hb : es.length ≤ Nat.pow 2 63) (k : Value) (ac : Bool) :
    Applies f (Operation.remove f.owner.object f.owner.field (.key k) ac) (.map s es)
      (.map s (Container.take es k).1) := by
  rintro w hw ⟨hh, hshape, rows, hfr, hst⟩
  simp only [PlainContainer.StoredIn] at hst
  have hlen : rows.length = es.length := by simpa using congrArg List.length hst
  simp only [Access.apply, Operation.remove, Access.exec_bind, Access.exec_member f.member_eq,
    f.container_eq, Access.exec_read, Access.keyPosition?_eq hfr]
  cases hfind : rows.find? (·.key == some k) with
  | none =>
    -- no row has the key, so no entry has it
    have hkept : ∀ e ∈ es, (e.1 != k) = true := by
      intro e he
      obtain ⟨r, hr, hri⟩ := List.mem_map.mp (hst ▸ List.mem_map_of_mem he :
        (e.2, some e.1) ∈ rows.map ElementRow.item)
      have hkey : r.key = some e.1 := congrArg Prod.snd hri
      have hne := List.find?_eq_none.mp hfind r hr
      simp only [hkey, beq_iff_eq, Option.some.injEq] at hne
      simpa using hne
    simp only [Option.map_none]
    refine ⟨_, rfl, hw, hh, hshape, rows, hfr, ?_⟩
    simp only [PlainContainer.StoredIn, Container.take, List.filter_eq_self.mpr hkept, hst]
  | some r =>
    -- the key's row goes, and the later rows move down
    obtain ⟨pre, post, rfl, -, hpos⟩ := hfr.find?_split hfind
    have hrk : r.key = some k := by simpa using List.find?_some hfind
    rw [List.map_append, List.map_cons] at hst
    obtain ⟨es₁, es₂', rfl, h₁, h₂'⟩ := List.map_eq_append_iff.mp hst.symm
    obtain ⟨e, es₂, rfl, he, h₂⟩ := List.map_eq_cons_iff.mp h₂'
    have hek : e.1 = k := by
      simpa [ElementRow.item, hrk] using congrArg Prod.snd he
    -- the key is nowhere else
    have hnd : ((es₁.map Prod.fst) ++ (e :: es₂).map Prod.fst).Nodup := by
      rw [← List.map_append]
      exact hd
    obtain ⟨-, hnd₂, hdisj⟩ := List.nodup_append.mp hnd
    rw [List.map_cons, List.nodup_cons] at hnd₂
    have hkept : ∀ l : List (Value × Value), k ∉ l.map Prod.fst → l.filter (·.1 != k) = l :=
      fun l hl => List.filter_eq_self.mpr fun a ha => by
        have hne : a.1 ≠ k := fun h => hl (h ▸ List.mem_map_of_mem ha)
        simpa using hne
    have hk₁ : k ∉ es₁.map Prod.fst := fun h => hdisj k h k (by simp [← hek]) rfl
    have hk₂ : k ∉ es₂.map Prod.fst := hek ▸ hnd₂.1
    have hw₁ : ({ w with touched := true } : Work).mayWrite = true := hw
    obtain ⟨w', hexec, hw', hh', hfr'⟩ :=
      Access.exec_removeAt hw₁ hfr (by rw [hlen]; exact hb)
    simp only [Option.map_some, hpos, Access.exec_bind, Access.exec_integer_int]
    refine ⟨w', hexec, hw', by rw [hh']; exact hh, hshape, _, hfr', ?_⟩
    simp only [PlainContainer.StoredIn, Container.take, List.filter_append, List.filter_cons,
      hkept es₁ hk₁, hkept es₂ hk₂, hek, bne_self_eq_false, Bool.false_eq_true, if_false,
      List.map_append, List.map_map, Function.comp_def, ElementRow.item_moved]
    rw [← h₁, ← h₂]

end Applies

/-! ## Loading the field -/

def PlainContainer.rowData : PlainContainer → FieldData
  | .collection _ xs => .collection xs
  | .map _ es => .map es
  | .single v => .scalar v

theorem exec_entriesOf {rows : List ElementRow} {es : List (Value × Value)}
    (hst : rows.map ElementRow.item = es.map fun e => (e.2, some e.1)) (field : Nat) (w : Work) :
    (Access.entriesOf field rows).exec w = (.ok es, w) := by
  induction rows generalizing es with
  | nil =>
    obtain rfl : es = [] := List.map_eq_nil_iff.mp hst.symm
    rfl
  | cons r rows ih =>
    obtain ⟨e, es, rfl, he, hrest⟩ := List.map_eq_cons_iff.mp hst.symm
    have hkey : r.key = some e.1 := (congrArg Prod.snd he).symm
    have hel : r.element = e.2 := (congrArg Prod.fst he).symm
    unfold Access.entriesOf at ih ⊢
    rw [List.mapM_cons, Access.exec_bind]
    simp only [hkey, Access.exec_pure, Access.exec_bind, ih hrest.symm, hel]

theorem exec_load {f : StoredField} {w : Work} {pc : PlainContainer} (hs : Stored f w.tables pc) :
    ((Access.load f.owner.object f.cls [f.owner.field]).exec w).1 =
      .ok [(f.owner.field, pc.rowData)] := by
  obtain ⟨hh, hshape, rows, hfr, hst⟩ := hs
  have hnone : ((w.tables.header? f.owner.object).map
      fun r => (⟨r.id, r.cls, r.version⟩ : ObjectHeader)).isNone = false := by
    simpa using hh
  simp only [Access.load, Access.header?, Access.exec_bind, Access.exec_read, hnone,
    Bool.false_eq_true, if_false, List.mapM_cons, List.mapM_nil, Access.exec_member f.member_eq,
    FieldMeta.isMap, FieldMeta.isCollection, f.container_eq, Option.any_some, ← hshape]
  rcases pc with ⟨k, xs⟩ | ⟨sorted, es⟩ | v
  · simp only [PlainContainer.StoredIn] at hst
    cases k <;> simp [PlainContainer.shape, CollectionKind.shape, ContainerShape.isMap,
      ContainerShape.isCollection, Access.exec_map, hfr.rowsOf_eq, hst, PlainContainer.rowData]
  · simp only [PlainContainer.StoredIn] at hst
    cases sorted <;> simp [PlainContainer.shape, ContainerShape.isMap, Access.exec_bind,
      Access.exec_map, hfr.rowsOf_eq, exec_entriesOf hst, PlainContainer.rowData]
  · exact absurd hst id

/-! ## Replaying a queue -/

/-- Operations applied in turn, each as a unit of work on tables it may write: the tables
after them all, or the first failure. -/
def replay (c : ClassMeta) : List Operation → Tables → Except StorageError Tables
  | [], t => .ok t
  | op :: ops, t =>
    match (Access.apply op c).exec { tables := t, mayWrite := true } with
    | (.ok (), w) => replay c ops w.tables
    | (.error e, _) => .error e

theorem replay_append (c : ClassMeta) (ops ops' : List Operation) (t : Tables) :
    replay c (ops ++ ops') t = (replay c ops t).bind (replay c ops') := by
  induction ops generalizing t with
  | nil => rfl
  | cons op ops ih =>
    simp only [List.cons_append, replay]
    split
    · exact ih _
    · rfl

/-- Applying a queue from `t₀` succeeds and ends in `t`, and after each of its operations the
field's rows sit at consecutive positions. -/
structure Replays (f : StoredField) (t₀ : Tables) (ops : List Operation) (t : Tables) : Prop where
  ends : replay f.cls ops t₀ = .ok t
  contiguous : ∀ n ≤ ops.length, ∃ t', replay f.cls (ops.take n) t₀ = .ok t' ∧
    t'.Contiguous f.owner.object f.owner.field

theorem Replays.append {f : StoredField} {t₀ t t' : Tables} {ops ops' : List Operation}
    (h : Replays f t₀ ops t) (h' : Replays f t ops' t') : Replays f t₀ (ops ++ ops') t' := by
  refine ⟨by rw [replay_append, h.ends]; exact h'.ends, fun n hn => ?_⟩
  -- a prefix of both queues is a prefix of the first, or all of it and a prefix of the second
  rcases Nat.lt_or_ge ops.length n with hlt | hle
  · rw [List.length_append] at hn
    obtain ⟨t'', hr, hc⟩ := h'.contiguous (n - ops.length) (by omega)
    refine ⟨t'', ?_, hc⟩
    rw [List.take_append, List.take_of_length_le hlt.le, replay_append, h.ends]
    exact hr
  · rw [List.take_append_of_le_length hle]
    exact h.contiguous n hle

theorem Replays.single {f : StoredField} {t : Tables} {op : Operation} {w' : Work}
    (hc : t.Contiguous f.owner.object f.owner.field)
    (hexec : (Access.apply op f.cls).exec { tables := t, mayWrite := true } = (.ok (), w'))
    (hc' : w'.tables.Contiguous f.owner.object f.owner.field) : Replays f t [op] w'.tables := by
  have hend : replay f.cls [op] t = .ok w'.tables := by
    show (match (Access.apply op f.cls).exec { tables := t, mayWrite := true } with
      | (.ok (), w) => replay f.cls [] w.tables
      | (.error e, _) => .error e) = _
    rw [hexec]
    rfl
  refine ⟨hend, fun n hn => ?_⟩
  -- the only prefixes are the empty one and the operation itself
  rcases n with _ | n
  · exact ⟨t, rfl, hc⟩
  · obtain rfl : n = 0 := by simp at hn; omega
    exact ⟨_, hend, hc'⟩

theorem Stored.contiguous {f : StoredField} {t : Tables} {pc : PlainContainer} (hs : Stored f t pc) :
    t.Contiguous f.owner.object f.owner.field := by
  obtain ⟨rows, hfr, -⟩ := hs.rows
  exact hfr.contiguous

def PlainContainer.size : PlainContainer → Nat
  | .collection _ xs => xs.length
  | .map _ es => es.length
  | .single _ => 1

/-- The queue `ops` replayed from `t₀` stores `pc`, as long as `n₀` rows and one row for each
operation fit the positions. -/
def Tracks (f : StoredField) (t₀ : Tables) (n₀ : Nat) (ops : List Operation)
    (pc : PlainContainer) : Prop :=
  n₀ + ops.length ≤ Nat.pow 2 63 →
    ∃ t, Replays f t₀ ops t ∧ Stored f t pc ∧ pc.size ≤ n₀ + ops.length

namespace Tracks

variable {f : StoredField} {t₀ : Tables} {n₀ : Nat}

theorem nil {pc : PlainContainer} (hs : Stored f t₀ pc) (hn : pc.size ≤ n₀) :
    Tracks f t₀ n₀ [] pc := by
  intro _
  exact ⟨t₀, ⟨rfl, fun n _ => ⟨t₀, by simp [replay], hs.contiguous⟩⟩, hs, by simpa using hn⟩

theorem append {ops ops' : List Operation} {pc pc' : PlainContainer} (ht : Tracks f t₀ n₀ ops pc)
    (ht' : ∀ t, Replays f t₀ ops t → Stored f t pc → pc.size ≤ n₀ + ops.length →
      Tracks f t (n₀ + ops.length) ops' pc') :
    Tracks f t₀ n₀ (ops ++ ops') pc' := by
  intro hb
  rw [List.length_append] at hb
  obtain ⟨t, hr, hs, hn⟩ := ht (by omega)
  obtain ⟨t', hr', hs', hn'⟩ := ht' t hr hs hn (by omega)
  exact ⟨t', hr.append hr', hs', by rw [List.length_append]; omega⟩

/-- A queue that stores `pc`, followed by an operation that takes `pc` to `pc'` without
growing it by more than one item, stores `pc'`. -/
theorem snoc {ops : List Operation} {op : Operation} {pc pc' : PlainContainer}
    (ht : Tracks f t₀ n₀ ops pc) (hop : pc.size < Nat.pow 2 63 → Applies f op pc pc')
    (hsize : pc'.size ≤ pc.size + 1) : Tracks f t₀ n₀ (ops ++ [op]) pc' := by
  refine ht.append fun t _ hs hn hb => ?_
  rw [List.length_singleton] at hb
  obtain ⟨w', hexec, -, hs'⟩ := hop (by omega) { tables := t, mayWrite := true } rfl hs
  exact ⟨w'.tables, .single hs.contiguous hexec hs'.contiguous, hs', by simp; omega⟩

end Tracks

end ObjectPersistence
