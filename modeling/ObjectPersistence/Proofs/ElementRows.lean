import Mathlib
import ObjectPersistence.Datastore.Records

/-! # The rows of a container field

A collection or a map is stored as one row per element, each at a position of its field, and
it is read in position order. When a field's rows sit at the positions `0, 1, ..., n - 1`,
each statement that changes them acts on the rows read in order as a list operation:

* adding a row at position `n` appends it;
* deleting the row at a position and moving the later rows down erases at that index;
* moving the rows from an index up and adding a row there inserts at that index;
* giving the rows of a key a new value maps over the list;

and the rows stay at consecutive positions. `FieldRows` says what the rows of a field are, in
order; `FieldRows.rowsOf_eq` reads them back through `Tables.rowsOf`. -/

namespace ObjectPersistence.Datastore

def ElementRow.item (r : ElementRow) : Value × Option Value := (r.element, r.key)

def ElementRow.moved (delta : Int) (r : ElementRow) : ElementRow :=
  { r with position := r.position.advance delta }

@[simp] theorem ElementRow.item_moved (delta : Int) (r : ElementRow) :
    (r.moved delta).item = r.item := rfl

@[simp] theorem ElementRow.element_moved (delta : Int) (r : ElementRow) :
    (r.moved delta).element = r.element := rfl

@[simp] theorem ElementRow.inField_moved (id : ObjectId) (field : Nat) (delta : Int)
    (r : ElementRow) : (r.moved delta).inField id field = r.inField id field := rfl

theorem IntCell.advance_int {n delta : Int}
    (h : -(Nat.pow 2 63 : Int) ≤ n + delta ∧ n + delta < (Nat.pow 2 63 : Int)) :
    (IntCell.int n).advance delta = .int (n + delta) := by
  have hfits : IntCell.fits (n + delta) = true := by
    simp only [IntCell.fits, Bool.and_eq_true, decide_eq_true_eq]
    exact h
  simp only [IntCell.advance, hfits, if_true]

def Numbered (k : Nat) (rows : List ElementRow) : Prop :=
  rows.map (·.position) = (List.range' k rows.length).map fun n : Nat => IntCell.int n

/-- The rows of a field in position order: all the rows the field has, at the positions
`0, 1, ...`. -/
structure FieldRows (t : Tables) (id : ObjectId) (field : Nat) (rows : List ElementRow) :
    Prop where
  perm : (t.elements.filter (ElementRow.inField id field)).Perm rows
  numbered : Numbered 0 rows

def Tables.Contiguous (t : Tables) (id : ObjectId) (field : Nat) : Prop :=
  Numbered 0 (t.rowsOf id field)

namespace Numbered

theorem nil (k : Nat) : Numbered k [] := rfl

theorem cons_iff {k : Nat} {r : ElementRow} {rows : List ElementRow} :
    Numbered k (r :: rows) ↔ r.position = .int k ∧ Numbered (k + 1) rows := by
  simp [Numbered, List.range'_succ]

theorem append_iff {k : Nat} {l₁ l₂ : List ElementRow} :
    Numbered k (l₁ ++ l₂) ↔ Numbered k l₁ ∧ Numbered (k + l₁.length) l₂ := by
  induction l₁ generalizing k with
  | nil => simp [nil]
  | cons r l ih =>
    rw [List.cons_append, cons_iff, cons_iff, ih, List.length_cons, and_assoc,
      show k + 1 + l.length = k + (l.length + 1) by omega]

variable {k : Nat} {rows : List ElementRow}

theorem position_of_mem (h : Numbered k rows) {r : ElementRow} (hr : r ∈ rows) :
    ∃ n : Nat, r.position = .int n ∧ k ≤ n ∧ n < k + rows.length := by
  induction rows generalizing k with
  | nil => cases hr
  | cons x rest ih =>
    obtain ⟨hx, hrest⟩ := cons_iff.mp h
    rcases List.mem_cons.mp hr with rfl | hr
    · exact ⟨k, hx, le_rfl, by simp⟩
    · obtain ⟨n, hn, hk, hlt⟩ := ih hrest hr
      exact ⟨n, hn, by omega, by simp; omega⟩

theorem pairwise_lt (h : Numbered k rows) :
    rows.Pairwise fun a b => a.position.value < b.position.value := by
  induction rows generalizing k with
  | nil => exact .nil
  | cons x rest ih =>
    obtain ⟨hx, hrest⟩ := cons_iff.mp h
    refine List.pairwise_cons.mpr ⟨fun r hr => ?_, ih hrest⟩
    obtain ⟨n, hn, hk, -⟩ := position_of_mem hrest hr
    rw [hx, hn]
    simp only [IntCell.value]
    omega

theorem eq_of_value_eq (h : Numbered k rows) {a b : ElementRow} (ha : a ∈ rows) (hb : b ∈ rows)
    (hab : a.position.value = b.position.value) : a = b := by
  have hnodup : (rows.map (·.position)).Nodup := by
    rw [h]
    exact (List.nodup_range' ..).map fun m n hmn => by simpa using hmn
  refine List.inj_on_of_nodup_map hnodup ha hb ?_
  obtain ⟨m, hm, -⟩ := position_of_mem h ha
  obtain ⟨n, hn, -⟩ := position_of_mem h hb
  rw [hm, hn] at hab ⊢
  simp only [IntCell.value, Nat.cast_inj] at hab
  rw [hab]

theorem filter_position_ne (h : Numbered k rows) {p : Int} (hp : p < k ∨ k + rows.length ≤ p) :
    rows.filter (fun r => !(r.position.value == p)) = rows := by
  refine List.filter_eq_self.mpr fun r hr => ?_
  obtain ⟨n, hn, hk, hlt⟩ := position_of_mem h hr
  rw [hn]
  simp only [IntCell.value, Bool.not_eq_true', beq_eq_false_iff_ne, ne_eq]
  omega

/-- Moving rows by a condition on their position moves all of them when the numbering lies
inside it, and none when it lies outside. -/
theorem map_moved_of_all (h : Numbered k rows) (moves : Int → Bool) (delta : Int)
    (hall : ∀ n : Nat, k ≤ n → n < k + rows.length → moves n) :
    rows.map (fun r => if moves r.position.value then r.moved delta else r) =
      rows.map (ElementRow.moved delta) := by
  refine List.map_congr_left fun r hr => ?_
  obtain ⟨n, hn, hk, hlt⟩ := position_of_mem h hr
  rw [hn]
  simp [IntCell.value, hall n hk hlt]

theorem map_moved_of_none (h : Numbered k rows) (moves : Int → Bool) (delta : Int)
    (hnone : ∀ n : Nat, k ≤ n → n < k + rows.length → moves n = false) :
    rows.map (fun r => if moves r.position.value then r.moved delta else r) = rows := by
  refine (List.map_congr_left fun r hr => ?_).trans (List.map_id rows)
  obtain ⟨n, hn, hk, hlt⟩ := position_of_mem h hr
  rw [hn]
  simp [IntCell.value, hnone n hk hlt]

/-- Moving numbered rows by `delta` numbers them from `k'` when `k' = k + delta`, as long as
the new positions stay in the range of a position cell. -/
theorem moved (h : Numbered k rows) {k' : Nat} {delta : Int} (hk : (k' : Int) = k + delta)
    (hb : k' + rows.length ≤ Nat.pow 2 63) : Numbered k' (rows.map (ElementRow.moved delta)) := by
  induction rows generalizing k k' with
  | nil => exact nil _
  | cons x rest ih =>
    obtain ⟨hx, hrest⟩ := cons_iff.mp h
    simp only [List.length_cons] at hb
    refine cons_iff.mpr ⟨?_, ih hrest (by push_cast; omega) (by omega)⟩
    simp only [ElementRow.moved, hx]
    rw [IntCell.advance_int ⟨by omega, by omega⟩, hk]

theorem moved_up (h : Numbered k rows) (hb : k + rows.length < Nat.pow 2 63) :
    Numbered (k + 1) (rows.map (ElementRow.moved 1)) :=
  h.moved (by push_cast; rfl) (by omega)

theorem moved_down (h : Numbered (k + 1) rows) (hb : k + 1 + rows.length ≤ Nat.pow 2 63) :
    Numbered k (rows.map (ElementRow.moved (-1))) :=
  h.moved (by push_cast; ring) (by omega)

end Numbered

/-! ## Statements on the rows of one field -/

def ElementRow.withValue (key v : Value) (r : ElementRow) : ElementRow :=
  if r.key == some key then { r with element := v } else r

namespace Tables

variable (t : Tables) (id : ObjectId) (field : Nat)

theorem filter_map_inField {f : ElementRow → ElementRow}
    (hf : ∀ r, (f r).inField id field = r.inField id field) (rows : List ElementRow) :
    (rows.map f).filter (ElementRow.inField id field) =
      (rows.filter (ElementRow.inField id field)).map f := by
  rw [List.filter_map]
  congr 1
  exact List.filter_congr fun r _ => hf r

theorem filter_shift (moves : Int → Bool) (delta : Int) :
    (t.shift id field moves delta).1.elements.filter (ElementRow.inField id field) =
      (t.elements.filter (ElementRow.inField id field)).map
        fun r => if moves r.position.value then r.moved delta else r := by
  simp only [shift]
  rw [filter_map_inField]
  · refine List.map_congr_left fun r hr => ?_
    simp [(List.mem_filter.mp hr).2, ElementRow.moved]
  · intro r
    split <;> rfl

theorem filter_deleteAt (p : Int) :
    (t.deleteAt id field p).1.elements.filter (ElementRow.inField id field) =
      (t.elements.filter (ElementRow.inField id field)).filter
        fun r => !(r.position.value == p) := by
  simp only [deleteAt, List.filter_filter]
  congr 1
  funext r
  cases ElementRow.inField id field r <;> simp

theorem deleteAt_count (p : Int) :
    (t.deleteAt id field p).2 =
      (t.elements.filter (ElementRow.inField id field)).countP fun r => r.position.value == p := by
  simp only [deleteAt, List.countP_filter]
  congr 1
  funext r
  exact Bool.and_comm ..

theorem filter_setEntry (key v : Value) :
    (t.setEntry id field key v).1.elements.filter (ElementRow.inField id field) =
      (t.elements.filter (ElementRow.inField id field)).map (ElementRow.withValue key v) := by
  simp only [setEntry]
  rw [filter_map_inField]
  · refine List.map_congr_left fun r hr => ?_
    simp [(List.mem_filter.mp hr).2, ElementRow.withValue]
  · intro r
    split <;> rfl

theorem setEntry_count (key v : Value) :
    (t.setEntry id field key v).2 =
      (t.elements.filter (ElementRow.inField id field)).countP fun r => r.key == some key := by
  simp only [setEntry, List.countP_filter]
  congr 1
  funext r
  exact Bool.and_comm ..

def newRow (position : IntCell) (element : Value) (key : Option Value) : ElementRow :=
  ⟨t.nextRowid, id, field, position, element, key⟩

theorem insertElement_eq (h : (t.header? id).isSome) (position : IntCell) (element : Value)
    (key : Option Value) :
    t.insertElement id field position element key =
      .ok ({ t with elements := t.elements ++ [t.newRow id field position element key] }, 1) := by
  obtain ⟨r, hr⟩ := Option.isSome_iff_exists.mp h
  simp [insertElement, hr, newRow]

theorem filter_insertElement (position : IntCell) (element : Value) (key : Option Value) :
    (t.elements ++ [t.newRow id field position element key]).filter (ElementRow.inField id field) =
      t.elements.filter (ElementRow.inField id field) ++ [t.newRow id field position element key] := by
  simp [List.filter_append, newRow, ElementRow.inField]

end Tables

/-! ## A field's rows in position order -/

namespace FieldRows

variable {t : Tables} {id : ObjectId} {field : Nat} {rows : List ElementRow}

theorem rowsOf_eq (h : FieldRows t id field rows) : t.rowsOf id field = rows := by
  -- both lists are sorted by position, and positions tell numbered rows apart
  have hsorted : ((t.elements.filter (ElementRow.inField id field)).mergeSort fun a b =>
      decide (a.position.value ≤ b.position.value)).Pairwise
        fun a b => decide (a.position.value ≤ b.position.value) = true :=
    List.pairwise_mergeSort
      (fun a b c hab hbc => by simp only [decide_eq_true_eq] at *; omega)
      (fun a b => by simp only [Bool.or_eq_true, decide_eq_true_eq]; omega) _
  have hperm : ((t.elements.filter (ElementRow.inField id field)).mergeSort fun a b =>
      decide (a.position.value ≤ b.position.value)).Perm rows :=
    (List.mergeSort_perm _ _).trans h.perm
  refine List.Perm.eq_of_pairwise (fun a b ha hb hab hba => ?_) hsorted
    (h.numbered.pairwise_lt.imp fun hlt => by simp only [decide_eq_true_eq]; omega) hperm
  simp only [decide_eq_true_eq] at hab hba
  exact h.numbered.eq_of_value_eq (hperm.subset ha) hb (by omega)

theorem contiguous (h : FieldRows t id field rows) : t.Contiguous id field := by
  rw [Tables.Contiguous, h.rowsOf_eq]
  exact h.numbered

theorem of_contiguous (h : t.Contiguous id field) : FieldRows t id field (t.rowsOf id field) :=
  ⟨(List.mergeSort_perm _ _).symm, h⟩

theorem nextPosition_eq (h : FieldRows t id field rows) (hb : rows.length < Nat.pow 2 63) :
    t.nextPosition id field = .int rows.length := by
  unfold Tables.nextPosition
  rw [h.rowsOf_eq]
  rcases List.eq_nil_or_concat' rows with rfl | ⟨init, last, rfl⟩
  · rfl
  · obtain ⟨-, hlast⟩ := Numbered.append_iff.mp h.numbered
    have hpos : last.position = .int init.length := by simpa using (Numbered.cons_iff.mp hlast).1
    simp only [List.length_append, List.length_singleton] at hb
    rw [List.getLast?_concat]
    simp only [hpos]
    rw [IntCell.advance_int ⟨by omega, by omega⟩]
    simp

theorem find?_split (h : FieldRows t id field rows) {p : ElementRow → Bool} {r : ElementRow}
    (hf : rows.find? p = some r) :
    ∃ pre post, rows = pre ++ r :: post ∧ (∀ a ∈ pre, p a = false) ∧
      r.position = .int pre.length := by
  obtain ⟨-, pre, post, rfl, hpre⟩ := List.find?_eq_some_iff_append.mp hf
  obtain ⟨-, hr⟩ := Numbered.append_iff.mp h.numbered
  refine ⟨pre, post, rfl, fun a ha => by simpa using hpre a ha, ?_⟩
  simpa using (Numbered.cons_iff.mp hr).1

theorem append (h : FieldRows t id field rows) (hh : (t.header? id).isSome) (e : Value)
    (key : Option Value) :
    ∃ t', t.insertElement id field (.int rows.length) e key = .ok (t', 1) ∧
      (t'.header? id).isSome ∧
      FieldRows t' id field (rows ++ [t.newRow id field (.int rows.length) e key]) := by
  refine ⟨_, t.insertElement_eq id field hh _ e key, hh, ?_, ?_⟩
  · rw [Tables.filter_insertElement]
    exact h.perm.append_right _
  · refine Numbered.append_iff.mpr ⟨h.numbered, Numbered.cons_iff.mpr ⟨?_, Numbered.nil _⟩⟩
    simp [Tables.newRow]

theorem closeGap {pre post : List ElementRow} {r : ElementRow}
    (h : FieldRows t id field (pre ++ r :: post))
    (hb : (pre ++ r :: post).length ≤ Nat.pow 2 63) :
    0 < (t.deleteAt id field pre.length).2 ∧
      FieldRows ((t.deleteAt id field pre.length).1.shift id field (· > (pre.length : Int)) (-1)).1
        id field (pre ++ post.map (ElementRow.moved (-1))) := by
  obtain ⟨hpre, hrest⟩ := Numbered.append_iff.mp h.numbered
  obtain ⟨hr, hpost⟩ := Numbered.cons_iff.mp hrest
  simp only [Nat.zero_add] at hr hpost
  simp only [List.length_append, List.length_cons] at hb
  have hr_pos : r.position.value = pre.length := by rw [hr]; rfl
  -- the deletion leaves exactly the rows before and after the index
  have hleft : ((pre ++ r :: post).filter fun a => !(a.position.value == (pre.length : Int))) =
      pre ++ post := by
    rw [List.filter_append, List.filter_cons, hpre.filter_position_ne (by simp),
      hpost.filter_position_ne (by omega)]
    simp [hr_pos]
  refine ⟨?_, ⟨?_, ?_⟩⟩
  · rw [Tables.deleteAt_count, h.perm.countP_eq, List.countP_pos_iff]
    exact ⟨r, by simp, by simp [hr_pos]⟩
  · rw [Tables.filter_shift, Tables.filter_deleteAt]
    refine ((h.perm.filter _).trans (List.Perm.of_eq hleft)).map _ |>.trans (List.Perm.of_eq ?_)
    rw [List.map_append, hpre.map_moved_of_none (· > (pre.length : Int)) _ (fun n _ hn => by simp; omega),
      hpost.map_moved_of_all (· > (pre.length : Int)) _ (fun n hn _ => by simp; omega)]
  · exact Numbered.append_iff.mpr ⟨hpre, by simpa using hpost.moved_down (by omega)⟩

theorem openGap (h : FieldRows t id field rows) (hh : (t.header? id).isSome) {i : Nat}
    (hi : i ≤ rows.length) (hb : rows.length < Nat.pow 2 63) (e : Value) (key : Option Value) :
    ∃ t' r, (t.shift id field (· ≥ (i : Int)) 1).1.insertElement id field (.int i) e key =
        .ok (t', 1) ∧ (t'.header? id).isSome ∧ r.element = e ∧ r.key = key ∧
      FieldRows t' id field (rows.take i ++ r :: (rows.drop i).map (ElementRow.moved 1)) := by
  set u := (t.shift id field (· ≥ (i : Int)) 1).1
  have hu : u.header? id = t.header? id := rfl
  obtain ⟨htake, hdrop⟩ := Numbered.append_iff.mp ((List.take_append_drop i rows).symm ▸ h.numbered)
  have hlen : (rows.take i).length = i := List.length_take_of_le hi
  rw [hlen, Nat.zero_add] at hdrop
  have hdrop_len : (rows.drop i).length = rows.length - i := List.length_drop
  refine ⟨_, u.newRow id field (.int i) e key, u.insertElement_eq id field (hu ▸ hh) _ e key,
    hu ▸ hh, rfl, rfl, ?_, ?_⟩
  · -- the moved rows are those from the index on; the new row goes between
    rw [Tables.filter_insertElement, Tables.filter_shift]
    refine ((h.perm.map _).append_right _).trans ?_
    conv_lhs => rw [← List.take_append_drop i rows]
    rw [List.map_append, htake.map_moved_of_none (· ≥ (i : Int)) _ (fun n _ hn => by simp; omega),
      hdrop.map_moved_of_all (· ≥ (i : Int)) _ (fun n hn _ => by simp; omega), List.append_assoc]
    exact (List.perm_append_singleton _ _).append_left _
  · refine Numbered.append_iff.mpr ⟨htake, ?_⟩
    rw [hlen, Nat.zero_add]
    refine Numbered.cons_iff.mpr ⟨by simp [Tables.newRow], ?_⟩
    exact hdrop.moved_up (by omega)

theorem setEntry (h : FieldRows t id field rows) (key v : Value) :
    (t.setEntry id field key v).2 = rows.countP (fun r => r.key == some key) ∧
      FieldRows (t.setEntry id field key v).1 id field (rows.map (ElementRow.withValue key v)) := by
  refine ⟨by rw [Tables.setEntry_count, h.perm.countP_eq], ?_, ?_⟩
  · rw [Tables.filter_setEntry]
    exact h.perm.map _
  · have hpos : (rows.map (ElementRow.withValue key v)).map (·.position) = rows.map (·.position) := by
      rw [List.map_map]
      refine List.map_congr_left fun r _ => ?_
      simp only [Function.comp, ElementRow.withValue]
      split <;> rfl
    rw [Numbered, hpos, List.length_map]
    exact h.numbered

end FieldRows

end ObjectPersistence.Datastore
