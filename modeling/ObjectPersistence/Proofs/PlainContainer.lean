import Mathlib
import ObjectPersistence.Proofs.ValueOrder
import ObjectPersistence.Wrapper.Mutation

/-! # Plain containers

The standard containers a wrapper's content stands for: a set that keeps its elements in
the order they came and closes the gap when one leaves, a sorted set, a vector whose
removal drops the first equal element, a sorted multiset, a map that keeps its keys in the
order they came and closes the gap when one leaves, a sorted map, and a single value. Every
container here keeps its elements, or its entries, in the order they came, and removes and
puts as a list and an insertion-ordered map do; a sorted container is read in value order,
whatever order its elements came in, by sorting them when it is read.

Beside the container stand the calls a wrapper takes and the faults that refuse them. A
call that does not fit the container's shape is refused first, then a call that changes a
container no longer bound to its field, then an index out of range, then a null the
container does not take. The calls that change nothing (reading a list position, unbinding)
are never refused for the binding.

The second half of the module shows how a container reads after each plain operation: a
sorted kind read after an addition, a removal or a filter is the sorted form read before it
with the same change, and a sorted map read after a put or a take is the map read before it
with the same change, as long as each key occurs once. -/

namespace ObjectPersistence

namespace CollectionKind

def unique : CollectionKind → Bool
  | .set | .sortedSet => true
  | _ => false

def sorted : CollectionKind → Bool
  | .sortedSet | .orderedList => true
  | _ => false

def view (k : CollectionKind) (xs : List Value) : List Value :=
  if k.sorted then Value.sort xs else xs

end CollectionKind

def foldSteps {σ α} (step : σ → α → σ × Bool) : σ → List α → σ × Bool
  | s, [] => (s, false)
  | s, a :: as =>
    let r := step s a
    let t := foldSteps step r.1 as
    (t.1, r.2 || t.2)

namespace Plain

def insert (k : CollectionKind) (xs : List Value) (e : Value) : List Value × Bool :=
  if k.unique && xs.contains e then (xs, false) else (xs ++ [e], true)

def byKey (es : List (Value × Value)) : List (Value × Value) :=
  es.mergeSort fun a b => Value.le a.1 b.1

def viewMap (sorted : Bool) (es : List (Value × Value)) : List (Value × Value) :=
  if sorted then byKey es else es

/-- Puts an entry into a map that keeps its keys in the order they came; tells whether the
map changed. -/
def putChanged (es : List (Value × Value)) (kv : Value × Value) :
    List (Value × Value) × Bool :=
  let r := Container.put false es kv.1 kv.2
  (r.1, r.2 != some kv.2)

end Plain

/-- A plain container, its elements or entries in the order they came. -/
inductive PlainContainer where
  | collection (kind : CollectionKind) (items : List Value)
  | map (sorted : Bool) (entries : List (Value × Value))
  | single (v : Value)
  deriving DecidableEq, Repr

namespace PlainContainer

def content : PlainContainer → FieldData
  | collection k xs => .collection (k.view xs)
  | map s es => .map (Plain.viewMap s es)
  | single v => .scalar v

/-- The container of a shape built from initial data by adding its elements, or putting its
entries, in turn; no data, or a null, makes it empty. -/
def ofData (shape : ContainerShape) (data : Option FieldData) : PlainContainer :=
  let items := match data with
    | some (.collection xs) => xs
    | _ => []
  let entries := match data with
    | some (.map es) => es
    | _ => []
  let coll (k : CollectionKind) := collection k (foldSteps (Plain.insert k) [] items).1
  match shape with
  | .set => coll .set
  | .sortedSet => coll .sortedSet
  | .list => coll .list
  | .orderedList => coll .orderedList
  | .map => map false (foldSteps Plain.putChanged [] entries).1
  | .sortedMap => map true (foldSteps Plain.putChanged [] entries).1
  | .scalarMutable =>
    match data with
    | some (.scalar v) => single v
    | _ => single .null

end PlainContainer

/-- A call a wrapper takes. -/
inductive ScoCall where
  | add (e : Value)
  | addAll (es : List Value)
  | remove (e : Value) (cascade : Bool)
  | removeAll (es : List Value)
  | retainAll (keep : List Value)
  | clear
  | insertAt (i : Nat) (e : Value)
  | setAt (i : Nat) (e : Value) (cascade : Bool)
  | removeAt (i : Nat)
  | get (i : Nat)
  | put (k v : Value)
  | putAll (kvs : List (Value × Value))
  | removeKey (k : Value)
  | retainKeys (keep : List Value)
  | setScalar (v : Value)
  | unsetOwner
  deriving DecidableEq, Repr

/-- What a call answers. -/
inductive Answer where
  | done
  | flag (b : Bool)
  | value (v : Value)
  | found (v : Option Value)
  deriving DecidableEq, Repr

/-- Why a call is refused. -/
inductive Fault where
  | shapeMismatch
  | unbound
  | indexOutOfBounds (index len : Nat)
  | nullElement
  | nullKey
  deriving DecidableEq, Repr

def Fault.Reports : Fault → EngineError → Prop
  | .shapeMismatch, e => ∃ expected found, e = .shapeMismatch expected found
  | .unbound, e => e = .unbound
  | .indexOutOfBounds i n, e => e = .indexOutOfBounds i n
  | .nullElement, e => e = .invalidElement .nullElement
  | .nullKey, e => e = .invalidElement .nullKey

def Fault.toError : Fault → EngineError
  | .shapeMismatch => .shapeMismatch "" ""
  | .unbound => .unbound
  | .indexOutOfBounds i n => .indexOutOfBounds i n
  | .nullElement => .invalidElement .nullElement
  | .nullKey => .invalidElement .nullKey

theorem Fault.reports_toError (f : Fault) : f.Reports f.toError := by
  cases f
  · exact ⟨_, _, rfl⟩
  all_goals rfl

/-- A wrapper's result agrees with the plain container's: the same answer, or an error
reporting the same fault. -/
def Agrees : Except EngineError Answer → Except Fault Answer → Prop
  | .ok a, .ok b => a = b
  | .error e, .error f => f.Reports e
  | _, _ => False

/-- A plain container and what a wrapper checks beside it: whether it is still bound to its
field, and whether its policy takes nulls. -/
structure PlainState where
  container : PlainContainer
  bound : Bool
  allowNulls : Bool
  deriving DecidableEq, Repr

namespace ScoCall

/-- Whether a call applies to a container of this kind. -/
def fits : ScoCall → PlainContainer → Bool
  | .add _, .collection .. | .addAll _, .collection .. | .remove .., .collection ..
  | .removeAll _, .collection .. | .retainAll _, .collection .. => true
  | .clear, .collection .. | .clear, .map .. => true
  | .insertAt .., .collection .list _ | .setAt .., .collection .list _
  | .removeAt _, .collection .list _ | .get _, .collection .list _ => true
  | .put .., .map .. | .putAll _, .map .. | .removeKey _, .map .. | .retainKeys _, .map .. => true
  | .setScalar _, .single _ => true
  | .unsetOwner, _ => true
  | _, _ => false

def needsOwner : ScoCall → Bool
  | .get _ | .unsetOwner => false
  | _ => true

def nullFault (allowNulls : Bool) (e : Value) : Option Fault :=
  if e.isNull && !allowNulls then some .nullElement else none

def entryFault (allowNulls : Bool) (k v : Value) : Option Fault :=
  if k.isNull then some .nullKey else nullFault allowNulls v

/-- What is wrong with a call's arguments: an index out of range before a refused element,
and the first refused element of a batch. -/
def argumentFault (allowNulls : Bool) : ScoCall → PlainContainer → Option Fault
  | .add e, _ => nullFault allowNulls e
  | .addAll es, _ => es.findSome? (nullFault allowNulls)
  | .insertAt i e, .collection _ xs =>
    if xs.length < i then some (.indexOutOfBounds i xs.length) else nullFault allowNulls e
  | .setAt i e _, .collection _ xs =>
    if xs.length ≤ i then some (.indexOutOfBounds i xs.length) else nullFault allowNulls e
  | .removeAt i, .collection _ xs =>
    if xs.length ≤ i then some (.indexOutOfBounds i xs.length) else none
  | .put k v, _ => entryFault allowNulls k v
  | .putAll kvs, _ => kvs.findSome? fun kv => entryFault allowNulls kv.1 kv.2
  | .setScalar v, _ => nullFault allowNulls v
  | _, _ => none

end ScoCall

namespace PlainContainer

/-- A call on a container it fits, with valid arguments: the container after it and the
answer. Removing from an empty batch answers that it succeeded. -/
def apply : PlainContainer → ScoCall → PlainContainer × Answer
  | collection k xs, .add e =>
    let r := Plain.insert k xs e
    (collection k r.1, .flag r.2)
  | collection k xs, .addAll es =>
    let r := foldSteps (Plain.insert k) xs es
    (collection k r.1, .flag r.2)
  | collection k xs, .remove e _ =>
    let r := Container.removeFirst xs e
    (collection k r.1, .flag r.2)
  | collection k xs, .removeAll es =>
    let r := foldSteps Container.removeFirst xs es
    (collection k r.1, .flag (es.isEmpty || r.2))
  | collection k xs, .retainAll keep =>
    (collection k (xs.filter keep.contains), .flag (xs.any fun x => !keep.contains x))
  | collection k _, .clear => (collection k [], .done)
  | map s _, .clear => (map s [], .done)
  | collection k xs, .insertAt i e => (collection k (xs.insertIdx i e), .done)
  | collection k xs, .setAt i e _ => (collection k (xs.set i e), .value (xs.getD i .null))
  | collection k xs, .removeAt i => (collection k (xs.eraseIdx i), .value (xs.getD i .null))
  | collection k xs, .get i => (collection k xs, .found xs[i]?)
  | map s es, .put k v =>
    let r := Container.put false es k v
    (map s r.1, .found r.2)
  | map s es, .putAll kvs =>
    let r := foldSteps Plain.putChanged es kvs
    (map s r.1, .flag r.2)
  | map s es, .removeKey k =>
    let r := Container.take es k
    (map s r.1, .found r.2)
  | map s es, .retainKeys keep =>
    (map s (es.filter fun e => keep.contains e.1), .flag (es.any fun e => !keep.contains e.1))
  | single v, .setScalar v' => (single v', .value v)
  | c, _ => (c, .done)

end PlainContainer

namespace PlainState

def ofData (shape : ContainerShape) (policy : ContainerPolicy) (data : Option FieldData) :
    PlainState :=
  { container := PlainContainer.ofData shape data, bound := true,
    allowNulls := policy.allowNulls }

def fault (s : PlainState) (c : ScoCall) : Option Fault :=
  if !c.fits s.container then some .shapeMismatch
  else if c.needsOwner && !s.bound then some .unbound
  else c.argumentFault s.allowNulls s.container

/-- A call: refused with its fault, leaving everything as it was, or carried out. -/
def perform (s : PlainState) (c : ScoCall) : PlainState × Except Fault Answer :=
  match s.fault c with
  | some f => (s, .error f)
  | none =>
    match c with
    | .unsetOwner => ({ s with bound := false }, .ok .done)
    | _ =>
      let r := s.container.apply c
      ({ s with container := r.1 }, .ok r.2)

def runAll : PlainState → List ScoCall → PlainState × List (Except Fault Answer)
  | s, [] => (s, [])
  | s, c :: cs =>
    let r := s.perform c
    let t := runAll r.1 cs
    (t.1, r.2 :: t.2)

end PlainState

/-! ## Folds -/

@[simp] theorem foldSteps_nil {σ α} (step : σ → α → σ × Bool) (s : σ) :
    foldSteps step s [] = (s, false) := rfl

@[simp] theorem foldSteps_cons {σ α} (step : σ → α → σ × Bool) (s : σ) (a : α) (as : List α) :
    foldSteps step s (a :: as) =
      ((foldSteps step (step s a).1 as).1, (step s a).2 || (foldSteps step (step s a).1 as).2) :=
  rfl

/-! ## Reading a collection -/

namespace CollectionKind

theorem view_perm (k : CollectionKind) (xs : List Value) : (k.view xs).Perm xs := by
  unfold view
  split
  · exact Value.sort_perm xs
  · exact List.Perm.refl xs

theorem contains_view (k : CollectionKind) (xs : List Value) (e : Value) :
    (k.view xs).contains e = xs.contains e :=
  (k.view_perm xs).contains_eq

@[simp] theorem view_nil (k : CollectionKind) : k.view [] = [] := by
  simp [view, Value.sort]

@[simp] theorem view_list (xs : List Value) : CollectionKind.list.view xs = xs := rfl

theorem view_erase (k : CollectionKind) (xs : List Value) (e : Value) :
    k.view (xs.erase e) = (k.view xs).erase e := by
  unfold view
  split
  · exact Value.sort_erase xs e
  · rfl

theorem view_filter (k : CollectionKind) (xs : List Value) (p : Value → Bool) :
    k.view (xs.filter p) = (k.view xs).filter p := by
  unfold view
  split
  · exact Value.sort_filter xs p
  · rfl

theorem removeFirst_view (k : CollectionKind) (xs : List Value) (e : Value) :
    Container.removeFirst (k.view xs) e =
      (k.view (Container.removeFirst xs e).1, (Container.removeFirst xs e).2) := by
  simp only [Container.removeFirst, view_erase, contains_view]

/-- Adding to a collection as read is reading it after the addition: a sorted kind inserts
into its sorted form where the plain container appends. -/
theorem insert_view (k : CollectionKind) (xs : List Value) (e : Value) :
    k.insert (k.view xs) e = (k.view (Plain.insert k xs e).1, (Plain.insert k xs e).2) := by
  have hcontains := contains_view k xs e
  cases k with
  | set => by_cases h : xs.contains e <;> simp_all [insert, Plain.insert, view, sorted, unique]
  | sortedSet =>
    by_cases h : xs.contains e
    · simp_all [insert, Plain.insert, view, sorted, unique]
    · simp_all [insert, Plain.insert, view, sorted, unique, Container.insertSorted_sort]
  | list => simp [insert, Plain.insert, view, sorted, unique]
  | orderedList => simp [insert, Plain.insert, view, sorted, unique, Container.insertSorted_sort]

theorem foldSteps_insert_unique {k : CollectionKind} (hk : k.unique) :
    ∀ (acc xs : List Value), (foldSteps (Plain.insert k) acc xs).1 =
      acc ++ (Container.dedupFirst xs).filter fun y => !acc.contains y
  | acc, [] => by simp [Container.dedupFirst]
  | acc, x :: xs => by
    rw [foldSteps_cons]
    by_cases hx : x ∈ acc
    · -- `x` is held: the step changes nothing, and the later copies of `x` go either way
      have hstep : Plain.insert k acc x = (acc, false) := by simp [Plain.insert, hk, hx]
      rw [hstep, foldSteps_insert_unique hk acc xs, Container.dedupFirst,
        List.filter_cons_of_neg (by simp [hx]), List.filter_filter]
      congr 1
      apply List.filter_congr
      intro y _
      by_cases hy : y = x <;> simp_all
    · have hstep : Plain.insert k acc x = (acc ++ [x], true) := by simp [Plain.insert, hx]
      rw [hstep, foldSteps_insert_unique hk (acc ++ [x]) xs, Container.dedupFirst,
        List.filter_cons_of_pos (by simp [hx]), List.filter_filter, List.append_assoc,
        List.singleton_append]
      congr 2
      apply List.filter_congr
      intro y _
      by_cases hy : y = x <;> simp_all

theorem foldSteps_insert_append {k : CollectionKind} (hk : k.unique = false) :
    ∀ (acc xs : List Value), (foldSteps (Plain.insert k) acc xs).1 = acc ++ xs
  | acc, [] => by simp
  | acc, x :: xs => by
    have hstep : Plain.insert k acc x = (acc ++ [x], true) := by simp [Plain.insert, hk]
    rw [foldSteps_cons, hstep, foldSteps_insert_append hk (acc ++ [x]) xs]
    simp

theorem ofValues_eq_view (k : CollectionKind) (xs : List Value) :
    k.ofValues xs = k.view (foldSteps (Plain.insert k) [] xs).1 := by
  cases k with
  | set => simp [ofValues, view, sorted, foldSteps_insert_unique (k := .set) rfl]
  | sortedSet =>
    simp [ofValues, view, sorted, foldSteps_insert_unique (k := .sortedSet) rfl,
      Value.distinct_eq_sort_dedupFirst]
  | list => simp [ofValues, view, sorted, foldSteps_insert_append (k := .list) rfl]
  | orderedList => simp [ofValues, view, sorted, foldSteps_insert_append (k := .orderedList) rfl]

end CollectionKind

/-! ## Reading a map -/

namespace Container

theorem foldSteps_removeFirst_cons {x : Value} :
    ∀ {l : List Value}, x ∉ l → ∀ xs : List Value,
      foldSteps Container.removeFirst (x :: xs) l =
        (x :: (foldSteps Container.removeFirst xs l).1, (foldSteps Container.removeFirst xs l).2)
  | [], _, _ => rfl
  | y :: l, hx, xs => by
    have hxy : x ≠ y := fun h => hx (h ▸ List.mem_cons_self)
    have hstep : Container.removeFirst (x :: xs) y = (x :: xs.erase y, xs.contains y) := by
      simp [Container.removeFirst, hxy, Ne.symm hxy]
    rw [foldSteps_cons, hstep, foldSteps_removeFirst_cons (fun h => hx (List.mem_cons_of_mem y h)),
      foldSteps_cons]
    rfl

/-- Removing, one at a time, the elements a predicate picks leaves the others, and some
removal finds its element exactly when one was picked. -/
theorem foldSteps_removeFirst_filter (q : Value → Bool) :
    ∀ xs : List Value, foldSteps Container.removeFirst xs (xs.filter q) =
      (xs.filter (fun x => !q x), xs.any q)
  | [] => rfl
  | x :: xs => by
    by_cases hq : q x
    · have hstep : Container.removeFirst (x :: xs) x = (xs, true) := by
        simp [Container.removeFirst]
      rw [List.filter_cons_of_pos hq, foldSteps_cons, hstep, foldSteps_removeFirst_filter q xs]
      simp [hq]
    · have hx : x ∉ xs.filter q := fun h => hq (List.mem_filter.mp h).2
      rw [List.filter_cons_of_neg hq, foldSteps_removeFirst_cons hx,
        foldSteps_removeFirst_filter q xs]
      simp [hq]

abbrev KeysNodup (es : List (Value × Value)) : Prop := (es.map Prod.fst).Nodup

theorem lookup_cons (e : Value × Value) (es : List (Value × Value)) (k : Value) :
    lookup (e :: es) k = if e.1 = k then some e.2 else lookup es k := by
  by_cases h : e.1 = k <;> simp [lookup, h]

theorem lookup_eq_some_iff {es : List (Value × Value)} (hd : KeysNodup es) {k v : Value} :
    lookup es k = some v ↔ (k, v) ∈ es := by
  induction es with
  | nil => simp [lookup]
  | cons e es ih =>
    obtain ⟨he, hd'⟩ := List.nodup_cons.mp hd
    rw [lookup_cons]
    by_cases hk : e.1 = k
    · -- the first entry holds the key, and no later one does
      have hnot : (k, v) ∉ es := fun h => he (hk ▸ List.mem_map_of_mem h)
      obtain ⟨a, b⟩ := e
      simp only at hk
      subst hk
      simp [hnot, eq_comm]
    · have hne : (k, v) ≠ e := fun h => hk (h ▸ rfl)
      simp [hk, ih hd', hne]

theorem lookup_perm {es fs : List (Value × Value)} (hd : KeysNodup es) (hp : es.Perm fs)
    (k : Value) : lookup es k = lookup fs k := by
  have hd' : KeysNodup fs := (hp.map Prod.fst).nodup_iff.mp hd
  apply Option.ext
  intro v
  rw [lookup_eq_some_iff hd, lookup_eq_some_iff hd', hp.mem_iff]

theorem lookup_eq_none_iff {es : List (Value × Value)} {k : Value} :
    lookup es k = none ↔ k ∉ es.map Prod.fst := by
  simp only [lookup, Option.map_eq_none_iff, List.find?_eq_none, beq_iff_eq, List.mem_map]
  constructor
  · rintro h ⟨e, he, rfl⟩
    exact h e he rfl
  · intro h e he hek
    exact h ⟨e, he, hek⟩

theorem lookup_isSome_iff {es : List (Value × Value)} {k : Value} :
    (lookup es k).isSome ↔ k ∈ es.map Prod.fst := by
  rw [← not_iff_not, Bool.not_eq_true, Option.isSome_eq_false_iff, Option.isNone_iff_eq_none,
    lookup_eq_none_iff]

theorem take_of_lookup_none {es : List (Value × Value)} {k : Value} (h : lookup es k = none) :
    take es k = (es, none) := by
  have hk := lookup_eq_none_iff.mp h
  simp only [take, h, Prod.mk.injEq, and_true]
  apply List.filter_eq_self.mpr
  intro e he
  exact bne_iff_ne.mpr fun hek => hk (List.mem_map.mpr ⟨e, he, hek⟩)

theorem keysNodup_put {es : List (Value × Value)} (hd : KeysNodup es) (k v : Value) :
    KeysNodup (put false es k v).1 := by
  unfold put
  split
  · -- the keys stay as they were
    have hkeys : (es.map fun e => if e.1 == k then (k, v) else e).map Prod.fst =
        es.map Prod.fst := by
      rw [List.map_map]
      apply List.map_congr_left
      intro e _
      by_cases h : e.1 = k <;> simp [h]
    unfold KeysNodup
    rw [hkeys]
    exact hd
  · next hnone =>
    -- a new key goes last
    have hk : k ∉ es.map Prod.fst := lookup_eq_none_iff.mp hnone
    simp [KeysNodup, List.nodup_append, hd]
    exact fun a x hax hak => hk (List.mem_map.mpr ⟨(a, x), hax, hak⟩)

theorem keysNodup_filter {es : List (Value × Value)} (hd : KeysNodup es)
    (p : Value × Value → Bool) : KeysNodup (es.filter p) :=
  hd.sublist (List.filter_sublist.map Prod.fst)

end Container

namespace Plain

open Container

theorem byKey_perm (es : List (Value × Value)) : (byKey es).Perm es := List.mergeSort_perm es _

theorem byKey_sorted (es : List (Value × Value)) : KeySorted (byKey es) :=
  @List.pairwise_mergeSort _ (fun a b => Value.le a.1 b.1)
    (fun a b c (h₁ : Value.le a.1 b.1) (h₂ : Value.le b.1 c.1) => Value.le_trans h₁ h₂)
    (fun a b => Value.le_total a.1 b.1) es

theorem eq_byKey_of_perm {l es : List (Value × Value)} (hl : KeySorted l) (hd : KeysNodup es)
    (hp : l.Perm es) : l = byKey es := by
  refine List.Perm.eq_of_pairwise (fun a b ha hb hab hba => ?_) hl (byKey_sorted es)
    (hp.trans (byKey_perm es).symm)
  -- two entries whose keys sort both ways share their key, and so are one entry
  exact List.inj_on_of_nodup_map hd (hp.subset ha) ((byKey_perm es).subset hb)
    (Value.le_antisymm hab hba)

theorem viewMap_perm (s : Bool) (es : List (Value × Value)) : (viewMap s es).Perm es := by
  unfold viewMap
  split
  · exact byKey_perm es
  · exact List.Perm.refl es

@[simp] theorem viewMap_nil (s : Bool) : viewMap s [] = [] := by
  simp [viewMap, byKey]

theorem lookup_viewMap (s : Bool) {es : List (Value × Value)} (hd : KeysNodup es) (k : Value) :
    lookup (viewMap s es) k = lookup es k :=
  lookup_perm ((viewMap_perm s es).map Prod.fst |>.nodup_iff.mpr hd) (viewMap_perm s es) k

/-- Putting into a map as read is reading it after the put: a sorted map inserts a new key
in key order where the plain map appends it. -/
theorem put_viewMap (s : Bool) {es : List (Value × Value)} (hd : KeysNodup es) (k v : Value) :
    put s (viewMap s es) k v = (viewMap s (put false es k v).1, (put false es k v).2) := by
  cases s with
  | false => rfl
  | true =>
    have hlookup := lookup_viewMap true hd k
    simp only [viewMap, if_true] at hlookup ⊢
    unfold put
    rw [hlookup]
    split
    · -- a present key: both replace the value where the key stands, and keys stay put
      refine Prod.ext ?_ rfl
      apply List.map_mergeSort
      intro a _ b _
      by_cases ha : a.1 = k <;> by_cases hb : b.1 = k <;> simp [ha, hb]
    · next hnone =>
      -- a new key: inserting it in key order sorts the entries with the new one last
      have hd' : KeysNodup (es ++ [(k, v)]) := by
        have := keysNodup_put hd k v
        simpa [put, hnone] using this
      refine Prod.ext ?_ rfl
      apply eq_byKey_of_perm (insertEntrySorted_sorted (byKey_sorted es) k v) hd'
      exact (insertEntrySorted_perm _ k v).trans
        (((byKey_perm es).cons _).trans (List.perm_append_singleton _ _).symm)

theorem viewMap_filter (s : Bool) {es : List (Value × Value)} (hd : KeysNodup es)
    (p : Value × Value → Bool) : (viewMap s es).filter p = viewMap s (es.filter p) := by
  cases s with
  | false => rfl
  | true =>
    exact eq_byKey_of_perm ((byKey_sorted es).sublist List.filter_sublist)
      (keysNodup_filter hd p) ((byKey_perm es).filter p)

theorem take_viewMap (s : Bool) {es : List (Value × Value)} (hd : KeysNodup es) (k : Value) :
    take (viewMap s es) k = (viewMap s (take es k).1, (take es k).2) := by
  simp only [take, viewMap_filter s hd, lookup_viewMap s hd]

theorem foldl_put_viewMap (s : Bool) :
    ∀ (es acc : List (Value × Value)), KeysNodup acc →
      es.foldl (fun m (kv : Value × Value) => (put s m kv.1 kv.2).1) (viewMap s acc) =
        viewMap s (foldSteps putChanged acc es).1 ∧ KeysNodup (foldSteps putChanged acc es).1
  | [], _, hd => ⟨rfl, hd⟩
  | (k, v) :: es, acc, hd => by
    rw [List.foldl_cons, foldSteps_cons]
    simp only [put_viewMap s hd k v, putChanged]
    exact foldl_put_viewMap s es _ (keysNodup_put hd k v)

theorem ofEntries_eq_viewMap (s : Bool) (es : List (Value × Value)) :
    ofEntries s es = viewMap s (foldSteps putChanged [] es).1 ∧
      KeysNodup (foldSteps putChanged [] es).1 := by
  have h := foldl_put_viewMap s es [] List.nodup_nil
  simp only [viewMap_nil] at h
  exact h

end Plain

end ObjectPersistence
