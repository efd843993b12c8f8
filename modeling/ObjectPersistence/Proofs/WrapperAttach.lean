import Mathlib
import ObjectPersistence.Proofs.WrapperRequests

/-! # Bringing a wrapper in line with a detached copy

Attaching a detached copy reconciles a wrapper with it by membership. A collection takes out
every element it holds that the copy lacks and adds the copy's elements it does not hold; a
map takes out every key the copy lacks and puts each entry of the copy whose value differs
from the one it holds when the entry comes up; a scalar takes the copy's value.

So a set or a sorted set ends up with the copy's elements, a map with the copy's
key-to-value map (the last entry of a key winning), and a scalar with the copy's value. A list
keeps the elements it held that the copy has, in their order and number, and appends the
copy's elements it did not hold; an ordered list holds the same elements in value order. The
call answers whether it took something out or put something in: that is whether the content
changed, except for a map copy that names a key twice, whose later entry may undo an earlier
one. Nothing it takes out cascades: its queued operations carry no cascade, and the only
deletes it asks for are of dependent map values that one of its puts replaces. -/

set_option mvcgen.warning false

namespace ObjectPersistence

/-! ## Reconciling plain content -/

namespace CollectionKind

/-- Brings elements `xs` in line with a copy `d`: the elements `d` lacks are removed one at a
time, then the elements of `d` not in `xs` are added; tells whether either step changed
anything. -/
def attach (k : CollectionKind) (xs d : List Value) : List Value × Bool :=
  let kept := foldSteps Container.removeFirst xs (xs.filter fun x => !d.contains x)
  let added := foldSteps k.insert kept.1 (d.filter fun x => !xs.contains x)
  (added.1, kept.2 || added.2)

theorem foldSteps_insert_perm (k : CollectionKind) :
    ∀ (l : List Value) {xs ys : List Value}, xs.Perm ys →
      (foldSteps k.insert xs l).1.Perm (foldSteps (Plain.insert k) ys l).1 ∧
        (foldSteps k.insert xs l).2 = (foldSteps (Plain.insert k) ys l).2
  | [], _, _, hp => ⟨hp, rfl⟩
  | e :: l, xs, ys, hp => by
    have hc : xs.contains e = ys.contains e := hp.contains_eq
    -- one insertion keeps the two readings in step, whatever the kind
    have hstep : (k.insert xs e).1.Perm (Plain.insert k ys e).1 ∧
        (k.insert xs e).2 = (Plain.insert k ys e).2 := by
      have happ : (xs ++ [e]).Perm (ys ++ [e]) := hp.append_right [e]
      have hsorted : (Container.insertSorted xs e).Perm (ys ++ [e]) :=
        (Container.insertSorted_perm xs e).trans ((hp.cons e).trans (List.perm_append_singleton e ys).symm)
      cases k <;> by_cases he : ys.contains e <;>
        simp_all [insert, Plain.insert, unique]
    obtain ⟨hp', hflag⟩ := foldSteps_insert_perm k l hstep.1
    simp only [foldSteps_cons]
    exact ⟨hp', by rw [hstep.2, hflag]⟩

theorem mem_foldSteps_insert (k : CollectionKind) (acc l : List Value) (e : Value) :
    e ∈ (foldSteps k.insert acc l).1 ↔ e ∈ acc ∨ e ∈ l := by
  rw [(foldSteps_insert_perm k l (List.Perm.refl acc)).1.mem_iff]
  cases hk : k.unique
  · simp [foldSteps_insert_append hk]
  · by_cases he : e ∈ acc <;>
      simp [foldSteps_insert_unique hk, Container.mem_dedupFirst, he]

theorem foldSteps_insert_flag (k : CollectionKind) {acc : List Value} {e : Value} (he : e ∉ acc)
    (l : List Value) : (foldSteps k.insert acc (e :: l)).2 = true := by
  have hstep : (k.insert acc e).2 = true := by
    cases k <;> simp [insert, he]
  simp [foldSteps_cons, hstep]

theorem attach_eq (k : CollectionKind) (xs d : List Value) :
    k.attach xs d =
      ((foldSteps k.insert (xs.filter d.contains) (d.filter fun x => !xs.contains x)).1,
        xs.any (fun x => !d.contains x) ||
          (foldSteps k.insert (xs.filter d.contains) (d.filter fun x => !xs.contains x)).2) := by
  simp only [attach, Container.foldSteps_removeFirst_filter, Bool.not_not]

theorem mem_attach (k : CollectionKind) (xs d : List Value) (e : Value) :
    e ∈ (k.attach xs d).1 ↔ e ∈ d := by
  rw [attach_eq, mem_foldSteps_insert]
  by_cases hx : e ∈ xs <;> simp [hx]

/-- A list keeps the elements it held that the copy has, in their order and number, and
appends the copy's elements it did not hold, in the copy's order and number. -/
theorem attach_list (xs d : List Value) :
    (CollectionKind.list.attach xs d).1 =
      xs.filter d.contains ++ d.filter fun x => !xs.contains x := by
  have hins : CollectionKind.list.insert = Plain.insert .list := by
    funext ys e
    simp [insert, Plain.insert, unique]
  rw [attach_eq, hins, foldSteps_insert_append rfl]

theorem attach_orderedList_perm (xs d : List Value) :
    (CollectionKind.orderedList.attach xs d).1.Perm
      (xs.filter d.contains ++ d.filter fun x => !xs.contains x) := by
  rw [attach_eq, ← foldSteps_insert_append (k := .orderedList) rfl]
  exact (foldSteps_insert_perm _ _ (List.Perm.refl _)).1

theorem attach_flag_iff (k : CollectionKind) (xs d : List Value) :
    (k.attach xs d).2 = true ↔ (k.attach xs d).1 ≠ xs := by
  have hmem := mem_attach k xs d
  rw [attach_eq] at hmem ⊢
  dsimp only at hmem ⊢
  have hnew : ∀ y ∈ d.filter (fun x => !xs.contains x), y ∈ d ∧ y ∉ xs := fun y hy => by
    simpa using List.mem_filter.mp hy
  generalize d.filter (fun x => !xs.contains x) = fresh at hmem hnew ⊢
  constructor
  · intro hflag heq
    rcases Bool.or_eq_true_iff.mp hflag with hstale | hadded
    · -- an element the copy lacks was held, and is gone
      obtain ⟨x, hx, hxd⟩ := List.any_eq_true.mp hstale
      have hxd' : x ∈ d := (hmem x).mp (by rw [heq]; exact hx)
      simp_all
    · -- an element of the copy went in that was not held
      cases fresh with
      | nil => simp at hadded
      | cons y l =>
        obtain ⟨hyd, hyx⟩ := hnew y List.mem_cons_self
        exact hyx (by rw [← heq]; exact (hmem y).mpr hyd)
  · intro hne
    by_contra hflag
    simp only [Bool.or_eq_true, not_or, Bool.not_eq_true, List.any_eq_false] at hflag
    obtain ⟨hstale, hadded⟩ := hflag
    have hkept : xs.filter d.contains = xs := List.filter_eq_self.mpr fun x hx => by
      simpa using hstale x hx
    -- nothing was added: an element of the copy not held would have gone in
    cases fresh with
    | nil => exact hne (by simp [hkept])
    | cons y l =>
      have hyx : y ∉ xs.filter d.contains := by
        rw [hkept]
        exact (hnew y List.mem_cons_self).2
      rw [foldSteps_insert_flag k hyx l] at hadded
      exact absurd hadded (by decide)

end CollectionKind

namespace Container

@[simp] theorem lookup_nil (k : Value) : lookup [] k = none := rfl

theorem lookup_filter_key (p : Value → Bool) (es : List (Value × Value)) (k : Value) :
    lookup (es.filter fun e => p e.1) k = if p k then lookup es k else none := by
  induction es with
  | nil => simp
  | cons e es ih =>
    rw [List.filter_cons, lookup_cons]
    by_cases hek : e.1 = k
    · subst hek
      cases hp : p e.1 <;> simp [hp, lookup_cons, ih]
    · cases p e.1 <;> simp [lookup_cons, ih, hek]

theorem lookup_append (a b : List (Value × Value)) (k : Value) :
    lookup (a ++ b) k = (lookup a k).or (lookup b k) := by
  simp only [lookup, List.find?_append, Option.map_or]

theorem put_snd (sorted : Bool) (es : List (Value × Value)) (k v : Value) :
    (put sorted es k v).2 = lookup es k := by
  unfold put
  split <;> simp_all

theorem lookup_map_put (es : List (Value × Value)) (k v k' : Value) :
    lookup (es.map fun e => if e.1 == k then (k, v) else e) k' =
      if k = k' then (lookup es k).map fun _ => v else lookup es k' := by
  induction es with
  | nil => simp [lookup]
  | cons e es ih =>
    rw [List.map_cons, lookup_cons, ih, lookup_cons, lookup_cons]
    by_cases hek : e.1 = k
    · -- the entry of the key gets the new value
      subst hek
      by_cases hkk : e.1 = k' <;> simp [hkk]
    · have hbeq : (e.1 == k) = false := by simpa using hek
      by_cases hkk : k = k'
      · subst hkk
        simp [hbeq, hek]
      · simp [hbeq, hkk]

theorem lookup_put (sorted : Bool) (es : List (Value × Value)) (k v k' : Value) :
    lookup (put sorted es k v).1 k' = if k = k' then some v else lookup es k' := by
  unfold put
  split
  · next old hold =>
    rw [lookup_map_put, hold]
    rfl
  · next hnone =>
    -- a new key goes in once, and no entry before it has that key
    have hins : ∀ a b, a ++ b = es →
        lookup (a ++ (k, v) :: b) k' = if k = k' then some v else lookup es k' := by
      rintro a b rfl
      have ha : lookup a k = none := by
        rw [lookup_append] at hnone
        exact Option.or_eq_none_iff.mp hnone |>.1
      rw [lookup_append, lookup_cons, lookup_append]
      by_cases hkk : k = k'
      · subst hkk
        simp [ha]
      · simp [hkk]
    cases sorted
    · simpa using hins es [] (List.append_nil es)
    · exact hins _ _ (List.takeWhile_append_dropWhile)

def dropKey (es : List (Value × Value)) (k : Value) : List (Value × Value) × Bool :=
  ((take es k).1, (take es k).2.isSome)

/-- Puts an entry unless the map holds that value under the key already; tells whether it
put one. -/
def attachEntry (sorted : Bool) (es : List (Value × Value)) (kv : Value × Value) :
    List (Value × Value) × Bool :=
  if lookup es kv.1 != some kv.2 then ((put sorted es kv.1 kv.2).1, true) else (es, false)

/-- Brings entries `es` in line with a copy `d`: the keys `d` lacks are taken out, then each
entry of `d` is put unless it is held already; tells whether anything was taken or put. -/
def attachEntries (sorted : Bool) (es d : List (Value × Value)) :
    List (Value × Value) × Bool :=
  let kept := foldSteps dropKey es ((es.map (·.1)).filter fun k => !d.any (·.1 == k))
  let put := foldSteps (attachEntry sorted) kept.1 d
  (put.1, kept.2 || put.2)

theorem foldSteps_dropKey (ks : List Value) :
    ∀ es : List (Value × Value),
      (foldSteps dropKey es ks).1 = es.filter fun e => !ks.contains e.1 := by
  induction ks with
  | nil => simp
  | cons k ks ih =>
    intro es
    simp only [foldSteps_cons, ih, dropKey, take, List.filter_filter]
    apply List.filter_congr
    intro e _
    by_cases hek : e.1 = k <;> simp [hek]

theorem foldSteps_dropKey_flag {es : List (Value × Value)} {k : Value} (hk : k ∈ es.map (·.1))
    (ks : List Value) : (foldSteps dropKey es (k :: ks)).2 = true := by
  have hstep : (dropKey es k).2 = true := by
    simpa [dropKey, take] using lookup_isSome_iff.mpr hk
  simp [foldSteps_cons, hstep]

theorem lookup_attachEntry (sorted : Bool) (es : List (Value × Value)) (kv : Value × Value)
    (k : Value) :
    lookup (attachEntry sorted es kv).1 k = if kv.1 = k then some kv.2 else lookup es k := by
  unfold attachEntry
  split
  · exact lookup_put sorted es kv.1 kv.2 k
  · next hsame =>
    by_cases hk : kv.1 = k
    · subst hk
      simpa using hsame
    · simp [hk]

theorem lookup_foldSteps_attachEntry (sorted : Bool) (k : Value) :
    ∀ (l fs : List (Value × Value)),
      lookup (foldSteps (attachEntry sorted) fs l).1 k = (lookup l.reverse k).or (lookup fs k)
  | [], fs => by simp [lookup]
  | kv :: l, fs => by
    rw [foldSteps_cons, lookup_foldSteps_attachEntry sorted k l, lookup_attachEntry,
      List.reverse_cons, lookup_append, Option.or_assoc]
    congr 1
    by_cases hk : kv.1 = k <;> simp [lookup_cons, hk]

theorem foldSteps_attachEntry_of_flag (sorted : Bool) :
    ∀ (l fs : List (Value × Value)), (foldSteps (attachEntry sorted) fs l).2 = false →
      (foldSteps (attachEntry sorted) fs l).1 = fs
  | [], _, _ => rfl
  | kv :: l, fs, hflag => by
    rw [foldSteps_cons] at hflag ⊢
    obtain ⟨hstep, hrest⟩ := Bool.or_eq_false_iff.mp hflag
    have hfs : attachEntry sorted fs kv = (fs, false) := by
      by_cases hsame : lookup fs kv.1 = some kv.2
      · simp [attachEntry, hsame]
      · simp [attachEntry, hsame] at hstep
    rw [hfs] at hrest ⊢
    exact foldSteps_attachEntry_of_flag sorted l fs hrest

theorem exists_of_foldSteps_attachEntry_flag (sorted : Bool) :
    ∀ (l fs : List (Value × Value)), (foldSteps (attachEntry sorted) fs l).2 = true →
      ∃ kv ∈ l, lookup fs kv.1 ≠ some kv.2
  | [], _, hflag => by simp at hflag
  | kv :: l, fs, hflag => by
    rw [foldSteps_cons] at hflag
    by_cases hsame : lookup fs kv.1 = some kv.2
    · -- the round put nothing, so the rest ran on the same map
      have hfs : attachEntry sorted fs kv = (fs, false) := by simp [attachEntry, hsame]
      rw [hfs] at hflag
      obtain ⟨kv', hkv', hne⟩ := exists_of_foldSteps_attachEntry_flag sorted l fs (by simpa using hflag)
      exact ⟨kv', List.mem_cons_of_mem kv hkv', hne⟩
    · exact ⟨kv, List.mem_cons_self, hsame⟩

theorem lookup_attachEntries (sorted : Bool) (es d : List (Value × Value)) (k : Value) :
    lookup (attachEntries sorted es d).1 k = lookup d.reverse k := by
  simp only [attachEntries, lookup_foldSteps_attachEntry, foldSteps_dropKey]
  cases hd : lookup d.reverse k with
  | some v => rfl
  | none =>
    -- a key the copy lacks was taken out
    have hkd : k ∉ d.map (·.1) := by
      simpa [lookup_eq_none_iff] using hd
    simp only [Option.none_or, lookup_eq_none_iff, List.mem_map, List.mem_filter, not_exists,
      not_and]
    rintro e ⟨he, hkeep⟩ rfl
    simp_all

theorem attachEntries_flag_of_ne (sorted : Bool) (es d : List (Value × Value))
    (hne : (attachEntries sorted es d).1 ≠ es) : (attachEntries sorted es d).2 = true := by
  by_contra hflag
  simp only [attachEntries, Bool.not_eq_true, Bool.or_eq_false_iff] at hflag hne
  obtain ⟨hdrop, hput⟩ := hflag
  rw [foldSteps_attachEntry_of_flag sorted d _ hput, foldSteps_dropKey] at hne
  -- no key was stale: a stale key is one the map has, and taking it out is reported
  cases hstale : (es.map (·.1)).filter fun k => !d.any (·.1 == k) with
  | nil =>
    apply hne
    apply List.filter_eq_self.mpr
    intro e he
    simp [hstale]
  | cons k ks =>
    have hk : k ∈ es.map (·.1) := (List.mem_filter.mp (hstale ▸ List.mem_cons_self)).1
    rw [hstale, foldSteps_dropKey_flag hk ks] at hdrop
    exact absurd hdrop (by decide)

theorem attachEntries_ne_of_flag (sorted : Bool) (es : List (Value × Value))
    {d : List (Value × Value)} (hd : KeysNodup d) (hflag : (attachEntries sorted es d).2 = true) :
    (attachEntries sorted es d).1 ≠ es := by
  intro heq
  have hlook : ∀ k, lookup es k = lookup d.reverse k := fun k => by
    rw [← lookup_attachEntries sorted es d k, heq]
  simp only [attachEntries, Bool.or_eq_true] at hflag
  rcases hflag with hdrop | hput
  · -- a stale key was held, and the copy has no value for it
    cases hstale : (es.map (·.1)).filter fun k => !d.any (·.1 == k) with
    | nil => simp [hstale] at hdrop
    | cons k ks =>
      obtain ⟨hk, hkd⟩ := List.mem_filter.mp (hstale ▸ List.mem_cons_self)
      have hsome := (@lookup_isSome_iff es k).mpr hk
      rw [hlook, lookup_isSome_iff, List.map_reverse, List.mem_reverse] at hsome
      obtain ⟨kv, hkv, rfl⟩ := List.mem_map.mp hsome
      simp only [Bool.not_eq_true', List.any_eq_false, beq_iff_eq] at hkd
      exact hkd kv hkv rfl
  · -- an entry was put whose value the map held already, as the copy gives it
    obtain ⟨kv, hkv, hne⟩ := exists_of_foldSteps_attachEntry_flag sorted d _ hput
    apply hne
    have hkeep : (d.any fun x => x.1 == kv.1) = true := List.any_eq_true.mpr ⟨kv, hkv, by simp⟩
    have hrev : KeysNodup d.reverse := by
      simpa only [KeysNodup, List.map_reverse, List.nodup_reverse] using hd
    rw [foldSteps_dropKey, lookup_filter_key (fun k => !((es.map (·.1)).filter
        fun k => !d.any (·.1 == k)).contains k), if_pos (by simp [hkeep]), hlook,
      lookup_eq_some_iff hrev]
    exact List.mem_reverse.mpr hkv

end Container

namespace Content

/-- Brings content in line with detached data of its shape: the content an attach leaves and
its answer, or nothing when the shapes differ. -/
def attach : Content → FieldData → Option (Content × Bool)
  | .collection k xs, .collection d => some (.collection k (k.attach xs d).1, (k.attach xs d).2)
  | .map s es, .map d =>
    some (.map s (Container.attachEntries s es d).1, (Container.attachEntries s es d).2)
  | .scalar u, .scalar v => some (.scalar v, v != u)
  | _, _ => none

/-- How a copy `e` reads after attaching `d` over content `c`, shape by shape: every collection
holds the copy's elements; a list holds those it held that the copy has, in their order and
number, then the copy's elements it did not hold, and an ordered list the same up to order; a
map holds the copy's last value for each key; a scalar the copy's value. -/
def Attached : Content → FieldData → FieldData → Prop
  | .collection k xs, .collection d, .collection e =>
    (∀ x, x ∈ e ↔ x ∈ d) ∧
      (k = .list → e = xs.filter d.contains ++ d.filter fun x => !xs.contains x) ∧
      (k = .orderedList → e.Perm (xs.filter d.contains ++ d.filter fun x => !xs.contains x))
  | .map _ _, .map d, .map e => ∀ key, Container.lookup e key = Container.lookup d.reverse key
  | .scalar _, .scalar v, .scalar u => u = v
  | _, _, _ => False

variable {c c' : Content} {d : FieldData} {r : Bool}

theorem attached_of_attach (h : c.attach d = some (c', r)) {w : Wrapper} (hw : w.content = c') :
    c.Attached d w.detachCopy := by
  rcases c with ⟨k, xs⟩ | ⟨s, es⟩ | u <;> rcases d with v | ds | ds <;>
    simp only [attach, reduceCtorEq, Option.some.injEq, Prod.mk.injEq] at h <;>
    obtain ⟨rfl, rfl⟩ := h <;> simp only [Wrapper.detachCopy, hw, Attached]
  case collection.collection =>
    refine ⟨CollectionKind.mem_attach k xs ds, ?_, ?_⟩
    · rintro rfl
      exact CollectionKind.attach_list xs ds
    · rintro rfl
      exact CollectionKind.attach_orderedList_perm xs ds
  case map.map => exact Container.lookup_attachEntries s es ds

theorem attach_flag_of_ne (h : c.attach d = some (c', r)) (hne : c' ≠ c) : r = true := by
  rcases c with ⟨k, xs⟩ | ⟨s, es⟩ | u <;> rcases d with v | ds | ds <;>
    simp only [attach, reduceCtorEq, Option.some.injEq, Prod.mk.injEq] at h <;>
    obtain ⟨rfl, rfl⟩ := h
  case collection.collection =>
    exact (CollectionKind.attach_flag_iff k xs ds).mpr fun heq => hne (by rw [heq])
  case map.map => exact Container.attachEntries_flag_of_ne s es ds fun heq => hne (by rw [heq])
  case scalar.scalar => simpa using fun heq : v = u => hne (by rw [heq])

theorem attach_ne_of_flag (h : c.attach d = some (c', r))
    (hd : ∀ ds, d = .map ds → Container.KeysNodup ds) (hr : r = true) : c' ≠ c := by
  rcases c with ⟨k, xs⟩ | ⟨s, es⟩ | u <;> rcases d with v | ds | ds <;>
    simp only [attach, reduceCtorEq, Option.some.injEq, Prod.mk.injEq] at h <;>
    obtain ⟨rfl, rfl⟩ := h
  case collection.collection =>
    intro heq
    exact (CollectionKind.attach_flag_iff k xs ds).mp hr (by simpa using heq)
  case map.map =>
    intro heq
    exact Container.attachEntries_ne_of_flag s es (hd ds rfl) hr (by simpa using heq)
  case scalar.scalar => simpa using hr

theorem shape_attach (h : c.attach d = some (c', r)) {w : Wrapper} (hw : w.content = c) :
    { w with content := c' }.shape = w.shape := by
  rcases c with ⟨k, xs⟩ | ⟨s, es⟩ | u <;> rcases d with v | ds | ds <;>
    simp only [attach, reduceCtorEq, Option.some.injEq, Prod.mk.injEq] at h <;>
    obtain ⟨rfl, rfl⟩ := h <;> simp only [Wrapper.shape, hw]
  case collection.collection => cases k <;> rfl
  case map.map => cases s <;> rfl

end Content

/-! ## Running an attach -/

namespace WrapperCall

section Rounds

variable (h : HostView) (o : FieldOwner) (w₀ : Wrapper)

theorem follows_insertRound_content (k : CollectionKind) :
    Follows (fun st xs => st.1 = { w₀ with content := .collection k xs })
      (insertRound h o) k.insert := by
  rintro any e ⟨w, es⟩ xs hw
  simp only at hw
  subst hw
  obtain ⟨evs, hexec, -⟩ :=
    exec_insertRound h o { w₀ with content := .collection k xs } es rfl any e
  exact ⟨_, hexec, rfl⟩

theorem follows_dropRound_content (s : Bool) :
    Follows (fun st fs => st.1 = { w₀ with content := .map s fs })
      (dropRound h o) Container.dropKey := by
  rintro any k ⟨w, es⟩ fs hw
  simp only at hw
  subst hw
  obtain ⟨evs, hexec, -⟩ :=
    exec_removeEntry h o { w₀ with content := .map s fs } es rfl k false
  exact ⟨({ w₀ with content := .map s (Container.take fs k).1 }, es ++ evs),
    by simp [dropRound, exec_map, hexec, Container.dropKey], rfl⟩

theorem follows_attachRound_content (s : Bool) :
    Follows (fun st fs => st.1 = { w₀ with content := .map s fs })
      (attachRound h o) (Container.attachEntry s) := by
  rintro any kv ⟨w, es⟩ fs hw
  simp only at hw
  subst hw
  by_cases hsame : Container.lookup fs kv.1 = some kv.2
  · refine ⟨({ w₀ with content := .map s fs }, es), ?_, by simp [Container.attachEntry, hsame]⟩
    simp [attachRound, exec_bind, exec_entries, hsame, Container.attachEntry]
  · obtain ⟨evs, hexec, -⟩ :=
      exec_putEntry h o { w₀ with content := .map s fs } es rfl kv.1 kv.2
    refine ⟨({ w₀ with content := .map s (Container.put s fs kv.1 kv.2).1 }, es ++ evs), ?_,
      by simp [Container.attachEntry, hsame]⟩
    simp [attachRound, exec_bind, exec_map, exec_entries, hsame, hexec, Container.attachEntry,
      Container.put_snd]

end Rounds

variable {h : HostView} {w : Wrapper} {es : List HostEvent}

theorem addAll_ok {k : CollectionKind} {xs l : List Value} (hc : w.content = .collection k xs)
    {r : Bool} {st : Wrapper × List HostEvent} (hok : (addAll h l).exec (w, es) = (.ok r, st)) :
    st.1 = { w with content := .collection k (foldSteps k.insert xs l).1 } ∧
      r = (foldSteps k.insert xs l).2 := by
  cases ho : w.owner with
  | none => simp [addAll, exec_bind, exec_discard, exec_sequence, exec_bound, hc, ho] at hok
  | some o =>
    cases hnull : l.findSome? (ScoCall.nullFault w.policy.allowNulls) with
    | some f =>
      simp only [addAll, exec_bind, exec_discard, exec_sequence, exec_bound, exec_checkAll, hc, ho,
        hnull] at hok
      simp at hok
    | none =>
      obtain ⟨⟨w', es'⟩, hloop, hst⟩ :=
        exec_foldlM_false (follows_insertRound_content h o w k) l (w, es) xs
          (Wrapper.with_content_self hc).symm
      simp only at hst
      subst hst
      simp only [addAll, exec_bind, exec_discard, exec_sequence, exec_bound, exec_checkAll, hc, ho,
        hnull, Option.map_none, Option.elim, insertEach, hloop, exec_ite, exec_changed] at hok
      split_ifs at hok <;>
        · simp only [exec_pure, Prod.mk.injEq, Except.ok.injEq] at hok
          obtain ⟨rfl, rfl⟩ := hok
          exact ⟨rfl, rfl⟩

theorem attachCollection_ok {k : CollectionKind} {xs d : List Value}
    (hc : w.content = .collection k xs) {r : Bool} {st : Wrapper × List HostEvent}
    (hok : (attachCollection h d).exec (w, es) = (.ok r, st)) :
    st.1 = { w with content := .collection k (k.attach xs d).1 } ∧ r = (k.attach xs d).2 := by
  cases ho : w.owner with
  | none => simp [attachCollection, exec_bind, exec_sequence, exec_bound, hc, ho] at hok
  | some o =>
    obtain ⟨⟨w₁, es₁⟩, hloop, hst⟩ :=
      exec_foldlM_false (follows_removeRound h o w k false id fun _ _ => rfl)
        (xs.filter fun x => !d.contains x) (w, es) xs (Wrapper.with_content_self hc).symm
    simp only [id, Container.foldSteps_removeFirst_filter, Bool.not_not] at hloop hst
    subst hst
    -- the removals and their change notice leave the kept elements, then the copy's new
    -- elements are added, if there are any
    have hcall : ∃ es₂, (attachCollection h d).exec (w, es) =
        if (d.filter fun x => !xs.contains x).isEmpty then
          (.ok (xs.any fun x => !d.contains x),
            ({ w with content := .collection k (xs.filter d.contains) }, es₂))
        else (((xs.any fun x => !d.contains x) || ·) <$>
          addAll h (d.filter fun x => !xs.contains x)).exec
            ({ w with content := .collection k (xs.filter d.contains) }, es₂) := by
      simp only [attachCollection, exec_bind, exec_sequence, exec_bound, hc, ho, removeEach,
        hloop, bind_pure_comp, exec_ite, exec_changed]
      split_ifs <;> simp only [exec_map, exec_pure, Bool.or_false] <;> exact ⟨_, rfl⟩
    obtain ⟨es₂, hcall⟩ := hcall
    rw [hcall] at hok
    rw [CollectionKind.attach_eq]
    by_cases hfresh : (d.filter fun x => !xs.contains x).isEmpty
    · rw [if_pos hfresh] at hok
      simp only [Prod.mk.injEq, Except.ok.injEq] at hok
      obtain ⟨rfl, rfl⟩ := hok
      rw [List.isEmpty_iff.mp hfresh]
      simp [ho]
    · rw [if_neg hfresh, exec_map] at hok
      split at hok
      · next a st' hadd =>
        obtain ⟨hst, rfl⟩ := addAll_ok rfl hadd
        simp only [Prod.mk.injEq, Except.ok.injEq] at hok
        obtain ⟨rfl, rfl⟩ := hok
        exact ⟨by simp [hst, ho], rfl⟩
      · simp at hok

theorem attachMap_ok {s : Bool} {fs d : List (Value × Value)} (hc : w.content = .map s fs)
    {r : Bool} {st : Wrapper × List HostEvent} (hok : (attachMap h d).exec (w, es) = (.ok r, st)) :
    st.1 = { w with content := .map s (Container.attachEntries s fs d).1 } ∧
      r = (Container.attachEntries s fs d).2 := by
  cases ho : w.owner with
  | none => simp [attachMap, exec_bind, exec_entries, exec_bound, hc, ho] at hok
  | some o =>
    cases hv : d.findSome? fun kv => ScoCall.entryFault w.policy.allowNulls kv.1 kv.2 with
    | some f =>
      simp only [attachMap, exec_bind, exec_entries, exec_bound, exec_validateAll, hc, ho,
        hv] at hok
      simp at hok
    | none =>
      obtain ⟨⟨w₁, es₁⟩, hdrop, hst₁⟩ :=
        exec_foldlM_false (follows_dropRound_content h o w s)
          ((fs.map (·.1)).filter fun k => !d.any (·.1 == k)) (w, es) fs
          (Wrapper.with_content_self hc).symm
      simp only at hst₁
      subst hst₁
      obtain ⟨⟨w₂, es₂⟩, hput, hst₂⟩ :=
        exec_foldlM (follows_attachRound_content h o w s) d
          (foldSteps Container.dropKey fs ((fs.map (·.1)).filter fun k => !d.any (·.1 == k))).2
          (_, es₁)
          (foldSteps Container.dropKey fs ((fs.map (·.1)).filter fun k => !d.any (·.1 == k))).1 rfl
      simp only at hst₂
      subst hst₂
      simp only [ho] at hput
      simp only [attachMap, exec_bind, exec_entries, exec_bound, exec_validateAll, hc, ho, hv,
        Option.map_none, Option.elim, hdrop, hput, exec_ite, exec_changed] at hok
      split_ifs at hok <;>
        · simp only [exec_pure, Prod.mk.injEq, Except.ok.injEq] at hok
          obtain ⟨rfl, rfl⟩ := hok
          simp [Container.attachEntries]

theorem attach_scalar_ok {u v : Value} (hc : w.content = .scalar u) {r : Bool}
    {st : Wrapper × List HostEvent} (hok : (attach h (.scalar v)).exec (w, es) = (.ok r, st)) :
    st.1 = { w with content := .scalar v } ∧ r = (v != u) := by
  by_cases hv : v = u
  · subst hv
    simp [attach, exec_bind, hc] at hok
    obtain ⟨rfl, rfl⟩ := hok
    exact ⟨(Wrapper.with_content_self hc).symm, by simp⟩
  · simp only [attach, setScalar, exec_bind, exec_wrapper, hc, beq_iff_eq, hv, if_false,
      exec_discard, exec_bound] at hok
    cases ho : w.owner with
    | none => simp [ho] at hok
    | some o =>
      by_cases hnull : (v.isNull && !w.policy.allowNulls) = true
      · simp [ho, exec_checkNullable, hnull] at hok
      · simp [ho, exec_checkNullable, exec_changed, hnull] at hok
        obtain ⟨rfl, rfl⟩ := hok
        simp [hv]

theorem attach_ok {d : FieldData} {r : Bool} {st : Wrapper × List HostEvent}
    (hok : (attach h d).exec (w, es) = (.ok r, st)) :
    w.content.attach d = some (st.1.content, r) ∧ st.1 = { w with content := st.1.content } := by
  rcases hc : w.content with ⟨k, xs⟩ | ⟨s, fs⟩ | u <;> rcases d with v | ds | ds <;>
    simp only [attach, exec_bind, exec_wrapper, hc, exec_throw, reduceCtorEq, Prod.mk.injEq,
      false_and] at hok
  case collection.collection =>
    obtain ⟨hst, rfl⟩ := attachCollection_ok hc hok
    simp [hst, Content.attach]
  case map.map =>
    obtain ⟨hst, rfl⟩ := attachMap_ok hc hok
    simp [hst, Content.attach]
  case scalar.scalar =>
    obtain ⟨hst, rfl⟩ := attach_scalar_ok hc (by simpa only [attach, exec_bind, exec_wrapper, hc] using hok)
    simp [hst, Content.attach]

end WrapperCall

/-! ## What an attach asks for -/

/-- A request that cascades nowhere: an operation queued without cascade or, where `values`
allows it, the delete of a persistable value. -/
def HostEvent.Gentle (values : Bool) : HostEvent → Prop
  | .enqueue op => op.allowCascade = false
  | .deleteDependent v => values = true ∧ v.isPersistable = true
  | _ => True

namespace WrapperCall

open Std.Do

def Gentle (values : Bool) (st : Wrapper × List HostEvent) : Prop :=
  ∀ ev ∈ st.2, ev.Gentle values

def GentleUnder (values : Bool) (st : Wrapper × List HostEvent) : Prop :=
  st.1.policy.dependentValues = values ∧ Gentle values st

abbrev holds (P : Wrapper × List HostEvent → Prop) {α} :
    PostCond α (.except EngineError (.arg (Wrapper × List HostEvent) .pure)) :=
  post⟨fun _ s => ⌜P s⌝, fun _ s => ⌜P s⌝⟩

section Gentle

variable {h : HostView} {o : FieldOwner} {values : Bool}

@[simp] theorem gentle_append {w : Wrapper} {es more : List HostEvent} :
    Gentle values (w, es ++ more) ↔ Gentle values (w, es) ∧ ∀ ev ∈ more, ev.Gentle values := by
  simp only [Gentle, List.mem_append, or_imp, forall_and]

@[simp] theorem gentle_content {w : Wrapper} {es : List HostEvent} {c : Content} :
    Gentle values ({ w with content := c }, es) ↔ Gentle values (w, es) := Iff.rfl

theorem changed_gentle (R : Wrapper → Prop) :
    ⦃fun s => ⌜R s.1 ∧ Gentle values s⌝⦄ changed h o ⦃holds fun s => R s.1 ∧ Gentle values s⦄ := by
  mvcgen [changed, emit]
  all_goals simp_all +zetaDelta [HostEvent.Gentle]

theorem checks_keeps (P : Wrapper × List HostEvent → Prop) (l : List Value) :
    ⦃fun s => ⌜P s⌝⦄ l.forM checkNullable ⦃holds P⦄ := by
  refine forM_spec l fun e _ => ?_
  mvcgen [checkNullable, wrapper]

/-! ### Collections and scalars, which ask for no delete -/

theorem removeRound_gentle (any : Bool) (e : Value) :
    ⦃fun s => ⌜Gentle false s⌝⦄ removeRound h o false any e ⦃holds (Gentle false)⦄ := by
  mvcgen [removeRound, cascadeRemoval, sequence, wrapper, setContent, emit]
  all_goals simp_all +zetaDelta [HostEvent.Gentle, Operation.remove]

theorem removeEach_gentle (l : List Value) :
    ⦃fun s => ⌜Gentle false s⌝⦄ removeEach h o l false ⦃holds (Gentle false)⦄ := by
  have hRound := @removeRound_gentle h o
  mvcgen [removeEach, hRound] invariants
  | inv1 => holds (Gentle false)
  all_goals exact id

theorem insertRound_gentle (any : Bool) (e : Value) :
    ⦃fun s => ⌜Gentle false s⌝⦄ insertRound h o any e ⦃holds (Gentle false)⦄ := by
  mvcgen [insertRound, sequence, wrapper, setContent, emit]
  all_goals simp_all +zetaDelta [HostEvent.Gentle, Operation.add]

theorem insertEach_gentle (l : List Value) :
    ⦃fun s => ⌜Gentle false s⌝⦄ insertEach h o l ⦃holds (Gentle false)⦄ := by
  have hRound := @insertRound_gentle h o
  mvcgen [insertEach, hRound] invariants
  | inv1 => holds (Gentle false)
  all_goals exact id

theorem addAll_gentle (l : List Value) :
    ⦃fun s => ⌜Gentle false s⌝⦄ addAll h l ⦃holds (Gentle false)⦄ := by
  have hInsertEach := @insertEach_gentle h
  have hChanged := fun o => @changed_gentle h o false fun _ => True
  have hChecks := checks_keeps (Gentle false) l
  mvcgen [addAll, sequence, wrapper, bound, hInsertEach, hChanged, hChecks]
  all_goals simp_all

theorem attachCollection_gentle (d : List Value) :
    ⦃fun s => ⌜Gentle false s⌝⦄ attachCollection h d ⦃holds (Gentle false)⦄ := by
  have hRemoveEach := @removeEach_gentle h
  have hAddAll := @addAll_gentle h
  have hChanged := fun o => @changed_gentle h o false fun _ => True
  mvcgen [attachCollection, sequence, wrapper, bound, hRemoveEach, hAddAll, hChanged]
  all_goals simp_all

theorem setScalar_gentle (v : Value) :
    ⦃fun s => ⌜Gentle false s⌝⦄ setScalar h v ⦃holds (Gentle false)⦄ := by
  have hChanged := fun o => @changed_gentle h o false fun _ => True
  mvcgen [setScalar, wrapper, bound, checkNullable, setContent, hChanged]
  all_goals simp_all

/-! ### Maps, which may delete a replaced dependent value -/

theorem removeEntry_gentle (k : Value) :
    ⦃fun s => ⌜GentleUnder values s⌝⦄ removeEntry h o k false ⦃holds (GentleUnder values)⦄ := by
  mvcgen [removeEntry, entries, wrapper, setContent, emit]
  all_goals simp_all +zetaDelta [GentleUnder, HostEvent.Gentle, Operation.remove]

theorem putEntry_gentle (k v : Value) :
    ⦃fun s => ⌜GentleUnder values s⌝⦄ putEntry h o k v ⦃holds (GentleUnder values)⦄ := by
  mvcgen [putEntry, entries, wrapper, setContent, emit]
  all_goals simp_all +zetaDelta [GentleUnder, HostEvent.Gentle, Operation.add]

theorem attachMap_gentle (d : List (Value × Value)) :
    ⦃fun s => ⌜GentleUnder values s⌝⦄ attachMap h d ⦃holds (GentleUnder values)⦄ := by
  have hRemoveEntry := fun o => @removeEntry_gentle h o values
  have hPutEntry := fun o => @putEntry_gentle h o values
  have hValidateAll := validateAll_keeps (GentleUnder values) d
  have hChanged := fun o => @changed_gentle h o values fun w => w.policy.dependentValues = values
  mvcgen [attachMap, dropRound, attachRound, entries, wrapper, bound, hRemoveEntry, hPutEntry,
    hValidateAll, hChanged] invariants
  | inv1 => holds (GentleUnder values)
  | inv2 => holds (GentleUnder values)

theorem attach_gentle {d : FieldData} (hd : ∀ ds, d ≠ .map ds) :
    ⦃fun s => ⌜Gentle false s⌝⦄ attach h d ⦃holds (Gentle false)⦄ := by
  have hSetScalar := @setScalar_gentle h
  have hAttachCollection := @attachCollection_gentle h
  mvcgen [attach, wrapper, hSetScalar, hAttachCollection]
  all_goals simp_all

end Gentle

/-- What an attach asks for: its queued operations do not cascade, and it deletes only
persistable values, of a map whose policy deletes dependent values. -/
theorem attach_requests (h : HostView) (d : FieldData) (w : Wrapper) :
    (∀ op, HostEvent.enqueue op ∈ ((attach h d).exec (w, [])).2.2 → op.allowCascade = false) ∧
      ∀ v, HostEvent.deleteDependent v ∈ ((attach h d).exec (w, [])).2.2 →
        v.isPersistable = true ∧ w.policy.dependentValues = true ∧ ∃ s fs, w.content = .map s fs := by
  -- the requests are gentle for a bound that only a map with dependent values lifts
  have hgentle : ∃ values, (values = true →
      w.policy.dependentValues = true ∧ ∃ s fs, w.content = .map s fs) ∧
      Gentle values ((attach h d).exec (w, [])).2 := by
    by_cases hd : ∃ ds, d = .map ds
    · obtain ⟨ds, rfl⟩ := hd
      rcases hc : w.content with ⟨k, xs⟩ | ⟨s, fs⟩ | u
      case map =>
        refine ⟨w.policy.dependentValues, fun hv => ⟨hv, s, fs, rfl⟩, ?_⟩
        have hmap := exec_keeps (attachMap_gentle (h := h) ds) (w, []) ⟨rfl, by simp [Gentle]⟩
        simpa [attach, exec_bind, hc] using hmap.2
      all_goals exact ⟨false, by simp, by simp [attach, exec_bind, hc, Gentle]⟩
    · exact ⟨false, by simp, exec_keeps (attach_gentle (by simpa using hd)) _ (by simp [Gentle])⟩
  obtain ⟨values, hvalues, hg⟩ := hgentle
  refine ⟨fun op hop => hg _ hop, fun v hv => ?_⟩
  obtain ⟨hval, hpers⟩ := hg _ hv
  exact ⟨hpers, hvalues hval⟩

end WrapperCall

/-- Attaching a detached copy brings a wrapper in line with it the way its shape reads it:
a set the copy's elements, a list the elements it held that the copy has followed by the
copy's other elements, an ordered list the same up to order, a map the copy's last value for
each key, a scalar the copy's value. It keeps the shape, answers `true` whenever the content
changed, and, for a map copy naming each key once, only then. Its queued operations do not
cascade, and its only deletes are of persistable values of a map with dependent values. -/
theorem attach_brings_copy_in_line {h : HostView} {w w' : Wrapper} {d : FieldData}
    {evs : List HostEvent} {r : Bool} (hrun : (WrapperCall.attach h d).run w = (w', evs, .ok r)) :
    w.content.Attached d w'.detachCopy ∧ w'.shape = w.shape ∧
      (w'.content ≠ w.content → r = true) ∧
      ((∀ ds, d = .map ds → Container.KeysNodup ds) → r = true → w'.content ≠ w.content) ∧
      (∀ op, HostEvent.enqueue op ∈ evs → op.allowCascade = false) ∧
      ∀ v, HostEvent.deleteDependent v ∈ evs →
        v.isPersistable = true ∧ w.policy.dependentValues = true ∧ ∃ s fs, w.content = .map s fs := by
  rw [WrapperCall.run_eq_exec] at hrun
  have hexec : (WrapperCall.attach h d).exec (w, []) = (.ok r, (w', evs)) := by
    simp only [Prod.mk.injEq] at hrun
    obtain ⟨hw, hes, hr⟩ := hrun
    rw [← hw, ← hes, ← hr]
  obtain ⟨hattach, hst⟩ := WrapperCall.attach_ok hexec
  obtain ⟨hops, hdeletes⟩ := WrapperCall.attach_requests h d w
  rw [hexec] at hops hdeletes
  simp only at hst hops hdeletes
  refine ⟨Content.attached_of_attach hattach rfl, ?_, Content.attach_flag_of_ne hattach,
    Content.attach_ne_of_flag hattach, hops, hdeletes⟩
  rw [hst]
  exact Content.shape_attach hattach rfl

/-- A list holding `a, b` attached to the copy `c, b` keeps `b` where it was and appends `c`. -/
theorem list_attach_appends_new_elements :
    (Content.collection .list [.text "a", .text "b"]).Attached (.collection [.text "c", .text "b"])
      (.collection [.text "b", .text "c"]) :=
  (@attach_brings_copy_in_line ⟨false, false, true⟩
    ⟨some ⟨⟨0⟩, 0⟩, {}, .collection .list [.text "a", .text "b"]⟩
    ⟨some ⟨⟨0⟩, 0⟩, {}, .collection .list [.text "b", .text "c"]⟩
    (.collection [.text "c", .text "b"]) [.makeDirty ⟨⟨0⟩, 0⟩, .makeDirty ⟨⟨0⟩, 0⟩] true
    (by decide)).1

/-- Attaching neither brings back a list's order nor an ordered list's repeated elements; it
answers `true` for a map copy whose later entry undoes an earlier one, leaving the map as it
was; and a put that replaces a dependent map value asks for that value's delete. -/
theorem attach_keeps_order_and_deletes_replaced_values :
    let v : HostView := ⟨false, true, true⟩
    let o : Option FieldOwner := some ⟨⟨0⟩, 0⟩
    let a := Value.text "a"
    let b := Value.text "b"
    let k := Value.text "k"
    let p := Value.ref ⟨1⟩
    let q := Value.ref ⟨2⟩
    (WrapperCall.attach v (.collection [b, a])).run ⟨o, {}, .collection .list [a, b]⟩ =
        (⟨o, {}, .collection .list [a, b]⟩, [], .ok false) ∧
      (WrapperCall.attach v (.collection [a, a])).run ⟨o, {}, .collection .orderedList [a]⟩ =
        (⟨o, {}, .collection .orderedList [a]⟩, [], .ok false) ∧
      ((WrapperCall.attach v (.map [(k, .integer 2), (k, .integer 1)])).run
          ⟨o, {}, .map false [(k, .integer 1)]⟩).1.content = .map false [(k, .integer 1)] ∧
      ((WrapperCall.attach v (.map [(k, .integer 2), (k, .integer 1)])).run
          ⟨o, {}, .map false [(k, .integer 1)]⟩).2.2 = .ok true ∧
      HostEvent.deleteDependent p ∈ ((WrapperCall.attach v (.map [(k, q)])).run
          ⟨o, { dependentValues := true, valuesHaveIdentity := true }, .map false [(k, p)]⟩).2.1 := by
  decide +kernel

end ObjectPersistence
