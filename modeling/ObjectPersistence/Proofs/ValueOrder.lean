import Mathlib
import ObjectPersistence.Wrapper.Container

/-! # The order of values

Values compare first by the rank of their kind and then by the kind's own order: texts by
code points, integers and timestamps numerically, floats through the key that makes their
bits a total order, byte strings lexicographically, references by identifier. This module
shows the comparison to be a lawful total order, oriented, transitive and equal exactly on
equal values, and derives the facts sorting rests on: a sorted list is fixed by its
elements, and inserting after the elements that sort no later keeps a list sorted. -/

namespace ObjectPersistence

namespace Binary64

theorem totalKey_injective : Function.Injective totalKey := by
  intro a b h
  have ha := a.toNat_lt
  have hb := b.toNat_lt
  have h63 : signBit = 9223372036854775808 := rfl
  have h64 : Nat.pow 2 64 = 18446744073709551616 := rfl
  simp only [totalKey, h63, h64] at h
  apply UInt64.toNat_inj.mp
  split at h <;> split at h <;> omega

end Binary64

namespace Value

/-! ## A lawful comparison -/

theorem compare_of_rank_ne {a b : Value} (h : a.rank ≠ b.rank) :
    compare a b = Ord.compare a.rank b.rank := by
  cases a <;> cases b <;> simp [rank] at h <;> rfl

theorem rank_le_of_isLE {a b : Value} (h : (compare a b).isLE) : a.rank ≤ b.rank := by
  by_cases hr : a.rank = b.rank
  · exact Nat.le_of_eq hr
  · rw [compare_of_rank_ne hr] at h
    exact Nat.isLE_compare.mp h

theorem compareBytes_eq (a b : List UInt8) :
    compareBytes a b = List.compareLex (compareOn UInt8.toNat) a b := by
  induction a generalizing b with
  | nil => cases b <;> rfl
  | cons x xs ih =>
    cases b with
    | nil => rfl
    | cons y ys =>
      rw [compareBytes, List.compareLex_cons_cons, ← ih]
      simp only [compareOn]
      cases Ord.compare x.toNat y.toNat <;> rfl

instance : Std.LawfulEqCmp (compareOn UInt8.toNat) where
  compare_self := Std.ReflCmp.compare_self
  eq_of_compare h := UInt8.toNat_inj.mp (Nat.compare_eq_eq.mp h)

instance : Std.LawfulEqCmp (compareOn Binary64.totalKey) where
  compare_self := Std.ReflCmp.compare_self
  eq_of_compare h := Binary64.totalKey_injective (Nat.compare_eq_eq.mp h)

instance : Std.LawfulEqCmp (compareOn ObjectId.val) where
  compare_self := Std.ReflCmp.compare_self
  eq_of_compare {a b} h := by
    cases a
    cases b
    simpa using Nat.compare_eq_eq.mp h

-- Within one kind the comparison is the kind's own comparator.
theorem compare_null : compare null null = Ord.compare 0 0 := rfl
theorem compare_text (a b : String) : compare (text a) (text b) = Ord.compare a b := rfl
theorem compare_integer (a b : Int) : compare (integer a) (integer b) = Ord.compare a b := rfl
theorem compare_float (a b : UInt64) :
    compare (float a) (float b) = compareOn Binary64.totalKey a b := rfl
theorem compare_boolean (a b : Bool) : compare (boolean a) (boolean b) = Ord.compare a b := rfl
theorem compare_timestamp (a b : Int) :
    compare (timestamp a) (timestamp b) = Ord.compare a b := rfl
theorem compare_ref (a b : ObjectId) : compare (ref a) (ref b) = compareOn ObjectId.val a b := rfl
theorem compare_bytes (a b : List UInt8) :
    compare (bytes a) (bytes b) = List.compareLex (compareOn UInt8.toNat) a b :=
  compareBytes_eq a b

instance : Std.OrientedCmp compare where
  eq_swap {a b} := by
    by_cases hr : a.rank = b.rank
    · cases a <;> cases b <;> simp [rank] at hr <;>
        simp only [compare_null, compare_text, compare_integer, compare_float, compare_boolean,
          compare_timestamp, compare_ref, compare_bytes] <;>
        exact Std.OrientedCmp.eq_swap
    · rw [compare_of_rank_ne hr, compare_of_rank_ne (Ne.symm hr)]
      exact Std.OrientedCmp.eq_swap

instance : Std.TransCmp compare where
  isLE_trans {a b c} hab hbc := by
    have h₁ := rank_le_of_isLE hab
    have h₂ := rank_le_of_isLE hbc
    by_cases hac : a.rank = c.rank
    · -- the three values are of one kind: its own comparator is transitive
      have hab' : a.rank = b.rank := by omega
      have hbc' : b.rank = c.rank := by omega
      cases a <;> cases b <;> simp [rank] at hab' <;> cases c <;> simp [rank] at hbc' <;>
        simp only [compare_null, compare_text, compare_integer, compare_float, compare_boolean,
          compare_timestamp, compare_ref, compare_bytes] at hab hbc ⊢ <;>
        exact Std.TransCmp.isLE_trans hab hbc
    · have hlt : a.rank < c.rank := by omega
      rw [compare_of_rank_ne hac, Nat.compare_eq_lt.mpr hlt]
      rfl

instance : Std.LawfulEqCmp compare where
  compare_self := Std.ReflCmp.compare_self
  eq_of_compare {a b} h := by
    by_cases hr : a.rank = b.rank
    · cases a <;> cases b <;> simp [rank] at hr <;>
        simp only [compare_null, compare_text, compare_integer, compare_float, compare_boolean,
          compare_timestamp, compare_ref, compare_bytes] at h <;>
        congr 1 <;> exact Std.LawfulEqCmp.eq_of_compare h
    · rw [compare_of_rank_ne hr] at h
      exact absurd (Nat.compare_eq_eq.mp h) hr

theorem compare_eq_iff {a b : Value} : compare a b = .eq ↔ a = b :=
  Std.LawfulEqCmp.compare_eq_iff_eq

/-! ## Sorting no later -/

theorem le_eq_isLE (a b : Value) : le a b = (compare a b).isLE := by
  unfold le
  cases compare a b <;> rfl

theorem le_refl (a : Value) : le a a := by
  rw [le_eq_isLE]
  exact Std.ReflCmp.isLE_rfl

theorem le_trans {a b c : Value} (hab : le a b) (hbc : le b c) : le a c := by
  rw [le_eq_isLE] at *
  exact Std.TransCmp.isLE_trans hab hbc

theorem le_antisymm {a b : Value} (hab : le a b) (hba : le b a) : a = b := by
  rw [le_eq_isLE] at hab hba
  exact compare_eq_iff.mp (Std.OrientedCmp.isLE_antisymm hab hba)

theorem le_of_not_le {a b : Value} (h : ¬ le a b) : le b a := by
  rw [le_eq_isLE] at h ⊢
  have hgt : compare a b = .gt := by
    cases hc : compare a b <;> simp_all [Ordering.isLE]
  rw [Std.OrientedCmp.gt_iff_lt.mp hgt]
  rfl

theorem le_total (a b : Value) : le a b || le b a := by
  by_cases h : le a b
  · simp [h]
  · simp [le_of_not_le h]

theorem le_of_compare_lt {a b : Value} (h : compare a b = .lt) : le a b := by
  rw [le_eq_isLE, h]
  rfl

theorem le_of_compare_ne_lt {a b : Value} (h : compare a b ≠ .lt) : le b a := by
  have hswap : compare b a = (compare a b).swap := Std.OrientedCmp.eq_swap
  rw [le_eq_isLE, hswap, Ordering.isLE_swap]
  cases hc : compare a b <;> simp_all [Ordering.isGE]

/-! ## Sorted lists -/

abbrev Sorted (xs : List Value) : Prop := xs.Pairwise fun a b => le a b

theorem sort_perm (xs : List Value) : (sort xs).Perm xs := List.mergeSort_perm xs le

theorem sort_sorted (xs : List Value) : Sorted (sort xs) := by
  show (xs.mergeSort le).Pairwise fun a b => le a b
  exact @List.pairwise_mergeSort Value le (fun _ _ _ h₁ h₂ => le_trans h₁ h₂) le_total xs

theorem mem_sort {e : Value} {xs : List Value} : e ∈ sort xs ↔ e ∈ xs := (sort_perm xs).mem_iff

theorem eq_sort_of_perm {l xs : List Value} (hl : Sorted l) (hp : l.Perm xs) : l = sort xs :=
  List.Perm.eq_of_pairwise (fun _ _ _ _ hab hba => le_antisymm hab hba) hl (sort_sorted xs)
    (hp.trans (sort_perm xs).symm)

theorem sort_erase (xs : List Value) (e : Value) : sort (xs.erase e) = (sort xs).erase e :=
  (eq_sort_of_perm ((sort_sorted xs).sublist List.erase_sublist) ((sort_perm xs).erase e)).symm

theorem sort_filter (xs : List Value) (p : Value → Bool) :
    sort (xs.filter p) = (sort xs).filter p :=
  (eq_sort_of_perm ((sort_sorted xs).sublist List.filter_sublist) ((sort_perm xs).filter p)).symm

end Value

theorem pairwise_takeWhile_cons_dropWhile {α : Type} {r : α → α → Prop}
    (trans : ∀ a b c, r a b → r b c → r a c) {l : List α} (hs : l.Pairwise r)
    {p : α → Bool} {x : α} (hbefore : ∀ y ∈ l, p y → r y x) (hafter : ∀ y ∈ l, ¬ p y → r x y) :
    (l.takeWhile p ++ x :: l.dropWhile p).Pairwise r := by
  have hsplit : l.takeWhile p ++ l.dropWhile p = l := List.takeWhile_append_dropWhile
  have hs' := hsplit ▸ hs
  obtain ⟨htake, hdrop, hcross⟩ := List.pairwise_append.mp hs'
  refine List.pairwise_append.mpr ⟨htake, List.pairwise_cons.mpr ⟨?_, hdrop⟩, ?_⟩
  · -- the first element left behind does not go before `x`, and the rest follow it
    cases hd : l.dropWhile p with
    | nil => simp
    | cons y₀ rest =>
      have hy₀ : p y₀ = false := by
        simpa [hd] using List.head_dropWhile_not p (show l.dropWhile p ≠ [] by simp [hd])
      have hy₀l : y₀ ∈ l := (List.dropWhile_sublist p).subset (by simp [hd])
      have hx₀ : r x y₀ := hafter y₀ hy₀l (by simp [hy₀])
      rw [hd] at hdrop
      intro y hy
      rcases List.mem_cons.mp hy with rfl | hy
      · exact hx₀
      · exact trans _ _ _ hx₀ (List.rel_of_pairwise_cons hdrop hy)
  · intro a ha b hb
    rcases List.mem_cons.mp hb with rfl | hb
    · exact hbefore a ((List.takeWhile_sublist p).subset ha) (List.mem_takeWhile_imp ha)
    · exact hcross a ha b hb

namespace Container

open Value

theorem insertSorted_perm (xs : List Value) (e : Value) : (insertSorted xs e).Perm (e :: xs) := by
  unfold insertSorted
  refine List.perm_middle.trans ?_
  rw [List.takeWhile_append_dropWhile]

theorem insertSorted_sorted {xs : List Value} (hs : Sorted xs) (e : Value) :
    Sorted (insertSorted xs e) := by
  unfold insertSorted
  refine pairwise_takeWhile_cons_dropWhile ?_ hs ?_ ?_
  · exact fun _ _ _ => le_trans
  · exact fun _ _ h => h
  · exact fun _ _ h => le_of_not_le h

theorem insertSorted_sort (xs : List Value) (e : Value) :
    insertSorted (sort xs) e = sort (xs ++ [e]) := by
  apply eq_sort_of_perm (insertSorted_sorted (sort_sorted xs) e)
  exact ((insertSorted_perm _ e).trans ((sort_perm xs).cons e)).trans
    (List.perm_append_singleton e xs).symm

abbrev KeySorted (es : List (Value × Value)) : Prop := es.Pairwise fun a b => le a.1 b.1

theorem insertEntrySorted_perm (es : List (Value × Value)) (k v : Value) :
    (insertEntrySorted es k v).Perm ((k, v) :: es) := by
  unfold insertEntrySorted
  refine List.perm_middle.trans ?_
  rw [List.takeWhile_append_dropWhile]

theorem insertEntrySorted_sorted {es : List (Value × Value)} (hs : KeySorted es) (k v : Value) :
    KeySorted (insertEntrySorted es k v) := by
  unfold insertEntrySorted
  refine pairwise_takeWhile_cons_dropWhile ?_ hs ?_ ?_
  · exact fun _ _ _ => le_trans
  · exact fun _ _ h => le_of_compare_lt (by simpa using h)
  · exact fun _ _ h => le_of_compare_ne_lt (by simpa using h)

/-! ## First occurrences -/

theorem mem_dedupFirst {x : Value} : ∀ {xs : List Value}, x ∈ dedupFirst xs ↔ x ∈ xs
  | [] => Iff.rfl
  | y :: ys => by
    by_cases hxy : x = y <;> simp [dedupFirst, mem_dedupFirst, hxy]

theorem dedupFirst_nodup : ∀ xs : List Value, (dedupFirst xs).Nodup
  | [] => List.nodup_nil
  | y :: ys => List.nodup_cons.mpr ⟨by simp, (dedupFirst_nodup ys).filter _⟩

end Container

namespace Value

theorem dedupAdjacent_sublist (l : List Value) : (dedupAdjacent l).Sublist l := by
  fun_induction dedupAdjacent l with
  | case1 b rest ih => exact ih.cons b
  | case2 a b rest _ ih => exact ih.cons_cons a
  | case3 => exact List.Sublist.refl _

theorem mem_dedupAdjacent {x : Value} {l : List Value} : x ∈ dedupAdjacent l ↔ x ∈ l := by
  fun_induction dedupAdjacent l with
  | case1 b rest ih => simp [ih]
  | case2 a b rest _ ih => simp [ih]
  | case3 => exact Iff.rfl

theorem dedupAdjacent_nodup {l : List Value} (hs : Sorted l) : (dedupAdjacent l).Nodup := by
  fun_induction dedupAdjacent l with
  | case1 b rest ih => exact ih (List.pairwise_cons.mp hs).2
  | case2 a b rest hab ih =>
    obtain ⟨ha, hrest⟩ := List.pairwise_cons.mp hs
    refine List.nodup_cons.mpr ⟨fun hmem => ?_, ih hrest⟩
    have hmem := mem_dedupAdjacent.mp hmem
    -- `a` again after `b` would put `b` between two copies of `a`
    have hba : le b a := by
      rcases List.mem_cons.mp hmem with h | h
      · exact absurd h hab
      · exact List.rel_of_pairwise_cons hrest h
    exact hab (le_antisymm (ha b List.mem_cons_self) hba)
  | case3 l hl =>
    rcases l with _ | ⟨a, _ | ⟨b, rest⟩⟩
    · exact List.nodup_nil
    · exact List.nodup_singleton a
    · exact (hl a b rest rfl).elim

theorem distinct_eq_sort_dedupFirst (xs : List Value) :
    distinct xs = sort (Container.dedupFirst xs) := by
  have hsorted : Sorted (distinct xs) := (sort_sorted xs).sublist (dedupAdjacent_sublist _)
  have hnodup : (distinct xs).Nodup := dedupAdjacent_nodup (sort_sorted xs)
  have hnodup' : (sort (Container.dedupFirst xs)).Nodup :=
    (sort_perm _).nodup_iff.mpr (Container.dedupFirst_nodup xs)
  apply eq_sort_of_perm hsorted
  refine ((List.perm_ext_iff_of_nodup hnodup hnodup').mpr fun a => ?_).trans (sort_perm _)
  simp only [distinct, mem_dedupAdjacent, mem_sort, Container.mem_dedupFirst]

end Value

end ObjectPersistence
