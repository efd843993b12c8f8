import Mathlib
import ObjectPersistence.Proofs.ValueOrder

/-! # Sets of values

A sorted set and a hash set built from the same values hold the same number of them. The
order of values finds two values equal exactly when they are equal, and equal values hash
alike, so both containers keep one copy of each distinct value: the sorted set its distinct
values in value order, the hash set the first occurrences of the list.

The main statement gathers the laws the sorted containers rest on: the comparison is a
total order, equal exactly on equal values, with kinds ranked; hashing agrees with equality;
sorting gives a non-decreasing permutation; and the two sets have one size. -/

namespace ObjectPersistence

namespace Value

theorem size_hashSet_ofList (xs : List Value) :
    (Std.HashSet.ofList xs).size = (Container.dedupFirst xs).length := by
  have hequiv :
      (Std.HashSet.ofList xs).Equiv (Std.HashSet.ofList (Container.dedupFirst xs)) :=
    Std.HashSet.Equiv.of_forall_mem_iff fun k => by
      simp only [Std.HashSet.mem_ofList, List.contains_eq_mem, decide_eq_true_eq,
        Container.mem_dedupFirst]
  -- the first occurrences are pairwise different, so none of them is dropped
  have hdistinct : (Container.dedupFirst xs).Pairwise fun a b => (a == b) = false :=
    (Container.dedupFirst_nodup xs).imp fun hne => beq_eq_false_iff_ne.mpr hne
  rw [hequiv.size_eq, Std.HashSet.size_ofList hdistinct]

theorem length_distinct_eq_size_hashSet (xs : List Value) :
    (distinct xs).length = (Std.HashSet.ofList xs).size := by
  rw [size_hashSet_ofList, distinct_eq_sort_dedupFirst, (sort_perm _).length_eq]

/-- Values are totally ordered: the comparison is reflexive, turns over when its sides swap,
is transitive and total, and finds two values equal exactly when they are; values of
different kinds compare by the rank of their kinds. Equal values hash alike. Sorting a list
gives a non-decreasing permutation of it, and the sorted set and the hash set built from a
list hold equally many values. -/
theorem values_totally_ordered_and_hashed :
    (∀ a : Value, compare a a = .eq) ∧
    (∀ a b : Value, compare b a = (compare a b).swap) ∧
    (∀ a b c : Value, (compare a b).isLE → (compare b c).isLE → (compare a c).isLE) ∧
    (∀ a b : Value, (compare a b).isLE ∨ (compare b a).isLE) ∧
    (∀ a b : Value, (compare a b).isLE → (compare b a).isLE → (a == b) = true) ∧
    (∀ a b : Value, compare a b = .eq ↔ (a == b) = true) ∧
    (∀ a b : Value, a.rank ≠ b.rank → compare a b = Ord.compare a.rank b.rank) ∧
    (∀ a b : Value, (a == b) = true → hash a = hash b) ∧
    ∀ xs : List Value, (sort xs).Perm xs ∧ Sorted (sort xs) ∧
      (distinct xs).length = (Std.HashSet.ofList xs).size := by
  refine ⟨fun a => Std.ReflCmp.compare_self, fun a b => Std.OrientedCmp.eq_swap,
    fun a b c => Std.TransCmp.isLE_trans, fun a b => ?_, fun a b hab hba => ?_,
    fun a b => ?_, fun a b => compare_of_rank_ne, fun a b => hash_eq,
    fun xs => ⟨sort_perm xs, sort_sorted xs, length_distinct_eq_size_hashSet xs⟩⟩
  · -- totality is the order of `le`, read through the comparison
    have htotal := le_total a b
    rw [le_eq_isLE, le_eq_isLE, Bool.or_eq_true] at htotal
    exact htotal
  · exact beq_iff_eq.mpr (compare_eq_iff.mp (Std.OrientedCmp.isLE_antisymm hab hba))
  · rw [compare_eq_iff, beq_iff_eq]

end Value

end ObjectPersistence
