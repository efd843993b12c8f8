import Mathlib
import ObjectPersistence.Proofs.ValueOrder

/-! # Ordered lists

An ordered list holds its elements in value order, duplicates included. A fresh one sorts
what it is given; an insertion puts the element after every element that sorts no later, a
removal takes out the first element equal to the one named, and clearing empties it. Along
every run of these changes the content stays sorted and holds exactly the elements put in and
not taken out, counted with multiplicity.

The order is total and agrees with equality, so in sorted content the elements below a value
come first and the element just after them is the value whenever it is held: a search for the
first element not below a value finds the value exactly when linear membership does, and
removing at that place removes the first equal element. -/

namespace ObjectPersistence

namespace Container

open Value

/-- A change made to the content of an ordered list. -/
inductive OrderedChange where
  | insert (e : Value)
  | remove (e : Value)
  | clear

namespace OrderedChange

def apply : OrderedChange → List Value → List Value
  | insert e, xs => (CollectionKind.orderedList.insert xs e).1
  | remove e, xs => (removeFirst xs e).1
  | clear, _ => []

/-- The elements held after a change, counted with multiplicity: an insertion adds a copy,
a removal takes a copy away when there is one, and clearing leaves none. -/
def held : OrderedChange → Multiset Value → Multiset Value
  | insert e, m => e ::ₘ m
  | remove e, m => m.erase e
  | clear, _ => 0

theorem apply_sorted {xs : List Value} (hs : Sorted xs) : ∀ c : OrderedChange, Sorted (c.apply xs)
  | insert e => insertSorted_sorted hs e
  | remove _ => hs.sublist List.erase_sublist
  | clear => List.Pairwise.nil

theorem apply_held (xs : List Value) : ∀ c : OrderedChange,
    ((c.apply xs : List Value) : Multiset Value) = c.held xs
  | insert e => Multiset.coe_eq_coe.2 (insertSorted_perm xs e)
  | remove e => (Multiset.coe_erase xs e).symm
  | clear => rfl

end OrderedChange

def applyAll (cs : List OrderedChange) (xs : List Value) : List Value :=
  cs.foldl (fun xs c => c.apply xs) xs

def heldAll (cs : List OrderedChange) (m : Multiset Value) : Multiset Value :=
  cs.foldl (fun m c => c.held m) m

theorem applyAll_sorted (cs : List OrderedChange) {xs : List Value} (hs : Sorted xs) :
    Sorted (applyAll cs xs) := by
  induction cs generalizing xs with
  | nil => exact hs
  | cons c cs ih => exact ih (c.apply_sorted hs)

theorem applyAll_held (cs : List OrderedChange) (xs : List Value) :
    ((applyAll cs xs : List Value) : Multiset Value) = heldAll cs xs := by
  induction cs generalizing xs with
  | nil => rfl
  | cons c cs ih =>
    simp only [applyAll, heldAll, List.foldl_cons] at ih ⊢
    rw [ih, c.apply_held]

theorem count_insertSorted (xs : List Value) (e x : Value) :
    (insertSorted xs e).count x = xs.count x + if e = x then 1 else 0 := by
  rw [(insertSorted_perm xs e).count_eq, List.count_cons]
  simp only [beq_iff_eq]

/-! ### Searching sorted content

The search the ordered list stands for: the elements below a value form a prefix of sorted
content, and the first element after that prefix is the value whenever the value is held. -/

def below (e x : Value) : Bool := Value.compare x e == .lt

theorem not_below_self (e : Value) : below e e = false := by
  simp [below, Std.ReflCmp.compare_self]

theorem head_dropWhile_below {xs : List Value} (hs : Sorted xs) (e : Value) :
    xs.contains e = true ↔ (xs.dropWhile (below e)).head? = some e := by
  constructor
  · intro he
    have hmem : e ∈ xs := List.contains_iff_mem.1 he
    -- `e` is not below itself, so it lies past the prefix of elements below it
    have hdrop : e ∈ xs.dropWhile (below e) := by
      have hsplit : xs.takeWhile (below e) ++ xs.dropWhile (below e) = xs :=
        List.takeWhile_append_dropWhile
      rw [← hsplit] at hmem
      rcases List.mem_append.1 hmem with ht | hd
      · simpa [not_below_self] using List.mem_takeWhile_imp ht
      · exact hd
    obtain ⟨h, rest, hd⟩ := List.exists_cons_of_ne_nil (List.ne_nil_of_mem hdrop)
    have hh : below e h = false := by
      simpa [hd] using List.head_dropWhile_not (below e) (show xs.dropWhile (below e) ≠ [] by simp [hd])
    have heh : le e h := le_of_compare_ne_lt (by simpa [below] using hh)
    have hsorted : Sorted (h :: rest) := hd ▸ hs.sublist (List.dropWhile_sublist _)
    rw [hd] at hdrop ⊢
    rcases List.mem_cons.1 hdrop with rfl | hrest
    · rfl
    · exact congrArg some (le_antisymm (List.rel_of_pairwise_cons hsorted hrest) heh)
  · intro hd
    exact List.contains_iff_mem.2 ((List.dropWhile_sublist _).subset (List.mem_of_mem_head? hd))

/-- In sorted content, removing the first element equal to a held `e` removes the element
just past the prefix of elements below `e`. -/
theorem erase_eq_search {xs : List Value} (hs : Sorted xs) {e : Value} (he : xs.contains e) :
    xs.erase e = xs.takeWhile (below e) ++ (xs.dropWhile (below e)).tail := by
  obtain ⟨rest, hd⟩ : ∃ rest, xs.dropWhile (below e) = e :: rest := by
    have hhead := (head_dropWhile_below hs e).1 he
    cases hd : xs.dropWhile (below e) with
    | nil => simp [hd] at hhead
    | cons h rest => exact ⟨rest, by simpa [hd] using hhead⟩
  have hnot : e ∉ xs.takeWhile (below e) := fun ht => by
    simpa [not_below_self] using List.mem_takeWhile_imp ht
  have hsplit : xs.takeWhile (below e) ++ xs.dropWhile (below e) = xs :=
    List.takeWhile_append_dropWhile
  conv_lhs => rw [← hsplit, hd]
  rw [List.erase_append_right _ hnot, List.erase_cons_head, hd, List.tail_cons]

end Container

open Container in
/-- The laws of ordered lists: from a fresh ordered list, every run of insertions, removals
and clearings leaves sorted content that holds exactly the elements put in and not taken out;
from there an insertion adds one copy and answers yes, a removal takes one copy away and
answers whether there was one, and the search for the first element not below a value finds
it exactly when it is held, a held one being removed at that place. -/
theorem ordered_list_stays_sorted_and_counted (vs : List Value) (cs : List OrderedChange) :
    let xs := applyAll cs (CollectionKind.orderedList.ofValues vs)
    Value.Sorted xs ∧ (xs : Multiset Value) = heldAll cs vs ∧
    ∀ e : Value,
      ((CollectionKind.orderedList.insert xs e).2 = true ∧
        ∀ x, (CollectionKind.orderedList.insert xs e).1.count x =
          xs.count x + if e = x then 1 else 0) ∧
      ((removeFirst xs e).2 = xs.contains e ∧
        ∀ x, (removeFirst xs e).1.count x = xs.count x - if e = x then 1 else 0) ∧
      (xs.contains e = true ↔ (xs.dropWhile (below e)).head? = some e) ∧
      (xs.contains e = true →
        (removeFirst xs e).1 = xs.takeWhile (below e) ++ (xs.dropWhile (below e)).tail) := by
  intro xs
  have hs : Value.Sorted xs := applyAll_sorted cs (Value.sort_sorted vs)
  have hheld : (xs : Multiset Value) = heldAll cs vs := by
    rw [applyAll_held]
    exact congrArg (heldAll cs) (Multiset.coe_eq_coe.2 (Value.sort_perm vs))
  refine ⟨hs, hheld, fun e => ⟨⟨rfl, count_insertSorted xs e⟩, ⟨rfl, fun x => ?_⟩,
    head_dropWhile_below hs e, erase_eq_search hs⟩⟩
  rw [removeFirst, List.count_erase]
  simp only [beq_iff_eq]

example : Container.applyAll [.insert (.integer 3), .insert (.integer 3), .remove (.integer 5)]
    (CollectionKind.orderedList.ofValues [.integer 5, .integer 1]) =
      [.integer 1, .integer 3, .integer 3] := by cbv

end ObjectPersistence
