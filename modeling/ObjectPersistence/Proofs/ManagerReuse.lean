import ObjectPersistence.Engine.Managed

/-! # Reusing managers

A context gives the manager of an object it stops managing back to a bounded free list, and
takes managers for the objects it binds from that list before it makes new ones. A manager
on the list was disconnected, but it still carries its class, its lifecycle state, its
version and the size of its bitmaps and slots; binding it to another object sets every one of
them again.

Main statement: along every run of takes and give-backs from an empty free list, the list
never holds more managers than its capacity, and every manager handed out is the fresh
manager of the object, class and lifecycle state it was asked for, reused or not. -/

namespace ObjectPersistence

namespace ManagerPool

/-- A call made on the free list: take a manager for an object, or give one back. -/
inductive Call where
  | acquire (id : ObjectId) (cls : ClassMeta) (lifecycle : LifecycleState)
  | release (m : ManagedObject)

namespace Call

def step : Call → ManagerPool → Option ManagedObject × ManagerPool
  | acquire id cls lifecycle, p =>
    let r := p.acquire id cls lifecycle
    (some r.1, r.2)
  | release m, p => (none, p.release m)

def fresh : Call → Option ManagedObject
  | acquire id cls lifecycle => some (.create id cls lifecycle)
  | release _ => none

theorem step_fst (c : Call) (p : ManagerPool) : (c.step p).1 = c.fresh := by
  cases c with
  | acquire id cls lifecycle => simp only [step, fresh, acquire_fst]
  | release m => rfl

theorem step_capacity (c : Call) (p : ManagerPool) : (c.step p).2.capacity = p.capacity := by
  cases c with
  | acquire id cls lifecycle => exact p.acquire_capacity id cls lifecycle
  | release m => exact p.release_capacity m

theorem step_free_le (c : Call) {p : ManagerPool} (h : p.free.length ≤ p.capacity) :
    (c.step p).2.free.length ≤ (c.step p).2.capacity := by
  cases c with
  | acquire id cls lifecycle => exact p.acquire_free_le id cls lifecycle h
  | release m => exact p.release_free_le m h

end Call

def run : List Call → ManagerPool → List ManagedObject × ManagerPool
  | [], p => ([], p)
  | c :: cs, p =>
    let rest := run cs (c.step p).2
    ((c.step p).1.toList ++ rest.1, rest.2)

theorem run_capacity (cs : List Call) (p : ManagerPool) : (run cs p).2.capacity = p.capacity := by
  induction cs generalizing p with
  | nil => rfl
  | cons c cs ih => rw [run, ih, c.step_capacity]

theorem run_free_le (cs : List Call) {p : ManagerPool} (h : p.free.length ≤ p.capacity) :
    (run cs p).2.free.length ≤ (run cs p).2.capacity := by
  induction cs generalizing p with
  | nil => exact h
  | cons c cs ih => exact ih (c.step_free_le h)

theorem run_handed_out (cs : List Call) (p : ManagerPool) :
    (run cs p).1 = cs.filterMap Call.fresh := by
  induction cs generalizing p with
  | nil => rfl
  | cons c cs ih =>
    rw [run, ih, c.step_fst]
    cases c <;> rfl

/-- From an empty free list of any capacity, every run of takes and give-backs keeps the list
within the capacity, and hands out, for each take, the manager a fresh binding of its object,
class and lifecycle state makes: the same identity, class and state, nothing loaded or dirty
in bitmaps of the class's size, one empty slot per field, no version, bound, and neither
persisted explicitly nor in the current transaction. -/
theorem run_bounded_and_hands_out_fresh (capacity : Nat) (calls : List Call) :
    (run calls { capacity }).2.free.length ≤ capacity ∧
      (run calls { capacity }).1 = calls.filterMap Call.fresh := by
  have hbound : (run calls { capacity }).2.free.length ≤ (run calls { capacity }).2.capacity :=
    run_free_le calls (Nat.zero_le capacity)
  rw [run_capacity] at hbound
  exact ⟨hbound, run_handed_out calls _⟩

-- A manager given back is the one the next take reuses, and with room for one it is kept.
example :
    let r := run [.acquire ⟨1⟩ { name := "Note" } .transient,
      .release (.create ⟨1⟩ { name := "Note" } .persistentDirty),
      .acquire ⟨2⟩ { name := "Book" } .hollow] { capacity := 1 }
    r.2.reused = 1 ∧ r.2.free.length = 0 := by decide

end ManagerPool

end ObjectPersistence
