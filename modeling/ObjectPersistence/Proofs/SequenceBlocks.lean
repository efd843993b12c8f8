import Mathlib
import ObjectPersistence.Proofs.StoredWrites
import ObjectPersistence.Proofs.SoundContext

/-! # Sequence blocks

A counting generator hands out integers from blocks it reserves in a datastore sequence, and
asks for each block at a floor: one past the end of every block it had before. The datastore
never starts a block below the floor it is given (`Connection.reserve_floor`), so a counter
stays above everything it handed out (`BlockCounter.Above`), and a rollback that takes the
sequence back below a block the counter still remembers does not make it repeat itself.

A manager keeps one generator per key, and every field counting on its own or naming one
sequence draws from the generator of its key, so the integers drawn under each key strictly
increase over any run of a client, whatever transactions it opens, commits and rolls back
(`generator_values_strictly_increase`). The floors are per generator, not per datastore
sequence: a member counting on its own and a sequence named after that member count in the
same datastore sequence, and after a rollback one can hand out the other's integers
(`named_sequence_repeats_rolled_back_increment`). -/

namespace ObjectPersistence

open Datastore

namespace Datastore

theorem wrap64_int {n : Int} (h0 : 0 ≤ n) (h : n < (Nat.pow 2 63 : Int)) : wrap64 n = n := by
  obtain ⟨m, rfl⟩ := Int.eq_ofNat_of_zero_le h0
  exact wrap64_of_lt (by omega)

theorem IntCell.floor_le_of_atLeast {c : IntCell} {floor n : Int}
    (h : c.atLeast floor = .int n) : floor ≤ n := by
  unfold IntCell.atLeast at h
  split at h
  · cases h
    exact le_refl _
  · rename_i hlt
    subst h
    simpa [IntCell.value] using hlt

namespace Tables

variable {t : Tables} {name : String}

theorem sequence?_createSequence (start : IntCell) :
    ((t.createSequence name start).1.sequence? name).isSome := by
  unfold createSequence
  split
  · assumption
  · simp [sequence?, List.lookup_append, *]

theorem sequence?_updateSequence (f : IntCell → IntCell) :
    (t.updateSequence name f).1.sequence? name = (t.sequence? name).map f := by
  simp only [updateSequence, sequence?]
  induction t.sequences with
  | nil => rfl
  | cons e es ih =>
    obtain ⟨n, v⟩ := e
    by_cases hn : n = name
    · subst hn
      simp
    · have hne : (name == n) = false := beq_false_of_ne (Ne.symm hn)
      have hne' : (n == name) = false := beq_false_of_ne hn
      simp only [List.map_cons, hne', Bool.false_eq_true, if_false, List.lookup_cons, hne]
      exact ih

end Tables

namespace Access

theorem allocateBlock_floor {name : String} {size : Nat} {floor first : Int} {w w' : Work}
    (h : (allocateBlock name size floor).exec w = (.ok first, w')) : floor ≤ first := by
  unfold allocateBlock at h
  obtain ⟨_, w₁, h₁, h⟩ := exec_bind_ok h
  obtain ⟨_, h₁⟩ := exec_discard_ok h₁
  obtain ⟨-, -, ht₁, -⟩ := exec_change_ok h₁
  obtain ⟨_, w₂, h₂, h⟩ := exec_bind_ok h
  obtain ⟨_, h₂⟩ := exec_discard_ok h₂
  obtain ⟨-, -, ht₂, -⟩ := exec_change_ok h₂
  obtain ⟨cell?, w₃, hr, h⟩ := exec_bind_ok h
  rw [exec_read] at hr
  cases hr
  -- the sequence exists once created, and reads its value raised to the floor
  obtain ⟨c, hc⟩ := Option.isSome_iff_exists.mp
    (@Tables.sequence?_createSequence w.tables name (.int 1))
  have hcell : w₂.tables.sequence? name = some (c.atLeast floor) := by
    rw [ht₂, ht₁, Tables.sequence?_updateSequence, hc]
    rfl
  simp only [hcell] at h
  split at h
  next n heq =>
    obtain ⟨a, _, ha, h⟩ := exec_bind_ok h
    obtain ⟨_, _, -, h⟩ := exec_bind_ok h
    simp only [exec_pure, Prod.mk.injEq, Except.ok.injEq] at ha h
    rw [← h.1, ← ha.1]
    exact IntCell.floor_le_of_atLeast (Option.some.inj heq)
  next v heq =>
    obtain ⟨_, _, h, -⟩ := exec_bind_ok h
    simp at h
  next heq => cases heq

end Access

theorem Connection.run_reserve (name : String) (size : Nat) (floor : Int) (c : Connection)
    (db : Database) :
    (Connection.reserve name size floor).run (c, db) =
      c.run db (Access.allocateBlock name size floor) := by
  rcases h : c.run db (Access.allocateBlock name size floor) with ⟨r, c', db'⟩
  simp [Connection.reserve, h]
  rfl

theorem Connection.reserve_floor {name : String} {size : Nat} {floor first : Int}
    {st st' : Connection × Database}
    (h : (Connection.reserve name size floor).run st = (.ok first, st')) : floor ≤ first := by
  obtain ⟨c, db⟩ := st
  rw [Connection.run_reserve] at h
  have hrun : (c.run db (Access.allocateBlock name size floor)).1 = .ok first := by rw [h]
  obtain ⟨w, w', hexec⟩ := Connection.exec_of_run hrun
  exact Access.allocateBlock_floor hexec

end Datastore


def BlockSource.Floored {σ : Type} (src : BlockSource (StateM σ)) : Prop :=
  ∀ name size floor st first st', (src name size floor).run st = (.ok first, st') → floor ≤ first

theorem stateM_run_bind {σ α β : Type} (x : StateM σ α) (f : α → StateM σ β) (s : σ) :
    (x >>= f).run s = (f (x.run s).1).run (x.run s).2 := rfl

namespace BlockCounter

variable {σ : Type} {src : BlockSource (StateM σ)} {c c' : BlockCounter} {st st' : σ} {v : Int}

/-- What a counter promises about the values it handed out: each lies below the end of its
reservations and, while a block is not spent, below the next value of that block. -/
structure Above (c : BlockCounter) (prev : List Int) : Prop where
  size_pos : 0 < c.blockSize
  until_pos : 0 < c.reservedUntil
  lt_until : ∀ u ∈ prev, u < c.reservedUntil
  in_block : 0 < c.remaining →
    0 < c.next ∧ c.next + c.remaining = c.reservedUntil ∧ ∀ u ∈ prev, u < c.next

theorem create_above (sequence : String) (b : Nat) : (create sequence b).Above [] where
  size_pos := by simp [create]
  until_pos := by simp [create]
  lt_until := by simp
  in_block := by simp [create]

theorem take_ok_cases (h : (c.take (some src)).run st = (.ok (v, c'), st')) :
    (c.remaining = 0 ∧ (src c.sequence c.blockSize c.reservedUntil).run st = (.ok v, st') ∧
      c' = { c with
        next := wrap64 (v + 1), remaining := c.blockSize - 1,
        reservedUntil := wrap64 (v + wrap64 c.blockSize) }) ∨
    (0 < c.remaining ∧ v = c.next ∧ st' = st ∧
      c' = { c with next := wrap64 (c.next + 1), remaining := c.remaining - 1 }) := by
  unfold take at h
  split at h
  · rename_i h0
    rcases hr : (src c.sequence c.blockSize c.reservedUntil).run st with ⟨_ | first, st₁⟩
    · rw [stateM_run_bind, hr] at h
      cases h
    · rw [stateM_run_bind, hr] at h
      cases h
      exact .inl ⟨by simpa using h0, rfl, rfl⟩
  · rename_i h0
    cases h
    exact .inr ⟨Nat.pos_of_ne_zero (by simpa using h0), rfl, rfl, rfl⟩

end BlockCounter

namespace BlockCounter

variable {σ : Type} {src : BlockSource (StateM σ)} {c c' : BlockCounter} {st st' : σ} {v : Int}
  {prev : List Int}

/-- Drawing from a counter whose values stay below the sixty-four bit limit hands out a value
above every earlier one, and the counter stays above all of them. -/
theorem take_above (hsrc : src.Floored) (hc : c.Above prev)
    (h : (c.take (some src)).run st = (.ok (v, c'), st'))
    (hv : v + c.blockSize < (Nat.pow 2 63 : Int)) :
    (∀ u ∈ prev, u < v) ∧ c'.Above (prev ++ [v]) ∧ c'.blockSize = c.blockSize := by
  rcases take_ok_cases h with ⟨-, hr, rfl⟩ | ⟨hpos, rfl, -, rfl⟩
  · -- a new block, reserved at the counter's floor
    have hfloor : c.reservedUntil ≤ v := hsrc _ _ _ _ _ _ hr
    have hsize : wrap64 c.blockSize = c.blockSize := wrap64_of_lt (by have := hc.until_pos; omega)
    have hend : wrap64 (v + c.blockSize) = v + c.blockSize :=
      wrap64_int (by have := hc.until_pos; omega) hv
    have hnext : wrap64 (v + 1) = v + 1 :=
      wrap64_int (by have := hc.until_pos; omega) (by have := hc.size_pos; omega)
    have hprev : ∀ u ∈ prev, u < v := fun u hu => (hc.lt_until u hu).trans_le hfloor
    have hpos := hc.size_pos
    refine ⟨hprev, ⟨hpos, ?_, ?_, ?_⟩, rfl⟩
    · simp only [hsize, hend]
      have := hc.until_pos
      omega
    · simp only [hsize, hend, List.mem_append, List.mem_singleton]
      rintro u (hu | rfl)
      · have := hprev u hu
        omega
      · omega
    · simp only [hsize, hend, hnext, List.mem_append, List.mem_singleton]
      intro _
      refine ⟨by have := hc.until_pos; omega, by omega, ?_⟩
      rintro u (hu | rfl)
      · have := hprev u hu
        omega
      · omega
  · -- the next value of the current block
    obtain ⟨hnext_pos, hfill, hbelow⟩ := hc.in_block hpos
    have hnext : wrap64 (c.next + 1) = c.next + 1 :=
      wrap64_int (by omega) (by have := hc.size_pos; omega)
    refine ⟨hbelow, ⟨hc.size_pos, hc.until_pos, ?_, ?_⟩, rfl⟩
    · simp only [List.mem_append, List.mem_singleton]
      rintro u (hu | rfl)
      · exact hc.lt_until u hu
      · omega
    · simp only [hnext, List.mem_append, List.mem_singleton]
      intro hleft
      refine ⟨by omega, by omega, ?_⟩
      rintro u (hu | rfl)
      · have := hbelow u hu
        omega
      · omega

end BlockCounter

namespace GenerationManager

variable {g g₁ g' : GenerationManager} {H H' : List (String × Int)} {k : String}
  {member : String} {s : ValueStrategy} {gen : Generator}

def drawsFor (k : String) (H : List (String × Int)) : List Int :=
  H.filterMap fun p => if p.1 = k then some p.2 else none

@[simp] theorem mem_drawsFor {v : Int} : v ∈ drawsFor k H ↔ (k, v) ∈ H := by
  simp [drawsFor]

theorem drawsFor_append_of_ne {k' : String} {v : Int} (h : k' ≠ k) :
    drawsFor k' (H ++ [(k, v)]) = drawsFor k' H := by
  simp [drawsFor, List.filterMap_append, Ne.symm h]

theorem drawsFor_append_self {v : Int} : drawsFor k (H ++ [(k, v)]) = drawsFor k H ++ [v] := by
  simp [drawsFor, List.filterMap_append]

def drawnUnder (k : String) (r : Except StorageError Value) : Option (String × Int) :=
  (r.toOption.bind Value.integer?).map (Prod.mk k)

/-- What a manager promises about the integers drawn from it, each under the key of its
generator: a counter is above every integer drawn under its key and counts in blocks of the
manager's size, and nothing was drawn under a key that has no generator. -/
structure Counted (g : GenerationManager) (H : List (String × Int)) : Prop where
  counter : ∀ k c, g.generators.lookup k = some (.counter c) →
    c.Above (drawsFor k H) ∧ c.blockSize = max g.blockSize 1
  fresh : ∀ k, g.generators.lookup k = none → drawsFor k H = []

theorem counted_empty (b : Nat) : Counted { blockSize := b } [] where
  counter := by simp
  fresh := by simp [drawsFor]

theorem lookup_put (g : GenerationManager) (k k' : String) (gen : Generator) :
    (g.put k gen).generators.lookup k' =
      if k' = k then (g.generators.lookup k').map fun _ => gen else g.generators.lookup k' := by
  simp only [put]
  induction g.generators with
  | nil => simp
  | cons e es ih =>
    obtain ⟨n, x⟩ := e
    by_cases hk : k' = n
    · subst hk
      by_cases hn : k' = k
      · simp [hn]
      · simp [hn]
    · have hb : (k' == n) = false := beq_false_of_ne hk
      by_cases hn : n = k
      · subst hn
        simpa [List.lookup_cons, hb] using ih
      · simpa [List.lookup_cons, hn, hb] using ih

/-- The generator for a key is the one kept under it, or a new one kept from then on: the
uuid generator, or a counter that has handed out nothing. No other key changes. -/
theorem generatorFor_spec (h : g.generatorFor member s = (gen, g₁)) :
    g₁.blockSize = g.blockSize ∧ g₁.generators.lookup (key member s) = some gen ∧
    (∀ k', k' ≠ key member s → g₁.generators.lookup k' = g.generators.lookup k') ∧
    (g.generators.lookup (key member s) = some gen ∨
      g.generators.lookup (key member s) = none ∧
        (gen = .uuid ∨ ∃ name, gen = .counter (BlockCounter.create name g.blockSize))) := by
  cases hl : g.generators.lookup (key member s) with
  | some gen' =>
    simp only [generatorFor, hl, Prod.mk.injEq] at h
    obtain ⟨rfl, rfl⟩ := h
    exact ⟨rfl, hl, fun _ _ => rfl, .inl rfl⟩
  | none =>
    simp only [generatorFor, hl, Prod.mk.injEq] at h
    obtain ⟨rfl, rfl⟩ := h
    refine ⟨rfl, by simp [List.lookup_append, hl], fun k' hk' => ?_, .inr ⟨rfl, ?_⟩⟩
    · simp [List.lookup_append, List.lookup_cons, beq_false_of_ne hk']
    · cases s with
      | increment => exact .inr ⟨member, rfl⟩
      | uuid => exact .inl rfl
      | sequence name => exact .inr ⟨name, rfl⟩

variable {σ : Type} {src : BlockSource (StateM σ)} {st st' : σ} {r : Except StorageError Value}

/-- What a call of a manager does: it finds or creates the generator for the key, and then
either draws no integer and keeps that generator, or draws one from a counter that is then
kept in its new state. No other key changes. -/
theorem next_inv (h : (g.next member s (some src)).run st = ((r, g'), st')) :
    ∃ gen g₁, g.generatorFor member s = (gen, g₁) ∧ g'.blockSize = g₁.blockSize ∧
      (∀ k', k' ≠ key member s → g'.generators.lookup k' = g₁.generators.lookup k') ∧
      ((drawnUnder (key member s) r = none ∧ g'.generators.lookup (key member s) = some gen) ∨
        ∃ c v c', gen = .counter c ∧ (c.take (some src)).run st = (.ok (v, c'), st') ∧
          r = .ok (.integer v) ∧ g'.generators.lookup (key member s) = some (.counter c')) := by
  rcases hf : g.generatorFor member s with ⟨gen, g₁⟩
  obtain ⟨-, hlk, -, -⟩ := generatorFor_spec hf
  simp only [next, hf] at h
  cases gen with
  | uuid =>
    cases h
    exact ⟨_, _, rfl, rfl, fun _ _ => rfl, .inl ⟨rfl, hlk⟩⟩
  | counter c =>
    rw [stateM_run_bind] at h
    rcases ht : (c.take (some src)).run st with ⟨_ | ⟨v, c'⟩, st₁⟩
    · rw [ht] at h
      cases h
      exact ⟨_, _, rfl, rfl, fun _ _ => rfl, .inl ⟨rfl, hlk⟩⟩
    · rw [ht] at h
      cases h
      refine ⟨_, _, rfl, rfl, fun k' hk' => ?_, .inr ⟨c, v, c', rfl, ht, rfl, ?_⟩⟩
      · simp [lookup_put, hk']
      · simp [lookup_put, hlk]

/-- A manager that changed only the generator under one key, while integers were drawn only
under that key, keeps its promises if that generator does. -/
theorem Counted.of_key (hg : g.Counted H) (hbs : g'.blockSize = g.blockSize)
    (hlook : ∀ k', k' ≠ k → g'.generators.lookup k' = g.generators.lookup k')
    (hdraws : ∀ k', k' ≠ k → drawsFor k' H' = drawsFor k' H)
    (hk : ∃ gen, g'.generators.lookup k = some gen ∧
      ∀ c, gen = .counter c → c.Above (drawsFor k H') ∧ c.blockSize = max g.blockSize 1) :
    g'.Counted H' where
  counter k' c hc := by
    obtain ⟨gen, hgen, hkeeps⟩ := hk
    by_cases hkk : k' = k
    · subst hkk
      rw [hgen, Option.some_inj] at hc
      rw [hbs]
      exact hkeeps c hc
    · rw [hlook k' hkk] at hc
      rw [hdraws k' hkk, hbs]
      exact hg.counter k' c hc
  fresh k' hn := by
    obtain ⟨gen, hgen, -⟩ := hk
    by_cases hkk : k' = k
    · subst hkk
      rw [hgen] at hn
      cases hn
    · rw [hlook k' hkk] at hn
      rw [hdraws k' hkk]
      exact hg.fresh k' hn

/-- One call of a manager whose source never reserves below a floor keeps its promises, and
an integer it draws lies above every integer drawn under the same key before, as long as it
stays a block below the sixty-four bit limit. -/
theorem Counted.next (hsrc : src.Floored) (hg : g.Counted H)
    (h : (g.next member s (some src)).run st = ((r, g'), st'))
    (hv : ∀ p ∈ drawnUnder (key member s) r, p.2 + max g.blockSize 1 < (Nat.pow 2 63 : Int)) :
    g'.blockSize = g.blockSize ∧ g'.Counted (H ++ (drawnUnder (key member s) r).toList) ∧
      ∀ p ∈ drawnUnder (key member s) r, ∀ u ∈ drawsFor p.1 H, u < p.2 := by
  obtain ⟨gen, g₁, hf, hbs', hother', hcase⟩ := next_inv h
  obtain ⟨hbs, -, hother, hold⟩ := generatorFor_spec hf
  have hbs'' : g'.blockSize = g.blockSize := hbs'.trans hbs
  have hlook : ∀ k', k' ≠ key member s → g'.generators.lookup k' = g.generators.lookup k' :=
    fun k' hk => (hother' k' hk).trans (hother k' hk)
  -- the generator found or made for the key is above what was drawn under it
  have hgen : ∀ c, gen = .counter c →
      c.Above (drawsFor (key member s) H) ∧ c.blockSize = max g.blockSize 1 := by
    rintro c rfl
    rcases hold with hl | ⟨hl, hnew | ⟨name, hnew⟩⟩
    · exact hg.counter _ c hl
    · cases hnew
    · cases hnew
      rw [hg.fresh _ hl]
      exact ⟨BlockCounter.create_above name _, rfl⟩
  rcases hcase with ⟨hnone, hl'⟩ | ⟨c, v, c', rfl, htake, rfl, hl'⟩
  · -- nothing drawn: the generator under the key is the one found or made
    rw [hnone]
    refine ⟨hbs'', hg.of_key hbs'' hlook (fun _ _ => by simp) ⟨gen, hl', ?_⟩, by simp⟩
    simpa using hgen
  · -- an integer drawn from a counter, which moves on
    obtain ⟨habove, hsize⟩ := hgen c rfl
    have hdrawn : drawnUnder (key member s) (.ok (.integer v)) = some (key member s, v) := rfl
    rw [hdrawn] at hv ⊢
    have hbound : v + c.blockSize < (Nat.pow 2 63 : Int) := by
      rw [hsize]
      exact hv _ rfl
    obtain ⟨hlt, habove', hsize'⟩ := BlockCounter.take_above hsrc habove htake hbound
    refine ⟨hbs'', hg.of_key hbs'' hlook (fun k' hk' => drawsFor_append_of_ne hk')
      ⟨_, hl', ?_⟩, ?_⟩
    · rintro c'' hc''
      cases hc''
      rw [Option.toList_some, drawsFor_append_self, hsize', hsize]
      exact ⟨habove', rfl⟩
    · rintro p hp
      cases hp
      exact hlt

end GenerationManager

theorem Datastore.Connection.reserve_floored : BlockSource.Floored Datastore.Connection.reserve :=
  fun _ _ _ _ _ _ h => Datastore.Connection.reserve_floor h

/-- What a client of a generation manager over a store does: ask for the next value of a
field, or open, commit or roll back a transaction of the store. -/
inductive GenStep where
  | next (member : String) (strategy : ValueStrategy)
  | begin
  | commit
  | rollback
  deriving DecidableEq, Repr

namespace GenStep

open GenerationManager

/-- One step on a manager and its store, with the integer it drew, if any, under the key of
its generator. -/
def run (g : GenerationManager) (st : Connection × Database) :
    GenStep → Option (String × Int) × GenerationManager × (Connection × Database)
  | next member s =>
    let r := (g.next member s (some Connection.reserve)).run st
    (drawnUnder (key member s) r.1.1, r.1.2, r.2)
  | begin => (none, g, st.1.begin, st.2)
  | commit => (none, g, st.1.commit st.2)
  | rollback => (none, g, st.1.rollback st.2)

def draws (g : GenerationManager) (st : Connection × Database) : List GenStep → List (String × Int)
  | [] => []
  | x :: xs => (x.run g st).1.toList ++ draws (x.run g st).2.1 (x.run g st).2.2 xs

def IncreasingPerKey (H : List (String × Int)) : Prop :=
  H.Pairwise fun p q => p.1 = q.1 → p.2 < q.2

variable {g : GenerationManager} {st : Connection × Database} {H : List (String × Int)}

theorem run_counted (x : GenStep) (hg : g.Counted H)
    (hv : ∀ p ∈ (x.run g st).1, p.2 + max g.blockSize 1 < (Nat.pow 2 63 : Int)) :
    (x.run g st).2.1.blockSize = g.blockSize ∧ (x.run g st).2.1.Counted (H ++ (x.run g st).1.toList) ∧
      ∀ p ∈ (x.run g st).1, ∀ u ∈ drawsFor p.1 H, u < p.2 := by
  cases x with
  | next member s => exact hg.next Connection.reserve_floored (Prod.mk.eta.symm) hv
  | begin => simpa [run] using hg
  | commit => simpa [run] using hg
  | rollback => simpa [run] using hg

theorem draws_increasing (xs : List GenStep) (hg : g.Counted H) (hH : IncreasingPerKey H)
    (hv : ∀ p ∈ draws g st xs, p.2 + max g.blockSize 1 < (Nat.pow 2 63 : Int)) :
    IncreasingPerKey (H ++ draws g st xs) := by
  induction xs generalizing g st H with
  | nil => simpa [draws] using hH
  | cons x xs ih =>
    have hstep : ∀ p ∈ (x.run g st).1, p.2 + max g.blockSize 1 < (Nat.pow 2 63 : Int) :=
      fun p hp => hv p (List.mem_append_left _ (by simpa using hp))
    obtain ⟨hbs, hg', hlt⟩ := run_counted x hg hstep
    have hH' : IncreasingPerKey (H ++ (x.run g st).1.toList) := by
      refine List.pairwise_append.mpr ⟨hH, by simp, ?_⟩
      rintro a ha b hb hab
      exact hlt b (by simpa using hb) a.2 (by rw [mem_drawsFor, ← hab]; exact ha)
    have hrest : IncreasingPerKey
        ((H ++ (x.run g st).1.toList) ++ draws (x.run g st).2.1 (x.run g st).2.2 xs) :=
      ih hg' hH' fun p hp => by
        rw [hbs]
        exact hv p (List.mem_append_right _ hp)
    simpa [draws] using hrest

end GenStep

open GenStep in
/-- Each generator of a manager over a store hands out strictly increasing integers, whatever
the member keys and strategies asked for and however transactions of the store are opened,
committed and rolled back in between, as long as the integers stay more than a block below
the greatest sixty-four bit integer. A rollback that undoes a reservation in the store does
not make a generator repeat itself, since each counter reserves at its own floor. -/
theorem generator_values_strictly_increase (b : Nat) (st : Connection × Database)
    (steps : List GenStep)
    (hv : ∀ p ∈ draws { blockSize := b } st steps, p.2 < (Nat.pow 2 63 : Int) - 1 - b) :
    IncreasingPerKey (draws { blockSize := b } st steps) := by
  have hbound : ∀ p ∈ draws { blockSize := b } st steps,
      p.2 + max ({ blockSize := b } : GenerationManager).blockSize 1 < (Nat.pow 2 63 : Int) := by
    intro p hp
    have := hv p hp
    simp only [Nat.cast_max]
    omega
  simpa using draws_increasing steps (GenerationManager.counted_empty b) List.Pairwise.nil hbound

/-- A client that draws for a member counting on its own, draws twice more inside a
transaction that it rolls back, and draws on. -/
def drawAcrossRollback : List GenStep :=
  [.next "A" .increment, .begin, .next "A" .increment, .next "A" .increment, .rollback,
    .next "A" .increment, .next "A" .increment]

open GenStep in
/-- The rollback takes the store's sequence back below the block the counter reserved in the
transaction; the counter draws on above it. -/
theorem counter_draws_on_after_rollback :
    (∀ p ∈ draws { blockSize := 2 } ({ id := 0 }, {}) drawAcrossRollback,
        p.2 < (Nat.pow 2 63 : Int) - 1 - 2) ∧
    draws { blockSize := 2 } ({ id := 0 }, {}) drawAcrossRollback =
      [("increment:A", 1), ("increment:A", 2), ("increment:A", 3), ("increment:A", 4),
        ("increment:A", 5)] ∧
    IncreasingPerKey (draws { blockSize := 2 } ({ id := 0 }, {}) drawAcrossRollback) := by
  have hdraws : draws { blockSize := 2 } ({ id := 0 }, {}) drawAcrossRollback =
      [("increment:A", 1), ("increment:A", 2), ("increment:A", 3), ("increment:A", 4),
        ("increment:A", 5)] := by decide
  have hv : ∀ p ∈ draws { blockSize := 2 } ({ id := 0 }, {}) drawAcrossRollback,
      p.2 < (Nat.pow 2 63 : Int) - 1 - 2 := by
    rw [hdraws]
    decide
  exact ⟨hv, hdraws, generator_values_strictly_increase 2 _ _ hv⟩

/-- A client that, inside a transaction it rolls back, draws for a member counting on its
own, and then draws for a field naming a sequence after that member. -/
def rollbackThenNamedSequence : List GenStep :=
  [.begin, .next "A" .increment, .rollback, .next "B" (.sequence "A")]

open GenStep in
/-- A member counting on its own and a sequence named after it count in one datastore
sequence, each generator at its own floor: once a rollback undid the block the first
reserved, the second hands out the first one's integer again. -/
theorem named_sequence_repeats_rolled_back_increment :
    ∃ st, Connection.connect 0 {} = .ok st ∧
      draws { blockSize := 2 } st rollbackThenNamedSequence =
        [("increment:A", 1), ("sequence:A", 1)] :=
  ⟨_, rfl, by decide⟩

end ObjectPersistence
