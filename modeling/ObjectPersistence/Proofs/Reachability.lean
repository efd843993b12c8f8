import Mathlib
import ObjectPersistence.Proofs.Rollback
import ObjectPersistence.Proofs.GraphWalk

/-! # Reachability

A reachability walk follows the references held in loaded cascade-persist relation fields,
entering only objects the context manages that are not deleted, and before it follows the
references of an object enlisted in the open transaction (new, clean or dirty while a
transaction is open) it loads that object's relation fields. The references of an object
can therefore change while the walk runs, but only when the walk first visits it.

`LoadsInTurn s N s'` says how the state changes: the relation fields of each visited enlisted
object are loaded once, in the order of the visits, and nothing else happens. Loading fields
never changes which objects are managed or their lifecycle states (`Framed`), so the objects
the walk enters stay the same throughout, and the references of an object stay as they were
after its own load. The walk is then described against the references of the state it ends
in: it adds to the visited list exactly what the start reaches outside it (`reach_walked`).

At commit, with reachability on, the walk runs from every root over one shared list, which
then holds exactly what the roots reach; the new objects persisted only by cascade that are
left out return to transient and are released. -/

set_option mvcgen.warning false

namespace ObjectPersistence

/-- A new object returned to transient at commit: transient, with nothing dirty, and not made
persistent in the transaction. -/
def ManagedObject.returnedToTransient (m : ManagedObject) : ManagedObject :=
  { m.clearDirty with lifecycle := .transient, createdInTx := false }

namespace Engine

open Std.Do

/-! ### The reference graph of a context -/

section Graph

variable (s : EngineState)

/-- The objects the loaded cascade-persist relation fields of `x` reference; none for an
object the context does not manage. -/
def cascadeOf (x : ObjectId) : List ObjectId :=
  ((s.ctx.objects.find? (·.id == x)).map ManagedObject.cascadeTargets).getD []

def Live (x : ObjectId) : Prop :=
  ∃ m, s.ctx.objects.find? (·.id == x) = some m ∧ m.lifecycle.isDeleted = false

abbrev ReachesLive (a b : ObjectId) : Prop :=
  Graph.ReachesAvoiding (cascadeOf s) (Live s) [] a b

/-- `x` takes part in the open transaction: a transaction is open, and `x` is managed and new,
clean or dirty. A walk loads the relation fields of such an object before following them. -/
def Enlisted (x : ObjectId) : Prop :=
  s.ctx.txActive = true ∧ ∃ m, s.ctx.objects.find? (·.id == x) = some m ∧
    (m.lifecycle = .persistentNew ∨ m.lifecycle = .persistentClean ∨
      m.lifecycle = .persistentDirty)

def headers : List (ObjectId × LifecycleState × Bool) :=
  s.ctx.objects.map fun m => (m.id, m.lifecycle, m.explicitlyPersisted)

def managedIds : List ObjectId := s.ctx.objects.map (·.id)

end Graph

/-- A walk that visits a managed object it has not visited uses one unit of a bound above the
number of managed objects left unvisited. -/
theorem unvisited_managed_visit_lt {s : EngineState} {t : ObjectId} {m : ManagedObject}
    {V : List ObjectId} {f : Nat} (hfind : s.ctx.objects.find? (·.id == t) = some m)
    (htV : t ∉ V) (hf : (Graph.unvisited (managedIds s) V).card < f + 1) :
    (Graph.unvisited (managedIds s) (V ++ [t])).card < f := by
  have hmem : t ∈ managedIds s :=
    List.mem_map.mpr ⟨m, List.mem_of_find?_eq_some hfind, id_of_find? hfind⟩
  have := Graph.unvisited_visit_card_lt hmem htV
  omega

/-! ### What loading fields keeps -/

/-- What loading the fields of the objects `N` keeps of the state `s₀`: whether a transaction
is open, the context, each manager's object, lifecycle state and explicit persistence, and the
managers of every other object. -/
@[mk_iff]
structure Framed (N : List ObjectId) (s₀ s : EngineState) : Prop where
  txActive : s.ctx.txActive = s₀.ctx.txActive
  ctxId : s.ctx.id = s₀.ctx.id
  sameHeaders : headers s = headers s₀
  others : ∀ y, y ∉ N → s.ctx.objects.find? (·.id == y) = s₀.ctx.objects.find? (·.id == y)

section Frame

variable {s₀ s s₁ s₂ : EngineState} {N N₁ N₂ : List ObjectId}

theorem Framed.refl (N : List ObjectId) (s : EngineState) : Framed N s s :=
  ⟨rfl, rfl, rfl, fun _ _ => rfl⟩

theorem Framed.trans (h₁ : Framed N₁ s₀ s₁) (h₂ : Framed N₂ s₁ s₂) : Framed (N₁ ++ N₂) s₀ s₂ where
  txActive := h₂.txActive.trans h₁.txActive
  ctxId := h₂.ctxId.trans h₁.ctxId
  sameHeaders := h₂.sameHeaders.trans h₁.sameHeaders
  others y hy := (h₂.others y fun h => hy (List.mem_append_right N₁ h)).trans
    (h₁.others y fun h => hy (List.mem_append_left N₂ h))

theorem Framed.congr {s' : EngineState} (h : Framed N s₀ s) (hobj : s'.ctx.objects = s.ctx.objects)
    (htx : s'.ctx.txActive = s.ctx.txActive) (hid : s'.ctx.id = s.ctx.id) : Framed N s₀ s' where
  txActive := htx.trans h.txActive
  ctxId := hid.trans h.ctxId
  sameHeaders := by simp only [headers, hobj]; exact h.sameHeaders
  others y hy := by rw [hobj]; exact h.others y hy

theorem find?_headers (s : EngineState) (y : ObjectId) :
    (s.ctx.objects.find? (·.id == y)).map (fun m => (m.id, m.lifecycle, m.explicitlyPersisted)) =
      (headers s).find? (·.1 == y) := by
  simp [headers, List.find?_map]

theorem lifecycle_eq_of_headers (h : headers s = headers s₀) (y : ObjectId) :
    (s.ctx.objects.find? (·.id == y)).map (·.lifecycle) =
      (s₀.ctx.objects.find? (·.id == y)).map (·.lifecycle) := by
  have h₁ := find?_headers s y
  rw [h, ← find?_headers s₀ y] at h₁
  simpa [Option.map_map, Function.comp_def] using congrArg (Option.map fun e => e.2.1) h₁

theorem live_iff_of_headers (h : headers s = headers s₀) (y : ObjectId) :
    Live s y ↔ Live s₀ y := by
  have hl := lifecycle_eq_of_headers h y
  constructor <;> rintro ⟨m, hm, hd⟩
  · rw [hm, Option.map_some] at hl
    obtain ⟨m₀, hm₀, he⟩ := Option.map_eq_some_iff.mp hl.symm
    exact ⟨m₀, hm₀, he ▸ hd⟩
  · rw [hm, Option.map_some] at hl
    obtain ⟨m', hm', he⟩ := Option.map_eq_some_iff.mp hl
    exact ⟨m', hm', he ▸ hd⟩

theorem managedIds_eq_of_headers (h : headers s = headers s₀) : managedIds s = managedIds s₀ := by
  have := congrArg (List.map Prod.fst) h
  simpa [headers, managedIds, Function.comp_def] using this

theorem exists_mem_iff_of_headers (h : headers s = headers s₀)
    (p : ObjectId × LifecycleState × Bool → Prop) :
    (∃ m ∈ s.ctx.objects, p (m.id, m.lifecycle, m.explicitlyPersisted)) ↔
      ∃ m ∈ s₀.ctx.objects, p (m.id, m.lifecycle, m.explicitlyPersisted) := by
  have key : ∀ t : EngineState, (∃ m ∈ t.ctx.objects, p (m.id, m.lifecycle, m.explicitlyPersisted)) ↔
      ∃ e ∈ headers t, p e := fun t => by simp [headers]
  rw [key, key, h]

/-- A change to the managers of `x` that keeps their object, lifecycle state and explicit
persistence stays within the frame of any walk that has visited `x`. -/
theorem Framed.update {x : ObjectId} {g : ManagedObject → ManagedObject}
    (hg : ∀ m, (g m).id = m.id ∧ (g m).lifecycle = m.lifecycle ∧
      (g m).explicitlyPersisted = m.explicitlyPersisted)
    (h : Framed N s₀ s) (hx : x ∈ N) :
    Framed N s₀ { s with ctx := { s.ctx with objects := s.ctx.objects.map (updateAt x g) } } := by
  refine ⟨h.txActive, h.ctxId, ?_, fun y hy => ?_⟩
  · rw [← h.sameHeaders]
    simp only [headers, List.map_map]
    congr 1
    funext m
    simp only [Function.comp_apply, updateAt]
    split <;> simp [hg]
  · have hyx : y ≠ x := fun h' => hy (h' ▸ hx)
    rw [find?_updateAt fun m hm => (hg m).1.trans hm, if_neg hyx]
    exact h.others y hy

theorem install_keeps_header (f : Nat) (sl : Slot) (m : ManagedObject) :
    (m.install f sl).id = m.id ∧ (m.install f sl).lifecycle = m.lifecycle ∧
      (m.install f sl).explicitlyPersisted = m.explicitlyPersisted := by
  unfold ManagedObject.install
  split <;> simp

theorem Framed.not_hollow {x : ObjectId} {m : ManagedObject} (h : Framed [x] s₀ s)
    (hx : ∀ m, s₀.ctx.objects.find? (·.id == x) = some m → m.lifecycle ≠ .hollow)
    (hm : s.ctx.objects.find? (·.id == x) = some m) : m.lifecycle ≠ .hollow := by
  have hl := lifecycle_eq_of_headers h.sameHeaders x
  rw [hm, Option.map_some] at hl
  obtain ⟨m₀, hm₀, he⟩ := Option.map_eq_some_iff.mp hl.symm
  exact he ▸ hx m₀ hm₀

end Frame

/-! ### Loading the relation fields of one object -/

section Load

variable {x : ObjectId} {s₀ : EngineState}

theorem updateManager_framed {g : ManagedObject → ManagedObject}
    (hg : ∀ m, (g m).id = m.id ∧ (g m).lifecycle = m.lifecycle ∧
      (g m).explicitlyPersisted = m.explicitlyPersisted) :
    ⦃fun s => ⌜Framed [x] s₀ s⌝⦄ updateManager x g ⦃keeps (Framed [x] s₀)⦄ := by
  mvcgen [updateManager]
  rename_i s h _
  exact h.update hg (List.mem_singleton_self x)

theorem installData_framed (field : Nat) (data : Option FieldData) :
    ⦃fun s => ⌜Framed [x] s₀ s⌝⦄ installData x field data ⦃keeps (Framed [x] s₀)⦄ := by
  have hUpdateManager := @updateManager_framed x s₀
  mvcgen [installData, hUpdateManager]
  exact install_keeps_header _ _

/-- Loading fields of an object that is not hollow only installs their data: the first load
of a hollow object is the only one that changes a lifecycle state. -/
theorem ensureLoaded_framed
    (hx : ∀ m, s₀.ctx.objects.find? (·.id == x) = some m → m.lifecycle ≠ .hollow)
    (fields : List Nat) :
    ⦃fun s => ⌜Framed [x] s₀ s⌝⦄ ensureLoaded x fields ⦃keeps (Framed [x] s₀)⦄ := by
  have hInstallData := @installData_framed x s₀
  -- the branch that makes a hollow object clean is never taken
  have hfree : ∀ s m, Framed [x] s₀ s → s.ctx.objects.find? (·.id == x) = some m →
      m.lifecycle ≠ .hollow := fun _ _ h hm => h.not_hollow hx hm
  mvcgen [ensureLoaded, loadMapField, hInstallData, transition] invariants
  | inv1 => keeps (Framed [x] s₀)
  | inv2 => keeps (Framed [x] s₀)
  | inv3 => keeps (Framed [x] s₀)
  | inv4 => keeps (Framed [x] s₀)
  | inv5 => keeps (Framed [x] s₀)
  | inv6 => keeps (Framed [x] s₀)
  -- reading from the datastore changes only the connection, the counts and the warnings
  all_goals try
    have h := ‹Framed [x] s₀ _›
    exact h.congr rfl rfl rfl
  -- what is left is the first read of a hollow object
  all_goals
    rename_i hf _ hm hh _ _ _ _
    exact absurd (beq_iff_eq.1 hh) (hfree _ _ hf hm)

theorem loadRelations_framed
    (hx : ∀ m, s₀.ctx.objects.find? (·.id == x) = some m → m.lifecycle ≠ .hollow) :
    ⦃fun s => ⌜Framed [x] s₀ s⌝⦄ loadRelations x ⦃keeps (Framed [x] s₀)⦄ := by
  have hEnsureLoaded := @ensureLoaded_framed x s₀ hx
  mvcgen [loadRelations, hEnsureLoaded]

theorem Enlisted.load_framed {s s' : EngineState} (hx : Enlisted s x)
    (hrun : (ExceptT.run (loadRelations x)).run s = (.ok (), s')) : Framed [x] s s' := by
  obtain ⟨-, m, hm, hl⟩ := hx
  have hfree : ∀ m', s.ctx.objects.find? (·.id == x) = some m' → m'.lifecycle ≠ .hollow := by
    intro m' hm'
    obtain rfl := Option.some.inj (hm.symm.trans hm')
    rcases hl with h | h | h <;> rw [h] <;> decide
  have h := keeps_run_of (loadRelations_framed hfree) s (Framed.refl [x] s)
  rwa [hrun] at h

end Load

/-! ### The loads of a walk -/

/-- Loading the relation fields of each object of `N` enlisted in the open transaction, once
each and in turn, leads from `s` to `s'`; the objects that are not enlisted are passed over. -/
inductive LoadsInTurn : EngineState → List ObjectId → EngineState → Prop
  | nil (s : EngineState) : LoadsInTurn s [] s
  | load {s s₁ s' : EngineState} {x : ObjectId} {N : List ObjectId} (hx : Enlisted s x)
      (hload : (ExceptT.run (loadRelations x)).run s = (.ok (), s₁))
      (rest : LoadsInTurn s₁ N s') : LoadsInTurn s (x :: N) s'
  | pass {s s' : EngineState} {x : ObjectId} {N : List ObjectId} (hx : ¬ Enlisted s x)
      (rest : LoadsInTurn s N s') : LoadsInTurn s (x :: N) s'

section Loads

variable {s s₁ s₂ : EngineState} {N N₁ N₂ : List ObjectId}

theorem LoadsInTurn.append (h₁ : LoadsInTurn s N₁ s₁) (h₂ : LoadsInTurn s₁ N₂ s₂) :
    LoadsInTurn s (N₁ ++ N₂) s₂ := by
  induction h₁ with
  | nil => exact h₂
  | load hx hload _ ih => exact .load hx hload (ih h₂)
  | pass hx _ ih => exact .pass hx (ih h₂)

theorem LoadsInTurn.framed (h : LoadsInTurn s N s₁) : Framed N s s₁ := by
  induction h with
  | nil s => exact Framed.refl [] s
  | load hx hload _ ih => exact (hx.load_framed hload).trans ih
  | @pass s _ x _ _ _ ih => exact (Framed.refl [x] s).trans ih

theorem Framed.cascadeOf_eq {s₀ : EngineState} {y : ObjectId} (h : Framed N s₀ s) (hy : y ∉ N) :
    cascadeOf s y = cascadeOf s₀ y := by
  simp only [cascadeOf, h.others y hy]

end Loads

/-! ### One walk at a time -/

/-- A walk from the starts `ts` that found the visited list `V` in the state `s` ends with the
list `r` in the state `s'`: it appends the objects `N` it visits, which are what its starts
reach outside `V` through the references of `s'`, and on the way it loads the relation fields
of each enlisted one, once, in the order of the visits. -/
def WalkedIn (s : EngineState) (V ts r : List ObjectId) (s' : EngineState) : Prop :=
  ∃ N, r = V ++ N ∧ Graph.Visits (cascadeOf s') (Live s') V ts N ∧ LoadsInTurn s N s'

section Walked

variable {s s₁ s₂ sL s' : EngineState} {V r r₁ r₂ ts : List ObjectId} {t : ObjectId}

theorem WalkedIn.nil : WalkedIn s V [] V s :=
  ⟨[], by simp, .nil, .nil s⟩

theorem WalkedIn.skip (h : ¬ Live s t ∨ t ∈ V) : WalkedIn s V [t] V s :=
  ⟨[], by simp, .skip h, .nil s⟩

theorem WalkedIn.cons (h₁ : WalkedIn s V [t] r₁ s₁) (h₂ : WalkedIn s₁ r₁ ts r₂ s₂) :
    WalkedIn s V (t :: ts) r₂ s₂ := by
  obtain ⟨N₁, rfl, hv₁, hl₁⟩ := h₁
  obtain ⟨N₂, rfl, hv₂, hl₂⟩ := h₂
  have hf₂ := hl₂.framed
  -- the later walks load only objects the first one did not visit
  have hfresh : ∀ x ∈ N₁, x ∉ N₂ := fun x hx hx₂ =>
    hv₂.fresh x hx₂ (List.mem_append_right V hx)
  have hv₁' := hv₁.congr (fun x hx => hf₂.cascadeOf_eq (hfresh x hx))
    (live_iff_of_headers hf₂.sameHeaders)
  exact ⟨N₁ ++ N₂, by simp, hv₁'.cons hv₂, hl₁.append hl₂⟩

theorem WalkedIn.visit (ht : Live s t) (htV : t ∉ V) (hL : LoadsInTurn s [t] sL)
    (h : WalkedIn sL (V ++ [t]) (cascadeOf sL t) r s') : WalkedIn s V [t] r s' := by
  obtain ⟨N, rfl, hv, hl⟩ := h
  have hf := hl.framed
  have htN : t ∉ N := fun h' => hv.fresh t h' (List.mem_append_right V (List.mem_singleton_self t))
  rw [← hf.cascadeOf_eq htN] at hv
  have ht' : Live s' t := (live_iff_of_headers (hf.sameHeaders.trans hL.framed.sameHeaders) t).mpr ht
  exact ⟨t :: N, by simp, hv.visit ht' htV, hL.append hl⟩

theorem WalkedIn.card_le (h : WalkedIn s V ts r s') :
    (Graph.unvisited (managedIds s') r).card ≤ (Graph.unvisited (managedIds s) V).card := by
  obtain ⟨N, rfl, -, hl⟩ := h
  rw [managedIds_eq_of_headers hl.framed.sameHeaders]
  exact Graph.unvisited_append_card_le _ V N

end Walked

/-! ### The walk, step by step -/

section Reach

variable {s : EngineState} {V : List ObjectId} {t : ObjectId}

theorem run_context (s : EngineState) : (ExceptT.run context).run s = (.ok s.ctx, s) := rfl

theorem run_managed? (s : EngineState) (x : ObjectId) :
    (ExceptT.run (managed? x)).run s = (.ok (s.ctx.objects.find? (·.id == x)), s) := rfl

theorem run_lifecycle? (s : EngineState) (x : ObjectId) :
    (ExceptT.run (lifecycle? x)).run s =
      (.ok ((s.ctx.objects.find? (·.id == x)).map (·.lifecycle)), s) := rfl

theorem run_reach_skip {f : Nat} (h : ¬ Live s t ∨ t ∈ V) :
    (ExceptT.run (reach (f + 1) t V)).run s = (.ok V, s) := by
  rw [reach, run_bind, run_lifecycle?]
  cases hfind : s.ctx.objects.find? (·.id == t) with
  | none => rfl
  | some m =>
    have hc : (m.lifecycle.isDeleted || V.contains t) = true := by
      rcases h with h | h
      · simp [Live, hfind] at h
        simp [h]
      · simp [h]
    simp only [Option.map_some, hc, if_true]
    rfl

/-- A visit that returns loads the start if it is enlisted, and then walks from what the start
references after that load. -/
theorem run_reach_visit {f : Nat} {m : ManagedObject} {r : List ObjectId} {s' : EngineState}
    (hfind : s.ctx.objects.find? (·.id == t) = some m) (hd : m.lifecycle.isDeleted = false)
    (htV : t ∉ V) (hrun : (ExceptT.run (reach (f + 1) t V)).run s = (.ok r, s')) :
    ∃ sL, LoadsInTurn s [t] sL ∧
      (ExceptT.run (forIn (cascadeOf sL t) (V ++ [t]) fun t' acc => do
        let r ← reach f t' acc
        pure (ForInStep.yield r))).run sL = (.ok r, s') := by
  have hc : (m.lifecycle.isDeleted || V.contains t) = false := by simp [hd, htV]
  rw [reach, run_bind, run_lifecycle?, hfind] at hrun
  simp only [Option.map_some, hc, Bool.false_eq_true, if_false, run_bind, run_context] at hrun
  -- whether the start is enlisted decides whether it is loaded
  cases hen : (s.ctx.txActive && (m.lifecycle == .persistentNew ||
      m.lifecycle == .persistentClean || m.lifecycle == .persistentDirty)) with
  | false =>
    simp only [hen, Bool.false_eq_true, if_false, run_bind, run_managed?, bind_pure] at hrun
    refine ⟨s, .pass ?_ (.nil s), hrun⟩
    rintro ⟨htx, m', hm', hl⟩
    obtain rfl := Option.some.inj (hfind.symm.trans hm')
    rcases hl with hl | hl | hl <;> simp [htx, hl] at hen
  | true =>
    simp only [hen, if_true, bind_pure, run_bind] at hrun
    rcases hl : (ExceptT.run (loadRelations t)).run s with ⟨_ | _, sL⟩
    · simp only [hl] at hrun
      cases hrun
    · simp only [hl, run_managed?] at hrun
      refine ⟨sL, .load ?_ hl (.nil sL), hrun⟩
      simp only [Bool.and_eq_true, Bool.or_eq_true, beq_iff_eq] at hen
      exact ⟨hen.1, m, hfind, by tauto⟩

theorem run_yield {α : Type} {x : Engine α} {st : ForInStep α} {s s' : EngineState}
    (hrun : (ExceptT.run (do let r ← x; pure (ForInStep.yield r))).run s = (.ok st, s')) :
    ∃ r, st = .yield r ∧ (ExceptT.run x).run s = (.ok r, s') := by
  rw [run_bind] at hrun
  rcases h : (ExceptT.run x).run s with ⟨_ | r, s₁⟩
  · simp only [h] at hrun
    cases hrun
  · simp only [h, run_pure] at hrun
    cases hrun
    exact ⟨r, rfl, rfl⟩

/-- Walks from starts in turn, each a run of the loop body `b` on the list the one before left:
what `W` says of a walk from one start composes over the starts, as long as each run of the
body keeps the invariant `I` of the visited list and walks in full within a bound that the
objects of `U` left unvisited stay under. -/
theorem forIn_walks_in (U : EngineState → List ObjectId) {k : Nat}
    {W : EngineState → List ObjectId → List ObjectId → List ObjectId → EngineState → Prop}
    {I : EngineState → List ObjectId → Prop}
    {b : ObjectId → List ObjectId → Engine (ForInStep (List ObjectId))}
    (hnil : ∀ s V, W s V [] V s)
    (hcons : ∀ {s s₁ s₂ V r₁ r₂ t ts}, W s V [t] r₁ s₁ → W s₁ r₁ ts r₂ s₂ →
      W s V (t :: ts) r₂ s₂)
    (hstep : ∀ {s V t r s'}, W s V [t] r s' → I s V → I s' r ∧
      (Graph.unvisited (U s') r).card ≤ (Graph.unvisited (U s) V).card)
    (hone : ∀ t V s st s', (Graph.unvisited (U s) V).card < k → I s V →
      (ExceptT.run (b t V)).run s = (.ok st, s') → ∃ r, st = .yield r ∧ W s V [t] r s') :
    ∀ (ts V : List ObjectId) (s : EngineState) (r : List ObjectId) (s' : EngineState),
      (Graph.unvisited (U s) V).card < k → I s V →
      (ExceptT.run (forIn ts V b)).run s = (.ok r, s') → W s V ts r s'
  | [], V, s, r, s', _, _, hrun => by
    simp only [List.forIn_nil, run_pure] at hrun
    cases hrun
    exact hnil s V
  | t :: ts, V, s, r, s', hk, hI, hrun => by
    rw [List.forIn_cons, run_bind] at hrun
    rcases h₁ : (ExceptT.run (b t V)).run s with ⟨_ | st, s₁⟩
    · simp only [h₁] at hrun
      cases hrun
    · obtain ⟨r₁, rfl, hw₁⟩ := hone t V s st s₁ hk hI h₁
      simp only [h₁] at hrun
      -- the later starts find the invariant kept and no more unvisited objects
      obtain ⟨hI₁, hcard⟩ := hstep hw₁ hI
      exact hcons hw₁
        (forIn_walks_in U hnil hcons hstep hone ts r₁ s₁ r s' (hcard.trans_lt hk) hI₁ hrun)

/-- A walk whose bound exceeds the number of managed objects left unvisited visits everything
its start reaches: the bound is never reached. -/
theorem reach_walked : ∀ (f : Nat) (t : ObjectId) (V : List ObjectId) (s : EngineState)
    (r : List ObjectId) (s' : EngineState), (Graph.unvisited (managedIds s) V).card < f →
    (ExceptT.run (reach f t V)).run s = (.ok r, s') → WalkedIn s V [t] r s'
  | 0, _, _, _, _, _, hf, _ => absurd hf (Nat.not_lt_zero _)
  | f + 1, t, V, s, r, s', hf, hrun => by
    by_cases hvisit : Live s t ∧ t ∉ V
    · obtain ⟨⟨m, hfind, hd⟩, htV⟩ := hvisit
      obtain ⟨sL, hL, hrest⟩ := run_reach_visit hfind hd htV hrun
      -- the visit uses one unit of the bound and one unvisited object
      have hf' : (Graph.unvisited (managedIds sL) (V ++ [t])).card < f := by
        rw [managedIds_eq_of_headers hL.framed.sameHeaders]
        exact unvisited_managed_visit_lt hfind htV hf
      refine .visit ⟨m, hfind, hd⟩ htV hL (forIn_walks_in managedIds (fun _ _ => .nil)
        (fun h₁ h₂ => h₁.cons h₂) (fun h _ => ⟨trivial, h.card_le⟩) ?_ _ _ _ _ _ hf' trivial hrest)
      intro t' V' s₁ st s₂ hk _ h
      obtain ⟨r', rfl, h'⟩ := run_yield h
      exact ⟨r', rfl, reach_walked f t' V' s₁ r' s₂ hk h'⟩
    · rw [run_reach_skip (by tauto)] at hrun
      cases hrun
      exact .skip (by tauto)

/-- The bound the context gives a walk, one more than the number of managed objects, exceeds
the number of objects it can leave unvisited. -/
theorem unvisited_card_lt_bound (s : EngineState) (V : List ObjectId) :
    (Graph.unvisited (managedIds s) V).card < s.ctx.objects.length + 1 := by
  have h₁ : (Graph.unvisited (managedIds s) V).card ≤ (managedIds s).toFinset.card :=
    Finset.card_le_card Finset.sdiff_subset
  have h₂ : (managedIds s).toFinset.card ≤ s.ctx.objects.length := by
    simpa [managedIds] using (managedIds s).toFinset_card_le
  omega

/-- A walk that returns appends to the visited list exactly what its start reaches outside it,
once each, loading the relation fields of each enlisted one once, in the order of the visits,
and doing nothing else. -/
theorem reach_exact {s s' : EngineState} {t : ObjectId} {V r : List ObjectId}
    (hrun : (ExceptT.run (reach (s.ctx.objects.length + 1) t V)).run s = (.ok r, s')) :
    ∃ N, r = V ++ N ∧ N.Nodup ∧
      (∀ x, x ∈ N ↔ Graph.ReachesAvoiding (cascadeOf s') (Live s') V t x) ∧
      LoadsInTurn s N s' := by
  obtain ⟨N, rfl, hv, hl⟩ := reach_walked _ t V s r s' (unvisited_card_lt_bound s V) hrun
  exact ⟨N, rfl, hv.nodup, fun x => (hv.mem_iff x).trans (by simp), hl⟩

end Reach

/-! ### Returning what no root reaches to transient -/

section Release

variable {s : EngineState}

/-- Returning an object to transient: the first manager of a new or transient object becomes
transient with nothing dirty, and the context gives the object up. -/
theorem run_releaseOrphan {x : ObjectId} {m : ManagedObject}
    (hm : s.ctx.objects.find? (·.id == x) = some m)
    (hl : m.lifecycle = .persistentNew ∨ m.lifecycle = .transient) :
    ∃ s', (ExceptT.run (releaseOrphan x)).run s = (.ok (), s') ∧
      (∀ y, s'.ctx.objects.find? (·.id == y) =
        if y = x then some m.returnedToTransient else s.ctx.objects.find? (·.id == y)) ∧
      s'.runtime = s.runtime.release x s.ctx.id ∧ s'.ctx.id = s.ctx.id := by
  have ht : m.transition .rollback = .ok { m with lifecycle := .transient } := by
    unfold ManagedObject.transition
    rcases hl with h | h <;> rw [h] <;> rfl
  have hid := id_of_find? hm
  simp only [releaseOrphan, transition, run_bind, run_discard, run_manager, hm, Option.elim,
    run_core, ht, Except.mapError, run_updateManager, run_pure, run_get, run_set]
  refine ⟨_, rfl, fun y => ?_, rfl, rfl⟩
  by_cases hy : y = x
  · subst hy
    rw [if_pos rfl, find?_updateAt_self ?_ (find?_updateAt_self ?_ hm)]
    · rfl
    · exact fun _ h => h
    · exact fun _ _ => hid
  · rw [if_neg hy, find?_updateAt ?_, if_neg hy, find?_updateAt ?_, if_neg hy]
    · exact fun _ _ => hid
    · exact fun _ h => h

/-- From the state `s₁`, the objects `P` have been returned to transient and given up, and
nothing else has changed in the managers the context finds first or in the objects it holds. -/
def ReleasedUpTo (P : List ObjectId) (s₁ s : EngineState) : Prop :=
  (∀ y, s.ctx.objects.find? (·.id == y) =
    if y ∈ P then (s₁.ctx.objects.find? (·.id == y)).map ManagedObject.returnedToTransient
    else s₁.ctx.objects.find? (·.id == y)) ∧
  (∀ e, e ∈ s.runtime.owners ↔ e ∈ s₁.runtime.owners ∧ ¬ (e.1 ∈ P ∧ e.2 = s₁.ctx.id)) ∧
  s.ctx.id = s₁.ctx.id

theorem ReleasedUpTo.refl (s : EngineState) : ReleasedUpTo [] s s :=
  ⟨by simp, by simp, rfl⟩

theorem ReleasedUpTo.step {P : List ObjectId} {s₁ s' : EngineState} {x : ObjectId}
    (h : ReleasedUpTo P s₁ s)
    (hx : ∃ m, s₁.ctx.objects.find? (·.id == x) = some m ∧ m.lifecycle = .persistentNew)
    (hrun : (ExceptT.run (releaseOrphan x)).run s = (.ok (), s')) :
    ReleasedUpTo (P ++ [x]) s₁ s' := by
  obtain ⟨m, hm, hnew⟩ := hx
  have hcur : s.ctx.objects.find? (·.id == x) =
      some (if x ∈ P then m.returnedToTransient else m) := by
    rw [h.1 x, hm]
    split <;> rfl
  have hl : (if x ∈ P then m.returnedToTransient else m).lifecycle = .persistentNew ∨
      (if x ∈ P then m.returnedToTransient else m).lifecycle = .transient := by
    split
    · exact .inr rfl
    · exact .inl hnew
  obtain ⟨s₂, hrun₂, hfind, hrt, hid⟩ := run_releaseOrphan hcur hl
  rw [hrun₂] at hrun
  cases hrun
  refine ⟨fun y => ?_, fun e => ?_, hid.trans h.2.2⟩
  · rw [hfind y]
    by_cases hyx : y = x
    · subst hyx
      rw [if_pos rfl, if_pos (List.mem_append_right P (List.mem_singleton_self y)), hm]
      split <;> rfl
    · rw [if_neg hyx, h.1 y]
      simp [hyx]
  · rw [hrt, h.2.2]
    simp only [Runtime.release, List.mem_filter, h.2.1, Bool.not_eq_true', Bool.and_eq_false_iff,
      beq_eq_false_iff_ne, List.mem_append, List.mem_singleton]
    constructor
    · rintro ⟨⟨he, hP⟩, hne⟩
      refine ⟨he, ?_⟩
      rintro ⟨hP' | rfl, hc⟩
      · exact hP ⟨hP', hc⟩
      · rcases hne with hne | hne
        · exact hne rfl
        · exact hne hc
    · rintro ⟨he, hn⟩
      exact ⟨⟨he, fun hc => hn ⟨.inl hc.1, hc.2⟩⟩, by tauto⟩

theorem forIn_releaseOrphan {O : List ObjectId} {s₁ : EngineState}
    (hnew : ∀ x ∈ O, ∃ m, s₁.ctx.objects.find? (·.id == x) = some m ∧ m.lifecycle = .persistentNew) :
    ∀ (P : List ObjectId) (s s' : EngineState), ReleasedUpTo P s₁ s →
      (ExceptT.run (forIn O PUnit.unit fun x _ => do
        releaseOrphan x
        pure (ForInStep.yield PUnit.unit))).run s = (.ok (), s') →
      ReleasedUpTo (P ++ O) s₁ s' := by
  induction O with
  | nil =>
    intro P s s' h hrun
    simp only [List.forIn_nil, run_pure] at hrun
    cases hrun
    simpa using h
  | cons x O ih =>
    intro P s s' h hrun
    rw [List.forIn_cons, run_bind, run_bind] at hrun
    rcases h₁ : (ExceptT.run (releaseOrphan x)).run s with ⟨_ | _, s₂⟩
    · simp only [h₁] at hrun
      cases hrun
    · simp only [h₁, run_pure] at hrun
      have h₂ := h.step (hnew x List.mem_cons_self) h₁
      simpa using ih (fun y hy => hnew y (List.mem_cons_of_mem x hy)) (P ++ [x]) s₂ s' h₂ hrun

end Release

/-! ### Reachability at commit -/

/-- `r` is an object a commit with reachability on walks from: one persisted explicitly, or a
clean or dirty one. -/
def IsRoot (s : EngineState) (r : ObjectId) : Prop :=
  ∃ m ∈ s.ctx.objects, m.id = r ∧
    (m.explicitlyPersisted = true ∨ m.lifecycle = .persistentClean ∨
      m.lifecycle = .persistentDirty)

/-- `x` is a new object of `s` persisted only by cascade that no root of `s` reaches through
the references of `s'`. -/
def Orphan (s s' : EngineState) (x : ObjectId) : Prop :=
  (∃ m ∈ s.ctx.objects, m.id = x ∧ m.lifecycle = .persistentNew ∧
      m.explicitlyPersisted = false) ∧
    ∀ r, IsRoot s r → ¬ ReachesLive s' r x

section Commit

variable {s s'' : EngineState}

theorem mem_roots_iff (r : ObjectId) :
    r ∈ (s.ctx.objects.filter fun m => m.explicitlyPersisted || m.lifecycle == .persistentClean ||
      m.lifecycle == .persistentDirty).map (·.id) ↔ IsRoot s r := by
  simp only [List.mem_map, List.mem_filter, Bool.or_eq_true, beq_iff_eq, IsRoot]
  constructor
  · rintro ⟨m, ⟨hm, hroot⟩, rfl⟩
    exact ⟨m, hm, rfl, by tauto⟩
  · rintro ⟨m, hm, rfl, hroot⟩
    exact ⟨m, ⟨hm, by tauto⟩, rfl⟩

theorem roots_walked {roots R : List ObjectId} {s' : EngineState}
    (hrun : (ExceptT.run (forIn roots [] fun r acc => do
      let c ← context
      let reachable ← reach (c.objects.length + 1) r acc
      pure (ForInStep.yield reachable))).run s = (.ok R, s')) :
    WalkedIn s [] roots R s' := by
  refine forIn_walks_in managedIds (fun _ _ => .nil) (fun h₁ h₂ => h₁.cons h₂)
    (fun h _ => ⟨trivial, h.card_le⟩) ?_ roots [] s R s' (Nat.lt_succ_self _) trivial hrun
  intro t V s₁ st s₂ _ _ h
  rw [run_bind, run_context] at h
  obtain ⟨r, rfl, h'⟩ := run_yield h
  exact ⟨r, rfl, reach_walked _ t V s₁ r s₂ (unvisited_card_lt_bound s₁ V) h'⟩

theorem mem_orphans_iff {s' : EngineState} {R : List ObjectId} (hh : headers s' = headers s)
    (hR : ∀ x, x ∈ R ↔ ∃ r, IsRoot s r ∧ ReachesLive s' r x) (x : ObjectId) :
    x ∈ (s'.ctx.objects.filter fun m => m.lifecycle == .persistentNew && !m.explicitlyPersisted &&
      !R.contains m.id).map (·.id) ↔ Orphan s s' x := by
  have h₁ : x ∈ (s'.ctx.objects.filter fun m => m.lifecycle == .persistentNew &&
      !m.explicitlyPersisted && !R.contains m.id).map (·.id) ↔
      ∃ m ∈ s'.ctx.objects, m.id = x ∧ m.lifecycle = .persistentNew ∧
        m.explicitlyPersisted = false ∧ m.id ∉ R := by
    simp only [List.mem_map, List.mem_filter, Bool.and_eq_true, beq_iff_eq, Bool.not_eq_true',
      Bool.eq_false_iff, ne_eq, List.contains_iff_mem]
    constructor
    · rintro ⟨m, ⟨hm, ⟨hnew, hexp⟩, hnr⟩, rfl⟩
      exact ⟨m, hm, rfl, hnew, hexp, hnr⟩
    · rintro ⟨m, hm, rfl, hnew, hexp, hnr⟩
      exact ⟨m, ⟨hm, ⟨hnew, hexp⟩, hnr⟩, rfl⟩
  have h₂ := exists_mem_iff_of_headers hh fun e =>
    e.1 = x ∧ e.2.1 = .persistentNew ∧ e.2.2 = false ∧ e.1 ∉ R
  rw [h₁, h₂]
  simp only [Orphan, hR, not_exists, not_and]
  constructor
  · rintro ⟨m, hm, rfl, hnew, hexp, hnr⟩
    exact ⟨⟨m, hm, rfl, hnew, hexp⟩, hnr⟩
  · rintro ⟨⟨m, hm, rfl, hnew, hexp⟩, hnr⟩
    exact ⟨m, hm, rfl, hnew, hexp, hnr⟩

theorem Orphan.find? {s' : EngineState} {x : ObjectId} (hfirst : FirstInUse s.ctx.objects)
    (hh : headers s' = headers s) (h : Orphan s s' x) :
    ∃ m, s'.ctx.objects.find? (·.id == x) = some m ∧ m.lifecycle = .persistentNew := by
  obtain ⟨⟨n, hn, rfl, hnew, -⟩, -⟩ := h
  have hfind := hfirst n hn (by rw [hnew]; decide)
  have hl := lifecycle_eq_of_headers hh n.id
  rw [hfind, Option.map_some, hnew] at hl
  obtain ⟨m, hm, he⟩ := Option.map_eq_some_iff.mp hl
  exact ⟨m, hm, he⟩

/-- Reachability at commit: the walk from every root, over one shared visited list, visits
exactly what the roots reach, loading the relation fields of each enlisted object it visits
once; then exactly the orphans, the new objects persisted only by cascade that no root reaches,
become transient with nothing dirty and are given up, and every other object stays as the walk
left it. -/
theorem releaseUnreachable_spec (hfirst : FirstInUse s.ctx.objects)
    (hrun : (ExceptT.run releaseUnreachable).run s = (.ok (), s'')) :
    ∃ R s', R.Nodup ∧ LoadsInTurn s R s' ∧
      (∀ x, x ∈ R ↔ ∃ r, IsRoot s r ∧ ReachesLive s' r x) ∧
      (∀ x, Orphan s s' x → s''.ctx.objects.find? (·.id == x) =
        (s'.ctx.objects.find? (·.id == x)).map ManagedObject.returnedToTransient) ∧
      (∀ x, ¬ Orphan s s' x →
        s''.ctx.objects.find? (·.id == x) = s'.ctx.objects.find? (·.id == x)) ∧
      ∀ e, e ∈ s''.runtime.owners ↔ e ∈ s'.runtime.owners ∧ ¬ (Orphan s s' e.1 ∧ e.2 = s.ctx.id) := by
  simp only [releaseUnreachable, run_bind, run_context] at hrun
  split at hrun
  case h_2 => cases hrun
  rename_i R s' hwalk
  split at hrun
  case h_2 => cases hrun
  rename_i _ hrelease
  cases hrun
  obtain ⟨N, hR, hv, hl⟩ := roots_walked hwalk
  rw [List.nil_append] at hR
  subst hR
  have hf := hl.framed
  have hmem : ∀ x, x ∈ R ↔ ∃ r, IsRoot s r ∧ ReachesLive s' r x := fun x =>
    (hv.mem_iff x).trans (by simp only [mem_roots_iff])
  -- the orphans the commit computes are exactly `Orphan s s'`
  have horphan := mem_orphans_iff hf.sameHeaders hmem
  have hnew : ∀ x ∈ _, _ := fun x hx =>
    ((horphan x).mp hx).find? hfirst hf.sameHeaders
  obtain ⟨hfind, howners, -⟩ := forIn_releaseOrphan hnew [] s' s'' (.refl s') hrelease
  refine ⟨R, s', hv.nodup, hl, hmem, fun x hx => ?_, fun x hx => ?_, fun e => ?_⟩
  · rw [hfind x, if_pos (by simpa using (horphan x).mpr hx)]
  · rw [hfind x, if_neg (by simpa using mt (horphan x).mp hx)]
  · rw [howners e, List.nil_append, horphan, hf.ctxId]

theorem firstInUse_of_nodup {objs : List ManagedObject} (h : (objs.map (·.id)).Nodup) :
    FirstInUse objs := by
  intro m hm _
  induction objs with
  | nil => cases hm
  | cons a objs ih =>
    rw [List.map_cons, List.nodup_cons] at h
    rcases List.mem_cons.mp hm with rfl | hm'
    · simp
    · -- `m` comes later, so its object is not the head's
      have hne : (a.id == m.id) = false := by
        rw [beq_eq_false_iff_ne]
        exact fun he => h.1 (he ▸ List.mem_map_of_mem hm')
      rw [List.find?_cons, hne]
      exact ih h.2 hm'

end Commit

end Engine

/-- Reachability is exact. A walk that returns appends to the visited list what its start
reaches outside that list, once each, through the cascade-persist references between managed
objects that are not deleted, as they are once the walk has loaded the relation fields of each
enlisted object it visits; it loads those once each, in the order of the visits, and changes
nothing else. At commit, the walk from every root over one shared list visits exactly what the
roots reach, and then exactly the orphans, the new objects persisted only by cascade that no
root reaches, return to transient with nothing dirty and are given up; every other object stays
as the walk left it. -/
theorem reach_exact_and_commit_releases_orphans :
    (∀ (s s' : EngineState) (t : ObjectId) (V r : List ObjectId),
      (ExceptT.run (Engine.reach (s.ctx.objects.length + 1) t V)).run s = (.ok r, s') →
      ∃ N, r = V ++ N ∧ N.Nodup ∧
        (∀ x, x ∈ N ↔ Graph.ReachesAvoiding (Engine.cascadeOf s') (Engine.Live s') V t x) ∧
        Engine.LoadsInTurn s N s') ∧
    (∀ s s'' : EngineState, FirstInUse s.ctx.objects →
      (ExceptT.run Engine.releaseUnreachable).run s = (.ok (), s'') →
      ∃ R s', R.Nodup ∧ Engine.LoadsInTurn s R s' ∧
        (∀ x, x ∈ R ↔ ∃ r, Engine.IsRoot s r ∧ Engine.ReachesLive s' r x) ∧
        (∀ x, Engine.Orphan s s' x → s''.ctx.objects.find? (·.id == x) =
          (s'.ctx.objects.find? (·.id == x)).map ManagedObject.returnedToTransient) ∧
        (∀ x, ¬ Engine.Orphan s s' x →
          s''.ctx.objects.find? (·.id == x) = s'.ctx.objects.find? (·.id == x)) ∧
        ∀ e, e ∈ s''.runtime.owners ↔
          e ∈ s'.runtime.owners ∧ ¬ (Engine.Orphan s s' e.1 ∧ e.2 = s.ctx.id)) :=
  ⟨fun _ _ _ _ _ hrun => Engine.reach_exact hrun,
    fun _ _ hfirst hrun => Engine.releaseUnreachable_spec hfirst hrun⟩

/-- A book holding a new chapter in a cascade-persist relation field, the book persisted
explicitly, in an open transaction. -/
def bookWithChapter : EngineState :=
  ((ExceptT.run (do
    Engine.begin
    let b ← Engine.newObject "Book"
    let c ← Engine.newObject "Chapter"
    Engine.setField b 2 (.collection [.ref c])
    Engine.persist b)).run idleSample).2

def droppedChapter : EngineState :=
  ((ExceptT.run (Engine.setField (ObjectId.fresh 0) 2 (.collection []))).run bookWithChapter).2

/-- The walk from the book visits the book and its chapter; at commit the dropped chapter is
the orphan. -/
theorem book_reaches_chapter_until_dropped :
    (∃ N, [ObjectId.fresh 0, ObjectId.fresh 1] = [] ++ N ∧ N.Nodup) ∧
      FirstInUse droppedChapter.ctx.objects ∧
      ∃ R s', R.Nodup ∧ Engine.LoadsInTurn droppedChapter R s' := by
  have hreach : ((ExceptT.run (Engine.reach (bookWithChapter.ctx.objects.length + 1)
      (ObjectId.fresh 0) [])).run bookWithChapter).1 = .ok [ObjectId.fresh 0, ObjectId.fresh 1] := by
    decide +kernel
  have hwalk : (ExceptT.run (Engine.reach (bookWithChapter.ctx.objects.length + 1)
      (ObjectId.fresh 0) [])).run bookWithChapter = (.ok [ObjectId.fresh 0, ObjectId.fresh 1],
        ((ExceptT.run (Engine.reach (bookWithChapter.ctx.objects.length + 1)
          (ObjectId.fresh 0) [])).run bookWithChapter).2) := by
    rw [← hreach]
    exact Prod.mk.eta.symm
  have hanswer : ((ExceptT.run Engine.releaseUnreachable).run droppedChapter).1 = .ok () := by
    decide +kernel
  have hrelease : (ExceptT.run Engine.releaseUnreachable).run droppedChapter =
      (.ok (), ((ExceptT.run Engine.releaseUnreachable).run droppedChapter).2) := by
    rw [← hanswer]
    exact Prod.mk.eta.symm
  have hfirst : FirstInUse droppedChapter.ctx.objects :=
    Engine.firstInUse_of_nodup (by decide +kernel)
  obtain ⟨N, hN, hnodup, -⟩ := reach_exact_and_commit_releases_orphans.1 _ _ _ _ _ hwalk
  obtain ⟨R, s', hR, hl, -⟩ := reach_exact_and_commit_releases_orphans.2 _ _ hfirst hrelease
  exact ⟨⟨N, hN, hnodup⟩, hfirst, R, s', hR, hl⟩

end ObjectPersistence
