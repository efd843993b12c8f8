import Mathlib
import ObjectPersistence.Proofs.Reachability

/-! # Cascading persistence

Persisting a transient object makes it new and claims it for the context; persistence then
cascades through the references held in loaded cascade-persist relation fields. The walk
enters every managed object that is not deleted: it makes each transient one new and claims
it before walking on from it, passes through objects that are persistent already, skips
deleted ones, and only checks the owner of objects the context does not manage.

Making an object new changes neither its references nor whether a walk enters it, so the
walk runs over one fixed graph, the one `Engine.cascadeOf` and `Engine.Live` describe.
`MadeNew e s₀ P s` says what has been done so far: the objects `P`, transient in `s₀`, are new
and claimed, and nothing else has changed in the managers the context finds first or in the
registry. `Cascaded` says what one walk does: it visits what its starts reach outside the
visited list (`Graph.Visits`) and makes exactly the transient objects among them new.

The bound the context gives a walk, one more than the number of managed objects, is never
reached, so on every graph, cycles included, a persist that returns has made new exactly the
object itself, if it was transient, and the transient objects it reaches, and only the object
itself is marked as persisted explicitly (`persist_makes_reached_transients_new`). -/

namespace ObjectPersistence

/-- A manager made new by persisting it: persistent and new, marked persisted explicitly when
asked, and recorded as made persistent in the transaction when one is open. -/
def ManagedObject.madeNew (m : ManagedObject) (explicit tx : Bool) : ManagedObject :=
  { m with lifecycle := .persistentNew, explicitlyPersisted := m.explicitlyPersisted || explicit,
           createdInTx := tx }

namespace ManagedObject

@[simp] theorem id_madeNew (m : ManagedObject) (explicit tx : Bool) :
    (m.madeNew explicit tx).id = m.id := rfl

@[simp] theorem lifecycle_madeNew (m : ManagedObject) (explicit tx : Bool) :
    (m.madeNew explicit tx).lifecycle = .persistentNew := rfl

@[simp] theorem cascadeTargets_madeNew (m : ManagedObject) (explicit tx : Bool) :
    (m.madeNew explicit tx).cascadeTargets = m.cascadeTargets := rfl

end ManagedObject

theorem Runtime.ownerOf_claim {r r' : Runtime} {x : ObjectId} {c : Nat} (h : r.claim x c = .ok r')
    (y : ObjectId) : r'.ownerOf y = if y = x then some c else r.ownerOf y := by
  rcases Runtime.claim_eq_ok h with ⟨hx, rfl⟩ | ⟨hx, rfl⟩
  · split
    · subst y
      exact hx
    · rfl
  · simp only [Runtime.ownerOf, List.lookup_append] at hx ⊢
    split
    · subst y
      simp [hx]
    · rename_i hy
      cases r.owners.lookup y <;> simp [hy]

namespace Engine

def Transient (s : EngineState) (x : ObjectId) : Prop :=
  ∃ m, s.ctx.objects.find? (·.id == x) = some m ∧ m.lifecycle = .transient

theorem Transient.live {s : EngineState} {x : ObjectId} (h : Transient s x) : Live s x := by
  obtain ⟨m, hm, ht⟩ := h
  exact ⟨m, hm, by rw [ht]; rfl⟩

def NoneTransient (s : EngineState) (V : List ObjectId) : Prop := ∀ y ∈ V, ¬ Transient s y

theorem run_makePersistent {s : EngineState} {x : ObjectId} {m : ManagedObject}
    (hfind : s.ctx.objects.find? (·.id == x) = some m) (ht : m.lifecycle = .transient)
    (explicit : Bool) :
    (ExceptT.run (makePersistent x explicit)).run s =
      match s.runtime.claim x s.ctx.id with
      | .ok r => (.ok (), { s with runtime := r, ctx := { s.ctx with
          objects := s.ctx.objects.map (updateAt x fun _ => m.madeNew explicit s.ctx.txActive) } })
      | .error e => (.error e, s) := by
  have htr : m.transition .makePersistent = .ok { m with lifecycle := .persistentNew } := by
    unfold ManagedObject.transition
    rw [ht]
    rfl
  simp only [makePersistent, claim, run_bind, run_get, run_lift, run_set, run_context, run_manager]
  cases hc : s.runtime.claim x s.ctx.id with
  | error e => rfl
  | ok r =>
    simp only [hfind, Option.elim, run_core, htr, Except.mapError, run_updateManager]
    rfl

theorem run_checkOwner (s : EngineState) (x : ObjectId) :
    (ExceptT.run (checkOwner x)).run s = (s.runtime.check x s.ctx.id, s) := by
  simp only [checkOwner, run_bind, run_get, run_lift]

/-! ### Objects made new -/

/-- From `s₀`, the objects `P`, each transient in `s₀`, have been made new (marked persisted
explicitly as `e` says) and claimed for the context, and nothing else has changed in the
managers the context finds first, in the objects it manages or in the registry. -/
structure MadeNew (e : Bool) (s₀ : EngineState) (P : ObjectId → Prop) (s : EngineState) :
    Prop where
  transient : ∀ y, P y → Transient s₀ y
  made : ∀ y, P y → s.ctx.objects.find? (·.id == y) =
    (s₀.ctx.objects.find? (·.id == y)).map (·.madeNew e s₀.ctx.txActive)
  kept : ∀ y, ¬ P y → s.ctx.objects.find? (·.id == y) = s₀.ctx.objects.find? (·.id == y)
  owned : ∀ y, P y → s.runtime.ownerOf y = some s₀.ctx.id
  owners : ∀ y, ¬ P y → s.runtime.ownerOf y = s₀.runtime.ownerOf y
  ids : managedIds s = managedIds s₀
  ctxId : s.ctx.id = s₀.ctx.id
  txActive : s.ctx.txActive = s₀.ctx.txActive

section MadeNew

variable {e : Bool} {s₀ s₁ s₂ s : EngineState} {P Q : ObjectId → Prop}

theorem MadeNew.refl (hP : ∀ y, ¬ P y) : MadeNew e s P s :=
  ⟨fun y h => absurd h (hP y), fun y h => absurd h (hP y), fun _ _ => rfl,
    fun y h => absurd h (hP y), fun _ _ => rfl, rfl, rfl, rfl⟩

theorem MadeNew.congr (h : MadeNew e s₀ P s) (hPQ : ∀ y, P y ↔ Q y) : MadeNew e s₀ Q s where
  transient y hy := h.transient y ((hPQ y).2 hy)
  made y hy := h.made y ((hPQ y).2 hy)
  kept y hy := h.kept y (mt (hPQ y).1 hy)
  owned y hy := h.owned y ((hPQ y).2 hy)
  owners y hy := h.owners y (mt (hPQ y).1 hy)
  ids := h.ids
  ctxId := h.ctxId
  txActive := h.txActive

theorem MadeNew.transient_iff (h : MadeNew e s₀ P s) (y : ObjectId) :
    Transient s y ↔ Transient s₀ y ∧ ¬ P y := by
  by_cases hy : P y
  · refine ⟨fun ⟨m, hm, ht⟩ => ?_, fun h' => absurd hy h'.2⟩
    rw [h.made y hy] at hm
    obtain ⟨m₀, -, rfl⟩ := Option.map_eq_some_iff.mp hm
    cases ht
  · simp only [Transient, h.kept y hy, hy, not_false_eq_true, and_true]

theorem MadeNew.live_iff (h : MadeNew e s₀ P s) (y : ObjectId) : Live s y ↔ Live s₀ y := by
  by_cases hy : P y
  · have hl := (h.transient y hy).live
    obtain ⟨m₀, hm₀, -⟩ := id hl
    refine ⟨fun _ => hl, fun _ => ⟨m₀.madeNew e s₀.ctx.txActive, ?_, rfl⟩⟩
    rw [h.made y hy, hm₀, Option.map_some]
  · simp only [Live, h.kept y hy]

theorem MadeNew.cascadeOf_eq (h : MadeNew e s₀ P s) (y : ObjectId) :
    cascadeOf s y = cascadeOf s₀ y := by
  by_cases hy : P y
  · simp only [cascadeOf, h.made y hy, Option.map_map, Function.comp_def,
      ManagedObject.cascadeTargets_madeNew]
  · simp only [cascadeOf, h.kept y hy]

theorem MadeNew.trans (h₁ : MadeNew e s₀ P s₁) (h₂ : MadeNew e s₁ Q s₂) :
    MadeNew e s₀ (fun y => P y ∨ Q y) s₂ := by
  -- an object made new in the second step was still transient after the first
  have hQP : ∀ y, Q y → ¬ P y := fun y hq =>
    ((h₁.transient_iff y).mp (h₂.transient y hq)).2
  refine ⟨fun y hy => ?_, fun y hy => ?_, fun y hy => ?_, fun y hy => ?_, fun y hy => ?_,
    h₂.ids.trans h₁.ids, h₂.ctxId.trans h₁.ctxId, h₂.txActive.trans h₁.txActive⟩
  · rcases hy with hy | hy
    · exact h₁.transient y hy
    · exact ((h₁.transient_iff y).mp (h₂.transient y hy)).1
  · rcases hy with hy | hy
    · rw [h₂.kept y fun hq => hQP y hq hy, h₁.made y hy]
    · rw [h₂.made y hy, h₁.kept y (hQP y hy), h₁.txActive]
  · rw [not_or] at hy
    rw [h₂.kept y hy.2, h₁.kept y hy.1]
  · rcases hy with hy | hy
    · rw [h₂.owners y fun hq => hQP y hq hy, h₁.owned y hy]
    · rw [h₂.owned y hy, h₁.ctxId]
  · rw [not_or] at hy
    rw [h₂.owners y hy.2, h₁.owners y hy.1]

theorem MadeNew.single {x : ObjectId} (hx : Transient s₀ x)
    (hrun : (ExceptT.run (makePersistent x e)).run s₀ = (.ok (), s)) : MadeNew e s₀ (· = x) s := by
  obtain ⟨m, hm, ht⟩ := hx
  rw [run_makePersistent hm ht] at hrun
  split at hrun
  case h_2 => cases hrun
  rename_i r hc
  cases hrun
  have hid : ∀ m' : ManagedObject, m'.id = x →
      ((fun _ => m.madeNew e s₀.ctx.txActive) m').id = x :=
    fun _ _ => (ManagedObject.id_madeNew m _ _).trans (id_of_find? hm)
  refine ⟨fun y hy => hy ▸ ⟨m, hm, ht⟩, fun y hy => ?_, fun y hy => ?_, fun y hy => ?_,
    fun y hy => ?_, ?_, rfl, rfl⟩
  · subst hy
    rw [find?_updateAt_self hid hm, hm, Option.map_some]
  · simp only [find?_updateAt hid, if_neg hy]
  · simp only [Runtime.ownerOf_claim hc y, if_pos hy]
  · simp only [Runtime.ownerOf_claim hc y, if_neg hy]
  · simp only [managedIds, List.map_map]
    congr 1
    funext (m' : ManagedObject)
    exact updateAt_id hid m'

end MadeNew

/-! ### One walk at a time -/

/-- A walk from the starts `ts` that found the visited list `V` in the state `s` ends with the
list `r` in the state `s'`: it appends the objects `N` it visits, which are what its starts
reach outside `V`, and it makes exactly the transient ones among them new. -/
def Cascaded (s : EngineState) (V ts r : List ObjectId) (s' : EngineState) : Prop :=
  ∃ N, r = V ++ N ∧ Graph.Visits (cascadeOf s) (Live s) V ts N ∧
    MadeNew false s (fun y => y ∈ N ∧ Transient s y) s'

section Cascaded

variable {s s₁ s₂ s' : EngineState} {V r r₁ r₂ ts : List ObjectId} {t : ObjectId}

theorem Cascaded.nil : Cascaded s V [] V s :=
  ⟨[], by simp, .nil, MadeNew.refl (by simp)⟩

theorem Cascaded.skip (h : ¬ Live s t ∨ t ∈ V) : Cascaded s V [t] V s :=
  ⟨[], by simp, .skip h, MadeNew.refl (by simp)⟩

theorem Cascaded.cons (h₁ : Cascaded s V [t] r₁ s₁) (h₂ : Cascaded s₁ r₁ ts r₂ s₂) :
    Cascaded s V (t :: ts) r₂ s₂ := by
  obtain ⟨N₁, rfl, hv₁, hm₁⟩ := h₁
  obtain ⟨N₂, rfl, hv₂, hm₂⟩ := h₂
  -- the later walks run over the same graph, and visit only objects the first did not
  have hv₂' := hv₂.congr (fun x _ => (hm₁.cascadeOf_eq x).symm) fun y => (hm₁.live_iff y).symm
  refine ⟨N₁ ++ N₂, by simp, hv₁.cons hv₂', (hm₁.trans hm₂).congr fun y => ?_⟩
  have hfresh : y ∈ N₂ → y ∉ N₁ := fun hy h' => hv₂.fresh y hy (List.mem_append_right V h')
  rw [hm₁.transient_iff, List.mem_append]
  tauto

theorem Cascaded.visit (ht : Live s t) (htV : t ∉ V) (hnt : ¬ Transient s t)
    (h : Cascaded s (V ++ [t]) (cascadeOf s t) r s') : Cascaded s V [t] r s' := by
  obtain ⟨N, rfl, hv, hm⟩ := h
  refine ⟨t :: N, by simp, hv.visit ht htV, hm.congr fun y => ?_⟩
  rw [List.mem_cons]
  constructor
  · exact fun ⟨hy, hT⟩ => ⟨.inr hy, hT⟩
  · rintro ⟨rfl | hy, hT⟩
    · exact absurd hT hnt
    · exact ⟨hy, hT⟩

theorem Cascaded.madeFirst (hT : Transient s t) (htV : t ∉ V)
    (hmp : (ExceptT.run (makePersistent t false)).run s = (.ok (), s₁))
    (h : Cascaded s₁ V [t] r s') : Cascaded s V [t] r s' := by
  have hm₀ := MadeNew.single hT hmp
  obtain ⟨N, rfl, hv, hm⟩ := h
  have htN : t ∈ N := by
    have := hv.starts t (List.mem_singleton_self t) ((hm₀.live_iff t).mpr hT.live)
    simpa [htV] using this
  refine ⟨N, rfl, hv.congr (fun x _ => (hm₀.cascadeOf_eq x).symm) fun y => (hm₀.live_iff y).symm,
    (hm₀.trans hm).congr fun y => ?_⟩
  rw [hm₀.transient_iff]
  constructor
  · rintro (rfl | ⟨hy, hTy, -⟩)
    · exact ⟨htN, hT⟩
    · exact ⟨hy, hTy⟩
  · rintro ⟨hy, hTy⟩
    by_cases hyt : y = t
    · exact .inl hyt
    · exact .inr ⟨hy, hTy, hyt⟩

theorem Cascaded.step (h : Cascaded s V ts r s') (hV : NoneTransient s V) :
    NoneTransient s' r ∧
      (Graph.unvisited (managedIds s') r).card ≤ (Graph.unvisited (managedIds s) V).card := by
  obtain ⟨N, rfl, -, hm⟩ := h
  refine ⟨fun y hy hT => ?_, by rw [hm.ids]; exact Graph.unvisited_append_card_le _ V N⟩
  obtain ⟨hTs, hnot⟩ := (hm.transient_iff y).mp hT
  rcases List.mem_append.mp hy with hy | hy
  · exact hV y hy hTs
  · exact hnot ⟨hy, hTs⟩

end Cascaded

/-! ### The walk, step by step -/

theorem run_cascadePersist_of_mem {f : Nat} {s : EngineState} {t : ObjectId} {V : List ObjectId}
    (h : t ∈ V) : (ExceptT.run (cascadePersist f t V)).run s = (.ok V, s) := by
  cases f with
  | zero => rfl
  | succ f =>
    have hc : V.contains t = true := by simpa using h
    rw [cascadePersist, if_pos hc]
    rfl

theorem cascadeTarget_walked {f : Nat}
    (ih : ∀ t V s r s', (Graph.unvisited (managedIds s) V).card < f → Live s t → t ∉ V →
      ¬ Transient s t → NoneTransient s V →
      (ExceptT.run (cascadePersist f t V)).run s = (.ok r, s') → Cascaded s V [t] r s')
    {t : ObjectId} {V : List ObjectId} {s s' : EngineState} {st : ForInStep (List ObjectId)}
    (hk : (Graph.unvisited (managedIds s) V).card < f) (hV : NoneTransient s V)
    (hrun : (ExceptT.run (do
        match ← lifecycle? t with
        | some .transient =>
          makePersistent t false
          let visited ← cascadePersist f t V
          pure (ForInStep.yield visited)
        | some l =>
          if (!l.isDeleted) = true then do
            let visited ← cascadePersist f t V
            pure (ForInStep.yield visited)
          else pure (ForInStep.yield V)
        | none => do
          checkOwner t
          pure (ForInStep.yield V) : Engine (ForInStep (List ObjectId)))).run s = (.ok st, s')) :
    ∃ r, st = .yield r ∧ Cascaded s V [t] r s' := by
  rw [run_bind, run_lifecycle?] at hrun
  cases hfind : s.ctx.objects.find? (·.id == t) with
  | none =>
    -- an object the context does not manage only has its owner checked
    simp only [hfind, Option.map_none, run_bind, run_checkOwner] at hrun
    cases hc : s.runtime.check t s.ctx.id with
    | error e =>
      simp only [hc] at hrun
      cases hrun
    | ok u =>
      simp only [hc, run_pure] at hrun
      cases hrun
      exact ⟨V, rfl, .skip (.inl fun ⟨m, hm, _⟩ => by simp [hfind] at hm)⟩
  | some m =>
    simp only [hfind, Option.map_some] at hrun
    by_cases ht : m.lifecycle = .transient
    · -- a transient target is made new, then walked from
      have hT : Transient s t := ⟨m, hfind, ht⟩
      have htV : t ∉ V := fun h => hV t h hT
      rw [ht, run_bind] at hrun
      rcases h₁ : (ExceptT.run (makePersistent t false)).run s with ⟨_ | _, s₁⟩
      · simp only [h₁] at hrun
        cases hrun
      · simp only [h₁] at hrun
        obtain ⟨r, rfl, h₂⟩ := run_yield hrun
        have hm₀ := MadeNew.single hT h₁
        refine ⟨r, rfl, .madeFirst hT htV h₁ (ih t V s₁ r s' (by rw [hm₀.ids]; exact hk)
          ((hm₀.live_iff t).mpr hT.live) htV (by simp [hm₀.transient_iff]) ?_ h₂)⟩
        exact fun y hy hTy => hV y hy ((hm₀.transient_iff y).mp hTy).1
    · split at hrun
      case h_1 heq => exact absurd (Option.some.inj heq) ht
      case h_3 heq => cases heq
      case h_2 l _ heq =>
        obtain rfl := Option.some.inj heq
        by_cases hdel : m.lifecycle.isDeleted = true
        · -- a deleted target is skipped
          simp only [hdel, Bool.not_true, Bool.false_eq_true, if_false, run_pure] at hrun
          cases hrun
          exact ⟨V, rfl, .skip (.inl fun ⟨m', hm', hd'⟩ => by
            rw [hfind] at hm'; cases hm'; simp [hdel] at hd')⟩
        · simp only [hdel, Bool.not_false, if_true] at hrun
          obtain ⟨r, rfl, h₂⟩ := run_yield hrun
          by_cases htV : t ∈ V
          · -- a target visited already is passed over
            rw [run_cascadePersist_of_mem htV] at h₂
            cases h₂
            exact ⟨V, rfl, .skip (.inr htV)⟩
          · have hnt : ¬ Transient s t := fun ⟨m', hm', ht'⟩ => by
              rw [hfind] at hm'; cases hm'; exact ht ht'
            exact ⟨r, rfl, ih t V s r s' hk ⟨m, hfind, by simpa using hdel⟩ htV hnt hV h₂⟩

/-- A walk from a live start that is not transient, with a bound above the number of managed
objects left unvisited, visits everything the start reaches and makes the transient objects
among them new: the bound is never reached. -/
theorem cascade_walked : ∀ (f : Nat) (t : ObjectId) (V : List ObjectId) (s : EngineState)
    (r : List ObjectId) (s' : EngineState), (Graph.unvisited (managedIds s) V).card < f →
    Live s t → t ∉ V → ¬ Transient s t → NoneTransient s V →
    (ExceptT.run (cascadePersist f t V)).run s = (.ok r, s') → Cascaded s V [t] r s'
  | 0, _, _, _, _, _, hf, _, _, _, _, _ => absurd hf (Nat.not_lt_zero _)
  | f + 1, t, V, s, r, s', hf, hlive, htV, hnt, hV, hrun => by
    obtain ⟨m, hfind, hd⟩ := hlive
    have hc : V.contains t = false := by simpa using htV
    rw [cascadePersist] at hrun
    simp only [hc, Bool.false_eq_true, if_false, bind_pure, run_bind, run_managed?, hfind,
      Option.map_some, Option.getD_some] at hrun
    -- the visit uses one unit of the bound and one unvisited object
    have hf' : (Graph.unvisited (managedIds s) (V ++ [t])).card < f :=
      unvisited_managed_visit_lt hfind htV hf
    have hV' : NoneTransient s (V ++ [t]) := fun y hy => by
      rcases List.mem_append.mp hy with hy | hy
      · exact hV y hy
      · rw [List.mem_singleton.mp hy]
        exact hnt
    refine .visit ⟨m, hfind, hd⟩ htV hnt ?_
    have hcas : cascadeOf s t = m.cascadeTargets := by simp [cascadeOf, hfind]
    rw [hcas]
    refine forIn_walks_in managedIds (fun _ _ => .nil) (fun h₁ h₂ => h₁.cons h₂)
      (fun h hI => h.step hI) ?_ _ _ _ _ _ hf' hV' hrun
    intro t' V' s₁ st s₂ hk hI h
    exact cascadeTarget_walked (cascade_walked f) hk hI h

/-! ### Persisting an object -/

/-- What persisting does once the object itself is handled: with the object's own change made
(`hroot`: made new and marked explicitly if it was transient, nothing otherwise), the walk from
it makes new exactly the transient objects it reaches. -/
theorem persisted_of_root {s s₁ s' : EngineState} {x : ObjectId} {r : List ObjectId}
    (hroot : MadeNew true s (fun y => y = x ∧ Transient s x) s₁) (hx : Live s x)
    (hw : Cascaded s₁ [] [x] r s') :
    (∀ y, ReachesLive s x y → Transient s y →
      s'.ctx.objects.find? (·.id == y) =
        (s.ctx.objects.find? (·.id == y)).map (·.madeNew (y == x) s.ctx.txActive) ∧
      s'.runtime.ownerOf y = some s.ctx.id) ∧
    (∀ y, ¬ (ReachesLive s x y ∧ Transient s y) →
      s'.ctx.objects.find? (·.id == y) = s.ctx.objects.find? (·.id == y) ∧
      s'.runtime.ownerOf y = s.runtime.ownerOf y) := by
  obtain ⟨N, -, hv, hm⟩ := hw
  -- the walk visits what the object reaches in the graph of `s`, which its own change keeps
  have hv' := hv.congr (fun z _ => (hroot.cascadeOf_eq z).symm) fun y => (hroot.live_iff y).symm
  have hreach : ∀ y, y ∈ N ↔ ReachesLive s x y := fun y => by simpa using hv'.mem_iff y
  have hT₁ : ∀ y, Transient s₁ y ↔ Transient s y ∧ ¬ (y = x ∧ Transient s x) :=
    hroot.transient_iff
  refine ⟨fun y hy hT => ?_, fun y hy => ?_⟩
  · by_cases hyx : y = x
    · subst hyx
      have hnot : ¬ (y ∈ N ∧ Transient s₁ y) := fun h => ((hT₁ y).mp h.2).2 ⟨rfl, hT⟩
      rw [hm.kept y hnot, hroot.made y ⟨rfl, hT⟩, beq_self_eq_true, hm.owners y hnot,
        hroot.owned y ⟨rfl, hT⟩]
      exact ⟨rfl, rfl⟩
    · have hin : y ∈ N ∧ Transient s₁ y :=
        ⟨(hreach y).mpr hy, (hT₁ y).mpr ⟨hT, fun h => hyx h.1⟩⟩
      have hnot : ¬ (y = x ∧ Transient s x) := fun h => hyx h.1
      rw [hm.made y hin, hroot.kept y hnot, hroot.txActive, hm.owned y hin, hroot.ctxId,
        beq_false_of_ne hyx]
      exact ⟨rfl, rfl⟩
  · have hnot₀ : ¬ (y = x ∧ Transient s x) := by
      rintro ⟨rfl, hT⟩
      exact hy ⟨.refl hx List.not_mem_nil, hT⟩
    have hnot₁ : ¬ (y ∈ N ∧ Transient s₁ y) := fun ⟨hyN, hT⟩ =>
      hy ⟨(hreach y).mp hyN, ((hT₁ y).mp hT).1⟩
    rw [hm.kept y hnot₁, hroot.kept y hnot₀, hm.owners y hnot₁, hroot.owners y hnot₀]
    exact ⟨rfl, rfl⟩

end Engine

open Engine in
/-- Persisting cascades exactly. For a managed object `x` that is neither new nor deleted, a
persist that returns makes new and claims for the context exactly the transient objects that
`x` reaches through the references of loaded cascade-persist relation fields between managed
objects that are not deleted, `x` itself included if it was transient; of them only `x` is
marked as persisted explicitly, and every other object keeps its manager and its owner. The
walk's bound is never reached, on any graph, cycles included. -/
theorem persist_makes_reached_transients_new {s s' : EngineState} {x : ObjectId}
    {m : ManagedObject} (hfind : s.ctx.objects.find? (·.id == x) = some m)
    (hdel : m.lifecycle.isDeleted = false) (hnew : m.lifecycle ≠ .persistentNew)
    (hrun : (ExceptT.run (Engine.persist x)).run s = (.ok (), s')) :
    (∀ y, Engine.ReachesLive s x y → Engine.Transient s y →
      s'.ctx.objects.find? (·.id == y) =
        (s.ctx.objects.find? (·.id == y)).map (·.madeNew (y == x) s.ctx.txActive) ∧
      s'.runtime.ownerOf y = some s.ctx.id) ∧
    (∀ y, ¬ (Engine.ReachesLive s x y ∧ Engine.Transient s y) →
      s'.ctx.objects.find? (·.id == y) = s.ctx.objects.find? (·.id == y) ∧
      s'.runtime.ownerOf y = s.runtime.ownerOf y) := by
  have hx : Engine.Live s x := ⟨m, hfind, hdel⟩
  rw [Engine.persist, run_bind, run_manager, hfind] at hrun
  simp only [Option.elim] at hrun
  by_cases ht : m.lifecycle = .transient
  · -- a transient object is made new and claimed, explicitly, before the walk
    have hT : Engine.Transient s x := ⟨m, hfind, ht⟩
    rw [ht, run_bind] at hrun
    rcases h₁ : (ExceptT.run (Engine.makePersistent x true)).run s with ⟨_ | _, s₁⟩
    · simp only [h₁] at hrun
      cases hrun
    · simp only [h₁, run_bind, Engine.run_context, run_discard] at hrun
      rcases h₂ : (ExceptT.run (Engine.cascadePersist (s₁.ctx.objects.length + 1) x [])).run s₁
        with ⟨_ | r, s₂⟩
      · simp only [h₂] at hrun
        cases hrun
      · simp only [h₂] at hrun
        cases hrun
        have hroot := (Engine.MadeNew.single hT h₁).congr fun y =>
          show y = x ↔ y = x ∧ Engine.Transient s x from ⟨fun h => ⟨h, hT⟩, And.left⟩
        refine Engine.persisted_of_root hroot hx (Engine.cascade_walked _ x [] s₁ r s'
          (Engine.unvisited_card_lt_bound s₁ []) ((hroot.live_iff x).mpr hx) List.not_mem_nil ?_
          (fun _ h => absurd h List.not_mem_nil) h₂)
        rw [hroot.transient_iff]
        exact fun h => h.2 ⟨rfl, hT⟩
  · -- any other object that is neither new nor deleted is only walked from
    have hnT : ¬ Engine.Transient s x := by
      rintro ⟨m', hm', ht'⟩
      rw [hfind] at hm'
      cases hm'
      exact ht ht'
    split at hrun
    case h_1 heq => exact absurd heq hnew
    case h_2 heq => exact absurd heq ht
    case h_3 =>
      rw [hdel] at hrun
      simp only [Bool.false_eq_true, if_false, run_bind, Engine.run_context, run_discard] at hrun
      rcases h₂ : (ExceptT.run (Engine.cascadePersist (s.ctx.objects.length + 1) x [])).run s with
        ⟨_ | r, s₂⟩
      · simp only [h₂] at hrun
        cases hrun
      · simp only [h₂] at hrun
        cases hrun
        exact Engine.persisted_of_root (Engine.MadeNew.refl fun y h => hnT h.2) hx
          (Engine.cascade_walked _ x [] s r s' (Engine.unvisited_card_lt_bound s []) hx
            List.not_mem_nil hnT (fun _ h => absurd h List.not_mem_nil) h₂)

/-- A transient book and its transient chapter that reference each other through their
cascade-persist relation fields. -/
def bookChapterCycle : EngineState :=
  ((ExceptT.run (do
    let b ← Engine.newObject "Book"
    let c ← Engine.newObject "Chapter"
    Engine.setField b 2 (.collection [.ref c])
    Engine.setField c 2 (.scalar (.ref b)))).run idleSample).2

/-- Persisting the book walks the cycle once and makes the chapter new and claimed. -/
theorem persisting_book_news_chapter_on_cycle :
    ∃ s', (ExceptT.run (Engine.persist (ObjectId.fresh 0))).run bookChapterCycle = (.ok (), s') ∧
      (s'.ctx.objects.find? (·.id == ObjectId.fresh 1)).map (·.lifecycle) = some .persistentNew ∧
      s'.runtime.ownerOf (ObjectId.fresh 1) = some bookChapterCycle.ctx.id := by
  have hanswer : ((ExceptT.run (Engine.persist (ObjectId.fresh 0))).run bookChapterCycle).1 =
      .ok () := by
    decide +kernel
  have hrun : (ExceptT.run (Engine.persist (ObjectId.fresh 0))).run bookChapterCycle =
      (.ok (), ((ExceptT.run (Engine.persist (ObjectId.fresh 0))).run bookChapterCycle).2) := by
    rw [← hanswer]
    exact Prod.mk.eta.symm
  have hb : (bookChapterCycle.ctx.objects.find? (·.id == ObjectId.fresh 0)).map (·.lifecycle) =
      some .transient := by
    decide +kernel
  have hc : (bookChapterCycle.ctx.objects.find? (·.id == ObjectId.fresh 1)).map (·.lifecycle) =
      some .transient := by
    decide +kernel
  have hedge : ObjectId.fresh 1 ∈ Engine.cascadeOf bookChapterCycle (ObjectId.fresh 0) := by
    decide +kernel
  obtain ⟨mb, hmb, hbl⟩ := Option.map_eq_some_iff.mp hb
  obtain ⟨mc, hmc, hcl⟩ := Option.map_eq_some_iff.mp hc
  have hreach : Engine.ReachesLive bookChapterCycle (ObjectId.fresh 0) (ObjectId.fresh 1) :=
    .head ⟨mb, hmb, by rw [hbl]; rfl⟩ List.not_mem_nil hedge
      (.refl ⟨mc, hmc, by rw [hcl]; rfl⟩ List.not_mem_nil)
  obtain ⟨hmade, howner⟩ := (persist_makes_reached_transients_new hmb (by rw [hbl]; rfl)
    (by rw [hbl]; decide) hrun).1 _ hreach ⟨mc, hmc, hcl⟩
  exact ⟨_, hrun, by rw [hmade, hmc]; rfl, howner⟩

end ObjectPersistence
