import ObjectPersistence.Proofs.PersistCascade

/-! # Detached copies

A detached copy of an object holds the object and every managed object it reaches through
the references held in loaded relation fields, cascading or not, passing only through
managed objects that are not deleted; each is copied with its class, its version and its
loaded fields. The walk runs over the fixed graph `Engine.relationRefsOf` describes: copying
changes nothing, so `Copied` says what one walk adds to the copy in the terms of
`Graph.Visits`, and the context's bound on a walk is never reached (`detachCopy_exact`).

Detaching flushes first when some object waits for a flush, takes the copy in the state the
flush left, and then gives up each object of the copy that is not transient there: its
managers are dropped and its claim released. `DetachedUpTo` is the invariant of that loop,
and the registry's agreement with the managers turns a dropped manager into a released
claim (`detach_releases`). -/

namespace ObjectPersistence

def ManagedObject.detached (m : ManagedObject) : DetachedObject :=
  { id := m.id, cls := m.cls.name, version := m.version, fields := m.loadedData }

def DetachedGraph.ids (g : DetachedGraph) : List ObjectId := g.objects.map (·.id)

theorem Graph.Visits.admitted {E : ObjectId → List ObjectId} {P : ObjectId → Prop}
    {V ts N : List ObjectId} (h : Graph.Visits E P V ts N) : ∀ x ∈ N, P x := fun x hx => by
  obtain ⟨t, -, hr⟩ := h.reached x hx
  exact hr.target

theorem Runtime.ownerOf_release_ne {r : Runtime} {x y : ObjectId} {c : Nat} (h : y ≠ x) :
    (r.release x c).ownerOf y = r.ownerOf y := by
  simp only [Runtime.ownerOf, Runtime.release]
  induction r.owners with
  | nil => rfl
  | cons e es ih =>
    obtain ⟨i, o⟩ := e
    rw [List.filter_cons]
    split
    · rw [List.lookup_cons, List.lookup_cons, ih]
    · -- the entry dropped is a claim on x, not on y
      rename_i hdrop
      have hi : i = x := by
        simp only [Bool.not_eq_true, Bool.not_eq_false', Bool.and_eq_true, beq_iff_eq] at hdrop
        exact hdrop.1
      have hyi : (y == i) = false := by
        rw [hi]
        exact beq_false_of_ne h
      rw [List.lookup_cons, hyi, ih]

namespace Engine

/-! ### The graph a copy walks -/

/-- The references an object holds in its loaded relation fields; none for an object the
context does not manage. -/
def relationRefsOf (s : EngineState) (x : ObjectId) : List ObjectId :=
  ((s.ctx.objects.find? (·.id == x)).map ManagedObject.relationReferences).getD []

def copiesOf (s : EngineState) (N : List ObjectId) : List DetachedObject :=
  N.filterMap fun y => (s.ctx.objects.find? (·.id == y)).map ManagedObject.detached

/-- `b` is reached from `a` through the references of loaded relation fields, passing only
through managed objects that are not deleted. -/
abbrev ReachesByRelations (s : EngineState) (a b : ObjectId) : Prop :=
  Graph.ReachesAvoiding (relationRefsOf s) (Live s) [] a b

/-- What a walk from the starts `ts` adds to the copy `g`: the copies of what they reach
outside it, in the order of the visits. -/
def Copied (s : EngineState) (g : DetachedGraph) (ts : List ObjectId) (g' : DetachedGraph) : Prop :=
  ∃ N, g' = { g with objects := g.objects ++ copiesOf s N } ∧
    Graph.Visits (relationRefsOf s) (Live s) g.ids ts N

section Copied

variable {s : EngineState} {g g₁ g₂ g' : DetachedGraph} {t : ObjectId} {ts N : List ObjectId}

theorem copiesOf_ids (h : ∀ y ∈ N, Live s y) : (copiesOf s N).map (·.id) = N := by
  induction N with
  | nil => rfl
  | cons y N ih =>
    obtain ⟨m, hm, -⟩ := h y List.mem_cons_self
    simp only [copiesOf, List.filterMap_cons, hm, Option.map_some, List.map_cons] at ih ⊢
    rw [ih fun z hz => h z (List.mem_cons_of_mem y hz)]
    simp [ManagedObject.detached, id_of_find? hm]

theorem Copied.nil : Copied s g [] g :=
  ⟨[], by simp [copiesOf], .nil⟩

theorem Copied.skip (h : ¬ Live s t ∨ t ∈ g.ids) : Copied s g [t] g :=
  ⟨[], by simp [copiesOf], .skip h⟩

theorem Copied.cons (h₁ : Copied s g [t] g₁) (h₂ : Copied s g₁ ts g₂) : Copied s g (t :: ts) g₂ := by
  obtain ⟨N₁, rfl, hv₁⟩ := h₁
  obtain ⟨N₂, rfl, hv₂⟩ := h₂
  have hids : ({ g with objects := g.objects ++ copiesOf s N₁ } : DetachedGraph).ids = g.ids ++ N₁ := by
    simp [DetachedGraph.ids, copiesOf_ids hv₁.admitted]
  rw [hids] at hv₂
  exact ⟨N₁ ++ N₂, by simp [copiesOf, List.filterMap_append], hv₁.cons hv₂⟩

theorem Copied.visit {m : ManagedObject} (hfind : s.ctx.objects.find? (·.id == t) = some m)
    (hd : m.lifecycle.isDeleted = false) (htV : t ∉ g.ids)
    (h : Copied s { g with objects := g.objects ++ [m.detached] } (relationRefsOf s t) g') :
    Copied s g [t] g' := by
  obtain ⟨N, rfl, hv⟩ := h
  have hids : ({ g with objects := g.objects ++ [m.detached] } : DetachedGraph).ids = g.ids ++ [t] := by
    simp [DetachedGraph.ids, ManagedObject.detached, id_of_find? hfind]
  rw [hids] at hv
  refine ⟨t :: N, ?_, hv.visit ⟨m, hfind, hd⟩ htV⟩
  simp [copiesOf, hfind]

end Copied

/-! ### One walk -/

theorem run_detachInto_of_mem {f : Nat} {s : EngineState} {t : ObjectId} {g : DetachedGraph}
    (h : t ∈ g.ids) : (ExceptT.run (detachInto f t g)).run s = (.ok g, s) := by
  cases f with
  | zero => rfl
  | succ f =>
    have hc : (g.objects.any fun o => o.id == t) = true := by
      simpa [DetachedGraph.ids] using h
    rw [detachInto, if_pos hc]
    rfl

theorem Copied.card_le {s : EngineState} {g g' : DetachedGraph} {ts : List ObjectId}
    (h : Copied s g ts g') :
    (Graph.unvisited (managedIds s) g'.ids).card ≤ (Graph.unvisited (managedIds s) g.ids).card := by
  obtain ⟨N, rfl, hv⟩ := h
  have hids : ({ g with objects := g.objects ++ copiesOf s N } : DetachedGraph).ids = g.ids ++ N := by
    simp [DetachedGraph.ids, copiesOf_ids hv.admitted]
  rw [hids]
  exact Graph.unvisited_append_card_le _ _ N

/-- The walk over an object's references, given that each walk with fuel `f` copies what its
start reaches, copies what they reach in turn. -/
theorem forIn_copies {f : Nat} {s : EngineState}
    (ih : ∀ t g, (Graph.unvisited (managedIds s) g.ids).card < f →
      (s.ctx.objects.find? (·.id == t)).isSome →
      ∃ g', (ExceptT.run (detachInto f t g)).run s = (.ok g', s) ∧ Copied s g [t] g') :
    ∀ (ts : List ObjectId) (g : DetachedGraph), (Graph.unvisited (managedIds s) g.ids).card < f →
      ∃ g', (ExceptT.run (forIn ts g fun t r => do
          let x ← managed? t
          if x.isSome = true then do
            let g ← detachInto f t r
            pure (ForInStep.yield g)
          else pure (ForInStep.yield r))).run s = (.ok g', s) ∧ Copied s g ts g'
  | [], g, _ => ⟨g, rfl, .nil⟩
  | t :: ts, g, hk => by
    simp only [List.forIn_cons, run_bind, run_managed?]
    cases hfind : s.ctx.objects.find? (·.id == t) with
    | none =>
      obtain ⟨g', h', hc'⟩ := forIn_copies ih ts g hk
      simp only [Option.isSome_none, Bool.false_eq_true, if_false, run_pure]
      refine ⟨g', h', (Copied.skip (.inl ?_)).cons hc'⟩
      rintro ⟨m, hm, -⟩
      simp [hfind] at hm
    | some m =>
      obtain ⟨g₁, h₁, hc₁⟩ := ih t g hk (by simp [hfind])
      obtain ⟨g', h', hc'⟩ := forIn_copies ih ts g₁ (hc₁.card_le.trans_lt hk)
      simp only [Option.isSome_some, if_true, run_bind, h₁, run_pure]
      exact ⟨g', h', hc₁.cons hc'⟩

/-- A walk with more fuel than there are managed objects outside the copy returns, changes
nothing, and adds to the copy what its start reaches; a start it enters comes first. -/
theorem detachInto_copies {s : EngineState} : ∀ (f : Nat) (t : ObjectId) (g : DetachedGraph),
    (Graph.unvisited (managedIds s) g.ids).card < f → (s.ctx.objects.find? (·.id == t)).isSome →
    ∃ g', (ExceptT.run (detachInto f t g)).run s = (.ok g', s) ∧ Copied s g [t] g' ∧
      ∀ m, s.ctx.objects.find? (·.id == t) = some m → m.lifecycle.isDeleted = false → t ∉ g.ids →
        ∃ rest, g'.objects = g.objects ++ m.detached :: rest
  | 0, _, _, hf, _ => absurd hf (Nat.not_lt_zero _)
  | f + 1, t, g, hf, hm => by
    by_cases htV : t ∈ g.ids
    · exact ⟨g, run_detachInto_of_mem htV, .skip (.inr htV), fun _ _ _ h => absurd htV h⟩
    obtain ⟨m, hfind⟩ := Option.isSome_iff_exists.mp hm
    have hc : (g.objects.any fun o => o.id == t) = false := by
      simpa [DetachedGraph.ids] using htV
    rw [detachInto, hc]
    simp only [Bool.false_eq_true, if_false, run_bind, run_manager, hfind, Option.elim]
    by_cases hd : m.lifecycle.isDeleted = true
    · -- a deleted object is left out
      simp only [hd, if_true, run_pure]
      refine ⟨g, rfl, .skip (.inl ?_), fun m' hm' hd' _ => ?_⟩
      · rintro ⟨m', hm', hd'⟩
        rw [hfind] at hm'
        cases hm'
        simp [hd] at hd'
      · obtain rfl := Option.some_injective _ hm'
        simp [hd] at hd'
    · -- a visit copies the object and walks from what its relation fields reference
      have hd' : m.lifecycle.isDeleted = false := by simpa using hd
      have hdet : m.detached = ⟨t, m.cls.name, m.version, m.loadedData⟩ := by
        simp [ManagedObject.detached, id_of_find? hfind]
      have hids : ({ g with objects := g.objects ++ [m.detached] } : DetachedGraph).ids =
          g.ids ++ [t] := by
        simp [DetachedGraph.ids, hdet]
      have hf' : (Graph.unvisited (managedIds s) (g.ids ++ [t])).card < f :=
        unvisited_managed_visit_lt hfind htV hf
      obtain ⟨g', h', hc'⟩ := forIn_copies
        (fun t g hk hm => (detachInto_copies f t g hk hm).imp fun _ h => ⟨h.1, h.2.1⟩)
        m.relationReferences { g with objects := g.objects ++ [m.detached] } (by rw [hids]; exact hf')
      have hrefs : relationRefsOf s t = m.relationReferences := by simp [relationRefsOf, hfind]
      rw [hdet] at h'
      simp only [hd', Bool.false_eq_true, if_false, bind_pure]
      refine ⟨g', h', .visit hfind hd' htV (by rw [hrefs]; exact hc'), fun m' hm' _ _ => ?_⟩
      cases hm'
      obtain ⟨N, rfl, -⟩ := hc'
      exact ⟨copiesOf s N, by simp⟩


/-- The copy of a managed object holds, once each, exactly the objects it reaches through the
references of loaded relation fields, passing only through managed objects that are not
deleted; each as its manager has it, the object itself first. -/
theorem detachCopy_exact {s : EngineState} {root : ObjectId}
    (hroot : (s.ctx.objects.find? (·.id == root)).isSome) :
    ∃ g, (ExceptT.run (detachCopy root)).run s = (.ok g, s) ∧ g.root = root ∧ g.ids.Nodup ∧
      (∀ y, y ∈ g.ids ↔ ReachesByRelations s root y) ∧
      (∀ o ∈ g.objects, ∃ m, s.ctx.objects.find? (·.id == o.id) = some m ∧ o = m.detached) ∧
      ∀ m, s.ctx.objects.find? (·.id == root) = some m → m.lifecycle.isDeleted = false →
        g.objects.head? = some m.detached := by
  obtain ⟨g, hrun, ⟨N, hg, hv⟩, hfirst⟩ := detachInto_copies (s.ctx.objects.length + 1) root
    { root } (unvisited_card_lt_bound s _) hroot
  have hids : ({ root } : DetachedGraph).ids = [] := rfl
  rw [hids] at hv
  have hobjs : g.objects = copiesOf s N := by simp [hg]
  have hN : g.ids = N := by
    simpa [DetachedGraph.ids, hobjs] using copiesOf_ids hv.admitted
  refine ⟨g, hrun, by simp [hg], hN ▸ hv.nodup, fun y => ?_, fun o ho => ?_, fun m hm hd => ?_⟩
  · rw [hN, hv.mem_iff y]
    simp
  · rw [hobjs, copiesOf, List.mem_filterMap] at ho
    obtain ⟨y, -, hy⟩ := ho
    obtain ⟨m, hm, rfl⟩ := Option.map_eq_some_iff.mp hy
    exact ⟨m, by simpa [ManagedObject.detached, id_of_find? hm] using hm, rfl⟩
  · obtain ⟨rest, hrest⟩ := hfirst m hm hd (by simp [hids])
    simp [hrest]

theorem run_detachCopy_unmanaged {s : EngineState} {root : ObjectId}
    (h : s.ctx.objects.find? (·.id == root) = none) :
    (ExceptT.run (detachCopy root)).run s = (.error (.notManaged root), s) := by
  rw [detachCopy, run_bind, run_context]
  simp only [detachInto, List.any_nil, Bool.false_eq_true, if_false, run_bind, run_manager, h,
    Option.elim]

/-! ### Giving up the copied objects -/

theorem run_disconnect {s : EngineState} {x : ObjectId}
    (h : (s.ctx.objects.find? (·.id == x)).isSome) :
    ∃ s', (ExceptT.run (disconnect x)).run s = (.ok (), s') ∧
      s'.ctx.objects = s.ctx.objects.filter (·.id != x) ∧
      s'.runtime = s.runtime.release x s.ctx.id := by
  simp only [disconnect, run_bind, run_managed?, h, if_true, run_get, run_set]
  exact ⟨_, rfl, rfl, rfl⟩

theorem run_bind_ok {α β : Type} {x : Engine α} {f : α → Engine β} {s s' : EngineState} {b : β}
    (h : (ExceptT.run (x >>= f)).run s = (.ok b, s')) :
    ∃ a s₁, (ExceptT.run x).run s = (.ok a, s₁) ∧ (ExceptT.run (f a)).run s₁ = (.ok b, s') := by
  rw [run_bind] at h
  rcases hx : (ExceptT.run x).run s with ⟨_ | a, s₁⟩
  · rw [hx] at h
    cases h
  · rw [hx] at h
    exact ⟨a, s₁, rfl, h⟩

/-- Detaching a managed object drops every manager of it and its claim, and leaves the other
objects' managers and owners as they were. -/
theorem run_detachOne {β : Type} {s s' : EngineState} {x : ObjectId} {m : ManagedObject} {r r' : β}
    (hfind : s.ctx.objects.find? (·.id == x) = some m)
    (hrun : (ExceptT.run (do discard (transition x .detach); disconnect x; pure r)).run s =
      (.ok r', s')) :
    r' = r ∧ s'.ctx.objects.find? (·.id == x) = none ∧
      ∀ y, y ≠ x → s'.ctx.objects.find? (·.id == y) = s.ctx.objects.find? (·.id == y) ∧
        s'.runtime.ownerOf y = s.runtime.ownerOf y := by
  obtain ⟨_, s₁, htr, hrun⟩ := run_bind_ok hrun
  obtain ⟨_, s₂, hdis, hrun⟩ := run_bind_ok hrun
  cases hrun
  simp only [transition, run_discard, run_bind, run_manager, hfind, Option.elim, run_core] at htr
  cases ht : m.transition .detach with
  | error e =>
    rw [ht] at htr
    cases htr
  | ok m' =>
    have hid : ∀ n : ManagedObject, n.id = x → ((fun _ => m') n).id = x := fun _ _ => by
      rw [← id_of_find? hfind]
      unfold ManagedObject.transition at ht
      split at ht <;> cases ht
      rfl
    rw [ht] at htr
    simp only [Except.mapError, run_updateManager, run_pure] at htr
    cases htr
    obtain ⟨s₃, h₃, hobjs, hrt⟩ := @run_disconnect { s with ctx := { s.ctx with
      objects := s.ctx.objects.map (updateAt x fun _ => m') } } x
      (by rw [find?_updateAt_self hid hfind]; rfl)
    rw [h₃] at hdis
    cases hdis
    rw [hobjs]
    refine ⟨rfl, FirstManagers.find?_filter_self, fun y hy => ⟨?_, ?_⟩⟩
    · rw [FirstManagers.find?_filter_ne hy, find?_updateAt hid, if_neg hy]
    · rw [hrt]
      exact Runtime.ownerOf_release_ne hy

/-- A loop whose body always goes on keeps an invariant of the elements done so far when each
run of the body keeps it. -/
theorem forIn_unit_inv {α : Type} {I : List α → EngineState → Prop}
    {b : α → PUnit → Engine (ForInStep PUnit)}
    (hstep : ∀ a D s st s', I D s → (ExceptT.run (b a ⟨⟩)).run s = (.ok st, s') →
      st = .yield ⟨⟩ ∧ I (D ++ [a]) s') :
    ∀ (L D : List α) (s s' : EngineState), I D s →
      (ExceptT.run (forIn L ⟨⟩ b)).run s = (.ok ⟨⟩, s') → I (D ++ L) s'
  | [], D, s, s', h, hrun => by
    cases hrun
    simpa using h
  | a :: L, D, s, s', h, hrun => by
    rw [List.forIn_cons, run_bind] at hrun
    rcases h₁ : (ExceptT.run (b a ⟨⟩)).run s with ⟨_ | st, s₂⟩
    · rw [h₁] at hrun
      cases hrun
    · rw [h₁] at hrun
      obtain ⟨rfl, h₂⟩ := hstep a D s st s₂ h h₁
      simpa using forIn_unit_inv hstep L (D ++ [a]) s₂ s' h₂ hrun

/-- From the state `s₁`, the objects of `D` that were neither transient nor unmanaged have been
given up, and every other object keeps its first manager and its owner. -/
def DetachedUpTo (D : List ObjectId) (s₁ s : EngineState) : Prop :=
  ∀ y, (y ∈ D → ¬ Transient s₁ y → s.ctx.objects.find? (·.id == y) = none) ∧
    (y ∉ D ∨ Transient s₁ y → s.ctx.objects.find? (·.id == y) = s₁.ctx.objects.find? (·.id == y) ∧
      s.runtime.ownerOf y = s₁.runtime.ownerOf y)

section DetachedUpTo

variable {D : List ObjectId} {s₁ s s' : EngineState} {x : ObjectId}

theorem DetachedUpTo.refl (s : EngineState) : DetachedUpTo [] s s :=
  fun _ => ⟨by simp, fun _ => ⟨rfl, rfl⟩⟩

theorem DetachedUpTo.keep (h : DetachedUpTo D s₁ s)
    (hx : s.ctx.objects.find? (·.id == x) = none ∨ Transient s x) : DetachedUpTo (D ++ [x]) s₁ s := by
  -- such an object is unmanaged or transient in `s₁` as well
  have hx₁ : ¬ Transient s₁ x → s.ctx.objects.find? (·.id == x) = none := by
    intro hnt
    rcases hx with hx | ⟨m, hm, ht⟩
    · exact hx
    · by_cases hD : x ∈ D
      · exact (h x).1 hD hnt
      · exact absurd ⟨m, ((h x).2 (.inl hD)).1 ▸ hm, ht⟩ hnt
  intro y
  by_cases hy : y = x
  · subst hy
    refine ⟨fun _ hnt => hx₁ hnt, fun hy => ?_⟩
    rcases hy with hy | hy
    · exact absurd (List.mem_append_right D (List.mem_singleton_self y)) hy
    · exact (h y).2 (.inr hy)
  · have hmem : y ∈ D ++ [x] ↔ y ∈ D := by simp [hy]
    rw [hmem]
    exact h y

theorem DetachedUpTo.drop {m : ManagedObject} (h : DetachedUpTo D s₁ s)
    (hx : s.ctx.objects.find? (·.id == x) = some m) (hnt : m.lifecycle ≠ .transient)
    (hgone : s'.ctx.objects.find? (·.id == x) = none)
    (hrest : ∀ y, y ≠ x → s'.ctx.objects.find? (·.id == y) = s.ctx.objects.find? (·.id == y) ∧
      s'.runtime.ownerOf y = s.runtime.ownerOf y) :
    DetachedUpTo (D ++ [x]) s₁ s' := by
  -- the object was already managed by `s₁`, and not transient there
  have hnt₁ : ¬ Transient s₁ x := by
    rintro ⟨m₁, hm₁, ht₁⟩
    have := ((h x).2 (.inr ⟨m₁, hm₁, ht₁⟩)).1
    rw [hx, hm₁] at this
    cases this
    exact hnt ht₁
  intro y
  by_cases hy : y = x
  · subst hy
    refine ⟨fun _ _ => hgone, fun hy => ?_⟩
    rcases hy with hy | hy
    · exact absurd (List.mem_append_right D (List.mem_singleton_self y)) hy
    · exact absurd hy hnt₁
  · have hmem : y ∈ D ++ [x] ↔ y ∈ D := by simp [hy]
    rw [hmem, (hrest y hy).1, (hrest y hy).2]
    exact h y

end DetachedUpTo

theorem ite_bind_unit {α : Type} {c : Prop} [Decidable c] (x : Engine Unit) (k : Unit → Engine α) :
    (if c then x >>= k else k ()) = (if c then x else pure ()) >>= k := by
  split <;> simp

/-! ### Detaching -/

/-- A detach that returns flushed first if some object waited for a flush, copied the object
in the state the flush left, and gave up every object of the copy that was not transient
there, dropping its managers and its claim; every other object kept its first manager and
its owner. -/
theorem detach_releases {v : RegistryView} {s s' : EngineState} {root : ObjectId}
    {g : DetachedGraph} (hagree : OwnersAgree v s)
    (hrun : (ExceptT.run (detach root)).run s = (.ok g, s')) :
    ∃ s₁, (ExceptT.run (if s.ctx.objects.any (·.lifecycle.isWaitingForFlush) then flush
        else pure ())).run s = (.ok (), s₁) ∧
      (ExceptT.run (detachCopy root)).run s₁ = (.ok g, s₁) ∧
      (∀ o ∈ g.objects, ¬ Transient s₁ o.id →
        s'.ctx.objects.find? (·.id == o.id) = none ∧ s'.runtime.ownerOf o.id = none) ∧
      ∀ y, y ∉ g.ids ∨ Transient s₁ y →
        s'.ctx.objects.find? (·.id == y) = s₁.ctx.objects.find? (·.id == y) ∧
          s'.runtime.ownerOf y = s₁.runtime.ownerOf y := by
  have hagree' : OwnersAgree v s' := by
    have h : OwnersAgree v ((ExceptT.run (detach root)).run s).2 :=
      keeps_run_of detach_agree s hagree
    rwa [hrun] at h
  rw [detach, run_bind, run_context] at hrun
  simp only at hrun
  rw [ite_bind_unit] at hrun
  obtain ⟨⟨⟩, s₁, hflush, hrun⟩ := run_bind_ok hrun
  have hagree₁ : OwnersAgree v s₁ := by
    split at hflush
    · exact (returns_run flush_agree hagree hflush).1
    · cases hflush
      exact hagree
  obtain ⟨g₀, s₂, hcopy, hrun⟩ := run_bind_ok hrun
  cases hfind : s₁.ctx.objects.find? (·.id == root) with
  | none =>
    rw [run_detachCopy_unmanaged hfind] at hcopy
    cases hcopy
  | some m =>
    have hroot : (s₁.ctx.objects.find? (·.id == root)).isSome := by
      rw [hfind]
      rfl
    obtain ⟨g₁, hcopy₁, -, -, -, hobj, -⟩ := detachCopy_exact hroot
    rw [hcopy₁] at hcopy
    cases hcopy
    obtain ⟨⟨⟩, s₃, hloop, hpure⟩ := run_bind_ok hrun
    cases hpure
    have hdet := @forIn_unit_inv DetachedObject (fun D s => DetachedUpTo (D.map (·.id)) s₁ s) _ ?_
      g.objects [] s₁ s' (DetachedUpTo.refl s₁) hloop
    · simp only [List.nil_append] at hdet
      refine ⟨s₁, hflush, hcopy₁, fun o ho hnt => ?_, fun y hy => (hdet y).2 hy⟩
      have hgone := (hdet o.id).1 (List.mem_map_of_mem ho) hnt
      refine ⟨hgone, hagree₁.ownerOf_eq_none hagree' ?_ hgone⟩
      obtain ⟨m, hm, rfl⟩ := hobj o ho
      exact ⟨m, List.mem_of_find?_eq_some hm, id_of_find? hm, fun ht => hnt ⟨m, hm, ht⟩⟩
    · intro o D s st s'' h hb
      rw [run_bind, run_managed?] at hb
      cases hm : s.ctx.objects.find? (·.id == o.id) with
      | none =>
        rw [hm] at hb
        cases hb
        simpa using h.keep (.inl hm)
      | some m =>
        rw [hm] at hb
        simp only at hb
        by_cases ht : m.lifecycle = .transient
        · rw [if_pos (by simp [ht])] at hb
          cases hb
          simpa using h.keep (.inr ⟨m, hm, ht⟩)
        · rw [if_neg (by simpa using ht)] at hb
          obtain ⟨rfl, hgone, hrest⟩ := run_detachOne hm hb
          simpa using h.drop hm ht hgone hrest

end Engine

open Engine in
/-- A copy of a managed object holds, once each and the object first, exactly the managed
objects that are not deleted and that it reaches through the references of loaded relation
fields, each with its class, its version and its loaded fields, and copying changes nothing;
a detach that returns has flushed first when some object waited for a flush, hands out the
copy taken after that flush, and leaves each object of it that was not transient unmanaged
and unclaimed, and every other object as the flush left it. -/
theorem detachCopy_exact_and_detach_releases :
    (∀ (s : EngineState) (root : ObjectId), (s.ctx.objects.find? (·.id == root)).isSome →
      ∃ g, (ExceptT.run (detachCopy root)).run s = (.ok g, s) ∧ g.root = root ∧ g.ids.Nodup ∧
        (∀ y, y ∈ g.ids ↔ ReachesByRelations s root y) ∧
        (∀ o ∈ g.objects, ∃ m, s.ctx.objects.find? (·.id == o.id) = some m ∧ o = m.detached) ∧
        ∀ m, s.ctx.objects.find? (·.id == root) = some m → m.lifecycle.isDeleted = false →
          g.objects.head? = some m.detached) ∧
    ∀ (v : RegistryView) (s s' : EngineState) (root : ObjectId) (g : DetachedGraph),
      OwnersAgree v s → (ExceptT.run (detach root)).run s = (.ok g, s') →
      ∃ s₁, (ExceptT.run (if s.ctx.objects.any (·.lifecycle.isWaitingForFlush) then flush
          else pure ())).run s = (.ok (), s₁) ∧
        (ExceptT.run (detachCopy root)).run s₁ = (.ok g, s₁) ∧
        (∀ o ∈ g.objects, ¬ Transient s₁ o.id →
          s'.ctx.objects.find? (·.id == o.id) = none ∧ s'.runtime.ownerOf o.id = none) ∧
        ∀ y, y ∉ g.ids ∨ Transient s₁ y →
          s'.ctx.objects.find? (·.id == y) = s₁.ctx.objects.find? (·.id == y) ∧
            s'.runtime.ownerOf y = s₁.runtime.ownerOf y :=
  ⟨fun _ _ hroot => detachCopy_exact hroot, fun _ _ _ _ _ hagree hrun => detach_releases hagree hrun⟩

/-- A context that holds nothing, all its managers transient and no claim registered, agrees
with the registry view that gives every claim to no context. -/
theorem OwnersAgree.of_nothing_held {s : EngineState} (howners : s.runtime.owners = [])
    (ht : ∀ m ∈ s.ctx.objects, m.lifecycle = .transient) :
    OwnersAgree ⟨s.ctx.id, fun _ _ => False⟩ s where
  ctx_id := rfl
  keys := by simp [howners]
  first m hm hnt := absurd (ht m hm) hnt
  own id := by
    simp only [howners, List.not_mem_nil, false_iff]
    rintro ⟨m, hm, -, hnt⟩
    exact hnt (ht m hm)
  others id c _ := by simp [howners]

/-- The book and chapter of `bookChapterCycle` after persisting the book: both new, claimed,
and waiting for a flush. -/
def bookChapterPersisted : EngineState :=
  ((ExceptT.run (Engine.persist (ObjectId.fresh 0))).run bookChapterCycle).2

/-- The copy of the book holds its chapter; detaching the persisted book flushes, then gives
up the chapter and its claim. -/
theorem detaching_persisted_book_releases_chapter :
    (∃ g, (ExceptT.run (Engine.detachCopy (ObjectId.fresh 0))).run bookChapterCycle =
        (.ok g, bookChapterCycle) ∧ ObjectId.fresh 1 ∈ g.ids) ∧
      ∃ g s', (ExceptT.run (Engine.detach (ObjectId.fresh 0))).run bookChapterPersisted =
        (.ok g, s') ∧ s'.ctx.objects.find? (·.id == ObjectId.fresh 1) = none ∧
        s'.runtime.ownerOf (ObjectId.fresh 1) = none := by
  constructor
  · -- the chapter is reached through the book's relation field
    have hb : (bookChapterCycle.ctx.objects.find? (·.id == ObjectId.fresh 0)).map
        (·.lifecycle.isDeleted) = some false := by
      decide +kernel
    have hc : (bookChapterCycle.ctx.objects.find? (·.id == ObjectId.fresh 1)).map
        (·.lifecycle.isDeleted) = some false := by
      decide +kernel
    have hedge : ObjectId.fresh 1 ∈ Engine.relationRefsOf bookChapterCycle (ObjectId.fresh 0) := by
      decide +kernel
    obtain ⟨mb, hmb, hbl⟩ := Option.map_eq_some_iff.mp hb
    obtain ⟨mc, hmc, hcl⟩ := Option.map_eq_some_iff.mp hc
    obtain ⟨g, hrun, -, -, hmem, -⟩ :=
      detachCopy_exact_and_detach_releases.1 bookChapterCycle (ObjectId.fresh 0) (by rw [hmb]; rfl)
    exact ⟨g, hrun, (hmem _).mpr (.head ⟨mb, hmb, hbl⟩ List.not_mem_nil hedge
      (.refl ⟨mc, hmc, hcl⟩ List.not_mem_nil))⟩
  · -- the registry agrees before the persist, so after it
    have hheld : bookChapterCycle.runtime.owners = [] ∧
        ∀ m ∈ bookChapterCycle.ctx.objects, m.lifecycle = .transient := by
      decide +kernel
    have hagree : OwnersAgree ⟨bookChapterCycle.ctx.id, fun _ _ => False⟩ bookChapterPersisted :=
      Engine.keeps_run_of Engine.persist_agree _ (OwnersAgree.of_nothing_held hheld.1 hheld.2)
    have hok : (((ExceptT.run (Engine.detach (ObjectId.fresh 0))).run bookChapterPersisted).1.toOption.map
        fun g => g.objects.any (·.id == ObjectId.fresh 1)) = some true := by
      decide +kernel
    obtain ⟨g, hg⟩ : ∃ g, ((ExceptT.run (Engine.detach (ObjectId.fresh 0))).run bookChapterPersisted).1 =
        .ok g := by
      revert hok
      cases ((ExceptT.run (Engine.detach (ObjectId.fresh 0))).run bookChapterPersisted).1 with
      | ok g => exact fun _ => ⟨g, rfl⟩
      | error e => exact fun h => by cases h
    have hrun : (ExceptT.run (Engine.detach (ObjectId.fresh 0))).run bookChapterPersisted =
        (.ok g, ((ExceptT.run (Engine.detach (ObjectId.fresh 0))).run bookChapterPersisted).2) := by
      rw [← hg]
      exact Prod.mk.eta.symm
    obtain ⟨s₁, hflush, -, hgone, -⟩ :=
      detachCopy_exact_and_detach_releases.2 _ _ _ _ _ hagree hrun
    -- the flush, outside a transaction, leaves the chapter stored and clean, not transient
    have hs₁ : (s₁.ctx.objects.find? (·.id == ObjectId.fresh 1)).map (·.lifecycle) =
        some .persistentClean := by
      have hnew : (((ExceptT.run (if bookChapterPersisted.ctx.objects.any
          (·.lifecycle.isWaitingForFlush) then Engine.flush else pure ())).run
          bookChapterPersisted).2.ctx.objects.find? (·.id == ObjectId.fresh 1)).map (·.lifecycle) =
          some .persistentClean := by
        decide +kernel
      rwa [hflush] at hnew
    have hmem : ∃ o ∈ g.objects, o.id = ObjectId.fresh 1 := by
      rw [hg] at hok
      simpa [Except.toOption] using hok
    obtain ⟨o, ho, hoid⟩ := hmem
    have hnt : ¬ Engine.Transient s₁ o.id := by
      rintro ⟨m, hm, ht⟩
      rw [hoid] at hm
      rw [hm] at hs₁
      simp [ht] at hs₁
    exact ⟨g, _, hrun, hoid ▸ hgone o ho hnt⟩

end ObjectPersistence
