import Mathlib
import ObjectPersistence.Proofs.Rollback
import ObjectPersistence.Proofs.GraphWalk

/-! # The order new objects are inserted in

A flush inserts the new objects after a depth-first walk over the references their loaded
relation fields hold, restricted to new objects and cut by one visited list shared by all
starting points: an object is put in the order once the walk has finished with everything it
references, so a referenced new object comes first unless it reaches back to the referencing
one through new objects.

The walk is bounded by the number of new objects plus one, and each visit takes one new
object out of those not visited yet, so the bound is never reached: `insertOrder_walked`
describes a whole walk exactly. What a walk adds to the visited list is `Graph.Visits` over
the references of relation fields, admitting new objects: each new object once, each reached
from a start through new objects outside what was visited before, and together closed under
references to new objects. The order it adds is the same objects, post-ordered:
`PostOrdered` holds as long as every object visited but not yet finished reaches the object
being visited, which is what `Stacked` keeps. -/

set_option mvcgen.warning false

namespace ObjectPersistence

namespace Engine

section Walk

variable (objects : List ManagedObject) (pending : List ObjectId)

abbrev Reaches (a b : ObjectId) : Prop :=
  Graph.ReachesAvoiding (relationTargets objects) (· ∈ pending) [] a b

def Precedes (l : List ObjectId) (b a : ObjectId) : Prop :=
  ∃ l₁ l₂, l = l₁ ++ a :: l₂ ∧ b ∈ l₁

/-- Every new object an object of `order` references comes before it, unless it reaches that
object back. -/
def PostOrdered (order : List ObjectId) : Prop :=
  ∀ a ∈ order, ∀ b ∈ relationTargets objects a, b ∈ pending →
    Precedes order b a ∨ Reaches objects pending b a

/-- Every object visited but not finished reaches each new start: it is on the path the walk
took to get there. -/
def Stacked (V O ts : List ObjectId) : Prop :=
  ∀ t ∈ ts, t ∈ pending → ∀ s ∈ V, s ∉ O → Reaches objects pending s t

/-- A walk from the starts `ts` that found the visited list `V` and the order `O` appends the
new objects `N` it visits, through references of relation fields, to the one and a
rearrangement of them to the other, finishing each after what it references. -/
def Walked (V O ts : List ObjectId) (r : List ObjectId × List ObjectId) : Prop :=
  ∃ N M, r = (V ++ N, O ++ M) ∧ Graph.Visits (relationTargets objects) (· ∈ pending) V ts N ∧
    M.Perm N ∧
    (Stacked objects pending V O ts → PostOrdered objects pending O →
      PostOrdered objects pending (O ++ M))

variable {objects pending}

/-! ### Positions in the order -/

theorem Precedes.append {l : List ObjectId} {b a : ObjectId} (h : Precedes l b a)
    (m : List ObjectId) : Precedes (l ++ m) b a := by
  obtain ⟨l₁, l₂, rfl, hb⟩ := h
  exact ⟨l₁, l₂ ++ m, by simp, hb⟩

theorem PostOrdered.append {O M : List ObjectId} (h : PostOrdered objects pending O)
    (hM : ∀ a ∈ M, ∀ b ∈ relationTargets objects a, b ∈ pending →
      Precedes (O ++ M) b a ∨ Reaches objects pending b a) :
    PostOrdered objects pending (O ++ M) := by
  intro a ha b hb hbp
  rcases List.mem_append.mp ha with ha | ha
  · exact (h a ha b hb hbp).imp_left (·.append M)
  · exact hM a ha b hb hbp

/-! ### One walk at a time -/

variable {V O : List ObjectId}

theorem Walked.nil : Walked objects pending V O [] (V, O) :=
  ⟨[], [], by simp, .nil, .nil, fun _ h => by simpa using h⟩

theorem Walked.skip {t : ObjectId} (ht : t ∉ pending ∨ t ∈ V) :
    Walked objects pending V O [t] (V, O) :=
  ⟨[], [], by simp, .skip ht, .nil, fun _ h => by simpa using h⟩

theorem Walked.cons {t : ObjectId} {ts : List ObjectId} {r₁ r₂ : List ObjectId × List ObjectId}
    (h₁ : Walked objects pending V O [t] r₁) (h₂ : Walked objects pending r₁.1 r₁.2 ts r₂) :
    Walked objects pending V O (t :: ts) r₂ := by
  obtain ⟨N₁, M₁, rfl, hv₁, hp₁, ho₁⟩ := h₁
  obtain ⟨N₂, M₂, rfl, hv₂, hp₂, ho₂⟩ := h₂
  refine ⟨N₁ ++ N₂, M₁ ++ M₂, by simp, hv₁.cons hv₂, hp₁.append hp₂, ?_⟩
  intro hst hpo
  -- the first walk finishes all it visits, so the same objects stay unfinished
  have hst₂ : Stacked objects pending (V ++ N₁) (O ++ M₁) ts := by
    intro t' ht' htp s hs hsO
    have hsN : s ∉ N₁ := fun h => hsO (List.mem_append_right O (hp₁.mem_iff.mpr h))
    have hsV : s ∈ V := (List.mem_append.mp hs).resolve_right hsN
    exact hst t' (List.mem_cons_of_mem t ht') htp s hsV fun h => hsO (List.mem_append_left M₁ h)
  have hst₁ : Stacked objects pending V O [t] := fun t' ht' =>
    hst t' (List.mem_cons.mpr (.inl (List.mem_singleton.mp ht')))
  simpa using ho₂ hst₂ (ho₁ hst₁ hpo)

theorem Walked.visit {t : ObjectId} {r : List ObjectId × List ObjectId} (ht : t ∈ pending)
    (htV : t ∉ V) (h : Walked objects pending (V ++ [t]) O (relationTargets objects t) r) :
    Walked objects pending V O [t] (r.1, r.2 ++ [t]) := by
  obtain ⟨N, M, rfl, hv, hp, ho⟩ := h
  refine ⟨t :: N, M ++ [t], by simp, hv.visit ht htV,
    List.perm_append_singleton t M |>.trans (hp.cons t), ?_⟩
  intro hst hpo
  -- inside the visit, `t` and everything unfinished before it reach each referenced object
  have hst' : Stacked objects pending (V ++ [t]) O (relationTargets objects t) := by
    intro t' ht' htp s hs hsO
    rcases List.mem_append.mp hs with hs | hs
    · exact (hst t List.mem_cons_self ht s hs hsO).tail ht' htp List.not_mem_nil
    · obtain rfl := List.mem_singleton.mp hs
      exact (Graph.ReachesAvoiding.refl ht List.not_mem_nil).tail ht' htp List.not_mem_nil
  rw [← List.append_assoc]
  refine (ho hst' hpo).append fun a ha b hb hbp => ?_
  obtain rfl := List.mem_singleton.mp ha
  -- what `t` references is finished by now, or unfinished and so on the path to `t`
  by_cases hfin : b ∈ O ++ M
  · exact .inl ⟨O ++ M, [], by simp, hfin⟩
  · right
    rcases List.mem_append.mp (hv.starts b hb hbp) with hb' | hb'
    · rcases List.mem_append.mp hb' with hbV | hbt
      · exact hst a List.mem_cons_self ht b hbV fun h => hfin (List.mem_append_left M h)
      · obtain rfl := List.mem_singleton.mp hbt
        exact .refl ht List.not_mem_nil
    · exact absurd (List.mem_append_right O (hp.mem_iff.mpr hb')) hfin

/-! ### Whole walks -/

theorem insertOrder_skip {f : Nat} {t : ObjectId} (ht : t ∉ pending ∨ t ∈ V) :
    insertOrder objects pending (f + 1) t (V, O) = (V, O) := by
  have hc : (!pending.contains t || V.contains t) = true := by
    rcases ht with ht | ht <;> simp [ht]
  simp only [insertOrder, hc, if_true]

theorem insertOrder_visit {f : Nat} {t : ObjectId} (ht : t ∈ pending) (htV : t ∉ V) :
    insertOrder objects pending (f + 1) t (V, O) =
      (((relationTargets objects t).foldl (fun acc t' => insertOrder objects pending f t' acc)
          (V ++ [t], O)).1,
        ((relationTargets objects t).foldl (fun acc t' => insertOrder objects pending f t' acc)
          (V ++ [t], O)).2 ++ [t]) := by
  have hc : (!pending.contains t || V.contains t) = false := by simp [ht, htV]
  simp only [insertOrder, hc]
  rfl

theorem foldl_insertOrder_walked {f : Nat}
    (hone : ∀ t V O, (Graph.unvisited pending V).card < f →
      Walked objects pending V O [t] (insertOrder objects pending f t (V, O))) :
    ∀ (ts V O : List ObjectId), (Graph.unvisited pending V).card < f →
      Walked objects pending V O ts
        (ts.foldl (fun acc t => insertOrder objects pending f t acc) (V, O))
  | [], V, O, _ => Walked.nil
  | t :: ts, V, O, hf => by
    have h₁ := hone t V O hf
    have ⟨N₁, M₁, hr₁, _⟩ := h₁
    -- the later walks find at most as many unvisited objects as the first did
    have hf₁ : (Graph.unvisited pending (insertOrder objects pending f t (V, O)).1).card < f := by
      rw [hr₁]
      exact (Graph.unvisited_append_card_le pending V N₁).trans_lt hf
    have h₂ := foldl_insertOrder_walked hone ts _ (insertOrder objects pending f t (V, O)).2 hf₁
    simpa only [List.foldl_cons, Prod.mk.eta] using h₁.cons h₂

/-- A walk whose bound exceeds the number of new objects left unvisited visits everything
its start reaches: the bound is never reached. -/
theorem insertOrder_walked :
    ∀ (f : Nat) (t : ObjectId) (V O : List ObjectId), (Graph.unvisited pending V).card < f →
      Walked objects pending V O [t] (insertOrder objects pending f t (V, O))
  | 0, _, _, _, hf => absurd hf (Nat.not_lt_zero _)
  | f + 1, t, V, O, hf => by
    by_cases hvisit : t ∈ pending ∧ t ∉ V
    · obtain ⟨ht, htV⟩ := hvisit
      rw [insertOrder_visit ht htV]
      -- the visit uses one unit of the bound and one unvisited object
      have hf' : (Graph.unvisited pending (V ++ [t])).card < f := by
        have := Graph.unvisited_visit_card_lt ht htV
        omega
      exact Walked.visit ht htV
        (foldl_insertOrder_walked (insertOrder_walked f) _ _ _ hf')
    · rw [insertOrder_skip (by tauto)]
      exact Walked.skip (by tauto)

end Walk

/-! ### The insertion order -/

section Order

variable (objects : List ManagedObject)

theorem mem_pendingIds {x : ObjectId} :
    x ∈ pendingIds objects ↔ ∃ m ∈ objects, m.lifecycle = .persistentNew ∧ m.id = x := by
  simp [pendingIds, and_assoc]

theorem insertionOrder_walked (only : Option ObjectId) :
    ∃ V, Walked objects (pendingIds objects) [] []
      (match only with
        | some id => [id]
        | none => (objects.map ManagedObject.id).filter (pendingIds objects).contains)
      (V, insertionOrder objects only) := by
  have hbound : (Graph.unvisited (pendingIds objects) []).card < (pendingIds objects).length + 1 := by
    have := (pendingIds objects).toFinset_card_le
    simp only [Graph.unvisited, List.toFinset_nil, Finset.sdiff_empty]
    omega
  exact ⟨_, foldl_insertOrder_walked (insertOrder_walked (pendingIds objects).length.succ) _ [] []
    hbound⟩

/-- The insertion order lists new objects once each: with a start, that start and the new
objects it reaches through new objects; without one, every new object. A new object that an
object of the order references comes before it, unless it reaches that object back. -/
theorem insertionOrder_spec (only : Option ObjectId) :
    (insertionOrder objects only).Nodup ∧
      (only = none → ∀ x, x ∈ insertionOrder objects only ↔ x ∈ pendingIds objects) ∧
      (∀ id, only = some id →
        ∀ x, x ∈ insertionOrder objects only ↔ Reaches objects (pendingIds objects) id x) ∧
      PostOrdered objects (pendingIds objects) (insertionOrder objects only) := by
  obtain ⟨V, N, M, hr, hv, hp, ho⟩ := insertionOrder_walked objects only
  simp only [List.nil_append, Prod.mk.injEq] at hr
  obtain ⟨-, hM⟩ := hr
  rw [hM]
  have hmem : ∀ x, x ∈ M ↔ _ := fun x => hp.mem_iff.trans (hv.mem_iff x)
  refine ⟨hp.nodup_iff.mpr hv.nodup, ?_, ?_, ?_⟩
  · rintro rfl x
    rw [hmem]
    constructor
    · rintro ⟨t, -, hr⟩
      exact hr.target
    · intro hx
      obtain ⟨m, hm, -, rfl⟩ := (mem_pendingIds objects).mp hx
      exact ⟨m.id, List.mem_filter.mpr ⟨List.mem_map_of_mem hm, by simpa using hx⟩,
        .refl hx List.not_mem_nil⟩
  · rintro id rfl x
    simp [hmem]
  · simpa using ho (fun _ _ _ _ h => absurd h List.not_mem_nil) (fun _ h => absurd h List.not_mem_nil)

theorem insertionOrder_eq_nil {only : Option ObjectId} (h : pendingIds objects = []) :
    insertionOrder objects only = [] := by
  obtain ⟨-, hnone, hsome, -⟩ := insertionOrder_spec objects only
  apply List.eq_nil_iff_forall_not_mem.mpr
  intro x hx
  cases only with
  | none => simpa [h] using (hnone rfl x).mp hx
  | some id => simpa [h] using ((hsome id rfl x).mp hx).1

end Order

/-! ### Inserting in that order -/

section Inserted

open Std.Do

variable {l T : List ObjectId} {id : ObjectId}

def InsertedBefore (l T : List ObjectId) (s : EngineState) : Prop :=
  s.ctx.backend.counts.inserted ++ l = T

theorem updateManager_inserted (f : ManagedObject → ManagedObject) :
    ⦃fun s => ⌜InsertedBefore l T s⌝⦄ updateManager id f ⦃keeps (InsertedBefore l T)⦄ := by
  mvcgen [updateManager]

theorem transition_inserted (e : LifecycleEvent) :
    ⦃fun s => ⌜InsertedBefore l T s⌝⦄ transition id e ⦃keeps (InsertedBefore l T)⦄ := by
  mvcgen [transition, updateManager]

theorem installData_inserted (field : Nat) (data : Option FieldData) :
    ⦃fun s => ⌜InsertedBefore l T s⌝⦄ installData id field data ⦃keeps (InsertedBefore l T)⦄ := by
  have hUpdateManager := @updateManager_inserted l T
  mvcgen [installData, hUpdateManager]

theorem ensureLoaded_inserted (fields : List Nat) :
    ⦃fun s => ⌜InsertedBefore l T s⌝⦄ ensureLoaded id fields ⦃keeps (InsertedBefore l T)⦄ := by
  have hInstallData := @installData_inserted l T
  have hTransition := @transition_inserted l T
  mvcgen [ensureLoaded, loadMapField, hInstallData, hTransition] invariants
  | inv1 => keeps (InsertedBefore l T)
  | inv2 => keeps (InsertedBefore l T)
  | inv3 => keeps (InsertedBefore l T)
  | inv4 => keeps (InsertedBefore l T)
  | inv5 => keeps (InsertedBefore l T)
  | inv6 => keeps (InsertedBefore l T)

theorem generateValues_inserted (cls : ClassMeta) :
    ⦃fun s => ⌜InsertedBefore l T s⌝⦄ generateValues id cls ⦃keeps (InsertedBefore l T)⦄ := by
  have hUpdateManager := @updateManager_inserted l T
  mvcgen [generateValues, hUpdateManager] invariants
  | inv1 => keeps (InsertedBefore l T)

theorem insertObject_inserted :
    ⦃fun s => ⌜InsertedBefore (id :: l) T s⌝⦄ insertObject id
    ⦃ends (InsertedBefore l T) fun _ => True⦄ := by
  have hEnsureLoaded := @ensureLoaded_inserted (id :: l) T
  have hGenerateValues := @generateValues_inserted (id :: l) T
  have hUpdateManager := @updateManager_inserted l T id
  have hTransition := @transition_inserted l T id
  mvcgen [insertObject, hEnsureLoaded, hGenerateValues, hUpdateManager, hTransition]
  all_goals simp_all +zetaDelta [InsertedBefore]

theorem flushNew_inserted (only : Option ObjectId) (s₀ : EngineState) :
    ⦃fun s => ⌜s = s₀⌝⦄ flushNew only
    ⦃post⟨fun n s => ⌜n = (insertionOrder s₀.ctx.objects only).length ∧
        InsertedBefore [] (s₀.ctx.backend.counts.inserted ++ insertionOrder s₀.ctx.objects only) s⌝,
      fun _ _ => ⌜True⌝⟩⦄ := by
  have hInsertObject := fun l id =>
    @insertObject_inserted l (s₀.ctx.backend.counts.inserted ++ insertionOrder s₀.ctx.objects only) id
  mvcgen [flushNew, hInsertObject] invariants
  | inv1 => post⟨fun p s => ⌜InsertedBefore ( List.Cursor.suffix p.1)
      (s₀.ctx.backend.counts.inserted ++ insertionOrder s₀.ctx.objects only) s⌝,
      fun _ _ => ⌜True⌝⟩
  all_goals simp_all +zetaDelta [InsertedBefore, insertionOrder_eq_nil]

theorem flushNew_ok {only : Option ObjectId} {s s' : EngineState} {n : Nat}
    (hrun : (ExceptT.run (flushNew only)).run s = (.ok n, s')) :
    s'.ctx.backend.counts.inserted = s.ctx.backend.counts.inserted ++ insertionOrder s.ctx.objects only ∧
      n = (insertionOrder s.ctx.objects only).length := by
  have h := flushNew_inserted only s s rfl
  simp only [wp, ExceptT.run, PredTrans.apply_pushExcept, PredTrans.apply_pushArg] at h
  change StateT.run (flushNew only) s = (.ok n, s') at hrun
  rw [hrun] at h
  exact ⟨by simpa [InsertedBefore, Id.run] using h.2, h.1⟩

end Inserted

end Engine

/-- A flush of new objects that returns has inserted each object of its order once, and the
order holds, without a start, every new object, and with one, that object and the new objects
it reaches through new objects. Whatever the reference graph, cycles included, a new object
referenced from an object of the order is inserted before it unless it reaches that object
back through new objects. -/
theorem flushNew_inserts_referenced_first {only : Option ObjectId} {s s' : EngineState}
    {n : Nat} (hrun : (ExceptT.run (Engine.flushNew only)).run s = (.ok n, s')) :
    ∃ order, s'.ctx.backend.counts.inserted = s.ctx.backend.counts.inserted ++ order ∧
      n = order.length ∧ order.Nodup ∧
      (only = none → ∀ x, x ∈ order ↔ x ∈ Engine.pendingIds s.ctx.objects) ∧
      (∀ id, only = some id →
        ∀ x, x ∈ order ↔ Engine.Reaches s.ctx.objects (Engine.pendingIds s.ctx.objects) id x) ∧
      ∀ a ∈ order, ∀ b ∈ Engine.relationTargets s.ctx.objects a,
        b ∈ Engine.pendingIds s.ctx.objects →
        ¬ Engine.Reaches s.ctx.objects (Engine.pendingIds s.ctx.objects) b a →
        Engine.Precedes order b a := by
  obtain ⟨hinserted, hn⟩ := Engine.flushNew_ok hrun
  obtain ⟨hnodup, hnone, hsome, hpost⟩ := Engine.insertionOrder_spec s.ctx.objects only
  exact ⟨_, hinserted, hn, hnodup, hnone, hsome, fun a ha b hb hbp hback =>
    (hpost a ha b hb hbp).resolve_right hback⟩

def newBookAndChapter : EngineState :=
  ((ExceptT.run (do
    Engine.begin
    let b ← Engine.newObject "Book"
    let c ← Engine.newObject "Chapter"
    Engine.setField b 2 (.collection [.ref c])
    Engine.persist b)).run idleSample).2

/-- Flushing the book and its chapter inserts each of them once. -/
theorem flush_inserts_book_and_chapter_once :
    ∃ order, ((ExceptT.run (Engine.flushNew none)).run newBookAndChapter).2.ctx.backend.counts.inserted =
        newBookAndChapter.ctx.backend.counts.inserted ++ order ∧ order.length = 2 ∧ order.Nodup := by
  have hanswer : ((ExceptT.run (Engine.flushNew none)).run newBookAndChapter).1 = .ok 2 := by
    decide +kernel
  have hrun : (ExceptT.run (Engine.flushNew none)).run newBookAndChapter =
      (.ok 2, ((ExceptT.run (Engine.flushNew none)).run newBookAndChapter).2) := by
    rw [← hanswer]
    exact Prod.mk.eta.symm
  obtain ⟨order, hinserted, hn, hnodup, -⟩ := flushNew_inserts_referenced_first hrun
  exact ⟨order, hinserted, hn.symm, hnodup⟩

end ObjectPersistence
