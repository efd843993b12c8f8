import Mathlib
import ObjectPersistence.Proofs.PlainContainer

/-! # Running wrapper calls

A wrapper call runs on a wrapper and the requests made so far, and gives its result with the
wrapper and the requests after it. This module gives one rewriting rule for each monadic
operation, so that a call runs symbolically under `simp only`, and one rule for each helper
the calls share: the shape and binding checks, the null checks, the change notice and the
cascade of a removal.

Of the requests, what a queue of pending changes sees are the operations a call queues, so
the rules keep every request and `queuedOps` reads the operations off them. The per-element
loops of the calls get one lemma each, in the form of an inversion: the loop keeps any
relation that one of its rounds keeps. -/

namespace ObjectPersistence

@[simp] def HostEvent.queued? : HostEvent → Option Operation
  | .enqueue op => some op
  | _ => none

def queuedOps (es : List HostEvent) : List Operation := es.filterMap HostEvent.queued?

@[simp] theorem queuedOps_nil : queuedOps [] = [] := rfl

@[simp] theorem queuedOps_append (a b : List HostEvent) :
    queuedOps (a ++ b) = queuedOps a ++ queuedOps b :=
  List.filterMap_append

@[simp] theorem queuedOps_cons (e : HostEvent) (es : List HostEvent) :
    queuedOps (e :: es) = e.queued?.toList ++ queuedOps es := by
  cases e <;> rfl

theorem Wrapper.with_content_self {w : Wrapper} {c : Content} (h : w.content = c) :
    { w with content := c } = w := by
  rw [← h]

namespace WrapperCall

def exec {α} (c : WrapperCall α) (s : Wrapper × List HostEvent) :
    Except EngineError α × (Wrapper × List HostEvent) :=
  (ExceptT.run c).run s

theorem run_eq_exec {α} (c : WrapperCall α) (w : Wrapper) :
    c.run w = ((c.exec (w, [])).2.1, (c.exec (w, [])).2.2, (c.exec (w, [])).1) := rfl

/-! ## Monadic operations -/

section Monad

variable {α β : Type}

theorem exec_bind (x : WrapperCall α) (f : α → WrapperCall β) (s : Wrapper × List HostEvent) :
    (x >>= f).exec s =
      match x.exec s with
      | (.ok a, s') => (f a).exec s'
      | (.error e, s') => (.error e, s') := by
  simp only [exec, ExceptT.run_bind, StateT.run_bind]
  rcases StateT.run (ExceptT.run x) s with ⟨r, s'⟩
  cases r <;> rfl

theorem exec_map (f : α → β) (x : WrapperCall α) (s : Wrapper × List HostEvent) :
    (f <$> x).exec s =
      match x.exec s with
      | (.ok a, s') => (.ok (f a), s')
      | (.error e, s') => (.error e, s') := by
  simp only [exec, ExceptT.run_map, StateT.run_map]
  rcases StateT.run (ExceptT.run x) s with ⟨r, s'⟩
  cases r <;> rfl

theorem exec_discard (x : WrapperCall α) (s : Wrapper × List HostEvent) :
    (discard x).exec s =
      match x.exec s with
      | (.ok _, s') => (.ok (), s')
      | (.error e, s') => (.error e, s') :=
  exec_map _ x s

theorem exec_ite (c : Prop) [Decidable c] (x y : WrapperCall α) (s : Wrapper × List HostEvent) :
    (if c then x else y).exec s = if c then x.exec s else y.exec s := by
  split <;> rfl

@[simp] theorem exec_pure (a : α) (s : Wrapper × List HostEvent) :
    (pure a : WrapperCall α).exec s = (.ok a, s) := rfl

@[simp] theorem exec_throw (e : EngineError) (s : Wrapper × List HostEvent) :
    (throw e : WrapperCall α).exec s = (.error e, s) := rfl

@[simp] theorem exec_modify (f : Wrapper × List HostEvent → Wrapper × List HostEvent)
    (s : Wrapper × List HostEvent) : (modify f : WrapperCall Unit).exec s = (.ok (), f s) := rfl

end Monad

/-! ## Helpers -/

section Helpers

variable (w : Wrapper) (es : List HostEvent)

@[simp] theorem exec_emit (ev : HostEvent) : (emit ev).exec (w, es) = (.ok (), (w, es ++ [ev])) :=
  rfl

@[simp] theorem exec_wrapper : wrapper.exec (w, es) = (.ok w, (w, es)) := rfl

@[simp] theorem exec_setContent (c : Content) :
    (setContent c).exec (w, es) = (.ok (), ({ w with content := c }, es)) := rfl

theorem exec_sequence :
    sequence.exec (w, es) =
      (match w.content with
        | .collection k xs => .ok (k, xs)
        | _ => .error (.shapeMismatch "collection" w.shape.name), (w, es)) := by
  rcases w with ⟨o, p, c⟩
  cases c <;> rfl

theorem exec_entries :
    entries.exec (w, es) =
      (match w.content with
        | .map s kvs => .ok (s, kvs)
        | _ => .error (.shapeMismatch "map" w.shape.name), (w, es)) := by
  rcases w with ⟨o, p, c⟩
  cases c <;> rfl

theorem exec_listItems :
    listItems.exec (w, es) =
      (match w.content with
        | .collection .list xs => .ok xs
        | _ => .error (.shapeMismatch "list" w.shape.name), (w, es)) := by
  rcases w with ⟨o, p, c⟩
  rcases c with ⟨k, xs⟩ | ⟨s, kvs⟩ | v
  · cases k <;> rfl
  · rfl
  · rfl

theorem exec_listItems_bind {β : Type} (f : List Value → WrapperCall β)
    (hw : ∀ xs, w.content ≠ .collection .list xs) :
    (listItems >>= f).exec (w, es) = (.error (.shapeMismatch "list" w.shape.name), (w, es)) := by
  rw [exec_bind, exec_listItems]
  rcases w with ⟨o, p, c⟩
  rcases c with ⟨k, xs⟩ | ⟨s, kvs⟩ | v
  · cases k
    all_goals first | rfl | exact absurd rfl (hw xs)
  · rfl
  · rfl

theorem exec_bound :
    bound.exec (w, es) =
      (match w.owner with
        | some o => .ok o
        | none => .error .unbound, (w, es)) := by
  rcases w with ⟨o, p, c⟩
  cases o <;> rfl

theorem exec_checkNullable (e : Value) :
    (checkNullable e).exec (w, es) =
      (if e.isNull && !w.policy.allowNulls then .error (.invalidElement .nullElement) else .ok (),
        (w, es)) := by
  unfold checkNullable
  simp only [exec_bind, exec_wrapper]
  split <;> rfl

theorem exec_validate (k v : Value) :
    (validate k v).exec (w, es) =
      (if k.isNull then .error (.invalidElement .nullKey)
        else if v.isNull && !w.policy.allowNulls then .error (.invalidElement .nullElement)
        else .ok (), (w, es)) := by
  unfold validate
  by_cases hk : k.isNull
  · simp [hk]
  · simp [hk, exec_checkNullable]

theorem exec_checkNullable_fault (e : Value) :
    (checkNullable e).exec (w, es) =
      (((ScoCall.nullFault w.policy.allowNulls e).map Fault.toError).elim (.ok ()) .error,
        (w, es)) := by
  rw [exec_checkNullable]
  simp only [ScoCall.nullFault]
  split <;> rfl

theorem exec_validate_fault (k v : Value) :
    (validate k v).exec (w, es) =
      (((ScoCall.entryFault w.policy.allowNulls k v).map Fault.toError).elim (.ok ()) .error,
        (w, es)) := by
  rw [exec_validate]
  simp only [ScoCall.entryFault, ScoCall.nullFault]
  split
  · rfl
  · split <;> rfl

theorem exec_changed (h : HostView) (o : FieldOwner) :
    (changed h o).exec (w, es) =
      (.ok (), (w, es ++ .makeDirty o :: if !h.transactionActive then [.nontransactional o] else [])) := by
  unfold changed
  simp only [exec_bind, exec_emit, exec_ite, exec_pure]
  split <;> simp

theorem exec_cascadeRemoval (h : HostView) (o : FieldOwner) (p : Payload) (e : Value) (ac : Bool) :
    (cascadeRemoval h o p e ac).exec (w, es) =
      (.ok (), (w, es ++
        if h.queued then [.enqueue (Operation.remove o.object o.field p ac)]
        else if ac && w.policy.dependentElements && e.isPersistable then [.deleteDependent e]
        else [])) := by
  unfold cascadeRemoval
  by_cases hq : h.queued
  · simp [hq]
  · simp only [hq, exec_bind, exec_wrapper, exec_ite, exec_emit, exec_pure, Bool.false_eq_true,
      if_false]
    split <;> simp

end Helpers

/-! ## Loops -/

section Loops

variable {σ α : Type}

/-- A loop body follows a step under a relation: from related states it succeeds, answers
the step's flag joined to the flag it was given, and keeps the relation. -/
def Follows (R : Wrapper × List HostEvent → σ → Prop) (f : Bool → α → WrapperCall Bool)
    (step : σ → α → σ × Bool) : Prop :=
  ∀ any a st s, R st s →
    ∃ st', (f any a).exec st = (.ok (any || (step s a).2), st') ∧ R st' (step s a).1

theorem exec_foldlM {R : Wrapper × List HostEvent → σ → Prop} {f : Bool → α → WrapperCall Bool}
    {step : σ → α → σ × Bool} (hf : Follows R f step) :
    ∀ (l : List α) (any : Bool) (st : Wrapper × List HostEvent) (s : σ), R st s →
      ∃ st', (l.foldlM f any).exec st = (.ok (any || (foldSteps step s l).2), st') ∧
        R st' (foldSteps step s l).1
  | [], any, st, _, hR => ⟨st, by simp, hR⟩
  | a :: l, any, st, s, hR => by
    obtain ⟨st₁, h₁, hR₁⟩ := hf any a st s hR
    obtain ⟨st₂, h₂, hR₂⟩ := exec_foldlM hf l (any || (step s a).2) st₁ _ hR₁
    refine ⟨st₂, ?_, hR₂⟩
    rw [List.foldlM_cons, exec_bind, h₁]
    simp only [h₂, foldSteps_cons, Bool.or_assoc]

theorem exec_foldlM_false {R : Wrapper × List HostEvent → σ → Prop}
    {f : Bool → α → WrapperCall Bool} {step : σ → α → σ × Bool} (hf : Follows R f step)
    (l : List α) (st : Wrapper × List HostEvent) (s : σ) (hR : R st s) :
    ∃ st', (l.foldlM f false).exec st = (.ok (foldSteps step s l).2, st') ∧
      R st' (foldSteps step s l).1 := by
  simpa using exec_foldlM hf l false st s hR

theorem exec_forM_check {f : α → WrapperCall PUnit} {g : α → Option EngineError}
    {st : Wrapper × List HostEvent} (hf : ∀ a, (f a).exec st = ((g a).elim (.ok ()) .error, st)) :
    ∀ l : List α, (l.forM f).exec st = ((l.findSome? g).elim (.ok ()) .error, st)
  | [] => rfl
  | a :: l => by
    show (f a >>= fun _ => l.forM f).exec st = _
    rw [exec_bind, hf a, List.findSome?_cons]
    cases g a with
    | some e => rfl
    | none => exact exec_forM_check hf l

end Loops

/-! ## Rounds of the loops -/

section Rounds

variable (h : HostView) (o : FieldOwner) (w : Wrapper) (es : List HostEvent)

theorem exec_checkAll (l : List Value) :
    (l.forM checkNullable).exec (w, es) =
      (((l.findSome? (ScoCall.nullFault w.policy.allowNulls)).map Fault.toError).elim
        (.ok ()) .error, (w, es)) := by
  rw [List.map_findSome?]
  exact exec_forM_check (fun e => exec_checkNullable_fault w es e) l

theorem exec_validateAll (kvs : List (Value × Value)) :
    (validateAll kvs).exec (w, es) =
      (((kvs.findSome? fun kv => ScoCall.entryFault w.policy.allowNulls kv.1 kv.2).map
        Fault.toError).elim (.ok ()) .error, (w, es)) := by
  rw [List.map_findSome?]
  exact exec_forM_check (fun kv => exec_validate_fault w es kv.1 kv.2) kvs

/-- One round of a batch removal: the first copy of the element leaves, the round answers
whether there was one, and in queued mode a removal queues its operation. -/
theorem exec_removeRound {k : CollectionKind} {xs : List Value} (hc : w.content = .collection k xs)
    (ac any : Bool) (e : Value) :
    ∃ evs, (removeRound h o ac any e).exec (w, es) =
        (.ok (any || xs.contains e), ({ w with content := .collection k (xs.erase e) }, es ++ evs)) ∧
      queuedOps evs =
        if h.queued && xs.contains e then [Operation.remove o.object o.field (.element e) ac]
        else [] := by
  unfold removeRound
  cases hm : h.manageRelations <;> by_cases hp : e ∈ xs <;>
    simp [exec_bind, exec_map, exec_sequence, hc, Container.removeFirst, hp, exec_cascadeRemoval,
      apply_ite queuedOps]

/-- One round of a batch insertion: the kind's insertion, and in queued mode an element that
goes in queues its operation. -/
theorem exec_insertRound {k : CollectionKind} {xs : List Value} (hc : w.content = .collection k xs)
    (any : Bool) (e : Value) :
    ∃ evs, (insertRound h o any e).exec (w, es) =
        (.ok (any || (k.insert xs e).2),
          ({ w with content := .collection k (k.insert xs e).1 }, es ++ evs)) ∧
      queuedOps evs =
        if h.queued && (k.insert xs e).2 then [Operation.add o.object o.field (.element e)]
        else [] := by
  unfold insertRound
  cases hm : h.manageRelations <;> cases hi : (k.insert xs e).2 <;> cases hq : h.queued <;>
    simp [exec_bind, exec_map, exec_sequence, hc, hi]

/-- Taking a key out of a map: the key's entry leaves, the round answers its value, and in
queued mode a key that was there queues its removal. -/
theorem exec_removeEntry {s : Bool} {kvs : List (Value × Value)} (hc : w.content = .map s kvs)
    (k : Value) (ac : Bool) :
    ∃ evs, (removeEntry h o k ac).exec (w, es) =
        (.ok (Container.take kvs k).2,
          ({ w with content := .map s (Container.take kvs k).1 }, es ++ evs)) ∧
      queuedOps evs =
        if h.queued && (Container.take kvs k).2.isSome
        then [Operation.remove o.object o.field (.key k) ac] else [] := by
  unfold removeEntry
  cases ht : Container.lookup kvs k with
  | none =>
    -- nothing to take: the wrapper stays as it was
    have hself : { w with content := .map s kvs } = w := by
      rcases w with ⟨o', p', c'⟩
      simp only at hc
      simp [hc]
    refine ⟨[], ?_, by simp [Container.take, ht]⟩
    simp [exec_bind, exec_entries, hc, Container.take_of_lookup_none ht, hself]
  | some v =>
    cases hm : h.manageRelations <;> cases hq : h.queued <;>
      simp [exec_bind, exec_map, exec_entries, hc, Container.take, ht, exec_ite] <;>
      split_ifs <;> simp

/-- Putting an entry: the map's put, answering the previous value and whether the map
changed, and in queued mode a change queues the entry. -/
theorem exec_putEntry {s : Bool} {kvs : List (Value × Value)} (hc : w.content = .map s kvs)
    (k v : Value) :
    ∃ evs, (putEntry h o k v).exec (w, es) =
        (.ok ((Container.put s kvs k v).2, (Container.put s kvs k v).2 != some v),
          ({ w with content := .map s (Container.put s kvs k v).1 }, es ++ evs)) ∧
      queuedOps evs =
        if h.queued && (Container.put s kvs k v).2 != some v
        then [Operation.add o.object o.field (.entry k v)] else [] := by
  unfold putEntry
  cases hp : (Container.put s kvs k v).2 <;> cases hm : h.manageRelations <;>
    cases hq : h.queued <;>
    simp [exec_bind, exec_map, exec_entries, hc, hp, exec_ite] <;>
    split_ifs <;> simp

theorem exec_putRound {s : Bool} {kvs : List (Value × Value)} (hc : w.content = .map s kvs)
    (any : Bool) (kv : Value × Value) :
    ∃ evs, (putRound h o any kv).exec (w, es) =
        (.ok (any || (Container.put s kvs kv.1 kv.2).2 != some kv.2),
          ({ w with content := .map s (Container.put s kvs kv.1 kv.2).1 }, es ++ evs)) ∧
      queuedOps evs =
        if h.queued && (Container.put s kvs kv.1 kv.2).2 != some kv.2
        then [Operation.add o.object o.field (.entry kv.1 kv.2)] else [] := by
  obtain ⟨evs, hexec, hops⟩ := exec_putEntry h o w es hc kv.1 kv.2
  refine ⟨evs, ?_, hops⟩
  simp only [putRound, exec_bind, hexec, exec_pure]

theorem exec_releaseOne (e : Value) :
    ∃ evs, (releaseOne h o e).exec (w, es) = (.ok (), (w, es ++ evs)) ∧
      queuedOps evs =
        if h.queued then [Operation.remove o.object o.field (.element e) true] else [] := by
  unfold releaseOne
  cases h.manageRelations <;> cases hq : h.queued <;>
    simp [exec_bind, exec_cascadeRemoval, hq, apply_ite queuedOps]

theorem exec_releaseAll (xs : List Value) :
    ∃ evs, (releaseAll h o xs).exec (w, es) = (.ok (), (w, es ++ evs)) ∧
      queuedOps evs =
        if h.queued then xs.map fun e => Operation.remove o.object o.field (.element e) true
        else [] := by
  induction xs generalizing es with
  | nil => exact ⟨[], by simp [releaseAll, List.forM], by simp⟩
  | cons e xs ih =>
    obtain ⟨evs₁, hexec₁, hops₁⟩ := exec_releaseOne h o w es e
    obtain ⟨evs₂, hexec₂, hops₂⟩ := ih (es ++ evs₁)
    refine ⟨evs₁ ++ evs₂, ?_, ?_⟩
    · show (releaseOne h o e >>= fun _ => releaseAll h o xs).exec (w, es) = _
      rw [exec_bind, hexec₁]
      simp only [hexec₂, List.append_assoc]
    · cases hq : h.queued <;> simp_all

theorem exec_removeKeys {s : Bool} {kvs : List (Value × Value)} (hc : w.content = .map s kvs)
    (ks : List Value) (hks : ks.Nodup) (hin : ∀ k ∈ ks, k ∈ kvs.map Prod.fst) (ac : Bool) :
    ∃ evs, (removeKeys h o ks ac).exec (w, es) =
        (.ok (), ({ w with content := .map s (kvs.filter fun e => !ks.contains e.1) },
          es ++ evs)) ∧
      queuedOps evs =
        if h.queued then ks.map fun k => Operation.remove o.object o.field (.key k) ac
        else [] := by
  induction ks generalizing w es kvs with
  | nil =>
    have hself : { w with content := .map s kvs } = w := by
      rcases w with ⟨o', p', c'⟩
      simp only at hc
      simp [hc]
    exact ⟨[], by simp [removeKeys, List.forM, hself], by simp⟩
  | cons k ks ih =>
    obtain ⟨hk, hks'⟩ := List.nodup_cons.mp hks
    -- the first key is there, so it is taken
    have hsome : (Container.take kvs k).2.isSome :=
      Container.lookup_isSome_iff.mpr (hin k List.mem_cons_self)
    obtain ⟨evs₁, hexec₁, hops₁⟩ := exec_removeEntry h o w es hc k ac
    -- the other keys are still there after it
    have hin' : ∀ k' ∈ ks, k' ∈ (Container.take kvs k).1.map Prod.fst := by
      intro k' hk'
      obtain ⟨e, he, rfl⟩ := List.mem_map.mp (hin k' (List.mem_cons_of_mem k hk'))
      refine List.mem_map.mpr ⟨e, List.mem_filter.mpr ⟨he, ?_⟩, rfl⟩
      exact bne_iff_ne.mpr fun h' => hk (h' ▸ hk')
    obtain ⟨evs₂, hexec₂, hops₂⟩ :=
      ih { w with content := .map s (Container.take kvs k).1 } (es ++ evs₁) rfl hks' hin'
    refine ⟨evs₁ ++ evs₂, ?_, ?_⟩
    · show (discard (removeEntry h o k ac) >>= fun _ => removeKeys h o ks ac).exec (w, es) = _
      -- the keys taken so far are exactly those the filter drops
      have hfilter : ((Container.take kvs k).1.filter fun e => !ks.contains e.1) =
          kvs.filter fun e => !(k :: ks).contains e.1 := by
        simp only [Container.take, List.filter_filter]
        apply List.filter_congr
        intro e _
        by_cases hek : e.1 = k <;> simp [hek]
      rw [exec_bind, exec_discard, hexec₁]
      dsimp only
      rw [hexec₂, hfilter, List.append_assoc]
    · simp only [queuedOps_append, hops₁, hops₂, hsome, Bool.and_true]
      cases h.queued <;> simp

end Rounds

end WrapperCall

end ObjectPersistence
