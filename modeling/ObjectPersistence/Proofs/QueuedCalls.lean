import Mathlib
import ObjectPersistence.Proofs.WrapperRefinement
import ObjectPersistence.Proofs.StoredOperations

/-! # Calls that queue their changes

A wrapper whose owner queues changes turns each change of its content into operations on
the stored rows of its field. This module shows, call by call, that those operations take
the stored rows along with the wrapper.

The proof runs along the simulation of `WrapperRefinement`. The stored rows hold the items
of the plain container a wrapper stands for, in the order they came (`Stored`), and a queue
`Tracks` a plain container when replaying it ends in rows that store it. One lemma per
call (`QueuesAlong`) shows that the operations a call queues take the stored container to
the one the plain call leaves; the per-element loops carry `Tracks` through their rounds
with `exec_foldlM`, each round appending the operation of the element it changed. -/

namespace ObjectPersistence

open Datastore WrapperCall

/-! ## Plain facts the queued operations rely on -/

@[simp] theorem queuedOps_nontransactional (c : Prop) [Decidable c] (o : FieldOwner) :
    queuedOps (if c then [HostEvent.nontransactional o] else []) = [] := by
  split <;> rfl

theorem foldSteps_removeFirst_fst (xs l : List Value) :
    (foldSteps Container.removeFirst xs l).1 = xs.diff l := by
  induction l generalizing xs with
  | nil => simp
  | cons a l ih =>
    rw [foldSteps_cons, ih, List.diff_eq_foldl, List.diff_eq_foldl, List.foldl_cons]
    rfl

theorem diff_view_filter (k : CollectionKind) (xs : List Value) (q : Value → Bool) :
    xs.diff ((k.view xs).filter q) = xs.filter fun x => !q x := by
  rw [((k.view_perm xs).filter q).diff_left xs, ← foldSteps_removeFirst_fst,
    Container.foldSteps_removeFirst_filter]

theorem diff_view_self (k : CollectionKind) (xs : List Value) : xs.diff (k.view xs) = [] := by
  simpa using diff_view_filter k xs fun _ => true

theorem Container.put_of_unchanged {fs : List (Value × Value)} (hd : Container.KeysNodup fs)
    {k v : Value} (h : (Container.put false fs k v).2 = some v) :
    (Container.put false fs k v).1 = fs := by
  cases hl : Container.lookup fs k with
  | none => simp [Container.put, hl] at h
  | some old =>
    simp only [Container.put, hl, Option.some.injEq] at h ⊢
    subst h
    -- the one entry under the key already holds the value
    have hmem := (Container.lookup_eq_some_iff hd).mp hl
    refine (List.map_congr_left fun e he => ?_).trans (List.map_id fs)
    by_cases hek : e.1 = k
    · have : e = (k, old) := List.inj_on_of_nodup_map hd he hmem hek
      simp [this]
    · simp [hek]

theorem insertIdx_eraseIdx_eq_set {xs : List Value} {i : Nat} (hi : i < xs.length) (e : Value) :
    (xs.eraseIdx i).insertIdx i e = xs.set i e := by
  have hlen : (xs.take i).length = i := List.length_take_of_le hi.le
  rw [List.eraseIdx_eq_take_drop_succ, insertIdx_eq_take_drop (by simp; omega),
    List.set_eq_take_append_cons_drop, if_pos hi, List.take_append_of_le_length hlen.ge,
    List.drop_append_of_le_length hlen.ge, List.take_take, Nat.min_self]
  simp

theorem Plain.size_insert (k : CollectionKind) (xs : List Value) (e : Value) :
    (Plain.insert k xs e).1.length ≤ xs.length + 1 := by
  unfold Plain.insert
  split <;> simp

theorem Plain.insert_of_unchanged {k : CollectionKind} {xs : List Value} {e : Value}
    (h : (Plain.insert k xs e).2 = false) : (Plain.insert k xs e).1 = xs := by
  unfold Plain.insert at h ⊢
  split
  · rfl
  · next hc =>
    rw [if_neg hc] at h
    cases h

theorem Plain.size_putChanged (fs : List (Value × Value)) (kv : Value × Value) :
    (Plain.putChanged fs kv).1.length ≤ fs.length + 1 := by
  unfold Plain.putChanged Container.put
  split <;> simp

/-! ## One change at a time -/

namespace Tracks

variable {f : StoredField} {t₀ : Tables} {n₀ : Nat} {ops : List Operation}

theorem insert {k : CollectionKind} {xs : List Value} (ht : Tracks f t₀ n₀ ops (.collection k xs))
    (e : Value) :
    Tracks f t₀ n₀ (ops ++ if (Plain.insert k xs e).2
        then [Operation.add f.owner.object f.owner.field (.element e)] else [])
      (.collection k (Plain.insert k xs e).1) := by
  split
  · exact ht.snoc (fun hb => Applies.addElement hb e) (Plain.size_insert k xs e)
  · next hin =>
    rw [Plain.insert_of_unchanged (by simpa using hin), List.append_nil]
    exact ht

theorem erase {k : CollectionKind} {xs : List Value} (ht : Tracks f t₀ n₀ ops (.collection k xs))
    (e : Value) (ac : Bool) :
    Tracks f t₀ n₀ (ops ++ if xs.contains e
        then [Operation.remove f.owner.object f.owner.field (.element e) ac] else [])
      (.collection k (xs.erase e)) := by
  split
  · exact ht.snoc (fun hb => Applies.removeElement hb.le e ac)
      (by simp only [PlainContainer.size]; exact (List.length_erase_le).trans (Nat.le_succ _))
  · next hin =>
    rw [List.erase_of_not_mem (by simpa using hin), List.append_nil]
    exact ht

theorem put {s : Bool} {fs : List (Value × Value)} (ht : Tracks f t₀ n₀ ops (.map s fs))
    (hd : Container.KeysNodup fs) (k v : Value) :
    Tracks f t₀ n₀ (ops ++ if (Container.put false fs k v).2 != some v
        then [Operation.add f.owner.object f.owner.field (.entry k v)] else [])
      (.map s (Container.put false fs k v).1) := by
  split
  · exact ht.snoc (fun hb => Applies.addEntry hb k v) (Plain.size_putChanged fs (k, v))
  · next hin =>
    rw [Container.put_of_unchanged hd (by simpa using hin), List.append_nil]
    exact ht

theorem take {s : Bool} {fs : List (Value × Value)} (ht : Tracks f t₀ n₀ ops (.map s fs))
    (hd : Container.KeysNodup fs) (k : Value) (ac : Bool) :
    Tracks f t₀ n₀ (ops ++ if (Container.take fs k).2.isSome
        then [Operation.remove f.owner.object f.owner.field (.key k) ac] else [])
      (.map s (Container.take fs k).1) := by
  split
  · exact ht.snoc (fun hb => Applies.removeKey hd hb.le k ac)
      (by simp only [PlainContainer.size, Container.take]
          exact (List.length_filter_le _ _).trans (Nat.le_succ _))
  · next hin =>
    have hnone : Container.lookup fs k = none := by simpa [Container.take] using hin
    rw [Container.take_of_lookup_none hnone, List.append_nil]
    exact ht

theorem insertIdx {k : CollectionKind} {xs : List Value} (ht : Tracks f t₀ n₀ ops (.collection k xs))
    {i : Nat} (hi : i ≤ xs.length) (e : Value) :
    Tracks f t₀ n₀ (ops ++ [Operation.add f.owner.object f.owner.field (.indexed i e)])
      (.collection k (xs.insertIdx i e)) :=
  ht.snoc (fun hb => Applies.addIndexed hi hb e)
    (by simp only [PlainContainer.size]; exact List.length_insertIdx_le_succ)

theorem eraseIdx {k : CollectionKind} {xs : List Value} (ht : Tracks f t₀ n₀ ops (.collection k xs))
    {i : Nat} (hi : i < xs.length) (e : Value) (ac : Bool) :
    Tracks f t₀ n₀ (ops ++ [Operation.remove f.owner.object f.owner.field (.indexed i e) ac])
      (.collection k (xs.eraseIdx i)) :=
  ht.snoc (fun hb => Applies.removeIndexed hi hb.le e ac)
    (by simp only [PlainContainer.size]; exact (List.length_eraseIdx_le xs i).trans (Nat.le_succ _))

/-- No bound leaves room for rows that store a single value, so any queue after one that
claims to store it claims nothing. -/
theorem of_single {v : Value} (ht : Tracks f t₀ n₀ ops (.single v))
    (ops' : List Operation) (pc : PlainContainer) : Tracks f t₀ n₀ (ops ++ ops') pc := by
  intro hb
  rw [List.length_append] at hb
  obtain ⟨t, -, hs, -⟩ := ht (by omega)
  obtain ⟨rows, -, hst⟩ := hs.rows
  simp only [PlainContainer.StoredIn] at hst

theorem removeElements {k : CollectionKind} {xs : List Value}
    (ht : Tracks f t₀ n₀ ops (.collection k xs)) (l : List Value) (ac : Bool) :
    Tracks f t₀ n₀
      (ops ++ l.map fun e => Operation.remove f.owner.object f.owner.field (.element e) ac)
      (.collection k (xs.diff l)) := by
  induction l generalizing ops xs with
  | nil => simpa using ht
  | cons a l ih =>
    have ht' := ht.snoc (fun hb => Applies.removeElement hb.le a ac)
      (by simp only [PlainContainer.size]; exact (List.length_erase_le).trans (Nat.le_succ _))
    rw [List.map_cons, List.diff_cons, ← List.singleton_append, ← List.append_assoc]
    exact ih ht'

theorem removeKeys {s : Bool} {fs : List (Value × Value)} (ht : Tracks f t₀ n₀ ops (.map s fs))
    (hd : Container.KeysNodup fs) (ks : List Value) (ac : Bool) :
    Tracks f t₀ n₀
      (ops ++ ks.map fun k => Operation.remove f.owner.object f.owner.field (.key k) ac)
      (.map s (fs.filter fun e => !ks.contains e.1)) := by
  induction ks generalizing ops fs with
  | nil => simpa using ht
  | cons k ks ih =>
    have ht' := ht.snoc (fun hb => Applies.removeKey hd hb.le k ac)
      (by simp only [PlainContainer.size, Container.take]
          exact (List.length_filter_le _ _).trans (Nat.le_succ _))
    -- the keys taken so far are exactly those the filter drops
    have hfilter : (fs.filter fun e => !(k :: ks).contains e.1) =
        (Container.take fs k).1.filter fun e => !ks.contains e.1 := by
      rw [Container.take, List.filter_filter]
      apply List.filter_congr
      intro e _
      by_cases hek : e.1 = k <;> simp [hek]
    rw [List.map_cons, hfilter, ← List.singleton_append, ← List.append_assoc]
    exact ih ht' (Container.keysNodup_filter hd _)

end Tracks

/-! ## Rounds of the loops, with their queued operations -/

section Rounds

variable {f : StoredField} {t₀ : Tables} {n₀ : Nat} {h : HostView} (hq : h.queued = true)
  (w₀ : Wrapper) (k : CollectionKind)
include hq

theorem follows_insertRound_tracks :
    Follows (fun st xs => st.1 = { w₀ with content := .collection k (k.view xs) } ∧
        Tracks f t₀ n₀ (queuedOps st.2) (.collection k xs))
      (insertRound h f.owner) (Plain.insert k) := by
  rintro any e ⟨w, es⟩ xs ⟨hw, ht⟩
  simp only at hw ht
  subst hw
  obtain ⟨evs, hexec, hops⟩ :=
    exec_insertRound h f.owner { w₀ with content := .collection k (k.view xs) } es rfl any e
  rw [CollectionKind.insert_view] at hexec hops
  refine ⟨_, hexec, rfl, ?_⟩
  simpa only [queuedOps_append, hops, hq, Bool.true_and] using ht.insert e

theorem follows_removeRound_tracks (ac : Bool) :
    Follows (fun st xs => st.1 = { w₀ with content := .collection k (k.view xs) } ∧
        Tracks f t₀ n₀ (queuedOps st.2) (.collection k xs))
      (removeRound h f.owner ac) Container.removeFirst := by
  rintro any e ⟨w, es⟩ xs ⟨hw, ht⟩
  simp only at hw ht
  subst hw
  obtain ⟨evs, hexec, hops⟩ :=
    exec_removeRound h f.owner { w₀ with content := .collection k (k.view xs) } es rfl ac any e
  rw [← CollectionKind.view_erase, CollectionKind.contains_view] at hexec
  rw [CollectionKind.contains_view] at hops
  refine ⟨_, hexec, rfl, ?_⟩
  simpa only [queuedOps_append, hops, hq, Bool.true_and, Container.removeFirst]
    using ht.erase e ac

theorem follows_putRound_tracks (s : Bool) :
    Follows (fun st fs => st.1 = { w₀ with content := .map s (Plain.viewMap s fs) } ∧
        Container.KeysNodup fs ∧ Tracks f t₀ n₀ (queuedOps st.2) (.map s fs))
      (putRound h f.owner) Plain.putChanged := by
  rintro any kv ⟨w, es⟩ fs ⟨hw, hd, ht⟩
  simp only at hw ht
  subst hw
  obtain ⟨evs, hexec, hops⟩ :=
    exec_putRound h f.owner { w₀ with content := .map s (Plain.viewMap s fs) } es rfl any kv
  rw [Plain.put_viewMap s hd] at hexec hops
  refine ⟨_, hexec, rfl, Container.keysNodup_put hd kv.1 kv.2, ?_⟩
  simpa only [queuedOps_append, hops, hq, Bool.true_and, Plain.putChanged]
    using ht.put hd kv.1 kv.2

end Rounds

/-! ## Calls -/

def Wrapper.BoundOnlyTo (o : FieldOwner) (w : Wrapper) : Prop := w.owner = some o ∨ w.owner = none

/-- After a call from a wrapper and a plain state, the wrapper is still bound only to the
field, and the operations queued so far take the stored container to the one the plain call
leaves. -/
def QueuesAt (f : StoredField) (c : WrapperCall Answer) (pc : ScoCall) (t₀ : Tables) (n₀ : Nat)
    (w : Wrapper) (p : PlainState) (es : List HostEvent) : Prop :=
  (c.exec (w, es)).2.1.BoundOnlyTo f.owner ∧
    Tracks f t₀ n₀ (queuedOps (c.exec (w, es)).2.2) (p.perform pc).1.container

/-- With its owner queueing changes, a call keeps a wrapper bound only to the stored field,
and queues the operations that take the container the queue stores to the one the plain call
leaves. -/
def QueuesAlong (f : StoredField) (c : WrapperCall Answer) (pc : ScoCall) : Prop :=
  ∀ t₀ n₀ w p es, Represents w p → w.BoundOnlyTo f.owner →
    Tracks f t₀ n₀ (queuedOps es) p.container → QueuesAt f c pc t₀ n₀ w p es

section Calls

variable {f : StoredField} {c : WrapperCall Answer} {pc : ScoCall} {t₀ : Tables} {n₀ : Nat}
  {w : Wrapper} {p : PlainState} {es : List HostEvent}

theorem PlainState.perform_of_fault {flt : Fault} (h : p.fault pc = some flt) :
    (p.perform pc).1 = p := by
  simp [PlainState.perform, h]

/-- A call that changes neither the wrapper nor the requests, where the plain call leaves the
container as it was, queues nothing. -/
theorem queues_unchanged (ho : w.BoundOnlyTo f.owner)
    (ht : Tracks f t₀ n₀ (queuedOps es) p.container) (hexec : (c.exec (w, es)).2 = (w, es))
    (hperf : (p.perform pc).1.container = p.container) : QueuesAt f c pc t₀ n₀ w p es := by
  rw [QueuesAt, hexec, hperf]
  exact ⟨ho, ht⟩

theorem queues_refused (flt : Fault) (ho : w.BoundOnlyTo f.owner)
    (ht : Tracks f t₀ n₀ (queuedOps es) p.container) (hfault : p.fault pc = some flt)
    (hexec : (c.exec (w, es)).2 = (w, es)) : QueuesAt f c pc t₀ n₀ w p es :=
  queues_unchanged ho ht hexec (by rw [PlainState.perform_of_fault hfault])

theorem queues_misfit (ho : w.BoundOnlyTo f.owner)
    (ht : Tracks f t₀ n₀ (queuedOps es) p.container) (hfits : pc.fits p.container = false)
    (hexec : (c.exec (w, es)).2 = (w, es)) : QueuesAt f c pc t₀ n₀ w p es :=
  queues_refused .shapeMismatch ho ht (by simp [PlainState.fault, hfits]) hexec

theorem queues_unbound (hr : Represents w p) (ho : w.owner = none)
    (ht : Tracks f t₀ n₀ (queuedOps es) p.container) (hfits : pc.fits p.container)
    (hneeds : pc.needsOwner) (hexec : (c.exec (w, es)).2 = (w, es)) :
    QueuesAt f c pc t₀ n₀ w p es := by
  have hb : p.bound = false := by simpa [ho] using hr.bound.symm
  exact queues_refused .unbound (Or.inr ho) ht (by simp [PlainState.fault, hfits, hneeds, hb])
    hexec

/-- A call carried out on both sides, which keeps the binding and queues what takes the stored
container to the one the plain call leaves. -/
theorem queues_done (ho : w.owner = some f.owner) (hpc : pc ≠ .unsetOwner)
    (hfault : p.fault pc = none) (howner : (c.exec (w, es)).2.1.owner = w.owner)
    (ht : Tracks f t₀ n₀ (queuedOps (c.exec (w, es)).2.2) (p.container.apply pc).1) :
    QueuesAt f c pc t₀ n₀ w p es := by
  have hperform : (p.perform pc).1.container = (p.container.apply pc).1 := by
    unfold PlainState.perform
    rw [hfault]
    cases pc <;> simp_all
  rw [QueuesAt, hperform, Wrapper.BoundOnlyTo, howner, ho]
  exact ⟨Or.inl rfl, ht⟩

/-- A call is shown to queue along one kind of content at a time; on a single value, no
queue stores anything, so it is enough that the call keeps the binding and the requests so
far. -/
theorem QueuesAlong.intro
    (hcoll : ∀ t₀ n₀ w p es k xs, Represents w p → w.BoundOnlyTo f.owner →
      w.content = .collection k (k.view xs) → p.container = .collection k xs →
      Tracks f t₀ n₀ (queuedOps es) (.collection k xs) → QueuesAt f c pc t₀ n₀ w p es)
    (hmap : ∀ t₀ n₀ w p es s fs, Represents w p → w.BoundOnlyTo f.owner →
      Container.KeysNodup fs → w.content = .map s (Plain.viewMap s fs) →
      p.container = .map s fs → Tracks f t₀ n₀ (queuedOps es) (.map s fs) →
      QueuesAt f c pc t₀ n₀ w p es)
    (hscalar : ∀ w es v, w.content = .scalar v → ∃ w' evs, (c.exec (w, es)).2 = (w', es ++ evs) ∧
      (w'.owner = w.owner ∨ w'.owner = none)) :
    QueuesAlong f c pc := by
  intro t₀ n₀ w p es hr ho ht
  have hh := hr.holds
  generalize hc : w.content = content at hh
  generalize hp : p.container = container at hh ht
  cases hh with
  | collection k xs => exact hcoll t₀ n₀ w p es k xs hr ho hc hp ht
  | map s hd => exact hmap t₀ n₀ w p es s _ hr ho hd hc hp ht
  | scalar v =>
    obtain ⟨w', evs, hexec, howner⟩ := hscalar w es v hc
    rw [QueuesAt, hexec, Wrapper.BoundOnlyTo]
    dsimp only
    refine ⟨?_, by rw [queuedOps_append]; exact ht.of_single _ _⟩
    rcases howner with h' | h' <;> rw [h']
    · exact ho
    · exact Or.inr rfl

/-- A call that only fits lists is shown on lists, given that the wrapper refuses it, changing
nothing, on any other content. -/
theorem QueuesAlong.intro_list (hpc : pc.positional)
    (hmisfit : ∀ w es, (∀ xs, w.content ≠ .collection .list xs) → (c.exec (w, es)).2 = (w, es))
    (hlist : ∀ t₀ n₀ w p es xs, Represents w p → w.BoundOnlyTo f.owner →
      w.content = .collection .list xs → p.container = .collection .list xs →
      Tracks f t₀ n₀ (queuedOps es) (.collection .list xs) → QueuesAt f c pc t₀ n₀ w p es) :
    QueuesAlong f c pc := by
  intro t₀ n₀ w p es hr ho ht
  by_cases hl : ∃ xs, w.content = .collection .list xs
  · obtain ⟨xs, hc⟩ := hl
    have hh := hr.holds
    rw [hc] at hh
    have hp := hh.list_left
    exact hlist t₀ n₀ w p es xs hr ho hc hp (hp ▸ ht)
  · rw [not_exists] at hl
    refine queues_misfit ho ht ?_ (hmisfit w es hl)
    cases hf : pc.fits p.container
    · rfl
    · obtain ⟨xs, hp⟩ := ScoCall.fits_positional hpc hf
      have hh := hr.holds
      rw [hp] at hh
      exact absurd hh.list_right (hl xs)

theorem scalar_unchanged (hexec : (c.exec (w, es)).2 = (w, es)) :
    ∃ w' evs, (c.exec (w, es)).2 = (w', es ++ evs) ∧ (w'.owner = w.owner ∨ w'.owner = none) :=
  ⟨w, [], by rw [hexec, List.append_nil], Or.inl rfl⟩

end Calls

/-! ## Collections -/

section Collections

variable {f : StoredField} {h : HostView} (hq : h.queued = true)
include hq

theorem queues_add (e : Value) : QueuesAlong f (.flag <$> add h e) (.add e) := by
  refine QueuesAlong.intro (fun t₀ n₀ w p es k xs hr ho hc hp ht => ?_)
    (fun t₀ n₀ w p es s fs hr ho _ hc hp ht => ?_) (fun w es v hc => ?_)
  · rcases ho with ho | ho
    · have hfault := fault_of_bound (.add e) hr ho (by rw [hp]; rfl)
      by_cases hnull : e.isNull && !w.policy.allowNulls
      · refine queues_refused .nullElement (Or.inl ho) (hp ▸ ht) ?_ ?_
        · simp [hfault, ScoCall.argumentFault, ScoCall.nullFault, hnull]
        · simp [add, exec_bind, exec_discard, exec_sequence, exec_bound, exec_checkNullable, hc,
            ho, hnull]
      · -- the element goes in as the plain insertion says, its operation queued
        obtain ⟨⟨w', es'⟩, hloop, hst, ht'⟩ :=
          exec_foldlM_false (follows_insertRound_tracks hq w k) [e] (w, es) xs
            ⟨(Wrapper.with_content_self hc).symm, ht⟩
        simp only at hst ht'
        subst hst
        have hcall : ((Answer.flag <$> add h e).exec (w, es)).2.1.owner = w.owner ∧
            queuedOps ((Answer.flag <$> add h e).exec (w, es)).2.2 = queuedOps es' := by
          simp only [add, exec_map, exec_bind, exec_discard, exec_sequence, exec_bound,
            exec_checkNullable, hc, ho, hnull, Bool.false_eq_true, if_false, insertEach, hloop,
            exec_ite, exec_changed, exec_pure]
          split_ifs <;> simp
        refine queues_done ho (by simp)
          (by simp [hfault, ScoCall.argumentFault, ScoCall.nullFault, hnull]) hcall.1 ?_
        rw [hcall.2, hp]
        simpa [PlainContainer.apply] using ht'
    · exact queues_unbound hr ho (hp ▸ ht) (by rw [hp]; rfl) rfl
        (by simp [add, exec_bind, exec_discard, exec_sequence, exec_bound, hc, ho])
  · exact queues_misfit ho (hp ▸ ht) (by rw [hp]; rfl)
      (by simp [add, exec_bind, exec_discard, exec_sequence, hc])
  · exact scalar_unchanged (by simp [add, exec_bind, exec_discard, exec_sequence, hc])

theorem queues_addAll (l : List Value) : QueuesAlong f (.flag <$> addAll h l) (.addAll l) := by
  refine QueuesAlong.intro (fun t₀ n₀ w p es k xs hr ho hc hp ht => ?_)
    (fun t₀ n₀ w p es s fs hr ho _ hc hp ht => ?_) (fun w es v hc => ?_)
  · rcases ho with ho | ho
    · have hfault := fault_of_bound (.addAll l) hr ho (by rw [hp]; rfl)
      cases hnull : l.findSome? (ScoCall.nullFault w.policy.allowNulls) with
      | some flt =>
        -- the first refused null refuses the whole batch
        refine queues_refused flt (Or.inl ho) (hp ▸ ht)
          (by simp [hfault, ScoCall.argumentFault, hnull]) ?_
        simp only [addAll, exec_map, exec_bind, exec_discard, exec_sequence, exec_bound,
          exec_checkAll, hc, ho, hnull]
        simp
      | none =>
        obtain ⟨⟨w', es'⟩, hloop, hst, ht'⟩ :=
          exec_foldlM_false (follows_insertRound_tracks hq w k) l (w, es) xs
            ⟨(Wrapper.with_content_self hc).symm, ht⟩
        simp only at hst ht'
        subst hst
        have hcall : ((Answer.flag <$> addAll h l).exec (w, es)).2.1.owner = w.owner ∧
            queuedOps ((Answer.flag <$> addAll h l).exec (w, es)).2.2 = queuedOps es' := by
          simp only [addAll, exec_map, exec_bind, exec_discard, exec_sequence, exec_bound,
            exec_checkAll, hc, ho, hnull, Option.map_none, Option.elim, insertEach, hloop,
            exec_ite, exec_changed, exec_pure]
          split_ifs <;> simp
        refine queues_done ho (by simp) (by simp [hfault, ScoCall.argumentFault, hnull])
          hcall.1 ?_
        rw [hcall.2, hp]
        simpa [PlainContainer.apply] using ht'
    · exact queues_unbound hr ho (hp ▸ ht) (by rw [hp]; rfl) rfl
        (by simp [addAll, exec_bind, exec_discard, exec_sequence, exec_bound, hc, ho])
  · exact queues_misfit ho (hp ▸ ht) (by rw [hp]; rfl)
      (by simp [addAll, exec_bind, exec_discard, exec_sequence, hc])
  · exact scalar_unchanged (by simp [addAll, exec_bind, exec_discard, exec_sequence, hc])

theorem queues_remove (e : Value) (ac : Bool) :
    QueuesAlong f (.flag <$> remove h e ac) (.remove e ac) := by
  refine QueuesAlong.intro (fun t₀ n₀ w p es k xs hr ho hc hp ht => ?_)
    (fun t₀ n₀ w p es s fs hr ho _ hc hp ht => ?_) (fun w es v hc => ?_)
  · rcases ho with ho | ho
    · have hfault := fault_of_bound (.remove e ac) hr ho (by rw [hp]; rfl)
      obtain ⟨⟨w', es'⟩, hloop, hst, ht'⟩ :=
        exec_foldlM_false (follows_removeRound_tracks hq w k ac) [e] (w, es) xs
          ⟨(Wrapper.with_content_self hc).symm, ht⟩
      simp only at hst ht'
      subst hst
      have hcall : ((Answer.flag <$> remove h e ac).exec (w, es)).2.1.owner = w.owner ∧
          queuedOps ((Answer.flag <$> remove h e ac).exec (w, es)).2.2 = queuedOps es' := by
        simp only [remove, exec_map, exec_bind, exec_discard, exec_sequence, exec_bound, hc, ho,
          removeEach, hloop, exec_ite, exec_changed, exec_pure]
        split_ifs <;> simp
      refine queues_done ho (by simp) (by simp [hfault, ScoCall.argumentFault]) hcall.1 ?_
      rw [hcall.2, hp]
      simpa [PlainContainer.apply] using ht'
    · exact queues_unbound hr ho (hp ▸ ht) (by rw [hp]; rfl) rfl
        (by simp [remove, exec_bind, exec_discard, exec_sequence, exec_bound, hc, ho])
  · exact queues_misfit ho (hp ▸ ht) (by rw [hp]; rfl)
      (by simp [remove, exec_bind, exec_discard, exec_sequence, hc])
  · exact scalar_unchanged (by simp [remove, exec_bind, exec_discard, exec_sequence, hc])

theorem queues_removeAll (l : List Value) :
    QueuesAlong f (.flag <$> removeAll h l) (.removeAll l) := by
  refine QueuesAlong.intro (fun t₀ n₀ w p es k xs hr ho hc hp ht => ?_)
    (fun t₀ n₀ w p es s fs hr ho _ hc hp ht => ?_) (fun w es v hc => ?_)
  · rcases ho with ho | ho
    · have hfault := fault_of_bound (.removeAll l) hr ho (by rw [hp]; rfl)
      cases l with
      | nil =>
        -- an empty batch succeeds at once, queueing nothing
        refine queues_done ho (by simp) (by simp [hfault, ScoCall.argumentFault]) ?_ ?_
        · simp [removeAll, exec_map, exec_bind, exec_discard, exec_sequence, exec_bound, hc, ho]
        · have hexec : ((Answer.flag <$> removeAll h []).exec (w, es)).2.2 = es := by
            simp [removeAll, exec_map, exec_bind, exec_discard, exec_sequence, exec_bound, hc, ho]
          rw [hexec, hp]
          simpa [PlainContainer.apply] using ht
      | cons a rest =>
        obtain ⟨⟨w', es'⟩, hloop, hst, ht'⟩ :=
          exec_foldlM_false (follows_removeRound_tracks hq w k true) (a :: rest) (w, es) xs
            ⟨(Wrapper.with_content_self hc).symm, ht⟩
        simp only at hst ht'
        subst hst
        have hcall : ((Answer.flag <$> removeAll h (a :: rest)).exec (w, es)).2.1.owner =
              w.owner ∧
            queuedOps ((Answer.flag <$> removeAll h (a :: rest)).exec (w, es)).2.2 =
              queuedOps es' := by
          simp only [removeAll, exec_map, exec_bind, exec_discard, exec_sequence, exec_bound, hc,
            ho, List.isEmpty_cons, Bool.false_eq_true, if_false, removeEach, hloop, exec_ite,
            exec_changed, exec_pure]
          split_ifs <;> simp
        refine queues_done ho (by simp) (by simp [hfault, ScoCall.argumentFault]) hcall.1 ?_
        rw [hcall.2, hp]
        simpa [PlainContainer.apply] using ht'
    · exact queues_unbound hr ho (hp ▸ ht) (by rw [hp]; rfl) rfl
        (by simp [removeAll, exec_bind, exec_discard, exec_sequence, exec_bound, hc, ho])
  · exact queues_misfit ho (hp ▸ ht) (by rw [hp]; rfl)
      (by simp [removeAll, exec_bind, exec_discard, exec_sequence, hc])
  · exact scalar_unchanged (by simp [removeAll, exec_bind, exec_discard, exec_sequence, hc])

theorem queues_retainAll (keep : List Value) :
    QueuesAlong f (.flag <$> retainAll h keep) (.retainAll keep) := by
  refine QueuesAlong.intro (fun t₀ n₀ w p es k xs hr ho hc hp ht => ?_)
    (fun t₀ n₀ w p es s fs hr ho _ hc hp ht => ?_) (fun w es v hc => ?_)
  · rcases ho with ho | ho
    · have hfault := fault_of_bound (.retainAll keep) hr ho (by rw [hp]; rfl)
      -- the elements read that are not kept leave the plain elements one at a time
      obtain ⟨⟨w', es'⟩, hloop, hst, ht'⟩ :=
        exec_foldlM_false (follows_removeRound_tracks hq w k true)
          ((k.view xs).filter fun x => !keep.contains x) (w, es) xs
          ⟨(Wrapper.with_content_self hc).symm, ht⟩
      simp only at hst ht'
      subst hst
      have hcall : ((Answer.flag <$> retainAll h keep).exec (w, es)).2.1.owner = w.owner ∧
          queuedOps ((Answer.flag <$> retainAll h keep).exec (w, es)).2.2 = queuedOps es' := by
        simp only [retainAll, exec_map, exec_bind, exec_sequence, exec_bound, hc, ho, removeEach,
          hloop, exec_ite, exec_changed, exec_pure]
        split_ifs <;> simp
      refine queues_done ho (by simp) (by simp [hfault, ScoCall.argumentFault]) hcall.1 ?_
      rw [hcall.2, hp]
      rw [foldSteps_removeFirst_fst, diff_view_filter] at ht'
      simp only [Bool.not_not] at ht'
      exact ht'
    · exact queues_unbound hr ho (hp ▸ ht) (by rw [hp]; rfl) rfl
        (by simp [retainAll, exec_bind, exec_sequence, exec_bound, hc, ho])
  · exact queues_misfit ho (hp ▸ ht) (by rw [hp]; rfl)
      (by simp [retainAll, exec_bind, exec_sequence, hc])
  · exact scalar_unchanged (by simp [retainAll, exec_bind, exec_sequence, hc])

theorem queues_clear : QueuesAlong f ((fun _ => .done) <$> clear h) .clear := by
  refine QueuesAlong.intro (fun t₀ n₀ w p es k xs hr ho hc hp ht => ?_)
    (fun t₀ n₀ w p es s fs hr ho hd hc hp ht => ?_) (fun w es v hc => ?_)
  · rcases ho with ho | ho
    · have hfault := fault_of_bound .clear hr ho (by rw [hp]; rfl)
      obtain ⟨evs, hrelease, hops⟩ := exec_releaseAll h f.owner w es (k.view xs)
      have hcall : (((fun _ => Answer.done) <$> clear h).exec (w, es)).2.1.owner = w.owner ∧
          queuedOps (((fun _ => Answer.done) <$> clear h).exec (w, es)).2.2 =
            queuedOps (es ++ evs) := by
        simp [clear, exec_map, exec_bind, exec_sequence, exec_bound, hc, ho, hrelease,
          exec_changed]
      refine queues_done ho (by simp) (by simp [hfault, ScoCall.argumentFault]) hcall.1 ?_
      have ht' := ht.removeElements (k.view xs) true
      rw [diff_view_self] at ht'
      rw [hcall.2, queuedOps_append, hops, if_pos hq, hp]
      simpa [PlainContainer.apply] using ht'
    · exact queues_unbound hr ho (hp ▸ ht) (by rw [hp]; rfl) rfl
        (by simp [clear, exec_bind, exec_sequence, exec_bound, hc, ho])
  · rcases ho with ho | ho
    · have hfault := fault_of_bound .clear hr ho (by rw [hp]; rfl)
      -- every key the wrapper reads goes, each once, and those are all the stored keys
      have hkeys : ((Plain.viewMap s fs).map Prod.fst).Nodup :=
        ((Plain.viewMap_perm s fs).map Prod.fst).nodup_iff.mpr hd
      have hall : (fs.filter fun e => !((Plain.viewMap s fs).map Prod.fst).contains e.1) = [] := by
        rw [List.filter_eq_nil_iff]
        intro e he
        have hmem : e.1 ∈ (Plain.viewMap s fs).map Prod.fst :=
          ((Plain.viewMap_perm s fs).map Prod.fst).mem_iff.mpr (List.mem_map_of_mem he)
        simp [hmem]
      obtain ⟨evs, hremove, hops⟩ :=
        exec_removeKeys h f.owner w es hc _ hkeys (fun _ hk => hk) true
      have hcall : (((fun _ => Answer.done) <$> clear h).exec (w, es)).2.1.owner = w.owner ∧
          queuedOps (((fun _ => Answer.done) <$> clear h).exec (w, es)).2.2 =
            queuedOps (es ++ evs) := by
        simp [clear, exec_map, exec_bind, exec_bound, hc, ho, hremove, exec_entries,
          exec_changed]
      refine queues_done ho (by simp) (by simp [hfault, ScoCall.argumentFault]) hcall.1 ?_
      have ht' := ht.removeKeys hd ((Plain.viewMap s fs).map Prod.fst) true
      rw [hall] at ht'
      rw [hcall.2, queuedOps_append, hops, if_pos hq, hp]
      simpa [PlainContainer.apply] using ht'
    · exact queues_unbound hr ho (hp ▸ ht) (by rw [hp]; rfl) rfl
        (by simp [clear, exec_bind, exec_bound, hc, ho])
  · exact scalar_unchanged (by simp [clear, exec_bind, exec_sequence, hc])

end Collections

/-! ## Lists -/

section Lists

variable {f : StoredField} {h : HostView} (hq : h.queued = true)
include hq

theorem queues_insertAt (i : Nat) (e : Value) :
    QueuesAlong f ((fun _ => .done) <$> insertAt h i e) (.insertAt i e) := by
  refine QueuesAlong.intro_list rfl (fun w es hw => ?_)
    (fun t₀ n₀ w p es xs hr ho hc hp ht => ?_)
  · simp [insertAt, exec_listItems_bind w es _ hw]
  · rcases ho with ho | ho
    · have hfault := fault_of_bound (.insertAt i e) hr ho (by rw [hp]; rfl)
      by_cases hi : xs.length < i
      · refine queues_refused (.indexOutOfBounds i xs.length) (Or.inl ho) (hp ▸ ht)
          (by simp [hfault, hp, ScoCall.argumentFault, hi]) ?_
        simp [insertAt, exec_bind, exec_listItems, exec_bound, hc, ho, hi]
      · by_cases hnull : e.isNull && !w.policy.allowNulls
        · refine queues_refused .nullElement (Or.inl ho) (hp ▸ ht)
            (by simp [hfault, hp, ScoCall.argumentFault, ScoCall.nullFault, hi, hnull]) ?_
          simp [insertAt, exec_bind, exec_listItems, exec_bound, exec_checkNullable, hc,
            ho, hi, hnull]
        · have hcall :
              (((fun _ => Answer.done) <$> insertAt h i e).exec (w, es)).2.1.owner = w.owner ∧
              queuedOps (((fun _ => Answer.done) <$> insertAt h i e).exec (w, es)).2.2 =
                queuedOps es ++ [Operation.add f.owner.object f.owner.field (.indexed i e)] := by
            simp only [insertAt, exec_map, exec_bind, exec_listItems, exec_bound, gt_iff_lt,
              exec_checkNullable, hc, ho, hi, hnull, Bool.false_eq_true, if_false, exec_ite, hq]
            split_ifs <;> simp [exec_changed, ho]
          refine queues_done ho (by simp)
            (by simp [hfault, hp, ScoCall.argumentFault, ScoCall.nullFault, hi, hnull]) hcall.1 ?_
          rw [hcall.2, hp]
          simpa [PlainContainer.apply] using ht.insertIdx (Nat.le_of_not_lt hi) e
    · exact queues_unbound hr ho (hp ▸ ht) (by rw [hp]; rfl) rfl
        (by simp [insertAt, exec_bind, exec_listItems, exec_bound, hc, ho])

/-- A replacement queues the removal of the element replaced and the insertion of the new
one at its position, which together replace it in the stored rows. -/
theorem queues_setAt (i : Nat) (e : Value) (ac : Bool) :
    QueuesAlong f (.value <$> setAt h i e ac) (.setAt i e ac) := by
  refine QueuesAlong.intro_list rfl (fun w es hw => ?_)
    (fun t₀ n₀ w p es xs hr ho hc hp ht => ?_)
  · simp [setAt, exec_listItems_bind w es _ hw]
  · rcases ho with ho | ho
    · have hfault := fault_of_bound (.setAt i e ac) hr ho (by rw [hp]; rfl)
      cases hget : xs[i]? with
      | none =>
        have hi : xs.length ≤ i := List.getElem?_eq_none_iff.mp hget
        refine queues_refused (.indexOutOfBounds i xs.length) (Or.inl ho) (hp ▸ ht)
          (by simp [hfault, hp, ScoCall.argumentFault, hi]) ?_
        simp [setAt, exec_bind, exec_listItems, exec_bound, hc, ho, hget]
      | some prev =>
        have hi : i < xs.length := (List.getElem?_eq_some_iff.mp hget).1
        by_cases hnull : e.isNull && !w.policy.allowNulls
        · refine queues_refused .nullElement (Or.inl ho) (hp ▸ ht)
            (by simp [hfault, hp, ScoCall.argumentFault, ScoCall.nullFault, hi, hnull]) ?_
          simp [setAt, exec_bind, exec_listItems, exec_bound, exec_checkNullable, hc,
            ho, hget, hnull]
        · have hcall : ((Answer.value <$> setAt h i e ac).exec (w, es)).2.1.owner = w.owner ∧
              queuedOps ((Answer.value <$> setAt h i e ac).exec (w, es)).2.2 =
                queuedOps es ++ [Operation.remove f.owner.object f.owner.field (.indexed i prev) ac] ++
                  [Operation.add f.owner.object f.owner.field (.indexed i e)] := by
            simp only [setAt, exec_map, exec_bind, exec_listItems, exec_bound, exec_checkNullable,
              hc, ho, hget, hnull, Bool.false_eq_true, if_false, exec_ite, hq]
            split_ifs <;> simp [exec_changed, ho]
          refine queues_done ho (by simp)
            (by simp [hfault, hp, ScoCall.argumentFault, ScoCall.nullFault, hi, hnull]) hcall.1 ?_
          have hle : i ≤ (xs.eraseIdx i).length := by rw [List.length_eraseIdx_of_lt hi]; omega
          have ht' := (ht.eraseIdx hi prev ac).insertIdx hle e
          rw [insertIdx_eraseIdx_eq_set hi] at ht'
          rw [hcall.2, hp]
          simpa [PlainContainer.apply] using ht'
    · exact queues_unbound hr ho (hp ▸ ht) (by rw [hp]; rfl) rfl
        (by simp [setAt, exec_bind, exec_listItems, exec_bound, hc, ho])

theorem queues_removeAt (i : Nat) :
    QueuesAlong f (.value <$> removeAt h i) (.removeAt i) := by
  refine QueuesAlong.intro_list rfl (fun w es hw => ?_)
    (fun t₀ n₀ w p es xs hr ho hc hp ht => ?_)
  · simp [removeAt, exec_listItems_bind w es _ hw]
  · rcases ho with ho | ho
    · have hfault := fault_of_bound (.removeAt i) hr ho (by rw [hp]; rfl)
      cases hget : xs[i]? with
      | none =>
        have hi : xs.length ≤ i := List.getElem?_eq_none_iff.mp hget
        refine queues_refused (.indexOutOfBounds i xs.length) (Or.inl ho) (hp ▸ ht)
          (by simp [hfault, hp, ScoCall.argumentFault, hi]) ?_
        simp [removeAt, exec_bind, exec_listItems, exec_bound, hc, ho, hget]
      | some removed =>
        have hi : i < xs.length := (List.getElem?_eq_some_iff.mp hget).1
        have hcall : ((Answer.value <$> removeAt h i).exec (w, es)).2.1.owner = w.owner ∧
            queuedOps ((Answer.value <$> removeAt h i).exec (w, es)).2.2 =
              queuedOps es ++ [Operation.remove f.owner.object f.owner.field (.indexed i removed) true] := by
          simp only [removeAt, exec_map, exec_bind, exec_listItems, exec_bound, hc, ho, hget,
            exec_ite]
          split_ifs <;> simp [exec_cascadeRemoval, exec_changed, ho, hq]
        refine queues_done ho (by simp) (by simp [hfault, hp, ScoCall.argumentFault, hi])
          hcall.1 ?_
        rw [hcall.2, hp]
        simpa [PlainContainer.apply] using ht.eraseIdx hi removed true
    · exact queues_unbound hr ho (hp ▸ ht) (by rw [hp]; rfl) rfl
        (by simp [removeAt, exec_bind, exec_listItems, exec_bound, hc, ho])

end Lists

theorem queues_get {f : StoredField} (i : Nat) : QueuesAlong f (.found <$> get i) (.get i) := by
  refine QueuesAlong.intro_list rfl (fun w es hw => ?_)
    (fun t₀ n₀ w p es xs hr ho hc hp ht => ?_)
  · simp only [WrapperCall.get, exec_map, exec_listItems_bind w es _ hw]
  · refine queues_unchanged ho (hp ▸ ht) ?_ ?_
    · simp [WrapperCall.get, exec_map, exec_listItems, hc]
    · have hfault : p.fault (.get i) = none := by rw [PlainState.fault, hp]; rfl
      simp [PlainState.perform, hfault, hp, PlainContainer.apply]

/-! ## Maps -/

section Maps

variable {f : StoredField} {h : HostView} (hq : h.queued = true)
include hq

theorem queues_put (k v : Value) : QueuesAlong f (.found <$> put h k v) (.put k v) := by
  refine QueuesAlong.intro (fun t₀ n₀ w p es _ _ _ ho hc hp ht => ?_)
    (fun t₀ n₀ w p es s fs hr ho hd hc hp ht => ?_) (fun w es u hc => ?_)
  · exact queues_misfit ho (hp ▸ ht) (by rw [hp]; rfl)
      (by simp [put, exec_bind, exec_discard, exec_entries, hc])
  · rcases ho with ho | ho
    · have hfault := fault_of_bound (.put k v) hr ho (by rw [hp]; rfl)
      cases hv : ScoCall.entryFault w.policy.allowNulls k v with
      | some flt =>
        refine queues_refused flt (Or.inl ho) (hp ▸ ht)
          (by simp [hfault, ScoCall.argumentFault, hv]) ?_
        simp only [put, exec_map, exec_bind, exec_discard, exec_entries, exec_bound, hc, ho,
          exec_validate_fault, hv]
        simp
      | none =>
        obtain ⟨evs, hexec, hops⟩ := exec_putEntry h f.owner w es hc k v
        rw [Plain.put_viewMap s hd] at hexec hops
        have hcall : ((Answer.found <$> put h k v).exec (w, es)).2.1.owner = w.owner ∧
            queuedOps ((Answer.found <$> put h k v).exec (w, es)).2.2 = queuedOps (es ++ evs) := by
          simp only [put, exec_map, exec_bind, exec_discard, exec_entries, exec_bound, hc, ho,
            exec_validate_fault, hv, Option.map_none, Option.elim, hexec, exec_ite]
          split_ifs <;> simp [exec_changed]
        refine queues_done ho (by simp) (by simp [hfault, ScoCall.argumentFault, hv]) hcall.1 ?_
        rw [hcall.2, queuedOps_append, hops, hp]
        simpa [PlainContainer.apply, hq] using ht.put hd k v
    · exact queues_unbound hr ho (hp ▸ ht) (by rw [hp]; rfl) rfl
        (by simp [put, exec_bind, exec_discard, exec_entries, exec_bound, hc, ho])
  · exact scalar_unchanged (by simp [put, exec_bind, exec_discard, exec_entries, hc])

theorem queues_putAll (kvs : List (Value × Value)) :
    QueuesAlong f (.flag <$> putAll h kvs) (.putAll kvs) := by
  refine QueuesAlong.intro (fun t₀ n₀ w p es _ _ _ ho hc hp ht => ?_)
    (fun t₀ n₀ w p es s fs hr ho hd hc hp ht => ?_) (fun w es u hc => ?_)
  · exact queues_misfit ho (hp ▸ ht) (by rw [hp]; rfl)
      (by simp [putAll, exec_bind, exec_discard, exec_entries, hc])
  · rcases ho with ho | ho
    · have hfault := fault_of_bound (.putAll kvs) hr ho (by rw [hp]; rfl)
      cases hv : kvs.findSome? fun kv => ScoCall.entryFault w.policy.allowNulls kv.1 kv.2 with
      | some flt =>
        -- the first invalid entry refuses the whole batch
        refine queues_refused flt (Or.inl ho) (hp ▸ ht)
          (by simp [hfault, ScoCall.argumentFault, hv]) ?_
        simp only [putAll, exec_map, exec_bind, exec_discard, exec_entries, exec_bound, hc, ho,
          exec_validateAll, hv]
        simp
      | none =>
        obtain ⟨⟨w', es'⟩, hloop, hst, -, ht'⟩ :=
          exec_foldlM_false (follows_putRound_tracks hq w s) kvs (w, es) fs
            ⟨(Wrapper.with_content_self hc).symm, hd, ht⟩
        simp only at hst ht'
        subst hst
        have hcall : ((Answer.flag <$> putAll h kvs).exec (w, es)).2.1.owner = w.owner ∧
            queuedOps ((Answer.flag <$> putAll h kvs).exec (w, es)).2.2 = queuedOps es' := by
          simp only [putAll, exec_map, exec_bind, exec_discard, exec_entries, exec_bound, hc, ho,
            exec_validateAll, hv, Option.map_none, Option.elim, hloop, exec_ite]
          split_ifs <;> simp [exec_changed]
        refine queues_done ho (by simp) (by simp [hfault, ScoCall.argumentFault, hv]) hcall.1 ?_
        rw [hcall.2, hp]
        simpa [PlainContainer.apply] using ht'
    · exact queues_unbound hr ho (hp ▸ ht) (by rw [hp]; rfl) rfl
        (by simp [putAll, exec_bind, exec_discard, exec_entries, exec_bound, hc, ho])
  · exact scalar_unchanged (by simp [putAll, exec_bind, exec_discard, exec_entries, hc])

theorem queues_removeKey (k : Value) :
    QueuesAlong f (.found <$> removeKey h k) (.removeKey k) := by
  refine QueuesAlong.intro (fun t₀ n₀ w p es _ _ _ ho hc hp ht => ?_)
    (fun t₀ n₀ w p es s fs hr ho hd hc hp ht => ?_) (fun w es u hc => ?_)
  · exact queues_misfit ho (hp ▸ ht) (by rw [hp]; rfl)
      (by simp [removeKey, exec_bind, exec_discard, exec_entries, hc])
  · rcases ho with ho | ho
    · have hfault := fault_of_bound (.removeKey k) hr ho (by rw [hp]; rfl)
      obtain ⟨evs, hexec, hops⟩ := exec_removeEntry h f.owner w es hc k true
      rw [Plain.take_viewMap s hd] at hexec hops
      have hcall : ((Answer.found <$> removeKey h k).exec (w, es)).2.1.owner = w.owner ∧
          queuedOps ((Answer.found <$> removeKey h k).exec (w, es)).2.2 = queuedOps (es ++ evs) := by
        simp only [removeKey, exec_map, exec_bind, exec_discard, exec_entries, exec_bound, hc, ho,
          hexec, exec_ite]
        split_ifs <;> simp [exec_changed]
      refine queues_done ho (by simp) (by simp [hfault, ScoCall.argumentFault]) hcall.1 ?_
      rw [hcall.2, queuedOps_append, hops, hp]
      simpa [PlainContainer.apply, hq] using ht.take hd k true
    · exact queues_unbound hr ho (hp ▸ ht) (by rw [hp]; rfl) rfl
        (by simp [removeKey, exec_bind, exec_discard, exec_entries, exec_bound, hc, ho])
  · exact scalar_unchanged (by simp [removeKey, exec_bind, exec_discard, exec_entries, hc])

/-- Keeping some keys queues the removal of each key read that is not kept, which leaves the
stored entries under the kept keys. -/
theorem queues_retainKeys (keep : List Value) :
    QueuesAlong f (.flag <$> retainKeys h keep) (.retainKeys keep) := by
  refine QueuesAlong.intro (fun t₀ n₀ w p es _ _ _ ho hc hp ht => ?_)
    (fun t₀ n₀ w p es s fs hr ho hd hc hp ht => ?_) (fun w es u hc => ?_)
  · exact queues_misfit ho (hp ▸ ht) (by rw [hp]; rfl)
      (by simp [retainKeys, exec_bind, exec_entries, hc])
  · rcases ho with ho | ho
    · have hfault := fault_of_bound (.retainKeys keep) hr ho (by rw [hp]; rfl)
      have hkeys : ((Plain.viewMap s fs).map Prod.fst).Nodup :=
        ((Plain.viewMap_perm s fs).map Prod.fst).nodup_iff.mpr hd
      obtain ⟨evs, hremove, hops⟩ := exec_removeKeys h f.owner w es hc
        (((Plain.viewMap s fs).map Prod.fst).filter fun k => !keep.contains k) (hkeys.filter _)
        (fun _ hk => (List.mem_filter.mp hk).1) true
      -- every stored key is read, so the entries not taken are those under kept keys
      have hkept : (fs.filter fun e =>
            !(((Plain.viewMap s fs).map Prod.fst).filter fun k => !keep.contains k).contains e.1) =
          fs.filter fun e => keep.contains e.1 := by
        apply List.filter_congr
        intro e he
        have hkey : e.1 ∈ (Plain.viewMap s fs).map Prod.fst :=
          ((Plain.viewMap_perm s fs).map Prod.fst).mem_iff.mpr (List.mem_map_of_mem he)
        simp only [List.contains_eq_mem, List.mem_filter, hkey, true_and]
        cases decide (e.1 ∈ keep) <;> rfl
      have hcall : ((Answer.flag <$> retainKeys h keep).exec (w, es)).2.1.owner = w.owner ∧
          queuedOps ((Answer.flag <$> retainKeys h keep).exec (w, es)).2.2 =
            queuedOps (es ++ evs) := by
        simp only [retainKeys, exec_map, exec_bind, exec_entries, exec_bound, hc, ho, hremove,
          exec_ite]
        split_ifs <;> simp [exec_changed]
      refine queues_done ho (by simp) (by simp [hfault, ScoCall.argumentFault]) hcall.1 ?_
      have ht' := ht.removeKeys hd
        (((Plain.viewMap s fs).map Prod.fst).filter fun k => !keep.contains k) true
      rw [hkept] at ht'
      rw [hcall.2, queuedOps_append, hops, if_pos hq, hp]
      simpa [PlainContainer.apply] using ht'
    · exact queues_unbound hr ho (hp ▸ ht) (by rw [hp]; rfl) rfl
        (by simp [retainKeys, exec_bind, exec_entries, exec_bound, hc, ho])
  · exact scalar_unchanged (by simp [retainKeys, exec_bind, exec_entries, hc])

end Maps

/-! ## Scalars, the binding, and every call -/

theorem queues_setScalar {f : StoredField} {h : HostView} (v : Value) :
    QueuesAlong f (.value <$> setScalar h v) (.setScalar v) := by
  refine QueuesAlong.intro (fun t₀ n₀ w p es _ _ _ ho hc hp ht => ?_)
    (fun t₀ n₀ w p es _ _ _ ho _ hc hp ht => ?_) (fun w es u hc => ?_)
  · exact queues_misfit ho (hp ▸ ht) (by rw [hp]; rfl) (by simp [setScalar, exec_bind, hc])
  · exact queues_misfit ho (hp ▸ ht) (by rw [hp]; rfl) (by simp [setScalar, exec_bind, hc])
  · rcases Option.eq_none_or_eq_some w.owner with ho | ⟨o, ho⟩
    · exact scalar_unchanged (by simp [setScalar, exec_bind, exec_bound, hc, ho])
    · by_cases hnull : v.isNull && !w.policy.allowNulls
      · exact scalar_unchanged
          (by simp [setScalar, exec_bind, exec_bound, exec_checkNullable, hc, ho, hnull])
      · by_cases hvu : v = u
        · subst hvu
          exact scalar_unchanged
            (by simp [setScalar, exec_map, exec_bind, exec_bound, exec_checkNullable, hc, ho, hnull])
        · refine ⟨{ w with content := .scalar v },
            .makeDirty o :: if !h.transactionActive then [.nontransactional o] else [], ?_,
            Or.inl rfl⟩
          simp [setScalar, exec_map, exec_bind, exec_bound, exec_checkNullable, exec_changed, hc,
            ho, hnull, hvu]

theorem queues_unsetOwner {f : StoredField} (h : HostView) :
    QueuesAlong f (ScoCall.unsetOwner.onWrapper h) .unsetOwner := by
  intro t₀ n₀ w p es _ _ ht
  have hperform : (p.perform .unsetOwner).1.container = p.container := by
    rcases p with ⟨con, bound, allowNulls⟩
    cases con <;> rfl
  simp only [QueuesAt, ScoCall.onWrapper, exec_bind, exec_modify, exec_pure, hperform]
  exact ⟨Or.inr rfl, ht⟩

/-- Every call of a wrapper whose owner queues its changes queues operations that take the
stored rows along with the plain container. -/
theorem onWrapper_queues {f : StoredField} (c : ScoCall) {h : HostView} (hq : h.queued = true) :
    QueuesAlong f (c.onWrapper h) c := by
  cases c with
  | add e => exact queues_add hq e
  | addAll es => exact queues_addAll hq es
  | remove e ac => exact queues_remove hq e ac
  | removeAll es => exact queues_removeAll hq es
  | retainAll keep => exact queues_retainAll hq keep
  | clear => exact queues_clear hq
  | insertAt i e => exact queues_insertAt hq i e
  | setAt i e ac => exact queues_setAt hq i e ac
  | removeAt i => exact queues_removeAt hq i
  | get i => exact queues_get i
  | put k v => exact queues_put hq k v
  | putAll kvs => exact queues_putAll hq kvs
  | removeKey k => exact queues_removeKey hq k
  | retainKeys keep => exact queues_retainKeys hq keep
  | setScalar v => exact queues_setScalar v
  | unsetOwner => exact queues_unsetOwner h

end ObjectPersistence
