import Mathlib
import ObjectPersistence.Proofs.QueuedCalls

/-! # Queued changes replayed on the datastore

A wrapper whose owner queues changes turns each change of its content into operations on
the stored rows of its field. Applied in order to the stored field, the queued operations
keep its rows at the positions `0, 1, ...` after each of them, and leave rows that load as
the wrapper's content: the same data for a list, a set and a map, the same elements or
entries in some order for the sorted shapes, which the datastore keeps in the order they
came.

The changes are the calls of `QueuedCalls` and bringing the wrapper in line with a detached
copy. `KeptAt` is the invariant of a wrapper and its requests: bound only to the field, it
stands for a plain state whose container the queued operations store. Each change keeps it
(`KeepsStored`); a run of changes, each started with no requests as the owner runs them,
then replays by induction on the changes, each change's queue replayed from the rows the
ones before it left. -/

namespace ObjectPersistence

open Datastore WrapperCall

theorem exec_map_snd {α β : Type} (g : α → β) (x : WrapperCall α) (s : Wrapper × List HostEvent) :
    ((g <$> x).exec s).2 = (x.exec s).2 := by
  rw [exec_map]
  rcases x.exec s with ⟨_ | _, _⟩ <;> rfl

/-! ## Changes that keep the rows in step -/

/-- A wrapper and its requests so far: bound only to the field, the wrapper stands for a plain
state whose container the requests' queue stores. -/
def KeptAt (f : StoredField) (t₀ : Tables) (n₀ : Nat) (st : Wrapper × List HostEvent) : Prop :=
  ∃ p, Represents st.1 p ∧ st.1.BoundOnlyTo f.owner ∧ Tracks f t₀ n₀ (queuedOps st.2) p.container

def KeepsStored (f : StoredField) (c : WrapperCall Answer) : Prop :=
  ∀ t₀ n₀ st, KeptAt f t₀ n₀ st → KeptAt f t₀ n₀ (c.exec st).2

theorem keepsStored_onWrapper {f : StoredField} (c : ScoCall) {h : HostView}
    (hq : h.queued = true) : KeepsStored f (c.onWrapper h) := by
  rintro t₀ n₀ ⟨w, es⟩ ⟨p, hr, ho, ht⟩
  obtain ⟨ho', ht'⟩ := onWrapper_queues c hq t₀ n₀ w p es hr ho ht
  exact ⟨_, (onWrapper_refines c h w p es hr).2, ho', ht'⟩

/-! ## Bringing a wrapper in line with a detached copy -/

section Attach

variable {f : StoredField} {t₀ : Tables} {n₀ : Nat} {h : HostView} (hq : h.queued = true)
include hq

theorem follows_dropRound_tracks (w₀ : Wrapper) (s : Bool) :
    Follows (fun st fs => st.1 = { w₀ with content := .map s (Plain.viewMap s fs) } ∧
        Container.KeysNodup fs ∧ Tracks f t₀ n₀ (queuedOps st.2) (.map s fs))
      (dropRound h f.owner)
      fun fs k => ((Container.take fs k).1, (Container.take fs k).2.isSome) := by
  rintro any k ⟨w, es⟩ fs ⟨hw, hd, ht⟩
  simp only at hw ht
  subst hw
  obtain ⟨evs, hexec, hops⟩ :=
    exec_removeEntry h f.owner { w₀ with content := .map s (Plain.viewMap s fs) } es rfl k false
  rw [Plain.take_viewMap s hd] at hexec hops
  have hround : (dropRound h f.owner any k).exec
      ({ w₀ with content := .map s (Plain.viewMap s fs) }, es) =
        (.ok (any || (Container.take fs k).2.isSome),
          ({ w₀ with content := .map s (Plain.viewMap s (Container.take fs k).1) }, es ++ evs)) := by
    simp [dropRound, exec_map, hexec]
  refine ⟨_, hround, rfl, Container.keysNodup_filter hd _, ?_⟩
  simpa only [queuedOps_append, hops, hq, Bool.true_and] using ht.take hd k false

/-- Rounds that bring entries in line put those whose value differs, which is what a put
changes anyway: they follow the rounds of a batch put. -/
theorem follows_attachRound_tracks (w₀ : Wrapper) (s : Bool) :
    Follows (fun st fs => st.1 = { w₀ with content := .map s (Plain.viewMap s fs) } ∧
        Container.KeysNodup fs ∧ Tracks f t₀ n₀ (queuedOps st.2) (.map s fs))
      (attachRound h f.owner) Plain.putChanged := by
  rintro any kv ⟨w, es⟩ fs ⟨hw, hd, ht⟩
  simp only at hw ht
  subst hw
  by_cases hsame : Container.lookup fs kv.1 = some kv.2
  · -- the entry is there already, and a put would report no change
    have hput : Plain.putChanged fs kv = (fs, false) := by
      have hpair : (Container.put false fs kv.1 kv.2).2 = some kv.2 := by
        simp [Container.put, hsame]
      simp only [Plain.putChanged, Container.put_of_unchanged hd hpair, hpair, bne_self_eq_false]
    have hround : (attachRound h f.owner any kv).exec
        ({ w₀ with content := .map s (Plain.viewMap s fs) }, es) =
          (.ok any, ({ w₀ with content := .map s (Plain.viewMap s fs) }, es)) := by
      simp [attachRound, exec_bind, exec_entries, Plain.lookup_viewMap s hd, hsame]
    simp only [hput, Bool.or_false]
    exact ⟨_, hround, rfl, hd, ht⟩
  · obtain ⟨evs, hexec, hops⟩ :=
      exec_putEntry h f.owner { w₀ with content := .map s (Plain.viewMap s fs) } es rfl kv.1 kv.2
    rw [Plain.put_viewMap s hd] at hexec hops
    have hround : (attachRound h f.owner any kv).exec
        ({ w₀ with content := .map s (Plain.viewMap s fs) }, es) =
          (.ok (any || (Plain.putChanged fs kv).2),
            ({ w₀ with content := .map s (Plain.viewMap s (Plain.putChanged fs kv).1) },
              es ++ evs)) := by
      simp [attachRound, exec_bind, exec_map, exec_entries, Plain.lookup_viewMap s hd, hsame, hexec,
        Plain.putChanged]
    refine ⟨_, hround, rfl, Container.keysNodup_put hd kv.1 kv.2, ?_⟩
    · simpa only [queuedOps_append, hops, hq, Bool.true_and, Plain.putChanged]
        using ht.put hd kv.1 kv.2

variable {w : Wrapper} {p : PlainState} {es : List HostEvent}

/-- Attaching elements removes, without cascading, those read that the copy lacks, and adds
the copy's elements not read, as `addAll` does. -/
theorem attachCollection_kept {k : CollectionKind} {xs : List Value} (hr : Represents w p)
    (ho : w.owner = some f.owner) (hc : w.content = .collection k (k.view xs))
    (ht : Tracks f t₀ n₀ (queuedOps es) (.collection k xs)) (items : List Value) :
    KeptAt f t₀ n₀ ((attachCollection h items).exec (w, es)).2 := by
  obtain ⟨⟨w₁, es₁⟩, hloop, hst, ht₁⟩ :=
    exec_foldlM_false (follows_removeRound_tracks hq w k false)
      ((k.view xs).filter fun x => !items.contains x) (w, es) xs
      ⟨(Wrapper.with_content_self hc).symm, ht⟩
  simp only at hst ht₁
  -- the wrapper after the removals, with the field marked dirty when any left
  have hcall : ∃ es₂, queuedOps es₂ = queuedOps es₁ ∧
      ((attachCollection h items).exec (w, es)).2 =
        if (items.filter fun x => !(k.view xs).contains x).isEmpty then (w₁, es₂)
        else ((addAll h (items.filter fun x => !(k.view xs).contains x)).exec (w₁, es₂)).2 := by
    simp only [attachCollection, exec_bind, exec_sequence, exec_bound, hc, ho, removeEach, hloop,
      bind_pure_comp, exec_ite, exec_changed]
    split_ifs <;> simp [exec_map_snd] <;> exact ⟨_, by simp, rfl⟩
  obtain ⟨es₂, hops₂, hexec⟩ := hcall
  have hkept : KeptAt f t₀ n₀ (w₁, es₂) := by
    refine ⟨{ p with container := .collection k _ }, ?_, ?_, by rw [hops₂]; exact ht₁⟩
    · rw [hst]
      exact ⟨hr.bound, hr.allowNulls, .collection k _⟩
    · rw [hst]
      exact Or.inl ho
  rw [hexec]
  split
  · exact hkept
  · rw [← exec_map_snd Answer.flag]
    exact keepsStored_onWrapper (.addAll _) hq t₀ n₀ _ hkept

/-- Attaching entries takes out, without cascading, the keys read that the copy lacks, and
puts the copy's entries whose value differs. -/
theorem attachMap_kept {s : Bool} {fs : List (Value × Value)} (hr : Represents w p)
    (ho : w.owner = some f.owner) (hd : Container.KeysNodup fs)
    (hc : w.content = .map s (Plain.viewMap s fs)) (hp : p.container = .map s fs)
    (ht : Tracks f t₀ n₀ (queuedOps es) (.map s fs)) (entries : List (Value × Value)) :
    KeptAt f t₀ n₀ ((attachMap h entries).exec (w, es)).2 := by
  cases hv : entries.findSome? fun kv => ScoCall.entryFault w.policy.allowNulls kv.1 kv.2 with
  | some flt =>
    -- an invalid entry refuses the copy before anything changes
    have hexec : ((attachMap h entries).exec (w, es)).2 = (w, es) := by
      simp only [attachMap, exec_bind, exec_entries, exec_bound, exec_validateAll, hc, ho, hv]
      simp
    rw [hexec]
    exact ⟨p, hr, Or.inl ho, by rw [hp]; exact ht⟩
  | none =>
    obtain ⟨⟨w₁, es₁⟩, hdrop, hst₁, hd₁, ht₁⟩ :=
      exec_foldlM_false (follows_dropRound_tracks hq w s)
        (((Plain.viewMap s fs).map (·.1)).filter fun k => !entries.any (·.1 == k)) (w, es) fs
        ⟨(Wrapper.with_content_self hc).symm, hd, ht⟩
    simp only at hst₁ ht₁
    subst hst₁
    obtain ⟨⟨w₂, es₂⟩, hput, hst₂, hd₂, ht₂⟩ :=
      exec_foldlM (follows_attachRound_tracks hq w s) entries
        (foldSteps (fun fs k => ((Container.take fs k).1, (Container.take fs k).2.isSome)) fs
          (((Plain.viewMap s fs).map (·.1)).filter fun k => !entries.any (·.1 == k))).2
        (_, es₁) _ ⟨rfl, hd₁, ht₁⟩
    simp only at hst₂ ht₂
    simp only [ho] at hput
    have hcall : ∃ es₃, queuedOps es₃ = queuedOps es₂ ∧
        ((attachMap h entries).exec (w, es)).2 = (w₂, es₃) := by
      simp only [attachMap, exec_bind, exec_entries, exec_bound, exec_validateAll, hc, ho, hv,
        Option.map_none, Option.elim, hdrop, hput, exec_ite, exec_changed, exec_pure]
      split_ifs <;> simp
    obtain ⟨es₃, hops₃, hexec⟩ := hcall
    rw [hexec]
    refine ⟨{ p with container := .map s _ }, ?_, ?_, by rw [hops₃]; exact ht₂⟩
    · dsimp only
      rw [hst₂]
      exact ⟨hr.bound, hr.allowNulls, .map s hd₂⟩
    · dsimp only
      rw [hst₂]
      exact Or.inl ho

/-- Attaching a copy keeps the rows in step: a copy of another shape, or a wrapper no longer
bound, changes nothing, and a scalar copy sets the scalar. -/
theorem keepsStored_attach (d : FieldData) : KeepsStored f (.flag <$> attach h d) := by
  rintro t₀ n₀ ⟨w, es⟩ ⟨p, hr, ho, ht⟩
  dsimp only at hr ho ht
  rw [exec_map_snd]
  have hkept : KeptAt f t₀ n₀ (w, es) := ⟨p, hr, ho, ht⟩
  have hh := hr.holds
  generalize hc : w.content = content at hh
  generalize hp : p.container = container at hh ht
  cases hh with
  | collection k xs =>
    cases d with
    | collection items =>
      rcases ho with ho | ho
      · have hexec : ((attach h (.collection items)).exec (w, es)).2 =
            ((attachCollection h items).exec (w, es)).2 := by
          simp [attach, exec_bind, hc]
        rw [hexec]
        exact attachCollection_kept hq hr ho hc ht items
      · have hexec : ((attach h (.collection items)).exec (w, es)).2 = (w, es) := by
          simp [attach, attachCollection, exec_bind, exec_sequence, exec_bound, hc, ho]
        rw [hexec]
        exact hkept
    | scalar v | map kvs =>
      simpa [attach, exec_bind, hc] using hkept
  | map s hd =>
    cases d with
    | map entries =>
      rcases ho with ho | ho
      · have hexec : ((attach h (.map entries)).exec (w, es)).2 =
            ((attachMap h entries).exec (w, es)).2 := by
          simp [attach, exec_bind, hc]
        rw [hexec]
        exact attachMap_kept hq hr ho hd hc hp ht entries
      · have hexec : ((attach h (.map entries)).exec (w, es)).2 = (w, es) := by
          simp [attach, attachMap, exec_bind, exec_entries, exec_bound, hc, ho]
        rw [hexec]
        exact hkept
    | scalar v | collection items =>
      simpa [attach, exec_bind, hc] using hkept
  | scalar u =>
    cases d with
    | scalar v =>
      by_cases hvu : v = u
      · have hexec : ((attach h (.scalar v)).exec (w, es)).2 = (w, es) := by
          simp [attach, exec_bind, hc, hvu]
        rw [hexec]
        exact hkept
      · -- a new value is set as `setScalar` sets it
        have hexec : ((attach h (.scalar v)).exec (w, es)).2 =
            (((ScoCall.setScalar v).onWrapper h).exec (w, es)).2 := by
          simp [attach, ScoCall.onWrapper, exec_bind, exec_discard, exec_map_snd, hc, hvu]
          rcases (setScalar h v).exec (w, es) with ⟨_ | _, _⟩ <;> rfl
        rw [hexec]
        exact keepsStored_onWrapper (.setScalar v) hq t₀ n₀ _ hkept
    | collection items | map kvs =>
      simpa [attach, exec_bind, hc] using hkept

end Attach

/-! ## Runs of changes -/

/-- A change made to a field's wrapper: a call, or bringing it in line with a detached copy. -/
inductive FieldChange where
  | call (c : ScoCall)
  | attach (d : FieldData)
  deriving DecidableEq, Repr

def FieldChange.onWrapper : FieldChange → HostView → WrapperCall Answer
  | .call c, h => c.onWrapper h
  | .attach d, h => .flag <$> WrapperCall.attach h d

/-- Changes made in turn to a wrapper, each run from no requests with the owner's answers for
it: the wrapper after them, and the operations they queue in the order the owner takes them
in. -/
def Wrapper.queueChanges (w : Wrapper) : List (HostView × FieldChange) → Wrapper × List Operation
  | [] => (w, [])
  | (h, ch) :: chs =>
    let r := (ch.onWrapper h).run w
    let t := Wrapper.queueChanges r.1 chs
    (t.1, queuedOps r.2.1 ++ t.2)

theorem FieldChange.keepsStored {f : StoredField} (ch : FieldChange) {h : HostView}
    (hq : h.queued = true) : KeepsStored f (ch.onWrapper h) := by
  cases ch with
  | call c => exact keepsStored_onWrapper c hq
  | attach d => exact keepsStored_attach hq d

/-- Queued changes from a wrapper standing for the stored container replay: the queue applied
to the stored rows keeps them contiguous and leaves rows that store what the wrapper after
the changes stands for. The induction is on the changes; each change's queue is replayed
from the rows the ones before it left. -/
theorem queueChanges_replays {f : StoredField} :
    ∀ (changes : List (HostView × FieldChange)), (∀ c ∈ changes, c.1.queued = true) →
    ∀ (w : Wrapper) (p : PlainState) (t₀ : Tables) (n₀ : Nat), Represents w p →
      w.BoundOnlyTo f.owner → Stored f t₀ p.container → p.container.size ≤ n₀ →
      n₀ + (w.queueChanges changes).2.length ≤ Nat.pow 2 63 →
      ∃ t p', Replays f t₀ (w.queueChanges changes).2 t ∧ Stored f t p'.container ∧
        Represents (w.queueChanges changes).1 p'
  | [], _, w, p, t₀, n₀, hr, _, hs, hn, hb => by
    obtain ⟨t, hrep, hs', -⟩ := Tracks.nil hs hn (by simpa [Wrapper.queueChanges] using hb)
    exact ⟨t, p, hrep, hs', hr⟩
  | (h, ch) :: chs, hq, w, p, t₀, n₀, hr, ho, hs, hn, hb => by
    have hq₀ : h.queued = true := hq (h, ch) List.mem_cons_self
    -- the change runs from no requests; its queue replays from the stored rows
    obtain ⟨p₁, hr₁, ho₁, ht₁⟩ :=
      ch.keepsStored hq₀ t₀ n₀ (w, []) ⟨p, hr, ho, Tracks.nil hs hn⟩
    simp only [Wrapper.queueChanges, run_eq_exec, List.length_append] at hb ⊢
    obtain ⟨t₁, hrep₁, hs₁, hn₁⟩ := ht₁ (by omega)
    obtain ⟨t, p', hrep, hs', hr'⟩ :=
      queueChanges_replays chs (fun c hc => hq c (List.mem_cons_of_mem _ hc)) _ p₁ t₁ _ hr₁ ho₁
        hs₁ hn₁ (by omega)
    exact ⟨t, p', hrep₁.append hrep, hs', hr'⟩

/-! ## Reading the field back -/

def ContainerShape.sorted : ContainerShape → Bool
  | .orderedList | .sortedSet | .sortedMap => true
  | _ => false

/-- Two readings of a field of a shape hold the same content: the same data, or, for a shape
read in value order, the same items in some order. -/
def ContainerShape.SameContent (shape : ContainerShape) : FieldData → FieldData → Prop
  | .collection xs, .collection ys => if shape.sorted then xs.Perm ys else xs = ys
  | .map es, .map fs => if shape.sorted then es.Perm fs else es = fs
  | a, b => a = b

instance (shape : ContainerShape) (a b : FieldData) : Decidable (shape.SameContent a b) := by
  unfold ContainerShape.SameContent
  split <;> infer_instance

/-- The rows of a plain container read as its content: in the order its items came, which
is the order it is read in unless its shape sorts them. -/
theorem PlainContainer.sameContent_rowData (pc : PlainContainer) :
    pc.shape.SameContent pc.rowData pc.content := by
  rcases pc with ⟨k, xs⟩ | ⟨s, es⟩ | v
  · have hsorted : (PlainContainer.collection k xs).shape.sorted = k.sorted := by cases k <;> rfl
    simp only [ContainerShape.SameContent, PlainContainer.rowData, PlainContainer.content, hsorted]
    cases hk : k.sorted
    · simp [CollectionKind.view, hk]
    · simpa [CollectionKind.view, hk] using (k.view_perm xs).symm
  · cases s
    · rfl
    · simpa [ContainerShape.SameContent, PlainContainer.rowData, PlainContainer.content,
        PlainContainer.shape, ContainerShape.sorted, Plain.viewMap]
        using (Plain.viewMap_perm true es).symm
  · rfl

/-! ## The stored field at the start -/

theorem entriesOf_items {field : Nat} {rows : List ElementRow} {w w' : Work}
    {es : List (Value × Value)} (h : (Access.entriesOf field rows).exec w = (.ok es, w')) :
    rows.map ElementRow.item = es.map fun e => (e.2, some e.1) := by
  induction rows generalizing es w with
  | nil =>
    have h' : (Except.ok [] : Except StorageError (List (Value × Value))) = .ok es :=
      congrArg Prod.fst h
    cases h'
    rfl
  | cons r rows ih =>
    unfold Access.entriesOf at h ih
    rw [List.mapM_cons, Access.exec_bind] at h
    cases hk : r.key with
    | none => simp [hk] at h
    | some k =>
      simp only [hk, Access.exec_pure, Access.exec_bind] at h
      split at h
      · next rest w'' hrest =>
        simp only [Prod.mk.injEq, Except.ok.injEq] at h
        obtain ⟨rfl, rfl⟩ := h
        simp [ElementRow.item, hk, ih hrest]
      · simp at h

theorem load_reads_rows {f : StoredField} {w : Work} {d : FieldData}
    (hload : ((Access.load f.owner.object f.cls [f.owner.field]).exec w).1 =
      .ok [(f.owner.field, d)]) :
    (w.tables.header? f.owner.object).isSome ∧
      (f.shape.isCollection →
        d = .collection ((w.tables.rowsOf f.owner.object f.owner.field).map (·.element))) ∧
      (f.shape.isMap → ∃ es, d = .map es ∧
        (w.tables.rowsOf f.owner.object f.owner.field).map ElementRow.item =
          es.map fun e => (e.2, some e.1)) := by
  -- loading fails at once when the owner is not stored
  have hh : (w.tables.header? f.owner.object).isSome := by
    cases hhd : w.tables.header? f.owner.object with
    | none => simp [Access.load, Access.header?, Access.exec_bind, hhd] at hload
    | some r => rfl
  have hnone : ((w.tables.header? f.owner.object).map
      fun r => (⟨r.id, r.cls, r.version⟩ : ObjectHeader)).isNone = false := by
    simpa using hh
  simp only [Access.load, Access.header?, Access.exec_bind, Access.exec_read, hnone,
    Bool.false_eq_true, if_false, List.mapM_cons, List.mapM_nil, Access.exec_member f.member_eq,
    FieldMeta.isMap, FieldMeta.isCollection, f.container_eq, Option.any_some] at hload
  refine ⟨hh, fun hc => ?_, fun hm => ?_⟩
  · have hm : f.shape.isMap = false := by revert hc; cases f.shape <;> decide
    simp [hm, hc, Access.exec_map] at hload
    exact hload.symm
  · simp only [hm, if_true, Access.exec_bind, Access.exec_read] at hload
    split at hload
    · next r w'' hr =>
      split at hr
      · next es w₃ hes =>
        simp only [Access.exec_pure, Prod.mk.injEq, Except.ok.injEq] at hr hload
        obtain ⟨rfl, -⟩ := hr
        simp only [List.cons.injEq, Prod.mk.injEq, true_and, and_true] at hload
        exact ⟨es, hload.symm, entriesOf_items hes⟩
      · simp at hr
    · simp at hload

theorem foldSteps_insert_sublist (k : CollectionKind) :
    ∀ (acc items : List Value), ((foldSteps (Plain.insert k) acc items).1).Sublist (acc ++ items)
  | acc, [] => by simp
  | acc, x :: items => by
    rw [foldSteps_cons]
    refine (foldSteps_insert_sublist k _ items).trans ?_
    unfold Plain.insert
    split
    · exact (List.sublist_cons_self x items).append_left acc
    · simp

theorem foldSteps_putChanged_fresh :
    ∀ (acc es : List (Value × Value)), ((acc ++ es).map Prod.fst).Nodup →
      (foldSteps Plain.putChanged acc es).1 = acc ++ es
  | acc, [], _ => by simp
  | acc, e :: es, hd => by
    have hnew : Container.lookup acc e.1 = none := by
      rw [Container.lookup_eq_none_iff]
      rw [List.map_append, List.map_cons] at hd
      exact fun h => (List.nodup_append.mp hd).2.2 _ h _ List.mem_cons_self rfl
    have hput : (Plain.putChanged acc e).1 = acc ++ [e] := by
      simp [Plain.putChanged, Container.put, hnew]
    rw [foldSteps_cons, hput, foldSteps_putChanged_fresh (acc ++ [e]) es (by simpa using hd),
      List.append_assoc, List.singleton_append]

theorem ContainerShape.SameContent.perm_collection {shape : ContainerShape} {xs ys : List Value}
    (h : shape.SameContent (.collection xs) (.collection ys)) : xs.Perm ys := by
  unfold ContainerShape.SameContent at h
  split_ifs at h
  · exact h
  · rw [h]

theorem ContainerShape.SameContent.perm_map {shape : ContainerShape} {es fs : List (Value × Value)}
    (h : shape.SameContent (.map es) (.map fs)) : es.Perm fs := by
  unfold ContainerShape.SameContent at h
  split_ifs at h
  · exact h
  · rw [h]

theorem PlainContainer.ofData_collection (k : CollectionKind) (items : List Value) :
    PlainContainer.ofData k.shape (some (.collection items)) =
      .collection k (foldSteps (Plain.insert k) [] items).1 := by
  cases k <;> rfl

theorem PlainContainer.ofData_map (s : Bool) (es : List (Value × Value)) :
    PlainContainer.ofData (if s then .sortedMap else .map) (some (.map es)) =
      .map s (foldSteps Plain.putChanged [] es).1 := by
  cases s <;> rfl

theorem ContainerShape.collection_or_map {shape : ContainerShape} (h : shape ≠ .scalarMutable) :
    (∃ k : CollectionKind, shape = k.shape) ∨ ∃ s : Bool, shape = if s then .sortedMap else .map := by
  cases shape
  · exact .inl ⟨.set, rfl⟩
  · exact .inl ⟨.list, rfl⟩
  · exact .inr ⟨false, rfl⟩
  · exact .inl ⟨.orderedList, rfl⟩
  · exact .inl ⟨.sortedSet, rfl⟩
  · exact .inr ⟨true, rfl⟩
  · exact absurd rfl h

theorem stored_of_load {f : StoredField} (hshape : f.shape ≠ .scalarMutable) {w : Work}
    (hcont : w.tables.Contiguous f.owner.object f.owner.field) {d : FieldData}
    (hload : ((Access.load f.owner.object f.cls [f.owner.field]).exec w).1 =
      .ok [(f.owner.field, d)])
    {policy : ContainerPolicy} {w' : Wrapper}
    (hw : Wrapper.wrap f.shape f.owner policy (some d) = .ok w')
    (hheld : f.shape.SameContent d w'.detachCopy) :
    Stored f w.tables (PlainContainer.ofData f.shape (some d)) ∧
      (PlainContainer.ofData f.shape (some d)).size =
        (w.tables.rowsOf f.owner.object f.owner.field).length := by
  obtain ⟨hh, hcoll, hmap⟩ := load_reads_rows hload
  have hfr := FieldRows.of_contiguous hcont
  rw [(wrap_represents hw).detachCopy] at hheld
  simp only [PlainState.ofData] at hheld
  rcases ContainerShape.collection_or_map hshape with ⟨k, hk⟩ | ⟨s, hs⟩
  · obtain rfl := hcoll (by rw [hk]; cases k <;> rfl)
    rw [hk, PlainContainer.ofData_collection] at hheld ⊢
    -- the rows' elements go in unrefused, since the wrapper holds them all
    have hperm := (ContainerShape.SameContent.perm_collection hheld).trans (k.view_perm _)
    have heq := (foldSteps_insert_sublist k [] _).eq_of_length hperm.length_eq.symm
    simp only [List.nil_append] at heq
    rw [heq]
    exact ⟨⟨hh, hk.symm ▸ rfl, _, hfr, rfl⟩, by simp [PlainContainer.size]⟩
  · obtain ⟨es, rfl, hes⟩ := hmap (by rw [hs]; cases s <;> rfl)
    rw [hs, PlainContainer.ofData_map] at hheld ⊢
    -- the entries go in unrefused, since the wrapper holds them all, each key once
    have hperm := (ContainerShape.SameContent.perm_map hheld).trans (Plain.viewMap_perm s _)
    have hd : Container.KeysNodup es :=
      (hperm.map Prod.fst).nodup_iff.mpr (Plain.ofEntries_eq_viewMap s es).2
    have heq := foldSteps_putChanged_fresh [] es (by simpa using hd)
    simp only [List.nil_append] at heq
    rw [heq]
    refine ⟨⟨hh, by rw [hs]; cases s <;> rfl, _, hfr, hes⟩, ?_⟩
    have hlen := congrArg List.length hes
    simp only [List.length_map] at hlen
    simpa [PlainContainer.size] using hlen.symm

theorem Wrapper.owner_of_wrap {shape : ContainerShape} {owner : FieldOwner}
    {policy : ContainerPolicy} {data : Option FieldData} {w : Wrapper}
    (hw : Wrapper.wrap shape owner policy data = .ok w) : w.owner = some owner := by
  cases shape <;> simp only [Wrapper.wrap] at hw <;> split at hw <;> cases hw <;> rfl

/-! ## Queued changes replayed -/

/-- A container field whose contiguous rows load as the data a wrapper holds (up to order for
a sorted shape) takes any changes to the wrapper in queued mode: applying the operations they
queue, in order, to the stored rows succeeds, keeps the rows at consecutive positions after
each operation, and leaves rows that load as the wrapper's final content, up to order for a
sorted shape. The positions are 64-bit, so the rows and the operations must fit them. -/
theorem queued_changes_replay_to_wrapper_content {f : StoredField}
    (hshape : f.shape ≠ .scalarMutable) {w₀ : Work}
    (hcont : w₀.tables.Contiguous f.owner.object f.owner.field) {d : FieldData}
    (hload : ((Access.load f.owner.object f.cls [f.owner.field]).exec w₀).1 =
      .ok [(f.owner.field, d)])
    {policy : ContainerPolicy} {w : Wrapper}
    (hw : Wrapper.wrap f.shape f.owner policy (some d) = .ok w)
    (hheld : f.shape.SameContent d w.detachCopy)
    (changes : List (HostView × FieldChange)) (hq : ∀ c ∈ changes, c.1.queued = true)
    (hfit : (w₀.tables.rowsOf f.owner.object f.owner.field).length +
      (w.queueChanges changes).2.length ≤ Nat.pow 2 63) :
    ∃ t, Replays f w₀.tables (w.queueChanges changes).2 t ∧
      ∀ w₁ : Work, w₁.tables = t → ∃ d',
        ((Access.load f.owner.object f.cls [f.owner.field]).exec w₁).1 =
            .ok [(f.owner.field, d')] ∧
          f.shape.SameContent d' (w.queueChanges changes).1.detachCopy := by
  obtain ⟨hs, hn⟩ := stored_of_load hshape hcont hload hw hheld
  obtain ⟨t, p', hrep, hs', hr'⟩ :=
    queueChanges_replays changes hq w _ w₀.tables _ (wrap_represents hw)
      (Or.inl (Wrapper.owner_of_wrap hw)) hs hn.le hfit
  refine ⟨t, hrep, fun w₁ ht => ⟨_, exec_load (ht ▸ hs'), ?_⟩⟩
  -- the rows store the plain container the final wrapper stands for
  rw [hr'.detachCopy, ← hs'.shape]
  exact p'.container.sameContent_rowData

/-- An empty list field of a stored object, given an element, an element inserted in front
and a detached copy in queued mode, replays its queue to rows that load as the list. -/
theorem list_field_replays_queued_changes :
    ∃ t, Replays
        ⟨⟨"Doc", false, [{ name := "tags", valueType := .text, container := some .list }]⟩,
          ⟨⟨1⟩, 0⟩, { name := "tags", valueType := .text, container := some .list }, .list, rfl, rfl⟩
        { objects := [⟨⟨1⟩, "Doc", none⟩] }
        (Wrapper.queueChanges ⟨some ⟨⟨1⟩, 0⟩, {}, .collection .list []⟩
          [(⟨true, false, true⟩, .call (.add (.text "a"))),
            (⟨true, false, true⟩, .call (.insertAt 0 (.text "b"))),
            (⟨true, false, true⟩, .attach (.collection [.text "b", .text "c"]))]).2 t ∧
      ∀ w₁ : Work, w₁.tables = t → ∃ d',
        ((Access.load ⟨1⟩
            ⟨"Doc", false, [{ name := "tags", valueType := .text, container := some .list }]⟩
            [0]).exec w₁).1 =
            .ok [(0, d')] ∧
          ContainerShape.list.SameContent d'
            (Wrapper.queueChanges ⟨some ⟨⟨1⟩, 0⟩, {}, .collection .list []⟩
              [(⟨true, false, true⟩, .call (.add (.text "a"))),
                (⟨true, false, true⟩, .call (.insertAt 0 (.text "b"))),
                (⟨true, false, true⟩, .attach (.collection [.text "b", .text "c"]))]).1.detachCopy :=
  @queued_changes_replay_to_wrapper_content
    ⟨⟨"Doc", false, [{ name := "tags", valueType := .text, container := some .list }]⟩,
      ⟨⟨1⟩, 0⟩, { name := "tags", valueType := .text, container := some .list }, .list, rfl, rfl⟩
    (by decide) { tables := { objects := [⟨⟨1⟩, "Doc", none⟩] }, mayWrite := false }
    (by simp [Tables.Contiguous, Numbered, Tables.rowsOf])
    (.collection [])
    (by simp [Access.load, Access.header?, Access.member, Access.exec_bind, Access.exec_map,
      Tables.header?, Tables.rowsOf, ClassMeta.member, ClassMeta.member?, FieldMeta.isMap,
      FieldMeta.isCollection, ContainerShape.isMap, ContainerShape.isCollection])
    {} ⟨some ⟨⟨1⟩, 0⟩, {}, .collection .list []⟩ rfl (by decide) _ (by decide)
    (by simp [Tables.rowsOf]; decide)

end ObjectPersistence
