import Mathlib
import ObjectPersistence.Proofs.WrapperAttach

/-! # When a wrapper marks its field dirty

A wrapper call that succeeds asks its owner to mark the field dirty at most once, at its
end, and exactly when it changed something. Emptying a container and writing a list
position always count as a change. Any other call counts when it put an element or an entry
in, took one out, or replaced a map value or the scalar by a different one. Outside a
transaction the mark comes with a report of the change, and only then. A wrapper whose
owner does not queue changes queues nothing.

The requests a call makes before its end are quiet: they record relations, delete
dependents and, in queued mode only, queue operations. One lemma per round of the calls'
loops gives the round's run with its quiet requests; `exec_foldlM` carries them through a
loop along the wrapper's own steps, with the flag the loop answers. The flags are then read
as conditions on the content the call starts from: a batch changes the content exactly when
one of its items would change the content as it was before the batch. -/

namespace ObjectPersistence

/-! ## Quiet requests -/

namespace HostEvent

def isMakeDirty : HostEvent → Bool
  | .makeDirty _ => true
  | _ => false

def isNontransactional : HostEvent → Bool
  | .nontransactional _ => true
  | _ => false

/-- A request a call makes before its end: neither a mark nor a report, and a queued
operation only when the owner queues changes. -/
@[simp] def Quiet (h : HostView) : HostEvent → Prop
  | .makeDirty _ | .nontransactional _ => False
  | .enqueue _ => h.queued = true
  | _ => True

end HostEvent

def QuietRequests (h : HostView) (q : List HostEvent) : Prop := ∀ e ∈ q, e.Quiet h

/-- The notice of a change: the field marked dirty, and the change reported when no
transaction is active. -/
def changeNotice (h : HostView) (o : FieldOwner) : List HostEvent :=
  .makeDirty o :: if !h.transactionActive then [.nontransactional o] else []

section Quiet

variable {h : HostView} {q r : List HostEvent}

@[simp] theorem quietRequests_nil : QuietRequests h [] := fun _ he => absurd he List.not_mem_nil

@[simp] theorem quietRequests_cons {e : HostEvent} :
    QuietRequests h (e :: q) ↔ e.Quiet h ∧ QuietRequests h q := List.forall_mem_cons

@[simp] theorem quietRequests_append :
    QuietRequests h (q ++ r) ↔ QuietRequests h q ∧ QuietRequests h r := List.forall_mem_append

theorem QuietRequests.countP_isMakeDirty (hq : QuietRequests h q) :
    q.countP HostEvent.isMakeDirty = 0 := by
  refine List.countP_eq_zero.mpr fun e he => ?_
  have := hq e he
  cases e <;> simp_all [HostEvent.isMakeDirty]

theorem QuietRequests.countP_isNontransactional (hq : QuietRequests h q) :
    q.countP HostEvent.isNontransactional = 0 := by
  refine List.countP_eq_zero.mpr fun e he => ?_
  have := hq e he
  cases e <;> simp_all [HostEvent.isNontransactional]

theorem QuietRequests.not_enqueue (hq : QuietRequests h q) (hqf : h.queued = false)
    (op : Operation) : HostEvent.enqueue op ∉ q := fun hop => by
  simpa [hqf] using hq _ hop

theorem countP_isMakeDirty_changeNotice (o : FieldOwner) :
    (changeNotice h o).countP HostEvent.isMakeDirty = 1 := by
  rcases h with ⟨queued, manageRelations, _ | _⟩ <;> rfl

theorem countP_isNontransactional_changeNotice (o : FieldOwner) :
    (changeNotice h o).countP HostEvent.isNontransactional =
      if !h.transactionActive then 1 else 0 := by
  rcases h with ⟨queued, manageRelations, _ | _⟩ <;> rfl

theorem not_enqueue_changeNotice (o : FieldOwner) (op : Operation) :
    HostEvent.enqueue op ∉ changeNotice h o := by
  cases ht : h.transactionActive <;> simp [changeNotice, ht]

def QuietAfter (h : HostView) (es₀ es : List HostEvent) : Prop :=
  ∃ q, es = es₀ ++ q ∧ QuietRequests h q

theorem QuietAfter.refl (es : List HostEvent) : QuietAfter h es es := ⟨[], by simp, by simp⟩

theorem QuietAfter.append {es₀ es : List HostEvent} (ha : QuietAfter h es₀ es)
    (hq : QuietRequests h q) : QuietAfter h es₀ (es ++ q) := by
  obtain ⟨q₀, rfl, hq₀⟩ := ha
  exact ⟨q₀ ++ q, by simp, by simp [hq₀, hq]⟩

end Quiet

/-! ## What marks the field -/

def Container.putReport (sorted : Bool) (es : List (Value × Value)) (kv : Value × Value) :
    List (Value × Value) × Bool :=
  ((Container.put sorted es kv.1 kv.2).1, (Container.put sorted es kv.1 kv.2).2 != some kv.2)

namespace ScoCall

/-- Whether a successful call, made on a wrapper holding `c`, marks the field dirty. Emptying
a container and writing a list position always do; any other call does when it puts an
element or an entry in, takes one out, or replaces a map value or the scalar by a different
one. A kind that holds each element once takes in only elements it does not hold; a batch
changes the content exactly when one of its items would change the content as it was. -/
def marksDirty : ScoCall → Content → Bool
  | .clear, _ | .insertAt .., _ | .setAt .., _ | .removeAt _, _ => true
  | .add e, .collection k xs => !(k.unique && xs.contains e)
  | .addAll es, .collection k xs => es.any fun e => !(k.unique && xs.contains e)
  | .remove e _, .collection _ xs => xs.contains e
  | .removeAll es, .collection _ xs => es.any xs.contains
  | .retainAll keep, .collection _ xs => xs.any fun x => !keep.contains x
  | .put k v, .map _ es => Container.lookup es k != some v
  | .putAll kvs, .map _ es => kvs.any fun kv => Container.lookup es kv.1 != some kv.2
  | .removeKey k, .map _ es => (Container.lookup es k).isSome
  | .retainKeys keep, .map _ es => es.any fun e => !keep.contains e.1
  | .setScalar v, .scalar u => v != u
  | _, _ => false

end ScoCall

/-! ## The flags of the loops -/

namespace CollectionKind

theorem insert_snd (k : CollectionKind) (xs : List Value) (e : Value) :
    (k.insert xs e).2 = !(k.unique && xs.contains e) := by
  cases k <;> by_cases he : e ∈ xs <;> simp [insert, unique, he]

theorem insert_fst_of_snd {k : CollectionKind} {xs : List Value} {e : Value}
    (h : (k.insert xs e).2 = false) : (k.insert xs e).1 = xs := by
  cases k <;> by_cases he : e ∈ xs <;> simp_all [insert]

/-- Inserting elements in turn changes the content exactly when one of them would change it
as it was: one not held, or any one for a kind that holds repeats. -/
theorem foldSteps_insert_snd (k : CollectionKind) :
    ∀ (xs es : List Value),
      (foldSteps k.insert xs es).2 = es.any fun e => !(k.unique && xs.contains e)
  | _, [] => rfl
  | xs, e :: es => by
    rw [foldSteps_cons, List.any_cons, ← insert_snd]
    cases hi : (k.insert xs e).2 with
    | true => rfl
    | false =>
      -- an element the content already holds leaves it as it was
      rw [insert_fst_of_snd hi, Bool.false_or, Bool.false_or]
      exact foldSteps_insert_snd k xs es

end CollectionKind

theorem foldSteps_removeFirst_snd :
    ∀ (xs es : List Value), (foldSteps Container.removeFirst xs es).2 = es.any xs.contains
  | _, [] => rfl
  | xs, e :: es => by
    rw [foldSteps_cons, List.any_cons]
    cases he : xs.contains e with
    | true =>
      have hin : e ∈ xs := by simpa using he
      simp [Container.removeFirst, hin]
    | false =>
      have hnot : e ∉ xs := by simpa using he
      simp only [Container.removeFirst, he, Bool.false_or, List.erase_of_not_mem hnot]
      exact foldSteps_removeFirst_snd xs es

theorem any_filter_contains (xs : List Value) (p : Value → Bool) :
    (xs.filter p).any xs.contains = xs.any p := by
  rw [Bool.eq_iff_iff, List.any_eq_true, List.any_eq_true]
  constructor
  · rintro ⟨x, hx, -⟩
    exact ⟨x, (List.mem_filter.mp hx).1, (List.mem_filter.mp hx).2⟩
  · rintro ⟨x, hx, hp⟩
    exact ⟨x, List.mem_filter.mpr ⟨hx, hp⟩, List.contains_iff_mem.mpr hx⟩

namespace Container

theorem lookup_put_of_lookup {sorted : Bool} {es : List (Value × Value)} {k v : Value}
    (hv : lookup es k = some v) (k' : Value) : lookup (put sorted es k v).1 k' = lookup es k' := by
  -- the replacement keeps every entry's key, so the same entry is found
  have hkey : ((fun e : Value × Value => e.1 == k') ∘ fun e => if e.1 == k then (k, v) else e) =
      fun e => e.1 == k' := by
    funext e
    by_cases he : e.1 = k <;> simp [he]
  unfold put
  rw [hv]
  simp only [lookup, List.find?_map, hkey, Option.map_map]
  cases hf : es.find? (·.1 == k') with
  | none => rfl
  | some e =>
    by_cases he : e.1 = k
    · -- the entry found is the one under `k`, whose value is already `v`
      have hk' : k' = k := by
        have := List.find?_some hf
        simp only [beq_iff_eq] at this
        rw [← this, he]
      subst hk'
      simp only [lookup, hf, Option.map_some] at hv
      simp [he, hv]
    · simp [he]

theorem foldSteps_putReport_snd (sorted : Bool) :
    ∀ (es : List (Value × Value)) (kvs : List (Value × Value)),
      (foldSteps (putReport sorted) es kvs).2 = kvs.any fun kv => lookup es kv.1 != some kv.2
  | _, [] => rfl
  | es, kv :: kvs => by
    rw [foldSteps_cons, List.any_cons]
    simp only [putReport, put_snd]
    cases hv : lookup es kv.1 == some kv.2 with
    | false => simp [bne, hv]
    | true =>
      -- an entry the map already holds leaves every lookup as it was
      have hsame : lookup (put sorted es kv.1 kv.2).1 = lookup es :=
        funext (lookup_put_of_lookup (beq_iff_eq.mp hv))
      simp only [bne, hv, Bool.not_true, Bool.false_or]
      rw [← hsame]
      exact foldSteps_putReport_snd sorted _ kvs

end Container

/-! ## Rounds and loops -/

namespace WrapperCall

section Rounds

variable (h : HostView) (o : FieldOwner) (w : Wrapper) (es : List HostEvent)

theorem exec_insertRound_quiet {k : CollectionKind} {xs : List Value}
    (hc : w.content = .collection k xs) (any : Bool) (e : Value) :
    ∃ q, (insertRound h o any e).exec (w, es) =
        (.ok (any || (k.insert xs e).2),
          ({ w with content := .collection k (k.insert xs e).1 }, es ++ q)) ∧
      QuietRequests h q := by
  unfold insertRound
  cases hm : h.manageRelations <;> cases hi : (k.insert xs e).2 <;> cases hq : h.queued <;>
    simp [exec_bind, exec_map, exec_sequence, hc, hi, hq]

theorem exec_removeRound_quiet {k : CollectionKind} {xs : List Value}
    (hc : w.content = .collection k xs) (ac any : Bool) (e : Value) :
    ∃ q, (removeRound h o ac any e).exec (w, es) =
        (.ok (any || (Container.removeFirst xs e).2),
          ({ w with content := .collection k (Container.removeFirst xs e).1 }, es ++ q)) ∧
      QuietRequests h q := by
  unfold removeRound
  cases hm : h.manageRelations <;> cases hq : h.queued <;> by_cases hp : e ∈ xs <;>
    simp [exec_bind, exec_map, exec_sequence, hc, Container.removeFirst, hp, hq,
      exec_cascadeRemoval] <;> split_ifs <;> simp

theorem exec_removeEntry_quiet {s : Bool} {kvs : List (Value × Value)}
    (hc : w.content = .map s kvs) (k : Value) (ac : Bool) :
    ∃ q, (removeEntry h o k ac).exec (w, es) =
        (.ok (Container.take kvs k).2,
          ({ w with content := .map s (Container.take kvs k).1 }, es ++ q)) ∧
      QuietRequests h q := by
  unfold removeEntry
  cases ht : Container.lookup kvs k with
  | none =>
    refine ⟨[], ?_, by simp⟩
    simp [exec_bind, exec_entries, hc, Container.take_of_lookup_none ht,
      Wrapper.with_content_self hc]
  | some v =>
    cases hm : h.manageRelations <;> cases hq : h.queued <;>
      simp [exec_bind, exec_map, exec_entries, hc, Container.take, ht, exec_ite] <;>
      split_ifs <;> simp [hq]

theorem exec_putEntry_quiet {s : Bool} {kvs : List (Value × Value)}
    (hc : w.content = .map s kvs) (k v : Value) :
    ∃ q, (putEntry h o k v).exec (w, es) =
        (.ok ((Container.put s kvs k v).2, (Container.put s kvs k v).2 != some v),
          ({ w with content := .map s (Container.put s kvs k v).1 }, es ++ q)) ∧
      QuietRequests h q := by
  unfold putEntry
  cases hp : (Container.put s kvs k v).2 <;> cases hm : h.manageRelations <;>
    cases hq : h.queued <;>
    simp [exec_bind, exec_map, exec_entries, hc, hp, exec_ite, hq] <;>
    split_ifs <;> simp [hq]

theorem exec_putRound_quiet {s : Bool} {kvs : List (Value × Value)}
    (hc : w.content = .map s kvs) (any : Bool) (kv : Value × Value) :
    ∃ q, (putRound h o any kv).exec (w, es) =
        (.ok (any || (Container.putReport s kvs kv).2),
          ({ w with content := .map s (Container.putReport s kvs kv).1 }, es ++ q)) ∧
      QuietRequests h q := by
  obtain ⟨q, hexec, hq⟩ := exec_putEntry_quiet h o w es hc kv.1 kv.2
  refine ⟨q, ?_, hq⟩
  simp only [putRound, exec_bind, hexec, exec_pure, Container.putReport]

theorem exec_releaseAll_quiet (xs : List Value) :
    ∃ q, (releaseAll h o xs).exec (w, es) = (.ok (), (w, es ++ q)) ∧ QuietRequests h q := by
  induction xs generalizing es with
  | nil => exact ⟨[], by simp [releaseAll, List.forM], by simp⟩
  | cons e xs ih =>
    have hone : ∃ q, (releaseOne h o e).exec (w, es) = (.ok (), (w, es ++ q)) ∧
        QuietRequests h q := by
      unfold releaseOne
      cases h.manageRelations <;> cases hq : h.queued <;>
        simp [exec_bind, exec_cascadeRemoval, hq] <;> split_ifs <;> simp
    obtain ⟨q₁, hexec₁, hq₁⟩ := hone
    obtain ⟨q₂, hexec₂, hq₂⟩ := ih (es ++ q₁)
    refine ⟨q₁ ++ q₂, ?_, by simp [hq₁, hq₂]⟩
    show (releaseOne h o e >>= fun _ => releaseAll h o xs).exec (w, es) = _
    rw [exec_bind, hexec₁]
    simp only [hexec₂, List.append_assoc]

theorem exec_removeKeys_quiet {s : Bool} {kvs : List (Value × Value)}
    (hc : w.content = .map s kvs) (ks : List Value) (ac : Bool) :
    ∃ kvs' q, (removeKeys h o ks ac).exec (w, es) =
        (.ok (), ({ w with content := .map s kvs' }, es ++ q)) ∧ QuietRequests h q := by
  induction ks generalizing w es kvs with
  | nil => exact ⟨kvs, [], by simp [removeKeys, List.forM, Wrapper.with_content_self hc], by simp⟩
  | cons k ks ih =>
    obtain ⟨q₁, hexec₁, hq₁⟩ := exec_removeEntry_quiet h o w es hc k ac
    obtain ⟨kvs', q₂, hexec₂, hq₂⟩ :=
      ih { w with content := .map s (Container.take kvs k).1 } (es ++ q₁) rfl
    refine ⟨kvs', q₁ ++ q₂, ?_, by simp [hq₁, hq₂]⟩
    show (discard (removeEntry h o k ac) >>= fun _ => removeKeys h o ks ac).exec (w, es) = _
    rw [exec_bind, exec_discard, hexec₁]
    simp only [hexec₂, List.append_assoc]

end Rounds

section Loops

variable (h : HostView) (o : FieldOwner)

theorem follows_quietly {σ α : Type} (R : Wrapper → σ → Prop) {f : Bool → α → WrapperCall Bool}
    {step : σ → α → σ × Bool} (es₀ : List HostEvent)
    (hf : ∀ any a w es s, R w s → ∃ w' q, (f any a).exec (w, es) =
      (.ok (any || (step s a).2), (w', es ++ q)) ∧ QuietRequests h q ∧ R w' (step s a).1) :
    Follows (fun st s => R st.1 s ∧ QuietAfter h es₀ st.2) f step := by
  rintro any a ⟨w, es⟩ s ⟨hR, hes⟩
  obtain ⟨w', q, hexec, hq, hR'⟩ := hf any a w es s hR
  exact ⟨(w', es ++ q), hexec, hR', hes.append hq⟩

variable (w : Wrapper) (es : List HostEvent)

theorem exec_insertEach_quiet {k : CollectionKind} {xs : List Value}
    (hc : w.content = .collection k xs) (l : List Value) :
    ∃ q, (insertEach h o l).exec (w, es) =
        (.ok (l.any fun e => !(k.unique && xs.contains e)),
          ({ w with content := .collection k (foldSteps k.insert xs l).1 }, es ++ q)) ∧
      QuietRequests h q := by
  have hround : Follows (fun st ys => st.1 = { w with content := .collection k ys } ∧
      QuietAfter h es st.2) (insertRound h o) k.insert := by
    refine follows_quietly h (fun w' ys => w' = { w with content := .collection k ys }) es
      fun any e w' es' ys hw' => ?_
    subst hw'
    obtain ⟨q, hexec, hq⟩ := exec_insertRound_quiet h o { w with content := .collection k ys } es' rfl any e
    exact ⟨_, q, hexec, hq, rfl⟩
  obtain ⟨⟨w', es'⟩, hloop, hw', q, rfl, hq⟩ :=
    exec_foldlM_false hround l (w, es) xs ⟨(Wrapper.with_content_self hc).symm, .refl es⟩
  simp only at hw'
  subst hw'
  rw [CollectionKind.foldSteps_insert_snd] at hloop
  exact ⟨q, hloop, hq⟩

theorem exec_removeEach_quiet {k : CollectionKind} {xs : List Value}
    (hc : w.content = .collection k xs) (l : List Value) (ac : Bool) :
    ∃ q, (removeEach h o l ac).exec (w, es) =
        (.ok (l.any xs.contains),
          ({ w with content := .collection k (foldSteps Container.removeFirst xs l).1 },
            es ++ q)) ∧
      QuietRequests h q := by
  have hround : Follows (fun st ys => st.1 = { w with content := .collection k ys } ∧
      QuietAfter h es st.2) (removeRound h o ac) Container.removeFirst := by
    refine follows_quietly h (fun w' ys => w' = { w with content := .collection k ys }) es
      fun any e w' es' ys hw' => ?_
    subst hw'
    obtain ⟨q, hexec, hq⟩ := exec_removeRound_quiet h o { w with content := .collection k ys } es' rfl ac any e
    exact ⟨_, q, hexec, hq, rfl⟩
  obtain ⟨⟨w', es'⟩, hloop, hw', q, rfl, hq⟩ :=
    exec_foldlM_false hround l (w, es) xs ⟨(Wrapper.with_content_self hc).symm, .refl es⟩
  simp only at hw'
  subst hw'
  rw [foldSteps_removeFirst_snd] at hloop
  exact ⟨q, hloop, hq⟩

theorem exec_putRounds_quiet {s : Bool} {kvs : List (Value × Value)}
    (hc : w.content = .map s kvs) (l : List (Value × Value)) :
    ∃ q, (l.foldlM (putRound h o) false).exec (w, es) =
        (.ok (l.any fun kv => Container.lookup kvs kv.1 != some kv.2),
          ({ w with content := .map s (foldSteps (Container.putReport s) kvs l).1 }, es ++ q)) ∧
      QuietRequests h q := by
  have hround : Follows (fun st fs => st.1 = { w with content := .map s fs } ∧
      QuietAfter h es st.2) (putRound h o) (Container.putReport s) := by
    refine follows_quietly h (fun w' fs => w' = { w with content := .map s fs }) es
      fun any kv w' es' fs hw' => ?_
    subst hw'
    obtain ⟨q, hexec, hq⟩ := exec_putRound_quiet h o { w with content := .map s fs } es' rfl any kv
    exact ⟨_, q, hexec, hq, rfl⟩
  obtain ⟨⟨w', es'⟩, hloop, hw', q, rfl, hq⟩ :=
    exec_foldlM_false hround l (w, es) kvs ⟨(Wrapper.with_content_self hc).symm, .refl es⟩
  simp only at hw'
  subst hw'
  rw [Container.foldSteps_putReport_snd] at hloop
  exact ⟨q, hloop, hq⟩

end Loops

/-! ## Calls -/

/-- What a run's requests say of the field: one mark exactly when `m`, one report exactly
when `m` and no transaction is active, and no queued operation when the owner does not
queue changes. -/
def MarksOnce (h : HostView) (m : Bool) (evs : List HostEvent) : Prop :=
  evs.countP HostEvent.isMakeDirty = (if m then 1 else 0) ∧
    evs.countP HostEvent.isNontransactional = (if m && !h.transactionActive then 1 else 0) ∧
    (h.queued = false → ∀ op, HostEvent.enqueue op ∉ evs)

section Marks

variable {h : HostView} {q : List HostEvent} {m : Bool}

theorem marksOnce_quiet (hq : QuietRequests h q) (hm : m = false) : MarksOnce h m q := by
  subst hm
  exact ⟨by simp [hq.countP_isMakeDirty], by simp [hq.countP_isNontransactional],
    hq.not_enqueue⟩

theorem marksOnce_notice (hq : QuietRequests h q) (hm : m = true) (o : FieldOwner) :
    MarksOnce h m (q ++ changeNotice h o) := by
  subst hm
  refine ⟨?_, ?_, fun hqf op hop => ?_⟩
  · rw [List.countP_append, hq.countP_isMakeDirty, countP_isMakeDirty_changeNotice]
    rfl
  · rw [List.countP_append, hq.countP_isNontransactional, countP_isNontransactional_changeNotice]
    simp
  · rcases List.mem_append.mp hop with hop | hop
    · exact hq.not_enqueue hqf op hop
    · exact not_enqueue_changeNotice o op hop

end Marks

/-- Each successful run of the call, from any wrapper, marks the field as the call marks the
content it started from. -/
def MarksOnChange (c : ScoCall) (h : HostView) : Prop :=
  ∀ w a st, (c.onWrapper h).exec (w, []) = (.ok a, st) → MarksOnce h (c.marksDirty w.content) st.2

section Calls

variable (h : HostView)

theorem exec_changed_notice (o : FieldOwner) (w : Wrapper) (es : List HostEvent) :
    (changed h o).exec (w, es) = (.ok (), (w, es ++ changeNotice h o)) :=
  exec_changed w es h o

/-! ### Collections -/

theorem marksOnChange_add (e : Value) : MarksOnChange (.add e) h := by
  intro w a st hrun
  simp only [ScoCall.onWrapper] at hrun
  rcases hc : w.content with ⟨k, xs⟩ | ⟨s, kvs⟩ | u
  · cases ho : w.owner with
    | none => simp [add, exec_bind, exec_discard, exec_sequence, exec_bound, hc, ho] at hrun
    | some o =>
      by_cases hnull : e.isNull && !w.policy.allowNulls
      · simp [add, exec_bind, exec_discard, exec_sequence, exec_bound,
          exec_checkNullable, hc, ho, hnull] at hrun
      · obtain ⟨q, hloop, hq⟩ := exec_insertEach_quiet h o w [] hc [e]
        have hm : (ScoCall.add e).marksDirty (.collection k xs) =
            [e].any fun e => !(k.unique && xs.contains e) := by
          simp [ScoCall.marksDirty]
        rw [hm]
        cases hflag : [e].any fun e => !(k.unique && xs.contains e) <;>
          simp only [add, exec_map, exec_bind, exec_discard, exec_sequence, exec_bound,
            exec_checkNullable, hc, ho, hnull, Bool.false_eq_true, if_false, if_true, hloop,
            hflag, exec_changed_notice, exec_pure] at hrun <;>
          cases hrun
        · exact marksOnce_quiet (by simpa using hq) rfl
        · exact marksOnce_notice (by simpa using hq) rfl o
  · simp [add, exec_bind, exec_discard, exec_sequence, hc] at hrun
  · simp [add, exec_bind, exec_discard, exec_sequence, hc] at hrun

theorem marksOnChange_addAll (l : List Value) : MarksOnChange (.addAll l) h := by
  intro w a st hrun
  simp only [ScoCall.onWrapper] at hrun
  rcases hc : w.content with ⟨k, xs⟩ | ⟨s, kvs⟩ | u
  · cases ho : w.owner with
    | none =>
      simp [addAll, exec_bind, exec_discard, exec_sequence, exec_bound, hc, ho] at hrun
    | some o =>
      cases hnull : l.findSome? (ScoCall.nullFault w.policy.allowNulls) with
      | some f =>
        -- the first refused null refuses the whole batch
        simp only [addAll, exec_map, exec_bind, exec_discard, exec_sequence, exec_bound,
          exec_checkAll, hc, ho, hnull] at hrun
        simp at hrun
      | none =>
        obtain ⟨q, hloop, hq⟩ := exec_insertEach_quiet h o w [] hc l
        change MarksOnce h (l.any fun e => !(k.unique && xs.contains e)) st.2
        cases hflag : l.any fun e => !(k.unique && xs.contains e) <;>
          simp only [addAll, exec_map, exec_bind, exec_discard, exec_sequence, exec_bound,
            exec_checkAll, hc, ho, hnull, Option.map_none, Option.elim, hloop, hflag,
            Bool.false_eq_true, if_false, if_true, exec_changed_notice, exec_pure] at hrun <;>
          cases hrun
        · exact marksOnce_quiet (by simpa using hq) rfl
        · exact marksOnce_notice (by simpa using hq) rfl o
  · simp [addAll, exec_bind, exec_discard, exec_sequence, hc] at hrun
  · simp [addAll, exec_bind, exec_discard, exec_sequence, hc] at hrun

theorem marksOnChange_remove (e : Value) (ac : Bool) : MarksOnChange (.remove e ac) h := by
  intro w a st hrun
  simp only [ScoCall.onWrapper] at hrun
  rcases hc : w.content with ⟨k, xs⟩ | ⟨s, kvs⟩ | u
  · cases ho : w.owner with
    | none =>
      simp [remove, exec_bind, exec_discard, exec_sequence, exec_bound, hc, ho] at hrun
    | some o =>
      obtain ⟨q, hloop, hq⟩ := exec_removeEach_quiet h o w [] hc [e] ac
      have hm : (ScoCall.remove e ac).marksDirty (.collection k xs) = [e].any xs.contains := by
        simp [ScoCall.marksDirty]
      rw [hm]
      cases hflag : [e].any xs.contains <;>
        simp only [remove, exec_map, exec_bind, exec_discard, exec_sequence, exec_bound, hc, ho,
          hloop, hflag, Bool.false_eq_true, if_false, if_true, exec_changed_notice, exec_pure] at hrun <;>
        cases hrun
      · exact marksOnce_quiet (by simpa using hq) rfl
      · exact marksOnce_notice (by simpa using hq) rfl o
  · simp [remove, exec_bind, exec_discard, exec_sequence, hc] at hrun
  · simp [remove, exec_bind, exec_discard, exec_sequence, hc] at hrun

theorem marksOnChange_removeAll (l : List Value) : MarksOnChange (.removeAll l) h := by
  intro w a st hrun
  simp only [ScoCall.onWrapper] at hrun
  rcases hc : w.content with ⟨k, xs⟩ | ⟨s, kvs⟩ | u
  · cases ho : w.owner with
    | none =>
      simp [removeAll, exec_bind, exec_discard, exec_sequence, exec_bound, hc, ho] at hrun
    | some o =>
      cases l with
      | nil =>
        -- an empty batch answers at once and asks nothing
        simp only [removeAll, exec_map, exec_bind, exec_discard, exec_sequence, exec_bound, hc, ho,
          List.isEmpty_nil, if_true, exec_pure] at hrun
        cases hrun
        exact marksOnce_quiet (by simp) rfl
      | cons e l =>
        obtain ⟨q, hloop, hq⟩ := exec_removeEach_quiet h o w [] hc (e :: l) true
        change MarksOnce h ((e :: l).any xs.contains) st.2
        cases hflag : (e :: l).any xs.contains <;>
          simp only [removeAll, exec_map, exec_bind, exec_discard, exec_sequence, exec_bound, hc,
            ho, List.isEmpty_cons, Bool.false_eq_true, if_false, if_true, hloop, hflag,
            exec_changed_notice, exec_pure] at hrun <;>
          cases hrun
        · exact marksOnce_quiet (by simpa using hq) rfl
        · exact marksOnce_notice (by simpa using hq) rfl o
  · simp [removeAll, exec_bind, exec_discard, exec_sequence, hc] at hrun
  · simp [removeAll, exec_bind, exec_discard, exec_sequence, hc] at hrun

theorem marksOnChange_retainAll (keep : List Value) : MarksOnChange (.retainAll keep) h := by
  intro w a st hrun
  simp only [ScoCall.onWrapper] at hrun
  rcases hc : w.content with ⟨k, xs⟩ | ⟨s, kvs⟩ | u
  · cases ho : w.owner with
    | none => simp [retainAll, exec_bind, exec_sequence, exec_bound, hc, ho] at hrun
    | some o =>
      -- the elements not kept are removed one by one; one of them is held exactly when one
      -- element of the content is not kept
      obtain ⟨q, hloop, hq⟩ :=
        exec_removeEach_quiet h o w [] hc (xs.filter fun x => !keep.contains x) true
      rw [any_filter_contains] at hloop
      change MarksOnce h (xs.any fun x => !keep.contains x) st.2
      cases hflag : xs.any fun x => !keep.contains x <;>
        simp only [retainAll, exec_map, exec_bind, exec_sequence, exec_bound, hc, ho, hloop,
          hflag, Bool.false_eq_true, if_false, if_true, exec_changed_notice, exec_pure] at hrun <;>
        cases hrun
      · exact marksOnce_quiet (by simpa using hq) rfl
      · exact marksOnce_notice (by simpa using hq) rfl o
  · simp [retainAll, exec_bind, exec_sequence, hc] at hrun
  · simp [retainAll, exec_bind, exec_sequence, hc] at hrun

theorem marksOnChange_clear : MarksOnChange .clear h := by
  intro w a st hrun
  simp only [ScoCall.onWrapper] at hrun
  rcases hc : w.content with ⟨k, xs⟩ | ⟨s, kvs⟩ | u
  · cases ho : w.owner with
    | none =>
      simp [clear, exec_bind, exec_wrapper, exec_sequence, exec_bound, hc, ho] at hrun
    | some o =>
      obtain ⟨q, hrelease, hq⟩ := exec_releaseAll_quiet h o w [] xs
      simp only [clear, exec_map, exec_bind, exec_wrapper, exec_sequence, exec_bound, hc, ho,
        hrelease, exec_setContent, exec_changed_notice] at hrun
      cases hrun
      exact marksOnce_notice (by simpa using hq) rfl o
  · cases ho : w.owner with
    | none => simp [clear, exec_bind, exec_wrapper, exec_bound, hc, ho] at hrun
    | some o =>
      obtain ⟨kvs', q, hremove, hq⟩ := exec_removeKeys_quiet h o w [] hc (kvs.map (·.1)) true
      simp only [clear, exec_map, exec_bind, exec_wrapper, exec_bound, hc, ho, hremove,
        exec_entries, exec_setContent, exec_changed_notice] at hrun
      cases hrun
      exact marksOnce_notice (by simpa using hq) rfl o
  · simp [clear, exec_bind, exec_wrapper, exec_sequence, hc] at hrun

/-! ### Lists -/

theorem marksOnChange_insertAt (i : Nat) (e : Value) : MarksOnChange (.insertAt i e) h := by
  intro w a st hrun
  simp only [ScoCall.onWrapper] at hrun
  by_cases hl : ∃ xs, w.content = .collection .list xs
  · obtain ⟨xs, hc⟩ := hl
    cases ho : w.owner with
    | none => simp [insertAt, exec_bind, exec_listItems, exec_bound, hc, ho] at hrun
    | some o =>
      by_cases hi : xs.length < i
      · simp [insertAt, exec_bind, exec_listItems, exec_bound, hc, ho, hi] at hrun
      · by_cases hnull : e.isNull && !w.policy.allowNulls
        · simp [insertAt, exec_bind, exec_listItems, exec_bound, exec_checkNullable, hc,
            ho, hi, hnull] at hrun
        · cases hm : h.manageRelations <;> cases hq : h.queued <;>
            simp only [insertAt, exec_map, exec_bind, exec_listItems, exec_bound, gt_iff_lt,
              exec_checkNullable, hc, ho, hi, hnull, hm, hq, Bool.false_eq_true, if_false,
              if_true, exec_setContent, exec_emit, exec_changed_notice] at hrun <;>
            cases hrun <;>
            exact marksOnce_notice (by simp [hq]) rfl o
  · simp [insertAt, exec_listItems_bind w [] _ (not_exists.mp hl)] at hrun

theorem marksOnChange_setAt (i : Nat) (e : Value) (ac : Bool) :
    MarksOnChange (.setAt i e ac) h := by
  intro w a st hrun
  simp only [ScoCall.onWrapper] at hrun
  by_cases hl : ∃ xs, w.content = .collection .list xs
  · obtain ⟨xs, hc⟩ := hl
    cases ho : w.owner with
    | none => simp [setAt, exec_bind, exec_listItems, exec_bound, hc, ho] at hrun
    | some o =>
      cases hget : xs[i]? with
      | none => simp [setAt, exec_bind, exec_listItems, exec_bound, hc, ho, hget] at hrun
      | some prev =>
        by_cases hnull : e.isNull && !w.policy.allowNulls
        · simp [setAt, exec_bind, exec_listItems, exec_bound, exec_checkNullable, hc,
            ho, hget, hnull] at hrun
        · -- the dependent deletion of the replaced element is one more quiet request
          by_cases hdel : (ac && w.policy.dependentElements && prev.isPersistable && prev != e) <;>
            cases hm : h.manageRelations <;> cases hq : h.queued <;>
            simp only [setAt, exec_map, exec_bind, exec_listItems, exec_bound, exec_checkNullable,
              hc, ho, hget, hnull, hm, hq, hdel, Bool.false_eq_true, if_false, if_true,
              exec_setContent, exec_emit, exec_wrapper, exec_pure,
              exec_changed_notice] at hrun <;>
            cases hrun <;>
            exact marksOnce_notice (by simp [hq]) rfl o
  · simp [setAt, exec_listItems_bind w [] _ (not_exists.mp hl)] at hrun

theorem marksOnChange_removeAt (i : Nat) : MarksOnChange (.removeAt i) h := by
  intro w a st hrun
  simp only [ScoCall.onWrapper] at hrun
  by_cases hl : ∃ xs, w.content = .collection .list xs
  · obtain ⟨xs, hc⟩ := hl
    cases ho : w.owner with
    | none => simp [removeAt, exec_bind, exec_listItems, exec_bound, hc, ho] at hrun
    | some o =>
      cases hget : xs[i]? with
      | none =>
        simp [removeAt, exec_bind, exec_listItems, exec_bound, hc, ho, hget] at hrun
      | some removed =>
        by_cases hdel : (w.policy.dependentElements && removed.isPersistable) <;>
          cases hm : h.manageRelations <;> cases hq : h.queued <;>
          simp only [removeAt, exec_map, exec_bind, exec_listItems, exec_bound, hc, ho, hget, hm,
            hq, hdel, Bool.true_and, Bool.false_eq_true, if_false, if_true, exec_setContent,
            exec_emit, exec_cascadeRemoval, exec_pure, exec_changed_notice] at hrun <;>
          cases hrun <;>
          exact marksOnce_notice (by simp [hq]) rfl o
  · simp [removeAt, exec_listItems_bind w [] _ (not_exists.mp hl)] at hrun

theorem marksOnChange_get (i : Nat) : MarksOnChange (.get i) h := by
  intro w a st hrun
  simp only [ScoCall.onWrapper] at hrun
  by_cases hl : ∃ xs, w.content = .collection .list xs
  · obtain ⟨xs, hc⟩ := hl
    simp only [WrapperCall.get, exec_map, exec_bind, exec_listItems, hc, exec_pure] at hrun
    cases hrun
    exact marksOnce_quiet (by simp) rfl
  · simp only [WrapperCall.get, exec_map, exec_listItems_bind w [] _ (not_exists.mp hl)] at hrun
    simp at hrun

/-! ### Maps -/

theorem marksOnChange_put (k v : Value) : MarksOnChange (.put k v) h := by
  intro w a st hrun
  simp only [ScoCall.onWrapper] at hrun
  rcases hc : w.content with ⟨kd, xs⟩ | ⟨s, kvs⟩ | u
  · simp [put, exec_bind, exec_discard, exec_entries, hc] at hrun
  · cases ho : w.owner with
    | none =>
      simp [put, exec_bind, exec_discard, exec_entries, exec_bound, hc, ho] at hrun
    | some o =>
      cases hv : ScoCall.entryFault w.policy.allowNulls k v with
      | some f =>
        simp [put, exec_bind, exec_discard, exec_entries, exec_bound,
          exec_validate_fault, hc, ho, hv] at hrun
      | none =>
        obtain ⟨q, hexec, hq⟩ := exec_putEntry_quiet h o w [] hc k v
        rw [Container.put_snd] at hexec
        change MarksOnce h (Container.lookup kvs k != some v) st.2
        cases hflag : Container.lookup kvs k != some v <;>
          simp only [put, exec_map, exec_bind, exec_discard, exec_entries, exec_bound,
            exec_validate_fault, hc, ho, hv, Option.map_none, Option.elim, hexec, hflag,
            Bool.false_eq_true, if_false, if_true, exec_changed_notice, exec_pure] at hrun <;>
          cases hrun
        · exact marksOnce_quiet (by simpa using hq) rfl
        · exact marksOnce_notice (by simpa using hq) rfl o
  · simp [put, exec_bind, exec_discard, exec_entries, hc] at hrun

theorem marksOnChange_putAll (kvs : List (Value × Value)) : MarksOnChange (.putAll kvs) h := by
  intro w a st hrun
  simp only [ScoCall.onWrapper] at hrun
  rcases hc : w.content with ⟨kd, xs⟩ | ⟨s, es⟩ | u
  · simp [putAll, exec_bind, exec_discard, exec_entries, hc] at hrun
  · cases ho : w.owner with
    | none =>
      simp [putAll, exec_bind, exec_discard, exec_entries, exec_bound, hc, ho] at hrun
    | some o =>
      cases hv : kvs.findSome? fun kv => ScoCall.entryFault w.policy.allowNulls kv.1 kv.2 with
      | some f =>
        -- the first invalid entry refuses the whole batch
        simp [putAll, exec_bind, exec_discard, exec_entries, exec_bound,
          exec_validateAll, hc, ho, hv] at hrun
      | none =>
        obtain ⟨q, hloop, hq⟩ := exec_putRounds_quiet h o w [] hc kvs
        change MarksOnce h (kvs.any fun kv => Container.lookup es kv.1 != some kv.2) st.2
        cases hflag : kvs.any fun kv => Container.lookup es kv.1 != some kv.2 <;>
          simp only [putAll, exec_map, exec_bind, exec_discard, exec_entries, exec_bound,
            exec_validateAll, hc, ho, hv, Option.map_none, Option.elim, hloop, hflag,
            Bool.false_eq_true, if_false, if_true, exec_changed_notice, exec_pure] at hrun <;>
          cases hrun
        · exact marksOnce_quiet (by simpa using hq) rfl
        · exact marksOnce_notice (by simpa using hq) rfl o
  · simp [putAll, exec_bind, exec_discard, exec_entries, hc] at hrun

theorem marksOnChange_removeKey (k : Value) : MarksOnChange (.removeKey k) h := by
  intro w a st hrun
  simp only [ScoCall.onWrapper] at hrun
  rcases hc : w.content with ⟨kd, xs⟩ | ⟨s, kvs⟩ | u
  · simp [removeKey, exec_bind, exec_discard, exec_entries, hc] at hrun
  · cases ho : w.owner with
    | none =>
      simp [removeKey, exec_bind, exec_discard, exec_entries, exec_bound, hc, ho] at hrun
    | some o =>
      obtain ⟨q, hexec, hq⟩ := exec_removeEntry_quiet h o w [] hc k true
      change MarksOnce h (Container.lookup kvs k).isSome st.2
      cases hflag : (Container.lookup kvs k).isSome <;>
        simp only [removeKey, exec_map, exec_bind, exec_discard, exec_entries, exec_bound, hc, ho,
          hexec, Container.take, hflag, Bool.false_eq_true, if_false, if_true, exec_changed_notice,
          exec_pure] at hrun <;>
        cases hrun
      · exact marksOnce_quiet (by simpa using hq) rfl
      · exact marksOnce_notice (by simpa using hq) rfl o
  · simp [removeKey, exec_bind, exec_discard, exec_entries, hc] at hrun

theorem marksOnChange_retainKeys (keep : List Value) : MarksOnChange (.retainKeys keep) h := by
  intro w a st hrun
  simp only [ScoCall.onWrapper] at hrun
  rcases hc : w.content with ⟨kd, xs⟩ | ⟨s, kvs⟩ | u
  · simp [retainKeys, exec_bind, exec_entries, hc] at hrun
  · cases ho : w.owner with
    | none => simp [retainKeys, exec_bind, exec_entries, exec_bound, hc, ho] at hrun
    | some o =>
      obtain ⟨kvs', q, hremove, hq⟩ := exec_removeKeys_quiet h o w [] hc
        ((kvs.map (·.1)).filter fun k => !keep.contains k) true
      -- some key is not kept exactly when the keys taken out are not none
      have hm : (ScoCall.retainKeys keep).marksDirty (.map s kvs) =
          !((kvs.map (·.1)).filter fun k => !keep.contains k).isEmpty := by
        simp only [ScoCall.marksDirty]
        rw [Bool.eq_iff_iff, List.any_eq_true, Bool.not_eq_true',
          List.isEmpty_eq_false_iff_exists_mem]
        simp only [List.mem_filter, List.mem_map]
        constructor
        · rintro ⟨e, he, hk⟩
          exact ⟨e.1, ⟨e, he, rfl⟩, hk⟩
        · rintro ⟨k, ⟨e, he, rfl⟩, hk⟩
          exact ⟨e, he, hk⟩
      rw [hm]
      cases hflag : !((kvs.map (·.1)).filter fun k => !keep.contains k).isEmpty <;>
        simp only [retainKeys, exec_map, exec_bind, exec_entries, exec_bound, hc, ho, hremove,
          hflag, Bool.false_eq_true, if_false, if_true, exec_changed_notice, exec_pure] at hrun <;>
        cases hrun
      · exact marksOnce_quiet (by simpa using hq) rfl
      · exact marksOnce_notice (by simpa using hq) rfl o
  · simp [retainKeys, exec_bind, exec_entries, hc] at hrun

/-! ### Scalars and the binding -/

theorem marksOnChange_setScalar (v : Value) : MarksOnChange (.setScalar v) h := by
  intro w a st hrun
  simp only [ScoCall.onWrapper] at hrun
  rcases hc : w.content with ⟨k, xs⟩ | ⟨s, kvs⟩ | u
  · simp [setScalar, exec_bind, exec_wrapper, hc] at hrun
  · simp [setScalar, exec_bind, exec_wrapper, hc] at hrun
  · cases ho : w.owner with
    | none => simp [setScalar, exec_bind, exec_wrapper, exec_bound, hc, ho] at hrun
    | some o =>
      by_cases hnull : v.isNull && !w.policy.allowNulls
      · simp [setScalar, exec_bind, exec_wrapper, exec_bound, exec_checkNullable, hc,
          ho, hnull] at hrun
      · by_cases hvu : v = u
        · -- the value held: answered at once, nothing asked
          subst hvu
          simp only [setScalar, exec_map, exec_bind, exec_wrapper, exec_bound, exec_checkNullable,
            hc, ho, hnull, Bool.false_eq_true, if_false, beq_self_eq_true, if_true,
            exec_pure] at hrun
          cases hrun
          exact marksOnce_quiet (by simp) (bne_self_eq_false v)
        · have hne : (v == u) = false := beq_eq_false_iff_ne.mpr hvu
          simp only [setScalar, exec_map, exec_bind, exec_wrapper, exec_bound, exec_checkNullable,
            hc, ho, hnull, Bool.false_eq_true, if_false, hne, exec_setContent, exec_changed_notice,
            exec_pure] at hrun
          cases hrun
          exact marksOnce_notice (by simp) (bne_iff_ne.mpr hvu) o

theorem marksOnChange_unsetOwner : MarksOnChange .unsetOwner h := by
  intro w a st hrun
  simp only [ScoCall.onWrapper, exec_bind, exec_modify, exec_pure] at hrun
  cases hrun
  exact marksOnce_quiet (by simp) rfl

end Calls

/-- Every successful call on a wrapper asks for the field to be marked dirty at most once:
exactly once when it changed the content it started from, as `marksDirty` reads the change,
and never otherwise. The change is reported outside a transaction exactly when it is marked,
and an owner that does not queue changes gets no queued operation. -/
theorem wrapper_marks_dirty_once_on_change (c : ScoCall) (h : HostView) (w : Wrapper)
    (a : Answer) (st : Wrapper × List HostEvent)
    (hrun : (c.onWrapper h).exec (w, []) = (.ok a, st)) :
    st.2.countP HostEvent.isMakeDirty = (if c.marksDirty w.content then 1 else 0) ∧
      st.2.countP HostEvent.isNontransactional =
        (if c.marksDirty w.content && !h.transactionActive then 1 else 0) ∧
      (h.queued = false → ∀ op, HostEvent.enqueue op ∉ st.2) := by
  have hmarks : MarksOnChange c h := by
    cases c with
    | add e => exact marksOnChange_add h e
    | addAll l => exact marksOnChange_addAll h l
    | remove e ac => exact marksOnChange_remove h e ac
    | removeAll l => exact marksOnChange_removeAll h l
    | retainAll keep => exact marksOnChange_retainAll h keep
    | clear => exact marksOnChange_clear h
    | insertAt i e => exact marksOnChange_insertAt h i e
    | setAt i e ac => exact marksOnChange_setAt h i e ac
    | removeAt i => exact marksOnChange_removeAt h i
    | get i => exact marksOnChange_get h i
    | put k v => exact marksOnChange_put h k v
    | putAll kvs => exact marksOnChange_putAll h kvs
    | removeKey k => exact marksOnChange_removeKey h k
    | retainKeys keep => exact marksOnChange_retainKeys h keep
    | setScalar v => exact marksOnChange_setScalar h v
    | unsetOwner => exact marksOnChange_unsetOwner h
  exact hmarks w a st hrun

/-- Adding a new value to a set wrapper outside a transaction records the relation, then
marks the field once and reports the change once. -/
theorem set_add_marks_dirty_once :
    (ScoCall.onWrapper (.add (.integer 2)) ⟨false, true, false⟩).exec
        (⟨some ⟨⟨1⟩, 0⟩, {}, .collection .set [.integer 1]⟩, []) =
      (.ok (.flag true), (⟨some ⟨⟨1⟩, 0⟩, {}, .collection .set [.integer 1, .integer 2]⟩,
        [.relationAdd ⟨⟨1⟩, 0⟩ (.integer 2), .makeDirty ⟨⟨1⟩, 0⟩,
          .nontransactional ⟨⟨1⟩, 0⟩])) ∧
    [HostEvent.relationAdd ⟨⟨1⟩, 0⟩ (.integer 2), .makeDirty ⟨⟨1⟩, 0⟩,
        .nontransactional ⟨⟨1⟩, 0⟩].countP HostEvent.isMakeDirty =
      (if (ScoCall.add (.integer 2)).marksDirty (.collection .set [.integer 1]) then 1 else 0) ∧
    [HostEvent.relationAdd ⟨⟨1⟩, 0⟩ (.integer 2), .makeDirty ⟨⟨1⟩, 0⟩,
        .nontransactional ⟨⟨1⟩, 0⟩].countP HostEvent.isNontransactional =
      (if (ScoCall.add (.integer 2)).marksDirty (.collection .set [.integer 1]) && !false
        then 1 else 0) ∧
    (false = false → ∀ op, HostEvent.enqueue op ∉
      [HostEvent.relationAdd ⟨⟨1⟩, 0⟩ (.integer 2), .makeDirty ⟨⟨1⟩, 0⟩,
        .nontransactional ⟨⟨1⟩, 0⟩]) := by
  have hrun : (ScoCall.onWrapper (.add (.integer 2)) ⟨false, true, false⟩).exec
        (⟨some ⟨⟨1⟩, 0⟩, {}, .collection .set [.integer 1]⟩, []) =
      (.ok (.flag true), (⟨some ⟨⟨1⟩, 0⟩, {}, .collection .set [.integer 1, .integer 2]⟩,
        [.relationAdd ⟨⟨1⟩, 0⟩ (.integer 2), .makeDirty ⟨⟨1⟩, 0⟩,
          .nontransactional ⟨⟨1⟩, 0⟩])) := by
    decide
  exact ⟨hrun, wrapper_marks_dirty_once_on_change _ _ _ _ _ hrun⟩

end WrapperCall

end ObjectPersistence
