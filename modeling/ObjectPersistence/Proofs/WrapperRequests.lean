import Mathlib
import ObjectPersistence.Proofs.DependentCascade

/-! # What a wrapper call asks of its owner

A wrapper reports what a call did as requests, which the engine carries out on its context
once the call is over: mark the owner's field dirty, queue an operation, record a relation
change, delete a dependent, report a change outside a transaction. For every call a client
can make, this module shows that a wrapper bound to a field stays bound to it and that each
request naming a field names that one; that only a call made in queued mode queues
operations; and that a call that queues an operation also asks for the field to be marked
dirty, failing or not. So the engine never queues an operation for a field whose owner it
leaves clean.

The loops of a call queue operations round by round and mark the field dirty once at the
end; the rounds carry `Pending`: whatever they queued, they answered `true`, which is what
makes the call mark the field dirty afterwards. -/

set_option mvcgen.warning false

namespace ObjectPersistence

open Std.Do

def HostEvent.From (o : FieldOwner) : HostEvent → Prop
  | .makeDirty o' => o' = o
  | .enqueue op => op.owner = o.object ∧ op.field = o.field
  | .relationAdd o' _ => o' = o
  | .relationRemove o' _ => o' = o
  | .deleteDependent _ => True
  | .nontransactional o' => o' = o

namespace WrapperCall

/-- A wrapper still bound to `o`, whose requests so far name `o` and queue operations only
when its owner queues changes. -/
def Named (h : HostView) (o : FieldOwner) (st : Wrapper × List HostEvent) : Prop :=
  st.1.owner = some o ∧ (∀ e ∈ st.2, e.From o) ∧
    (h.queued = false → ∀ op, HostEvent.enqueue op ∉ st.2)

def Covered (o : FieldOwner) (es : List HostEvent) : Prop :=
  HostEvent.makeDirty o ∈ es ∨ ∀ op, HostEvent.enqueue op ∉ es

/-- What a call leaves: `Named`, and every queued operation covered by a request to mark the
field dirty. -/
def Tended (h : HostView) (o : FieldOwner) (st : Wrapper × List HostEvent) : Prop :=
  Named h o st ∧ Covered o st.2

/-- What the rounds of a loop leave: `Named`, and either nothing queued without its request
to mark dirty, or a round answered `true` on a collection. -/
def Pending (h : HostView) (o : FieldOwner) (any : Bool) (st : Wrapper × List HostEvent) :
    Prop :=
  Named h o st ∧ (Covered o st.2 ∨ any = true ∧ ∃ k xs, st.1.content = .collection k xs)

/-- What the rounds of a loop over a map leave: `Named` on a map, and either nothing queued
without its request to mark dirty, or `c`. -/
def OnMap (h : HostView) (o : FieldOwner) (c : Prop) (st : Wrapper × List HostEvent) : Prop :=
  Named h o st ∧ (∃ s es, st.1.content = .map s es) ∧ (Covered o st.2 ∨ c)

abbrev tended {α} (h : HostView) (o : FieldOwner) :
    PostCond α (.except EngineError (.arg (Wrapper × List HostEvent) .pure)) :=
  post⟨fun _ s => ⌜Tended h o s⌝, fun _ s => ⌜Tended h o s⌝⟩

section Requests

variable {h : HostView} {o : FieldOwner}

theorem tended_start {w : Wrapper} (hw : w.owner = some o) : Tended h o (w, []) :=
  ⟨⟨hw, fun _ => False.elim ∘ List.not_mem_nil, fun _ _ => List.not_mem_nil⟩,
    .inr fun _ => List.not_mem_nil⟩

@[simp] theorem from_makeDirty (o' : FieldOwner) : (HostEvent.makeDirty o').From o ↔ o' = o :=
  Iff.rfl

@[simp] theorem from_enqueue (op : Operation) :
    (HostEvent.enqueue op).From o ↔ op.owner = o.object ∧ op.field = o.field := Iff.rfl

@[simp] theorem from_relationAdd (o' : FieldOwner) (e : Value) :
    (HostEvent.relationAdd o' e).From o ↔ o' = o := Iff.rfl

@[simp] theorem from_relationRemove (o' : FieldOwner) (e : Value) :
    (HostEvent.relationRemove o' e).From o ↔ o' = o := Iff.rfl

@[simp] theorem from_deleteDependent (e : Value) : (HostEvent.deleteDependent e).From o :=
  trivial

@[simp] theorem from_nontransactional (o' : FieldOwner) :
    (HostEvent.nontransactional o').From o ↔ o' = o := Iff.rfl

@[simp] theorem named_append {w : Wrapper} {es more : List HostEvent} :
    Named h o (w, es ++ more) ↔
      Named h o (w, es) ∧ ∀ e ∈ more, e.From o ∧ (h.queued = false → ∀ op, e ≠ .enqueue op) := by
  simp only [Named, List.mem_append]
  constructor
  · rintro ⟨hw, hf, hq⟩
    exact ⟨⟨hw, fun e' he' => hf e' (.inl he'), fun hq' op hop => hq hq' op (.inl hop)⟩,
      fun e he => ⟨hf e (.inr he), fun hq' op hop => hq hq' op (.inr (hop ▸ he))⟩⟩
  · rintro ⟨⟨hw, hf, hq⟩, hmore⟩
    refine ⟨hw, fun e' he' => ?_, fun hqf op hop => ?_⟩
    · rcases he' with he' | he'
      · exact hf e' he'
      · exact (hmore e' he').1
    · rcases hop with hop | hop
      · exact hq hqf op hop
      · exact (hmore _ hop).2 hqf op rfl

@[simp] theorem named_content {w : Wrapper} {es : List HostEvent} {c : Content} :
    Named h o ({ w with content := c }, es) ↔ Named h o (w, es) := Iff.rfl

@[simp] theorem covered_append {es more : List HostEvent} :
    Covered o (es ++ more) ↔
      (HostEvent.makeDirty o ∈ es ∨ HostEvent.makeDirty o ∈ more) ∨
        (∀ op, HostEvent.enqueue op ∉ es) ∧ ∀ op, HostEvent.enqueue op ∉ more := by
  simp only [Covered, List.mem_append, not_or]
  exact or_congr Iff.rfl forall_and

end Requests

/-! ### Loops -/

theorem forM_spec {α} {P : Wrapper × List HostEvent → Prop}
    {E : EngineError → Wrapper × List HostEvent → Prop} {f : α → WrapperCall PUnit} :
    ∀ l : List α, (∀ a ∈ l, ⦃fun s => ⌜P s⌝⦄ f a ⦃post⟨fun _ s => ⌜P s⌝, fun e s => ⌜E e s⌝⟩⦄) →
      ⦃fun s => ⌜P s⌝⦄ l.forM f ⦃post⟨fun _ s => ⌜P s⌝, fun e s => ⌜E e s⌝⟩⦄
  | [], _ => by
    mvcgen [List.forM]
  | a :: l, hf => by
    have hHead := hf a List.mem_cons_self
    have hTail := forM_spec l fun b hb => hf b (List.mem_cons_of_mem a hb)
    mvcgen [List.forM, hHead, hTail]

section Calls

variable {h : HostView} {o : FieldOwner}

theorem changed_tended : ⦃fun s => ⌜Named h o s⌝⦄ changed h o ⦃tended h o⦄ := by
  mvcgen [changed, emit]
  all_goals simp_all +zetaDelta [Tended]

theorem cascadeRemoval_named (R : Wrapper → Prop) (p : Payload) (e : Value) (ac : Bool) :
    ⦃fun s => ⌜Named h o s ∧ R s.1⌝⦄ cascadeRemoval h o p e ac
    ⦃post⟨fun _ s => ⌜Named h o s ∧ R s.1⌝, fun _ _ => ⌜False⌝⟩⦄ := by
  mvcgen [cascadeRemoval, emit, wrapper]
  all_goals simp_all +zetaDelta [Operation.remove]

/-! ### Collections -/

theorem removeRound_pending (ac any : Bool) (e : Value) :
    ⦃fun s => ⌜Pending h o any s⌝⦄ removeRound h o ac any e
    ⦃post⟨fun r s => ⌜Pending h o r s⌝, fun _ s => ⌜Tended h o s⌝⟩⦄ := by
  have hCascade := @cascadeRemoval_named h o fun w => ∃ k xs, w.content = .collection k xs
  mvcgen [removeRound, sequence, wrapper, setContent, emit, hCascade]
  all_goals clear hCascade; simp_all +zetaDelta [Pending, Tended, Covered]

theorem removeEach_pending (es : List Value) (ac : Bool) :
    ⦃fun s => ⌜Tended h o s⌝⦄ removeEach h o es ac
    ⦃post⟨fun r s => ⌜Pending h o r s⌝, fun _ s => ⌜Tended h o s⌝⟩⦄ := by
  have hRound := @removeRound_pending h o ac
  mvcgen [removeEach, hRound] invariants
  | inv1 => post⟨fun p s => ⌜Pending h o p.2 s⌝, fun _ s => ⌜Tended h o s⌝⟩
  all_goals clear hRound; simp_all [Pending, Tended]

theorem insertRound_pending (any : Bool) (e : Value) :
    ⦃fun s => ⌜Pending h o any s⌝⦄ insertRound h o any e
    ⦃post⟨fun r s => ⌜Pending h o r s⌝, fun _ s => ⌜Tended h o s⌝⟩⦄ := by
  mvcgen [insertRound, sequence, wrapper, setContent, emit]
  all_goals simp_all +zetaDelta [Pending, Tended, Covered, Operation.add]

theorem insertEach_pending (es : List Value) :
    ⦃fun s => ⌜Tended h o s⌝⦄ insertEach h o es
    ⦃post⟨fun r s => ⌜Pending h o r s⌝, fun _ s => ⌜Tended h o s⌝⟩⦄ := by
  have hRound := @insertRound_pending h o
  mvcgen [insertEach, hRound] invariants
  | inv1 => post⟨fun p s => ⌜Pending h o p.2 s⌝, fun _ s => ⌜Tended h o s⌝⟩
  all_goals clear hRound; simp_all [Pending, Tended]

theorem releaseAll_named (es : List Value) :
    ⦃fun s => ⌜Named h o s⌝⦄ releaseAll h o es
    ⦃post⟨fun _ s => ⌜Named h o s⌝, fun _ _ => ⌜False⌝⟩⦄ := by
  have hCascade := fun o => @cascadeRemoval_named h o fun _ => True
  refine forM_spec es fun e _ => ?_
  mvcgen [releaseOne, emit, hCascade]
  all_goals clear hCascade; simp_all +zetaDelta

theorem checks_tended (es : List Value) :
    ⦃fun s => ⌜Tended h o s⌝⦄ es.forM checkNullable ⦃tended h o⦄ := by
  refine forM_spec es fun e _ => ?_
  mvcgen [checkNullable, wrapper]

theorem add_tended (e : Value) : ⦃fun s => ⌜Tended h o s⌝⦄ add h e ⦃tended h o⦄ := by
  have hInsertEach := @insertEach_pending h
  have hChanged := @changed_tended h
  mvcgen [add, sequence, wrapper, bound, checkNullable, hInsertEach, hChanged]
  all_goals clear hInsertEach hChanged; simp_all [Pending, Tended, Named, Covered]

theorem addAll_tended (es : List Value) : ⦃fun s => ⌜Tended h o s⌝⦄ addAll h es ⦃tended h o⦄ := by
  have hInsertEach := @insertEach_pending h
  have hChanged := @changed_tended h
  have hChecks := @checks_tended h
  mvcgen [addAll, sequence, wrapper, bound, hInsertEach, hChanged, hChecks]
  all_goals clear hInsertEach hChanged hChecks; simp_all [Pending, Tended, Named, Covered]

theorem remove_tended (e : Value) (ac : Bool) :
    ⦃fun s => ⌜Tended h o s⌝⦄ remove h e ac ⦃tended h o⦄ := by
  have hRemoveEach := @removeEach_pending h
  have hChanged := @changed_tended h
  mvcgen [remove, sequence, wrapper, bound, hRemoveEach, hChanged]
  all_goals clear hRemoveEach hChanged; simp_all [Pending, Tended, Named, Covered]

theorem removeAll_tended (es : List Value) :
    ⦃fun s => ⌜Tended h o s⌝⦄ removeAll h es ⦃tended h o⦄ := by
  have hRemoveEach := @removeEach_pending h
  have hChanged := @changed_tended h
  mvcgen [removeAll, sequence, wrapper, bound, hRemoveEach, hChanged]
  all_goals clear hRemoveEach hChanged; simp_all [Pending, Tended, Named, Covered]

theorem retainAll_tended (keep : List Value) :
    ⦃fun s => ⌜Tended h o s⌝⦄ retainAll h keep ⦃tended h o⦄ := by
  have hRemoveEach := @removeEach_pending h
  have hChanged := @changed_tended h
  mvcgen [retainAll, sequence, wrapper, bound, hRemoveEach, hChanged]
  all_goals clear hRemoveEach hChanged; simp_all [Pending, Tended, Named, Covered]

theorem attachCollection_tended (detached : List Value) :
    ⦃fun s => ⌜Tended h o s⌝⦄ attachCollection h detached ⦃tended h o⦄ := by
  have hRemoveEach := @removeEach_pending h
  have hAddAll := @addAll_tended h
  have hChanged := @changed_tended h
  mvcgen [attachCollection, sequence, wrapper, bound, hRemoveEach, hAddAll, hChanged]
  all_goals clear hRemoveEach hAddAll hChanged; simp_all [Pending, Tended, Named, Covered]

/-! ### Lists -/

theorem get_tended (i : Nat) : ⦃fun s => ⌜Tended h o s⌝⦄ get i ⦃tended h o⦄ := by
  mvcgen [get, listItems, wrapper]

theorem insertAt_tended (i : Nat) (e : Value) :
    ⦃fun s => ⌜Tended h o s⌝⦄ insertAt h i e ⦃tended h o⦄ := by
  have hChanged := @changed_tended h
  mvcgen [insertAt, listItems, wrapper, bound, checkNullable, setContent, emit, hChanged]
  all_goals clear hChanged; simp_all +zetaDelta [Tended, Named, Covered, or_imp, Operation.add]

theorem setAt_tended (i : Nat) (e : Value) (ac : Bool) :
    ⦃fun s => ⌜Tended h o s⌝⦄ setAt h i e ac ⦃tended h o⦄ := by
  have hChanged := @changed_tended h
  mvcgen [setAt, listItems, wrapper, bound, checkNullable, setContent, emit, hChanged]
  all_goals clear hChanged
  all_goals simp_all +zetaDelta [Tended, Named, Covered, or_imp, Operation.add, Operation.remove]

theorem removeAt_tended (i : Nat) : ⦃fun s => ⌜Tended h o s⌝⦄ removeAt h i ⦃tended h o⦄ := by
  have hCascade := fun o => @cascadeRemoval_named h o fun _ => True
  have hChanged := @changed_tended h
  mvcgen [removeAt, listItems, wrapper, bound, setContent, emit, hCascade, hChanged]
  all_goals clear hCascade hChanged; simp_all +zetaDelta [Tended, Named, Covered, or_imp]

/-! ### Maps -/

theorem removeEntry_onMap (c : Prop) (k : Value) (ac : Bool) :
    ⦃fun s => ⌜OnMap h o c s⌝⦄ removeEntry h o k ac
    ⦃post⟨fun r s => ⌜OnMap h o (c ∨ r.isSome = true) s⌝, fun _ _ => ⌜False⌝⟩⦄ := by
  mvcgen [removeEntry, entries, wrapper, setContent, emit]
  all_goals simp_all +zetaDelta [OnMap, Named, Covered, or_imp, forall_and, Operation.remove]

theorem removeKeys_onMap (keys : List Value) (ac : Bool) :
    ⦃fun s => ⌜OnMap h o (keys ≠ []) s⌝⦄ removeKeys h o keys ac
    ⦃post⟨fun _ s => ⌜OnMap h o (keys ≠ []) s⌝, fun _ _ => ⌜False⌝⟩⦄ := by
  have hRemoveEntry := @removeEntry_onMap h o (keys ≠ [])
  refine forM_spec keys fun k hk => ?_
  mvcgen [hRemoveEntry]
  rename_i s hs
  have hne : keys ≠ [] := List.ne_nil_of_mem hk
  simp_all [OnMap]

theorem putEntry_onMap (c : Prop) (k v : Value) :
    ⦃fun s => ⌜OnMap h o c s⌝⦄ putEntry h o k v
    ⦃post⟨fun r s => ⌜OnMap h o (c ∨ r.2 = true) s⌝, fun _ _ => ⌜False⌝⟩⦄ := by
  mvcgen [putEntry, entries, wrapper, setContent, emit]
  all_goals simp_all +zetaDelta [OnMap, Named, Covered, or_imp, forall_and, Operation.add]

theorem validateAll_keeps (P : Wrapper × List HostEvent → Prop) (kvs : List (Value × Value)) :
    ⦃fun s => ⌜P s⌝⦄ validateAll kvs ⦃post⟨fun _ s => ⌜P s⌝, fun _ s => ⌜P s⌝⟩⦄ := by
  refine forM_spec kvs fun kv _ => ?_
  mvcgen [validate, checkNullable, wrapper]

theorem clear_tended : ⦃fun s => ⌜Tended h o s⌝⦄ clear h ⦃tended h o⦄ := by
  have hRemoveKeys := @removeKeys_onMap h
  have hReleaseAll := @releaseAll_named h
  have hChanged := @changed_tended h
  mvcgen [clear, sequence, entries, wrapper, bound, setContent, hRemoveKeys, hReleaseAll, hChanged]
  all_goals clear hRemoveKeys hReleaseAll hChanged; simp_all +zetaDelta [Tended, OnMap, Named, Covered]

theorem put_tended (k v : Value) : ⦃fun s => ⌜Tended h o s⌝⦄ put h k v ⦃tended h o⦄ := by
  have hPutEntry := fun o => @putEntry_onMap h o False
  have hChanged := @changed_tended h
  mvcgen [put, entries, wrapper, bound, validate, checkNullable, hPutEntry, hChanged]
  all_goals clear hPutEntry hChanged; simp_all [Tended, OnMap, Named, Covered]

theorem removeKey_tended (k : Value) : ⦃fun s => ⌜Tended h o s⌝⦄ removeKey h k ⦃tended h o⦄ := by
  have hRemoveEntry := fun o => @removeEntry_onMap h o False
  have hChanged := @changed_tended h
  mvcgen [removeKey, entries, wrapper, bound, hRemoveEntry, hChanged]
  all_goals clear hRemoveEntry hChanged; simp_all [Tended, OnMap, Named, Covered]

theorem dropRound_onMap (any : Bool) (k : Value) :
    ⦃fun s => ⌜OnMap h o (any = true) s⌝⦄ dropRound h o any k
    ⦃post⟨fun r s => ⌜OnMap h o (r = true) s⌝, fun _ _ => ⌜False⌝⟩⦄ := by
  have hRemoveEntry := @removeEntry_onMap h o (any = true)
  mvcgen [dropRound, hRemoveEntry]
  all_goals clear hRemoveEntry; simp_all [OnMap]

theorem attachRound_onMap (any : Bool) (kv : Value × Value) :
    ⦃fun s => ⌜OnMap h o (any = true) s⌝⦄ attachRound h o any kv
    ⦃post⟨fun r s => ⌜OnMap h o (r = true) s⌝, fun _ _ => ⌜False⌝⟩⦄ := by
  have hPutEntry := @putEntry_onMap h o (any = true)
  mvcgen [attachRound, entries, wrapper, hPutEntry]
  all_goals clear hPutEntry; simp_all [OnMap]

theorem attachMap_tended (detached : List (Value × Value)) :
    ⦃fun s => ⌜Tended h o s⌝⦄ attachMap h detached ⦃tended h o⦄ := by
  have hDropRound := @dropRound_onMap h
  have hAttachRound := @attachRound_onMap h
  have hValidateAll :=
    validateAll_keeps (fun s => Tended h o s ∧ ∃ b es, s.1.content = .map b es) detached
  have hChanged := @changed_tended h
  mvcgen [attachMap, entries, wrapper, bound, hDropRound, hAttachRound, hValidateAll,
    hChanged] invariants
  | inv1 => post⟨fun p s => ⌜OnMap h o (p.2 = true) s⌝, fun _ _ => ⌜False⌝⟩
  | inv2 => post⟨fun p s => ⌜OnMap h o (p.2 = true) s⌝, fun _ _ => ⌜False⌝⟩
  all_goals clear hDropRound hAttachRound hValidateAll hChanged
  all_goals simp_all [Tended, OnMap, Named, Covered, ExceptConds.entails]

/-! ### Mutable scalars and attaching -/

theorem setScalar_tended (v : Value) : ⦃fun s => ⌜Tended h o s⌝⦄ setScalar h v ⦃tended h o⦄ := by
  have hChanged := @changed_tended h
  mvcgen [setScalar, wrapper, bound, checkNullable, setContent, hChanged]
  all_goals clear hChanged; simp_all +zetaDelta [Tended, Named, Covered]

theorem attach_tended (d : FieldData) : ⦃fun s => ⌜Tended h o s⌝⦄ attach h d ⦃tended h o⦄ := by
  have hSetScalar := @setScalar_tended h o
  have hAttachMap := @attachMap_tended h o
  have hAttachCollection := @attachCollection_tended h o
  mvcgen [attach, wrapper, hSetScalar, hAttachMap, hAttachCollection]

end Calls

end WrapperCall

end ObjectPersistence
