import Mathlib
import ObjectPersistence.Proofs.WrapperExec

/-! # Wrappers behave as plain containers

Whatever its shape, policy and initial content, a wrapper run through any calls, with any
answers of its owner, holds what the plain container of its shape holds after the same
calls, and each call answers as the plain container does: the same result, or an error
reporting the same fault. Only the requests a wrapper makes of its owner are left aside.

The proof is a simulation. `Represents` relates a wrapper to a plain state: the same binding,
the same policy on nulls, and content that reads as the plain container (a sorted kind is
the sorted form of the plain elements, a sorted map the plain entries in key order, each key
once). One lemma per call shows that the call keeps the relation and agrees on its result;
the loops inside the calls go through `exec_foldlM` with one `Follows` lemma per kind of
round. The run of calls then keeps the relation by induction, and `Wrapper.wrap` starts in it. -/

namespace ObjectPersistence

open WrapperCall

/-- Wrapper content that reads as a plain container: a collection as the plain elements read
by their kind, a map as the plain entries read in its order with each key once, a scalar as
the single value. -/
inductive Holds : Content → PlainContainer → Prop
  | collection (k : CollectionKind) (xs : List Value) :
      Holds (.collection k (k.view xs)) (.collection k xs)
  | map (s : Bool) {es : List (Value × Value)} (hd : Container.KeysNodup es) :
      Holds (.map s (Plain.viewMap s es)) (.map s es)
  | scalar (v : Value) : Holds (.scalar v) (.single v)

/-- A wrapper stands for a plain state: bound alike, taking nulls alike, and holding what the
plain container holds. -/
structure Represents (w : Wrapper) (p : PlainState) : Prop where
  bound : w.owner.isSome = p.bound
  allowNulls : w.policy.allowNulls = p.allowNulls
  holds : Holds w.content p.container

theorem Represents.detachCopy {w : Wrapper} {p : PlainState} (hr : Represents w p) :
    w.detachCopy = p.container.content := by
  rcases w with ⟨o, policy, c⟩
  rcases p with ⟨container, bound, allowNulls⟩
  rcases hr with ⟨-, -, hh⟩
  cases hh <;> rfl

theorem Holds.list_left {xs : List Value} {pc : PlainContainer}
    (h : Holds (.collection .list xs) pc) : pc = .collection .list xs := by
  generalize hc : Content.collection .list xs = c at h
  cases h with
  | collection k ys =>
    cases hc
    rfl
  | map => cases hc
  | scalar => cases hc

theorem Holds.list_right {c : Content} {xs : List Value}
    (h : Holds c (.collection .list xs)) : c = .collection .list xs := by
  cases h
  rfl

namespace ScoCall

/-- The call on a wrapper, with the owner's answers during it. -/
def onWrapper : ScoCall → HostView → WrapperCall Answer
  | .add e, h => .flag <$> WrapperCall.add h e
  | .addAll es, h => .flag <$> WrapperCall.addAll h es
  | .remove e c, h => .flag <$> WrapperCall.remove h e c
  | .removeAll es, h => .flag <$> WrapperCall.removeAll h es
  | .retainAll keep, h => .flag <$> WrapperCall.retainAll h keep
  | .clear, h => (fun _ => .done) <$> WrapperCall.clear h
  | .insertAt i e, h => (fun _ => .done) <$> WrapperCall.insertAt h i e
  | .setAt i e c, h => .value <$> WrapperCall.setAt h i e c
  | .removeAt i, h => .value <$> WrapperCall.removeAt h i
  | .get i, _ => .found <$> WrapperCall.get i
  | .put k v, h => .found <$> WrapperCall.put h k v
  | .putAll kvs, h => .flag <$> WrapperCall.putAll h kvs
  | .removeKey k, h => .found <$> WrapperCall.removeKey h k
  | .retainKeys keep, h => .flag <$> WrapperCall.retainKeys h keep
  | .setScalar v, h => .value <$> WrapperCall.setScalar h v
  | .unsetOwner, _ => do
    modify fun (w, es) => (w.unsetOwner, es)
    pure .done

def positional : ScoCall → Bool
  | .insertAt .. | .setAt .. | .removeAt _ | .get _ => true
  | _ => false

theorem fits_positional {pc : ScoCall} {con : PlainContainer} (hpc : pc.positional)
    (hf : pc.fits con) : ∃ xs, con = .collection .list xs := by
  -- on anything but a list, either the call takes no position or it does not fit
  rcases con with ⟨_ | _ | _ | _, xs⟩ | _ | _
  all_goals cases pc <;>
    first | exact ⟨xs, rfl⟩ | exact absurd hpc Bool.false_ne_true | exact absurd hf Bool.false_ne_true

end ScoCall

/-- Calls run in turn on a wrapper, each with the owner's answers for it: the wrapper after
them and each call's result. -/
def Wrapper.runCalls (w : Wrapper) : List (HostView × ScoCall) →
    Wrapper × List (Except EngineError Answer)
  | [] => (w, [])
  | (h, c) :: cs =>
    let r := (c.onWrapper h).run w
    let t := Wrapper.runCalls r.1 cs
    (t.1, r.2.2 :: t.2)

/-- From a wrapper standing for a plain state, a call agrees with the plain call on its result
and leaves a wrapper that stands for the plain state after it. -/
def RefinesAt (c : WrapperCall Answer) (pc : ScoCall) (w : Wrapper) (p : PlainState)
    (es : List HostEvent) : Prop :=
  Agrees (c.exec (w, es)).1 (p.perform pc).2 ∧ Represents (c.exec (w, es)).2.1 (p.perform pc).1

def Refines (c : WrapperCall Answer) (pc : ScoCall) : Prop :=
  ∀ w p es, Represents w p → RefinesAt c pc w p es

theorem Refines.intro {c : WrapperCall Answer} {pc : ScoCall}
    (hcoll : ∀ w p es k xs, Represents w p → w.content = .collection k (k.view xs) →
      p.container = .collection k xs → RefinesAt c pc w p es)
    (hmap : ∀ w p es s fs, Represents w p → Container.KeysNodup fs →
      w.content = .map s (Plain.viewMap s fs) → p.container = .map s fs → RefinesAt c pc w p es)
    (hscalar : ∀ w p es v, Represents w p → w.content = .scalar v → p.container = .single v →
      RefinesAt c pc w p es) :
    Refines c pc := by
  intro w p es hr
  have hh := hr.holds
  generalize hc : w.content = content at hh
  generalize hp : p.container = container at hh
  cases hh with
  | collection k xs => exact hcoll w p es k xs hr hc hp
  | map s hd => exact hmap w p es s _ hr hd hc hp
  | scalar v => exact hscalar w p es v hr hc hp

/-! ## Refusals -/

/-- A call that both sides refuse, the wrapper with an error reporting the plain fault and
without changing, keeps the relation. -/
theorem refines_refused {c : WrapperCall Answer} {pc : ScoCall} {w : Wrapper} {p : PlainState}
    {es : List HostEvent} (f : Fault) {e : EngineError} (hr : Represents w p)
    (hfault : p.fault pc = some f) (hexec : (c.exec (w, es)).1 = .error e ∧ (c.exec (w, es)).2.1 = w)
    (hrep : f.Reports e) : RefinesAt c pc w p es := by
  simp only [RefinesAt, hexec, PlainState.perform, hfault]
  exact ⟨hrep, hr⟩

theorem refines_misfit {c : WrapperCall Answer} {pc : ScoCall} {w : Wrapper} {p : PlainState}
    {es : List HostEvent} (hr : Represents w p) (hfits : pc.fits p.container = false)
    (hexec : (∃ a b, (c.exec (w, es)).1 = .error (.shapeMismatch a b)) ∧ (c.exec (w, es)).2.1 = w) :
    RefinesAt c pc w p es := by
  obtain ⟨⟨a, b, hres⟩, hw⟩ := hexec
  exact refines_refused .shapeMismatch hr (by simp [PlainState.fault, hfits]) ⟨hres, hw⟩ ⟨a, b, rfl⟩

/-- A refinement of a call that only fits lists is shown on lists, given that the wrapper
refuses it with a shape mismatch on any other content. -/
theorem Refines.intro_list {c : WrapperCall Answer} {pc : ScoCall} (hpc : pc.positional)
    (hmisfit : ∀ w es, (∀ xs, w.content ≠ .collection .list xs) →
      (∃ a b, (c.exec (w, es)).1 = .error (.shapeMismatch a b)) ∧ (c.exec (w, es)).2.1 = w)
    (hlist : ∀ w p es xs, Represents w p → w.content = .collection .list xs →
      p.container = .collection .list xs → RefinesAt c pc w p es) :
    Refines c pc := by
  intro w p es hr
  by_cases hl : ∃ xs, w.content = .collection .list xs
  · obtain ⟨xs, hc⟩ := hl
    have hh := hr.holds
    rw [hc] at hh
    exact hlist w p es xs hr hc hh.list_left
  · rw [not_exists] at hl
    refine refines_misfit hr ?_ (hmisfit w es hl)
    cases hf : pc.fits p.container
    · rfl
    · obtain ⟨xs, hp⟩ := ScoCall.fits_positional hpc hf
      have hh := hr.holds
      rw [hp] at hh
      exact absurd hh.list_right (hl xs)

theorem refines_unbound {c : WrapperCall Answer} {pc : ScoCall} {w : Wrapper} {p : PlainState}
    {es : List HostEvent} (hr : Represents w p) (ho : w.owner = none)
    (hfits : pc.fits p.container) (hneeds : pc.needsOwner)
    (hexec : (c.exec (w, es)).1 = .error .unbound ∧ (c.exec (w, es)).2.1 = w) :
    RefinesAt c pc w p es := by
  have hb : p.bound = false := by simpa [ho] using hr.bound.symm
  exact refines_refused .unbound hr (by simp [PlainState.fault, hfits, hneeds, hb]) hexec rfl

theorem fault_of_bound {w : Wrapper} {p : PlainState} {o : FieldOwner} (pc : ScoCall)
    (hr : Represents w p) (ho : w.owner = some o) (hfits : pc.fits p.container) :
    p.fault pc = pc.argumentFault w.policy.allowNulls p.container := by
  have hb : p.bound = true := by simpa [ho] using hr.bound.symm
  simp [PlainState.fault, hfits, hb, hr.allowNulls]

/-- A call that both sides carry out keeps the relation when the wrapper answers as the plain
container does and, bound and with its policy as before, holds what the plain container holds
after the call. -/
theorem refines_done {c : WrapperCall Answer} {pc : ScoCall} {w : Wrapper} {p : PlainState}
    {es : List HostEvent} (hr : Represents w p) (hpc : pc ≠ .unsetOwner)
    (hfault : p.fault pc = none) (hres : (c.exec (w, es)).1 = .ok (p.container.apply pc).2)
    (howner : (c.exec (w, es)).2.1.owner = w.owner)
    (hpolicy : (c.exec (w, es)).2.1.policy = w.policy)
    (hholds : Holds (c.exec (w, es)).2.1.content (p.container.apply pc).1) :
    RefinesAt c pc w p es := by
  have hperform : p.perform pc = ({ p with container := (p.container.apply pc).1 },
      .ok (p.container.apply pc).2) := by
    unfold PlainState.perform
    rw [hfault]
    cases pc <;> simp_all
  rw [RefinesAt, hres, hperform]
  exact ⟨rfl, ⟨howner ▸ hr.bound, hpolicy ▸ hr.allowNulls, hholds⟩⟩

/-- A call on a collection that both sides carry out keeps the relation when the wrapper
answers as the plain container does and holds the elements the plain container ends with,
read by their kind. -/
theorem refines_collection {c : WrapperCall Answer} {pc : ScoCall} {w : Wrapper} {p : PlainState}
    {es : List HostEvent} {k : CollectionKind} {ys : List Value} {a : Answer}
    (hr : Represents w p) (hpc : pc ≠ .unsetOwner) (hfault : p.fault pc = none)
    (happly : p.container.apply pc = (.collection k ys, a))
    (hcall : (c.exec (w, es)).1 = .ok a ∧
      (c.exec (w, es)).2.1 = { w with content := .collection k (k.view ys) }) :
    RefinesAt c pc w p es := by
  refine refines_done hr hpc hfault ?_ ?_ ?_ ?_
  · rw [hcall.1, happly]
  · rw [hcall.2]
  · rw [hcall.2]
  · rw [hcall.2, happly]
    exact .collection k ys

/-- A call on a map that both sides carry out keeps the relation when the wrapper answers as
the plain container does and holds the entries the plain container ends with, each key once,
read in its order. -/
theorem refines_map {c : WrapperCall Answer} {pc : ScoCall} {w : Wrapper} {p : PlainState}
    {es : List HostEvent} {s : Bool} {fs : List (Value × Value)} {a : Answer}
    (hr : Represents w p) (hpc : pc ≠ .unsetOwner) (hfault : p.fault pc = none)
    (happly : p.container.apply pc = (.map s fs, a)) (hd : Container.KeysNodup fs)
    (hcall : (c.exec (w, es)).1 = .ok a ∧
      (c.exec (w, es)).2.1 = { w with content := .map s (Plain.viewMap s fs) }) :
    RefinesAt c pc w p es := by
  refine refines_done hr hpc hfault ?_ ?_ ?_ ?_
  · rw [hcall.1, happly]
  · rw [hcall.2]
  · rw [hcall.2]
  · rw [hcall.2, happly]
    exact .map s hd

/-! ## Rounds -/

section Rounds

variable (h : HostView) (o : FieldOwner) (w₀ : Wrapper) (k : CollectionKind)

theorem follows_insertRound :
    Follows (fun st xs => st.1 = { w₀ with content := .collection k (k.view xs) })
      (insertRound h o) (Plain.insert k) := by
  rintro any e ⟨w, es⟩ xs hw
  simp only at hw
  subst hw
  obtain ⟨evs, hexec, -⟩ := exec_insertRound h o { w₀ with content := .collection k (k.view xs) }
    es rfl any e
  rw [CollectionKind.insert_view] at hexec
  exact ⟨_, hexec, rfl⟩

theorem follows_removeRound (ac : Bool) (f : List Value → List Value)
    (hf : ∀ xs e, Container.removeFirst (f xs) e =
      (f (Container.removeFirst xs e).1, (Container.removeFirst xs e).2)) :
    Follows (fun st xs => st.1 = { w₀ with content := .collection k (f xs) })
      (removeRound h o ac) Container.removeFirst := by
  rintro any e ⟨w, es⟩ xs hw
  simp only at hw
  subst hw
  obtain ⟨evs, hexec, -⟩ := exec_removeRound h o { w₀ with content := .collection k (f xs) }
    es rfl ac any e
  have hstep := hf xs e
  simp only [Container.removeFirst, Prod.mk.injEq] at hstep
  rw [hstep.2] at hexec
  exact ⟨_, hexec, by simp only [Container.removeFirst, hstep.1]⟩

theorem follows_putRound (s : Bool) :
    Follows (fun st fs => st.1 = { w₀ with content := .map s (Plain.viewMap s fs) } ∧
        Container.KeysNodup fs)
      (putRound h o) Plain.putChanged := by
  rintro any kv ⟨w, es⟩ fs ⟨hw, hd⟩
  simp only at hw
  subst hw
  obtain ⟨evs, hexec, -⟩ := exec_putRound h o { w₀ with content := .map s (Plain.viewMap s fs) }
    es rfl any kv
  rw [Plain.put_viewMap s hd] at hexec
  exact ⟨_, hexec, rfl, Container.keysNodup_put hd kv.1 kv.2⟩

end Rounds

/-! ## Collections -/

theorem refines_add (h : HostView) (e : Value) : Refines (.flag <$> add h e) (.add e) := by
  refine Refines.intro (fun w p es k xs hr hc hp => ?_) (fun w p es s fs hr _ hc hp => ?_)
    (fun w p es v hr hc hp => ?_)
  · cases ho : w.owner with
    | none =>
      exact refines_unbound hr ho (by rw [hp]; rfl) rfl
        (by simp [add, exec_bind, exec_discard, exec_sequence, exec_bound, hc, ho])
    | some o =>
      have hfault := fault_of_bound (.add e) hr ho (by rw [hp]; rfl)
      by_cases hnull : e.isNull && !w.policy.allowNulls
      · refine refines_refused .nullElement hr ?_ ?_ rfl
        · simp [hfault, ScoCall.argumentFault, ScoCall.nullFault, hnull]
        · simp [add, exec_bind, exec_discard, exec_sequence, exec_bound, exec_checkNullable, hc,
            ho, hnull]
      · -- the element goes in as the plain insertion says
        obtain ⟨⟨w', es'⟩, hloop, hst⟩ :=
          exec_foldlM_false (follows_insertRound h o w k) [e] (w, es) xs
            (Wrapper.with_content_self hc).symm
        simp only at hst
        subst hst
        have hcall : ((Answer.flag <$> add h e).exec (w, es)).1 =
              .ok (.flag (foldSteps (Plain.insert k) xs [e]).2) ∧
            ((Answer.flag <$> add h e).exec (w, es)).2.1 =
              { w with content := .collection k (k.view (foldSteps (Plain.insert k) xs [e]).1) } := by
          simp only [add, exec_map, exec_bind, exec_discard, exec_sequence, exec_bound,
            exec_checkNullable, hc, ho, hnull, Bool.false_eq_true, if_false, insertEach, hloop,
            exec_ite, exec_changed, exec_pure]
          split_ifs <;> simp
        exact refines_collection hr (by simp)
          (by simp [hfault, ScoCall.argumentFault, ScoCall.nullFault, hnull])
          (by simp [hp, PlainContainer.apply]) hcall
  · exact refines_misfit hr (by rw [hp]; rfl)
      (by simp [add, exec_bind, exec_discard, exec_sequence, hc])
  · exact refines_misfit hr (by rw [hp]; rfl)
      (by simp [add, exec_bind, exec_discard, exec_sequence, hc])

theorem refines_addAll (h : HostView) (l : List Value) :
    Refines (.flag <$> addAll h l) (.addAll l) := by
  refine Refines.intro (fun w p es k xs hr hc hp => ?_) (fun w p es s fs hr _ hc hp => ?_)
    (fun w p es v hr hc hp => ?_)
  · cases ho : w.owner with
    | none =>
      exact refines_unbound hr ho (by rw [hp]; rfl) rfl
        (by simp [addAll, exec_bind, exec_discard, exec_sequence, exec_bound, hc, ho])
    | some o =>
      have hfault := fault_of_bound (.addAll l) hr ho (by rw [hp]; rfl)
      cases hnull : l.findSome? (ScoCall.nullFault w.policy.allowNulls) with
      | some f =>
        -- the first refused null refuses the whole batch
        refine refines_refused f hr (by simp [hfault, ScoCall.argumentFault, hnull]) ?_
          f.reports_toError
        simp only [addAll, exec_map, exec_bind, exec_discard, exec_sequence, exec_bound,
          exec_checkAll, hc, ho, hnull]
        simp
      | none =>
        obtain ⟨⟨w', es'⟩, hloop, hst⟩ :=
          exec_foldlM_false (follows_insertRound h o w k) l (w, es) xs
            (Wrapper.with_content_self hc).symm
        simp only at hst
        subst hst
        have hcall : ((Answer.flag <$> addAll h l).exec (w, es)).1 =
              .ok (.flag (foldSteps (Plain.insert k) xs l).2) ∧
            ((Answer.flag <$> addAll h l).exec (w, es)).2.1 =
              { w with content := .collection k (k.view (foldSteps (Plain.insert k) xs l).1) } := by
          simp only [addAll, exec_map, exec_bind, exec_discard, exec_sequence, exec_bound,
            exec_checkAll, hc, ho, hnull, Option.map_none, Option.elim, insertEach, hloop,
            exec_ite, exec_changed, exec_pure]
          split_ifs <;> simp
        exact refines_collection hr (by simp) (by simp [hfault, ScoCall.argumentFault, hnull])
          (by simp [hp, PlainContainer.apply]) hcall
  · exact refines_misfit hr (by rw [hp]; rfl)
      (by simp [addAll, exec_bind, exec_discard, exec_sequence, hc])
  · exact refines_misfit hr (by rw [hp]; rfl)
      (by simp [addAll, exec_bind, exec_discard, exec_sequence, hc])

theorem refines_remove (h : HostView) (e : Value) (ac : Bool) :
    Refines (.flag <$> remove h e ac) (.remove e ac) := by
  refine Refines.intro (fun w p es k xs hr hc hp => ?_) (fun w p es s fs hr _ hc hp => ?_)
    (fun w p es v hr hc hp => ?_)
  · cases ho : w.owner with
    | none =>
      exact refines_unbound hr ho (by rw [hp]; rfl) rfl
        (by simp [remove, exec_bind, exec_discard, exec_sequence, exec_bound, hc, ho])
    | some o =>
      have hfault := fault_of_bound (.remove e ac) hr ho (by rw [hp]; rfl)
      obtain ⟨⟨w', es'⟩, hloop, hst⟩ :=
        exec_foldlM_false (follows_removeRound h o w k ac k.view (k.removeFirst_view)) [e]
          (w, es) xs (Wrapper.with_content_self hc).symm
      simp only at hst
      subst hst
      have hcall : ((Answer.flag <$> remove h e ac).exec (w, es)).1 =
            .ok (.flag (foldSteps Container.removeFirst xs [e]).2) ∧
          ((Answer.flag <$> remove h e ac).exec (w, es)).2.1 =
            { w with content := .collection k (k.view (foldSteps Container.removeFirst xs [e]).1) } := by
        simp only [remove, exec_map, exec_bind, exec_discard, exec_sequence, exec_bound, hc, ho,
          removeEach, hloop, exec_ite, exec_changed, exec_pure]
        split_ifs <;> simp
      exact refines_collection hr (by simp) (by simp [hfault, ScoCall.argumentFault])
        (by simp [hp, PlainContainer.apply]) hcall
  · exact refines_misfit hr (by rw [hp]; rfl)
      (by simp [remove, exec_bind, exec_discard, exec_sequence, hc])
  · exact refines_misfit hr (by rw [hp]; rfl)
      (by simp [remove, exec_bind, exec_discard, exec_sequence, hc])

theorem refines_removeAll (h : HostView) (l : List Value) :
    Refines (.flag <$> removeAll h l) (.removeAll l) := by
  refine Refines.intro (fun w p es k xs hr hc hp => ?_) (fun w p es s fs hr _ hc hp => ?_)
    (fun w p es v hr hc hp => ?_)
  · cases ho : w.owner with
    | none =>
      exact refines_unbound hr ho (by rw [hp]; rfl) rfl
        (by simp [removeAll, exec_bind, exec_discard, exec_sequence, exec_bound, hc, ho])
    | some o =>
      have hfault := fault_of_bound (.removeAll l) hr ho (by rw [hp]; rfl)
      cases l with
      | nil =>
        -- an empty batch succeeds at once, changing nothing
        have hcall : ((Answer.flag <$> removeAll h []).exec (w, es)).1 = .ok (.flag true) ∧
            ((Answer.flag <$> removeAll h []).exec (w, es)).2.1 =
              { w with content := .collection k (k.view xs) } := by
          rw [Wrapper.with_content_self hc]
          simp [removeAll, exec_map, exec_bind, exec_discard, exec_sequence, exec_bound, hc, ho]
        exact refines_collection hr (by simp) (by simp [hfault, ScoCall.argumentFault])
          (by simp [hp, PlainContainer.apply]) hcall
      | cons e rest =>
        obtain ⟨⟨w', es'⟩, hloop, hst⟩ :=
          exec_foldlM_false (follows_removeRound h o w k true k.view (k.removeFirst_view))
            (e :: rest) (w, es) xs (Wrapper.with_content_self hc).symm
        simp only at hst
        subst hst
        have hcall : ((Answer.flag <$> removeAll h (e :: rest)).exec (w, es)).1 =
              .ok (.flag (foldSteps Container.removeFirst xs (e :: rest)).2) ∧
            ((Answer.flag <$> removeAll h (e :: rest)).exec (w, es)).2.1 =
              { w with
                content := .collection k (k.view (foldSteps Container.removeFirst xs (e :: rest)).1) } := by
          simp only [removeAll, exec_map, exec_bind, exec_discard, exec_sequence, exec_bound, hc,
            ho, List.isEmpty_cons, Bool.false_eq_true, if_false, removeEach, hloop, exec_ite,
            exec_changed, exec_pure]
          split_ifs <;> simp
        exact refines_collection hr (by simp) (by simp [hfault, ScoCall.argumentFault])
          (by simp [hp, PlainContainer.apply]) hcall
  · exact refines_misfit hr (by rw [hp]; rfl)
      (by simp [removeAll, exec_bind, exec_discard, exec_sequence, hc])
  · exact refines_misfit hr (by rw [hp]; rfl)
      (by simp [removeAll, exec_bind, exec_discard, exec_sequence, hc])

theorem refines_retainAll (h : HostView) (keep : List Value) :
    Refines (.flag <$> retainAll h keep) (.retainAll keep) := by
  refine Refines.intro (fun w p es k xs hr hc hp => ?_) (fun w p es s fs hr _ hc hp => ?_)
    (fun w p es v hr hc hp => ?_)
  · cases ho : w.owner with
    | none =>
      exact refines_unbound hr ho (by rw [hp]; rfl) rfl
        (by simp [retainAll, exec_bind, exec_sequence, exec_bound, hc, ho])
    | some o =>
      have hfault := fault_of_bound (.retainAll keep) hr ho (by rw [hp]; rfl)
      -- the wrapper removes, one by one, the elements it reads that are not kept
      obtain ⟨⟨w', es'⟩, hloop, hst⟩ :=
        exec_foldlM_false (follows_removeRound h o w k true id (fun _ _ => rfl))
          ((k.view xs).filter fun x => !keep.contains x) (w, es) (k.view xs)
          (Wrapper.with_content_self hc).symm
      simp only [Container.foldSteps_removeFirst_filter, Bool.not_not, id] at hloop hst
      subst hst
      have hkept : (k.view xs).filter (fun x => keep.contains x) =
          k.view (xs.filter keep.contains) := (k.view_filter xs keep.contains).symm
      have hany : ((k.view xs).any fun x => !keep.contains x) = xs.any fun x => !keep.contains x :=
        (k.view_perm xs).any_eq
      have hcall : ((Answer.flag <$> retainAll h keep).exec (w, es)).1 =
            .ok (.flag (xs.any fun x => !keep.contains x)) ∧
          ((Answer.flag <$> retainAll h keep).exec (w, es)).2.1 =
            { w with content := .collection k (k.view (xs.filter keep.contains)) } := by
        simp only [retainAll, exec_map, exec_bind, exec_sequence, exec_bound, hc, ho, removeEach,
          hloop, exec_ite, exec_changed, exec_pure, hany, hkept]
        split_ifs <;> simp
      exact refines_collection hr (by simp) (by simp [hfault, ScoCall.argumentFault])
        (by simp [hp, PlainContainer.apply]) hcall
  · exact refines_misfit hr (by rw [hp]; rfl)
      (by simp [retainAll, exec_bind, exec_sequence, hc])
  · exact refines_misfit hr (by rw [hp]; rfl)
      (by simp [retainAll, exec_bind, exec_sequence, hc])

theorem refines_clear (h : HostView) : Refines ((fun _ => .done) <$> clear h) .clear := by
  refine Refines.intro (fun w p es k xs hr hc hp => ?_) (fun w p es s fs hr hd hc hp => ?_)
    (fun w p es v hr hc hp => ?_)
  · cases ho : w.owner with
    | none =>
      exact refines_unbound hr ho (by rw [hp]; rfl) rfl
        (by simp [clear, exec_bind, exec_sequence, exec_bound, hc, ho])
    | some o =>
      have hfault := fault_of_bound .clear hr ho (by rw [hp]; rfl)
      obtain ⟨evs, hrelease, -⟩ := exec_releaseAll h o w es (k.view xs)
      have hcall : (((fun _ => Answer.done) <$> clear h).exec (w, es)).1 = .ok .done ∧
          (((fun _ => Answer.done) <$> clear h).exec (w, es)).2.1 =
            { w with content := .collection k (k.view []) } := by
        simp [clear, exec_map, exec_bind, exec_sequence, exec_bound, hc, ho, hrelease,
          exec_changed]
      exact refines_collection hr (by simp) (by simp [hfault, ScoCall.argumentFault])
        (by simp [hp, PlainContainer.apply]) hcall
  · cases ho : w.owner with
    | none =>
      exact refines_unbound hr ho (by rw [hp]; rfl) rfl
        (by simp [clear, exec_bind, exec_bound, hc, ho])
    | some o =>
      have hfault := fault_of_bound .clear hr ho (by rw [hp]; rfl)
      -- every key the wrapper reads goes, each once
      have hkeys : ((Plain.viewMap s fs).map Prod.fst).Nodup :=
        ((Plain.viewMap_perm s fs).map Prod.fst).nodup_iff.mpr hd
      obtain ⟨evs, hremove, -⟩ := exec_removeKeys h o w es hc _ hkeys (fun _ hk => hk) true
      have hcall : (((fun _ => Answer.done) <$> clear h).exec (w, es)).1 = .ok .done ∧
          (((fun _ => Answer.done) <$> clear h).exec (w, es)).2.1 =
            { w with content := .map s (Plain.viewMap s []) } := by
        simp [clear, exec_map, exec_bind, exec_bound, hc, ho, hremove, exec_entries,
          exec_changed]
      exact refines_map hr (by simp) (by simp [hfault, ScoCall.argumentFault])
        (by simp [hp, PlainContainer.apply]) (by exact List.nodup_nil) hcall
  · exact refines_misfit hr (by rw [hp]; rfl)
      (by simp [clear, exec_bind, exec_sequence, hc])

/-! ## Lists -/

theorem refines_insertAt (h : HostView) (i : Nat) (e : Value) :
    Refines ((fun _ => .done) <$> insertAt h i e) (.insertAt i e) := by
  refine Refines.intro_list rfl (fun w es hw => ?_)
    (fun w p es xs hr hc hp => ?_)
  · simp [insertAt, exec_listItems_bind w es _ hw]
  · cases ho : w.owner with
    | none =>
      exact refines_unbound hr ho (by rw [hp]; rfl) rfl
        (by simp [insertAt, exec_bind, exec_listItems, exec_bound, hc, ho])
    | some o =>
      have hfault := fault_of_bound (.insertAt i e) hr ho (by rw [hp]; rfl)
      by_cases hi : xs.length < i
      · refine refines_refused (.indexOutOfBounds i xs.length) hr
          (by simp [hfault, hp, ScoCall.argumentFault, hi]) ?_ rfl
        simp [insertAt, exec_bind, exec_listItems, exec_bound, hc, ho, hi]
      · by_cases hnull : e.isNull && !w.policy.allowNulls
        · refine refines_refused .nullElement hr
            (by simp [hfault, hp, ScoCall.argumentFault, ScoCall.nullFault, hi, hnull]) ?_ rfl
          simp [insertAt, exec_bind, exec_listItems, exec_bound, exec_checkNullable, hc,
            ho, hi, hnull]
        · have hcall : (((fun _ => Answer.done) <$> insertAt h i e).exec (w, es)).1 = .ok .done ∧
              (((fun _ => Answer.done) <$> insertAt h i e).exec (w, es)).2.1 =
                { w with content := .collection .list (CollectionKind.list.view (xs.insertIdx i e)) } := by
            simp only [insertAt, exec_map, exec_bind, exec_listItems, exec_bound, gt_iff_lt,
              exec_checkNullable, hc, ho, hi, hnull, Bool.false_eq_true, if_false, exec_ite]
            split_ifs <;> simp [exec_changed, ho]
          exact refines_collection hr (by simp)
            (by simp [hfault, hp, ScoCall.argumentFault, ScoCall.nullFault, hi, hnull])
            (by simp [hp, PlainContainer.apply]) hcall

theorem refines_setAt (h : HostView) (i : Nat) (e : Value) (ac : Bool) :
    Refines (.value <$> setAt h i e ac) (.setAt i e ac) := by
  refine Refines.intro_list rfl (fun w es hw => ?_)
    (fun w p es xs hr hc hp => ?_)
  · simp [setAt, exec_listItems_bind w es _ hw]
  · cases ho : w.owner with
    | none =>
      exact refines_unbound hr ho (by rw [hp]; rfl) rfl
        (by simp [setAt, exec_bind, exec_listItems, exec_bound, hc, ho])
    | some o =>
      have hfault := fault_of_bound (.setAt i e ac) hr ho (by rw [hp]; rfl)
      cases hget : xs[i]? with
      | none =>
        have hi : xs.length ≤ i := List.getElem?_eq_none_iff.mp hget
        refine refines_refused (.indexOutOfBounds i xs.length) hr
          (by simp [hfault, hp, ScoCall.argumentFault, hi]) ?_ rfl
        simp [setAt, exec_bind, exec_listItems, exec_bound, hc, ho, hget]
      | some prev =>
        have hi : ¬ xs.length ≤ i := fun hle => by
          rw [List.getElem?_eq_none_iff.mpr hle] at hget
          cases hget
        by_cases hnull : e.isNull && !w.policy.allowNulls
        · refine refines_refused .nullElement hr
            (by simp [hfault, hp, ScoCall.argumentFault, ScoCall.nullFault, hi, hnull]) ?_ rfl
          simp [setAt, exec_bind, exec_listItems, exec_bound, exec_checkNullable, hc,
            ho, hget, hnull]
        · -- the answer is the element replaced
          have hcall : ((Answer.value <$> setAt h i e ac).exec (w, es)).1 = .ok (.value prev) ∧
              ((Answer.value <$> setAt h i e ac).exec (w, es)).2.1 =
                { w with content := .collection .list (CollectionKind.list.view (xs.set i e)) } := by
            simp only [setAt, exec_map, exec_bind, exec_listItems, exec_bound, exec_checkNullable,
              hc, ho, hget, hnull, Bool.false_eq_true, if_false, exec_ite]
            -- the dependent deletion read from the policy only adds events
            split_ifs <;> simp [exec_changed, ho] <;> split_ifs <;> simp
          exact refines_collection hr (by simp)
            (by simp [hfault, hp, ScoCall.argumentFault, ScoCall.nullFault, hi, hnull])
            (by simp [hp, PlainContainer.apply, hget]) hcall

theorem refines_removeAt (h : HostView) (i : Nat) :
    Refines (.value <$> removeAt h i) (.removeAt i) := by
  refine Refines.intro_list rfl (fun w es hw => ?_)
    (fun w p es xs hr hc hp => ?_)
  · simp [removeAt, exec_listItems_bind w es _ hw]
  · cases ho : w.owner with
    | none =>
      exact refines_unbound hr ho (by rw [hp]; rfl) rfl
        (by simp [removeAt, exec_bind, exec_listItems, exec_bound, hc, ho])
    | some o =>
      have hfault := fault_of_bound (.removeAt i) hr ho (by rw [hp]; rfl)
      cases hget : xs[i]? with
      | none =>
        have hi : xs.length ≤ i := List.getElem?_eq_none_iff.mp hget
        refine refines_refused (.indexOutOfBounds i xs.length) hr
          (by simp [hfault, hp, ScoCall.argumentFault, hi]) ?_ rfl
        simp [removeAt, exec_bind, exec_listItems, exec_bound, hc, ho, hget]
      | some removed =>
        have hi : ¬ xs.length ≤ i := fun hle => by
          rw [List.getElem?_eq_none_iff.mpr hle] at hget
          cases hget
        have hcall : ((Answer.value <$> removeAt h i).exec (w, es)).1 = .ok (.value removed) ∧
            ((Answer.value <$> removeAt h i).exec (w, es)).2.1 =
              { w with content := .collection .list (CollectionKind.list.view (xs.eraseIdx i)) } := by
          simp only [removeAt, exec_map, exec_bind, exec_listItems, exec_bound, hc, ho, hget,
            exec_ite]
          split_ifs <;> simp [exec_cascadeRemoval, exec_changed, ho]
        exact refines_collection hr (by simp) (by simp [hfault, hp, ScoCall.argumentFault, hi])
          (by simp [hp, PlainContainer.apply, hget]) hcall

theorem refines_get (i : Nat) : Refines (.found <$> get i) (.get i) := by
  refine Refines.intro_list rfl (fun w es hw => ?_)
    (fun w p es xs hr hc hp => ?_)
  · simp only [WrapperCall.get, exec_map, exec_listItems_bind w es _ hw]
    simp
  · -- reading needs no owner and changes nothing
    have hcall : ((Answer.found <$> get i).exec (w, es)).1 = .ok (.found xs[i]?) ∧
        ((Answer.found <$> get i).exec (w, es)).2.1 =
          { w with content := .collection .list (CollectionKind.list.view xs) } := by
      rw [CollectionKind.view_list, Wrapper.with_content_self hc]
      simp [WrapperCall.get, exec_map, exec_listItems, hc]
    exact refines_collection hr (by simp)
      (by rw [PlainState.fault, hp]; rfl)
      (by simp [hp, PlainContainer.apply]) hcall

/-! ## Maps -/

theorem refines_put (h : HostView) (k v : Value) : Refines (.found <$> put h k v) (.put k v) := by
  refine Refines.intro (fun w p es c xs hr hc hp => ?_) (fun w p es s fs hr hd hc hp => ?_)
    (fun w p es u hr hc hp => ?_)
  · exact refines_misfit hr (by rw [hp]; rfl)
      (by simp [put, exec_bind, exec_discard, exec_entries, hc])
  · cases ho : w.owner with
    | none =>
      exact refines_unbound hr ho (by rw [hp]; rfl) rfl
        (by simp [put, exec_bind, exec_discard, exec_entries, exec_bound, hc, ho])
    | some o =>
      have hfault := fault_of_bound (.put k v) hr ho (by rw [hp]; rfl)
      cases hv : ScoCall.entryFault w.policy.allowNulls k v with
      | some f =>
        refine refines_refused f hr (by simp [hfault, ScoCall.argumentFault, hv]) ?_
          f.reports_toError
        simp only [put, exec_map, exec_bind, exec_discard, exec_entries, exec_bound, hc, ho,
          exec_validate_fault, hv]
        simp
      | none =>
        obtain ⟨evs, hexec, -⟩ := exec_putEntry h o w es hc k v
        rw [Plain.put_viewMap s hd] at hexec
        have hcall : ((Answer.found <$> put h k v).exec (w, es)).1 =
              .ok (.found (Container.put false fs k v).2) ∧
            ((Answer.found <$> put h k v).exec (w, es)).2.1 =
              { w with content := .map s (Plain.viewMap s (Container.put false fs k v).1) } := by
          simp only [put, exec_map, exec_bind, exec_discard, exec_entries, exec_bound, hc, ho,
            exec_validate_fault, hv, Option.map_none, Option.elim, hexec, exec_ite]
          split_ifs <;> simp [exec_changed]
        exact refines_map hr (by simp) (by simp [hfault, ScoCall.argumentFault, hv])
          (by simp [hp, PlainContainer.apply]) (Container.keysNodup_put hd k v) hcall
  · exact refines_misfit hr (by rw [hp]; rfl)
      (by simp [put, exec_bind, exec_discard, exec_entries, hc])

theorem refines_putAll (h : HostView) (kvs : List (Value × Value)) :
    Refines (.flag <$> putAll h kvs) (.putAll kvs) := by
  refine Refines.intro (fun w p es c xs hr hc hp => ?_) (fun w p es s fs hr hd hc hp => ?_)
    (fun w p es u hr hc hp => ?_)
  · exact refines_misfit hr (by rw [hp]; rfl)
      (by simp [putAll, exec_bind, exec_discard, exec_entries, hc])
  · cases ho : w.owner with
    | none =>
      exact refines_unbound hr ho (by rw [hp]; rfl) rfl
        (by simp [putAll, exec_bind, exec_discard, exec_entries, exec_bound, hc, ho])
    | some o =>
      have hfault := fault_of_bound (.putAll kvs) hr ho (by rw [hp]; rfl)
      cases hv : kvs.findSome? fun kv => ScoCall.entryFault w.policy.allowNulls kv.1 kv.2 with
      | some f =>
        -- the first invalid entry refuses the whole batch
        refine refines_refused f hr (by simp [hfault, ScoCall.argumentFault, hv]) ?_
          f.reports_toError
        simp only [putAll, exec_map, exec_bind, exec_discard, exec_entries, exec_bound, hc, ho,
          exec_validateAll, hv]
        simp
      | none =>
        obtain ⟨⟨w', es'⟩, hloop, hst, hd'⟩ :=
          exec_foldlM_false (follows_putRound h o w s) kvs (w, es) fs
            ⟨(Wrapper.with_content_self hc).symm, hd⟩
        simp only at hst
        subst hst
        have hcall : ((Answer.flag <$> putAll h kvs).exec (w, es)).1 =
              .ok (.flag (foldSteps Plain.putChanged fs kvs).2) ∧
            ((Answer.flag <$> putAll h kvs).exec (w, es)).2.1 =
              { w with content := .map s (Plain.viewMap s (foldSteps Plain.putChanged fs kvs).1) } := by
          simp only [putAll, exec_map, exec_bind, exec_discard, exec_entries, exec_bound, hc, ho,
            exec_validateAll, hv, Option.map_none, Option.elim, hloop, exec_ite]
          split_ifs <;> simp [exec_changed]
        exact refines_map hr (by simp) (by simp [hfault, ScoCall.argumentFault, hv])
          (by simp [hp, PlainContainer.apply]) hd' hcall
  · exact refines_misfit hr (by rw [hp]; rfl)
      (by simp [putAll, exec_bind, exec_discard, exec_entries, hc])

theorem refines_removeKey (h : HostView) (k : Value) :
    Refines (.found <$> removeKey h k) (.removeKey k) := by
  refine Refines.intro (fun w p es c xs hr hc hp => ?_) (fun w p es s fs hr hd hc hp => ?_)
    (fun w p es u hr hc hp => ?_)
  · exact refines_misfit hr (by rw [hp]; rfl)
      (by simp [removeKey, exec_bind, exec_discard, exec_entries, hc])
  · cases ho : w.owner with
    | none =>
      exact refines_unbound hr ho (by rw [hp]; rfl) rfl
        (by simp [removeKey, exec_bind, exec_discard, exec_entries, exec_bound, hc, ho])
    | some o =>
      have hfault := fault_of_bound (.removeKey k) hr ho (by rw [hp]; rfl)
      obtain ⟨evs, hexec, -⟩ := exec_removeEntry h o w es hc k true
      rw [Plain.take_viewMap s hd] at hexec
      have hcall : ((Answer.found <$> removeKey h k).exec (w, es)).1 =
            .ok (.found (Container.take fs k).2) ∧
          ((Answer.found <$> removeKey h k).exec (w, es)).2.1 =
            { w with content := .map s (Plain.viewMap s (Container.take fs k).1) } := by
        simp only [removeKey, exec_map, exec_bind, exec_discard, exec_entries, exec_bound, hc, ho,
          hexec, exec_ite]
        split_ifs <;> simp [exec_changed]
      exact refines_map hr (by simp) (by simp [hfault, ScoCall.argumentFault])
        (by simp [hp, PlainContainer.apply]) (by exact Container.keysNodup_filter hd _) hcall
  · exact refines_misfit hr (by rw [hp]; rfl)
      (by simp [removeKey, exec_bind, exec_discard, exec_entries, hc])

theorem refines_retainKeys (h : HostView) (keep : List Value) :
    Refines (.flag <$> retainKeys h keep) (.retainKeys keep) := by
  refine Refines.intro (fun w p es c xs hr hc hp => ?_) (fun w p es s fs hr hd hc hp => ?_)
    (fun w p es u hr hc hp => ?_)
  · exact refines_misfit hr (by rw [hp]; rfl)
      (by simp [retainKeys, exec_bind, exec_entries, hc])
  · cases ho : w.owner with
    | none =>
      exact refines_unbound hr ho (by rw [hp]; rfl) rfl
        (by simp [retainKeys, exec_bind, exec_entries, exec_bound, hc, ho])
    | some o =>
      have hfault := fault_of_bound (.retainKeys keep) hr ho (by rw [hp]; rfl)
      -- the wrapper takes out, each once, the keys it reads that are not kept
      have hkeys : ((Plain.viewMap s fs).map Prod.fst).Nodup :=
        ((Plain.viewMap_perm s fs).map Prod.fst).nodup_iff.mpr hd
      obtain ⟨evs, hremove, -⟩ := exec_removeKeys h o w es hc
        (((Plain.viewMap s fs).map Prod.fst).filter fun k => !keep.contains k) (hkeys.filter _)
        (fun _ hk => (List.mem_filter.mp hk).1) true
      have hkept : ((Plain.viewMap s fs).filter fun e =>
            !(((Plain.viewMap s fs).map Prod.fst).filter fun k => !keep.contains k).contains e.1) =
          Plain.viewMap s (fs.filter fun e => keep.contains e.1) := by
        rw [← Plain.viewMap_filter s hd]
        apply List.filter_congr
        intro e he
        have hkey : e.1 ∈ (Plain.viewMap s fs).map Prod.fst := List.mem_map_of_mem he
        simp only [List.contains_eq_mem, List.mem_filter, hkey, true_and]
        cases decide (e.1 ∈ keep) <;> rfl
      have hany : (!(((Plain.viewMap s fs).map Prod.fst).filter fun k => !keep.contains k).isEmpty) =
          fs.any fun e => !keep.contains e.1 := by
        rw [← (Plain.viewMap_perm s fs).any_eq, Bool.eq_iff_iff, Bool.not_eq_true',
          List.isEmpty_eq_false_iff_exists_mem, List.any_eq_true]
        simp only [List.mem_filter, List.mem_map]
        constructor
        · rintro ⟨k, ⟨e, he, rfl⟩, hk⟩
          exact ⟨e, he, hk⟩
        · rintro ⟨e, he, hk⟩
          exact ⟨e.1, ⟨e, he, rfl⟩, hk⟩
      have hcall : ((Answer.flag <$> retainKeys h keep).exec (w, es)).1 =
            .ok (.flag (fs.any fun e => !keep.contains e.1)) ∧
          ((Answer.flag <$> retainKeys h keep).exec (w, es)).2.1 =
            { w with content := .map s (Plain.viewMap s (fs.filter fun e => keep.contains e.1)) } := by
        rw [← hany, ← hkept]
        simp only [retainKeys, exec_map, exec_bind, exec_entries, exec_bound, hc, ho, hremove,
          exec_ite]
        split_ifs <;> simp [exec_changed]
      exact refines_map hr (by simp) (by simp [hfault, ScoCall.argumentFault])
        (by simp [hp, PlainContainer.apply]) (by exact Container.keysNodup_filter hd _) hcall
  · exact refines_misfit hr (by rw [hp]; rfl)
      (by simp [retainKeys, exec_bind, exec_entries, hc])

/-! ## Scalars and the binding -/

theorem refines_setScalar (h : HostView) (v : Value) :
    Refines (.value <$> setScalar h v) (.setScalar v) := by
  refine Refines.intro (fun w p es k xs hr hc hp => ?_) (fun w p es s fs hr _ hc hp => ?_)
    (fun w p es u hr hc hp => ?_)
  · exact refines_misfit hr (by rw [hp]; rfl) (by simp [setScalar, exec_bind, hc])
  · exact refines_misfit hr (by rw [hp]; rfl) (by simp [setScalar, exec_bind, hc])
  · cases ho : w.owner with
    | none =>
      exact refines_unbound hr ho (by rw [hp]; rfl) rfl
        (by simp [setScalar, exec_bind, exec_bound, hc, ho])
    | some o =>
      have hfault := fault_of_bound (.setScalar v) hr ho (by rw [hp]; rfl)
      by_cases hnull : v.isNull && !w.policy.allowNulls
      · refine refines_refused .nullElement hr
          (by simp [hfault, ScoCall.argumentFault, ScoCall.nullFault, hnull]) ?_ rfl
        simp [setScalar, exec_bind, exec_bound, exec_checkNullable, hc, ho, hnull]
      · -- setting the value held answers it and changes nothing
        have hcall : ((Answer.value <$> setScalar h v).exec (w, es)).1 = .ok (.value u) ∧
            ((Answer.value <$> setScalar h v).exec (w, es)).2.1 = { w with content := .scalar v } := by
          by_cases hvu : v = u
          · subst hvu
            rw [Wrapper.with_content_self hc]
            simp [setScalar, exec_map, exec_bind, exec_bound, exec_checkNullable, hc, ho, hnull]
          · simp [setScalar, exec_map, exec_bind, exec_bound, exec_checkNullable, exec_changed, hc,
              ho, hnull, hvu]
        refine refines_done hr (by simp)
          (by simp [hfault, ScoCall.argumentFault, ScoCall.nullFault, hnull]) ?_ ?_ ?_ ?_
        · simp [hcall.1, hp, PlainContainer.apply]
        · rw [hcall.2]
        · rw [hcall.2]
        · rw [hcall.2, hp]
          exact .scalar v

theorem refines_unsetOwner (h : HostView) : Refines (ScoCall.unsetOwner.onWrapper h) .unsetOwner := by
  intro w p es hr
  have hperform : p.perform .unsetOwner = ({ p with bound := false }, .ok .done) := by
    rcases p with ⟨con, bound, allowNulls⟩
    cases con <;> rfl
  simp only [RefinesAt, ScoCall.onWrapper, exec_bind, exec_modify, exec_pure, hperform]
  exact ⟨rfl, ⟨rfl, hr.allowNulls, hr.holds⟩⟩

/-! ## Runs -/

theorem onWrapper_refines (c : ScoCall) (h : HostView) : Refines (c.onWrapper h) c := by
  cases c with
  | add e => exact refines_add h e
  | addAll es => exact refines_addAll h es
  | remove e ac => exact refines_remove h e ac
  | removeAll es => exact refines_removeAll h es
  | retainAll keep => exact refines_retainAll h keep
  | clear => exact refines_clear h
  | insertAt i e => exact refines_insertAt h i e
  | setAt i e ac => exact refines_setAt h i e ac
  | removeAt i => exact refines_removeAt h i
  | get i => exact refines_get i
  | put k v => exact refines_put h k v
  | putAll kvs => exact refines_putAll h kvs
  | removeKey k => exact refines_removeKey h k
  | retainKeys keep => exact refines_retainKeys h keep
  | setScalar v => exact refines_setScalar h v
  | unsetOwner => exact refines_unsetOwner h

/-- A run of calls keeps a wrapper standing for the plain state, each call agreeing with the
plain call on its result. The induction is on the calls; each step is `onWrapper_refines`. -/
theorem runCalls_refines :
    ∀ (calls : List (HostView × ScoCall)) (w : Wrapper) (p : PlainState), Represents w p →
      Represents (w.runCalls calls).1 (p.runAll (calls.map Prod.snd)).1 ∧
        List.Forall₂ Agrees (w.runCalls calls).2 (p.runAll (calls.map Prod.snd)).2
  | [], w, p, hr => ⟨hr, .nil⟩
  | (h, c) :: cs, w, p, hr => by
    obtain ⟨hagree, hr'⟩ := onWrapper_refines c h w p [] hr
    obtain ⟨hrun, hagrees⟩ := runCalls_refines cs _ _ hr'
    simp only [Wrapper.runCalls, run_eq_exec, List.map_cons, PlainState.runAll]
    exact ⟨hrun, .cons hagree hagrees⟩

/-! ## Wrapping -/

theorem holds_nil (k : CollectionKind) : Holds (.collection k []) (.collection k []) := by
  simpa using Holds.collection k []

theorem holds_map_nil (s : Bool) : Holds (.map s []) (.map s []) := by
  have hd : Container.KeysNodup ([] : List (Value × Value)) := List.nodup_nil
  simpa using Holds.map s hd

theorem holds_ofValues (k : CollectionKind) (items : List Value) :
    Holds (.collection k (k.ofValues items)) (.collection k (foldSteps (Plain.insert k) [] items).1) := by
  rw [CollectionKind.ofValues_eq_view]
  exact .collection k _

theorem holds_ofEntries (s : Bool) (es : List (Value × Value)) :
    Holds (.map s (Container.ofEntries s es)) (.map s (foldSteps Plain.putChanged [] es).1) := by
  obtain ⟨hview, hd⟩ := Plain.ofEntries_eq_viewMap s es
  rw [hview]
  exact .map s hd

/-- A wrapper starts bound, with its policy, holding what the plain container of its shape
holds: nothing for no data or a null, else the values added or the entries put in turn. -/
theorem wrap_represents {shape : ContainerShape} {owner : FieldOwner} {policy : ContainerPolicy}
    {data : Option FieldData} {w : Wrapper} (hw : Wrapper.wrap shape owner policy data = .ok w) :
    Represents w (PlainState.ofData shape policy data) := by
  suffices h : ∃ c, w = ⟨some owner, policy, c⟩ ∧ Holds c (PlainContainer.ofData shape data) by
    obtain ⟨c, rfl, hc⟩ := h
    exact ⟨rfl, rfl, hc⟩
  -- one case for each shape and each form of data it accepts
  cases shape <;> simp only [Wrapper.wrap] at hw <;> split at hw <;> cases hw <;>
    refine ⟨_, rfl, ?_⟩
  all_goals first
    | exact holds_nil _
    | exact holds_map_nil _
    | exact holds_ofValues _ _
    | exact holds_ofEntries _ _
    | exact .scalar _

/-! ## Wrappers as plain containers -/

theorem wrapper_runs_as_plain_container {shape : ContainerShape} {owner : FieldOwner}
    {policy : ContainerPolicy} {data : Option FieldData} {w : Wrapper}
    (hw : Wrapper.wrap shape owner policy data = .ok w) (calls : List (HostView × ScoCall)) :
    (w.runCalls calls).1.detachCopy =
        ((PlainState.ofData shape policy data).runAll (calls.map Prod.snd)).1.container.content ∧
      List.Forall₂ Agrees (w.runCalls calls).2
        ((PlainState.ofData shape policy data).runAll (calls.map Prod.snd)).2 := by
  obtain ⟨hr, hagree⟩ := runCalls_refines calls w _ (wrap_represents hw)
  exact ⟨hr.detachCopy, hagree⟩

/-- An empty list wrapper, given a position past its end after an insertion, refuses the
removal as the plain list does. -/
theorem list_wrapper_runs_as_plain_list :
    Wrapper.wrap .list ⟨⟨1⟩, 0⟩ {} none = .ok ⟨some ⟨⟨1⟩, 0⟩, {}, .collection .list []⟩ ∧
      (Wrapper.runCalls ⟨some ⟨⟨1⟩, 0⟩, {}, .collection .list []⟩
          [(⟨true, true, true⟩, .insertAt 0 (.integer 7)),
            (⟨true, true, true⟩, .removeAt 3)]).1.detachCopy =
        ((PlainState.ofData .list {} none).runAll
          [.insertAt 0 (.integer 7), .removeAt 3]).1.container.content ∧
      List.Forall₂ Agrees
        (Wrapper.runCalls ⟨some ⟨⟨1⟩, 0⟩, {}, .collection .list []⟩
          [(⟨true, true, true⟩, .insertAt 0 (.integer 7)), (⟨true, true, true⟩, .removeAt 3)]).2
        ((PlainState.ofData .list {} none).runAll [.insertAt 0 (.integer 7), .removeAt 3]).2 :=
  ⟨rfl, wrapper_runs_as_plain_container rfl _⟩

end ObjectPersistence
