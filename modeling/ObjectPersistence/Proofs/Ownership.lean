import Mathlib
import ObjectPersistence.Proofs.RegistryPreservation

/-! # One context per object across a session

A session runs several contexts on one runtime, whose registry records which context
manages which object. Every session reached from a fresh one by opening contexts and making
calls, calls that fail partway included, keeps the registry exact: it names a context for an
object exactly when that context manages the object in a state other than transient. The
registry has one entry per object, so no two contexts hold an object at once.

A call runs one context against the shared runtime while the others stay as they are; the
triples of the engine operations, read with the other contexts' holdings as the registry
view, give the step. Opening a context drops the one of that name, whose entries the
registry forgets, and starts one that manages nothing, under a number not used before. -/

namespace ObjectPersistence

open Std.Do

theorem Engine.keeps_run_of {α} {P I : EngineState → Prop} {x : Engine α}
    (h : ⦃fun s => ⌜P s⌝⦄ x ⦃Engine.keeps I⦄) (s : EngineState) (hs : P s) :
    I ((ExceptT.run x).run s).2 := by
  have h' := h s hs
  simp only [wp, ExceptT.run, PredTrans.apply_pushExcept, PredTrans.apply_pushArg] at h'
  change I (StateT.run x s).2
  rcases hr : StateT.run x s with ⟨r, s'⟩
  rw [hr] at h'
  cases r <;> exact h'

def ContextEntry.holds (e : ContextEntry) (id : ObjectId) : Prop :=
  ∃ m, e.ctx.objects.find? (·.id == id) = some m ∧ m.lifecycle ≠ .transient

namespace Session

def Holds (l : List ContextEntry) (id : ObjectId) (c : Nat) : Prop :=
  ∃ e ∈ l, e.ctx.id = c ∧ Holding e.ctx.objects id

/-- The contexts of a session: one per name, numbered apart and below the count of contexts
opened, each finding first the manager of an object that is in use. -/
structure ContextsApart (l : List ContextEntry) (opened : Nat) : Prop where
  names : (l.map (·.name)).Nodup
  ids : (l.map (·.ctx.id)).Nodup
  fresh : ∀ e ∈ l, e.ctx.id < opened
  first : ∀ e ∈ l, FirstInUse e.ctx.objects

/-- The registry of a session is exact: one entry per object, and an entry for an object and
a context exactly when that context holds the object. -/
structure RegistryExact (s : Session) : Prop where
  contexts : ContextsApart s.contexts s.opened
  keys : (s.runtime.owners.map Prod.fst).Nodup
  exact : ∀ id c, (id, c) ∈ s.runtime.owners ↔ Holds s.contexts id c

/-! ### Replacing the context of a name -/

section Replace

variable {l : List ContextEntry} {name : String} {old new e : ContextEntry} {n n' : Nat}
  {id : ObjectId} {c : Nat}

theorem mem_replace (hold : old ∈ l) (hname : old.name = name) :
    e ∈ l.map (fun c => if c.name == name then new else c) ↔ e = new ∨ e ∈ l ∧ e.name ≠ name := by
  simp only [List.mem_map]
  constructor
  · rintro ⟨c, hc, rfl⟩
    by_cases hc' : c.name = name <;> simp [hc', hc]
  · rintro (rfl | ⟨he, hne⟩)
    · exact ⟨old, hold, by simp [hname]⟩
    · exact ⟨e, he, by simp [hne]⟩

theorem ContextsApart.mono (h : ContextsApart l n) (hle : n ≤ n') : ContextsApart l n' :=
  ⟨h.names, h.ids, fun e he => (h.fresh e he).trans_le hle, h.first⟩

theorem ContextsApart.eq_of_name (h : ContextsApart l n) (hold : old ∈ l) (hname : old.name = name)
    (he : e ∈ l) (hn : e.name = name) : e = old :=
  List.inj_on_of_nodup_map h.names he hold (hn.trans hname.symm)

theorem ContextsApart.name_ne_iff (h : ContextsApart l n) (hold : old ∈ l)
    (hname : old.name = name) (he : e ∈ l) : e.name ≠ name ↔ e.ctx.id ≠ old.ctx.id := by
  constructor
  · intro hne hid
    exact hne (List.inj_on_of_nodup_map h.ids he hold hid ▸ hname)
  · intro hne hn
    exact hne (congrArg (·.ctx.id) (h.eq_of_name hold hname he hn))

theorem ContextsApart.holds_self (h : ContextsApart l n) (he : e ∈ l) :
    Holds l id e.ctx.id ↔ Holding e.ctx.objects id := by
  constructor
  · rintro ⟨e', he', hid, hh⟩
    rwa [List.inj_on_of_nodup_map h.ids he' he hid] at hh
  · exact fun hh => ⟨e, he, rfl, hh⟩

theorem ContextsApart.holds_replace (h : ContextsApart l n) (hold : old ∈ l)
    (hname : old.name = name) :
    Holds (l.map fun c => if c.name == name then new else c) id c ↔
      new.ctx.id = c ∧ Holding new.ctx.objects id ∨ c ≠ old.ctx.id ∧ Holds l id c := by
  constructor
  · rintro ⟨e, he, rfl, hh⟩
    rcases (mem_replace hold hname).1 he with rfl | ⟨he, hne⟩
    · exact .inl ⟨rfl, hh⟩
    · exact .inr ⟨(h.name_ne_iff hold hname he).1 hne, e, he, rfl, hh⟩
  · rintro (⟨rfl, hh⟩ | ⟨hne, e, he, rfl, hh⟩)
    · exact ⟨new, (mem_replace hold hname).2 (.inl rfl), rfl, hh⟩
    · exact ⟨e, (mem_replace hold hname).2 (.inr ⟨he, (h.name_ne_iff hold hname he).2 hne⟩),
        rfl, hh⟩

/-- The replacing context keeps the number of the one it replaces, or takes one not used
yet: either way no other context has it. -/
theorem ContextsApart.id_ne_of_name_ne (h : ContextsApart l n) (hold : old ∈ l)
    (hname : old.name = name) (hid : new.ctx.id = old.ctx.id ∨ n ≤ new.ctx.id) (he : e ∈ l)
    (hne : e.name ≠ name) : new.ctx.id ≠ e.ctx.id := by
  rcases hid with hid | hid
  · rw [hid]
    exact ((h.name_ne_iff hold hname he).1 hne).symm
  · have := h.fresh e he
    omega

theorem ContextsApart.replace (h : ContextsApart l n) (hold : old ∈ l) (hname : old.name = name)
    (hnew : new.name = name) (hid : new.ctx.id = old.ctx.id ∨ n ≤ new.ctx.id)
    (hlt : new.ctx.id < n') (hle : n ≤ n') (hfirst : FirstInUse new.ctx.objects) :
    ContextsApart (l.map fun c => if c.name == name then new else c) n' where
  names := by
    have hkeep : ∀ c ∈ l, (if c.name == name then new else c).name = c.name := by
      intro c _
      by_cases hc : c.name = name <;> simp [hc, hnew]
    rw [List.map_map]
    exact (List.map_congr_left hkeep).symm ▸ h.names
  ids := by
    rw [List.map_map]
    refine (List.Nodup.of_map _ h.names).map_on fun x hx y hy hxy => ?_
    by_cases hx' : x.name = name <;> by_cases hy' : y.name = name <;> simp [hx', hy'] at hxy
    · rw [h.eq_of_name hold hname hx hx', h.eq_of_name hold hname hy hy']
    · exact absurd hxy (h.id_ne_of_name_ne hold hname hid hy hy')
    · exact absurd hxy.symm (h.id_ne_of_name_ne hold hname hid hx hx')
    · exact List.inj_on_of_nodup_map h.ids hx hy hxy
  fresh e he := by
    rcases (mem_replace hold hname).1 he with rfl | ⟨he, _⟩
    · exact hlt
    · exact (h.fresh e he).trans_le hle
  first e he := by
    rcases (mem_replace hold hname).1 he with rfl | ⟨he, _⟩
    · exact hfirst
    · exact h.first e he

theorem ContextsApart.append (h : ContextsApart l n) (hname : new.name ∉ l.map (·.name))
    (hid : n ≤ new.ctx.id) (hlt : new.ctx.id < n') (hle : n ≤ n')
    (hfirst : FirstInUse new.ctx.objects) : ContextsApart (l ++ [new]) n' where
  names := by
    rw [List.map_append, List.nodup_append]
    refine ⟨h.names, by simp, ?_⟩
    rintro a ha b hb rfl
    rw [List.mem_singleton.1 hb] at ha
    exact hname ha
  ids := by
    rw [List.map_append, List.nodup_append]
    refine ⟨h.ids, by simp, ?_⟩
    rintro a ha b hb rfl
    obtain ⟨e, he, rfl⟩ := List.mem_map.1 ha
    have hb : e.ctx.id = new.ctx.id := by simpa using hb
    have := h.fresh e he
    omega
  fresh e he := by
    rcases List.mem_append.1 he with he | he
    · exact (h.fresh e he).trans_le hle
    · rw [List.mem_singleton.1 he]
      exact hlt
  first e he := by
    rcases List.mem_append.1 he with he | he
    · exact h.first e he
    · rw [List.mem_singleton.1 he]
      exact hfirst

theorem holds_append : Holds (l ++ [new]) id c ↔ Holds l id c ∨ new.ctx.id = c ∧ Holding new.ctx.objects id := by
  simp [Holds, or_and_right, exists_or]

end Replace

/-! ### The steps of a session -/

section Steps

variable {s s' : Session}

/-! Keeping databases touches neither the runtime nor the contexts. -/

@[simp] theorem setDatabase_runtime (d : DatabaseEntry) : (s.setDatabase d).runtime = s.runtime := rfl

@[simp] theorem setDatabase_contexts (d : DatabaseEntry) :
    (s.setDatabase d).contexts = s.contexts := rfl

@[simp] theorem setDatabase_opened (d : DatabaseEntry) : (s.setDatabase d).opened = s.opened := rfl

@[simp] theorem useDatabase_runtime (db : String) : (s.useDatabase db).runtime = s.runtime := by
  unfold useDatabase
  split
  · rfl
  · split <;> rfl

@[simp] theorem useDatabase_contexts (db : String) :
    (s.useDatabase db).contexts = s.contexts := by
  unfold useDatabase
  split
  · rfl
  · split <;> rfl

@[simp] theorem useDatabase_opened (db : String) : (s.useDatabase db).opened = s.opened := by
  unfold useDatabase
  split
  · rfl
  · split <;> rfl

/-! Dropping a context makes the runtime forget its entries and leaves the list of contexts
as it is. -/

@[simp] theorem drop_owners (e : ContextEntry) :
    (s.drop e).runtime.owners = s.runtime.owners.filter (·.2 != e.ctx.id) := by
  unfold drop
  dsimp only
  split <;> rfl

@[simp] theorem drop_contexts (e : ContextEntry) : (s.drop e).contexts = s.contexts := by
  unfold drop
  dsimp only
  split <;> rfl

@[simp] theorem drop_opened (e : ContextEntry) : (s.drop e).opened = s.opened := by
  unfold drop
  dsimp only
  split <;> rfl

theorem RegistryExact.frame (h : s.RegistryExact) (ho : s'.runtime.owners = s.runtime.owners)
    (hc : s'.contexts = s.contexts) (hn : s.opened ≤ s'.opened) : s'.RegistryExact where
  contexts := hc ▸ h.contexts.mono hn
  keys := ho ▸ h.keys
  exact id c := by rw [ho, hc]; exact h.exact id c

theorem RegistryExact.create (schema : Schema) (config : ContextConfig) (blockSize : Nat) :
    (create schema config blockSize).RegistryExact where
  contexts := ⟨by simp [Session.create], by simp [Session.create], by simp [Session.create],
    by simp [Session.create]⟩
  keys := by simp [Session.create]
  exact id c := by simp [Session.create, Holds]

/-- A call that runs in a context: the context named `name`, over its database, runs the
operation from the session's runtime, and the session takes the runtime, the database and the
context's state that the run leaves. -/
theorem run_eq_some {α} {name : String} {op : Engine α} {r : Except EngineError α}
    (hrun : s.run name op = some (r, s')) :
    ∃ e d st, s.context? name = some e ∧ s.database? e.db = some d ∧
      (ExceptT.run op).run { runtime := s.runtime, ctx := e.ctx, db := d.database } = (r, st) ∧
      s' = { ({ s with runtime := st.runtime }.setDatabase { d with database := st.db }) with
        contexts := s.contexts.map fun c => if c.name == name then { c with ctx := st.ctx } else c } := by
  simp only [Session.run, Option.bind_eq_bind, Option.bind_eq_some_iff] at hrun
  obtain ⟨e, he, d, hd, hrun⟩ := hrun
  generalize hp : StateT.run (ExceptT.run op) _ = p at hrun
  obtain ⟨r', st⟩ := p
  simp only [Option.pure_def, Option.some.injEq, Prod.mk.injEq] at hrun
  obtain ⟨rfl, rfl⟩ := hrun
  exact ⟨e, d, st, he, hd, hp, rfl⟩

/-- A call in a context keeps the registry exact: the call keeps its own context's entries in
line with its managers and leaves the other contexts' entries alone, returning or failing. -/
theorem RegistryExact.run {α} {name : String} {op : Engine α} {r : Except EngineError α}
    (hop : ∀ v, ⦃fun st => ⌜OwnersAgree v st⌝⦄ op ⦃Engine.keeps (OwnersAgree v)⦄)
    (h : s.RegistryExact) (hrun : s.run name op = some (r, s')) : s'.RegistryExact := by
  obtain ⟨e, d, st, he, -, hp, rfl⟩ := run_eq_some hrun
  have hmem : e ∈ s.contexts := List.mem_of_find?_eq_some he
  have hname : e.name = name := by simpa using List.find?_some he
  -- the other contexts' holdings are what the registry view gives the call
  have hpre : OwnersAgree ⟨e.ctx.id, Holds s.contexts⟩
      { runtime := s.runtime, ctx := e.ctx, db := d.database } :=
    { ctx_id := rfl
      keys := h.keys
      first := h.contexts.first e hmem
      own := fun id => (h.exact id _).trans (h.contexts.holds_self hmem)
      others := fun id c _ => h.exact id c }
  have hpost := Engine.keeps_run_of (hop _) _ hpre
  rw [hp] at hpost
  have hid : st.ctx.id = e.ctx.id := hpost.ctx_id
  -- only the call's own context is named `name`, and it is replaced by itself with the
  -- state the call left
  have hl : s.contexts.map (fun c => if (c.name == name) = true then { c with ctx := st.ctx } else c) =
      s.contexts.map (fun c => if c.name == name then { e with ctx := st.ctx } else c) :=
    List.map_congr_left fun c hc => by
      by_cases hc' : c.name = name
      · simp [h.contexts.eq_of_name hmem hname hc hc']
      · simp [hc']
  simp only [setDatabase_runtime, setDatabase_opened, hl]
  refine ⟨h.contexts.replace hmem hname hname (.inl hid) (hid ▸ h.contexts.fresh e hmem) le_rfl
    hpost.first, hpost.keys, fun id c => ?_⟩
  rw [h.contexts.holds_replace hmem hname]
  by_cases hc : c = e.ctx.id
  · subst hc
    simpa [hid] using hpost.own id
  · rw [hpost.others id c hc]
    simp [hid, Ne.symm hc, hc]

theorem RegistryExact.openContext {name db : String} (h : s.RegistryExact)
    (ho : s.openContext name db = .ok s') : s'.RegistryExact := by
  unfold Session.openContext at ho
  have h₁ : (s.useDatabase db).RegistryExact := h.frame (by simp) (by simp) (by simp)
  generalize s.useDatabase db = s₁ at ho h₁
  dsimp only at ho
  split at ho
  · cases ho
    exact h₁
  split at ho
  · cases ho
  simp only [setDatabase_runtime, setDatabase_contexts, setDatabase_opened] at ho
  split at ho
  · -- a context of that name is open: it is dropped, and the new one takes its place
    rename_i old hold
    cases ho
    simp only [Session.context?] at hold
    have hmem : old ∈ s₁.contexts := List.mem_of_find?_eq_some hold
    have hname : old.name = name := by simpa using List.find?_some hold
    refine ⟨?_, ?_, fun id c => ?_⟩ <;> simp only [drop_owners, drop_contexts, drop_opened]
    · exact h₁.contexts.replace hmem hname rfl (.inr le_rfl) (Nat.lt_succ_self _) (Nat.le_succ _)
        (by simp [FirstInUse, Context.create])
    · exact (List.filter_sublist.map _).nodup h₁.keys
    · rw [h₁.contexts.holds_replace hmem hname, List.mem_filter, h₁.exact]
      simp [Context.create, Holding, and_comm]
  · -- no context of that name is open: the new one comes last
    rename_i hnone
    cases ho
    have hname : name ∉ s₁.contexts.map (·.name) := by
      simpa [Session.context?, List.find?_eq_none] using hnone
    refine ⟨h₁.contexts.append hname le_rfl (Nat.lt_succ_self _) (Nat.le_succ _)
      (by simp [FirstInUse, Context.create]), h₁.keys, fun id c => ?_⟩
    rw [holds_append, h₁.exact]
    simp [Context.create, Holding]

/-- An invariant that opening a context keeps, and that every call keeps when it runs in a
context, holds after every run of steps: a step that cannot start leaves the session as it
was. -/
theorem steps_keep {P : Session → Prop}
    (hopen : ∀ {s s' : Session} (name db : String), P s → s.openContext name db = .ok s' → P s')
    (hcall : ∀ {s s' : Session} (name : String) (c : Call) (r : Except EngineError Unit), P s →
      s.run name c.run = some (r, s') → P s')
    (l : List Step) (h : P s) : P (s.steps l) := by
  induction l generalizing s with
  | nil => exact h
  | cons st l ih =>
    show P ((s.step st).steps l)
    refine ih ?_
    cases st with
    | openContext name db =>
      simp only [Session.step]
      split
      next ho => exact hopen name db h ho
      next => exact h
    | call name c =>
      simp only [Session.step]
      split
      next hrun => exact hcall name c _ h hrun
      next => exact h

theorem RegistryExact.steps (h : s.RegistryExact) (l : List Step) : (s.steps l).RegistryExact :=
  steps_keep (fun _ _ h ho => h.openContext ho)
    (fun _ c _ h hrun => h.run (fun _ => Call.run_agree c) hrun) l h

end Steps

/-- In every session reached from a fresh one, whatever contexts were opened and whatever
calls they made, returning or failing partway: no object is held by two contexts, and the
registry names a context for an object exactly when that context holds it. -/
theorem holder_unique_and_registered (schema : Schema) (config : ContextConfig)
    (blockSize : Nat) (l : List Step) :
    let s := (create schema config blockSize).steps l
    (∀ e₁ ∈ s.contexts, ∀ e₂ ∈ s.contexts, ∀ id, e₁.holds id → e₂.holds id → e₁ = e₂) ∧
    ∀ id c, s.runtime.ownerOf id = some c ↔ ∃ e ∈ s.contexts, e.ctx.id = c ∧ e.holds id := by
  intro s
  have h : s.RegistryExact := (RegistryExact.create schema config blockSize).steps l
  -- the manager a context finds first is the one in use, so holding reads off the lookup
  have hholds : ∀ e ∈ s.contexts, ∀ id, e.holds id ↔ Holding e.ctx.objects id :=
    fun e he _ => (h.contexts.first e he).holding_iff.symm
  have hown : ∀ id c, s.runtime.ownerOf id = some c ↔
      ∃ e ∈ s.contexts, e.ctx.id = c ∧ e.holds id := by
    intro id c
    rw [Runtime.ownerOf_eq_some_iff h.keys, h.exact]
    constructor
    · rintro ⟨e, he, rfl, hh⟩
      exact ⟨e, he, rfl, (hholds e he id).2 hh⟩
    · rintro ⟨e, he, rfl, hh⟩
      exact ⟨e, he, rfl, (hholds e he id).1 hh⟩
  refine ⟨fun e₁ h₁ e₂ h₂ id hh₁ hh₂ => ?_, hown⟩
  -- the registry has one entry per object, and contexts are numbered apart
  have o₁ := (hown id _).2 ⟨e₁, h₁, rfl, hh₁⟩
  have o₂ := (hown id _).2 ⟨e₂, h₂, rfl, hh₂⟩
  exact List.inj_on_of_nodup_map h.contexts.ids h₁ h₂ (Option.some.inj (o₁.symm.trans o₂))

end Session

end ObjectPersistence
