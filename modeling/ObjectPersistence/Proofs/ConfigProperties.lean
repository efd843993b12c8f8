import Mathlib
import ObjectPersistence.Proofs.CommittedRead

/-! # Setting context properties

A property is set from text and read back as text. Setting one changes the single setting
its name addresses, and only once the text parses; afterwards the property reads back as the
parsed value in its canonical spelling, and setting a property to what it reads back changes
nothing. The setting belongs to its context: neither the runtime's defaults nor any other
context sees it. -/

namespace ObjectPersistence

namespace Text

theorem trimBlank_of_forall {s : String} (h : ∀ c ∈ s.toList, isBlank c = false) :
    trimBlank s = s := by
  have keep : ∀ l : List Char, (∀ c ∈ l, isBlank c = false) → l.dropWhile isBlank = l := by
    intro l hl
    cases l with
    | nil => rfl
    | cons c l => simp [hl c (by simp)]
  have hr : ∀ c ∈ s.toList.reverse, isBlank c = false := fun c hc => h c (List.mem_reverse.1 hc)
  simp only [trimBlank, keep _ h, keep _ hr, List.reverse_reverse, String.ofList_toList]

theorem isBlank_of_isDigit {c : Char} (h : c.isDigit) : isBlank c = false := by
  simp only [Char.isDigit, Bool.and_eq_true, decide_eq_true_eq] at h
  have h₁ : 48 ≤ c.toNat := h.1
  have h₂ : c.toNat ≤ 57 := h.2
  simp [isBlank]
  omega

end Text

namespace Numeral

theorem digitsValue_toDigits (n : Nat) : digitsValue (Nat.toDigits 10 n) = n := by
  have h : digitsValue (Nat.toDigits 10 n) = Nat.ofDigitChars 10 (Nat.toDigits 10 n) 0 := by
    simp only [digitsValue, Nat.ofDigitChars, Nat.mul_comm]
    rfl
  rw [h, Nat.ofDigitChars_ten_toDigits]

end Numeral

namespace Property

@[simp] theorem ofName?_name (p : Property) : ofName? p.name = some p := by
  cases p <;> rfl

/-- The text a property reads back after being set from `value`: the switch or count the
text spells, in its canonical spelling, or nothing when the text spells none. -/
def canonical? : Property → String → Option String
  | poolCapacity, value => (ContextConfig.readCount? value).map toString
  | _, value => (ContextConfig.readSwitch? value).map ContextConfig.switchText

end Property

namespace ContextConfig

@[simp] theorem readSwitch?_switchText (b : Bool) : readSwitch? (switchText b) = some b := by
  cases b <;> rfl

theorem switchText_injective {a b : Bool} (h : switchText a = switchText b) : a = b := by
  cases a <;> cases b <;> simp_all [switchText]

theorem readCount?_toString {n : Nat} (hn : n < Nat.pow 2 64) : readCount? (toString n) = some n := by
  have hdigits : ∀ c ∈ Nat.toDigits 10 n, c.isDigit := fun c hc =>
    Nat.isDigit_of_mem_toDigits (by decide : 0 < 10) (by decide : 10 ≤ 10) hc
  have hlist : (toString n).toList = Nat.toDigits 10 n := by simp
  have htrim : Text.trimBlank (toString n) = toString n :=
    Text.trimBlank_of_forall fun c hc => Text.isBlank_of_isDigit (hdigits c (hlist ▸ hc))
  simp only [readCount?, htrim, hlist]
  split
  next rest hplus =>
    -- a decimal text starts with a digit, never with a sign
    have hsign := hdigits '+' (hplus ▸ List.mem_cons_self)
    exact absurd hsign (by decide)
  next =>
    have hall : (Nat.toDigits 10 n).all Char.isDigit := List.all_eq_true.2 hdigits
    simp [Nat.toDigits_ne_nil, hall, Numeral.digitsValue_toDigits, hn]

theorem ext_get {c d : ContextConfig} (h : ∀ p, c.get p = d.get p) : c = d := by
  have hcount : c.poolCapacity = d.poolCapacity := by
    have hp := congrArg (Numeral.digitsValue ∘ String.toList) (h .poolCapacity)
    simpa [get, Numeral.digitsValue_toDigits] using hp
  cases c
  cases d
  simp only [mk.injEq]
  exact ⟨switchText_injective (h .manageRelations), switchText_injective (h .queuedUpdates),
    switchText_injective (h .reachabilityAtCommit), switchText_injective (h .retainValues), hcount⟩

theorem canonical?_get {c : ContextConfig} (hc : c.poolCapacity < Nat.pow 2 64) (p : Property) :
    p.canonical? (c.get p) = some (c.get p) := by
  cases p with
  | poolCapacity => simp only [Property.canonical?, get, readCount?_toString hc, Option.map_some]
  | manageRelations | queuedUpdates | reachabilityAtCommit | retainValues =>
    simp only [Property.canonical?, get, readSwitch?_switchText, Option.map_some]

/-- Setting a property either fails, exactly when the name addresses no property or the text
spells no value for it, or sets the addressed property to the canonical spelling of the value
and leaves the other four as they read. -/
theorem setProperty_cases (c : ContextConfig) (name value : String) :
    ((Property.ofName? name).bind (·.canonical? value) = none ∧
      ∃ e, c.setProperty name value = .error e) ∨
    ∃ p c', Property.ofName? name = some p ∧ c.setProperty name value = .ok c' ∧
      p.canonical? value = some (c'.get p) ∧ ∀ q ≠ p, c'.get q = c.get q := by
  rcases hp : Property.ofName? name with _ | p
  · simp [setProperty, hp]
  · cases p with
    | poolCapacity =>
      rcases hn : readCount? value with _ | n
      · simp [setProperty, hp, hn, Property.canonical?]
      · simp only [setProperty, hp, hn]
        refine .inr ⟨_, _, rfl, rfl, by simp [Property.canonical?, hn, get], fun q hq => ?_⟩
        cases q <;> simp [get] at hq ⊢
    | manageRelations | queuedUpdates | reachabilityAtCommit | retainValues =>
      rcases hb : readSwitch? value with _ | b
      · simp [setProperty, hp, hb, Property.canonical?]
      · simp only [setProperty, hp, hb]
        refine .inr ⟨_, _, rfl, rfl, by simp [Property.canonical?, hb, get], fun q hq => ?_⟩
        cases q <;> simp [get] at hq ⊢

example : (ContextConfig.default.setProperty "objstate.queuedUpdates" "TRUE" >>=
    (·.setProperty "objstate.stateManagerPoolCapacity" " 8 ")) =
      .ok { queuedUpdates := true, poolCapacity := 8 } := by decide

theorem setProperty_get {c : ContextConfig} (hc : c.poolCapacity < Nat.pow 2 64) (p : Property) :
    c.setProperty p.name (c.get p) = .ok c := by
  rcases setProperty_cases c p.name (c.get p) with ⟨hnone, -⟩ | ⟨q, c', hq, hset, hcanon, hrest⟩
  · simp [canonical?_get hc] at hnone
  · obtain rfl : q = p := Option.some.inj (hq.symm.trans (Property.ofName?_name p))
    have hsame : c'.get q = c.get q := by
      simpa [canonical?_get hc] using hcanon.symm
    have hc' : c' = c := ext_get fun r => by
      by_cases hr : r = q
      · exact hr ▸ hsame
      · exact hrest r hr
    rw [hset, hc']

end ContextConfig

namespace Engine

/-- A property set in the engine fails with the reason the configuration gives and changes
nothing, or installs the new configuration and changes nothing else. -/
theorem setProperty_run (s : EngineState) (name value : String) :
    (ExceptT.run (setProperty name value)).run s =
      match s.ctx.config.setProperty name value with
      | .ok c' => (.ok (), { s with ctx := { s.ctx with config := c' } })
      | .error e => (.error (.invalidProperty e), s) := by
  simp only [setProperty, context, run_bind, run_get, run_pure]
  cases s.ctx.config.setProperty name value <;> rfl

end Engine

namespace Session

variable {α : Type} {s s' : Session} {name : String} {op : Engine α} {r : Except EngineError α}

theorem find?_replace_other (ctx : Context) {n : String} (hn : n ≠ name) (l : List ContextEntry) :
    (l.map fun c => if c.name == name then { c with ctx } else c).find? (·.name == n) =
      l.find? (·.name == n) := by
  induction l with
  | nil => rfl
  | cons c l ih =>
    rw [List.map_cons, List.find?_cons, List.find?_cons, ih]
    by_cases hc : c.name = name
    · -- the replaced entry keeps its name, which is not `n`
      have hne : (name == n) = false := beq_false_of_ne (Ne.symm hn)
      simp [hc, hne]
    · simp [hc]

theorem run_frame (h : s.run name op = some (r, s'))
    (hop : ∀ st : EngineState, ((ExceptT.run op).run st).2.runtime = st.runtime) :
    s'.runtime = s.runtime ∧ ∀ n ≠ name, s'.context? n = s.context? n := by
  simp only [Session.run, Option.bind_eq_bind, Option.bind_eq_some_iff] at h
  obtain ⟨e, -, d, -, h⟩ := h
  simp only [Option.pure_def] at h
  obtain ⟨-, rfl⟩ := h
  exact ⟨hop _, fun n hn => find?_replace_other _ hn s.contexts⟩

/-- Setting a property in a context leaves the runtime, its default settings with it, and
every context of another name as they were, whether or not the setting succeeds. -/
theorem step_setProperty_frame (s : Session) (ctx name value : String) :
    (s.step (.call ctx (.setProperty name value))).runtime = s.runtime ∧
      ∀ n ≠ ctx, (s.step (.call ctx (.setProperty name value))).context? n = s.context? n := by
  simp only [Session.step, Call.run]
  rcases hrun : s.run ctx (Engine.setProperty name value) with _ | ⟨r, s'⟩
  · exact ⟨rfl, fun _ _ => rfl⟩
  · refine run_frame hrun fun st => ?_
    rw [Engine.setProperty_run]
    split <;> rfl

end Session

/-- Setting a property in the engine fails, exactly when the name addresses no property or
the text spells no value for it, and then changes nothing; or it changes the configuration of
the context alone, after which the addressed property reads as the canonical spelling of the
value and the other four read as before. -/
theorem Engine.setProperty_law (s : EngineState) (name value : String) :
    ((Property.ofName? name).bind (·.canonical? value) = none ∧
      ∃ e, (ExceptT.run (Engine.setProperty name value)).run s = (.error (.invalidProperty e), s)) ∨
    ∃ p c', Property.ofName? name = some p ∧
      (ExceptT.run (Engine.setProperty name value)).run s =
        (.ok (), { s with ctx := { s.ctx with config := c' } }) ∧
      c'.property? name = p.canonical? value ∧ ∀ q ≠ p, c'.get q = s.ctx.config.get q := by
  rw [Engine.setProperty_run]
  rcases ContextConfig.setProperty_cases s.ctx.config name value with
    ⟨hnone, e, he⟩ | ⟨p, c', hp, hset, hcanon, hrest⟩
  · exact .inl ⟨hnone, e, by rw [he]⟩
  · exact .inr ⟨p, c', hp, by rw [hset], by simp [ContextConfig.property?, hp, hcanon], hrest⟩

/-- The laws of context properties: a setting changes one property of its own context or
nothing, after which the property reads back canonically; setting a property to what it reads
as keeps the configuration; and a setting stays in its context. -/
theorem property_set_changes_one_setting :
    (∀ (s : EngineState) (name value : String),
      ((Property.ofName? name).bind (·.canonical? value) = none ∧
        ∃ e, (ExceptT.run (Engine.setProperty name value)).run s = (.error (.invalidProperty e), s)) ∨
      ∃ p c', Property.ofName? name = some p ∧
        (ExceptT.run (Engine.setProperty name value)).run s =
          (.ok (), { s with ctx := { s.ctx with config := c' } }) ∧
        c'.property? name = p.canonical? value ∧ ∀ q ≠ p, c'.get q = s.ctx.config.get q) ∧
    (∀ c : ContextConfig, c.poolCapacity < Nat.pow 2 64 →
      ∀ p : Property, ∃ t, c.property? p.name = some t ∧ c.setProperty p.name t = .ok c) ∧
    (∀ (s : Session) (ctx name value : String),
      (s.step (.call ctx (.setProperty name value))).runtime = s.runtime ∧
      ∀ n ≠ ctx, (s.step (.call ctx (.setProperty name value))).context? n = s.context? n) :=
  ⟨Engine.setProperty_law,
    fun c hc p => ⟨c.get p, by simp [ContextConfig.property?], ContextConfig.setProperty_get hc p⟩,
    Session.step_setProperty_frame⟩

/-- The largest capacity reads back and sets back to itself. -/
theorem largest_capacity_reads_back :
    ({ poolCapacity := Nat.pow 2 64 - 1 } : ContextConfig).poolCapacity < Nat.pow 2 64 ∧
      ∃ t, ({ poolCapacity := Nat.pow 2 64 - 1 } : ContextConfig).property?
          Property.poolCapacity.name = some t ∧
        ({ poolCapacity := Nat.pow 2 64 - 1 } : ContextConfig).setProperty
          Property.poolCapacity.name t = .ok { poolCapacity := Nat.pow 2 64 - 1 } :=
  ⟨by decide, property_set_changes_one_setting.2.1 _ (by decide) .poolCapacity⟩

end ObjectPersistence
