import Mathlib
import ObjectPersistence.Value.Id

/-! # Walks over references

The context walks the references between its objects in two places: a flush orders the new
objects by the references their relation fields hold, and reachability follows the references
of cascade-persist relation fields from the objects that stay persistent. Both are depth-first
walks that share one visited list across their starts, follow the references `E x` of each
object they visit, and enter only the objects `P` admits: new objects for the flush, managed
objects that are not deleted for reachability.

`Visits E P V ts N` says what such a walk from the starts `ts` adds to the visited list `V`:
the admitted objects its starts reach outside `V`, each once. The lemmas below build it one
case of a walk at a time (a start skipped, a start visited, starts walked in turn), and
`Visits.congr` moves it to other references that agree on what was visited, which is what a
walk needs when the references of an object change once it is visited. -/

namespace ObjectPersistence

namespace Graph

section Walk

variable (E : ObjectId → List ObjectId) (P : ObjectId → Prop)

def Edge (V : List ObjectId) (x y : ObjectId) : Prop :=
  y ∈ E x ∧ P y ∧ y ∉ V

def ReachesAvoiding (V : List ObjectId) (a b : ObjectId) : Prop :=
  P a ∧ a ∉ V ∧ Relation.ReflTransGen (Edge E P V) a b

/-- What a walk from the starts `ts` adds to the visited list `V`: admitted objects, once each,
each reached from a start outside `V`, such that every admitted start and every admitted object
they reference is visited by the end. -/
structure Visits (V ts N : List ObjectId) : Prop where
  nodup : N.Nodup
  fresh : ∀ x ∈ N, x ∉ V
  starts : ∀ t ∈ ts, P t → t ∈ V ++ N
  closed : ∀ x ∈ N, ∀ y ∈ E x, P y → y ∈ V ++ N
  reached : ∀ x ∈ N, ∃ t ∈ ts, ReachesAvoiding E P V t x

variable {E P} {V : List ObjectId}

/-! ### Reaching through admitted objects -/

theorem ReachesAvoiding.target {a b : ObjectId} (h : ReachesAvoiding E P V a b) : P b := by
  obtain ⟨ha, -, hpath⟩ := h
  cases hpath.cases_tail with
  | inl heq => exact heq ▸ ha
  | inr hlast =>
    obtain ⟨c, -, hc⟩ := hlast
    exact hc.2.1

theorem ReachesAvoiding.refl {a : ObjectId} (ha : P a) (haV : a ∉ V) : ReachesAvoiding E P V a a :=
  ⟨ha, haV, .refl⟩

theorem ReachesAvoiding.of_append {W : List ObjectId} {a b : ObjectId}
    (h : ReachesAvoiding E P (V ++ W) a b) : ReachesAvoiding E P V a b := by
  obtain ⟨ha, haV, hpath⟩ := h
  refine ⟨ha, fun h' => haV (List.mem_append_left W h'), Relation.ReflTransGen.mono ?_ a b hpath⟩
  exact fun x y hxy => ⟨hxy.1, hxy.2.1, fun h' => hxy.2.2 (List.mem_append_left W h')⟩

theorem ReachesAvoiding.head {a b c : ObjectId} (ha : P a) (haV : a ∉ V) (hab : b ∈ E a)
    (h : ReachesAvoiding E P V b c) : ReachesAvoiding E P V a c :=
  ⟨ha, haV, .head ⟨hab, h.1, h.2.1⟩ h.2.2⟩

theorem ReachesAvoiding.tail {a b c : ObjectId} (h : ReachesAvoiding E P V a b) (hbc : c ∈ E b)
    (hc : P c) (hcV : c ∉ V) : ReachesAvoiding E P V a c :=
  ⟨h.1, h.2.1, .tail h.2.2 ⟨hbc, hc, hcV⟩⟩

/-! ### What a walk visits -/

variable {ts N : List ObjectId}

theorem Visits.mem_iff (h : Visits E P V ts N) (x : ObjectId) :
    x ∈ N ↔ ∃ t ∈ ts, ReachesAvoiding E P V t x := by
  refine ⟨h.reached x, ?_⟩
  rintro ⟨t, ht, htp, htV, hpath⟩
  -- along the path every object is visited: the start by `starts`, the rest by `closed`
  induction hpath with
  | refl => exact (List.mem_append.mp (h.starts t ht htp)).resolve_left htV
  | tail _ hyz ih =>
    exact (List.mem_append.mp (h.closed _ ih _ hyz.1 hyz.2.1)).resolve_left hyz.2.2

theorem Visits.nil : Visits E P V [] [] :=
  ⟨List.nodup_nil, by simp, by simp, by simp, by simp⟩

theorem Visits.skip {t : ObjectId} (ht : ¬ P t ∨ t ∈ V) : Visits E P V [t] [] := by
  refine ⟨List.nodup_nil, by simp, ?_, by simp, by simp⟩
  intro t' ht' htp
  obtain rfl := List.mem_singleton.mp ht'
  simpa [htp] using ht

theorem Visits.cons {t : ObjectId} {N₁ N₂ : List ObjectId} (h₁ : Visits E P V [t] N₁)
    (h₂ : Visits E P (V ++ N₁) ts N₂) : Visits E P V (t :: ts) (N₁ ++ N₂) := by
  -- what the later walks visit lies outside what the first one did
  have hdisj : ∀ x ∈ N₂, x ∉ V ∧ x ∉ N₁ := fun x hx => by
    simpa [not_or] using h₂.fresh x hx
  refine ⟨?_, ?_, ?_, ?_, ?_⟩
  · exact List.nodup_append.mpr ⟨h₁.nodup, h₂.nodup, fun x hx y hy hxy =>
      (hdisj y hy).2 (hxy ▸ hx)⟩
  · intro x hx
    rcases List.mem_append.mp hx with hx | hx
    · exact h₁.fresh x hx
    · exact (hdisj x hx).1
  · intro t' ht' htp
    rcases List.mem_cons.mp ht' with rfl | ht'
    · simpa using List.mem_append_left N₂ (h₁.starts t' List.mem_cons_self htp)
    · simpa using h₂.starts t' ht' htp
  · intro x hx y hy hyp
    rcases List.mem_append.mp hx with hx | hx
    · simpa using List.mem_append_left N₂ (h₁.closed x hx y hy hyp)
    · simpa using h₂.closed x hx y hy hyp
  · intro x hx
    rcases List.mem_append.mp hx with hx | hx
    · obtain ⟨t', ht', hr⟩ := h₁.reached x hx
      exact ⟨t', List.mem_cons.mpr (.inl (List.mem_singleton.mp ht')), hr⟩
    · obtain ⟨t', ht', hr⟩ := h₂.reached x hx
      exact ⟨t', List.mem_cons_of_mem t ht', hr.of_append⟩

theorem Visits.visit {t : ObjectId} (ht : P t) (htV : t ∉ V) (h : Visits E P (V ++ [t]) (E t) N) :
    Visits E P V [t] (t :: N) := by
  have hfresh : ∀ x ∈ N, x ∉ V ∧ x ≠ t := fun x hx => by simpa [not_or] using h.fresh x hx
  refine ⟨?_, ?_, ?_, ?_, ?_⟩
  · exact List.nodup_cons.mpr ⟨fun h' => (hfresh t h').2 rfl, h.nodup⟩
  · intro x hx
    rcases List.mem_cons.mp hx with rfl | hx
    · exact htV
    · exact (hfresh x hx).1
  · intro t' ht' _
    obtain rfl := List.mem_singleton.mp ht'
    simp
  · intro x hx y hy hyp
    rcases List.mem_cons.mp hx with rfl | hx
    · simpa using h.starts y hy hyp
    · simpa using h.closed x hx y hy hyp
  · intro x hx
    refine ⟨t, List.mem_singleton_self t, ?_⟩
    rcases List.mem_cons.mp hx with rfl | hx
    · exact .refl ht htV
    · obtain ⟨t', ht', hr⟩ := h.reached x hx
      exact .head ht htV ht' hr.of_append

/-! ### Changing the references of what was visited -/

variable {E' : ObjectId → List ObjectId} {P' : ObjectId → Prop}

/-- A path from a start stays among the objects the walk visited, so it is a path under any
references that agree with `E` there. -/
theorem Visits.reaches_congr (h : Visits E P V ts N) (hE : ∀ x ∈ N, E' x = E x)
    (hP : ∀ y, P' y ↔ P y) {t x : ObjectId} (ht : t ∈ ts) (hr : ReachesAvoiding E P V t x) :
    ReachesAvoiding E' P' V t x := by
  obtain ⟨htp, htV, hpath⟩ := hr
  refine ⟨(hP t).mpr htp, htV, ?_⟩
  induction hpath with
  | refl => exact .refl
  | tail hpath' hbc ih =>
    rename_i b c
    have hb : b ∈ N := (h.mem_iff b).mpr ⟨t, ht, htp, htV, hpath'⟩
    exact .tail ih ⟨(hE b hb).symm ▸ hbc.1, (hP c).mpr hbc.2.1, hbc.2.2⟩

/-- What a walk visits under `E` it visits under any references that agree with `E` on the
visited objects, and under an equivalent admission. -/
theorem Visits.congr (h : Visits E P V ts N) (hE : ∀ x ∈ N, E' x = E x) (hP : ∀ y, P' y ↔ P y) :
    Visits E' P' V ts N where
  nodup := h.nodup
  fresh := h.fresh
  starts t ht htp := h.starts t ht ((hP t).mp htp)
  closed x hx y hy hyp := h.closed x hx y ((hE x hx) ▸ hy) ((hP y).mp hyp)
  reached x hx := by
    obtain ⟨t, ht, hr⟩ := h.reached x hx
    exact ⟨t, ht, h.reaches_congr hE hP ht hr⟩

/-! ### The bound on a walk -/

def unvisited (U V : List ObjectId) : Finset ObjectId := U.toFinset \ V.toFinset

theorem unvisited_append_card_le (U V N : List ObjectId) :
    (unvisited U (V ++ N)).card ≤ (unvisited U V).card :=
  Finset.card_le_card fun x => by simp [unvisited]; tauto

theorem unvisited_visit_card_lt {U V : List ObjectId} {t : ObjectId} (ht : t ∈ U) (htV : t ∉ V) :
    (unvisited U (V ++ [t])).card < (unvisited U V).card := by
  refine Finset.card_lt_card ⟨fun x => by simp [unvisited]; tauto, fun hsub => ?_⟩
  have htu : t ∈ unvisited U V := by simp [unvisited, ht, htV]
  simpa [unvisited] using hsub htu

theorem unvisited_card_le_of_subset {U U' : List ObjectId} (hU : ∀ x ∈ U', x ∈ U)
    (V : List ObjectId) : (unvisited U' V).card ≤ (unvisited U V).card := by
  refine Finset.card_le_card fun x hx => ?_
  simp only [unvisited, Finset.mem_sdiff, List.mem_toFinset] at hx ⊢
  exact ⟨hU x hx.1, hx.2⟩

end Walk

end Graph

end ObjectPersistence
