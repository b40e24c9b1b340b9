import TableGraph.Proofs.Condition
import TableGraph.Proofs.Filter.Trees

/-!
# Flat conditions

Joins keep conditions flat: no part of a conjunction is a conjunction or asks for nothing, and no
part of a disjunction asks for nothing (`Filter.flat_predicate`).  So a conjunction of flat
conditions asks for nothing only if all of them do, and a disjunction always asks for something.
-/

namespace TableGraph

namespace Predicate

variable {α : Type}

/-- A condition in which nothing is left to simplify. -/
inductive Flat : Predicate α → Prop
  | always : Flat always
  | tautology : Flat tautology
  | test (column : String) (t : Test α) : Flat (test column t)
  /-- The parts of a conjunction, of which there are some, are parts of no other one. -/
  | all {ps : List (Predicate α)} (hps : ps ≠ []) (hflat : ∀ p ∈ ps, Flat p)
    (hparts : ∀ p ∈ ps, p.conjuncts = [p]) : Flat (all ps)
  | any {ps : List (Predicate α)} (hflat : ∀ p ∈ ps, Flat p)
    (hparts : ∀ p ∈ ps, p.isAlways = false) : Flat (any ps)

theorem isAlways_of_conjuncts {p : Predicate α} (h : p.conjuncts = [p]) : p.isAlways = false := by
  cases p with
  | always => cases h
  | _ => rfl

namespace Flat

variable {p q : Predicate α} {ps : List (Predicate α)}

theorem of_mem_conjuncts (hp : p.Flat) (hq : q ∈ p.conjuncts) : q.Flat ∧ q.conjuncts = [q] := by
  cases hp with
  | always => cases hq
  | all _ hflat hparts => exact ⟨hflat q hq, hparts q hq⟩
  | tautology =>
    obtain rfl := List.mem_singleton.1 hq
    exact ⟨.tautology, rfl⟩
  | test column t =>
    obtain rfl := List.mem_singleton.1 hq
    exact ⟨.test column t, rfl⟩
  | any hflat hparts =>
    obtain rfl := List.mem_singleton.1 hq
    exact ⟨.any hflat hparts, rfl⟩

theorem of_mem_disjuncts (hp : p.Flat) (hsome : p.isAlways = false) (hq : q ∈ p.disjuncts) :
    q.Flat ∧ q.isAlways = false := by
  cases hp with
  | always => cases hsome
  | any hflat hparts => exact ⟨hflat q hq, hparts q hq⟩
  | tautology =>
    obtain rfl := List.mem_singleton.1 hq
    exact ⟨.tautology, rfl⟩
  | test column t =>
    obtain rfl := List.mem_singleton.1 hq
    exact ⟨.test column t, rfl⟩
  | all hps hflat hparts =>
    obtain rfl := List.mem_singleton.1 hq
    exact ⟨.all hps hflat hparts, rfl⟩

/-- A flat condition asks for nothing if it is no conjunction of anything. -/
theorem conjuncts_eq_nil_iff (hp : p.Flat) : p.conjuncts = [] ↔ p.isAlways := by
  cases hp with
  | all hps => exact iff_of_false hps nofun
  | _ => simp [conjuncts, isAlways]

theorem allOf (h : ∀ p ∈ ps, p.Flat) : (allOf ps).Flat := by
  have parts : ∀ q ∈ ps.flatMap conjuncts, q.Flat ∧ q.conjuncts = [q] := by
    intro q hq
    obtain ⟨p, hp, hq⟩ := List.mem_flatMap.1 hq
    exact (h p hp).of_mem_conjuncts hq
  unfold Predicate.allOf
  split
  next => exact .always
  next q hq => exact (parts q (hq ▸ List.mem_singleton_self q)).1
  next hnil _ => exact .all hnil (fun q hq => (parts q hq).1) fun q hq => (parts q hq).2

/-- A conjunction asks for nothing if all parts do. -/
theorem isAlways_allOf (h : ∀ p ∈ ps, p.Flat) :
    (Predicate.allOf ps).isAlways ↔ ∀ p ∈ ps, p.isAlways := by
  have nothing : ps.flatMap conjuncts = [] ↔ ∀ p ∈ ps, p.isAlways :=
    List.flatMap_eq_nil_iff.trans (forall₂_congr fun p hp => (h p hp).conjuncts_eq_nil_iff)
  rw [← nothing]
  unfold Predicate.allOf
  split
  next hnil => exact iff_of_true rfl hnil
  next q hq =>
    obtain ⟨p, hp, hmem⟩ := List.mem_flatMap.1 (hq ▸ List.mem_singleton_self q)
    have part := isAlways_of_conjuncts ((h p hp).of_mem_conjuncts hmem).2
    exact iff_of_false (by simp [part]) (by simp [hq])
  next hnil _ => exact iff_of_false nofun hnil

theorem of_mem_flatMap_disjuncts (h : ∀ p ∈ ps, p.Flat) (hsome : ¬ ps.any isAlways)
    (hq : q ∈ ps.flatMap disjuncts) : q.Flat ∧ q.isAlways = false := by
  obtain ⟨p, hp, hq⟩ := List.mem_flatMap.1 hq
  have some : p.isAlways = false :=
    Bool.eq_false_iff.2 fun hp' => hsome (List.any_eq_true.2 ⟨p, hp, hp'⟩)
  exact (h p hp).of_mem_disjuncts some hq

theorem anyOf (h : ∀ p ∈ ps, p.Flat) : (anyOf ps).Flat := by
  unfold Predicate.anyOf
  split_ifs with hany
  · exact .tautology
  · split
    next q hq => exact (of_mem_flatMap_disjuncts h hany (hq ▸ List.mem_singleton_self q)).1
    next =>
      exact .any (fun q hq => (of_mem_flatMap_disjuncts h hany hq).1)
        fun q hq => (of_mem_flatMap_disjuncts h hany hq).2

/-- A disjunction asks for something. -/
theorem isAlways_anyOf (h : ∀ p ∈ ps, p.Flat) : (Predicate.anyOf ps).isAlways = false := by
  unfold Predicate.anyOf
  split_ifs with hany
  · rfl
  · split
    next q hq => exact (of_mem_flatMap_disjuncts h hany (hq ▸ List.mem_singleton_self q)).2
    next => rfl

end Flat

end Predicate

namespace Filter

/-- Conditions of filters are flat. -/
theorem flat_predicate (f : Filter) : f.predicate.Flat := by
  match f with
  | .test column t => exact .test column t
  | .all fs =>
    have parts : ∀ f ∈ fs, f.predicate.Flat := fun f _ => flat_predicate f
    show (Predicate.allOf (predicates fs)).Flat
    rw [predicates_eq_map]
    exact .allOf (List.forall_mem_map.2 parts)
  | .any fs =>
    have parts : ∀ f ∈ fs, f.predicate.Flat := fun f _ => flat_predicate f
    show (Predicate.anyOf (predicates fs)).Flat
    rw [predicates_eq_map]
    exact .anyOf (List.forall_mem_map.2 parts)
termination_by sizeOf f
decreasing_by
  all_goals
    have := List.sizeOf_lt_of_mem ‹f ∈ fs›
    simp
    omega

variable {fs : List Filter}

theorem flat_predicates : ∀ p ∈ predicates fs, p.Flat := by
  rw [predicates_eq_map, List.forall_mem_map]
  exact fun f _ => f.flat_predicate

theorem isAlways_all : (all fs).predicate.isAlways ↔ ∀ f ∈ fs, f.predicate.isAlways := by
  show (Predicate.allOf (predicates fs)).isAlways ↔ _
  rw [Predicate.Flat.isAlways_allOf flat_predicates, predicates_eq_map, List.forall_mem_map]

theorem isAlways_any : (any fs).predicate.isAlways = false :=
  Predicate.Flat.isAlways_anyOf flat_predicates

end Filter

end TableGraph
