import TableGraph.Proofs.Condition

/-!
# Conditions of one shape

Two conditions are alike if they are the same joins of tests of the same columns and tests in the
same place are related in a given way.  Joining conditions that are alike gives conditions that are
alike, so that the relation can be shown test by test.

Two conditions agree on a table if they match the same rows, or fail alike, whatever the rows are.
Main statement: `Predicate.Alike.agree`, conditions whose tests agree in every place agree.
-/

namespace TableGraph

namespace Predicate

variable {α : Type} {R : String → Test α → Test α → Prop} {E : Expression → Expression → Prop}
  {p q : Predicate α} {ps qs : List (Predicate α)}

/--
The same joins of tests of the same columns and of expressions; tests in the same place are related,
and so are expressions.
-/
inductive Alike (R : String → Test α → Test α → Prop) (E : Expression → Expression → Prop) :
    Predicate α → Predicate α → Prop
  | always : Alike R E .always .always
  | tautology : Alike R E .tautology .tautology
  | test {column : String} {s t : Test α} (related : R column s t) :
    Alike R E (.test column s) (.test column t)
  | expression {e f : Expression} (related : E e f) : Alike R E (.expression e) (.expression f)
  | all {ps qs : List (Predicate α)} (parts : List.Forall₂ (Alike R E) ps qs) :
    Alike R E (.all ps) (.all qs)
  | any {ps qs : List (Predicate α)} (parts : List.Forall₂ (Alike R E) ps qs) :
    Alike R E (.any ps) (.any qs)

namespace Alike

theorem conjuncts (h : Alike R E p q) : List.Forall₂ (Alike R E) p.conjuncts q.conjuncts := by
  cases h with
  | always => exact .nil
  | tautology => exact .cons .tautology .nil
  | test related => exact .cons (.test related) .nil
  | expression related => exact .cons (.expression related) .nil
  | all parts => exact parts
  | any parts => exact .cons (.any parts) .nil

theorem disjuncts (h : Alike R E p q) : List.Forall₂ (Alike R E) p.disjuncts q.disjuncts := by
  cases h with
  | always => exact .cons .always .nil
  | tautology => exact .cons .tautology .nil
  | test related => exact .cons (.test related) .nil
  | expression related => exact .cons (.expression related) .nil
  | all parts => exact .cons (.all parts) .nil
  | any parts => exact parts

theorem isAlways_eq (h : Alike R E p q) : p.isAlways = q.isAlways := by
  cases h <;> rfl

theorem flatMap {g : Predicate α → List (Predicate α)}
    (hg : ∀ {p q}, Alike R E p q → List.Forall₂ (Alike R E) (g p) (g q))
    (h : List.Forall₂ (Alike R E) ps qs) :
    List.Forall₂ (Alike R E) (ps.flatMap g) (qs.flatMap g) := by
  induction h with
  | nil => exact .nil
  | cons hp _ ih => exact List.rel_append (hg hp) ih

theorem allOf (h : List.Forall₂ (Alike R E) ps qs) :
    Alike R E (Predicate.allOf ps) (Predicate.allOf qs) := by
  have flat := flatMap conjuncts h
  unfold Predicate.allOf
  generalize ps.flatMap Predicate.conjuncts = us at flat
  generalize qs.flatMap Predicate.conjuncts = vs at flat
  cases flat with
  | nil => exact .always
  | cons first rest =>
    cases rest with
    | nil => exact first
    | cons second rest => exact .all (.cons first (.cons second rest))

theorem anyOf (h : List.Forall₂ (Alike R E) ps qs) :
    Alike R E (Predicate.anyOf ps) (Predicate.anyOf qs) := by
  have always : ps.any isAlways = qs.any isAlways := by
    induction h with
    | nil => rfl
    | cons hp _ ih => rw [List.any_cons, List.any_cons, hp.isAlways_eq, ih]
  have flat := flatMap disjuncts h
  unfold Predicate.anyOf
  rw [always]
  split_ifs
  · exact .tautology
  · generalize ps.flatMap Predicate.disjuncts = us at flat
    generalize qs.flatMap Predicate.disjuncts = vs at flat
    cases flat with
    | nil => exact .any .nil
    | cons first rest =>
      cases rest with
      | nil => exact first
      | cons second rest => exact .any (.cons first (.cons second rest))

theorem andAlso (h : Alike R E p q) {u v : Predicate α} (huv : Alike R E u v) :
    Alike R E (p.andAlso (some u)) (q.andAlso (some v)) :=
  allOf (.cons h (.cons huv .nil))

mutual

/-- Weaker relations of the tests and the expressions relate the conditions. -/
theorem imp {S : String → Test α → Test α → Prop} {F : Expression → Expression → Prop}
    (tests : ∀ {column s t}, R column s t → S column s t) (expressions : ∀ {e f}, E e f → F e f)
    {p q : Predicate α} (h : Alike R E p q) : Alike S F p q := by
  match p with
  | .always =>
    cases h
    exact .always
  | .tautology =>
    cases h
    exact .tautology
  | .test column s =>
    cases h with
    | test related => exact .test (tests related)
  | .expression e =>
    cases h with
    | expression related => exact .expression (expressions related)
  | .all ps =>
    cases h with
    | all parts => exact .all (impAll tests expressions parts)
  | .any ps =>
    cases h with
    | any parts => exact .any (impAll tests expressions parts)
termination_by structural p

theorem impAll {S : String → Test α → Test α → Prop} {F : Expression → Expression → Prop}
    (tests : ∀ {column s t}, R column s t → S column s t) (expressions : ∀ {e f}, E e f → F e f)
    {ps qs : List (Predicate α)} (h : List.Forall₂ (Alike R E) ps qs) :
    List.Forall₂ (Alike S F) ps qs := by
  match ps with
  | [] =>
    cases h
    exact .nil
  | p :: ps =>
    cases h with
    | cons hp hps => exact .cons (imp tests expressions hp) (impAll tests expressions hps)
termination_by structural ps

end

end Alike

end Predicate

/-! ## Agreement on a table -/

namespace Table

variable {t : Table} {p q : Predicate Value}

/-- The conditions match the same rows, or fail alike, whatever the rows of the table are. -/
def Agree (t : Table) (p q : Predicate Value) : Prop :=
  ∀ rows, { t with rows }.matching p = { t with rows }.matching q

theorem Agree.refl (t : Table) (p : Predicate Value) : t.Agree p p := fun _ => rfl

/-- Conditions agree exactly if, with their operands as cells, they accept the same rows. -/
theorem agree_iff :
    t.Agree p q ↔ Predicate.accepts <$> t.bind p = Predicate.accepts <$> t.bind q := by
  have matching : ∀ rows c, { t with rows }.matching c =
      (fun accepts => rows.filter accepts) <$> Predicate.accepts <$> t.bind c := by
    intro rows c
    show (t.bind c >>= fun c => Except.ok (rows.filter c.accepts)) = _
    cases t.bind c <;> rfl
  unfold Agree
  simp only [matching]
  constructor
  · intro h
    cases hp : t.bind p with
    | error e =>
      cases hq : t.bind q with
      | error e' =>
        have faults := h []
        rw [hp, hq] at faults
        cases faults
        rfl
      | ok c' =>
        have impossible := h []
        rw [hp, hq] at impossible
        cases impossible
    | ok c =>
      cases hq : t.bind q with
      | error e' =>
        have impossible := h []
        rw [hp, hq] at impossible
        cases impossible
      | ok c' =>
        refine congrArg Except.ok (funext fun r => ?_)
        have one := h [r]
        rw [hp, hq] at one
        have one : [r].filter c.accepts = [r].filter c'.accepts := Except.ok.inj one
        rw [List.filter_singleton, List.filter_singleton] at one
        cases hc : c.accepts r <;> cases hc' : c'.accepts r <;> simp_all
  · intro h rows
    rw [h]

/-- What a conjunction accepts is told by what its parts accept. -/
theorem accepts_all_eq (ps : List (Predicate Cell)) :
    (Predicate.all ps).accepts = fun r => (ps.map Predicate.accepts).all (· r) := by
  funext r
  rw [Bool.eq_iff_iff, Predicate.accepts_all]
  simp

/-- What a disjunction accepts is told by what its parts accept. -/
theorem accepts_any_eq (ps : List (Predicate Cell)) :
    (Predicate.any ps).accepts = fun r => (ps.map Predicate.accepts).any (· r) := by
  funext r
  rw [Bool.eq_iff_iff, Predicate.accepts_any]
  simp

theorem accepts_bind_all (t : Table) (ps : List (Predicate Value)) :
    Predicate.accepts <$> t.bind (.all ps) =
      (fun (as : List (Row → Bool)) r => as.all (· r)) <$>
        List.map Predicate.accepts <$> ps.mapM t.bind := by
  show Predicate.accepts <$> (Predicate.all ps).mapM _ = _
  rw [Predicate.mapM_all]
  show _ = _ <$> _ <$> ps.mapM (Predicate.mapM _)
  cases ps.mapM (Predicate.mapM _) with
  | error e => rfl
  | ok qs => exact congrArg Except.ok (accepts_all_eq qs)

theorem accepts_bind_any (t : Table) (ps : List (Predicate Value)) :
    Predicate.accepts <$> t.bind (.any ps) =
      (fun (as : List (Row → Bool)) r => as.any (· r)) <$>
        List.map Predicate.accepts <$> ps.mapM t.bind := by
  show Predicate.accepts <$> (Predicate.any ps).mapM _ = _
  rw [Predicate.mapM_any]
  show _ = _ <$> _ <$> ps.mapM (Predicate.mapM _)
  cases ps.mapM (Predicate.mapM _) with
  | error e => rfl
  | ok qs => exact congrArg Except.ok (accepts_any_eq qs)

end Table

namespace Predicate.Alike

variable {t : Table}

mutual

/-- Conditions whose tests agree in every place agree. -/
theorem agree {p q : Predicate Value}
    (h : Alike (fun column s s' => t.Agree (.test column s) (.test column s')) Eq p q) :
    t.Agree p q := by
  match p with
  | .always =>
    cases h
    exact .refl t _
  | .tautology =>
    cases h
    exact .refl t _
  | .test column s =>
    cases h with
    | test related => exact related
  | .expression e =>
    cases h with
    | expression same => exact same ▸ .refl t _
  | .all ps =>
    cases h with
    | all parts =>
      rw [Table.agree_iff, Table.accepts_bind_all, Table.accepts_bind_all, agreeAll parts]
  | .any ps =>
    cases h with
    | any parts =>
      rw [Table.agree_iff, Table.accepts_bind_any, Table.accepts_bind_any, agreeAll parts]
termination_by structural p

/-- Operands of conditions that agree one by one become cells alike. -/
theorem agreeAll {ps qs : List (Predicate Value)} (h : List.Forall₂
      (Alike (fun column s s' => t.Agree (.test column s) (.test column s')) Eq) ps qs) :
    List.map accepts <$> ps.mapM t.bind = List.map accepts <$> qs.mapM t.bind := by
  match ps with
  | [] =>
    cases h
    rfl
  | p :: ps =>
    cases h with
    | @cons _ q _ qs hp hps =>
      have first := Table.agree_iff.1 (agree hp)
      have rest := agreeAll hps
      have split : ∀ p ps, List.map accepts <$> List.mapM t.bind (p :: ps) =
          (do
            let a ← accepts <$> t.bind p
            let as ← List.map accepts <$> ps.mapM t.bind
            .ok (a :: as)) := by
        intro p ps
        rw [List.mapM_cons]
        cases t.bind p with
        | error e => rfl
        | ok a => cases ps.mapM t.bind <;> rfl
      rw [split, split, first, rest]
termination_by structural ps

end

end Predicate.Alike

end TableGraph
