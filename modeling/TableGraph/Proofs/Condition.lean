import TableGraph.Proofs.Outcome

/-!
# What conditions accept

Joins of conditions read as their parts: a conjunction accepts a row that all parts accept, a
disjunction a row that one part accepts, however the joins were flattened.  Operands become cells
part by part, so that the same holds of conditions with values on the rows of a table
(`Table.Accepts`).
-/

namespace TableGraph

/-! ## Truth -/

theorem Truth.both_eq_true {a b : Truth} :
    a.both b = some true ↔ a = some true ∧ b = some true := by
  rcases a with _ | _ | _ <;> rcases b with _ | _ | _ <;> simp [Truth.both]

theorem Truth.either_eq_true {a b : Truth} :
    a.either b = some true ↔ a = some true ∨ b = some true := by
  rcases a with _ | _ | _ <;> rcases b with _ | _ | _ <;> simp [Truth.either]

theorem Test.compared_eq_true {k : Comparison} {a b : Cell} : Test.compared k a b = some true ↔
    a.isNull = false ∧ b.isNull = false ∧ k.accepts (a.order b) := by
  unfold Test.compared
  cases a.isNull <;> cases b.isNull <;> simp

namespace Predicate

/-! ## Joins -/

section Joins

variable {α : Type} {tells : String → Test α → Truth} {decides : Expression → Truth}
  {ps : List (Predicate α)}

mutual

/-- What a condition says, given what its tests and its expressions say. -/
def truth (tells : String → Test α → Truth) (decides : Expression → Truth := fun _ => none) :
    Predicate α → Truth
  | always => some true
  | tautology => some true
  | test column t => tells column t
  | expression e => decides e
  | all ps => truthOfAll tells decides ps
  | any ps => truthOfAny tells decides ps
termination_by structural p => p

/-- Whether several conditions hold. -/
def truthOfAll (tells : String → Test α → Truth) (decides : Expression → Truth) :
    List (Predicate α) → Truth
  | [] => some true
  | p :: ps => (p.truth tells decides).both (truthOfAll tells decides ps)
termination_by structural ps => ps

/-- Whether one of several conditions holds. -/
def truthOfAny (tells : String → Test α → Truth) (decides : Expression → Truth) :
    List (Predicate α) → Truth
  | [] => some false
  | p :: ps => (p.truth tells decides).either (truthOfAny tells decides ps)
termination_by structural ps => ps

end

theorem truth_all : (all ps).truth tells decides = some true ↔
    ∀ p ∈ ps, p.truth tells decides = some true := by
  show truthOfAll tells decides ps = some true ↔ _
  induction ps with
  | nil => simp [truthOfAll]
  | cons p ps ih =>
    unfold truthOfAll
    rw [Truth.both_eq_true, ih, List.forall_mem_cons]

theorem truth_any : (any ps).truth tells decides = some true ↔
    ∃ p ∈ ps, p.truth tells decides = some true := by
  show truthOfAny tells decides ps = some true ↔ _
  induction ps with
  | nil => simp [truthOfAny]
  | cons p ps ih =>
    unfold truthOfAny
    rw [Truth.either_eq_true, ih, List.exists_mem_cons_iff]

theorem truth_conjuncts {p : Predicate α} :
    (∀ q ∈ p.conjuncts, q.truth tells decides = some true) ↔ p.truth tells decides = some true := by
  cases p with
  | always => simp [conjuncts, truth]
  | all ps => exact truth_all.symm
  | tautology | test | expression | any => simp [conjuncts]

theorem truth_disjuncts {p : Predicate α} :
    (∃ q ∈ p.disjuncts, q.truth tells decides = some true) ↔ p.truth tells decides = some true := by
  cases p with
  | any ps => exact truth_any.symm
  | always | tautology | test | expression | all => simp [disjuncts]

theorem truth_allOf :
    (allOf ps).truth tells decides = some true ↔ ∀ p ∈ ps, p.truth tells decides = some true := by
  have parts : (∀ p ∈ ps, p.truth tells decides = some true) ↔
      ∀ q ∈ ps.flatMap conjuncts, q.truth tells decides = some true := by
    constructor
    · intro h q hq
      obtain ⟨p, hp, hq⟩ := List.mem_flatMap.1 hq
      exact truth_conjuncts.2 (h p hp) q hq
    · intro h p hp
      exact truth_conjuncts.1 fun q hq => h q (List.mem_flatMap.2 ⟨p, hp, hq⟩)
  rw [parts]
  unfold allOf
  split
  next h => rw [h]; exact iff_of_true rfl nofun
  next q h => rw [h, List.forall_mem_singleton]
  next => exact truth_all

theorem truth_anyOf :
    (anyOf ps).truth tells decides = some true ↔ ∃ p ∈ ps, p.truth tells decides = some true := by
  have parts : (∃ p ∈ ps, p.truth tells decides = some true) ↔
      ∃ q ∈ ps.flatMap disjuncts, q.truth tells decides = some true := by
    constructor
    · rintro ⟨p, hp, h⟩
      obtain ⟨q, hq, h⟩ := truth_disjuncts.2 h
      exact ⟨q, List.mem_flatMap.2 ⟨p, hp, hq⟩, h⟩
    · rintro ⟨q, hq, h⟩
      obtain ⟨p, hp, hq⟩ := List.mem_flatMap.1 hq
      exact ⟨p, hp, truth_disjuncts.1 ⟨q, hq, h⟩⟩
  unfold anyOf
  split_ifs with ha
  · obtain ⟨p, hp, h⟩ := List.any_eq_true.1 ha
    refine iff_of_true rfl ⟨p, hp, ?_⟩
    cases p with
    | always => rfl
    | tautology | test | expression | all | any => cases h
  · rw [parts]
    split
    next q h => rw [h]; simp only [List.mem_singleton, exists_eq_left]
    next => exact truth_any

end Joins

/-! ## Joins on cells -/

section Cells

variable {ps : List (Predicate Cell)} {r : Row}

mutual

theorem holds_eq_truth {p : Predicate Cell} :
    p.holds r = p.truth (fun column t => t.holds (r.get column)) (·.truth r) := by
  match p with
  | .always | .tautology | .test _ _ | .expression _ => rfl
  | .all ps => exact allHold_eq_truthOfAll
  | .any ps => exact anyHolds_eq_truthOfAny
termination_by structural p

theorem allHold_eq_truthOfAll {ps : List (Predicate Cell)} :
    allHold ps r = truthOfAll (fun column t => t.holds (r.get column)) (·.truth r) ps := by
  match ps with
  | [] => rfl
  | p :: ps =>
    unfold allHold truthOfAll
    rw [holds_eq_truth, allHold_eq_truthOfAll]
termination_by structural ps

theorem anyHolds_eq_truthOfAny {ps : List (Predicate Cell)} :
    anyHolds ps r = truthOfAny (fun column t => t.holds (r.get column)) (·.truth r) ps := by
  match ps with
  | [] => rfl
  | p :: ps =>
    unfold anyHolds truthOfAny
    rw [holds_eq_truth, anyHolds_eq_truthOfAny]
termination_by structural ps

end

theorem accepts_iff_truth {p : Predicate Cell} :
    p.accepts r ↔
      p.truth (fun column t => t.holds (r.get column)) (·.truth r) = some true := by
  unfold accepts
  rw [holds_eq_truth, decide_eq_true_iff]

theorem accepts_all : (all ps).accepts r ↔ ∀ p ∈ ps, p.accepts r := by
  simp only [accepts_iff_truth]
  exact truth_all

theorem accepts_any : (any ps).accepts r ↔ ∃ p ∈ ps, p.accepts r := by
  simp only [accepts_iff_truth]
  exact truth_any

theorem accepts_allOf : (allOf ps).accepts r ↔ ∀ p ∈ ps, p.accepts r := by
  simp only [accepts_iff_truth]
  exact truth_allOf

theorem accepts_anyOf : (anyOf ps).accepts r ↔ ∃ p ∈ ps, p.accepts r := by
  simp only [accepts_iff_truth]
  exact truth_anyOf

end Cells

/-! ## Operands of joins -/

section Operands

variable {α β : Type} {f : String → Test α → Except Fault (Test β)}

theorem mapMItems_eq_mapM (ps : List (Predicate α)) :
    mapMItems f ps = ps.mapM (mapM f) := by
  induction ps with
  | nil => rfl
  | cons p ps ih =>
    rw [List.mapM_cons, ← ih]
    rfl

theorem mapM_flatMap {g : Predicate α → List (Predicate α)}
    {g' : Predicate β → List (Predicate β)} (h : ∀ p, (g p).mapM (mapM f) = g' <$> p.mapM f)
    (ps : List (Predicate α)) :
    (ps.flatMap g).mapM (mapM f) = (List.flatMap g') <$> ps.mapM (mapM f) := by
  induction ps with
  | nil => rfl
  | cons p ps ih =>
    rw [List.flatMap_cons, List.mapM_append, ih, h, List.mapM_cons]
    cases p.mapM f with
    | error e => rfl
    | ok q => cases ps.mapM (mapM f) <;> rfl

theorem mapM_singleton (p : Predicate α) : [p].mapM (mapM f) = ([·]) <$> p.mapM f := by
  rw [List.mapM_cons]
  cases p.mapM f <;> rfl

theorem mapM_all (ps : List (Predicate α)) : (all ps).mapM f = all <$> ps.mapM (mapM f) := by
  rw [← mapMItems_eq_mapM]
  rfl

theorem mapM_any (ps : List (Predicate α)) : (any ps).mapM f = any <$> ps.mapM (mapM f) := by
  rw [← mapMItems_eq_mapM]
  rfl

theorem mapM_conjuncts (p : Predicate α) :
    p.conjuncts.mapM (mapM f) = conjuncts <$> p.mapM f := by
  cases p with
  | always => rfl
  | tautology => rfl
  | test column t =>
    refine (mapM_singleton (test column t)).trans ?_
    unfold mapM
    cases f column t <;> rfl
  | expression e => rfl
  | all ps =>
    rw [mapM_all]
    show ps.mapM (mapM f) = _
    cases ps.mapM (mapM f) <;> rfl
  | any ps =>
    refine (mapM_singleton (any ps)).trans ?_
    rw [mapM_any]
    cases ps.mapM (mapM f) <;> rfl

theorem mapM_disjuncts (p : Predicate α) :
    p.disjuncts.mapM (mapM f) = disjuncts <$> p.mapM f := by
  cases p with
  | always => rfl
  | tautology => rfl
  | test column t =>
    refine (mapM_singleton (test column t)).trans ?_
    unfold mapM
    cases f column t <;> rfl
  | expression e => rfl
  | all ps =>
    refine (mapM_singleton (all ps)).trans ?_
    rw [mapM_all]
    cases ps.mapM (mapM f) <;> rfl
  | any ps =>
    rw [mapM_any]
    show ps.mapM (mapM f) = _
    cases ps.mapM (mapM f) <;> rfl

/-- The operands of a conjunction are those of its parts. -/
theorem mapM_allOf {ps : List (Predicate α)} {qs : List (Predicate β)}
    (h : ps.mapM (mapM f) = .ok qs) : (allOf ps).mapM f = .ok (allOf qs) := by
  have flat := mapM_flatMap (f := f) mapM_conjuncts ps
  rw [h] at flat
  replace flat : (ps.flatMap conjuncts).mapM (mapM f) = .ok (qs.flatMap conjuncts) := flat
  unfold allOf
  generalize ps.flatMap conjuncts = us at flat
  generalize qs.flatMap conjuncts = vs at flat
  have same := mapM_eq_ok.1 flat
  cases same with
  | nil => rfl
  | cons hp rest =>
    cases rest with
    | nil => exact hp
    | cons _ _ =>
      rw [mapM_all, flat]
      rfl

theorem isAlways_of_mapM {p : Predicate α} {q : Predicate β} (h : p.mapM f = .ok q) :
    q.isAlways = p.isAlways := by
  cases p with
  | always => cases h; rfl
  | tautology => cases h; rfl
  | test column t => obtain ⟨_, -, rfl⟩ := map_eq_ok.1 h; rfl
  | expression e => cases h; rfl
  | all ps => obtain ⟨_, -, rfl⟩ := map_eq_ok.1 h; rfl
  | any ps => obtain ⟨_, -, rfl⟩ := map_eq_ok.1 h; rfl

theorem any_isAlways_of_mapM {ps : List (Predicate α)} {qs : List (Predicate β)}
    (h : ps.mapM (mapM f) = .ok qs) : qs.any isAlways = ps.any isAlways := by
  have items := mapM_eq_ok.1 h
  clear h
  induction items with
  | nil => rfl
  | cons hp _ ih => rw [List.any_cons, List.any_cons, ih, isAlways_of_mapM hp]

/-- The operands of a disjunction are those of its parts. -/
theorem mapM_anyOf {ps : List (Predicate α)} {qs : List (Predicate β)}
    (h : ps.mapM (mapM f) = .ok qs) : (anyOf ps).mapM f = .ok (anyOf qs) := by
  have always := any_isAlways_of_mapM h
  have flat := mapM_flatMap (f := f) mapM_disjuncts ps
  rw [h] at flat
  replace flat : (ps.flatMap disjuncts).mapM (mapM f) = .ok (qs.flatMap disjuncts) := flat
  unfold anyOf
  rw [always]
  split_ifs with ha
  · rfl
  generalize ps.flatMap disjuncts = us at flat
  generalize qs.flatMap disjuncts = vs at flat
  have same := mapM_eq_ok.1 flat
  cases same with
  | nil => rfl
  | cons hp rest =>
    cases rest with
    | nil => exact hp
    | cons _ _ =>
      rw [mapM_any, flat]
      rfl

/-- The parts of a conjunction that takes operands take them. -/
theorem exists_of_mapM_allOf {ps : List (Predicate α)} {q : Predicate β}
    (h : (allOf ps).mapM f = .ok q) : ∃ qs, ps.mapM (mapM f) = .ok qs := by
  have flat : ∃ vs, (ps.flatMap conjuncts).mapM (mapM f) = .ok vs := by
    unfold allOf at h
    split at h
    next hp => rw [hp]; exact ⟨[], rfl⟩
    next p hp => rw [hp, mapM_singleton, h]; exact ⟨[q], rfl⟩
    next =>
      rw [mapM_all] at h
      obtain ⟨vs, hvs, -⟩ := map_eq_ok.1 h
      exact ⟨vs, hvs⟩
  obtain ⟨vs, hvs⟩ := flat
  rw [mapM_flatMap mapM_conjuncts] at hvs
  obtain ⟨qs, hqs, -⟩ := map_eq_ok.1 hvs
  exact ⟨qs, hqs⟩

/-- The parts of a disjunction that takes operands take them, unless one asks for nothing. -/
theorem exists_of_mapM_anyOf {ps : List (Predicate α)} {q : Predicate β}
    (hall : ∀ p ∈ ps, p.isAlways = false) (h : (anyOf ps).mapM f = .ok q) :
    ∃ qs, ps.mapM (mapM f) = .ok qs := by
  have some : ¬ ps.any isAlways = true := by
    intro hany
    obtain ⟨p, hp, halways⟩ := List.any_eq_true.1 hany
    rw [hall p hp] at halways
    cases halways
  have flat : ∃ vs, (ps.flatMap disjuncts).mapM (mapM f) = .ok vs := by
    unfold anyOf at h
    rw [if_neg some] at h
    split at h
    next p hp => rw [hp, mapM_singleton, h]; exact ⟨[q], rfl⟩
    next =>
      rw [mapM_any] at h
      obtain ⟨vs, hvs, -⟩ := map_eq_ok.1 h
      exact ⟨vs, hvs⟩
  obtain ⟨vs, hvs⟩ := flat
  rw [mapM_flatMap mapM_disjuncts] at hvs
  obtain ⟨qs, hqs, -⟩ := map_eq_ok.1 hvs
  exact ⟨qs, hqs⟩

mutual

/-- A condition with other operands says the same if its tests do. -/
theorem truth_of_mapM {tells : String → Test α → Truth} {tells' : String → Test β → Truth}
    (decides : Expression → Truth)
    (htells : ∀ column u v, f column u = .ok v → tells' column v = tells column u)
    {p : Predicate α} {q : Predicate β} (h : p.mapM f = .ok q) :
    q.truth tells' decides = p.truth tells decides := by
  match p with
  | .always | .tautology | .expression _ =>
    cases h
    rfl
  | .test column u =>
    obtain ⟨v, hv, rfl⟩ := map_eq_ok.1 h
    exact htells column u v hv
  | .all ps =>
    obtain ⟨qs, hqs, rfl⟩ := map_eq_ok.1 h
    exact (truthOf_of_mapMItems decides htells hqs).1
  | .any ps =>
    obtain ⟨qs, hqs, rfl⟩ := map_eq_ok.1 h
    exact (truthOf_of_mapMItems decides htells hqs).2
termination_by structural p

theorem truthOf_of_mapMItems {tells : String → Test α → Truth} {tells' : String → Test β → Truth}
    (decides : Expression → Truth)
    (htells : ∀ column u v, f column u = .ok v → tells' column v = tells column u)
    {ps : List (Predicate α)} {qs : List (Predicate β)} (h : mapMItems f ps = .ok qs) :
    truthOfAll tells' decides qs = truthOfAll tells decides ps ∧
      truthOfAny tells' decides qs = truthOfAny tells decides ps := by
  match ps with
  | [] =>
    cases h
    exact ⟨rfl, rfl⟩
  | p :: ps =>
    obtain ⟨q, hq, h⟩ := bind_eq_ok.1 h
    obtain ⟨rest, hrest, h⟩ := bind_eq_ok.1 h
    cases h
    have first := truth_of_mapM decides htells hq
    have others := truthOf_of_mapMItems decides htells hrest
    unfold truthOfAll truthOfAny
    rw [first, others.1, others.2]
    exact ⟨rfl, rfl⟩
termination_by structural ps

end

end Operands

end Predicate

/-! ## Conditions on the rows of a table -/

namespace Table

variable {t : Table} {p : Predicate Value} {r : Row}

/-- The table takes the operands of the condition, and the condition holds of the row. -/
def Accepts (t : Table) (p : Predicate Value) (r : Row) : Prop :=
  ∃ q, t.bind p = .ok q ∧ q.accepts r

/-- The row is one a row scope lets through; every row is if there is none. -/
def Within (t : Table) (scope : Option (Predicate Value)) (r : Row) : Prop :=
  ∀ p, scope = some p → t.Accepts p r

theorem accepts_iff {q : Predicate Cell} (h : t.bind p = .ok q) : t.Accepts p r ↔ q.accepts r := by
  unfold Accepts
  rw [h]
  simp only [Except.ok.injEq, exists_eq_left']

theorem accepts_test {column : String} {q : Test Value} : t.Accepts (.test column q) r ↔
    ∃ type q', t.typeOf column = .ok type ∧ q.bind type = .ok q' ∧
      q'.holds (r.get column) = some true := by
  unfold Accepts Table.bind Predicate.mapM
  simp only [map_eq_ok, bind_eq_ok]
  constructor
  · rintro ⟨_, ⟨q', ⟨type, htype, hq⟩, rfl⟩, h⟩
    exact ⟨type, q', htype, hq, of_decide_eq_true h⟩
  · rintro ⟨type, q', htype, hq, h⟩
    exact ⟨_, ⟨q', ⟨type, htype, hq⟩, rfl⟩, decide_eq_true h⟩

theorem accepts_allOf {ps : List (Predicate Value)} :
    t.Accepts (.allOf ps) r ↔ ∀ p ∈ ps, t.Accepts p r := by
  constructor
  · rintro ⟨q, hq, h⟩ p hp
    obtain ⟨qs, hqs⟩ := Predicate.exists_of_mapM_allOf hq
    have joined : t.bind (.allOf ps) = .ok (.allOf qs) := Predicate.mapM_allOf hqs
    rw [hq, Except.ok.injEq] at joined
    rw [joined, Predicate.accepts_allOf] at h
    obtain ⟨p', hp', hbind⟩ := exists_of_mem_mapM hqs hp
    exact ⟨p', hbind, h p' hp'⟩
  · intro h
    obtain ⟨qs, hqs⟩ := mapM_of_forall (f := t.bind) fun p hp => (h p hp).imp fun _ hq => hq.1
    refine ⟨.allOf qs, Predicate.mapM_allOf hqs, Predicate.accepts_allOf.2 fun q hq => ?_⟩
    obtain ⟨p, hp, hbind⟩ := mem_of_mapM hqs hq
    exact (accepts_iff hbind).1 (h p hp)

theorem accepts_anyOf {ps : List (Predicate Value)} (h : ∀ p ∈ ps, ∃ q, t.bind p = .ok q) :
    t.Accepts (.anyOf ps) r ↔ ∃ p ∈ ps, t.Accepts p r := by
  obtain ⟨qs, hqs⟩ := mapM_of_forall h
  have joined : t.bind (.anyOf ps) = .ok (.anyOf qs) := Predicate.mapM_anyOf hqs
  rw [accepts_iff joined, Predicate.accepts_anyOf]
  constructor
  · rintro ⟨q, hq, hr⟩
    obtain ⟨p, hp, hbind⟩ := mem_of_mapM hqs hq
    exact ⟨p, hp, q, hbind, hr⟩
  · rintro ⟨p, hp, hr⟩
    obtain ⟨q, hq, hbind⟩ := exists_of_mem_mapM hqs hp
    exact ⟨q, hq, (accepts_iff hbind).1 hr⟩

/-- A condition joined with a row scope accepts rows within the scope only. -/
theorem accepts_andAlso {scope : Option (Predicate Value)} :
    t.Accepts (p.andAlso scope) r ↔ t.Accepts p r ∧ t.Within scope r := by
  unfold Within
  cases scope with
  | none => exact (and_iff_left nofun).symm
  | some q =>
    show t.Accepts (.allOf [p, q]) r ↔ _
    rw [accepts_allOf, List.forall_mem_cons, List.forall_mem_singleton]
    simp only [Option.some.injEq, forall_eq']

theorem matching_eq_ok {rows : List Row} :
    t.matching p = .ok rows ↔ ∃ q, t.bind p = .ok q ∧ t.rows.filter q.accepts = rows := by
  unfold matching
  rw [bind_eq_ok]
  simp only [Except.ok.injEq]

theorem mem_matching {rows : List Row} (h : t.matching p = .ok rows) :
    r ∈ rows ↔ r ∈ t.rows ∧ t.Accepts p r := by
  obtain ⟨q, hq, rfl⟩ := matching_eq_ok.1 h
  rw [List.mem_filter, accepts_iff hq]

/-- Rows that a condition holds of are rows of the table. -/
theorem among_of_matching {rows : List Row} (h : t.matching p = .ok rows) :
    ∀ r ∈ rows, r ∈ t.rows := fun _ hr => ((mem_matching h).1 hr).1

/-- Of two conditions the second holds of some of the rows that the first holds of. -/
theorem matching_both {rows : List Row} (h : t.matching p = .ok rows) {p' : Predicate Value}
    {q' : Predicate Cell} (hq' : t.bind p' = .ok q') :
    t.matching (.allOf [p, p']) = .ok (rows.filter q'.accepts) := by
  obtain ⟨q, hq, rfl⟩ := matching_eq_ok.1 h
  have both : t.bind (.allOf [p, p']) = .ok (.allOf [q, q']) :=
    Predicate.mapM_allOf (mapM_eq_ok.2 (.cons hq (.cons hq' .nil)))
  refine matching_eq_ok.2 ⟨_, both, ?_⟩
  rw [List.filter_filter]
  refine List.filter_congr fun r _ => Bool.eq_iff_iff.2 ?_
  rw [Predicate.accepts_allOf, List.forall_mem_cons, List.forall_mem_singleton, Bool.and_eq_true,
    and_comm]

end Table

end TableGraph
