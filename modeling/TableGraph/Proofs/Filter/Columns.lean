import TableGraph.Proofs.Coalesce.Alike
import TableGraph.Proofs.Faults
import TableGraph.Proofs.Filter.Reading

/-!
# Columns of conditions

A condition is over some columns if all its tests and expressions are of those.  Joins keep that, and
a filter is over the columns that have a field.
-/

namespace TableGraph

/-! ## Conditions -/

namespace Predicate

variable {α : Type} {columns : String → Prop}

/-- Every test of the condition is of one of the columns, and every expression of some of them. -/
def Over (columns : String → Prop) (p : Predicate α) : Prop :=
  p.Alike (fun c _ _ => columns c) (fun e _ => ∀ c ∈ e.columns, columns c) p

theorem Over.imp {p : Predicate α} (h : p.Over columns) {more : String → Prop}
    (hmore : ∀ c, columns c → more c) : p.Over more :=
  Alike.imp (hmore _) (fun known c hc => hmore c (known c hc)) h

theorem over_andAlso {p : Predicate α} {scope : Option (Predicate α)} (hp : p.Over columns)
    (hscope : ∀ q, scope = some q → q.Over columns) : (p.andAlso scope).Over columns := by
  cases scope with
  | none => exact hp
  | some q => exact Alike.andAlso hp (hscope q rfl)

theorem over_getD {scope : Option (Predicate α)} (h : ∀ q, scope = some q → q.Over columns) :
    (scope.getD .always).Over columns := by
  cases scope with
  | none => exact .always
  | some q => exact h q rfl

mutual

/-- Operands are converted column by column. -/
theorem Over.failsWith_mapM {P : Fault → Prop} {f : String → Test Value → Except Fault (Test Cell)}
    (hf : ∀ c, columns c → ∀ q, FailsWith P (f c q)) {p : Predicate Value} (h : p.Over columns) :
    FailsWith P (p.mapM f) := by
  match p with
  | .always | .tautology => exact failsWith_ok _
  | .test c q =>
    cases h with
    | test known => exact (hf c known q).map _
  | .expression _ => exact failsWith_ok _
  | .all ps =>
    cases h with
    | all parts => exact (Over.failsWith_mapMItems hf parts).map _
  | .any ps =>
    cases h with
    | any parts => exact (Over.failsWith_mapMItems hf parts).map _
termination_by structural p

theorem Over.failsWith_mapMItems {P : Fault → Prop}
    {f : String → Test Value → Except Fault (Test Cell)}
    (hf : ∀ c, columns c → ∀ q, FailsWith P (f c q)) {ps : List (Predicate Value)}
    (h : List.Forall₂ (Alike (fun c _ _ => columns c) fun e _ => ∀ c ∈ e.columns, columns c)
      ps ps) : FailsWith P (mapMItems f ps) := by
  match ps with
  | [] => exact failsWith_ok _
  | p :: ps =>
    cases h with
    | cons hp hps =>
      exact (Over.failsWith_mapM hf hp).bind fun _ _ =>
        (Over.failsWith_mapMItems hf hps).bind fun _ _ => failsWith_ok _
termination_by structural ps

end

end Predicate

/-! ## Filters -/

namespace Filter

variable {codec : Codec} {p : Projection} {Q : Filter → Prop}

theorem mem_fields_of_fieldTests {name : String} {v : Value} {fs : List Filter}
    (h : fieldTests codec p name v = .ok fs) {g : Filter} (hg : g ∈ fs) :
    ∃ f ∈ p.fields, ∃ test, g = .test f.column.name test := by
  obtain ⟨f, hf, ⟨rfl, rfl⟩ | ⟨sent, rfl⟩⟩ := fieldTests_eq_ok h
  · cases hg
  · obtain ⟨filter, -, hsent⟩ := fieldTests_eq codec hf
    rw [hsent] at h
    obtain ⟨e, -, htest⟩ := mem_of_mapM h hg
    obtain ⟨_, test, -, -, rfl⟩ := operatorTest_eq_ok htest
    exact ⟨f, List.mem_of_mem_filter (List.mem_of_find?_eq_some hf), test, rfl⟩

/-- What all tests of fields have and joins keep, all conjuncts of a tree have. -/
theorem forall_of_conjuncts
    (test : ∀ f ∈ p.fields, ∀ t, Q (.test f.column.name t))
    (all : ∀ fs : List Filter, (∀ f ∈ fs, Q f) → Q (.all fs))
    (any : ∀ fs : List Filter, (∀ f ∈ fs, Q f) → Q (.any fs)) (v : Value) {fs : List Filter}
    (h : conjuncts codec p v = .ok fs) : ∀ f ∈ fs, Q f := by
  induction v using tree_induction generalizing fs with
  | object fields ih =>
    rw [conjuncts_object] at h
    obtain ⟨owns, howns, rfl⟩ := map_eq_ok.1 h
    intro g hg
    obtain ⟨own, hown, hg⟩ := List.mem_flatten.1 hg
    obtain ⟨e, he, hentry⟩ := mem_of_mapM howns hown
    have trees : ∀ {ts}, subtrees codec p e.2 = .ok ts → ∀ f ∈ ts.map Filter.all, Q f := by
      intro ts hts f hf
      obtain ⟨tree, htree, rfl⟩ := List.mem_map.1 hf
      obtain ⟨u, hu, htree⟩ := mem_of_mapM (mapM_subtreesOf hts) htree
      exact all tree (ih e he u hu htree)
    unfold entry at hentry
    split_ifs at hentry
    · obtain ⟨ts, hts, rfl⟩ := map_eq_ok.1 hentry
      exact trees hts g hg
    · obtain ⟨ts, hts, rfl⟩ := map_eq_ok.1 hentry
      split_ifs at hg
      · cases hg
      · rw [List.mem_singleton.1 hg]
        exact any _ (trees hts)
    · obtain ⟨f, hf, t, rfl⟩ := mem_fields_of_fieldTests hentry hg
      exact test f hf t
  | other v hv =>
    obtain ⟨-, rfl⟩ := conjuncts_other hv h
    nofun

theorem over_predicates {columns : String → Prop} {fs : List Filter}
    (h : ∀ f ∈ fs, f.predicate.Over columns) :
    List.Forall₂ (Predicate.Alike (fun c _ _ => columns c) fun e _ => ∀ c ∈ e.columns, columns c)
      (predicates fs) (predicates fs) := by
  rw [predicates_eq_map, List.forall₂_map_left_iff, List.forall₂_map_right_iff, List.forall₂_same]
  exact h

/-- A filter tests columns that have a field. -/
theorem over_of_compile {columns : String → Prop} (hfields : ∀ f ∈ p.fields, columns f.column.name)
    {v : Value} {c : Predicate Value} (h : compile codec p v = .ok c) : c.Over columns := by
  obtain ⟨_, hf, rfl⟩ := map_eq_ok.1 h
  obtain ⟨fs, hfs, rfl⟩ := map_eq_ok.1 hf
  refine Predicate.Alike.allOf (over_predicates (forall_of_conjuncts ?_ ?_ ?_ v hfs))
  · intro f hf t
    exact .test (hfields f hf)
  · intro fs hfs
    exact Predicate.Alike.allOf (over_predicates hfs)
  · intro fs hfs
    exact Predicate.Alike.anyOf (over_predicates hfs)

end Filter

end TableGraph
