import TableGraph.Filter.Basic
import TableGraph.Proofs.Outcome

/-!
# Filters part by part

How trees are read: the entries of an object, the trees of a list and the operators of a field are
read one by one.
-/

namespace TableGraph.Filter

variable {codec : Codec} {p : Projection}

theorem predicates_eq_map (fs : List Filter) : predicates fs = fs.map predicate := by
  induction fs with
  | nil => rfl
  | cons f fs ih =>
    rw [List.map_cons, ← ih]
    rfl

theorem columnTests_cons_eq_ok {f : ColumnField} {filter : ColumnFilter} {name : String} {v : Value}
    {sent : List (String × Value)} {fs : List Filter}
    (h : columnTests codec f filter ((name, v) :: sent) = .ok fs) : ∃ o s ss,
      operatorOf f filter name = .ok o ∧
      columnTest codec f (f.path ++ "." ++ name) o v = .ok s ∧
      columnTests codec f filter sent = .ok ss ∧ .test f.column.name s :: ss = fs := by
  unfold columnTests at h
  obtain ⟨o, ho, h⟩ := bind_eq_ok.1 h
  obtain ⟨s, hs, h⟩ := bind_eq_ok.1 h
  obtain ⟨ss, hss, h⟩ := bind_eq_ok.1 h
  exact ⟨o, s, ss, ho, hs, hss, Except.ok.inj h⟩

/-- What an entry of a tree asks for. -/
def entry (codec : Codec) (p : Projection) (name : String) (v : Value) :
    Except Fault (List Filter) :=
  if name = "and" then List.map .all <$> subtrees codec p v
  else if name = "or" then
    (fun trees => if trees.isEmpty then [] else [.any (trees.map .all)]) <$> subtrees codec p v
  else fieldTests codec p name v

theorem entries_cons (name : String) (v : Value) (rest : List (String × Value)) :
    entries codec p ((name, v) :: rest) = (do
      let fs ← entry codec p name v
      let gs ← entries codec p rest
      .ok (fs ++ gs)) := by
  conv_lhs => unfold entries
  unfold entry
  split_ifs
  · cases subtrees codec p v <;> rfl
  · cases subtrees codec p v <;> rfl
  · rfl

theorem entries_cons_eq_ok {name : String} {v : Value} {rest : List (String × Value)}
    {fs : List Filter} (h : entries codec p ((name, v) :: rest) = .ok fs) :
    ∃ own others, entry codec p name v = .ok own ∧ entries codec p rest = .ok others ∧
      own ++ others = fs := by
  rw [entries_cons] at h
  obtain ⟨own, hown, h⟩ := bind_eq_ok.1 h
  obtain ⟨others, hothers, h⟩ := bind_eq_ok.1 h
  exact ⟨own, others, hown, hothers, Except.ok.inj h⟩

theorem branches_cons_eq_ok {v : Value} {vs : List Value} {trees : List (List Filter)}
    (h : branches codec p (v :: vs) = .ok trees) : ∃ tree rest, conjuncts codec p v = .ok tree ∧
      branches codec p vs = .ok rest ∧ tree :: rest = trees := by
  unfold branches at h
  obtain ⟨tree, htree, h⟩ := bind_eq_ok.1 h
  obtain ⟨rest, hrest, h⟩ := bind_eq_ok.1 h
  exact ⟨tree, rest, htree, hrest, Except.ok.inj h⟩

/-! ## All parts -/

theorem ofName?_of_operatorOf {f : ColumnField} {filter : ColumnFilter} {name : String}
    {o : Operator} (h : operatorOf f filter name = .ok o) : Operator.ofName? name = some o := by
  unfold operatorOf at h
  split at h
  next o' ho =>
    cases h
    exact (Option.filter_eq_some_iff.1 ho).1
  next => cases h

theorem operatorOf_of_mem {f : ColumnField} {filter : ColumnFilter} {o : Operator}
    (ho : o ∈ filter.operators) : operatorOf f filter o.name = .ok o := by
  unfold operatorOf
  rw [Operator.ofName?_name, Option.filter_some_pos (List.contains_iff_mem.2 ho)]

/-- The test that an operator of a field asks for. -/
def operatorTest (codec : Codec) (f : ColumnField) (filter : ColumnFilter) (name : String)
    (v : Value) : Except Fault Filter := do
  let o ← operatorOf f filter name
  let test ← columnTest codec f (f.path ++ "." ++ name) o v
  .ok (.test f.column.name test)

theorem operatorTest_eq_ok {f : ColumnField} {filter : ColumnFilter} {name : String} {v : Value}
    {g : Filter} (h : operatorTest codec f filter name v = .ok g) : ∃ o test,
      operatorOf f filter name = .ok o ∧ columnTest codec f (f.path ++ "." ++ name) o v = .ok test ∧
        g = .test f.column.name test := by
  obtain ⟨o, ho, h⟩ := bind_eq_ok.1 h
  obtain ⟨test, htest, h⟩ := bind_eq_ok.1 h
  exact ⟨o, test, ho, htest, (Except.ok.inj h).symm⟩

theorem columnTests_eq {f : ColumnField} {filter : ColumnFilter} (sent : List (String × Value)) :
    columnTests codec f filter sent =
      sent.mapM fun e => operatorTest codec f filter e.1 e.2 := by
  induction sent with
  | nil => rfl
  | cons e sent ih =>
    rw [List.mapM_cons, ← ih]
    conv_lhs => unfold columnTests
    unfold operatorTest
    cases operatorOf f filter e.1 with
    | error => rfl
    | ok o =>
      show (columnTest codec f _ o e.2 >>= _) = ((columnTest codec f _ o e.2 >>= _) >>= _)
      cases columnTest codec f (f.path ++ "." ++ e.1) o e.2 <;> rfl

/-- What is sent for a field of the entity that can be filtered by are operators, unless it is
null. -/
theorem fieldTests_eq (codec : Codec) {name : String} {f : ColumnField}
    (hf : (p.filterFields.find? fun f => f.name = name) = some f) :
    ∃ filter, f.filter = some filter ∧ ∀ sent : List (String × Value),
      fieldTests codec p name (.object sent) =
        sent.mapM fun e => operatorTest codec f filter e.1 e.2 := by
  obtain ⟨filter, hfilter⟩ : ∃ filter, f.filter = some filter :=
    Option.isSome_iff_exists.1 (List.mem_filter.1 (List.mem_of_find?_eq_some hf)).2
  refine ⟨filter, hfilter, fun sent => ?_⟩
  unfold fieldTests
  rw [hf]
  dsimp only
  rw [hfilter, ← columnTests_eq]
  rfl

theorem fieldTests_eq_ok {name : String} {v : Value} {own : List Filter}
    (h : fieldTests codec p name v = .ok own) :
    ∃ f, (p.filterFields.find? fun f => f.name = name) = some f ∧
      (v = .null ∧ own = [] ∨ ∃ sent, v = .object sent) := by
  cases hf : p.filterFields.find? fun f => f.name = name with
  | none =>
    unfold fieldTests at h
    rw [hf] at h
    cases h
  | some f =>
    refine ⟨f, rfl, ?_⟩
    obtain ⟨filter, hfilter, -⟩ := fieldTests_eq codec hf
    unfold fieldTests at h
    rw [hf] at h
    dsimp only at h
    rw [hfilter] at h
    cases v with
    | null =>
      cases h
      exact .inl ⟨rfl, rfl⟩
    | object sent => exact .inr ⟨sent, rfl⟩
    | _ => cases h

theorem entries_eq (fields : List (String × Value)) : entries codec p fields =
    List.flatten <$> fields.mapM fun e => entry codec p e.1 e.2 := by
  induction fields with
  | nil => rfl
  | cons e fields ih =>
    rw [entries_cons, ih, List.mapM_cons]
    cases entry codec p e.1 e.2 with
    | error => rfl
    | ok own => cases fields.mapM fun e => entry codec p e.1 e.2 <;> rfl

theorem conjuncts_object (fields : List (String × Value)) : conjuncts codec p (.object fields) =
    List.flatten <$> fields.mapM fun e => entry codec p e.1 e.2 := entries_eq fields

/-- The tests of a field are asked operator by operator. -/
theorem exists_entry_eq {name : String} (hname : name ≠ "and" ∧ name ≠ "or")
    {sent : List (String × Value)} {own : List Filter}
    (h : entry codec p name (.object sent) = .ok own) :
    ∃ f filter, (p.filterFields.find? fun f => f.name = name) = some f ∧ ∀ sent',
      entry codec p name (.object sent') =
        sent'.mapM fun e => operatorTest codec f filter e.1 e.2 := by
  unfold entry at h ⊢
  rw [if_neg hname.1, if_neg hname.2] at h
  obtain ⟨f, hf, -⟩ := fieldTests_eq_ok h
  obtain ⟨filter, -, hsent⟩ := fieldTests_eq codec hf
  refine ⟨f, filter, hf, fun sent' => ?_⟩
  rw [if_neg hname.1, if_neg hname.2, hsent]

theorem branches_eq (vs : List Value) : branches codec p vs = vs.mapM (conjuncts codec p) := by
  induction vs with
  | nil => rfl
  | cons v vs ih =>
    rw [List.mapM_cons, ← ih]
    rfl

end TableGraph.Filter
