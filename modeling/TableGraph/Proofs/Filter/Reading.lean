import TableGraph.Proofs.Filter.Operators
import TableGraph.Proofs.Filter.Trees

/-!
# What trees say

`Filter.Reads` says when a client's tree is true on a row, by the shape of the tree alone: entries
of an object conjoin, `and` conjoins its subtrees, `or` asks for one of them, and what is absent
asks for nothing.

Main statement: `Filter.accepts_iff_reads`.  The conditions that a tree is compiled to hold of the
rows on which the tree reads true.
-/

namespace TableGraph.Filter

/-! ## Reading -/

/-- The subtrees under `and` and `or`: the items of a list.  Of an object these are the names of its
fields; what counts as absent has none. -/
def subtreesOf : Value → List Value
  | .list vs | .tuple vs => vs
  | .object fields => fields.map fun e => .text e.1
  | _ => []

/-- The entry of a field reads true on a row: all its operators ask for the cell of the column of
that field.  Null asks for nothing. -/
def FieldReads (codec : Codec) (p : Projection) (t : Table) (r : Row) (name : String) :
    Value → Prop
  | .object operators => ∃ f, (p.filterFields.find? fun f => f.name = name) = some f ∧
      ∀ e ∈ operators, ∃ o type, Operator.ofName? e.1 = some o ∧
        t.typeOf f.column.name = .ok type ∧
          Asks codec f (f.path ++ "." ++ e.1) type (r.get f.column.name) e.2 o
  | _ => True

mutual

/-- A tree reads true on a row. -/
inductive Reads (codec : Codec) (p : Projection) (t : Table) (r : Row) : Value → Prop
  /-- What counts as absent asks for nothing. -/
  | absent {v : Value} (h : v.isTruthy = false) : Reads codec p t r v
  /-- All entries of an object conjoin. -/
  | object {fields : List (String × Value)} (h : ∀ e ∈ fields, EntryReads codec p t r e.1 e.2) :
    Reads codec p t r (.object fields)

/-- An entry of a tree reads true on a row. -/
inductive EntryReads (codec : Codec) (p : Projection) (t : Table) (r : Row) :
    String → Value → Prop
  /-- All subtrees conjoin. -/
  | every {name : String} {v : Value} (hname : name = "and")
    (h : ∀ u ∈ subtreesOf v, Reads codec p t r u) : EntryReads codec p t r name v
  /-- One of the subtrees is asked for. -/
  | one {name : String} {v u : Value} (hname : name = "or") (hu : u ∈ subtreesOf v)
    (h : Reads codec p t r u) : EntryReads codec p t r name v
  /-- No subtrees ask for nothing. -/
  | none {name : String} {v : Value} (hname : name = "or") (h : subtreesOf v = []) :
    EntryReads codec p t r name v
  | field {name : String} {v : Value} (hname : name ≠ "and" ∧ name ≠ "or")
    (h : FieldReads codec p t r name v) : EntryReads codec p t r name v

end

variable {codec : Codec} {p : Projection} {t : Table} {r : Row}

theorem reads_object_iff {fields : List (String × Value)} :
    Reads codec p t r (.object fields) ↔ ∀ e ∈ fields, EntryReads codec p t r e.1 e.2 := by
  refine ⟨fun h => ?_, .object⟩
  cases h with
  | absent h =>
    cases fields with
    | nil => exact nofun
    | cons => cases h
  | object h => exact h

theorem entryReads_and_iff {v : Value} :
    EntryReads codec p t r "and" v ↔ ∀ u ∈ subtreesOf v, Reads codec p t r u := by
  refine ⟨fun h => ?_, .every rfl⟩
  cases h with
  | every _ h => exact h
  | one hname | none hname => exact absurd hname (by decide)
  | field hname => exact absurd rfl hname.1

theorem entryReads_or_iff {v : Value} : EntryReads codec p t r "or" v ↔
    subtreesOf v = [] ∨ ∃ u ∈ subtreesOf v, Reads codec p t r u := by
  constructor
  · intro h
    cases h with
    | every hname => exact absurd hname (by decide)
    | one _ hu h => exact .inr ⟨_, hu, h⟩
    | none _ h => exact .inl h
    | field hname => exact absurd rfl hname.2
  · rintro (h | ⟨u, hu, h⟩)
    · exact .none rfl h
    · exact .one rfl hu h

theorem entryReads_field_iff {name : String} {v : Value} (hand : name ≠ "and") (hor : name ≠ "or") :
    EntryReads codec p t r name v ↔ FieldReads codec p t r name v := by
  refine ⟨fun h => ?_, .field ⟨hand, hor⟩⟩
  cases h with
  | every hname => exact absurd hname hand
  | one hname | none hname => exact absurd hname hor
  | field _ h => exact h

/-! ## Conditions of several filters -/

/-- The table takes the operands of all conditions. -/
def Bound (t : Table) (fs : List Filter) : Prop := ∀ f ∈ fs, ∃ q, t.bind f.predicate = .ok q

/-- All conditions hold of the row. -/
def Accepted (t : Table) (r : Row) (fs : List Filter) : Prop := ∀ f ∈ fs, t.Accepts f.predicate r

theorem accepts_all_iff {fs : List Filter} :
    t.Accepts (Filter.all fs).predicate r ↔ Accepted t r fs := by
  show t.Accepts (.allOf (predicates fs)) r ↔ _
  rw [Table.accepts_allOf, predicates_eq_map, List.forall_mem_map]
  rfl

theorem exists_bind_all_iff {fs : List Filter} :
    (∃ q, t.bind (Filter.all fs).predicate = .ok q) ↔ Bound t fs := by
  show (∃ q, t.bind (.allOf (predicates fs)) = .ok q) ↔ _
  rw [predicates_eq_map]
  constructor
  · rintro ⟨q, hq⟩ f hf
    obtain ⟨qs, hqs⟩ := Predicate.exists_of_mapM_allOf hq
    obtain ⟨q, -, hq⟩ := exists_of_mem_mapM hqs (List.mem_map_of_mem hf)
    exact ⟨q, hq⟩
  · intro h
    obtain ⟨qs, hqs⟩ := mapM_of_forall (List.forall_mem_map.2 h)
    exact ⟨_, Predicate.mapM_allOf hqs⟩

theorem eq_always {q : Predicate Value} (h : q.isAlways = true) : q = .always := by
  cases q with
  | always => rfl
  | _ => cases h

/-- Of a disjunction that can be bound all trees can be bound, or one asks for nothing. -/
theorem bound_of_any {trees : List (List Filter)}
    (h : ∃ q, t.bind (Filter.any (trees.map .all)).predicate = .ok q) :
    (∀ tree ∈ trees, Bound t tree) ∨
      ∃ tree ∈ trees, (Filter.all tree).predicate = .always := by
  by_cases halways : ∃ tree ∈ trees, (Filter.all tree).predicate.isAlways = true
  · obtain ⟨tree, htree, h⟩ := halways
    exact .inr ⟨tree, htree, eq_always h⟩
  · refine .inl fun tree htree => exists_bind_all_iff.1 ?_
    obtain ⟨q, hq⟩ := h
    have some : ∀ c ∈ predicates (trees.map .all), c.isAlways = false := by
      intro c hc
      rw [predicates_eq_map, List.map_map] at hc
      obtain ⟨tree, htree, rfl⟩ := List.mem_map.1 hc
      exact Bool.eq_false_iff.2 fun h => halways ⟨tree, htree, h⟩
    obtain ⟨qs, hqs⟩ := Predicate.exists_of_mapM_anyOf some hq
    rw [predicates_eq_map, List.map_map] at hqs
    obtain ⟨q, -, hq⟩ := exists_of_mem_mapM hqs (List.mem_map_of_mem htree)
    exact ⟨q, hq⟩

/-! ## Fields -/

/-- The test of an operator holds of the cells that the operator asks for. -/
theorem accepts_operatorTest_iff {f : ColumnField} {filter : ColumnFilter} {name : String}
    {v : Value} {g : Filter} (h : operatorTest codec f filter name v = .ok g)
    (hb : ∃ q, t.bind g.predicate = .ok q) : t.Accepts g.predicate r ↔
      ∃ o type, Operator.ofName? name = some o ∧ t.typeOf f.column.name = .ok type ∧
        Asks codec f (f.path ++ "." ++ name) type (r.get f.column.name) v o := by
  obtain ⟨o, test, ho, htest, rfl⟩ := operatorTest_eq_ok h
  obtain ⟨_, hb⟩ := hb
  obtain ⟨q, hq, -⟩ := map_eq_ok.1 hb
  obtain ⟨type, htype, hq⟩ := bind_eq_ok.1 hq
  have asks := holds_iff_asks htest hq (r.get f.column.name)
  show t.Accepts (.test f.column.name test) r ↔ _
  rw [Table.accepts_test, ofName?_of_operatorOf ho]
  constructor
  · rintro ⟨type', q', htype', hq', hholds⟩
    rw [htype, Except.ok.injEq] at htype'
    subst htype'
    rw [hq, Except.ok.injEq] at hq'
    subst hq'
    exact ⟨o, type, rfl, htype, asks.1 hholds⟩
  · rintro ⟨o', type', ho', htype', h⟩
    rw [htype, Except.ok.injEq] at htype'
    subst htype'
    cases ho'
    exact ⟨type, q, htype, hq, asks.2 h⟩

/-- The tests of a field hold of the rows on which its entry reads true. -/
theorem accepted_iff_fieldReads {name : String} {v : Value} {own : List Filter}
    (h : fieldTests codec p name v = .ok own) (hb : Bound t own) :
    Accepted t r own ↔ FieldReads codec p t r name v := by
  obtain ⟨f, hf, ⟨rfl, rfl⟩ | ⟨sent, rfl⟩⟩ := fieldTests_eq_ok h
  · exact iff_of_true nofun trivial
  · obtain ⟨filter, -, hsent⟩ := fieldTests_eq codec hf
    rw [hsent] at h
    have each := forall₂_imp_mem (mapM_eq_ok.1 h) fun e _ g hg htest =>
      (accepts_operatorTest_iff (r := r) htest (hb g hg)).symm
    unfold Accepted FieldReads
    rw [← forall_mem_congr_of_forall₂ each, hf]
    simp

/-! ## Trees -/

theorem mapM_subtreesOf {v : Value} {trees : List (List Filter)}
    (h : subtrees codec p v = .ok trees) : (subtreesOf v).mapM (conjuncts codec p) = .ok trees := by
  cases v with
  | list vs | tuple vs =>
    unfold subtrees at h
    rw [branches_eq] at h
    exact h
  | object fields =>
    unfold subtrees at h
    split_ifs at h with hempty
    cases h
    unfold subtreesOf
    rw [List.mapM_map]
    refine mapM_eq_map fun e he => ?_
    show (if !e.1.isEmpty then Except.error Fault.noMember else Except.ok []) = _
    rw [List.all_eq_true.1 hempty e he]
    rfl
  | _ =>
    unfold subtrees at h
    split_ifs at h
    cases h
    rfl

section Subtrees

variable {us : List Value} {trees : List (List Filter)}
  (htrees : us.mapM (conjuncts codec p) = .ok trees)
  (ih : ∀ u ∈ us, ∀ tree, conjuncts codec p u = .ok tree → Bound t tree →
    (Accepted t r tree ↔ Reads codec p t r u))
include htrees ih

theorem accepted_all_iff (hb : Bound t (trees.map .all)) :
    Accepted t r (trees.map .all) ↔ ∀ u ∈ us, Reads codec p t r u := by
  have each := forall₂_imp_mem (mapM_eq_ok.1 htrees) fun u hu tree htree h =>
    (ih u hu tree h (exists_bind_all_iff.1 (hb _ (List.mem_map_of_mem htree)))).symm
  rw [forall_mem_congr_of_forall₂ each]
  unfold Accepted
  rw [List.forall_mem_map]
  exact forall₂_congr fun tree _ => accepts_all_iff

theorem accepts_any_iff (hb : ∃ q, t.bind (Filter.any (trees.map .all)).predicate = .ok q) :
    t.Accepts (Filter.any (trees.map .all)).predicate r ↔ ∃ u ∈ us, Reads codec p t r u := by
  rcases bound_of_any hb with hbound | ⟨tree, htree, halways⟩
  · have each := forall₂_imp_mem (mapM_eq_ok.1 htrees) fun u hu tree htree h =>
      (ih u hu tree h (hbound tree htree)).symm
    have parts : ∀ c ∈ predicates (trees.map .all), ∃ q, t.bind c = .ok q := by
      rw [predicates_eq_map, List.map_map, List.forall_mem_map]
      exact fun tree htree => exists_bind_all_iff.2 (hbound tree htree)
    show t.Accepts (.anyOf (predicates (trees.map .all))) r ↔ _
    rw [Table.accepts_anyOf parts, exists_mem_congr_of_forall₂ each, predicates_eq_map,
      List.map_map]
    simp only [List.mem_map, Function.comp_apply, exists_exists_and_eq_and]
    exact exists_congr fun tree => and_congr_right fun _ => accepts_all_iff
  · -- A branch that asks for nothing makes the disjunction hold, whatever the others ask.
    have always : t.Accepts (Filter.all tree).predicate r := halways ▸ ⟨.always, rfl, rfl⟩
    have bound : Bound t tree := exists_bind_all_iff.1 (halways ▸ ⟨.always, rfl⟩)
    obtain ⟨u, hu, h⟩ := mem_of_mapM htrees htree
    refine iff_of_true ?_ ⟨u, hu, (ih u hu tree h bound).1 (accepts_all_iff.1 always)⟩
    have tautology : (Filter.any (trees.map .all)).predicate = .tautology := by
      show Predicate.anyOf (predicates (trees.map .all)) = _
      refine if_pos (List.any_eq_true.2 ⟨_, ?_, congrArg Predicate.isAlways halways⟩)
      rw [predicates_eq_map, List.map_map]
      exact List.mem_map_of_mem htree
    exact tautology ▸ ⟨.tautology, rfl, rfl⟩

end Subtrees

/-- What an entry is compiled to holds of the rows on which it reads true. -/
theorem accepted_iff_entryReads {name : String} {v : Value} {own : List Filter}
    (h : entry codec p name v = .ok own) (hb : Bound t own)
    (ih : ∀ u ∈ subtreesOf v, ∀ tree, conjuncts codec p u = .ok tree → Bound t tree →
      (Accepted t r tree ↔ Reads codec p t r u)) :
    Accepted t r own ↔ EntryReads codec p t r name v := by
  unfold entry at h
  split_ifs at h with hand hor
  · subst hand
    obtain ⟨trees, htrees, rfl⟩ := map_eq_ok.1 h
    rw [entryReads_and_iff]
    exact accepted_all_iff (mapM_subtreesOf htrees) ih hb
  · subst hor
    obtain ⟨trees, htrees, rfl⟩ := map_eq_ok.1 h
    have hsub := mapM_subtreesOf htrees
    rw [entryReads_or_iff]
    by_cases hempty : trees = []
    · subst hempty
      have none := length_of_mapM hsub
      exact iff_of_true nofun (.inl (List.length_eq_zero_iff.1 none.symm))
    · have some : subtreesOf v ≠ [] := by
        intro hnil
        rw [hnil] at hsub
        cases hsub
        exact hempty rfl
      rw [if_neg (by simpa using hempty)] at hb ⊢
      rw [or_iff_right some, ← accepts_any_iff hsub ih (hb _ (List.mem_singleton_self _))]
      exact List.forall_mem_singleton
  · rw [entryReads_field_iff hand hor]
    exact accepted_iff_fieldReads h hb

theorem sizeOf_lt_of_mem_subtreesOf {u v : Value} (hu : u ∈ subtreesOf v) :
    sizeOf u < sizeOf v := by
  cases v with
  | list vs | tuple vs =>
    have : sizeOf u < sizeOf vs := List.sizeOf_lt_of_mem hu
    simp
    omega
  | object fields =>
    obtain ⟨e, he, rfl⟩ := List.mem_map.1 hu
    have := List.sizeOf_lt_of_mem he
    obtain ⟨name, v⟩ := e
    simp at this ⊢
    omega
  | _ => cases hu

/-- Induction over trees: what holds of an object if it holds of the subtrees of its entries, and of
everything else. -/
theorem tree_induction {motive : Value → Prop}
    (object : ∀ fields : List (String × Value),
      (∀ e ∈ fields, ∀ u ∈ subtreesOf e.2, motive u) → motive (.object fields))
    (other : ∀ v : Value, (∀ fields, v ≠ .object fields) → motive v) (v : Value) : motive v := by
  match v with
  | .object fields => exact object fields fun e he u hu => tree_induction object other u
  | .null | .list _ | .tuple _ | .text _ | .bool _ | .int _ | .float _ | .decimal _ | .bytes _
  | .date _ | .time _ | .dateTime _ | .uuid _ | .member _ => exact other _ nofun
termination_by sizeOf v
decreasing_by
  have entry := List.sizeOf_lt_of_mem he
  have subtree := sizeOf_lt_of_mem_subtreesOf hu
  obtain ⟨name, v⟩ := e
  simp at entry subtree ⊢
  omega

/-- What is not an object has no conjuncts. -/
theorem conjuncts_other {v : Value} (hv : ∀ fields, v ≠ .object fields) {fs : List Filter}
    (h : conjuncts codec p v = .ok fs) : v.isTruthy = false ∧ fs = [] := by
  cases v with
  | object fields => exact absurd rfl (hv fields)
  | _ =>
    unfold conjuncts at h
    split_ifs at h with htruthy
    cases h
    exact ⟨Bool.eq_false_iff.2 htruthy, rfl⟩

/-- The conditions that a tree is compiled to hold of the rows on which it reads true. -/
theorem accepted_iff_reads (v : Value) {fs : List Filter} (h : conjuncts codec p v = .ok fs)
    (hb : Bound t fs) : Accepted t r fs ↔ Reads codec p t r v := by
  induction v using tree_induction generalizing fs with
  | object fields ih =>
    rw [conjuncts_object] at h
    obtain ⟨owns, howns, rfl⟩ := map_eq_ok.1 h
    have hbound : ∀ own ∈ owns, Bound t own := fun own hown f hf =>
      hb f (List.mem_flatten_of_mem hown hf)
    have each := forall₂_imp_mem (mapM_eq_ok.1 howns) fun e he own hown hentry =>
      (accepted_iff_entryReads (r := r) hentry (hbound own hown) fun u hu tree htree hbtree =>
        ih e he u hu htree hbtree).symm
    rw [reads_object_iff, forall_mem_congr_of_forall₂ each]
    unfold Accepted
    simp only [List.mem_flatten]
    constructor
    · exact fun h own hown f hf => h f ⟨own, hown, hf⟩
    · rintro h f ⟨own, hown, hf⟩
      exact h own hown f hf
  | other v hv =>
    obtain ⟨habsent, rfl⟩ := conjuncts_other hv h
    exact iff_of_true nofun (.absent habsent)

/-- The condition that a tree is compiled to holds of the rows on which the tree reads true. -/
theorem accepts_iff_reads {v : Value} {c : Predicate Value} (h : compile codec p v = .ok c)
    {q : Predicate Cell} (hq : t.bind c = .ok q) (r : Row) :
    q.accepts r ↔ Reads codec p t r v := by
  obtain ⟨f, hf, rfl⟩ := map_eq_ok.1 h
  obtain ⟨fs, hfs, rfl⟩ := map_eq_ok.1 hf
  rw [← Table.accepts_iff hq, accepts_all_iff]
  exact accepted_iff_reads v hfs (exists_bind_all_iff.1 ⟨q, hq⟩)

end TableGraph.Filter
