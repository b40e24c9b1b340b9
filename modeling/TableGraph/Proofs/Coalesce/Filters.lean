import TableGraph.Proofs.Coalesce.Alike
import TableGraph.Proofs.Coalesce.Conforming
import TableGraph.Proofs.Coalesce.FilterTypes
import TableGraph.Proofs.Filter.Trees

/-!
# Filters of one fingerprint

Two filters of the type of an entity that have one fingerprint are read side by side: they have the
same entries in the same order, trees under `and` and `or` and operators under the names of fields.
Operands differ only where the fingerprint does not tell them apart, which is among floats.  So the
conditions of the filters agree if those of single float operators do (`compile_alike`).
-/

namespace TableGraph

open TableGraph.Graph

/-- A filter that asks one operator of one field. -/
def Filter.single (field operator : String) (operand : Value) : Value :=
  .object [(field, .object [(operator, operand)])]

namespace Filter

variable {codec : Codec} {p : Projection} {t : Table}

/-- The conditions of two filters are joins of tests that agree on a table. -/
def Alike (t : Table) (f g : Filter) : Prop :=
  Predicate.Alike (fun column s s' => t.Agree (.test column s) (.test column s')) Eq
    f.predicate g.predicate

theorem Alike.all {fs gs : List Filter} (h : List.Forall₂ (Alike t) fs gs) :
    Alike t (.all fs) (.all gs) := by
  show Predicate.Alike _ _ (.allOf (predicates fs)) (.allOf (predicates gs))
  rw [predicates_eq_map, predicates_eq_map]
  refine Predicate.Alike.allOf ?_
  rw [List.forall₂_map_left_iff, List.forall₂_map_right_iff]
  exact h

theorem Alike.any {fs gs : List Filter} (h : List.Forall₂ (Alike t) fs gs) :
    Alike t (.any fs) (.any gs) := by
  show Predicate.Alike _ _ (.anyOf (predicates fs)) (.anyOf (predicates gs))
  rw [predicates_eq_map, predicates_eq_map]
  refine Predicate.Alike.anyOf ?_
  rw [List.forall₂_map_left_iff, List.forall₂_map_right_iff]
  exact h

/-! ## Fields -/

theorem sameFrozen_cons {name name' : String} {v v' : Value}
    {fields fields' : List (String × Value)}
    (h : Value.sameItems (Value.freezeFields ((name, v) :: fields))
      (Value.freezeFields ((name', v') :: fields'))) :
    name = name' ∧ v.freeze.same v'.freeze ∧
      Value.sameItems (Value.freezeFields fields) (Value.freezeFields fields') := by
  have parts : ((name == name' && (v.freeze.same v'.freeze && true)) &&
      Value.sameItems (Value.freezeFields fields) (Value.freezeFields fields')) = true := h
  rw [Bool.and_true, Bool.and_eq_true, Bool.and_eq_true, beq_iff_eq] at parts
  exact ⟨parts.1.1, parts.1.2, parts.2⟩

/-- Operators of a field with operands of one fingerprint ask tests that agree. -/
def OperatorsAgree (codec : Codec) (t : Table) (f : ColumnField) (filter : ColumnFilter)
    (Sent : String × Value → Prop) : Prop :=
  ∀ name v v' o s s', Sent (name, v) → Sent (name, v') → v.freeze.same v'.freeze →
    operatorOf f filter name = .ok o → columnTest codec f (f.path ++ "." ++ name) o v = .ok s →
    columnTest codec f (f.path ++ "." ++ name) o v' = .ok s' →
    t.Agree (.test f.column.name s) (.test f.column.name s')

theorem columnTests_alike {f : ColumnField} {filter : ColumnFilter}
    {Sent : String × Value → Prop} (h : OperatorsAgree codec t f filter Sent)
    {sent sent' : List (String × Value)} (hsent : ∀ entry ∈ sent, Sent entry)
    (hsent' : ∀ entry ∈ sent', Sent entry)
    (same : Value.sameItems (Value.freezeFields sent) (Value.freezeFields sent'))
    {fs gs : List Filter} (hfs : columnTests codec f filter sent = .ok fs)
    (hgs : columnTests codec f filter sent' = .ok gs) : List.Forall₂ (Alike t) fs gs := by
  induction sent generalizing sent' fs gs with
  | nil =>
    cases sent' with
    | nil =>
      cases hfs
      cases hgs
      exact .nil
    | cons => cases same
  | cons entry sent ih =>
    cases sent' with
    | nil => cases same
    | cons entry' sent' =>
      obtain ⟨name, v⟩ := entry
      obtain ⟨name', v'⟩ := entry'
      obtain ⟨rfl, operands, rest⟩ := sameFrozen_cons same
      obtain ⟨o, s, ss, ho, hs, hss, rfl⟩ := columnTests_cons_eq_ok hfs
      obtain ⟨o', s', ss', ho', hs', hss', rfl⟩ := columnTests_cons_eq_ok hgs
      rw [ho] at ho'
      cases ho'
      rw [List.forall_mem_cons] at hsent hsent'
      exact .cons (.test (h name v v' o s s' hsent.1 hsent'.1 operands ho hs hs'))
        (ih hsent.2 hsent'.2 rest hss hss')

theorem single_ne_null (field operator : String) (v : Value) : single field operator v ≠ .null :=
  nofun

theorem freeze_single_same {field operator : String} {v v' : Value} (h : v.freeze.same v'.freeze) :
    (single field operator v).freeze.same (single field operator v').freeze := by
  simp [single, Value.freeze, Value.freezeFields, Value.same, Value.sameItems, h]

/-- What a type of operators lets a client send. -/
def Sendable (s : TypeSystem) (types : List InputField) (entry : String × Value) : Prop :=
  ∃ type, typeOf? types entry.1 = some type ∧ Conforms s entry.2 type

/-- The field is the one that an entry of a filter under its name is for. -/
def IsFilterField (p : Projection) (f : ColumnField) : Prop :=
  f.name ≠ "and" ∧ f.name ≠ "or" ∧ p.filterFields.find? (fun g => g.name = f.name) = some f

theorem IsFilterField.typeOf? {f : ColumnField} (hf : IsFilterField p f) {filter : ColumnFilter}
    (hfilter : f.filter = some filter) :
    typeOf? (Builder.filterInputs p) f.name = some (.named filter.typeName) := by
  rw [typeOf?_filterInputs, if_neg (not_or.2 ⟨hf.1, hf.2.1⟩), hf.2.2, Option.bind_some, hfilter]
  rfl

/-- One operator of a field is a filter of the type of the entity. -/
theorem conforms_filter {b : Builder} {schema : SealedSchema} (built : b.build = .ok schema)
    (hp : p ∈ schema.projections) {f : ColumnField} (hf : IsFilterField p f) {filter : ColumnFilter}
    (hfilter : f.filter = some filter) {base : String}
    (htypes : schema.types.inputFields? filter.typeName =
      some (operatorFields (.named base) filter.operators)) {operator : String} {v : Value}
    (hv : Sendable schema.types (operatorFields (.named base) filter.operators) (operator, v)) :
    Conforms schema.types (single f.name operator v) (.named p.filterTypeName) := by
  obtain ⟨type, htype, hv⟩ := hv
  exact conforms_single (Builder.inputFields?_filter built hp) (hasRequired_filterInputs p _)
    (hf.typeOf? hfilter)
    (conforms_single htypes (hasRequired_operatorFields base _ _) htype hv)

/-- Operators of one fingerprint agree on a table, whatever field of an entity they are for. -/
structure FieldsAgree (s : TypeSystem) (codec : Codec) (p : Projection) (t : Table) : Prop where
  /-- Filters of the entity have its fields. -/
  input : s.inputFields? p.filterTypeName = some (Builder.filterInputs p)
  fields : ∀ f, IsFilterField p f → ∀ filter, f.filter = some filter →
    ∃ types, s.inputFields? filter.typeName = some types ∧
      OperatorsAgree codec t f filter (Sendable s types)

/-- One operator of one field is compiled to one test. -/
theorem compile_single {f : ColumnField} (hf : IsFilterField p f) {filter : ColumnFilter}
    (hfilter : f.filter = some filter) {operator : String} {o : Operator}
    (ho : operatorOf f filter operator = .ok o) (v : Value) :
    compile codec p (single f.name operator v) =
      Predicate.test f.column.name <$> columnTest codec f (f.path ++ "." ++ operator) o v := by
  have own : fieldTests codec p f.name (.object [(operator, v)]) =
      (fun t => [.test f.column.name t]) <$>
        columnTest codec f (f.path ++ "." ++ operator) o v := by
    unfold fieldTests
    rw [hf.2.2]
    dsimp only
    rw [hfilter]
    show columnTests codec f filter [(operator, v)] = _
    unfold columnTests
    rw [ho]
    show (columnTest codec f _ o v >>= fun _ => _) = _
    cases columnTest codec f (f.path ++ "." ++ operator) o v <;> rfl
  unfold compile ofValue single conjuncts
  rw [entries_cons, entry, if_neg hf.1, if_neg hf.2.1, own]
  cases columnTest codec f (f.path ++ "." ++ operator) o v <;> rfl

section Trees

variable {s : TypeSystem}

theorem fieldTests_alike (h : FieldsAgree s codec p t) {name : String} (hand : name ≠ "and")
    (hor : name ≠ "or") {v v' : Value}
    (hv : Sendable s (Builder.filterInputs p) (name, v))
    (hv' : Sendable s (Builder.filterInputs p) (name, v')) (same : v.freeze.same v'.freeze)
    {fs gs : List Filter} (hfs : fieldTests codec p name v = .ok fs)
    (hgs : fieldTests codec p name v' = .ok gs) : List.Forall₂ (Alike t) fs gs := by
  obtain ⟨type, htype, hv⟩ := hv
  obtain ⟨_, htype', hv'⟩ := hv'
  rw [htype] at htype'
  cases htype'
  rw [typeOf?_filterInputs, if_neg (not_or.2 ⟨hand, hor⟩)] at htype
  obtain ⟨f, hfind, htype⟩ := Option.bind_eq_some_iff.1 htype
  obtain ⟨filter, hfilter, rfl⟩ := Option.map_eq_some_iff.1 htype
  obtain rfl : f.name = name := by simpa using List.find?_some hfind
  obtain ⟨types, htypes, agree⟩ := h.fields f ⟨hand, hor, hfind⟩ filter hfilter
  unfold fieldTests at hfs hgs
  rw [hfind] at hfs hgs
  dsimp only at hfs hgs
  rw [hfilter] at hfs hgs
  rcases hv.input_cases htypes with rfl | ⟨sent, rfl, hsent⟩
  · cases eq_null_of_same same
    cases hfs
    cases hgs
    exact .nil
  · rcases hv'.input_cases htypes with rfl | ⟨sent', rfl, hsent'⟩
    · cases same
    · exact columnTests_alike agree hsent hsent' same hfs hgs

theorem all_alike {trees trees' : List (List Filter)}
    (h : List.Forall₂ (List.Forall₂ (Alike t)) trees trees') :
    List.Forall₂ (Alike t) (trees.map .all) (trees'.map .all) := by
  rw [List.forall₂_map_left_iff, List.forall₂_map_right_iff]
  exact h.imp fun _ _ => Alike.all

theorem any_alike {trees trees' : List (List Filter)}
    (h : List.Forall₂ (List.Forall₂ (Alike t)) trees trees') :
    List.Forall₂ (Alike t) (if trees.isEmpty then [] else [.any (trees.map .all)])
      (if trees'.isEmpty then [] else [.any (trees'.map .all)]) := by
  have all := all_alike h
  cases h with
  | nil => exact .nil
  | cons => exact .cons (.any all) .nil

mutual

/-- Trees of one fingerprint ask alike. -/
theorem conjuncts_alike (h : FieldsAgree s codec p t) {v v' : Value}
    (hv : Conforms s v (.named p.filterTypeName))
    (hv' : Conforms s v' (.named p.filterTypeName)) (same : v.freeze.same v'.freeze)
    {fs gs : List Filter} (hfs : conjuncts codec p v = .ok fs)
    (hgs : conjuncts codec p v' = .ok gs) : List.Forall₂ (Alike t) fs gs := by
  match v with
  | .null =>
    cases eq_null_of_same same
    cases hfs
    cases hgs
    exact .nil
  | .object fields =>
    rcases hv.input_cases h.input with hnull | ⟨_, hobject, hsent⟩
    · cases hnull
    cases hobject
    rcases hv'.input_cases h.input with rfl | ⟨fields', rfl, hsent'⟩
    · cases same
    · exact entries_alike h hsent hsent' same hfs hgs
  | .list _ | .tuple _ | .text _ | .bool _ | .int _ | .float _ | .decimal _ | .bytes _ | .date _
  | .time _ | .dateTime _ | .uuid _ | .member _ =>
    rcases hv.input_cases h.input with hother | ⟨_, hother, -⟩ <;> cases hother
termination_by structural v

theorem entries_alike (h : FieldsAgree s codec p t) {sent sent' : List (String × Value)}
    (hsent : ∀ e ∈ sent, Sendable s (Builder.filterInputs p) e)
    (hsent' : ∀ e ∈ sent', Sendable s (Builder.filterInputs p) e)
    (same : Value.sameItems (Value.freezeFields sent) (Value.freezeFields sent'))
    {fs gs : List Filter} (hfs : entries codec p sent = .ok fs)
    (hgs : entries codec p sent' = .ok gs) : List.Forall₂ (Alike t) fs gs := by
  match sent with
  | [] =>
    cases sent' with
    | nil =>
      cases hfs
      cases hgs
      exact .nil
    | cons => cases same
  | (name, v) :: sent =>
    cases sent' with
    | nil => cases same
    | cons e sent' =>
      obtain ⟨name', v'⟩ := e
      obtain ⟨rfl, operands, rest⟩ := sameFrozen_cons same
      obtain ⟨own, others, hown, hothers, rfl⟩ := entries_cons_eq_ok hfs
      obtain ⟨own', others', hown', hothers', rfl⟩ := entries_cons_eq_ok hgs
      rw [List.forall_mem_cons] at hsent hsent'
      refine List.rel_append ?_ (entries_alike h hsent.2 hsent'.2 rest hothers hothers')
      have trees : name = "and" ∨ name = "or" → ∀ {v},
          Sendable s (Builder.filterInputs p) (name, v) →
          Conforms s v (.list (required p.filterTypeName)) := by
        rintro htree v ⟨type, htype, hv⟩
        rw [typeOf?_filterInputs, if_pos htree] at htype
        cases htype
        exact hv
      unfold entry at hown hown'
      split_ifs at hown hown' with hand hor
      · obtain ⟨ts, hts, rfl⟩ := map_eq_ok.1 hown
        obtain ⟨ts', hts', rfl⟩ := map_eq_ok.1 hown'
        exact all_alike (subtrees_alike h (trees (.inl hand) hsent.1) (trees (.inl hand) hsent'.1)
          operands hts hts')
      · obtain ⟨ts, hts, rfl⟩ := map_eq_ok.1 hown
        obtain ⟨ts', hts', rfl⟩ := map_eq_ok.1 hown'
        exact any_alike (subtrees_alike h (trees (.inr hor) hsent.1) (trees (.inr hor) hsent'.1)
          operands hts hts')
      · exact fieldTests_alike h hand hor hsent.1 hsent'.1 operands hown hown'
termination_by structural sent

theorem subtrees_alike (h : FieldsAgree s codec p t) {v v' : Value}
    (hv : Conforms s v (.list (required p.filterTypeName)))
    (hv' : Conforms s v' (.list (required p.filterTypeName))) (same : v.freeze.same v'.freeze)
    {trees trees' : List (List Filter)} (htrees : subtrees codec p v = .ok trees)
    (htrees' : subtrees codec p v' = .ok trees') :
    List.Forall₂ (List.Forall₂ (Alike t)) trees trees' := by
  match v with
  | .null =>
    cases eq_null_of_same same
    cases htrees
    cases htrees'
    exact .nil
  | .list items =>
    rcases hv.list_cases with hnull | ⟨_, hlist, hitems⟩
    · cases hnull
    cases hlist
    rcases hv'.list_cases with rfl | ⟨items', rfl, hitems'⟩
    · cases same
    · exact branches_alike h hitems hitems' same htrees htrees'
  | .object _ | .tuple _ | .text _ | .bool _ | .int _ | .float _ | .decimal _ | .bytes _ | .date _
  | .time _ | .dateTime _ | .uuid _ | .member _ =>
    rcases hv.list_cases with hother | ⟨_, hother, -⟩ <;> cases hother
termination_by structural v

theorem branches_alike (h : FieldsAgree s codec p t) {vs vs' : List Value}
    (hvs : ∀ v ∈ vs, Conforms s v (required p.filterTypeName))
    (hvs' : ∀ v ∈ vs', Conforms s v (required p.filterTypeName))
    (same : Value.sameItems (Value.freezeItems vs) (Value.freezeItems vs'))
    {trees trees' : List (List Filter)} (htrees : branches codec p vs = .ok trees)
    (htrees' : branches codec p vs' = .ok trees') :
    List.Forall₂ (List.Forall₂ (Alike t)) trees trees' := by
  match vs with
  | [] =>
    cases vs' with
    | nil =>
      cases htrees
      cases htrees'
      exact .nil
    | cons => cases same
  | v :: vs =>
    cases vs' with
    | nil => cases same
    | cons v' vs' =>
      rw [List.forall_mem_cons] at hvs hvs'
      unfold Value.freezeItems Value.sameItems at same
      rw [Bool.and_eq_true] at same
      obtain ⟨tree, rest, htree, hrest, rfl⟩ := branches_cons_eq_ok htrees
      obtain ⟨tree', rest', htree', hrest', rfl⟩ := branches_cons_eq_ok htrees'
      exact .cons (conjuncts_alike h hvs.1.of_nonNull.2 hvs'.1.of_nonNull.2 same.1 htree htree')
        (branches_alike h hvs.2 hvs'.2 same.2 hrest hrest')
termination_by structural vs

end

/-- Filters of one fingerprint have conditions whose tests agree in every place. -/
theorem compile_alike (h : FieldsAgree s codec p t) {v v' : Value}
    (hv : Conforms s v (.named p.filterTypeName))
    (hv' : Conforms s v' (.named p.filterTypeName)) (same : v.freeze.same v'.freeze)
    {c c' : Predicate Value} (hc : compile codec p v = .ok c) (hc' : compile codec p v' = .ok c') :
    Predicate.Alike (fun column s s' => t.Agree (.test column s) (.test column s')) Eq c c' := by
  obtain ⟨f, hf, rfl⟩ := map_eq_ok.1 hc
  obtain ⟨f', hf', rfl⟩ := map_eq_ok.1 hc'
  obtain ⟨fs, hfs, rfl⟩ := map_eq_ok.1 hf
  obtain ⟨fs', hfs', rfl⟩ := map_eq_ok.1 hf'
  exact Alike.all (conjuncts_alike h hv hv' same hfs hfs')

end Trees

end Filter

end TableGraph
