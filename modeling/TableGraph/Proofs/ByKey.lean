import TableGraph.Proofs.Coalesce.Filters
import TableGraph.Proofs.Filter.Reading
import TableGraph.Proofs.Hidden.Visible
import TableGraph.Proofs.Plans
import TableGraph.Sample.Registered

/-!
# Rows by key and lists of the rows at a key

A row is read by the values of its key, and a list under a filter that asks for the same values
holds that row.  The values take two ways to the columns: one field has arguments of the types of
the columns and parses them by these types, the other has operands of the types of the filters and
takes conversions of the columns into account (`keyPart`, `operandPart`).

Main statement: `byKey_agrees_iff`.  Both fields agree in every state of the database exactly if
what is sent stands for the same rows both ways, and so they do unless a column of the key is
converted or filtered by in a way of its own; `converted_code_not_listed` is a row that is found by
its key and not listed.
-/

namespace TableGraph

open TableGraph.Graph

/-! ## Values of arguments -/

theorem eq_mem_operators (filter : ColumnFilter) : .eq ∈ filter.operators := by
  cases filter with
  | family f => cases f <;> decide
  | enumeration => exact List.mem_cons_self

namespace Graph

variable {s : TypeSystem} {bindings : List (String × Value)} {given : List (String × Literal)}

/-- A literal is of a type without null only if it is the same value of the type with null. -/
theorem ofLiteral?_of_nonNull {l : Literal} {name : String} {v : Value}
    (h : ofLiteral? s bindings l (.nonNull (.named name)) = some v) :
    ofLiteral? s bindings l (.named name) = some v := by
  match l with
  | .variable x =>
    unfold ofLiteral? ofVariable? at h ⊢
    split at h
    · cases h
    · exact h
  | .null => cases h
  | .int _ | .float _ | .string _ | .bool _ | .name _ | .list _ | .object _ => exact h

/-- Arguments that cannot be left out are there. -/
theorem argumentValues_of_required {types : List InputField}
    (required : ∀ f ∈ types, f.type.isNonNull = true) {values : List (String × Value)}
    (h : argumentValues s bindings given types = .ok values) :
    List.Forall₂ (fun f x => x.1 = f.name ∧ ∃ l, given.lookup f.name = some l ∧
      isAbsent bindings l = false ∧ ofLiteral? s bindings l f.type = some x.2) types values := by
  induction types generalizing values with
  | nil =>
    cases h
    exact .nil
  | cons f types ih =>
    rw [List.forall_mem_cons] at required
    obtain ⟨v, hv, h⟩ := bind_eq_ok.1 h
    obtain ⟨rest, hrest, h⟩ := bind_eq_ok.1 h
    unfold argumentValue at hv
    split at hv
    · rw [if_pos required.1] at hv
      cases hv
    next l hl =>
      obtain ⟨found, present⟩ := Option.filter_eq_some_iff.1 hl
      split at hv
      next value hvalue =>
        cases hv
        cases h
        exact .cons ⟨rfl, l, found, by simpa using present, hvalue⟩ (ih required.2 hrest)
      next => cases hv

/-- An object of one operator that asks for equality. -/
theorem ofLiteral?_equals {filter : ColumnFilter} (input : s.inputFields? filter.typeName =
      some (operatorFields (.named filter.operandName) filter.operators)) {l : Literal}
    (present : isAbsent bindings l = false) {v : Value}
    (h : ofLiteral? s bindings (.object [(Operator.eq.name, l)]) (.named filter.typeName) =
      some v) :
    ∃ a, ofLiteral? s bindings l (.named filter.operandName) = some a ∧
      v = .object [(Operator.eq.name, a)] := by
  unfold ofLiteral? at h
  dsimp only [TypeRef.base] at h
  rw [input] at h
  obtain ⟨written, hwritten, h⟩ := Option.bind_eq_some_iff.1 h
  obtain ⟨arranged, harranged, h⟩ := Option.bind_eq_some_iff.1 h
  cases h
  unfold ofWritten? ofWritten? at hwritten
  rw [typeOf?_operator _ (eq_mem_operators filter)] at hwritten
  simp only [present, Option.bind_eq_bind, Option.bind_some] at hwritten
  obtain ⟨a, ha, hwritten⟩ := Option.bind_eq_some_iff.1 hwritten
  cases hwritten
  refine ⟨a, ha, ?_⟩
  rw [arrange_eq (nullable_operatorFields _ _)] at harranged
  cases harranged
  cases filter with
  | family f => cases f <;> rfl
  | enumeration => rfl

end Graph

/-! ## Equality with the value of a field -/

namespace Filter

variable {codec : Codec} {p : Projection} {f : ColumnField}

theorem entry_equals (own : IsFilterField p f) (a : Value) :
    entry codec p f.name (.object [(Operator.eq.name, a)]) =
      (fun d => [.test f.column.name (.equals false d)]) <$>
        decode codec f (f.path ++ "." ++ Operator.eq.name) a := by
  obtain ⟨filter, hfilter, hsent⟩ := fieldTests_eq codec own.2.2
  unfold entry
  rw [if_neg own.1, if_neg own.2.1, hsent]
  unfold operatorTest
  rw [List.mapM_cons, operatorOf_of_mem (eq_mem_operators filter)]
  show (((Test.equals false <$> decode codec f (f.path ++ "." ++ Operator.eq.name) a) >>= fun t =>
    Except.ok (Filter.test f.column.name t)) >>= _) = _
  cases decode codec f (f.path ++ "." ++ Operator.eq.name) a <;> rfl

end Filter

namespace Answer

variable {env : Environment} {bindings : List (String × Value)} {given : List (String × Literal)}
  {p : Projection} {fields : List ColumnField}

/-! ## Keys -/

/-- The value of an argument at a type, for the field that goes by its name. -/
def sentFor (env : Environment) (bindings : List (String × Value)) (given : List (String × Literal))
    (f : ColumnField) (t : TypeRef) : Option Value :=
  (given.lookup f.name).bind fun l => ofLiteral? env.schema.types bindings l t

/-- The value of a key column by which a row is read. -/
def keyPart (env : Environment) (bindings : List (String × Value)) (given : List (String × Literal))
    (f : ColumnField) : Option (String × Value) := do
  let v ← sentFor env bindings given f (.nonNull (columnTypeRef env.schema.context f.column.type))
  let v ← (env.schema.codec.parse f.path f.column.type v).toOption
  some (f.column.name, v)

/-- The value of a key column that a filter asks for equality with. -/
def operandPart (env : Environment) (bindings : List (String × Value))
    (given : List (String × Literal)) (f : ColumnField) : Option (String × Value) := do
  let filter ← f.filter
  let v ← sentFor env bindings given f (.named filter.operandName)
  let v ← (Filter.decode env.schema.codec f (f.path ++ "." ++ Operator.eq.name) v).toOption
  some (f.column.name, v)

theorem names_of_keyParts {ks : List String}
    (columns : List.Forall₂ (fun k f => f ∈ p.fields ∧ f.column.name = k) ks fields)
    {key : Record} (h : fields.mapM (keyPart env bindings given) = some key) :
    key.map (·.1) = ks := by
  refine (map_eq_of_forall₂ (f := id) (forall₂_trans ?_ columns (mapM_eq_some.1 h))).symm.trans
    ks.map_id
  rintro k f x ⟨-, rfl⟩ hx
  obtain ⟨v, -, hx⟩ := Option.bind_eq_some_iff.1 hx
  obtain ⟨w, -, hx⟩ := Option.bind_eq_some_iff.1 hx
  cases hx
  rfl

/-- The values of a key are all there. -/
theorem isAbsent_of_arguments (distinct : (fields.map (·.name)).Nodup)
    (names : (given.map (·.1)).Perm (fields.map (·.name))) {values : List (String × Value)}
    (h : argumentValues env.schema.types bindings given (fields.map fun f =>
      ⟨f.name, .nonNull (columnTypeRef env.schema.context f.column.type)⟩) = .ok values) :
    ∀ x ∈ given, isAbsent bindings x.2 = false := by
  intro x hx
  obtain ⟨f, hf, hname⟩ := List.mem_map.1 (names.subset (List.mem_map_of_mem hx))
  have sent := argumentValues_of_required (List.forall_mem_map.2 fun _ _ => rfl) h
  rw [List.forall₂_map_left_iff] at sent
  obtain ⟨_, -, -, l, hl, present, -⟩ := exists_of_forall₂ sent hf
  have own := lookup_map_name (·.1) (f := fun x : String × Literal => x.2)
    (names.symm.nodup distinct) hx
  rw [List.map_id'' fun _ => rfl, ← hname] at own
  cases hl.symm.trans own
  exact present

/-- A filter that asks for the values of a key under the names of its fields. -/
def keyFilter (given : List (String × Literal)) : Literal :=
  .object (given.map fun x => (x.1, .object [(Operator.eq.name, x.2)]))

theorem key_of_arguments {context : Context} {e : Entity} (shows : Projection.Shows context e p)
    (own : ∀ f ∈ fields, f ∈ p.fields) {values : List (String × Value)}
    (hvalues : argumentValues env.schema.types bindings given (fields.map fun f =>
      ⟨f.name, .nonNull (columnTypeRef env.schema.context f.column.type)⟩) = .ok values)
    {written : Option (List String)} {row : Reading}
    (h : Reading.ofKey env p ⟨values, written⟩ = .ok row) :
    ∃ key scope, env.scope p .read = .ok scope ∧
      fields.mapM (keyPart env bindings given) = some key ∧ row = .row p key scope := by
  obtain ⟨_, -, h⟩ := bind_eq_ok.1 h
  obtain ⟨key, hkey, h⟩ := bind_eq_ok.1 h
  obtain ⟨scope, hscope, h⟩ := bind_eq_ok.1 h
  cases h
  refine ⟨key, scope, hscope, mapM_eq_some.2 ?_, rfl⟩
  have sent := argumentValues_of_required (List.forall_mem_map.2 fun _ _ => rfl) hvalues
  rw [List.forall₂_map_left_iff] at sent
  refine forall₂_trans ?_ (forall₂_imp_mem sent fun f hf x _ hx => And.intro (own f hf) hx)
    (mapM_eq_ok.1 hkey)
  rintro f ⟨name, v⟩ part ⟨hf, rfl, l, hl, -, hv⟩ hpart
  obtain ⟨f', hf', hpart⟩ := bind_eq_ok.1 hpart
  rw [shows.field_eq_ok hf] at hf'
  cases hf'
  obtain ⟨w, hw, hpart⟩ := bind_eq_ok.1 hpart
  cases hpart
  unfold keyPart sentFor
  rw [hl, Option.bind_some, hv, Option.bind_eq_bind, Option.bind_some, hw]
  rfl

/-- A filter asks of a field for equality with the value of a literal. -/
def AsksEqual (env : Environment) (bindings : List (String × Value)) (f : ColumnField) (l : Literal)
    (asked : Value) : Prop :=
  ∃ filter a, f.filter = some filter ∧
    ofLiteral? env.schema.types bindings l (.named filter.operandName) = some a ∧
    asked = .object [(Operator.eq.name, a)]

/-- Lists with the same keys have their values under the same keys. -/
theorem lookup_of_forall₂ {α β : Type} {R : String → α → β → Prop} {xs : List (String × α)}
    {ys : List (String × β)}
    (h : List.Forall₂ (fun x y => y.1 = x.1 ∧ R x.1 x.2 y.2) xs ys) (name : String) :
    (∀ a, xs.lookup name = some a → ∃ b, ys.lookup name = some b ∧ R name a b) ∧
      ∀ b, ys.lookup name = some b → ∃ a, xs.lookup name = some a ∧ R name a b := by
  induction h with
  | nil => exact ⟨nofun, nofun⟩
  | @cons x y xs ys hxy _ ih =>
    rw [List.lookup_cons, List.lookup_cons, hxy.1]
    by_cases hname : name = x.1
    · subst hname
      rw [beq_self_eq_true]
      constructor
      · rintro _ ⟨⟩
        exact ⟨_, rfl, hxy.2⟩
      · rintro _ ⟨⟩
        exact ⟨_, rfl, hxy.2⟩
    · rw [beq_false_of_ne hname]
      exact ih

section Filters

variable {b : Builder} (built : b.build = .ok env.schema) (hp : p ∈ env.schema.projections)
  (own : ∀ f ∈ fields, Filter.IsFilterField p f)
include built hp own

theorem written_of_keyFilter {pairs : List (String × Literal)}
    (known : ∀ x ∈ pairs, (∃ f ∈ fields, f.name = x.1) ∧ isAbsent bindings x.2 = false)
    {written : List (String × Value)}
    (h : ofWritten? env.schema.types bindings
      (pairs.map fun x => (x.1, .object [(Operator.eq.name, x.2)])) (Builder.filterInputs p) =
        some written) :
    List.Forall₂ (fun x y => y.1 = x.1 ∧
      ∃ f ∈ fields, f.name = x.1 ∧ AsksEqual env bindings f x.2 y.2) pairs written := by
  induction pairs generalizing written with
  | nil =>
    cases h
    exact .nil
  | cons x pairs ih =>
    rw [List.forall_mem_cons] at known
    obtain ⟨⟨⟨f, hf, hname⟩, present⟩, known⟩ := known
    obtain ⟨filter, hfilter, -⟩ := Filter.fieldTests_eq env.schema.codec (own f hf).2.2
    have input := (Builder.operands_of_filter built hp
      (List.mem_of_mem_filter (List.mem_of_find?_eq_some (own f hf).2.2)) hfilter).1
    obtain ⟨rest, hrest, h⟩ := Option.bind_eq_some_iff.1 h
    rw [← hname, (own f hf).typeOf? hfilter, hname] at h
    obtain ⟨v, hv, h⟩ := Option.bind_eq_some_iff.1 h
    cases h
    obtain ⟨a, ha, rfl⟩ := ofLiteral?_equals input present hv
    exact .cons ⟨rfl, f, hf, hname, filter, a, hfilter, ha, rfl⟩ (ih known hrest)

/-- The filter for a key asks for the values of its fields, and for nothing else. -/
theorem asks_of_keyFilter (names : (given.map (·.1)).Perm (fields.map (·.name)))
    (present : ∀ x ∈ given, isAbsent bindings x.2 = false) {v : Value}
    (h : ofLiteral? env.schema.types bindings (keyFilter given) (.named p.filterTypeName) =
      some v) : ∃ arranged, v = .object arranged ∧
        (∀ e ∈ arranged, ∃ f ∈ fields, f.name = e.1 ∧ ∃ l, given.lookup f.name = some l ∧
          AsksEqual env bindings f l e.2) ∧
        ∀ f ∈ fields, ∃ asked, (f.name, asked) ∈ arranged := by
  unfold keyFilter ofLiteral? at h
  dsimp only [TypeRef.base] at h
  rw [Builder.inputFields?_filter built hp] at h
  obtain ⟨written, hwritten, h⟩ := Option.bind_eq_some_iff.1 h
  obtain ⟨arranged, harranged, h⟩ := Option.bind_eq_some_iff.1 h
  cases h
  rw [arrange_eq (nullable_filterInputs p)] at harranged
  cases harranged
  have known : ∀ x ∈ given, (∃ f ∈ fields, f.name = x.1) ∧ isAbsent bindings x.2 = false :=
    fun x hx => ⟨List.mem_map.1 (names.subset (List.mem_map_of_mem hx)), present x hx⟩
  have entries := lookup_of_forall₂ (R := fun name l asked => ∃ f ∈ fields, f.name = name ∧
    AsksEqual env bindings f l asked) (written_of_keyFilter built hp own known hwritten)
  refine ⟨_, rfl, fun e he => ?_, fun f hf => ?_⟩
  · obtain ⟨g, -, hg⟩ := List.mem_filterMap.1 he
    obtain ⟨asked, hasked, rfl⟩ := Option.map_eq_some_iff.1 hg
    obtain ⟨l, hl, f, hf, hname, asks⟩ := (entries g.name).2 asked hasked
    exact ⟨f, hf, hname, l, hname ▸ hl, asks⟩
  · obtain ⟨filter, hfilter, -⟩ := Filter.fieldTests_eq env.schema.codec (own f hf).2.2
    obtain ⟨g, hg, -⟩ := Option.map_eq_some_iff.1 ((own f hf).typeOf? hfilter)
    obtain ⟨x, hx, hname⟩ := List.mem_map.1 (names.symm.subset (List.mem_map_of_mem hf))
    obtain ⟨l, hl⟩ : ∃ l, given.lookup f.name = some l := Option.ne_none_iff_exists'.1 fun none => by
      simpa [hname] using List.lookup_eq_none_iff.1 none x hx
    obtain ⟨asked, hasked, -⟩ := (entries f.name).1 l hl
    have same : g.name = f.name := by simpa using List.find?_some hg
    refine ⟨asked, List.mem_filterMap.2 ⟨g, List.mem_of_find?_eq_some hg, ?_⟩⟩
    rw [same, hasked]
    rfl

end Filters

/-- An entry that asks for equality is compiled to the test of one column. -/
theorem test_of_asks (own : ∀ f ∈ fields, Filter.IsFilterField p f) {name : String} {asked : Value}
    (asks : ∃ f ∈ fields, f.name = name ∧ ∃ l, given.lookup f.name = some l ∧
      AsksEqual env bindings f l asked) {tests : List Filter}
    (h : Filter.entry env.schema.codec p name asked = .ok tests) :
    ∃ f ∈ fields, f.name = name ∧ ∃ d, operandPart env bindings given f = some (f.column.name, d) ∧
      tests = [.test f.column.name (.equals false d)] := by
  obtain ⟨f, hf, rfl, l, hl, filter, a, hfilter, ha, rfl⟩ := asks
  rw [Filter.entry_equals (own f hf)] at h
  obtain ⟨d, hd, rfl⟩ := map_eq_ok.1 h
  refine ⟨f, hf, rfl, d, ?_, rfl⟩
  unfold operandPart sentFor
  rw [hfilter, hl]
  simp only [Option.bind_eq_bind, Option.bind_some, ha, hd]
  rfl

/-- The condition of a filter that asks for a key is that the rows have its values. -/
theorem compile_of_asks (own : ∀ f ∈ fields, Filter.IsFilterField p f)
    (apart : ∀ f ∈ fields, ∀ g ∈ fields, f.name = g.name → f = g)
    {arranged : List (String × Value)}
    (asks : ∀ e ∈ arranged, ∃ f ∈ fields, f.name = e.1 ∧ ∃ l, given.lookup f.name = some l ∧
      AsksEqual env bindings f l e.2)
    (asked : ∀ f ∈ fields, ∃ asked, (f.name, asked) ∈ arranged) {c : Predicate Value}
    (h : Filter.compile env.schema.codec p (.object arranged) = .ok c) :
    ∃ operands, fields.mapM (operandPart env bindings given) = some operands ∧
      ∀ t l, Table.Accepts t c l ↔ t.Accepts (Query.isAt operands) l := by
  obtain ⟨whole, hwhole, rfl⟩ := map_eq_ok.1 h
  obtain ⟨fs, hfs, rfl⟩ := map_eq_ok.1 hwhole
  rw [Filter.conjuncts_object] at hfs
  obtain ⟨owns, howns, rfl⟩ := map_eq_ok.1 hfs
  have each := forall₂_imp_mem (mapM_eq_ok.1 howns) fun e he _ _ htests =>
    test_of_asks own (asks e he) htests
  have parts : ∀ f ∈ fields, ∃ x, operandPart env bindings given f = some x := by
    intro f hf
    obtain ⟨asked, hasked⟩ := asked f hf
    obtain ⟨_, -, g, hg, hname, d, hd, -⟩ := exists_of_forall₂ each hasked
    exact ⟨_, apart g hg f hf hname ▸ hd⟩
  obtain ⟨operands, hoperands⟩ := exists_forall₂ parts
  refine ⟨operands, mapM_eq_some.2 hoperands, fun t r => ?_⟩
  rw [Filter.accepts_all_iff]
  unfold Query.isAt Filter.Accepted
  rw [Table.accepts_allOf, List.forall_mem_map]
  constructor
  · intro h x hx
    obtain ⟨f, hf, hpart⟩ := exists_of_forall₂ hoperands.flip hx
    obtain ⟨asked, hasked⟩ := asked f hf
    obtain ⟨tests, htests, g, hg, hname, d, hd, rfl⟩ := exists_of_forall₂ each hasked
    obtain rfl := apart g hg f hf hname
    cases hpart.symm.trans hd
    exact h _ (List.mem_flatten_of_mem htests List.mem_cons_self)
  · intro h test htest
    obtain ⟨tests, htests, htest⟩ := List.mem_flatten.1 htest
    obtain ⟨e, -, f, hf, -, d, hd, rfl⟩ := exists_of_forall₂ each.flip htests
    obtain ⟨x, hx, hpart⟩ := exists_of_forall₂ hoperands hf
    cases hd.symm.trans hpart
    rw [List.mem_singleton.1 htest]
    exact h _ hx

/-- The list that is asked for under a filter alone, where pages have no bounds. -/
theorem page_of_filter (all : PageRequest.default env.schema.context = .all) {filter : Literal}
    (present : isAbsent bindings filter = false) {values : List (String × Value)}
    (hvalues : argumentValues env.schema.types bindings [("filters", filter)]
      (connectionArguments p) = .ok values) {page : Reading}
    (h : Reading.ofPage env p ⟨values, none⟩ = .ok page) :
    ∃ v c scope, ofLiteral? env.schema.types bindings filter (.named p.filterTypeName) = some v ∧
      env.scope p .read = .ok scope ∧ Filter.compile env.schema.codec p v = .ok c ∧
      page = .page p (c.andAlso scope) [] .all := by
  obtain ⟨_, hfirst, hvalues⟩ := bind_eq_ok.1 hvalues
  unfold argumentValue at hfirst
  rw [List.lookup_cons, beq_self_eq_true] at hfirst
  dsimp only at hfirst
  rw [Option.filter_some_pos (by rw [present]; rfl)] at hfirst
  dsimp only at hfirst
  split at hfirst
  next v hv =>
    cases hfirst
    cases hvalues
    obtain ⟨_, -, h⟩ := bind_eq_ok.1 h
    obtain ⟨request, hrequest, h⟩ := bind_eq_ok.1 h
    obtain ⟨orders, horders, h⟩ := bind_eq_ok.1 h
    obtain ⟨scope, hscope, h⟩ := bind_eq_ok.1 h
    obtain ⟨c, hc, h⟩ := bind_eq_ok.1 h
    cases horders
    cases h
    replace hrequest : Except.ok (PageRequest.default env.schema.context) = Except.ok request :=
      hrequest
    cases hrequest
    rw [all]
    exact ⟨v, c, scope, hv, hscope, hc, rfl⟩
  next => cases hfirst

/-! ## What is found and what is listed -/

/-- The condition under which rows are read. -/
def Reading.condition : Reading → Predicate Value
  | page _ c _ _ => c
  | row _ key scope => (Query.isAt key).andAlso scope
  | known _ => .always

/-- If both succeed, the row that is found is the only one that is listed; none is without it. -/
def Agree (codec : Codec) (s : Store) (row page : Reading) : Prop :=
  ∀ n m found, (row.run codec s).run n = .ok (found, m) →
    ∀ n' m' listed, (page.run codec s).run n' = .ok (listed, m') →
      ∃ (r : Option Record) (c : Connection), found = .ofRow? r ∧ listed = .connection c ∧
        c.nodes = r.toList

/-- The store has a table of the entity whose keys differ. -/
def KeepsKeys (schema : SealedSchema) (p : Projection) (s : Store) : Prop :=
  ∀ t, s.table p.name = .ok t → t.Keeps schema.codec.enumerations p.entity ∧ t.DistinctKeys t.rows

/-- Rows in scope of the one field and at its key are so for the other, both ways, except that rows
without a cursor need not be, because they are not listed. -/
structure SameRows (schema : SealedSchema) (p : Projection) (scope scope' : Option (Predicate Value))
    (key operands : Record) : Prop where
  listed {l : Row} {record : Record} (hread : (schema.table p).read l = .ok record)
    (within : (schema.table p).Within scope l)
    (found : (schema.table p).Accepts (Query.isAt key) l) :
    (schema.table p).Within scope' l ∧ (schema.table p).Accepts (Query.isAt operands) l
  found {l : Row} {record : Record} (hread : (schema.table p).read l = .ok record)
    (within : (schema.table p).Within scope' l) {text : String}
    (cursor : Key.encode schema.codec p.keyColumns record = .ok text)
    (listed : (schema.table p).Accepts (Query.isAt operands) l) :
    (schema.table p).Within scope l ∧ (schema.table p).Accepts (Query.isAt key) l

theorem sameRows_self {schema : SealedSchema} {scope : Option (Predicate Value)} (key : Record) :
    SameRows schema p scope scope key key :=
  ⟨fun _ within h => ⟨within, h⟩, fun _ within _ _ h => ⟨within, h⟩⟩

section Runs

variable {codec : Codec} {s : Store} {key : Record} {scope : Option (Predicate Value)}
  {c : Predicate Value} {n m : Nat} {item : Item}

theorem run_row_eq_ok : ((Reading.row p key scope).run codec s).run n = .ok (item, m) ↔
    ∃ t records, s.table p.name = .ok t ∧
      t.select ((Query.isAt key).andAlso scope) [] (some 1) 0 = .ok records ∧
      item = .ofRow? records.head? ∧ m = n + 1 := by
  show (Item.ofRow? <$> Query.byKey s p key scope).run n = _ ↔ _
  rw [Counted.run_map_eq_ok]
  unfold Query.byKey Query.first?
  simp only [Counted.run_bind_eq_ok, Counted.run_pure_eq_ok, Store.run_ask_eq_ok]
  constructor
  · rintro ⟨_, ⟨records, _, ⟨t, ht, hselect, rfl⟩, rfl, rfl⟩, rfl⟩
    exact ⟨t, records, ht, hselect, rfl, rfl⟩
  · rintro ⟨t, records, ht, hselect, rfl, rfl⟩
    exact ⟨_, ⟨records, _, ⟨t, ht, hselect, rfl⟩, rfl, rfl⟩, rfl⟩

theorem run_all_eq_ok : ((Reading.page p c [] .all).run codec s).run n = .ok (item, m) ↔
    ∃ t records edges, s.table p.name = .ok t ∧ t.select c [] none 0 = .ok records ∧
      Edge.ofRecords codec p.keyColumns records = .ok edges ∧
      item = .connection ⟨edges, false, false, some (.ofAll records.length)⟩ ∧ m = n + 1 := by
  show (Item.connection <$> Query.connection codec s p c [] .all).run n = _ ↔ _
  rw [Counted.run_map_eq_ok]
  unfold Query.connection
  simp only [Counted.run_bind_eq_ok, Counted.run_lift_eq_ok, Store.run_ask_eq_ok,
    Query.page_eq_ok]
  constructor
  · rintro ⟨_, ⟨records, _, ⟨t, ht, hselect, rfl⟩, ⟨edges, hedges, rfl⟩, rfl⟩, rfl⟩
    exact ⟨t, records, edges, ht, hselect, hedges, rfl, rfl⟩
  · rintro ⟨t, records, edges, ht, hselect, hedges, rfl, rfl⟩
    exact ⟨_, ⟨records, _, ⟨t, ht, hselect, rfl⟩, ⟨edges, hedges, rfl⟩, rfl⟩, rfl⟩

end Runs

variable {schema : SealedSchema} {key operands : Record} {scope scope' : Option (Predicate Value)}
  {c : Predicate Value}

/-- Where the keys have the same rows, those that are found are those that are listed. -/
theorem SameRows.rows_eq (same : SameRows schema p scope scope' key operands)
    (hc : ∀ t l, Table.Accepts t c l ↔ t.Accepts (Query.isAt operands) l) {t : Table}
    (columns : t.columns = (schema.table p).columns) {rows rows' : List Row}
    (hm : t.matching ((Query.isAt key).andAlso scope) = .ok rows)
    (hm' : t.matching (c.andAlso scope') = .ok rows')
    (readable : ∀ l ∈ rows, ∃ record, t.read l = .ok record)
    (placed : ∀ l ∈ rows', ∃ record text, t.read l = .ok record ∧
      Key.encode schema.codec p.keyColumns record = .ok text) : rows = rows' := by
  obtain ⟨q, hq, hrows⟩ := Table.matching_eq_ok.1 hm
  obtain ⟨q', hq', hrows'⟩ := Table.matching_eq_ok.1 hm'
  have accepts := Table.accepts_congr columns
  have within := Table.within_congr columns
  have read := Table.read_congr columns
  rw [← hrows, ← hrows']
  refine List.filter_congr fun l hl => Bool.eq_iff_iff.2 ?_
  rw [← Table.accepts_iff hq, ← Table.accepts_iff hq', Table.accepts_andAlso,
    Table.accepts_andAlso, hc]
  constructor
  · rintro ⟨hat, hwithin⟩
    obtain ⟨record, hrecord⟩ :=
      readable l ((Table.mem_matching hm).2 ⟨hl, Table.accepts_andAlso.2 ⟨hat, hwithin⟩⟩)
    rw [accepts, within] at *
    exact (same.listed (read ▸ hrecord) hwithin hat).symm
  · rintro ⟨hat, hwithin⟩
    obtain ⟨record, text, hrecord, cursor⟩ := placed l ((Table.mem_matching hm').2
      ⟨hl, Table.accepts_andAlso.2 ⟨(hc t l).2 hat, hwithin⟩⟩)
    rw [accepts, within] at *
    exact (same.found (read ▸ hrecord) hwithin cursor hat).symm

/-- Where the keys have the same rows, both fields find the same. -/
theorem agree_of_sameRows {values : List Value} (hkey : key = p.entity.primaryKey.zip values)
    (hlen : p.entity.primaryKey.length = values.length)
    (hc : ∀ t l, Table.Accepts t c l ↔ t.Accepts (Query.isAt operands) l)
    (same : SameRows schema p scope scope' key operands) {s : Store} (keeps : KeepsKeys schema p s) :
    Agree schema.codec s (.row p key scope) (.page p (c.andAlso scope') [] .all) := by
  intro n m found hfound n' m' listed hlisted
  obtain ⟨t, records, ht, hselect, rfl, -⟩ := run_row_eq_ok.1 hfound
  obtain ⟨t', records', edges, ht', hselect', hedges, rfl, -⟩ := run_all_eq_ok.1 hlisted
  cases ht.symm.trans ht'
  obtain ⟨hkeeps, distinct⟩ := keeps t ht
  have columns : t.columns = (schema.table p).columns :=
    hkeeps.columns.trans (Table.keeps_ofEntity _ _ []).columns.symm
  obtain ⟨rows, hm, -⟩ := Table.select_eq_ok.1 hselect
  obtain ⟨rows', hm', hread'⟩ := Table.select_eq_ok.1 hselect'
  have short : rows.length ≤ 1 := by
    obtain ⟨q, hq, hrows⟩ := Table.matching_eq_ok.1 hm
    rw [← hrows]
    exact Query.length_filter_isAt distinct (fun k hk => hkeeps.mem_key.1 hk) hlen hq fun r hr =>
      hkey ▸ (Table.accepts_andAlso.1 hr).1
  have hread : rows.mapM t.read = .ok records := (Query.select_short hm short).1 ▸ hselect
  have equal : rows = rows' := by
    refine same.rows_eq hc columns hm hm' (fun l hl => ?_) fun l hl => ?_
    · obtain ⟨record, -, hrecord⟩ := exists_of_mem_mapM hread hl
      exact ⟨record, hrecord⟩
    · obtain ⟨record, hin, hrecord⟩ :=
        exists_of_mem_mapM hread' ((t.sorted_perm [] rows').mem_iff.2 hl)
      obtain ⟨edge, -, hedge⟩ := exists_of_mem_mapM hedges hin
      obtain ⟨text, cursor, -⟩ := bind_eq_ok.1 hedge
      exact ⟨record, text, hrecord, cursor⟩
  subst equal
  cases hread.symm.trans ((Query.select_short hm' short).2 ▸ hselect')
  refine ⟨records.head?, _, rfl, rfl, ?_⟩
  have few : records.length ≤ 1 := (length_of_mapM hread).trans_le short
  show edges.map (·.node) = _
  rw [Edge.nodes_ofRecords hedges]
  match records with
  | [] | [_] => rfl

/-! ### Stores of a single row -/

/-- The store with one row of the entity and no others. -/
def single (schema : SealedSchema) (p : Projection) (l : Row) : Store :=
  ⟨[{ schema.table p with rows := [l] }], true, false, [], fun _ => true⟩

theorem table_single (schema : SealedSchema) (p : Projection) (l : Row) :
    (single schema p l).table p.name = .ok { schema.table p with rows := [l] } :=
  Store.table_eq_ok.2 ⟨⟨rfl, nofun⟩, List.find?_cons_of_pos (decide_eq_true rfl)⟩

theorem keepsKeys_single (schema : SealedSchema) (p : Projection) (l : Row) :
    KeepsKeys schema p (single schema p l) := by
  intro t ht
  rw [table_single] at ht
  cases ht
  exact ⟨Table.keeps_ofEntity _ _ _, List.pairwise_singleton _ _⟩

/-- What is selected of a single row is the row if the condition holds of it. -/
theorem select_single {l : Row} {record : Record} (hread : (schema.table p).read l = .ok record)
    {q : Predicate Cell} (hq : (schema.table p).bind c = .ok q) {records : List Record}
    (holds : records = if q.accepts l then [record] else []) :
    ({ schema.table p with rows := [l] } : Table).select c [] (some 1) 0 = .ok records ∧
      ({ schema.table p with rows := [l] } : Table).select c [] none 0 = .ok records := by
  have hm : ({ schema.table p with rows := [l] } : Table).matching c =
      .ok (if q.accepts l then [l] else []) :=
    Table.matching_eq_ok.2 ⟨q, hq, List.filter_singleton.trans (by cases q.accepts l <;> rfl)⟩
  have hrows : (if q.accepts l then [l] else []).mapM (schema.table p).read = .ok records := by
    rw [holds]
    split_ifs
    · rw [List.mapM_cons, hread]
      rfl
    · rfl
  rw [(Query.select_short hm (by split_ifs <;> simp)).1,
    (Query.select_short hm (by split_ifs <;> simp)).2]
  exact ⟨hrows, hrows⟩

theorem ofRow?_inj {r r' : Option Record} (h : Item.ofRow? r = .ofRow? r') : r = r' := by
  cases r <;> cases r' <;> cases h <;> rfl

/-- Where both fields find the same whatever is stored, the keys have the same rows. -/
theorem sameRows_of_agree (hc : ∀ t l, Table.Accepts t c l ↔ t.Accepts (Query.isAt operands) l)
    {q q' : Predicate Cell} (hq : (schema.table p).bind ((Query.isAt key).andAlso scope) = .ok q)
    (hq' : (schema.table p).bind (c.andAlso scope') = .ok q')
    (agree : ∀ s, KeepsKeys schema p s →
      Agree schema.codec s (.row p key scope) (.page p (c.andAlso scope') [] .all)) :
    SameRows schema p scope scope' key operands := by
  -- in the store of a single row, one field finds it and the other does not
  have both : ∀ {l record}, (schema.table p).read l = .ok record →
      (q'.accepts l → ∃ text, Key.encode schema.codec p.keyColumns record = .ok text) →
      (q.accepts l ↔ q'.accepts l) := by
    intro l record hread cursor
    have hrow : ((Reading.row p key scope).run schema.codec (single schema p l)).run 0 = .ok _ :=
      run_row_eq_ok.2 ⟨_, _, table_single schema p l, (select_single hread hq rfl).1, rfl, rfl⟩
    obtain ⟨edges, hedges⟩ : ∃ edges, Edge.ofRecords schema.codec p.keyColumns
        (if q'.accepts l then [record] else []) = .ok edges := by
      refine mapM_of_forall fun r hr => ?_
      split_ifs at hr with h
      · obtain ⟨text, htext⟩ := cursor h
        rw [List.mem_singleton.1 hr, htext]
        exact ⟨_, rfl⟩
      · cases hr
    have hpage := run_all_eq_ok (n := 0).2 ⟨_, _, edges, table_single schema p l,
      (select_single hread hq' rfl).2, hedges, rfl, rfl⟩
    obtain ⟨r, _, hr, hconnection, hnodes⟩ :=
      agree _ (keepsKeys_single schema p l) _ _ _ hrow _ _ _ hpage
    cases hconnection
    replace hnodes : edges.map (·.node) = r.toList := hnodes
    rw [Edge.nodes_ofRecords hedges] at hnodes
    rw [← ofRow?_inj hr] at hnodes
    cases h : q.accepts l <;> cases h' : q'.accepts l <;> rw [h, h'] at hnodes <;>
      first | exact Iff.rfl | cases hnodes
  constructor
  · intro l record hread within hat
    by_contra other
    have out : ¬q'.accepts l := fun h => by
      obtain ⟨hat', within'⟩ := Table.accepts_andAlso.1 ((Table.accepts_iff hq').2 h)
      exact other ⟨within', (hc _ l).1 hat'⟩
    exact out ((both hread fun h => absurd h out).1
      ((Table.accepts_iff hq).1 (Table.accepts_andAlso.2 ⟨hat, within⟩)))
  · intro l record hread within text cursor hat
    have listed := (Table.accepts_iff hq').1 (Table.accepts_andAlso.2 ⟨(hc _ l).2 hat, within⟩)
    have found := (both hread fun _ => ⟨text, cursor⟩).2 listed
    exact (Table.accepts_andAlso.1 ((Table.accepts_iff hq).2 found)).symm

/-! ## One key for both fields -/

/-- The field of the root takes the arguments and reads something, with values that the database
takes. -/
structure Accepts (env : Environment) (bindings : List (String × Value)) (p : Projection)
    (f : OutputField) (given : List (String × Literal)) (r : Reading) : Prop where
  reads : ∃ values, argumentValues env.schema.types bindings given f.arguments = .ok values ∧
    Reading.ofField env f ⟨values, none⟩ = .ok r
  bound : ∃ q, (env.schema.table p).bind r.condition = .ok q

/-- What clients send for the column is neither converted nor filtered by in a way of its own. -/
def Untouched (context : Context) (f : ColumnField) : Prop :=
  f.override.bind (·.input) = none ∧ context.filterOverrides.lookup f.path = none

section Agree

variable {b : Builder} (built : b.build = .ok env.schema)
include built

theorem part_eq_of_untouched (hp : p ∈ env.schema.projections) {f : ColumnField}
    (hf : f ∈ p.fields) (plain : Untouched env.schema.context f) {x y : String × Value}
    (hx : keyPart env bindings given f = some x)
    (hy : operandPart env bindings given f = some y) : x = y := by
  obtain ⟨hinput, hforced⟩ := plain
  obtain ⟨hcontext, -⟩ := Builder.roots_of_build built
  obtain ⟨-, c, -, hfield⟩ := Builder.exists_column built hp hf
  obtain ⟨rfl, -, hcolumn⟩ := Builder.columnField_eq_ok hfield
  obtain ⟨v, hv, hx⟩ := Option.bind_eq_some_iff.1 hx
  obtain ⟨w, hw, hx⟩ := Option.bind_eq_some_iff.1 hx
  obtain ⟨filter, hfilter, hy⟩ := Option.bind_eq_some_iff.1 hy
  obtain ⟨v', hv', hy⟩ := Option.bind_eq_some_iff.1 hy
  obtain ⟨w', hw', hy⟩ := Option.bind_eq_some_iff.1 hy
  cases hx
  cases hy
  rw [hcontext] at hforced hv
  rw [hfilter] at hcolumn
  rw [Builder.columnTypeRef_of_columnFilter hforced hcolumn] at hv
  obtain ⟨l, hl, hv⟩ := Option.bind_eq_some_iff.1 hv
  obtain ⟨l', hl', hv'⟩ := Option.bind_eq_some_iff.1 hv'
  cases hl.symm.trans hl'
  cases (ofLiteral?_of_nonNull hv).symm.trans hv'
  have decoded := (Filter.decode_eq_ok hinput).1 (eq_ok_of_toOption hw')
  cases (eq_ok_of_toOption hw).symm.trans decoded
  rfl

/-- A key of such columns is the same both ways. -/
theorem key_eq_of_untouched (hp : p ∈ env.schema.projections) (own : ∀ f ∈ fields, f ∈ p.fields)
    (plain : ∀ f ∈ fields, Untouched env.schema.context f) {key operands : Record}
    (hkey : fields.mapM (keyPart env bindings given) = some key)
    (hoperands : fields.mapM (operandPart env bindings given) = some operands) :
    key = operands := by
  have equal := forall₂_imp_mem (mapM_eq_some.1 hoperands)
    (S := fun f y => keyPart env bindings given f = some y) fun f hf y _ hy => by
      obtain ⟨x, -, hx⟩ := exists_of_forall₂ (mapM_eq_some.1 hkey) hf
      rwa [part_eq_of_untouched built hp (own f hf) (plain f hf) hx hy] at hx
  exact Option.some.inj (hkey.symm.trans (mapM_eq_some.2 equal))

/--
The row by key and the list of the rows at the key agree in every state of the database exactly if
the values that are sent stand for the same rows both ways, within the row scopes that the two fields
get; they do if no column of the key is converted or filtered by in a way of its own and the scopes
are one.
-/
theorem byKey_agrees_iff {label label' : String} {byKey list : OutputField}
    (hbyKey : env.schema.types.fieldOf? queryName label = some byKey)
    (reads : byKey.source = .byKey p)
    (hlist : env.schema.types.fieldOf? queryName label' = some list)
    (lists : list.source = .connection p)
    (filterable : ∀ f ∈ p.fields, p.entity.isKey f.column.name → Filter.IsFilterField p f)
    (all : PageRequest.default env.schema.context = .all)
    (names : (given.map (·.1)).Perm (byKey.arguments.map (·.name))) {env' : Environment}
    (sealed : env'.schema = env.schema) {row page : Reading}
    (found : Accepts env bindings p byKey given row)
    (listed : Accepts env' bindings p list [("filters", keyFilter given)] page) :
    ∃ fields key operands scope scope', keyFields? p = some fields ∧
      fields.mapM (keyPart env bindings given) = some key ∧
      fields.mapM (operandPart env bindings given) = some operands ∧
      env.scope p .read = .ok scope ∧ env'.scope p .read = .ok scope' ∧
      ((∀ s, KeepsKeys env.schema p s → Agree env.schema.codec s row page) ↔
        SameRows env.schema p scope scope' key operands) ∧
      (scope' = scope → (∀ f ∈ fields, Untouched env.schema.context f) →
        ∀ s, KeepsKeys env.schema p s → Agree env.schema.codec s row page) := by
  obtain ⟨⟨values, hvalues, hrow⟩, q, hq⟩ := found
  obtain ⟨⟨values', hvalues', hpage⟩, q', hq'⟩ := listed
  -- the fields are those that the entity has at the root
  rcases mem_queryFields_of_fieldOf? built hbyKey with rfl | ⟨e, hp, he⟩
  · cases reads
  obtain ⟨rfl, fields, hkey, distinct, arguments⟩ := byKey_of_mem he reads
  rcases mem_queryFields_of_fieldOf? built hlist with rfl | ⟨e', -, he'⟩
  · cases lists
  obtain ⟨rfl, arguments'⟩ := list_of_mem he' lists
  obtain ⟨-, shows⟩ := Builder.shows_entity built hp
  obtain ⟨columns, -⟩ := names_of_keyFields shows hkey
  have inKey : ∀ f ∈ fields, f ∈ e'.fields ∧ f.column.name ∈ e'.entity.primaryKey := fun f hf => by
    obtain ⟨k, hk, hmem, rfl⟩ := exists_of_forall₂ columns.flip hf
    exact ⟨hmem, hk⟩
  have own : ∀ f ∈ fields, Filter.IsFilterField e' f := fun f hf =>
    filterable f (inKey f hf).1 (List.contains_iff_mem.2 (inKey f hf).2)
  rw [arguments] at hvalues names
  rw [arguments'] at hvalues'
  rw [List.map_map] at names
  unfold Reading.ofField at hrow hpage
  rw [reads] at hrow
  rw [lists] at hpage
  -- what they read
  obtain ⟨key, scope, hscope, hparts, rfl⟩ :=
    key_of_arguments shows (fun f hf => (inKey f hf).1) hvalues hrow
  have present := isAbsent_of_arguments distinct names hvalues
  obtain ⟨v, c, scope', hv, hscope', hc, rfl⟩ :=
    page_of_filter (sealed.symm ▸ all) rfl hvalues' hpage
  rw [sealed] at hv hc hq'
  obtain ⟨arranged, rfl, asks, asked⟩ := asks_of_keyFilter built hp own names present hv
  obtain ⟨operands, hoperands, haccepts⟩ := compile_of_asks own
    (fun f hf g hg hname => shows.eq_of_name (inKey f hf).1 (inKey g hg).1 hname) asks asked hc
  have zipped : key = e'.entity.primaryKey.zip (key.map (·.2)) :=
    List.zip_of_prod (names_of_keyParts columns hparts) rfl
  have length : e'.entity.primaryKey.length = (key.map (·.2)).length := by
    rw [← names_of_keyParts columns hparts, List.length_map, List.length_map]
  have agree : SameRows env.schema e' scope scope' key operands → ∀ s, KeepsKeys env.schema e' s →
      Agree env.schema.codec s (.row e' key scope) (.page e' (c.andAlso scope') [] .all) :=
    fun same _ keeps => agree_of_sameRows zipped length haccepts same keeps
  refine ⟨fields, key, operands, scope, scope', hkey, hparts, hoperands, hscope, hscope',
    ⟨sameRows_of_agree haccepts hq hq', agree⟩, fun one plain => agree (one ▸ ?_)⟩
  exact key_eq_of_untouched built hp (fun f hf => (inKey f hf).1) plain hparts hoperands ▸
    sameRows_self key

end Agree

/-! ## Items by their codes -/

section Codes

open Sample.Codes

variable {convert : Option (Value → Except Fault Value)} {schema : SealedSchema}

theorem make_codes (convert : Option (Value → Except Fault Value)) :
    Projection.make (context convert) entity = .ok (projection convert) := by
  have names : (context none).typeName "item" = "Item" ∧ (context none).fieldName "Item" = "item" ∧
      (context none).fieldName "code" = "code" := by
    decide +kernel
  obtain ⟨type, query, code⟩ := names
  have fields : entity.visibleColumns.mapM (Projection.columnField (context convert) "Item") =
      .ok (projection convert).fields := by
    refine mapM_eq_ok.2 (.cons ?_ .nil)
    unfold Projection.columnField
    rw [show (context convert).fieldName (Sample.column "code" (.plain .string)).name = "code"
      from code]
    rfl
  have distinct : Projection.repeated ["code"] = [] := by decide +kernel
  rw [Projection.make_eq (show (context convert).typeName entity.name = "Item" from type) fields
    distinct, show (context convert).fieldName "Item" = "item" from query]
  rfl

theorem projections_codes (built : (builder convert).build = .ok schema) :
    schema.projections = [projection convert] := by
  obtain ⟨-, -, projections, -⟩ := Builder.build_eq_ok built
  have own : (builder convert).entities.mapM (Builder.project (builder convert).context) =
      .ok [projection convert] :=
    mapM_eq_ok.2 (.cons (Builder.project_eq rfl (make_codes convert)) .nil)
  exact Except.ok.inj (projections.symm.trans own)

/-- The field that reads an item by its code. -/
def itemByCode (convert : Option (Value → Except Fault Value)) : OutputField :=
  ⟨"itemByPk", [⟨"code", .nonNull (.named "String")⟩], .named "Item", .byKey (projection convert)⟩

/-- The field that lists items. -/
def items (convert : Option (Value → Except Fault Value)) : OutputField :=
  ⟨"item", connectionArguments (projection convert), required "ItemConnection",
    .connection (projection convert)⟩

theorem fieldOf?_codes (built : (builder convert).build = .ok schema) :
    schema.types.fieldOf? queryName "itemByPk" = some (itemByCode convert) ∧
      schema.types.fieldOf? queryName "item" = some (items convert) := by
  obtain ⟨-, hquery, -⟩ := Builder.roots_of_build built
  rw [projections_codes built] at hquery
  have roots : Builder.queryRoot (builder convert).context [projection convert] =
      [items convert, itemByCode convert] := by
    with_unfolding_all rfl
  have fields : schema.types.objectFields? queryName = some [items convert, itemByCode convert] :=
    congrArg some (hquery.trans roots)
  unfold TypeSystem.fieldOf?
  rw [fields]
  exact ⟨rfl, rfl⟩

/-- The code that is asked for. -/
def asked (text : String) : List (String × Literal) := [("code", .string text)]

/-- What the filter for a code is coerced to. -/
def filterFor (text : String) : Value := Filter.single "code" Operator.eq.name (.text text)

variable {text value : String}

theorem isFilterField_code : Filter.IsFilterField (projection convert) (code convert) :=
  ⟨(by decide : "code" ≠ "and"), (by decide : "code" ≠ "or"), rfl⟩

theorem accepts_itemByCode (built : (builder convert).build = .ok schema) (text : String) :
    Accepts ⟨schema, {}⟩ [] (projection convert) (itemByCode convert) (asked text)
      (.row (projection convert) [("code", .text text)] none) := by
  obtain ⟨codec, -⟩ := Builder.build_eq_ok built
  obtain ⟨hcontext, -⟩ := Builder.roots_of_build built
  obtain ⟨context, projections, _, types⟩ := schema
  cases codec
  cases hcontext
  exact ⟨⟨[("code", .text text)], rfl, rfl⟩, _, rfl⟩

theorem ofLiteral?_filterFor (built : (builder convert).build = .ok schema) :
    ofLiteral? schema.types [] (keyFilter (asked text)) (.named "ItemFilterInput") =
      some (filterFor text) := by
  have known : projection convert ∈ schema.projections := by simp [projections_codes built]
  have input : schema.types.inputFields? "ItemFilterInput" = some (Builder.filterInputs _) :=
    Builder.inputFields?_filter built known
  have operators : schema.types.inputFields? "StringFilterInput" = some (operatorFields _ _) :=
    Builder.inputFields?_family built .string
  have equality : ofLiteral? schema.types [] (.object [(Operator.eq.name, .string text)])
      (.named "StringFilterInput") = some (.object [(Operator.eq.name, .text text)]) := by
    unfold ofLiteral?
    dsimp only [TypeRef.base]
    rw [operators]
    rfl
  have written : ofWritten? schema.types [] [("code", .object [(Operator.eq.name, .string text)])]
      (Builder.filterInputs (projection convert)) =
        some [("code", .object [(Operator.eq.name, .text text)])] := by
    unfold ofWritten?
    rw [show typeOf? (Builder.filterInputs (projection convert)) "code" = _ from
      isFilterField_code.typeOf? rfl]
    show (ofLiteral? _ _ _ (.named "StringFilterInput") >>= _) = _
    rw [equality]
    rfl
  unfold keyFilter ofLiteral?
  dsimp only [TypeRef.base]
  rw [input]
  show (ofWritten? _ _ [("code", _)] _ >>= _) = _
  rw [written]
  rfl

theorem accepts_items (built : (builder convert).build = .ok schema)
    (decoded : Filter.decode ⟨[], false⟩ (code convert)
      ((code convert).path ++ "." ++ Operator.eq.name) (.text text) = .ok (.text value)) :
    Accepts ⟨schema, {}⟩ [] (projection convert) (items convert)
      [("filters", keyFilter (asked text))]
      (.page (projection convert) (Query.isAt [("code", .text value)]) [] .all) := by
  have compiled : Filter.compile ⟨[], false⟩ (projection convert) (filterFor text) =
      .ok (Query.isAt [("code", .text value)]) := by
    unfold filterFor
    rw [show "code" = (code convert).name from rfl,
      Filter.compile_single isFilterField_code rfl (Filter.operatorOf_of_mem (eq_mem_operators _))]
    unfold Filter.columnTest
    dsimp only
    rw [decoded]
    rfl
  have sent : argumentValue schema.types [] ⟨"filters", .named "ItemFilterInput"⟩
      (some (keyFilter (asked text))) = .ok (some (filterFor text)) := by
    unfold argumentValue
    rw [Option.filter_some_pos rfl]
    dsimp only
    rw [ofLiteral?_filterFor built]
  refine ⟨⟨[("filters", filterFor text)], ?_, ?_⟩, ?_⟩
  · show (argumentValue schema.types [] ⟨"filters", .named "ItemFilterInput"⟩
      (some (keyFilter (asked text))) >>= _) = _
    rw [sent]
    rfl
  all_goals
    obtain ⟨codec, -⟩ := Builder.build_eq_ok built
    obtain ⟨hcontext, -⟩ := Builder.roots_of_build built
    obtain ⟨context, projections, _, types⟩ := schema
    cases codec
    cases hcontext
  · show (Filter.compile ⟨[], false⟩ (projection convert) (filterFor text) >>= _) = _
    rw [compiled]
    rfl
  · exact ⟨_, rfl⟩

theorem keepsKeys_codes (built : (builder convert).build = .ok schema) (text : String) :
    KeepsKeys schema (projection convert) (store text) := by
  intro t ht
  obtain ⟨codec, -⟩ := Builder.build_eq_ok built
  cases ht
  rw [codec]
  exact ⟨Table.keeps_ofEntity _ _ _, List.pairwise_singleton _ _⟩

/-- Codes that are taken as they are find the same both ways. -/
theorem byKey_agrees_iff_codes : ∃ schema row page, (builder none).build = .ok schema ∧
    Accepts ⟨schema, {}⟩ [] (projection none) (itemByCode none) (asked "a") row ∧
    Accepts ⟨schema, {}⟩ [] (projection none) (items none)
      [("filters", keyFilter (asked "a"))] page ∧
    KeepsKeys schema (projection none) (store "a") ∧
    Agree schema.codec (store "a") row page := by
  obtain ⟨schema, built⟩ : ∃ schema, (builder none).build = .ok schema :=
    exists_of_isOk (by decide +kernel)
  obtain ⟨hcontext, -⟩ := Builder.roots_of_build built
  obtain ⟨byKey, list⟩ := fieldOf?_codes built
  have found := accepts_itemByCode built "a"
  have listed : Accepts ⟨schema, {}⟩ [] (projection none) (items none)
      [("filters", keyFilter (asked "a"))] _ := accepts_items built rfl
  have filterable : ∀ f ∈ (projection none).fields, (projection none).entity.isKey f.column.name →
      Filter.IsFilterField (projection none) f :=
    List.forall_mem_singleton.2 fun _ => isFilterField_code
  have all : PageRequest.default schema.context = .all := by
    rw [hcontext]
    rfl
  obtain ⟨fields, key, operands, scope, _, hfields, -, -, hscope, hscope', -, plain⟩ :=
    byKey_agrees_iff built byKey rfl list rfl filterable all (.refl _) rfl found listed
  have keeps := keepsKeys_codes built "a"
  cases hfields
  refine ⟨schema, _, _, built, found, listed, keeps, plain ?_ ?_ _ keeps⟩
  · exact Except.ok.inj (hscope'.symm.trans hscope)
  refine List.forall_mem_singleton.2 ⟨rfl, ?_⟩
  show schema.context.filterOverrides.lookup _ = none
  rw [hcontext]
  rfl

/-- A code that a filter converts to capitals is found in small letters alone. -/
theorem converted_code_not_listed : ∃ schema row page,
    (builder (some inCapitals)).build = .ok schema ∧
    PageRequest.default schema.context = .all ∧
    Accepts ⟨schema, {}⟩ [] (projection (some inCapitals)) (itemByCode (some inCapitals))
      (asked "a") row ∧
    Accepts ⟨schema, {}⟩ [] (projection (some inCapitals)) (items (some inCapitals))
      [("filters", keyFilter (asked "a"))] page ∧
    KeepsKeys schema (projection (some inCapitals)) (store "a") ∧
    (row.run schema.codec (store "a")).run 0 = .ok (.row [("code", .text "a")], 1) ∧
    (page.run schema.codec (store "a")).run 0 =
      .ok (.connection ⟨[], false, false, some (.ofAll 0)⟩, 1) ∧
    ¬Agree schema.codec (store "a") row page := by
  obtain ⟨schema, built⟩ : ∃ schema, (builder (some inCapitals)).build = .ok schema :=
    exists_of_isOk (by decide +kernel)
  obtain ⟨hcontext, -⟩ := Builder.roots_of_build built
  have capital : Text.upperCase "a" = "A" := by decide +kernel
  have decoded : Filter.decode ⟨[], false⟩ (code (some inCapitals))
      ((code (some inCapitals)).path ++ "." ++ Operator.eq.name) (.text "a") =
        .ok (.text "A") := congrArg (fun s => Except.ok (Value.text s)) capital
  have one : (table "a").matching (Query.isAt [("code", .text "a")]) =
      .ok [[("code", .text "a")]] := rfl
  have other : (table "a").matching (Query.isAt [("code", .text "A")]) = .ok [] := rfl
  have row : ((Reading.row (projection (some inCapitals)) [("code", .text "a")] none).run
      schema.codec (store "a")).run 0 = .ok (.row [("code", .text "a")], 1) :=
    run_row_eq_ok.2 ⟨_, _, rfl, (Query.select_short one (by simp)).1, rfl, rfl⟩
  have page : ((Reading.page (projection (some inCapitals)) (Query.isAt [("code", .text "A")]) []
      .all).run schema.codec (store "a")).run 0 =
        .ok (.connection ⟨[], false, false, some (.ofAll 0)⟩, 1) :=
    run_all_eq_ok.2 ⟨_, _, _, rfl, (Query.select_short other (by simp)).2, rfl, rfl, rfl⟩
  refine ⟨schema, _, _, built, hcontext ▸ rfl, accepts_itemByCode built "a",
    accepts_items built decoded, keepsKeys_codes built "a", row, page, fun agree => ?_⟩
  obtain ⟨r, c, hr, hc, hnodes⟩ := agree _ _ _ row _ _ _ page
  cases hc
  cases r with
  | none => cases hr
  | some => cases hnodes

end Codes

end Answer

end TableGraph
