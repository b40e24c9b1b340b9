import TableGraph.Answer.Reading
import TableGraph.Proofs.Roots
import TableGraph.Proofs.Upheld

/-!
# Plans for a schema

The types that show rows of an entity have fields for its visible columns and for its relations, and
lead to other such types (`SealedSchema.Shown.field`).  So what is known of the columns and the
relations of each entity is known of all fields of a plan, however deep its selections are
(`along_of_planFields`), and of what is planned below the fields of the root (`along_below_root`),
which read a page or a row of an entity (`IsRoot`).
-/

namespace TableGraph

open TableGraph.Graph

/-! ## Objects by name -/

namespace Graph.TypeSystem

variable {s : TypeSystem} {t : NamedType}

theorem objectFields?_builtin :
    ∀ scalar ∈ builtinScalars, s.objectFields? scalar.1 = none := by
  unfold builtinScalars
  simp only [List.forall_mem_cons]
  exact ⟨rfl, rfl, rfl, rfl, nofun⟩

/-- What is found under the name of a type is the type. -/
theorem body_of_objectFields? (hs : s.check = .ok ()) (ht : t ∈ s.types)
    {fields : List OutputField} (h : s.objectFields? t.name = some fields) :
    t.body = .object fields := by
  by_cases hbuiltin : ∀ scalar ∈ builtinScalars, t.name ≠ scalar.1
  · by_cases hroot : t.name = mutationName
    · -- the root of mutations would have the same name
      have distinct := check_eq_ok hs
      unfold objectFields? body? at h
      rw [List.lookup_eq_none_iff.2 fun p hp => by simpa using hbuiltin p hp, hroot] at h
      unfold allTypes at distinct
      cases hmutation : s.mutation with
      | none =>
        rw [hmutation] at h
        cases h
      | some roots =>
        rw [hmutation, List.map_append, List.map_append, List.append_assoc] at distinct
        have apart := (List.nodup_append.1 distinct).2.2 t.name (List.mem_map_of_mem ht)
          mutationName (List.mem_append_right _ List.mem_cons_self)
        exact absurd hroot apart
    · have found := body?_of_mem hs ht hbuiltin hroot
      unfold objectFields? at h
      rw [found] at h
      cases hbody : t.body <;> rw [hbody] at h <;> cases h
      rfl
  · push Not at hbuiltin
    obtain ⟨scalar, hscalar, hname⟩ := hbuiltin
    rw [hname, objectFields?_builtin scalar hscalar] at h
    cases h

end Graph.TypeSystem

namespace Builder

variable {b : Builder} {schema : SealedSchema} {types types' : List NamedType} {p : Projection}

theorem objectTypes_of_addEntity {projections : List Projection}
    (h : b.addEntity projections types p = .ok types') :
    ∀ t ∈ objectTypes b.context projections p, t ∈ types' := by
  unfold addEntity at h
  obtain ⟨_, -, h⟩ := bind_eq_ok.1 h
  obtain ⟨types₁, h₁, h⟩ := bind_eq_ok.1 h
  obtain ⟨types₂, h₂, h⟩ := bind_eq_ok.1 h
  obtain ⟨types₃, h₃, h⟩ := bind_eq_ok.1 h
  have own := foldlM_forall (Q := fun t types => t ∈ types) (fun _ _ _ => mem_addType)
    (fun _ _ _ _ h ht => subset_addType h ht) h₁
  intro t ht
  have before := subset_addType h₃ (subset_addType h₂ (own t ht))
  split_ifs at h
  · obtain ⟨types₄, h₄, h⟩ := bind_eq_ok.1 h
    exact subset_addType h (subset_addType h₄ before)
  · cases h
    exact before

/-- The objects of every entity are types of the schema. -/
theorem mem_objectTypes (built : b.build = .ok schema) (hp : p ∈ schema.projections)
    {t : NamedType} (ht : t ∈ objectTypes b.context schema.projections p) :
    t ∈ schema.types.types := by
  obtain ⟨-, -, -, htypes, -⟩ := build_eq_ok built
  unfold buildTypes at htypes
  obtain ⟨types₁, -, htypes⟩ := bind_eq_ok.1 htypes
  obtain ⟨types₂, -, htypes⟩ := bind_eq_ok.1 htypes
  obtain ⟨types₃, -, htypes⟩ := bind_eq_ok.1 htypes
  exact foldlM_forall (Q := fun p types => ∀ t ∈ objectTypes b.context schema.projections p,
      t ∈ types) (fun _ _ _ => objectTypes_of_addEntity)
    (fun _ _ _ _ h hall t ht => (addEntity_eq_ok h).1 (hall t ht)) htypes p hp t ht

end Builder

/-! ## Types that show rows -/

namespace SealedSchema

variable {schema : SealedSchema} {name : String}

/-- The type shows rows of the entity, or nothing of them. -/
inductive Shown (schema : SealedSchema) (name : String) : String → Prop
  | row {p : Projection} (known : p ∈ schema.projections) (named : p.name = name) :
    Shown schema name p.typeName
  | edge {p : Projection} (known : p ∈ schema.projections) (named : p.name = name) :
    Shown schema name p.edgeTypeName
  | page {p : Projection} (known : p ∈ schema.projections) (named : p.name = name) :
    Shown schema name p.connectionTypeName
  | pageInfo : Shown schema name pageInfoName
  | pageCount : Shown schema name pageCountName
  | leaf {type : String} (plain : schema.types.objectFields? type = none) :
    Shown schema name type

section Fields

variable {b : Builder} {p : Projection} {f : OutputField} {type label : String}

theorem mem_of_fieldOf? {s : TypeSystem} {fields : List OutputField}
    (hfields : ∀ found, s.objectFields? type = some found → found = fields)
    (h : s.fieldOf? type label = some f) : f ∈ TypeSystem.typeNameField :: fields := by
  unfold TypeSystem.fieldOf? at h
  split at h
  next => cases h
  next found hfound =>
    obtain rfl := hfields found hfound
    split_ifs at h
    · cases h
      exact List.mem_cons_self
    · exact List.mem_cons_of_mem _ (List.mem_of_find?_eq_some h)

/-- The fields of an object are those of its type. -/
theorem mem_of_object (built : b.build = .ok schema) {t : NamedType} (ht : t ∈ schema.types.types)
    {fields : List OutputField} (hbody : t.body = .object fields)
    (h : schema.types.fieldOf? t.name label = some f) : f ∈ TypeSystem.typeNameField :: fields := by
  obtain ⟨-, -, -, -, hcheck⟩ := Builder.build_eq_ok built
  refine mem_of_fieldOf? (fun found hfound => ?_) h
  have body := TypeSystem.body_of_objectFields? hcheck ht hfound
  rw [hbody] at body
  cases body
  rfl

theorem shown_builtin (kind : ScalarKind) (h : (type, kind) ∈ builtinScalars) :
    schema.Shown name type := .leaf (TypeSystem.objectFields?_builtin (type, kind) h)

theorem mem_sharedTypes (built : b.build = .ok schema) {t : NamedType} (ht : t ∈ pageTypes) :
    t ∈ schema.types.types := by
  obtain ⟨-, -, -, htypes, -⟩ := Builder.build_eq_ok built
  exact (Builder.buildTypes_eq_ok htypes).2.1 t (List.mem_append_right _ ht)

/-- The field shows rows of the entity, if any: columns and relations are its own. -/
def Owns (schema : SealedSchema) (name : String) (f : OutputField) : Prop :=
  match f.source with
  | .column c => ∃ p ∈ schema.projections, p.name = name ∧ c ∈ p.fields
  | .relation r target =>
    target = r.relation.target ∧ ∃ p ∈ schema.projections, p.name = name ∧ r ∈ p.relations
  | _ => True

theorem owns_typeNameField : schema.Owns name TypeSystem.typeNameField ∧
    ∀ target, TypeSystem.typeNameField.below (some name) = some target →
      schema.Shown target TypeSystem.typeNameField.type.base :=
  ⟨trivial, nofun⟩

/-- The fields of relations lead to types that show rows of the target. -/
theorem owns_relationOutputs (hp : p ∈ schema.projections)
    (hf : f ∈ relationOutputs schema.projections p) : schema.Owns p.name f ∧
      ∀ target, f.below (some p.name) = some target → schema.Shown target f.type.base := by
  obtain ⟨r, hr, hrelation⟩ := List.mem_filterMap.1 hf
  obtain ⟨t, ht, rfl⟩ := Option.map_eq_some_iff.1 hrelation
  have known := List.mem_of_find?_eq_some ht
  have named : t.name = r.relation.target := by simpa using List.find?_some ht
  unfold relationOutput
  split_ifs
  · refine ⟨⟨named, p, hp, rfl, hr⟩, fun target htarget => ?_⟩
    cases htarget
    exact .page known rfl
  · refine ⟨⟨named, p, hp, rfl, hr⟩, fun target htarget => ?_⟩
    cases htarget
    unfold plainField maybeNonNull
    dsimp only
    split_ifs <;> exact .row known rfl

/-- Below a type that shows rows, fields are of the entity and lead to types that show rows. -/
theorem Shown.field (built : b.build = .ok schema) (shown : schema.Shown name type)
    (h : schema.types.fieldOf? type label = some f) : schema.Owns name f ∧
      ∀ target, f.below (some name) = some target → schema.Shown target f.type.base := by
  cases shown with
  | leaf plain =>
    unfold TypeSystem.fieldOf? at h
    rw [plain] at h
    cases h
  | @row p known named =>
    subst named
    have mem := mem_of_object built (Builder.mem_objectTypes built known List.mem_cons_self) rfl h
    rcases List.mem_cons.1 mem with rfl | mem
    · exact owns_typeNameField
    rcases List.mem_append.1 mem with mem | mem
    · obtain ⟨c, hc, rfl⟩ := List.mem_map.1 mem
      exact ⟨⟨p, known, rfl, hc⟩, nofun⟩
    · exact owns_relationOutputs known mem
  | edge known named =>
    have mem := mem_of_object built (Builder.mem_objectTypes built known
      (List.mem_cons_of_mem _ (List.mem_cons_of_mem _ List.mem_cons_self))) rfl h
    simp only [List.mem_cons, List.not_mem_nil, or_false] at mem
    rcases mem with rfl | rfl | rfl
    · exact owns_typeNameField
    · exact ⟨trivial, fun _ _ => shown_builtin .string (by decide)⟩
    · exact ⟨trivial, fun _ hbelow => .row known (named.trans (Option.some.inj hbelow))⟩
  | page known named =>
    have mem := mem_of_object built (Builder.mem_objectTypes built known (List.mem_cons_of_mem _
      (List.mem_cons_of_mem _ (List.mem_cons_of_mem _ List.mem_cons_self)))) rfl h
    simp only [List.mem_cons, List.not_mem_nil, or_false] at mem
    rcases mem with rfl | rfl | rfl | rfl | rfl
    · exact owns_typeNameField
    · exact ⟨trivial, fun _ hbelow => .edge known (named.trans (Option.some.inj hbelow))⟩
    · exact ⟨trivial, fun _ hbelow => .row known (named.trans (Option.some.inj hbelow))⟩
    · exact ⟨trivial, fun _ _ => .pageInfo⟩
    · exact ⟨trivial, fun _ _ => .pageCount⟩
  | pageInfo =>
    have mem := mem_of_object built (mem_sharedTypes built List.mem_cons_self) rfl h
    simp only [List.mem_cons, List.not_mem_nil, or_false] at mem
    rcases mem with rfl | rfl | rfl | rfl | rfl
    · exact owns_typeNameField
    · exact ⟨trivial, fun _ _ => shown_builtin .boolean (by decide)⟩
    · exact ⟨trivial, fun _ _ => shown_builtin .boolean (by decide)⟩
    · exact ⟨trivial, fun _ _ => shown_builtin .string (by decide)⟩
    · exact ⟨trivial, fun _ _ => shown_builtin .string (by decide)⟩
  | pageCount =>
    have mem := mem_of_object built
      (mem_sharedTypes built (List.mem_cons_of_mem _ List.mem_cons_self)) rfl h
    simp only [List.mem_cons, List.not_mem_nil, or_false] at mem
    rcases mem with rfl | rfl | rfl | rfl | rfl
    · exact owns_typeNameField
    all_goals exact ⟨trivial, fun _ _ => shown_builtin .int (by decide)⟩

end Fields

end SealedSchema

/-! ## Documents of one operation -/

namespace Graph

namespace Selection

mutual

theorem expand_eq {fragments : List FragmentDefinition} (selection : Selection)
    (h : selection.spreads = []) : expand fragments selection = selection := by
  cases selection with
  | field label name arguments directives selections =>
    unfold expand
    rw [expandAll_eq selections h]
  | inline on directives selections =>
    unfold expand
    rw [expandAll_eq selections h]
  | spread => cases h
termination_by structural selection

/-- Selections that use no fragments stay as they are. -/
theorem expandAll_eq {fragments : List FragmentDefinition} (selections : List Selection)
    (h : spreadsOfAll selections = []) : expandAll fragments selections = selections := by
  cases selections with
  | nil =>
    unfold expandAll
    rfl
  | cons selection selections =>
    obtain ⟨first, rest⟩ := List.append_eq_nil_iff.1 h
    unfold expandAll
    rw [expand_eq selection first, expandAll_eq selections rest]
termination_by structural selections

end

end Selection

namespace Document

variable {o : OperationDefinition} (plain : Selection.spreadsOfAll o.selections = [])
include plain

theorem expanded_one : Document.expanded [.operation o] o = o.selections :=
  Selection.expandAll_eq _ plain

theorem plan?_one (s : TypeSystem) (sent : List (String × Value)) :
    Document.plan? [.operation o] s none sent = (do
      let used ← variableValues s sent o.parameters
      let fields ← (planFields s ⟨used, sent⟩ (Selection.nestingOfAll o.selections) o.root
        o.selections).toOption
      some ⟨o.kind, o.root, fields⟩) := by
  rw [← expanded_one plain]
  rfl

omit plain in
theorem isValid_one (s : TypeSystem) : Document.isValid [.operation o] s =
    (Document.operationsDiffer [.operation o] && true && true &&
      (Document.operationFits [.operation o] s o && true)) := rfl

end Document

end Graph

/-! ## Plans -/

namespace Answer

variable {b : Builder} {schema : SealedSchema} {env : Environment}

/-- A planned field is one of the type, and what is planned below it is planned for its type. -/
theorem exists_of_planFields {s : TypeSystem} {bindings : Variables} {depth : Nat} {type : String}
    {selections : List Selection} {ps : List Planned}
    (h : planFields s bindings depth type selections = .ok ps) {p : Planned} (hp : p ∈ ps) :
    ∃ label inner, s.fieldOf? type label = some p.field ∧ ∃ n < depth, p.selections = [] ∨
      planFields s bindings n p.field.type.base inner = .ok p.selections := by
  cases depth with
  | zero =>
    cases h
    cases hp
  | succ depth =>
    obtain ⟨fields, -, h⟩ := bind_eq_ok.1 h
    cases h
    obtain ⟨⟨key, shapes⟩, -, hplanned⟩ := List.mem_filterMap.1 hp
    cases shapes with
    | nil => cases hplanned
    | cons shape shapes =>
      obtain ⟨f, hf, rfl⟩ := Option.map_eq_some_iff.1 hplanned
      refine ⟨shape.name, (shape :: shapes).flatMap (·.selections), hf, depth,
        Nat.lt_succ_self depth, ?_⟩
      dsimp only
      cases planFields s bindings depth f.type.base
          ((shape :: shapes).flatMap (·.selections)) with
      | error e => exact .inl rfl
      | ok ps => exact .inr rfl

/-- What is known of fields below types that show rows of an entity is known of all fields of a plan
for such a type; below other fields there are no rows. -/
theorem along_of_planFields (built : b.build = .ok schema) {F : Option String → OutputField → Prop}
    (none : ∀ f, F none f) (own : ∀ name f, schema.Owns name f → F (some name) f)
    {bindings : Variables} {depth : Nat} {type : String} {selections : List Selection}
    {ps : List Planned} (h : planFields schema.types bindings depth type selections = .ok ps)
    {rows : Option String} (shown : ∀ name, rows = some name → schema.Shown name type) :
    Planned.AllAlong F ps rows := by
  induction depth using Nat.strong_induction_on generalizing type selections ps rows with
  | _ depth ih =>
    refine allAlong_iff.2 fun p hp => ?_
    obtain ⟨label, inner, hfield, n, hn, hinner⟩ := exists_of_planFields h hp
    have both : F rows p.field ∧ ∀ target, p.field.below rows = some target →
        schema.Shown target p.field.type.base := by
      cases rows with
      | none =>
        refine ⟨none _, fun target hbelow => ?_⟩
        unfold OutputField.below at hbelow
        split at hbelow <;> cases hbelow
      | some name =>
        obtain ⟨owns, below⟩ := (shown name rfl).field built hfield
        exact ⟨own name _ owns, below⟩
    obtain ⟨key, field, arguments, written, refusal, planned⟩ := p
    refine ⟨both.1, ?_⟩
    rcases hinner with rfl | hinner
    · trivial
    · exact ih n hn hinner both.2

/-! ## Fields of the root -/

/-- The entity whose rows a field of the root finds. -/
def rootRows (f : OutputField) : Option String :=
  match f.source with
  | .connection p | .byKey p => some p.name
  | _ => none

/-- The field of the root tells the type, or it reads a page or a row of an entity. -/
inductive IsRoot (schema : SealedSchema) : OutputField → Prop
  | typeName : IsRoot schema TypeSystem.typeNameField
  | page {f : OutputField} {p : Projection} (known : p ∈ schema.projections)
    (source : f.source = .connection p) (base : f.type.base = p.connectionTypeName) :
    IsRoot schema f
  | row {f : OutputField} {p : Projection} (known : p ∈ schema.projections)
    (source : f.source = .byKey p) (base : f.type.base = p.typeName) : IsRoot schema f

theorem isRoot_of_mem {context : Context} {p : Projection} (hp : p ∈ schema.projections)
    {f : OutputField} (hf : f ∈ queryFields context p) : IsRoot schema f := by
  have list : ∀ {f : OutputField}, f ∈ [(⟨p.queryField, connectionArguments p,
      required p.connectionTypeName, .connection p⟩ : OutputField)] → IsRoot schema f := by
    intro f hf
    rw [List.mem_singleton.1 hf]
    exact .page hp rfl rfl
  unfold queryFields at hf
  cases hkey : keyFields? p with
  | none =>
    rw [hkey] at hf
    exact list hf
  | some fields =>
    rw [hkey] at hf
    dsimp only at hf
    split_ifs at hf
    · rcases List.mem_cons.1 hf with rfl | hf
      · exact .page hp rfl rfl
      · rw [List.mem_singleton.1 hf]
        exact .row hp rfl rfl
    · exact list hf

/-- What is found at the root of queries tells the type, or it is a field of some entity. -/
theorem mem_queryFields_of_fieldOf? (built : b.build = .ok schema) {label : String}
    {f : OutputField} (h : schema.types.fieldOf? queryName label = some f) :
    f = TypeSystem.typeNameField ∨
      ∃ p ∈ schema.projections, f ∈ queryFields schema.context p := by
  obtain ⟨hcontext, hquery, -⟩ := Builder.roots_of_build built
  have query : ∀ found, schema.types.objectFields? queryName = some found →
      found = schema.types.query := fun found hfound => by
    cases hfound
    rfl
  rcases List.mem_cons.1 (SealedSchema.mem_of_fieldOf? query h) with rfl | mem
  · exact .inl rfl
  · rw [hquery, ← hcontext] at mem
    rcases mem_foldl_setOutput mem with mem | mem
    · cases mem
    · exact .inr (List.mem_flatMap.1 mem)

/-- What is found at the root of queries reads an entity or tells the type. -/
theorem isRoot_of_fieldOf? (built : b.build = .ok schema) {label : String} {f : OutputField}
    (h : schema.types.fieldOf? queryName label = some f) : IsRoot schema f := by
  rcases mem_queryFields_of_fieldOf? built h with rfl | ⟨p, hp, hf⟩
  · exact .typeName
  · exact isRoot_of_mem hp hf

theorem IsRoot.shown {f : OutputField} (root : IsRoot schema f) {name : String}
    (h : rootRows f = some name) : schema.Shown name f.type.base := by
  unfold rootRows at h
  cases root with
  | typeName => cases h
  | page known source base =>
    rw [source] at h
    rw [base]
    exact .page known (Option.some.inj h)
  | row known source base =>
    rw [source] at h
    rw [base]
    exact .row known (Option.some.inj h)

/-- What is known of the columns and relations of entities is known below the root of queries. -/
theorem along_below_root (built : b.build = .ok schema) {F : Option String → OutputField → Prop}
    (none : ∀ f, F none f) (own : ∀ name f, schema.Owns name f → F (some name) f)
    {bindings : Variables} {depth : Nat} {selections : List Selection} {ps : List Planned}
    (h : planFields schema.types bindings depth queryName selections = .ok ps) :
    ∀ p ∈ ps, IsRoot schema p.field ∧ Planned.AllAlong F p.selections (rootRows p.field) := by
  intro p hp
  obtain ⟨label, inner, hfield, n, -, hinner⟩ := exists_of_planFields h hp
  have root := isRoot_of_fieldOf? built hfield
  refine ⟨root, ?_⟩
  rcases hinner with hinner | hinner
  · rw [hinner]
    trivial
  · exact along_of_planFields built none own hinner fun name hname => root.shown hname

/-! ## What is prepared -/

/-- The fields of the root with what they read. -/
def prepareRoots (env : Environment) (fields : List Planned) : Report (List Prepared) :=
  (rootArguments fields).bind fun ps => Report.all (ps.map fun (p, a) => prepare env p a)

theorem answerQuery_eq (env : Environment) (s : Store) (fields : List Planned) :
    answerQuery env s fields = match (prepareRoots env fields).result with
      | .error e => (⟨.error e, (prepareRoots env fields).noted⟩, 0)
      | .ok qs => ((prepareRoots env fields).bind fun _ => (readRoots env s qs [] 0).1,
          (readRoots env s qs [] 0).2.2) := rfl

theorem settle_eq_ok {α : Type} {nullable : Bool} {null a : α} {r : Report α}
    (h : (r.settle nullable null).result = .ok a) : r.result = .ok a ∨ a = null := by
  unfold Report.settle at h
  split at h
  · cases h
    exact .inr rfl
  · exact .inl h

theorem mem_of_rootArguments {ps : List Planned} {given : List (Planned × Option Arguments)}
    (h : (rootArguments ps).result = .ok given) : ∀ x ∈ given, x.1 ∈ ps := by
  induction ps generalizing given with
  | nil =>
    cases h
    exact nofun
  | cons p ps ih =>
    obtain ⟨a, -, h⟩ := Report.bind_eq_ok.1 h
    obtain ⟨rest, hrest, h⟩ := Report.bind_eq_ok.1 h
    cases h
    rw [List.forall_mem_cons]
    exact ⟨List.mem_cons_self, fun x hx => List.mem_cons_of_mem p (ih hrest x hx)⟩

theorem exists_of_all {α : Type} {rs : List (Report α)} {as : List α}
    (h : (Report.all rs).result = .ok as) : ∀ a ∈ as, ∃ r ∈ rs, r.result = .ok a := by
  induction rs generalizing as with
  | nil =>
    cases h
    exact nofun
  | cons r rs ih =>
    obtain ⟨a, ha, h⟩ := bind_eq_ok.1 h
    obtain ⟨rest, hrest, rfl⟩ := map_eq_ok.1 h
    rw [List.forall_mem_cons]
    refine ⟨⟨r, List.mem_cons_self, ha⟩, fun a ha => ?_⟩
    obtain ⟨r', hr', hresult⟩ := ih hrest a ha
    exact ⟨r', List.mem_cons_of_mem r hr', hresult⟩

/-- What is prepared reads what the fields of the root ask for. -/
theorem mem_prepareRoots {fields : List Planned} {qs : List Prepared}
    (h : (prepareRoots env fields).result = .ok qs) {q : Prepared} (hq : q ∈ qs) :
    q.planned ∈ fields ∧
      ∀ r, q.reading = some r →
        ∃ a env', env.Enters env' ∧ Reading.ofField env' q.planned.field a = .ok r := by
  obtain ⟨given, hgiven, hall⟩ := Report.bind_eq_ok.1 h
  obtain ⟨r, hr, hresult⟩ := exists_of_all hall q hq
  obtain ⟨⟨p, a⟩, hx, rfl⟩ := List.mem_map.1 hr
  have known := mem_of_rootArguments hgiven (p, a) hx
  have unread : q = ⟨p, none⟩ → q.planned ∈ fields ∧
      ∀ r, q.reading = some r →
        ∃ a env', env.Enters env' ∧ Reading.ofField env' q.planned.field a = .ok r := by
    rintro rfl
    exact ⟨known, nofun⟩
  unfold prepare at hresult
  cases a with
  | none =>
    cases hresult
    exact unread rfl
  | some a =>
    rcases settle_eq_ok hresult with hresult | hresult
    · obtain ⟨r, hr, hresult⟩ := Report.bind_eq_ok.1 hresult
      cases hresult
      have entered := env.enters_enter queryName p.field.name (rootPath p)
      refine ⟨known, fun r' hr' => ⟨a, _, entered, ?_⟩⟩
      cases hr'
      exact Report.ofExcept_eq_ok.1 hr
    · exact unread hresult

end Answer

end TableGraph
