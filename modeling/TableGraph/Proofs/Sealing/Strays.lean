import TableGraph.Proofs.Sealing.Roots

/-!
# Faults of sealing

Sealing is meant to fail with faults of the configuration only.  Five checks fail with others: a
table cannot be kept, a family of filters is none, the type of an enumeration or of an entity cannot
have its name, and a field has no proper name.  Main statement: `close_strays_iff`.  Where names are
names and families are families, nothing strays: `isConfig_of_tame`.
-/

namespace TableGraph

/-! ## Tables -/

namespace Entity

/-- A list of lists. -/
def IsNested (type : ColumnType) : Prop := ∃ inner, type = .array (.array inner)

/-- A family that is none is forced on a column. -/
structure ForcesUnknown (context : Context) (e : Entity) (c : Column) (family : String) : Prop where
  forced : context.filterOverrides.lookup
    (context.typeName e.name ++ "." ++ context.fieldName c.name) = some (some family)
  nonempty : family ≠ ""
  unknown : ∀ f ∈ FilterFamily.all, f.name.toLower ≠ family.toLower

/-- The faults of projecting an entity that are none of the configuration. -/
inductive Strays (context : Context) (e : Entity) : Fault → Prop
  /-- A column holds lists of lists. -/
  | nested {c : Column} (mem : c ∈ e.columns) (nested : IsNested c.type) :
      Strays context e (.unreadable "a list holds no lists")
  /-- A column has no name. -/
  | nameless {c : Column} (flat : ∀ d ∈ e.columns, ¬IsNested d.type) (mem : c ∈ e.columns)
      (unnamed : c.name = "") : Strays context e .namelessColumn
  /-- A family is forced on a column, the first of those that clients see, and is none. -/
  | family {done rest : List Column} {c : Column} {family : String}
      (kept : ∀ d ∈ e.columns, ¬IsNested d.type ∧ d.name ≠ "")
      (split : e.visibleColumns = done ++ c :: rest)
      (known : ∀ d ∈ done, ∀ other, ¬ForcesUnknown context e d other)
      (unknown : ForcesUnknown context e c family) :
      Strays context e (.unreadable s!"Unknown filter family '{family}'")

variable {context : Context} {e : Entity} {c : Column} {fault : Fault}

/-! ### Columns that are kept -/

theorem checkKept_eq_ok {type : ColumnType} :
    SqlType.checkKept type = .ok () ↔ ¬IsNested type := by
  unfold SqlType.checkKept
  split
  next inner => exact iff_of_false nofun fun flat => flat ⟨inner, rfl⟩
  next flat => exact iff_of_true rfl fun ⟨inner, h⟩ => flat inner h

theorem eq_of_checkKept {type : ColumnType} (h : SqlType.checkKept type = .error fault) :
    fault = .unreadable "a list holds no lists" := by
  unfold SqlType.checkKept at h
  split at h <;> cases h
  rfl

theorem checkTable_nested (mem : c ∈ e.columns) (nested : IsNested c.type) :
    SqlType.checkTable e = .error (.unreadable "a list holds no lists") := by
  have fails : e.columns.forM (fun c => SqlType.checkKept c.type) =
      .error (.unreadable "a list holds no lists") := by
    cases h : e.columns.forM fun c => SqlType.checkKept c.type with
    | ok => exact absurd nested (checkKept_eq_ok.1 (forM_eq_ok.1 h c mem))
    | error fault =>
      obtain ⟨-, d, -, -, -, hd⟩ := forM_eq_error.1 h
      rw [eq_of_checkKept hd]
  exact bind_eq_error.2 (.inl fails)

/-- Tables without lists of lists are kept if their columns have names. -/
theorem checkTable_flat (flat : ∀ c ∈ e.columns, ¬IsNested c.type) : SqlType.checkTable e =
    if e.columns.any (·.name.isEmpty) then .error .namelessColumn else .ok () := by
  have kept : e.columns.forM (fun c => SqlType.checkKept c.type) = .ok () :=
    forM_eq_ok.2 fun c hc => checkKept_eq_ok.2 (flat c hc)
  unfold SqlType.checkTable
  rw [kept]
  rfl

theorem exists_nameless : e.columns.any (·.name.isEmpty) = true ↔ ∃ c ∈ e.columns, c.name = "" := by
  simp only [List.any_eq_true, String.isEmpty_iff]

theorem checkTable_eq_ok : SqlType.checkTable e = .ok () ↔
    ∀ c ∈ e.columns, ¬IsNested c.type ∧ c.name ≠ "" := by
  constructor
  · intro done c hc
    have flat : ∀ c ∈ e.columns, ¬IsNested c.type := by
      intro d hd nested
      rw [checkTable_nested hd nested] at done
      cases done
    rw [checkTable_flat flat] at done
    split_ifs at done with unnamed
    exact ⟨flat c hc, fun empty => unnamed (exists_nameless.2 ⟨c, hc, empty⟩)⟩
  · intro kept
    rw [checkTable_flat fun c hc => (kept c hc).1, if_neg]
    rw [exists_nameless]
    exact fun ⟨c, hc, empty⟩ => (kept c hc).2 empty

theorem strays_of_checkTable (h : SqlType.checkTable e = .error fault) :
    Strays context e fault := by
  by_cases flat : ∀ c ∈ e.columns, ¬IsNested c.type
  · rw [checkTable_flat flat] at h
    split_ifs at h with unnamed
    cases h
    obtain ⟨c, hc, empty⟩ := exists_nameless.1 unnamed
    exact .nameless flat hc empty
  · push Not at flat
    obtain ⟨c, hc, nested⟩ := flat
    rw [checkTable_nested hc nested] at h
    cases h
    exact .nested hc nested

/-! ### Families that are none -/

theorem ofName_eq_error {family : String} : FilterFamily.ofName family = .error fault ↔
    (∀ f ∈ FilterFamily.all, f.name.toLower ≠ family.toLower) ∧
      fault = .unreadable s!"Unknown filter family '{family}'" := by
  unfold FilterFamily.ofName
  split
  next f found =>
    refine iff_of_false nofun fun unknown => unknown.1 f (List.mem_of_find?_eq_some found) ?_
    simpa using List.find?_some found
  next missing =>
    have unknown : ∀ f ∈ FilterFamily.all, f.name.toLower ≠ family.toLower := by
      simpa using List.find?_eq_none.1 missing
    rw [Except.error.injEq]
    exact ⟨fun h => ⟨unknown, h.symm⟩, fun h => h.2.symm⟩

/-- The filter of a column cannot be told exactly if a family that is none is forced on it. -/
theorem columnField_eq_error :
    Projection.columnField context (context.typeName e.name) c = .error fault ↔
      ∃ family, ForcesUnknown context e c family ∧
        fault = .unreadable s!"Unknown filter family '{family}'" := by
  have field : Projection.columnField context (context.typeName e.name) c = .error fault ↔
      Projection.columnFilter context c
        (context.typeName e.name ++ "." ++ context.fieldName c.name) = .error fault := by
    unfold Projection.columnField
    rw [bind_eq_error]
    exact or_iff_left nofun
  rw [field]
  unfold Projection.columnFilter
  split
  next forced found =>
    split
    next none =>
      refine iff_of_false nofun ?_
      rintro ⟨family, unknown, -⟩
      obtain rfl := Option.some.inj (found.symm.trans unknown.forced)
      simp [Option.filter, unknown.nonempty] at none
    next family kept =>
      obtain ⟨rfl, nonempty⟩ := Option.filter_eq_some_iff.1 kept
      have refused : (FilterFamily.ofName family >>= fun f => .ok (some (.family f)) :
          Except Fault (Option ColumnFilter)) = .error fault ↔
          FilterFamily.ofName family = .error fault := by
        rw [bind_eq_error]
        exact or_iff_left nofun
      rw [refused, ofName_eq_error]
      constructor
      · rintro ⟨unknown, rfl⟩
        exact ⟨family, ⟨found, by simpa using nonempty, unknown⟩, rfl⟩
      · rintro ⟨other, unknown, rfl⟩
        cases found.symm.trans unknown.forced
        exact ⟨unknown.unknown, rfl⟩
  next missing =>
    refine iff_of_false ?_ ?_
    · split <;> exact nofun
    · rintro ⟨family, unknown, -⟩
      cases missing.symm.trans unknown.forced

/-- A projection fails with the fault of a column, or with a clash of names, which is one of the
configuration. -/
theorem make_strays_iff :
    (Projection.make context e = .error fault ∧ fault.isConfig = false) ↔
      e.visibleColumns.mapM (Projection.columnField context (context.typeName e.name)) =
        .error fault := by
  unfold Projection.make
  dsimp only
  rw [bind_eq_error]
  constructor
  · rintro ⟨h | ⟨fields, -, h⟩, stray⟩
    · exact h
    · split at h
      · cases h
      · cases h
        cases stray
  · intro h
    refine ⟨.inl h, ?_⟩
    obtain ⟨-, c, -, -, -, fails⟩ := mapM_eq_error.1 h
    obtain ⟨family, -, rfl⟩ := columnField_eq_error.1 fails
    rfl

/-- Projecting an entity fails with a fault that is none of the configuration in these ways only. -/
theorem project_strays_iff : (Builder.project context e = .error fault ∧ fault.isConfig = false) ↔
    Strays context e fault := by
  unfold Builder.project
  rw [bind_eq_error]
  constructor
  · rintro ⟨h | ⟨_, kept, h⟩, stray⟩
    · exact strays_of_checkTable h
    · obtain ⟨done, c, rest, split, ⟨fields, passed⟩, fails⟩ :=
        mapM_eq_error.1 (make_strays_iff.1 ⟨h, stray⟩)
      obtain ⟨family, unknown, rfl⟩ := columnField_eq_error.1 fails
      refine .family (checkTable_eq_ok.1 kept) split (fun d hd other forces => ?_) unknown
      obtain ⟨f, -, hf⟩ := exists_of_mem_mapM passed hd
      rw [columnField_eq_error.2 ⟨other, forces, rfl⟩] at hf
      cases hf
  · intro strays
    cases strays with
    | nested mem nested => exact ⟨.inl (checkTable_nested mem nested), rfl⟩
    | nameless flat mem unnamed =>
      refine ⟨.inl ?_, rfl⟩
      rw [checkTable_flat flat, if_pos (exists_nameless.2 ⟨_, mem, unnamed⟩)]
    | @family done rest c family kept split known unknown =>
      have passed : ∃ fields, done.mapM
          (Projection.columnField context (context.typeName e.name)) = .ok fields := by
        refine mapM_of_forall fun d hd => ?_
        cases h : Projection.columnField context (context.typeName e.name) d with
        | ok f => exact ⟨f, rfl⟩
        | error fault =>
          obtain ⟨other, forces, -⟩ := columnField_eq_error.1 h
          exact absurd forces (known d hd other)
      have fails := columnField_eq_error.2 ⟨family, unknown, rfl⟩
      obtain ⟨h, stray⟩ :=
        make_strays_iff.2 (mapM_eq_error.2 ⟨done, c, rest, split, passed, fails⟩)
      exact ⟨.inr ⟨(), checkTable_eq_ok.2 kept, h⟩, stray⟩

end Entity

/-! ## Types -/

namespace Graph

/-- The faults of a name that no type can have. -/
inductive Refused (name : String) : Fault → Prop
  | reserved (mem : name ∈ reservedNames) :
      Refused name (.wrongKind s!"Redefinition of reserved type '{name}'")
  | unnamed (free : name ∉ reservedNames) (unnamed : isName name = false) :
      Refused name (.graph s!"'{name}' is not a name")

variable {context : Context} {e : Enumeration} {name : String} {fault : Fault}

theorem refused_iff : checkTypeName name = .error fault ↔ Refused name fault := by
  unfold checkTypeName
  simp only [List.contains_iff_mem]
  split_ifs with reserved named
  · constructor
    · rintro ⟨⟩
      exact .reserved reserved
    · rintro (_ | ⟨free, _⟩)
      · rfl
      · exact absurd reserved free
  · refine iff_of_false nofun ?_
    rintro (mem | ⟨_, unnamed⟩)
    · exact reserved mem
    · rw [named] at unnamed
      cases unnamed
  · constructor
    · rintro ⟨⟩
      exact .unnamed reserved (Bool.eq_false_iff.2 named)
    · rintro (mem | _)
      · exact absurd mem reserved
      · rfl

theorem Refused.strays (h : Refused name fault) : fault.isConfig = false := by
  cases h <;> rfl

/-- The variants of an enumeration have names, and these differ. -/
structure HasVariants (context : Context) (e : Enumeration) : Prop where
  named : ∀ raw ∈ e.values, isName (context.variantCase.apply raw) = true ∧
    context.variantCase.apply raw ∉ reservedValues
  distinct : (e.values.map context.variantCase.apply).Nodup

theorem hasVariants_iff : (∃ values, namedValues context e.name [] e.values = .ok values) ↔
    HasVariants context e := by
  simp only [Builder.namedValues_iff, List.append_nil]
  exact ⟨fun ⟨_, named, distinct, _⟩ => ⟨named, distinct⟩,
    fun h => ⟨_, h.named, h.distinct, rfl⟩⟩

theorem isConfig_of_namedValues {taken raws : List String}
    (h : namedValues context name taken raws = .error fault) : fault.isConfig = true := by
  induction raws generalizing taken with
  | nil => cases h
  | cons raw raws ih =>
    unfold namedValues at h
    dsimp only at h
    split_ifs at h
    · cases h
      rfl
    · cases h
      rfl
    · rcases bind_eq_error.1 h with h | ⟨_, -, h⟩
      · exact ih h
      · cases h

/-- The type of an enumeration fails to be made, but not for its configuration, exactly if its
variants have names and it has none. -/
theorem enumerationType_strays_iff :
    (enumerationType context e = .error fault ∧ fault.isConfig = false) ↔
      HasVariants context e ∧ Refused (context.enumTypeName e.name) fault := by
  unfold enumerationType
  rw [bind_eq_error, ← hasVariants_iff]
  constructor
  · rintro ⟨h | ⟨values, named, h⟩, stray⟩
    · rw [isConfig_of_namedValues h] at stray
      cases stray
    · rcases bind_eq_error.1 h with h | ⟨_, -, h⟩
      · exact ⟨⟨values, named⟩, refused_iff.1 h⟩
      · cases h
  · rintro ⟨⟨values, named⟩, refused⟩
    exact ⟨.inr ⟨values, named, bind_eq_error.2 (.inl (refused_iff.2 refused))⟩, refused.strays⟩

namespace TypeSystem

variable {s : TypeSystem} {t : NamedType}

/-- The names of the fields of a type. -/
def memberNames (t : NamedType) : List String :=
  match t.body with
  | .object fields => fields.map (·.name)
  | .input fields => fields.map (·.name)
  | _ => []

/-- The types of the fields of a type are there. -/
def Resolved (s : TypeSystem) (t : NamedType) : Prop :=
  match t.body with
  | .object fields => ∀ f ∈ fields, s.resolves f = true
  | .input fields => ∀ f ∈ fields, s.isInput f.type.base = true
  | _ => True

/-- The first of some names that is none. -/
def FirstUnnamed (names : List String) (name : String) : Prop :=
  ∃ before after, names = before ++ name :: after ∧ (∀ n ∈ before, isName n = true) ∧
    isName name = false

theorem firstUnnamed_iff {names : List String} :
    FirstUnnamed names name ↔ names.find? (fun n => !isName n) = some name := by
  rw [List.find?_eq_some_iff_append]
  simp only [Bool.not_eq_true', Bool.not_not]
  constructor
  · rintro ⟨before, after, split, named, unnamed⟩
    exact ⟨unnamed, before, after, split, named⟩
  · rintro ⟨unnamed, before, after, split, named⟩
    exact ⟨before, after, split, named, unnamed⟩

theorem passes_iff : checkFields s t = .ok () ↔
    s.Resolved t ∧ ∀ name ∈ memberNames t, isName name = true := by
  rw [checkFields_iff]
  unfold Resolved memberNames
  cases t.body with
  | scalar | enumeration => exact iff_of_true trivial ⟨trivial, List.forall_mem_nil _⟩
  | input fields | object fields =>
    rw [List.forall_mem_map]
    exact ⟨fun h => ⟨fun f hf => (h f hf).2, fun f hf => (h f hf).1⟩,
      fun h f hf => ⟨h.2 f hf, h.1 f hf⟩⟩

/-- A type whose fields lead somewhere fails for the first of them that has no proper name. -/
theorem checkFields_strays_iff : (checkFields s t = .error fault ∧ fault.isConfig = false) ↔
    s.Resolved t ∧ ∃ name, FirstUnnamed (memberNames t) name ∧
      fault = .graph s!"'{name}' is not a name" := by
  have strays : ∀ (fields : List (String × Bool)) {named : Except Fault Unit},
      ((fields.find? fun f => !isName f.1) = none → named = .ok ()) →
      (∀ f, (fields.find? fun f => !isName f.1) = some f →
        named = .error (.graph s!"'{f.1}' is not a name")) →
      (((if !fields.all (·.2) then .error (invalid s!"fields of {t.name} cannot be resolved")
        else named) = .error fault ∧ fault.isConfig = false) ↔
        (∀ f ∈ fields, f.2 = true) ∧ ∃ name, FirstUnnamed (fields.map (·.1)) name ∧
          fault = .graph s!"'{name}' is not a name") := by
    intro fields named hnone hsome
    simp only [firstUnnamed_iff, List.find?_map, Function.comp_def]
    by_cases resolved : fields.all (·.2) = true
    · rw [if_neg (by simp [resolved]), and_iff_right (List.all_eq_true.1 resolved)]
      cases hfind : fields.find? fun f => !isName f.1 with
      | none =>
        rw [hnone hfind]
        exact iff_of_false (fun h => nomatch h.1) fun ⟨_, h, _⟩ => nomatch h
      | some f =>
        rw [hsome f hfind]
        constructor
        · rintro ⟨⟨⟩, -⟩
          exact ⟨f.1, rfl, rfl⟩
        · rintro ⟨_, ⟨⟩, rfl⟩
          exact ⟨rfl, rfl⟩
    · rw [if_pos (by simpa using resolved)]
      refine iff_of_false ?_ fun h => resolved (List.all_eq_true.2 h.1)
      rintro ⟨h, stray⟩
      cases h
      cases stray
  unfold checkFields Resolved memberNames
  cases t.body with
  | scalar | enumeration =>
    refine iff_of_false (fun h => nomatch h.1) ?_
    simp only [firstUnnamed_iff]
    exact fun ⟨_, _, h, _⟩ => nomatch h
  | input fields | object fields =>
    refine (strays (fields.map _) (fun h => ?_) fun f h => ?_).trans ?_
    · rw [h]
    · rw [h]
    · rw [List.forall_mem_map, List.map_map]
      rfl

theorem check_strays_iff : (s.check = .error fault ∧ fault.isConfig = false) ↔
    ∃ done t rest, s.allTypes = done ++ t :: rest ∧ (∀ u ∈ done, checkFields s u = .ok ()) ∧
      s.Resolved t ∧ ∃ name, FirstUnnamed (memberNames t) name ∧
        fault = .graph s!"'{name}' is not a name" := by
  simp only [← checkFields_strays_iff]
  unfold check
  rw [bind_eq_error]
  constructor
  · rintro ⟨h | ⟨_, -, h⟩, stray⟩
    · obtain ⟨done, t, rest, split, passed, fails⟩ := forM_eq_error.1 h
      exact ⟨done, t, rest, split, passed, fails, stray⟩
    · split_ifs at h
      · cases h
        cases stray
      · cases h
        cases stray
  · rintro ⟨done, t, rest, split, passed, fails, stray⟩
    exact ⟨.inl (forM_eq_error.2 ⟨done, t, rest, split, passed, fails⟩), stray⟩

end TypeSystem

end Graph

/-! ## Sealing -/

namespace Builder

open TableGraph.Graph

variable {b : Builder} {projections : List Projection} {types ts out : List NamedType}
  {fault : Fault}

/-- The types of scalars, and those of enumerations with their filters. -/
def leafTypes (b : Builder) (enumerations : List NamedType) : List NamedType :=
  b.scalars.map (fun name => ⟨name, .scalar .custom⟩) ++ enumerations.flatMap withFilter

/-- The types and the roots. -/
def system (b : Builder) (projections : List Projection) (types : List NamedType) : TypeSystem :=
  ⟨types, queryRoot b.context projections, mutationRoot b.mutable projections⟩

/-- The builder is open, and its metamodel holds together. -/
structure Valid (b : Builder) : Prop where
  opened : b.isSealed = false
  inhabited : b.entities ≠ []
  sound : Validation.validate b.entities b.enumerations = []

/-- The faults of collecting types that are none of the configuration. -/
inductive TypesStray (b : Builder) (projections : List Projection) : Fault → Prop
  /-- The type of an enumeration cannot have its name. -/
  | enumeration {done rest : List Enumeration} {e : Enumeration} {made : List NamedType}
      {fault : Fault} (split : b.enumerations = done ++ e :: rest)
      (before : done.mapM (enumerationType b.context) = .ok made)
      (distinct : Named (b.leafTypes made)) (variants : HasVariants b.context e)
      (refused : Refused (b.context.enumTypeName e.name) fault) : TypesStray b projections fault
  /-- The type of an entity cannot have its name. -/
  | entity {done rest : List Projection} {p : Projection} {made : List NamedType} {fault : Fault}
      (enumerations : b.enumerations.mapM (enumerationType b.context) = .ok made)
      (split : projections = done ++ p :: rest)
      (before : ∀ q ∈ done, checkTypeName q.typeName = .ok ())
      (distinct : Named (b.leafTypes made ++ sharedTypes ++
        done.flatMap (b.entityTypes projections)))
      (refused : Refused p.typeName fault) : TypesStray b projections fault

/-- The faults of sealing that are none of the configuration. -/
inductive Strays (b : Builder) : Fault → Prop
  /-- An entity cannot be projected. -/
  | entity {done rest : List Entity} {e : Entity} {fault : Fault} (valid : b.Valid)
      (split : b.entities = done ++ e :: rest)
      (before : ∃ projections, done.mapM (project b.context) = .ok projections)
      (strays : e.Strays b.context fault) : Strays b fault
  /-- The types of the schema cannot be collected. -/
  | types {projections : List Projection} {fault : Fault} (valid : b.Valid)
      (projected : b.entities.mapM (project b.context) = .ok projections)
      (strays : b.TypesStray projections fault) : Strays b fault
  /-- A field has no proper name. -/
  | field {projections : List Projection} {types done rest : List NamedType} {t : NamedType}
      {name : String} (valid : b.Valid)
      (projected : b.entities.mapM (project b.context) = .ok projections)
      (collected : b.buildTypes projections = .ok types)
      (split : (b.system projections types).allTypes = done ++ t :: rest)
      (before : ∀ u ∈ done, (b.system projections types).checkFields u = .ok ())
      (resolved : (b.system projections types).Resolved t)
      (unnamed : TypeSystem.FirstUnnamed (TypeSystem.memberNames t) name) :
      Strays b (.graph s!"'{name}' is not a name")

/-! ### Collecting types -/

theorem isConfig_of_addType {t : NamedType} (h : addType types t = .error fault) :
    fault.isConfig = true := by
  unfold addType at h
  split_ifs at h
  cases h
  rfl

theorem isConfig_of_foldlM_addType (h : ts.foldlM addType types = .error fault) :
    fault.isConfig = true := by
  obtain ⟨_, _, _, _, _, _, h⟩ := foldlM_eq_error.1 h
  exact isConfig_of_addType h

theorem addEnumeration_strays_iff {context : Context} {e : Enumeration} :
    (addEnumeration context types e = .error fault ∧ fault.isConfig = false) ↔
      HasVariants context e ∧ Refused (context.enumTypeName e.name) fault := by
  rw [← enumerationType_strays_iff]
  unfold addEnumeration
  rw [bind_eq_error]
  constructor
  · rintro ⟨h | ⟨t, -, h⟩, stray⟩
    · exact ⟨h, stray⟩
    · have clash : fault.isConfig = true := by
        rcases bind_eq_error.1 h with h | ⟨_, -, h⟩ <;> exact isConfig_of_addType h
      rw [clash] at stray
      cases stray
  · exact fun ⟨h, stray⟩ => ⟨.inl h, stray⟩

theorem addEntity_strays_iff {p : Projection} :
    (b.addEntity projections types p = .error fault ∧ fault.isConfig = false) ↔
      Refused p.typeName fault := by
  rw [← refused_iff, addEntity_eq, bind_eq_error]
  constructor
  · rintro ⟨h | ⟨_, -, h⟩, stray⟩
    · exact h
    · rw [isConfig_of_foldlM_addType h] at stray
      cases stray
  · exact fun h => ⟨.inl h, (refused_iff.1 h).strays⟩

theorem strays_of_buildTypes (h : b.buildTypes projections = .error fault)
    (stray : fault.isConfig = false) : b.TypesStray projections fault := by
  have noClash : ∀ {types ts : List NamedType}, ts.foldlM addType types ≠ .error fault := by
    intro types ts h
    rw [isConfig_of_foldlM_addType h] at stray
    cases stray
  rcases bind_eq_error.1 h with h | ⟨types₁, h₁, h⟩
  · exact absurd h noClash
  obtain ⟨rfl, scalars⟩ := (foldlM_addType named_nil).1 h₁
  rcases bind_eq_error.1 h with h | ⟨types₂, h₂, h⟩
  · obtain ⟨done, e, rest, mid, split, hdone, fails⟩ := foldlM_eq_error.1 h
    obtain ⟨_, parts, rfl, distinct⟩ :=
      (foldlM_parts (fun e => addEnumeration_iff e) scalars).1 hdone
    obtain ⟨made, before, rfl⟩ := enumerationParts.1 parts
    obtain ⟨variants, refused⟩ := addEnumeration_strays_iff.1 ⟨fails, stray⟩
    exact .enumeration split before (by rwa [leafTypes, List.flatMap_def]) variants refused
  obtain ⟨_, parts, rfl, leaves⟩ := (foldlM_parts (fun e => addEnumeration_iff e) scalars).1 h₂
  obtain ⟨made, enumerations, rfl⟩ := enumerationParts.1 parts
  rcases bind_eq_error.1 h with h | ⟨types₃, h₃, h⟩
  · exact absurd h noClash
  obtain ⟨rfl, shared⟩ := (foldlM_addType leaves).1 h₃
  obtain ⟨done, p, rest, mid, split, hdone, fails⟩ := foldlM_eq_error.1 h
  obtain ⟨_, parts, rfl, distinct⟩ := (foldlM_parts (fun p => addEntity_iff p) shared).1 hdone
  obtain ⟨before, rfl⟩ := entityParts_iff.1 parts
  refine .entity enumerations split before ?_ (addEntity_strays_iff.1 ⟨fails, stray⟩)
  rwa [leafTypes, List.flatMap_def, List.flatMap_def]

theorem TypesStray.buildTypes (strays : b.TypesStray projections fault) :
    b.buildTypes projections = .error fault := by
  cases strays with
  | enumeration split before distinct variants refused =>
    rw [leafTypes, List.flatMap_def] at distinct
    have scalars := distinct.left
    refine bind_eq_error.2 (.inr ⟨_, (foldlM_addType named_nil).2 ⟨rfl, scalars⟩, ?_⟩)
    have passed := (foldlM_parts (fun e => addEnumeration_iff e) scalars).2
      ⟨_, enumerationParts.2 ⟨_, before, rfl⟩, rfl, distinct⟩
    exact bind_eq_error.2 (.inl (foldlM_eq_error.2 ⟨_, _, _, _, split, passed,
      (addEnumeration_strays_iff.2 ⟨variants, refused⟩).1⟩))
  | entity enumerations split before distinct refused =>
    rw [leafTypes, List.flatMap_def, List.flatMap_def] at distinct
    have shared := distinct.left
    have leaves := shared.left
    have scalars := leaves.left
    refine bind_eq_error.2 (.inr ⟨_, (foldlM_addType named_nil).2 ⟨rfl, scalars⟩, ?_⟩)
    refine bind_eq_error.2 (.inr ⟨_, (foldlM_parts (fun e => addEnumeration_iff e) scalars).2
      ⟨_, enumerationParts.2 ⟨_, enumerations, rfl⟩, rfl, leaves⟩, ?_⟩)
    refine bind_eq_error.2 (.inr ⟨_, (foldlM_addType leaves).2 ⟨rfl, shared⟩, ?_⟩)
    have passed := (foldlM_parts (fun p => addEntity_iff p) shared).2
      ⟨_, entityParts_iff.2 ⟨before, rfl⟩, rfl, distinct⟩
    exact foldlM_eq_error.2 ⟨_, _, _, _, split, passed, (addEntity_strays_iff.2 refused).1⟩

theorem buildTypes_strays_iff :
    (b.buildTypes projections = .error fault ∧ fault.isConfig = false) ↔
      b.TypesStray projections fault := by
  refine ⟨fun ⟨h, stray⟩ => strays_of_buildTypes h stray, fun strays => ⟨strays.buildTypes, ?_⟩⟩
  cases strays with
  | enumeration _ _ _ _ refused => exact refused.strays
  | entity _ _ _ _ refused => exact refused.strays

/-! ### All of it -/

/-- A builder that is not valid is refused with a fault of the configuration; another one goes on to
project its entities. -/
theorem build_of_valid (valid : b.Valid) : b.build = (do
    let projections ← b.entities.mapM (project b.context)
    let types ← b.buildTypes projections
    (b.system projections types).check
    .ok ⟨b.context, projections, ⟨b.enumerations, b.context.rfc3339⟩,
      b.system projections types⟩) := by
  have unsealed : b.checkOpen = .ok () := if_neg (by simp [valid.opened])
  unfold build
  rw [unsealed, valid.sound]
  exact if_neg (by simpa using valid.inhabited)

theorem isConfig_of_not_valid (h : ¬b.Valid) (fails : b.build = .error fault) :
    fault.isConfig = true := by
  unfold build at fails
  rcases bind_eq_error.1 fails with fails | ⟨_, opened, fails⟩
  · unfold checkOpen at fails
    split_ifs at fails
    cases fails
    rfl
  · split_ifs at fails with empty
    · cases fails
      rfl
    · split at fails
      next sound =>
        refine absurd ⟨?_, by simpa using empty, sound⟩ h
        unfold checkOpen at opened
        split_ifs at opened with closed
        simpa using closed
      next =>
        cases fails
        rfl

/-- Sealing fails with a fault that is none of the configuration in these ways only. -/
theorem close_strays_iff (b : Builder) (fault : Fault) :
    (b.close.2 = .error fault ∧ fault.isConfig = false) ↔ b.Strays fault := by
  have same : b.close.2 = .error fault ↔ b.build = .error fault := by
    unfold close
    cases b.build <;> rfl
  rw [same]
  constructor
  · rintro ⟨fails, stray⟩
    have valid : b.Valid := by
      by_contra h
      rw [isConfig_of_not_valid h fails] at stray
      cases stray
    rw [build_of_valid valid] at fails
    rcases bind_eq_error.1 fails with fails | ⟨projections, projected, fails⟩
    · obtain ⟨done, e, rest, split, before, fails⟩ := mapM_eq_error.1 fails
      exact .entity valid split before (Entity.project_strays_iff.1 ⟨fails, stray⟩)
    rcases bind_eq_error.1 fails with fails | ⟨types, collected, fails⟩
    · exact .types valid projected (buildTypes_strays_iff.1 ⟨fails, stray⟩)
    rcases bind_eq_error.1 fails with fails | ⟨_, -, fails⟩
    · obtain ⟨done, t, rest, split, before, resolved, name, unnamed, rfl⟩ :=
        TypeSystem.check_strays_iff.1 ⟨fails, stray⟩
      exact .field valid projected collected split before resolved unnamed
    · cases fails
  · intro strays
    cases strays with
    | entity valid split before strays =>
      obtain ⟨fails, stray⟩ := Entity.project_strays_iff.2 strays
      rw [build_of_valid valid]
      exact ⟨bind_eq_error.2 (.inl (mapM_eq_error.2 ⟨_, _, _, split, before, fails⟩)), stray⟩
    | types valid projected strays =>
      obtain ⟨fails, stray⟩ := buildTypes_strays_iff.2 strays
      rw [build_of_valid valid]
      exact ⟨bind_eq_error.2 (.inr ⟨_, projected, bind_eq_error.2 (.inl fails)⟩), stray⟩
    | field valid projected collected split before resolved unnamed =>
      obtain ⟨fails, stray⟩ := TypeSystem.check_strays_iff.2
        ⟨_, _, _, split, before, resolved, _, unnamed, rfl⟩
      rw [build_of_valid valid]
      refine ⟨bind_eq_error.2 (.inr ⟨_, projected, ?_⟩), stray⟩
      exact bind_eq_error.2 (.inr ⟨_, collected, bind_eq_error.2 (.inl fails)⟩)

/-- A table of items whose key is filtered by a family that is none. -/
theorem close_strays_items : ¬∀ (context : Context) (b : Builder), b.Reached context →
    ∀ fault, b.close.2 = .error fault → fault.isConfig = true := by
  intro all
  let context : Context := { filterOverrides := [("Item.id", some "nope")] }
  let b : Builder := ((Builder.empty context).registerAll [.entity Sample.Items.entity]).1
  have fails : b.close.2 = .error (.unreadable "Unknown filter family 'nope'") := by
    with_unfolding_all rfl
  exact absurd (all context b (.registerAll .empty _) _ fails) nofun

end Builder

end TableGraph
