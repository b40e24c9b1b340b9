import TableGraph.Proofs.Registered
import TableGraph.Sample.Registered

/-!
# Fields of the roots

Every entity has a field of the root of queries that lists it, one that reads a row by its key, and
four fields of the root of mutations.  Their names are made of the name of the type, cased once
more; of fields with one name the root keeps the last.  Main statement: `keepsRoots_iff`.  No
entity loses a field exactly if the names of the lists differ and no list has the name of a field
that reads by key.
-/

namespace TableGraph

open TableGraph.Graph

/-! ## Different names -/

section Names

variable {α β : Type} {g : α → List β} {xs : List α}

theorem eq_of_mem_flatMap (h : (xs.flatMap g).Nodup) {x y : α} {b : β} (hx : x ∈ xs)
    (hy : y ∈ xs) (hbx : b ∈ g x) (hby : b ∈ g y) : x = y := by
  induction xs with
  | nil => cases hx
  | cons z zs ih =>
    rw [List.flatMap_cons, List.nodup_append] at h
    obtain ⟨-, rest, apart⟩ := h
    have other : ∀ w ∈ zs, b ∈ g w → b ∉ g z := fun w hw hbw hbz =>
      apart b hbz b (List.mem_flatMap.2 ⟨w, hw, hbw⟩) rfl
    rcases List.mem_cons.1 hx with hxz | hxs <;> rcases List.mem_cons.1 hy with hyz | hys
    · rw [hxz, hyz]
    · exact absurd (hxz ▸ hbx) (other y hys hby)
    · exact absurd (hyz ▸ hby) (other x hxs hbx)
    · exact ih rest hxs hys

/-- Lists that are told apart by a name are put together without a repetition. -/
theorem nodup_flatMap_of_name {γ : Type} {name : α → γ} (distinct : (xs.map name).Nodup)
    (own : ∀ x ∈ xs, (g x).Nodup)
    (apart : ∀ x ∈ xs, ∀ y ∈ xs, ∀ b, b ∈ g x → b ∈ g y → name x = name y) :
    (xs.flatMap g).Nodup := by
  refine List.nodup_flatMap.2 ⟨own, ?_⟩
  refine (List.pairwise_map.1 distinct).imp_of_mem fun {x y} hx hy hne => ?_
  exact fun b hbx hby => hne (apart x hx y hy b hbx hby)

end Names

theorem append_ne_self (x : String) {s : String} (hs : s.length ≠ 0) : x ≠ x ++ s := by
  intro h
  have length := congrArg String.length h
  rw [String.length_append] at length
  omega

theorem append_left_inj {x y s : String} (h : x ++ s = y ++ s) : x = y := by
  have chars := congrArg String.toList h
  rw [String.toList_append, String.toList_append] at chars
  exact String.toList_injective (List.append_cancel_right chars)

/-! ## Roots -/

namespace Graph

variable {fields : List OutputField} {context : Context} {p : Projection}

/-- Fields with different names are all kept, in order. -/
theorem foldl_setOutput {kept : List OutputField} (h : ((kept ++ fields).map (·.name)).Nodup) :
    fields.foldl setOutput kept = kept ++ fields := by
  induction fields generalizing kept with
  | nil => exact (List.append_nil kept).symm
  | cons f fields ih =>
    have new : ¬ (kept.any fun g => g.name = f.name) = true := by
      rw [List.any_eq_true]
      rintro ⟨g, hg, hname⟩
      rw [List.map_append, List.nodup_append] at h
      exact h.2.2 g.name (List.mem_map_of_mem hg) f.name List.mem_cons_self
        (of_decide_eq_true hname)
    have step : setOutput kept f = kept ++ [f] := if_neg new
    rw [List.foldl_cons, step, ih (by rwa [List.append_assoc]), List.append_assoc]
    rfl

theorem mem_foldl_setOutput {fields : List OutputField} {kept : List OutputField}
    {f : OutputField} (h : f ∈ fields.foldl setOutput kept) : f ∈ kept ∨ f ∈ fields := by
  induction fields generalizing kept with
  | nil => exact .inl h
  | cons g fields ih =>
    rcases ih h with h | h
    · unfold setOutput at h
      split_ifs at h
      · obtain ⟨g', hg', rfl⟩ := List.mem_map.1 h
        split_ifs
        · exact .inr List.mem_cons_self
        · exact .inl hg'
      · rcases List.mem_append.1 h with h | h
        · exact .inl h
        · exact .inr (List.mem_singleton.1 h ▸ List.mem_cons_self)
    · exact .inr (List.mem_cons_of_mem g h)

/-- Clients see all columns of the key. -/
def HasVisibleKey (e : Entity) : Prop := ∀ c ∈ e.keyColumns, c.ignored = false

/-- The root has a field that reads a row of the entity by its key. -/
def Addressed (p : Projection) : Prop :=
  ∃ fields, keyFields? p = some fields ∧ (fields.map (·.name)).Nodup

/-- The names of the fields of the root that read an entity. -/
theorem mem_names_queryFields {name : String} :
    name ∈ (queryFields context p).map (·.name) ↔
      name = p.queryField ∨ Addressed p ∧ name = p.queryField ++ "ByPk" := by
  unfold queryFields Addressed
  cases hkey : keyFields? p with
  | none => simp
  | some fields =>
    by_cases hnodup : (fields.map (·.name)).Nodup
    · simp [hnodup]
    · simp [hnodup]

theorem nodup_names_queryFields : ((queryFields context p).map (·.name)).Nodup := by
  have own := append_ne_self p.queryField (s := "ByPk") (by decide)
  unfold queryFields
  cases keyFields? p with
  | none => exact List.nodup_singleton _
  | some fields =>
    dsimp only
    split_ifs
    · exact List.nodup_cons.2 ⟨by simpa using own, List.nodup_singleton _⟩
    · exact List.nodup_singleton _

theorem exists_list : ∃ f ∈ queryFields context p, f.name = p.queryField ∧
    f.source = .connection p := by
  unfold queryFields
  cases keyFields? p with
  | none => exact ⟨_, List.mem_cons_self, rfl, rfl⟩
  | some fields =>
    dsimp only
    split_ifs <;> exact ⟨_, List.mem_cons_self, rfl, rfl⟩

theorem exists_byKey (h : Addressed p) : ∃ f ∈ queryFields context p,
    f.name = p.queryField ++ "ByPk" ∧ f.source = .byKey p := by
  obtain ⟨fields, hkey, hnodup⟩ := h
  unfold queryFields
  rw [hkey]
  dsimp only
  rw [if_pos hnodup]
  exact ⟨_, List.mem_cons_of_mem _ List.mem_cons_self, rfl, rfl⟩

/-- Only the field of an entity lists it. -/
theorem list_of_mem {q : Projection} {f : OutputField} (hf : f ∈ queryFields context q)
    (hsource : f.source = .connection p) : q = p ∧ f.arguments = connectionArguments p := by
  have list : ∀ g : OutputField, g.source = .byKey q → g ≠ f := by
    rintro g hg rfl
    cases hg.symm.trans hsource
  have own : f = ⟨q.queryField, connectionArguments q, required q.connectionTypeName,
      .connection q⟩ := by
    unfold queryFields at hf
    cases hkey : keyFields? q with
    | none =>
      rw [hkey] at hf
      exact List.mem_singleton.1 hf
    | some fields =>
      rw [hkey] at hf
      dsimp only at hf
      split_ifs at hf
      · rcases List.mem_cons.1 hf with rfl | hf
        · rfl
        · exact absurd (List.mem_singleton.1 hf).symm (list _ rfl)
      · exact List.mem_singleton.1 hf
  subst own
  cases hsource
  exact ⟨rfl, rfl⟩

/-- Only the field of an entity reads it by key, and takes the values of the key. -/
theorem byKey_of_mem {q : Projection} {f : OutputField} (hf : f ∈ queryFields context q)
    (hsource : f.source = .byKey p) : q = p ∧ ∃ fields, keyFields? p = some fields ∧
      (fields.map (·.name)).Nodup ∧
      f.arguments = fields.map fun g => ⟨g.name, .nonNull (columnTypeRef context g.column.type)⟩ := by
  unfold queryFields at hf
  cases hkey : keyFields? q with
  | none =>
    rw [hkey] at hf
    rw [List.mem_singleton.1 hf] at hsource
    cases hsource
  | some fields =>
    rw [hkey] at hf
    dsimp only at hf
    split_ifs at hf with hnodup
    · rcases List.mem_cons.1 hf with rfl | hf
      · cases hsource
      · rw [List.mem_singleton.1 hf] at hsource ⊢
        cases hsource
        exact ⟨rfl, fields, hkey, hnodup, rfl⟩
    · rw [List.mem_singleton.1 hf] at hsource
      cases hsource

/-! ## Keys that clients see -/

theorem mapM_eq_some {α β : Type} {f : α → Option β} {xs : List α} {ys : List β} :
    xs.mapM f = some ys ↔ List.Forall₂ (fun x y => f x = some y) xs ys := by
  induction xs generalizing ys with
  | nil => cases ys <;> simp
  | cons x xs ih =>
    simp only [List.mapM_cons, Option.bind_eq_bind, Option.bind_eq_some_iff, Option.pure_def,
      Option.some.injEq]
    constructor
    · rintro ⟨y, hy, ys', hys, rfl⟩
      exact .cons hy (ih.1 hys)
    · intro h
      cases h with
      | cons hy hys => exact ⟨_, hy, _, ih.2 hys, rfl⟩

variable {e : Entity}

/-- The fields of the key columns have the names of the columns, cased. -/
theorem names_of_keyFields (h : Projection.Shows context e p) {found : List ColumnField}
    (hkey : keyFields? p = some found) :
    List.Forall₂ (fun k f => f ∈ p.fields ∧ f.column.name = k) e.primaryKey found ∧
      found.map (·.name) = e.primaryKey.map context.fieldName := by
  unfold keyFields? at hkey
  rw [h.entity, mapM_eq_some] at hkey
  have fields : List.Forall₂ (fun k f => f ∈ p.fields ∧ f.column.name = k) e.primaryKey found :=
    hkey.imp fun k f hf => ⟨List.mem_of_find?_eq_some hf, by simpa using List.find?_some hf⟩
  refine ⟨fields, ?_⟩
  clear hkey
  generalize e.primaryKey = ks at fields
  induction fields with
  | nil => rfl
  | cons hf _ ih =>
    rw [List.map_cons, List.map_cons, (h.column_of_mem hf.1).2, hf.2]
    exact congrArg _ ih

/-- A field reads rows by key exactly if clients see the key and its columns differ. -/
theorem addressed_iff (h : Projection.Shows context e p) :
    Addressed p ↔ HasVisibleKey e ∧ e.primaryKey.Nodup := by
  constructor
  · rintro ⟨found, hkey, hnodup⟩
    obtain ⟨-, names⟩ := names_of_keyFields h hkey
    refine ⟨fun c hc => ?_, ?_⟩
    · obtain ⟨hmem, hname⟩ := e.mem_keyColumns hc
      unfold keyFields? at hkey
      rw [h.entity, mapM_eq_some] at hkey
      obtain ⟨f, -, hf⟩ := exists_of_forall₂ hkey hname
      exact (h.fieldForColumn?_eq_some hmem).1 ⟨f, hf⟩
    · rw [names] at hnodup
      exact hnodup.of_map
  · rintro ⟨visible, hnodup⟩
    have some : ∀ k ∈ e.primaryKey, ∃ f, p.fieldForColumn? k = some f := by
      intro k hk
      obtain ⟨c, hc, rfl, hkey⟩ := e.exists_keyColumn hk
      exact (h.fieldForColumn?_eq_some hc).2 (visible c hkey)
    obtain ⟨found, hfound⟩ := exists_forall₂ some
    have hkey : keyFields? p = .some found := by
      unfold keyFields?
      rw [h.entity, mapM_eq_some]
      exact hfound
    obtain ⟨fields, names⟩ := names_of_keyFields h hkey
    refine ⟨found, hkey, ?_⟩
    rw [names]
    refine hnodup.map_on fun k hk k' hk' hname => ?_
    obtain ⟨f, -, hf, rfl⟩ := exists_of_forall₂ fields hk
    obtain ⟨f', -, hf', rfl⟩ := exists_of_forall₂ fields hk'
    rw [← (h.column_of_mem hf).2, ← (h.column_of_mem hf').2] at hname
    rw [h.eq_of_name hf hf' hname]

/-! ## Fields that change rows -/

/-- What the names of the fields that change rows end in. -/
def changeSuffixes : List String := ["CreateOne", "CreateBatch", "Update", "Delete"]

theorem names_mutationFields :
    (mutationFields p).map (·.name) = changeSuffixes.map (p.queryField ++ ·) := rfl

/-- The last letters of a name. -/
def lastLetters (name : String) : List Char := name.toList.reverse.take 6

theorem lastLetters_append {s : String} (hs : s ∈ changeSuffixes) (x : String) :
    lastLetters (x ++ s) = lastLetters s := by
  have long : 6 ≤ s.toList.reverse.length := by
    revert s
    decide
  unfold lastLetters
  rw [String.toList_append, List.reverse_append, List.take_append_of_le_length long]

/-- Fields that change rows of different entities differ in the names of the entities. -/
theorem eq_of_append_suffix {x y s t : String} (hs : s ∈ changeSuffixes)
    (ht : t ∈ changeSuffixes) (h : x ++ s = y ++ t) : x = y := by
  have letters : lastLetters s = lastLetters t := by
    rw [← lastLetters_append hs x, ← lastLetters_append ht y, h]
  have distinct : ∀ s ∈ changeSuffixes, ∀ t ∈ changeSuffixes,
      lastLetters s = lastLetters t → s = t := by decide
  obtain rfl := distinct s hs t ht letters
  exact append_left_inj h

theorem nodup_names_mutationFields : ((mutationFields p).map (·.name)).Nodup := by
  rw [names_mutationFields]
  refine List.Nodup.map (fun s t h => ?_) (by decide)
  have chars := congrArg String.toList h
  rw [String.toList_append, String.toList_append] at chars
  exact String.toList_injective (List.append_cancel_left chars)

end Graph

/-! ## The roots of a schema -/

/-- The name of the field of the root that lists an entity. -/
def Builder.rootName (b : Builder) (e : Entity) : String :=
  b.context.fieldName (b.context.typeName e.name)

/--
The lists of different entities have different names, none of them has the name of a field that
reads by key, and keys that clients see have no column twice.
-/
structure Builder.RootsApart (b : Builder) : Prop where
  lists : ∀ e ∈ b.entities, ∀ f ∈ b.entities, b.rootName e = b.rootName f → e.name = f.name
  keys : ∀ e ∈ b.entities, ∀ f ∈ b.entities, HasVisibleKey f →
    b.rootName e ≠ b.rootName f ++ "ByPk"
  once : ∀ e ∈ b.entities, HasVisibleKey e → e.primaryKey.Nodup

/-- The projections of the entities that can be changed, in the order of their registration. -/
def SealedSchema.changed (schema : SealedSchema) (mutable : List String) : List Projection :=
  mutable.filterMap fun name => schema.projections.find? fun p => p.name = name

/-- Every entity keeps the fields of the roots that are made for it. -/
structure SealedSchema.KeepsRoots (schema : SealedSchema) (mutable : List String) : Prop where
  /-- The fields of the root of queries have different names. -/
  queryNames :
    ((schema.projections.flatMap (queryFields schema.context)).map (·.name)).Nodup
  /-- The fields of the root of mutations have different names. -/
  mutationNames : (((schema.changed mutable).flatMap mutationFields).map (·.name)).Nodup
  /-- Every entity is listed. -/
  list {p : Projection} (hp : p ∈ schema.projections) :
    ∃ f, schema.types.fieldOf? queryName p.queryField = some f ∧ f.source = .connection p
  /-- A row of every entity whose key clients see is read by it. -/
  byKey {p : Projection} (hp : p ∈ schema.projections) (visible : HasVisibleKey p.entity) :
    ∃ f, schema.types.fieldOf? queryName (p.queryField ++ "ByPk") = some f ∧
      f.source = .byKey p
  /-- Every entity that can be changed has its four fields. -/
  changes {p : Projection} (hp : p ∈ schema.projections) (hmutable : p.name ∈ mutable)
    {f : OutputField} (hf : f ∈ mutationFields p) :
    schema.types.fieldOf? mutationName f.name = some f

/-! ## Casings -/

namespace Text

theorem isLower_toUpper (c : Char) : c.toUpper.isLower = false := by
  unfold Char.toUpper Char.isLower
  simp only [ge_iff_le, UInt32.le_iff_toNat_le, Bool.and_eq_false_iff, decide_eq_false_iff_not]
  have : 'a'.val.toNat = 97 := rfl
  have : 'z'.val.toNat = 122 := rfl
  split
  · rename_i h
    have : ('A'.val - 'a'.val).toNat = 4294967264 := by decide
    simp only [UInt32.toNat_add]
    omega
  · omega

/-- Names in capitals have no small letter. -/
theorem isLower_upperCamel {name : String} {c : Char} (hc : c ∈ (upperCamel name).toList) :
    c.isLower = false := by
  have capitals : (upperCamel name).toList = (pascalCase name).toList.map Char.toUpper :=
    String.toList_map
  rw [capitals] at hc
  obtain ⟨d, -, rfl⟩ := List.mem_map.1 hc
  exact isLower_toUpper d

end Text

namespace Builder

variable {context : Context} {b : Builder} {schema : SealedSchema} {p : Projection}

theorem rootName_eq (built : b.build = .ok schema) (hp : p ∈ schema.projections) :
    b.rootName p.entity = p.queryField := by
  obtain ⟨-, shows⟩ := shows_entity built hp
  rw [shows.queryField, shows.typeName]
  rfl

/-- The names of the query fields differ exactly if no list has the name of another field. -/
theorem nodup_queryNames_iff (registered : b.Registered) (built : b.build = .ok schema) :
    ((schema.projections.flatMap (queryFields schema.context)).map (·.name)).Nodup ↔
      (∀ p ∈ schema.projections, ∀ q ∈ schema.projections,
        p.queryField = q.queryField → p = q) ∧
      ∀ p ∈ schema.projections, ∀ q ∈ schema.projections, Addressed q →
        p.queryField ≠ q.queryField ++ "ByPk" := by
  rw [List.map_flatMap]
  constructor
  · intro distinct
    refine ⟨fun p hp q hq hname => ?_, fun p hp q hq addressed hname => ?_⟩
    · exact eq_of_mem_flatMap distinct hp hq (mem_names_queryFields.2 (.inl rfl))
        (mem_names_queryFields.2 (.inl hname))
    · obtain rfl := eq_of_mem_flatMap distinct hp hq (mem_names_queryFields.2 (.inl rfl))
        (mem_names_queryFields.2 (.inr ⟨addressed, hname⟩))
      exact append_ne_self p.queryField (by decide) hname
  · rintro ⟨lists, keys⟩
    refine nodup_flatMap_of_name (registered.projections built)
      (fun _ _ => nodup_names_queryFields) fun p hp q hq name hnp hnq => ?_
    rcases mem_names_queryFields.1 hnp with rfl | ⟨addressed, rfl⟩ <;>
      rcases mem_names_queryFields.1 hnq with hname | ⟨addressed', hname⟩
    · rw [lists p hp q hq hname]
    · exact absurd hname (keys p hp q hq addressed')
    · exact absurd hname.symm (keys q hq p hp addressed)
    · rw [lists p hp q hq (append_left_inj hname)]

/-- The entities that can be changed are found by their names. -/
theorem Registered.mem_changed (registered : b.Registered) (built : b.build = .ok schema) :
    (∀ p, p ∈ schema.changed b.mutable ↔ p ∈ schema.projections ∧ p.name ∈ b.mutable) ∧
      ((schema.changed b.mutable).map (·.name)).Nodup := by
  have distinct := registered.projections built
  have found {name : String} {p : Projection} :
      (schema.projections.find? fun p => p.name = name) = some p ↔
        p ∈ schema.projections ∧ p.name = name := by
    constructor
    · exact fun h => ⟨List.mem_of_find?_eq_some h, by simpa using List.find?_some h⟩
    · rintro ⟨hp, rfl⟩
      exact find?_name distinct hp
  refine ⟨fun p => ?_, ?_⟩
  · unfold SealedSchema.changed
    rw [List.mem_filterMap]
    simp only [found]
    constructor
    · rintro ⟨name, hmutable, hp, rfl⟩
      exact ⟨hp, hmutable⟩
    · exact fun ⟨hp, hmutable⟩ => ⟨p.name, hmutable, hp, rfl⟩
  · refine List.pairwise_map.2 (List.pairwise_filterMap.2 (registered.mutable.imp ?_))
    intro name name' hne p hp p' hp' hname
    rw [← (found.1 hp).2, ← (found.1 hp').2] at hne
    exact hne hname

theorem nodup_mutationNames (registered : b.Registered) (built : b.build = .ok schema)
    (lists : ∀ p ∈ schema.projections, ∀ q ∈ schema.projections,
      p.queryField = q.queryField → p = q) :
    (((schema.changed b.mutable).flatMap mutationFields).map (·.name)).Nodup := by
  obtain ⟨mem, distinct⟩ := registered.mem_changed built
  rw [List.map_flatMap]
  refine nodup_flatMap_of_name distinct (fun _ _ => nodup_names_mutationFields)
    fun p hp q hq name hnp hnq => ?_
  rw [names_mutationFields] at hnp hnq
  obtain ⟨s, hs, rfl⟩ := List.mem_map.1 hnp
  obtain ⟨t, ht, hname⟩ := List.mem_map.1 hnq
  rw [lists p ((mem p).1 hp).1 q ((mem q).1 hq).1 (eq_of_append_suffix hs ht hname.symm)]

/-! ## Lookups -/

theorem soundFields {name : String} {fields : List OutputField} {s : TypeSystem}
    (hs : s.check = .ok ()) (h : ⟨name, .object fields⟩ ∈ s.allTypes) :
    ∀ f ∈ fields, f.name ≠ TypeSystem.typeNameField.name := by
  intro f hf hname
  obtain ⟨_, -, hs⟩ := bind_eq_ok.1 hs
  split_ifs at hs with distinct sound
  have own := List.all_eq_true.1 (by simpa using sound) _ h
  have plain := List.all_eq_true.1 ((Bool.and_eq_true _ _).mp
    ((Bool.and_eq_true _ _).mp own).2).2 f hf
  rw [hname] at plain
  exact absurd plain (by decide +kernel)

section Query

variable (built : b.build = .ok schema)
  (distinct : ((schema.projections.flatMap (queryFields schema.context)).map (·.name)).Nodup)
include built distinct

theorem query_eq :
    schema.types.query = schema.projections.flatMap (queryFields schema.context) := by
  obtain ⟨context, query, -⟩ := roots_of_build built
  rw [← context] at query
  exact query.trans (@foldl_setOutput _ [] distinct)

/-- With different names, every field of the root of queries is found by its name. -/
theorem fieldOf?_query {f : OutputField} (hp : p ∈ schema.projections)
    (hf : f ∈ queryFields schema.context p) :
    schema.types.fieldOf? queryName f.name = some f := by
  obtain ⟨-, -, -, -, hcheck⟩ := build_eq_ok built
  have fields := query_eq built distinct
  have mem : f ∈ schema.types.query := by
    rw [fields]
    exact List.mem_flatMap.2 ⟨p, hp, hf⟩
  have root : ⟨queryName, .object schema.types.query⟩ ∈ schema.types.allTypes :=
    List.mem_append_left _ (List.mem_append_right _ List.mem_cons_self)
  have other := soundFields hcheck root f mem
  unfold TypeSystem.fieldOf?
  show (if f.name = _ then _ else schema.types.query.find? _) = _
  rw [if_neg other]
  exact find?_name (by rwa [fields]) mem

/-- What is found under a name is a field of an entity, or tells the type. -/
theorem mem_query_of_fieldOf? {name : String} {f : OutputField}
    (hf : schema.types.fieldOf? queryName name = some f) :
    f ∈ TypeSystem.typeNameField :: schema.projections.flatMap (queryFields schema.context) := by
  unfold TypeSystem.fieldOf? at hf
  replace hf : (if name = TypeSystem.typeNameField.name then some TypeSystem.typeNameField
    else schema.types.query.find? fun f => f.name = name) = some f := hf
  split_ifs at hf
  · cases hf
    exact List.mem_cons_self
  · rw [← query_eq built distinct]
    exact List.mem_cons_of_mem _ (List.mem_of_find?_eq_some hf)

end Query

/-- With different names, every field of the root of mutations is found by its name. -/
theorem fieldOf?_mutation (built : b.build = .ok schema)
    (distinct : (((schema.changed b.mutable).flatMap mutationFields).map (·.name)).Nodup)
    {f : OutputField} (hp : p ∈ schema.changed b.mutable) (hf : f ∈ mutationFields p) :
    schema.types.fieldOf? mutationName f.name = some f := by
  obtain ⟨-, -, -, -, hcheck⟩ := build_eq_ok built
  obtain ⟨-, -, mutation⟩ := roots_of_build built
  have fields : schema.types.mutation =
      some ((schema.changed b.mutable).flatMap mutationFields) := by
    have some : ¬ b.mutable.isEmpty = true := by
      intro empty
      rw [List.isEmpty_iff.1 empty] at hp
      cases hp
    rw [mutation, mutationRoot, if_neg some]
    exact congrArg _ (@foldl_setOutput _ [] distinct)
  have mem : f ∈ (schema.changed b.mutable).flatMap mutationFields :=
    List.mem_flatMap.2 ⟨p, hp, hf⟩
  have last : ⟨mutationName, .object ((schema.changed b.mutable).flatMap mutationFields)⟩ ∈
      schema.types.allTypes := by
    unfold TypeSystem.allTypes
    rw [fields]
    exact List.mem_append_right _ List.mem_cons_self
  have other := soundFields hcheck last f mem
  have body : schema.types.objectFields? mutationName =
      some ((schema.changed b.mutable).flatMap mutationFields) := by
    have root : schema.types.body? mutationName =
        schema.types.mutation.map TypeBody.object := rfl
    unfold TypeSystem.objectFields?
    rw [root, fields]
    rfl
  unfold TypeSystem.fieldOf?
  rw [body]
  dsimp only
  rw [if_neg other]
  exact find?_name distinct mem

end Builder

section Kept

variable {context : Context} {b : Builder} {schema : SealedSchema}

theorem rootsApart_of_keepsRoots (registered : b.Registered) (built : b.build = .ok schema)
    (kept : schema.KeepsRoots b.mutable) : b.RootsApart := by
  obtain ⟨lists, keys⟩ := (Builder.nodup_queryNames_iff registered built).1 kept.queryNames
  have addressed {p : Projection} (hp : p ∈ schema.projections)
      (visible : HasVisibleKey p.entity) : Addressed p := by
    obtain ⟨f, hf, hsource⟩ := kept.byKey hp visible
    rcases List.mem_cons.1 (Builder.mem_query_of_fieldOf? built kept.queryNames hf) with
      rfl | mem
    · cases hsource
    · obtain ⟨q, -, hfq⟩ := List.mem_flatMap.1 mem
      obtain ⟨-, fields, hkey, hnodup, -⟩ := byKey_of_mem hfq hsource
      exact ⟨fields, hkey, hnodup⟩
  refine ⟨?_, ?_, ?_⟩
  · intro e he e' he' hname
    obtain ⟨p, hp, hshows⟩ := Builder.exists_shows built he
    obtain ⟨q, hq, hshows'⟩ := Builder.exists_shows built he'
    obtain rfl := hshows.entity
    obtain rfl := hshows'.entity
    rw [Builder.rootName_eq built hp, Builder.rootName_eq built hq] at hname
    rw [lists p hp q hq hname]
  · intro e he e' he' visible hname
    obtain ⟨p, hp, hshows⟩ := Builder.exists_shows built he
    obtain ⟨q, hq, hshows'⟩ := Builder.exists_shows built he'
    obtain rfl := hshows.entity
    obtain rfl := hshows'.entity
    rw [Builder.rootName_eq built hp, Builder.rootName_eq built hq] at hname
    exact keys p hp q hq (addressed hq visible) hname
  · intro e he visible
    obtain ⟨p, hp, hshows⟩ := Builder.exists_shows built he
    obtain rfl := hshows.entity
    exact ((addressed_iff hshows).1 (addressed hp visible)).2

theorem keepsRoots_of_rootsApart (registered : b.Registered) (built : b.build = .ok schema)
    (apart : b.RootsApart) : schema.KeepsRoots b.mutable := by
  obtain ⟨lists, keys, once⟩ := apart
  have same : ∀ p ∈ schema.projections, ∀ q ∈ schema.projections,
      p.queryField = q.queryField → p = q := by
    intro p hp q hq hname
    rw [← Builder.rootName_eq built hp, ← Builder.rootName_eq built hq] at hname
    exact List.inj_on_of_nodup_map (registered.projections built) hp hq
      (lists _ (Builder.shows_entity built hp).1 _ (Builder.shows_entity built hq).1 hname)
  have other : ∀ p ∈ schema.projections, ∀ q ∈ schema.projections, Addressed q →
      p.queryField ≠ q.queryField ++ "ByPk" := by
    intro p hp q hq addressed hname
    obtain ⟨he, hshows⟩ := Builder.shows_entity built hq
    rw [← Builder.rootName_eq built hp, ← Builder.rootName_eq built hq] at hname
    exact keys _ (Builder.shows_entity built hp).1 _ he ((addressed_iff hshows).1 addressed).1
      hname
  have queryNames := (Builder.nodup_queryNames_iff registered built).2 ⟨same, other⟩
  have mutationNames := Builder.nodup_mutationNames registered built same
  refine ⟨queryNames, mutationNames, ?_, ?_, ?_⟩
  · intro p hp
    obtain ⟨f, hf, hname, hsource⟩ := @exists_list schema.context p
    exact ⟨f, hname ▸ Builder.fieldOf?_query built queryNames hp hf, hsource⟩
  · intro p hp visible
    obtain ⟨he, hshows⟩ := Builder.shows_entity built hp
    have addressed := (addressed_iff hshows).2 ⟨visible, once _ he visible⟩
    obtain ⟨f, hf, hname, hsource⟩ := @exists_byKey schema.context p addressed
    exact ⟨f, hname ▸ Builder.fieldOf?_query built queryNames hp hf, hsource⟩
  · intro p hp hmutable f hf
    have changed := ((registered.mem_changed built).1 p).2 ⟨hp, hmutable⟩
    exact Builder.fieldOf?_mutation built mutationNames changed hf

/-- No entity loses a field of the roots exactly if the names of the fields are apart. -/
theorem keepsRoots_iff (reached : b.Reached context) (built : b.build = .ok schema) :
    schema.KeepsRoots b.mutable ↔ b.RootsApart :=
  ⟨rootsApart_of_keepsRoots reached.registered built,
    keepsRoots_of_rootsApart reached.registered built⟩

end Kept

section Names

open Sample.Names

theorem reached_names (names : List String) : (builder names).Reached {} := .registerAll .empty _

theorem keepsRoots_iff_films : ∃ schema, (builder ["film", "actor"]).build = .ok schema ∧
    (schema.KeepsRoots (builder ["film", "actor"]).mutable ↔
      (builder ["film", "actor"]).RootsApart) := by
  obtain ⟨schema, built⟩ : ∃ schema, (builder ["film", "actor"]).build = .ok schema :=
    exists_of_isOk (by decide +kernel)
  exact ⟨schema, built, keepsRoots_iff (reached_names _) built⟩

/--
The list of one table has the name of the field that reads another by key; the lists of two tables
whose types have different names have one name.
-/
theorem roots_overwritten :
    (∃ schema, (builder ["film", "film_by_pk"]).build = .ok schema ∧
      ¬schema.KeepsRoots (builder ["film", "film_by_pk"]).mutable) ∧
    ∃ schema, (builder ["a_b", "ab"]).build = .ok schema ∧
      ¬schema.KeepsRoots (builder ["a_b", "ab"]).mutable := by
  constructor
  · obtain ⟨schema, built⟩ : ∃ schema, (builder ["film", "film_by_pk"]).build = .ok schema :=
      exists_of_isOk (by decide +kernel)
    refine ⟨schema, built, fun kept => ?_⟩
    have apart := rootsApart_of_keepsRoots (reached_names _).registered built kept
    have entities : (builder ["film", "film_by_pk"]).entities =
        [named "film", named "film_by_pk"] := by with_unfolding_all rfl
    refine apart.keys (named "film_by_pk") (by simp [entities]) (named "film") (by simp [entities])
      ?_ (by decide +kernel)
    unfold HasVisibleKey
    decide
  · obtain ⟨schema, built⟩ : ∃ schema, (builder ["a_b", "ab"]).build = .ok schema :=
      exists_of_isOk (by decide +kernel)
    refine ⟨schema, built, fun kept => ?_⟩
    have apart := rootsApart_of_keepsRoots (reached_names _).registered built kept
    have entities : (builder ["a_b", "ab"]).entities = [named "a_b", named "ab"] := by
      with_unfolding_all rfl
    have one := apart.lists (named "a_b") (by simp [entities]) (named "ab") (by simp [entities])
      (by decide +kernel)
    exact absurd one (by decide)

end Names

end TableGraph
