import TableGraph.Proofs.Coalesce.Filters
import TableGraph.Proofs.Filter.Operands
import TableGraph.Proofs.Filter.Reading
import TableGraph.Proofs.Registered
import TableGraph.Sample.Registered

/-!
# Refused filters

A filter of the type of an entity is compiled, or the fault tells what is wrong with it, exactly if
every family suits the column it filters (`Filter.failsWith_compile_iff`).  Two kinds of operands
make a comparison fail behind the types: truth values have no order, and only texts are searched
for.  `FilterFamily.suits` tells from the types alone whether a column makes such values of the
operands of a family.
-/

namespace TableGraph

open TableGraph.Graph

/-! ## Operators -/

namespace Operator

/-- The operator compares by size with one operand. -/
def isOrdering : Operator → Bool
  | gt | gte | lt | lte => true
  | _ => false

/-- The operator searches for a text. -/
def isSearch : Operator → Bool
  | contains | startsWith | endsWith => true
  | _ => false

/-- Enumerations are neither ordered nor searched in. -/
theorem plain_of_ofEnumeration :
    ∀ o ∈ ofEnumeration, o.isOrdering = false ∧ o.isSearch = false := by
  decide

end Operator

/-- One family searches for texts. -/
theorem FilterFamily.eq_string {family : FilterFamily} {o : Operator} (ho : o ∈ family.operators)
    (hsearch : o.isSearch) : family = .string := by
  revert ho hsearch
  cases family <;> cases o <;> decide

/-- No operand of the family becomes a truth value in a column of the type, and texts stay texts if
the family searches for them. -/
def FilterFamily.suits (family : FilterFamily) (type : ColumnType) : Bool :=
  !type.readsTruth (Builder.familyKind family) && !(family = .string && type.convertsTexts)

/-- The family of a type suits it, unless the type is that of truth values. -/
theorem FilterFamily.suits_iff_of_ofColumnType? {family : FilterFamily} {type : ColumnType}
    (h : ofColumnType? type = some family) :
    family.suits type ↔ ∀ label, type ≠ .basic .bool label := by
  cases type with
  | basic kind label =>
    cases kind with
    | bool =>
      cases h
      exact iff_of_false nofun fun hne => hne label rfl
    | integer k => cases k <;> cases h <;> exact iff_of_true rfl nofun
    | _ => cases h <;> exact iff_of_true rfl nofun
  | _ => cases h

-- Dates have the family of texts that are compared; the one that searches does not suit them.
example : FilterFamily.text.suits (.plain .date) ∧ ¬FilterFamily.string.suits (.plain .date) := by
  decide

theorem Test.failsWith_ordered {P : Fault → Prop} {c : Comparison} {v : Value} (hnull : v ≠ .null)
    (htruth : ∀ b, v ≠ .bool b) : FailsWith P (ordered c v) := by
  cases v with
  | null => exact absurd rfl hnull
  | bool b => exact absurd rfl (htruth b)
  | _ => exact failsWith_ok _

namespace Filter

variable {codec : Codec} {f : ColumnField} {filter : ColumnFilter} {path : String} {o : Operator}
  {v : Value}

theorem failsWith_present : FailsWith (·.isFilter) (present path v) := by
  unfold present
  split
  · exact failsWith_error rfl
  · exact failsWith_ok _

theorem failsWith_bounds {vs : List Value} : FailsWith (·.isFilter) (bounds path vs) := by
  unfold bounds
  split
  · exact failsWith_ok _
  · exact failsWith_error rfl

theorem failsWith_patternText : FailsWith (·.isFilter) (patternText path v) := by
  unfold patternText
  split
  · exact failsWith_error rfl
  · exact failsWith_ok _

/-- The fault of an operator is that of the filter that asks nothing else. -/
theorem compile_single_eq_error {p : Projection} (hf : IsFilterField p f)
    (hfilter : f.filter = some filter) (ho : o ∈ filter.operators) {e : Fault}
    (h : columnTest codec f (f.path ++ "." ++ o.name) o v = .error e) :
    compile codec p (single f.name o.name v) = .error e := by
  rw [compile_single hf hfilter (operatorOf_of_mem ho), h]
  rfl

/-- Truth values are not compared by size. -/
theorem columnTest_gt_truth {b : Bool} (h : decode codec f path v = .ok (.bool b)) :
    columnTest codec f path .gt v = .error .truthOrdering := by
  unfold columnTest
  dsimp only
  rw [h]
  rfl

/-- Only texts are searched for. -/
theorem columnTest_contains_other {d : Value} (h : decode codec f path v = .ok d)
    (hnull : d ≠ .null) (htext : ∀ s, d ≠ .text s) : columnTest codec f path .contains v =
      .error (.wrongKind "String value expected when autoescape=True") := by
  unfold columnTest
  dsimp only
  rw [h]
  cases d with
  | null => exact absurd rfl hnull
  | text s => exact absurd rfl (htext s)
  | _ => rfl

/--
What clients send for a field suits some operators: operands are values of the column or they are
refused, comparisons by size get no truth values, and searches get texts.
-/
structure Suited (codec : Codec) (f : ColumnField) (operators : List Operator)
    (Sent : Value → Prop) : Prop where
  decodes : ∀ path v, Sent v → FailsWith (·.isFilter) (decode codec f path v)
  orders : ∀ o ∈ operators, o.isOrdering → ∀ path v b, Sent v →
    decode codec f path v ≠ .ok (.bool b)
  searches : ∀ o ∈ operators, o.isSearch → ∀ path v d, Sent v →
    decode codec f path v = .ok d → d ≠ .null → ∃ s, d = .text s

namespace Suited

variable {operators : List Operator} {Sent : Value → Prop}

theorem failsWith_decodeList (h : Suited codec f operators Sent)
    (hv : v = .null ∨ ∃ items, v = .list items ∧ ∀ u ∈ items, Sent u) :
    FailsWith (·.isFilter) (decodeList codec f path v) := by
  rcases hv with rfl | ⟨items, rfl, hitems⟩
  · exact failsWith_error rfl
  · exact failsWith_mapM fun u hu => h.decodes path u (hitems u hu)

theorem failsWith_bounded (h : Suited codec f operators Sent)
    (hv : v = .null ∨ ∃ items, v = .list items ∧ ∀ u ∈ items, Sent u) {negated : Bool} :
    FailsWith (·.isFilter) (do
      let (low, high) ← bounds path (← decodeList codec f path v)
      .ok (Test.between negated low high)) :=
  (h.failsWith_decodeList hv).bind fun _ _ =>
    failsWith_bounds.bind fun _ _ => failsWith_ok _

theorem failsWith_compared (h : Suited codec f operators Sent) (ho : o ∈ operators)
    (hordering : o.isOrdering) (hv : Sent v) {c : Comparison} :
    FailsWith (·.isFilter) (do
      let operand ← decode codec f path v
      let operand ← present path operand
      Test.ordered c operand) := by
  refine (h.decodes path v hv).bind fun d hd => ?_
  refine failsWith_present.bind fun e he => ?_
  obtain ⟨rfl, hnull⟩ := present_eq_ok he
  refine Test.failsWith_ordered hnull fun b hb => ?_
  subst hb
  exact h.orders o ho hordering path v b hv hd

theorem failsWith_contained (h : Suited codec f operators Sent) (ho : o ∈ operators)
    (hsearch : o.isSearch) (hv : Sent v) {place : Place} :
    FailsWith (·.isFilter) (do
      let operand ← decode codec f path v
      let operand ← present path operand
      (.part place <$> needleText operand : Except Fault (Test Value))) := by
  refine (h.decodes path v hv).bind fun d hd => ?_
  refine failsWith_present.bind fun e he => ?_
  obtain ⟨rfl, hnull⟩ := present_eq_ok he
  obtain ⟨s, rfl⟩ := h.searches o ho hsearch path v e hv hd hnull
  exact failsWith_ok _

/-- An operator gets what it takes. -/
theorem failsWith_columnTest (h : Suited codec f operators Sent) (ho : o ∈ operators)
    (single : o.takesList = false → Sent v)
    (several : o.takesList = true → v = .null ∨ ∃ items, v = .list items ∧ ∀ u ∈ items, Sent u) :
    FailsWith (·.isFilter) (columnTest codec f path o v) := by
  cases o with
  | eq | ne => exact (h.decodes path v (single rfl)).map _
  | gt | gte | lt | lte => exact h.failsWith_compared ho rfl (single rfl)
  | isIn | isNotIn => exact (h.failsWith_decodeList (several rfl)).map _
  | isNull | isNotNull => exact failsWith_ok _
  | between | notBetween => exact h.failsWith_bounded (several rfl)
  | contains | startsWith | endsWith => exact h.failsWith_contained ho rfl (single rfl)
  | like | notLike => exact failsWith_patternText.map _

end Suited

/-! ## Trees -/

/-- The type of filters has the fields of the entity, and what is sent for each of them suits its
operators. -/
structure FieldsSuited (s : TypeSystem) (codec : Codec) (p : Projection) : Prop where
  input : s.inputFields? p.filterTypeName = some (Builder.filterInputs p)
  fields : ∀ f ∈ p.fields, f.name ≠ "and" → f.name ≠ "or" → ∀ filter, f.filter = some filter →
    ∃ base, s.inputFields? filter.typeName =
        some (operatorFields (.named base) filter.operators) ∧
      Suited codec f filter.operators fun v => Conforms s v (.named base)

section Trees

variable {s : TypeSystem} {p : Projection} {name : String}

theorem failsWith_operatorTest {base : String}
    (h : Suited codec f filter.operators fun v => Conforms s v (.named base))
    (hv : Sendable s (operatorFields (.named base) filter.operators) (name, v)) :
    FailsWith (·.isFilter) (operatorTest codec f filter name v) := by
  obtain ⟨type, htype, hv⟩ := hv
  obtain ⟨o, ho, rfl, rfl⟩ := typeOf?_operatorFields htype
  unfold operatorTest
  rw [operatorOf_of_mem ho]
  refine (h.failsWith_columnTest ho (fun hsingle => ?_) fun hlist => ?_).bind
    fun _ _ => failsWith_ok _
  · rwa [hsingle] at hv
  · rw [hlist] at hv
    refine hv.list_cases.imp_right fun ⟨items, hitems, each⟩ => ⟨items, hitems, fun u hu => ?_⟩
    exact (each u hu).of_nonNull.2

theorem failsWith_fieldTests (h : FieldsSuited s codec p) (hand : name ≠ "and") (hor : name ≠ "or")
    (hv : Sendable s (Builder.filterInputs p) (name, v)) :
    FailsWith (·.isFilter) (fieldTests codec p name v) := by
  obtain ⟨type, htype, hv⟩ := hv
  rw [typeOf?_filterInputs, if_neg (not_or.2 ⟨hand, hor⟩)] at htype
  obtain ⟨f, hfind, htype⟩ := Option.bind_eq_some_iff.1 htype
  obtain ⟨filter, hfilter, rfl⟩ := Option.map_eq_some_iff.1 htype
  obtain rfl : f.name = name := by simpa using List.find?_some hfind
  have hmem : f ∈ p.fields := List.mem_of_mem_filter (List.mem_of_find?_eq_some hfind)
  obtain ⟨base, htypes, suited⟩ := h.fields f hmem hand hor filter hfilter
  rcases hv.input_cases htypes with rfl | ⟨sent, rfl, hsent⟩
  · unfold fieldTests
    rw [hfind]
    exact failsWith_ok _
  · obtain ⟨filter', hfilter', tests⟩ := fieldTests_eq codec hfind
    obtain rfl : filter = filter' := Option.some.inj (hfilter.symm.trans hfilter')
    rw [tests]
    exact failsWith_mapM fun e he => failsWith_operatorTest suited (hsent e he)

theorem failsWith_subtrees (hv : Conforms s v (.list (required p.filterTypeName)))
    (ih : ∀ u ∈ subtreesOf v, Conforms s u (.named p.filterTypeName) →
      FailsWith (·.isFilter) (conjuncts codec p u)) :
    FailsWith (·.isFilter) (subtrees codec p v) := by
  rcases hv.list_cases with rfl | ⟨items, rfl, hitems⟩
  · exact failsWith_ok _
  · unfold subtrees
    rw [branches_eq]
    exact failsWith_mapM fun u hu => ih u hu (hitems u hu).of_nonNull.2

theorem failsWith_entry (h : FieldsSuited s codec p)
    (hv : Sendable s (Builder.filterInputs p) (name, v))
    (ih : ∀ u ∈ subtreesOf v, Conforms s u (.named p.filterTypeName) →
      FailsWith (·.isFilter) (conjuncts codec p u)) :
    FailsWith (·.isFilter) (entry codec p name v) := by
  have trees : name = "and" ∨ name = "or" →
      Conforms s v (.list (required p.filterTypeName)) := by
    intro htree
    obtain ⟨type, htype, hv⟩ := hv
    rw [typeOf?_filterInputs, if_pos htree] at htype
    cases htype
    exact hv
  unfold entry
  split_ifs with hand hor
  · exact (failsWith_subtrees (trees (.inl hand)) ih).map _
  · exact (failsWith_subtrees (trees (.inr hor)) ih).map _
  · exact failsWith_fieldTests h hand hor hv

/-- The conjuncts of a tree are read, or the fault tells what is wrong with it. -/
theorem failsWith_conjuncts (h : FieldsSuited s codec p)
    (hv : Conforms s v (.named p.filterTypeName)) :
    FailsWith (·.isFilter) (conjuncts codec p v) := by
  induction v using tree_induction with
  | object fields ih =>
    rcases hv.input_cases h.input with hnull | ⟨_, hobject, hfields⟩
    · cases hnull
    cases hobject
    rw [conjuncts_object]
    exact (failsWith_mapM fun e he => failsWith_entry h (hfields e he) (ih e he)).map _
  | other v hother =>
    rcases hv.input_cases h.input with rfl | ⟨fields, rfl, -⟩
    · exact failsWith_ok _
    · exact absurd rfl (hother fields)

theorem failsWith_compile (h : FieldsSuited s codec p)
    (hv : Conforms s v (.named p.filterTypeName)) :
    FailsWith (·.isFilter) (compile codec p v) := ((failsWith_conjuncts h hv).map _).map _

end Trees

/-! ## Fields -/

section Operands

variable {s : TypeSystem} {base : String} (hinput : f.override.bind (·.input) = none)
include hinput

/-- The operands of a family that suits the column suit its operators. -/
theorem suited_family (known : codec.Knows f.column.type) {family : FilterFamily}
    (hbody : s.body? base = some (.scalar (Builder.familyKind family)))
    (suits : family.suits f.column.type) :
    Suited codec f family.operators fun v => Conforms s v (.named base) := by
  have hcustom := Builder.familyKind_ne_custom family
  unfold FilterFamily.suits at suits
  rw [Bool.and_eq_true, Bool.not_eq_true', Bool.not_eq_true'] at suits
  constructor
  case decodes =>
    intro path v hv
    rcases hv.scalar_cases hbody with rfl | htakes
    · exact failsWith_ok _
    · exact failsWith_decode hinput (htakes.operand hcustom)
  case orders =>
    intro o _ _ path v b hv h
    rcases hv.scalar_cases hbody with rfl | htakes
    · cases h
    · have hoperand := htakes.operand hcustom
      have truth := Codec.readsTruth_of_parse known hcustom hoperand htakes.wraps
        ((decode_eq_ok hinput).1 h)
      rw [suits.1] at truth
      cases truth
  case searches =>
    intro o ho hsearch path v d hv h hnull
    rcases hv.scalar_cases hbody with rfl | htakes
    · cases h
      exact absurd rfl hnull
    · obtain rfl := FilterFamily.eq_string ho hsearch
      obtain ⟨text, rfl⟩ := htakes.wraps
      have kept : f.column.type.convertsTexts = false := by simpa using suits.2
      exact Codec.text_of_parse known kept ((decode_eq_ok hinput).1 h)

/-- The values of an enumeration suit what is asked of them. -/
theorem suited_enumeration {values : List (String × Value)}
    (hbody : s.body? base = some (.enumeration values))
    (htexts : ∀ value ∈ values, ∃ raw, value.2 = .text raw) :
    Suited codec f Operator.ofEnumeration fun v => Conforms s v (.named base) := by
  constructor
  case decodes =>
    intro path v hv
    rcases hv.enumeration_cases hbody with rfl | ⟨n, hn⟩
    · exact failsWith_ok _
    · obtain ⟨raw, hraw⟩ := htexts _ hn
      obtain rfl : v = .text raw := hraw
      exact failsWith_decode hinput (.text raw)
  case orders =>
    intro o ho hordering
    rw [(Operator.plain_of_ofEnumeration o ho).1] at hordering
    cases hordering
  case searches =>
    intro o ho hsearch
    rw [(Operator.plain_of_ofEnumeration o ho).2] at hsearch
    cases hsearch

end Operands

/-! ## Schemas -/

section Built

variable {b : Builder} {schema : SealedSchema} (built : b.build = .ok schema) {p : Projection}
  (hp : p ∈ schema.projections)
include built hp

/-- Columns are of enumerations that are known. -/
theorem knows_of_mem (hf : f ∈ p.fields) : schema.codec.Knows f.column.type := by
  obtain ⟨he, c, hc, hfield⟩ := Builder.exists_column built hp hf
  obtain ⟨rfl, -⟩ := Builder.columnField_eq_ok hfield
  rw [(Builder.build_eq_ok built).1]
  exact fun name htype => Builder.exists_enumeration built he hc htype

/-- A field stands in a filter under its name. -/
theorem isFilterField_of_mem (hf : f ∈ p.fields) (hand : f.name ≠ "and") (hor : f.name ≠ "or")
    (hfilter : f.filter = some filter) : IsFilterField p f := by
  refine ⟨hand, hor, ?_⟩
  have hmem : f ∈ p.filterFields := List.mem_filter.2 ⟨hf, by rw [hfilter]; rfl⟩
  cases hfind : p.filterFields.find? fun g => g.name = f.name with
  | none => exact absurd (decide_eq_true rfl) (List.find?_eq_none.1 hfind f hmem)
  | some g =>
    have hg : g ∈ p.fields := List.mem_of_mem_filter (List.mem_of_find?_eq_some hfind)
    have hname : g.name = f.name := by simpa using List.find?_some hfind
    rw [(Builder.shows_entity built hp).2.eq_of_name hg hf hname]

/-- An operator of a family that takes one operand is a filter of the type of the entity. -/
theorem conforms_family (hf : IsFilterField p f) {family : FilterFamily}
    (hfilter : f.filter = some (.family family)) (ho : o ∈ family.operators)
    (hsingle : o.takesList = false) (hv : (Builder.familyKind family).Takes v)
    (hoperand : Operand v) :
    Conforms schema.types (single f.name o.name v) (.named p.filterTypeName) := by
  have operand : Conforms schema.types v (.named (familyScalar family)) := by
    have leaf := (hasLeaf_scalar_iff (Builder.body?_familyScalar built family)).2 hv
    cases hoperand <;> exact leaf
  have type := typeOf?_operator (.named (familyScalar family)) ho
  rw [hsingle] at type
  exact conforms_filter built hp hf hfilter (Builder.inputFields?_family built family)
    ⟨_, type, operand⟩

variable (plain : ∀ o ∈ b.context.columnOverrides, o.2.input = none)
include plain

theorem input_of_mem (hf : f ∈ p.fields) : f.override.bind (·.input) = none := by
  obtain ⟨-, c, -, hfield⟩ := Builder.exists_column built hp hf
  rw [(Builder.columnField_eq_ok hfield).2.1]
  cases hlookup : b.context.columnOverrides.lookup f.path with
  | none => rfl
  | some o => exact plain _ (mem_of_lookup hlookup)

/-- What is sent for the fields of an entity suits their operators if the families suit the
columns. -/
theorem fieldsSuited (suits : ∀ f ∈ p.fields, f.name ≠ "and" → f.name ≠ "or" →
      ∀ family, f.filter = some (.family family) → family.suits f.column.type) :
    FieldsSuited schema.types schema.codec p where
  input := Builder.inputFields?_filter built hp
  fields := by
    intro f hf hand hor filter hfilter
    have hinput := input_of_mem built hp plain hf
    cases filter with
    | family family =>
      exact ⟨_, Builder.inputFields?_family built family, suited_family hinput
        (knows_of_mem built hp hf) (Builder.body?_familyScalar built family)
        (suits f hf hand hor family hfilter)⟩
    | enumeration name enumType =>
      obtain ⟨htypes, ⟨_, hother, -⟩ | ⟨values, hbody, htexts⟩⟩ :=
        Builder.operands_of_filter built hp hf hfilter
      · cases hother
      · exact ⟨_, htypes, suited_enumeration hinput hbody htexts⟩

/-- A family that no operand makes fail behind the types suits its column. -/
theorem suits_of_failsWith (hf : f ∈ p.fields) (hand : f.name ≠ "and") (hor : f.name ≠ "or")
    {family : FilterFamily} (hfilter : f.filter = some (.family family))
    (h : ∀ v, Conforms schema.types v (.named p.filterTypeName) →
      FailsWith (·.isFilter) (compile schema.codec p v)) : family.suits f.column.type := by
  have own := isFilterField_of_mem built hp hf hand hor hfilter
  have hinput := input_of_mem built hp plain hf
  have failing : ∀ o ∈ family.operators, o.takesList = false → ∀ v,
      (Builder.familyKind family).Takes v → Operand v → ∀ e,
      columnTest schema.codec f (f.path ++ "." ++ o.name) o v = .error e → e.isFilter := by
    intro o ho hsingle v htakes hoperand e he
    exact h _ (conforms_family built hp own hfilter ho hsingle htakes hoperand) e
      (compile_single_eq_error own hfilter ho he)
  unfold FilterFamily.suits
  rw [Bool.and_eq_true, Bool.not_eq_true', Bool.not_eq_true']
  constructor
  · refine Bool.eq_false_iff.2 fun truth => ?_
    obtain ⟨v, t, htakes, hoperand, hparse⟩ := Codec.exists_truth schema.codec truth
    have ho : .gt ∈ family.operators := by cases family <;> decide
    have fault := failing .gt ho rfl v htakes hoperand .truthOrdering
      (columnTest_gt_truth ((decode_eq_ok hinput).2 (hparse f.path)))
    cases fault
  · refine Bool.eq_false_iff.2 fun converts => ?_
    obtain ⟨hstring, converts⟩ := Bool.and_eq_true_iff.1 converts
    obtain rfl := of_decide_eq_true hstring
    obtain ⟨s, d, hnull, htext, hparse⟩ := Codec.exists_converted schema.codec converts
    have fault := failing .contains (by decide) rfl (.text s) (.inr ⟨.text s, rfl⟩) (.text s)
      (.wrongKind "String value expected when autoescape=True")
      (columnTest_contains_other ((decode_eq_ok hinput).2 (hparse f.path)) hnull htext)
    cases fault

/--
Filters of the type of an entity are compiled or refused as filters, exactly if every family that
filters a field of the entity suits its column.
-/
theorem failsWith_compile_iff :
    (∀ v, Conforms schema.types v (.named p.filterTypeName) →
      FailsWith (·.isFilter) (compile schema.codec p v)) ↔
    ∀ f ∈ p.fields, f.name ≠ "and" → f.name ≠ "or" →
      ∀ family, f.filter = some (.family family) → family.suits f.column.type :=
  ⟨fun h _ hf hand hor _ hfilter => suits_of_failsWith built hp plain hf hand hor hfilter h,
    fun suits _ hv => failsWith_compile (fieldsSuited built hp plain suits) hv⟩

end Built

section Shelves

open Sample.Shelves

theorem failsWith_compile_iff_place :
    ∃ schema, (builder ⟨"place", ["shelf_id"], ["book_id"]⟩).build = .ok schema ∧
      ∀ p ∈ schema.projections, ∀ v, Conforms schema.types v (.named p.filterTypeName) →
        FailsWith (·.isFilter) (compile schema.codec p v) := by
  obtain ⟨schema, built⟩ := exists_of_isOk isOk_build_place
  refine ⟨schema, built, fun p hp => (failsWith_compile_iff built hp nofun).2 ?_⟩
  intro f hf _ _ family hfilter
  obtain ⟨he, c, hc, hfield⟩ := Builder.exists_column built hp hf
  obtain ⟨rfl, -, hown⟩ := Builder.columnField_eq_ok hfield
  rw [hfilter] at hown
  rw [FilterFamily.suits_iff_of_ofColumnType? (Builder.family_of_columnFilter rfl hown)]
  have whole : ∀ e ∈ (builder ⟨"place", ["shelf_id"], ["book_id"]⟩).entities, ∀ c ∈ e.columns,
      c.type = .plain (.integer .regular) := by
    decide +kernel
  rw [whole p.entity he _ hc]
  nofun

end Shelves

section Items

open Sample.Items

/-- Marks, which are truth values, are compared by size. -/
theorem mark_ordered : ∃ schema, (builder context).build = .ok schema ∧
    ∃ p ∈ schema.projections,
      Conforms schema.types (single "mark" "gt" (.bool true)) (.named p.filterTypeName) ∧
      compile schema.codec p (single "mark" "gt" (.bool true)) = .error .truthOrdering := by
  obtain ⟨schema, built⟩ : ∃ schema, (builder context).build = .ok schema :=
    exists_of_isOk (by decide +kernel)
  obtain ⟨p, hp, shows⟩ := Builder.exists_shows built List.mem_cons_self
  have visible : Sample.column "mark" (.plain .bool) ∈ entity.visibleColumns := by decide
  obtain ⟨f, hf, hcolumn⟩ := shows.exists_field visible
  have hname : f.name = "mark" := by
    rw [(shows.column_of_mem hf).2, hcolumn]
    decide +kernel
  obtain ⟨-, c, -, hfield⟩ := Builder.exists_column built hp hf
  obtain ⟨rfl, hoverride, hown⟩ := Builder.columnField_eq_ok hfield
  rw [hcolumn] at hown
  have hfilter : f.filter = some (.family .boolean) := (Except.ok.inj hown).symm
  have own := isFilterField_of_mem built hp hf (by rw [hname]; decide) (by rw [hname]; decide)
    hfilter
  have conforms := conforms_family built hp own hfilter (o := .gt) (by decide) rfl
    (.inr ⟨.bool true, rfl⟩) (.bool true)
  have operand : ∀ path, decode schema.codec f path (.bool true) = .ok (.bool true) := fun path =>
    (decode_eq_ok (by rw [hoverride]; rfl)).2 (by rw [hcolumn]; rfl)
  have compiled := compile_single_eq_error own hfilter (o := .gt) (by decide)
    (columnTest_gt_truth (operand _))
  rw [← hname]
  exact ⟨schema, built, p, hp, conforms, compiled⟩

end Items

end Filter

end TableGraph
