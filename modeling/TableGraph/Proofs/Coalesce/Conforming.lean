import TableGraph.Graph.InputValue
import TableGraph.Load.Key
import TableGraph.Proofs.Load.Plain

/-!
# Values of input types

What arguments carry is of the types they are declared with: scalars hold what they read from a
document or a variable, enumerations one of their values, lists and input objects values of the
types inside (`Conforms`).

Scalars other than floats, and enumerations of texts, hold only values that are told apart by what
identifies them (`exact_scalar`, `exact_enumeration`); so do lists of them.
-/

namespace TableGraph.Graph

/-- A value that the scalar reads, from a document or from a variable. -/
def ScalarKind.Takes (kind : ScalarKind) (v : Value) : Prop :=
  (∃ bindings l, kind.ofLiteral? bindings l = some v) ∨ ∃ sent, kind.ofValue? sent = some v

/-- A value of a scalar or of an enumeration. -/
def HasLeaf (s : TypeSystem) (name : String) (v : Value) : Prop :=
  match s.body? name with
  | some (.scalar kind) => kind.Takes v
  | some (.enumeration values) => ∃ n, (n, v) ∈ values
  | _ => False

mutual

/-- The value is of the type. -/
def Conforms (s : TypeSystem) : Value → TypeRef → Prop
  | .null, t => t.isNonNull = false
  | .list items, t =>
    match t.nullable with
    | .list inner => AllConform s items inner
    | .named name => HasLeaf s name (.list items)
    | .nonNull _ => False
  | .object fields, t =>
    match t.nullable with
    | .named name =>
      match s.inputFields? name with
      | some types => hasRequired types (fields.map (·.1)) ∧ FieldsConform s fields types
      | none => HasLeaf s name (.object fields)
    | _ => False
  | v, t =>
    match t.nullable with
    | .named name => HasLeaf s name v
    | _ => False
termination_by structural v => v

/-- All values are of the type. -/
def AllConform (s : TypeSystem) : List Value → TypeRef → Prop
  | [], _ => True
  | v :: vs, t => Conforms s v t ∧ AllConform s vs t
termination_by structural vs => vs

/-- The fields are known and of their types. -/
def FieldsConform (s : TypeSystem) : List (String × Value) → List InputField → Prop
  | [], _ => True
  | (name, v) :: fields, types =>
    (match typeOf? types name with
      | some t => Conforms s v t
      | none => False) ∧ FieldsConform s fields types
termination_by structural fields => fields

end

variable {s : TypeSystem} {t : TypeRef} {v : Value}

theorem allConform_iff {vs : List Value} : AllConform s vs t ↔ ∀ v ∈ vs, Conforms s v t := by
  induction vs with
  | nil => exact iff_of_true trivial nofun
  | cons v vs ih => rw [List.forall_mem_cons, ← ih, AllConform]

theorem fieldsConform_iff {fields : List (String × Value)} {types : List InputField} :
    FieldsConform s fields types ↔
      ∀ field ∈ fields, ∃ t, typeOf? types field.1 = some t ∧ Conforms s field.2 t := by
  induction fields with
  | nil => exact iff_of_true trivial nofun
  | cons field fields ih =>
    obtain ⟨name, v⟩ := field
    rw [List.forall_mem_cons, ← ih, FieldsConform]
    refine and_congr_left fun _ => ?_
    cases typeOf? types name <;> simp

/-! ### Values by their types -/

variable {name : String}

/-- A value of a list type is null or a list. -/
theorem Conforms.list_cases {inner : TypeRef} (h : Conforms s v (.list inner)) :
    v = .null ∨ ∃ items, v = .list items ∧ ∀ item ∈ items, Conforms s item inner := by
  cases v with
  | null => exact .inl rfl
  | list items => exact .inr ⟨items, rfl, allConform_iff.1 h⟩
  | _ => exact h.elim

/-- A value of an input type is null or an object of its fields. -/
theorem Conforms.input_cases {types : List InputField} (hinput : s.inputFields? name = some types)
    (h : Conforms s v (.named name)) : v = .null ∨ ∃ fields, v = .object fields ∧
      ∀ field ∈ fields, ∃ t, typeOf? types field.1 = some t ∧ Conforms s field.2 t := by
  have noLeaf : ∀ v, ¬HasLeaf s name v := by
    intro v hv
    unfold TypeSystem.inputFields? at hinput
    unfold HasLeaf at hv
    split at hv
    next hbody => rw [hbody] at hinput; cases hinput
    next hbody => rw [hbody] at hinput; cases hinput
    next => exact hv
  cases v with
  | null => exact .inl rfl
  | object fields =>
    refine .inr ⟨fields, rfl, fieldsConform_iff.1 ?_⟩
    unfold Conforms TypeRef.nullable at h
    dsimp only at h
    rw [hinput] at h
    exact h.2
  | _ => exact (noLeaf _ h).elim

/-- An object of one field is of an input type if no other field is required. -/
theorem conforms_single {types : List InputField} (hinput : s.inputFields? name = some types)
    {field : String} (hrequired : hasRequired types [field]) (htype : typeOf? types field = some t)
    (hv : Conforms s v t) : Conforms s (.object [(field, v)]) (.named name) := by
  unfold Conforms TypeRef.nullable
  dsimp only
  rw [hinput]
  exact ⟨hrequired, fieldsConform_iff.2 (List.forall_mem_singleton.2 ⟨t, htype, hv⟩)⟩

/-- A value of a type without fields is null or a leaf. -/
theorem Conforms.leaf_cases (hleaf : s.inputFields? name = none)
    (h : Conforms s v (.named name)) : v = .null ∨ HasLeaf s name v := by
  cases v with
  | null => exact .inl rfl
  | object fields =>
    unfold Conforms TypeRef.nullable at h
    dsimp only at h
    rw [hleaf] at h
    exact .inr h
  | _ => exact .inr h

theorem hasLeaf_scalar_iff {kind : ScalarKind} (hbody : s.body? name = some (.scalar kind)) :
    HasLeaf s name v ↔ kind.Takes v := by
  unfold HasLeaf
  rw [hbody]

theorem hasLeaf_enumeration_iff {values : List (String × Value)}
    (hbody : s.body? name = some (.enumeration values)) :
    HasLeaf s name v ↔ ∃ n, (n, v) ∈ values := by
  unfold HasLeaf
  rw [hbody]

theorem inputFields?_eq_none {body : TypeBody} (hbody : s.body? name = some body)
    (h : ∀ fields, body ≠ .input fields) : s.inputFields? name = none := by
  unfold TypeSystem.inputFields?
  rw [hbody]
  cases body with
  | input fields => exact absurd rfl (h fields)
  | _ => rfl

/-- A value of a scalar is null or one that the scalar reads. -/
theorem Conforms.scalar_cases {kind : ScalarKind} (hbody : s.body? name = some (.scalar kind))
    (h : Conforms s v (.named name)) : v = .null ∨ kind.Takes v :=
  (h.leaf_cases (inputFields?_eq_none hbody nofun)).imp_right (hasLeaf_scalar_iff hbody).1

/-- A value of an enumeration is null or one of its values. -/
theorem Conforms.enumeration_cases {values : List (String × Value)}
    (hbody : s.body? name = some (.enumeration values)) (h : Conforms s v (.named name)) :
    v = .null ∨ ∃ n, (n, v) ∈ values :=
  (h.leaf_cases (inputFields?_eq_none hbody nofun)).imp_right (hasLeaf_enumeration_iff hbody).1

theorem Conforms.of_nonNull (h : Conforms s v (.nonNull (.named name))) :
    v ≠ .null ∧ Conforms s v (.named name) := by
  cases v with
  | null => cases h
  | _ => exact ⟨nofun, h⟩

/-! ## Values told apart -/

/-- Values of which no two have one fingerprint. -/
def Exact (P : Value → Prop) : Prop := ∀ v w, P v → P w → v.freeze.same w.freeze → v = w

/-- The values of a scalar are of one type. -/
def ScalarKind.Wraps : ScalarKind → Value → Prop
  | .int, v | .bigInteger, v => ∃ n, v = .int n
  | .float, v => ∃ x, v = .float x
  | .string, v => ∃ text, v = .text text
  | .boolean, v => ∃ b, v = .bool b
  | .custom, _ => True

theorem ordinaryOfDigits_eq_some {digits : String} (h : ordinaryOfDigits digits = some v) :
    ∃ n, v = .int n := by
  unfold ordinaryOfDigits at h
  split at h
  · split_ifs at h
    cases h
    exact ⟨_, rfl⟩
  · cases h

theorem floatOf_eq_some {x : Except Fault Binary64} (h : floatOf x = some v) :
    ∃ x, v = .float x := by
  unfold floatOf at h
  split at h
  · cases h
    exact ⟨_, rfl⟩
  · cases h

theorem ScalarKind.Takes.wraps {kind : ScalarKind} (h : kind.Takes v) : kind.Wraps v := by
  rcases h with ⟨bindings, l, h⟩ | ⟨sent, h⟩
  · unfold ofLiteral? at h
    split at h
    case h_1 => exact ordinaryOfDigits_eq_some h
    case h_2 | h_3 => exact floatOf_eq_some h
    case h_4 | h_5 =>
      cases h
      exact ⟨_, rfl⟩
    case h_6 =>
      obtain ⟨n, -, rfl⟩ := Option.map_eq_some_iff.1 h
      exact ⟨n, rfl⟩
    case h_7 => trivial
    case h_8 => cases h
  · unfold ofValue? at h
    split at h
    case h_1 =>
      split_ifs at h
      cases h
      exact ⟨_, rfl⟩
    case h_2 =>
      split at h
      · split_ifs at h
        cases h
        exact ⟨_, rfl⟩
      · cases h
    case h_3 => exact floatOf_eq_some h
    case h_4 | h_5 | h_6 =>
      cases h
      exact ⟨_, rfl⟩
    case h_7 =>
      obtain ⟨n, -, rfl⟩ := Option.map_eq_some_iff.1 h
      exact ⟨n, rfl⟩
    case h_8 => trivial
    case h_9 => cases h

theorem same_bool {a b : Bool} (h : (Value.bool a).same (.bool b)) : a = b := by
  cases a <;> cases b <;> first | rfl | exact absurd h (by decide)

theorem same_text {a b : String} (h : (Value.text a).same (.text b)) : a = b := by
  exact beq_iff_eq.1 h

theorem exact_scalar {kind : ScalarKind} (hfloat : kind ≠ .float) (hcustom : kind ≠ .custom) :
    Exact kind.Takes := by
  intro v w hv hw same
  have hv := hv.wraps
  have hw := hw.wraps
  cases kind with
  | float => exact absurd rfl hfloat
  | custom => exact absurd rfl hcustom
  | int | bigInteger =>
    obtain ⟨m, rfl⟩ := hv
    obtain ⟨n, rfl⟩ := hw
    rw [(SqlType.Plain.same_int m n).1 same]
  | string =>
    obtain ⟨a, rfl⟩ := hv
    obtain ⟨b, rfl⟩ := hw
    rw [same_text same]
  | boolean =>
    obtain ⟨a, rfl⟩ := hv
    obtain ⟨b, rfl⟩ := hw
    rw [same_bool same]

theorem exact_enumeration {values : List (String × Value)}
    (h : ∀ value ∈ values, ∃ raw, value.2 = .text raw) : Exact fun v => ∃ n, (n, v) ∈ values := by
  rintro v w ⟨m, hv⟩ ⟨n, hw⟩ same
  obtain ⟨a, ha⟩ := h _ hv
  obtain ⟨b, hb⟩ := h _ hw
  dsimp only at ha hb
  subst ha hb
  rw [same_text same]

/-! ### Operands -/

theorem eq_null_of_same {w : Value} (h : Value.null.same w.freeze) : w = .null := by
  cases w <;> first | rfl | cases h

theorem eq_null_of_same_null (h : v.freeze.same .null) : v = .null := by
  cases v with
  | bool | int | float | decimal =>
    obtain ⟨-, _, -, none, -⟩ := Value.sameNumber_iff.1 h
    cases none
  | null => rfl
  | _ => cases h

theorem exact_named (hleaf : s.inputFields? name = none) (h : Exact (HasLeaf s name)) :
    Exact fun v => Conforms s v (.named name) := by
  intro v w hv hw same
  rcases hv.leaf_cases hleaf with rfl | hv'
  · exact (eq_null_of_same same).symm
  · rcases hw.leaf_cases hleaf with rfl | hw'
    · exact eq_null_of_same_null same
    · exact h v w hv' hw' same

theorem exact_items {P : Value → Prop} (h : Exact P) {vs ws : List Value} (hvs : ∀ v ∈ vs, P v)
    (hws : ∀ w ∈ ws, P w)
    (same : Value.sameItems (Value.freezeItems vs) (Value.freezeItems ws)) : vs = ws := by
  induction vs generalizing ws with
  | nil =>
    cases ws with
    | nil => rfl
    | cons => cases same
  | cons v vs ih =>
    cases ws with
    | nil => cases same
    | cons w ws =>
      unfold Value.freezeItems Value.sameItems at same
      rw [Bool.and_eq_true] at same
      rw [h v w (hvs v List.mem_cons_self) (hws w List.mem_cons_self) same.1,
        ih (fun u hu => hvs u (List.mem_cons_of_mem _ hu))
          (fun u hu => hws u (List.mem_cons_of_mem _ hu)) same.2]

theorem exact_list {inner : TypeRef} (h : Exact fun v => Conforms s v inner) :
    Exact fun v => Conforms s v (.list inner) := by
  intro v w hv hw same
  rcases hv.list_cases with rfl | ⟨vs, rfl, hvs⟩
  · exact (eq_null_of_same same).symm
  · rcases hw.list_cases with rfl | ⟨ws, rfl, hws⟩
    · exact eq_null_of_same_null same
    · rw [exact_items h hvs hws same]

theorem exact_hasLeaf_scalar {kind : ScalarKind} (hbody : s.body? name = some (.scalar kind))
    (hfloat : kind ≠ .float) (hcustom : kind ≠ .custom) : Exact (HasLeaf s name) := by
  intro v w hv hw
  exact exact_scalar hfloat hcustom v w ((hasLeaf_scalar_iff hbody).1 hv)
    ((hasLeaf_scalar_iff hbody).1 hw)

theorem exact_hasLeaf_enumeration {values : List (String × Value)}
    (hbody : s.body? name = some (.enumeration values))
    (h : ∀ value ∈ values, ∃ raw, value.2 = .text raw) : Exact (HasLeaf s name) := by
  intro v w hv hw
  exact exact_enumeration h v w ((hasLeaf_enumeration_iff hbody).1 hv)
    ((hasLeaf_enumeration_iff hbody).1 hw)

/-- The operands of an operator are told apart if single ones are. -/
theorem exact_operand (hleaf : s.inputFields? name = none) (h : Exact (HasLeaf s name))
    (o : Operator) : Exact fun v =>
      Conforms s v (if o.takesList then .list (.nonNull (.named name)) else .named name) := by
  have single := exact_named hleaf h
  cases o.takesList with
  | false => exact single
  | true => exact exact_list fun v w hv hw => single v w hv.of_nonNull.2 hw.of_nonNull.2

end TableGraph.Graph
