import TableGraph.Proofs.Filter.Operators
import TableGraph.Proofs.Written.Value

/-!
# Operands of one type

The values of a list of operands are bound by the type of the first one.  So their order says
nothing as long as they are of one type (`SqlType.operandAmong_of_perm`).  What clients send for a
column that is filtered by the family of its type always is (`Filter.oneType_of_family`).
-/

namespace TableGraph

/-- The values of a list are bound alike in every order: they are of one type, or one of them is
null, so that each is bound by itself. -/
def OneType (ds : List Value) : Prop :=
  ds.any (·.isNull) ∨ ∀ d ∈ ds, ∀ d' ∈ ds, SqlType.ofValue? d = SqlType.ofValue? d'

theorem OneType.of_perm {ds ds' : List Value} (hone : OneType ds) (h : ds.Perm ds') :
    OneType ds' := by
  refine hone.imp (fun hnull => ?_) fun same d hd d' hd' => ?_
  · rwa [← h.any_eq]
  · exact same d (h.mem_iff.2 hd) d' (h.mem_iff.2 hd')

/-! ## Lists in another order -/

namespace SqlType

variable {type : SqlType} {ds ds' : List Value}

theorem comparedWith_congr {d d' : Value} (h : ofValue? d = ofValue? d') :
    type.comparedWith d = type.comparedWith d' := by
  unfold comparedWith
  rw [h]

section Order

variable (hone : OneType ds) (h : ds.Perm ds')
include hone h

/-- Values of one type are the same cells in a list of another order. -/
theorem operandAmong_of_perm : type.operandAmong ds = type.operandAmong ds' := by
  have null : ds.any (·.isNull) = ds'.any (·.isNull) := h.any_eq
  have first : ds.any (·.isNull) = true ∨
      ds.head?.elim type type.comparedWith = ds'.head?.elim type type.comparedWith := by
    refine hone.imp_right fun same => ?_
    cases ds with
    | nil => rw [List.nil_perm.1 h]
    | cons d ds =>
      cases ds' with
      | nil => exact absurd (List.perm_nil.1 h) (List.cons_ne_nil d ds)
      | cons d' ds' =>
        exact comparedWith_congr (same d List.mem_cons_self d' (h.mem_iff.2 List.mem_cons_self))
  funext d
  unfold operandAmong
  rw [← null]
  rcases first with hnull | hfirst
  · rw [hnull]
    rfl
  · rw [hfirst]

theorem comparesAmong_of_perm : type.ComparesAmong ds = type.ComparesAmong ds' := by
  unfold ComparesAmong
  rw [operandAmong_of_perm hone h]

theorem exists_bind_among_of_perm {negated : Bool}
    (hb : ∃ q, (Test.among negated ds).bind type = .ok q) :
    ∃ q, (Test.among negated ds').bind type = .ok q := by
  rw [exists_bind_among_iff] at hb ⊢
  rw [← operandAmong_of_perm hone h]
  exact fun d hd => hb d (h.mem_iff.2 hd)

end Order

end SqlType

/-! ## Values of a column -/

namespace Codec

variable {path : String} {v d : Value}

/-- The type of the values of a basic kind; those of JSON columns are of any type. -/
def ownType : BasicKind → SqlType
  | .integer _ => .integer
  | .float | .double => .float
  | .bool => .boolean
  | .decimal => .numeric
  | .char | .string | .ipNetwork | .macAddress => .string
  | .bytes => .binary
  | .json => .json
  | .date => .date
  | .time => .time
  | .dateTime | .dateTimeZoned => .dateTime false
  | .uuid => .uuid

theorem ofValue?_of_parseBasic {kind : BasicKind} (hjson : kind ≠ .json)
    (h : parseBasic path kind v = .ok d) : SqlType.ofValue? d = some (ownType kind) := by
  have valid : IsColumnValue ⟨[], false⟩ (.basic kind none) d :=
    (isColumnValue_of_parseBasic hjson h).1
  cases valid with
  | key valid => cases valid <;> rfl
  | float | double => rfl
  | json => exact absurd rfl hjson

end Codec

/-- Operands of a column that is filtered by the family of its type, and whose values are not
converted in a way of its own, are of one type when they are decoded. -/
theorem Filter.oneType_of_family {codec : Codec} {f : ColumnField} {path : String}
    (hfamily : (FilterFamily.ofColumnType? f.column.type).isSome)
    (hinput : f.override.bind (·.input) = none) {vs ds : List Value}
    (h : vs.mapM (decode codec f path) = .ok ds) : OneType ds := by
  obtain ⟨kind, label, htype, hjson⟩ : ∃ kind label, f.column.type = .basic kind label ∧
      kind ≠ .json := by
    cases htype : f.column.type with
    | basic kind label =>
      refine ⟨kind, label, rfl, ?_⟩
      rintro rfl
      rw [htype] at hfamily
      cases hfamily
    | _ =>
      rw [htype] at hfamily
      cases hfamily
  by_cases hnull : ds.any (·.isNull) = true
  · exact .inl hnull
  refine .inr fun d hd d' hd' => ?_
  have each : ∀ d ∈ ds, SqlType.ofValue? d = some (Codec.ownType kind) := by
    intro d hd
    obtain ⟨v, -, hv⟩ := mem_of_mapM h hd
    cases v with
    | null =>
      cases hv
      exact absurd (List.any_eq_true.2 ⟨_, hd, rfl⟩) hnull
    | _ =>
      unfold decode at hv
      dsimp only at hv
      rw [hinput, htype] at hv
      exact Codec.ofValue?_of_parseBasic hjson (mapError_eq_ok.1 hv)
  rw [each d hd, each d' hd']

end TableGraph
