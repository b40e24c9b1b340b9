import TableGraph.Proofs.Sealing.Names
import TableGraph.Proofs.Sealing.Types

/-!
# Types that fit together

What is checked of the types of a schema, said of one type after another: it has members, their
names are names, and the types they lead to are there.  Main statement: `check_iff`.
-/

namespace TableGraph.Graph

namespace TypeSystem

variable {s : TypeSystem} {t : NamedType} {name : String}

/-- The members of a type are there, and their names and types are fit for it. -/
def FitsBody (s : TypeSystem) : TypeBody → Prop
  | .scalar _ => True
  | .enumeration values => values ≠ [] ∧ ∀ v ∈ values, isOwnName v.1 = false
  | .input fields => fields ≠ [] ∧ ∀ f ∈ fields, IsPlain f.name ∧ s.isInput f.type.base = true
  | .object fields => fields ≠ [] ∧ ∀ f ∈ fields, IsPlain f.name ∧ s.resolves f = true

/-- The name of a type is not kept for the language, and its members are fit for it. -/
structure Fits (s : TypeSystem) (t : NamedType) : Prop where
  notOwn : isOwnName t.name = false
  body : s.FitsBody t.body

/-- The fields of a type pass exactly if each has a name and a type that is there. -/
theorem checkFields_iff : checkFields s t = .ok () ↔ match t.body with
    | .object fields => ∀ f ∈ fields, isName f.name = true ∧ s.resolves f = true
    | .input fields => ∀ f ∈ fields, isName f.name = true ∧ s.isInput f.type.base = true
    | _ => True := by
  have passes : ∀ (fields : List (String × Bool)) {named : Except Fault Unit},
      ((fields.find? fun f => !isName f.1) = none → named = .ok ()) →
      (∀ f, (fields.find? fun f => !isName f.1) = some f → named ≠ .ok ()) →
      ((if !fields.all (·.2) then .error (invalid s!"fields of {t.name} cannot be resolved")
        else named) = .ok () ↔ ∀ f ∈ fields, isName f.1 = true ∧ f.2 = true) := by
    intro fields named hnone hsome
    by_cases resolved : fields.all (·.2) = true
    · rw [if_neg (by simp [resolved])]
      have kinds := List.all_eq_true.1 resolved
      cases hfind : fields.find? fun f => !isName f.1 with
      | none =>
        have names := List.find?_eq_none.1 hfind
        exact iff_of_true (hnone hfind) fun f hf => ⟨by simpa using names f hf, kinds f hf⟩
      | some f =>
        have unnamed := List.find?_some hfind
        refine iff_of_false (hsome f hfind) fun all => ?_
        rw [(all f (List.mem_of_find?_eq_some hfind)).1] at unnamed
        cases unnamed
    · rw [if_pos (by simpa using resolved)]
      exact iff_of_false (by rintro ⟨⟩) fun all =>
        resolved (List.all_eq_true.2 fun f hf => (all f hf).2)
  unfold checkFields
  cases t.body with
  | scalar | enumeration => exact iff_of_true rfl trivial
  | input fields =>
    refine (passes _ (fun h => ?_) fun f h => ?_).trans List.forall_mem_map
    · rw [h]
    · rw [h]
      rintro ⟨⟩
  | object fields =>
    refine (passes _ (fun h => ?_) fun f h => ?_).trans List.forall_mem_map
    · rw [h]
    · rw [h]
      rintro ⟨⟩

/-- What is checked of the fields of a type in two places. -/
theorem members_iff {α : Type} {fields : List α} {label : α → String} {R : α → Prop} :
    ((∀ f ∈ fields, isName (label f) = true ∧ R f) ∧
      (!fields.isEmpty && fields.all fun f => !isOwnName (label f)) = true) ↔
      fields ≠ [] ∧ ∀ f ∈ fields, IsPlain (label f) ∧ R f := by
  simp only [Bool.and_eq_true, Bool.not_eq_true', List.isEmpty_eq_false_iff, List.all_eq_true]
  constructor
  · rintro ⟨named, some, own⟩
    exact ⟨some, fun f hf => ⟨⟨(named f hf).1, own f hf⟩, (named f hf).2⟩⟩
  · rintro ⟨some, plain⟩
    exact ⟨fun f hf => ⟨(plain f hf).1.isName, (plain f hf).2⟩, some,
      fun f hf => (plain f hf).1.notOwn⟩

/-- The two checks of one type. -/
theorem fits_iff : s.Fits t ↔ checkFields s t = .ok () ∧ isSound t = true := by
  have parts : s.Fits t ↔ isOwnName t.name = false ∧ s.FitsBody t.body :=
    ⟨fun h => ⟨h.1, h.2⟩, fun h => ⟨h.1, h.2⟩⟩
  rw [parts, checkFields_iff]
  unfold isSound FitsBody
  rw [Bool.and_eq_true, Bool.not_eq_true', and_left_comm]
  refine and_congr_right fun _ => ?_
  cases t.body with
  | scalar => simp
  | enumeration values => simp
  | input fields | object fields => exact members_iff.symm

/-- The types fit together exactly if each of them fits and their names differ. -/
theorem check_iff : s.check = .ok () ↔
    (s.allTypes.map (·.name)).Nodup ∧ ∀ t ∈ s.allTypes, s.Fits t := by
  simp only [fits_iff, imp_and, forall_and]
  unfold check
  rw [bind_eq_ok]
  constructor
  · rintro ⟨_, fields, h⟩
    split_ifs at h with distinct sound
    refine ⟨distinct, forM_eq_ok.1 fields, List.all_eq_true.1 (by simpa using sound)⟩
  · rintro ⟨distinct, fields, sound⟩
    refine ⟨(), forM_eq_ok.2 fields, ?_⟩
    rw [if_neg (not_not.2 distinct), if_neg (by simpa using sound)]

/-! ## Types that are there -/

/-- Where mutations have a root, every type is found by its name, or a scalar of the language. -/
theorem body?_cases (distinct : (s.allTypes.map (·.name)).Nodup) (root : s.mutation.isSome)
    (ht : t ∈ s.types) :
    (∃ kind, s.body? t.name = some (.scalar kind)) ∨ s.body? t.name = some t.body := by
  by_cases hbuiltin : ∀ scalar ∈ builtinScalars, t.name ≠ scalar.1
  · refine .inr (body?_of_distinct distinct ht hbuiltin fun hroot => ?_)
    obtain ⟨fields, hfields⟩ := Option.isSome_iff_exists.1 root
    unfold allTypes at distinct
    rw [hfields, List.map_append, List.map_append, List.append_assoc] at distinct
    exact (List.nodup_append.1 distinct).2.2 t.name (List.mem_map_of_mem ht) mutationName
      (List.mem_append_right _ List.mem_cons_self) hroot
  · push Not at hbuiltin
    obtain ⟨scalar, hscalar, hname⟩ := hbuiltin
    refine .inl ?_
    unfold body?
    cases hlookup : builtinScalars.lookup t.name with
    | some kind => exact ⟨kind, rfl⟩
    | none => exact absurd hname (by simpa using List.lookup_eq_none_iff.1 hlookup scalar hscalar)

section Present

variable (distinct : (s.allTypes.map (·.name)).Nodup) (root : s.mutation.isSome) (ht : t ∈ s.types)
include distinct root ht

/-- A type that is no input can be shown. -/
theorem isOutput_of_mem (h : ∀ fields, t.body ≠ .input fields) : s.isOutput t.name = true := by
  unfold isOutput
  rcases body?_cases distinct root ht with ⟨kind, found⟩ | found
  · rw [found]
  · rw [found]
    cases hbody : t.body <;> first | rfl | exact absurd hbody (h _)

/-- A type that is no object can be sent. -/
theorem isInput_of_mem (h : ∀ fields, t.body ≠ .object fields) : s.isInput t.name = true := by
  unfold isInput
  rcases body?_cases distinct root ht with ⟨kind, found⟩ | found
  · rw [found]
  · rw [found]
    cases hbody : t.body <;> first | rfl | exact absurd hbody (h _)

end Present

end TypeSystem

end TableGraph.Graph
