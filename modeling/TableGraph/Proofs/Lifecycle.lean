import TableGraph.Proofs.Registered

/-!
# The life of a builder

A builder is open until it is closed once.  Every call, whether it succeeds or fails, keeps the
registered names different and only entities that are registered changeable.  A call that fails
leaves no trace, except that a schema keeps its enumerations and entities up to the one that
failed, and a closed builder takes no call at all.

`Distinct.register` is what one registration keeps; `registerAll_flatMap` follows a schema part by
part to the first part that fails; `lawful_after` joins them over all calls.
-/

namespace TableGraph.Builder

variable {context : Context} {b b' : Builder}

/-! ## Calls -/

/-- One call of a builder. -/
inductive Call
  | register (r : Registration)
  | schema (s : Schema) (mutations : Bool)
  | close

/-- The call registers something or closes the builder: all but that of an empty schema. -/
def Call.Effective : Call → Prop
  | .register _ | .close => True
  | .schema s _ => s.enumerations ≠ [] ∨ s.entities ≠ []

/-- What a call leaves, and whether it failed. -/
def call (b : Builder) : Call → Builder × Except Fault Unit
  | .register r => b.registerAll [r]
  | .schema s mutations => b.registerSchema s mutations
  | .close => (b.close.1, b.close.2.map fun _ => ())

/-- What calls leave one after another, whether they fail or not. -/
def after (b : Builder) (calls : List Call) : Builder := calls.foldl (fun b c => (b.call c).1) b

/-- How many of the calls close the builder. -/
def closings (b : Builder) : List Call → Nat
  | [] => 0
  | .close :: calls => (if b.close.2.isOk then 1 else 0) + b.close.1.closings calls
  | c :: calls => (b.call c).1.closings calls

/-- The builder with the parts of a schema registered in it. -/
def withParts (b : Builder) (mutations : Bool) (enumerations : List Enumeration)
    (entities : List Entity) : Builder :=
  { b with
    enumerations := b.enumerations ++ enumerations
    entities := b.entities ++ entities
    mutable := b.mutable ++ if mutations then entities.map (·.name) else [] }

/-- How the registration of a schema can fail: at one of its parts, with the fault of that part,
keeping the parts before it. -/
inductive StopsAt (b : Builder) (s : Schema) (mutations : Bool) (fault : Fault) : Builder → Prop
  | enumeration {done rest : List Enumeration} {e : Enumeration}
      (split : s.enumerations = done ++ e :: rest)
      (fails : (b.withParts mutations done []).registerEnumeration e = .error fault) :
      StopsAt b s mutations fault (b.withParts mutations done [])
  | entity {done rest : List Entity} {e : Entity} (split : s.entities = done ++ e :: rest)
      (fails : (b.withParts mutations s.enumerations done).registerEntity e = .error fault) :
      StopsAt b s mutations fault (b.withParts mutations s.enumerations done)

/-- Names of one kind are registered once, and entities that can be changed are among those that
are registered. -/
structure Distinct (b : Builder) : Prop extends b.Registered where
  enumerations : (b.enumerations.map (·.name)).Nodup
  scalars : b.scalars.Nodup

/-- What a builder `b` that some calls left keeps to, whatever is called next. -/
structure Lawful (context : Context) (calls : List Call) (b : Builder) : Prop where
  distinct : b.Distinct
  /-- The builder was closed once if it is closed, and never if it is open. -/
  closedOnce : (Builder.empty context).closings calls = b.isSealed.toNat
  /-- Nothing opens or changes a closed builder. -/
  staysClosed : b.isSealed = true → ∀ more, b.after more = b
  /-- A closed builder refuses all that registers something, and being closed. -/
  refuses : b.isSealed = true → ∀ c : Call, c.Effective →
    b.call c = (b, .error (.config "Builder is sealed"))
  /-- A registration that fails leaves the builder as it was. -/
  registerFails : ∀ r fault, (b.call (.register r)).2 = .error fault →
    (b.call (.register r)).1 = b
  /-- Closing closes an open builder and does no more. -/
  closes : (b.call .close).2 = .ok () →
    b.isSealed = false ∧ (b.call .close).1 = { b with isSealed := true }
  /-- Closing that fails leaves the builder as it was. -/
  closeFails : ∀ fault, (b.call .close).2 = .error fault → (b.call .close).1 = b
  /-- A schema that succeeds is registered as a whole. -/
  schemaDone : ∀ s mutations, (b.call (.schema s mutations)).2 = .ok () →
    (b.call (.schema s mutations)).1 = b.withParts mutations s.enumerations s.entities
  /-- A schema that fails keeps what came before its failing part. -/
  schemaFails : ∀ s mutations fault, (b.call (.schema s mutations)).2 = .error fault →
    b.StopsAt s mutations fault (b.call (.schema s mutations)).1

/-! ## One registration -/

/-- A registration is made in an open builder, and leaves it open. -/
theorem isSealed_register {r : Registration} (done : b.register r = .ok b') :
    b.isSealed = false ∧ b'.isSealed = false := by
  have opened : b.isSealed = false := by
    by_contra closed
    have refused : b.checkOpen = .error (.config "Builder is sealed") := if_pos (by simpa using closed)
    cases r <;> simp [register, registerEntity, registerMutations, registerEnumeration,
      registerScalar, refused, bind, Except.bind] at done
  refine ⟨opened, ?_⟩
  cases r <;>
    · obtain ⟨_, -, done⟩ := bind_eq_ok.1 (show (b.checkOpen >>= fun _ => _) = _ from done)
      split_ifs at done
      cases done
      exact opened

/-- A closed builder refuses every registration. -/
theorem register_sealed (closed : b.isSealed = true) (r : Registration) :
    b.register r = .error (.config "Builder is sealed") := by
  have refused : b.checkOpen = .error (.config "Builder is sealed") := if_pos closed
  cases r <;> simp [register, registerEntity, registerMutations, registerEnumeration,
    registerScalar, refused, bind, Except.bind]

/-- A registration keeps all names of one kind different. -/
theorem Distinct.register (h : b.Distinct) {r : Registration} (done : b.register r = .ok b') :
    b'.Distinct := by
  refine { toRegistered := h.toRegistered.register done, enumerations := ?_, scalars := ?_ }
  · cases r with
    | enumeration e =>
      obtain ⟨_, -, done⟩ := bind_eq_ok.1 (show (b.checkOpen >>= fun _ => _) = _ from done)
      split_ifs at done with known
      cases done
      have new : e.name ∉ b.enumerations.map (·.name) := by
        simpa only [List.any_eq_true, decide_eq_true_eq, List.mem_map] using known
      rw [List.map_append]
      exact h.enumerations.append (List.nodup_singleton e.name) (List.disjoint_singleton.2 new)
    | entity | mutations | scalar =>
      obtain ⟨_, -, done⟩ := bind_eq_ok.1 (show (b.checkOpen >>= fun _ => _) = _ from done)
      split_ifs at done
      cases done
      exact h.enumerations
  · cases r with
    | scalar name =>
      obtain ⟨_, -, done⟩ := bind_eq_ok.1 (show (b.checkOpen >>= fun _ => _) = _ from done)
      split_ifs at done with known
      cases done
      exact h.scalars.append (List.nodup_singleton name)
        (List.disjoint_singleton.2 fun old => known (List.contains_iff_mem.2 old))
    | entity | mutations | enumeration =>
      obtain ⟨_, -, done⟩ := bind_eq_ok.1 (show (b.checkOpen >>= fun _ => _) = _ from done)
      split_ifs at done
      cases done
      exact h.scalars

/-! ## Registrations one after another -/

theorem registerAll_of_ok {r : Registration} (done : b.register r = .ok b')
    (rs : List Registration) : b.registerAll (r :: rs) = b'.registerAll rs := by
  rw [registerAll, done]

theorem registerAll_of_error {r : Registration} {fault : Fault}
    (failed : b.register r = .error fault) (rs : List Registration) :
    b.registerAll (r :: rs) = (b, .error fault) := by
  rw [registerAll, failed]

/-- What every registration that succeeds keeps, all of them keep, also up to one that fails. -/
theorem registerAll_preserves {P : Builder → Prop}
    (step : ∀ {b b' : Builder} {r : Registration}, b.register r = .ok b' → P b → P b')
    (rs : List Registration) (h : P b) : P (b.registerAll rs).1 := by
  induction rs generalizing b with
  | nil => exact h
  | cons r rs ih =>
    unfold registerAll
    split
    next done => exact ih (step done h)
    next => exact h

theorem isSealed_registerAll (rs : List Registration) :
    (b.registerAll rs).1.isSealed = b.isSealed :=
  registerAll_preserves (P := fun b' => b'.isSealed = b.isSealed)
    (fun done h => (isSealed_register done).2.trans ((isSealed_register done).1.symm.trans h)) rs rfl

theorem registerAll_append (rs rs' : List Registration) :
    b.registerAll (rs ++ rs') = match (b.registerAll rs).2 with
      | .ok _ => (b.registerAll rs).1.registerAll rs'
      | .error _ => b.registerAll rs := by
  induction rs generalizing b with
  | nil => rfl
  | cons r rs ih =>
    rw [List.cons_append]
    cases done : b.register r with
    | ok b' =>
      rw [registerAll_of_ok done, registerAll_of_ok done]
      exact ih
    | error fault => rw [registerAll_of_error done, registerAll_of_error done]

/-- The parts of a list are registered up to the first that fails, where `grow` says what those
that succeed add.  A part that fails leaves nothing. -/
theorem registerAll_flatMap {α : Type} (parts : α → List Registration)
    (grow : Builder → List α → Builder) (grow_nil : ∀ b, grow b [] = b)
    (grow_cons : ∀ b x xs, grow (grow b [x]) xs = grow b (x :: xs))
    (one : ∀ b x, b.Distinct → b.registerAll (parts x) = (grow b [x], .ok ()) ∨
      ∃ fault, b.registerAll (parts x) = (b, .error fault))
    (h : b.Distinct) (xs : List α) :
    b.registerAll (xs.flatMap parts) = (grow b xs, .ok ()) ∨
      ∃ done x rest fault, xs = done ++ x :: rest ∧
        (grow b done).registerAll (parts x) = (grow b done, .error fault) ∧
        b.registerAll (xs.flatMap parts) = (grow b done, .error fault) := by
  induction xs generalizing b with
  | nil => exact .inl (by rw [grow_nil]; rfl)
  | cons x xs ih =>
    rw [List.flatMap_cons, registerAll_append]
    rcases one b x h with done | ⟨fault, failed⟩
    · have next : (grow b [x]).Distinct := by
        have kept := registerAll_preserves (fun done h => Distinct.register h done) (parts x) h
        rwa [done] at kept
      rw [done]
      rcases ih next with all | ⟨done, y, rest, fault, split, fails, stops⟩
      · rw [grow_cons] at all
        exact .inl all
      · rw [grow_cons] at fails stops
        exact .inr ⟨x :: done, y, rest, fault, by rw [split]; rfl, fails, stops⟩
    · refine .inr ⟨[], x, xs, fault, rfl, ?_, ?_⟩
      · rw [grow_nil]
        exact failed
      · rw [failed, grow_nil]

/-! ## Schemas -/

@[simp] theorem withParts_nil (mutations : Bool) : b.withParts mutations [] [] = b := by
  unfold withParts
  cases mutations <;> simp

theorem withParts_withParts (mutations : Bool) (enumerations enumerations' : List Enumeration)
    (entities entities' : List Entity) :
    (b.withParts mutations enumerations entities).withParts mutations enumerations' entities' =
      b.withParts mutations (enumerations ++ enumerations') (entities ++ entities') := by
  unfold withParts
  cases mutations <;> simp

/-- An enumeration is registered, or its fault leaves the builder as it was. -/
theorem registerAll_enumeration (mutations : Bool) (e : Enumeration) :
    b.registerAll [.enumeration e] = (b.withParts mutations [e] [], .ok ()) ∨
      ∃ fault, b.registerEnumeration e = .error fault ∧
        b.registerAll [.enumeration e] = (b, .error fault) := by
  cases hdone : b.registerEnumeration e with
  | error fault => exact .inr ⟨fault, rfl, registerAll_of_error (r := .enumeration e) hdone []⟩
  | ok b' =>
    rw [registerAll_of_ok (r := .enumeration e) hdone]
    obtain ⟨_, -, done⟩ := bind_eq_ok.1 (show (b.checkOpen >>= fun _ => _) = _ from hdone)
    split_ifs at done
    cases done
    refine .inl ?_
    unfold withParts registerAll
    cases mutations <;> simp

/-- What registers an entity of a schema. -/
def entityParts (mutations : Bool) (e : Entity) : List Registration :=
  if mutations then [.entity e, .mutations e.name] else [.entity e]

/-- An entity is registered, and can be changed if it is to be, or its fault leaves the builder as
it was: nothing of its name can be changed before. -/
theorem registerAll_entity (h : b.Registered) (mutations : Bool) (e : Entity) :
    b.registerAll (entityParts mutations e) = (b.withParts mutations [] [e], .ok ()) ∨
      ∃ fault, b.registerEntity e = .error fault ∧
        b.registerAll (entityParts mutations e) = (b, .error fault) := by
  cases hdone : b.registerEntity e with
  | error fault =>
    refine .inr ⟨fault, rfl, ?_⟩
    cases mutations <;> exact registerAll_of_error (r := .entity e) hdone _
  | ok b' =>
    have closed := (isSealed_register (r := .entity e) hdone).1
    obtain ⟨_, -, done⟩ := bind_eq_ok.1 (show (b.checkOpen >>= fun _ => _) = _ from hdone)
    split_ifs at done with known
    cases done
    refine .inl ?_
    have fresh : e.name ∉ b.mutable := fun old => known (hasEntity_iff.2 (h.known e.name old))
    cases mutations
    · simp [entityParts, registerAll, register, hdone, withParts]
    · simp [entityParts, registerAll, register, hdone, withParts, registerMutations, checkOpen, closed,
        hasEntity, fresh, bind, Except.bind]

/-- A schema is registered as a whole, or up to its first part that fails. -/
theorem registerSchema_gives (h : b.Distinct) (s : Schema) (mutations : Bool) :
    b.registerSchema s mutations = (b.withParts mutations s.enumerations s.entities, .ok ()) ∨
      ∃ fault b', b.registerSchema s mutations = (b', .error fault) ∧
        b.StopsAt s mutations fault b' := by
  have enumerations := registerAll_flatMap (fun e : Enumeration => [.enumeration e])
    (fun b done => b.withParts mutations done []) (fun b => withParts_nil mutations)
    (fun b e es => withParts_withParts mutations [e] es [] [])
    (fun b e _ => (registerAll_enumeration mutations e).imp_right fun ⟨fault, _, h⟩ => ⟨fault, h⟩)
    h s.enumerations
  unfold registerSchema registrations
  rw [registerAll_append, List.map_eq_flatMap]
  rcases enumerations with all | ⟨done, e, rest, fault, split, fails, stops⟩
  · have next : (b.withParts mutations s.enumerations []).Distinct := by
      have kept := registerAll_preserves (fun done h => Distinct.register h done)
        (s.enumerations.flatMap fun e => [.enumeration e]) h
      rwa [all] at kept
    rw [all]
    have entities := registerAll_flatMap (entityParts mutations)
      (fun b done => b.withParts mutations [] done) (fun b => withParts_nil mutations)
      (fun b e es => withParts_withParts mutations [] [] [e] es)
      (fun b e h => (registerAll_entity h.toRegistered mutations e).imp_right
        fun ⟨fault, _, h⟩ => ⟨fault, h⟩)
      next s.entities
    simp only [withParts_withParts, List.append_nil, List.nil_append] at entities
    rcases entities with all | ⟨done, e, rest, fault, split, fails, stops⟩
    · exact .inl all
    · refine .inr ⟨fault, _, stops, .entity split ?_⟩
      have registered : (b.withParts mutations s.enumerations done).Registered := by
        have kept := registerAll_preserves (fun done h => Distinct.register h done)
          (s.entities.flatMap (entityParts mutations)) next
        rw [stops] at kept
        exact kept.toRegistered
      rcases registerAll_entity registered mutations e with whole | ⟨fault', fails', stops'⟩
      · cases (Prod.mk.inj (whole.symm.trans fails)).2
      · cases (Prod.mk.inj (stops'.symm.trans fails)).2
        exact fails'
  · rw [stops]
    refine .inr ⟨fault, _, rfl, .enumeration split ?_⟩
    rcases registerAll_enumeration (b := b.withParts mutations done []) mutations e with
      whole | ⟨fault', fails', stops'⟩
    · cases (Prod.mk.inj (whole.symm.trans fails)).2
    · cases (Prod.mk.inj (stops'.symm.trans fails)).2
      exact fails'

/-! ## One call -/

/-- A closed builder refuses every call that would do something. -/
theorem call_sealed (closed : b.isSealed = true) {c : Call} (effective : c.Effective) :
    b.call c = (b, .error (.config "Builder is sealed")) := by
  cases c with
  | register r => exact registerAll_of_error (register_sealed closed r) []
  | close =>
    have refused : b.build = .error (.config "Builder is sealed") := by
      unfold build checkOpen
      rw [if_pos closed]
      rfl
    show (b.close.1, b.close.2.map fun _ => ()) = _
    rw [close, refused]
    rfl
  | schema s mutations =>
    obtain ⟨r, rs, parts⟩ : ∃ r rs, registrations s mutations = r :: rs := by
      refine List.exists_cons_of_ne_nil fun none => ?_
      obtain ⟨noEnumerations, noEntities⟩ := List.append_eq_nil_iff.1 none
      rcases effective with some | some
      · exact some (List.map_eq_nil_iff.1 noEnumerations)
      · obtain ⟨e, he⟩ := List.exists_mem_of_ne_nil _ some
        have empty := List.flatMap_eq_nil_iff.1 noEntities e he
        cases mutations <;> cases empty
    show b.registerAll (registrations s mutations) = _
    rw [parts]
    exact registerAll_of_error (register_sealed closed r) rs

/-- A call of a closed builder changes nothing. -/
theorem call_sealed_fst (closed : b.isSealed = true) (c : Call) : (b.call c).1 = b := by
  by_cases effective : c.Effective
  · rw [call_sealed closed effective]
  · cases c with
    | register | close => exact absurd trivial effective
    | schema s mutations =>
      obtain ⟨noEnumerations, noEntities⟩ := not_or.1 effective
      show (b.registerAll (registrations s mutations)).1 = b
      rw [registrations, not_not.1 noEnumerations, not_not.1 noEntities]
      rfl

/-- What closing leaves. -/
theorem close_eq : (∃ s, b.build = .ok s ∧ b.close = ({ b with isSealed := true }, .ok s)) ∨
    ∃ fault, b.close = (b, .error fault) := by
  unfold close
  cases b.build with
  | ok s => exact .inl ⟨s, rfl, rfl⟩
  | error fault => exact .inr ⟨fault, rfl⟩

/-- Only an open builder can be closed. -/
theorem isSealed_of_build {s : SealedSchema} (built : b.build = .ok s) : b.isSealed = false := by
  obtain ⟨_, opened, -⟩ := bind_eq_ok.1 (show (b.checkOpen >>= fun _ => _) = _ from built)
  unfold checkOpen at opened
  split_ifs at opened with closed
  simpa using closed

/-- A call keeps all names of one kind different. -/
theorem Distinct.call (h : b.Distinct) (c : Call) : (b.call c).1.Distinct := by
  cases c with
  | register | schema => exact registerAll_preserves (fun done h => Distinct.register h done) _ h
  | close =>
    show b.close.1.Distinct
    rcases close_eq (b := b) with ⟨_, -, done⟩ | ⟨_, failed⟩
    · rw [done]
      exact ⟨⟨h.entities, h.mutable, h.known⟩, h.enumerations, h.scalars⟩
    · rw [failed]
      exact h

/-- A call that does not close leaves a builder open or closed as it was. -/
theorem isSealed_call {c : Call} (hc : c ≠ .close) : (b.call c).1.isSealed = b.isSealed := by
  cases c with
  | register | schema => exact isSealed_registerAll _
  | close => exact absurd rfl hc

/-! ## Calls one after another -/

/-- Whatever is called, all names of one kind stay different. -/
theorem Distinct.after (h : b.Distinct) (calls : List Call) : (b.after calls).Distinct := by
  induction calls generalizing b with
  | nil => exact h
  | cons c calls ih => exact ih (h.call c)

/-- Calls leave a closed builder as it is. -/
theorem after_sealed (closed : b.isSealed = true) (calls : List Call) : b.after calls = b := by
  induction calls with
  | nil => rfl
  | cons c calls ih =>
    show (b.call c).1.after calls = b
    rw [call_sealed_fst closed, ih]

/-- Every call that closes a builder finds it open and leaves it closed. -/
theorem closings_add (calls : List Call) :
    b.closings calls + b.isSealed.toNat = (b.after calls).isSealed.toNat := by
  induction calls generalizing b with
  | nil => exact Nat.zero_add _
  | cons c calls ih =>
    show _ = ((b.call c).1.after calls).isSealed.toNat
    rw [← ih]
    by_cases hc : c = .close
    · subst hc
      show (if b.close.2.isOk then 1 else 0) + b.close.1.closings calls + _ =
        b.close.1.closings calls + b.close.1.isSealed.toNat
      rcases close_eq (b := b) with ⟨s, built, done⟩ | ⟨fault, failed⟩
      · rw [done, isSealed_of_build built]
        show 1 + Builder.closings _ calls + 0 = _ + 1
        exact Nat.add_comm 1 _
      · rw [failed]
        show 0 + b.closings calls + _ = _
        rw [Nat.zero_add]
    · rw [isSealed_call hc]
      cases c with
      | close => exact absurd rfl hc
      | register | schema => rfl

/-- Whatever is called, and whether it succeeds or fails, what is left is a builder that keeps to
the rules of its life. -/
theorem lawful_after (context : Context) (calls : List Call) :
    Lawful context calls ((Builder.empty context).after calls) := by
  have distinct : ((Builder.empty context).after calls).Distinct :=
    Distinct.after (b := .empty context) ⟨Reached.empty.registered, .nil, .nil⟩ calls
  have once := closings_add (b := .empty context) calls
  revert distinct once
  generalize (Builder.empty context).after calls = b
  intro distinct once
  refine ⟨distinct, once, after_sealed, fun closed _ => call_sealed closed, ?_, ?_, ?_, ?_, ?_⟩
  · intro r fault failed
    replace failed : (b.registerAll [r]).2 = .error fault := failed
    show (b.registerAll [r]).1 = b
    cases done : b.register r with
    | ok b' =>
      rw [registerAll_of_ok done] at failed
      cases failed
    | error fault => rw [registerAll_of_error done]
  · intro done
    rcases close_eq (b := b) with ⟨s, built, closed⟩ | ⟨fault, failed⟩
    · exact ⟨isSealed_of_build built, congrArg (·.1) closed⟩
    · replace done : b.close.2.map (fun _ => ()) = .ok () := done
      rw [failed] at done
      cases done
  · intro fault failed
    rcases close_eq (b := b) with ⟨s, built, closed⟩ | ⟨fault', kept⟩
    · replace failed : b.close.2.map (fun _ => ()) = .error fault := failed
      rw [closed] at failed
      cases failed
    · exact congrArg (·.1) kept
  · intro s mutations done
    rcases registerSchema_gives distinct s mutations with all | ⟨fault, b', stops, -⟩
    · exact congrArg (·.1) all
    · replace done : (b.registerSchema s mutations).2 = .ok () := done
      rw [stops] at done
      cases done
  · intro s mutations fault failed
    replace failed : (b.registerSchema s mutations).2 = .error fault := failed
    rcases registerSchema_gives distinct s mutations with all | ⟨fault', b', stops, stopsAt⟩
    · rw [all] at failed
      cases failed
    · rw [stops] at failed
      cases failed
      show b.StopsAt s mutations fault (b.registerSchema s mutations).1
      rwa [stops]

end TableGraph.Builder
