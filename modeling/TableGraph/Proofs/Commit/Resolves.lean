import TableGraph.Answer.Changing
import TableGraph.Proofs.Transaction

/-!
# What a mutation has to pass

Before a mutation commits it passes the guards of its entity and of every field that is supplied,
converts what it was sent, compiles its filter, asks the row scope, and runs its statements, each on
what those before it left of the store.  `Resolves` says that all of this goes well, and what comes
of it.

Main statement: `change_gives`.  A mutation succeeds exactly if it passes all of it, so that any one
of these points makes it fail.
-/

namespace TableGraph

/-! ## Statements -/

namespace Mutation

variable {codec : Codec} {p : Projection} {s s' : Store} {n : Nat}

/-- Every value of an input is converted for the column of its field. -/
def Converted (codec : Codec) (p : Projection) (data : List (String × Value)) (values : Record) :
    Prop :=
  List.Forall₂ (fun d v => ∃ f, p.field d.1 = .ok f ∧ v.1 = f.column.name ∧
    columnValue codec f d.2 = .ok v.2) data values

/-- The rows of some keys are found and told in the order of the key. -/
inductive ReadBack (p : Projection) (s : Store) : List (List Value) → List Record → Prop
  | nothing : ReadBack p s [] []
  | rows {keys : List (List Value)} {t : Table} {found : List Row} {told : List Record}
      (some : keys ≠ []) (table : s.table p.name = .ok t)
      (keyed : t.keyed p.entity.primaryKey keys = .ok found)
      (read : (t.sorted (keyOrder p) found).mapM t.read = .ok told) : ReadBack p s keys told

/-- A row is inserted, and told as the database returns it or as it is read back. -/
inductive Inserted (p : Projection) (s : Store) (values : Record) : Store → Record → Prop
  | returned {t t' : Table} {row : Row} {told : Record} (returning : s.returning = true)
      (table : s.table p.name = .ok t) (inserted : t.insert values = .ok (t', row))
      (read : t'.read row = .ok told) : Inserted p s values (s.put t') told
  | readBack {t t' : Table} {row : Row} {told : Record} {others : List Record}
      (returning : s.returning = false) (table : s.table p.name = .ok t)
      (inserted : t.insert values = .ok (t', row))
      (read : ReadBack p (s.put t') [insertedKey p t values row] (told :: others)) :
      Inserted p s values (s.put t') told

/-- Rows are inserted one after another, each into what those before it left. -/
inductive Inserts (p : Projection) : Store → List Record → Store → List Record → Prop
  | nil (s : Store) : Inserts p s [] s []
  | cons {s s' s'' : Store} {values told : Record} {rest rows : List Record}
      (first : Inserted p s values s' told) (behind : Inserts p s' rest s'' rows) :
      Inserts p s (values :: rest) s'' (told :: rows)

/-- The rows of a condition are changed, and told after the change. -/
inductive Updated (p : Projection) (s : Store) (c : Predicate Value) :
    Record → Store → List Record → Prop
  | nothing {t : Table} {told : List Record} (table : s.table p.name = .ok t)
      (read : t.select c (keyOrder p) none 0 = .ok told) : Updated p s c [] s told
  | returned {values : Record} {t t' : Table} {changed : List Row} {told : List Record}
      (some : values ≠ []) (returning : s.returning = true) (table : s.table p.name = .ok t)
      (updated : t.update c values = .ok (t', changed))
      (read : inKeyOrder t' changed = .ok told) : Updated p s c values (s.put t') told
  | readBack {values : Record} {t t' : Table} {before changed : List Row}
      {keys told : List Record} (some : values ≠ []) (returning : s.returning = false)
      (table : s.table p.name = .ok t) (matching : t.matching c = .ok before)
      (asked : before.mapM (Table.readColumns · (t.columns.filter fun k => p.entity.isKey k.name)) =
        .ok keys)
      (updated : t.update c values = .ok (t', changed))
      (read : ReadBack p (s.put t') (keys.map fun key => p.entity.primaryKey.map fun name =>
        (values.lookup name).getD (key.get name)) told) : Updated p s c values (s.put t') told

/-- The rows of a condition are deleted and counted. -/
inductive Deleted (p : Projection) (s : Store) (c : Predicate Value) : Store → Nat → Prop
  | deleted {t t' : Table} {count : Nat} (table : s.table p.name = .ok t)
      (deleted : t.delete c = .ok (t', count)) : Deleted p s c (s.put t') count

theorem columnValues_eq_ok {data : List (String × Value)} {values : Record} :
    columnValues codec p data = .ok values ↔ Converted codec p data values := by
  unfold columnValues Converted
  rw [mapM_eq_ok]
  have item : ∀ (d : String × Value) (v : String × Value),
      ((p.field d.1 >>= fun f => columnValue codec f d.2 >>= fun w => .ok (f.column.name, w)) =
        .ok v) ↔ ∃ f, p.field d.1 = .ok f ∧ v.1 = f.column.name ∧
          columnValue codec f d.2 = .ok v.2 := by
    intro d v
    simp only [bind_eq_ok]
    constructor
    · rintro ⟨f, hf, w, hw, h⟩
      cases h
      exact ⟨f, hf, rfl, hw⟩
    · rintro ⟨f, hf, hname, hvalue⟩
      exact ⟨f, hf, v.2, hvalue, by rw [← hname]⟩
  exact ⟨fun h => h.imp fun d v => (item d v).1, fun h => h.imp fun d v => (item d v).2⟩

/-- What is sent is converted in one way only. -/
theorem Converted.unique {data : List (String × Value)} {values values' : Record}
    (h : Converted codec p data values) (h' : Converted codec p data values') :
    values = values' :=
  Except.ok.inj ((columnValues_eq_ok.2 h).symm.trans (columnValues_eq_ok.2 h'))

theorem Converted.not_failed {data : List (String × Value)} {values : Record}
    (h : Converted codec p data values) {d : String × Value} (hd : d ∈ data) {f : ColumnField}
    (named : p.field d.1 = .ok f) (fault : Fault) : columnValue codec f d.2 ≠ .error fault := by
  obtain ⟨v, -, g, named', -, converted⟩ := exists_of_forall₂ h hd
  obtain rfl := Except.ok.inj (named.symm.trans named')
  rw [converted]
  nofun

theorem mapM_columnValues_eq_ok {items : List (List (String × Value))} {rows : List Record} :
    (items.mapM fun data => columnValues codec p data) = .ok rows ↔
      List.Forall₂ (Converted codec p) items rows := by
  simp only [mapM_eq_ok, columnValues_eq_ok]

theorem condition_eq_ok {filter : Value} {scope : Option (Predicate Value)} {c : Predicate Value} :
    condition codec p filter scope = .ok c ↔
      ∃ own, Filter.compile codec p filter = .ok own ∧ own.andAlso scope = c := by
  unfold condition
  simp only [bind_eq_ok, Except.ok.injEq]

theorem readBack_gives {keys : List (List Value)} {told : List Record} :
    (readBack p keys).Gives ⟨s, n⟩ s' told ↔ s = s' ∧ ReadBack p s keys told := by
  unfold readBack
  cases keys with
  | nil =>
    rw [List.isEmpty_nil, if_pos rfl, Work.gives_pure]
    refine and_congr_right fun _ => ⟨?_, fun h => ?_⟩
    · rintro rfl
      exact .nothing
    · cases h with
      | nothing => rfl
      | rows some => exact absurd rfl some
  | cons key keys =>
    rw [List.isEmpty_cons, if_neg Bool.false_ne_true, Work.gives_ask]
    refine and_congr_right fun _ => ⟨?_, fun h => ?_⟩
    · rintro ⟨t, ht, h⟩
      obtain ⟨found, hfound, hread⟩ := bind_eq_ok.1 h
      exact .rows (List.cons_ne_nil key keys) ht hfound hread
    · cases h with
      | rows _ ht hfound hread => exact ⟨_, ht, bind_eq_ok.2 ⟨_, hfound, hread⟩⟩

theorem insert_gives {values told : Record} :
    (insert p values).Gives ⟨s, n⟩ s' told ↔ Inserted p s values s' told := by
  unfold insert
  rw [Work.gives_write_bind]
  constructor
  · rintro ⟨t, t', ⟨row, key⟩, table, hwrite, h⟩
    obtain ⟨⟨u, r⟩, inserted, hwrite⟩ := bind_eq_ok.1 hwrite
    cases hwrite
    rw [Work.gives_get_bind] at h
    split_ifs at h with returning
    · obtain ⟨rfl, read⟩ := Work.gives_lift.1 h
      exact .returned returning table inserted read
    · obtain ⟨rows, s₁, k, hread, h⟩ := Work.gives_bind.1 h
      obtain ⟨rfl, read⟩ := readBack_gives.1 ⟨k, hread⟩
      cases rows with
      | nil => obtain ⟨m, h⟩ := h; cases h
      | cons record others =>
        obtain ⟨rfl, rfl⟩ := Work.gives_pure.1 h
        exact .readBack (Bool.eq_false_iff.2 returning) table inserted read
  · intro h
    cases h with
    | returned returning table inserted read =>
      refine ⟨_, _, _, table, bind_eq_ok.2 ⟨_, inserted, rfl⟩, ?_⟩
      rw [Work.gives_get_bind]
      exact (if_pos returning).symm ▸ Work.gives_lift.2 ⟨rfl, read⟩
    | readBack returning table inserted read =>
      refine ⟨_, _, _, table, bind_eq_ok.2 ⟨_, inserted, rfl⟩, ?_⟩
      rw [Work.gives_get_bind]
      obtain ⟨k, hread⟩ := readBack_gives (n := n + 1).2 ⟨rfl, read⟩
      exact (if_neg (Bool.eq_false_iff.1 returning)).symm ▸
        Work.gives_bind.2 ⟨_, _, k, hread, Work.gives_pure.2 ⟨rfl, rfl⟩⟩

/-- A batch succeeds exactly if each of its rows can be inserted behind those before it. -/
theorem insertAll_gives {rows told : List Record} :
    (insertAll p rows).Gives ⟨s, n⟩ s' told ↔ Inserts p s rows s' told := by
  induction rows generalizing s n told with
  | nil =>
    unfold insertAll
    rw [Work.gives_pure]
    constructor
    · rintro ⟨rfl, rfl⟩
      exact .nil s
    · intro h
      cases h
      exact ⟨rfl, rfl⟩
  | cons values rest ih =>
    unfold insertAll
    rw [Work.gives_bind]
    constructor
    · rintro ⟨first, s₁, k, hfirst, h⟩
      obtain ⟨others, s₂, l, hrest, h⟩ := Work.gives_bind.1 h
      obtain ⟨rfl, rfl⟩ := Work.gives_pure.1 h
      exact .cons (insert_gives.1 ⟨k, hfirst⟩) (ih.1 ⟨l, hrest⟩)
    · intro h
      cases h with
      | cons first behind =>
        obtain ⟨k, hfirst⟩ := insert_gives (n := n).2 first
        obtain ⟨l, hrest⟩ := ih (n := k).2 behind
        exact ⟨_, _, k, hfirst,
          Work.gives_bind.2 ⟨_, _, l, hrest, Work.gives_pure.2 ⟨rfl, rfl⟩⟩⟩

theorem updateReturning_gives {c : Predicate Value} {values : Record} {told : List Record}
    (some : values ≠ []) (returning : s.returning = true) :
    (updateReturning p c values).Gives ⟨s, n⟩ s' told ↔ Updated p s c values s' told := by
  unfold updateReturning
  rw [Work.gives_write_bind]
  constructor
  · rintro ⟨t, t', changed, table, updated, h⟩
    obtain ⟨rfl, read⟩ := Work.gives_lift.1 h
    exact .returned some returning table updated read
  · intro h
    cases h with
    | nothing => exact absurd rfl some
    | returned _ _ table updated read =>
      exact ⟨_, _, _, table, updated, Work.gives_lift.2 ⟨rfl, read⟩⟩
    | readBack _ other => exact absurd (returning.symm.trans other) (by decide)

theorem updateReadingBack_gives {c : Predicate Value} {values : Record} {told : List Record}
    (some : values ≠ []) (returning : s.returning = false) :
    (updateReadingBack p c values).Gives ⟨s, n⟩ s' told ↔ Updated p s c values s' told := by
  unfold updateReadingBack
  rw [Work.gives_ask_bind]
  constructor
  · rintro ⟨t, keys, table, hask, h⟩
    obtain ⟨before, matching, asked⟩ := bind_eq_ok.1 hask
    obtain ⟨u, t', changed, table', updated, h⟩ := Work.gives_write_bind.1 h
    obtain rfl : t = u := Except.ok.inj (table.symm.trans table')
    obtain ⟨rfl, read⟩ := readBack_gives.1 h
    exact .readBack some returning table matching asked updated read
  · intro h
    cases h with
    | nothing => exact absurd rfl some
    | returned _ other => exact absurd (returning.symm.trans other) (by decide)
    | readBack _ _ table matching asked updated read =>
      exact ⟨_, _, table, bind_eq_ok.2 ⟨_, matching, asked⟩, Work.gives_write_bind.2
        ⟨_, _, _, table, updated, readBack_gives.2 ⟨rfl, read⟩⟩⟩

theorem updateRows_gives {c : Predicate Value} {values : Record} {told : List Record} :
    (updateRows p c values).Gives ⟨s, n⟩ s' told ↔ Updated p s c values s' told := by
  unfold updateRows
  split_ifs with empty
  · rw [List.isEmpty_iff.1 empty, Work.gives_ask]
    constructor
    · rintro ⟨rfl, t, table, read⟩
      exact .nothing table read
    · intro h
      cases h with
      | nothing table read => exact ⟨rfl, _, table, read⟩
      | returned some => exact absurd rfl some
      | readBack some => exact absurd rfl some
  · have some : values ≠ [] := fun h => empty (List.isEmpty_iff.2 h)
    rw [Work.gives_get_bind]
    dsimp only
    split_ifs with returning
    · exact updateReturning_gives some returning
    · exact updateReadingBack_gives some (Bool.eq_false_iff.2 returning)

theorem deleteRows_gives {c : Predicate Value} {count : Nat} :
    (deleteRows p c).Gives ⟨s, n⟩ s' count ↔ Deleted p s c s' count := by
  unfold deleteRows
  rw [Work.gives_write_bind]
  constructor
  · rintro ⟨t, t', k, table, deleted, h⟩
    obtain ⟨rfl, rfl⟩ := Work.gives_pure.1 h
    exact .deleted table deleted
  · intro h
    cases h with
    | deleted table deleted =>
      exact ⟨_, _, _, table, deleted, Work.gives_pure.2 ⟨rfl, rfl⟩⟩

/-! ## Mutations -/

section Sessions

variable {db : Database} {data : List (String × Value)} {filter : Value}
  {scope : Option (Predicate Value)}

theorem createOne_gives {told : Record} : (createOne codec p data).Gives db s' told ↔
    ∃ values, Converted codec p data values ∧ db.stored.Takes s' ∧
      Inserts p db.stored [values] s' [told] := by
  unfold createOne
  simp only [Session.gives_lift_bind, columnValues_eq_ok, Session.gives_transaction, insert_gives]
  refine exists_congr fun values => and_congr_right fun _ => and_congr_right fun _ => ?_
  constructor
  · exact fun inserted => .cons inserted (.nil s')
  · intro inserted
    cases inserted with
    | cons first behind =>
      cases behind
      exact first

theorem createBatch_gives {items : List (List (String × Value))} {told : List Record} :
    (createBatch codec p items).Gives db s' told ↔
      ∃ rows, List.Forall₂ (Converted codec p) items rows ∧ db.stored.Takes s' ∧
        Inserts p db.stored rows s' told := by
  unfold createBatch
  simp only [Session.gives_lift_bind, mapM_columnValues_eq_ok, Session.gives_transaction,
    insertAll_gives]

theorem update_gives {told : List Record} : (update codec p data filter scope).Gives db s' told ↔
    ∃ values, Converted codec p data values ∧ ∃ c, Filter.compile codec p filter = .ok c ∧
      db.stored.Takes s' ∧ Updated p db.stored (c.andAlso scope) values s' told := by
  unfold update
  simp only [Session.gives_lift_bind, columnValues_eq_ok, condition_eq_ok,
    Session.gives_transaction, updateRows_gives]
  constructor
  · rintro ⟨values, hvalues, _, ⟨c, hc, rfl⟩, h⟩
    exact ⟨values, hvalues, c, hc, h⟩
  · rintro ⟨values, hvalues, c, hc, h⟩
    exact ⟨values, hvalues, _, ⟨c, hc, rfl⟩, h⟩

theorem delete_gives {count : Nat} : (delete codec p filter scope).Gives db s' count ↔
    ∃ c, Filter.compile codec p filter = .ok c ∧ db.stored.Takes s' ∧
      Deleted p db.stored (c.andAlso scope) s' count := by
  unfold delete
  simp only [Session.gives_lift_bind, condition_eq_ok, Session.gives_transaction, deleteRows_gives]
  constructor
  · rintro ⟨_, ⟨c, hc, rfl⟩, h⟩
    exact ⟨c, hc, h⟩
  · rintro ⟨c, hc, h⟩
    exact ⟨_, ⟨c, hc, rfl⟩, h⟩

theorem transacts_createOne : (createOne codec p data).Transacts fun _ => [] :=
  .lift_bind fun _ => Session.transacts_transaction _

theorem transacts_createBatch {items : List (List (String × Value))} :
    (createBatch codec p items).Transacts fun _ => [] :=
  .lift_bind fun _ => Session.transacts_transaction _

theorem transacts_update : (update codec p data filter scope).Transacts fun _ => [] :=
  .lift_bind fun _ => .lift_bind fun _ => Session.transacts_transaction _

theorem transacts_delete : (delete codec p filter scope).Transacts fun _ => [] :=
  .lift_bind fun _ => Session.transacts_transaction _

end Sessions

end Mutation

/-! ## Fields of the root -/

namespace Answer

open TableGraph.Graph

variable {env : Environment} {p : Projection} {o : Operation} {q : Projection × Operation}
  {f : OutputField} {a : Arguments} {db : Database} {s' : Store} {item : Item}

/-- The guard of an entity lets an operation through, and so does that of every supplied field. -/
structure Admitted (env : Environment) (p : Projection) (o : Operation)
    (inputs : List (List (String × Value))) : Prop where
  entity : env.checkEntity p.typeName o = .ok ()
  fields : ∀ data ∈ inputs, ∀ d ∈ data, ∃ f, p.field d.1 = .ok f ∧ env.checkField f.path o = .ok ()

/--
Every step of the mutation of a field goes well, and its transaction is committed; what is stored
then, and what is found.
-/
inductive Resolves (env : Environment) (s : Store) (a : Arguments) : Source → Store → Item → Prop
  | createOne {p : Projection} {values told : Record} {s' : Store}
      (admitted : Admitted env p .create [fieldsOfInput (a.get "data")])
      (converted : Mutation.Converted env.schema.codec p (fieldsOfInput (a.get "data")) values)
      (inserted : Mutation.Inserts p s [values] s' [told]) (taken : s.Takes s') :
      Resolves env s a (.createOne p) s' (.row told)
  | createBatch {p : Projection} {rows told : List Record} {s' : Store}
      (admitted : Admitted env p .create (inputsOf (a.get "data")))
      (converted : List.Forall₂ (Mutation.Converted env.schema.codec p)
        (inputsOf (a.get "data")) rows)
      (inserted : Mutation.Inserts p s rows s' told) (taken : s.Takes s') :
      Resolves env s a (.createBatch p) s' (rowItems told)
  | update {p : Projection} {scope : Option (Predicate Value)} {values : Record}
      {c : Predicate Value} {told : List Record} {s' : Store}
      (admitted : Admitted env p .update [fieldsOfInput (a.get "data")])
      (narrowed : env.scope p .update = .ok scope)
      (converted : Mutation.Converted env.schema.codec p (fieldsOfInput (a.get "data")) values)
      (filtered : Filter.compile env.schema.codec p (a.get "filter") = .ok c)
      (updated : Mutation.Updated p s (c.andAlso scope) values s' told) (taken : s.Takes s') :
      Resolves env s a (.update p) s' (rowItems told)
  | delete {p : Projection} {scope : Option (Predicate Value)} {c : Predicate Value}
      {count : Nat} {s' : Store} (admitted : Admitted env p .delete [])
      (narrowed : env.scope p .delete = .ok scope)
      (filtered : Filter.compile env.schema.codec p (a.get "filter") = .ok c)
      (deleted : Mutation.Deleted p s (c.andAlso scope) s' count) (taken : s.Takes s') :
      Resolves env s a (.delete p) s' (.value (.int count))

/-- The mutation that a source stands for: of which entity, and which operation. -/
def mutationOf : Source → Option (Projection × Operation)
  | .createOne p | .createBatch p => some (p, .create)
  | .update p => some (p, .update)
  | .delete p => some (p, .delete)
  | _ => none

/-- What the watch is told of a mutation, if there is one: in which call, and what it finds. -/
def toldOf (env : Environment) (q : Projection × Operation) (s : Store) : List Occurrence :=
  if env.schema.context.watch.isSome then [.told env.call s q.1.typeName q.2] else []

theorem checkInputs_eq_ok {inputs : List (List (String × Value))} :
    checkInputs env p o inputs = .ok () ↔ Admitted env p o inputs := by
  have names (P : String → Prop) : (∀ name ∈ (inputs.flatMap fun fields =>
      fields.map (·.1)).eraseDups, P name) ↔ ∀ data ∈ inputs, ∀ d ∈ data, P d.1 := by
    simp only [List.mem_eraseDups, List.mem_flatMap, List.mem_map]
    constructor
    · exact fun h data hdata d hd => h d.1 ⟨data, hdata, d, hd, rfl⟩
    · rintro h _ ⟨data, hdata, d, hd, rfl⟩
      exact h data hdata d hd
  unfold checkInputs
  simp only [bind_eq_ok, forM_eq_ok, names]
  constructor
  · rintro ⟨_, entity, fields⟩
    exact ⟨entity, fields⟩
  · rintro ⟨entity, fields⟩
    exact ⟨(), entity, fields⟩

/-- The watch has no say in what it is told of, whatever it answers. -/
theorem outcome_notify (env : Environment) (q : Projection × Operation) (db : Database) :
    (notify env q.1.typeName q.2).outcome db =
      (.ok (), { db with trace := db.trace ++ toldOf env q db.stored }) := by
  unfold notify toldOf
  cases env.schema.context.watch with
  | none =>
    show (Except.ok (), db) = _
    simp
  | some watch =>
    dsimp only
    rw [Attempt.outcome_get_bind]
    cases watch env.call db.stored q.1.typeName q.2 <;> rfl

theorem gives_notify {α : Type} {x : Session α} {g : α → Item} :
    (x >>= fun r => notify env q.1.typeName q.2 >>= fun _ => pure (g r)).Gives db s' item ↔
      ∃ r, x.Gives db s' r ∧ g r = item := by
  unfold Session.Gives
  simp only [Attempt.outcome_bind_eq_ok, outcome_notify]
  constructor
  · rintro ⟨_, ⟨r, db₁, hx, _, _, h, h'⟩, rfl⟩
    cases h
    cases h'
    exact ⟨r, ⟨db₁, hx, rfl⟩, rfl⟩
  · rintro ⟨r, ⟨db₁, hx, rfl⟩, rfl⟩
    exact ⟨_, ⟨r, db₁, hx, _, _, rfl, rfl⟩, rfl⟩

theorem transacts_notify {α : Type} {x : Session α} {g : α → Item}
    (h : x.Transacts fun _ => []) :
    (x >>= fun r => notify env q.1.typeName q.2 >>= fun _ => pure (g r)).Transacts
      (toldOf env q) where
  failed {db fault db'} hrun := by
    rw [Attempt.outcome_bind] at hrun
    rcases hx : x.outcome db with ⟨e | r, db₁⟩ <;> rw [hx] at hrun <;> dsimp only at hrun
    · cases hrun
      exact h.failed hx
    · rw [Attempt.outcome_bind_of_ok (outcome_notify env q db₁)] at hrun
      cases hrun
  committed {db item db'} hrun := by
    obtain ⟨r, db₁, hx, hrun⟩ := Attempt.outcome_bind_eq_ok.1 hrun
    rw [Attempt.outcome_bind_of_ok (outcome_notify env q db₁)] at hrun
    cases hrun
    obtain ⟨taken, pending, trace⟩ := h.committed hx
    refine ⟨taken, pending, ?_⟩
    show db₁.trace ++ _ = _
    rw [trace, List.append_nil]

/-- A mutation succeeds exactly if all of its steps go well, and comes to what they come to. -/
theorem change_gives (hf : mutationOf f.source = some q) :
    (change env f a).Gives db s' item ↔ Resolves env db.stored a f.source s' item := by
  unfold change
  cases hsource : f.source <;> rw [hsource] at hf <;> try cases hf
  case createOne p =>
    simp only [Session.gives_lift_bind, gives_notify (q := (p, .create))]
    constructor
    · rintro ⟨_, admitted, told, h, rfl⟩
      obtain ⟨values, converted, taken, inserted⟩ := Mutation.createOne_gives.1 h
      exact .createOne (checkInputs_eq_ok.1 admitted) converted inserted taken
    · intro h
      cases h with
      | createOne admitted converted inserted taken =>
        exact ⟨(), checkInputs_eq_ok.2 admitted, _,
          Mutation.createOne_gives.2 ⟨_, converted, taken, inserted⟩, rfl⟩
  case createBatch p =>
    simp only [Session.gives_lift_bind, gives_notify (q := (p, .create))]
    constructor
    · rintro ⟨_, admitted, told, h, rfl⟩
      obtain ⟨rows, converted, taken, inserted⟩ := Mutation.createBatch_gives.1 h
      exact .createBatch (checkInputs_eq_ok.1 admitted) converted inserted taken
    · intro h
      cases h with
      | createBatch admitted converted inserted taken =>
        exact ⟨(), checkInputs_eq_ok.2 admitted, _,
          Mutation.createBatch_gives.2 ⟨_, converted, taken, inserted⟩, rfl⟩
  case update p =>
    simp only [Session.gives_lift_bind, gives_notify (q := (p, .update))]
    constructor
    · rintro ⟨_, admitted, scope, narrowed, told, h, rfl⟩
      obtain ⟨values, converted, c, filtered, taken, updated⟩ := Mutation.update_gives.1 h
      exact .update (checkInputs_eq_ok.1 admitted) narrowed converted filtered updated taken
    · intro h
      cases h with
      | update admitted narrowed converted filtered updated taken =>
        exact ⟨(), checkInputs_eq_ok.2 admitted, _, narrowed, _,
          Mutation.update_gives.2 ⟨_, converted, _, filtered, taken, updated⟩, rfl⟩
  case delete p =>
    simp only [Session.gives_lift_bind, gives_notify (q := (p, .delete))]
    constructor
    · rintro ⟨_, admitted, scope, narrowed, count, h, rfl⟩
      obtain ⟨c, filtered, taken, deleted⟩ := Mutation.delete_gives.1 h
      exact .delete (checkInputs_eq_ok.1 admitted) narrowed filtered deleted taken
    · intro h
      cases h with
      | delete admitted narrowed filtered deleted taken =>
        exact ⟨(), checkInputs_eq_ok.2 admitted, _, narrowed, _,
          Mutation.delete_gives.2 ⟨_, filtered, taken, deleted⟩, rfl⟩

/-- A mutation fails before its transaction is committed, or the watch is told behind that. -/
theorem transacts_change (hf : mutationOf f.source = some q) :
    (change env f a).Transacts (toldOf env q) := by
  unfold change
  cases hsource : f.source <;> rw [hsource] at hf <;> cases hf
  case createOne p =>
    exact .lift_bind fun _ => transacts_notify (q := (p, .create)) Mutation.transacts_createOne
  case createBatch p =>
    exact .lift_bind fun _ => transacts_notify (q := (p, .create)) Mutation.transacts_createBatch
  case update p =>
    exact .lift_bind fun _ => .lift_bind fun _ =>
      transacts_notify (q := (p, .update)) Mutation.transacts_update
  case delete p =>
    exact .lift_bind fun _ => .lift_bind fun _ =>
      transacts_notify (q := (p, .delete)) (g := fun count : Nat => .value (.int count))
        Mutation.transacts_delete

end Answer

end TableGraph
