import TableGraph.Proofs.Commit.Exact
import TableGraph.Sample.Notes

/-!
# Mutations are atomic

A field of the root of mutations leaves stored what was stored, unless all of its steps go well.
Then everything that it changes is committed at once; behind that the watch is told of it, once, and
finds it stored.  The watch has no say in it: the guards, the row scopes, the statements and what is
shown of their rows are the same under another watch.

Statements change the pending store one after another, and one that fails leaves it as those before
it did.  That nothing comes of them is up to the roll-back (`Session.outcome_transaction`).

Main statement: `mutations_atomic`, for one field in `Atomic` and for the fields of a request in
`Commits`.
-/

namespace TableGraph

/-! ## What is added to a table -/

namespace Table

variable {t t' : Table} {values : Record} {cells row : Row}

/-- The cell that is kept in a column: a number for a null of the key that the table numbers. -/
def supplied (t : Table) (column : String) (cell : Cell) : Cell :=
  if cell.isNull && t.numberedKey? = some column then .int (t.nextNumber column) else cell

/-- A row is made of the values that are given, and of null in all other columns. -/
structure Made (t : Table) (values : Record) (row : Row) : Prop where
  columns : row.map (·.1) = t.columns.map (·.name)
  given : ∀ column ∈ t.columns.map (·.name), ∀ v, values.lookup column = some v →
    ∃ type cell, t.typeOf column = .ok type ∧ type.bind v = .ok cell ∧
      row.lookup column = some (t.supplied column (cell.preferred (.ofType type)))
  absent : ∀ column ∈ t.columns.map (·.name), values.lookup column = none →
    row.lookup column = some (t.supplied column .null)

/-- Rows are made of records, each in a table that has those before it. -/
inductive AllMade : Table → List Record → List Row → Prop
  | nil (t : Table) : AllMade t [] []
  | cons {t : Table} {values : Record} {row : Row} {rest : List Record} {rows : List Row}
      (first : t.Made values row) (behind : AllMade { t with rows := t.rows ++ [row] } rest rows) :
      AllMade t (values :: rest) (row :: rows)

theorem lookup_rowOf {column : String} (h : column ∈ t.columns.map (·.name)) :
    (t.rowOf cells).lookup column = some (t.supplied column (cells.get column)) := by
  unfold rowOf
  revert h
  induction t.columns with
  | nil => nofun
  | cons c columns ih =>
    intro h
    rw [List.map_cons, List.lookup_cons]
    by_cases hc : column = c.name
    · subst hc
      rw [beq_self_eq_true]
      rfl
    · rw [beq_false_of_ne hc]
      exact ih ((List.mem_cons.1 h).resolve_left hc)

theorem made_rowOf (hcells : t.cellsOf values = .ok cells) : t.Made values (t.rowOf cells) where
  columns := by
    unfold rowOf
    rw [List.map_map]
    rfl
  given column hcolumn v hv := by
    obtain ⟨type, cell, htype, hcell, kept⟩ := (lookup_cellsOf hcells column).2 v hv
    refine ⟨type, cell, htype, hcell, ?_⟩
    rw [lookup_rowOf hcolumn, Row.get, kept, Option.getD_some]
  absent column hcolumn none := by
    rw [lookup_rowOf hcolumn, Row.get, (lookup_cellsOf hcells column).1 none, Option.getD_none]

end Table

namespace Mutation

variable {p : Projection} {s s' : Store} {name : String}

theorem Inserted.table {values told : Record} (h : Inserted p s values s' told) :
    ∃ t row, s.table p.name = .ok t ∧ t.Made values row ∧
      s' = s.put { t with rows := t.rows ++ [row] } := by
  cases h with
  | returned _ table inserted _ =>
    obtain ⟨cells, hcells, rfl, rfl, -⟩ := Table.insert_eq_ok inserted
    exact ⟨_, _, table, Table.made_rowOf hcells, rfl⟩
  | readBack _ table inserted _ =>
    obtain ⟨cells, hcells, rfl, rfl, -⟩ := Table.insert_eq_ok inserted
    exact ⟨_, _, table, Table.made_rowOf hcells, rfl⟩

/-- Inserting adds a row made of each record, behind those that were there. -/
theorem Inserts.table {rows told : List Record} (h : Inserts p s rows s' told) {t : Table}
    (ht : s.table p.name = .ok t) :
    ∃ new, t.AllMade rows new ∧ s'.table p.name = .ok { t with rows := t.rows ++ new } := by
  induction h generalizing t with
  | nil s => exact ⟨[], .nil t, by rw [List.append_nil]; exact ht⟩
  | cons first _ ih =>
    obtain ⟨u, row, table, made, rfl⟩ := first.table
    obtain rfl : t = u := Except.ok.inj (ht.symm.trans table)
    obtain ⟨new, behind, htable⟩ := ih (Store.table_put table rfl)
    refine ⟨row :: new, .cons made behind, ?_⟩
    rw [htable, List.append_assoc]
    rfl

theorem Inserts.others {rows told : List Record} (h : Inserts p s rows s' told)
    (hname : name ≠ p.name) : s'.table name = s.table name := by
  induction h with
  | nil => rfl
  | cons first _ ih =>
    obtain ⟨t, row, table, -, rfl⟩ := first.table
    rw [ih]
    exact Store.table_put_other table rfl hname

/-- Where a row cannot be inserted behind others, all of them together cannot be either. -/
theorem not_inserts {before : List Record} {values : Record} {after told : List Record}
    (h : ∀ s₁ rows, Inserts p s before s₁ rows → ∀ s₂ row, ¬ Inserted p s₁ values s₂ row) :
    ¬ Inserts p s (before ++ values :: after) s' told := by
  intro hall
  induction before generalizing s told with
  | nil =>
    cases hall with
    | cons first _ => exact h _ _ (.nil _) _ _ first
  | cons first before ih =>
    cases hall with
    | cons hfirst behind =>
      exact ih (fun s₁ rows hrows => h s₁ _ (.cons hfirst hrows)) behind

end Mutation

namespace Answer

open TableGraph.Graph

variable {env : Environment} {f : Planned} {q : Projection × Operation} {db db' : Database}
  {values : List (String × Value)} {s s' : Store} {a : Arguments} {source : Source} {item : Item}

/-! ## What a mutation does -/

/-- The rows that a client sends. -/
def sentTo (a : Arguments) : Source → List (List (String × Value))
  | .createBatch _ => inputsOf (a.get "data")
  | .delete _ => []
  | _ => [fieldsOfInput (a.get "data")]

/-- What hinders a mutation before its transaction is begun. -/
inductive Obstacle (env : Environment) (a : Arguments) (source : Source) (p : Projection)
    (o : Operation) : Prop
  | entityGuard {fault : Fault} (refused : env.checkEntity p.typeName o = .error fault)
  | fieldGuard {data : List (String × Value)} {d : String × Value} {f : ColumnField}
      {fault : Fault} (sent : data ∈ sentTo a source) (given : d ∈ data)
      (named : p.field d.1 = .ok f) (refused : env.checkField f.path o = .error fault)
  | conversion {data : List (String × Value)} {d : String × Value} {f : ColumnField}
      {fault : Fault} (sent : data ∈ sentTo a source) (given : d ∈ data)
      (named : p.field d.1 = .ok f)
      (failed : Mutation.columnValue env.schema.codec f d.2 = .error fault)
  | filter {fault : Fault} (selects : o ≠ .create)
      (failed : Filter.compile env.schema.codec p (a.get "filter") = .error fault)
  | scope {fault : Fault} (selects : o ≠ .create) (failed : env.scope p o = .error fault)

theorem Admitted.not_guarded {p : Projection} {o : Operation}
    {inputs : List (List (String × Value))} (h : Admitted env p o inputs)
    {data : List (String × Value)} (hdata : data ∈ inputs) {d : String × Value} (hd : d ∈ data)
    {f : ColumnField} (named : p.field d.1 = .ok f) (fault : Fault) :
    env.checkField f.path o ≠ .error fault := by
  obtain ⟨g, named', passed⟩ := h.fields data hdata d hd
  obtain rfl := Except.ok.inj (named.symm.trans named')
  rw [passed]
  nofun

/-- The guards are passed, and what is sent is converted. -/
theorem Resolves.prepared (h : Resolves env s a source s' item)
    (hq : mutationOf source = some q) : Admitted env q.1 q.2 (sentTo a source) ∧
      ∃ records, List.Forall₂ (Mutation.Converted env.schema.codec q.1) (sentTo a source)
        records := by
  cases h <;> cases hq
  case createOne admitted converted _ _ => exact ⟨admitted, _, .cons converted .nil⟩
  case createBatch admitted converted _ _ => exact ⟨admitted, _, converted⟩
  case update admitted _ converted _ _ _ => exact ⟨admitted, _, .cons converted .nil⟩
  case delete admitted _ _ _ _ => exact ⟨admitted, [], .nil⟩

/-- The filter of a mutation of selected rows is compiled, and their scope is answered. -/
theorem Resolves.selected (h : Resolves env s a source s' item)
    (hq : mutationOf source = some q) (selects : q.2 ≠ .create) :
    (∃ c, Filter.compile env.schema.codec q.1 (a.get "filter") = .ok c) ∧
      ∃ scope, env.scope q.1 q.2 = .ok scope := by
  cases h <;> cases hq
  case createOne => exact absurd rfl selects
  case createBatch => exact absurd rfl selects
  case update narrowed _ filtered _ _ => exact ⟨⟨_, filtered⟩, _, narrowed⟩
  case delete narrowed filtered _ _ => exact ⟨⟨_, filtered⟩, _, narrowed⟩

theorem Obstacle.not_resolves (h : Obstacle env a source q.1 q.2)
    (hq : mutationOf source = some q) : ¬ Resolves env s a source s' item := by
  intro resolves
  obtain ⟨admitted, records, converted⟩ := resolves.prepared hq
  cases h with
  | entityGuard refused =>
    rw [admitted.entity] at refused
    cases refused
  | fieldGuard sent given named refused => exact admitted.not_guarded sent given named _ refused
  | conversion sent given named failed =>
    obtain ⟨_, -, all⟩ := exists_of_forall₂ converted sent
    exact all.not_failed given named _ failed
  | filter selects failed =>
    obtain ⟨⟨c, filtered⟩, -⟩ := resolves.selected hq selects
    cases filtered.symm.trans failed
  | scope selects failed =>
    obtain ⟨-, _, narrowed⟩ := resolves.selected hq selects
    cases narrowed.symm.trans failed

/-- What a mutation does to the tables, and what it tells of a deletion. -/
structure Effect (env : Environment) (s s' : Store) (a : Arguments) (source : Source)
    (p : Projection) (o : Operation) (item : Item) : Prop where
  /-- What is sent is there as new rows behind those that were. -/
  created : o = .create → ∀ t, s.table p.name = .ok t → ∃ records new,
    List.Forall₂ (Mutation.Converted env.schema.codec p) (sentTo a source) records ∧
      t.AllMade records new ∧ s'.table p.name = .ok { t with rows := t.rows ++ new }
  /-- The rows of the filter and the row scope have the sent values. -/
  updated : o = .update → ∃ scope t S values after, env.scope p .update = .ok scope ∧
    Mutation.Selects env.schema.codec s p (a.get "filter") scope t S ∧
    Mutation.Converted env.schema.codec p (fieldsOfInput (a.get "data")) values ∧
    Mutation.Edits s s' p t S values after
  /-- The rows of the filter and the row scope are gone, and their number is told. -/
  deleted : o = .delete → ∃ scope t S count, env.scope p .delete = .ok scope ∧
    Mutation.Selects env.schema.codec s p (a.get "filter") scope t S ∧
    Mutation.Removes s s' p t S count ∧ item = .value (.int count)
  /-- The tables of other entities are not touched. -/
  others : ∀ name, name ≠ p.name → s'.table name = s.table name

theorem effect_of_inserts {p : Projection} {records told : List Record}
    (converted : List.Forall₂ (Mutation.Converted env.schema.codec p) (sentTo a source) records)
    (inserted : Mutation.Inserts p s records s' told) :
    Effect env s s' a source p .create item where
  created _ t ht := by
    obtain ⟨new, made, table⟩ := inserted.table ht
    exact ⟨records, new, converted, made, table⟩
  updated := nofun
  deleted := nofun
  others _ := inserted.others

theorem Resolves.effect (h : Resolves env s a source s' item) (hq : mutationOf source = some q) :
    Effect env s s' a source q.1 q.2 item := by
  cases h <;> cases hq
  case createOne _ converted inserted _ => exact effect_of_inserts (.cons converted .nil) inserted
  case createBatch _ converted inserted _ => exact effect_of_inserts converted inserted
  case update _ narrowed converted filtered updated _ =>
    obtain ⟨t, S, after, selects, edits, -⟩ := Mutation.edits_of_updated filtered updated
    exact ⟨nofun, fun _ => ⟨_, t, S, _, after, narrowed, selects, converted, edits⟩, nofun,
      edits.others⟩
  case delete _ narrowed filtered deleted _ =>
    obtain ⟨t, S, selects, removes⟩ := Mutation.removes_of_deleted filtered deleted
    exact ⟨nofun, nofun, fun _ => ⟨_, t, S, _, narrowed, selects, removes, rfl⟩, removes.others⟩

/-- A batch that goes well inserts what its items are converted to. -/
theorem Resolves.inserted {p : Projection} {rows : List Record}
    (h : Resolves env s a (.createBatch p) s' item)
    (hrows : List.Forall₂ (Mutation.Converted env.schema.codec p) (inputsOf (a.get "data")) rows) :
    ∃ told, Mutation.Inserts p s rows s' told := by
  cases h with
  | createBatch _ converted inserted _ =>
    obtain rfl := Except.ok.inj ((Mutation.mapM_columnValues_eq_ok.2 hrows).symm.trans
      (Mutation.mapM_columnValues_eq_ok.2 converted))
    exact ⟨_, inserted⟩

/-! ## Another watch -/

section Watched

variable (env : Environment) (watch : Option Watch)

/-- The environment with another watch. -/
def Environment.watched (env : Environment) (watch : Option Watch) : Environment :=
  { env with schema := { env.schema with context := { env.schema.context with watch } } }

/-- One ends as the other does, up to what happened to the database. -/
def EndsAs {α : Type} (ended ended' : Except Fault α × Database) : Prop :=
  ended.1 = ended'.1 ∧ ended.2.stored = ended'.2.stored ∧
    ended.2.statements = ended'.2.statements

theorem endsAs_notify {α : Type} (q : Projection × Operation) (x : Session α) (g : α → Item)
    (db : Database) :
    EndsAs ((x >>= fun r => notify (env.watched watch) q.1.typeName q.2 >>= fun _ =>
        pure (g r)).outcome db)
      ((x >>= fun r => notify env q.1.typeName q.2 >>= fun _ => pure (g r)).outcome db) := by
  rw [Attempt.outcome_bind, Attempt.outcome_bind]
  rcases x.outcome db with ⟨fault | r, db'⟩
  · exact ⟨rfl, rfl, rfl⟩
  · dsimp only
    rw [Attempt.outcome_bind_of_ok (outcome_notify (env.watched watch) q db'),
      Attempt.outcome_bind_of_ok (outcome_notify env q db')]
    exact ⟨rfl, rfl, rfl⟩

theorem endsAs_lift {α β : Type} {x : Except Fault α} {f f' : α → Session β} {db : Database}
    (h : ∀ a, EndsAs ((f a).outcome db) ((f' a).outcome db)) :
    EndsAs (((liftM x : Session α) >>= f).outcome db)
      (((liftM x : Session α) >>= f').outcome db) := by
  rw [Attempt.outcome_lift_bind, Attempt.outcome_lift_bind]
  cases x with
  | error fault => exact ⟨rfl, rfl, rfl⟩
  | ok a => exact h a

theorem change_watched (f : OutputField) (a : Arguments) (db : Database) :
    EndsAs ((change (env.watched watch) f a).outcome db) ((change env f a).outcome db) := by
  unfold change
  cases f.source
  case createOne p => exact endsAs_lift fun _ => endsAs_notify env watch (p, .create) _ _ db
  case createBatch p => exact endsAs_lift fun _ => endsAs_notify env watch (p, .create) _ _ db
  case update p =>
    exact endsAs_lift fun _ => endsAs_lift fun _ => endsAs_notify env watch (p, .update) _ _ db
  case delete p =>
    exact endsAs_lift fun _ => endsAs_lift fun _ =>
      endsAs_notify env watch (p, .delete) _ (fun count : Nat => .value (.int count)) db
  all_goals exact ⟨rfl, rfl, rfl⟩

mutual

theorem showField_watched (p : Planned) (typeName : String) (parent : Item) (path : Path)
    (l : Loaded) : showField (env.watched watch) p typeName parent path l =
      showField env p typeName parent path l := by
  obtain ⟨key, field, arguments, written, refusal, selections⟩ := p
  unfold showField
  simp only [showFields_watched selections]
  rfl
termination_by structural p

theorem showFields_watched (ps : List Planned) (typeName : String) (parent : Item) (path : Path)
    (l : Loaded) : showFields (env.watched watch) ps typeName parent path l =
      showFields env ps typeName parent path l := by
  cases ps with
  | nil => rfl
  | cons p ps =>
    unfold showFields
    rw [showField_watched p, showFields_watched ps]
termination_by structural ps

end

theorem showRoot_watched (s : Store) (p : Planned) (found : Counted Item) (l : Loaded) (n : Nat) :
    showRoot (env.watched watch) s p found l n = showRoot env s p found l n := by
  have shown (item : Item) :
      showFound (env.watched watch) p item (rootPath p) l =
        showFound env p item (rootPath p) l := by
    unfold showFound
    simp only [showFields_watched]
    rfl
  unfold showRoot
  simp only [shown]

end Watched

/-! ## One field -/

/-- The environment that a field of the root of mutations is answered in. -/
def Environment.called (env : Environment) (f : Planned) : Environment :=
  env.enter mutationName f.field.name (rootPath f)

theorem changeRoot_of_error {fault : Fault} (hvalues : f.arguments = .ok values)
    (hrun : (change (env.called f) f.field ⟨values, f.written⟩).outcome db = (.error fault, db')) :
    changeRoot env f db = (.failed fault (rootPath f), db') := by
  unfold changeRoot
  rw [hvalues]
  unfold Environment.called at hrun
  dsimp only
  rw [hrun]

theorem changeRoot_of_ok (hvalues : f.arguments = .ok values)
    (hrun : (change (env.called f) f.field ⟨values, f.written⟩).outcome db = (.ok item, db')) :
    changeRoot env f db = ((showRoot env db'.stored f (pure item) [] db'.statements).1,
      { db' with
        statements := (showRoot env db'.stored f (pure item) [] db'.statements).2.2 }) := by
  unfold changeRoot
  rw [hvalues]
  unfold Environment.called at hrun
  dsimp only
  rw [hrun]

/-- The field fails, and nothing comes of it. -/
def Fails (env : Environment) (f : Planned) (db : Database) : Prop :=
  ∃ fault db', changeRoot env f db = (.failed fault (rootPath f), db') ∧ db.Spares db'

/-- What the field did is committed at once, the watch is told of it behind that, and what was found
is shown. -/
def Succeeds (env : Environment) (f : Planned) (q : Projection × Operation) (db : Database)
    (s' : Store) (item : Item) : Prop :=
  ∃ n db', changeRoot env f db = ((showRoot env s' f (pure item) [] n).1, db') ∧
    db'.stored = s' ∧ db'.pending = none ∧
    db'.trace = db.trace ++ [.begun, .committed] ++ toldOf (env.called f) q s'

/-- A field of the root of mutations does all of what it does, or nothing. -/
structure Atomic (env : Environment) (f : Planned) (q : Projection × Operation) (db : Database) :
    Prop where
  /-- Where any step fails, be it a guard, a conversion, the filter, the row scope, a statement or
  the commit, the field fails and nothing comes of it. -/
  failed : (∀ values s' item, f.arguments = .ok values →
    ¬ Resolves (env.called f) db.stored ⟨values, f.written⟩ f.field.source s' item) →
      Fails env f db
  /-- So it is where a mutation does not get as far as its transaction. -/
  hindered : ∀ values, f.arguments = .ok values →
    Obstacle (env.called f) ⟨values, f.written⟩ f.field.source q.1 q.2 → Fails env f db
  /-- So it is with a batch, rows of which could be inserted and the one behind them cannot. -/
  stuck : ∀ p values before row after, f.field.source = .createBatch p →
    f.arguments = .ok values →
    List.Forall₂ (Mutation.Converted env.schema.codec p)
      (inputsOf ((⟨values, f.written⟩ : Arguments).get "data")) (before ++ row :: after) →
    (∀ s told, Mutation.Inserts p db.stored before s told →
      ∀ s' told', ¬ Mutation.Inserted p s row s' told') → Fails env f db
  /-- Else the field succeeds, with the effect that its operation has. -/
  committed : ∀ values s' item, f.arguments = .ok values →
    Resolves (env.called f) db.stored ⟨values, f.written⟩ f.field.source s' item →
    Succeeds env f q db s' item ∧
      Effect (env.called f) db.stored s' ⟨values, f.written⟩ f.field.source q.1 q.2 item
  /-- Another watch, that may fail as it likes, changes neither the answer nor what is stored. -/
  unwatched : ∀ watch, (changeRoot (env.watched watch) f db).1 = (changeRoot env f db).1 ∧
    (changeRoot (env.watched watch) f db).2.stored = (changeRoot env f db).2.stored

theorem succeeds_of_resolves (hq : mutationOf f.field.source = some q)
    (hvalues : f.arguments = .ok values)
    (h : Resolves (env.called f) db.stored ⟨values, f.written⟩ f.field.source s' item) :
    Succeeds env f q db s' item := by
  obtain ⟨db', hrun, rfl⟩ := (change_gives hq).2 h
  obtain ⟨-, pending, trace⟩ := (transacts_change hq).committed hrun
  exact ⟨_, _, changeRoot_of_ok hvalues hrun, rfl, pending, trace⟩

theorem fails_of_not_resolves (hq : mutationOf f.field.source = some q)
    (h : ∀ values s' item, f.arguments = .ok values →
      ¬ Resolves (env.called f) db.stored ⟨values, f.written⟩ f.field.source s' item) :
    Fails env f db := by
  cases hvalues : f.arguments with
  | error fault =>
    refine ⟨fault, db, ?_, rfl, id, .inl rfl⟩
    unfold changeRoot
    rw [hvalues]
  | ok values =>
    rcases hrun : (change (env.called f) f.field ⟨values, f.written⟩).outcome db with
      ⟨fault | item, db'⟩
    · exact ⟨fault, db', changeRoot_of_error hvalues hrun, (transacts_change hq).failed hrun⟩
    · exact absurd ((change_gives hq).1 ⟨db', hrun, rfl⟩) (h values _ item hvalues)

/-- A field either does everything or nothing. -/
theorem succeeds_or_fails (env : Environment) (db : Database)
    (hq : mutationOf f.field.source = some q) :
    (∃ values s' item, f.arguments = .ok values ∧
      Resolves (env.called f) db.stored ⟨values, f.written⟩ f.field.source s' item ∧
      Succeeds env f q db s' item) ∨ Fails env f db := by
  by_cases h : ∃ values s' item, f.arguments = .ok values ∧
      Resolves (env.called f) db.stored ⟨values, f.written⟩ f.field.source s' item
  · obtain ⟨values, s', item, hvalues, h⟩ := h
    exact .inl ⟨values, s', item, hvalues, h, succeeds_of_resolves hq hvalues h⟩
  · exact .inr (fails_of_not_resolves hq fun values s' item hvalues h' =>
      h ⟨values, s', item, hvalues, h'⟩)

theorem changeRoot_watched (watch : Option Watch) :
    (changeRoot (env.watched watch) f db).1 = (changeRoot env f db).1 ∧
      (changeRoot (env.watched watch) f db).2.stored = (changeRoot env f db).2.stored := by
  cases hvalues : f.arguments with
  | error fault =>
    unfold changeRoot
    rw [hvalues]
    exact ⟨rfl, rfl⟩
  | ok values =>
    obtain ⟨result, stored, statements⟩ :=
      change_watched (env.called f) watch f.field ⟨values, f.written⟩ db
    rcases hrun : (change (env.called f) f.field ⟨values, f.written⟩).outcome db with
      ⟨fault | item, db₁⟩ <;>
      rcases hrun' : (change ((env.called f).watched watch) f.field ⟨values, f.written⟩).outcome db
        with ⟨fault' | item', db₂⟩ <;>
      rw [hrun, hrun'] at result stored statements <;> cases result
    · have watched : changeRoot (env.watched watch) f db = _ :=
        changeRoot_of_error hvalues hrun'
      rw [changeRoot_of_error hvalues hrun, watched]
      exact ⟨rfl, stored⟩
    · have watched : changeRoot (env.watched watch) f db = _ := changeRoot_of_ok hvalues hrun'
      rw [changeRoot_of_ok hvalues hrun, watched, showRoot_watched]
      dsimp only at stored statements ⊢
      rw [stored, statements]
      exact ⟨rfl, rfl⟩

theorem atomic_of_mutation (hq : mutationOf f.field.source = some q) : Atomic env f q db where
  failed := fails_of_not_resolves hq
  hindered := by
    intro values hvalues obstacle
    refine fails_of_not_resolves hq fun values' s' item hvalues' => ?_
    obtain rfl := Except.ok.inj (hvalues.symm.trans hvalues')
    exact obstacle.not_resolves hq
  stuck := by
    intro p values before row after hsource hvalues hrows h
    refine fails_of_not_resolves hq fun values' s' item hvalues' resolves => ?_
    obtain rfl := Except.ok.inj (hvalues.symm.trans hvalues')
    rw [hsource] at resolves
    obtain ⟨told, inserted⟩ := resolves.inserted hrows
    exact Mutation.not_inserts h inserted
  committed := fun _ _ _ hvalues h => ⟨succeeds_of_resolves hq hvalues h, h.effect hq⟩
  unwatched := changeRoot_watched

/-! ## The fields of a request -/

/-- Fields of the root of mutations that succeed one after another.  Those that are no mutations
leave the database as it is. -/
inductive Commits (env : Environment) : List Planned → Database → Database → Prop
  | nil (db : Database) : Commits env [] db db
  | cons {f : Planned} {fs : List Planned} {q : Projection × Operation} {db next last : Database}
      {values : List (String × Value)} {item : Item}
      (mutation : mutationOf f.field.source = some q) (arguments : f.arguments = .ok values)
      (resolves : Resolves (env.called f) db.stored ⟨values, f.written⟩ f.field.source
        next.stored item) (pending : next.pending = none)
      (trace : next.trace =
        db.trace ++ [.begun, .committed] ++ toldOf (env.called f) q next.stored)
      (behind : Commits env fs next last) : Commits env (f :: fs) db last
  | other {f : Planned} {fs : List Planned} {db next last : Database}
      (mutation : mutationOf f.field.source = none) (stored : next.stored = db.stored)
      (pending : next.pending = db.pending) (trace : next.trace = db.trace)
      (behind : Commits env fs next last) : Commits env (f :: fs) db last

/-- What the watch is told of several fields. -/
def toldOfAll (env : Environment) (fs : List Planned) : List (String × Operation) :=
  if env.schema.context.watch.isSome then
    fs.filterMap fun f => (mutationOf f.field.source).map fun q => (q.1.typeName, q.2)
  else []

/-- The watch is told of the fields in their order, once of each that is a mutation. -/
theorem Commits.events_eq {fs : List Planned} {last : Database} (h : Commits env fs db last) :
    last.events = db.events ++ toldOfAll env fs := by
  unfold toldOfAll
  induction h with
  | nil db => simp
  | @cons f fs q db next last _ _ mutation _ _ _ trace _ ih =>
    have watch : (env.called f).schema.context.watch = env.schema.context.watch := rfl
    have next_events : next.events = db.events ++
        if env.schema.context.watch.isSome then [(q.1.typeName, q.2)] else [] := by
      unfold Database.events
      rw [trace, List.filterMap_append, List.filterMap_append, List.append_assoc]
      unfold toldOf
      rw [watch]
      split_ifs <;> rfl
    rw [ih, next_events, List.append_assoc]
    split_ifs
    · rw [List.filterMap_cons, mutation]
      rfl
    · rfl
  | other mutation _ _ trace _ ih =>
    rw [ih]
    unfold Database.events
    rw [trace]
    simp only [List.filterMap_cons, mutation, Option.map_none]

/-- A field that is no mutation leaves the database as it is. -/
theorem changeRoot_other (env : Environment) (db : Database)
    (h : mutationOf f.field.source = none) : (changeRoot env f db).2.stored = db.stored ∧
      (changeRoot env f db).2.pending = db.pending ∧
      (changeRoot env f db).2.trace = db.trace := by
  cases hvalues : f.arguments with
  | error fault =>
    unfold changeRoot
    rw [hvalues]
    exact ⟨rfl, rfl, rfl⟩
  | ok values =>
    obtain ⟨found, hfound⟩ : ∃ found : Except Fault Item,
        change (env.called f) f.field ⟨values, f.written⟩ = liftM found := by
      unfold change
      cases hsource : f.field.source <;> rw [hsource] at h
      case createOne | createBatch | update | delete => cases h
      all_goals exact ⟨_, rfl⟩
    have hrun : (change (env.called f) f.field ⟨values, f.written⟩).outcome db = (found, db) := by
      rw [hfound, Attempt.outcome_lift]
    cases found with
    | error fault =>
      rw [changeRoot_of_error hvalues hrun]
      exact ⟨rfl, rfl, rfl⟩
    | ok item =>
      rw [changeRoot_of_ok hvalues hrun]
      exact ⟨rfl, rfl, rfl⟩

/-- The first fields of a run succeed; where not all of them do, it ends with an error, and nothing
comes of the others. -/
theorem exists_commits (env : Environment) (db : Database) (fs : List Planned) :
    ∃ done rest next, fs = done ++ rest ∧ Commits env done db next ∧
      next.Spares (changeRoots env fs db).2 ∧ (rest = [] → (changeRoots env fs db).2 = next) ∧
      (rest ≠ [] → ∃ e, (changeRoots env fs db).1.result = .error e) := by
  induction fs generalizing db with
  | nil => exact ⟨[], [], db, rfl, .nil db, .refl db, fun _ => rfl, fun h => absurd rfl h⟩
  | cons f fs ih =>
    -- A field that leaves no error to the root is followed by those behind it.
    have behind (h : ∀ {done next}, Commits env done (changeRoot env f db).2 next →
        Commits env (f :: done) db next) : ∃ done rest next, f :: fs = done ++ rest ∧
        Commits env done db next ∧ next.Spares (changeRoots env (f :: fs) db).2 ∧
        (rest = [] → (changeRoots env (f :: fs) db).2 = next) ∧
        (rest ≠ [] → ∃ e, (changeRoots env (f :: fs) db).1.result = .error e) := by
      unfold changeRoots
      dsimp only
      cases hresult : (changeRoot env f db).1.result with
      | error e =>
        exact ⟨[f], fs, _, rfl, h (.nil _), .refl _, fun _ => rfl, fun _ => ⟨e, rfl⟩⟩
      | ok v =>
        obtain ⟨done, rest, next, rfl, commits, spared, all, ended⟩ := ih (changeRoot env f db).2
        refine ⟨f :: done, rest, next, rfl, h commits, spared, all, fun hrest => ?_⟩
        obtain ⟨e, he⟩ := ended hrest
        refine ⟨e, ?_⟩
        simp [Report.bind, hresult, he]
    cases hq : mutationOf f.field.source with
    | none =>
      obtain ⟨stored, pending, trace⟩ := changeRoot_other env db hq
      exact behind (.other hq stored pending trace)
    | some q =>
      rcases succeeds_or_fails env db hq with
        ⟨values, s', item, hvalues, resolves, n, db', hroot, rfl, pending, trace⟩ |
          ⟨fault, db', hroot, spared⟩
      · exact behind (.cons hq hvalues (by rwa [hroot]) (by rwa [hroot]) (by rwa [hroot]))
      · unfold changeRoots
        rw [hroot]
        exact ⟨[], f :: fs, db, rfl, .nil db, spared, nofun, fun _ => ⟨_, rfl⟩⟩

/--
Every field of the root of mutations is atomic; and of the fields of a request those at the front
are committed one after another, each being told to the watch once, and nothing comes of the others.
-/
theorem mutations_atomic (env : Environment) :
    (∀ (f : Planned) (q : Projection × Operation) (db : Database),
      mutationOf f.field.source = some q → Atomic env f q db) ∧
    ∀ (fs : List Planned) (db : Database),
      ∃ done rest next, fs = done ++ rest ∧ Commits env done db next ∧
        next.Spares (changeRoots env fs db).2 ∧ (rest = [] → (changeRoots env fs db).2 = next) ∧
        (changeRoots env fs db).2.events = db.events ++ toldOfAll env done ∧
        (rest ≠ [] → ∃ e, (changeRoots env fs db).1.result = .error e) := by
  refine ⟨fun f q db hq => atomic_of_mutation hq, fun fs db => ?_⟩
  obtain ⟨done, rest, next, split, commits, spared, all, ended⟩ := exists_commits env db fs
  exact ⟨done, rest, next, split, commits, spared, all,
    spared.events_eq.trans commits.events_eq, ended⟩

section Notes

open Sample.Notes

/-- A note as a client sends it. -/
def sentNote (id : Int) : Value :=
  .object [("id", .int id), ("owner", .int 1), ("price", .text "1")]

/-- The creation of several notes. -/
def createNotes (ids : List Int) : Planned where
  key := "noteCreateBatch"
  field := ⟨"noteCreateBatch", [], .nonNull (.list (.nonNull (.named "NoteBasic"))),
    .createBatch projection⟩
  arguments := .ok [("data", .list (ids.map sentNote))]
  written := none
  refusal := none
  selections := []

/-- A watch that always fails. -/
def failingWatch : Watch := fun _ _ _ _ => .error (.database "the watch fails")

/-- The environment in which the watch fails. -/
def watchedNotes : Environment := environment.watched (some failingWatch)

/-- What a note is kept as. -/
def valuesOf (id : Int) : Record :=
  [("id", .int id), ("owner", .int 1), ("price", .decimal (.finite false 1 0))]

/--
Of two notes with one key the first is inserted, and nothing comes of it.  Two notes with different
keys are committed, and the watch is told of them once, behind that, though it fails.
-/
theorem mutations_atomic_notes :
    (∃ fault w, (Mutation.insertAll projection [valuesOf 1, valuesOf 1]).outcome ⟨store [], 0⟩ =
      (.error fault, w) ∧ w.store = store [note 1 1 (.int 1)]) ∧
    Fails watchedNotes (createNotes [1, 1]) (.opened (store [])) ∧
    (∃ item, Succeeds watchedNotes (createNotes [1, 2]) (projection, .create)
      (.opened (store [])) (store [note 1 1 (.int 1), note 2 1 (.int 1)]) item) ∧
    (changeRoots watchedNotes [createNotes [1, 2]] (.opened (store []))).2.events =
      [("Note", .create)] := by
  obtain ⟨fields, -⟩ := mutations_atomic watchedNotes
  refine ⟨⟨_, _, rfl, rfl⟩, ?_, ?_, rfl⟩
  · refine (fields (createNotes [1, 1]) (projection, .create) (.opened (store [])) rfl).failed ?_
    intro values s' item hvalues h
    cases hvalues
    have stored : (Database.opened (store [])).stored = store [] := rfl
    rw [← stored] at h
    obtain ⟨db, hrun, -⟩ := (change_gives rfl).2 h
    cases hrun
  · obtain ⟨item, db, hrun, hstored⟩ : ∃ item db, (change (watchedNotes.called (createNotes [1, 2]))
        (createNotes [1, 2]).field ⟨[("data", .list ([1, 2].map sentNote))], none⟩).outcome
          (.opened (store [])) = (.ok item, db) ∧
          db.stored = store [note 1 1 (.int 1), note 2 1 (.int 1)] :=
      ⟨_, _, rfl, rfl⟩
    have resolves := (change_gives rfl).1 ⟨db, hrun, hstored⟩
    exact ⟨item, ((fields (createNotes [1, 2]) (projection, .create) (.opened (store []))
      rfl).committed _ _ item rfl resolves).1⟩

end Notes

end Answer

end TableGraph
