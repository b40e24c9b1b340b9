import TableGraph.Proofs.Commit.Exact

/-!
# Rows that are returned and rows that are read back

A database that returns the rows it changes tells them itself; from any other they are read back by
their keys.

Main statements: `createOne_agrees`, `createBatch_agrees`, `update_agrees_iff`.
-/

namespace TableGraph

/-- The same tables in a database that returns the rows it changes, or in one that does not. -/
def Store.answering (s : Store) (returns : Bool) : Store := { s with returning := returns }

namespace Table

variable {t : Table} {rows : List Row} {told told' : List Record}

/-- Rows are told in any order if they are in one. -/
theorem tells_iff_sorted (orders : List Order) : t.Tells rows told ↔
    ∃ told', (t.sorted orders rows).mapM t.read = .ok told' ∧ told'.Perm told := by
  constructor
  · rintro ⟨arranged, hperm, hread⟩
    obtain ⟨told', hread', same⟩ :=
      exists_perm_of_mapM (hperm.trans (t.sorted_perm orders rows).symm) hread
    exact ⟨told', hread', same.symm⟩
  · rintro ⟨told', hread', same⟩
    obtain ⟨arranged, hread, hperm⟩ := List.perm_comp_forall₂ same.symm (mapM_eq_ok.1 hread').flip
    exact ⟨arranged, hperm.trans (t.sorted_perm orders rows), mapM_eq_ok.2 hread.flip⟩

theorem Tells.perm (h : t.Tells rows told) (same : told.Perm told') : t.Tells rows told' := by
  rw [tells_iff_sorted []] at h ⊢
  obtain ⟨first, hread, hperm⟩ := h
  exact ⟨first, hread, hperm.trans same⟩

end Table

namespace Mutation

variable {codec : Codec} {s s' : Store} {p : Projection} {filter : Value}
  {scope : Option (Predicate Value)} {t t' : Table} {S : Row → Bool} {values : Record} {row : Row}
  {after : Row → Row} {cells : List (List Cell)} {enumerations : List Enumeration}

/-! ## Inserted rows -/

/-- The key that is known of an inserted row is its own. -/
def Known (p : Projection) (t : Table) (values : Record) (row : Row) : Prop :=
  ∃ types key, p.entity.primaryKey.mapM t.typeOf = .ok types ∧
    Table.bindKeys types [insertedKey p t values row] = .ok [key] ∧
    Table.sameCells (p.entity.primaryKey.map row.get) key = true

/-- Of all rows that are inserted, one after another, their own keys are known. -/
def AllKnown (p : Projection) : Store → List Record → Prop
  | _, [] => True
  | s, values :: rest => ∀ t t' row, s.table p.name = .ok t → t.insert values = .ok (t', row) →
      Known p t values row ∧ AllKnown p (s.put t') rest

/-- Rows are inserted one after another, and told as they are kept. -/
inductive Stored (p : Projection) : Store → List Record → Store → List Record → Prop
  | nil (s : Store) : Stored p s [] s []
  | cons {s s' : Store} {t t' : Table} {row : Row} {values told : Record} {rest rows : List Record}
    (table : s.table p.name = .ok t) (inserted : t.insert values = .ok (t', row))
    (read : t'.read row = .ok told) (behind : Stored p (s.put t') rest s' rows) :
    Stored p s (values :: rest) s' (told :: rows)

/-- The key of an inserted row finds the row and no other. -/
theorem keyed_inserted (keeps : t.Keeps enumerations p.entity)
    (inserted : t.insert values = .ok (t', row)) (known : Known p t values row) :
    t'.keyed p.entity.primaryKey [insertedKey p t values row] = .ok [row] := by
  obtain ⟨types, key, htypes, hkey, same⟩ := known
  obtain ⟨-, -, -, rfl, unique⟩ := Table.insert_eq_ok inserted
  have hlength : key.length = p.entity.primaryKey.length := by
    rw [← length_of_mapM htypes]
    refine Table.length_of_bindKeys hkey ?_ key List.mem_cons_self
    rw [List.forall_mem_singleton, length_of_mapM htypes, insertedKey, List.length_map,
      Projection.keyColumns, Entity.length_keyColumns]
  have others : ∀ r ∈ t.rows, ¬ Table.sameCells (p.entity.primaryKey.map r.get) key := by
    intro r hr same'
    have apart := List.pairwise_append.1 (Table.pairwise_of_hasUniqueKeys unique)
    refine apart.2.2 r hr row List.mem_cons_self fun c hc => ?_
    exact Table.sameAt_of_key hlength same' same c (keeps.mem_key.1 hc)
  refine bind_eq_ok.2 ⟨types, htypes, bind_eq_ok.2 ⟨[key], hkey, congrArg Except.ok ?_⟩⟩
  simp only [List.any_cons, List.any_nil, Bool.or_false]
  rw [List.filter_append, List.filter_eq_nil_iff.2 others, List.nil_append]
  exact List.filter_cons_of_pos same

/-- A row that is read back by its key is told as it is kept. -/
theorem readBack_inserted (keeps : t.Keeps enumerations p.entity) (table : s.table p.name = .ok t)
    (inserted : t.insert values = .ok (t', row)) (known : Known p t values row)
    {rows : List Record} : ReadBack p (s.put t') [insertedKey p t values row] rows ↔
      ∃ told, t'.read row = .ok told ∧ rows = [told] := by
  have found := keyed_inserted keeps inserted known
  obtain ⟨-, -, -, ht', -⟩ := Table.insert_eq_ok inserted
  have table' : (s.put t').table p.name = .ok t' := Store.table_put table (ht' ▸ rfl)
  have one (orders : List Order) : t'.sorted orders [row] = [row] := List.mergeSort_singleton row
  constructor
  · intro h
    cases h with
    | rows _ again keyed read =>
      obtain rfl := Except.ok.inj (again.symm.trans table')
      obtain rfl := Except.ok.inj (keyed.symm.trans found)
      rw [one, mapM_eq_ok] at read
      cases read with
      | cons first rest =>
        cases rest
        exact ⟨_, first, rfl⟩
  · rintro ⟨told, read, rfl⟩
    refine .rows (List.cons_ne_nil _ _) table' found ?_
    rw [one, mapM_eq_ok]
    exact .cons read .nil

theorem inserted_iff (keeps : ∀ t, s.table p.name = .ok t → t.Keeps enumerations p.entity)
    (known : ∀ t t' row, s.table p.name = .ok t → t.insert values = .ok (t', row) →
      Known p t values row) (returns : Bool) {told : Record} :
    Inserted p (s.answering returns) values s' told ↔ ∃ t t' row, s.table p.name = .ok t ∧
      t.insert values = .ok (t', row) ∧ t'.read row = .ok told ∧
      s' = (s.put t').answering returns := by
  constructor
  · intro h
    cases h with
    | returned _ table inserted read => exact ⟨_, _, _, table, inserted, read, rfl⟩
    | readBack _ table inserted read =>
      obtain ⟨_, hread, hrows⟩ := (readBack_inserted (keeps _ table) table inserted
        (known _ _ _ table inserted)).1 read
      cases hrows
      exact ⟨_, _, _, table, inserted, hread, rfl⟩
  · rintro ⟨t, t', row, table, inserted, read, rfl⟩
    cases returns with
    | true => exact .returned rfl table inserted read
    | false =>
      have table : (s.answering false).table p.name = .ok t := table
      exact .readBack rfl table inserted ((readBack_inserted (keeps t table) table inserted
        (known t t' row table inserted)).2 ⟨told, read, rfl⟩)

/-- Rows whose keys are known are told as they are kept, by either kind of database. -/
theorem inserts_iff {rows : List Record}
    (keeps : ∀ t, s.table p.name = .ok t → t.Keeps enumerations p.entity)
    (known : AllKnown p s rows) (returns : Bool) {told : List Record} :
    Inserts p (s.answering returns) rows s' told ↔
      ∃ kept, Stored p s rows kept told ∧ s' = kept.answering returns := by
  induction rows generalizing s told with
  | nil =>
    constructor
    · intro h
      cases h
      exact ⟨s, .nil s, rfl⟩
    · rintro ⟨kept, h, rfl⟩
      cases h
      exact .nil _
  | cons values rest ih =>
    have first := fun t t' row table inserted => (known t t' row table inserted).1
    -- The rows behind are inserted into the table that the first one leaves, of the same columns.
    have behind {t t' : Table} {row : Row} (table : s.table p.name = .ok t)
        (inserted : t.insert values = .ok (t', row)) {told : List Record} :
        Inserts p ((s.put t').answering returns) rest s' told ↔
          ∃ kept, Stored p (s.put t') rest kept told ∧ s' = kept.answering returns := by
      refine ih (fun u hu => ?_) (known t t' row table inserted).2
      obtain ⟨-, -, -, rfl, -⟩ := Table.insert_eq_ok inserted
      obtain rfl := Except.ok.inj (hu.symm.trans (Store.table_put table rfl))
      exact ⟨(keeps t table).columns, (keeps t table).key⟩
    constructor
    · intro h
      cases h with
      | cons inserted rest =>
        obtain ⟨t, t', row, table, stored, read, rfl⟩ :=
          (inserted_iff keeps first returns).1 inserted
        obtain ⟨kept, later, rfl⟩ := (behind table stored).1 rest
        exact ⟨kept, .cons table stored read later, rfl⟩
    · rintro ⟨kept, h, rfl⟩
      cases h with
      | cons table stored read later =>
        exact .cons ((inserted_iff keeps first returns).2 ⟨_, _, _, table, stored, read, rfl⟩)
          ((behind table stored).2 ⟨kept, later, rfl⟩)

/-! ## Changed rows -/

/-- The table after a change of its rows. -/
def changedTo (t : Table) (after : Row → Row) : Table := { t with rows := t.rows.map after }

/-- An update changes the table: the rows that pass `S` into what `after` says. -/
structure Rewrites (codec : Codec) (s : Store) (p : Projection) (data : List (String × Value))
    (filter : Value) (scope : Option (Predicate Value)) (t : Table) (S : Row → Bool)
    (values : Record) (after : Row → Row) : Prop where
  selects : Selects codec s p filter scope t S
  converted : Converted codec p data values
  some : values ≠ []
  edits : ∃ cells, t.cellsOf values = .ok cells ∧
    after = fun r => if S r then Table.replaced cells r else r
  accepted : t.checkRows (t.rows.map after) = .ok (changedTo t after)
  committed : (s.put (changedTo t after)).commits = true

/-- The rows that the keys find after a change tell what the changed rows tell. -/
def Refound (p : Projection) (t : Table) (S : Row → Bool) (values : Record) (after : Row → Row) :
    Prop :=
  ∀ told, (changedTo t after).Tells ((t.rows.filter S).map after) told ↔
    ∃ cells, KeysAgain p t S values cells ∧
      (changedTo t after).Tells ((t.rows.map after).filter (hasKey p cells)) told

section Changes

variable {data : List (String × Value)} {told : List Record} {db : Database} {returns : Bool}

theorem Rewrites.updated (h : Rewrites codec s p data filter scope t S values after) : ∃ c,
    Filter.compile codec p filter = .ok c ∧ t.matching (c.andAlso scope) = .ok (t.rows.filter S) ∧
      t.update (c.andAlso scope) values =
        .ok (changedTo t after, (t.rows.filter S).map after) := by
  obtain ⟨c, q, hc, hq, rfl⟩ := h.selects.condition
  obtain ⟨cells, hcells, hafter⟩ := h.edits
  refine ⟨c, hc, Table.matching_eq_ok.2 ⟨q, hq, rfl⟩, ?_⟩
  have same : (t.rows.filter q.accepts).map after =
      (t.rows.filter q.accepts).map (Table.replaced cells) := by
    rw [hafter]
    exact Table.map_edited q cells t.rows
  refine bind_eq_ok.2 ⟨q, hq, bind_eq_ok.2 ⟨cells, hcells,
    bind_eq_ok.2 ⟨changedTo t after, ?_, ?_⟩⟩⟩
  · rw [← h.accepted, hafter]
  · rw [same]

theorem rewrites_of_update {c : Predicate Value} (hc : Filter.compile codec p filter = .ok c)
    (table : s.table p.name = .ok t) (converted : Converted codec p data values)
    (some : values ≠ []) {changed : List Row}
    (updated : t.update (c.andAlso scope) values = .ok (t', changed))
    (committed : (s.put t').commits = true) :
    ∃ t S values after, Rewrites codec s p data filter scope t S values after := by
  obtain ⟨q, hq, h⟩ := bind_eq_ok.1 updated
  obtain ⟨cells, hcells, h⟩ := bind_eq_ok.1 h
  obtain ⟨u, hu, h⟩ := bind_eq_ok.1 h
  obtain rfl := Table.checkRows_eq_ok hu
  refine ⟨t, q.accepts, values, _, ⟨table, c, q, hc, hq, rfl⟩, converted, some,
    ⟨cells, hcells, rfl⟩, hu, ?_⟩
  cases h
  exact committed

/-- Unless nothing is given, an update that succeeds changes its table. -/
theorem update_cases (stored : db.stored = s.answering returns)
    (h : (update codec p data filter scope).Gives db s' told) :
    (s' = s.answering returns ∧ ∀ returns' db', db'.stored = s.answering returns' →
      (update codec p data filter scope).Gives db' (s.answering returns') told) ∨
    ∃ t S values after, Rewrites codec s p data filter scope t S values after := by
  obtain ⟨values, converted, c, hc, taken, h⟩ := update_gives.1 h
  rw [stored] at taken h
  cases h with
  | nothing table read =>
    refine .inl ⟨rfl, fun returns' db' stored' => update_gives.2 ⟨[], converted, c, hc, ?_⟩⟩
    rw [stored']
    exact ⟨taken, .nothing table read⟩
  | returned some _ table updated _ =>
    exact .inr (rewrites_of_update (s := s) hc table converted some updated taken.2)
  | readBack some _ table _ _ updated _ =>
    exact .inr (rewrites_of_update (s := s) hc table converted some updated taken.2)

theorem Rewrites.taken (h : Rewrites codec s p data filter scope t S values after)
    (returns : Bool) :
    (s.answering returns).Takes ((s.put (changedTo t after)).answering returns) :=
  ⟨(Store.table_eq_ok.1 h.selects.table).1.1, h.committed⟩

theorem Rewrites.gives_returned_iff (h : Rewrites codec s p data filter scope t S values after)
    (stored : db.stored = s.answering true) :
    (update codec p data filter scope).Gives db s' told ↔
      s' = (s.put (changedTo t after)).answering true ∧
        inKeyOrder (changedTo t after) ((t.rows.filter S).map after) = .ok told := by
  obtain ⟨c, hc, -, updated⟩ := h.updated
  rw [update_gives, stored]
  constructor
  · rintro ⟨values', converted, c', hc', -, h'⟩
    obtain rfl := h.converted.unique converted
    obtain rfl := Except.ok.inj (hc.symm.trans hc')
    cases h' with
    | nothing => exact absurd rfl h.some
    | returned _ _ table updated' read =>
      obtain rfl := Except.ok.inj (h.selects.table.symm.trans table)
      cases updated.symm.trans updated'
      exact ⟨rfl, read⟩
    | readBack _ returning => cases returning
  · rintro ⟨rfl, read⟩
    exact ⟨values, h.converted, c, hc, h.taken true,
      .returned h.some rfl h.selects.table updated read⟩

theorem Rewrites.gives_readBack_iff (h : Rewrites codec s p data filter scope t S values after)
    (stored : db.stored = s.answering false) :
    (update codec p data filter scope).Gives db s' told ↔
      s' = (s.put (changedTo t after)).answering false ∧
        ∃ keys, (t.rows.filter S).mapM
            (Table.readColumns · (t.columns.filter fun k => p.entity.isKey k.name)) = .ok keys ∧
          ReadBack p ((s.put (changedTo t after)).answering false)
            (keys.map fun key => p.entity.primaryKey.map fun name =>
              (values.lookup name).getD (key.get name)) told := by
  obtain ⟨c, hc, matching, updated⟩ := h.updated
  rw [update_gives, stored]
  constructor
  · rintro ⟨values', converted, c', hc', -, h'⟩
    obtain rfl := h.converted.unique converted
    obtain rfl := Except.ok.inj (hc.symm.trans hc')
    cases h' with
    | nothing => exact absurd rfl h.some
    | returned _ returning => cases returning
    | readBack _ _ table matching' asked updated' read =>
      obtain rfl := Except.ok.inj (h.selects.table.symm.trans table)
      obtain rfl := Except.ok.inj (matching.symm.trans matching')
      cases updated.symm.trans updated'
      exact ⟨rfl, _, asked, read⟩
  · rintro ⟨rfl, keys, asked, read⟩
    exact ⟨values, h.converted, c, hc, h.taken false,
      .readBack h.some rfl h.selects.table matching asked updated read⟩

/-- Updates by the two kinds of database that succeed leave the same tables. -/
theorem tables_of_updates {db₁ db₂ : Database} {s₁ s₂ : Store} {told₁ told₂ : List Record}
    (stored₁ : db₁.stored = s.answering true) (stored₂ : db₂.stored = s.answering false)
    (h₁ : (update codec p data filter scope).Gives db₁ s₁ told₁)
    (h₂ : (update codec p data filter scope).Gives db₂ s₂ told₂) : s₂ = s₁.answering false := by
  rcases update_cases stored₁ h₁ with ⟨rfl, either⟩ | ⟨t, S, values, after, h⟩
  · obtain ⟨db, hrun, left⟩ := either false db₂ stored₂
    obtain ⟨db', hrun', rfl⟩ := h₂
    cases hrun.symm.trans hrun'
    exact left
  · rw [((h.gives_returned_iff stored₁).1 h₁).1, ((h.gives_readBack_iff stored₂).1 h₂).1]
    rfl

theorem Rewrites.tells_returned (h : Rewrites codec s p data filter scope t S values after)
    (stored : db.stored = s.answering true) :
    (changedTo t after).Tells ((t.rows.filter S).map after) told ↔ ∃ told',
      (update codec p data filter scope).Gives db
        ((s.put (changedTo t after)).answering true) told' ∧ told'.Perm told := by
  simp only [h.gives_returned_iff stored, true_and]
  exact Table.tells_iff_sorted []

theorem Rewrites.tells_readBack (keeps : t.Keeps enumerations p.entity)
    (h : Rewrites codec s p data filter scope t S values after)
    (stored : db.stored = s.answering false) :
    (∃ cells, KeysAgain p t S values cells ∧
      (changedTo t after).Tells ((t.rows.map after).filter (hasKey p cells)) told) ↔ ∃ told',
      (update codec p data filter scope).Gives db
        ((s.put (changedTo t after)).answering false) told' ∧ told'.Perm told := by
  obtain ⟨types, htypes⟩ := keeps.exists_keyTypes
  have table : ((s.put (changedTo t after)).answering false).table p.name =
      .ok (changedTo t after) := Store.table_put h.selects.table rfl
  simp only [h.gives_readBack_iff stored, true_and]
  constructor
  · rintro ⟨cells, ⟨keys, types', asked, htypes', hcells⟩, tells⟩
    obtain ⟨told', read, same⟩ := (Table.tells_iff_sorted (keyOrder p)).1 tells
    refine ⟨told', ⟨keys, asked, ?_⟩, same⟩
    -- Without keys nothing is asked for, and no row has one of them.
    by_cases none : keys = []
    · subst none
      cases hcells
      have nobody : (t.rows.map after).filter (hasKey p []) = [] :=
        List.filter_eq_nil_iff.2 fun _ _ => Bool.false_ne_true
      rw [nobody, Table.sorted, List.mergeSort_nil] at read
      cases read
      exact .nothing
    · refine .rows (fun h => none (List.map_eq_nil_iff.1 h)) table ?_ read
      exact bind_eq_ok.2 ⟨types', htypes', bind_eq_ok.2 ⟨cells, hcells, rfl⟩⟩
  · rintro ⟨told', ⟨keys, asked, read⟩, same⟩
    have types_after : p.entity.primaryKey.mapM (changedTo t after).typeOf = .ok types := htypes
    obtain ⟨cells, hcells, tells⟩ := tells_of_readBack types_after table read
    exact ⟨cells, ⟨keys, types, asked, htypes, hcells⟩, tells.perm same⟩

end Changes

/-! ## Both kinds of database -/

/-- Databases of both kinds succeed together, with the same tables and with results that are
`same`. -/
structure Agree {α : Type} (same : α → α → Prop) (s : Store) (x : Session α) : Prop where
  readBack : ∀ db db' s' told, db.stored = s.answering true → db'.stored = s.answering false →
    x.Gives db s' told → ∃ told', x.Gives db' (s'.answering false) told' ∧ same told told'
  returned : ∀ db db' s' told', db.stored = s.answering true → db'.stored = s.answering false →
    x.Gives db' s' told' → ∃ told, x.Gives db (s'.answering true) told ∧ same told told'

/-- The results are the same whatever the database tells. -/
theorem agree_of_iff {α : Type} {x : Session α} (gives : Store → α → Prop)
    (h : ∀ returns db s' told, db.stored = s.answering returns →
      (x.Gives db s' told ↔ ∃ kept, gives kept told ∧ s' = kept.answering returns)) :
    Agree Eq s x := by
  constructor
  · intro db db' s' told stored stored' hgives
    obtain ⟨kept, hkept, rfl⟩ := (h true db s' told stored).1 hgives
    exact ⟨told, (h false db' _ told stored').2 ⟨kept, hkept, rfl⟩, rfl⟩
  · intro db db' s' told stored stored' hgives
    obtain ⟨kept, hkept, rfl⟩ := (h false db' s' told stored').1 hgives
    exact ⟨told, (h true db _ told stored).2 ⟨kept, hkept, rfl⟩, rfl⟩

section Runs

variable (keeps : ∀ t, s.table p.name = .ok t → t.Keeps enumerations p.entity)
include keeps

theorem createOne_agrees {data : List (String × Value)}
    (known : ∀ values, Converted codec p data values → AllKnown p s [values]) :
    Agree Eq s (createOne codec p data) := by
  refine agree_of_iff (fun kept told => ∃ values, Converted codec p data values ∧
    s.Takes kept ∧ Stored p s [values] kept [told]) ?_
  intro returns db s' told stored
  rw [createOne_gives, stored]
  constructor
  · rintro ⟨values, converted, taken, inserted⟩
    obtain ⟨kept, stored, rfl⟩ := (inserts_iff keeps (known values converted) returns).1 inserted
    exact ⟨kept, ⟨values, converted, taken, stored⟩, rfl⟩
  · rintro ⟨kept, ⟨values, converted, taken, stored⟩, rfl⟩
    exact ⟨values, converted, taken,
      (inserts_iff keeps (known values converted) returns).2 ⟨kept, stored, rfl⟩⟩

theorem createBatch_agrees {items : List (List (String × Value))}
    (known : ∀ rows, List.Forall₂ (Converted codec p) items rows → AllKnown p s rows) :
    Agree Eq s (createBatch codec p items) := by
  refine agree_of_iff (fun kept told => ∃ rows,
    List.Forall₂ (Converted codec p) items rows ∧ s.Takes kept ∧ Stored p s rows kept told) ?_
  intro returns db s' told stored
  rw [createBatch_gives, stored]
  constructor
  · rintro ⟨rows, converted, taken, inserted⟩
    obtain ⟨kept, stored, rfl⟩ := (inserts_iff keeps (known rows converted) returns).1 inserted
    exact ⟨kept, ⟨rows, converted, taken, stored⟩, rfl⟩
  · rintro ⟨kept, ⟨rows, converted, taken, stored⟩, rfl⟩
    exact ⟨rows, converted, taken,
      (inserts_iff keeps (known rows converted) returns).2 ⟨kept, stored, rfl⟩⟩

theorem update_agrees_iff {data : List (String × Value)} :
    Agree List.Perm s (update codec p data filter scope) ↔
      ∀ t S values after, Rewrites codec s p data filter scope t S values after →
        Refound p t S values after := by
  constructor
  · intro agree t S values after h told
    have opened (returns : Bool) : (Database.opened (s.answering returns)).stored =
      s.answering returns := rfl
    rw [h.tells_returned (opened true), h.tells_readBack (keeps t h.selects.table) (opened false)]
    constructor
    · rintro ⟨told₁, gives, same⟩
      obtain ⟨told₂, gives₂, same₂⟩ := agree.readBack _ _ _ told₁ (opened true) (opened false) gives
      exact ⟨told₂, gives₂, same₂.symm.trans same⟩
    · rintro ⟨told₂, gives, same⟩
      obtain ⟨told₁, gives₁, same₁⟩ := agree.returned _ _ _ told₂ (opened true) (opened false) gives
      exact ⟨told₁, gives₁, same₁.trans same⟩
  · intro refound
    constructor
    · intro db db' s' told stored stored' gives
      rcases update_cases stored gives with ⟨rfl, either⟩ | ⟨t, S, values, after, h⟩
      · exact ⟨told, either false db' stored', .refl told⟩
      · obtain ⟨rfl, -⟩ := (h.gives_returned_iff stored).1 gives
        obtain ⟨told', gives', same⟩ := (h.tells_readBack (keeps t h.selects.table) stored').1
          ((refound t S values after h told).1
            ((h.tells_returned stored).2 ⟨told, gives, .refl told⟩))
        exact ⟨told', gives', same.symm⟩
    · intro db db' s' told stored stored' gives
      rcases update_cases stored' gives with ⟨rfl, either⟩ | ⟨t, S, values, after, h⟩
      · exact ⟨told, either true db stored, .refl told⟩
      · obtain ⟨rfl, -⟩ := (h.gives_readBack_iff stored').1 gives
        obtain ⟨told', gives', same⟩ := (h.tells_returned stored).1
          ((refound t S values after h told).2
            ((h.tells_readBack (keeps t h.selects.table) stored').2 ⟨told, gives, .refl told⟩))
        exact ⟨told', gives', same⟩

end Runs

/-! ## Rows that are found again -/

theorem KeysAgain.unique {cells' : List (List Cell)} (h : KeysAgain p t S values cells)
    (h' : KeysAgain p t S values cells') : cells = cells' := by
  obtain ⟨keys, types, asked, htypes, hcells⟩ := h
  obtain ⟨keys', types', asked', htypes', hcells'⟩ := h'
  obtain rfl := Except.ok.inj (asked.symm.trans asked')
  obtain rfl := Except.ok.inj (htypes.symm.trans htypes')
  exact Except.ok.inj (hcells.symm.trans hcells')

/-- Keys that find the changed rows and no others tell what these tell. -/
theorem refound_of_hasKey (again : KeysAgain p t S values cells)
    (same : ∀ r ∈ t.rows, hasKey p cells (after r) = S r) : Refound p t S values after := by
  have rows : (t.rows.map after).filter (hasKey p cells) = (t.rows.filter S).map after := by
    rw [List.filter_map]
    exact congrArg (List.map after) (List.filter_congr same)
  intro told
  constructor
  · intro tells
    exact ⟨cells, again, rows.symm ▸ tells⟩
  · rintro ⟨cells', again', tells⟩
    rwa [again'.unique again, rows] at tells

theorem KeysAgain.length (again : KeysAgain p t S values cells) :
    ∀ key ∈ cells, key.length = p.entity.primaryKey.length := by
  obtain ⟨keys, types, -, htypes, hcells⟩ := again
  rw [← length_of_mapM htypes]
  refine Table.length_of_bindKeys hcells fun key hkey => ?_
  obtain ⟨_, -, rfl⟩ := List.mem_map.1 hkey
  rw [List.length_map, length_of_mapM htypes]

/-- It is enough that every changed row is found by its own key. -/
theorem Rewrites.refound {data : List (String × Value)}
    (h : Rewrites codec s p data filter scope t S values after)
    (keeps : t.Keeps enumerations p.entity) (again : KeysAgain p t S values cells)
    (own : FoundAgain p t S after cells) : Refound p t S values after := by
  have unique := Table.hasUniqueKeys_of_checkRows h.accepted
  exact refound_of_hasKey again fun r hr => refound_of_own keeps unique again.length own hr

end Mutation

end TableGraph
