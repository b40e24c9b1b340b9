import TableGraph.Proofs.Commit.Resolves
import TableGraph.Proofs.Scope.Page

/-!
# Changes within a row scope

A mutation that updates or deletes touches one table, and in it only rows that the row scope let
through before: row by row the table is as it was, or the row was within the scope.
-/

namespace TableGraph

/-! ## One table of a store -/

namespace Store

variable {s : Store} {t t' : Table} {name : String}

/-- A table that is put back is found under its name. -/
theorem table_put (h : s.table name = .ok t) (ht : t'.name = t.name) :
    (s.put t').table name = .ok t' := by
  have hname := name_of_table h
  obtain ⟨hdown, hfind⟩ := table_eq_ok.1 h
  refine table_eq_ok.2 ⟨hdown, ?_⟩
  show (s.tables.map fun u => if u.name = t'.name then t' else u).find? _ = _
  have same : ∀ u : Table,
      (if u.name = t'.name then t' else u).name = u.name := by
    intro u
    split_ifs with hu
    · exact hu.symm
    · rfl
  rw [List.find?_map]
  have : (fun u : Table => decide (u.name = name)) ∘
      (fun u => if u.name = t'.name then t' else u) = fun u => decide (u.name = name) := by
    funext u
    simp only [Function.comp_apply, same]
  rw [this, hfind, Option.map_some, if_pos ht.symm]

/-- The other tables are as they were. -/
theorem table_put_other {other : String} (h : s.table name = .ok t) (ht : t'.name = t.name)
    (ho : other ≠ name) : (s.put t').table other = s.table other := by
  have apart : other ≠ t'.name := by rwa [ht, name_of_table h]
  have found : (s.put t').tables.find? (fun u => u.name = other) =
      s.tables.find? fun u => u.name = other := by
    show (s.tables.map fun u => if u.name = t'.name then t' else u).find? _ = _
    induction s.tables with
    | nil => rfl
    | cons u us ih =>
      rw [List.map_cons, List.find?_cons, List.find?_cons, ih]
      split_ifs with hu
      · have new : ¬ t'.name = other := fun h' => apart h'.symm
        have old : ¬ u.name = other := by rwa [hu]
        rw [decide_eq_false new, decide_eq_false old]
      · rfl
  unfold Store.table Store.registered
  rw [found]
  rfl

end Store

namespace Table

variable {t t' : Table} {p : Predicate Value} {scope : Option (Predicate Value)}

theorem checkRows_eq_ok {rows : List Row} (h : t.checkRows rows = .ok t') :
    t' = { t with rows } := by
  unfold checkRows at h
  split_ifs at h
  cases h
  rfl

theorem hasUniqueKeys_of_checkRows {rows : List Row} (h : t.checkRows rows = .ok t') :
    t.hasUniqueKeys rows := by
  unfold checkRows at h
  split_ifs at h with checked
  exact (Bool.and_eq_true _ _ ▸ checked).2

theorem insert_eq_ok {values : Record} {row : Row} (h : t.insert values = .ok (t', row)) :
    ∃ cells, t.cellsOf values = .ok cells ∧ row = t.rowOf cells ∧
      t' = { t with rows := t.rows ++ [row] } ∧ t.hasUniqueKeys (t.rows ++ [row]) := by
  unfold Table.insert at h
  obtain ⟨cells, hcells, h⟩ := bind_eq_ok.1 h
  obtain ⟨u, hu, h⟩ := bind_eq_ok.1 h
  cases h
  exact ⟨cells, hcells, rfl, checkRows_eq_ok hu, hasUniqueKeys_of_checkRows hu⟩

/-- An update leaves every row as it was that its condition does not accept. -/
theorem update_within (hp : p.Narrows scope) {values : Record} {changed : List Row}
    (h : t.update p values = .ok (t', changed)) : t'.name = t.name ∧
      List.Forall₂ (fun r r' => r' = r ∨ t.Within scope r) t.rows t'.rows := by
  unfold Table.update at h
  obtain ⟨q, hq, h⟩ := bind_eq_ok.1 h
  obtain ⟨cells, -, h⟩ := bind_eq_ok.1 h
  obtain ⟨u, hu, h⟩ := bind_eq_ok.1 h
  cases h
  rw [checkRows_eq_ok hu]
  refine ⟨rfl, List.forall₂_map_right_iff.2 (List.forall₂_same.2 fun r _ => ?_)⟩
  split_ifs with hr
  · exact .inr (hp t r ((accepts_iff hq).2 hr))
  · exact .inl rfl

/-- A deletion removes rows only that its condition accepts. -/
theorem delete_within (hp : p.Narrows scope) {k : Nat} (h : t.delete p = .ok (t', k)) :
    t'.name = t.name ∧ ∃ kept : Row → Bool, t'.rows = t.rows.filter kept ∧
      ∀ r, kept r = false → t.Within scope r := by
  unfold Table.delete at h
  obtain ⟨q, hq, h⟩ := bind_eq_ok.1 h
  cases h
  refine ⟨rfl, fun r => !q.accepts r, rfl, fun r hr => hp t r ((accepts_iff hq).2 ?_)⟩
  simpa using hr

end Table

/-! ## Mutations -/

namespace Mutation

variable {s s' : Store} {p : Projection} {c : Predicate Value} {scope : Option (Predicate Value)}

/-- Every row of the table is as it was or was within the scope, and other tables are untouched. -/
def Updates (s s' : Store) (name : String) (scope : Option (Predicate Value)) : Prop :=
  (∃ t t', s.table name = .ok t ∧ s'.table name = .ok t' ∧
    List.Forall₂ (fun r r' => r' = r ∨ t.Within scope r) t.rows t'.rows) ∧
  ∀ other, other ≠ name → s'.table other = s.table other

/-- The rows missing from the table were within the scope, and other tables are untouched. -/
def Deletes (s s' : Store) (name : String) (scope : Option (Predicate Value)) : Prop :=
  (∃ t t', s.table name = .ok t ∧ s'.table name = .ok t' ∧
    ∃ kept : Row → Bool, t'.rows = t.rows.filter kept ∧ ∀ r, kept r = false → t.Within scope r) ∧
  ∀ other, other ≠ name → s'.table other = s.table other

theorem updates_self {t : Table} (h : s.table p.name = .ok t) : Updates s s p.name scope :=
  ⟨⟨t, t, h, h, List.forall₂_same.2 fun _ _ => .inl rfl⟩, fun _ _ => rfl⟩

theorem updates_put {t t' : Table} (hc : c.Narrows scope) (ht : s.table p.name = .ok t)
    {values : Record} {changed : List Row} (h : t.update c values = .ok (t', changed)) :
    Updates s (s.put t') p.name scope := by
  obtain ⟨hname, hrows⟩ := Table.update_within hc h
  exact ⟨⟨t, t', ht, Store.table_put ht hname, hrows⟩,
    fun _ => Store.table_put_other ht hname⟩

theorem Updated.updates {values : Record} {told : List Record} (hc : c.Narrows scope)
    (h : Updated p s c values s' told) : Updates s s' p.name scope := by
  cases h with
  | nothing table _ => exact updates_self table
  | returned _ _ table updated _ => exact updates_put hc table updated
  | readBack _ _ table _ _ updated _ => exact updates_put hc table updated

theorem Deleted.deletes {count : Nat} (hc : c.Narrows scope) (h : Deleted p s c s' count) :
    Deletes s s' p.name scope := by
  cases h with
  | @deleted t t' _ table deleted =>
    obtain ⟨hname, hrows⟩ := Table.delete_within hc deleted
    exact ⟨⟨t, t', table, Store.table_put table hname, hrows⟩,
      fun _ => Store.table_put_other table hname⟩

end Mutation

namespace Answer

open TableGraph.Graph

variable {env : Environment} {s s' : Store} {p : Projection} {a : Arguments} {item : Item}

theorem resolves_of_outcome {f : OutputField} {source : Source} {q : Projection × Operation}
    {db db' : Database} (hf : f.source = source) (hq : mutationOf source = some q)
    (h : (change env f a).outcome db = (.ok item, db')) :
    Resolves env db.stored a source db'.stored item := by
  subst hf
  exact (change_gives hq).1 ⟨db', h, rfl⟩

theorem Resolves.updates (h : Resolves env s a (.update p) s' item) :
    ∃ scope, env.scope p .update = .ok scope ∧ Mutation.Updates s s' p.name scope := by
  cases h with
  | update _ narrowed _ _ updated _ =>
    exact ⟨_, narrowed, updated.updates Predicate.narrows_andAlso⟩

theorem Resolves.deletes (h : Resolves env s a (.delete p) s' item) :
    ∃ scope, env.scope p .delete = .ok scope ∧ Mutation.Deletes s s' p.name scope := by
  cases h with
  | delete _ narrowed _ deleted _ =>
    exact ⟨_, narrowed, deleted.deletes Predicate.narrows_andAlso⟩

end Answer

end TableGraph
