import TableGraph.Proofs.Orders
import TableGraph.Proofs.Registered
import TableGraph.Proofs.Walk.Run
import TableGraph.Sample.Notes

/-!
# Complete walks

Main statement: `walk_complete_iff`.  Walks of every limit end and show all rows in order, each of
them once, with rows before every page but the first, exactly if every row keeps its place.
-/

namespace TableGraph

/-! ## Orders that clients send -/

theorem Projection.fields_of_make {context : Context} {e : Entity} {p : Projection}
    (h : Projection.make context e = .ok p) :
    p.entity = e ∧ ∀ f ∈ p.fields, f.column ∈ e.columns :=
  have shows := Projection.shows_of_make h
  ⟨shows.entity, fun _ => shows.mem_columns⟩

theorem SqlType.isOrdered_of_isOrderable {enumerations : List Enumeration} {type : ColumnType}
    (h : type.isOrderable) (hboolean : SqlType.ofColumnType enumerations type ≠ .boolean) :
    (SqlType.ofColumnType enumerations type).IsOrdered := by
  cases type with
  | basic kind label =>
    cases kind with
    | integer kind => cases kind <;> trivial
    | bool => exact absurd rfl hboolean
    | json => cases h
    | _ => trivial
  | enumeration name =>
    unfold SqlType.ofColumnType
    split <;> trivial
  | custom name => trivial
  | array inner => cases h

/-- Clients order by columns of the entity. -/
theorem Order.exists_column {context : Context} {e : Entity} {p : Projection}
    {enumerations : List Enumeration} {t : Table} {v : Value} {written : Option (List String)}
    {given : List Order} (hp : Projection.make context e = .ok p) (hkeeps : t.Keeps enumerations e)
    (hgiven : Order.ofValue p v written = .ok given) :
    ∀ o ∈ given, ∃ c ∈ e.columns, c.name = o.column ∧ c.type.isOrderable ∧
      t.typeOf o.column = .ok (SqlType.ofColumnType enumerations c.type) := by
  intro o ho
  obtain ⟨f, hf, hname, horderable⟩ := Order.field_of_ofValue hgiven o ho
  have hc := (Projection.fields_of_make hp).2 f hf
  exact ⟨f.column, hc, hname, horderable, hname ▸ hkeeps.typeOf hc⟩

/-- Rows can be walked in the order of columns that clients may order by and that hold no truth
values, completed by the key. -/
theorem Walkable.of_columns {p : Projection} {enumerations : List Enumeration} {t : Table}
    {rows : List Row} {given : List Order}
    (hkeeps : t.Keeps enumerations p.entity) (hkeys : t.DistinctKeys t.rows)
    (hamong : ∀ r ∈ rows, r ∈ t.rows) (hread : ∀ r ∈ rows, ∃ record, t.read r = .ok record)
    (hcarries : ∀ r ∈ rows, ∀ c ∈ p.entity.keyColumns, Key.Carries c.type (r.get c.name))
    (hcolumns : ∀ o ∈ given, ∃ c ∈ p.entity.columns, c.name = o.column ∧ c.type.isOrderable ∧
      SqlType.ofColumnType enumerations c.type ≠ .boolean)
    (hheld : ∀ r ∈ rows, ∀ o ∈ given,
      (r.get o.column).isNull = false ∧ (r.get o.column).IsKept) :
    Walkable p enumerations t (Order.withKey given p.entity.primaryKey) rows := by
  refine ⟨hkeeps, Order.exists_of_mem_key, hkeys, hamong, hread, hcarries, fun r hr o ho => ?_⟩
  rcases Order.mem_withKey o ho with ho | ho
  · obtain ⟨c, hc, hname, horderable, hboolean⟩ := hcolumns o ho
    exact ⟨(hheld r hr o ho).1, (hheld r hr o ho).2, c, hc, hname,
      SqlType.isOrdered_of_isOrderable horderable hboolean⟩
  · obtain ⟨c, hc, hname, hkey⟩ := Entity.exists_keyColumn ho
    obtain ⟨hordered, hnull, hkept⟩ := Key.isKept_of_carries enumerations (hcarries r hr c hkey)
    rw [hname] at hnull hkept
    exact ⟨hnull, hkept, c, hc, hname, hordered⟩

/-- A row keeps its place if its cells are restored in the columns beside the key. -/
theorem Walkable.keepsPlace_of_cells {p : Projection} {enumerations : List Enumeration} {t : Table}
    {rows : List Row} {given : List Order}
    (h : Walkable p enumerations t (Order.withKey given p.entity.primaryKey) rows) {r : Row}
    (hr : r ∈ rows) (hcells : ∀ o ∈ given, ∃ type, t.typeOf o.column = .ok type ∧
      type.restored (r.get o.column) = r.get o.column) :
    t.KeepsPlace (Order.withKey given p.entity.primaryKey) rows r := by
  refine Table.keepsPlace_of_restored fun o ho => ?_
  obtain ⟨-, -, c, hc, hname, -⟩ := h.held r hr o ho
  rcases List.mem_append.1 ho with hgiven | hkey
  · obtain ⟨type, htype, hcell⟩ := hcells o hgiven
    rw [← hname] at htype hcell ⊢
    rw [h.keeps.typeOf hc, Except.ok.injEq] at htype
    rw [h.keeps.get_restored hc, htype, hcell]
  · obtain ⟨k, hk, rfl⟩ := List.mem_map.1 hkey
    exact h.restored_key hr (List.mem_filter.1 hk).1

section Complete

variable {codec : Codec} {s : Store} {context : Context} {e : Entity} {p : Projection}
  {enumerations : List Enumeration} {t : Table} {rows : List Row} {condition : Predicate Value}
  {v : Value} {written : Option (List String)} {given : List Order}
  (hp : Projection.make context e = .ok p) (ht : s.table p.name = .ok t)
  (hkeeps : t.Keeps enumerations e) (hkeys : t.DistinctKeys t.rows)
  (hm : t.matching condition = .ok rows) (hread : ∀ r ∈ rows, ∃ record, t.read r = .ok record)
  (hcarries : ∀ r ∈ rows, ∀ c ∈ e.keyColumns, Key.Carries c.type (r.get c.name))
  (hgiven : Order.ofValue p v written = .ok given)
  (hboolean : ∀ o ∈ given, t.typeOf o.column ≠ .ok .boolean)
  (hheld : ∀ r ∈ rows, ∀ o ∈ given, (r.get o.column).isNull = false ∧ (r.get o.column).IsKept)
include hp hkeeps hkeys hread hcarries hgiven hboolean hheld

theorem walkable (hamong : ∀ r ∈ rows, r ∈ t.rows) :
    Walkable p enumerations t (Order.withKey given p.entity.primaryKey) rows := by
  have columns := Order.exists_column hp hkeeps hgiven
  obtain ⟨rfl, -⟩ := Projection.fields_of_make hp
  refine Walkable.of_columns hkeeps hkeys hamong hread hcarries (fun o ho => ?_) hheld
  obtain ⟨c, hc, hname, horderable, htype⟩ := columns o ho
  have hordered := hboolean o ho
  rw [htype, Ne, Except.ok.injEq] at hordered
  exact ⟨c, hc, hname, horderable, hordered⟩

include ht hm in
/--
Walks of every limit over the rows that a condition holds of end, show all of them in order, each of
them once, and tell that there are rows before every page but the first, exactly if each row keeps
its place.  A row does if its cells are restored.
-/
theorem walk_complete_iff :
    ((∀ limit : Int, 0 < limit → ∀ n, ∃ pages,
        Walk (fun after => Query.connection codec s p condition given (.cursor after limit)) none n
          pages ∧ Covers t (Order.withKey given e.primaryKey) rows pages) ↔
      ∀ r ∈ rows, t.KeepsPlace (Order.withKey given e.primaryKey) rows r) ∧
    ∀ r ∈ rows, (∀ o ∈ given, ∃ type, t.typeOf o.column = .ok type ∧
        type.restored (r.get o.column) = r.get o.column) →
      t.KeepsPlace (Order.withKey given e.primaryKey) rows r := by
  have h := walkable hp hkeeps hkeys hread hcarries hgiven hboolean hheld
    (Table.among_of_matching hm)
  obtain ⟨rfl, -⟩ := Projection.fields_of_make hp
  refine ⟨⟨fun hwalks => ?_, fun hplace limit hlimit n => ?_⟩, fun r hr hcells => ?_⟩
  · exact h.keepsPlace_of_walk hm ht rfl (hwalks 1 Int.one_pos 0)
  · exact h.exists_covering_walk hm ht rfl hlimit hplace n
  · exact h.keepsPlace_of_cells hr hcells

end Complete

section Notes

open Sample.Notes

/-- Pages of notes in the order of their prices. -/
def byPrice (notes : List Row) (limit : Int) (after : Option String) : Counted Connection :=
  Query.connection environment.schema.codec (store notes) projection .always [⟨"price", false⟩]
    (.cursor after limit)

theorem projection_notes : Projection.make context entity = .ok projection := by
  with_unfolding_all rfl

theorem order_notes : Order.ofValue projection (.object [("price", .text "asc")]) none =
    .ok [⟨"price", false⟩] := by
  with_unfolding_all rfl

theorem matching_notes (notes : List Row) : (table notes).matching .always = .ok notes :=
  Table.matching_eq_ok.2 ⟨.always, rfl, List.filter_eq_self.2 fun _ _ => rfl⟩

theorem price_ne_boolean (notes : List Row) :
    ∀ o ∈ [Order.mk "price" false], (table notes).typeOf o.column ≠ .ok .boolean := by
  intro o ho
  rw [List.mem_singleton.1 ho]
  nofun

theorem carries_note {id owner : Int} {price : Cell} (hid : IntegerKind.regular.holds id)
    (kept : Cell.holds id) :
    ∀ c ∈ entity.keyColumns, Key.Carries c.type ((note id owner price).get c.name) := by
  have key : entity.keyColumns = [Sample.column "id" (.plain (.integer .regular))] := by decide
  intro c hc
  rw [key] at hc
  rw [List.mem_singleton.1 hc]
  exact .integer hid kept

theorem held_note {id owner : Int} {price : Cell} (hnull : price.isNull = false)
    (hkept : price.IsKept) : ∀ o ∈ [Order.mk "price" false],
      ((note id owner price).get o.column).isNull = false ∧
        ((note id owner price).get o.column).IsKept := by
  intro o ho
  rw [List.mem_singleton.1 ho]
  exact ⟨hnull, hkept⟩

/-- Two notes with whole prices are walked through one by one. -/
theorem walk_complete_iff_notes : ∃ pages,
    Walk (byPrice [note 1 1 (.int 7), note 2 1 (.int 5)] 1) none 0 pages ∧
      Covers (table [note 1 1 (.int 7), note 2 1 (.int 5)])
        (Order.withKey [⟨"price", false⟩] entity.primaryKey)
        [note 1 1 (.int 7), note 2 1 (.int 5)] pages := by
  refine (walk_complete_iff projection_notes rfl (Table.keeps_ofEntity _ _ _) ?_
    (matching_notes _) ?_ ?_ order_notes (price_ne_boolean _) ?_).1.2 ?_ 1 Int.one_pos 0
  · unfold Table.DistinctKeys
    refine List.pairwise_pair.2 ?_
    decide
  · rw [List.forall_mem_cons, List.forall_mem_singleton]
    exact ⟨⟨_, rfl⟩, ⟨_, rfl⟩⟩
  · rw [List.forall_mem_cons, List.forall_mem_singleton]
    exact ⟨carries_note (by decide) (by decide), carries_note (by decide) (by decide)⟩
  · refine List.forall_mem_cons.2 ⟨held_note rfl ?_, List.forall_mem_singleton.2 (held_note rfl ?_)⟩
    · exact (show Cell.holds 7 = true from rfl)
    · exact (show Cell.holds 5 = true from rfl)
  · unfold Table.KeepsPlace
    decide +kernel

/-- A note whose price has more places than are read of it comes behind itself again. -/
theorem walk_lossy : ¬ ∃ pages,
    Walk (byPrice [note 1 1 (.real (.ofScientific false 12345678901 (-11)))] 1) none 0 pages ∧
      Covers (table [note 1 1 (.real (.ofScientific false 12345678901 (-11)))])
        (Order.withKey [⟨"price", false⟩] entity.primaryKey)
        [note 1 1 (.real (.ofScientific false 12345678901 (-11)))] pages := by
  intro hwalk
  have h : Walkable projection [] (table [note 1 1 (.real (.ofScientific false 12345678901 (-11)))])
      (Order.withKey [⟨"price", false⟩] entity.primaryKey)
      [note 1 1 (.real (.ofScientific false 12345678901 (-11)))] := by
    refine walkable projection_notes (Table.keeps_ofEntity _ _ _) (List.pairwise_singleton _ _)
      ?_ ?_ order_notes (price_ne_boolean _) ?_ (Table.among_of_matching (matching_notes _))
    · rw [List.forall_mem_singleton]
      exact ⟨_, rfl⟩
    · rw [List.forall_mem_singleton]
      exact carries_note (by decide) (by decide)
    · rw [List.forall_mem_singleton]
      exact held_note rfl (SqlType.ofScientific_ne_nan _ _ _)
  have place := h.keepsPlace_of_walk (matching_notes _) rfl rfl hwalk _ (List.mem_singleton_self _)
  revert place
  unfold Table.KeepsPlace
  decide +kernel

end Notes

end TableGraph
