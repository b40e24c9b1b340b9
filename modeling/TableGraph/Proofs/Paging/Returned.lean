import TableGraph.Proofs.Paging.Next
import TableGraph.Proofs.Walk.Complete

/-!
# Pages that are returned

Main statement: `Query.returned_iff`.  Clients may order by truth values, but a row is not compared
with them: there is no page behind a cursor then, and no first page either, since the look behind
its last row compares.  In all other columns that clients may order by pages are returned, as long
as there are no nulls.
-/

namespace TableGraph

/-! ## What is read where clients order by -/

namespace SqlType

theorem read_boolean {c : Cell} {v : Value} (h : boolean.read c = .ok v) :
    v.isNull = true ∨ ∃ b, v = .bool b := by
  cases c with
  | null =>
    cases h
    exact .inl rfl
  | _ =>
    cases h
    exact .inr ⟨_, rfl⟩

/-- What is read where clients may order by is not null if the cell is not. -/
theorem isNull_read {enumerations : List Enumeration} {type : ColumnType} {c : Cell} {v : Value}
    (horderable : type.isOrderable) (hnull : c.isNull = false) (hkept : c.IsKept)
    (h : (ofColumnType enumerations type).read c = .ok v) : v.isNull = false := by
  by_cases hboolean : ofColumnType enumerations type = .boolean
  · rw [hboolean] at h
    cases c with
    | null => cases hnull
    | _ =>
      cases h
      rfl
  · have hordered := isOrdered_of_isOrderable horderable hboolean
    exact (exists_operand hordered hnull hkept h).1.1

end SqlType

namespace Query

variable {codec : Codec} {s : Store} {p : Projection} {t : Table} {condition : Predicate Value}
  {orders given : List Order} {after : Option String} {limit : Int} {n m : Nat} {r : Row}
  {record a : Record}

/-- Rows are compared with a row that has neither nulls nor truth values. -/
theorem plain_of_condition {e : Entity} {forward : Bool} {beyond : Predicate Value}
    (hread : t.read r = .ok record) (ha : ∀ o ∈ orders, a.get o.column = record.get o.column)
    (h : Keyset.condition e orders a forward = .ok beyond) :
    ∀ o ∈ orders, (r.get o.column).isNull = false ∧ t.typeOf o.column ≠ .ok .boolean := by
  intro o ho
  obtain ⟨-, hnull, hbool⟩ := (Keyset.binds_of_condition (t := t) h).1 o ho
  rw [ha o ho] at hnull hbool
  constructor
  · rw [Bool.eq_false_iff]
    intro hcell
    rw [Table.isNull_of_read hread hcell] at hnull
    cases hnull
  · intro htype
    rcases SqlType.read_boolean (Table.read_of_typeOf hread htype) with h | ⟨b, h⟩
    · rw [h] at hnull
      cases hnull
    · exact hbool b h

/-- A look behind a row without nulls compares with it. -/
theorem exists_condition_of_reaches {forward : Bool} {next : Option Bool}
    (hnull : ¬ HasNull orders record)
    (h : (reaches s p condition orders record forward).run n = .ok (next, m)) :
    ∃ beyond, Keyset.condition p.entity orders record forward = .ok beyond := by
  unfold reaches at h
  split_ifs at h with hany
  · exact absurd (List.any_eq_true.1 hany) hnull
  · obtain ⟨beyond, k, hbeyond, -⟩ := Counted.run_bind_eq_ok.1 h
    exact ⟨beyond, (Counted.run_lift_eq_ok.1 hbeyond).1⟩

/-- A page around rows looks behind the last of them. -/
theorem exists_reaches_of_around {records : List Record} {page : Connection} {last : Record}
    (hlast : records.getLast? = some last)
    (h : (around codec s p condition orders after limit records).run n = .ok (page, m)) :
    ∃ next k, (reaches s p condition orders last true).run n = .ok (next, k) := by
  unfold around at h
  split at h
  next front last' hfront hlast' =>
    rw [hlast, Option.some.injEq] at hlast'
    subst hlast'
    obtain ⟨next, k, hnext, -⟩ := Counted.run_bind_eq_ok.1 h
    exact ⟨next, k, hnext⟩
  next hnone =>
    obtain ⟨x, xs, rfl⟩ := List.exists_cons_of_ne_nil
      (List.ne_nil_of_mem (List.mem_of_getLast? hlast))
    exact (hnone x last rfl hlast).elim

end Query

/-! ## Pages that clients ask for -/

section Returned

variable {codec : Codec} {s : Store} {context : Context} {e : Entity} {p : Projection}
  {enumerations : List Enumeration} {t : Table} {rows : List Row} {condition : Predicate Value}
  {v : Value} {written : Option (List String)} {given : List Order} {limit : Int} {n m : Nat}
  (hp : Projection.make context e = .ok p) (ht : s.table p.name = .ok t)
  (hkeeps : t.Keeps enumerations e) (hkeys : t.DistinctKeys t.rows)
  (hgiven : Order.ofValue p v written = .ok given)
include hp hkeeps hgiven

/-- The values of a row are not null where it is ordered by, nor is its key. -/
theorem Query.not_hasNull {r : Row} {record : Record} (hread : t.read r = .ok record)
    (hcarries : ∀ c ∈ e.keyColumns, Key.Carries c.type (r.get c.name))
    (hheld : ∀ o ∈ given, (r.get o.column).isNull = false ∧ (r.get o.column).IsKept) :
    ¬ HasNull (Order.withKey given e.primaryKey) record := by
  rintro ⟨o, ho, hnull⟩
  suffices h : (record.get o.column).isNull = false by
    rw [h] at hnull
    cases hnull
  rcases Order.mem_withKey o ho with ho | ho
  · obtain ⟨c, hc, hname, horderable, -⟩ := Order.exists_column hp hkeeps hgiven o ho
    obtain ⟨hcell, hkept⟩ := hheld o ho
    rw [← hname] at hcell hkept ⊢
    exact SqlType.isNull_read horderable hcell hkept (hkeeps.get_read hread hc)
  · obtain ⟨c, hc, hname, hkey⟩ := Entity.exists_keyColumn ho
    obtain ⟨hordered, hcell, hkept⟩ := Key.isKept_of_carries enumerations (hcarries c hkey)
    rw [← hname]
    exact (SqlType.exists_operand hordered hcell hkept (hkeeps.get_read hread hc)).1.1

variable (hm : t.matching condition = .ok rows)
  (hread : ∀ r ∈ rows, ∃ record, t.read r = .ok record)
  (hcarries : ∀ r ∈ rows, ∀ c ∈ e.keyColumns, Key.Carries c.type (r.get c.name))
  (hheld : ∀ r ∈ rows, ∀ o ∈ given, (r.get o.column).isNull = false ∧ (r.get o.column).IsKept)

include ht hm hcarries hheld in
/-- A first page that shows rows has compared with the last of them. -/
theorem Query.ne_boolean_of_first (hlimit : 0 < limit) (hsome : rows ≠ []) {page : Connection}
    (h : (connection codec s p condition given (.cursor none limit)).run n = .ok (page, m)) :
    ∀ o ∈ given, t.typeOf o.column ≠ .ok .boolean := by
  have entity : p.entity = e := (Projection.fields_of_make hp).1
  obtain ⟨narrowed, k, candidates, records, hbehind, hmatching, hrecords, haround⟩ :=
    exists_selected_of_run ht h
  cases hbehind
  rw [hm, Except.ok.injEq] at hmatching
  subst hmatching
  rw [Table.window_eq hlimit.le] at hrecords
  obtain ⟨L, hL⟩ : ∃ L, ((t.sorted (Order.withKey given p.entity.primaryKey) rows).take
      limit.toNat).getLast? = some L := by
    refine Option.ne_none_iff_exists'.1 fun hnone => ?_
    have length := congrArg List.length (List.getLast?_eq_none_iff.1 hnone)
    rw [List.length_take, (t.sorted_perm _ _).length_eq, List.length_nil] at length
    have pos := List.length_pos_iff.2 hsome
    omega
  have hin : L ∈ rows :=
    (t.sorted_perm _ _).mem_iff.1 (List.mem_of_mem_take (List.mem_of_getLast? hL))
  obtain ⟨last, hlast, hread⟩ := getLast?_mapM hrecords hL
  obtain ⟨next, k, hreaches⟩ := exists_reaches_of_around hlast haround
  have present := not_hasNull hp hkeeps hgiven hread (hcarries L hin) (hheld L hin)
  rw [← entity] at present
  obtain ⟨beyond, hbeyond⟩ := exists_condition_of_reaches present hreaches
  intro o ho
  exact (plain_of_condition hread (fun _ _ => rfl) hbeyond o (List.mem_append_left _ ho)).2

omit hgiven in
include ht hkeys in
/-- A page behind the cursor of a row has compared with that row. -/
theorem Query.plain_of_behind {r : Row} (hr : r ∈ t.rows)
    (hcarried : ∀ c ∈ e.keyColumns, Key.Carries c.type (r.get c.name)) {cursor : String}
    (hcursor : CursorOf codec p t r cursor) {page : Connection}
    (h : (connection codec s p condition given (.cursor (some cursor) limit)).run n =
      .ok (page, m)) :
    ∀ o ∈ given, (r.get o.column).isNull = false ∧ t.typeOf o.column ≠ .ok .boolean := by
  obtain ⟨rfl, -⟩ := Projection.fields_of_make hp
  obtain ⟨record, hread, hencode⟩ := hcursor
  have hin := List.mem_singleton_self r
  have keyed : Walkable p enumerations t (Order.withKey [] p.entity.primaryKey) [r] :=
    Walkable.of_columns hkeeps hkeys (List.forall_mem_singleton.2 hr)
      (List.forall_mem_singleton.2 ⟨record, hread⟩) (List.forall_mem_singleton.2 hcarried) nofun
      fun _ _ => nofun
  obtain ⟨narrowed, k, candidates, records, hbehind, -⟩ := exists_selected_of_run ht h
  rw [keyed.filter_cursor hin hread hencode] at hbehind
  obtain ⟨a, k, hanchor, hbehind⟩ := Counted.run_bind_eq_ok.1 hbehind
  obtain ⟨a', k', ha, hrun⟩ := keyed.run_anchor hin hread ht hencode
    (Order.withKey given p.entity.primaryKey) n
  rw [hrun] at hanchor
  obtain ⟨-, -, hanchor⟩ := map_eq_ok.1 hanchor
  cases hanchor
  obtain ⟨beyond, k, hbeyond, -⟩ := Counted.run_bind_eq_ok.1 hbehind
  intro o ho
  exact plain_of_condition hread ha (Counted.run_lift_eq_ok.1 hbeyond).1 o
    (List.mem_append_left _ ho)

include ht hkeys hm hread hcarries hheld in
/-- There is a page behind the cursor of a row without nulls. -/
theorem Query.exists_page_of_plain {r : Row} (hr : r ∈ t.rows)
    (hcarried : ∀ c ∈ e.keyColumns, Key.Carries c.type (r.get c.name)) {cursor : String}
    (hcursor : CursorOf codec p t r cursor) (hlimit : 0 < limit)
    (hplain : ∀ o ∈ given, (r.get o.column).isNull = false ∧ (r.get o.column).IsKept)
    (hboolean : ∀ o ∈ given, t.typeOf o.column ≠ .ok .boolean) :
    ∃ page m, (connection codec s p condition given (.cursor (some cursor) limit)).run n =
      .ok (page, m) := by
  have h := walkable hp hkeeps hkeys hread hcarries hgiven hboolean hheld
    (Table.among_of_matching hm)
  obtain ⟨record, hread, hencode⟩ := hcursor
  have single := walkable hp hkeeps hkeys (List.forall_mem_singleton.2 ⟨record, hread⟩)
    (List.forall_mem_singleton.2 hcarried) hgiven hboolean (List.forall_mem_singleton.2 hplain)
    (List.forall_mem_singleton.2 hr)
  have hin := List.mem_singleton_self r
  obtain ⟨a, k, hanchor, ha⟩ := single.exists_anchor hin hread ht hencode n
  obtain ⟨beyond, hbeyond, ⟨q, hq⟩, -⟩ := single.exists_beyond hin hread ha true
  have hbehind : (behind codec s p condition (Order.withKey given p.entity.primaryKey)
      ((some cursor).filter (!·.isEmpty))).run n = .ok (.allOf [condition, beyond], k) := by
    rw [single.filter_cursor hin hread hencode]
    unfold behind
    rw [Counted.run_bind_of_ok hanchor,
      Counted.run_bind_of_ok (Counted.run_lift_eq_ok.2 ⟨hbeyond, rfl⟩)]
    rfl
  obtain ⟨page, m, hpage, -⟩ := h.exists_page_of_behind hm ht rfl hbehind
    (Table.matching_both hm hq) (fun r' hr' => (List.mem_filter.1 hr').1) hlimit
  exact ⟨page, m, hpage⟩

include ht hkeys hm hread hcarries hheld in
/--
Where no ordering cell of the rows that a condition holds of is null, a first page is returned
exactly if there are no such rows or clients do not order by truth values.  A page behind the cursor
of a row of the table is returned exactly if that row has no nulls either where clients order by,
and they do not order by truth values.
-/
theorem Query.returned_iff (hlimit : 0 < limit) :
    ((∃ page m, (connection codec s p condition given (.cursor none limit)).run n =
        .ok (page, m)) ↔ rows = [] ∨ ∀ o ∈ given, t.typeOf o.column ≠ .ok .boolean) ∧
    ∀ r ∈ t.rows, (∀ c ∈ e.keyColumns, Key.Carries c.type (r.get c.name)) →
      (∀ o ∈ given, (r.get o.column).IsKept) → ∀ cursor, CursorOf codec p t r cursor →
      ((∃ page m, (connection codec s p condition given (.cursor (some cursor) limit)).run n =
          .ok (page, m)) ↔
        ∀ o ∈ given, (r.get o.column).isNull = false ∧ t.typeOf o.column ≠ .ok .boolean) := by
  refine ⟨⟨?_, ?_⟩, fun r hr hcarried hkept cursor hcursor => ⟨?_, fun hplain => ?_⟩⟩
  · rintro ⟨page, m, hpage⟩
    by_cases hnone : rows = []
    · exact .inl hnone
    · exact .inr (ne_boolean_of_first hp ht hkeeps hgiven hm hcarries hheld hlimit hnone hpage)
  · intro hcases
    have h : Walkable p enumerations t (Order.withKey given p.entity.primaryKey) rows := by
      rcases hcases with rfl | hboolean
      · obtain ⟨rfl, -⟩ := Projection.fields_of_make hp
        exact ⟨hkeeps, Order.exists_of_mem_key, hkeys, nofun, nofun, nofun, nofun⟩
      · exact walkable hp hkeeps hkeys hread hcarries hgiven hboolean hheld
          (Table.among_of_matching hm)
    obtain ⟨page, m, hpage, -⟩ := h.exists_page hm ht rfl .first hlimit n
    exact ⟨page, m, hpage⟩
  · rintro ⟨page, m, hpage⟩
    exact plain_of_behind hp ht hkeeps hkeys hr hcarried hcursor hpage
  · exact exists_page_of_plain hp ht hkeeps hkeys hgiven hm hread hcarries hheld hr hcarried hcursor
      hlimit (fun o ho => ⟨(hplain o ho).1, hkept o ho⟩) fun o ho => (hplain o ho).2

end Returned

section Items

open Sample.Items

theorem projection_items : Projection.make context entity = .ok projection := by
  with_unfolding_all rfl

theorem rank_items : Order.ofValue projection (.object [("rank", .text "desc")]) none =
    .ok [⟨"rank", true⟩] := by
  with_unfolding_all rfl

theorem mark_items : Order.ofValue projection (.object [("mark", .text "asc")]) none =
    .ok [⟨"mark", false⟩] := by
  with_unfolding_all rfl

theorem carries_item {id : Int} {rank : Cell} {mark : Bool} (hid : IntegerKind.regular.holds id)
    (kept : Cell.holds id) :
    ∀ c ∈ entity.keyColumns, Key.Carries c.type ((item id rank mark).get c.name) := by
  have key : entity.keyColumns = [Sample.column "id" (.plain (.integer .regular))] := by decide
  intro c hc
  rw [key] at hc
  rw [List.mem_singleton.1 hc]
  exact .integer hid kept

/-- Items one by one in an order. -/
def Query.oneByOne (items : List Row) (o : Order) (after : Option String) : Counted Connection :=
  connection ⟨[], false⟩ (store items) projection .always [o] (.cursor after 1)

/-- Items with ranks have pages in the order of the ranks, the first one and the one behind the
first item. -/
theorem Query.returned_iff_ranks :
    (∃ page m, (oneByOne [item 1 (.int 5) true, item 2 (.int 4) false] ⟨"rank", true⟩ none).run 0 =
        .ok (page, m)) ∧
      ∃ page m, (oneByOne [item 1 (.int 5) true, item 2 (.int 4) false] ⟨"rank", true⟩
        (some "Int[1]:1")).run 0 = .ok (page, m) := by
  have order {P : Order → Prop} : P ⟨"rank", true⟩ → ∀ o ∈ [Order.mk "rank" true], P o :=
    List.forall_mem_singleton.2
  have items {P : Row → Prop} (first : P (item 1 (.int 5) true))
      (second : P (item 2 (.int 4) false)) :
      ∀ r ∈ [item 1 (.int 5) true, item 2 (.int 4) false], P r :=
    List.forall_mem_cons.2 ⟨first, List.forall_mem_singleton.2 second⟩
  have distinct : (table [item 1 (.int 5) true, item 2 (.int 4) false]).DistinctKeys
      [item 1 (.int 5) true, item 2 (.int 4) false] := List.pairwise_pair.2 (by decide)
  have other : (table [item 1 (.int 5) true, item 2 (.int 4) false]).typeOf "rank" ≠
      .ok .boolean := nofun
  have first : ∀ c ∈ entity.keyColumns, Key.Carries c.type ((item 1 (.int 5) true).get c.name) :=
    carries_item (by decide) (by decide)
  have second : ∀ c ∈ entity.keyColumns, Key.Carries c.type ((item 2 (.int 4) false).get c.name) :=
    carries_item (by decide) (by decide)
  obtain ⟨without, behind⟩ : ((∃ page m, (oneByOne [item 1 (.int 5) true, item 2 (.int 4) false]
      ⟨"rank", true⟩ none).run 0 = .ok (page, m)) ↔ _) ∧ _ :=
    returned_iff projection_items rfl (Table.keeps_ofEntity [] entity _) distinct rank_items
      (matching_items _) (items ⟨_, rfl⟩ ⟨_, rfl⟩) (items first second)
      (items (order ⟨rfl, rfl⟩) (order ⟨rfl, rfl⟩)) Int.one_pos
  exact ⟨without.2 (.inr (order other)), (behind _ List.mem_cons_self first (order rfl) _
    ⟨_, rfl, rfl⟩).2 (order ⟨rfl, other⟩)⟩

/-- Clients may order by the marks of items, none of which is null, and get no page. -/
theorem Query.returned_marks :
    Order.ofValue projection (.object [("mark", .text "asc")]) none = .ok [⟨"mark", false⟩] ∧
      (table [item 1 (.int 5) true]).matching .always = .ok [item 1 (.int 5) true] ∧
      ((item 1 (.int 5) true).get "mark").isNull = false ∧
      ¬ ∃ page m, (oneByOne [item 1 (.int 5) true] ⟨"mark", false⟩ none).run 0 =
        .ok (page, m) := by
  refine ⟨mark_items, matching_items _, rfl, ?_⟩
  rintro ⟨page, m, hpage⟩
  have none : ((oneByOne [item 1 (.int 5) true] ⟨"mark", false⟩ none).run 0).toOption.isNone =
      true := by decide +kernel
  rw [hpage] at none
  cases none

end Items

end TableGraph
