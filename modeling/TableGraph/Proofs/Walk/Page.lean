import TableGraph.Proofs.Walk.Anchor

/-!
# Pages of a walk

Main statement: `Walkable.exists_page`.  A page starts with the first of the sorted rows, or with
the first of those behind the row of its cursor, and shows as many as its limit allows.  Its flags
tell whether there are rows behind its last one and before its first one, and its last cursor is
that of its last row.
-/

namespace TableGraph

/-- The rows on one side of what a row is compared as. -/
def Table.beyond (t : Table) (orders : List Order) (r : Row) (forward : Bool)
    (rows : List Row) : List Row :=
  rows.filter fun r' => compareRows orders (t.restored r) r' == side forward

/-- The cursor is the one of the row. -/
def CursorOf (codec : Codec) (p : Projection) (t : Table) (r : Row) (cursor : String) : Prop :=
  ∃ record, t.read r = .ok record ∧ Key.encode codec p.keyColumns record = .ok cursor

/-- A cursor, or none, and the sorted rows that its page starts from. -/
inductive StartsAt (codec : Codec) (p : Projection) (t : Table) (orders : List Order)
    (rows : List Row) : Option String → List Row → Prop
  | first : StartsAt codec p t orders rows none (t.sorted orders rows)
  | behind {r : Row} {cursor : String} (hr : r ∈ rows) (hcursor : CursorOf codec p t r cursor) :
    StartsAt codec p t orders rows (some cursor)
      (t.beyond orders r true (t.sorted orders rows))

/-- A page shows some of the rows. -/
structure Shows (codec : Codec) (p : Projection) (t : Table) (orders : List Order)
    (rows : List Row) (after : Option String) (shown : List Row) (page : Connection) : Prop where
  nodes : shown.mapM t.read = .ok page.nodes
  edges : Edge.ofRecords codec p.keyColumns page.nodes = .ok page.edges ∧ page.count = none
  next : ∀ r, shown.getLast? = some r →
    page.hasNext = !(t.beyond orders r true rows).isEmpty
  previous : ∀ r, shown.head? = some r →
    page.hasPrevious = !(t.beyond orders r false rows).isEmpty
  cursor : ∀ r, shown.getLast? = some r →
    ∃ cursor, page.endCursor = some cursor ∧ CursorOf codec p t r cursor
  empty : shown = [] → page.hasNext = false ∧ page.hasPrevious = after.isSome

theorem getLast?_mapM {α β : Type} {f : α → Except Fault β} {xs : List α} {ys : List β}
    (hys : xs.mapM f = .ok ys) {x : α} (hx : xs.getLast? = some x) :
    ∃ y, ys.getLast? = some y ∧ f x = .ok y := by
  have items := List.forall₂_reverse_iff.2 (mapM_eq_ok.1 hys)
  rw [← List.head?_reverse] at hx ⊢
  obtain ⟨rest, hrest⟩ := List.head?_eq_some_iff.1 hx
  rw [hrest] at items
  obtain ⟨y, ys', hy, -, hreverse⟩ := List.forall₂_cons_left_iff.1 items
  exact ⟨y, by rw [hreverse]; rfl, hy⟩

namespace Walkable

variable {p : Projection} {enumerations : List Enumeration} {t : Table} {orders : List Order}
  {rows : List Row} (h : Walkable p enumerations t orders rows) {condition : Predicate Value}
  (hm : t.matching condition = .ok rows)
include h

/-- Rows are compared with what a row is compared as. -/
theorem exists_beyond {r : Row} (hr : r ∈ rows) {record : Record} (hread : t.read r = .ok record)
    {a : Record} (ha : ∀ o ∈ orders, a.get o.column = record.get o.column) (forward : Bool) :
    ∃ beyond, Keyset.condition p.entity orders a forward = .ok beyond ∧
      (∃ q, t.bind beyond = .ok q) ∧
        ∀ r', t.Accepts beyond r' ↔ Keyset.Passes forward orders (t.restored r) r' := by
  refine Keyset.exists_condition (fun o ho => h.binds hr hread ho (ha o ho)) (fun o ho => ?_)
    forward
  obtain ⟨-, -, c, hc, hname, -⟩ := h.held r hr o ho
  exact hname ▸ Entity.hasColumn_of_mem hc

include hm in
/-- The condition of a page behind a row, or before it, holds of the rows on that side. -/
theorem exists_narrowed {r : Row} (hr : r ∈ rows) {record : Record}
    (hread : t.read r = .ok record) {a : Record}
    (ha : ∀ o ∈ orders, a.get o.column = record.get o.column) (forward : Bool) :
    ∃ beyond, Keyset.condition p.entity orders a forward = .ok beyond ∧
      t.matching (.allOf [condition, beyond]) = .ok (t.beyond orders r forward rows) := by
  obtain ⟨beyond, hbeyond, ⟨q, hq⟩, accepts⟩ := h.exists_beyond hr hread ha forward
  refine ⟨beyond, hbeyond, ?_⟩
  rw [Table.matching_both hm hq]
  refine congrArg Except.ok (List.filter_congr fun r' hr' => Bool.eq_iff_iff.2 ?_)
  rw [← Table.accepts_iff hq, accepts, beq_iff_eq, Keyset.passes_iff
    (fun o ho => h.restored_isNull hr hread ho) fun o ho => (h.held r' hr' o ho).1]

/-- The keys of the rows differ. -/
theorem distinct (hm : t.matching condition = .ok rows) : t.DistinctKeys rows := by
  obtain ⟨q, -, rfl⟩ := Table.matching_eq_ok.1 hm
  exact h.keys.sublist List.filter_sublist

theorem notNull {r : Row} (hr : r ∈ rows) {record : Record} (hread : t.read r = .ok record) :
    ∀ o ∈ orders, (record.get o.column).isNull = false := fun _ ho =>
  (h.binds hr hread ho rfl).plain.1

include hm in
/-- A look beyond a row tells whether there are any rows on that side of it. -/
theorem run_reaches {s : Store} (ht : s.table p.name = .ok t) {r : Row} (hr : r ∈ rows)
    {record : Record} (hread : t.read r = .ok record) (forward : Bool) (n : Nat) :
    (Query.reaches s p condition orders record forward).run n =
      .ok (some (!(t.beyond orders r forward rows).isEmpty), n + 1) := by
  obtain ⟨beyond, hbeyond, hmatching⟩ := h.exists_narrowed hm hr hread (fun _ _ => rfl) forward
  have given : ¬ (orders.any fun o => (record.get o.column).isNull) = true := by
    intro hany
    obtain ⟨o, ho, hnull⟩ := List.any_eq_true.1 hany
    rw [h.notNull hr hread o ho] at hnull
    cases hnull
  have readable : ∀ r' ∈ (t.sorted [] (t.beyond orders r forward rows)).take 1,
      ∃ values, Table.readColumns r' (t.columns.filter fun c => p.entity.isKey c.name) =
        .ok values := by
    intro r' hr'
    have hin := (t.sorted_perm [] _).mem_iff.1 (List.mem_of_mem_take hr')
    obtain ⟨record', hread'⟩ := h.read r' (List.mem_filter.1 hin).1
    refine mapM_of_forall fun c hc => ?_
    obtain ⟨entry, -, hentry⟩ := exists_of_mem_mapM hread' (List.mem_filter.1 hc).1
    exact ⟨entry, hentry⟩
  obtain ⟨found, hfound⟩ := mapM_of_forall readable
  have asked : (s.ask p.name fun t => do
      let rows ← t.matching (.allOf [condition, beyond])
      ((t.sorted [] rows).take 1).mapM fun r =>
        Table.readColumns r (t.columns.filter fun c => p.entity.isKey c.name)).run n =
      .ok (found, n + 1) := by
    refine Store.run_ask_eq_ok.2 ⟨t, ht, ?_, rfl⟩
    rw [hmatching]
    exact hfound
  have length : found.length = min 1 (t.beyond orders r forward rows).length := by
    rw [length_of_mapM hfound, List.length_take, (t.sorted_perm [] _).length_eq]
  have same : found.isEmpty = (t.beyond orders r forward rows).isEmpty := by
    rw [Bool.eq_iff_iff, List.isEmpty_iff_length_eq_zero, List.isEmpty_iff_length_eq_zero]
    omega
  unfold Query.reaches
  rw [if_neg given, Counted.run_bind_of_ok (Counted.run_lift_eq_ok.2 ⟨hbeyond, rfl⟩),
    Counted.run_bind_of_ok asked, same]
  rfl

variable {codec : Codec} {s : Store} (ht : s.table p.name = .ok t)

/-- The cursor of a row is one. -/
theorem filter_cursor {r : Row} (hr : r ∈ rows) {record : Record} (hread : t.read r = .ok record)
    {cursor : String} (hcursor : Key.encode codec p.keyColumns record = .ok cursor) :
    (some cursor).filter (!·.isEmpty) = some cursor := by
  obtain ⟨cursor', hcursor', hempty, -⟩ := h.exists_cursor hr hread codec
  rw [hcursor, Except.ok.injEq] at hcursor'
  rw [← hcursor'] at hempty
  exact Option.filter_eq_some_iff.2 ⟨rfl, by rw [hempty]; rfl⟩

include hm ht in
/-- The condition of a page holds of the rows that it starts from. -/
theorem exists_behind {after : Option String} {start : List Row}
    (hs : StartsAt codec p t orders rows after start) (n : Nat) :
    ∃ narrowed m candidates, (Query.behind codec s p condition orders
        (after.filter (!·.isEmpty))).run n = .ok (narrowed, m) ∧
      t.matching narrowed = .ok candidates ∧ t.sorted orders candidates = start := by
  cases hs with
  | first => exact ⟨condition, n, rows, rfl, hm, rfl⟩
  | @behind r cursor hr hcursor =>
    obtain ⟨record, hread, hencode⟩ := hcursor
    obtain ⟨a, m, hanchor, ha⟩ := h.exists_anchor hr hread ht hencode n
    obtain ⟨beyond, hbeyond, hmatching⟩ := h.exists_narrowed hm hr hread ha true
    refine ⟨_, m, _, ?_, hmatching, t.sorted_filter _ _ _⟩
    rw [h.filter_cursor hr hread hencode]
    unfold Query.behind
    rw [Counted.run_bind_of_ok hanchor,
      Counted.run_bind_of_ok (Counted.run_lift_eq_ok.2 ⟨hbeyond, rfl⟩)]
    rfl

/-- Rows have cursors, so that they can be put on a page. -/
theorem exists_edges (codec : Codec) {shown : List Row} (among : ∀ r ∈ shown, r ∈ rows)
    {records : List Record} (hrecords : shown.mapM t.read = .ok records) :
    ∃ edges, Edge.ofRecords codec p.keyColumns records = .ok edges := by
  refine mapM_of_forall fun record hrecord => ?_
  obtain ⟨r, hr, hread⟩ := mem_of_mapM hrecords hrecord
  obtain ⟨cursor, hcursor, -⟩ := h.exists_cursor (among r hr) hread codec
  exact ⟨⟨cursor, record⟩, by rw [hcursor]; rfl⟩

include hm ht in
/-- The page around rows shows them. -/
theorem exists_around {shown : List Row} (among : ∀ r ∈ shown, r ∈ rows) {records : List Record}
    (hrecords : shown.mapM t.read = .ok records) (after : Option String) (limit : Int) (n : Nat) :
    ∃ page m, (Query.around codec s p condition orders after limit records).run n = .ok (page, m) ∧
      Shows codec p t orders rows after shown page := by
  obtain ⟨edges, hedges⟩ := h.exists_edges codec among hrecords
  have nodes := Edge.nodes_ofRecords hedges
  have made : ∀ previous next, Query.page codec p records previous next none =
      .ok ⟨edges, previous, next, none⟩ := fun previous next =>
    Query.page_eq_ok.2 ⟨edges, hedges, rfl⟩
  cases shown with
  | nil =>
    cases hrecords
    refine ⟨_, n, Counted.run_lift_eq_ok.2 ⟨made after.isSome false, rfl⟩, ?_⟩
    refine ⟨congrArg Except.ok nodes.symm, ⟨?_, rfl⟩, nofun, nofun, nofun, fun _ => ⟨rfl, rfl⟩⟩
    exact (congrArg (Edge.ofRecords codec p.keyColumns) nodes).trans hedges
  | cons front others =>
    obtain ⟨first, rest, hfirst, -, rfl⟩ := List.forall₂_cons_left_iff.1 (mapM_eq_ok.1 hrecords)
    obtain ⟨last, hlast⟩ : ∃ r, (front :: others).getLast? = some r :=
      ⟨_, List.getLast?_eq_some_getLast (List.cons_ne_nil front others)⟩
    obtain ⟨record, hrecord, hread⟩ := getLast?_mapM hrecords hlast
    obtain ⟨edge, hedge, hmade⟩ := getLast?_mapM hedges hrecord
    obtain ⟨cursor, hcursor, hmade⟩ := bind_eq_ok.1 hmade
    cases hmade
    have hin : last ∈ rows := among last (List.mem_of_getLast? hlast)
    have next := h.run_reaches hm ht hin hread true n
    have previous := h.run_reaches hm ht (among front List.mem_cons_self) hfirst false (n + 1)
    refine ⟨⟨edges, !(t.beyond orders front false rows).isEmpty,
      !(t.beyond orders last true rows).isEmpty, none⟩, n + 2, ?_, ?_⟩
    · unfold Query.around
      rw [hrecord]
      dsimp only [List.head?_cons]
      rw [Counted.run_bind_of_ok next, Counted.run_bind_of_ok previous]
      exact Counted.run_lift_eq_ok.2 ⟨made _ _, rfl⟩
    · refine ⟨?_, ⟨?_, rfl⟩, fun r hr => ?_, fun r hr => ?_, fun r hr => ?_, nofun⟩
      · rw [hrecords]
        exact congrArg Except.ok nodes.symm
      · exact (congrArg (Edge.ofRecords codec p.keyColumns) nodes).trans hedges
      · rw [hlast, Option.some.injEq] at hr
        rw [hr]
      · rw [List.head?_cons, Option.some.injEq] at hr
        rw [hr]
      · rw [hlast, Option.some.injEq] at hr
        subst hr
        refine ⟨cursor, ?_, record, hread, hcursor⟩
        show edges.getLast?.map (·.cursor) = _
        rw [hedge]
        rfl

include hm ht in
/-- A page behind a cursor shows as many of the rows behind it as its limit allows. -/
theorem exists_page_of_behind {given : List Order}
    (horders : Order.withKey given p.entity.primaryKey = orders) {after : Option String}
    {narrowed : Predicate Value} {candidates : List Row} {m n : Nat}
    (hbehind : (Query.behind codec s p condition orders (after.filter (!·.isEmpty))).run n =
      .ok (narrowed, m)) (hmatching : t.matching narrowed = .ok candidates)
    (hsub : ∀ r ∈ candidates, r ∈ rows) {limit : Int} (hlimit : 0 < limit) :
    ∃ page k, (Query.connection codec s p condition given (.cursor after limit)).run n =
        .ok (page, k) ∧
      Shows codec p t orders rows after ((t.sorted orders candidates).take limit.toNat) page := by
  have among : ∀ r ∈ (t.sorted orders candidates).take limit.toNat, r ∈ rows := fun r hr =>
    hsub r ((t.sorted_perm orders candidates).mem_iff.1 (List.mem_of_mem_take hr))
  obtain ⟨records, hrecords⟩ := mapM_of_forall fun r hr => h.read r (among r hr)
  have window := Table.window_eq hlimit.le 0 (t.sorted orders candidates)
  have selected : t.select narrowed orders (some limit) 0 = .ok records := by
    refine Table.select_eq_ok.2 ⟨candidates, hmatching, ?_⟩
    rw [window]
    exact hrecords
  obtain ⟨page, k, hpage, shows⟩ := h.exists_around hm ht among hrecords after limit (m + 1)
  refine ⟨page, k, ?_, shows⟩
  unfold Query.connection Query.cursorPage
  rw [horders]
  dsimp only
  rw [Counted.run_bind_of_ok hbehind,
    Counted.run_bind_of_ok (Store.run_ask_eq_ok.2 ⟨t, ht, selected, rfl⟩)]
  exact hpage

include hm ht in
/-- A page shows as many rows as its limit allows of those that it starts from. -/
theorem exists_page {given : List Order}
    (horders : Order.withKey given p.entity.primaryKey = orders) {after : Option String}
    {start : List Row} (hs : StartsAt codec p t orders rows after start) {limit : Int}
    (hlimit : 0 < limit) (n : Nat) :
    ∃ page m, (Query.connection codec s p condition given (.cursor after limit)).run n =
        .ok (page, m) ∧
      Shows codec p t orders rows after (start.take limit.toNat) page := by
  obtain ⟨narrowed, m, candidates, hbehind, hmatching, hstart⟩ := h.exists_behind hm ht hs n
  have page := h.exists_page_of_behind hm ht horders hbehind hmatching
  rw [hstart] at page
  refine page (fun r hr => ?_) hlimit
  have hin := (t.sorted_perm orders candidates).mem_iff.2 hr
  rw [hstart] at hin
  cases hs with
  | first => exact (t.sorted_perm orders rows).mem_iff.1 hin
  | behind => exact (t.sorted_perm orders rows).mem_iff.1 (List.mem_filter.1 hin).1

end Walkable

end TableGraph
