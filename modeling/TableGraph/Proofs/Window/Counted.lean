import TableGraph.Proofs.Walk.Page

/-!
# Counted pages of a table and of a list

A page that is cut out of all rows of a condition is the page that is read with a limit and an
offset: the same rows under the same cursors, with the same flags and the same count.

Main statement: `Query.agrees_of_counted`.
-/

namespace TableGraph

/-! ## Cutting -/

theorem Window.position_of_nonneg {length : Nat} {i : Int} (h : 0 ≤ i) :
    position length i = min i.toNat length := if_neg (Int.not_lt.2 h)

/-- A slice is what is left behind its start, up to its length. -/
theorem Window.slice_eq {α : Type} {start limit : Int} (hstart : 0 ≤ start) (hlimit : 0 ≤ limit)
    (xs : List α) : slice start (start + limit) xs = (xs.drop start.toNat).take limit.toNat := by
  have stop : (start + limit).toNat = start.toNat + limit.toNat := Int.toNat_add hstart hlimit
  unfold slice
  rw [position_of_nonneg hstart, position_of_nonneg (Int.add_nonneg hstart hlimit), stop,
    List.drop_take]
  rcases Nat.le_total start.toNat xs.length with hin | hout
  · rw [Nat.min_eq_left hin, List.take_eq_take_iff, List.length_drop]
    omega
  · rw [Nat.min_eq_right hout, List.drop_eq_nil_of_le hout, List.drop_eq_nil_of_le le_rfl,
      List.take_nil, List.take_nil]

theorem mapM_drop_take {α β : Type} {f : α → Except Fault β} {xs : List α} {ys : List β}
    (h : xs.mapM f = .ok ys) (m n : Nat) :
    ((xs.drop m).take n).mapM f = .ok ((ys.drop m).take n) :=
  mapM_eq_ok.2 (List.forall₂_take n (List.forall₂_drop m (mapM_eq_ok.1 h)))

/-! ## Requests -/

/-- A request within bounds: some rows, from a place that is not before the first. -/
def PageRequest.Bounded : PageRequest → Prop
  | all => True
  | page number limit => 0 ≤ number ∧ 0 < limit
  | offset start limit => 0 ≤ start ∧ 0 < limit
  | cursor _ limit => 0 < limit

/-! ## Agreement -/

namespace Query

/-- A page of the table is the page that is cut out of rows at hand, or fails as that does. -/
def Agrees (codec : Codec) (s : Store) (p : Projection) (condition : Predicate Value)
    (orders : List Order) (rows : List Record) (request : PageRequest) : Prop :=
  ∀ n, Prod.fst <$> (connection codec s p condition orders request).run n =
    Window.paginate codec p.keyColumns p.keyPaths rows request

variable {codec : Codec} {s : Store} {p : Projection} {t : Table} {condition : Predicate Value}
  {orders : List Order} {rows : List Row} {records : List Record} {edges : List Edge}
  (ht : s.table p.name = .ok t) (hselect : t.select condition orders none 0 = .ok records)

theorem fst_run_lift {α : Type} (x : Except Fault α) (n : Nat) :
    Prod.fst <$> (liftM x : Counted α).run n = x := by
  cases x <;> rfl

theorem page_of_edges (hedges : Edge.ofRecords codec p.keyColumns records = .ok edges)
    (hasPrevious hasNext : Bool) (count : Option PageCount) :
    page codec p records hasPrevious hasNext count = .ok ⟨edges, hasPrevious, hasNext, count⟩ :=
  page_eq_ok.2 ⟨edges, hedges, rfl⟩

include ht hselect

/-- All rows of the condition are counted. -/
theorem run_count (n : Nat) :
    (count s p condition).run n = .ok ((records.length : Int), n + 1) := by
  obtain ⟨rows, hm, hread⟩ := Table.select_eq_ok.1 hselect
  have asked : (s.ask p.name fun t => t.matching condition).run n = .ok (rows, n + 1) :=
    Store.run_ask_eq_ok.2 ⟨t, ht, hm, rfl⟩
  have length : records.length = rows.length := by
    rw [length_of_mapM hread]
    exact (t.sorted_perm orders rows).length_eq
  unfold count
  rw [Counted.run_bind_of_ok asked, length]
  rfl

/-- The rows within bounds are cut out of all rows. -/
theorem run_window {limit : Int} (hlimit : 0 < limit) (offset : Int) (n : Nat) :
    (s.ask p.name fun t => t.select condition orders (some limit) offset).run n =
      .ok ((records.drop offset.toNat).take limit.toNat, n + 1) := by
  obtain ⟨rows, hm, hread⟩ := Table.select_eq_ok.1 hselect
  refine Store.run_ask_eq_ok.2 ⟨t, ht, Table.select_eq_ok.2 ⟨rows, hm, ?_⟩, rfl⟩
  rw [Table.window_eq hlimit.le]
  exact mapM_drop_take hread offset.toNat limit.toNat

/-- Rows from an offset on, with their count, are those that are cut out of all rows. -/
theorem run_counted (hedges : Edge.ofRecords codec p.keyColumns records = .ok edges)
    {start limit : Int} (hstart : 0 ≤ start) (hlimit : 0 < limit)
    (counting : Int → Except Fault PageCount) (hasPrevious : Bool)
    (hasNext : Int → PageCount → Bool) (n : Nat) :
    Prod.fst <$> (do
      let total ← count s p condition
      let rows ← s.ask p.name fun t => t.select condition orders (some limit) start
      let counted ← counting total
      page codec p rows hasPrevious (hasNext total counted) (some counted) :
        Counted Connection).run n = (do
      let edges ← Edge.ofRecords codec p.keyColumns records
      let counted ← counting records.length
      .ok ⟨Window.slice start (start + limit) edges, hasPrevious,
        hasNext records.length counted, some counted⟩) := by
  have cut := mapM_drop_take hedges start.toNat limit.toNat
  rw [Counted.run_bind_of_ok (run_count ht hselect n),
    Counted.run_bind_of_ok (run_window ht hselect hlimit _ _), hedges]
  cases hcount : counting records.length with
  | error e =>
    rw [Counted.run_bind_of_error (by rw [Counted.run_lift]; rfl)]
    rfl
  | ok c =>
    rw [Counted.run_bind_of_ok (Counted.run_lift_eq_ok.2 ⟨rfl, rfl⟩), fst_run_lift,
      page_of_edges cut]
    show _ = Except.ok (Connection.mk (Window.slice _ _ edges) _ _ _)
    rw [Window.slice_eq hstart hlimit.le]

/-- Pages that do not start from a cursor agree with those cut out of all rows. -/
theorem agrees_of_counted (hedges : Edge.ofRecords codec p.keyColumns records = .ok edges)
    {request : PageRequest} (hcounted : request.isCursor = false) (hbounded : request.Bounded) :
    Agrees codec s p condition orders records request := by
  intro n
  cases request with
  | cursor => cases hcounted
  | all =>
    have asked : (s.ask p.name fun t => t.select condition orders none 0).run n =
        .ok (records, n + 1) := Store.run_ask_eq_ok.2 ⟨t, ht, hselect, rfl⟩
    unfold connection Window.paginate
    dsimp only
    rw [Counted.run_bind_of_ok asked, fst_run_lift, page_of_edges hedges, hedges]
    rfl
  | page number limit =>
    obtain ⟨hnumber, hlimit⟩ := hbounded
    exact run_counted ht hselect hedges (Int.mul_nonneg hnumber hlimit.le) hlimit
      (PageCount.ofPage · limit number) _ (fun _ c => number + 1 < c.pages) n
  | offset start limit =>
    obtain ⟨hstart, hlimit⟩ := hbounded
    exact run_counted ht hselect hedges hstart hlimit (PageCount.ofOffset · limit start) _
      (fun total _ => start + limit < total) n

end Query

end TableGraph
