import TableGraph.Proofs.Condition
import TableGraph.Query.Page

/-!
# Selected rows

Sorting keeps the rows and cutting a window keeps some of them, so that whatever a statement selects
are values of rows that its condition accepts.
-/

namespace TableGraph

namespace Table

variable {t : Table} {p : Predicate Value} {orders : List Order}

theorem sorted_perm (t : Table) (orders : List Order) (rows : List Row) :
    (t.sorted orders rows).Perm rows := List.mergeSort_perm rows _

theorem window_sublist (limit : Option Int) (offset : Int) (rows : List Row) :
    (window limit offset rows).Sublist rows := by
  unfold window
  cases limit with
  | none => exact List.drop_sublist _ _
  | some n =>
    dsimp only
    split_ifs
    · exact List.drop_sublist _ _
    · exact (List.take_sublist _ _).trans (List.drop_sublist _ _)

theorem window_eq {limit : Int} (h : 0 ≤ limit) (offset : Int) (rows : List Row) :
    window (some limit) offset rows = (rows.drop offset.toNat).take limit.toNat :=
  if_neg (Int.not_lt.2 h)

theorem select_eq_ok {limit : Option Int} {offset : Int} {records : List Record} :
    t.select p orders limit offset = .ok records ↔ ∃ rows, t.matching p = .ok rows ∧
      (window limit offset (t.sorted orders rows)).mapM t.read = .ok records := by
  unfold select
  rw [bind_eq_ok]

/-- What is selected are the values of rows that the condition accepts. -/
theorem exists_of_mem_select {limit : Option Int} {offset : Int} {records : List Record}
    (h : t.select p orders limit offset = .ok records) {record : Record}
    (hr : record ∈ records) : ∃ r ∈ t.rows, t.read r = .ok record ∧ t.Accepts p r := by
  obtain ⟨rows, hm, hs⟩ := select_eq_ok.1 h
  obtain ⟨r, hw, hread⟩ := mem_of_mapM hs hr
  have hrows := (sorted_perm t orders rows).mem_iff.1 ((window_sublist _ _ _).mem hw)
  obtain ⟨hin, hacc⟩ := (mem_matching hm).1 hrows
  exact ⟨r, hin, hread, hacc⟩

end Table

namespace Edge

theorem nodes_ofRecords {codec : Codec} {key : List Column} {rows : List Record}
    {edges : List Edge} (h : Edge.ofRecords codec key rows = .ok edges) :
    edges.map (·.node) = rows := by
  have items := mapM_eq_ok.1 h
  clear h
  induction items with
  | nil => rfl
  | cons hr _ ih =>
    obtain ⟨_, -, hr⟩ := bind_eq_ok.1 hr
    cases hr
    rw [List.map_cons, ih]

end Edge

namespace Query

theorem page_eq_ok {codec : Codec} {p : Projection} {rows : List Record}
    {hasPrevious hasNext : Bool} {count : Option PageCount} {c : Connection} :
    page codec p rows hasPrevious hasNext count = .ok c ↔
      ∃ edges, Edge.ofRecords codec p.keyColumns rows = .ok edges ∧
        ⟨edges, hasPrevious, hasNext, count⟩ = c := by
  unfold page
  rw [bind_eq_ok]
  simp only [Except.ok.injEq]

theorem nodes_page {codec : Codec} {p : Projection} {rows : List Record}
    {hasPrevious hasNext : Bool} {count : Option PageCount} {c : Connection}
    (h : page codec p rows hasPrevious hasNext count = .ok c) :
    c.nodes = rows ∧ c.count = count := by
  obtain ⟨edges, he, rfl⟩ := page_eq_ok.1 h
  exact ⟨Edge.nodes_ofRecords he, rfl⟩

end Query

end TableGraph
