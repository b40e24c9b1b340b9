import TableGraph.Proofs.Load.Same
import TableGraph.Proofs.Window.Arithmetic
import TableGraph.Proofs.Window.Behind

/-!
# Pages of a list, one behind the other

Pages of rows at hand are asked for by numbers, by offsets or by cursors, each behind the one before
it, as long as there are rows behind.  Whichever way is taken, a page shows what follows the place
its request begins at (`Begins.exists_page`), and the next request begins where the page ends
(`Begins.behind`).  So the pages show all rows, each of them once.

Main statement: `pages_partition`.
-/

namespace TableGraph

/-- The request for the page behind a page. -/
def PageRequest.behind (page : Connection) : PageRequest → PageRequest
  | all => all
  | .page number limit => .page (number + 1) limit
  | offset start limit => offset (start + limit) limit
  | cursor _ limit => cursor page.endCursor limit

namespace Window

/-- Pages are turned: each is asked for behind the one before it, up to one that no rows are
behind. -/
inductive Turning (codec : Codec) (key : List Column) (paths : List String) (rows : List Record) :
    PageRequest → List Connection → Prop
  | last {request : PageRequest} {page : Connection}
    (h : paginate codec key paths rows request = .ok page) (hnext : page.hasNext = false) :
    Turning codec key paths rows request [page]
  | next {request : PageRequest} {page : Connection} {pages : List Connection}
    (h : paginate codec key paths rows request = .ok page) (hnext : page.hasNext = true)
    (rest : Turning codec key paths rows (request.behind page) pages) :
    Turning codec key paths rows request (page :: pages)

/-- Behind some rows the pages show others in order, each of them once and under the cursor of its
key.  A page begins and ends with the cursors of its first and its last row, and tells whether there
are rows before it and behind it. -/
structure Partitions (codec : Codec) (key : List Column) (before behind : List Record)
    (pages : List Connection) : Prop where
  rows : pages.flatMap (·.nodes) = behind
  cursors : ∀ page ∈ pages, ∀ edge ∈ page.edges, Key.encode codec key edge.node = .ok edge.cursor
  ends : ∀ page ∈ pages,
    page.nodes.head?.map (Key.encode codec key) = page.startCursor.map .ok ∧
      page.nodes.getLast?.map (Key.encode codec key) = page.endCursor.map .ok
  previous : ∀ front page back, pages = front ++ page :: back →
    (page.hasPrevious = true ↔ before ++ front.flatMap (·.nodes) ≠ [])
  next : ∀ front page back, pages = front ++ page :: back →
    (page.hasNext = true ↔ back.flatMap (·.nodes) ≠ [])

/-- The keys of the rows differ, and each is read back from the cursor it is written as. -/
structure Keyed (codec : Codec) (key : List Column) (paths : List String) (rows : List Record) :
    Prop where
  differ : rows.Pairwise fun r r' => Value.sameItems (keyOf key r) (keyOf key r') = false
  readBack : ∀ r ∈ rows, ∃ cursor values, Key.encode codec key r = .ok cursor ∧
    Key.decode codec key paths cursor = .ok values ∧
    Value.sameItems (keyOf key r) values = true ∧ Value.sameItems values (keyOf key r) = true

/-- The page shows the rows from a place on, under their cursors, and tells whether it begins behind
the first row and ends before the last one. -/
structure ShowsFrom (codec : Codec) (key : List Column) (rows : List Record) (start limit : Nat)
    (page : Connection) : Prop where
  nodes : page.nodes = (rows.drop start).take limit
  cursors : ∀ edge ∈ page.edges, Key.encode codec key edge.node = .ok edge.cursor
  previous : page.hasPrevious = decide (0 < start)
  next : page.hasNext = decide (start + limit < rows.length)

/-- The request asks for the rows from a place on. -/
inductive Begins (codec : Codec) (key : List Column) (rows : List Record) (limit : Int) :
    PageRequest → Nat → Prop
  | page (number : Nat) : Begins codec key rows limit (.page number limit) (number * limit.toNat)
  | offset (start : Nat) : Begins codec key rows limit (.offset start limit) start
  | first : Begins codec key rows limit (.cursor none limit) 0
  | cursor {before behind : List Record} {r : Record} {cursor : String}
    (hrows : rows = before ++ r :: behind) (hcursor : Key.encode codec key r = .ok cursor) :
    Begins codec key rows limit (.cursor (some cursor) limit) (before.length + 1)

variable {codec : Codec} {key : List Column} {paths : List String} {rows : List Record}

/-! ## Rows and their cursors -/

namespace Keyed

variable (h : Keyed codec key paths rows)
include h

theorem exists_edges : ∃ edges, Edge.ofRecords codec key rows = .ok edges := by
  have each : ∀ r ∈ rows, ∃ edge, (do
      let cursor ← Key.encode codec key r
      .ok ⟨cursor, r⟩ : Except Fault Edge) = .ok edge := by
    intro r hr
    obtain ⟨cursor, -, hcursor, -⟩ := h.readBack r hr
    exact ⟨⟨cursor, r⟩, by rw [hcursor]; rfl⟩
  obtain ⟨edges, hedges⟩ := exists_forall₂ each
  exact ⟨edges, mapM_eq_ok.2 hedges⟩

/-- Behind the cursor of a row is the place behind the row. -/
theorem startAfter_eq {before behind : List Record} {r : Record} {cursor : String}
    (hrows : rows = before ++ r :: behind) (hcursor : Key.encode codec key r = .ok cursor) :
    startAfter codec key paths rows (some cursor) = .ok ((before.length + 1 : Nat) : Int) := by
  subst hrows
  obtain ⟨cursor', values, hcursor', hdecode, own, back⟩ :=
    h.readBack r (List.mem_append_right before List.mem_cons_self)
  rw [hcursor, Except.ok.injEq] at hcursor'
  subst hcursor'
  have others : ∀ x ∈ before, Value.sameItems (keyOf key x) values = false := by
    intro x hx
    by_contra hsame
    rw [Bool.not_eq_false] at hsame
    have differ := (List.pairwise_append.1 h.differ).2.2 x hx r List.mem_cons_self
    rw [Value.sameItems_trans hsame back] at differ
    cases differ
  rw [startAfter_of_decode hdecode]
  unfold after?
  rw [findIdx?_of_split others own]
  rfl

end Keyed

/-! ## Single pages -/

/-- A slice with its flags is a page. -/
theorem showsFrom_slice {edges : List Edge} (hedges : Edge.ofRecords codec key rows = .ok edges)
    {limit : Int} (hlimit : 0 < limit) (start : Nat) {hasPrevious hasNext : Bool}
    (count : Option PageCount) (hprevious : hasPrevious = true ↔ 0 < start)
    (hnext : hasNext = true ↔ (start : Int) + limit < rows.length) :
    ShowsFrom codec key rows start limit.toNat
      ⟨slice start (start + limit) edges, hasPrevious, hasNext, count⟩ := by
  rw [slice_eq (Int.natCast_nonneg start) hlimit.le]
  refine ⟨?_, fun edge hedge => ?_, ?_, ?_⟩
  · rw [← Edge.nodes_ofRecords hedges]
    simp [Connection.nodes]
  · obtain ⟨r, -, hr⟩ := mem_of_mapM hedges (List.mem_of_mem_drop (List.mem_of_mem_take hedge))
    obtain ⟨cursor, hcursor, hr⟩ := bind_eq_ok.1 hr
    rw [Except.ok.injEq] at hr
    exact hr ▸ hcursor
  · rw [Bool.eq_iff_iff, hprevious, decide_eq_true_iff]
  · rw [Bool.eq_iff_iff, hnext, decide_eq_true_iff]
    omega

/-- The cursors at the ends of a page are those of its first and its last row. -/
theorem ends_of_cursors {page : Connection}
    (h : ∀ edge ∈ page.edges, Key.encode codec key edge.node = .ok edge.cursor) :
    page.nodes.head?.map (Key.encode codec key) = page.startCursor.map .ok ∧
      page.nodes.getLast?.map (Key.encode codec key) = page.endCursor.map .ok := by
  unfold Connection.nodes Connection.startCursor Connection.endCursor
  rw [List.head?_map, List.getLast?_map]
  simp only [Option.map_map]
  constructor
  · apply Option.map_congr
    intro edge hedge
    exact h edge (List.mem_of_head? hedge)
  · apply Option.map_congr
    intro edge hedge
    exact h edge (List.mem_of_getLast? hedge)

namespace Begins

variable {limit : Int} {request : PageRequest} {start : Nat}
  (h : Begins codec key rows limit request start) (hlimit : 0 < limit)
include h hlimit

/-- A request that begins within the rows gets the page from its place on. -/
theorem exists_page (hkeyed : Keyed codec key paths rows) (hrows : (rows.length : Int) < 2 ^ 53)
    (hstart : start ≤ rows.length) :
    ∃ page, paginate codec key paths rows request = .ok page ∧
      ShowsFrom codec key rows start limit.toNat page := by
  obtain ⟨edges, hedges⟩ := hkeyed.exists_edges
  have total : (0 : Int) ≤ rows.length ∧ (rows.length : Int) < 2 ^ 53 :=
    ⟨Int.natCast_nonneg rows.length, hrows⟩
  have byCursor {after : Option String}
      (hafter : startAfter codec key paths rows after = .ok (start : Int)) :
      ∃ page, paginate codec key paths rows (.cursor after limit) = .ok page ∧
        ShowsFrom codec key rows start limit.toNat page := by
    refine ⟨⟨slice start (start + limit) edges, 0 < (start : Int),
      (start : Int) + limit < rows.length, none⟩, ?_,
      showsFrom_slice hedges hlimit start none (by simp) decide_eq_true_iff⟩
    unfold paginate
    rw [hedges]
    show (startAfter codec key paths rows after >>= _) = _
    rw [hafter]
    rfl
  cases h with
  | page number =>
    have place : ((number * limit.toNat : Nat) : Int) = number * limit := by
      rw [Int.natCast_mul, Int.toNat_of_nonneg hlimit.le]
    obtain ⟨count, hcount, hmore⟩ := PageCount.exists_ofPage total hlimit number
    refine ⟨⟨slice ((number * limit.toNat : Nat) : Int) ((number * limit.toNat : Nat) + limit) edges,
      0 < (number : Int), (number : Int) + 1 < count.pages, some count⟩, ?_,
      showsFrom_slice hedges hlimit _ (some count) ?_ ?_⟩
    · unfold paginate
      rw [hedges, place]
      show (PageCount.ofPage rows.length limit number >>= _) = _
      rw [hcount]
      rfl
    · rw [decide_eq_true_iff, Nat.mul_pos_iff_of_pos_right (by omega)]
      omega
    · rw [decide_eq_true_iff, hmore (Int.natCast_nonneg number), place, Int.add_mul, Int.one_mul]
  | offset =>
    obtain ⟨pages, hpages, -⟩ := PageCount.exists_ceilQuotient total.1 total.2 hlimit
    obtain ⟨current, hcurrent, -⟩ := PageCount.exists_ceilQuotient
      (Int.natCast_nonneg start) (by omega) hlimit
    refine ⟨⟨slice start (start + limit) edges, 0 < (start : Int),
      (start : Int) + limit < rows.length, some ⟨pages, current, start, rows.length⟩⟩, ?_,
      showsFrom_slice hedges hlimit start _ (by simp) decide_eq_true_iff⟩
    unfold paginate
    rw [hedges]
    show (PageCount.ofOffset rows.length limit start >>= _) = _
    unfold PageCount.ofOffset
    rw [hpages, hcurrent]
    rfl
  | first => exact byCursor rfl
  | cursor hsplit hcursor => exact byCursor (hkeyed.startAfter_eq hsplit hcursor)

/-- The request for the page behind begins where the page ends. -/
theorem behind {page : Connection} (shows : ShowsFrom codec key rows start limit.toNat page)
    (hnext : start + limit.toNat < rows.length) :
    Begins codec key rows limit (request.behind page) (start + limit.toNat) := by
  have byCursor : Begins codec key rows limit (.cursor page.endCursor limit)
      (start + limit.toNat) := by
    have size : page.nodes.length = limit.toNat := by
      rw [shows.nodes, List.length_take, List.length_drop]
      omega
    have shown : page.nodes ≠ [] := by
      rw [← List.length_pos_iff]
      omega
    obtain ⟨r, hr⟩ : ∃ r, page.nodes.getLast? = some r := ⟨_, List.getLast?_eq_some_getLast shown⟩
    have last := (ends_of_cursors shows.cursors).2
    obtain ⟨front, hfront⟩ := List.getLast?_eq_some_iff.1 hr
    rw [hr, Option.map_some, eq_comm, Option.map_eq_some_iff] at last
    obtain ⟨cursor, hend, hcursor⟩ := last
    have split : rows = (rows.take start ++ front) ++ r :: rows.drop (start + limit.toNat) := by
      have parts := List.take_append_drop limit.toNat (rows.drop start)
      rw [← shows.nodes, hfront, List.drop_drop, List.append_assoc] at parts
      rw [List.append_assoc, ← List.singleton_append, parts, List.take_append_drop]
    have place : start + limit.toNat = (rows.take start ++ front).length + 1 := by
      rw [hfront, List.length_append, List.length_singleton] at size
      rw [List.length_append, List.length_take]
      omega
    rw [hend, place]
    exact .cursor split hcursor.symm
  cases h with
  | page number =>
    have next : Begins codec key rows limit (.page ((number + 1 : Nat) : Int) limit) _ :=
      .page (number + 1)
    rw [Nat.succ_mul] at next
    exact next
  | offset =>
    have next : Begins codec key rows limit (.offset ((start + limit.toNat : Nat) : Int) limit) _ :=
      .offset (start + limit.toNat)
    rw [Int.natCast_add, Int.toNat_of_nonneg hlimit.le] at next
    exact next
  | first => exact byCursor
  | cursor => exact byCursor

end Begins

/-! ## All pages -/

/-- A page in front of others. -/
theorem ShowsFrom.partitions {start limit : Nat} {page : Connection} {pages : List Connection}
    (shows : ShowsFrom codec key rows start limit page)
    (hstart : start = 0 ∨ start < rows.length)
    (rest : Partitions codec key (rows.take (start + limit)) (rows.drop (start + limit)) pages) :
    Partitions codec key (rows.take start) (rows.drop start) (page :: pages) := by
  refine ⟨?_, ?_, ?_, fun front other back hsplit => ?_, fun front other back hsplit => ?_⟩
  · rw [List.flatMap_cons, shows.nodes, rest.rows, ← List.drop_drop, List.take_append_drop]
  · exact List.forall_mem_cons.2 ⟨shows.cursors, rest.cursors⟩
  · exact List.forall_mem_cons.2 ⟨ends_of_cursors shows.cursors, rest.ends⟩
  · rcases List.cons_eq_append_iff.1 hsplit with ⟨rfl, heq⟩ | ⟨front, rfl, heq⟩
    · rw [List.cons.injEq] at heq
      rw [heq.1, shows.previous, decide_eq_true_iff, List.flatMap_nil, List.append_nil, Ne,
        List.take_eq_nil_iff, ← List.length_eq_zero_iff]
      omega
    · rw [rest.previous front other back heq, List.flatMap_cons, shows.nodes, ← List.append_assoc,
        List.take_add]
  · rcases List.cons_eq_append_iff.1 hsplit with ⟨rfl, heq⟩ | ⟨front, rfl, heq⟩
    · rw [List.cons.injEq] at heq
      rw [heq.1, heq.2, shows.next, decide_eq_true_iff, rest.rows, Ne, List.drop_eq_nil_iff]
      omega
    · exact rest.next front other back heq

/-- From a request within the rows the pages are turned up to the last row. -/
theorem Begins.exists_turning {limit : Int} (hlimit : 0 < limit)
    (hkeyed : Keyed codec key paths rows) (hrows : (rows.length : Int) < 2 ^ 53) (k : Nat)
    {request : PageRequest} {start : Nat} (h : Begins codec key rows limit request start)
    (hstart : start = 0 ∨ start < rows.length) (hk : rows.length < start + k) :
    ∃ pages, Turning codec key paths rows request pages ∧
      Partitions codec key (rows.take start) (rows.drop start) pages := by
  -- A page that is not the last one takes at least one of the rows that are left.
  induction k generalizing request start with
  | zero => omega
  | succ k ih =>
    obtain ⟨page, hpage, shows⟩ := h.exists_page hlimit hkeyed hrows (by omega)
    by_cases hnext : start + limit.toNat < rows.length
    · obtain ⟨pages, hturning, hpartitions⟩ :=
        ih (h.behind hlimit shows hnext) (.inr hnext) (by omega)
      exact ⟨page :: pages, .next hpage (shows.next.trans (decide_eq_true hnext)) hturning,
        shows.partitions hstart hpartitions⟩
    · refine ⟨[page], .last hpage (shows.next.trans (decide_eq_false hnext)),
        shows.partitions hstart ?_⟩
      rw [List.drop_eq_nil_of_le (Nat.not_lt.1 hnext)]
      exact ⟨rfl, nofun, nofun, by simp, by simp⟩

/--
The pages of rows that their cursors tell apart show all rows, each of them once, whether they are
asked for by their numbers, by their offsets or each by the end of the one before it.  The key of no
row is refused.
-/
theorem pages_partition (hkeyed : Keyed codec key paths rows)
    (hrows : (rows.length : Int) < 2 ^ 53) {limit : Int} (hlimit : 0 < limit) :
    (∀ request ∈ [PageRequest.page 0 limit, .offset 0 limit, .cursor none limit],
      ∃ pages, Turning codec key paths rows request pages ∧
        Partitions codec key [] rows pages) ∧
    ∀ text values, Key.decode codec key paths text = .ok values →
      (∀ r ∈ rows, Value.sameItems (keyOf key r) values = false) →
      paginate codec key paths rows (.cursor (some text) limit) =
        .error (.pagination "cursor" "cursor row no longer exists") := by
  constructor
  · intro request hrequest
    have begins : Begins codec key rows limit request 0 := by
      have byNumber : Begins codec key rows limit (.page (0 : Nat) limit) _ := .page 0
      rw [Nat.zero_mul] at byNumber
      simp only [List.mem_cons, List.not_mem_nil, or_false] at hrequest
      rcases hrequest with rfl | rfl | rfl
      · exact byNumber
      · exact .offset 0
      · exact .first
    exact begins.exists_turning hlimit hkeyed hrows (rows.length + 1) (.inl rfl) (by omega)
  · intro text values hdecode hnone
    obtain ⟨edges, hedges⟩ := hkeyed.exists_edges
    unfold paginate
    rw [hedges]
    show (startAfter codec key paths rows (some text) >>= _) = _
    rw [startAfter_of_decode hdecode]
    unfold after?
    rw [List.findIdx?_eq_none_iff.2 hnone]
    rfl

section Notes

open Sample.Notes

/-- The number of a note is read back from the cursor it is written as. -/
theorem decode_note {n : Int} (hn : IntegerKind.regular.holds n) (kept : Cell.holds n) :
    ∃ cursor, Key.encode schema.codec entity.keyColumns [("id", .int n)] = .ok cursor ∧
      Key.decode schema.codec entity.keyColumns ["Note.id"] cursor = .ok [.int n] := by
  have key : entity.keyColumns = [Sample.column "id" (.plain (.integer .regular))] := by decide
  have some : entity.keyColumns ≠ [] := by
    rw [key]
    exact List.cons_ne_nil _ _
  have carries : ∀ c ∈ entity.keyColumns, Key.Carries c.type ((note n 1 .null).get c.name) :=
    carries_note hn kept
  have read : ∀ c ∈ entity.keyColumns,
      (SqlType.ofColumnType [] c.type).read ((note n 1 .null).get c.name) =
        .ok (Record.get [("id", .int n)] c.name) := by
    rw [key, List.forall_mem_singleton]
    rfl
  obtain ⟨cursor, hcursor, -, hdecode⟩ := Key.exists_cursor some carries read ["Note.id"]
  refine ⟨cursor, hcursor, ?_⟩
  rw [hdecode, key]
  rfl

theorem keyed_notes : Keyed schema.codec entity.keyColumns ["Note.id"]
    [[("id", .int 1)], [("id", .int 2)]] where
  differ := List.pairwise_pair.2 rfl
  readBack := by
    rw [List.forall_mem_cons, List.forall_mem_singleton]
    constructor
    · obtain ⟨cursor, hcursor, hdecode⟩ := decode_note (n := 1) rfl rfl
      exact ⟨cursor, _, hcursor, hdecode, rfl, rfl⟩
    · obtain ⟨cursor, hcursor, hdecode⟩ := decode_note (n := 2) rfl rfl
      exact ⟨cursor, _, hcursor, hdecode, rfl, rfl⟩

/-- Two notes are shown on pages of one note each, and the cursor of a third note is refused. -/
theorem pages_partition_notes :
    (∃ pages, Turning schema.codec entity.keyColumns ["Note.id"]
        [[("id", .int 1)], [("id", .int 2)]] (.cursor none 1) pages ∧
      Partitions schema.codec entity.keyColumns [] [[("id", .int 1)], [("id", .int 2)]] pages) ∧
    ∃ cursor, Key.encode schema.codec entity.keyColumns [("id", .int 3)] = .ok cursor ∧
      paginate schema.codec entity.keyColumns ["Note.id"] [[("id", .int 1)], [("id", .int 2)]]
          (.cursor (some cursor) 1) =
        .error (.pagination "cursor" "cursor row no longer exists") := by
  obtain ⟨shown, refused⟩ := pages_partition keyed_notes (by decide) Int.one_pos
  refine ⟨shown _ (by simp), ?_⟩
  obtain ⟨cursor, hcursor, hdecode⟩ := decode_note (n := 3) rfl rfl
  refine ⟨cursor, hcursor, refused cursor _ hdecode ?_⟩
  rw [List.forall_mem_cons, List.forall_mem_singleton]
  exact ⟨rfl, rfl⟩

end Notes

end Window

end TableGraph
