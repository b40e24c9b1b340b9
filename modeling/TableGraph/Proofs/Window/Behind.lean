import TableGraph.Proofs.Load.Plain
import TableGraph.Proofs.Walk.Complete
import TableGraph.Proofs.Window.Counted

/-!
# Pages behind a cursor in a table and in a list

In a list the row of a cursor is found by its key, and the page is what follows it.  In a table the
page is what lies beyond the row of the cursor.  The two agree for all cursors of rows exactly if
the rows keep their places.

Main statements: `Walkable.agrees_of_keepsPlace` and `Walkable.keepsPlace_of_agrees`.
-/

namespace TableGraph

open Query (Agrees)

theorem findIdx?_of_split {α : Type} {q : α → Bool} {xs ys : List α} {x : α}
    (hxs : ∀ y ∈ xs, q y = false) (hx : q x = true) :
    (xs ++ x :: ys).findIdx? q = some xs.length := by
  rw [List.findIdx?_append, List.findIdx?_eq_none_iff.2 hxs, List.findIdx?_cons, if_pos hx]
  simp

theorem Key.decode_empty (codec : Codec) (key : List Column) (paths : List String) :
    ∃ fault, Key.decode codec key paths "" = .error fault := ⟨_, rfl⟩

/-- A cursor that is read leads behind the first row with its key. -/
theorem Window.startAfter_of_decode {codec : Codec} {key : List Column} {paths : List String}
    {rows : List Record} {text : String} {values : List Value}
    (h : Key.decode codec key paths text = .ok values) :
    startAfter codec key paths rows (some text) =
      match after? key values rows with
      | some n => .ok (n : Int)
      | none => .error (.pagination "cursor" "cursor row no longer exists") := by
  have given : text.isEmpty = false := by
    by_contra hempty
    rw [Bool.not_eq_false, String.isEmpty_iff] at hempty
    obtain ⟨fault, hfault⟩ := Key.decode_empty codec key paths
    rw [hempty, hfault] at h
    cases h
  unfold startAfter
  rw [Option.filter_eq_some_iff.2 ⟨rfl, by rw [given]; rfl⟩]
  show (Key.decode codec key paths text >>= _) = _
  rw [h]
  rfl

/-- The value of a key that a cursor carries is kept as it is. -/
theorem Key.plain_of_carries {enumerations : List Enumeration} {type : ColumnType} {x : Cell}
    {v : Value} (h : Carries type x)
    (hv : (SqlType.ofColumnType enumerations type).read x = .ok v) :
    (SqlType.ofColumnType enumerations type).Plain v ∧ v.cell = x := by
  cases h with
  | @integer kind _ n _ kept =>
    cases kind <;>
    · cases hv
      exact ⟨.whole rfl kept, rfl⟩
  | string =>
    cases hv
    exact ⟨.text rfl, rfl⟩
  | char =>
    cases hv
    exact ⟨.text rfl, rfl⟩
  | uuid u =>
    have found : SqlType.uuid.read (.text (String.ofList u.digits)) = .ok (.uuid u) := by
      show SqlType.found .uuid (Uuid.ofText? (String.ofList u.digits)) = _
      rw [Uuid.ofText?_digits]
      rfl
    cases found.symm.trans hv
    exact ⟨.identifier, rfl⟩

namespace Walkable

variable {codec : Codec} {s : Store} {p : Projection} {enumerations : List Enumeration}
  {t : Table} {orders given : List Order} {rows : List Row} {condition : Predicate Value}
  (h : Walkable p enumerations t orders rows)

/-! ## Rows at hand -/

section AtHand

include h

/-- Values are those of the key of one row only. -/
theorem sameKey_iff {a b : Row} (ha : a ∈ rows) (hb : b ∈ rows) {x y : Record}
    (hx : t.read a = .ok x) (hy : t.read b = .ok y) :
    Value.sameItems (Window.keyOf p.keyColumns x) (Window.keyOf p.keyColumns y) = true ↔
      a = b := by
  have plain : ∀ c ∈ p.entity.keyColumns,
      ((x.get c.name).same (y.get c.name) = true ↔ a.get c.name = b.get c.name) := by
    intro c hc
    have hmem := (Entity.mem_keyColumns hc).1
    obtain ⟨px, cx⟩ := Key.plain_of_carries (h.carries a ha c hc) (h.keeps.get_read hx hmem)
    obtain ⟨py, cy⟩ := Key.plain_of_carries (h.carries b hb c hc) (h.keeps.get_read hy hmem)
    rw [px.value_same_iff py, ← cx, ← cy]
    exact ⟨congrArg Value.cell, px.cell_injective py⟩
  have items : Value.sameItems (Window.keyOf p.keyColumns x) (Window.keyOf p.keyColumns y) = true ↔
      ∀ c ∈ p.entity.keyColumns, a.get c.name = b.get c.name := by
    unfold Window.keyOf Projection.keyColumns
    generalize p.entity.keyColumns = columns at plain
    induction columns with
    | nil => exact iff_of_true rfl nofun
    | cons c columns ih =>
      rw [List.map_cons, List.map_cons, Value.sameItems, Bool.and_eq_true, List.forall_mem_cons,
        plain c List.mem_cons_self, ih fun d hd => plain d (List.mem_cons_of_mem c hd)]
  rw [items]
  constructor
  · intro cells
    by_contra hne
    refine h.keys.ne_eq [] (h.among a ha) (h.among b hb) hne ?_
    unfold Table.fullOrder
    rw [List.nil_append, Table.compareRows_eq_iff]
    intro o ho
    obtain ⟨k, hk, rfl⟩ := List.mem_map.1 ho
    obtain ⟨c, -, rfl, hkey⟩ := Entity.exists_keyColumn (h.keeps.mem_key.1 hk)
    show (a.get c.name).order (b.get c.name) = .eq
    rw [cells c hkey, Cell.order_self]
  · rintro rfl c -
    rfl

/-- Rows that read alike are the same rows. -/
theorem eq_of_mapM_read {xs ys : List Row} (hxs : ∀ r ∈ xs, r ∈ rows) (hys : ∀ r ∈ ys, r ∈ rows)
    {records : List Record} (hx : xs.mapM t.read = .ok records)
    (hy : ys.mapM t.read = .ok records) : xs = ys := by
  have one := mapM_eq_ok.1 hx
  have other := mapM_eq_ok.1 hy
  clear hx hy
  induction one generalizing ys with
  | nil => exact (List.forall₂_nil_right_iff.1 other).symm
  | cons first _ ih =>
    cases other with
    | cons first' behind' =>
      rw [List.forall_mem_cons] at hxs hys
      rw [h.eq_of_read hxs.1 hys.1 first first', ih hxs.2 hys.2 behind']

/-- The place behind a row is found by the key of the row. -/
theorem after?_eq {before : List Row} {r : Row} (hbefore : ∀ x ∈ before, x ∈ rows) (hr : r ∈ rows)
    (hne : r ∉ before) {front : List Record} (hfront : before.mapM t.read = .ok front)
    {record : Record} (hread : t.read r = .ok record) (others : List Record) :
    Window.after? p.keyColumns (Window.keyOf p.keyColumns record) (front ++ record :: others) =
      some (before ++ [r]).length := by
  have first : ∀ y ∈ front, Value.sameItems (Window.keyOf p.keyColumns y)
      (Window.keyOf p.keyColumns record) = false := by
    intro y hy
    obtain ⟨a, ha, hya⟩ := mem_of_mapM hfront hy
    rw [← Bool.not_eq_true, h.sameKey_iff (hbefore a ha) hr hya hread]
    rintro rfl
    exact hne ha
  have found := (h.sameKey_iff hr hr hread hread).2 rfl
  unfold Window.after?
  rw [findIdx?_of_split first found, length_of_mapM hfront, List.length_append]
  rfl

variable {records : List Record} (hrecords : (t.sorted orders rows).mapM t.read = .ok records)
  (hm : t.matching condition = .ok rows)

include hm hrecords in
/-- The page behind the cursor of a row starts with the row behind it. -/
theorem startAfter_eq {before behind : List Row} {r : Row}
    (hsorted : t.sorted orders rows = before ++ r :: behind) {cursor : String}
    (hcursor : CursorOf codec p t r cursor) :
    Window.startAfter codec p.keyColumns p.keyPaths records (some cursor) =
      .ok ((before ++ [r]).length : Int) := by
  have perm := t.sorted_perm orders rows
  have among : ∀ x ∈ before ++ r :: behind, x ∈ rows := fun x hx =>
    perm.mem_iff.1 (hsorted ▸ hx)
  have nodup : (before ++ r :: behind).Nodup := hsorted ▸ (h.ascends hm).nodup
  obtain ⟨record, hread, hencode⟩ := hcursor
  have hr : r ∈ rows := among r (List.mem_append_right before List.mem_cons_self)
  obtain ⟨cursor', hencode', -, hdecode⟩ := h.exists_cursor hr hread codec
  rw [hencode, Except.ok.injEq] at hencode'
  subst hencode'
  have names : p.entity.primaryKey.map record.get = Window.keyOf p.keyColumns record := by
    unfold Window.keyOf Projection.keyColumns
    rw [← p.entity.names_keyColumns, List.map_map]
    rfl
  rw [hsorted, List.mapM_append, List.mapM_cons] at hrecords
  obtain ⟨front, hfront, hrecords⟩ := bind_eq_ok.1 hrecords
  obtain ⟨rest, hrest, hrecords⟩ := bind_eq_ok.1 hrecords
  obtain ⟨x, hx, hrest⟩ := bind_eq_ok.1 hrest
  obtain ⟨others, -, hrest⟩ := bind_eq_ok.1 hrest
  cases hrest
  cases hrecords
  rw [hread, Except.ok.injEq] at hx
  subst hx
  have position := h.after?_eq (fun a ha => among a (List.mem_append_left _ ha)) hr
    (fun ha => List.disjoint_of_nodup_append nodup ha List.mem_cons_self) hfront hread others
  rw [Window.startAfter_of_decode hdecode, names, position]

end AtHand

end Walkable

/-! ## Pages -/

/-- A page of a list shows the rows behind others, and its flags tell whether there are more. -/
structure Cuts (codec : Codec) (p : Projection) (t : Table) (before behind : List Row)
    (limit : Int) (cut : Connection) : Prop where
  nodes : (behind.take limit.toNat).mapM t.read = .ok cut.nodes
  edges : Edge.ofRecords codec p.keyColumns cut.nodes = .ok cut.edges ∧ cut.count = none
  next : cut.hasNext = !(behind.drop limit.toNat).isEmpty
  previous : cut.hasPrevious = !before.isEmpty

namespace Walkable

variable {codec : Codec} {s : Store} {p : Projection} {enumerations : List Enumeration}
  {t : Table} {orders given : List Order} {rows : List Row} {condition : Predicate Value}
  (h : Walkable p enumerations t orders rows) {records : List Record}
  (hrecords : (t.sorted orders rows).mapM t.read = .ok records) {after : Option String}
  {before behind : List Row} (hsorted : t.sorted orders rows = before ++ behind)
  (hstart : Window.startAfter codec p.keyColumns p.keyPaths records after =
    .ok (before.length : Int)) {limit : Int} (hlimit : 0 < limit)
include h hsorted hlimit

include hrecords hstart in
theorem exists_cut : ∃ cut, Window.paginate codec p.keyColumns p.keyPaths records
    (.cursor after limit) = .ok cut ∧ Cuts codec p t before behind limit cut := by
  have perm := t.sorted_perm orders rows
  obtain ⟨edges, hedges⟩ :=
    h.exists_edges codec (fun r hr => perm.mem_iff.1 hr) hrecords
  have nodes := mapM_drop_take hrecords before.length limit.toNat
  rw [hsorted, List.drop_left] at nodes
  have cut := mapM_drop_take hedges before.length limit.toNat
  have length : (records.length : Int) = before.length + behind.length := by
    rw [length_of_mapM hrecords, hsorted, List.length_append]
    rfl
  refine ⟨⟨(edges.drop before.length).take limit.toNat, 0 < (before.length : Int),
    (before.length : Int) + limit < records.length, none⟩, ?_, ?_, ⟨?_, rfl⟩, ?_, ?_⟩
  · unfold Window.paginate
    rw [hedges]
    show (Window.startAfter _ _ _ _ _ >>= _) = _
    rw [hstart]
    show Except.ok (Connection.mk (Window.slice _ _ edges) _ _ _) = _
    rw [Window.slice_eq (Int.natCast_nonneg _) hlimit.le]
    rfl
  · rw [nodes]
    exact congrArg Except.ok (Edge.nodes_ofRecords cut).symm
  · exact (congrArg (Edge.ofRecords codec p.keyColumns) (Edge.nodes_ofRecords cut)).trans cut
  · rw [length, Bool.eq_iff_iff, decide_eq_true_iff, Bool.not_eq_true', List.isEmpty_eq_false_iff,
      Ne, List.drop_eq_nil_iff]
    omega
  · rw [Bool.eq_iff_iff, decide_eq_true_iff, Bool.not_eq_true', List.isEmpty_eq_false_iff,
      ← List.length_pos_iff]
    omega

/-- Where rows keep their places, a page of the table is that of the list. -/
theorem eq_of_shows (hm : t.matching condition = .ok rows)
    (hplace : ∀ r ∈ rows, t.KeepsPlace orders rows r) (hafter : after.isSome = !before.isEmpty)
    {page cut : Connection}
    (shows : Shows codec p t orders rows after (behind.take limit.toNat) page)
    (cuts : Cuts codec p t before behind limit cut) : page = cut := by
  have perm := t.sorted_perm orders rows
  have parts := (List.take_append_drop limit.toNat behind).symm
  have nodes : page.nodes = cut.nodes := Except.ok.inj (shows.nodes.symm.trans cuts.nodes)
  have edges : page.edges = cut.edges :=
    Except.ok.inj (shows.edges.1.symm.trans ((congrArg _ nodes).trans cuts.edges.1))
  have flags : page.hasNext = cut.hasNext ∧ page.hasPrevious = cut.hasPrevious := by
    rw [cuts.next, cuts.previous]
    by_cases hnone : behind.take limit.toNat = []
    · obtain ⟨next, previous⟩ := shows.empty hnone
      obtain rfl : behind = [] := by
        rcases List.take_eq_nil_iff.1 hnone with hzero | hnil
        · omega
        · exact hnil
      rw [next, previous, hafter, List.drop_nil]
      exact ⟨rfl, rfl⟩
    · obtain ⟨front, hfront⟩ : ∃ r, (behind.take limit.toNat).head? = some r :=
        ⟨_, List.head?_eq_some_head hnone⟩
      obtain ⟨last, hlast⟩ : ∃ r, (behind.take limit.toNat).getLast? = some r :=
        ⟨_, List.getLast?_eq_some_getLast hnone⟩
      have head : behind.head? = some front := by
        rw [parts, List.head?_append, hfront]
        rfl
      rw [shows.next last hlast, shows.previous front hfront,
        ← Table.isEmpty_beyond_perm perm,
        h.beyond_last hm hplace (hsorted.trans (congrArg (before ++ ·) parts)) hlast,
        h.isEmpty_before hm hplace hsorted head]
      exact ⟨rfl, rfl⟩
  have count : page.count = cut.count := shows.edges.2.trans cuts.edges.2.symm
  obtain ⟨_, _, _, _⟩ := page
  obtain ⟨_, _, _, _⟩ := cut
  simp only [Connection.mk.injEq]
  exact ⟨edges, flags.2, flags.1, count⟩

end Walkable

/-- No cursor, or the one of a row. -/
def Sent (codec : Codec) (p : Projection) (t : Table) (rows : List Row)
    (after : Option String) : Prop :=
  ∀ cursor, after = some cursor → ∃ r ∈ rows, CursorOf codec p t r cursor

namespace Walkable

variable {codec : Codec} {s : Store} {p : Projection} {enumerations : List Enumeration}
  {t : Table} {orders given : List Order} {rows : List Row} {condition : Predicate Value}
  (h : Walkable p enumerations t orders rows) (hm : t.matching condition = .ok rows)
  (ht : s.table p.name = .ok t) (horders : Order.withKey given p.entity.primaryKey = orders)
  {records : List Record} (hrecords : (t.sorted orders rows).mapM t.read = .ok records)
include h hm ht horders hrecords

/-- Pages agree where the rows keep their places. -/
theorem agrees_of_keepsPlace (hplace : ∀ r ∈ rows, t.KeepsPlace orders rows r)
    {after : Option String} (hsent : Sent codec p t rows after) {limit : Int}
    (hlimit : 0 < limit) : Agrees codec s p condition given records (.cursor after limit) := by
  obtain ⟨before, behind, hsorted, hstart, hs, hafter⟩ : ∃ before behind,
      t.sorted orders rows = before ++ behind ∧
      Window.startAfter codec p.keyColumns p.keyPaths records after =
        .ok (before.length : Int) ∧
      StartsAt codec p t orders rows after behind ∧ after.isSome = !before.isEmpty := by
    cases after with
    | none => exact ⟨[], t.sorted orders rows, rfl, rfl, .first, rfl⟩
    | some cursor =>
      have perm := t.sorted_perm orders rows
      obtain ⟨r, hr, hcursor⟩ := hsent cursor rfl
      obtain ⟨front, behind, split⟩ := List.append_of_mem (perm.mem_iff.2 hr)
      have ascends := h.ascends hm
      have place := (hplace r hr).perm perm.symm
      have starts : StartsAt codec p t orders rows (some cursor) _ := .behind hr hcursor
      rw [split] at ascends place starts
      rw [place.beyond_eq ascends] at starts
      refine ⟨front ++ [r], behind, by rw [split, List.append_assoc]; rfl,
        h.startAfter_eq hrecords hm split hcursor, starts, ?_⟩
      rw [List.isEmpty_eq_false_iff.2 (List.append_ne_nil_of_right_ne_nil front
        (List.cons_ne_nil r []))]
      rfl
  intro n
  obtain ⟨page, m, hrun, shows⟩ := h.exists_page hm ht horders hs hlimit n
  obtain ⟨cut, hcut, cuts⟩ := h.exists_cut hrecords hsorted hstart hlimit
  rw [hrun, hcut, ← h.eq_of_shows hsorted hlimit hm hplace hafter shows cuts]
  rfl

variable (hagrees : ∀ after limit, Sent codec p t rows after → 0 < limit →
  Agrees codec s p condition given records (.cursor after limit))
include hagrees

/-- A page that agrees is one page. -/
theorem exists_common {after : Option String} (hsent : Sent codec p t rows after)
    {start before behind : List Row} (hs : StartsAt codec p t orders rows after start)
    (hsorted : t.sorted orders rows = before ++ behind)
    (hstart : Window.startAfter codec p.keyColumns p.keyPaths records after =
      .ok (before.length : Int)) {limit : Int} (hlimit : 0 < limit) :
    ∃ page, Shows codec p t orders rows after (start.take limit.toNat) page ∧
      Cuts codec p t before behind limit page := by
  obtain ⟨page, m, hrun, shows⟩ := h.exists_page hm ht horders hs hlimit 0
  obtain ⟨cut, hcut, cuts⟩ := h.exists_cut hrecords hsorted hstart hlimit
  have agree := hagrees after limit hsent hlimit 0
  rw [hrun, hcut] at agree
  obtain rfl : page = cut := Except.ok.inj agree
  exact ⟨page, shows, cuts⟩

/-- Where pages agree, the rows beyond a row are those behind it. -/
theorem beyond_of_agrees {before behind : List Row} {r : Row}
    (split : t.sorted orders rows = before ++ r :: behind) :
    t.beyond orders r true (t.sorted orders rows) = behind := by
  have perm := t.sorted_perm orders rows
  have hr : r ∈ rows := perm.mem_iff.1 (by rw [split]; simp)
  obtain ⟨record, hread⟩ := h.read r hr
  obtain ⟨cursor, hcursor, -⟩ := h.exists_cursor hr hread codec
  have hof : CursorOf codec p t r cursor := ⟨record, hread, hcursor⟩
  have hsent : Sent codec p t rows (some cursor) := by
    rintro _ ⟨⟩
    exact ⟨r, hr, hof⟩
  have hsorted : t.sorted orders rows = (before ++ [r]) ++ behind := by
    rw [split, List.append_assoc]
    rfl
  have longer : 0 < ((t.sorted orders rows).length : Int) + 1 := by omega
  obtain ⟨page, shows, cuts⟩ := h.exists_common hm ht horders hrecords hagrees hsent
    (.behind hr hof) hsorted (h.startAfter_eq hrecords hm split hof) longer
  have within : (t.beyond orders r true (t.sorted orders rows)).Sublist (t.sorted orders rows) :=
    List.filter_sublist
  have suffix : behind.Sublist (t.sorted orders rows) := by
    rw [hsorted]
    exact List.sublist_append_right _ _
  have most : (((t.sorted orders rows).length : Int) + 1).toNat =
      (t.sorted orders rows).length + 1 := by omega
  have beyond := shows.nodes
  have rest := cuts.nodes
  rw [most, List.take_of_length_le (Nat.le_succ_of_le within.length_le)] at beyond
  rw [most, List.take_of_length_le (Nat.le_succ_of_le suffix.length_le)] at rest
  exact h.eq_of_mapM_read (fun x hx => perm.mem_iff.1 (within.mem hx))
    (fun x hx => perm.mem_iff.1 (suffix.mem hx)) beyond rest

/-- Where pages agree, there are rows before a row if there are any in front of it. -/
theorem before_of_agrees {before behind : List Row} {r : Row}
    (split : t.sorted orders rows = before ++ r :: behind) :
    (t.beyond orders r false rows).isEmpty = before.isEmpty := by
  have perm := t.sorted_perm orders rows
  obtain ⟨after, hsent, hs, hstart⟩ : ∃ after, Sent codec p t rows after ∧
      StartsAt codec p t orders rows after (r :: behind) ∧
      Window.startAfter codec p.keyColumns p.keyPaths records after =
        .ok (before.length : Int) := by
    rcases List.eq_nil_or_concat before with rfl | ⟨front, q, rfl⟩
    · refine ⟨none, by rintro _ ⟨⟩, ?_, rfl⟩
      rw [List.nil_append] at split
      exact split ▸ StartsAt.first
    · rw [List.concat_eq_append, List.append_assoc] at split
      have hq : q ∈ rows := perm.mem_iff.1 (by rw [split]; simp)
      obtain ⟨record, hread⟩ := h.read q hq
      obtain ⟨cursor, hcursor, -⟩ := h.exists_cursor hq hread codec
      have hof : CursorOf codec p t q cursor := ⟨record, hread, hcursor⟩
      have starts : StartsAt codec p t orders rows (some cursor) _ := .behind hq hof
      rw [h.beyond_of_agrees hm ht horders hrecords hagrees split] at starts
      refine ⟨some cursor, ?_, starts, ?_⟩
      · rintro _ ⟨⟩
        exact ⟨q, hq, hof⟩
      · rw [List.concat_eq_append]
        exact h.startAfter_eq hrecords hm split hof
  obtain ⟨page, shows, cuts⟩ := h.exists_common hm ht horders hrecords hagrees hsent hs split
    hstart Int.one_pos
  exact Bool.not_inj ((shows.previous r rfl).symm.trans cuts.previous)

/-- Rows keep their places where pages agree. -/
theorem keepsPlace_of_agrees : ∀ r ∈ rows, t.KeepsPlace orders rows r := by
  intro r hr
  have perm := t.sorted_perm orders rows
  obtain ⟨before, behind, split⟩ := List.append_of_mem (perm.mem_iff.2 hr)
  have follow := h.beyond_of_agrees hm ht horders hrecords hagrees split
  have precede := h.before_of_agrees hm ht horders hrecords hagrees split
  rw [← Table.isEmpty_beyond_perm perm] at precede
  exact ((h.ascends hm).keepsPlace split follow precede).perm perm

end Walkable

end TableGraph
