import TableGraph.Proofs.Walk.Anchor
import TableGraph.Sample.Registered

/-!
# What a page tells of the rows behind it

Main statement: `Query.hasNext_iff`.  A page behind a cursor tells whether rows pass its last row;
if that row has a null where it is ordered by, the page tells whether it is full.  Rows that come
after the last row but differ from it first by a null do not pass it, so that a page may have rows
behind it that it does not tell of.
-/

namespace TableGraph

/-! ## Passing a row and coming after it -/

namespace Keyset

variable {os : List Order} {x x' r : Row}

/-- The row has a null in the first column in which it differs from another. -/
def DiffersByNull : List Order → Row → Row → Prop
  | [], _, _ => False
  | o :: os, x, r =>
    Table.compareBy o x r ≠ .eq ∧ (r.get o.column).isNull = true ∨
      Table.compareBy o x r = .eq ∧ DiffersByNull os x r

theorem passes_congr (h : ∀ o ∈ os, x.get o.column = x'.get o.column) (forward : Bool) :
    Passes forward os x r ↔ Passes forward os x' r := by
  induction os with
  | nil => rfl
  | cons o os ih =>
    rw [List.forall_mem_cons] at h
    unfold Passes
    rw [h.1, ih h.2]

/-- Rows come after a row without nulls by passing it, or by a null. -/
theorem passes_iff_of_notNull (hx : ∀ o ∈ os, (x.get o.column).isNull = false) :
    Passes true os x r ↔ Table.compareRows os x r = .lt ∧ ¬ DiffersByNull os x r := by
  induction os with
  | nil => exact ⟨False.elim, nofun⟩
  | cons o os ih =>
    rw [List.forall_mem_cons] at hx
    unfold Passes DiffersByNull
    rw [ih hx.2, Table.compareRows_cons]
    cases hr : (r.get o.column).isNull with
    | false =>
      have side : Table.side true = .lt := rfl
      rw [compared_further_iff hx.1 hr, compared_eq_iff hx.1 hr, side]
      cases Table.compareBy o x r <;> simp
    | true =>
      have other : Table.compareBy o x r ≠ .eq := by
        intro heq
        have same : (r.get o.column).order (x.get o.column) = .eq := by
          unfold Table.compareBy at heq
          split_ifs at heq
          · exact heq
          · exact Cell.order_eq_symm heq
        have present := hx.1
        cases hrc : r.get o.column <;> rw [hrc] at hr same <;> cases hr
        cases hxc : x.get o.column <;> rw [hxc] at present same <;> cases present <;> cases same
      have unknown (k : Comparison) :
          Test.compared k (r.get o.column) (x.get o.column) ≠ some true := by
        intro h
        rw [Test.compared_eq_true, hr] at h
        cases h.1
      simp only [unknown, false_and, or_self, ne_eq, other, not_false_eq_true, true_and, or_false,
        not_true_eq_false, and_false]

theorem not_differsByNull (hr : ∀ o ∈ os, (r.get o.column).isNull = false) :
    ¬ DiffersByNull os x r := by
  induction os with
  | nil => exact id
  | cons o os ih =>
    rw [List.forall_mem_cons] at hr
    rintro (⟨-, hnull⟩ | ⟨-, hrest⟩)
    · rw [hr.1] at hnull
      cases hnull
    · exact ih hr.2 hrest

end Keyset

namespace Table

variable {t : Table} {L : Row} {record : Record} {os : List Order}

theorem get_restored {column : String} {type : SqlType} (h : t.typeOf column = .ok type) (r : Row) :
    (t.restored r).get column = type.restored (r.get column) := by
  unfold typeOf at h
  unfold restored Row.get
  generalize t.columns = columns at h
  induction columns with
  | nil => cases h
  | cons c cs ih =>
    rw [List.map_cons, List.lookup_cons]
    rw [List.find?_cons] at h
    by_cases hname : c.name = column
    · subst hname
      rw [decide_eq_true rfl] at h
      cases h
      rw [beq_self_eq_true]
      rfl
    · rw [decide_eq_false hname] at h
      rw [beq_false_of_ne (Ne.symm hname)]
      exact ih h

/-- What is read of nothing is null. -/
theorem isNull_of_read (h : t.read L = .ok record) {column : String}
    (hnull : (L.get column).isNull = true) : (record.get column).isNull = true := by
  unfold Table.read at h
  have items := mapM_eq_ok.1 h
  clear h
  unfold Record.get
  generalize t.columns = columns at items
  induction items with
  | nil => rfl
  | @cons d entry columns record hd _ ih =>
    obtain ⟨v, hv, hentry⟩ := bind_eq_ok.1 hd
    cases hentry
    rw [List.lookup_cons]
    by_cases hname : d.name = column
    · subst hname
      have none : L.get d.name = .null := by
        cases hcell : L.get d.name <;> rw [hcell] at hnull <;> first | rfl | cases hnull
      rw [none] at hv
      rw [beq_self_eq_true]
      unfold SqlType.read at hv
      cases hv
      rfl
    · rw [beq_false_of_ne (Ne.symm hname)]
      exact ih

/-- A condition behind a row accepts the rows that pass what the row is compared as. -/
theorem accepts_condition (hread : t.read L = .ok record) {e : Entity} {forward : Bool}
    {beyond : Predicate Value} {q : Predicate Cell}
    (hbeyond : Keyset.condition e os record forward = .ok beyond) (hq : t.bind beyond = .ok q)
    (r : Row) : t.Accepts beyond r ↔ Keyset.Passes forward os (t.restored L) r := by
  obtain ⟨given, bound⟩ := Keyset.binds_of_condition (t := t) hbeyond
  have binds : ∀ o ∈ os, t.Binds record (t.restored L) o.column := by
    intro o ho
    obtain ⟨type, y, htype, hy⟩ := bound q hq o ho
    refine ⟨(given o ho).2, type, y, htype, hy, ?_⟩
    rw [get_restored htype, SqlType.restored_eq (read_of_typeOf hread htype) hy rfl]
  obtain ⟨beyond', hbeyond', -, accepts⟩ :=
    Keyset.exists_condition binds (fun o ho => (given o ho).1) forward
  rw [hbeyond, Except.ok.injEq] at hbeyond'
  subst hbeyond'
  exact accepts r

end Table

namespace Query

variable {codec : Codec} {s : Store} {p : Projection} {t : Table} {condition : Predicate Value}
  {orders given : List Order} {after : Option String} {limit : Int} {n m : Nat} {L : Row}
  {record : Record} {page : Connection}

/-- The row has a null where it is ordered by. -/
def HasNull (orders : List Order) (record : Record) : Prop :=
  ∃ o ∈ orders, (record.get o.column).isNull = true

/-- A row that the condition holds of comes after the given one. -/
def IsFollowed (t : Table) (condition : Predicate Value) (orders : List Order) (L : Row) : Prop :=
  ∃ r ∈ t.rows, t.Accepts condition r ∧ Table.compareRows orders L r = .lt

/-- A row that the condition holds of passes what the given one is compared as. -/
def IsPassed (t : Table) (condition : Predicate Value) (orders : List Order) (L : Row) : Prop :=
  ∃ r ∈ t.rows, t.Accepts condition r ∧ Keyset.Passes true orders (t.restored L) r

/-- The rows that a page shows. -/
def Selected (codec : Codec) (s : Store) (p : Projection) (t : Table) (condition : Predicate Value)
    (orders : List Order) (after : Option String) (limit : Int) (n : Nat)
    (shown : List Row) : Prop :=
  ∃ narrowed m candidates,
    (behind codec s p condition orders (after.filter (!·.isEmpty))).run n = .ok (narrowed, m) ∧
      t.matching narrowed = .ok candidates ∧
      shown = Table.window (some limit) 0 (t.sorted orders candidates)

/-- A page that is returned is made of selected rows. -/
theorem exists_selected_of_run (ht : s.table p.name = .ok t)
    (h : (connection codec s p condition given (.cursor after limit)).run n = .ok (page, m)) :
    ∃ narrowed k candidates records,
      (behind codec s p condition (Order.withKey given p.entity.primaryKey)
        (after.filter (!·.isEmpty))).run n = .ok (narrowed, k) ∧
      t.matching narrowed = .ok candidates ∧
      (Table.window (some limit) 0 (t.sorted (Order.withKey given p.entity.primaryKey)
        candidates)).mapM t.read = .ok records ∧
      (around codec s p condition (Order.withKey given p.entity.primaryKey) after limit records).run
        (k + 1) = .ok (page, m) := by
  obtain ⟨narrowed, k, hbehind, h⟩ := Counted.run_bind_eq_ok.1 h
  obtain ⟨records, k', hasked, haround⟩ := Counted.run_bind_eq_ok.1 h
  obtain ⟨t', ht', hselect, rfl⟩ := Store.run_ask_eq_ok.1 hasked
  rw [ht, Except.ok.injEq] at ht'
  subst ht'
  obtain ⟨candidates, hmatching, hrecords⟩ := Table.select_eq_ok.1 hselect
  exact ⟨narrowed, k, candidates, records, hbehind, hmatching, hrecords, haround⟩

/-- A look behind a row tells whether any rows pass it, unless it has a null. -/
theorem next_of_reaches (ht : s.table p.name = .ok t) (hread : t.read L = .ok record)
    {next : Option Bool} (h : (reaches s p condition orders record true).run n = .ok (next, m)) :
    (HasNull orders record ∧ next = none) ∨
      ¬ HasNull orders record ∧ ∃ b, next = some b ∧
        (b = true ↔ IsPassed t condition orders L) := by
  unfold reaches at h
  have hasNull : (orders.any fun o => (record.get o.column).isNull) = true ↔
      HasNull orders record := List.any_eq_true
  split_ifs at h with hany
  · cases h
    exact .inl ⟨hasNull.1 hany, rfl⟩
  · refine .inr ⟨fun hnull => hany (hasNull.2 hnull), ?_⟩
    obtain ⟨beyond, k, hbeyond, h⟩ := Counted.run_bind_eq_ok.1 h
    obtain ⟨hbeyond, -⟩ := Counted.run_lift_eq_ok.1 hbeyond
    obtain ⟨found, k', hasked, h⟩ := Counted.run_bind_eq_ok.1 h
    obtain ⟨t', ht', hfound, -⟩ := Store.run_ask_eq_ok.1 hasked
    rw [ht, Except.ok.injEq] at ht'
    subst ht'
    obtain ⟨rows, hrows, hfound⟩ := bind_eq_ok.1 hfound
    cases h
    refine ⟨_, rfl, ?_⟩
    have length : found.length = min 1 rows.length := by
      rw [length_of_mapM hfound, List.length_take, (t.sorted_perm [] _).length_eq]
    have some : (!found.isEmpty) = true ↔ ∃ r, r ∈ rows := by
      rw [Bool.not_eq_true', List.isEmpty_eq_false_iff, ← List.length_pos_iff,
        ← List.length_pos_iff_exists_mem]
      omega
    obtain ⟨q, hq, -⟩ := Table.matching_eq_ok.1 hrows
    obtain ⟨qs, hqs⟩ := Predicate.exists_of_mapM_allOf hq
    obtain ⟨q', -, hq'⟩ := exists_of_mem_mapM hqs (List.mem_cons_of_mem _ List.mem_cons_self)
    rw [some]
    refine exists_congr fun r => ?_
    rw [Table.mem_matching hrows, Table.accepts_allOf, List.forall_mem_cons,
      List.forall_mem_singleton, Table.accepts_condition hread hbeyond hq']

/-- The flag of a page around rows is what the look behind the last of them tells. -/
theorem hasNext_of_around (ht : s.table p.name = .ok t) {shown : List Row} {records : List Record}
    (hrecords : shown.mapM t.read = .ok records)
    (h : (around codec s p condition orders after limit records).run n = .ok (page, m))
    (hsome : page.edges ≠ []) : page.nodes = records ∧ ∃ L record, shown.getLast? = some L ∧
      t.read L = .ok record ∧
      (HasNull orders record → (page.hasNext = true ↔ (shown.length : Int) = limit)) ∧
      (¬ HasNull orders record → (page.hasNext = true ↔ IsPassed t condition orders L)) := by
  unfold around at h
  split at h
  next front last hfront hlast =>
    obtain ⟨next, k, hnext, h⟩ := Counted.run_bind_eq_ok.1 h
    obtain ⟨previous, k', -, h⟩ := Counted.run_bind_eq_ok.1 h
    obtain ⟨h, -⟩ := Counted.run_lift_eq_ok.1 h
    obtain ⟨edges, hedges, hpage⟩ := page_eq_ok.1 h
    have nodes := (nodes_page h).1
    subst hpage
    obtain ⟨L, hL, hread⟩ : ∃ L, shown.getLast? = some L ∧ t.read L = .ok last := by
      have items := List.forall₂_reverse_iff.2 (mapM_eq_ok.1 hrecords)
      rw [← List.head?_reverse] at hlast
      obtain ⟨rest, hrest⟩ := List.head?_eq_some_iff.1 hlast
      rw [hrest] at items
      obtain ⟨L, rest', hL, -, hreverse⟩ := List.forall₂_cons_right_iff.1 items
      exact ⟨L, by rw [← List.head?_reverse, hreverse]; rfl, hL⟩
    refine ⟨nodes, L, last, hL, hread, ?_⟩
    rcases next_of_reaches ht hread hnext with ⟨hnull, rfl⟩ | ⟨hnull, b, rfl, hb⟩
    · refine ⟨fun _ => ?_, fun h => absurd hnull h⟩
      rw [← length_of_mapM hrecords]
      exact decide_eq_true_iff
    · exact ⟨fun h => absurd h hnull, fun _ => hb⟩
  next hnone =>
    obtain ⟨h, -⟩ := Counted.run_lift_eq_ok.1 h
    obtain ⟨edges, hedges, hpage⟩ := page_eq_ok.1 h
    subst hpage
    cases hrows : records with
    | nil =>
      rw [hrows] at hedges
      cases hedges
      exact absurd rfl hsome
    | cons r rs =>
      rw [hrows] at hnone
      exact (hnone r _ rfl (List.getLast?_eq_some_getLast (List.cons_ne_nil r rs))).elim

/-- The rows that pass a row whose cells are restored come after it and do not differ from it first
by a null. -/
theorem isPassed_iff (hread : t.read L = .ok record) (hnull : ¬ HasNull orders record)
    (hcells : ∀ o ∈ orders, (t.restored L).get o.column = L.get o.column) :
    IsPassed t condition orders L ↔ ∃ r ∈ t.rows, t.Accepts condition r ∧
      Table.compareRows orders L r = .lt ∧ ¬ Keyset.DiffersByNull orders L r := by
  have present : ∀ o ∈ orders, (L.get o.column).isNull = false := by
    intro o ho
    rw [Bool.eq_false_iff]
    exact fun h => hnull ⟨o, ho, Table.isNull_of_read hread h⟩
  unfold IsPassed
  simp only [Keyset.passes_congr hcells, Keyset.passes_iff_of_notNull present]

/--
A page that shows rows tells whether rows pass the last of them, or whether it is full if that row
has a null where it is ordered by.  If the last row has no null there and its cells are restored,
the page tells whether rows come after it exactly if, of the rows that do, not all differ from it
first by a null; so it does if the condition holds of no row with a null.
-/
theorem hasNext_iff (ht : s.table p.name = .ok t)
    (horders : Order.withKey given p.entity.primaryKey = orders)
    (hrun : (connection codec s p condition given (.cursor after limit)).run n = .ok (page, m))
    (hsome : page.edges ≠ []) :
    ∃ shown L record, Selected codec s p t condition orders after limit n shown ∧
      shown.mapM t.read = .ok page.nodes ∧ shown.getLast? = some L ∧ t.read L = .ok record ∧
      (HasNull orders record → (page.hasNext = true ↔ (shown.length : Int) = limit)) ∧
      (¬ HasNull orders record → (page.hasNext = true ↔ IsPassed t condition orders L)) ∧
      (¬ HasNull orders record →
        (∀ o ∈ orders, (t.restored L).get o.column = L.get o.column) →
        ((page.hasNext = true ↔ IsFollowed t condition orders L) ↔
          (IsFollowed t condition orders L → ∃ r ∈ t.rows, t.Accepts condition r ∧
            Table.compareRows orders L r = .lt ∧ ¬ Keyset.DiffersByNull orders L r)) ∧
        ((∀ r ∈ t.rows, t.Accepts condition r → ∀ o ∈ orders, (r.get o.column).isNull = false) →
          (page.hasNext = true ↔ IsFollowed t condition orders L))) := by
  subst horders
  obtain ⟨narrowed, k, candidates, records, hbehind, hmatching, hrecords, haround⟩ :=
    exists_selected_of_run ht hrun
  obtain ⟨rfl, L, record, hlast, hread, hfull, hnext⟩ :=
    hasNext_of_around ht hrecords haround hsome
  refine ⟨_, L, record, ⟨narrowed, k, candidates, hbehind, hmatching, rfl⟩, hrecords, hlast, hread,
    hfull, hnext, fun hnull hcells => ?_⟩
  have passed := (hnext hnull).trans (isPassed_iff hread hnull hcells)
  have follows : (∃ r ∈ t.rows, t.Accepts condition r ∧
      Table.compareRows (Order.withKey given p.entity.primaryKey) L r = .lt ∧
        ¬ Keyset.DiffersByNull (Order.withKey given p.entity.primaryKey) L r) →
      IsFollowed t condition (Order.withKey given p.entity.primaryKey) L := by
    rintro ⟨r, hr, haccepts, hlt, -⟩
    exact ⟨r, hr, haccepts, hlt⟩
  rw [passed]
  refine ⟨⟨fun h => h.2, fun h => ⟨follows, h⟩⟩, fun hall => ⟨follows, ?_⟩⟩
  rintro ⟨r, hr, haccepts, hlt⟩
  exact ⟨r, hr, haccepts, hlt, Keyset.not_differsByNull (hall r hr haccepts)⟩

/-- The first page shows the first of the sorted rows. -/
theorem run_first_page (ht : s.table p.name = .ok t)
    (horders : Order.withKey given p.entity.primaryKey = orders) {records : List Record}
    (hselect : t.select condition orders (some limit) 0 = .ok records) :
    (connection codec s p condition given (.cursor none limit)).run n =
      (around codec s p condition orders none limit records).run (n + 1) := by
  subst horders
  exact Counted.run_bind_of_ok (Store.run_ask_eq_ok.2 ⟨t, ht, hselect, rfl⟩)

section Items

open Sample.Items

theorem matching_items (items : List Row) : (table items).matching .always = .ok items :=
  Table.matching_eq_ok.2 ⟨.always, rfl, List.filter_eq_self.2 fun _ _ => rfl⟩

/-- The first item in the descending order of the ranks. -/
def highest (items : List Row) : Except Fault (Connection × Nat) :=
  (connection ⟨[], false⟩ (store items) projection .always [⟨"rank", true⟩] (.cursor none 1)).run 0

/-- The page around the first item, unmarked and ranked fifth, among others. -/
def aroundFifth (items : List Row) : Except Fault (Connection × Nat) :=
  (around ⟨[], false⟩ (store items) projection .always [⟨"rank", true⟩, ⟨"id", false⟩] none 1
    [[("id", .int 1), ("rank", .int 5), ("mark", .bool false)]]).run 1

/-- Items in the descending order of their ranks, the first of them unmarked and ranked fifth. -/
structure Ranked (items : List Row) : Prop where
  front : items.head? = some (item 1 (.int 5) false)
  distinct : (table items).DistinctKeys items
  sorted : items.Pairwise fun a b =>
    Table.compareRows ((table items).fullOrder [⟨"rank", true⟩, ⟨"id", false⟩]) a b = .lt

theorem Ranked.highest_eq {items : List Row} (h : Ranked items) :
    highest items = aroundFifth items := by
  have orders : Order.withKey [⟨"rank", true⟩] projection.entity.primaryKey =
      [⟨"rank", true⟩, ⟨"id", false⟩] := rfl
  obtain ⟨rest, hrest⟩ := List.head?_eq_some_iff.1 h.front
  refine run_first_page rfl orders (Table.select_eq_ok.2 ⟨items, matching_items items, ?_⟩)
  rw [h.distinct.sorted_eq (List.Perm.refl _) h.sorted, hrest]
  rfl

theorem Ranked.exists_page {items : List Row} (h : Ranked items) (next : Bool)
    (told : ((aroundFifth items).toOption.any fun x => !x.1.edges.isEmpty && x.1.hasNext == next) =
      true) : ∃ page m, highest items = .ok (page, m) ∧ page.edges ≠ [] ∧ page.hasNext = next := by
  rw [h.highest_eq]
  cases hpage : aroundFifth items with
  | error e =>
    rw [hpage] at told
    cases told
  | ok x =>
    rw [hpage] at told
    obtain ⟨some, flag⟩ := (Bool.and_eq_true _ _).mp told
    refine ⟨x.1, x.2, rfl, fun hnil => ?_, beq_iff_eq.1 flag⟩
    rw [hnil] at some
    cases some

/-- An item without a rank comes behind the page, and the page does not tell of it. -/
theorem hasNext_unranked : ∃ page m,
    highest [item 1 (.int 5) false, item 2 .null false] = .ok (page, m) ∧ page.edges ≠ [] ∧
      page.hasNext = false ∧ IsFollowed (table [item 1 (.int 5) false, item 2 .null false]) .always
        [⟨"rank", true⟩, ⟨"id", false⟩] (item 1 (.int 5) false) := by
  have ranked : Ranked [item 1 (.int 5) false, item 2 .null false] :=
    ⟨rfl, List.pairwise_pair.2 (by decide), List.pairwise_pair.2 (by decide)⟩
  obtain ⟨page, m, hpage, some, flag⟩ := ranked.exists_page false (by decide +kernel)
  exact ⟨page, m, hpage, some, flag, item 2 .null false, by decide, ⟨.always, rfl, rfl⟩, by decide⟩

/-- The page tells of an item that comes behind it with a lower rank. -/
theorem hasNext_iff_items : ∃ page m,
    highest [item 1 (.int 5) false, item 3 (.int 4) true, item 2 .null false] = .ok (page, m) ∧
      page.edges ≠ [] ∧ page.hasNext = true ∧
      ∃ L record, (table [item 1 (.int 5) false, item 3 (.int 4) true,
          item 2 .null false]).read L = .ok record ∧
        (¬ HasNull [⟨"rank", true⟩, ⟨"id", false⟩] record →
          (page.hasNext = true ↔ IsPassed (table [item 1 (.int 5) false, item 3 (.int 4) true,
            item 2 .null false]) .always [⟨"rank", true⟩, ⟨"id", false⟩] L)) := by
  have ranked : Ranked [item 1 (.int 5) false, item 3 (.int 4) true, item 2 .null false] := by
    refine ⟨rfl, ?_, ?_⟩
    · unfold Table.DistinctKeys
      decide
    · decide
  obtain ⟨page, m, hpage, some, flag⟩ := ranked.exists_page true (by decide +kernel)
  obtain ⟨shown, L, record, -, -, -, hread, -, hpassed, -⟩ := hasNext_iff rfl rfl hpage some
  exact ⟨page, m, hpage, some, flag, L, record, hread, hpassed⟩

end Items

end Query

end TableGraph
