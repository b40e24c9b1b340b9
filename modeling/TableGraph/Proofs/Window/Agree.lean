import TableGraph.Proofs.Window.Behind
import TableGraph.Sample.Notes

/-!
# Pages of a table and of a list agree

Main statement: `pages_agree_iff`.  Pages that are read from a table are those that are cut out of
its rows, in every mode; behind cursors, exactly if the rows keep their places.
-/

namespace TableGraph

section Agree

variable (codec : Codec) {s : Store} {p : Projection} {enumerations : List Enumeration} {t : Table}
  {rows : List Row} {condition : Predicate Value} (ht : s.table p.name = .ok t)
  (hkeeps : t.Keeps enumerations p.entity) (hkeys : t.DistinctKeys t.rows)
  (hm : t.matching condition = .ok rows)
  (hcarries : ∀ r ∈ rows, ∀ c ∈ p.entity.keyColumns, Key.Carries c.type (r.get c.name))
include hm

/-- All rows of a condition are selected if they can be read, sorted. -/
theorem select_all_iff {orders : List Order} {records : List Record} :
    t.select condition orders none 0 = .ok records ↔
      (t.sorted orders rows).mapM t.read = .ok records := by
  rw [Table.select_eq_ok]
  constructor
  · rintro ⟨rows', hm', hread⟩
    obtain rfl : rows = rows' := Except.ok.inj (hm.symm.trans hm')
    exact hread
  · exact fun hread => ⟨rows, hm, hread⟩

theorem exists_read {orders : List Order} {records : List Record}
    (h : t.select condition orders none 0 = .ok records) {r : Row} (hr : r ∈ rows) :
    ∃ record, t.read r = .ok record := by
  obtain ⟨record, -, hrecord⟩ := exists_of_mem_mapM ((select_all_iff hm).1 h)
    ((t.sorted_perm orders rows).mem_iff.2 hr)
  exact ⟨record, hrecord⟩

theorem exists_selected (hread : ∀ r ∈ rows, ∃ record, t.read r = .ok record)
    (orders : List Order) : ∃ records, t.select condition orders none 0 = .ok records := by
  obtain ⟨records, hrecords⟩ := mapM_of_forall fun r hr =>
    hread r ((t.sorted_perm orders rows).mem_iff.1 hr)
  exact ⟨records, (select_all_iff hm).2 hrecords⟩

include ht hkeeps hkeys hcarries

/--
Let all rows of a condition be read in an order.  Then the pages of the table that start at a place
are those that are cut out of these rows.  In an order that the key completes, so are the pages
behind cursors of the rows, exactly if every row keeps its place; a row does if its cells are
restored.
-/
theorem pages_agree_iff :
    (∀ (orders : List Order) (records : List Record) (request : PageRequest),
      t.select condition orders none 0 = .ok records → request.isCursor = false →
      request.Bounded → Query.Agrees codec s p condition orders records request) ∧
    ∀ (given : List Order) (records : List Record),
      (∀ o ∈ given, ∃ c ∈ p.entity.columns, c.name = o.column ∧ c.type.isOrderable ∧
        SqlType.ofColumnType enumerations c.type ≠ .boolean) →
      (∀ r ∈ rows, ∀ o ∈ given, (r.get o.column).isNull = false ∧ (r.get o.column).IsKept) →
      t.select condition (Order.withKey given p.entity.primaryKey) none 0 = .ok records →
      ((∀ after limit, Sent codec p t rows after → 0 < limit →
          Query.Agrees codec s p condition given records (.cursor after limit)) ↔
        ∀ r ∈ rows, t.KeepsPlace (Order.withKey given p.entity.primaryKey) rows r) ∧
      ∀ r ∈ rows, (∀ o ∈ given, ∃ type, t.typeOf o.column = .ok type ∧
          type.restored (r.get o.column) = r.get o.column) →
        t.KeepsPlace (Order.withKey given p.entity.primaryKey) rows r := by
  refine ⟨fun orders records request hselect hcounted hbounded => ?_,
    fun given records hcolumns hheld hselect => ?_⟩
  · have hrecords := (select_all_iff hm).1 hselect
    -- Every row has a cursor: for that the order does not matter.
    have h : Walkable p enumerations t (Order.withKey [] p.entity.primaryKey) rows :=
      Walkable.of_columns hkeeps hkeys (Table.among_of_matching hm)
        (fun _ => exists_read hm hselect) hcarries nofun fun _ _ => nofun
    obtain ⟨edges, hedges⟩ := h.exists_edges codec
      (fun r hr => (t.sorted_perm orders rows).mem_iff.1 hr) hrecords
    exact Query.agrees_of_counted ht hselect hedges hcounted hbounded
  · have hrecords := (select_all_iff hm).1 hselect
    have h := Walkable.of_columns hkeeps hkeys (Table.among_of_matching hm)
      (fun _ => exists_read hm hselect) hcarries hcolumns hheld
    refine ⟨⟨fun hagrees => ?_, fun hplace after limit hsent hlimit => ?_⟩,
      fun r hr hcells => h.keepsPlace_of_cells hr hcells⟩
    · exact h.keepsPlace_of_agrees hm ht rfl hrecords hagrees
    · exact h.agrees_of_keepsPlace hm ht rfl hrecords hplace hsent hlimit

end Agree

section Notes

open Sample.Notes

/-- Prices can be ordered by. -/
theorem price_orderable : ∀ o ∈ [Order.mk "price" false], ∃ c ∈ entity.columns,
    c.name = o.column ∧ c.type.isOrderable ∧ SqlType.ofColumnType [] c.type ≠ .boolean := by
  intro o ho
  rw [List.mem_singleton.1 ho]
  exact ⟨Sample.column "price" (.plain .decimal), by decide, rfl, rfl, nofun⟩

/-- Two notes with whole prices are on the same pages in the table and in the list of them. -/
theorem pages_agree_iff_notes : ∃ records,
    (table [note 1 1 (.int 7), note 2 1 (.int 5)]).select .always
        (Order.withKey [⟨"price", false⟩] entity.primaryKey) none 0 = .ok records ∧
      ∀ limit, 0 < limit → Query.Agrees environment.schema.codec
        (store [note 1 1 (.int 7), note 2 1 (.int 5)]) projection .always [⟨"price", false⟩]
        records (.cursor none limit) := by
  obtain ⟨records, hselect⟩ := exists_selected
    (matching_notes [note 1 1 (.int 7), note 2 1 (.int 5)]) (by
      rw [List.forall_mem_cons, List.forall_mem_singleton]
      exact ⟨⟨_, rfl⟩, ⟨_, rfl⟩⟩) (Order.withKey [⟨"price", false⟩] entity.primaryKey)
  refine ⟨records, hselect, fun limit hlimit => ?_⟩
  refine ((pages_agree_iff environment.schema.codec (p := projection) rfl
    (Table.keeps_ofEntity [] entity _) ?_ (matching_notes _) ?_).2 _ records price_orderable ?_
    hselect).1.2 ?_ none limit (by rintro _ ⟨⟩) hlimit
  · unfold Table.DistinctKeys
    refine List.pairwise_pair.2 ?_
    decide
  · rw [List.forall_mem_cons, List.forall_mem_singleton]
    exact ⟨carries_note (by decide) (by decide), carries_note (by decide) (by decide)⟩
  · refine List.forall_mem_cons.2 ⟨held_note rfl ?_, List.forall_mem_singleton.2 (held_note rfl ?_)⟩
    · exact (show Cell.holds 7 = true from rfl)
    · exact (show Cell.holds 5 = true from rfl)
  · unfold Table.KeepsPlace
    decide +kernel

/-- Behind its own cursor the list has no note, and the table has a note whose price has more
places than are read of it. -/
theorem pages_agree_lossy : ∃ records,
    (table [note 1 1 (.real (.ofScientific false 12345678901 (-11)))]).select .always
        (Order.withKey [⟨"price", false⟩] entity.primaryKey) none 0 = .ok records ∧
      ¬ ∀ after limit, Sent environment.schema.codec projection
          (table [note 1 1 (.real (.ofScientific false 12345678901 (-11)))])
          [note 1 1 (.real (.ofScientific false 12345678901 (-11)))] after → 0 < limit →
        Query.Agrees environment.schema.codec
          (store [note 1 1 (.real (.ofScientific false 12345678901 (-11)))]) projection .always
          [⟨"price", false⟩] records (.cursor after limit) := by
  obtain ⟨records, hselect⟩ := exists_selected
    (matching_notes [note 1 1 (.real (.ofScientific false 12345678901 (-11)))])
    (by
      rw [List.forall_mem_singleton]
      exact ⟨_, rfl⟩) (Order.withKey [⟨"price", false⟩] entity.primaryKey)
  refine ⟨records, hselect, fun hagrees => ?_⟩
  have h : Walkable projection [] (table [note 1 1 (.real (.ofScientific false 12345678901 (-11)))])
      (Order.withKey [⟨"price", false⟩] entity.primaryKey)
      [note 1 1 (.real (.ofScientific false 12345678901 (-11)))] := by
    refine Walkable.of_columns (Table.keeps_ofEntity _ _ _) (List.pairwise_singleton _ _)
      (Table.among_of_matching (matching_notes _)) (fun _ => exists_read (matching_notes _) hselect)
      ?_ price_orderable ?_
    · rw [List.forall_mem_singleton]
      exact carries_note (by decide) (by decide)
    · rw [List.forall_mem_singleton]
      exact held_note rfl (SqlType.ofScientific_ne_nan _ _ _)
  have place := h.keepsPlace_of_agrees (matching_notes _) rfl rfl
    ((select_all_iff (matching_notes _)).1 hselect) hagrees _ (List.mem_singleton_self _)
  revert place
  unfold Table.KeepsPlace
  decide +kernel

end Notes

end TableGraph
