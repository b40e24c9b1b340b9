import TableGraph.Answer.Reading
import TableGraph.Proofs.EntityTable
import TableGraph.Proofs.Ignored.Rows
import TableGraph.Proofs.Orders

/-!
# Pages of rows that differ in one column

A page is read alike in two states of a store that differ in one column, provided that neither the
condition nor the order nor the key of the entity has that column.  Then the row a cursor stands for
is found in both states or in none, and what is looked for on either side of the page as well.
-/

namespace TableGraph

variable {spot : Spot} {name : String} {codec : Codec}

/-- Rows with one cursor that differ in one column at most. -/
def Edge.Alike (spot : Spot) (name : String) (e e' : Edge) : Prop :=
  e.cursor = e'.cursor ∧ e.node.Alike spot name e'.node

/-- Pages whose rows differ in one column at most. -/
structure Connection.Alike (spot : Spot) (name : String) (c c' : Connection) : Prop where
  edges : List.Forall₂ (Edge.Alike spot name) c.edges c'.edges
  hasPrevious : c.hasPrevious = c'.hasPrevious
  hasNext : c.hasNext = c'.hasNext
  count : c.count = c'.count

namespace Connection.Alike

variable {c c' : Connection} (h : c.Alike spot name c')
include h

theorem nodes : List.Forall₂ (Record.Alike spot name) c.nodes c'.nodes := by
  unfold Connection.nodes
  rw [List.forall₂_map_left_iff, List.forall₂_map_right_iff]
  exact h.edges.imp fun _ _ related => related.2

theorem startCursor : c.startCursor = c'.startCursor := by
  have front := Both.head? h.edges
  unfold Connection.startCursor
  generalize c.edges.head? = x, c'.edges.head? = y at front
  cases front with
  | none => rfl
  | some related => exact congrArg some related.1

theorem endCursor : c.endCursor = c'.endCursor := by
  have last := Both.getLast? h.edges
  unfold Connection.endCursor
  generalize c.edges.getLast? = x, c'.edges.getLast? = y at last
  cases last with
  | none => rfl
  | some related => exact congrArg some related.1

end Connection.Alike

/-! ## Cursors -/

/-- Rows that agree in the columns of the key have one cursor. -/
theorem Key.encode_alike {columns : List Column} (clear : ∀ c ∈ columns, spot.Clear name c.name)
    {r r' : Record} (alike : r.Alike spot name r') :
    Key.encode codec columns r = Key.encode codec columns r' := by
  unfold Key.encode
  rw [mapM_congr fun c hc => by rw [alike _ (clear c hc)]]

theorem Edge.ofRecords_alike {columns : List Column}
    (clear : ∀ c ∈ columns, spot.Clear name c.name) {rows rows' : List Record}
    (h : List.Forall₂ (Record.Alike spot name) rows rows') :
    Both (List.Forall₂ (Edge.Alike spot name)) (Edge.ofRecords codec columns rows)
      (Edge.ofRecords codec columns rows') := by
  refine Both.mapM h fun r r' alike => ?_
  rw [Key.encode_alike clear alike]
  exact (Both.refl (fun _ => rfl) _).bind fun cursor cursor' same => .ok ⟨same, alike⟩

/-! ## Keyset conditions -/

namespace Keyset

variable {e : Entity} {a a' : Record} {orders : List Order} {forward : Bool}

theorem checkAnchor_alike (clear : spot.ClearOrders name orders) (alike : a.Alike spot name a') :
    checkAnchor a orders = checkAnchor a' orders := by
  induction orders with
  | nil => rfl
  | cons o orders ih =>
    unfold checkAnchor
    rw [alike _ (clear o List.mem_cons_self), ih fun o ho => clear o (List.mem_cons_of_mem _ ho)]

theorem branches_alike {equal : List Order} (hequal : spot.ClearOrders name equal)
    (clear : spot.ClearOrders name orders) (alike : a.Alike spot name a') :
    branches e forward a equal orders = branches e forward a' equal orders := by
  induction orders generalizing equal with
  | nil => rfl
  | cons o orders ih =>
    have own := clear o List.mem_cons_self
    have levels : equal.map (level a) = equal.map (level a') :=
      List.map_congr_left fun o ho => by
        unfold level
        rw [alike _ (hequal o ho)]
    have further : step e forward a o = step e forward a' o := by
      unfold step
      rw [alike _ own]
    have more : spot.ClearOrders name (equal ++ [o]) :=
      List.forall_mem_append.2 ⟨hequal, List.forall_mem_singleton.2 own⟩
    unfold branches
    rw [further, levels, ih more fun o ho => clear o (List.mem_cons_of_mem _ ho)]

theorem over_of_branches {columns : String → Prop} {equal : List Order}
    (hequal : ∀ o ∈ equal, columns o.column) (horders : ∀ o ∈ orders, columns o.column)
    {ps : List (Predicate Value)} (h : branches e forward a equal orders = .ok ps) :
    List.Forall₂ (Predicate.Alike (fun c _ _ => columns c) fun e _ => ∀ c ∈ e.columns, columns c)
      ps ps := by
  induction orders generalizing equal ps with
  | nil =>
    cases h
    exact .nil
  | cons o orders ih =>
    have own := horders o List.mem_cons_self
    obtain ⟨further, hfurther, h⟩ := bind_eq_ok.1 h
    obtain ⟨rest, hrest, h⟩ := bind_eq_ok.1 h
    cases h
    have covered : further.Over columns := by
      unfold step at hfurther
      split_ifs at hfurther
      obtain ⟨t, -, hfurther⟩ := bind_eq_ok.1 hfurther
      cases hfurther
      exact .test own
    refine .cons (Predicate.Alike.allOf ?_) (ih ?_ (fun o ho =>
      horders o (List.mem_cons_of_mem _ ho)) hrest)
    · refine List.rel_append ?_ (.cons covered .nil)
      rw [List.forall₂_map_left_iff, List.forall₂_map_right_iff, List.forall₂_same]
      exact fun o ho => .test (hequal o ho)
    · exact List.forall_mem_append.2 ⟨hequal, List.forall_mem_singleton.2 own⟩

/-- A keyset condition tests the columns that rows are ordered by. -/
theorem condition_both (clear : spot.ClearOrders name orders) (alike : a.Alike spot name a') :
    Both (fun q q' => q = q' ∧ q.Over (spot.Clear name)) (condition e orders a forward)
      (condition e orders a' forward) := by
  unfold condition
  rw [← branches_alike Spot.clearOrders_nil clear alike]
  cases hps : branches e forward a [] orders with
  | error f => exact .error f
  | ok ps => exact .ok ⟨rfl, Predicate.Alike.anyOf (over_of_branches nofun clear hps)⟩

end Keyset

/-! ## Pages of an entity -/

namespace Query

variable {s s' : Store} {p : Projection} {condition : Predicate Value} {orders : List Order}

theorem over_isAt {columns : String → Prop} {key : Record} (h : ∀ x ∈ key, columns x.1) :
    (isAt key).Over columns := by
  refine Predicate.Alike.allOf ?_
  rw [List.forall₂_map_left_iff, List.forall₂_map_right_iff, List.forall₂_same]
  exact fun x hx => .test (h x hx)

theorem over_allOf_pair {columns : String → Prop} {q q' : Predicate Value} (hq : q.Over columns)
    (hq' : q'.Over columns) : (Predicate.allOf [q, q']).Over columns :=
  Predicate.Alike.allOf (.cons hq (.cons hq' .nil))

variable (stores : s.Alike spot s') (key : ∀ k ∈ p.entity.primaryKey, spot.Clear p.name k)

section Statements

include stores

theorem first?_alike (hcondition : condition.Over (spot.Clear p.name)) :
    Counted.Both (Option.Rel (Record.Alike spot p.name)) (first? s p condition)
      (first? s' p condition) :=
  (stores.select hcondition Spot.clearOrders_nil _ _).bind fun _ _ rows => .pure (Both.head? rows)

theorem count_alike (hcondition : condition.Over (spot.Clear p.name)) :
    Counted.Both Eq (count s p condition) (count s' p condition) := by
  unfold count
  refine (stores.ask (R := fun rows rows' : List Row => rows.length = rows'.length)
    fun t t' ht related => ?_).bind fun rows rows' same => .pure (congrArg Int.ofNat same)
  rw [← ht] at hcondition
  exact (related.matching hcondition).imp fun _ _ rows => rows.length_eq

/-- A row is found by its key in both states or in none. -/
theorem byKey_alike {given : Record} (hgiven : ∀ x ∈ given, spot.Clear p.name x.1)
    {scope : Option (Predicate Value)}
    (hscope : ∀ q, scope = some q → q.Over (spot.Clear p.name)) :
    Counted.Both (Option.Rel (Record.Alike spot p.name)) (byKey s p given scope)
      (byKey s' p given scope) :=
  first?_alike stores (Predicate.over_andAlso (over_isAt hgiven) hscope)

theorem anchorRow_alike {given : Record} (hgiven : ∀ x ∈ given, spot.Clear p.name x.1) :
    Counted.Both (Record.Alike spot p.name) (anchorRow s p given orders)
      (anchorRow s' p given orders) := by
  unfold anchorRow
  split_ifs
  · exact .pure given.alike_refl
  · refine (first?_alike stores (over_isAt hgiven)).bind fun found found' related => ?_
    cases related with
    | some alike => exact .pure alike
    | none => exact .lift (.error _)

end Statements

theorem clear_keyColumns (key : ∀ k ∈ p.entity.primaryKey, spot.Clear p.name k) :
    ∀ c ∈ p.keyColumns, spot.Clear p.name c.name :=
  fun _ hc => key _ (Entity.mem_keyColumns hc).2

theorem page_alike (key : ∀ k ∈ p.entity.primaryKey, spot.Clear p.name k)
    {rows rows' : List Record} (h : List.Forall₂ (Record.Alike spot p.name) rows rows')
    (hasPrevious hasNext : Bool) (count : Option PageCount) :
    Both (Connection.Alike spot p.name) (page codec p rows hasPrevious hasNext count)
      (page codec p rows' hasPrevious hasNext count) :=
  (Edge.ofRecords_alike (clear_keyColumns key) h).bind fun _ _ edges => .ok ⟨edges, rfl, rfl, rfl⟩

include stores key

theorem anchor_alike (clear : spot.ClearOrders p.name orders) (cursor : String) :
    Counted.Both (Record.Alike spot p.name) (anchor codec s p cursor orders)
      (anchor codec s' p cursor orders) := by
  refine (Counted.Both.lift (.refl (fun _ => rfl) _)).bind ?_
  rintro values _ rfl
  have given : ∀ x ∈ p.entity.primaryKey.zip values, spot.Clear p.name x.1 :=
    fun x hx => key x.1 (List.of_mem_zip hx).1
  refine (anchorRow_alike stores given).bind fun row row' alike => ?_
  rw [Keyset.checkAnchor_alike clear alike]
  exact (Counted.Both.refl (fun _ => rfl) _).bind fun _ _ _ => .pure alike

/-- The rows behind a cursor are told by one condition in both states. -/
theorem behind_alike (hcondition : condition.Over (spot.Clear p.name))
    (clear : spot.ClearOrders p.name orders) (after : Option String) :
    Counted.Both (fun q q' => q = q' ∧ q.Over (spot.Clear p.name))
      (behind codec s p condition orders after) (behind codec s' p condition orders after) := by
  cases after with
  | none => exact .pure ⟨rfl, hcondition⟩
  | some cursor =>
    refine (anchor_alike stores key clear cursor).bind fun row row' alike => ?_
    refine (Counted.Both.lift (Keyset.condition_both clear alike)).bind ?_
    rintro beyond _ ⟨rfl, covered⟩
    exact .pure ⟨rfl, over_allOf_pair hcondition covered⟩

/-- Whether there are rows beyond one of the page is the same in both states. -/
theorem reaches_alike (hcondition : condition.Over (spot.Clear p.name))
    (clear : spot.ClearOrders p.name orders) {row row' : Record}
    (alike : row.Alike spot p.name row') (forward : Bool) :
    Counted.Both Eq (reaches s p condition orders row forward)
      (reaches s' p condition orders row' forward) := by
  have nulls : (orders.any fun o => (row.get o.column).isNull) =
      orders.any fun o => (row'.get o.column).isNull := by
    have each : orders.map (fun o => (row.get o.column).isNull) =
        orders.map fun o => (row'.get o.column).isNull :=
      List.map_congr_left fun o ho => by rw [alike _ (clear o ho)]
    simpa [List.any_map, Function.comp_def] using congrArg (List.any · id) each
  unfold reaches
  rw [nulls]
  split_ifs
  · exact .pure rfl
  · refine (Counted.Both.lift (Keyset.condition_both clear alike)).bind ?_
    rintro beyond _ ⟨rfl, covered⟩
    have narrowed := over_allOf_pair hcondition covered
    refine (stores.ask (R := Eq) fun t t' ht related => ?_).bind fun rows _ same =>
      .pure (by rw [same])
    rw [Table.sorted_key_congr related.key, related.columns]
    rw [← ht] at narrowed key
    refine (related.matching narrowed).bind fun rows rows' alike => ?_
    have taken := List.forall₂_take 1 (Table.sorted_alike related.keys Spot.clearOrders_nil alike)
    have columns : ∀ c ∈ t.columns.filter fun c => p.entity.isKey c.name,
        spot.Clear t.name c.name :=
      fun c hc => key c.name (List.contains_iff_mem.1 (List.mem_filter.1 hc).2)
    refine (Both.mapM (S := Eq) taken fun r r' related => ?_).imp fun _ _ same =>
      List.forall₂_eq_eq_eq ▸ same
    rw [Table.readColumns_eq related.1 columns]
    exact .refl (fun _ => rfl) _

theorem around_alike (hcondition : condition.Over (spot.Clear p.name))
    (clear : spot.ClearOrders p.name orders) (after : Option String) (limit : Int)
    {rows rows' : List Record} (h : List.Forall₂ (Record.Alike spot p.name) rows rows') :
    Counted.Both (Connection.Alike spot p.name) (around codec s p condition orders after limit rows)
      (around codec s' p condition orders after limit rows') := by
  have front := Both.head? h
  have last := Both.getLast? h
  unfold around
  rw [h.length_eq]
  generalize rows.head? = x, rows'.head? = x' at front
  generalize rows.getLast? = y, rows'.getLast? = y' at last
  cases front with
  | none => exact .lift (page_alike key h _ _ _)
  | some first =>
    cases last with
    | none => exact .lift (page_alike key h _ _ _)
    | some last =>
      refine (reaches_alike stores key hcondition clear last true).bind ?_
      rintro next _ rfl
      refine (reaches_alike stores key hcondition clear first false).bind ?_
      rintro previous _ rfl
      exact .lift (page_alike key h _ _ _)

theorem cursorPage_alike (hcondition : condition.Over (spot.Clear p.name))
    (clear : spot.ClearOrders p.name orders) (after : Option String) (limit : Int) :
    Counted.Both (Connection.Alike spot p.name) (cursorPage codec s p condition orders after limit)
      (cursorPage codec s' p condition orders after limit) := by
  have full : spot.ClearOrders p.name (Order.withKey orders p.entity.primaryKey) := by
    intro o ho
    exact (Order.mem_withKey o ho).elim (clear o) (key o.column)
  refine (behind_alike stores key hcondition full _).bind ?_
  rintro narrowed _ ⟨rfl, covered⟩
  exact (stores.select covered full _ _).bind fun rows rows' related =>
    around_alike stores key hcondition full after limit related

/-- Pages are read alike in both states. -/
theorem connection_alike (hcondition : condition.Over (spot.Clear p.name))
    (clear : spot.ClearOrders p.name orders) (request : PageRequest) :
    Counted.Both (Connection.Alike spot p.name) (connection codec s p condition orders request)
      (connection codec s' p condition orders request) := by
  cases request with
  | cursor after limit => exact cursorPage_alike stores key hcondition clear after limit
  | all =>
    refine (stores.select hcondition clear none 0).bind fun rows rows' related => ?_
    rw [related.length_eq]
    exact .lift (page_alike key related _ _ _)
  | page number limit =>
    refine (count_alike stores hcondition).bind ?_
    rintro total _ rfl
    refine (stores.select hcondition clear _ _).bind fun rows rows' related => ?_
    refine (Counted.Both.lift (.refl (fun _ => rfl) _)).bind ?_
    rintro k _ rfl
    exact .lift (page_alike key related _ _ _)
  | offset start limit =>
    refine (count_alike stores hcondition).bind ?_
    rintro total _ rfl
    refine (stores.select hcondition clear _ _).bind fun rows rows' related => ?_
    refine (Counted.Both.lift (.refl (fun _ => rfl) _)).bind ?_
    rintro k _ rfl
    exact .lift (page_alike key related _ _ _)

end Query

/-! ## Pages of a list -/

namespace Window

variable {columns : List Column} {rows rows' : List Record}

theorem slice_alike {α β : Type} {R : α → β → Prop} (start stop : Int) {xs : List α} {ys : List β}
    (h : List.Forall₂ R xs ys) : List.Forall₂ R (slice start stop xs) (slice start stop ys) := by
  unfold slice
  rw [h.length_eq]
  exact List.forall₂_drop _ (List.forall₂_take _ h)

theorem after?_alike (clear : ∀ c ∈ columns, spot.Clear name c.name) (values : List Value)
    (h : List.Forall₂ (Record.Alike spot name) rows rows') :
    after? columns values rows = after? columns values rows' := by
  have found : (rows.findIdx? fun r => Value.sameItems (keyOf columns r) values) =
      rows'.findIdx? fun r => Value.sameItems (keyOf columns r) values := by
    induction h with
    | nil => rfl
    | @cons r r' _ _ alike _ ih =>
      have own : keyOf columns r = keyOf columns r' :=
        List.map_congr_left fun c hc => alike _ (clear c hc)
      rw [List.findIdx?_cons, List.findIdx?_cons, own, ih]
  unfold after?
  rw [found]

theorem startAfter_alike (clear : ∀ c ∈ columns, spot.Clear name c.name) (paths : List String)
    (after : Option String) (h : List.Forall₂ (Record.Alike spot name) rows rows') :
    startAfter codec columns paths rows after = startAfter codec columns paths rows' after := by
  unfold startAfter
  simp only [after?_alike clear _ h]

/-- The same page is cut out of rows that agree in the columns of the key. -/
theorem paginate_alike (clear : ∀ c ∈ columns, spot.Clear name c.name) (paths : List String)
    (request : PageRequest) (h : List.Forall₂ (Record.Alike spot name) rows rows') :
    Both (Connection.Alike spot name) (paginate codec columns paths rows request)
      (paginate codec columns paths rows' request) := by
  unfold paginate
  refine (Edge.ofRecords_alike clear h).bind fun edges edges' related => ?_
  rw [h.length_eq]
  cases request with
  | all => exact .ok ⟨related, rfl, rfl, rfl⟩
  | page number limit =>
    refine (Both.refl (fun _ => rfl) _).bind ?_
    rintro count _ rfl
    exact .ok ⟨slice_alike _ _ related, rfl, rfl, rfl⟩
  | offset start limit =>
    refine (Both.refl (fun _ => rfl) _).bind ?_
    rintro count _ rfl
    exact .ok ⟨slice_alike _ _ related, rfl, rfl, rfl⟩
  | cursor after limit =>
    dsimp only
    rw [startAfter_alike clear paths after h]
    refine (Both.refl (fun _ => rfl) _).bind ?_
    rintro start _ rfl
    exact .ok ⟨slice_alike _ _ related, rfl, rfl, rfl⟩

end Window

end TableGraph
