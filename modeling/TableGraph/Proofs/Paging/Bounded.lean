import TableGraph.Proofs.Faults
import TableGraph.Proofs.Registered
import TableGraph.Proofs.RowOrder
import TableGraph.Proofs.Upheld
import TableGraph.Proofs.Window.Counted
import TableGraph.Sample.Registered

/-!
# Pages within the largest size

A page never has more rows than its limit, whichever way it is made.  What clients ask for is
checked against the largest limit of the configuration; the page of a client that asks for none is
not.  Main statement: `boundsPages_iff`.  All pages are within the largest limit exactly if the
default limit is.
-/

namespace TableGraph

/-! ## Rows of a page -/

/-- A slice of some length has no more items. -/
theorem Window.length_slice_le {α : Type} (start : Int) {limit : Int} (hlimit : 0 ≤ limit)
    (xs : List α) : ((slice start (start + limit) xs).length : Int) ≤ limit := by
  unfold slice position
  rw [List.length_drop, List.length_take]
  split_ifs <;> omega

theorem Window.length_paginate_le {codec : Codec} {key : List Column} {paths : List String}
    {rows : List Record} {request : PageRequest} {c : Connection} {limit : Int}
    (h : paginate codec key paths rows request = .ok c) (hr : request.limit? = some limit)
    (hlimit : 0 ≤ limit) : (c.edges.length : Int) ≤ limit := by
  obtain ⟨edges, -, h⟩ := bind_eq_ok.1 h
  cases request with
  | all => cases hr
  | page number =>
    obtain ⟨_, -, h⟩ := bind_eq_ok.1 h
    cases hr
    cases h
    exact length_slice_le _ hlimit edges
  | offset start =>
    obtain ⟨_, -, h⟩ := bind_eq_ok.1 h
    cases hr
    cases h
    exact length_slice_le _ hlimit edges
  | cursor after =>
    obtain ⟨start, -, h⟩ := bind_eq_ok.1 h
    cases hr
    cases h
    exact length_slice_le _ hlimit edges

theorem Table.length_select_le {t : Table} {p : Predicate Value} {orders : List Order}
    {limit offset : Int} {records : List Record}
    (h : t.select p orders (some limit) offset = .ok records) (hlimit : 0 ≤ limit) :
    (records.length : Int) ≤ limit := by
  obtain ⟨rows, -, hread⟩ := select_eq_ok.1 h
  rw [length_of_mapM hread, window_eq hlimit, List.length_take]
  omega

namespace Query

variable {codec : Codec} {s : Store} {p : Projection} {condition : Predicate Value}
  {orders : List Order} {n m : Nat}

theorem length_ask_le {limit offset : Int} {records : List Record}
    (h : (s.ask p.name fun t => t.select condition orders (some limit) offset).run n =
      .ok (records, m)) (hlimit : 0 ≤ limit) : (records.length : Int) ≤ limit := by
  obtain ⟨t, -, hs, -⟩ := Store.run_ask_eq_ok.1 h
  exact Table.length_select_le hs hlimit

theorem length_edges_of_nodes {c : Connection} {rows : List Record} (h : c.nodes = rows) :
    c.edges.length = rows.length := by
  rw [← h]
  exact (List.length_map _).symm

/-- A page of the table has no more rows than its limit. -/
theorem length_connection_le {request : PageRequest} {c : Connection} {limit : Int}
    (h : (connection codec s p condition orders request).run n = .ok (c, m))
    (hr : request.limit? = some limit) (hlimit : 0 ≤ limit) : (c.edges.length : Int) ≤ limit := by
  unfold connection at h
  cases request with
  | all => cases hr
  | page number =>
    cases hr
    obtain ⟨_, _, -, h⟩ := Counted.run_bind_eq_ok.1 h
    obtain ⟨rows, _, hrows, h⟩ := Counted.run_bind_eq_ok.1 h
    obtain ⟨_, _, -, h⟩ := Counted.run_bind_eq_ok.1 h
    rw [length_edges_of_nodes (nodes_page (Counted.run_lift_eq_ok.1 h).1).1]
    exact length_ask_le hrows hlimit
  | offset start =>
    cases hr
    obtain ⟨_, _, -, h⟩ := Counted.run_bind_eq_ok.1 h
    obtain ⟨rows, _, hrows, h⟩ := Counted.run_bind_eq_ok.1 h
    obtain ⟨_, _, -, h⟩ := Counted.run_bind_eq_ok.1 h
    rw [length_edges_of_nodes (nodes_page (Counted.run_lift_eq_ok.1 h).1).1]
    exact length_ask_le hrows hlimit
  | cursor after =>
    cases hr
    unfold cursorPage at h
    obtain ⟨_, _, -, h⟩ := Counted.run_bind_eq_ok.1 h
    obtain ⟨rows, _, hrows, h⟩ := Counted.run_bind_eq_ok.1 h
    rw [length_edges_of_nodes (nodes_of_around h).1]
    exact length_ask_le hrows hlimit

end Query

/-! ## Quotients -/

/-- A quotient of whole numbers has a divisor, or the division fails. -/
theorem PageCount.ceilQuotient_divides {n d : Int} (hd : d ≠ 0) :
    FailsWith (· ≠ .divisionByZero) (ceilQuotient n d) := by
  unfold ceilQuotient
  rw [if_neg hd]
  dsimp only
  split
  · exact failsWith_ok _
  · exact failsWith_error nofun

theorem PageCount.ofPage_divides {total limit number : Int} (hlimit : limit ≠ 0) :
    FailsWith (· ≠ .divisionByZero) (ofPage total limit number) :=
  (ceilQuotient_divides hlimit).bind fun _ _ => failsWith_ok _

theorem PageCount.ofOffset_divides {total limit start : Int} (hlimit : limit ≠ 0) :
    FailsWith (· ≠ .divisionByZero) (ofOffset total limit start) :=
  (ceilQuotient_divides hlimit).bind fun _ _ =>
    (ceilQuotient_divides hlimit).bind fun _ _ => failsWith_ok _

theorem Fault.ne_divisionByZero_of_isOfValue (f : Fault) (h : f.isOfValue) :
    f ≠ .divisionByZero := by
  rintro rfl
  cases h

theorem Window.paginate_divides {codec : Codec} {key : List Column} {paths : List String}
    {rows : List Record} {request : PageRequest} (hr : request.limit? ≠ some 0) :
    FailsWith (· ≠ .divisionByZero) (paginate codec key paths rows request) := by
  refine FailsWith.bind ((Edge.failsWith_ofRecords codec key rows).imp
    Fault.ne_divisionByZero_of_isOfValue) fun edges _ => ?_
  cases request with
  | all => exact failsWith_ok _
  | page number limit =>
    exact (PageCount.ofPage_divides fun h => hr (congrArg some h)).bind fun _ _ => failsWith_ok _
  | offset start limit =>
    exact (PageCount.ofOffset_divides fun h => hr (congrArg some h)).bind fun _ _ =>
      failsWith_ok _
  | cursor after limit =>
    refine FailsWith.bind ?_ fun _ _ => failsWith_ok _
    unfold startAfter
    split
    · exact failsWith_ok _
    · refine ((Key.failsWith_decode codec key paths _).imp
        Fault.ne_divisionByZero_of_isOfValue).bind fun _ _ => ?_
      split
      · exact failsWith_ok _
      · exact failsWith_error nofun

namespace Store

theorem table_divides (s : Store) (name : String) :
    FailsWith (· ≠ .divisionByZero) (s.table name) := by
  exact s.failsWith_table (s.failsWith_registered nofun) nofun

end Store

namespace Query

variable (codec : Codec) (s : Store) (p : Projection) (condition : Predicate Value)
  (orders : List Order)

theorem select_divides (limit : Option Int) (offset : Int) (n : Nat) :
    FailsWith (· ≠ .divisionByZero)
      ((s.ask p.name fun t => t.select condition orders limit offset).run n) :=
  failsWith_run_select Fault.ne_divisionByZero_of_isOfValue (s.table_divides p.name) _ _ n

theorem first_divides (n : Nat) :
    FailsWith (· ≠ .divisionByZero) ((first? s p condition).run n) :=
  failsWith_run_bind (select_divides s p condition [] _ _ n) fun _ _ _ => failsWith_ok _

theorem count_divides (n : Nat) :
    FailsWith (· ≠ .divisionByZero) ((count s p condition).run n) :=
  failsWith_run_bind (failsWith_run_ask (s.table_divides p.name) (fun t _ =>
    (t.failsWith_matching _).imp Fault.ne_divisionByZero_of_isOfValue) n)
      fun _ _ _ => failsWith_ok _

theorem page_divides (rows : List Record) (hasPrevious hasNext : Bool)
    (count : Option PageCount) (n : Nat) : FailsWith (· ≠ .divisionByZero)
      ((liftM (page codec p rows hasPrevious hasNext count) : Counted Connection).run n) :=
  failsWith_run_lift ((failsWith_page codec p rows _ _ _).imp
    Fault.ne_divisionByZero_of_isOfValue) n

theorem anchorRow_divides (key : Record) (n : Nat) :
    FailsWith (· ≠ .divisionByZero) ((anchorRow s p key orders).run n) := by
  unfold anchorRow
  split_ifs
  · exact failsWith_ok _
  · refine failsWith_run_bind (first_divides s p _ n) fun found _ _ => ?_
    cases found with
    | some row => exact failsWith_ok _
    | none => exact failsWith_error nofun

theorem behind_divides (after : Option String) (n : Nat) :
    FailsWith (· ≠ .divisionByZero) ((behind codec s p condition orders after).run n) := by
  unfold behind
  split
  · exact failsWith_ok _
  · refine failsWith_run_bind ?_ fun row m _ => failsWith_run_bind (failsWith_run_lift
      ((Keyset.failsWith_condition _ _ row true).imp Fault.ne_divisionByZero_of_isOfValue) m)
        fun _ _ _ => failsWith_ok _
    unfold anchor
    refine failsWith_run_bind (failsWith_run_lift ((Key.failsWith_decode codec _ _ _).imp
      Fault.ne_divisionByZero_of_isOfValue) n) fun values m _ => ?_
    refine failsWith_run_bind (anchorRow_divides s p orders _ m) fun row k _ => ?_
    have known : FailsWith (· ≠ .divisionByZero) (Keyset.checkAnchor row orders) :=
      (Keyset.failsWith_checkAnchor row orders).imp fun _ ⟨_, h⟩ => h ▸ nofun
    exact failsWith_run_bind (failsWith_run_lift known k) fun _ _ _ => failsWith_ok _

/-- The arithmetic of a page with a limit has a divisor. -/
theorem connection_divides {request : PageRequest} (hr : request.limit? ≠ some 0) (n : Nat) :
    FailsWith (· ≠ .divisionByZero)
      ((connection codec s p condition orders request).run n) := by
  unfold connection
  cases request with
  | all =>
    exact failsWith_run_bind (select_divides s p condition orders _ _ n)
      fun _ m _ => page_divides codec p _ _ _ _ m
  | page number limit =>
    refine failsWith_run_bind (count_divides s p condition n) fun total m _ => ?_
    refine failsWith_run_bind (select_divides s p condition orders _ _ m) fun rows k _ => ?_
    refine failsWith_run_bind (failsWith_run_lift (PageCount.ofPage_divides fun h =>
      hr (congrArg some h)) k) fun count l _ => ?_
    exact page_divides codec p _ _ _ _ l
  | offset start limit =>
    refine failsWith_run_bind (count_divides s p condition n) fun total m _ => ?_
    refine failsWith_run_bind (select_divides s p condition orders _ _ m) fun rows k _ => ?_
    refine failsWith_run_bind (failsWith_run_lift (PageCount.ofOffset_divides fun h =>
      hr (congrArg some h)) k) fun count l _ => ?_
    exact page_divides codec p _ _ _ _ l
  | cursor after limit =>
    refine failsWith_run_bind (behind_divides codec s p condition _ _ n) fun _ m _ => ?_
    refine failsWith_run_bind (select_divides s p _ _ _ _ m) fun rows k _ => ?_
    exact failsWith_run_around Fault.ne_divisionByZero_of_isOfValue (s.table_divides p.name)
      _ _ rows k

end Query

/-! ## Requests -/

namespace PageRequest

variable {context : Context} {most : Int} {r r' : PageRequest}

/-- The request has a limit, which is positive and not above the largest one. -/
def Limited (most : Int) (r : PageRequest) : Prop :=
  ∃ limit, r.limit? = some limit ∧ 1 ≤ limit ∧ limit ≤ most

theorem Limited.limit?_ne_zero (h : r.Limited most) : r.limit? ≠ some 0 := by
  obtain ⟨limit, hr, positive, -⟩ := h
  rw [hr]
  rintro ⟨⟩
  exact absurd positive (by decide)

theorem checkLimit_of_check {limit : Int} (hr : r.limit? = some limit)
    (h : r.check context = .ok r') : checkLimit context limit = .ok () ∧ r' = r := by
  cases r with
  | all => cases hr
  | page number | offset start =>
    cases hr
    obtain ⟨_, hlimit, h⟩ :=
      bind_eq_ok.1 (show (checkLimit context limit >>= fun _ => _) = _ from h)
    dsimp only at h
    split_ifs at h
    exact ⟨hlimit, (Except.ok.inj h).symm⟩
  | cursor after =>
    cases hr
    obtain ⟨_, hlimit, h⟩ :=
      bind_eq_ok.1 (show (checkLimit context limit >>= fun _ => _) = _ from h)
    exact ⟨hlimit, (Except.ok.inj h).symm⟩

/-- What a client asks for is within the largest limit. -/
theorem limited_of_check (hmax : context.maxLimit = some most) {limit : Int}
    (hr : r.limit? = some limit) (h : r.check context = .ok r') : r'.Limited most := by
  obtain ⟨hlimit, rfl⟩ := checkLimit_of_check hr h
  unfold checkLimit at hlimit
  rw [hmax] at hlimit
  split_ifs at hlimit with hpositive
  dsimp only at hlimit
  split_ifs at hlimit with hmost
  exact ⟨limit, hr, by omega, Int.not_lt.1 hmost⟩

theorem limit?_of_variant {α : Type} {inner : Option α} {f : α → Except Fault PageRequest}
    {found : Option PageRequest} (h : inner.mapM f = .ok found)
    (hf : ∀ a r, f a = .ok r → ∃ limit, r.limit? = some limit) :
    ∀ r ∈ found.toList, ∃ limit, r.limit? = some limit := by
  cases inner with
  | none =>
    cases h
    exact nofun
  | some a =>
    obtain ⟨r, hr, h⟩ := map_eq_ok.1 (show some <$> f a = _ from h)
    cases h
    intro r' hr'
    cases List.mem_singleton.1 hr'
    exact hf a r hr

/-- Every kind of request has a limit. -/
theorem limit?_of_variants {fields : List (String × Value)} {rs : List PageRequest}
    (h : variants fields = .ok rs) : ∀ r ∈ rs, ∃ limit, r.limit? = some limit := by
  unfold variants at h
  split_ifs at h
  obtain ⟨_, -, h⟩ := bind_eq_ok.1 h
  obtain ⟨byCursor, hcursor, h⟩ := bind_eq_ok.1 h
  obtain ⟨_, -, h⟩ := bind_eq_ok.1 h
  obtain ⟨byPage, hpage, h⟩ := bind_eq_ok.1 h
  obtain ⟨_, -, h⟩ := bind_eq_ok.1 h
  obtain ⟨byOffset, hoffset, h⟩ := bind_eq_ok.1 h
  cases h
  have cursors := limit?_of_variant hcursor fun inner r hr => by
    obtain ⟨_, -, hr⟩ := bind_eq_ok.1 hr
    obtain ⟨limit, -, hr⟩ := bind_eq_ok.1 hr
    cases hr
    exact ⟨limit, rfl⟩
  have pages := limit?_of_variant hpage fun inner r hr => by
    obtain ⟨_, -, hr⟩ := bind_eq_ok.1 hr
    obtain ⟨limit, -, hr⟩ := bind_eq_ok.1 hr
    cases hr
    exact ⟨limit, rfl⟩
  have offsets := limit?_of_variant hoffset fun inner r hr => by
    obtain ⟨_, -, hr⟩ := bind_eq_ok.1 hr
    obtain ⟨limit, -, hr⟩ := bind_eq_ok.1 hr
    cases hr
    exact ⟨limit, rfl⟩
  intro r hr
  rcases List.mem_append.1 hr with hr | hr
  · rcases List.mem_append.1 hr with hr | hr
    · exact cursors r hr
    · exact pages r hr
  · exact offsets r hr

/-- The page of a client that asks for none is within the largest limit if the default is. -/
theorem limited_default (hmax : context.maxLimit = some most) (hmost : 0 < most)
    (hdefault : ∀ d, context.defaultLimit = some d → 0 < d ∧ d ≤ most) :
    (default context).Limited most := by
  cases hd : context.defaultLimit with
  | none =>
    unfold default
    rw [hd, hmax]
    exact ⟨most, rfl, hmost, le_rfl⟩
  | some d =>
    obtain ⟨positive, within⟩ := hdefault d hd
    have kept : (some d).filter (· ≠ 0) = some d :=
      Option.filter_eq_some_iff.2 ⟨rfl, decide_eq_true positive.ne'⟩
    unfold default
    rw [hd, kept]
    exact ⟨d, rfl, positive, within⟩

theorem ofValue_null_of_default {d : Int} (hd : context.defaultLimit = some d) (h : d ≠ 0) :
    ofValue context .null = .ok (.page 0 d) := by
  have kept : (some d).filter (· ≠ 0) = some d :=
    Option.filter_eq_some_iff.2 ⟨rfl, decide_eq_true h⟩
  unfold ofValue default
  rw [hd, kept]

/-- Every request is within the largest limit if the default is. -/
theorem limited_ofValue (hmax : context.maxLimit = some most) (hmost : 0 < most)
    (hdefault : ∀ d, context.defaultLimit = some d → 0 < d ∧ d ≤ most) {v : Value}
    (h : ofValue context v = .ok r) : r.Limited most := by
  unfold ofValue at h
  split at h
  · cases h
    exact limited_default hmax hmost hdefault
  · obtain ⟨rs, hrs, h⟩ := bind_eq_ok.1 h
    split at h
    · cases h
    · obtain ⟨limit, hlimit⟩ := limit?_of_variants hrs _ List.mem_cons_self
      exact limited_of_check hmax hlimit h
    · cases h
  · cases h

end PageRequest

/-! ## Pages of a schema -/

namespace Answer

open TableGraph.Graph

/-- All pages, of the root and of relations, are within a largest limit. -/
structure Environment.BoundsPages (env : Environment) (most : Int) : Prop where
  /-- Whatever a client sends, the page has a limit from one to the largest. -/
  requests {v : Value} {r : PageRequest}
    (asked : PageRequest.ofValue env.schema.context v = .ok r) : r.Limited most
  /-- A page of the root has no more rows. -/
  root {s : Store} {f : OutputField} {a : Arguments} {reading : Reading} {c : Connection}
    {n m : Nat} (asked : Reading.ofField env f a = .ok reading)
    (run : (reading.run env.schema.codec s).run n = .ok (.connection c, m)) :
    (c.edges.length : Int) ≤ most
  /-- A page of a relation has no more rows. -/
  related {r : RelationField} {target : Projection} {row : Record} {a : Arguments} {rel : Related}
    {rows : List Record} {c : Connection} (asked : related env r target row a = .ok rel)
    (made : relatedItem env rel rows = .ok (.connection c)) : (c.edges.length : Int) ≤ most
  /-- No page of the root is counted by a division by zero. -/
  rootDivides {s : Store} {f : OutputField} {a : Arguments} {reading : Reading} {n : Nat}
    (asked : Reading.ofField env f a = .ok reading) :
    (reading.run env.schema.codec s).run n ≠ .error .divisionByZero
  /-- No page of a relation is counted by a division by zero. -/
  relatedDivides {r : RelationField} {target : Projection} {row : Record} {a : Arguments}
    {rel : Related} {rows : List Record} (asked : Answer.related env r target row a = .ok rel) :
    relatedItem env rel rows ≠ .error .divisionByZero

variable {env : Environment}

theorem request_of_ofPage {p : Projection} {a : Arguments} {reading : Reading}
    (h : Reading.ofPage env p a = .ok reading) : ∃ condition orders request,
      PageRequest.ofValue env.schema.context (a.get "pagination") = .ok request ∧
        reading = .page p condition orders request := by
  unfold Reading.ofPage at h
  obtain ⟨_, -, h⟩ := bind_eq_ok.1 h
  obtain ⟨request, hrequest, h⟩ := bind_eq_ok.1 h
  obtain ⟨orders, -, h⟩ := bind_eq_ok.1 h
  obtain ⟨_, -, h⟩ := bind_eq_ok.1 h
  obtain ⟨_, -, h⟩ := bind_eq_ok.1 h
  cases h
  exact ⟨_, orders, request, hrequest, rfl⟩

/-- What a field of the root reads: a page as it is asked for, a row by key, or what is known. -/
theorem reading_of_ofField {f : OutputField} {a : Arguments} {reading : Reading}
    (h : Reading.ofField env f a = .ok reading) :
    (∃ p condition orders request v, PageRequest.ofValue env.schema.context v = .ok request ∧
      reading = .page p condition orders request) ∨
    (∃ p key scope, reading = .row p key scope) ∨ ∃ v, reading = .known (.value v) := by
  unfold Reading.ofField at h
  split at h
  · obtain ⟨condition, orders, request, hrequest, rfl⟩ := request_of_ofPage h
    exact .inl ⟨_, condition, orders, request, _, hrequest, rfl⟩
  · unfold Reading.ofKey at h
    obtain ⟨_, -, h⟩ := bind_eq_ok.1 h
    obtain ⟨key, -, h⟩ := bind_eq_ok.1 h
    obtain ⟨scope, -, h⟩ := bind_eq_ok.1 h
    cases h
    exact .inr (.inl ⟨_, key, scope, rfl⟩)
  · obtain ⟨item, hitem, rfl⟩ := map_eq_ok.1 h
    unfold itemOf at hitem
    dsimp only at hitem
    split at hitem
    · cases hitem
      exact .inr (.inr ⟨_, rfl⟩)
    all_goals first | cases hitem | contradiction

theorem request_of_related {r : RelationField} {target : Projection} {row : Record}
    {a : Arguments} {rel : Related} (h : related env r target row a = .ok rel)
    (hmany : rel.load.many = true) : ∃ v,
      PageRequest.ofValue env.schema.context v = .ok rel.request := by
  obtain ⟨_, -, asked⟩ := asked_of_related h
  rw [asked.many] at hmany
  cases asked with
  | one single => exact absurd hmany (Bool.eq_false_iff.1 single)
  | page _ pages => exact ⟨_, pages⟩

theorem Item.ofRow?_ne_connection (row : Option Record) (c : Connection) :
    Item.ofRow? row ≠ .connection c := by
  cases row <;> exact nofun

theorem byKey_divides (s : Store) (p : Projection) (key : Record)
    (scope : Option (Predicate Value)) (n : Nat) :
    FailsWith (· ≠ .divisionByZero) ((Query.byKey s p key scope).run n) :=
  Query.first_divides s p _ n

/-- Where requests are within a largest limit, pages are. -/
theorem boundsPages_of_requests {most : Int}
    (requests : ∀ v r, PageRequest.ofValue env.schema.context v = .ok r → r.Limited most) :
    env.BoundsPages most where
  requests asked := requests _ _ asked
  root asked run := by
    obtain ⟨p, condition, orders, request, v, hrequest, rfl⟩ | ⟨p, key, scope, rfl⟩ | ⟨v, rfl⟩ :=
      reading_of_ofField asked
    · obtain ⟨c, hc, hitem⟩ := Counted.run_map_eq_ok.1 run
      cases hitem
      obtain ⟨limit, hlimit, positive, within⟩ := requests v request hrequest
      exact (Query.length_connection_le hc hlimit (by omega)).trans within
    · obtain ⟨found, -, hitem⟩ := Counted.run_map_eq_ok.1 run
      exact absurd hitem (Item.ofRow?_ne_connection found _)
    · exact absurd (Counted.run_pure_eq_ok.1 run).1 nofun
  related asked made := by
    unfold relatedItem at made
    split_ifs at made with hmany
    · obtain ⟨v, hrequest⟩ := request_of_related asked hmany
      obtain ⟨limit, hlimit, positive, within⟩ := requests v _ hrequest
      obtain ⟨c, hc, hitem⟩ := map_eq_ok.1 made
      cases hitem
      exact (Window.length_paginate_le hc hlimit (by omega)).trans within
    · exact absurd (Except.ok.inj made) (Item.ofRow?_ne_connection _ _)
  rootDivides asked := by
    obtain ⟨p, condition, orders, request, v, hrequest, rfl⟩ | ⟨p, key, scope, rfl⟩ | ⟨v, rfl⟩ :=
      reading_of_ofField asked
    · have limited := (requests v request hrequest).limit?_ne_zero
      exact fun h => failsWith_run_map _ (Query.connection_divides _ _ p condition orders
        limited _) _ h rfl
    · exact fun h => failsWith_run_map _ (byKey_divides _ p key scope _) _ h rfl
    · exact nofun
  relatedDivides asked := by
    intro h
    unfold relatedItem at h
    split_ifs at h with hmany
    obtain ⟨v, hrequest⟩ := request_of_related asked hmany
    exact FailsWith.map _ (Window.paginate_divides (requests v _ hrequest).limit?_ne_zero) _ h rfl

/--
With a largest limit, and a default limit that is positive if there is one, all pages are within the
largest limit exactly if the default limit is.
-/
theorem boundsPages_iff {most : Int} (hmax : env.schema.context.maxLimit = some most)
    (hmost : 0 < most) (hdefault : ∀ d, env.schema.context.defaultLimit = some d → 0 < d) :
    env.BoundsPages most ↔ ∀ d, env.schema.context.defaultLimit = some d → d ≤ most := by
  constructor
  · intro bounded d hd
    have asked := PageRequest.ofValue_null_of_default hd (hdefault d hd).ne'
    obtain ⟨limit, hlimit, -, within⟩ := bounded.requests asked
    cases hlimit
    exact within
  · exact fun within => boundsPages_of_requests fun v r =>
      PageRequest.limited_ofValue hmax hmost fun d hd => ⟨hdefault d hd, within d hd⟩

section Items

open Sample.Items

theorem exists_paged : (∃ schema, (builder (paged 2 1)).build = .ok schema) ∧
    ∃ schema, (builder (paged 2 5)).build = .ok schema :=
  ⟨exists_of_isOk (by decide +kernel), exists_of_isOk (by decide +kernel)⟩

theorem boundsPages_iff_items : ∃ schema, (builder (paged 2 5)).build = .ok schema ∧
    ((Environment.mk schema {}).BoundsPages 5 ↔
      ∀ d, schema.context.defaultLimit = some d → d ≤ 5) := by
  obtain ⟨schema, built⟩ := exists_paged.2
  obtain ⟨context, -⟩ := Builder.roots_of_build built
  have limit : schema.context.maxLimit = some 5 := by rw [context]; rfl
  refine ⟨schema, built, boundsPages_iff limit (by decide) fun d hd => ?_⟩
  rw [context] at hd
  cases hd
  decide

/-- Two items in the order of their numbers. -/
def two : List Row := [item 1 .null false, item 2 .null false]

/-- The values of two items. -/
def twoRecords : List Record :=
  [[("id", .int 1), ("rank", .null), ("mark", .bool false)],
    [("id", .int 2), ("rank", .null), ("mark", .bool false)]]

theorem select_two : (table two).select .always [] none 0 = .ok twoRecords := by
  have keys : (table two).DistinctKeys two := List.pairwise_pair.2 (by decide)
  have sorted : (table two).sorted [] two = two :=
    keys.sorted_eq (List.Perm.refl _) (List.pairwise_pair.2 (by decide))
  refine Table.select_eq_ok.2 ⟨two, Table.matching_eq_ok.2 ⟨.always, rfl, rfl⟩, ?_⟩
  rw [sorted]
  rfl

/-- A page of two where one is the largest size. -/
theorem paged_beyond : ∃ schema, (builder (paged 2 1)).build = .ok schema ∧
    schema.context.maxLimit = some 1 ∧ ∃ p ∈ schema.projections, ∃ reading c m,
      Reading.ofPage ⟨schema, {}⟩ p ⟨[], none⟩ = .ok reading ∧
      (reading.run schema.codec (store two)).run 0 = .ok (.connection c, m) ∧
      c.edges.length = 2 := by
  obtain ⟨schema, built⟩ := exists_paged.1
  obtain ⟨context, -⟩ := Builder.roots_of_build built
  obtain ⟨codec, -⟩ := Builder.build_eq_ok built
  obtain ⟨p, hp, shows⟩ := Builder.exists_shows built List.mem_cons_self
  have own : p.entity = entity := shows.entity
  have asked : Reading.ofPage ⟨schema, {}⟩ p ⟨[], none⟩ =
      .ok (.page p .always [] (.page 0 2)) := by
    unfold Reading.ofPage Environment.checkEntity Environment.scope
    dsimp only
    rw [context]
    rfl
  have edges : ∃ edges, Edge.ofRecords schema.codec p.keyColumns twoRecords = .ok edges := by
    unfold Projection.keyColumns
    rw [codec, own]
    exact exists_of_isOk (by decide +kernel)
  obtain ⟨edges, hedges⟩ := edges
  have table : (store two).table p.name = .ok (table two) := by
    unfold Projection.name
    rw [own]
    rfl
  have bounded : PageRequest.Bounded (.page 0 2) := ⟨le_rfl, by decide⟩
  have agrees := Query.agrees_of_counted table select_two hedges rfl bounded 0
  obtain ⟨k, hk⟩ : ∃ k, PageCount.ofPage 2 2 0 = .ok k := exists_of_isOk (by decide +kernel)
  unfold Window.paginate at agrees
  rw [hedges] at agrees
  obtain ⟨⟨c, m⟩, hc, hpage⟩ :=
    map_eq_ok.1 (agrees.trans (bind_eq_ok.2 ⟨edges, rfl, bind_eq_ok.2 ⟨k, hk, rfl⟩⟩))
  refine ⟨schema, built, by rw [context]; rfl, p, hp, _, c, m, asked,
    Counted.run_map_eq_ok.2 ⟨c, hc, rfl⟩, ?_⟩
  have length : edges.length = 2 := length_of_mapM hedges
  cases hpage
  show (Window.slice 0 (0 + 2) edges).length = 2
  rw [Window.slice_eq le_rfl (by decide), List.length_take, Int.toNat_zero, List.drop_zero, length]
  rfl

end Items

end Answer

end TableGraph
