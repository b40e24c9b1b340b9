import TableGraph.Proofs.Scope.Page

/-!
# What answers keep while they wait

A part of an answer asks for loads, goes on with what is loaded and may ask for more.
`Fetch.Upholds I P Q` says that every load it ever asks for is `P` and that what it ends with is `Q`,
as long as `I` holds of what is loaded.  Running such a part keeps `I` if making loads does
(`Fetch.Upholds.run`).

What the fields of an object show upholds this by induction on what is shown (`asks_showFields`): the
rows at hand are followed from a field to the fields below it, so that it is enough to know of single
relations what they ask for and which rows they find (`Follows`).
-/

namespace TableGraph

open TableGraph.Graph

/-- The entity whose rows are shown below the field, if rows of an entity are shown with it. -/
def Graph.OutputField.below (f : OutputField) (rows : Option String) : Option String :=
  match f.source with
  | .column _ | .typeName => none
  | .relation _ target => rows.map fun _ => target
  | _ => rows

/-! ## Loads for relations -/

section Loads

open Answer

variable {codec : Codec} {r : RelationField} {target : Projection} {row : Record} {filter : Value}
  {orders : List Order} {scope condition : Option (Predicate Value)} {l : Load}

/-- What a relation to an entity loads under a filter, a row scope and the condition of both. -/
def relatedGroup (r : RelationField) (target : Projection) (filter : Value) (orders : List Order)
    (scope condition : Option (Predicate Value)) : Group :=
  ⟨target.name, r.relation.toColumns, r.relation.junction, filter.freeze,
    Scope.fingerprint target.name scope, orders, condition⟩

theorem relatedLoad_eq_ok : relatedLoad codec r target row filter orders scope = .ok l ↔
    ∃ condition, relatedCondition codec target filter scope = .ok condition ∧
      l = ⟨r.isToMany, ⟨r.relation.fromColumns.map row.get,
        relatedGroup r target filter orders scope condition⟩⟩ := by
  unfold relatedLoad
  rw [bind_eq_ok]
  refine exists_congr fun condition => and_congr_right fun _ => ?_
  exact ⟨fun h => (Except.ok.inj h).symm, fun h => congrArg Except.ok h.symm⟩

theorem relatedCondition_null : relatedCondition codec target .null scope = .ok scope := rfl

theorem relatedCondition_eq_ok (h : filter ≠ .null) :
    relatedCondition codec target filter scope = .ok condition ↔
      ∃ c, Filter.compile codec target filter = .ok c ∧ condition = some (c.andAlso scope) := by
  unfold relatedCondition
  split
  · exact absurd rfl h
  · rw [bind_eq_ok]
    refine exists_congr fun c => and_congr_right fun _ => ?_
    exact ⟨fun h => (Except.ok.inj h).symm, fun h => congrArg Except.ok h.symm⟩

end Loads

namespace Answer

/-! ## Fields of one request -/

namespace Environment

/-- The other one answers a field of the same request. -/
def Enters (env env' : Environment) : Prop :=
  ∃ typeName field path, env' = env.enter typeName field path

theorem enters_enter (env : Environment) (typeName field : String) (path : Path) :
    env.Enters (env.enter typeName field path) := ⟨typeName, field, path, rfl⟩

theorem Enters.refl (env : Environment) : env.Enters env := ⟨_, _, _, rfl⟩

theorem Enters.trans {env env' env'' : Environment} (h : env.Enters env') (h' : env'.Enters env'') :
    env.Enters env'' := by
  obtain ⟨_, _, _, rfl⟩ := h
  obtain ⟨typeName, field, path, rfl⟩ := h'
  exact ⟨typeName, field, path, rfl⟩

theorem Enters.schema_eq {env env' : Environment} (h : env.Enters env') :
    env'.schema = env.schema := by
  obtain ⟨typeName, field, path, rfl⟩ := h
  rfl

end Environment

/-! ## Parts that wait -/

section Parts

variable {I : Loaded → Prop} {P : Load → Prop} {α β : Type} {Q : α → Prop} {Q' : β → Prop}

namespace Fetch

/-- As long as `I` holds of what is loaded, the part asks for loads that are `P` and ends with
something that is `Q`. -/
inductive Upholds (I : Loaded → Prop) (P : Load → Prop) {α : Type} (Q : α → Prop) : Fetch α → Prop
  | done {a : α} (result : Q a) : Upholds I P Q (done a)
  | waiting {loads : List Load} {resume : Loaded → Fetch α} (now : ∀ r ∈ loads, P r)
      (later : ∀ l, I l → Upholds I P Q (resume l)) : Upholds I P Q (waiting loads resume)

/-- The loads of the part are `P`, whatever it ends with. -/
def Asks (I : Loaded → Prop) (P : Load → Prop) (x : Fetch α) : Prop := x.Upholds I P fun _ => True

theorem Upholds.map {x : Fetch α} (h : x.Upholds I P Q) {f : α → β} (hf : ∀ a, Q a → Q' (f a)) :
    (x.map f).Upholds I P Q' := by
  induction h with
  | done result => exact .done (hf _ result)
  | waiting now _ ih => exact .waiting now ih

theorem Upholds.bind {x : Fetch α} (h : x.Upholds I P Q) {f : α → Fetch β}
    (hf : ∀ a, Q a → (f a).Upholds I P Q') : (x.bind f).Upholds I P Q' := by
  induction h with
  | done result => exact hf _ result
  | waiting now _ ih => exact .waiting now ih

theorem asks_done (a : α) : (done a).Asks I P := .done trivial

theorem Asks.map {x : Fetch α} (h : x.Asks I P) (f : α → β) : (x.map f).Asks I P :=
  Upholds.map h fun _ _ => trivial

/-- A load ends with what is found for it. -/
theorem upholds_load {l : Loaded} (hl : I l) {r : Load} (hr : P r) :
    (load l r).Upholds I P fun x =>
      I x.2 ∧ ∀ rows, x.1 = .ok rows → x.2.find? r = some (.ok rows) := by
  have found : ∀ {l : Loaded} {rows}, l.get r = .ok rows → l.find? r = some (.ok rows) := by
    intro l rows h
    unfold Loaded.get at h
    cases hfind : l.find? r with
    | none =>
      rw [hfind] at h
      cases h
    | some x =>
      rw [hfind] at h
      exact congrArg some h
  unfold load
  split
  next x hfind => exact .done ⟨hl, fun rows h => hfind.trans (congrArg some h)⟩
  next =>
    refine .waiting (List.forall_mem_singleton.2 hr) fun l' hl' => .done ⟨hl', fun rows h => ?_⟩
    exact found h

theorem Asks.alongside {x : Fetch (Report α)} {y : Fetch (Report β)} (hx : x.Asks I P)
    (hy : y.Asks I P) : (x.alongside y).Asks I P := by
  unfold Asks at hx
  induction hx generalizing y with
  | done =>
    unfold Fetch.alongside
    split
    · exact asks_done _
    · exact hy.map _
  | waiting now later ih =>
    cases hy with
    | done =>
      unfold Fetch.alongside
      split
      · exact asks_done _
      · exact .waiting now fun l hl => ih l hl (asks_done _)
    | waiting now' later' =>
      refine .waiting (fun r hr => ?_) fun l hl => ih l hl (later' l hl)
      rcases List.mem_append.1 hr with hr | hr
      · exact now r hr
      · exact now' r hr

theorem asks_together {xs : List (Fetch (Report α))} (h : ∀ x ∈ xs, x.Asks I P) :
    (together xs).Asks I P := by
  induction xs with
  | nil => exact asks_done _
  | cons x xs ih =>
    have rest := ih fun y hy => h y (List.mem_cons_of_mem x hy)
    exact ((h x List.mem_cons_self).alongside rest).map _

/-- Running a part keeps what making its loads keeps. -/
theorem Upholds.run {s : Store} {x : Fetch α} (h : x.Upholds I P Q)
    (step : ∀ l n loads, I l → (∀ r ∈ loads, P r) → I (makeLoads s l n loads).1) {l : Loaded}
    (hl : I l) (n : Nat) : I (x.run s l n).2.1 := by
  induction h generalizing l n with
  | done => exact hl
  | waiting now _ ih =>
    unfold Fetch.run
    exact ih _ (step l n _ hl now) (step l n _ hl now) _

end Fetch

/-! ## Reports -/

theorem Report.bind_eq_ok {r : Report α} {f : α → Report β} {b : β} :
    (r.bind f).result = .ok b ↔ ∃ a, r.result = .ok a ∧ (f a).result = .ok b := by
  unfold Report.bind
  cases r.result <;> simp

theorem Report.ofExcept_eq_ok {path : Path} {x : Except Fault α} {a : α} :
    (Report.ofExcept path x).result = .ok a ↔ x = .ok a := by
  cases x <;> simp [Report.ofExcept, Report.ofValue, Report.failed]

namespace Part

/-- The loads of a part that is known are `P`. -/
def Asks (I : Loaded → Prop) (P : Load → Prop) (p : Part α) : Prop :=
  ∀ x, p.result = .ok x → x.Asks I P

theorem asks_failed {f : Fault} {path : Path} : Part.Asks I P (.failed f path : Part α) := nofun

theorem asks_ofValue {x : Fetch (Report α)} (h : x.Asks I P) : Part.Asks I P (.ofValue x) := by
  intro y hy
  cases hy
  exact h

theorem asks_known (a : α) : Part.Asks I P (.known a) := asks_ofValue (Fetch.asks_done _)

theorem asks_bind {r : Report α} {f : α → Part β} (h : ∀ a, r.result = .ok a → (f a).Asks I P) :
    Part.Asks I P (r.bind f) := by
  intro x hx
  obtain ⟨a, ha, hx⟩ := Report.bind_eq_ok.1 hx
  exact h a ha x hx

theorem Asks.settle {nullable : Bool} {p : Part Value} (h : p.Asks I P) :
    (p.settle nullable).Asks I P := by
  intro x hx
  unfold Part.settle Report.settle at hx
  dsimp only at hx
  cases hp : p.result with
  | error e =>
    rw [hp] at hx
    cases nullable with
    | false => cases hx
    | true =>
      cases hx
      exact Fetch.asks_done _
  | ok y =>
    rw [hp] at hx
    have settled : x = y.map (Report.settle nullable .null) := by
      cases nullable <;> cases hx <;> rfl
    rw [settled]
    exact (h y hp).map _

theorem asks_checkNull {path : Path} {x : Fetch (Report Value)} (h : x.Asks I P) :
    Part.Asks I P (checkNull path x) := by
  unfold checkNull
  split
  · exact nofun
  · exact asks_ofValue h

theorem asks_afterwards {part : Part Value} (h : part.Asks I P) : (afterwards part).Asks I P := by
  unfold afterwards
  split
  · exact Fetch.asks_done _
  next x hx => exact (h x hx).map _

/-- The loads of several parts are `P`. -/
def AllAsk (I : Loaded → Prop) (P : Load → Prop) (r : Report (List (Fetch (Report α)))) : Prop :=
  ∀ xs, r.result = .ok xs → ∀ x ∈ xs, x.Asks I P

theorem asks_showObject {refusal : Option Fault} {path : Path}
    {fields : Report (List (Fetch (Report (String × Value))))} (h : AllAsk I P fields) :
    (showObject refusal path fields).Asks I P := by
  unfold showObject
  cases refusal with
  | some f => exact asks_failed
  | none =>
    exact asks_bind fun parts hparts => asks_ofValue ((Fetch.asks_together (h parts hparts)).map _)

end Part

end Parts

/-! ## Items -/

/-- All rows that an item shows are `R`. -/
inductive Item.Holds (R : Record → Prop) : Item → Prop
  | null : Item.Holds R .null
  | value (v : Value) : Item.Holds R (.value v)
  | count (c : PageCount) : Item.Holds R (.count c)
  | row {r : Record} (own : R r) : Item.Holds R (.row r)
  | connection {c : Connection} (nodes : ∀ r ∈ c.nodes, R r) : Item.Holds R (.connection c)
  | edge {e : Edge} (node : R e.node) : Item.Holds R (.edge e)
  | list {items : List Item} (all : ∀ item ∈ items, Item.Holds R item) : Item.Holds R (.list items)

section Items

variable {R : Record → Prop} {item : Item}

namespace Item

theorem holds_of_forall (h : ∀ r, R r) : (item : Item) → item.Holds R
  | null => .null
  | value v => .value v
  | row r => .row (h r)
  | connection _ => .connection fun r _ => h r
  | edge e => .edge (h e.node)
  | count c => .count c
  | list items => .list fun item _ => holds_of_forall h item

theorem holds_ofText? (t : Option String) : (ofText? t).Holds R := by
  cases t with
  | none => exact .null
  | some t => exact .value _

theorem holds_ofValue (v : Value) : (ofValue v).Holds R := by
  cases v with
  | null => exact .null
  | _ => exact .value _

theorem holds_ofRow? {r : Option Record} (h : ∀ row ∈ r, R row) : (ofRow? r).Holds R := by
  cases r with
  | none => exact .null
  | some row => exact .row (h row rfl)

end Item

theorem holds_connectionItem {c : Connection} (hc : ∀ r ∈ c.nodes, R r) {source : Source}
    (h : connectionItem c source = some item) : item.Holds R := by
  cases source with
  | edges =>
    cases h
    refine .list (List.forall_mem_map.2 fun e he => .edge ?_)
    exact hc _ (List.mem_map_of_mem he)
  | nodes =>
    cases h
    exact .list (List.forall_mem_map.2 fun r hr => .row (hc r hr))
  | pageInfo =>
    cases h
    exact .connection hc
  | pageCount =>
    unfold connectionItem at h
    cases hcount : c.count with
    | none =>
      rw [hcount] at h
      cases h
      exact .null
    | some n =>
      rw [hcount] at h
      cases h
      exact .count n
  | hasPrevious | hasNext =>
    cases h
    exact .value _
  | startCursor | endCursor =>
    cases h
    exact Item.holds_ofText? _
  | _ => cases h

theorem holds_edgeItem {e : Edge} (he : R e.node) {source : Source}
    (h : edgeItem e source = some item) : item.Holds R := by
  cases source with
  | edgeCursor =>
    cases h
    exact .value _
  | edgeNode =>
    cases h
    exact .row he
  | _ => cases h

theorem holds_columnItem {env : Environment} {f : ColumnField} {r : Record}
    (h : columnItem env f r = .ok item) : item.Holds R := by
  obtain ⟨_, -, h⟩ := bind_eq_ok.1 h
  dsimp only at h
  split at h <;>
  · obtain ⟨v, -, rfl⟩ := map_eq_ok.1 h
    exact Item.holds_ofValue v

/-- What a field that waits for nothing finds in an item shows rows of that item, if any. -/
theorem holds_itemOf {env : Environment} {typeName : String} {f : OutputField} {parent : Item}
    {Rows : Option String → Record → Prop} {rows : Option String} (hparent : parent.Holds (Rows rows))
    (h : itemOf env typeName f parent = .ok item) : item.Holds (Rows (f.below rows)) := by
  obtain ⟨fname, arguments, type, source⟩ := f
  unfold itemOf at h
  unfold OutputField.below
  cases hparent with
  | null | value | list =>
    cases source with
    | typeName =>
      cases h
      exact .value _
    | _ => cases h
  | count c =>
    cases source with
    | typeName | pages | current | offset | total =>
      cases h
      exact .value _
    | _ => cases h
  | row own =>
    cases source with
    | typeName =>
      cases h
      exact .value _
    | column c => exact holds_columnItem h
    | _ => cases h
  | connection nodes =>
    cases source with
    | typeName =>
      cases h
      exact .value _
    | column | relation => cases h
    | _ =>
      dsimp only at h ⊢
      split at h
      next found =>
        cases h
        exact holds_connectionItem nodes found
      next => cases h
  | edge node =>
    cases source with
    | typeName =>
      cases h
      exact .value _
    | column | relation => cases h
    | _ =>
      dsimp only at h ⊢
      split at h
      next found =>
        cases h
        exact holds_edgeItem node found
      next => cases h

theorem holds_itemsOf {items : List Item} (hi : item.Holds R) (h : itemsOf item = .ok items) :
    ∀ i ∈ items, i.Holds R := by
  have plain : ∀ vs : List Value, ∀ i ∈ vs.map Item.ofValue, i.Holds R := fun vs =>
    List.forall_mem_map.2 fun v _ => Item.holds_ofValue v
  cases hi with
  | value v =>
    cases v with
    | list vs | tuple vs =>
      cases h
      exact plain vs
    | _ => cases h
  | list all =>
    cases h
    exact all
  | _ => cases h

section Show

variable {I : Loaded → Prop} {P : Load → Prop} {fields : Item → Path → Part Value}
  (h : ∀ item path, item.Holds R → (fields item path).Asks I P)
include h

theorem allAsk_showItems {nullable : Bool} {path : Path} (i : Nat) {items : List Item}
    (hitems : ∀ item ∈ items, item.Holds R) :
    Part.AllAsk I P (showItems nullable fields path i items) := by
  induction items generalizing i with
  | nil =>
    intro xs hxs
    cases hxs
    exact nofun
  | cons item items ih =>
    rw [List.forall_mem_cons] at hitems
    intro xs hxs
    obtain ⟨x, hx, hxs⟩ := Report.bind_eq_ok.1 hxs
    obtain ⟨xs', hxs', hxs⟩ := Report.bind_eq_ok.1 hxs
    cases hxs
    rw [List.forall_mem_cons]
    exact ⟨(h item _ hitems.1).settle x hx, ih _ hitems.2 xs' hxs'⟩

/-- Items are shown with the loads of their fields. -/
theorem asks_showItem {s : TypeSystem} {type : TypeRef} (hi : item.Holds R) (path : Path) :
    (showItem s fields type item path).Asks I P := by
  induction type generalizing item path with
  | nonNull t ih =>
    unfold showItem
    exact Part.asks_bind fun x hx => Part.asks_checkNull (ih hi path x hx)
  | list t ih =>
    cases item with
    | null => exact Part.asks_known _
    | _ =>
      unfold showItem
      refine Part.asks_bind fun items hitems => Part.asks_bind fun parts hparts => ?_
      have own := holds_itemsOf hi (Report.ofExcept_eq_ok.1 hitems)
      have all := allAsk_showItems (fun item path hi => ih hi path) 0 own parts hparts
      exact Part.asks_ofValue ((Fetch.asks_together all).map _)
  | named type =>
    cases item with
    | null => exact Part.asks_known _
    | _ =>
      unfold showItem
      split
      · exact h _ path hi
      · exact Part.asks_bind fun _ _ => Part.asks_known _
      · exact Part.asks_failed

end Show

end Items

/-! ## Relations -/

section Related

variable {env : Environment} {r : RelationField} {target : Projection} {row : Record}
  {a : Arguments} {scope : Option (Predicate Value)} {rel : Related}

/-- What the field of a relation asks for under a row scope: a single row, or a page of several ones
under the filter and in the order of the client. -/
inductive Asked (env : Environment) (r : RelationField) (target : Projection) (row : Record)
    (a : Arguments) (scope : Option (Predicate Value)) : Related → Prop
  | one {load : Load} (single : r.isToMany = false)
    (loads : relatedLoad env.schema.codec r target row .null [] scope = .ok load) :
    Asked env r target row a scope ⟨load, target, .all⟩
  | page {request : PageRequest} {chosen : List Order} {load : Load} (many : r.isToMany = true)
    (pages : PageRequest.ofValue env.schema.context (a.get "pagination") = .ok request)
    (ordered : Order.ofValue target (a.get "orderBy") a.written = .ok chosen)
    (loads : relatedLoad env.schema.codec r target row (filterOf a)
      (if request.isCursor then Order.withKey chosen target.entity.primaryKey else chosen) scope =
        .ok load) :
    Asked env r target row a scope ⟨load, target, request⟩

theorem asked_of_related (h : related env r target row a = .ok rel) :
    ∃ scope, env.scope target .read = .ok scope ∧ Asked env r target row a scope rel := by
  unfold related at h
  obtain ⟨_, -, h⟩ := bind_eq_ok.1 h
  obtain ⟨_, -, h⟩ := bind_eq_ok.1 h
  obtain ⟨scope, hscope, h⟩ := bind_eq_ok.1 h
  split_ifs at h with many
  · obtain ⟨request, hrequest, h⟩ := bind_eq_ok.1 h
    obtain ⟨chosen, hchosen, h⟩ := bind_eq_ok.1 h
    obtain ⟨load, hload, h⟩ := bind_eq_ok.1 h
    cases h
    exact ⟨scope, hscope, .page many hrequest hchosen hload⟩
  · obtain ⟨load, hload, h⟩ := bind_eq_ok.1 h
    cases h
    exact ⟨scope, hscope, .one (Bool.eq_false_iff.2 many) hload⟩

theorem Asked.many (h : Asked env r target row a scope rel) : rel.load.many = r.isToMany := by
  cases h with
  | one _ loads | page _ _ _ loads =>
    obtain ⟨_, -, rfl⟩ := relatedLoad_eq_ok.1 loads
    rfl

end Related

theorem slice_sublist {α : Type} (start stop : Int) (xs : List α) :
    (Window.slice start stop xs).Sublist xs :=
  (List.drop_sublist _ _).trans (List.take_sublist _ _)

theorem within_paginate {codec : Codec} {key : List Column} {paths : List String}
    {rows : List Record} {request : PageRequest} {c : Connection}
    (h : Window.paginate codec key paths rows request = .ok c) :
    c.nodes ⊆ rows ∧ ∀ k, c.count = some k → k.total = rows.length := by
  unfold Window.paginate at h
  obtain ⟨edges, he, h⟩ := bind_eq_ok.1 h
  have nodes := Edge.nodes_ofRecords he
  have part : ∀ start stop, (Window.slice start stop edges).map (·.node) ⊆ rows := by
    intro start stop
    rw [← nodes]
    exact List.map_subset _ (slice_sublist start stop edges).subset
  cases request with
  | all =>
    cases h
    refine ⟨fun r hr => nodes ▸ hr, fun k hk => ?_⟩
    cases hk
    rfl
  | page number limit =>
    obtain ⟨k, hk, h⟩ := bind_eq_ok.1 h
    cases h
    refine ⟨part _ _, fun k' hk' => ?_⟩
    cases hk'
    exact Query.total_ofPage hk
  | offset start limit =>
    obtain ⟨k, hk, h⟩ := bind_eq_ok.1 h
    cases h
    refine ⟨part _ _, fun k' hk' => ?_⟩
    cases hk'
    exact Query.total_ofOffset hk
  | cursor after limit =>
    obtain ⟨_, -, h⟩ := bind_eq_ok.1 h
    cases h
    exact ⟨part _ _, nofun⟩

theorem holds_relatedItem {env : Environment} {rel : Related} {rows : List Record} {item : Item}
    {R : Record → Prop} (hrows : ∀ r ∈ rows, R r) (h : relatedItem env rel rows = .ok item) :
    item.Holds R := by
  unfold relatedItem at h
  split_ifs at h
  · obtain ⟨c, hc, rfl⟩ := map_eq_ok.1 h
    exact .connection fun r hr => hrows r ((within_paginate hc).1 hr)
  · cases h
    exact Item.holds_ofRow? fun r hr => hrows r (List.mem_of_mem_head? hr)

/-- What is known of the rows at hand and of single relations: which loads these ask for, and which
rows are found for them.  `F` is what is known of fields that show rows of an entity, `R` of rows of
an entity. -/
structure Follows (env : Environment) (I : Loaded → Prop) (P : Load → Prop)
    (F : Option String → OutputField → Prop) (R : Option String → Record → Prop) : Prop where
  asks : ∀ {env' rows f r name target row a rel}, env.Enters env' → F rows f →
    f.source = .relation r name → env.schema.projection name = .ok target → R rows row →
    related env' r target row a = .ok rel → rel.load.key.hasNull = false → P rel.load
  finds : ∀ {env' rows f r name target row a rel}, env.Enters env' → F rows f →
    f.source = .relation r name → env.schema.projection name = .ok target → R rows row →
    related env' r target row a = .ok rel →
    ∀ l found, I l → l.find? rel.load = some (.ok found) → ∀ row' ∈ found, R (f.below rows) row'

section Fields

variable {env : Environment} {I : Loaded → Prop} {P : Load → Prop}
  {F : Option String → OutputField → Prop} {R : Option String → Record → Prop}

/-- The field of a relation asks for its load, and then for those of the rows that are found. -/
theorem asks_showRelated {r : RelationField} {target : Projection} {row : Record} {a : Arguments}
    {path : Path} {part : Loaded → Item → Part Value} {Found : Record → Prop}
    (asks : ∀ rel, related env r target row a = .ok rel → rel.load.key.hasNull = false → P rel.load)
    (finds : ∀ rel, related env r target row a = .ok rel → ∀ l rows, I l →
      l.find? rel.load = some (.ok rows) → ∀ row' ∈ rows, Found row')
    (hpart : ∀ l item, I l → item.Holds Found → (part l item).Asks I P) {l : Loaded} (hl : I l) :
    (showRelated env r target row a path part l).Asks I P := by
  unfold showRelated
  split
  next => exact Fetch.asks_done _
  next rel hrel =>
    extract_lets shown
    have asks_shown : ∀ {l : Loaded} {rows : Except Fault (List Record)}, I l →
        (∀ found, rows = .ok found → ∀ row' ∈ found, Found row') → (shown l rows).Asks I P := by
      intro l rows hl hrows
      unfold shown
      split
      next => exact Fetch.asks_done _
      next item hitem =>
        obtain ⟨found, hfound, hitem⟩ := bind_eq_ok.1 hitem
        exact Part.asks_afterwards (hpart l item hl (holds_relatedItem (hrows found hfound) hitem))
    split_ifs with hnull
    · refine asks_shown hl fun found hfound => ?_
      cases hfound
      exact nofun
    · refine (Fetch.upholds_load hl (asks rel hrel (Bool.eq_false_iff.2 hnull))).bind fun x hx => ?_
      exact asks_shown hx.1 fun found hfound => finds rel hrel x.2 found hx.1 (hx.2 found hfound)

mutual

/-- `F` holds of the field and of those below it, each with the entity whose rows it shows. -/
def Planned.Along (F : Option String → OutputField → Prop) : Planned → Option String → Prop
  | ⟨_, field, _, _, _, selections⟩, rows =>
    F rows field ∧ Planned.AllAlong F selections (field.below rows)
termination_by structural p => p

/-- `F` holds of the fields and of those below them. -/
def Planned.AllAlong (F : Option String → OutputField → Prop) : List Planned → Option String → Prop
  | [], _ => True
  | p :: ps, rows => Planned.Along F p rows ∧ Planned.AllAlong F ps rows
termination_by structural ps => ps

end

theorem allAlong_iff {ps : List Planned} {rows : Option String} :
    Planned.AllAlong F ps rows ↔ ∀ p ∈ ps, Planned.Along F p rows := by
  induction ps with
  | nil => exact iff_of_true trivial nofun
  | cons p ps ih =>
    rw [List.forall_mem_cons, ← ih]
    rfl

mutual

theorem along_of_forall (h : ∀ rows f, F rows f) (p : Planned) (rows : Option String) :
    Planned.Along F p rows := by
  obtain ⟨key, field, arguments, written, refusal, selections⟩ := p
  exact ⟨h rows field, allAlong_of_forall h selections _⟩
termination_by structural p

theorem allAlong_of_forall (h : ∀ rows f, F rows f) (ps : List Planned) (rows : Option String) :
    Planned.AllAlong F ps rows := by
  cases ps with
  | nil => trivial
  | cons p ps => exact ⟨along_of_forall h p rows, allAlong_of_forall h ps rows⟩
termination_by structural ps

end

mutual

theorem asks_showField (follows : Follows env I P F R) (p : Planned) {rows : Option String}
    (hp : Planned.Along F p rows) (typeName : String) {parent : Item} (h : parent.Holds (R rows))
    (path : Path) {l : Loaded} (hl : I l) : (showField env p typeName parent path l).Asks I P := by
  obtain ⟨key, field, arguments, written, refusal, selections⟩ := p
  obtain ⟨own, inner⟩ := hp
  have whole : ∀ (l : Loaded) (item : Item), I l → item.Holds (R (field.below rows)) →
      Part.Asks I P (showItem env.schema.types (fun item path => showObject refusal path
        (showFields env selections field.type.base item path l)) field.type item
          (path ++ [.key key])) := fun l item hl hi =>
    asks_showItem (fun item path hi => Part.asks_showObject
      (allAsk_showFields follows selections inner field.type.base hi path hl)) hi _
  unfold showField
  refine Part.Asks.settle ?_
  split
  next => exact Part.asks_failed
  next r target row source =>
    cases h with
    | row h =>
      refine Part.asks_bind fun t ht => Part.asks_ofValue ?_
      replace ht := Report.ofExcept_eq_ok.1 ht
      have entered := env.enters_enter typeName field.name (path ++ [.key key])
      exact asks_showRelated (fun rel => follows.asks entered own source ht h)
        (fun rel hrel => follows.finds entered own source ht h hrel) whole hl
  next =>
    refine Part.asks_bind fun item hitem => whole l item hl ?_
    exact holds_itemOf h (Report.ofExcept_eq_ok.1 hitem)
termination_by structural p

theorem allAsk_showFields (follows : Follows env I P F R) (ps : List Planned) {rows : Option String}
    (hps : Planned.AllAlong F ps rows) (typeName : String) {parent : Item}
    (h : parent.Holds (R rows)) (path : Path) {l : Loaded} (hl : I l) :
    Part.AllAsk I P (showFields env ps typeName parent path l) := by
  cases ps with
  | nil =>
    intro xs hxs
    cases hxs
    exact nofun
  | cons p ps =>
    intro xs hxs
    unfold showFields at hxs
    obtain ⟨x, hx, hxs⟩ := Report.bind_eq_ok.1 hxs
    obtain ⟨xs', hxs', hxs⟩ := Report.bind_eq_ok.1 hxs
    cases hxs
    rw [List.forall_mem_cons]
    exact ⟨(asks_showField follows p hps.1 typeName h path hl x hx).map _,
      allAsk_showFields follows ps hps.2 typeName h path hl xs' hxs'⟩
termination_by structural ps

end

/-! ## Fields of the root -/

section Roots

variable {s : Store} (follows : Follows env I P F R)
  (step : ∀ l n loads, I l → (∀ r ∈ loads, P r) → I (Fetch.makeLoads s l n loads).1)
include follows step

/-- Showing what a field of the root finds keeps what making loads keeps. -/
theorem upholds_showRoot {p : Planned} {rows : Option String}
    (hp : Planned.AllAlong F p.selections rows) {found : Counted Item} {n : Nat}
    (hfound : ∀ item m, found.run n = .ok (item, m) → item.Holds (R rows)) {l : Loaded} (hl : I l) :
    I (showRoot env s p found l n).2.1 := by
  unfold showRoot
  cases hrun : found.run n with
  | error f => exact hl
  | ok x =>
    obtain ⟨item, m⟩ := x
    have shown : Part.Asks I P (showFound env p item (rootPath p) l) :=
      asks_showItem (fun item path hi => Part.asks_showObject
        (allAsk_showFields follows p.selections hp p.field.type.base hi path hl))
          (hfound item m hrun) _
    exact (Part.asks_afterwards shown).run step hl m

/-- Reading fields of the root one after another keeps what making loads keeps. -/
theorem upholds_readRoots {qs : List Prepared}
    (hqs : ∀ q ∈ qs, ∃ rows, Planned.AllAlong F q.planned.selections rows ∧
      ∀ r, q.reading = some r → ∀ n item m, (r.run env.schema.codec s).run n = .ok (item, m) →
        item.Holds (R rows)) {l : Loaded} (hl : I l) (n : Nat) : I (readRoots env s qs l n).2.1 := by
  induction qs generalizing l n with
  | nil => exact hl
  | cons q qs ih =>
    obtain ⟨rows, along, holds⟩ := hqs q List.mem_cons_self
    have rest := fun {l : Loaded} => @ih (fun q hq => hqs q (List.mem_cons_of_mem _ hq)) l
    unfold readRoots
    dsimp only
    cases hreading : q.reading with
    | none => exact rest hl n
    | some r =>
      have first : I (showRoot env s q.planned (r.run env.schema.codec s) l n).2.1 :=
        upholds_showRoot follows step along (holds r hreading n) hl
      dsimp only
      split
      · exact first
      · exact rest first _

end Roots

end Fields

end Answer

end TableGraph
