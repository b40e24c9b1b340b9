import TableGraph.Answer.Reading
import TableGraph.Proofs.Selection

/-!
# Pages within a row scope

A page and a row by key are read under a condition that includes the row scope.  Whatever the
request asks for, the rows delivered and the rows counted are rows that the scope lets through: the
anchor of a cursor only narrows the condition, and the rows looked for on either side of the page
are not delivered.
-/

namespace TableGraph

/-! ## Rows a scope lets through -/

namespace Store

variable {s : Store} {name : String} {scope : Option (Predicate Value)}

/-- The record is read off a row of the table that the scope lets through. -/
def Shows (s : Store) (name : String) (scope : Option (Predicate Value)) (record : Record) : Prop :=
  ∃ t, s.table name = .ok t ∧ ∃ r ∈ t.rows, t.read r = .ok record ∧ t.Within scope r

/-- The number counts rows of the table that the scope lets through. -/
def Counts (s : Store) (name : String) (scope : Option (Predicate Value)) (total : Int) : Prop :=
  ∃ rows : List Row, total = rows.length ∧
    ∀ r ∈ rows, ∃ t, s.table name = .ok t ∧ r ∈ t.rows ∧ t.Within scope r

/-- The number counts different rows of the table, all of which the scope lets through. -/
def CountsOnce (s : Store) (name : String) (scope : Option (Predicate Value))
    (total : Int) : Prop :=
  ∃ t, ∃ rows : List Row, s.table name = .ok t ∧ rows.Sublist t.rows ∧ total = rows.length ∧
    ∀ r ∈ rows, t.Within scope r

theorem CountsOnce.counts {total : Int} (h : s.CountsOnce name scope total) :
    s.Counts name scope total := by
  obtain ⟨t, rows, ht, hsub, htotal, hin⟩ := h
  exact ⟨rows, htotal, fun r hr => ⟨t, ht, hsub.mem hr, hin r hr⟩⟩

/-- Records that a scope lets through can be counted. -/
theorem counts_of_shows {records : List Record} (h : ∀ r ∈ records, s.Shows name scope r) :
    s.Counts name scope records.length := by
  induction records with
  | nil => exact ⟨[], rfl, nofun⟩
  | cons record records ih =>
    obtain ⟨rows, hlen, hin⟩ := ih fun r hr => h r (List.mem_cons_of_mem record hr)
    obtain ⟨t, ht, r, hr, -, hw⟩ := h record List.mem_cons_self
    refine ⟨r :: rows, by simpa using hlen, ?_⟩
    rw [List.forall_mem_cons]
    exact ⟨⟨t, ht, hr, hw⟩, hin⟩

end Store

/-! ## Statements under a condition -/

/-- The condition lets a row through only if the scope does, whatever the table. -/
def Predicate.Narrows (p : Predicate Value) (scope : Option (Predicate Value)) : Prop :=
  ∀ t r, Table.Accepts t p r → t.Within scope r

namespace Predicate

variable {p q : Predicate Value} {scope : Option (Predicate Value)}

theorem narrows_andAlso : (p.andAlso scope).Narrows scope :=
  fun _ _ h => (Table.accepts_andAlso.1 h).2

theorem Narrows.allOf_cons {ps : List (Predicate Value)} (h : p.Narrows scope) :
    (allOf (p :: ps)).Narrows scope :=
  fun t r hr => h t r (Table.accepts_allOf.1 hr p List.mem_cons_self)

end Predicate

namespace Query

variable {codec : Codec} {s : Store} {p : Projection} {condition : Predicate Value}
  {scope : Option (Predicate Value)} {n m : Nat}

theorem shows_of_ask_select (hc : condition.Narrows scope) {orders : List Order}
    {limit : Option Int} {offset : Int} {records : List Record}
    (h : (s.ask p.name fun t => t.select condition orders limit offset).run n = .ok (records, m)) :
    ∀ r ∈ records, s.Shows p.name scope r := by
  intro record hr
  obtain ⟨t, ht, hs, -⟩ := Store.run_ask_eq_ok.1 h
  obtain ⟨r, hin, hread, hacc⟩ := Table.exists_of_mem_select hs hr
  exact ⟨t, ht, r, hin, hread, hc t r hacc⟩

theorem countsOnce_of_count (hc : condition.Narrows scope) {total : Int}
    (h : (count s p condition).run n = .ok (total, m)) : s.CountsOnce p.name scope total := by
  unfold count at h
  obtain ⟨rows, k, hask, h⟩ := Counted.run_bind_eq_ok.1 h
  obtain ⟨rfl, -⟩ := Counted.run_pure_eq_ok.1 h
  obtain ⟨t, ht, hm, -⟩ := Store.run_ask_eq_ok.1 hask
  refine ⟨t, rows, ht, ?_, rfl, fun r hr => hc t r ((Table.mem_matching hm).1 hr).2⟩
  obtain ⟨q, -, rfl⟩ := Table.matching_eq_ok.1 hm
  exact List.filter_sublist

theorem shows_of_first (hc : condition.Narrows scope) {record : Record}
    (h : (first? s p condition).run n = .ok (some record, m)) : s.Shows p.name scope record := by
  unfold first? at h
  obtain ⟨rows, k, hask, h⟩ := Counted.run_bind_eq_ok.1 h
  obtain ⟨hhead, -⟩ := Counted.run_pure_eq_ok.1 h
  exact shows_of_ask_select hc hask record (List.mem_of_mem_head? hhead)

theorem narrows_of_behind (hc : condition.Narrows scope) {orders : List Order}
    {after : Option String} {narrowed : Predicate Value}
    (h : (behind codec s p condition orders after).run n = .ok (narrowed, m)) :
    narrowed.Narrows scope := by
  unfold behind at h
  cases after with
  | none =>
    obtain ⟨rfl, -⟩ := Counted.run_pure_eq_ok.1 h
    exact hc
  | some cursor =>
    obtain ⟨_, _, -, h⟩ := Counted.run_bind_eq_ok.1 h
    obtain ⟨_, _, -, h⟩ := Counted.run_bind_eq_ok.1 h
    obtain ⟨rfl, -⟩ := Counted.run_pure_eq_ok.1 h
    exact hc.allOf_cons

theorem nodes_of_around {orders : List Order} {after : Option String} {limit : Int}
    {rows : List Record} {c : Connection}
    (h : (around codec s p condition orders after limit rows).run n = .ok (c, m)) :
    c.nodes = rows ∧ c.count = none := by
  unfold around at h
  split at h
  · obtain ⟨_, _, -, h⟩ := Counted.run_bind_eq_ok.1 h
    obtain ⟨_, _, -, h⟩ := Counted.run_bind_eq_ok.1 h
    exact nodes_page (Counted.run_lift_eq_ok.1 h).1
  · exact nodes_page (Counted.run_lift_eq_ok.1 h).1

/-- The rows of a page behind a cursor, and of the first one; such a page is not counted. -/
theorem shows_of_cursorPage (hc : condition.Narrows scope) {orders : List Order}
    {after : Option String} {limit : Int} {c : Connection}
    (h : (cursorPage codec s p condition orders after limit).run n = .ok (c, m)) :
    (∀ r ∈ c.nodes, s.Shows p.name scope r) ∧ c.count = none := by
  unfold cursorPage at h
  obtain ⟨narrowed, _, hnarrowed, h⟩ := Counted.run_bind_eq_ok.1 h
  obtain ⟨rows, _, hrows, h⟩ := Counted.run_bind_eq_ok.1 h
  obtain ⟨hnodes, hcount⟩ := nodes_of_around h
  rw [hnodes]
  exact ⟨shows_of_ask_select (narrows_of_behind hc hnarrowed) hrows, hcount⟩

theorem total_ofPage {total limit number : Int} {k : PageCount}
    (h : PageCount.ofPage total limit number = .ok k) : k.total = total := by
  obtain ⟨_, -, h⟩ := bind_eq_ok.1 h
  cases h
  rfl

theorem total_ofOffset {total limit start : Int} {k : PageCount}
    (h : PageCount.ofOffset total limit start = .ok k) : k.total = total := by
  obtain ⟨_, -, h⟩ := bind_eq_ok.1 h
  obtain ⟨_, -, h⟩ := bind_eq_ok.1 h
  cases h
  rfl

theorem countsOnce_of_all (hc : condition.Narrows scope) {orders : List Order}
    {records : List Record}
    (h : (s.ask p.name fun t => t.select condition orders none 0).run n = .ok (records, m)) :
    s.CountsOnce p.name scope records.length := by
  obtain ⟨t, ht, hs, -⟩ := Store.run_ask_eq_ok.1 h
  obtain ⟨rows, hm, hread⟩ := Table.select_eq_ok.1 hs
  refine ⟨t, rows, ht, ?_, ?_, fun r hr => hc t r ((Table.mem_matching hm).1 hr).2⟩
  · obtain ⟨q, -, rfl⟩ := Table.matching_eq_ok.1 hm
    exact List.filter_sublist
  · rw [length_of_mapM hread]
    show (((t.sorted orders rows).drop 0).length : Int) = _
    rw [List.drop_zero, (Table.sorted_perm t orders rows).length_eq]

/-- The page of any request consists of, and counts, rows that the scope lets through. -/
theorem shows_of_connection (hc : condition.Narrows scope) {orders : List Order}
    {request : PageRequest} {c : Connection}
    (h : (connection codec s p condition orders request).run n = .ok (c, m)) :
    (∀ r ∈ c.nodes, s.Shows p.name scope r) ∧
      ∀ k, c.count = some k → s.CountsOnce p.name scope k.total := by
  unfold connection at h
  cases request with
  | cursor after limit =>
    obtain ⟨shown, none⟩ := shows_of_cursorPage hc h
    refine ⟨shown, fun k hk => ?_⟩
    rw [none] at hk
    cases hk
  | all =>
    obtain ⟨rows, _, hrows, h⟩ := Counted.run_bind_eq_ok.1 h
    obtain ⟨hnodes, hcount⟩ := nodes_page (Counted.run_lift_eq_ok.1 h).1
    rw [hnodes, hcount]
    refine ⟨shows_of_ask_select hc hrows, fun k hk => ?_⟩
    cases hk
    exact countsOnce_of_all hc hrows
  | page number limit =>
    obtain ⟨total, _, htotal, h⟩ := Counted.run_bind_eq_ok.1 h
    obtain ⟨rows, _, hrows, h⟩ := Counted.run_bind_eq_ok.1 h
    obtain ⟨k, _, hk, h⟩ := Counted.run_bind_eq_ok.1 h
    obtain ⟨hnodes, hcount⟩ := nodes_page (Counted.run_lift_eq_ok.1 h).1
    rw [hnodes, hcount]
    refine ⟨shows_of_ask_select hc hrows, fun k' hk' => ?_⟩
    cases hk'
    rw [total_ofPage (Counted.run_lift_eq_ok.1 hk).1]
    exact countsOnce_of_count hc htotal
  | offset start limit =>
    obtain ⟨total, _, htotal, h⟩ := Counted.run_bind_eq_ok.1 h
    obtain ⟨rows, _, hrows, h⟩ := Counted.run_bind_eq_ok.1 h
    obtain ⟨k, _, hk, h⟩ := Counted.run_bind_eq_ok.1 h
    obtain ⟨hnodes, hcount⟩ := nodes_page (Counted.run_lift_eq_ok.1 h).1
    rw [hnodes, hcount]
    refine ⟨shows_of_ask_select hc hrows, fun k' hk' => ?_⟩
    cases hk'
    rw [total_ofOffset (Counted.run_lift_eq_ok.1 hk).1]
    exact countsOnce_of_count hc htotal

end Query

/-! ## Fields of the root -/

namespace Answer

open TableGraph.Graph

/-- What a field finds consists of rows that a scope lets through, and so does what it counts. -/
def Item.Within (s : Store) (name : String) (scope : Option (Predicate Value)) : Item → Prop
  | .null => True
  | .row r => s.Shows name scope r
  | .connection c =>
    (∀ r ∈ c.nodes, s.Shows name scope r) ∧ ∀ k, c.count = some k → s.Counts name scope k.total
  | _ => False

variable {env : Environment} {s : Store} {p : Projection} {a : Arguments} {reading : Reading}
  {item : Item} {n m : Nat}

theorem exists_of_ofPage (h : Reading.ofPage env p a = .ok reading) :
    ∃ scope orders request, ∃ c : Predicate Value, env.scope p .read = .ok scope ∧
      reading = .page p (c.andAlso scope) orders request := by
  unfold Reading.ofPage at h
  obtain ⟨_, -, h⟩ := bind_eq_ok.1 h
  obtain ⟨request, -, h⟩ := bind_eq_ok.1 h
  obtain ⟨orders, -, h⟩ := bind_eq_ok.1 h
  obtain ⟨scope, hscope, h⟩ := bind_eq_ok.1 h
  obtain ⟨c, -, h⟩ := bind_eq_ok.1 h
  cases h
  exact ⟨scope, orders, request, c, hscope, rfl⟩

theorem exists_of_ofKey (h : Reading.ofKey env p a = .ok reading) :
    ∃ scope key, env.scope p .read = .ok scope ∧ reading = .row p key scope := by
  unfold Reading.ofKey at h
  obtain ⟨_, -, h⟩ := bind_eq_ok.1 h
  obtain ⟨key, -, h⟩ := bind_eq_ok.1 h
  obtain ⟨scope, hscope, h⟩ := bind_eq_ok.1 h
  cases h
  exact ⟨scope, key, hscope, rfl⟩

/-- A page of the root is within the row scope for reading, and counts each row once. -/
theorem within_of_page (h : Reading.ofPage env p a = .ok reading)
    (hrun : (reading.run env.schema.codec s).run n = .ok (item, m)) :
    ∃ scope, ∃ c : Connection, env.scope p .read = .ok scope ∧ item = .connection c ∧
      (∀ r ∈ c.nodes, s.Shows p.name scope r) ∧
      ∀ k, c.count = some k → s.CountsOnce p.name scope k.total := by
  obtain ⟨scope, orders, request, condition, hscope, rfl⟩ := exists_of_ofPage h
  obtain ⟨c, hc, rfl⟩ := Counted.run_map_eq_ok.1 hrun
  exact ⟨scope, c, hscope, rfl, Query.shows_of_connection Predicate.narrows_andAlso hc⟩

/-- A row by key is within the row scope for reading. -/
theorem within_of_key (h : Reading.ofKey env p a = .ok reading)
    (hrun : (reading.run env.schema.codec s).run n = .ok (item, m)) :
    ∃ scope, env.scope p .read = .ok scope ∧ item.Within s p.name scope := by
  obtain ⟨scope, key, hscope, rfl⟩ := exists_of_ofKey h
  obtain ⟨found, hfound, rfl⟩ := Counted.run_map_eq_ok.1 hrun
  refine ⟨scope, hscope, ?_⟩
  cases found with
  | none => trivial
  | some record => exact Query.shows_of_first Predicate.narrows_andAlso hfound

end Answer

end TableGraph
