import TableGraph.Proofs.EntityTable
import TableGraph.Proofs.Filter.Columns
import TableGraph.Proofs.Hidden.Visible
import TableGraph.Proofs.Outcome

/-!
# Rows that differ in one column

Two states of a table may differ in one column only, each row being readable in one state exactly if
its counterpart is in the other.  A statement that tests, orders by and matches other columns finds
counterparts in both, in the same order, and what it reads of them differs in that column at most.

`Both R x x'` says of the outcomes of two runs that they fail with one fault or give what `R`
relates, `Counted.Both` says it of computations that also send as many statements.  Steps that keep
such a relation keep it one after another.
-/

namespace TableGraph

/-! ## Two runs side by side -/

/-- Both runs fail with one fault, or both give something and `R` relates what they give. -/
inductive Both {ε α β : Type} (R : α → β → Prop) : Except ε α → Except ε β → Prop
  | ok {a : α} {b : β} (related : R a b) : Both R (.ok a) (.ok b)
  | error (f : ε) : Both R (.error f) (.error f)

namespace Both

variable {ε α β γ δ : Type} {R : α → β → Prop} {S : γ → δ → Prop} {x : Except ε α}
  {y : Except ε β}

theorem refl {R : α → α → Prop} (h : ∀ a, R a a) (x : Except ε α) : Both R x x := by
  cases x with
  | error f => exact .error f
  | ok a => exact .ok (h a)

theorem eq {x y : Except ε α} (h : Both Eq x y) : x = y := by
  cases h with
  | ok related => rw [related]
  | error f => rfl

theorem bind (h : Both R x y) {f : α → Except ε γ} {g : β → Except ε δ}
    (hfg : ∀ a b, R a b → Both S (f a) (g b)) : Both S (x >>= f) (y >>= g) := by
  cases h with
  | ok related => exact hfg _ _ related
  | error fault => exact .error fault

theorem map (h : Both R x y) {f : α → γ} {g : β → δ} (hfg : ∀ a b, R a b → S (f a) (g b)) :
    Both S (f <$> x) (g <$> y) := by
  cases h with
  | ok related => exact .ok (hfg _ _ related)
  | error fault => exact .error fault

theorem imp (h : Both R x y) {R' : α → β → Prop} (weaken : ∀ a b, R a b → R' a b) :
    Both R' x y := by
  cases h with
  | ok related => exact .ok (weaken _ _ related)
  | error fault => exact .error fault

/-- Steps over related lists keep their relation item by item. -/
theorem mapM {P : α → β → Prop} {xs : List α} {ys : List β} (h : List.Forall₂ P xs ys)
    {f : α → Except ε γ} {g : β → Except ε δ} (hfg : ∀ a b, P a b → Both S (f a) (g b)) :
    Both (List.Forall₂ S) (xs.mapM f) (ys.mapM g) := by
  induction h with
  | nil => exact .ok .nil
  | cons hab _ ih =>
    rw [List.mapM_cons, List.mapM_cons]
    exact (hfg _ _ hab).bind fun c d hcd => ih.bind fun cs ds hcds => .ok (.cons hcd hcds)

theorem head? {P : α → β → Prop} {xs : List α} {ys : List β} (h : List.Forall₂ P xs ys) :
    Option.Rel P xs.head? ys.head? := by
  cases h with
  | nil => exact .none
  | cons hab _ => exact .some hab

theorem getLast? {P : α → β → Prop} {xs : List α} {ys : List β} (h : List.Forall₂ P xs ys) :
    Option.Rel P xs.getLast? ys.getLast? := by
  rw [← List.head?_reverse, ← List.head?_reverse]
  exact head? (List.rel_reverse h)

end Both

/-! ## Computations that send statements -/

/-- Both runs send as many statements, and fail alike or give what `R` relates. -/
def Counted.Both {α β : Type} (R : α → β → Prop) (x : Counted α) (y : Counted β) : Prop :=
  ∀ n, TableGraph.Both (fun a b => R a.1 b.1 ∧ a.2 = b.2) (x.run n) (y.run n)

namespace Counted.Both

variable {α β γ δ : Type} {R : α → β → Prop} {S : γ → δ → Prop} {x : Counted α} {y : Counted β}

theorem refl {R : α → α → Prop} (h : ∀ a, R a a) (x : Counted α) : Counted.Both R x x :=
  fun n => .refl (fun a => ⟨h a.1, rfl⟩) (x.run n)

theorem pure {a : α} {b : β} (h : R a b) : Counted.Both R (pure a) (pure b) :=
  fun _ => .ok ⟨h, rfl⟩

theorem lift {x : Except Fault α} {y : Except Fault β} (h : TableGraph.Both R x y) :
    Counted.Both R (liftM x) (liftM y) := by
  intro n
  rw [Counted.run_lift, Counted.run_lift]
  exact h.map fun a b related => ⟨related, rfl⟩

theorem bind (h : Counted.Both R x y) {f : α → Counted γ} {g : β → Counted δ}
    (hfg : ∀ a b, R a b → Counted.Both S (f a) (g b)) : Counted.Both S (x >>= f) (y >>= g) := by
  intro n
  rw [StateT.run_bind, StateT.run_bind]
  refine (h n).bind fun a b related => ?_
  rw [← related.2]
  exact hfg _ _ related.1 a.2

theorem map (h : Counted.Both R x y) {f : α → γ} {g : β → δ}
    (hfg : ∀ a b, R a b → S (f a) (g b)) : Counted.Both S (f <$> x) (g <$> y) := by
  rw [map_eq_pure_bind, map_eq_pure_bind]
  exact h.bind fun a b related => .pure (hfg a b related)

/-- A statement on two tables that are related. -/
theorem ask {s s' : Store} {name : String} {T : Table → Table → Prop}
    (table : TableGraph.Both T (s.table name) (s'.table name)) {f : Table → Except Fault α}
    {g : Table → Except Fault β} (h : ∀ t t', T t t' → TableGraph.Both R (f t) (g t')) :
    Counted.Both R (s.ask name f) (s'.ask name g) := by
  intro n
  rw [Store.run_ask, Store.run_ask]
  exact (table.bind h).map fun a b related => ⟨related, rfl⟩

end Counted.Both

/-! ## Rows -/

/-- A column of an entity. -/
structure Spot where
  entity : String
  column : String

namespace Spot

/-- The column of an entity is another one than this. -/
def Clear (spot : Spot) (name column : String) : Prop := name = spot.entity → column ≠ spot.column

/-- The columns that an order is by are other ones. -/
def ClearOrders (spot : Spot) (name : String) (orders : List Order) : Prop :=
  ∀ o ∈ orders, spot.Clear name o.column

theorem clearOrders_nil {spot : Spot} {name : String} : spot.ClearOrders name [] :=
  fun _ ho => absurd ho List.not_mem_nil

end Spot

variable {spot : Spot} {name : String}

/-- Records of rows of an entity that differ in one column at most. -/
def Record.Alike (spot : Spot) (name : String) (r r' : Record) : Prop :=
  ∀ column, spot.Clear name column → r.get column = r'.get column

/-- Rows of an entity that differ in one column at most. -/
def Row.Alike (spot : Spot) (name : String) (r r' : Row) : Prop :=
  ∀ column, spot.Clear name column → r.get column = r'.get column

theorem Record.alike_refl (r : Record) : r.Alike spot name r := fun _ _ => rfl

/-! ## Conditions -/

namespace Predicate

variable {columns : String → Prop} {f : String → Test Value → Except Fault (Test Cell)} {r r' : Row}

mutual

/-- Binding the operands leaves the columns. -/
theorem Over.mapM {p : Predicate Value} (h : p.Over columns) {q : Predicate Cell}
    (hq : p.mapM f = .ok q) : q.Over columns := by
  match p with
  | .always =>
    cases hq
    exact .always
  | .tautology =>
    cases hq
    exact .tautology
  | .test c t =>
    obtain ⟨t', -, rfl⟩ := map_eq_ok.1 hq
    cases h with
    | test known => exact .test known
  | .expression e =>
    cases hq
    cases h with
    | expression known => exact .expression known
  | .all ps =>
    obtain ⟨qs, hqs, rfl⟩ := map_eq_ok.1 hq
    cases h with
    | all parts => exact .all (Over.mapMItems parts hqs)
  | .any ps =>
    obtain ⟨qs, hqs, rfl⟩ := map_eq_ok.1 hq
    cases h with
    | any parts => exact .any (Over.mapMItems parts hqs)
termination_by structural p

theorem Over.mapMItems {ps : List (Predicate Value)} {qs : List (Predicate Cell)}
    (h : List.Forall₂ (Alike (fun c _ _ => columns c) fun e _ => ∀ c ∈ e.columns, columns c) ps ps)
    (hqs : mapMItems f ps = .ok qs) :
    List.Forall₂ (Alike (fun c _ _ => columns c) fun e _ => ∀ c ∈ e.columns, columns c) qs qs := by
  match ps with
  | [] =>
    cases hqs
    exact .nil
  | p :: ps =>
    obtain ⟨q, hq, hqs⟩ := bind_eq_ok.1 hqs
    obtain ⟨rest, hrest, hqs⟩ := bind_eq_ok.1 hqs
    cases hqs
    cases h with
    | cons hp hps => exact .cons (Over.mapM hp hq) (Over.mapMItems hps hrest)
termination_by structural ps

end

mutual

/-- A condition says the same of rows that agree in its columns. -/
theorem Over.holds_congr {p : Predicate Cell} (h : p.Over columns)
    (same : ∀ c, columns c → r.get c = r'.get c) : p.holds r = p.holds r' := by
  match p with
  | .always | .tautology => rfl
  | .test c t =>
    cases h with
    | test known =>
      show t.holds (r.get c) = t.holds (r'.get c)
      rw [same c known]
  | .expression e =>
    cases h with
    | expression known =>
      show e.holds (e.columns.map r.get) = e.holds (e.columns.map r'.get)
      rw [List.map_congr_left fun c hc => same c (known c hc)]
  | .all ps =>
    cases h with
    | all parts => exact Over.allHold_congr parts same
  | .any ps =>
    cases h with
    | any parts => exact Over.anyHolds_congr parts same
termination_by structural p

theorem Over.allHold_congr {ps : List (Predicate Cell)}
    (h : List.Forall₂ (Alike (fun c _ _ => columns c) fun e _ => ∀ c ∈ e.columns, columns c) ps ps)
    (same : ∀ c, columns c → r.get c = r'.get c) : allHold ps r = allHold ps r' := by
  match ps with
  | [] => rfl
  | p :: ps =>
    cases h with
    | cons hp hps =>
      show (p.holds r).both (allHold ps r) = (p.holds r').both (allHold ps r')
      rw [Over.holds_congr hp same, Over.allHold_congr hps same]
termination_by structural ps

theorem Over.anyHolds_congr {ps : List (Predicate Cell)}
    (h : List.Forall₂ (Alike (fun c _ _ => columns c) fun e _ => ∀ c ∈ e.columns, columns c) ps ps)
    (same : ∀ c, columns c → r.get c = r'.get c) : anyHolds ps r = anyHolds ps r' := by
  match ps with
  | [] => rfl
  | p :: ps =>
    cases h with
    | cons hp hps =>
      show (p.holds r).either (anyHolds ps r) = (p.holds r').either (anyHolds ps r')
      rw [Over.holds_congr hp same, Over.anyHolds_congr hps same]
termination_by structural ps

end

theorem Over.accepts_congr {p : Predicate Cell} (h : p.Over columns)
    (same : ∀ c, columns c → r.get c = r'.get c) : p.accepts r = p.accepts r' := by
  unfold accepts
  rw [h.holds_congr same]

end Predicate

/-! ## Tables -/

namespace Table

/-- Two states of a table that differ in one column at most, which is not of the key, where rows can
be read in both states or in none. -/
structure Alike (spot : Spot) (t t' : Table) : Prop where
  name : t'.name = t.name
  columns : t'.columns = t.columns
  key : t'.key = t.key
  keys : ∀ k ∈ t.key, spot.Clear t.name k
  rows : List.Forall₂ (fun r r' => r.Alike spot t.name r' ∧ (t.read r).isOk = (t.read r').isOk)
    t.rows t'.rows

variable {t t' : Table} {orders : List Order} {p : Predicate Value}

/-- Rows that are counterparts of one another. -/
abbrev Rows (spot : Spot) (t : Table) : List Row → List Row → Prop :=
  List.Forall₂ fun r r' => r.Alike spot t.name r' ∧ (t.read r).isOk = (t.read r').isOk

theorem compareRows_congr {a a' b b' : Row} (horders : spot.ClearOrders name orders)
    (ha : a.Alike spot name a') (hb : b.Alike spot name b') :
    compareRows orders a b = compareRows orders a' b' := by
  induction orders with
  | nil => rfl
  | cons o orders ih =>
    have clear := horders o List.mem_cons_self
    rw [compareRows_cons, compareRows_cons, ih fun o ho => horders o (List.mem_cons_of_mem _ ho)]
    unfold compareBy
    rw [ha _ clear, hb _ clear]

theorem exists_zip {α β : Type} {R : α → β → Prop} {xs : List α} {ys : List β}
    (h : List.Forall₂ R xs ys) :
    ∃ ps : List (α × β), ps.map (·.1) = xs ∧ ps.map (·.2) = ys ∧ ∀ p ∈ ps, R p.1 p.2 := by
  induction h with
  | nil => exact ⟨[], rfl, rfl, nofun⟩
  | @cons a b _ _ hab _ ih =>
    obtain ⟨ps, hxs, hys, hps⟩ := ih
    exact ⟨(a, b) :: ps, by rw [List.map_cons, hxs], by rw [List.map_cons, hys],
      List.forall_mem_cons.2 ⟨hab, hps⟩⟩

theorem forall₂_of_zip {α β : Type} {R : α → β → Prop} {ps : List (α × β)}
    (h : ∀ p ∈ ps, R p.1 p.2) : List.Forall₂ R (ps.map (·.1)) (ps.map (·.2)) := by
  rw [List.forall₂_map_left_iff, List.forall₂_map_right_iff, List.forall₂_same]
  exact h

/-- An order by other columns is completed by the key. -/
theorem clear_fullOrder (keys : ∀ k ∈ t.key, spot.Clear t.name k)
    (horders : spot.ClearOrders t.name orders) :
    spot.ClearOrders t.name (t.fullOrder orders) := by
  refine List.forall_mem_append.2 ⟨horders, fun o ho => ?_⟩
  obtain ⟨k, hk, rfl⟩ := List.mem_map.1 ho
  exact keys k hk

/-- Counterparts are sorted to the same places. -/
theorem sorted_alike {rows rows' : List Row} (keys : ∀ k ∈ t.key, spot.Clear t.name k)
    (horders : spot.ClearOrders t.name orders) (h : t.Rows spot rows rows') :
    t.Rows spot (t.sorted orders rows) (t.sorted orders rows') := by
  have horders := clear_fullOrder keys horders
  obtain ⟨ps, rfl, rfl, hps⟩ := exists_zip h
  let le (a b : Row) : Bool := compareRows (t.fullOrder orders) a b != .gt
  have first : (ps.map (·.1)).mergeSort le = (ps.mergeSort fun a b => le a.1 b.1).map (·.1) := by
    refine (List.map_mergeSort fun a _ b _ => ?_).symm
    rfl
  have second : (ps.map (·.2)).mergeSort le = (ps.mergeSort fun a b => le a.1 b.1).map (·.2) := by
    refine (List.map_mergeSort fun a ha b hb => ?_).symm
    show (compareRows _ a.1 b.1 != .gt) = (compareRows _ a.2 b.2 != .gt)
    rw [compareRows_congr horders (hps a ha).1 (hps b hb).1]
  show t.Rows spot ((ps.map (·.1)).mergeSort le) ((ps.map (·.2)).mergeSort le)
  rw [first, second]
  exact forall₂_of_zip fun p hp => hps p (List.mem_mergeSort.1 hp)

theorem bind_over (hp : p.Over (spot.Clear name)) {q : Predicate Cell} (hq : t.bind p = .ok q) :
    q.Over (spot.Clear name) := hp.mapM hq

/-- A condition on other columns accepts counterparts. -/
theorem filter_alike {q : Predicate Cell} (hq : q.Over (spot.Clear t.name)) {rows rows' : List Row}
    (h : t.Rows spot rows rows') :
    t.Rows spot (rows.filter q.accepts) (rows'.filter q.accepts) := by
  refine List.rel_filter (fun r r' alike => ?_) h
  show q.accepts r = true ↔ q.accepts r' = true
  rw [hq.accepts_congr alike.1]

/-- A condition on other columns matches counterparts. -/
theorem Alike.matching (h : t.Alike spot t') (hp : p.Over (spot.Clear t.name)) :
    Both (t.Rows spot) (t.matching p) (t'.matching p) := by
  unfold Table.matching
  rw [bind_congr h.columns]
  cases hq : t.bind p with
  | error f => exact .error f
  | ok q => exact .ok (filter_alike (bind_over hp hq) h.rows)

theorem readColumns_alike {columns : List StoredColumn} {r r' : Row}
    (alike : r.Alike spot name r') {record record' : Record}
    (h : readColumns r columns = .ok record) (h' : readColumns r' columns = .ok record') :
    record.Alike spot name record' := by
  intro column clear
  unfold Record.get
  have items := mapM_eq_ok.1 h
  have items' := mapM_eq_ok.1 h'
  clear h h'
  induction items generalizing record' with
  | nil =>
    cases items'
    rfl
  | cons hc _ ih =>
    cases items' with
    | cons hc' rest' =>
      obtain ⟨v, hv, hentry⟩ := bind_eq_ok.1 hc
      obtain ⟨v', hv', hentry'⟩ := bind_eq_ok.1 hc'
      cases hentry
      cases hentry'
      rw [List.lookup_cons, List.lookup_cons]
      split
      next hname =>
        obtain rfl := beq_iff_eq.1 hname
        rw [alike _ clear, hv'] at hv
        cases hv
        rfl
      next => exact ih rest'

/-- Other columns are read alike. -/
theorem readColumns_eq {columns : List StoredColumn} {r r' : Row} (alike : r.Alike spot name r')
    (clear : ∀ c ∈ columns, spot.Clear name c.name) :
    readColumns r columns = readColumns r' columns :=
  mapM_congr fun c hc => by rw [alike _ (clear c hc)]

/-- Counterparts are read alike. -/
theorem read_alike {r r' : Row} (alike : r.Alike spot t.name r')
    (readable : (t.read r).isOk = (t.read r').isOk) :
    Both (Record.Alike spot t.name) (t.read r) (t.read r') := by
  cases hr : t.read r with
  | error f =>
    cases hr' : t.read r' with
    | error f' =>
      rw [eq_unreadable_of_readColumns hr, eq_unreadable_of_readColumns hr']
      exact .error _
    | ok record =>
      rw [hr, hr'] at readable
      cases readable
  | ok record =>
    cases hr' : t.read r' with
    | error f' =>
      rw [hr, hr'] at readable
      cases readable
    | ok record' => exact .ok (readColumns_alike alike hr hr')

theorem window_alike {limit : Option Int} {offset : Int} {rows rows' : List Row}
    (h : t.Rows spot rows rows') :
    t.Rows spot (window limit offset rows) (window limit offset rows') := by
  have behind := List.forall₂_drop offset.toNat h
  unfold window
  cases limit with
  | none => exact behind
  | some n =>
    dsimp only
    split_ifs
    · exact behind
    · exact List.forall₂_take n.toNat behind

theorem read_rows {rows rows' : List Row} (h : t.Rows spot rows rows') :
    Both (List.Forall₂ (Record.Alike spot t.name)) (rows.mapM t.read) (rows'.mapM t.read) :=
  Both.mapM h fun _ _ related => read_alike related.1 related.2

/-- A statement that tests and orders by other columns finds counterparts. -/
theorem Alike.select (h : t.Alike spot t') (hp : p.Over (spot.Clear t.name))
    (horders : spot.ClearOrders t.name orders) (limit : Option Int) (offset : Int) :
    Both (List.Forall₂ (Record.Alike spot t.name)) (t.select p orders limit offset)
      (t'.select p orders limit offset) := by
  unfold Table.select
  rw [sorted_key_congr h.key, read_congr h.columns]
  exact (h.matching hp).bind fun rows rows' related =>
    read_rows (window_alike (sorted_alike h.keys horders related))

theorem typeOf_congr (h : t'.columns = t.columns) : t'.typeOf = t.typeOf := by
  unfold Table.typeOf
  rw [h]

/-- Rows are found alike by their keys in other columns. -/
theorem Alike.keyed (h : t.Alike spot t') {columns : List String}
    (clear : ∀ c ∈ columns, spot.Clear t.name c) (keys : List (List Value)) :
    Both (t.Rows spot) (t.keyed columns keys) (t'.keyed columns keys) := by
  unfold Table.keyed
  rw [typeOf_congr h.columns]
  refine Both.bind (.refl (fun _ => rfl) _) ?_
  rintro types _ rfl
  refine Both.bind (.refl (fun _ => rfl) _) ?_
  rintro cells _ rfl
  refine .ok (List.rel_filter (fun r r' alike => ?_) h.rows)
  show (cells.any fun key => sameCells (columns.map r.get) key) = true ↔
    (cells.any fun key => sameCells (columns.map r'.get) key) = true
  rw [List.map_congr_left fun c hc => alike.1 c (clear c hc)]

end Table

/-! ## Stores -/

namespace Store

/-- Two states of a store that differ in one column at most. -/
structure Alike (spot : Spot) (s s' : Store) : Prop where
  returning : s'.returning = s.returning
  isDown : s'.isDown = s.isDown
  missing : s'.missing = s.missing
  tables : List.Forall₂ (Table.Alike spot) s.tables s'.tables

variable {s s' : Store}

theorem Alike.registered (h : s.Alike spot s') (name : String) :
    Both (fun t t' => t.name = name ∧ t.Alike spot t') (s.registered name)
      (s'.registered name) := by
  unfold Store.registered
  have tables := h.tables
  generalize s.tables = ts at tables
  generalize s'.tables = ts' at tables
  induction tables with
  | nil => exact .error _
  | @cons t t' ts ts' ht _ ih =>
    rw [List.find?_cons, List.find?_cons, ht.name]
    by_cases hname : t.name = name
    · rw [decide_eq_true hname]
      exact .ok ⟨hname, ht⟩
    · rw [decide_eq_false hname]
      exact ih

/-- A table is found in both states, or in neither for one reason. -/
theorem Alike.table (h : s.Alike spot s') (name : String) :
    Both (fun t t' => t.name = name ∧ t.Alike spot t') (s.table name) (s'.table name) := by
  unfold Store.table
  refine (h.registered name).bind fun t t' related => ?_
  rw [h.isDown, h.missing]
  split_ifs
  · exact .error _
  · exact .error _
  · exact .ok related

/-- A statement on a table in both states. -/
theorem Alike.ask (h : s.Alike spot s') {α β : Type} {R : α → β → Prop}
    {f : Table → Except Fault α} {g : Table → Except Fault β}
    (hfg : ∀ t t', t.name = name → t.Alike spot t' → Both R (f t) (g t')) :
    Counted.Both R (s.ask name f) (s'.ask name g) :=
  .ask (h.table name) fun t t' related => hfg t t' related.1 related.2

theorem Alike.select (h : s.Alike spot s') {p : Predicate Value} (hp : p.Over (spot.Clear name))
    {orders : List Order} (horders : spot.ClearOrders name orders) (limit : Option Int)
    (offset : Int) : Counted.Both (List.Forall₂ (Record.Alike spot name))
      (s.ask name fun t => t.select p orders limit offset)
      (s'.ask name fun t => t.select p orders limit offset) := by
  refine h.ask fun t t' ht related => ?_
  subst ht
  exact related.select hp horders limit offset

end Store

end TableGraph
