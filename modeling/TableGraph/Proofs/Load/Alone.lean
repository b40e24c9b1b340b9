import TableGraph.Proofs.EntityTable
import TableGraph.Proofs.Load.Groups

/-!
# One key at a time

`alone` is what a statement of its own finds for a key.  Batches and single statements both pair
rows of the target with the rows that hold their keys, the links of a junction or the rows
themselves (`pairs`), and differ in what they ask of the latter: a batch asks for one of many keys
(`collect_eq`), a single statement for the one it is about (`alone_eq`).
-/

namespace TableGraph

namespace Group

/-- The table whose rows hold the keys: the junction, or the target itself. -/
def holder (g : Group) : String :=
  match g.junction with
  | none => g.target
  | some j => j.table

/-- The columns that have the values of a key. -/
def keyColumns (g : Group) : List String :=
  match g.junction with
  | none => g.columns
  | some j => j.fromColumns

end Group

namespace Table

variable {t : Table}

/-- The values of a row that can be read. -/
def record (t : Table) (r : Row) : Record := (t.read r).toOption.getD []

theorem read_eq {r : Row} (h : ∃ record, t.read r = .ok record) : t.read r = .ok (t.record r) := by
  obtain ⟨record, h⟩ := h
  unfold Table.record
  rw [h]
  rfl

/-- The test for one of several keys. -/
def keyTest (t : Table) (columns : List String) (keys : List (List Value)) :
    Except Fault (Row → Bool) := do
  let types ← columns.mapM t.typeOf
  let cells ← bindKeys types keys
  .ok fun r => cells.any fun key => sameCells (columns.map r.get) key

theorem keyed_eq (t : Table) (columns : List String) (keys : List (List Value)) :
    t.keyed columns keys = t.rows.filter <$> t.keyTest columns keys := by
  unfold keyed keyTest
  simp only [map_bind]
  rfl

/-- Leaving columns out does not change the values of the others. -/
theorem get_readColumns_filter {r : Row} {columns : List StoredColumn} {p : StoredColumn → Bool}
    {whole part : Record} (hwhole : readColumns r columns = .ok whole)
    (hpart : readColumns r (columns.filter p) = .ok part) {name : String}
    (hname : ∀ c : StoredColumn, c.name = name → p c) : part.get name = whole.get name := by
  have items := mapM_eq_ok.1 hwhole
  clear hwhole
  unfold Record.get
  induction items generalizing part with
  | nil =>
    cases hpart
    rfl
  | @cons c entry columns whole hc _ ih =>
    obtain ⟨v, hv, hentry⟩ := bind_eq_ok.1 hc
    cases hentry
    by_cases hp : p c
    · rw [List.filter_cons_of_pos hp] at hpart
      cases mapM_eq_ok.1 hpart with
      | cons hc' hrest =>
        rw [hc] at hc'
        cases hc'
        rw [List.lookup_cons, List.lookup_cons]
        split
        · rfl
        · exact ih (mapM_eq_ok.2 hrest)
    · rw [List.filter_cons_of_neg hp] at hpart
      have other : (name == c.name) = false := beq_false_of_ne fun h => hp (hname c h.symm)
      rw [List.lookup_cons, other]
      exact ih hpart

end Table

namespace Load

variable {s : Store} {g : Group} {k : LoadKey} {keys : List LoadKey} {t u : Table}

/-! ## A statement of its own -/

/-- Columns have the values of a key. -/
def isKey (columns : List String) (values : List Value) : Predicate Value :=
  .allOf ((columns.zip values).map fun (c, v) => .test c (.compare .eq v))

/-- The rows that a statement of its own finds for a key; none if a part of the key is null. -/
def alone (s : Store) (k : LoadKey) : Except Fault (List Record) :=
  if k.hasNull then .ok []
  else do
    let g := k.group
    let condition := g.condition.getD .always
    let t ← s.table g.target
    match g.junction with
    | none => t.select (.allOf [isKey g.columns k.values, condition]) g.orders none 0
    | some j => do
      joined s g j
      let u ← s.table j.table
      let rows ← t.matching condition
      let links ← u.matching (isKey j.fromColumns k.values)
      ((t.sorted g.orders rows).flatMap fun r =>
        ((u.sorted [] links).filter (joins g j r)).map fun _ => r).mapM t.read

/-! ## Rows with their holders -/

/--
The rows of the target that pass `q` with the rows that hold their keys and pass `p`, in the order
of the group.
-/
def pairs (g : Group) (t u : Table) (q p : Row → Bool) : List (Row × Row) :=
  match g.junction with
  | none => (t.sorted g.orders (t.rows.filter fun r => q r && p r)).map fun r => (r, r)
  | some j =>
    (t.sorted g.orders (t.rows.filter q)).flatMap fun r =>
      ((u.sorted [] (u.rows.filter p)).filter (joins g j r)).map fun l => (r, l)

/-- A row that holds a key leads to some row of the target that passes `q`. -/
def Leads (g : Group) (t : Table) (q : Row → Prop) (l : Row) : Prop :=
  match g.junction with
  | none => q l
  | some j => ∃ r ∈ t.rows, q r ∧ joins g j r l

variable {q p p' : Row → Bool}

theorem pairs_filter (h : Row → Bool) :
    (pairs g t u q p).filter (fun x => h x.2) = pairs g t u q fun l => p l && h l := by
  unfold pairs
  split
  · rw [List.filter_map, ← Table.sorted_filter, List.filter_filter]
    congr 3
    funext r
    show (h r && (q r && p r)) = (q r && (p r && h r))
    rw [Bool.and_comm, Bool.and_assoc]
  · rw [List.filter_flatMap]
    congr 1
    funext r
    rw [List.filter_map, List.filter_comm]
    congr 2
    refine (Table.sorted_filter u [] _ h).symm.trans ?_
    rw [List.filter_filter]
    congr 2
    funext l
    exact Bool.and_comm _ _

theorem mem_pairs_direct (hg : g.junction = none) {r l : Row} : (r, l) ∈ pairs g t u q p ↔
    r = l ∧ l ∈ t.rows ∧ q l ∧ p l := by
  unfold pairs
  rw [hg]
  dsimp only
  rw [List.mem_map]
  constructor
  · rintro ⟨r', hr', heq⟩
    cases heq
    obtain ⟨hmem, hpass⟩ := List.mem_filter.1 ((t.sorted_perm g.orders _).mem_iff.1 hr')
    exact ⟨rfl, hmem, Bool.and_eq_true_iff.1 hpass⟩
  · rintro ⟨rfl, hmem, hpass⟩
    exact ⟨r, (t.sorted_perm g.orders _).mem_iff.2
      (List.mem_filter.2 ⟨hmem, Bool.and_eq_true_iff.2 hpass⟩), rfl⟩

theorem mem_pairs_connected {j : Junction} (hg : g.junction = some j) {r l : Row} :
    (r, l) ∈ pairs g t u q p ↔ (r ∈ t.rows ∧ q r) ∧ (l ∈ u.rows ∧ p l) ∧ joins g j r l := by
  unfold pairs
  rw [hg]
  dsimp only
  rw [List.mem_flatMap]
  constructor
  · rintro ⟨r', hr', hpair⟩
    obtain ⟨l', hl', heq⟩ := List.mem_map.1 hpair
    cases heq
    obtain ⟨hl, hjoins⟩ := List.mem_filter.1 hl'
    exact ⟨List.mem_filter.1 ((t.sorted_perm g.orders _).mem_iff.1 hr'),
      List.mem_filter.1 ((u.sorted_perm [] _).mem_iff.1 hl), hjoins⟩
  · rintro ⟨hr, hl, hjoins⟩
    exact ⟨r, (t.sorted_perm g.orders _).mem_iff.2 (List.mem_filter.2 hr),
      List.mem_map.2 ⟨l, List.mem_filter.2
        ⟨(u.sorted_perm [] _).mem_iff.2 (List.mem_filter.2 hl), hjoins⟩, rfl⟩⟩

/-- What is asked of rows that lead nowhere makes no difference. -/
theorem pairs_congr (hu : g.junction = none → u = t)
    (h : ∀ l ∈ u.rows, Leads g t (fun r => q r) l → p l = p' l) :
    pairs g t u q p = pairs g t u q p' := by
  have filtered : ∀ p, pairs g t u q p = (pairs g t u q fun _ => true).filter fun x => p x.2 := by
    intro p
    rw [pairs_filter]
    rfl
  rw [filtered p, filtered p']
  refine List.filter_congr fun x hx => ?_
  obtain ⟨r, l⟩ := x
  unfold Leads at h
  match hg : g.junction with
  | none =>
    obtain ⟨-, hl, hq, -⟩ := (mem_pairs_direct hg).1 hx
    rw [hg] at h
    exact h l (hu hg ▸ hl) hq
  | some j =>
    obtain ⟨⟨hr, hq⟩, ⟨hl, -⟩, hjoins⟩ := (mem_pairs_connected hg).1 hx
    rw [hg] at h
    exact h l hl ⟨r, hr, hq, hjoins⟩

/-- There are pairs if some holder passes the test and leads on. -/
theorem pairs_ne_nil_iff (hu : g.junction = none → u = t) :
    pairs g t u q p ≠ [] ↔ ∃ l ∈ u.rows, Leads g t (fun r => q r) l ∧ p l := by
  unfold Leads
  match hg : g.junction with
  | none =>
    rw [hu hg]
    constructor
    · intro h
      obtain ⟨⟨r, l⟩, hx⟩ := List.exists_mem_of_ne_nil _ h
      obtain ⟨-, hl, hq, hp⟩ := (mem_pairs_direct hg).1 hx
      exact ⟨l, hl, hq, hp⟩
    · rintro ⟨l, hl, hq, hp⟩
      exact List.ne_nil_of_mem ((mem_pairs_direct hg).2 ⟨rfl, hl, hq, hp⟩)
  | some j =>
    constructor
    · intro h
      obtain ⟨⟨r, l⟩, hx⟩ := List.exists_mem_of_ne_nil _ h
      obtain ⟨⟨hr, hq⟩, ⟨hl, hp⟩, hjoins⟩ := (mem_pairs_connected hg).1 hx
      exact ⟨l, hl, ⟨r, hr, hq, hjoins⟩, hp⟩
    · rintro ⟨l, hl, ⟨r, hr, hq, hjoins⟩, hp⟩
      exact List.ne_nil_of_mem ((mem_pairs_connected hg).2 ⟨⟨hr, hq⟩, ⟨hl, hp⟩, hjoins⟩)

/-- A group leads on by the rows of the target that its condition accepts. -/
theorem leads_iff {condition : Predicate Value} {accepts : Predicate Cell}
    (h : t.bind condition = .ok accepts) {l : Row} :
    Leads g t (t.Accepts condition) l ↔ Leads g t (fun r => accepts.accepts r) l := by
  unfold Leads
  split
  · exact Table.accepts_iff h
  · simp only [Table.accepts_iff h]

/-- Groups of one shape pair the same rows, if they ask the same of the rows of the target. -/
theorem pairs_of_same {g' : Group} (h : g.same g') {q' : Row → Bool}
    (hq : ∀ r ∈ t.rows, q r = q' r) : pairs g t u q p = pairs g' t u q' p := by
  obtain ⟨-, hcolumns, hjunction, -, -, horders⟩ := Group.same_iff.1 h
  have rows : t.rows.filter q = t.rows.filter q' := List.filter_congr hq
  have rows' : (t.rows.filter fun r => q r && p r) = t.rows.filter fun r => q' r && p r :=
    List.filter_congr fun r hr => by rw [hq r hr]
  have joined : ∀ j, joins g j = joins g' j := by
    intro j
    unfold joins
    rw [hcolumns]
  unfold pairs
  rw [hjunction, horders, rows, rows']
  simp only [joined]

theorem holder_direct (hg : g.junction = none) :
    g.holder = g.target ∧ g.keyColumns = g.columns := by
  unfold Group.holder Group.keyColumns
  rw [hg]
  exact ⟨rfl, rfl⟩

theorem holder_connected {j : Junction} (hg : g.junction = some j) :
    g.holder = j.table ∧ g.keyColumns = j.fromColumns := by
  unfold Group.holder Group.keyColumns
  rw [hg]
  exact ⟨rfl, rfl⟩

theorem fields_of_same {g' : Group} (h : g.same g') :
    g.target = g'.target ∧ g.holder = g'.holder ∧ g.keyColumns = g'.keyColumns := by
  obtain ⟨htarget, hcolumns, hjunction, -⟩ := Group.same_iff.1 h
  unfold Group.holder Group.keyColumns
  rw [htarget, hcolumns, hjunction]
  exact ⟨rfl, rfl, rfl⟩

theorem joined_of_same {g' : Group} (h : g.same g') : joined s g = joined s g' := by
  obtain ⟨htarget, hcolumns, -⟩ := Group.same_iff.1 h
  funext j
  unfold joined
  rw [htarget, hcolumns]

/-- The names of a junction that groups of one shape have are there for both or for neither. -/
theorem joined_iff_of_same {g' : Group} (h : g.same g') :
    (∀ j, g.junction = some j → joined s g j = .ok ()) ↔
      ∀ j, g'.junction = some j → joined s g' j = .ok () := by
  obtain ⟨-, -, hjunction, -⟩ := Group.same_iff.1 h
  rw [joined_of_same h, hjunction]

/-! ## Batches -/

/-- A group can only be collected if its tables are there and take the operands of its condition and
of the keys. -/
theorem exists_of_collect {found : List Found} (h : collect s g keys = .ok found)
    (hne : (wanted keys).map (·.values) ≠ []) : ∃ t u accepts p,
      s.table g.target = .ok t ∧ s.table g.holder = .ok u ∧
      t.bind (g.condition.getD .always) = .ok accepts ∧
      u.keyTest g.keyColumns ((wanted keys).map (·.values)) = .ok p ∧
      ∀ j, g.junction = some j → joined s g j = .ok () := by
  unfold collect at h
  generalize (wanted keys).map (·.values) = values at h hne
  have test : ∀ {u : Table} {columns} {rows : List Row}, u.keyed columns values = .ok rows →
      ∃ p, u.keyTest columns values = .ok p := by
    intro u columns rows hrows
    rw [Table.keyed_eq] at hrows
    obtain ⟨p, hp, -⟩ := map_eq_ok.1 hrows
    exact ⟨p, hp⟩
  cases values with
  | nil => exact absurd rfl hne
  | cons =>
    dsimp only at h
    split at h
    next hg =>
      obtain ⟨hholder, hcolumns⟩ := holder_direct hg
      obtain ⟨t, ht, h⟩ := bind_eq_ok.1 h
      obtain ⟨accepts, hcondition, h⟩ := bind_eq_ok.1 h
      obtain ⟨_, hrows, -⟩ := bind_eq_ok.1 h
      obtain ⟨p, hp⟩ := test hrows
      rw [hholder, hcolumns]
      exact ⟨t, t, accepts, p, ht, ht, hcondition, hp, fun j hj => nomatch hg.symm.trans hj⟩
    next j hg =>
      obtain ⟨hholder, hcolumns⟩ := holder_connected hg
      obtain ⟨_, hjoined, h⟩ := bind_eq_ok.1 h
      obtain ⟨t, ht, h⟩ := bind_eq_ok.1 h
      obtain ⟨u, hu, h⟩ := bind_eq_ok.1 h
      obtain ⟨accepts, hcondition, h⟩ := bind_eq_ok.1 h
      obtain ⟨_, hrows, -⟩ := bind_eq_ok.1 h
      obtain ⟨p, hp⟩ := test hrows
      rw [hholder, hcolumns]
      refine ⟨t, u, accepts, p, ht, hu, hcondition, hp, fun j' hj' => ?_⟩
      cases hg.symm.trans hj'
      exact hjoined

section Answers

variable {values : List (List Value)} {condition : Predicate Value} {accepts : Predicate Cell}
  (ht : s.table g.target = .ok t) (hu : s.table g.holder = .ok u)
  (hcondition : t.bind condition = .ok accepts)
  (hread : ∀ r ∈ t.rows, ∃ record, t.read r = .ok record)
  (hread' : ∀ l ∈ u.rows, ∃ record, u.read l = .ok record)

/-- What a batch takes from a row and the one that holds its key. -/
def taken (g : Group) (t u : Table) (x : Row × Row) : Found :=
  ⟨identityOf (u.record x.2) g.keyColumns, t.record x.1⟩

include ht hu hcondition hread

theorem direct_eq (hg : g.junction = none) (hp : u.keyTest g.keyColumns values = .ok p) :
    direct s g condition values = .ok ((pairs g t u accepts.accepts p).map (taken g t u)) := by
  obtain ⟨hholder, hcolumns⟩ := holder_direct hg
  rw [hholder, ht] at hu
  cases hu
  rw [hcolumns] at hp
  refine bind_eq_ok.2 ⟨t, ht, bind_eq_ok.2 ⟨accepts, hcondition, bind_eq_ok.2
    ⟨t.rows.filter p, by rw [Table.keyed_eq, hp]; rfl, ?_⟩⟩⟩
  rw [List.filter_filter]
  refine (mapM_eq_map (g := fun r => taken g t t (r, r)) fun r hr => ?_).trans ?_
  · have hr := List.mem_of_mem_filter ((t.sorted_perm g.orders _).mem_iff.1 hr)
    rw [Table.read_eq (hread r hr)]
    unfold taken
    rw [hcolumns]
    rfl
  · unfold pairs
    rw [hg, List.map_map]
    rfl

include hread' in
theorem connected_eq {j : Junction} (hg : g.junction = some j) (hjoined : joined s g j = .ok ())
    (hp : u.keyTest g.keyColumns values = .ok p) :
    connected s g j condition values = .ok ((pairs g t u accepts.accepts p).map (taken g t u)) := by
  obtain ⟨hholder, hcolumns⟩ := holder_connected hg
  rw [hholder] at hu
  rw [hcolumns] at hp
  refine bind_eq_ok.2 ⟨⟨⟩, hjoined, bind_eq_ok.2 ⟨t, ht, bind_eq_ok.2 ⟨u, hu, bind_eq_ok.2
    ⟨accepts, hcondition, bind_eq_ok.2 ⟨u.rows.filter p, by rw [Table.keyed_eq, hp]; rfl, ?_⟩⟩⟩⟩⟩
  have same : pairs g t u accepts.accepts p =
      (t.sorted g.orders (t.rows.filter accepts.accepts)).flatMap fun r =>
        ((u.sorted [] (u.rows.filter p)).filter (joins g j r)).map fun l => (r, l) := by
    unfold pairs
    rw [hg]
  dsimp only
  rw [← same]
  refine mapM_eq_map fun x hx => ?_
  obtain ⟨r, l⟩ := x
  obtain ⟨⟨hr, -⟩, ⟨hl, -⟩, -⟩ := (mem_pairs_connected hg).1 hx
  have whole := Table.read_eq (hread' l hl)
  obtain ⟨part, hpart⟩ : ∃ part, Table.readColumns l
      (u.columns.filter fun c => j.fromColumns.contains c.name) = .ok part := by
    refine mapM_of_forall fun c hc => ?_
    obtain ⟨_, -, h⟩ := exists_of_mem_mapM whole (List.mem_of_mem_filter hc)
    exact ⟨_, h⟩
  have identities : identityOf part j.fromColumns = identityOf (u.record l) j.fromColumns := by
    refine List.map_congr_left fun c hc => ?_
    rw [Table.get_readColumns_filter whole hpart fun d hd => ?_]
    rw [hd]
    exact List.contains_iff_mem.2 hc
  refine bind_eq_ok.2 ⟨t.record r, Table.read_eq (hread r hr), bind_eq_ok.2 ⟨part, hpart, ?_⟩⟩
  unfold taken
  rw [hcolumns, identities]

include hread' in
/-- What is collected for a group are pairs whose holders have one of the wanted keys. -/
theorem collect_eq (hvalues : (wanted keys).map (·.values) = values) (hne : values ≠ [])
    (hcond : g.condition.getD .always = condition)
    (hjoined : ∀ j, g.junction = some j → joined s g j = .ok ())
    (hp : u.keyTest g.keyColumns values = .ok p) :
    collect s g keys = .ok ((pairs g t u accepts.accepts p).map (taken g t u)) := by
  unfold collect
  rw [hvalues, hcond]
  cases values with
  | nil => exact absurd rfl hne
  | cons =>
    dsimp only
    split
    next hg => exact direct_eq ht hu hcondition hread hg hp
    next j hg => exact connected_eq ht hu hcondition hread hread' hg (hjoined j hg) hp

variable {key : Predicate Cell}

omit u ht hu in
/-- Without a junction the rows are those that have the key and pass the condition. -/
theorem select_eq {values : List Value} (hg : g.junction = none)
    (hkey : t.bind (isKey g.columns values) = .ok key) :
    t.select (.allOf [isKey g.columns values, condition]) g.orders none 0 =
      .ok ((pairs g t t accepts.accepts key.accepts).map fun x => t.record x.1) := by
  have bound : [isKey g.columns values, condition].mapM t.bind = .ok [key, accepts] := by
    rw [List.mapM_cons, hkey, List.mapM_cons, hcondition]
    rfl
  have joined : (Predicate.allOf [key, accepts]).accepts =
      fun r => accepts.accepts r && key.accepts r := by
    funext r
    rw [Bool.eq_iff_iff, Predicate.accepts_allOf, List.forall_mem_cons, List.forall_mem_singleton,
      Bool.and_eq_true, and_comm]
  refine Table.select_eq_ok.2 ⟨_, Table.matching_eq_ok.2 ⟨_, Predicate.mapM_allOf bound, rfl⟩, ?_⟩
  rw [joined]
  refine (mapM_eq_map (g := t.record) fun r hr => ?_).trans ?_
  · have hr := (t.sorted_perm g.orders _).mem_iff.1 ((Table.window_sublist _ _ _).mem hr)
    exact Table.read_eq (hread r (List.mem_of_mem_filter hr))
  · unfold pairs
    rw [hg, List.map_map]
    rfl

/-- What a key finds by itself are pairs whose holders have it. -/
theorem alone_eq (hg : k.group = g) (hnull : k.hasNull = false)
    (hcond : g.condition.getD .always = condition)
    (hjoined : ∀ j, g.junction = some j → joined s g j = .ok ())
    (hkey : u.bind (isKey g.keyColumns k.values) = .ok key) :
    alone s k = .ok ((pairs g t u accepts.accepts key.accepts).map fun x => t.record x.1) := by
  unfold alone
  rw [if_neg (Bool.eq_false_iff.1 hnull), hg]
  dsimp only
  rw [hcond]
  refine bind_eq_ok.2 ⟨t, ht, ?_⟩
  split
  next hj =>
    obtain ⟨hholder, hcolumns⟩ := holder_direct hj
    rw [hholder, ht] at hu
    cases hu
    rw [hcolumns] at hkey
    exact select_eq hcondition hread hj hkey
  next j hj =>
    obtain ⟨hholder, hcolumns⟩ := holder_connected hj
    rw [hholder] at hu
    rw [hcolumns] at hkey
    refine bind_eq_ok.2 ⟨⟨⟩, hjoined j hj, bind_eq_ok.2 ⟨u, hu, bind_eq_ok.2
      ⟨_, Table.matching_eq_ok.2 ⟨_, hcondition, rfl⟩, bind_eq_ok.2
        ⟨_, Table.matching_eq_ok.2 ⟨_, hkey, rfl⟩, ?_⟩⟩⟩⟩
    have same : ((t.sorted g.orders (t.rows.filter accepts.accepts)).flatMap fun r =>
        ((u.sorted [] (u.rows.filter key.accepts)).filter (joins g j r)).map fun _ => r) =
        (pairs g t u accepts.accepts key.accepts).map Prod.fst := by
      unfold pairs
      rw [hj, List.map_flatMap]
      congr 1
      funext r
      rw [List.map_map]
      rfl
    rw [same]
    refine (mapM_eq_map (g := t.record) fun r hr => ?_).trans ?_
    · obtain ⟨⟨r, l⟩, hx, rfl⟩ := List.mem_map.1 hr
      exact Table.read_eq (hread r ((mem_pairs_connected hj).1 hx).1.1)
    · rw [List.map_map]
      rfl

end Answers

/-- A key that is answered by itself has tables, and takes the operands of its conditions. -/
theorem exists_of_alone {rows : List Record} (h : alone s k = .ok rows)
    (hnull : k.hasNull = false) : ∃ t u accepts key,
      s.table k.group.target = .ok t ∧ s.table k.group.holder = .ok u ∧
      t.bind (k.group.condition.getD .always) = .ok accepts ∧
      u.bind (isKey k.group.keyColumns k.values) = .ok key ∧
      ∀ j, k.group.junction = some j → joined s k.group j = .ok () := by
  unfold alone at h
  rw [if_neg (Bool.eq_false_iff.1 hnull)] at h
  obtain ⟨t, ht, h⟩ := bind_eq_ok.1 h
  split at h
  next hj =>
    obtain ⟨hholder, hcolumns⟩ := holder_direct hj
    obtain ⟨_, hm, -⟩ := Table.select_eq_ok.1 h
    obtain ⟨_, hbind, -⟩ := Table.matching_eq_ok.1 hm
    obtain ⟨qs, hqs⟩ := Predicate.exists_of_mapM_allOf hbind
    cases mapM_eq_ok.1 hqs with
    | cons hkey hrest =>
      cases hrest with
      | cons hcondition =>
        rw [hholder, hcolumns]
        exact ⟨t, t, _, _, ht, ht, hcondition, hkey, fun j hj' => nomatch hj.symm.trans hj'⟩
  next j hj =>
    obtain ⟨hholder, hcolumns⟩ := holder_connected hj
    obtain ⟨_, hjoined, h⟩ := bind_eq_ok.1 h
    obtain ⟨u, hu, h⟩ := bind_eq_ok.1 h
    obtain ⟨_, hrows, h⟩ := bind_eq_ok.1 h
    obtain ⟨_, hlinks, -⟩ := bind_eq_ok.1 h
    obtain ⟨_, hcondition, -⟩ := Table.matching_eq_ok.1 hrows
    obtain ⟨_, hkey, -⟩ := Table.matching_eq_ok.1 hlinks
    rw [hholder, hcolumns]
    refine ⟨t, u, _, _, ht, hu, hcondition, hkey, fun j' hj' => ?_⟩
    rw [hj] at hj'
    cases hj'
    exact hjoined

end Load

end TableGraph
