import TableGraph.Proofs.Ignored.Pages
import TableGraph.Proofs.Scope.Batch

/-!
# Related rows that differ in one column

Two states of a store that differ in one column are asked for the same loads as long as the columns
of relations and junctions are other ones.  Then every key is handed rows that differ in that column
at most, and as many statements are sent.
-/

namespace TableGraph

variable {spot : Spot} {s s' : Store}

/-- What is loaded neither tests nor matches nor orders by the column. -/
structure Group.Clear (spot : Spot) (g : Group) : Prop where
  columns : ∀ c ∈ g.columns, spot.Clear g.target c
  orders : spot.ClearOrders g.target g.orders
  condition : (g.condition.getD .always).Over (spot.Clear g.target)
  junction : ∀ j, g.junction = some j →
    (∀ c ∈ j.fromColumns, spot.Clear j.table c) ∧ ∀ c ∈ j.toColumns, spot.Clear j.table c

namespace Load

/-- Rows found by one key that differ in one column at most. -/
def Found.Alike (spot : Spot) (name : String) (f f' : Found) : Prop :=
  f.key = f'.key ∧ f.row.Alike spot name f'.row

variable {g : Group} {k : Junction} {name : String}

theorem identityOf_alike {columns : List String} (clear : ∀ c ∈ columns, spot.Clear name c)
    {r r' : Record} (alike : r.Alike spot name r') : identityOf r columns = identityOf r' columns :=
  List.map_congr_left fun c hc => by rw [alike c (clear c hc)]

/-! ## One group -/

theorem direct_alike (stores : s.Alike spot s') (clear : g.Clear spot) (keys : List (List Value)) :
    Both (List.Forall₂ (Found.Alike spot g.target)) (direct s g (g.condition.getD .always) keys)
      (direct s' g (g.condition.getD .always) keys) := by
  obtain ⟨columns, orders, condition, -⟩ := clear
  unfold direct
  refine (stores.table g.target).bind fun t t' ⟨hname, related⟩ => ?_
  rw [← hname] at columns orders condition ⊢
  rw [Table.bind_congr related.columns, Table.sorted_key_congr related.key,
    Table.read_congr related.columns]
  cases hq : t.bind (g.condition.getD .always) with
  | error f => exact .error f
  | ok q =>
    have covered := Table.bind_over condition hq
    refine (related.keyed columns keys).bind fun rows rows' alike => ?_
    have sorted := Table.sorted_alike related.keys orders (Table.filter_alike covered alike)
    refine Both.mapM sorted fun r r' counterpart => ?_
    refine (Table.read_alike counterpart.1 counterpart.2).bind fun record record' alike => ?_
    exact .ok ⟨identityOf_alike columns alike, alike⟩

/-- A statement through a junction finds what it names in both states or in none. -/
theorem joined_alike (stores : s.Alike spot s') : Both Eq (joined s g k) (joined s' g k) := by
  unfold joined
  refine (stores.registered g.target).bind fun t t' ⟨_, target⟩ => ?_
  refine (stores.registered k.table).bind fun u u' ⟨_, junction⟩ => ?_
  rw [Table.typeOf_congr target.columns, Table.typeOf_congr junction.columns]
  exact .refl (fun _ => rfl) _

section Joined

variable {t u : Table} (columns : ∀ c ∈ g.columns, spot.Clear t.name c)
  (links : ∀ c ∈ k.toColumns, spot.Clear u.name c)
include columns links

/-- Counterparts are joined alike. -/
theorem joins_alike {r r' l l' : Row} (hr : r.Alike spot t.name r')
    (hl : l.Alike spot u.name l') : joins g k r l = joins g k r' l' := by
  unfold joins
  rw [Bool.eq_iff_iff, List.all_eq_true, List.all_eq_true]
  refine forall₂_congr fun x hx => ?_
  obtain ⟨hfirst, hsecond⟩ := List.of_mem_zip hx
  dsimp only
  rw [hr _ (columns _ hfirst), hl _ (links _ hsecond)]

/-- Rows and the rows of the junction that they are joined to. -/
theorem pairs_alike {rows rows' ls ls' : List Row} (hrows : t.Rows spot rows rows')
    (hls : u.Rows spot ls ls') :
    List.Forall₂ (fun x x' : Row × Row => (x.1.Alike spot t.name x'.1 ∧
        (t.read x.1).isOk = (t.read x'.1).isOk) ∧ x.2.Alike spot u.name x'.2)
      (rows.flatMap fun r => (ls.filter (joins g k r)).map fun l => (r, l))
      (rows'.flatMap fun r => (ls'.filter (joins g k r)).map fun l => (r, l)) := by
  refine List.rel_flatMap hrows fun r r' hr => ?_
  rw [List.forall₂_map_left_iff, List.forall₂_map_right_iff]
  refine (List.rel_filter (fun l l' hl => ?_) hls).imp fun l l' hl => ⟨hr, hl.1⟩
  show joins g k r l = true ↔ joins g k r' l' = true
  rw [joins_alike columns links hr.1 hl.1]

end Joined

theorem connected_alike (stores : s.Alike spot s') (clear : g.Clear spot)
    (hk : g.junction = some k) (keys : List (List Value)) :
    Both (List.Forall₂ (Found.Alike spot g.target))
      (connected s g k (g.condition.getD .always) keys)
      (connected s' g k (g.condition.getD .always) keys) := by
  obtain ⟨columns, orders, condition, junction⟩ := clear
  obtain ⟨sources, links⟩ := junction k hk
  unfold connected
  refine (joined_alike stores).bind fun _ _ _ => ?_
  refine (stores.table g.target).bind fun t t' ⟨hname, target⟩ => ?_
  refine (stores.table k.table).bind fun u u' ⟨htable, between⟩ => ?_
  rw [← hname] at columns orders condition ⊢
  rw [← htable] at sources links
  rw [Table.bind_congr target.columns, Table.sorted_key_congr target.key,
    Table.read_congr target.columns, Table.sorted_key_congr between.key, between.columns]
  cases hq : t.bind (g.condition.getD .always) with
  | error f => exact .error f
  | ok q =>
    have covered := Table.bind_over condition hq
    refine (between.keyed sources keys).bind fun ls ls' alike => ?_
    have pairs := pairs_alike columns links
      (Table.sorted_alike target.keys orders (Table.filter_alike covered target.rows))
      (Table.sorted_alike between.keys Spot.clearOrders_nil alike)
    have known : ∀ c ∈ u.columns.filter fun c => k.fromColumns.contains c.name,
        spot.Clear u.name c.name :=
      fun c hc => sources c.name (List.contains_iff_mem.1 (List.mem_filter.1 hc).2)
    refine Both.mapM pairs fun x x' ⟨row, link⟩ => ?_
    refine (Table.read_alike row.1 row.2).bind fun record record' alike => ?_
    rw [Table.readColumns_eq link known]
    exact (Both.refl (fun _ => rfl) _).bind fun key key' same => .ok ⟨by rw [same], alike⟩

/-- Rows are collected for the keys of a group alike. -/
theorem collect_alike (stores : s.Alike spot s') (clear : g.Clear spot) (keys : List LoadKey) :
    Both (List.Forall₂ (Found.Alike spot g.target)) (collect s g keys) (collect s' g keys) := by
  unfold collect
  split
  · exact .ok .nil
  · split
    · exact direct_alike stores clear _
    · rename_i hk
      exact connected_alike stores clear hk _

theorem group_alike (stores : s.Alike spot s') (clear : g.Clear spot) (keys : List LoadKey) :
    Counted.Both (List.Forall₂ (Found.Alike spot g.target)) (group s g keys) (group s' g keys) := by
  intro n
  rw [run_group, run_group]
  exact (collect_alike stores clear keys).map fun _ _ related => ⟨related, rfl⟩

/-! ## Several groups -/

/-- What is found for groups, row by row. -/
abbrev FoundAlike (spot : Spot) : List (Group × List Found) → List (Group × List Found) → Prop :=
  List.Forall₂ fun x x' => x.1 = x'.1 ∧ List.Forall₂ (Found.Alike spot x.1.target) x.2 x'.2

variable {keys : List LoadKey}

theorem allGroups_alike (stores : s.Alike spot s') {gs : List Group}
    (clear : ∀ g ∈ gs, g.Clear spot) :
    Counted.Both (FoundAlike spot) (allGroups s keys gs) (allGroups s' keys gs) := by
  induction gs with
  | nil => exact .pure .nil
  | cons g gs ih =>
    refine (group_alike stores (clear g List.mem_cons_self) _).bind fun found found' own => ?_
    exact (ih fun g' hg' => clear g' (List.mem_cons_of_mem g hg')).bind fun rest rest' related =>
      .pure (.cons ⟨rfl, own⟩ related)

theorem rowsOf_alike {found found' : List (Group × List Found)} (h : FoundAlike spot found found')
    (l : LoadKey) :
    List.Forall₂ (Record.Alike spot l.group.target) (rowsOf found l) (rowsOf found' l) := by
  unfold rowsOf
  induction h with
  | nil => exact .nil
  | @cons x x' found found' related _ ih =>
    obtain ⟨g, rows⟩ := x
    obtain ⟨g', rows'⟩ := x'
    obtain ⟨hg, hrows⟩ := related
    obtain rfl : g = g' := hg
    rw [List.find?_cons, List.find?_cons]
    dsimp only
    cases same : g.same l.group with
    | false => exact ih
    | true =>
      dsimp only
      rw [List.forall₂_map_left_iff, List.forall₂_map_right_iff, ← (Group.same_iff.1 same).1]
      refine (List.rel_filter (fun f f' alike => ?_) hrows).imp fun _ _ related => related.2
      show sameKey f.key l.identity = true ↔ sameKey f'.key l.identity = true
      rw [alike.1]

/-- Every key is handed counterparts. -/
theorem many_alike (stores : s.Alike spot s') (clear : ∀ l ∈ keys, l.group.Clear spot) :
    Counted.Both (fun rows rows' => ∃ found found', FoundAlike spot found found' ∧
      rows = keys.map (rowsOf found) ∧ rows' = keys.map (rowsOf found')) (many s keys)
      (many s' keys) := by
  have groups : ∀ g ∈ groups keys, g.Clear spot := by
    intro g hg
    obtain ⟨l, hl, rfl⟩ := mem_groups hg
    exact clear l hl
  exact (allGroups_alike stores groups).bind fun found found' related =>
    .pure ⟨found, found', related, rfl, rfl⟩

end Load

/-! ## Loads of a request -/

namespace Answer

/-- What was loaded by then, load by load. -/
def Loaded.Alike (spot : Spot) : Loaded → Loaded → Prop :=
  List.Forall₂ fun x x' => x.1 = x'.1 ∧
    Both (List.Forall₂ (Record.Alike spot x.1.key.group.target)) x.2 x'.2

variable {l l' : Loaded} {loads : List Load} {n : Nat}

/-- A load was made in both runs or in none. -/
theorem Loaded.Alike.find? (h : l.Alike spot l') (r : Load) :
    Option.Rel (Both (List.Forall₂ (Record.Alike spot r.key.group.target))) (l.find? r)
      (l'.find? r) := by
  unfold Loaded.find?
  induction h with
  | nil => exact .none
  | @cons x x' l l' related _ ih =>
    rw [List.find?_cons, List.find?_cons, ← related.1]
    cases same : x.1.same r with
    | false => exact ih
    | true =>
      have target : x.1.key.group.target = r.key.group.target := by
        unfold Load.same LoadKey.same at same
        simp only [Bool.and_eq_true] at same
        exact (Group.same_iff.1 same.2.2).1
      refine .some ?_
      rw [← target]
      exact related.2

theorem Loaded.Alike.get (h : l.Alike spot l') (r : Load) :
    Both (List.Forall₂ (Record.Alike spot r.key.group.target)) (l.get r) (l'.get r) := by
  have found := h.find? r
  unfold Loaded.get
  generalize l.find? r = x, l'.find? r = x' at found
  cases found with
  | none => exact .error _
  | some related => exact related

namespace Fetch

theorem missing_alike (h : l.Alike spot l') (loads : List Load) :
    missing l loads = missing l' loads := by
  induction loads with
  | nil => rfl
  | cons r loads ih =>
    have made : (l.find? r).isSome = (l'.find? r).isSome := by
      have found := h.find? r
      generalize l.find? r = x, l'.find? r = x' at found
      cases found <;> rfl
    unfold missing
    rw [ih, made]

theorem loadTogether_alike (stores : s.Alike spot s') (clear : ∀ r ∈ loads, r.key.group.Clear spot)
    (n : Nat) : (loadTogether s n loads).1.Alike spot (loadTogether s' n loads).1 ∧
      (loadTogether s n loads).2 = (loadTogether s' n loads).2 := by
  have keys : ∀ k ∈ loads.map (·.key), k.group.Clear spot := by
    intro k hk
    obtain ⟨r, hr, rfl⟩ := List.mem_map.1 hk
    exact clear r hr
  have batch := TableGraph.Load.many_alike stores keys n
  unfold loadTogether
  generalize (TableGraph.Load.many s (loads.map (·.key))).run n = x,
    (TableGraph.Load.many s' (loads.map (·.key))).run n = x' at batch
  cases batch with
  | error f =>
    refine ⟨?_, rfl⟩
    unfold Loaded.Alike
    rw [List.forall₂_map_left_iff, List.forall₂_map_right_iff, List.forall₂_same]
    exact fun r _ => ⟨rfl, .error f⟩
  | @ok a b related =>
    obtain ⟨rows, m⟩ := a
    obtain ⟨rows', m'⟩ := b
    obtain ⟨⟨found, found', hfound, hrows, hrows'⟩, hm⟩ := related
    dsimp only at hrows hrows' hm
    subst hrows hrows' hm
    refine ⟨?_, rfl⟩
    unfold Loaded.Alike
    dsimp only
    clear keys clear
    induction loads with
    | nil => exact .nil
    | cons r loads ih => exact .cons ⟨rfl, .ok (TableGraph.Load.rowsOf_alike hfound r.key)⟩ ih

/-- More loads are made alike. -/
theorem makeLoads_alike (stores : s.Alike spot s') (h : l.Alike spot l')
    (clear : ∀ r ∈ loads, r.key.group.Clear spot) :
    (makeLoads s l n loads).1.Alike spot (makeLoads s' l' n loads).1 ∧
      (makeLoads s l n loads).2 = (makeLoads s' l' n loads).2 := by
  have new : ∀ r ∈ missing l' loads, r.key.group.Clear spot :=
    fun r hr => clear r (subset_missing l' loads hr)
  obtain ⟨single, first⟩ := loadTogether_alike stores
    (fun r hr => new r (List.mem_of_mem_filter (p := fun r => !r.many) hr)) n
  obtain ⟨several, second⟩ := loadTogether_alike stores
    (fun r hr => new r (List.mem_of_mem_filter (p := fun r => r.many) hr))
    (loadTogether s n ((missing l' loads).filter fun r => !r.many)).2
  unfold makeLoads
  dsimp only
  rw [missing_alike h, ← first]
  exact ⟨List.rel_append (List.rel_append h single) several, second⟩

end Fetch

end Answer

end TableGraph
