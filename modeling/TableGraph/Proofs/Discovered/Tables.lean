import TableGraph.Catalogue.Discovery
import TableGraph.Proofs.Sealing.Schemas

/-!
# Entities of tables

The entities and enumerations that the tables of a database bring, before their foreign keys are
looked at.  Every table with a key of one to three columns becomes an entity with the same columns,
in the order in which the tables are sorted, and the last of several tables of one name takes the
place of the first; every choice of a column becomes an enumeration, once for each name.
-/

namespace TableGraph

open Text

/-! ## Sorted tables -/

namespace DeclaredTable

theorem rounds_perm (waitsFor : DeclaredTable → List String) (left : List DeclaredTable) :
    (rounds waitsFor left).Perm left := by
  induction left using rounds.induct waitsFor with
  | case1 left ready ih =>
    rw [rounds, dif_pos ready]
    exact (ih.append_left _).trans (List.filter_append_perm _ left)
  | case2 left stuck =>
    rw [rounds, dif_neg stuck]

theorem sorted_perm (tables : List DeclaredTable) : (sorted tables).Perm tables :=
  (rounds_perm _ _).trans (List.mergeSort_perm _ _)

theorem mem_sorted {tables : List DeclaredTable} {t : DeclaredTable} :
    t ∈ sorted tables ↔ t ∈ tables := (sorted_perm tables).mem_iff

end DeclaredTable

namespace Discovery

variable {s : Selection} {t : DeclaredTable} {c : Column} {d : DeclaredColumn}
  {known known' : List Enumeration}

/-! ## Columns -/

theorem column_eq_ok (h : column s t d = .ok c) :
    c.name = d.name ∧ c.ignored = s.ignored.contains (t.name ++ "." ++ d.name) ∧
      d.type.columnType (some (t.name ++ "_" ++ d.name)) = .ok c.type := by
  unfold column at h
  obtain ⟨type, htype, h⟩ := bind_eq_ok.1 h
  cases h
  exact ⟨rfl, rfl, htype⟩

/-- A list of choices takes no name from its column. -/
def HasName : DeclaredType → Prop
  | .list (.choice name _) => ∃ n, name.filter (!·.isEmpty) = some n
  | _ => True

/-- The types of columns that are made of declared types. -/
theorem columnType_eq_ok {type : DeclaredType} {given : String} {kind : ColumnType}
    (h : type.columnType (some given) = .ok kind) : HasName type ∧
      SqlType.checkKept kind = .ok () ∧
      ∀ name, kind = .enumeration name → ∃ name', type = .choice name' type.values := by
  cases type with
  | named name length unsigned zoned =>
    cases h
    unfold DeclaredType.ofName
    refine ⟨trivial, ?_, fun name => ?_⟩ <;> split
    all_goals first | rfl | exact nofun
  | choice name values =>
    unfold DeclaredType.columnType at h
    split at h
    · cases h
      exact ⟨trivial, rfl, fun _ _ => ⟨name, rfl⟩⟩
    · cases h
  | list item =>
    cases item with
    | named name length unsigned zoned =>
      unfold DeclaredType.columnType at h
      obtain ⟨kind', hitem, rfl⟩ := map_eq_ok.1 h
      cases hitem
      refine ⟨trivial, ?_, nofun⟩
      unfold DeclaredType.ofName
      split <;> rfl
    | choice name values =>
      unfold DeclaredType.columnType at h
      obtain ⟨kind', hitem, rfl⟩ := map_eq_ok.1 h
      unfold DeclaredType.columnType at hitem
      split at hitem
      next n hname =>
        cases hitem
        exact ⟨⟨n, by simpa using hname⟩, rfl, nofun⟩
      next => cases hitem
    | list => cases h

/-- Lists of lists apart, every type with a name where it takes one is the type of a column. -/
theorem exists_columnType {type : DeclaredType} (flat : ∀ item, type ≠ .list (.list item))
    (named : HasName type) (given : String) :
    ∃ kind, type.columnType (some given) = .ok kind := by
  cases type with
  | named => exact ⟨_, rfl⟩
  | choice name values =>
    unfold DeclaredType.columnType
    cases name.filter (!·.isEmpty) <;> exact ⟨_, rfl⟩
  | list item =>
    cases item with
    | named => exact ⟨_, rfl⟩
    | choice name values =>
      obtain ⟨n, hn⟩ := named
      refine ⟨.array (.enumeration n), map_eq_ok.2 ⟨_, ?_, rfl⟩⟩
      unfold DeclaredType.columnType
      rw [hn]
      rfl
    | list item => exact absurd rfl (flat item)

/-! ## Enumerations -/

/-- Some column of the tables is a choice among the values. -/
def Chosen (tables : List DeclaredTable) (values : List String) : Prop :=
  ∃ t ∈ tables, ∃ d ∈ t.columns, ∃ name, d.type = .choice name values

/-- Enumerations have different names, and each has the values of some column. -/
structure Listed (tables : List DeclaredTable) (known : List Enumeration) : Prop where
  distinct : (known.map (·.name)).Nodup
  chosen : ∀ e ∈ known, Chosen tables e.values

/-- What is asked of the columns of tables: no lists of lists, names where types take them, and
choices among values that differ. -/
structure Typed (tables : List DeclaredTable) : Prop where
  flat : ∀ t ∈ tables, ∀ d ∈ t.columns, ∀ item, d.type ≠ .list (.list item)
  named : ∀ t ∈ tables, ∀ d ∈ t.columns, HasName d.type
  choices : ∀ values, Chosen tables values → values ≠ [] ∧ values.Nodup

section Typed

variable {tables : List DeclaredTable} (typed : Typed tables)
include typed

theorem Typed.exists_column (ht : t ∈ tables) (hd : d ∈ t.columns) :
    ∃ c, column s t d = .ok c := by
  obtain ⟨kind, hkind⟩ := exists_columnType (typed.flat t ht d hd) (typed.named t ht d hd)
    (t.name ++ "_" ++ d.name)
  exact ⟨_, bind_eq_ok.2 ⟨kind, hkind, rfl⟩⟩

/-- The enumeration of a column is listed. -/
theorem Typed.exists_withEnumeration (ht : t ∈ tables) (hd : d ∈ t.columns)
    (hc : column s t d = .ok c) (listed : Listed tables known) :
    ∃ known', withEnumeration known c.type d.type = .ok known' ∧ Listed tables known' := by
  obtain ⟨-, -, htype⟩ := column_eq_ok hc
  have choice := (columnType_eq_ok htype).2.2
  unfold withEnumeration
  split
  next name hname =>
    obtain ⟨name', hchoice⟩ := choice name hname
    split_ifs with old
    · exact ⟨known, rfl, listed⟩
    · have chosen : Chosen tables d.type.values := ⟨t, ht, d, hd, name', hchoice⟩
      obtain ⟨inhabited, distinct⟩ := typed.choices _ chosen
      have made : Enumeration.make name d.type.values =
          .ok ⟨name, d.type.values, inhabited, distinct⟩ := by
        unfold Enumeration.make
        rw [dif_neg inhabited, dif_pos distinct]
      rw [made]
      refine ⟨_, rfl, ?_, ?_⟩
      · rw [List.map_append]
        refine listed.distinct.append (List.nodup_singleton _) (List.disjoint_singleton.2 ?_)
        simpa only [List.any_eq_true, decide_eq_true_eq, List.mem_map] using old
      · rw [List.forall_mem_append, List.forall_mem_singleton]
        exact ⟨listed.chosen, chosen⟩
  next => exact ⟨known, rfl, listed⟩

/-- The columns of a table are read, and their enumerations are listed. -/
theorem Typed.exists_columns (ht : t ∈ tables) {ds : List DeclaredColumn} (hds : ds ⊆ t.columns)
    (listed : Listed tables known) :
    ∃ cs known', columns s t known ds = .ok (cs, known') ∧ Listed tables known' := by
  induction ds generalizing known with
  | nil => exact ⟨[], known, rfl, listed⟩
  | cons d ds ih =>
    obtain ⟨hd, hds⟩ := List.cons_subset.1 hds
    obtain ⟨c, hc⟩ := typed.exists_column (s := s) ht hd
    obtain ⟨known₁, hknown, listed₁⟩ := typed.exists_withEnumeration ht hd hc listed
    obtain ⟨cs, known', hcs, listed'⟩ := ih hds listed₁
    refine ⟨c :: cs, known', ?_, listed'⟩
    exact bind_eq_ok.2 ⟨c, hc, bind_eq_ok.2 ⟨known₁, hknown, bind_eq_ok.2 ⟨_, hcs, rfl⟩⟩⟩

end Typed

/-- If the columns of a table are read, each of them is. -/
theorem mapM_of_columns {ds : List DeclaredColumn} {cs : List Column}
    (h : columns s t known ds = .ok (cs, known')) :
    ds.mapM (column s t) = .ok cs := by
  induction ds generalizing known cs with
  | nil =>
    cases h
    rfl
  | cons d ds ih =>
    obtain ⟨c, hc, h⟩ := bind_eq_ok.1 h
    obtain ⟨known₁, -, h⟩ := bind_eq_ok.1 h
    obtain ⟨⟨cs, known₂⟩, hcs, h⟩ := bind_eq_ok.1 h
    cases h
    rw [List.mapM_cons]
    exact bind_eq_ok.2 ⟨c, hc, bind_eq_ok.2 ⟨cs, ih hcs, rfl⟩⟩

/-! ## Items by name -/

section PutByName

variable {α β : Type} {nameOf : α → String} {xs : List α} {x y : α}

theorem any_name {n : String} :
    (xs.any fun y => decide (nameOf y = n)) = true ↔ n ∈ xs.map nameOf := by
  simp only [List.any_eq_true, decide_eq_true_eq, List.mem_map]

theorem eq_or_mem_of_mem_putByName (h : y ∈ putByName nameOf xs x) : y = x ∨ y ∈ xs := by
  unfold putByName at h
  split_ifs at h
  · obtain ⟨z, hz, h⟩ := List.mem_map.1 h
    split_ifs at h
    · exact .inl h.symm
    · exact .inr (h ▸ hz)
  · exact (List.mem_append.1 h).symm.imp_left List.mem_singleton.1

theorem map_putByName (nameOf : α → String) (xs : List α) (x : α) :
    (putByName nameOf xs x).map nameOf =
      if nameOf x ∈ xs.map nameOf then xs.map nameOf else xs.map nameOf ++ [nameOf x] := by
  unfold putByName
  simp only [any_name]
  split_ifs
  · rw [List.map_map]
    refine List.map_congr_left fun y _ => ?_
    show nameOf (if nameOf y = nameOf x then x else y) = nameOf y
    split_ifs with same
    · exact same.symm
    · rfl
  · exact List.map_append

theorem mem_names_putByName {n : String} :
    n ∈ (putByName nameOf xs x).map nameOf ↔ n = nameOf x ∨ n ∈ xs.map nameOf := by
  rw [map_putByName]
  split_ifs with known
  · exact (or_iff_right_of_imp fun h => h ▸ known).symm
  · rw [List.mem_append, List.mem_singleton, or_comm]

theorem nodup_putByName (h : (xs.map nameOf).Nodup) :
    ((putByName nameOf xs x).map nameOf).Nodup := by
  rw [map_putByName]
  split_ifs with known
  · exact h
  · exact h.append (List.nodup_singleton _) (List.disjoint_singleton.2 known)

/-- Related items are put where related items stand. -/
theorem forall₂_putByName {R : α → β → Prop} {nameOf' : β → String} {ys : List β} {y : β}
    (names : ∀ a b, R a b → nameOf' b = nameOf a) (h : List.Forall₂ R xs ys) (hxy : R x y) :
    List.Forall₂ R (putByName nameOf xs x) (putByName nameOf' ys y) := by
  have known : ys.map nameOf' = xs.map nameOf :=
    map_eq_of_forall₂ (h.flip.imp fun b a hab => names a b hab)
  unfold putByName
  simp only [any_name, known, names x y hxy]
  split_ifs
  · rw [List.forall₂_map_left_iff, List.forall₂_map_right_iff]
    refine h.imp fun a b hab => ?_
    rw [names a b hab]
    split_ifs
    · exact hxy
    · exact hab
  · exact List.rel_append h (.cons hxy .nil)

end PutByName

/-! ## Entities -/

/-- The entity is that of the table, whatever its relations are. -/
structure Draws (s : Selection) (t : DeclaredTable) (e : Entity) : Prop where
  name : e.name = t.name
  columns : t.columns.mapM (column s t) = .ok e.columns
  key : e.primaryKey = t.primaryKey

/-- The table has a key of one to three columns. -/
def isKeyed (t : DeclaredTable) : Bool := 1 ≤ t.primaryKey.length && t.primaryKey.length ≤ 3

theorem names_of_columns {cs : List Column} (h : t.columns.mapM (column s t) = .ok cs) :
    cs.map (·.name) = t.columns.map (·.name) :=
  map_eq_of_forall₂ ((mapM_eq_ok.1 h).flip.imp fun _ _ hc => (column_eq_ok hc).1)

theorem Draws.hasColumn {e : Entity} {name : String} (draws : Draws s t e)
    (h : name ∈ t.columns.map (·.name)) : e.hasColumn name = true := by
  rw [← names_of_columns draws.columns] at h
  obtain ⟨column, hcolumn, rfl⟩ := List.mem_map.1 h
  exact Entity.hasColumn_of_mem hcolumn

/-- The draft is that of the table, without relations. -/
structure Fresh (s : Selection) (t : DeclaredTable) (d : Draft) : Prop where
  draws : Draws s t d.entity
  relations : d.entity.relations = []
  taken : d.taken = []

/-- The tables that become entities, with one more if it is looked at and has a key: it takes the
place of a table of the same name. -/
def draw (s : Selection) (ts : List DeclaredTable) (t : DeclaredTable) : List DeclaredTable :=
  if s.holds t && isKeyed t then putByName (·.name) ts t else ts

/-- The tables that become entities. -/
def drawn (s : Selection) (tables : List DeclaredTable) : List DeclaredTable :=
  tables.foldl (draw s) []

section Drawn

variable {tables : List DeclaredTable}

theorem mem_of_mem_draw {ts : List DeclaredTable} {u : DeclaredTable} (h : u ∈ draw s ts t) :
    u ∈ ts ∨ u = t ∧ s.holds t = true ∧ isKeyed t = true := by
  unfold draw at h
  split_ifs at h with keyed
  · exact (eq_or_mem_of_mem_putByName h).symm.imp_right fun same =>
      ⟨same, Bool.and_eq_true_iff.1 keyed⟩
  · exact .inl h

/-- A table that becomes an entity is looked at and has a key. -/
theorem of_mem_drawn (h : t ∈ drawn s tables) :
    t ∈ tables ∧ s.holds t = true ∧ isKeyed t = true := by
  refine List.foldlRecOn tables (draw s)
    (motive := fun ts => ∀ u ∈ ts, u ∈ tables ∧ s.holds u = true ∧ isKeyed u = true)
    (List.forall_mem_nil _) (fun seen all t here u hu => ?_) t h
  rcases mem_of_mem_draw hu with old | ⟨rfl, good⟩
  · exact all u old
  · exact ⟨here, good⟩

theorem nodup_drawn : ((drawn s tables).map (·.name)).Nodup := by
  refine List.foldlRecOn tables (draw s) (motive := fun ts => (ts.map (·.name)).Nodup) ?none
    fun seen distinct t _ => ?more
  case none => exact List.nodup_nil
  case more =>
    unfold draw
    split_ifs
    · exact nodup_putByName distinct
    · exact distinct

theorem mem_names_draw {ts : List DeclaredTable} {n : String} : n ∈ (draw s ts t).map (·.name) ↔
    n ∈ ts.map (·.name) ∨ s.holds t = true ∧ isKeyed t = true ∧ t.name = n := by
  rw [← and_assoc, ← Bool.and_eq_true_iff]
  unfold draw
  split_ifs with keyed
  · rw [mem_names_putByName, or_comm, and_iff_right keyed, eq_comm]
  · exact (or_iff_left fun both => keyed both.1).symm

/-- The names of entities are those of the tables that are looked at and have a key. -/
theorem mem_names_drawn {n : String} : n ∈ (drawn s tables).map (·.name) ↔
    ∃ t ∈ tables, s.holds t = true ∧ isKeyed t = true ∧ t.name = n := by
  have step : ∀ (ts seen : List DeclaredTable), n ∈ (ts.foldl (draw s) seen).map (·.name) ↔
      n ∈ seen.map (·.name) ∨
        ∃ t ∈ ts, s.holds t = true ∧ isKeyed t = true ∧ t.name = n := by
    intro ts
    induction ts with
    | nil => exact fun seen => (or_iff_left fun ⟨_, h, _⟩ => List.not_mem_nil h).symm
    | cons t ts ih =>
      intro seen
      rw [List.foldl_cons, ih, mem_names_draw, or_assoc]
      simp only [List.mem_cons, exists_eq_or_imp]
  exact (step tables []).trans (or_iff_right List.not_mem_nil)

end Drawn

/-- A table adds its draft to those found so far, if it is looked at and has a key. -/
theorem fresh_of_withTable {found found' : List Draft × List Enumeration}
    {ts : List DeclaredTable} (fresh : List.Forall₂ (Fresh s) ts found.1)
    (h : withTable s found t = .ok found') :
    List.Forall₂ (Fresh s) (draw s ts t) found'.1 := by
  unfold withTable at h
  unfold draw
  by_cases holds : s.holds t = true
  · rw [if_neg (by simp [holds])] at h
    obtain ⟨⟨cs, known⟩, hcolumns, h⟩ := bind_eq_ok.1 h
    change (if isKeyed t = true then _ else _) = _ at h
    rw [holds, Bool.true_and]
    split_ifs at h ⊢
    · obtain ⟨e, he, h⟩ := bind_eq_ok.1 h
      cases h
      have own : Fresh s t ⟨e, []⟩ := by
        unfold Entity.make at he
        split_ifs at he
        cases he
        exact ⟨⟨rfl, mapM_of_columns hcolumns, rfl⟩, rfl, rfl⟩
      exact forall₂_putByName (fun _ _ own => own.draws.name) fresh own
    · cases h
      exact fresh
  · rw [if_pos (by simpa using holds)] at h
    cases h
    rw [Bool.eq_false_iff.2 holds, Bool.false_and, if_neg Bool.false_ne_true]
    exact fresh

theorem fresh_of_entities {tables : List DeclaredTable} {found : List Draft × List Enumeration}
    (h : entities s tables = .ok found) :
    List.Forall₂ (Fresh s) (drawn s tables) found.1 := by
  have step : ∀ (ts seen : List DeclaredTable) (found₀ : List Draft × List Enumeration),
      List.Forall₂ (Fresh s) seen found₀.1 → ts.foldlM (withTable s) found₀ = .ok found →
      List.Forall₂ (Fresh s) (ts.foldl (draw s) seen) found.1 := by
    intro ts
    induction ts with
    | nil =>
      rintro seen found₀ fresh h
      cases h
      exact fresh
    | cons t ts ih =>
      intro seen found₀ fresh h
      rw [List.foldlM_cons] at h
      obtain ⟨found₁, hstep, h⟩ := bind_eq_ok.1 h
      exact ih _ _ (fresh_of_withTable fresh hstep) h
  exact step tables [] ([], []) .nil h

/-- A table whose columns are read becomes an entity. -/
theorem exists_make {cs : List Column} (distinct : (t.columns.map (·.name)).Nodup)
    (hcs : t.columns.mapM (column s t) = .ok cs) (keyed : isKeyed t = true) :
    ∃ e, Entity.make ⟨t.name, cs, t.primaryKey, []⟩ = .ok e := by
  have names := names_of_columns hcs
  have arity : 1 ≤ t.primaryKey.length ∧ t.primaryKey.length ≤ 3 := by
    simpa [isKeyed] using keyed
  have key : ∀ k ∈ t.primaryKey, k ∈ cs.map (·.name) := by
    intro k hk
    obtain ⟨d, hd, rfl⟩ := List.mem_map.1 hk
    rw [names]
    exact List.mem_map_of_mem (List.mem_of_mem_filter hd)
  unfold Entity.make
  rw [dif_pos (names ▸ distinct), dif_pos arity, dif_pos key]
  exact ⟨_, rfl⟩

section Typed

variable {tables : List DeclaredTable} (typed : Typed tables)
  (distinct : ∀ t ∈ tables, (t.columns.map (·.name)).Nodup)
include typed distinct

/-- The columns of a table are read, and it becomes an entity if it has a key. -/
theorem Typed.exists_withTable (ht : t ∈ tables) {found : List Draft × List Enumeration}
    (listed : Listed tables found.2) :
    ∃ found', withTable s found t = .ok found' ∧ Listed tables found'.2 := by
  unfold withTable
  by_cases holds : s.holds t = true
  · obtain ⟨cs, known, hcolumns, listed'⟩ := typed.exists_columns (s := s) ht
      (List.Subset.refl _) listed
    rw [if_neg (by simp [holds]), hcolumns]
    change ∃ found', (if isKeyed t = true then _ else _) = _ ∧ _
    by_cases keyed : isKeyed t = true
    · obtain ⟨e, he⟩ := exists_make (distinct t ht) (mapM_of_columns hcolumns) keyed
      rw [if_pos keyed, he]
      exact ⟨_, rfl, listed'⟩
    · rw [if_neg keyed]
      exact ⟨_, rfl, listed'⟩
  · rw [if_pos (by simpa using holds)]
    exact ⟨found, rfl, listed⟩

/-- The tables become entities, and their enumerations are listed. -/
theorem Typed.exists_entities {ts : List DeclaredTable} (hts : ts ⊆ tables)
    {found : List Draft × List Enumeration} (listed : Listed tables found.2) :
    ∃ found', ts.foldlM (withTable s) found = .ok found' ∧ Listed tables found'.2 := by
  induction ts generalizing found with
  | nil => exact ⟨found, rfl, listed⟩
  | cons t ts ih =>
    obtain ⟨ht, hts⟩ := List.cons_subset.1 hts
    obtain ⟨found₁, hstep, listed₁⟩ := typed.exists_withTable (s := s) distinct ht listed
    obtain ⟨found', hrest, listed'⟩ := ih hts listed₁
    rw [List.foldlM_cons, hstep]
    exact ⟨found', hrest, listed'⟩

end Typed

/-- If the tables become entities, the columns of all that are looked at are read. -/
theorem named_of_entities {ts : List DeclaredTable} {found found' : List Draft × List Enumeration}
    (h : ts.foldlM (withTable s) found = .ok found') :
    ∀ t ∈ ts, s.holds t = true → ∀ d ∈ t.columns, HasName d.type := by
  refine foldlM_forall (Q := fun t _ => s.holds t = true → ∀ d ∈ t.columns, HasName d.type) ?_
    (fun _ _ _ _ _ kept => kept) h
  intro found t found' hstep holds d hd
  unfold withTable at hstep
  rw [if_neg (by simp [holds])] at hstep
  obtain ⟨⟨cs, known⟩, hcolumns, -⟩ := bind_eq_ok.1 hstep
  obtain ⟨c, -, hc⟩ := exists_of_mem_mapM (mapM_of_columns hcolumns) hd
  exact (columnType_eq_ok (column_eq_ok hc).2.2).1

end Discovery

end TableGraph
