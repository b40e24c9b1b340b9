import TableGraph.Proofs.Discovered.Relations
import TableGraph.Proofs.Load.Alone
import TableGraph.Proofs.RowOrder
import TableGraph.Sample.Registered

/-!
# Relations and foreign keys

The relations that are discovered are those of the foreign keys between the tables that are, each of
them once: a key gives a relation along it to the entity of its own table, and one against it to the
entity of the table that it refers to, if that is another one.  This holds exactly if the tables with
the names of entities are the tables of the entities as far as foreign keys tie them to each other:
entities know tables by their names alone, and take over the keys of a table of another part of the
database that has the name.  A relation against a key that is the primary key of its table leads to
one row at most.

Main statement: `relations_correspond`.
-/

namespace TableGraph

theorem forall₂_flatMap {α β γ : Type} {R : β → γ → Prop} {f : α → List β} {g : α → List γ}
    {xs : List α} (h : ∀ x ∈ xs, List.Forall₂ R (f x) (g x)) :
    List.Forall₂ R (xs.flatMap f) (xs.flatMap g) := by
  induction xs with
  | nil => exact .nil
  | cons x xs ih =>
    obtain ⟨first, rest⟩ := List.forall_mem_cons.1 h
    rw [List.flatMap_cons, List.flatMap_cons]
    exact List.rel_append first (ih rest)

/-- Of items that differ from each other, one at most has what makes two of them alike. -/
theorem length_filter_le_one {α : Type} {R : α → α → Prop} {p : α → Bool} {xs : List α}
    (apart : xs.Pairwise R) (alike : ∀ a b, p a → p b → ¬R a b) : (xs.filter p).length ≤ 1 := by
  replace apart := apart.sublist (List.filter_sublist (p := p))
  match found : xs.filter p with
  | [] => exact Nat.zero_le 1
  | [a] => exact Nat.le_refl 1
  | a :: b :: rest =>
    rw [found] at apart
    have mem : ∀ x ∈ a :: b :: rest, p x := fun x hx => (List.mem_filter.1 (found ▸ hx)).2
    exact absurd (List.rel_of_pairwise_cons apart List.mem_cons_self)
      (alike a b (mem a List.mem_cons_self) (mem b (List.mem_cons_of_mem _ List.mem_cons_self)))

/-! ## Relations to one row -/

/-- The relation leads to one row at most: in a table that keeps the target and whose keys differ,
no two rows have the values of one key. -/
def Relation.Single (r : Relation) (target : Entity) : Prop :=
  ∀ (enumerations : List Enumeration) (t : Table), t.Keeps enumerations target →
    t.DistinctKeys t.rows → ∀ values : List Value, values.length = r.fromColumns.length →
      ∀ p, t.bind (Load.isKey r.toColumns values) = .ok p → (t.rows.filter p.accepts).length ≤ 1

namespace Load

variable {t : Table} {columns : List String} {values : List Value} {a b : Row}

/-- Rows with the values of one key have the same cells in its columns. -/
theorem same_of_isKey (paired : values.length = columns.length)
    (ha : t.Accepts (isKey columns values) a) (hb : t.Accepts (isKey columns values) b) :
    ∀ c ∈ columns, (a.get c).isNull = false ∧ (a.get c).order (b.get c) = .eq := by
  unfold isKey at ha hb
  rw [Table.accepts_allOf] at ha hb
  intro c hc
  obtain ⟨v, hv⟩ : ∃ v, (c, v) ∈ columns.zip values := by
    rw [← List.map_fst_zip (le_of_eq paired.symm), List.mem_map] at hc
    obtain ⟨⟨_, v⟩, hmem, rfl⟩ := hc
    exact ⟨v, hmem⟩
  obtain ⟨type, q, htype, hq, holds⟩ := Table.accepts_test.1 (ha _ (List.mem_map_of_mem hv))
  obtain ⟨type', q', htype', hq', holds'⟩ := Table.accepts_test.1 (hb _ (List.mem_map_of_mem hv))
  cases htype.symm.trans htype'
  cases hq.symm.trans hq'
  obtain ⟨x, -, rfl⟩ := map_eq_ok.1 hq
  obtain ⟨notNull, -, same⟩ := Test.compared_eq_true.1 holds
  obtain ⟨-, -, same'⟩ := Test.compared_eq_true.1 holds'
  exact ⟨notNull,
    Std.TransCmp.eq_trans (beq_iff_eq.1 same) (Std.OrientedCmp.eq_symm (beq_iff_eq.1 same'))⟩

end Load

/-- Columns with all those of the key tell the rows of the target apart. -/
theorem Relation.single_of_key {r : Relation} {target : Entity}
    (key : ∀ k ∈ target.primaryKey, k ∈ r.toColumns) : r.Single target := by
  intro enumerations t keeps distinct values length p bound
  refine length_filter_le_one distinct fun a b ha hb => not_not.2 ?_
  have same := Load.same_of_isKey (length.trans r.paired) ⟨p, bound, ha⟩ ⟨p, bound, hb⟩
  have columns : ∀ k ∈ t.key, (a.get k).order (b.get k) = .eq :=
    fun k hk => (same k (key k (keeps.mem_key.1 hk))).2
  unfold Table.fullOrder
  rw [List.nil_append]
  generalize t.key = ks at columns
  induction ks with
  | nil => rfl
  | cons k ks ih =>
    rw [List.forall_mem_cons] at columns
    rw [List.map_cons, Table.compareRows_cons, ih columns.2]
    exact Ordering.then_eq_eq.2 ⟨columns.1, rfl⟩

namespace Discovery

variable {selection : Selection} {t : DeclaredTable} {k : ForeignKey} {source : Entity}
  {r : Relation} {name : String} {names : List String} {tables ts : List DeclaredTable} {s : Schema}

/-- Some column of the foreign key takes null. -/
def TakesNull (t : DeclaredTable) (k : ForeignKey) : Prop :=
  ∃ d ∈ t.columns, d.name ∈ k.columns ∧ d.nullable = true ∧ d.primaryKey = false

theorem Draws.takesNull_iff (draws : Draws selection t source) :
    (k.columns.any fun c => (source.column? c).any (·.nullable)) = true ↔ TakesNull t k := by
  have read := mapM_eq_ok.1 draws.columns
  have nullable : ∀ {d : DeclaredColumn} {c : Column}, column selection t d = .ok c →
      c.name = d.name ∧ (c.nullable = true ↔ d.nullable = true ∧ d.primaryKey = false) := by
    intro d c h
    obtain ⟨type, -, h⟩ := bind_eq_ok.1 h
    cases h
    exact ⟨rfl, by simp⟩
  rw [List.any_eq_true]
  constructor
  · rintro ⟨name, hname, h⟩
    obtain ⟨c, found, hnull⟩ := (Option.any_eq_true _ _).1 h
    obtain ⟨d, hd, h⟩ := exists_of_forall₂ read.flip (List.mem_of_find?_eq_some found)
    have own : c.name = name := by simpa using List.find?_some found
    rw [(nullable h).1] at own
    exact ⟨d, hd, own ▸ hname, (nullable h).2.1 hnull⟩
  · rintro ⟨d, hd, hname, hnull⟩
    obtain ⟨c, hc, h⟩ := exists_of_forall₂ read hd
    refine ⟨d.name, hname, (Option.any_eq_true _ _).2 ⟨c, ?_, (nullable h).2.2 hnull⟩⟩
    rw [← (nullable h).1]
    exact find?_name source.distinct hc

/-! ## Relations of a foreign key -/

/-- The relation along a foreign key.  It is optional if it leads back to its own table, and
otherwise if some column of the key takes null. -/
structure Along (t : DeclaredTable) (k : ForeignKey) (r : Relation) : Prop where
  kind : r.kind = .belongsTo
  target : r.target = k.table
  sources : r.fromColumns = k.columns
  targets : r.toColumns = k.targets
  optional : r.optional = true ↔ k.table = t.name ∨ TakesNull t k
  direct : r.junction = none

/-- The foreign key is the primary key of its table. -/
def IsPrimary (t : DeclaredTable) (k : ForeignKey) : Prop := ∀ c, c ∈ k.columns ↔ c ∈ t.primaryKey

/-- The relation against a foreign key.  It leads to one row if the key is the primary one. -/
structure Against (t : DeclaredTable) (k : ForeignKey) (r : Relation) : Prop where
  one : IsPrimary t k → r.kind = .hasOne
  many : ¬IsPrimary t k → r.kind = .hasMany
  target : r.target = t.name
  sources : r.fromColumns = k.targets
  targets : r.toColumns = k.columns
  optional : r.optional = true
  direct : r.junction = none

theorem Offer.Gives.along_self (h : Offer.Gives ⟨k.columns, forward selfName true k⟩ r)
    (self : k.table = t.name) : Along t k r := by
  obtain ⟨taken, hr⟩ := h
  exact ⟨congrArg (·.kind) hr, congrArg (·.target) hr, congrArg (·.fromColumns) hr,
    congrArg (·.toColumns) hr, iff_of_true (congrArg (·.optional) hr) (.inl self),
    congrArg (·.junction) hr⟩

theorem Offer.Gives.along (h : Offer.Gives ⟨k.columns, forth source k⟩ r)
    (draws : Draws selection t source) (other : k.table ≠ t.name) : Along t k r := by
  obtain ⟨taken, hr⟩ := h
  refine ⟨congrArg (·.kind) hr, congrArg (·.target) hr, congrArg (·.fromColumns) hr,
    congrArg (·.toColumns) hr, ?_, congrArg (·.junction) hr⟩
  rw [or_iff_right other, ← draws.takesNull_iff]
  exact iff_of_eq (congrArg (· = true) (congrArg (·.optional) hr))

theorem Offer.Gives.against (h : Offer.Gives ⟨k.columns, backward source k⟩ r)
    (draws : Draws selection t source) : Against t k r := by
  obtain ⟨taken, hr⟩ := h
  have kind : r.kind = (backward source k).kind := congrArg (·.kind) hr
  have primary : (k.columns.all source.primaryKey.contains &&
      source.primaryKey.all k.columns.contains) = true ↔ IsPrimary t k := by
    unfold IsPrimary
    rw [draws.key]
    simp only [Bool.and_eq_true, List.all_eq_true, List.contains_iff_mem,
      iff_iff_implies_and_implies, forall_and]
  refine ⟨fun own => ?_, fun other => ?_, (congrArg (·.target) hr).trans draws.name,
    congrArg (·.fromColumns) hr, congrArg (·.toColumns) hr, congrArg (·.optional) hr,
    congrArg (·.junction) hr⟩
  · exact kind.trans (if_pos (primary.2 own))
  · exact kind.trans (if_neg (mt primary.1 other))

/-! ## Foreign keys of an entity -/

/-- The foreign keys of tables, each with its table. -/
def keysOf (tables : List DeclaredTable) : List (DeclaredTable × ForeignKey) :=
  tables.flatMap fun t => t.foreignKeys.map fun k => (t, k)

/-- The foreign key leads from one of the tables to one of them. -/
def Between (ts : List DeclaredTable) (x : DeclaredTable × ForeignKey) : Prop :=
  x.1 ∈ ts ∧ ∃ u ∈ ts, DeclaredTable.isTarget x.2 u = true

/-- The foreign key leads from a table of one of the names to a table of one of them. -/
def BetweenNames (names : List String) (x : DeclaredTable × ForeignKey) : Prop :=
  x.1.name ∈ names ∧ x.2.table ∈ names

/-- The foreign key leads from or to a table of the name. -/
def Meets (name : String) (x : DeclaredTable × ForeignKey) : Prop :=
  x.1.name = name ∨ x.2.table = name

instance (ts : List DeclaredTable) (x : DeclaredTable × ForeignKey) : Decidable (Between ts x) :=
  inferInstanceAs (Decidable (_ ∧ _))

instance (names : List String) (x : DeclaredTable × ForeignKey) :
    Decidable (BetweenNames names x) := inferInstanceAs (Decidable (_ ∧ _))

instance (name : String) (x : DeclaredTable × ForeignKey) : Decidable (Meets name x) :=
  inferInstanceAs (Decidable (_ ∨ _))

/-- The foreign keys between the tables of entities that meet the entity of a name. -/
def keysAt (tables ts : List DeclaredTable) (name : String) : List (DeclaredTable × ForeignKey) :=
  (keysOf tables).filter fun x => Between ts x ∧ Meets name x

/-- The foreign keys between tables with names of entities that meet the entity of a name. -/
def namedKeysAt (tables : List DeclaredTable) (names : List String) (name : String) :
    List (DeclaredTable × ForeignKey) :=
  (keysOf tables).filter fun x => BetweenNames names x ∧ Meets name x

/-- The relation is the one that a foreign key gives the entity of a name: the relation along it to
the entity of its table, and that against it to another one. -/
def Mirrors (name : String) (x : DeclaredTable × ForeignKey) (r : Relation) : Prop :=
  if x.1.name = name then Along x.1 x.2 r else Against x.1 x.2 r

theorem mirrors_along (own : t.name = name) (h : Along t k r) : Mirrors name (t, k) r := by
  unfold Mirrors
  rwa [if_pos own]

theorem mirrors_against (other : t.name ≠ name) (h : Against t k r) : Mirrors name (t, k) r := by
  unfold Mirrors
  rwa [if_neg other]

/-- The relations of the entity are those of the foreign keys between the tables of entities that
meet it, each of them once. -/
def Corresponds (tables ts : List DeclaredTable) (e : Entity) : Prop :=
  ∃ rs, rs.Perm e.relations ∧ List.Forall₂ (Mirrors e.name) (keysAt tables ts e.name) rs

/-- Foreign keys between tables with the names of entities are between the tables of entities. -/
def OwnKeys (tables ts : List DeclaredTable) : Prop :=
  ∀ x ∈ keysOf tables, BetweenNames (ts.map (·.name)) x → Between ts x

/-- The relation mirrors the foreign key as one of the table of the entity that has the name of its
table. -/
def MirrorsNamed (ts : List DeclaredTable) (name : String) (x : DeclaredTable × ForeignKey)
    (r : Relation) : Prop :=
  ∃ u ∈ ts, u.name = x.1.name ∧ Mirrors name (u, x.2) r

theorem betweenNames_of_between {x : DeclaredTable × ForeignKey} (h : Between ts x) :
    BetweenNames (ts.map (·.name)) x := by
  obtain ⟨here, u, hu, target⟩ := h
  have name : u.name = x.2.table := of_decide_eq_true (Bool.and_eq_true_iff.1 target).2
  exact ⟨List.mem_map_of_mem here, name ▸ List.mem_map_of_mem hu⟩

/-- If no two tables have the name of an entity, keys between the names are between the tables. -/
theorem ownKeys_of_names (dangling : DeclaredTable.hasDangling tables = false)
    (distinct : (tables.map (·.name)).Nodup) (sub : ts ⊆ tables) : OwnKeys tables ts := by
  rintro ⟨t, k⟩ hx ⟨here, there⟩
  have of_name : ∀ v ∈ tables, v.name ∈ ts.map (·.name) → v ∈ ts := by
    intro v hv hname
    obtain ⟨w, hw, same⟩ := List.mem_map.1 hname
    obtain rfl : w = v := List.inj_on_of_nodup_map distinct (sub hw) hv same
    exact hw
  obtain ⟨t', ht, hk⟩ := List.mem_flatMap.1 hx
  obtain ⟨k', hk, same⟩ := List.mem_map.1 hk
  cases same
  refine ⟨of_name t ht here, ?_⟩
  have target : tables.any (DeclaredTable.isTarget k) = true := by
    have := List.any_eq_false.1 (Bool.eq_false_iff.2 (List.any_eq_false.1 dangling t ht)) k hk
    simpa using this
  obtain ⟨u, hu, target⟩ := List.any_eq_true.1 target
  have name : u.name = k.table := of_decide_eq_true (Bool.and_eq_true_iff.1 target).2
  exact ⟨u, of_name u hu (name ▸ there), target⟩

section Offers

variable {u : DeclaredTable}

/-- What a foreign key offers by way of the entity that has the name of its table mirrors it, if it
meets the entity. -/
theorem mirrors_of_offers (draws : Draws selection u source) (hu : u ∈ ts) (own : u.name = t.name)
    (here : t.name ∈ names) :
    List.Forall₂ (fun x o => ∀ r, Offer.Gives o r → MirrorsNamed ts name x r)
      ([(t, k)].filter fun x => BetweenNames names x ∧ Meets name x)
      (offers names source k name) := by
  have source_name : source.name = t.name := draws.name.trans own
  by_cases meets : BetweenNames names (t, k) ∧ Meets name (t, k)
  · have there : k.table ∈ names := meets.1.2
    rw [List.filter_cons_of_pos (by simpa using meets), List.filter_nil]
    unfold offers
    rw [if_neg (not_not.2 there), source_name]
    by_cases self : k.table = t.name
    · have at_own : t.name = name := meets.2.elim id self.symm.trans
      rw [if_pos self, if_pos at_own.symm]
      exact .cons (fun r gives => ⟨u, hu, own,
        mirrors_along (own.trans at_own) (gives.along_self (self.trans own.symm))⟩) .nil
    · rw [if_neg self]
      rcases meets.2 with at_own | leads
      · replace at_own : t.name = name := at_own
        rw [if_pos at_own.symm, if_neg (at_own ▸ Ne.symm self), List.append_nil]
        exact .cons (fun r gives => ⟨u, hu, own,
          mirrors_along (own.trans at_own) (gives.along draws (own.symm ▸ self))⟩) .nil
      · replace leads : k.table = name := leads
        have other : t.name ≠ name := leads ▸ Ne.symm self
        rw [if_neg (Ne.symm other), if_pos leads.symm, List.nil_append]
        exact .cons (fun r gives => ⟨u, hu, own,
          mirrors_against (own.symm ▸ other) (gives.against draws)⟩) .nil
  · have none : offers names source k name = [] := by
      refine List.eq_nil_iff_forall_not_mem.2 fun o ho => meets ?_
      obtain ⟨there, ends⟩ := mem_offers.1 ho
      rw [source_name] at ends
      refine ⟨⟨here, there⟩, ?_⟩
      rcases ends with ⟨at_own, -⟩ | ⟨-, ⟨at_own, -⟩ | ⟨leads, -⟩⟩
      · exact .inl at_own.symm
      · exact .inl at_own.symm
      · exact .inr leads.symm
    rw [none, List.filter_cons_of_neg (by simpa using meets), List.filter_nil]
    exact .nil

/-- What the tables offer the entity of a name mirrors the foreign keys that meet it, as keys of the
tables of entities. -/
theorem mirrors_of_tableOffers (name : String) {ds : List Draft}
    (fresh : List.Forall₂ (Fresh selection) ts ds) :
    List.Forall₂ (fun x o => ∀ r, Offer.Gives o r → MirrorsNamed ts name x r)
      (tables.flatMap fun t => t.sortedKeys.flatMap fun k =>
        [(t, k)].filter fun x => BetweenNames (draftNames ds) x ∧ Meets name x)
      (tables.flatMap fun t => tableOffers ds t name) := by
  refine forall₂_flatMap fun t _ => ?_
  unfold tableOffers
  cases hfind : ds.find? fun d => d.entity.name = t.name with
  | none =>
    have away : t.name ∉ draftNames ds := by
      intro h
      obtain ⟨d, hd, hname⟩ := List.mem_map.1 h
      exact absurd (List.find?_eq_none.1 hfind d hd) (by simp [hname])
    have none : ∀ k : ForeignKey, ([(t, k)].filter fun x =>
        BetweenNames (draftNames ds) x ∧ Meets name x) = [] := fun k =>
      List.filter_cons_of_neg (by simpa using fun names => absurd names.1 away)
    rw [List.flatMap_eq_nil_iff.2 fun k _ => none k]
    exact .nil
  | some d =>
    have hd := List.mem_of_find?_eq_some hfind
    have own : d.entity.name = t.name := by simpa using List.find?_some hfind
    obtain ⟨u, hu, fresh⟩ := exists_of_forall₂ fresh.flip hd
    exact forall₂_flatMap fun k _ => mirrors_of_offers fresh.draws hu
      (fresh.draws.name.symm.trans own) (own ▸ List.mem_map_of_mem hd)

end Offers

theorem namedKeysAt_perm : (namedKeysAt tables names name).Perm
    ((DeclaredTable.sorted tables).flatMap fun t => t.sortedKeys.flatMap fun k =>
      [(t, k)].filter fun x => BetweenNames names x ∧ Meets name x) := by
  unfold namedKeysAt keysOf
  simp only [List.map_eq_flatMap, List.filter_flatMap]
  refine (List.Perm.flatMap_right _ (DeclaredTable.sorted_perm tables).symm).trans ?_
  exact List.Perm.flatMap_left _ fun t _ =>
    List.Perm.flatMap_right _ (List.mergeSort_perm _ _).symm

/-! ## Discovery -/

section Discovery

variable {drafts : List Draft} (discovered : Discovered selection tables s drafts)
  (blank : List.Forall₂ (Fresh selection) ts drafts)
include discovered blank

/-- The names that entities are known by are those of their tables. -/
theorem names_eq : s.entities.map (·.name) = ts.map (·.name) :=
  discovered.names.trans (map_eq_of_forall₂ (blank.flip.imp fun _ _ fresh => fresh.draws.name))

/-- The relations of an entity mirror the foreign keys that meet it by name, each of them once. -/
theorem mirrors_of_discovered {e : Entity} (he : e ∈ s.entities) : ∃ rs, rs.Perm e.relations ∧
    List.Forall₂ (MirrorsNamed ts e.name) (namedKeysAt tables (ts.map (·.name)) e.name) rs := by
  have mirrors := forall₂_trans (fun x o r offered gives => offered r gives)
    (mirrors_of_tableOffers e.name blank) (discovered.given e he)
  rw [← discovered.names, names_eq discovered blank] at mirrors
  obtain ⟨rs, mirrors, perm⟩ := List.perm_comp_forall₂ namedKeysAt_perm mirrors
  exact ⟨rs, perm, mirrors⟩

omit discovered blank in
/-- The keys between the tables of entities are some of those between the names. -/
theorem keysAt_eq : keysAt tables ts name =
    (namedKeysAt tables (ts.map (·.name)) name).filter fun x => Between ts x := by
  unfold keysAt namedKeysAt
  rw [List.filter_filter]
  refine List.filter_congr fun x _ => ?_
  rw [← Bool.decide_and, decide_eq_decide]
  exact ⟨fun ⟨between, meets⟩ => ⟨between, betweenNames_of_between between, meets⟩,
    fun ⟨between, _, meets⟩ => ⟨between, meets⟩⟩

/-- An entity has one relation for each key that meets it by name.  So its relations are those of the
keys between the tables of entities only if there are no others. -/
theorem ownKeys_of_corresponds (corresponds : ∀ e ∈ s.entities, Corresponds tables ts e) :
    OwnKeys tables ts := by
  intro x hx between
  have here := between.1
  rw [← names_eq discovered blank] at here
  obtain ⟨e, he, own⟩ := List.mem_map.1 here
  obtain ⟨rs, perm, mirrors⟩ := corresponds e he
  obtain ⟨rs', perm', mirrors'⟩ := mirrors_of_discovered discovered blank he
  have count := mirrors.length_eq.trans ((perm.trans perm'.symm).length_eq.trans
    mirrors'.length_eq.symm)
  rw [keysAt_eq, List.length_filter_eq_length_iff] at count
  have meets : x ∈ namedKeysAt tables (ts.map (·.name)) e.name :=
    List.mem_filter.2 ⟨hx, decide_eq_true ⟨between, .inl own.symm⟩⟩
  exact of_decide_eq_true (count x meets)

/-- If keys between the names are between the tables of entities, relations mirror them as they
are. -/
theorem corresponds_of_ownKeys (distinct : (ts.map (·.name)).Nodup) (keep : OwnKeys tables ts)
    {e : Entity} (he : e ∈ s.entities) : Corresponds tables ts e := by
  obtain ⟨rs, perm, mirrors⟩ := mirrors_of_discovered discovered blank he
  refine ⟨rs, perm, ?_⟩
  have all : ∀ x ∈ namedKeysAt tables (ts.map (·.name)) e.name, Between ts x := fun x hx =>
    keep x (List.mem_of_mem_filter hx) (of_decide_eq_true (List.mem_filter.1 hx).2).1
  rw [keysAt_eq, List.filter_eq_self.2 fun x hx => decide_eq_true (all x hx)]
  refine forall₂_imp_mem mirrors fun x hx r _ ⟨u, hu, own, mirrors⟩ => ?_
  obtain rfl : u = x.1 := List.inj_on_of_nodup_map distinct hu (all x hx).1 own
  exact mirrors

/-- A relation to one row leads to the primary key of its target. -/
theorem single_of_discovered (draws : List.Forall₂ (Draws selection) ts s.entities) {e : Entity}
    (he : e ∈ s.entities) (hr : r ∈ e.relations) (one : r.kind = .hasOne) :
    ∃ target ∈ s.entities, target.name = r.target ∧ r.Single target := by
  obtain ⟨rs, perm, mirrors⟩ := mirrors_of_discovered discovered blank he
  obtain ⟨⟨t, k⟩, -, u, hu, -, mirrors⟩ := exists_of_forall₂ mirrors.flip (perm.mem_iff.2 hr)
  unfold Mirrors at mirrors
  split_ifs at mirrors with own
  · cases mirrors.kind.symm.trans one
  · have primary : IsPrimary u k := by
      by_contra other
      cases (mirrors.many other).symm.trans one
    obtain ⟨target, htarget, draws⟩ := exists_of_forall₂ draws hu
    refine ⟨target, htarget, draws.name.trans mirrors.target.symm, Relation.single_of_key ?_⟩
    rw [draws.key, mirrors.targets]
    exact fun c hc => (primary c).2 hc

end Discovery

/-- The tables that are looked at and have a key are the entities, the last of several of one name.
The relations of the entities are those of the foreign keys between their tables, each once, exactly
if there are no keys between other tables of these names, as in a database whose tables have
different names.  Where there is one row to be found, there is not another. -/
theorem relations_correspond (h : discover tables selection = .ok s) :
    List.Forall₂ (Draws selection) (drawn selection (DeclaredTable.sorted tables)) s.entities ∧
      ((∀ e ∈ s.entities,
          Corresponds tables (drawn selection (DeclaredTable.sorted tables)) e) ↔
        OwnKeys tables (drawn selection (DeclaredTable.sorted tables))) ∧
      ((tables.map (·.name)).Nodup →
        OwnKeys tables (drawn selection (DeclaredTable.sorted tables))) ∧
      ∀ e ∈ s.entities, ∀ r ∈ e.relations, r.kind = .hasOne →
        ∃ target ∈ s.entities, target.name = r.target ∧ r.Single target := by
  obtain ⟨drafts, discovered⟩ := exists_discovered h
  have blank := discovered.blank
  refine ⟨discovered.drawn, ⟨?forth, ?back⟩, ?names, ?single⟩
  case forth => exact ownKeys_of_corresponds discovered blank
  case back => exact fun keep e he => corresponds_of_ownKeys discovered blank nodup_drawn keep he
  case names =>
    intro distinct
    exact ownKeys_of_names (discover_eq_ok.1 h).1 distinct
      fun t ht => DeclaredTable.mem_sorted.1 (of_mem_drawn ht).1
  case single =>
    exact fun e he r hr one => single_of_discovered discovered blank discovered.drawn he hr one

section Badges

open TableGraph.Sample.Stores

/-- Every member of the staff has a badge of their own, which may replace another one. -/
def badges : List DeclaredTable :=
  [{ name := "badge", columns := [number "staff_id" true, number "replaces" false]
     foreignKeys :=
      [pointer "replaces" "badge" "staff_id", pointer "staff_id" "staff" "staff_id"] },
    staff "store_id", store]

/-- Stores are not looked at, so that staff have their badges but do not belong to a store. -/
theorem relations_correspond_badges : ∃ s,
    discover badges ⟨some ["badge", "staff"], []⟩ = .ok s ∧
      (∀ e ∈ s.entities, Corresponds badges
        (drawn ⟨some ["badge", "staff"], []⟩ (DeclaredTable.sorted badges)) e) ∧
      ∃ e ∈ s.entities, e.name = "staff" ∧ ∃ r, e.relations = [r] ∧ r.kind = .hasOne ∧
        ∃ target ∈ s.entities, target.name = "badge" ∧ r.Single target := by
  have known : (discover badges ⟨some ["badge", "staff"], []⟩).toOption.any (fun s => decide
      (∃ e ∈ s.entities, e.name = "staff" ∧
        e.relations.map (fun r => (r.kind, r.target)) = [(.hasOne, "badge")])) = true := by
    rw [discover_of_sorted (by decide +kernel) (by decide +kernel)]
    decide +kernel
  obtain ⟨s, hs, hknown⟩ := (Option.any_eq_true _ _).1 known
  replace hs := eq_ok_of_toOption hs
  obtain ⟨e, he, name, relations⟩ := of_decide_eq_true hknown
  obtain ⟨-, corresponds, own, single⟩ := relations_correspond hs
  obtain ⟨r, hr, shape⟩ := List.map_eq_singleton_iff.1 relations
  obtain ⟨kind, leads⟩ := Prod.mk.inj shape
  obtain ⟨target, htarget, hname, hsingle⟩ :=
    single e he r (hr ▸ List.mem_singleton_self r) kind
  exact ⟨s, hs, corresponds.2 (own (by decide)), e, he, name, r, hr, kind, target, htarget,
    hname.trans leads, hsingle⟩

/-- The foreign key from nodes of one part of a database to those of another part. -/
def upwards : ForeignKey :=
  { columns := ["up"], part := some "a", table := "node", targets := ["id"] }

/-- Nodes that refer to nodes of another part of the database. -/
def lower : DeclaredTable :=
  { part := some "b", name := "node"
    columns := [number "id" true, { number "up" false with nullable := false }]
    foreignKeys := [upwards] }

/-- Nodes of two parts of a database. -/
def twins : List DeclaredTable :=
  [{ part := some "a", name := "node", columns := [number "id" true], foreignKeys := [] }, lower]

/-- Heirs whose key is that of a parent, and is declared to take null. -/
def heirs : List DeclaredTable :=
  [{ name := "heir", columns := [{ number "id" true with nullable := true }]
     foreignKeys := [pointer "id" "parent" "id"] },
    { name := "parent", columns := [number "id" true], foreignKeys := [] }]

/-- The key from one table of nodes to the other gives their one entity a relation to itself, and no
relation against it; that of the heirs gives a relation that is not optional. -/
theorem relations_differ :
    (∃ s, discover twins {} = .ok s ∧
      (∀ e ∈ s.entities, e.name = "node" ∧ e.relations.map (fun r => (r.kind, r.optional)) =
        [(.belongsTo, true)]) ∧
      ¬ ∀ e ∈ s.entities, Corresponds twins (drawn {} (DeclaredTable.sorted twins)) e) ∧
    ∃ s, discover heirs {} = .ok s ∧
      (∃ e ∈ s.entities, e.name = "heir" ∧
        e.relations.map (fun r => (r.kind, r.fromColumns, r.optional)) =
          [(.belongsTo, ["id"], false)]) ∧
      ∃ t ∈ heirs, t.name = "heir" ∧ ∃ d ∈ t.columns, d.name = "id" ∧ d.nullable = true := by
  constructor
  · have known : (discover twins {}).toOption.any (fun s => decide (∀ e ∈ s.entities,
        e.name = "node" ∧ e.relations.map (fun r => (r.kind, r.optional)) =
          [(.belongsTo, true)])) = true := by
      rw [discover_of_sorted (by decide +kernel) (by decide +kernel)]
      decide +kernel
    obtain ⟨s, hs, hknown⟩ := (Option.any_eq_true _ _).1 known
    replace hs := eq_ok_of_toOption hs
    refine ⟨s, hs, of_decide_eq_true hknown, fun corresponds => ?_⟩
    obtain ⟨drafts, discovered⟩ := exists_discovered hs
    have here : "node" ∈ (drawn {} (DeclaredTable.sorted twins)).map (·.name) :=
      (mem_names_drawn (s := {})).2
        ⟨lower, DeclaredTable.mem_sorted.2 (by decide), rfl, by decide, rfl⟩
    -- both tables would be that of the entity
    obtain ⟨low, up, hup, target⟩ :=
      ownKeys_of_corresponds discovered discovered.blank corresponds (lower, upwards)
        (by decide) ⟨here, here⟩
    have name : up.name = "node" := of_decide_eq_true (Bool.and_eq_true_iff.1 target).2
    obtain rfl : up = lower := List.inj_on_of_nodup_map nodup_drawn hup low name
    exact absurd target (by decide)
  · have known : (discover heirs {}).toOption.any (fun s => decide (∃ e ∈ s.entities,
        e.name = "heir" ∧ e.relations.map (fun r => (r.kind, r.fromColumns, r.optional)) =
          [(.belongsTo, ["id"], false)])) = true := by
      rw [discover_of_sorted (by decide +kernel) (by decide +kernel)]
      decide +kernel
    obtain ⟨s, hs, hknown⟩ := (Option.any_eq_true _ _).1 known
    exact ⟨s, eq_ok_of_toOption hs, of_decide_eq_true hknown, by decide⟩

end Badges

end Discovery

end TableGraph
