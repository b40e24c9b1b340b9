import TableGraph.Proofs.Discovered.Relations
import TableGraph.Sample.Registered

/-!
# Closing a discovered schema

The schema of a database whose names start with letters and differ once they are cased, whose
foreign keys lead to columns that are there and whose choices have values with names.  Such a schema
is discovered and registered in a new builder.  The builder need not be closed with it after that:
the names of relations are made of the names of tables and columns, and they may clash with columns
and with each other.  Main statement: `discovered_closes_iff`.
-/

namespace TableGraph

open Text TableGraph.Graph

namespace Discovery

variable {tables : List DeclaredTable} {t : DeclaredTable} {k : ForeignKey} {e : Entity}
  {r : Relation} {s : Schema}

/-! ## Tables -/

/-- The foreign key leads from columns of the table to as many columns of one of the tables. -/
structure Leads (tables : List DeclaredTable) (t : DeclaredTable) (k : ForeignKey) : Prop where
  paired : Paired k
  sources : ∀ c ∈ k.columns, c ∈ t.columns.map (·.name)
  targets : ∃ target ∈ tables, (target.part = k.part ∧ target.name = k.table) ∧
    ∀ c ∈ k.targets, c ∈ target.columns.map (·.name)

/-- What is asked of the tables of a database. -/
structure Tidy (tables : List DeclaredTable) : Prop where
  /-- Some table becomes an entity. -/
  keyed : ∃ t ∈ tables, isKeyed t = true
  named : ∀ t ∈ tables, StartsWithLetter t.name ∧ ∀ c ∈ t.columns, StartsWithLetter c.name
  /-- Tables have different names once these are cased. -/
  apart : (tables.map fun t => pascalCase t.name).Nodup
  /-- Columns of a table have different names once these are cased. -/
  columnsApart : ∀ t ∈ tables, (t.columns.map fun c => camelCase c.name).Nodup
  keys : ∀ t ∈ tables, ∀ k ∈ t.foreignKeys, Leads tables t k
  /-- There are no lists of lists. -/
  flat : ∀ t ∈ tables, ∀ d ∈ t.columns, ∀ item, d.type ≠ .list (.list item)
  /-- Choices are among values whose names are names of variants and differ. -/
  variants : ∀ values, Chosen tables values → values ≠ [] ∧ (values.map upperCamel).Nodup ∧
    ∀ v ∈ values, isName (upperCamel v) = true

/-- Every list of choices has a name. -/
def AllNamed (tables : List DeclaredTable) : Prop :=
  ∀ t ∈ tables, ∀ d ∈ t.columns, HasName d.type

theorem Tidy.typed (tidy : Tidy tables) (named : AllNamed tables) : Typed tables where
  flat := tidy.flat
  named := named
  choices values chosen :=
    ⟨(tidy.variants values chosen).1, .of_map upperCamel (tidy.variants values chosen).2.1⟩

theorem Tidy.distinct (tidy : Tidy tables) : (tables.map (·.name)).Nodup := by
  refine .of_map pascalCase ?_
  simpa only [List.map_map, Function.comp_def] using tidy.apart

theorem Tidy.columns (tidy : Tidy tables) : ∀ t ∈ tables, (t.columns.map (·.name)).Nodup := by
  intro t ht
  refine .of_map camelCase ?_
  simpa only [List.map_map, Function.comp_def] using tidy.columnsApart t ht

theorem Tidy.hasDangling (tidy : Tidy tables) : DeclaredTable.hasDangling tables = false := by
  refine Bool.eq_false_iff.2 fun dangling => ?_
  obtain ⟨t, ht, h⟩ := List.any_eq_true.1 dangling
  obtain ⟨k, hk, h⟩ := List.any_eq_true.1 h
  obtain ⟨target, htarget, ⟨hpart, hname⟩, -⟩ := (tidy.keys t ht k hk).targets
  have known : tables.any (DeclaredTable.isTarget k) = true :=
    List.any_eq_true.2 ⟨target, htarget, by simp [DeclaredTable.isTarget, hpart, hname]⟩
  rw [known] at h
  cases h

/-! ## The schema -/

/-- The relation of an entity follows a foreign key of a table, one way or the other. -/
inductive Follows (t : DeclaredTable) (k : ForeignKey) (e : Entity) (r : Relation) : Prop
  | forth (own : e.name = t.name) (target : r.target = k.table)
      (sources : r.fromColumns = k.columns) (targets : r.toColumns = k.targets)
  | back (own : e.name = k.table) (target : r.target = t.name)
      (sources : r.fromColumns = k.targets) (targets : r.toColumns = k.columns)

/-- A relation that leads straight from one entity to another under a name that starts with a
letter. -/
structure Straight (r : Relation) : Prop where
  direct : r.kind ≠ .manyToMany
  named : StartsWithLetter r.name

theorem startsWithLetter_freeName {name : String} (h : StartsWithLetter name)
    (taken columns : List String) : StartsWithLetter (freeName taken name columns) := by
  unfold freeName
  split_ifs
  · exact (h.append _).append _
  · exact h

/-- What a foreign key offers follows it. -/
theorem follows_of_mem_offers {known : List String} {source : Entity} {o : Offer}
    (ho : o ∈ offers known source k e.name) (hsource : source.name = t.name)
    (here : StartsWithLetter t.name) (there : StartsWithLetter k.table) (gives : o.Gives r) :
    k.table ∈ known ∧ Straight r ∧ Follows t k e r := by
  obtain ⟨taken, hr⟩ := gives
  have kind : r.kind = o.shape.kind := congrArg (·.kind) hr
  have name : r.name = freeName taken o.shape.name o.columns := congrArg (·.name) hr
  have target : r.target = o.shape.target := congrArg (·.target) hr
  have sources : r.fromColumns = o.shape.fromColumns := congrArg (·.fromColumns) hr
  have targets : r.toColumns = o.shape.toColumns := congrArg (·.toColumns) hr
  obtain ⟨listed, ⟨own, -, rfl⟩ | ⟨-, ⟨own, rfl⟩ | ⟨own, rfl⟩⟩⟩ := mem_offers.1 ho
  · have letter : StartsWithLetter selfName := by decide
    exact ⟨listed, ⟨kind ▸ nofun, name ▸ startsWithLetter_freeName letter _ _⟩,
      .forth (own.trans hsource) target sources targets⟩
  · exact ⟨listed, ⟨kind ▸ nofun, name ▸ startsWithLetter_freeName there _ _⟩,
      .forth (own.trans hsource) target sources targets⟩
  · have own_named : StartsWithLetter source.name := hsource ▸ here
    exact ⟨listed, ⟨kind ▸ kind_backward, name ▸ startsWithLetter_freeName own_named _ _⟩,
      .back own (target.trans hsource) sources targets⟩

/-- The schema is that of the tables: every table with a key is drawn, and every relation follows a
foreign key between two of the tables that are. -/
structure Pictures (tables : List DeclaredTable) (s : Schema) : Prop where
  drawn : List.Forall₂ (Draws {}) (drawn {} (DeclaredTable.sorted tables)) s.entities
  listed : Listed tables s.enumerations
  relations : ∀ e ∈ s.entities, ∀ r ∈ e.relations, Straight r ∧
    ∃ t ∈ tables, ∃ k ∈ t.foreignKeys, t.name ∈ s.entities.map (·.name) ∧
      k.table ∈ s.entities.map (·.name) ∧ Follows t k e r

namespace Tidy

variable (tidy : Tidy tables)
include tidy

/-- Tables with names for their lists of choices are discovered. -/
theorem exists_entities (named : AllNamed tables) : ∃ fresh enumerations,
    entities {} (DeclaredTable.sorted tables) = .ok (fresh, enumerations) ∧
      Listed tables enumerations := by
  have nothing : Listed tables (([], []) : List Draft × List Enumeration).2 :=
    ⟨.nil, List.forall_mem_nil _⟩
  have sorted : DeclaredTable.sorted tables ⊆ tables := fun t ht => DeclaredTable.mem_sorted.1 ht
  obtain ⟨⟨fresh, enumerations⟩, hfresh, listed⟩ :=
    (tidy.typed named).exists_entities (s := {}) tidy.columns sorted nothing
  exact ⟨fresh, enumerations, hfresh, listed⟩

/-- The drafts of the tables have the columns of their foreign keys. -/
theorem hasSources {ds : List Draft}
    (fresh : List.Forall₂ (Fresh {}) (drawn {} (DeclaredTable.sorted tables)) ds) :
    HasSources (DeclaredTable.sorted tables) ds := by
  intro t ht d hd own k hk c hc
  replace ht := DeclaredTable.mem_sorted.1 ht
  obtain ⟨u, hu, fresh⟩ := exists_of_forall₂ fresh.flip hd
  obtain rfl : u = t := List.inj_on_of_nodup_map tidy.distinct
    (DeclaredTable.mem_sorted.1 (of_mem_drawn hu).1) ht (fresh.draws.name.symm.trans own)
  exact fresh.draws.hasColumn ((tidy.keys u ht k hk).sources c hc)

omit tidy in
theorem named_of_discover (h : discover tables {} = .ok s) : AllNamed tables := by
  obtain ⟨-, fresh, ds, hfresh, -⟩ := discover_eq_ok.1 h
  exact fun t ht => named_of_entities hfresh t (DeclaredTable.mem_sorted.2 ht) rfl

/-- The tables are discovered exactly if lists of choices have names. -/
theorem exists_discover_iff : (∃ s, discover tables {} = .ok s) ↔ AllNamed tables := by
  constructor
  · rintro ⟨s, h⟩
    exact named_of_discover h
  · intro named
    obtain ⟨fresh, enumerations, hfresh, -⟩ := tidy.exists_entities named
    have paired : ∀ t ∈ DeclaredTable.sorted tables, ∀ k ∈ t.foreignKeys, Paired k :=
      fun t ht k hk => (tidy.keys t (DeclaredTable.mem_sorted.1 ht) k hk).paired
    obtain ⟨ds, hds⟩ := exists_keys paired (tidy.hasSources (fresh_of_entities hfresh))
    exact ⟨⟨ds.map (·.entity), enumerations⟩,
      discover_eq_ok.2 ⟨tidy.hasDangling, fresh, ds, hfresh, hds, rfl⟩⟩

/-- What is discovered is the schema of the tables. -/
theorem pictures (h : discover tables {} = .ok s) : Pictures tables s := by
  obtain ⟨drafts, discovered⟩ := exists_discovered h
  constructor
  case drawn => exact discovered.drawn
  case listed =>
    obtain ⟨_, enumerations, hentities, listed⟩ := tidy.exists_entities (named_of_discover h)
    obtain ⟨-, _, -, hfresh, -⟩ := discover_eq_ok.1 h
    cases hentities.symm.trans hfresh
    exact listed
  case relations =>
    intro e he r hr
    obtain ⟨o, ho, gives⟩ := exists_of_forall₂ (discovered.given e he).flip hr
    obtain ⟨t, ht, ho⟩ := List.mem_flatMap.1 ho
    obtain ⟨source, hsource, hname, k, hk, ho⟩ := exists_of_mem_tableOffers ho
    replace ht := DeclaredTable.mem_sorted.1 ht
    obtain ⟨target, htarget, ⟨-, named⟩, -⟩ := (tidy.keys t ht k hk).targets
    have there : StartsWithLetter k.table := named ▸ (tidy.named target htarget).1
    obtain ⟨known, straight, follows⟩ :=
      follows_of_mem_offers ho hname (tidy.named t ht).1 there gives
    refine ⟨straight, t, ht, k, hk, ?_, discovered.names ▸ known, follows⟩
    rw [discovered.names, ← hname]
    exact List.mem_map_of_mem hsource

end Tidy

namespace Pictures

variable (tidy : Tidy tables) (pictures : Pictures tables s)
include tidy pictures

omit tidy in
/-- Every entity is drawn from a table. -/
theorem exists_table (he : e ∈ s.entities) : ∃ t ∈ tables, Draws {} t e := by
  obtain ⟨t, ht, draws⟩ := exists_of_forall₂ pictures.drawn.flip he
  exact ⟨t, DeclaredTable.mem_sorted.1 (of_mem_drawn ht).1, draws⟩

/-- The entity of the name of a table has the columns of the table. -/
theorem hasColumn (he : e ∈ s.entities) (ht : t ∈ tables) (name : e.name = t.name) {c : String}
    (hc : c ∈ t.columns.map (·.name)) : e.hasColumn c = true := by
  obtain ⟨t', ht', draws⟩ := pictures.exists_table he
  obtain rfl : t' = t := List.inj_on_of_nodup_map tidy.distinct ht' ht (draws.name.symm.trans name)
  exact draws.hasColumn hc

theorem inhabited : s.entities ≠ [] := by
  obtain ⟨t, ht, keyed⟩ := tidy.keyed
  have here := (mem_names_drawn (s := {})).2 ⟨t, DeclaredTable.mem_sorted.2 ht, rfl, keyed, rfl⟩
  obtain ⟨u, hu, -⟩ := List.mem_map.1 here
  obtain ⟨e, he, -⟩ := exists_of_forall₂ pictures.drawn hu
  exact List.ne_nil_of_mem he

omit tidy in
theorem nodup_names : (s.entities.map (·.name)).Nodup := by
  have names : s.entities.map (·.name) =
      (Discovery.drawn {} (DeclaredTable.sorted tables)).map (·.name) :=
    map_eq_of_forall₂ (pictures.drawn.flip.imp fun _ _ draws => draws.name)
  rw [names]
  exact nodup_drawn

/-- Clients see all columns of all entities, and all of them can be kept. -/
theorem entity_open (he : e ∈ s.entities) : e.Open := by
  obtain ⟨t, ht, draws⟩ := pictures.exists_table he
  have read : ∀ c ∈ e.columns, ∃ d ∈ t.columns, column {} t d = .ok c :=
    fun c hc => mem_of_mapM draws.columns hc
  constructor
  case named =>
    intro c hc
    obtain ⟨d, hd, h⟩ := read c hc
    rw [(column_eq_ok h).1]
    exact (tidy.named t ht).2 d hd
  case seen =>
    intro c hc
    obtain ⟨d, -, h⟩ := read c hc
    exact (column_eq_ok h).2.1
  case kept =>
    intro c hc
    obtain ⟨d, -, h⟩ := read c hc
    exact (columnType_eq_ok (column_eq_ok h).2.2).2.1

/-- Relations lead to columns that are there. -/
theorem joins (he : e ∈ s.entities) (hr : r ∈ e.relations) : ∃ target ∈ s.entities,
    r.Joins e target := by
  obtain ⟨straight, t, ht, k, hk, here, there, follows⟩ := pictures.relations e he r hr
  obtain ⟨source, hsource, hname⟩ := List.mem_map.1 here
  obtain ⟨target, htarget, hname'⟩ := List.mem_map.1 there
  have leads := tidy.keys t ht k hk
  obtain ⟨u, hu, ⟨-, named⟩, columns⟩ := leads.targets
  cases follows with
  | forth own points sources targets =>
    refine ⟨target, htarget, straight.direct, hname'.trans points.symm, ?_, ?_⟩
    · rw [sources]
      exact fun c hc => pictures.hasColumn tidy he ht own (leads.sources c hc)
    · rw [targets]
      exact fun c hc => pictures.hasColumn tidy htarget hu (hname'.trans named.symm) (columns c hc)
  | back own points sources targets =>
    refine ⟨source, hsource, straight.direct, hname.trans points.symm, ?_, ?_⟩
    · rw [sources]
      exact fun c hc => pictures.hasColumn tidy he hu (own.trans named.symm) (columns c hc)
    · rw [targets]
      exact fun c hc => pictures.hasColumn tidy hsource ht hname (leads.sources c hc)

/-- The schema of tidy tables is plain. -/
theorem plain : s.Plain where
  inhabited := pictures.inhabited tidy
  entities := pictures.nodup_names
  enumerations := pictures.listed.distinct
  variants e he := (tidy.variants e.values (pictures.listed.chosen e he)).2
  named e he := by
    obtain ⟨t, ht, draws⟩ := pictures.exists_table he
    rw [draws.name]
    exact ⟨(tidy.named t ht).1, fun r hr => (pictures.relations e he r hr).1.named⟩
  columns _ he := pictures.entity_open tidy he
  joins _ he _ hr := pictures.joins tidy he hr

end Pictures

/-! ## Closing -/

/-- Tidy tables are discovered exactly if their lists of choices have names.  The schema is then
registered in a new builder, and that is closed exactly if no names of fields, relations and types
clash, the enumerations of lists are known and have names of types, and every entity has a column to
order by. -/
theorem discovered_closes_iff (tidy : Tidy tables) :
    ((∃ s, discover tables {} = .ok s) ↔ AllNamed tables) ∧
      ∀ s, discover tables {} = .ok s →
        ((Builder.empty {}).registerSchema s true).2 = .ok () ∧
          ((∃ sealed, ((Builder.empty {}).registerSchema s true).1.close.2 = .ok sealed) ↔
            s.Seals) := by
  refine ⟨tidy.exists_discover_iff, fun s h => ?_⟩
  have plain := (tidy.pictures h).plain tidy
  refine ⟨?_, plain.closes_iff⟩
  rw [Schema.registerSchema_eq plain.entities plain.enumerations]

/-! ## Stores and people -/

section Stores

open TableGraph.Sample.Stores

instance (tables : List DeclaredTable) (t : DeclaredTable) (k : ForeignKey) :
    Decidable (Leads tables t k) :=
  decidable_of_iff (k.columns ≠ [] ∧ k.columns.length = k.targets.length ∧
      (∀ c ∈ k.columns, c ∈ t.columns.map (·.name)) ∧
      ∃ target ∈ tables, (target.part = k.part ∧ target.name = k.table) ∧
        ∀ c ∈ k.targets, c ∈ target.columns.map (·.name))
    ⟨fun ⟨inhabited, length, sources, targets⟩ => ⟨⟨inhabited, length⟩, sources, targets⟩,
      fun h => ⟨h.paired.nonempty, h.paired.length, h.sources, h.targets⟩⟩

/-- The tables are tidy, and all their columns are whole numbers. -/
def TidyNumbers (tables : List DeclaredTable) : Prop :=
  (∀ t ∈ tables, ∀ d ∈ t.columns, d.type = .named "Integer" none false false) ∧
    (∃ t ∈ tables, isKeyed t = true) ∧
    (∀ t ∈ tables, StartsWithLetter t.name ∧ ∀ c ∈ t.columns, StartsWithLetter c.name) ∧
    (tables.map fun t => pascalCase t.name).Nodup ∧
    (∀ t ∈ tables, (t.columns.map fun c => camelCase c.name).Nodup) ∧
    ∀ t ∈ tables, ∀ k ∈ t.foreignKeys, Leads tables t k

instance (tables : List DeclaredTable) : Decidable (TidyNumbers tables) :=
  inferInstanceAs (Decidable (_ ∧ _))

theorem TidyNumbers.tidy (h : TidyNumbers tables) : Tidy tables := by
  obtain ⟨numbers, keyed, named, apart, columnsApart, keys⟩ := h
  refine ⟨keyed, named, apart, columnsApart, keys, fun t ht d hd item => ?_, ?_⟩
  · rw [numbers t ht d hd]
    nofun
  · rintro values ⟨t, ht, d, hd, name, choice⟩
    rw [numbers t ht d hd] at choice
    cases choice

theorem TidyNumbers.allNamed (h : TidyNumbers tables) : AllNamed tables := by
  intro t ht d hd
  rw [h.1 t ht d hd]
  trivial

theorem exists_discover_of_any {selection : Selection} {p : Schema → Bool}
    (h : (discover tables selection).toOption.any p = true) :
    ∃ s, discover tables selection = .ok s ∧ p s = true := by
  obtain ⟨s, hs, hp⟩ := (Option.any_eq_true _ _).1 h
  exact ⟨s, eq_ok_of_toOption hs, hp⟩

/-- Staff whose column for the store has a name of its own. -/
theorem discovered_closes_stores : Tidy (stores "store_id") ∧ ∃ s sealed,
    discover (stores "store_id") {} = .ok s ∧
      ((Builder.empty {}).registerSchema s true).1.close.2 = .ok sealed := by
  have tidy : Tidy (stores "store_id") := TidyNumbers.tidy (by decide +kernel)
  have seals : (discover (stores "store_id") {}).toOption.any (fun s => decide s.Seals) = true := by
    rw [discover_of_sorted (by decide +kernel) (by decide +kernel)]
    decide +kernel
  obtain ⟨s, hs, hseals⟩ := exists_discover_of_any seals
  obtain ⟨sealed, closed⟩ := ((discovered_closes_iff tidy).2 s hs).2.2 (of_decide_eq_true hseals)
  exact ⟨tidy, s, sealed, hs, closed⟩

/-- The tables are tidy and are discovered, but the builder cannot be closed with their schema. -/
def Clashes (tables : List DeclaredTable) : Prop :=
  Tidy tables ∧ AllNamed tables ∧ ∃ s, discover tables {} = .ok s ∧
    ¬ ∃ sealed, ((Builder.empty {}).registerSchema s true).1.close.2 = .ok sealed

theorem TidyNumbers.clashes (h : TidyNumbers tables) (clash : (discover tables {}).toOption.any
      (fun s => decide (¬ ∀ e ∈ s.entities, (Projection.fieldNames e).Nodup)) = true) :
    Clashes tables := by
  obtain ⟨s, hs, hclash⟩ := exists_discover_of_any clash
  refine ⟨h.tidy, h.allNamed, s, hs, fun closes => ?_⟩
  have seals := ((h.tidy.pictures hs).plain h.tidy).closes_iff.1 closes
  exact of_decide_eq_true hclash seals.fields

/-- Staff whose column for the store is named like the store has two fields of that name, and so has
a node whose column is named as relations of an entity to itself are.  A person has two relations of
one name: that to the home of a city takes the name of its table, and one of those to cities the
name of its table with the column behind it. -/
theorem discovered_clashes : Clashes (stores "store") ∧ Clashes nodes ∧ Clashes people := by
  refine ⟨TidyNumbers.clashes (by decide +kernel) ?_, TidyNumbers.clashes (by decide +kernel) ?_,
    TidyNumbers.clashes (by decide +kernel) ?_⟩ <;>
  · rw [discover_of_sorted (by decide +kernel) (by decide +kernel)]
    decide +kernel

end Stores

end Discovery

end TableGraph
