import TableGraph.Answer.Related
import TableGraph.Proofs.Load.Groups
import TableGraph.Proofs.Upheld

/-!
# Batches within row scopes

Keys that are loaded together share the condition of the first key of their group, although groups
are told apart by what identifies the condition and not by the condition itself.  An entity may have
another scope for every field of a request, so that rows are within a scope that is written like the
own one (`RowsWithin`), and within the own one as far as scopes that are written alike let the same
rows through (`Environment.TellsScopes`).  `Loaded.Within` says that this is so of loads that were
made; `within_makeLoads` says that making more of them keeps it.
-/

namespace TableGraph

/-! ## The rows of a group -/

namespace Load

variable {s : Store} {g : Group} {scope : Option (Predicate Value)}

/-- The row read off a table, and the condition that it satisfies. -/
theorem shows_of_direct {condition : Predicate Value} (hc : condition.Narrows scope)
    {keys : List (List Value)} {found : List Found}
    (h : direct s g condition keys = .ok found) : ∀ f ∈ found, s.Shows g.target scope f.row := by
  intro f hf
  unfold direct at h
  obtain ⟨t, ht, h⟩ := bind_eq_ok.1 h
  obtain ⟨q, hq, h⟩ := bind_eq_ok.1 h
  obtain ⟨rows, hrows, h⟩ := bind_eq_ok.1 h
  obtain ⟨r, hr, hread⟩ := mem_of_mapM h hf
  obtain ⟨row, hrow, hread⟩ := bind_eq_ok.1 hread
  cases hread
  have hr := (Table.sorted_perm t g.orders _).mem_iff.1 hr
  rw [List.mem_filter] at hr
  refine ⟨t, ht, r, ?_, hrow, hc t r ((Table.accepts_iff hq).2 hr.2)⟩
  unfold Table.keyed at hrows
  obtain ⟨_, -, hrows⟩ := bind_eq_ok.1 hrows
  obtain ⟨_, -, hrows⟩ := bind_eq_ok.1 hrows
  cases hrows
  exact List.mem_of_mem_filter hr.1

theorem shows_of_connected {condition : Predicate Value} (hc : condition.Narrows scope)
    {k : Junction} {keys : List (List Value)} {found : List Found}
    (h : connected s g k condition keys = .ok found) :
    ∀ f ∈ found, s.Shows g.target scope f.row := by
  intro f hf
  unfold connected at h
  obtain ⟨_, -, h⟩ := bind_eq_ok.1 h
  obtain ⟨t, ht, h⟩ := bind_eq_ok.1 h
  obtain ⟨u, -, h⟩ := bind_eq_ok.1 h
  obtain ⟨q, hq, h⟩ := bind_eq_ok.1 h
  obtain ⟨links, -, h⟩ := bind_eq_ok.1 h
  obtain ⟨⟨r, l⟩, hr, hread⟩ := mem_of_mapM h hf
  obtain ⟨row, hrow, hread⟩ := bind_eq_ok.1 hread
  obtain ⟨key, -, hread⟩ := bind_eq_ok.1 hread
  cases hread
  obtain ⟨r', hr', hpair⟩ := List.mem_flatMap.1 hr
  obtain ⟨_, -, hpair⟩ := List.mem_map.1 hpair
  cases hpair
  have hr' := (Table.sorted_perm t g.orders _).mem_iff.1 hr'
  rw [List.mem_filter] at hr'
  exact ⟨t, ht, r, hr'.1, hrow, hc t r ((Table.accepts_iff hq).2 hr'.2)⟩

/-- Whatever keys a group is loaded for, its rows satisfy its condition. -/
theorem shows_of_collect (hc : (g.condition.getD .always).Narrows scope) {keys : List LoadKey}
    {found : List Found} (h : collect s g keys = .ok found) :
    ∀ f ∈ found, s.Shows g.target scope f.row := by
  unfold collect at h
  split at h
  · cases h
    exact nofun
  · split at h
    · exact shows_of_direct hc h
    · exact shows_of_connected hc h

end Load

/-! ## Loads of a request -/

namespace Answer

variable {env : Environment} {s : Store} {n m : Nat}

/--
For fields of one request, row scopes that are written alike let the same rows of an entity through.
-/
def Environment.TellsScopes (env : Environment) (s : Store) (p : Projection) : Prop :=
  ∀ env₁ env₂ scope₁ scope₂, env.Enters env₁ → env.Enters env₂ →
    env₁.scope p .read = .ok scope₁ → env₂.scope p .read = .ok scope₂ →
    Scope.WrittenAlike p.name scope₁ scope₂ →
    ∀ t, s.table p.name = .ok t → ∀ r ∈ t.rows, t.Within scope₁ r ↔ t.Within scope₂ r

/-- The condition of the key's group includes a row scope, for a field of the request, of the entity
it leads to, and the group is told by that scope. -/
def Scoped (env : Environment) (k : LoadKey) : Prop :=
  ∃ p env' scope, env.schema.projection k.group.target = .ok p ∧ env.Enters env' ∧
    env'.scope p .read = .ok scope ∧ k.group.scope = Scope.fingerprint p.name scope ∧
    (k.group.condition.getD .always).Narrows scope

/-- The rows are within a row scope, for a field of the request, that the group is told by. -/
def RowsWithin (env : Environment) (s : Store) (g : Group) (rows : List Record) : Prop :=
  rows = [] ∨ ∃ p env₁ scope₁, env.schema.projection g.target = .ok p ∧ env.Enters env₁ ∧
    env₁.scope p .read = .ok scope₁ ∧ (Scope.fingerprint p.name scope₁).same g.scope ∧
    ∀ r ∈ rows, s.Shows g.target scope₁ r

/-- Every load that was made found rows within the row scopes that its group is told by. -/
def Loaded.Within (env : Environment) (s : Store) (l : Loaded) : Prop :=
  ∀ r rows, (r, .ok rows) ∈ l → RowsWithin env s r.key.group rows

theorem name_of_projection {schema : SealedSchema} {name : String} {target : Projection}
    (h : schema.projection name = .ok target) : target.name = name := by
  unfold SealedSchema.projection at h
  split at h
  · rename_i p hfind
    cases h
    simpa using List.find?_some hfind
  · cases h

theorem RowsWithin.stored {g : Group} {rows : List Record} (h : RowsWithin env s g rows) :
    ∀ r ∈ rows, s.Shows g.target none r := by
  rcases h with rfl | ⟨p, env₁, scope₁, -, -, -, -, shown⟩
  · exact nofun
  · intro r hr
    obtain ⟨t, ht, row, hrow, hread, -⟩ := shown r hr
    exact ⟨t, ht, row, hrow, hread, nofun⟩

/-- The rows of one group serve another one that is not told from it. -/
theorem RowsWithin.of_same {g g' : Group} {rows : List Record} (h : RowsWithin env s g rows)
    (same : g.same g') : RowsWithin env s g' rows := by
  obtain ⟨target, -, -, -, scopes, -⟩ := Group.same_iff.1 same
  unfold RowsWithin
  rw [← target]
  refine h.imp_right ?_
  rintro ⟨p, env₁, scope₁, hp, entered₁, hscope₁, same₁, shown⟩
  exact ⟨p, env₁, scope₁, hp, entered₁, hscope₁, Value.same_trans same₁ scopes, shown⟩

/-- The rows that a batch hands to one of its keys. -/
theorem within_rowsOf {keys : List LoadKey} (hscoped : ∀ k ∈ keys, Scoped env k)
    {found : List (Group × List Load.Found)}
    (h : TableGraph.Load.Collected s keys (TableGraph.Load.groups keys) found) (k : LoadKey) :
    RowsWithin env s k.group (TableGraph.Load.rowsOf found k) := by
  unfold TableGraph.Load.rowsOf
  split
  · exact .inl rfl
  · rename_i g rows hfind
    have same : g.same k.group := by simpa using List.find?_some hfind
    obtain ⟨hg, hcollect⟩ := TableGraph.Load.mem_collected h (List.mem_of_find?_eq_some hfind)
    -- the condition is that of the first key of the group, and its scope another one
    obtain ⟨k', hk', rfl⟩ := TableGraph.Load.mem_groups hg
    obtain ⟨p, env₁, scope₁, hp, entered₁, hscope₁, hprint₁, hc⟩ := hscoped k' hk'
    obtain ⟨target, -, -, -, scopes, -⟩ := Group.same_iff.1 same
    refine .inr ⟨p, env₁, scope₁, target ▸ hp, entered₁, hscope₁, hprint₁ ▸ scopes, ?_⟩
    intro r hr
    obtain ⟨f, hf, rfl⟩ := List.mem_map.1 hr
    exact target ▸ TableGraph.Load.shows_of_collect hc hcollect f (List.mem_of_mem_filter hf)

/-- What loads that are made together find is what the batch of their keys collects. -/
theorem mem_loadTogether {loads : List Load} {r : Load} {rows : List Record}
    (h : (r, .ok rows) ∈ (Fetch.loadTogether s n loads).1) : r ∈ loads ∧ ∃ found,
      TableGraph.Load.Collected s (loads.map (·.key)) (TableGraph.Load.groups (loads.map (·.key)))
        found ∧ rows = TableGraph.Load.rowsOf found r.key := by
  unfold Fetch.loadTogether at h
  split at h
  · rename_i given _ hmany
    obtain ⟨found, hfound, rfl, -⟩ := TableGraph.Load.run_many_eq_ok.1 hmany
    have pairs := List.zip_map' (f := id)
      (g := fun r : Load => Except.ok (ε := Fault) (TableGraph.Load.rowsOf found r.key))
      (l := loads)
    rw [List.map_id] at pairs
    rw [List.map_map, List.map_map] at h
    obtain ⟨r', hr', hpair⟩ := List.mem_map.1 (pairs ▸ h)
    cases hpair
    exact ⟨hr', found, hfound, rfl⟩
  · obtain ⟨_, -, h⟩ := List.mem_map.1 h
    cases h

theorem within_loadTogether {loads : List Load} (hscoped : ∀ r ∈ loads, Scoped env r.key) :
    Loaded.Within env s (Fetch.loadTogether s n loads).1 := by
  intro r rows h
  obtain ⟨-, found, hfound, rfl⟩ := mem_loadTogether h
  exact within_rowsOf (List.forall_mem_map.2 hscoped) hfound r.key

theorem Loaded.Within.append {l l' : Loaded} (h : l.Within env s) (h' : l'.Within env s) :
    Loaded.Within env s (l ++ l') := by
  intro r rows hr
  rcases List.mem_append.1 hr with hr | hr
  · exact h r rows hr
  · exact h' r rows hr

theorem subset_missing (l : Loaded) (loads : List Load) : Fetch.missing l loads ⊆ loads := by
  induction loads with
  | nil => exact List.Subset.refl _
  | cons r loads ih =>
    intro r' hr'
    unfold Fetch.missing at hr'
    dsimp only at hr'
    split_ifs at hr'
    · exact List.mem_cons_of_mem r (ih (List.mem_of_mem_filter hr'))
    · rcases List.mem_cons.1 hr' with rfl | hr'
      · exact List.mem_cons_self
      · exact List.mem_cons_of_mem r (ih (List.mem_of_mem_filter hr'))

/-- Making more loads keeps what is loaded within the scopes. -/
theorem within_makeLoads {l : Loaded} {loads : List Load} (h : l.Within env s)
    (hscoped : ∀ r ∈ loads, Scoped env r.key) :
    Loaded.Within env s (Fetch.makeLoads s l n loads).1 := by
  have new : ∀ r ∈ Fetch.missing l loads, Scoped env r.key :=
    fun r hr => hscoped r (subset_missing l loads hr)
  unfold Fetch.makeLoads
  exact (h.append (within_loadTogether fun r hr => new r (List.mem_of_mem_filter hr))).append
    (within_loadTogether fun r hr => new r (List.mem_of_mem_filter hr))

/-- What is found for a load was loaded for one that is not told from it. -/
theorem within_find {l : Loaded} (h : l.Within env s) {r : Load} {rows : List Record}
    (hr : l.find? r = some (.ok rows)) : RowsWithin env s r.key.group rows := by
  unfold Loaded.find? at hr
  obtain ⟨⟨r', _⟩, hfind, rfl⟩ := Option.map_eq_some_iff.1 hr
  have same : r'.same r := by simpa using List.find?_some hfind
  unfold Load.same LoadKey.same at same
  simp only [Bool.and_eq_true] at same
  exact (h r' rows (List.mem_of_find?_eq_some hfind)).of_same same.2.2

end Answer

end TableGraph
