import TableGraph.Answer.Reading
import TableGraph.Proofs.Scope.Batch
import TableGraph.Proofs.Upheld

/-!
# Answers within row scopes

Every load that an answer may ever wait for is made for a relation, and its condition includes the
row scope of the entity that the relation leads to.  So answers ask for such loads alone, and
running them keeps what is loaded within the scopes.
-/

namespace TableGraph.Answer

open TableGraph.Graph

/-! ## Relations -/

variable {env : Environment} {s : Store} {target : Projection} {row : Record} {a : Arguments}

theorem mem_of_projection {schema : SealedSchema} {name : String}
    (h : schema.projection name = .ok target) : target ∈ schema.projections := by
  unfold SealedSchema.projection at h
  split at h
  next hfind =>
    cases h
    exact List.mem_of_find?_eq_some hfind
  next => cases h

theorem narrows_relatedCondition {codec : Codec} {filter : Value}
    {scope condition : Option (Predicate Value)}
    (h : relatedCondition codec target filter scope = .ok condition) :
    (condition.getD .always).Narrows scope := by
  unfold relatedCondition at h
  split at h
  · cases h
    intro t r hr p hp
    rwa [hp] at hr
  · obtain ⟨c, -, h⟩ := bind_eq_ok.1 h
    cases h
    exact Predicate.narrows_andAlso

/-- What is loaded for a relation is within the row scope of its target, and told by it. -/
theorem scoped_of_related {env' : Environment} (entered : env.Enters env') {r : RelationField}
    {name : String} (ht : env.schema.projection name = .ok target) {rel : Related}
    (h : related env' r target row a = .ok rel) :
    rel.load.key.group.target = target.name ∧ Scoped env rel.load.key ∧
      ∀ scope, env'.scope target .read = .ok scope →
        rel.load.key.group.scope = Scope.fingerprint target.name scope := by
  have own : env.schema.projection target.name = .ok target := name_of_projection ht ▸ ht
  obtain ⟨scope, hscope, asked⟩ := asked_of_related h
  cases asked with
  | one _ loads | page _ _ _ loads =>
    obtain ⟨condition, hc, rfl⟩ := relatedLoad_eq_ok.1 loads
    refine ⟨rfl, ⟨target, env', scope, own, entered, hscope, rfl, narrows_relatedCondition hc⟩,
      fun scope' hscope' => ?_⟩
    rw [hscope] at hscope'
    cases hscope'
    rfl

/-- Whatever field it is of and whatever row, a relation asks for loads within the row scope. -/
theorem follows_scoped (I : Loaded → Prop) : Follows env I (fun r => Scoped env r.key)
    (fun _ _ => True) fun _ _ => True where
  asks entered _ _ ht _ h _ := (scoped_of_related entered ht h).2.1
  finds _ _ _ _ _ _ _ _ _ _ _ _ := trivial

/-! ## Runs -/

variable {l : Loaded} {n : Nat}

theorem within_showRoot {p : Planned} {found : Counted Item} (h : l.Within env s) :
    (showRoot env s p found l n).2.1.Within env s :=
  upholds_showRoot (I := fun l => l.Within env s) (follows_scoped _)
    (fun _ _ _ => within_makeLoads) (allAlong_of_forall (fun _ _ => trivial) _ none)
    (fun item _ _ => item.holds_of_forall fun _ => trivial) h

/-- Reading fields of the root one after another keeps what is loaded within the scopes. -/
theorem within_readRoots {qs : List Prepared} (h : l.Within env s) :
    (readRoots env s qs l n).2.1.Within env s :=
  upholds_readRoots (I := fun l => l.Within env s) (follows_scoped _)
    (fun _ _ _ => within_makeLoads)
    (fun _ _ => ⟨none, allAlong_of_forall (fun _ _ => trivial) _ _,
      fun _ _ _ item _ _ => item.holds_of_forall fun _ => trivial⟩) h n

/-! ## What relations deliver -/

/-- What becomes of rows within a scope is within it. -/
theorem within_relatedItem {rel : Related} {rows : List Record} {item : Item} {name : String}
    {scope : Option (Predicate Value)} (hrows : ∀ r ∈ rows, s.Shows name scope r)
    (h : relatedItem env rel rows = .ok item) : item.Within s name scope := by
  unfold relatedItem at h
  split_ifs at h
  · obtain ⟨c, hc, rfl⟩ := map_eq_ok.1 h
    obtain ⟨hnodes, htotal⟩ := within_paginate hc
    refine ⟨fun r hr => hrows r (hnodes hr), fun k hk => ?_⟩
    rw [htotal k hk]
    exact Store.counts_of_shows hrows
  · cases h
    cases rows with
    | nil => trivial
    | cons r rows => exact hrows r List.mem_cons_self

/--
What a relation delivers is within the row scope of its target, or one that is written like it and
that another field of the request got, whichever keys were loaded.
-/
theorem within_related {env' : Environment} (entered : env.Enters env') {r : RelationField}
    {name : String} {row : Record} {a : Arguments} (hl : l.Within env s)
    (ht : env.schema.projection name = .ok target) {rel : Related}
    (h : related env' r target row a = .ok rel) {rows : List Record}
    (hrows : rows = [] ∨ l.find? rel.load = some (.ok rows)) {item : Item}
    (hitem : relatedItem env' rel rows = .ok item) {scope : Option (Predicate Value)}
    (hscope : env'.scope target .read = .ok scope) :
    ∃ env₁ scope₁, env.Enters env₁ ∧ env₁.scope target .read = .ok scope₁ ∧
      (scope₁ = scope ∨ Scope.WrittenAlike target.name scope₁ scope) ∧
      item.Within s target.name scope₁ := by
  obtain ⟨hname, -, hprint⟩ := scoped_of_related entered ht h
  have within : RowsWithin env s rel.load.key.group rows := hrows.elim .inl (within_find hl)
  rcases within with rfl | ⟨p, env₁, scope₁, hp, entered₁, hscope₁, same, shown⟩
  · exact ⟨env', scope, entered, hscope, .inl rfl, within_relatedItem (List.forall_mem_nil _) hitem⟩
  · rw [hname, name_of_projection ht, ht] at hp
    cases hp
    rw [hprint scope hscope, Scope.fingerprint_same_iff] at same
    exact ⟨env₁, scope₁, entered₁, hscope₁, .inr same, within_relatedItem (hname ▸ shown) hitem⟩

theorem Item.Within.imp {name : String} {scope₁ scope : Option (Predicate Value)} {item : Item}
    (h : item.Within s name scope₁)
    (let_through : ∀ t, s.table name = .ok t → ∀ r ∈ t.rows, t.Within scope₁ r → t.Within scope r) :
    item.Within s name scope := by
  have shows : ∀ {record}, s.Shows name scope₁ record → s.Shows name scope record := by
    rintro record ⟨t, ht, r, hr, hread, within⟩
    exact ⟨t, ht, r, hr, hread, let_through t ht r hr within⟩
  cases item with
  | null => trivial
  | row r => exact shows h
  | connection c =>
    refine ⟨fun r hr => shows (h.1 r hr), fun k hk => ?_⟩
    obtain ⟨rows, htotal, counted⟩ := h.2 k hk
    refine ⟨rows, htotal, fun r hr => ?_⟩
    obtain ⟨t, ht, hmem, within⟩ := counted r hr
    exact ⟨t, ht, hmem, let_through t ht r hmem within⟩
  | _ => cases h

/-- What a relation delivers is within the row scope of its target if scopes are told apart. -/
theorem within_related_of_tells {env' : Environment} (entered : env.Enters env')
    (tells : env.TellsScopes s target) {scope : Option (Predicate Value)}
    (hscope : env'.scope target .read = .ok scope) {item : Item}
    (h : ∃ env₁ scope₁, env.Enters env₁ ∧ env₁.scope target .read = .ok scope₁ ∧
      (scope₁ = scope ∨ Scope.WrittenAlike target.name scope₁ scope) ∧
      item.Within s target.name scope₁) : item.Within s target.name scope := by
  obtain ⟨env₁, scope₁, entered₁, hscope₁, rfl | alike, within⟩ := h
  · exact within
  · exact within.imp fun t ht r hr =>
      (tells env₁ env' scope₁ scope entered₁ entered hscope₁ hscope alike t ht r hr).1

end TableGraph.Answer
