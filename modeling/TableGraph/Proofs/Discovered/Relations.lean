import TableGraph.Proofs.Discovered.Tables

/-!
# Relations of foreign keys

Which relations the foreign keys of a database give to which entity.  A key offers a relation to the
entity it belongs to and one to the entity it refers to; a relation that is added has the shape that
was offered, under the offered name or that name with columns behind it.  Main statement:
`grown_of_keys`.
-/

namespace TableGraph

namespace Discovery

variable {ds ds' : List Draft} {d d' d'' : Draft} {r : Relation} {source : Entity} {k : ForeignKey}
  {t : DeclaredTable} {name : String} {columns : List String}

/-! ## Offers -/

/-- A relation an entity is to have, and the columns that are put behind its name if that is
taken. -/
structure Offer where
  columns : List String
  shape : RelationShape

/-- The relation is the one offered, under a free name. -/
def Offer.Gives (o : Offer) (r : Relation) : Prop :=
  ∃ taken, r.toRelationShape = { o.shape with name := freeName taken o.shape.name o.columns }

/-- The relation along a foreign key of an entity to another one. -/
def forth (source : Entity) (k : ForeignKey) : RelationShape :=
  forward k.table (k.columns.any fun c => (source.column? c).any (·.nullable)) k

/-- What a foreign key of an entity offers the entity of a name, if entities of these names are
known. -/
def offers (known : List String) (source : Entity) (k : ForeignKey) (name : String) : List Offer :=
  if k.table ∉ known then []
  else if k.table = source.name then
    if name = source.name then [⟨k.columns, forward selfName true k⟩] else []
  else
    (if name = source.name then [⟨k.columns, forth source k⟩] else []) ++
      if name = k.table then [⟨k.columns, backward source k⟩] else []

/-- A foreign key offers a relation along it, known by a name of its own if it leads back to the
entity, and one against it otherwise. -/
theorem mem_offers {known : List String} {o : Offer} : o ∈ offers known source k name ↔
    k.table ∈ known ∧
      (name = source.name ∧ k.table = source.name ∧ o = ⟨k.columns, forward selfName true k⟩ ∨
        k.table ≠ source.name ∧ (name = source.name ∧ o = ⟨k.columns, forth source k⟩ ∨
          name = k.table ∧ o = ⟨k.columns, backward source k⟩)) := by
  have mem_option : ∀ {p : Prop} [Decidable p] {x : Offer},
      o ∈ (if p then [x] else []) ↔ p ∧ o = x := by
    intro p _ x
    split_ifs with h
    · rw [List.mem_singleton, and_iff_right h]
    · exact iff_of_false List.not_mem_nil fun both => h both.1
  unfold offers
  by_cases listed : k.table ∈ known
  · rw [if_neg (not_not.2 listed), and_iff_right listed]
    by_cases self : k.table = source.name
    · rw [if_pos self, mem_option]
      simp only [self, ne_eq, not_true_eq_false, false_and, or_false, true_and]
    · rw [if_neg self, List.mem_append, mem_option, mem_option]
      simp only [self, ne_eq, not_false_eq_true, false_and, and_false, false_or, true_and]
  · rw [if_pos listed]
    exact iff_of_false List.not_mem_nil fun both => listed both.1

/-- The names of the entities of drafts. -/
def draftNames (ds : List Draft) : List String := ds.map (·.entity.name)

/-- What the foreign keys of a table offer the entity of a name. -/
def tableOffers (ds : List Draft) (t : DeclaredTable) : String → List Offer :=
  match ds.find? fun d => d.entity.name = t.name with
  | some d => fun name => t.sortedKeys.flatMap fun k => offers (draftNames ds) d.entity k name
  | none => fun _ => []

theorem mem_sortedKeys : k ∈ t.sortedKeys ↔ k ∈ t.foreignKeys := List.mem_mergeSort

theorem exists_of_mem_tableOffers {o : Offer} (h : o ∈ tableOffers ds t name) :
    ∃ d ∈ ds, d.entity.name = t.name ∧ ∃ k ∈ t.foreignKeys,
      o ∈ offers (draftNames ds) d.entity k name := by
  unfold tableOffers at h
  cases hfind : ds.find? fun d => d.entity.name = t.name with
  | none =>
    rw [hfind] at h
    cases h
  | some d =>
    rw [hfind] at h
    obtain ⟨k, hk, ho⟩ := List.mem_flatMap.1 h
    exact ⟨d, List.mem_of_find?_eq_some hfind, by simpa using List.find?_some hfind,
      k, mem_sortedKeys.1 hk, ho⟩

/-! ## Growth -/

/-- The draft has got the relations that were offered, in their order, and nothing else. -/
structure Grown (os : List Offer) (d d' : Draft) : Prop where
  name : d'.entity.name = d.entity.name
  columns : d'.entity.columns = d.entity.columns
  key : d'.entity.primaryKey = d.entity.primaryKey
  relations : ∃ new, d'.entity.relations = d.entity.relations ++ new ∧
    List.Forall₂ Offer.Gives os new

theorem Grown.refl (d : Draft) : Grown [] d d :=
  ⟨rfl, rfl, rfl, [], (List.append_nil _).symm, .nil⟩

theorem Grown.trans {os os' : List Offer} (h : Grown os d d') (h' : Grown os' d' d'') :
    Grown (os ++ os') d d'' := by
  obtain ⟨new, hnew, given⟩ := h.relations
  obtain ⟨new', hnew', given'⟩ := h'.relations
  refine ⟨h'.name.trans h.name, h'.columns.trans h.columns, h'.key.trans h.key, new ++ new', ?_,
    List.rel_append given given'⟩
  rw [hnew', hnew, List.append_assoc]

/-- Each draft has got what was offered to the entity of its name. -/
def AllGrown (os : String → List Offer) (ds ds' : List Draft) : Prop :=
  List.Forall₂ (fun d d' => Grown (os d.entity.name) d d') ds ds'

theorem AllGrown.refl (ds : List Draft) : AllGrown (fun _ => []) ds ds :=
  List.forall₂_same.2 fun d _ => .refl d

theorem AllGrown.trans {os os' : String → List Offer} {ds'' : List Draft} (h : AllGrown os ds ds')
    (h' : AllGrown os' ds' ds'') : AllGrown (fun name => os name ++ os' name) ds ds'' := by
  refine forall₂_trans (fun d d' d'' grown grown' => ?_) h h'
  rw [grown.name] at grown'
  exact grown.trans grown'

theorem AllGrown.draftNames_eq {os : String → List Offer} (h : AllGrown os ds ds') :
    draftNames ds' = draftNames ds := by
  exact map_eq_of_forall₂ (h.flip.imp fun _ _ grown => grown.name)

/-- The draft of a name is found where it was. -/
theorem AllGrown.find? {os : String → List Offer} (h : AllGrown os ds ds') (name : String) :
    Option.Rel (fun d d' => Grown (os d.entity.name) d d')
      (ds.find? fun d => d.entity.name = name) (ds'.find? fun d => d.entity.name = name) := by
  induction h with
  | nil => exact .none
  | cons hd _ ih =>
    rw [List.find?_cons, List.find?_cons, hd.name]
    split
    · exact .some hd
    · exact ih

/-! ## Steps -/

/-- A relation is added to the drafts of a name. -/
theorem grown_of_relate {shape : RelationShape} (h : relate ds name columns shape = .ok ds') :
    AllGrown (fun n => if n = name then [⟨columns, shape⟩] else []) ds ds' := by
  refine (mapM_eq_ok.1 h).imp fun d d' hd => ?_
  dsimp only
  split_ifs at hd ⊢
  · obtain ⟨r, hr, hd⟩ := bind_eq_ok.1 hd
    cases hd
    have given : Offer.Gives ⟨columns, shape⟩ r := by
      unfold Relation.make at hr
      split_ifs at hr
      cases hr
      exact ⟨d.taken, rfl⟩
    exact ⟨rfl, rfl, rfl, [r], rfl, .cons given .nil⟩
  · cases hd
    exact .refl d

theorem column_of_column? {c : Column} (h : source.column? name = some c) :
    source.column name = .ok c := by
  unfold Entity.column
  rw [h]

theorem column?_of_column {c : Column} (h : source.column name = .ok c) :
    source.column? name = some c := by
  unfold Entity.column at h
  split at h
  next c' found =>
    cases h
    exact found
  next => cases h

/-- Looked up one after the other, the columns are asked whether they take null. -/
theorem any_of_takesNull {names : List String} {b : Bool} (h : takesNull source names = .ok b) :
    b = names.any fun c => (source.column? c).any (·.nullable) := by
  induction names with
  | nil =>
    cases h
    rfl
  | cons name names ih =>
    obtain ⟨c, hc, h⟩ := bind_eq_ok.1 h
    rw [List.any_cons, column?_of_column hc]
    split_ifs at h with nullable
    · cases h
      rw [Option.any_some, nullable, Bool.true_or]
    · rw [Option.any_some, Bool.eq_false_iff.2 nullable, Bool.false_or]
      exact ih h

/-- A foreign key adds what it offers. -/
theorem grown_of_withKey (h : withKey source ds k = .ok ds') :
    AllGrown (offers (draftNames ds) source k) ds ds' := by
  unfold withKey at h
  unfold offers
  by_cases known : k.table ∈ draftNames ds
  · rw [any_name.2 known, Bool.not_true, if_neg Bool.false_ne_true] at h
    simp only [if_neg (not_not.2 known)]
    obtain ⟨optional, hoptional, h⟩ := bind_eq_ok.1 h
    cases any_of_takesNull hoptional
    split_ifs at h ⊢ with self
    · exact grown_of_relate h
    · obtain ⟨ds₁, hforth, hback⟩ := bind_eq_ok.1 h
      exact (grown_of_relate hforth).trans (grown_of_relate hback)
  · rw [Bool.eq_false_iff.2 (mt any_name.1 known), Bool.not_false, if_pos rfl] at h
    cases h
    simp only [if_pos known]
    exact .refl ds

theorem grown_of_tableKeys {keys : List ForeignKey}
    (h : keys.foldlM (withKey source) ds = .ok ds') :
    AllGrown (fun name => keys.flatMap fun k => offers (draftNames ds) source k name) ds ds' := by
  induction keys generalizing ds with
  | nil =>
    cases h
    exact .refl _
  | cons k keys ih =>
    rw [List.foldlM_cons] at h
    obtain ⟨ds₁, hk, h⟩ := bind_eq_ok.1 h
    have grown := grown_of_withKey hk
    have rest := ih h
    rw [grown.draftNames_eq] at rest
    exact grown.trans rest

/-- The foreign keys of a table add what they offer. -/
theorem grown_of_withKeys (h : withKeys ds t = .ok ds') : AllGrown (tableOffers ds t) ds ds' := by
  unfold withKeys at h
  unfold tableOffers
  cases hfind : ds.find? fun d => d.entity.name = t.name with
  | none =>
    rw [hfind] at h
    cases h
    exact .refl ds
  | some d =>
    rw [hfind] at h
    exact grown_of_tableKeys h

/-- What is offered does not depend on the relations there are already. -/
theorem offers_congr {known : List String} {e e' : Entity} (hname : e'.name = e.name)
    (hcolumns : e'.columns = e.columns) (hkey : e'.primaryKey = e.primaryKey) :
    offers known e' = offers known e := by
  funext k name
  unfold offers forth backward Entity.column?
  rw [hname, hcolumns, hkey]

theorem AllGrown.tableOffers_eq {os : String → List Offer} (h : AllGrown os ds ds')
    (t : DeclaredTable) : tableOffers ds' t = tableOffers ds t := by
  have found := h.find? t.name
  unfold tableOffers
  rw [h.draftNames_eq]
  generalize (ds.find? fun d => d.entity.name = t.name) = o at found ⊢
  generalize (ds'.find? fun d => d.entity.name = t.name) = o' at found ⊢
  cases found with
  | none => rfl
  | some grown =>
    dsimp only
    rw [offers_congr grown.name grown.columns grown.key]

/-- The foreign keys of tables add what they offer. -/
theorem grown_of_keys {ts : List DeclaredTable} (h : ts.foldlM withKeys ds = .ok ds') :
    AllGrown (fun name => ts.flatMap fun t => tableOffers ds t name) ds ds' := by
  induction ts generalizing ds with
  | nil =>
    cases h
    exact .refl _
  | cons t ts ih =>
    rw [List.foldlM_cons] at h
    obtain ⟨ds₁, ht, h⟩ := bind_eq_ok.1 h
    have grown := grown_of_withKeys ht
    have rest := ih h
    simp only [grown.tableOffers_eq] at rest
    exact grown.trans rest

/-! ## Success -/

/-- The foreign key has columns, as many as it refers to. -/
structure Paired (k : ForeignKey) : Prop where
  nonempty : k.columns ≠ []
  length : k.columns.length = k.targets.length

theorem Paired.targets_ne_nil (h : Paired k) : k.targets ≠ [] := fun none =>
  h.nonempty (List.length_eq_zero_iff.1 (h.length.trans (List.length_eq_zero_iff.2 none)))

theorem exists_relate {shape : RelationShape} (sources : shape.fromColumns ≠ [])
    (targets : shape.toColumns ≠ []) (paired : shape.fromColumns.length = shape.toColumns.length)
    (direct : shape.kind ≠ .manyToMany) : ∃ ds', relate ds name columns shape = .ok ds' := by
  refine mapM_of_forall fun d _ => ?_
  split_ifs
  · have made : ∃ r, Relation.make { shape with name := freeName d.taken shape.name columns } =
        .ok r := by
      unfold Relation.make
      rw [dif_neg (not_or.2 ⟨sources, targets⟩), dif_pos paired,
        dif_pos fun many => absurd many direct]
      exact ⟨_, rfl⟩
    obtain ⟨r, hr⟩ := made
    exact ⟨_, bind_eq_ok.2 ⟨r, hr, rfl⟩⟩
  · exact ⟨d, rfl⟩

theorem kind_backward : (backward source k).kind ≠ .manyToMany := by
  unfold backward
  dsimp only
  split_ifs <;> decide

theorem exists_takesNull {names : List String} (known : ∀ c ∈ names, source.hasColumn c = true) :
    ∃ b, takesNull source names = .ok b := by
  induction names with
  | nil => exact ⟨false, rfl⟩
  | cons name names ih =>
    obtain ⟨here, known⟩ := List.forall_mem_cons.1 known
    obtain ⟨c, hc⟩ := Option.isSome_iff_exists.1 (List.find?_isSome.2 (List.any_eq_true.1 here))
    obtain ⟨b, hb⟩ := ih known
    unfold takesNull
    rw [column_of_column? hc]
    show ∃ b, (if c.nullable = true then Except.ok true else takesNull source names) = .ok b
    split_ifs
    · exact ⟨true, rfl⟩
    · exact ⟨b, hb⟩

theorem Paired.exists_withKey (h : Paired k) (known : ∀ c ∈ k.columns, source.hasColumn c = true)
    (ds : List Draft) : ∃ ds', withKey source ds k = .ok ds' := by
  obtain ⟨optional, hoptional⟩ := exists_takesNull known
  unfold withKey
  rw [hoptional]
  split_ifs with away self
  · exact ⟨ds, rfl⟩
  · exact exists_relate h.nonempty h.targets_ne_nil h.length nofun
  · have there : ∃ ds₁, relate ds source.name k.columns (forward k.table optional k) = .ok ds₁ :=
      exists_relate h.nonempty h.targets_ne_nil h.length nofun
    obtain ⟨ds₁, hforth⟩ := there
    have again : ∃ ds₂, relate ds₁ k.table k.columns (backward source k) = .ok ds₂ :=
      exists_relate h.targets_ne_nil h.nonempty h.length.symm kind_backward
    obtain ⟨ds₂, hback⟩ := again
    exact ⟨ds₂, bind_eq_ok.2 ⟨optional, rfl, bind_eq_ok.2 ⟨ds₁, hforth, hback⟩⟩⟩

/-- Steps that succeed from wherever they start succeed one after the other. -/
theorem foldlM_of_forall {α σ : Type} {f : σ → α → Except Fault σ} {xs : List α}
    (h : ∀ x ∈ xs, ∀ s, ∃ s', f s x = .ok s') (s : σ) : ∃ s', xs.foldlM f s = .ok s' := by
  induction xs generalizing s with
  | nil => exact ⟨s, rfl⟩
  | cons x xs ih =>
    obtain ⟨s₁, hx⟩ := h x List.mem_cons_self s
    obtain ⟨s₂, hxs⟩ := ih (fun y hy => h y (List.mem_cons_of_mem x hy)) s₁
    refine ⟨s₂, ?_⟩
    rw [List.foldlM_cons]
    exact bind_eq_ok.2 ⟨s₁, hx, hxs⟩

theorem foldlM_congr {α σ : Type} {f g : σ → α → Except Fault σ} {xs : List α}
    (h : ∀ x ∈ xs, ∀ s, f s x = g s x) (s : σ) : xs.foldlM f s = xs.foldlM g s := by
  induction xs generalizing s with
  | nil => rfl
  | cons x xs ih =>
    rw [List.foldlM_cons, List.foldlM_cons, h x List.mem_cons_self s]
    exact bind_congr fun s' => ih (fun y hy => h y (List.mem_cons_of_mem x hy)) s'

/-- The drafts have the columns of the foreign keys of their tables. -/
def HasSources (ts : List DeclaredTable) (ds : List Draft) : Prop :=
  ∀ t ∈ ts, ∀ d ∈ ds, d.entity.name = t.name →
    ∀ k ∈ t.foreignKeys, ∀ c ∈ k.columns, d.entity.hasColumn c = true

theorem AllGrown.hasSources {os : String → List Offer} {ts : List DeclaredTable}
    (h : AllGrown os ds ds') (known : HasSources ts ds) : HasSources ts ds' := by
  intro t ht d' hd' own k hk c hc
  obtain ⟨d, hd, grown⟩ := exists_of_forall₂ h.flip hd'
  have column := known t ht d hd (grown.name.symm.trans own) k hk c hc
  unfold Entity.hasColumn at column ⊢
  rwa [grown.columns]

/-- Foreign keys with as many columns on both sides, all of them known, give rise to relations. -/
theorem exists_keys {ts : List DeclaredTable} (paired : ∀ t ∈ ts, ∀ k ∈ t.foreignKeys, Paired k)
    (known : HasSources ts ds) : ∃ ds', ts.foldlM withKeys ds = .ok ds' := by
  induction ts generalizing ds with
  | nil => exact ⟨ds, rfl⟩
  | cons t ts ih =>
    have head : ∃ ds₁, withKeys ds t = .ok ds₁ := by
      unfold withKeys
      split
      next d found =>
        have own : d.entity.name = t.name := by simpa using List.find?_some found
        refine foldlM_of_forall (fun k hk ds => ?_) ds
        replace hk := mem_sortedKeys.1 hk
        exact (paired t List.mem_cons_self k hk).exists_withKey
          (known t List.mem_cons_self d (List.mem_of_find?_eq_some found) own k hk) ds
      next => exact ⟨ds, rfl⟩
    obtain ⟨ds₁, hds₁⟩ := head
    have rest : HasSources ts ds := fun u hu => known u (List.mem_cons_of_mem t hu)
    obtain ⟨ds', hds'⟩ := ih (fun u hu => paired u (List.mem_cons_of_mem t hu))
      ((grown_of_withKeys hds₁).hasSources rest)
    rw [List.foldlM_cons, hds₁]
    exact ⟨ds', hds'⟩

/-! ## Discovery -/

section Discover

variable {tables : List DeclaredTable} {selection : Selection} {s : Schema}

theorem discover_eq_ok : discover tables selection = .ok s ↔
    DeclaredTable.hasDangling tables = false ∧ ∃ fresh ds,
      entities selection (DeclaredTable.sorted tables) = .ok (fresh, s.enumerations) ∧
      (DeclaredTable.sorted tables).foldlM withKeys fresh = .ok ds ∧
      s.entities = ds.map (·.entity) := by
  unfold discover
  cases DeclaredTable.hasDangling tables with
  | true => exact iff_of_false nofun nofun
  | false =>
    rw [if_neg Bool.false_ne_true]
    dsimp only
    rw [bind_eq_ok]
    constructor
    · rintro ⟨⟨fresh, enumerations⟩, hfresh, h⟩
      obtain ⟨ds, hds, h⟩ := bind_eq_ok.1 h
      cases h
      exact ⟨rfl, fresh, ds, hfresh, hds, rfl⟩
    · rintro ⟨-, fresh, ds, hfresh, hds, hs⟩
      refine ⟨_, hfresh, bind_eq_ok.2 ⟨ds, hds, ?_⟩⟩
      rw [← hs]
      rfl

/-- The entities are those of the drafts of tables that have a key, each with a relation for
everything that the foreign keys offer it. -/
structure Discovered (selection : Selection) (tables : List DeclaredTable) (s : Schema)
    (drafts : List Draft) : Prop where
  blank : List.Forall₂ (Fresh selection) (drawn selection (DeclaredTable.sorted tables)) drafts
  drawn : List.Forall₂ (Draws selection) (drawn selection (DeclaredTable.sorted tables)) s.entities
  names : s.entities.map (·.name) = draftNames drafts
  given : ∀ e ∈ s.entities, List.Forall₂ Offer.Gives
    ((DeclaredTable.sorted tables).flatMap fun t => tableOffers drafts t e.name) e.relations

theorem exists_discovered (h : discover tables selection = .ok s) :
    ∃ drafts, Discovered selection tables s drafts := by
  obtain ⟨-, fresh, ds, hfresh, hds, hs⟩ := discover_eq_ok.1 h
  have each := fresh_of_entities hfresh
  have grown := grown_of_keys hds
  refine ⟨fresh, each, ?drawn, ?names, ?given⟩
  case drawn =>
    rw [hs, List.forall₂_map_right_iff]
    refine forall₂_trans (fun t f d own grown => ?_) each grown
    exact ⟨grown.name.trans own.draws.name, grown.columns ▸ own.draws.columns,
      grown.key.trans own.draws.key⟩
  case names =>
    rw [hs, List.map_map]
    exact grown.draftNames_eq
  case given =>
    intro e he
    rw [hs] at he
    obtain ⟨d, hd, rfl⟩ := List.mem_map.1 he
    obtain ⟨f, hf, grown⟩ := exists_of_forall₂ grown.flip hd
    obtain ⟨_, -, blank⟩ := exists_of_forall₂ each.flip hf
    obtain ⟨new, hnew, given⟩ := grown.relations
    rw [hnew, blank.relations, grown.name]
    exact given

/-- Tables that are listed by name, with their keys listed by columns, are taken as they stand. -/
theorem discover_of_sorted
    (names : tables.Pairwise fun a b => decide (a.fullName ≤ b.fullName) = true)
    (keys : ∀ t ∈ tables,
      t.foreignKeys.Pairwise fun a b => (compare a.columns b.columns).isLE = true) :
    discover tables selection = (if DeclaredTable.hasDangling tables then .error .danglingReference
      else do
        let sorted := DeclaredTable.rounds
          (fun t => if DeclaredTable.isCyclic tables t then [] else t.parents) tables
        let (ds, enumerations) ← entities selection sorted
        let ds ← sorted.foldlM (fun ds t =>
          match ds.find? fun d => d.entity.name = t.name with
          | some d => t.foreignKeys.foldlM (withKey d.entity) ds
          | none => .ok ds) ds
        pure ⟨ds.map (·.entity), enumerations⟩) := by
  have sorted : DeclaredTable.sorted tables = DeclaredTable.rounds
      (fun t => if DeclaredTable.isCyclic tables t then [] else t.parents) tables := by
    unfold DeclaredTable.sorted
    rw [List.mergeSort_of_pairwise names]
  unfold discover
  rw [sorted]
  refine congrArg (ite _ _) (bind_congr fun found => ?_)
  dsimp only
  refine congrArg (· >>= _) (foldlM_congr (fun t ht ds => ?_) _)
  have listed : t.sortedKeys = t.foreignKeys :=
    List.mergeSort_of_pairwise (keys t ((DeclaredTable.rounds_perm _ _).mem_iff.1 ht))
  unfold withKeys
  cases ds.find? fun d => d.entity.name = t.name with
  | none => rfl
  | some d => exact congrArg (List.foldlM (withKey d.entity) ds) listed

end Discover

end Discovery

end TableGraph
