import TableGraph.Proofs.Coalesce.FilterTypes

/-!
# The types of a schema, all of them

The types of a schema are collected one after another, and a name that is taken refuses the next one.
Main statement: `buildTypes_iff`.  All types are collected exactly if the enumerations and the names
of the entities make types at all and no two types have one name.
-/

namespace TableGraph.Builder

open TableGraph.Graph

variable {b : Builder} {types ts out : List NamedType} {t : NamedType} {p : Projection}
  {projections : List Projection}

/-! ## Lists of types -/

/-- The types have different names. -/
def Named (types : List NamedType) : Prop := (types.map (·.name)).Nodup

/-- The type of an enumeration and that of its filters. -/
def withFilter (t : NamedType) : List NamedType := [t, enumerationFilterType t.name]

/-- The types of an entity. -/
def entityTypes (b : Builder) (projections : List Projection) (p : Projection) : List NamedType :=
  objectTypes b.context projections p ++ [entityFilterType p, entityOrderType p] ++
    if b.mutable.contains p.name then
      [entityInsertType b.context p, entityUpdateType b.context p]
    else []

/-- All types but the roots, those of the enumerations being given. -/
def typesOf (b : Builder) (enumerations : List NamedType) (projections : List Projection) :
    List NamedType :=
  b.scalars.map (fun name => ⟨name, .scalar .custom⟩) ++ enumerations.flatMap withFilter ++
    sharedTypes ++ projections.flatMap (b.entityTypes projections)

theorem named_nil : Named [] := List.nodup_nil

theorem Named.left (h : Named (types ++ ts)) : Named types := by
  unfold Named at h
  rw [List.map_append] at h
  exact (List.nodup_append.1 h).1

/-! ## Collecting -/

theorem addType_iff (h : Named types) :
    addType types t = .ok out ↔ out = types ++ [t] ∧ Named out := by
  constructor
  · intro done
    obtain rfl := addType_eq_ok done
    unfold addType at done
    split_ifs at done with known
    refine ⟨rfl, ?_⟩
    unfold Named
    rw [List.map_append]
    refine h.append (List.nodup_singleton _) (List.disjoint_singleton.2 fun old => known ?_)
    obtain ⟨u, hu, hname⟩ := List.mem_map.1 old
    exact List.any_eq_true.2 ⟨u, hu, decide_eq_true hname⟩
  · rintro ⟨rfl, distinct⟩
    unfold addType
    refine if_neg fun known => ?_
    obtain ⟨u, hu, hname⟩ := List.any_eq_true.1 known
    unfold Named at distinct
    rw [List.map_append, List.nodup_append] at distinct
    exact distinct.2.2 u.name (List.mem_map_of_mem hu) t.name List.mem_cons_self
      (of_decide_eq_true hname)

/-- If every step adds the types of its item, all steps add the types of all items. -/
theorem foldlM_parts {α : Type} {f : List NamedType → α → Except Fault (List NamedType)}
    {parts : α → Except Fault (List NamedType)}
    (step : ∀ x {types out}, Named types →
      (f types x = .ok out ↔ ∃ ts, parts x = .ok ts ∧ out = types ++ ts ∧ Named out))
    {xs : List α} (h : Named types) : xs.foldlM f types = .ok out ↔
      ∃ tss, List.Forall₂ (fun x ts => parts x = .ok ts) xs tss ∧
        out = types ++ tss.flatten ∧ Named out := by
  induction xs generalizing types with
  | nil =>
    constructor
    · intro done
      cases done
      exact ⟨[], .nil, (List.append_nil _).symm, h⟩
    · rintro ⟨tss, hparts, rfl, -⟩
      cases hparts
      rw [List.flatten_nil, List.append_nil]
      rfl
  | cons x xs ih =>
    rw [List.foldlM_cons, bind_eq_ok]
    constructor
    · rintro ⟨mid, hx, done⟩
      obtain ⟨ts, hts, rfl, distinct⟩ := (step x h).1 hx
      obtain ⟨tss, htss, rfl, all⟩ := (ih distinct).1 done
      exact ⟨ts :: tss, .cons hts htss, by rw [List.flatten_cons, List.append_assoc], all⟩
    · rintro ⟨_, hparts, rfl, all⟩
      cases hparts with
      | cons hts htss =>
        rename_i ts tss
        have split : types ++ (ts :: tss).flatten = types ++ ts ++ tss.flatten := by
          rw [List.flatten_cons, List.append_assoc]
        have distinct : Named (types ++ ts) := (split ▸ all).left
        exact ⟨_, (step x h).2 ⟨ts, hts, rfl, distinct⟩, (ih distinct).2 ⟨tss, htss, split, all⟩⟩

theorem foldlM_addType (h : Named types) :
    ts.foldlM addType types = .ok out ↔ out = types ++ ts ∧ Named out := by
  have each : ∀ t {types out}, Named types → (addType types t = .ok out ↔
      ∃ ts, (.ok [t] : Except Fault _) = .ok ts ∧ out = types ++ ts ∧ Named out) := by
    intro t types out h
    simp only [addType_iff h, Except.ok.injEq, exists_eq_left']
  have parts : ∀ tss, List.Forall₂ (fun t ts => (.ok [t] : Except Fault _) = .ok ts) ts tss ↔
      ts.map (fun t => [t]) = tss := by
    intro tss
    rw [← mapM_eq_ok, mapM_eq_map (g := fun t => [t]) fun _ _ => rfl, Except.ok.injEq]
  rw [foldlM_parts each h]
  simp only [parts, exists_eq_left', ← List.flatMap_def, List.flatMap_singleton']

theorem addEnumeration_iff {context : Context} (e : Enumeration) (h : Named types) :
    addEnumeration context types e = .ok out ↔
      ∃ ts, withFilter <$> enumerationType context e = .ok ts ∧ out = types ++ ts ∧ Named out := by
  unfold addEnumeration
  simp only [bind_eq_ok, map_eq_ok]
  constructor
  · rintro ⟨t, ht, mid, hmid, done⟩
    obtain ⟨rfl, distinct⟩ := (addType_iff h).1 hmid
    obtain ⟨rfl, all⟩ := (addType_iff distinct).1 done
    exact ⟨_, ⟨t, ht, rfl⟩, List.append_assoc .., all⟩
  · rintro ⟨_, ⟨t, ht, rfl⟩, rfl, all⟩
    have all' : Named (types ++ [t] ++ [enumerationFilterType t.name]) := by
      rwa [List.append_assoc]
    have distinct := all'.left
    refine ⟨t, ht, _, (addType_iff h).2 ⟨rfl, distinct⟩, (addType_iff distinct).2 ⟨?_, all⟩⟩
    rw [List.append_assoc]
    rfl

/-- An entity adds its types one after another, if it has the name of a type. -/
theorem addEntity_eq (p : Projection) : b.addEntity projections types p =
    (checkTypeName p.typeName >>= fun _ => (b.entityTypes projections p).foldlM addType types) := by
  unfold addEntity entityTypes
  have done : ∀ types : List NamedType, (.ok types : Except Fault _) = pure types := fun _ => rfl
  split_ifs <;>
    simp only [List.foldlM_append, List.foldlM_cons, List.foldlM_nil, bind_assoc, bind_pure,
      List.append_nil, done]

theorem addEntity_iff (p : Projection) (h : Named types) :
    b.addEntity projections types p = .ok out ↔ ∃ ts,
      (fun _ => b.entityTypes projections p) <$> checkTypeName p.typeName = .ok ts ∧
        out = types ++ ts ∧ Named out := by
  rw [addEntity_eq, bind_eq_ok]
  simp only [foldlM_addType h, map_eq_ok]
  constructor
  · rintro ⟨u, hu, rfl, all⟩
    exact ⟨_, ⟨u, hu, rfl⟩, rfl, all⟩
  · rintro ⟨_, ⟨u, hu, rfl⟩, rfl, all⟩
    exact ⟨u, hu, rfl, all⟩

/-- The types that enumerations bring are those of their types. -/
theorem enumerationParts {context : Context} {es : List Enumeration} {tss : List (List NamedType)} :
    List.Forall₂ (fun e ts => withFilter <$> enumerationType context e = .ok ts) es tss ↔
      ∃ ts, es.mapM (enumerationType context) = .ok ts ∧ ts.map withFilter = tss := by
  have maps : es.mapM (fun e => withFilter <$> enumerationType context e) =
      List.map withFilter <$> es.mapM (enumerationType context) := by
    induction es with
    | nil => rfl
    | cons e es ih =>
      simp only [List.mapM_cons, ih, map_bind, bind_map_left, map_pure, List.map_cons]
  rw [← mapM_eq_ok, maps, map_eq_ok]

/-- The types that entities bring, if their names are names of types. -/
theorem entityParts_iff {ps : List Projection} {tss : List (List NamedType)} :
    List.Forall₂ (fun p ts => (fun _ => b.entityTypes projections p) <$> checkTypeName p.typeName =
      .ok ts) ps tss ↔
      (∀ p ∈ ps, checkTypeName p.typeName = .ok ()) ∧ ps.map (b.entityTypes projections) = tss := by
  have each : ∀ p ts, (fun _ => b.entityTypes projections p) <$> checkTypeName p.typeName = .ok ts ↔
      checkTypeName p.typeName = .ok () ∧ b.entityTypes projections p = ts := by
    intro p ts
    rw [map_eq_ok]
    exact ⟨fun ⟨_, h⟩ => h, fun h => ⟨(), h⟩⟩
  have same : ps.map (b.entityTypes projections) = tss ↔
      List.Forall₂ (fun p ts => b.entityTypes projections p = ts) ps tss := by
    rw [← List.forall₂_map_left_iff, List.forall₂_eq_eq_eq]
  simp only [each]
  rw [List.forall₂_and_left, same]

/-- The types are collected exactly if all of them can be made and their names differ. -/
theorem buildTypes_iff : b.buildTypes projections = .ok out ↔
    ∃ enumerations, b.enumerations.mapM (enumerationType b.context) = .ok enumerations ∧
      (∀ p ∈ projections, checkTypeName p.typeName = .ok ()) ∧
      out = b.typesOf enumerations projections ∧ Named out := by
  unfold buildTypes typesOf
  constructor
  · intro h
    obtain ⟨types₁, h₁, h⟩ := bind_eq_ok.1 h
    obtain ⟨types₂, h₂, h⟩ := bind_eq_ok.1 h
    obtain ⟨types₃, h₃, h⟩ := bind_eq_ok.1 h
    obtain ⟨rfl, distinct⟩ := (foldlM_addType named_nil).1 h₁
    obtain ⟨_, parts, rfl, distinct⟩ := (foldlM_parts (fun e => addEnumeration_iff e) distinct).1 h₂
    obtain ⟨enumerations, made, rfl⟩ := enumerationParts.1 parts
    obtain ⟨rfl, distinct⟩ := (foldlM_addType distinct).1 h₃
    obtain ⟨_, parts, rfl, distinct⟩ := (foldlM_parts (fun p => addEntity_iff p) distinct).1 h
    obtain ⟨names, rfl⟩ := entityParts_iff.1 parts
    exact ⟨enumerations, made, names, rfl, distinct⟩
  · rintro ⟨enumerations, made, names, rfl, distinct⟩
    rw [List.flatMap_def, List.flatMap_def] at distinct ⊢
    have shared := distinct.left
    have parts := shared.left
    have scalars := parts.left
    refine bind_eq_ok.2 ⟨_, (foldlM_addType named_nil).2 ⟨rfl, scalars⟩, ?_⟩
    refine bind_eq_ok.2 ⟨_, (foldlM_parts (fun e => addEnumeration_iff e) scalars).2
      ⟨_, enumerationParts.2 ⟨enumerations, made, rfl⟩, rfl, parts⟩, ?_⟩
    refine bind_eq_ok.2 ⟨_, (foldlM_addType parts).2 ⟨rfl, shared⟩, ?_⟩
    exact (foldlM_parts (fun p => addEntity_iff p) shared).2
      ⟨_, entityParts_iff.2 ⟨names, rfl⟩, rfl, distinct⟩

end TableGraph.Builder
