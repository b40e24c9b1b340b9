import TableGraph.Proofs.Load.Alone

/-!
# Batches and single statements

A batch finds the rows of many keys at once and hands each row to the keys that its values are.
`Tells` says of a key that the rows that are handed to it are those that it finds by itself;
`separately_iff_tells` that this is what makes a batch right, whatever part of the rows is there.
-/

namespace TableGraph

/-! ## Parts of a store -/

/-- The table with some of its rows. -/
def Table.keeping (t : Table) (keep : Row → Bool) : Table := { t with rows := t.rows.filter keep }

/-- The store with some of the rows of each table. -/
def Store.keeping (s : Store) (keep : String → Row → Bool) : Store :=
  { s with tables := s.tables.map fun t => t.keeping (keep t.name) }

theorem Store.table_keeping {s : Store} {name : String} {t : Table} (h : s.table name = .ok t)
    (keep : String → Row → Bool) : (s.keeping keep).table name = .ok (t.keeping (keep name)) := by
  obtain ⟨hdown, hfind⟩ := Store.table_eq_ok.1 h
  refine Store.table_eq_ok.2 ⟨hdown, ?_⟩
  unfold Store.keeping
  dsimp only
  rw [List.find?_map]
  have found : (s.tables.find? ((fun t => decide (t.name = name)) ∘ fun t : Table =>
      t.keeping (keep t.name))) = some t := hfind
  rw [found, ← Store.name_of_table h]
  rfl

theorem Store.registered_keeping (s : Store) (name : String) (keep : String → Row → Bool) :
    (s.keeping keep).registered name =
      (s.registered name).map fun t => t.keeping (keep t.name) := by
  unfold Store.registered Store.keeping
  dsimp only
  rw [List.find?_map]
  have same : ((fun t : Table => decide (t.name = name)) ∘ fun t : Table =>
      t.keeping (keep t.name)) = fun t => decide (t.name = name) := rfl
  rw [same]
  cases s.tables.find? fun t => t.name = name <;> rfl

namespace Load

variable {s : Store} {keys : List LoadKey}

/-- Leaving rows out leaves the columns of a statement through a junction there. -/
theorem joined_keeping (g : Group) (j : Junction) (keep : String → Row → Bool) :
    joined (s.keeping keep) g j = joined s g j := by
  unfold joined
  rw [Store.registered_keeping, Store.registered_keeping]
  cases s.registered g.target with
  | error e => rfl
  | ok t => cases s.registered j.table <;> rfl

/-! ## What a batch tells -/

/--
Of the rows that a batch finds for a key and its fellows, those whose values are the key are the
ones that it finds by itself.
-/
def Tells (s : Store) (keys : List LoadKey) (k : LoadKey) : Prop :=
  let values := (wanted (fellows keys k)).map (·.values)
  values ≠ [] → ∀ t u, s.table k.group.target = .ok t → s.table k.group.holder = .ok u →
    ∃ found, u.keyed k.group.keyColumns values = .ok found ∧
      ∀ l ∈ u.rows, Leads k.group t (t.Accepts (k.group.condition.getD .always)) l →
        (l ∈ found ∧ sameKey (identityOf (u.record l) k.group.keyColumns) k.identity ↔
          k.hasNull = false ∧ u.Accepts (isKey k.group.keyColumns k.values) l)

/--
A batch gives each key the rows that a statement of its own finds, or the first of them, with one
statement for each group that has a key without null.
-/
def Separately (s : Store) (keys : List LoadKey) : Prop :=
  ∃ rows, keys.mapM (alone s) = .ok rows ∧ ∀ n,
    (many s keys).run n = .ok (rows, n + sent keys) ∧
      (one s keys).run n = .ok (rows.map (·.head?), n + sent keys)

/-- A batch is right if it is right for every key. -/
theorem separately_iff (hself : ∀ k ∈ keys, k.group.same k.group) :
    Separately s keys ↔ ∀ k ∈ keys, ∀ g, (groups keys).find? (·.same k.group) = some g →
      ∃ rows, collect s g (fellows keys k) = .ok rows ∧
        alone s k = .ok ((rows.filter fun f => sameKey f.key k.identity).map (·.row)) := by
  constructor
  · rintro ⟨rows, hrows, hrun⟩ k hk g hg
    obtain ⟨found, hfound, rfl, -⟩ := run_many_eq_ok.1 (hrun 0).1
    rw [mapM_eq_ok, List.forall₂_map_right_iff, List.forall₂_same] at hrows
    obtain ⟨taken, htaken, hrowsOf⟩ := rowsOf_eq hfound hg
    rw [fellows_eq hg]
    exact ⟨taken, htaken, (hrows k hk).trans (congrArg _ hrowsOf)⟩
  · intro h
    have collected : ∀ g ∈ groups keys, ∃ p : Group × List Found, p.1 = g ∧
        collect s g (keys.filter fun k => g.same k.group) = .ok p.2 := by
      intro g hg
      obtain ⟨k, hk, rfl⟩ := mem_groups hg
      have opens := find?_groups (hself k hk) hg
      obtain ⟨rows, hrows, -⟩ := h k hk _ opens
      rw [fellows_eq opens] at hrows
      exact ⟨(k.group, rows), rfl, hrows⟩
    obtain ⟨found, hfound⟩ := exists_forall₂ collected
    refine ⟨keys.map (rowsOf found), mapM_eq_map fun k hk => ?_, fun n => ?_⟩
    · obtain ⟨g, hg⟩ := exists_group (hself k hk) hk
      obtain ⟨rows, hrows, halone⟩ := h k hk g hg
      obtain ⟨rows', hrows', hrowsOf⟩ := rowsOf_eq hfound hg
      rw [fellows_eq hg, hrows'] at hrows
      cases hrows
      rw [halone, hrowsOf]
    · have hmany : (many s keys).run n = .ok (keys.map (rowsOf found), n + sent keys) :=
        run_many_eq_ok.2 ⟨found, hfound, rfl, rfl⟩
      exact ⟨hmany, run_one hmany⟩

/-! ## Rows on their own -/

section Pairs

variable {g : Group} {t u : Table} {q p p' : Row → Bool}
  (hu : g.junction = none → u = t) (hjunction : ∀ j, g.junction = some j → j.table ≠ g.target)

theorem leads_of_keeping {keep : Row → Bool} {l : Row}
    (h : Leads g (t.keeping keep) (fun r => q r) l) : Leads g t (fun r => q r) l := by
  unfold Leads at *
  split
  next hg =>
    rw [hg] at h
    exact h
  next j hg =>
    rw [hg] at h
    obtain ⟨r, hr, hpass⟩ := h
    exact ⟨r, List.mem_of_mem_filter hr, hpass⟩

include hu hjunction

/-- Tables can be left with one holder and one row that it leads to. -/
theorem exists_keeping {l : Row} (hl : l ∈ u.rows) (hleads : Leads g t (fun r => q r) l) :
    ∃ keep : String → Row → Bool, ∀ p : Row → Bool,
      pairs g (t.keeping (keep g.target)) (u.keeping (keep g.holder)) q p ≠ [] ↔ p l := by
  obtain ⟨keep, only, kept, leads⟩ : ∃ keep : String → Row → Bool,
      (∀ l', keep g.holder l' → l' = l) ∧ keep g.holder l ∧
        Leads g (t.keeping (keep g.target)) (fun r => q r) l := by
    unfold Leads at hleads ⊢
    match hg : g.junction with
    | none =>
      rw [hg] at hleads
      exact ⟨fun _ r => r == l, fun _ => eq_of_beq, beq_self_eq_true l, hleads⟩
    | some j =>
      rw [hg] at hleads
      obtain ⟨r, hr, hpass, hjoins⟩ := hleads
      obtain ⟨hholder, -⟩ := holder_connected hg
      refine ⟨fun name => if name = g.target then (· == r) else (· == l), ?_⟩
      rw [hholder]
      dsimp only
      rw [if_neg (hjunction j hg), if_pos rfl]
      exact ⟨fun _ => eq_of_beq, beq_self_eq_true l, r,
        List.mem_filter.2 ⟨hr, beq_self_eq_true r⟩, hpass, hjoins⟩
  have same : g.junction = none → u.keeping (keep g.holder) = t.keeping (keep g.target) := by
    intro hg
    rw [hu hg, (holder_direct hg).1]
  refine ⟨keep, fun p => (pairs_ne_nil_iff same).trans ⟨?_, fun h => ?_⟩⟩
  · rintro ⟨l', hl', -, hp⟩
    rw [← only l' (List.mem_filter.1 hl').2]
    exact hp
  · exact ⟨l, List.mem_filter.2 ⟨hl, kept⟩, leads, h⟩

/-- Two tests take the same rows from every part of the tables if they agree on what leads on. -/
theorem pairs_keeping_iff {α : Type} (f : Row × Row → α) :
    (∀ keep : String → Row → Bool,
      (pairs g (t.keeping (keep g.target)) (u.keeping (keep g.holder)) q p).map f =
        (pairs g (t.keeping (keep g.target)) (u.keeping (keep g.holder)) q p').map f) ↔
    ∀ l ∈ u.rows, Leads g t (fun r => q r) l → p l = p' l := by
  constructor
  · intro h l hl hleads
    obtain ⟨keep, hkeep⟩ := exists_keeping hu hjunction hl hleads
    have mapped : ∀ xs : List (Row × Row), xs ≠ [] ↔ xs.map f ≠ [] := fun xs =>
      not_congr List.map_eq_nil_iff.symm
    rw [Bool.eq_iff_iff, ← hkeep p, ← hkeep p', mapped, h keep, mapped]
  · intro h keep
    refine congrArg (List.map f) (pairs_congr (fun hg => ?_) fun l hl hleads => ?_)
    · rw [hu hg, (holder_direct hg).1]
    · exact h l (List.mem_of_mem_filter hl) (leads_of_keeping hleads)

end Pairs

/-! ## One key of a batch -/

/-- The key tells which of the rows that hold keys it finds by itself. -/
def finds (u : Table) (k : LoadKey) (l : Row) : Bool :=
  !k.hasNull &&
    match u.bind (isKey k.group.keyColumns k.values) with
    | .ok p => p.accepts l
    | .error _ => false

theorem finds_iff {u : Table} {k : LoadKey} {l : Row} : finds u k l ↔
    k.hasNull = false ∧ u.Accepts (isKey k.group.keyColumns k.values) l := by
  unfold finds Table.Accepts
  rw [Bool.and_eq_true, Bool.not_eq_true']
  refine and_congr_right' ?_
  cases u.bind (isKey k.group.keyColumns k.values) <;> simp

/-- The values of a row that holds a key are the key. -/
def told (u : Table) (k : LoadKey) (l : Row) : Bool :=
  sameKey (identityOf (u.record l) k.group.keyColumns) k.identity

/-- What a batch hands to a key are the pairs whose holders have its values. -/
theorem handed_eq (k : LoadKey) (t u : Table) (q p : Row → Bool) :
    (((pairs k.group t u q p).map (taken k.group t u)).filter fun f =>
      sameKey f.key k.identity).map (·.row) =
      (pairs k.group t u q fun l => p l && told u k l).map fun x => t.record x.1 := by
  rw [List.filter_map, List.map_map, ← pairs_filter]
  rfl

/-- A key of a batch, with the tables and the condition that its rows are taken from. -/
structure Posed (s : Store) (keys : List LoadKey) (k : LoadKey) (t u : Table)
    (accepts : Predicate Cell) : Prop where
  target : s.table k.group.target = .ok t
  holder : s.table k.group.holder = .ok u
  condition : t.bind (k.group.condition.getD .always) = .ok accepts
  /-- The group that the key is loaded with asks the same of the rows of the target. -/
  group : ∀ g, (groups keys).find? (·.same k.group) = some g → ∃ accepts',
    t.bind (g.condition.getD .always) = .ok accepts' ∧
      ∀ r ∈ t.rows, accepts'.accepts r = accepts.accepts r
  readable : ∀ r ∈ t.rows, ∃ record, t.read r = .ok record
  readable' : ∀ l ∈ u.rows, ∃ record, u.read l = .ok record
  operands : k.hasNull = false → ∃ key, u.bind (isKey k.group.keyColumns k.values) = .ok key
  joined : ∀ j, k.group.junction = some j → joined s k.group j = .ok ()

namespace Posed

variable {k : LoadKey} {t u : Table} {accepts : Predicate Cell}
  (h : Posed s keys k t u accepts)
include h

theorem keeping (keep : String → Row → Bool) : Posed (s.keeping keep) keys k
    (t.keeping (keep k.group.target)) (u.keeping (keep k.group.holder)) accepts where
  target := Store.table_keeping h.target keep
  holder := Store.table_keeping h.holder keep
  condition := h.condition
  group := by
    intro g hg
    obtain ⟨accepts', hbind, hsame⟩ := h.group g hg
    exact ⟨accepts', hbind, fun r hr => hsame r (List.mem_of_mem_filter hr)⟩
  readable := fun r hr => h.readable r (List.mem_of_mem_filter hr)
  readable' := fun l hl => h.readable' l (List.mem_of_mem_filter hl)
  operands := h.operands
  joined := fun j hj => (joined_keeping _ j keep).trans (h.joined j hj)

/-- A key finds pairs by itself whose holders it finds. -/
theorem alone_eq_pairs : alone s k =
    .ok ((pairs k.group t u accepts.accepts (finds u k)).map fun x => t.record x.1) := by
  by_cases hnull : k.hasNull
  · have none : finds u k = fun _ => false := by
      funext l
      unfold finds
      rw [hnull]
      rfl
    have empty := pairs_filter (g := k.group) (t := t) (u := u) (q := accepts.accepts)
      (p := fun _ => true) fun _ => false
    rw [List.filter_eq_nil_iff.2 fun _ _ => Bool.false_ne_true] at empty
    rw [none]
    unfold alone
    rw [if_pos hnull]
    exact congrArg (fun xs => Except.ok (List.map (fun x : Row × Row => t.record x.1) xs)) empty
  · rw [Bool.not_eq_true] at hnull
    obtain ⟨key, hkey⟩ := h.operands hnull
    have same : finds u k = key.accepts := by
      funext l
      unfold finds
      rw [hkey, hnull]
      rfl
    rw [same]
    exact alone_eq h.target h.holder h.condition h.readable rfl hnull rfl h.joined hkey

variable {g : Group} (hg : (groups keys).find? (·.same k.group) = some g)
include hg

theorem collect_eq_pairs {values : List (List Value)} {p : Row → Bool}
    (hvalues : (wanted (fellows keys k)).map (·.values) = values) (hne : values ≠ [])
    (hp : u.keyTest k.group.keyColumns values = .ok p) : collect s g (fellows keys k) =
      .ok ((pairs k.group t u accepts.accepts p).map (taken k.group t u)) := by
  have same := same_of_find? hg
  obtain ⟨htarget, hholder, hcolumns⟩ := fields_of_same same
  obtain ⟨accepts', hbind, hsame⟩ := h.group g hg
  have taken_eq : taken g t u = taken k.group t u := by
    unfold taken
    rw [hcolumns]
  rw [collect_eq (htarget ▸ h.target) (hholder ▸ h.holder) hbind h.readable h.readable' hvalues hne
    rfl ((joined_iff_of_same same).2 h.joined) (hcolumns ▸ hp), pairs_of_same same hsame, taken_eq]

/-- The batch is right for the key if it pairs the same rows. -/
theorem collected_iff (hne : (wanted (fellows keys k)).map (·.values) ≠ []) :
    (∃ rows, collect s g (fellows keys k) = .ok rows ∧
      alone s k = .ok ((rows.filter fun f => sameKey f.key k.identity).map (·.row))) ↔
    ∃ p, u.keyTest k.group.keyColumns ((wanted (fellows keys k)).map (·.values)) = .ok p ∧
      (pairs k.group t u accepts.accepts fun l => p l && told u k l).map (fun x => t.record x.1) =
        (pairs k.group t u accepts.accepts (finds u k)).map fun x => t.record x.1 := by
  rw [h.alone_eq_pairs]
  constructor
  · rintro ⟨rows, hrows, heq⟩
    have same := same_of_find? hg
    obtain ⟨-, hholder, hcolumns⟩ := fields_of_same same
    obtain ⟨_, u', _, p, -, hu, -, hp, -⟩ := exists_of_collect hrows hne
    rw [hholder, h.holder] at hu
    cases hu
    rw [hcolumns] at hp
    rw [h.collect_eq_pairs hg rfl hne hp] at hrows
    cases hrows
    rw [handed_eq, Except.ok.injEq] at heq
    exact ⟨p, hp, heq.symm⟩
  · rintro ⟨p, hp, heq⟩
    exact ⟨_, h.collect_eq_pairs hg rfl hne hp, by rw [handed_eq, heq]⟩

omit hg in
theorem tells_iff (hne : (wanted (fellows keys k)).map (·.values) ≠ []) : Tells s keys k ↔
    ∃ p, u.keyTest k.group.keyColumns ((wanted (fellows keys k)).map (·.values)) = .ok p ∧
      ∀ l ∈ u.rows, Leads k.group t (fun r => accepts.accepts r) l →
        (p l && told u k l) = finds u k l := by
  have found : ∀ p : Row → Bool, ∀ l ∈ u.rows, (p l && told u k l) = finds u k l ↔
      (l ∈ u.rows.filter p ∧ sameKey (identityOf (u.record l) k.group.keyColumns) k.identity ↔
        k.hasNull = false ∧ u.Accepts (isKey k.group.keyColumns k.values) l) := by
    intro p l hl
    rw [Bool.eq_iff_iff, finds_iff, Bool.and_eq_true, List.mem_filter, and_iff_right hl]
    rfl
  constructor
  · intro htells
    obtain ⟨_, hkeyed, hrows⟩ := htells hne t u h.target h.holder
    rw [Table.keyed_eq] at hkeyed
    obtain ⟨p, hp, rfl⟩ := map_eq_ok.1 hkeyed
    exact ⟨p, hp, fun l hl hleads => (found p l hl).2 (hrows l hl ((leads_iff h.condition).2 hleads))⟩
  · rintro ⟨p, hp, hrows⟩ - t' u' ht' hu'
    rw [h.target] at ht'
    cases ht'
    rw [h.holder] at hu'
    cases hu'
    refine ⟨u.rows.filter p, ?_, fun l hl hleads =>
      (found p l hl).1 (hrows l hl ((leads_iff h.condition).1 hleads))⟩
    rw [Table.keyed_eq, hp]
    rfl

/-- Every part of the store is answered right for the key if the batch tells its rows. -/
theorem keeping_iff (hjunction : ∀ j, k.group.junction = some j → j.table ≠ k.group.target)
    (hne : (wanted (fellows keys k)).map (·.values) ≠ []) :
    (∀ keep, ∃ rows, collect (s.keeping keep) g (fellows keys k) = .ok rows ∧
      alone (s.keeping keep) k =
        .ok ((rows.filter fun f => sameKey f.key k.identity).map (·.row))) ↔ Tells s keys k := by
  have hu : k.group.junction = none → u = t := by
    intro hj
    have hholder := h.holder
    rw [(holder_direct hj).1, h.target] at hholder
    cases hholder
    rfl
  have parts := fun keep => (h.keeping keep).collected_iff hg hne
  rw [h.tells_iff hne]
  constructor
  · intro hkeep
    obtain ⟨p, hp, -⟩ := (parts fun _ _ => true).1 (hkeep _)
    refine ⟨p, hp, (pairs_keeping_iff hu hjunction fun x => t.record x.1).1 fun keep => ?_⟩
    obtain ⟨p', hp', heq⟩ := (parts keep).1 (hkeep keep)
    have same : p' = p := Except.ok.inj (hp'.symm.trans hp)
    rw [same] at heq
    exact heq
  · rintro ⟨p, hp, hrows⟩ keep
    exact (parts keep).2
      ⟨p, hp, (pairs_keeping_iff hu hjunction fun x => t.record x.1).2 hrows keep⟩

end Posed

/-! ## All keys of a batch -/

section Batch

variable (hself : ∀ k ∈ keys, k.group.same k.group)
  (hjunction : ∀ k ∈ keys, ∀ j, k.group.junction = some j → j.table ≠ k.group.target)
  (hcondition : ∀ k ∈ keys, ∀ l ∈ keys, k.group.same l.group →
    ∀ t, s.table k.group.target = .ok t →
      t.matching (k.group.condition.getD .always) = t.matching (l.group.condition.getD .always))
  (hread : ∀ t ∈ s.tables, ∀ r ∈ t.rows, ∃ record, t.read r = .ok record)
  (halone : ∀ k ∈ keys, ∃ rows, alone s k = .ok rows)

/-- Conditions that match the same rows accept the same rows. -/
theorem exists_of_matching {t : Table} {c c' : Predicate Value} {accepts : Predicate Cell}
    (h : t.matching c' = t.matching c) (hc : t.bind c = .ok accepts) :
    ∃ accepts', t.bind c' = .ok accepts' ∧
      ∀ r ∈ t.rows, accepts'.accepts r = accepts.accepts r := by
  rw [Table.matching_eq_ok.2 ⟨accepts, hc, rfl⟩] at h
  obtain ⟨accepts', hbind, hrows⟩ := Table.matching_eq_ok.1 h
  refine ⟨accepts', hbind, fun r hr => ?_⟩
  have mem : r ∈ t.rows.filter accepts'.accepts ↔ r ∈ t.rows.filter accepts.accepts := by rw [hrows]
  rw [List.mem_filter, List.mem_filter, and_iff_right hr, and_iff_right hr] at mem
  exact Bool.eq_iff_iff.2 mem

include hself hcondition hread halone

theorem exists_posed {k : LoadKey} (hk : k ∈ keys) (hne : wanted (fellows keys k) ≠ []) :
    ∃ t u accepts, Posed s keys k t u accepts := by
  obtain ⟨g, hg⟩ := exists_group (hself k hk) hk
  obtain ⟨l, hl⟩ := List.exists_mem_of_ne_nil _ hne
  obtain ⟨hl, hnull⟩ := mem_wanted hl
  rw [fellows_eq hg, List.mem_filter] at hl
  obtain ⟨hl, sameL⟩ := hl
  have sameK := same_of_find? hg
  obtain ⟨htarget, hholder, hcolumns⟩ := fields_of_same sameK
  obtain ⟨htarget', hholder', -⟩ := fields_of_same sameL
  obtain ⟨_, hrows⟩ := halone l hl
  obtain ⟨t, u, acceptsL, -, ht, hu, hbindL, -, hjoined⟩ := exists_of_alone hrows hnull
  rw [← htarget'] at ht
  rw [← hholder', hholder] at hu
  obtain ⟨k₀, hk₀, rfl⟩ := mem_groups (List.mem_of_find?_eq_some hg)
  obtain ⟨acceptsG, hbindG, -⟩ := exists_of_matching (hcondition k₀ hk₀ l hl sameL t ht) hbindL
  have whole := (hcondition k₀ hk₀ k hk sameK t ht)
  obtain ⟨accepts, hbind, hsame⟩ := exists_of_matching whole.symm hbindG
  rw [htarget] at ht
  have readable : ∀ {name} {t : Table}, s.table name = .ok t →
      ∀ r ∈ t.rows, ∃ record, t.read r = .ok record := fun h =>
    hread _ (List.mem_of_find?_eq_some (Store.table_eq_ok.1 h).2)
  refine ⟨t, u, accepts, ht, hu, hbind, fun g' hg' => ?_, readable ht, readable hu, fun hnull => ?_,
    (joined_iff_of_same sameK).1 ((joined_iff_of_same sameL).2 hjoined)⟩
  · rw [hg] at hg'
    cases hg'
    exact ⟨acceptsG, hbindG, fun r hr => (hsame r hr).symm⟩
  · obtain ⟨_, hrows⟩ := halone k hk
    obtain ⟨_, u', _, key, -, hu', -, hkey, -⟩ := exists_of_alone hrows hnull
    rw [hu] at hu'
    cases hu'
    exact ⟨key, hkey⟩

include hjunction

/--
Batches of the keys are right, whatever part of the rows is there, exactly if they tell the rows of
each key.
-/
theorem separately_iff_tells :
    (∀ keep, Separately (s.keeping keep) keys) ↔ ∀ k ∈ keys, Tells s keys k := by
  simp only [separately_iff hself]
  constructor
  · intro h k hk
    by_cases hne : wanted (fellows keys k) = []
    · exact fun h => absurd (List.map_eq_nil_iff.2 hne) h
    · obtain ⟨g, hg⟩ := exists_group (hself k hk) hk
      obtain ⟨t, u, accepts, posed⟩ := exists_posed hself hcondition hread halone hk hne
      exact (posed.keeping_iff hg (hjunction k hk) fun h => hne (List.map_eq_nil_iff.1 h)).1
        fun keep => h keep k hk g hg
  · intro h keep k hk g hg
    by_cases hne : wanted (fellows keys k) = []
    · refine ⟨[], ?_, ?_⟩
      · unfold collect
        rw [hne]
        rfl
      · unfold alone
        rw [if_pos (wanted_eq_nil.1 hne k (mem_fellows hg hk))]
        rfl
    · obtain ⟨t, u, accepts, posed⟩ := exists_posed hself hcondition hread halone hk hne
      exact (posed.keeping_iff hg (hjunction k hk) fun h => hne (List.map_eq_nil_iff.1 h)).2
        (h k hk) keep

end Batch

end Load

end TableGraph
