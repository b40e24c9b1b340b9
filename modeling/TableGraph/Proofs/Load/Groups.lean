import TableGraph.Load.Batch
import TableGraph.Proofs.Load.Same
import TableGraph.Proofs.Outcome

/-!
# Groups of keys

A batch loads one group after the other and then looks for the rows of each key in the first group
that is like its own.  `run_many_eq_ok` tells what a whole batch gives: the rows collected for every
group, and one statement for each group with a key that is not null.
-/

namespace TableGraph.Load

variable {s : Store} {keys : List LoadKey} {n m : Nat}

/-! ## The group of a key -/

theorem mem_groups {g : Group} (h : g ∈ groups keys) : ∃ k ∈ keys, k.group = g := by
  induction keys with
  | nil => cases h
  | cons k keys ih =>
    rcases List.mem_cons.1 h with rfl | h
    · exact ⟨k, List.mem_cons_self, rfl⟩
    · obtain ⟨k', hk', hg⟩ := ih (List.mem_of_mem_filter h)
      exact ⟨k', List.mem_cons_of_mem k hk', hg⟩

theorem groups_pairwise (keys : List LoadKey) :
    (groups keys).Pairwise fun g g' => g.same g' = false := by
  induction keys with
  | nil => exact .nil
  | cons k keys ih =>
    refine .cons (fun g hg => ?_) (ih.filter _)
    exact (Bool.not_eq_eq_eq_not).1 (List.mem_filter.1 hg).2

/-- The group that a key is loaded with is the first one like its own. -/
theorem exists_group {k : LoadKey} (hself : k.group.same k.group) (hk : k ∈ keys) :
    ∃ g, (groups keys).find? (·.same k.group) = some g := by
  have found : ∃ g ∈ groups keys, g.same k.group := by
    induction keys with
    | nil => cases hk
    | cons l keys ih =>
      rcases List.mem_cons.1 hk with rfl | hk
      · exact ⟨k.group, List.mem_cons_self, hself⟩
      · obtain ⟨g, hg, same⟩ := ih hk
        by_cases h : l.group.same g
        · exact ⟨l.group, List.mem_cons_self, Group.same_trans h same⟩
        · refine ⟨g, List.mem_cons_of_mem _ (List.mem_filter.2 ⟨hg, ?_⟩), same⟩
          rw [Bool.not_eq_true] at h
          rw [h]
          rfl
  obtain ⟨g, hg, same⟩ := found
  exact Option.isSome_iff_exists.1 (List.find?_isSome.2 ⟨g, hg, same⟩)

theorem same_of_find? {k : LoadKey} {g : Group}
    (h : (groups keys).find? (·.same k.group) = some g) : g.same k.group := by
  simpa using List.find?_some h

/-- Every group is the one that the key that opened it is loaded with. -/
theorem find?_groups {g : Group} (hself : g.same g) (hg : g ∈ groups keys) :
    (groups keys).find? (·.same g) = some g := by
  have first := groups_pairwise keys
  generalize groups keys = gs at hg first
  induction gs with
  | nil => cases hg
  | cons g' gs ih =>
    rcases List.mem_cons.1 hg with rfl | hg
    · exact List.find?_cons_of_pos hself
    · rw [List.find?_cons, List.rel_of_pairwise_cons first hg]
      exact ih hg first.of_cons

/-- The keys that are loaded together with a key. -/
def fellows (keys : List LoadKey) (k : LoadKey) : List LoadKey :=
  match (groups keys).find? (·.same k.group) with
  | some g => keys.filter fun l => g.same l.group
  | none => []

theorem fellows_eq {k : LoadKey} {g : Group} (h : (groups keys).find? (·.same k.group) = some g) :
    fellows keys k = keys.filter fun l => g.same l.group := by
  unfold fellows
  rw [h]

/-- A key is one of those that are loaded together with it. -/
theorem mem_fellows {k : LoadKey} {g : Group} (h : (groups keys).find? (·.same k.group) = some g)
    (hk : k ∈ keys) : k ∈ fellows keys k := by
  rw [fellows_eq h]
  exact List.mem_filter.2 ⟨hk, same_of_find? h⟩

/-! ## The wanted keys -/

/-- Null is the same part of a key as null only. -/
theorem isNull_eq_of_same {v w : Value} (h : (Identity.ofValue v).same (.ofValue w)) :
    v.isNull = w.isNull := by
  unfold Identity.same at h
  rw [Bool.and_eq_true, decide_eq_true_iff] at h
  have named : ∀ {v : Value}, (Identity.ofValue v).family = "NoneType" → v.isNull = true := by
    intro v hv
    cases v with
    | null => rfl
    | decimal d =>
      unfold Identity.ofValue at hv
      dsimp only at hv
      split at hv
      · exact absurd hv (by decide : "int" ≠ "NoneType")
      · exact absurd hv (by decide : "Decimal" ≠ "NoneType")
    | _ =>
      dsimp only [Identity.ofValue, Value.typeName] at hv
      exact absurd hv (by decide)
  have null : ∀ {v : Value}, v.isNull = true → (Identity.ofValue v).family = "NoneType" := by
    intro v hv
    cases v <;> first | rfl | cases hv
  rw [Bool.eq_iff_iff]
  exact ⟨fun hv => named (h.1 ▸ null hv), fun hw => named (h.1.trans (null hw))⟩

theorem any_isNull_of_sameKey {vs ws : List Value}
    (h : sameKey (vs.map .ofValue) (ws.map .ofValue)) :
    vs.any (·.isNull) = ws.any (·.isNull) := by
  induction vs generalizing ws with
  | nil =>
    cases ws with
    | nil => rfl
    | cons => cases h
  | cons v vs ih =>
    cases ws with
    | nil => cases h
    | cons w ws =>
      rw [List.map_cons, List.map_cons] at h
      unfold sameKey at h
      rw [Bool.and_eq_true] at h
      rw [List.any_cons, List.any_cons, isNull_eq_of_same h.1, ih h.2]

theorem wanted_cons (k : LoadKey) (keys : List LoadKey) : wanted (k :: keys) =
    if k.hasNull then (wanted keys).filter fun l => !sameKey k.identity l.identity
    else k :: (wanted keys).filter fun l => !sameKey k.identity l.identity := rfl

theorem mem_wanted {k : LoadKey} (h : k ∈ wanted keys) : k ∈ keys ∧ k.hasNull = false := by
  induction keys with
  | nil => cases h
  | cons l keys ih =>
    have rest : k ∈ (wanted keys).filter (fun l' => !sameKey l.identity l'.identity) →
        k ∈ l :: keys ∧ k.hasNull = false := by
      intro h
      obtain ⟨hmem, hnull⟩ := ih (List.mem_of_mem_filter h)
      exact ⟨List.mem_cons_of_mem l hmem, hnull⟩
    rw [wanted_cons] at h
    split_ifs at h with hnull
    · exact rest h
    · rcases List.mem_cons.1 h with rfl | h
      · exact ⟨List.mem_cons_self, Bool.not_eq_true _ ▸ hnull⟩
      · exact rest h

theorem wanted_eq_nil : wanted keys = [] ↔ ∀ k ∈ keys, k.hasNull := by
  induction keys with
  | nil => exact iff_of_true rfl nofun
  | cons k keys ih =>
    rw [List.forall_mem_cons, ← ih, wanted_cons]
    split_ifs with hnull
    · rw [List.filter_eq_nil_iff]
      refine ⟨fun h => ⟨hnull, List.eq_nil_iff_forall_not_mem.2 fun l hl => h l hl ?_⟩, ?_⟩
      · -- what is wanted is not null, so it is not the same as the key that is
        rw [Bool.not_eq_true']
        refine Bool.eq_false_iff.2 fun same => ?_
        have null : l.hasNull := (any_isNull_of_sameKey same).symm.trans hnull
        rw [(mem_wanted hl).2] at null
        cases null
      · rintro ⟨-, h⟩
        rw [h]
        exact nofun
    · exact ⟨nofun, fun h => absurd h.1 hnull⟩

/-! ## One group -/

/-- The rows of a group, collected for its keys. -/
def collect (s : Store) (g : Group) (keys : List LoadKey) : Except Fault (List Found) :=
  match (wanted keys).map (·.values) with
  | [] => .ok []
  | values =>
    match g.junction with
    | none => direct s g (g.condition.getD .always) values
    | some k => connected s g k (g.condition.getD .always) values

theorem run_group {g : Group} : (group s g keys).run n =
    (·, n + if keys.all (·.hasNull) then 0 else 1) <$> collect s g keys := by
  have sent : keys.all (·.hasNull) ↔ (wanted keys).map (·.values) = [] := by
    rw [List.all_eq_true, ← wanted_eq_nil, List.map_eq_nil_iff]
  unfold group collect
  generalize (wanted keys).map (·.values) = values at sent
  cases values with
  | nil =>
    rw [if_pos (sent.2 rfl)]
    rfl
  | cons value values =>
    rw [if_neg fun null => List.cons_ne_nil value values (sent.1 null)]
    dsimp only
    cases g.junction <;> exact Counted.run_lift (n := n + 1) _

/-! ## Several groups -/

/-- A statement is sent for a group if one of its keys is not null. -/
def isSent (keys : List LoadKey) (g : Group) : Bool :=
  keys.any fun k => g.same k.group && !k.hasNull

theorem all_hasNull_iff {g : Group} :
    (keys.filter fun k => g.same k.group).all (·.hasNull) ↔ isSent keys g = false := by
  unfold isSent
  rw [List.all_filter, List.any_eq_false, List.all_eq_true]
  refine forall₂_congr fun k _ => ?_
  cases g.same k.group <;> simp

/-- What was collected for each of some groups. -/
def Collected (s : Store) (keys : List LoadKey) (gs : List Group)
    (found : List (Group × List Found)) : Prop :=
  List.Forall₂ (fun g p => p.1 = g ∧ collect s g (keys.filter fun k => g.same k.group) = .ok p.2)
    gs found

theorem mem_collected {gs : List Group} {found : List (Group × List Found)}
    (h : Collected s keys gs found) {g : Group} {rows : List Found} (hg : (g, rows) ∈ found) :
    g ∈ gs ∧ collect s g (keys.filter fun k => g.same k.group) = .ok rows := by
  unfold Collected at h
  induction h with
  | nil => cases hg
  | @cons g' p gs found hp _ ih =>
    rcases List.mem_cons.1 hg with rfl | hg
    · obtain ⟨rfl, hcollect⟩ := hp
      exact ⟨List.mem_cons_self, hcollect⟩
    · obtain ⟨hmem, hcollect⟩ := ih hg
      exact ⟨List.mem_cons_of_mem _ hmem, hcollect⟩

theorem length_filter_isSent (keys : List LoadKey) (g : Group) (gs : List Group) :
    ((g :: gs).filter (isSent keys)).length =
      (if (keys.filter fun k => g.same k.group).all (·.hasNull) then 0 else 1) +
        (gs.filter (isSent keys)).length := by
  rw [List.filter_cons]
  by_cases h : isSent keys g
  · rw [if_pos h, if_neg fun null => Bool.false_ne_true ((all_hasNull_iff.1 null).symm.trans h),
      List.length_cons, Nat.add_comm]
  · rw [if_neg h, if_pos (all_hasNull_iff.2 (Bool.not_eq_true _ ▸ h)), Nat.zero_add]

theorem run_allGroups_eq_ok {gs : List Group} {found : List (Group × List Found)} :
    (allGroups s keys gs).run n = .ok (found, m) ↔
      Collected s keys gs found ∧ n + (gs.filter (isSent keys)).length = m := by
  induction gs generalizing n found with
  | nil =>
    refine Counted.run_pure_eq_ok.trans (and_congr_left' ?_)
    unfold Collected
    rw [List.forall₂_nil_left_iff]
    exact eq_comm
  | cons g gs ih =>
    unfold allGroups
    rw [length_filter_isSent, ← Nat.add_assoc]
    constructor
    · intro h
      obtain ⟨rows, _, hrows, h⟩ := Counted.run_bind_eq_ok.1 h
      obtain ⟨rest, _, hrest, h⟩ := Counted.run_bind_eq_ok.1 h
      obtain ⟨rfl, rfl⟩ := Counted.run_pure_eq_ok.1 h
      rw [run_group] at hrows
      obtain ⟨_, hcollect, hrows⟩ := map_eq_ok.1 hrows
      cases hrows
      obtain ⟨hrest, hcount⟩ := ih.1 hrest
      exact ⟨.cons ⟨rfl, hcollect⟩ hrest, hcount⟩
    · rintro ⟨h, hcount⟩
      cases h with
      | @cons _ p _ rest hp hrest =>
        obtain ⟨rfl, hcollect⟩ := hp
        refine Counted.run_bind_eq_ok.2 ⟨p.2, _, ?_, Counted.run_bind_eq_ok.2 ⟨rest, m,
          ih.2 ⟨hrest, hcount⟩, rfl⟩⟩
        rw [run_group, hcollect]
        rfl

theorem rowsOf_eq {gs : List Group} {found : List (Group × List Found)}
    (h : Collected s keys gs found) {k : LoadKey} {g : Group}
    (hg : gs.find? (·.same k.group) = some g) :
    ∃ rows, collect s g (keys.filter fun l => g.same l.group) = .ok rows ∧
      rowsOf found k = (rows.filter fun f => sameKey f.key k.identity).map (·.row) := by
  unfold Collected at h
  unfold rowsOf
  induction h with
  | nil => cases hg
  | @cons g' p gs found hp _ ih =>
    obtain ⟨g', rows⟩ := p
    obtain ⟨rfl, hcollect⟩ := hp
    rw [List.find?_cons] at hg ⊢
    dsimp only at hg ⊢
    cases h : g'.same k.group with
    | true =>
      rw [h] at hg
      cases hg
      exact ⟨rows, hcollect, rfl⟩
    | false =>
      rw [h] at hg
      exact ih hg

/-- The statements of a batch. -/
def sent (keys : List LoadKey) : Nat := ((groups keys).filter (isSent keys)).length

/-- What a batch gives each key, and how many statements it sends. -/
theorem run_many_eq_ok {rows : List (List Record)} :
    (many s keys).run n = .ok (rows, m) ↔ ∃ found, Collected s keys (groups keys) found ∧
      keys.map (rowsOf found) = rows ∧ n + sent keys = m := by
  unfold many sent
  rw [Counted.run_bind_eq_ok]
  constructor
  · rintro ⟨found, _, hfound, h⟩
    obtain ⟨rfl, rfl⟩ := Counted.run_pure_eq_ok.1 h
    obtain ⟨hfound, hcount⟩ := run_allGroups_eq_ok.1 hfound
    exact ⟨found, hfound, rfl, hcount⟩
  · rintro ⟨found, hfound, rfl, rfl⟩
    exact ⟨found, _, run_allGroups_eq_ok.2 ⟨hfound, rfl⟩, rfl⟩

theorem run_one {rows : List (List Record)} (h : (many s keys).run n = .ok (rows, m)) :
    (one s keys).run n = .ok (rows.map (·.head?), m) := by
  unfold one
  exact (Counted.run_bind_of_ok h)

end TableGraph.Load
