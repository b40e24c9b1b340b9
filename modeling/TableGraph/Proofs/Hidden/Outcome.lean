import TableGraph.Proofs.EntityTable
import TableGraph.Proofs.Faults
import TableGraph.Proofs.Hidden.Visible
import TableGraph.Sample.Notes

/-!
# What a cursor tells about hidden rows

The row that a cursor stands for is looked up without the row scope.  Main statement:
`outcome_eq_iff`.  Of two states of a table with the same visible rows, let no hidden row have the
key of the cursor in one of them; then a page behind the cursor has the same outcome in both exactly
if none has it in the other either.  Otherwise the outcomes differ: one state answers, or fails in
some other way, where the other one says that the row no longer exists.
-/

namespace TableGraph

namespace Query

variable {codec : Codec} {s s' : Store} {p : Projection} {t t' : Table}
  {scope : Option (Predicate Value)} {condition : Predicate Value} {orders : List Order}

/-! ## Statements that see visible rows only -/

theorem ask_congr {α : Type} {name : String} (ht : s.table name = .ok t)
    (ht' : s'.table name = .ok t') {f f' : Table → Except Fault α} (h : f' t' = f t) :
    s'.ask name f' = s.ask name f := by
  refine Counted.ext_run fun n => ?_
  rw [Store.run_ask, Store.run_ask, ht, ht']
  show (·, n + 1) <$> f' t' = (·, n + 1) <$> f t
  rw [h]

section Visible

variable (ht : s.table p.name = .ok t) (ht' : s'.table p.name = .ok t')
  (same : t.SameVisible scope t') (hk : t.DistinctKeys t.rows)
include ht ht' same hk

theorem select_congr {c : Predicate Value} (hc : t.OnlyVisible scope c)
    (hc' : t'.OnlyVisible scope c) (limit : Option Int) :
    (s'.ask p.name fun t => t.select c orders limit 0) =
      s.ask p.name fun t => t.select c orders limit 0 :=
  ask_congr ht ht' (same.select_congr hk hc hc' orders limit 0)

theorem reaches_congr (hc : condition.Narrows scope) (row : Record) (forward : Bool) :
    reaches s' p condition orders row forward = reaches s p condition orders row forward := by
  unfold reaches
  split_ifs
  · rfl
  · refine Counted.bind_congr_of_run rfl fun beyond _ _ _ => ?_
    refine Counted.bind_congr_of_run (ask_congr ht ht' ?_) fun _ _ _ _ => rfl
    have narrow : (Predicate.allOf [condition, beyond]).Narrows scope := hc.allOf_cons
    have sorted := same.sorted_matching hk (t.onlyVisible_of_narrows narrow)
      (t'.onlyVisible_of_narrows narrow) []
    have first : ∀ u : Table, (u.matching (.allOf [condition, beyond]) >>= fun rows =>
        ((u.sorted [] rows).take 1).mapM fun r =>
          Table.readColumns r (u.columns.filter fun c => p.entity.isKey c.name)) =
        (u.sorted [] <$> u.matching (.allOf [condition, beyond])) >>= fun rows =>
          (rows.take 1).mapM fun r =>
            Table.readColumns r (u.columns.filter fun c => p.entity.isKey c.name) := by
      intro u
      cases u.matching (.allOf [condition, beyond]) <;> rfl
    rw [first, first, sorted, same.columns]

theorem around_congr (hc : condition.Narrows scope) (after : Option String) (limit : Int)
    (rows : List Record) : around codec s' p condition orders after limit rows =
      around codec s p condition orders after limit rows := by
  unfold around
  split
  · refine Counted.bind_congr_of_run (reaches_congr ht ht' same hk hc _ _) fun _ _ _ _ => ?_
    exact Counted.bind_congr_of_run (reaches_congr ht ht' same hk hc _ _) fun _ _ _ _ => rfl
  · rfl

/-- Pages agree that agree on the row their cursor stands for. -/
theorem cursorPage_congr (hc : condition.Narrows scope) {after : Option String} (limit : Int)
    (anchors : ∀ cursor, after.filter (!·.isEmpty) = some cursor →
      anchor codec s' p cursor (Order.withKey orders p.entity.primaryKey) =
        anchor codec s p cursor (Order.withKey orders p.entity.primaryKey)) :
    cursorPage codec s' p condition orders after limit =
      cursorPage codec s p condition orders after limit := by
  unfold cursorPage
  refine Counted.bind_congr_of_run ?_ fun narrowed n m hrun => ?_
  · unfold behind
    cases hafter : after.filter (!·.isEmpty) with
    | none => rfl
    | some cursor =>
      exact Counted.bind_congr_of_run (anchors cursor hafter) fun _ _ _ _ => rfl
  · have narrow := narrows_of_behind hc hrun
    refine Counted.bind_congr_of_run (select_congr ht ht' same hk (t.onlyVisible_of_narrows narrow)
      (t'.onlyVisible_of_narrows narrow) _) fun rows _ _ _ => ?_
    exact around_congr ht ht' same hk hc after limit rows

end Visible

/-! ## Hidden anchors -/

/-- The order needs more of the row a cursor stands for than its key. -/
def NeedsRow (p : Projection) (orders : List Order) : Prop :=
  ∃ o ∈ Order.withKey orders p.entity.primaryKey, p.entity.isKey o.column = false

/-- The row of a cursor has to be looked up, and a row outside the scope has its key. -/
def HiddenAnchor (codec : Codec) (p : Projection) (scope : Option (Predicate Value))
    (orders : List Order) (after : Option String) (t : Table) : Prop :=
  NeedsRow p orders ∧ ∃ cursor values, after = some cursor ∧
    Key.decode codec p.keyColumns p.keyPaths cursor = .ok values ∧
    ∃ r ∈ t.rows, ¬ t.Within scope r ∧ t.Accepts (isAt (p.entity.primaryKey.zip values)) r

theorem onlyVisible_isAt {after : Option String} {cursor : String} {values : List Value}
    (h : ¬ HiddenAnchor codec p scope orders after t) (hneeds : NeedsRow p orders)
    (hafter : after = some cursor)
    (hvalues : Key.decode codec p.keyColumns p.keyPaths cursor = .ok values) :
    t.OnlyVisible scope (isAt (p.entity.primaryKey.zip values)) := by
  intro r hr hacc
  by_contra hout
  exact h ⟨hneeds, cursor, values, hafter, hvalues, r, hr, hout, hacc⟩

theorem eq_some_of_filter {after : Option String} {cursor : String}
    (h : after.filter (!·.isEmpty) = some cursor) : after = some cursor :=
  (Option.filter_eq_some_iff.1 h).1

/-- Without hidden anchors a cursor stands for the same row in both states. -/
theorem anchor_congr (ht : s.table p.name = .ok t) (ht' : s'.table p.name = .ok t')
    (same : t.SameVisible scope t') (hk : t.DistinctKeys t.rows) {after : Option String}
    (h : ¬ HiddenAnchor codec p scope orders after t)
    (h' : ¬ HiddenAnchor codec p scope orders after t') {cursor : String}
    (hafter : after = some cursor) :
    anchor codec s' p cursor (Order.withKey orders p.entity.primaryKey) =
      anchor codec s p cursor (Order.withKey orders p.entity.primaryKey) := by
  unfold anchor
  refine Counted.bind_congr_of_run rfl fun values n m hrun => ?_
  have hvalues := (Counted.run_lift_eq_ok.1 hrun).1
  refine Counted.bind_congr_of_run ?_ fun _ _ _ _ => rfl
  unfold anchorRow
  split_ifs with hall
  · rfl
  · have hneeds : NeedsRow p orders := by
      simp only [List.all_eq_true, not_forall, Bool.not_eq_true] at hall
      obtain ⟨o, ho, hkey⟩ := hall
      exact ⟨o, ho, hkey⟩
    refine Counted.bind_congr_of_run ?_ fun _ _ _ _ => rfl
    unfold first?
    refine Counted.bind_congr_of_run ?_ fun _ _ _ _ => rfl
    exact select_congr ht ht' same hk (onlyVisible_isAt h hneeds hafter hvalues)
      (onlyVisible_isAt h' hneeds hafter hvalues) _

/-! ## The fault of a missing row -/

/-- The fault of a cursor whose row is not found. -/
def missing : Fault := .pagination "cursor" "cursor row no longer exists"

theorem ne_missing_of_isOfValue (f : Fault) (h : f.isOfValue) : f ≠ missing := by
  rintro rfl
  cases h

theorem checkAnchor_ne_missing (row : Record) (orders : List Order) :
    FailsWith (· ≠ missing) (Keyset.checkAnchor row orders) := by
  refine (Keyset.failsWith_checkAnchor row orders).imp ?_
  rintro _ ⟨column, rfl⟩ h
  -- the two reasons begin with different letters
  have reasons := congrArg (fun s : String => s.toList.head?) (Fault.pagination.inj h).2
  rw [String.toList_append, String.toList_append] at reasons
  cases reasons

theorem length_withPaths (columns : List Column) (paths : List String) :
    (Key.withPaths columns paths).length = columns.length := by
  induction columns generalizing paths with
  | nil => rfl
  | cons c cs ih => cases paths <;> exact congrArg (· + 1) (ih _)

theorem length_of_decode {columns : List Column} {paths : List String} {cursor : String}
    {values : List Value} (h : Key.decode codec columns paths cursor = .ok values) :
    columns.length = values.length := by
  unfold Key.decode at h
  obtain ⟨parts, -, h⟩ := bind_eq_ok.1 h
  split_ifs at h with hlen
  rw [length_of_mapM h, List.length_zip, length_withPaths]
  omega

section Anchors

variable (ht : s.table p.name = .ok t) {cursor : String} {values : List Value}
  (hvalues : Key.decode codec p.keyColumns p.keyPaths cursor = .ok values)
include ht hvalues

theorem run_anchor_of_missing (hneeds : NeedsRow p orders)
    (h : t.select (isAt (p.entity.primaryKey.zip values)) [] (some 1) 0 = .ok []) (n : Nat) :
    (anchor codec s p cursor (Order.withKey orders p.entity.primaryKey)).run n =
      .error missing := by
  have lookup : ¬ ((Order.withKey orders p.entity.primaryKey).all fun o =>
      p.entity.isKey o.column) = true := by
    obtain ⟨o, ho, hkey⟩ := hneeds
    intro hall
    rw [List.all_eq_true.1 hall o ho] at hkey
    cases hkey
  have found := run_first ht (isAt (p.entity.primaryKey.zip values)) n
  rw [h] at found
  unfold anchor
  rw [Counted.run_bind_of_ok (Counted.run_lift_eq_ok.2 ⟨hvalues, rfl⟩)]
  refine Counted.run_bind_of_error ?_
  unfold anchorRow
  rw [if_neg lookup, Counted.run_bind_of_ok found]
  rfl

/-- A cursor that stands for a row never fails as one whose row is not found. -/
theorem anchor_ne_missing
    (h : t.select (isAt (p.entity.primaryKey.zip values)) [] (some 1) 0 ≠ .ok []) (n : Nat) :
    FailsWith (· ≠ missing)
      ((anchor codec s p cursor (Order.withKey orders p.entity.primaryKey)).run n) := by
  unfold anchor
  rw [Counted.run_bind_of_ok (Counted.run_lift_eq_ok.2 ⟨hvalues, rfl⟩)]
  refine failsWith_run_bind ?_ fun row m _ => ?_
  · unfold anchorRow
    split_ifs
    · exact failsWith_ok _
    · rw [StateT.run_bind, run_first ht]
      have select := (t.failsWith_select (isAt (p.entity.primaryKey.zip values)) [] (some 1) 0).imp
        ne_missing_of_isOfValue
      cases hrows : t.select (isAt (p.entity.primaryKey.zip values)) [] (some 1) 0 with
      | error e => exact failsWith_error (select e hrows)
      | ok rows =>
        cases rows with
        | nil => exact absurd hrows h
        | cons row rows => exact failsWith_ok _
  · exact failsWith_run_bind (failsWith_run_lift (checkAnchor_ne_missing _ _) m)
      fun _ _ _ => failsWith_ok _

end Anchors

/-! ## Outcomes -/

section Outcomes

variable (ht : s.table p.name = .ok t) (ht' : s'.table p.name = .ok t')
  (same : t.SameVisible scope t') (hk : t.DistinctKeys t.rows)
  (hkey : ∀ k ∈ t.key, k ∈ p.entity.primaryKey) {after : Option String}

include same hk hkey in
/-- A hidden row leaves no visible one with the same key. -/
theorem select_of_hidden {values : List Value}
    (hlen : p.entity.primaryKey.length = values.length) {r : Row} (hr : r ∈ t.rows)
    (hout : ¬ t.Within scope r) (hacc : t.Accepts (isAt (p.entity.primaryKey.zip values)) r)
    (visible : t'.OnlyVisible scope (isAt (p.entity.primaryKey.zip values))) :
    t'.select (isAt (p.entity.primaryKey.zip values)) [] (some 1) 0 = .ok [] := by
  obtain ⟨q, hq, -⟩ := id hacc
  have hq' : t'.bind (isAt (p.entity.primaryKey.zip values)) = .ok q := by
    rw [Table.bind_congr same.columns, hq]
  have none : t'.rows.filter q.accepts = [] := by
    rw [List.filter_eq_nil_iff]
    intro r' hr' hacc'
    replace hacc' := (Table.accepts_iff hq').2 hacc'
    have hin : t.Within scope r' := by
      rw [← Table.within_congr same.columns]
      exact visible r' hr' hacc'
    obtain ⟨shown, hidden, hidden', hrows, hrows', -, -, hout'⟩ := same.rows
    have there : r' ∈ t.rows := by
      rcases List.mem_append.1 (hrows'.mem_iff.1 hr') with h | h
      · exact hrows.mem_iff.2 (List.mem_append_left hidden h)
      · exact absurd hin (hout' r' h)
    have differ : r ≠ r' := fun h => hout (h ▸ hin)
    rw [Table.accepts_congr same.columns] at hacc'
    exact hk.ne_eq _ hr there differ (compareRows_eq_of_isAt hkey hlen hacc hacc')
  refine Table.select_eq_ok.2 ⟨[], Table.matching_eq_ok.2 ⟨q, hq', none⟩, ?_⟩
  have empty : t'.sorted [] [] = [] := List.mergeSort_nil
  rw [empty]
  rfl

theorem select_ne_nil {c : Predicate Value} {r : Row} (hr : r ∈ t.rows) (hacc : t.Accepts c r) :
    t.select c [] (some 1) 0 ≠ .ok [] := by
  intro h
  obtain ⟨rows, hm, hread⟩ := Table.select_eq_ok.1 h
  have some := (t.sorted_perm [] rows).mem_iff.2 ((Table.mem_matching hm).2 ⟨hr, hacc⟩)
  have none := length_of_mapM hread
  cases hsorted : t.sorted [] rows with
  | nil => rw [hsorted] at some; cases some
  | cons r rs => rw [hsorted] at none; cases none

include ht ht' same hk hkey in
/-- Where a hidden row has the key in one state only, the other one tells that no row has it. -/
theorem outcomes_differ {limit : Int} (h : HiddenAnchor codec p scope orders after t)
    (h' : ¬ HiddenAnchor codec p scope orders after t') (n m : Nat) :
    (cursorPage codec s p condition orders after limit).run n ≠
      (cursorPage codec s' p condition orders after limit).run m := by
  obtain ⟨hneeds, cursor, values, rfl, hvalues, r, hr, hout, hacc⟩ := h
  have hlen : p.entity.primaryKey.length = values.length :=
    p.entity.length_keyColumns.symm.trans (length_of_decode hvalues)
  have lost := select_of_hidden same hk hkey hlen hr hout hacc
    (onlyVisible_isAt h' hneeds rfl hvalues)
  have given : (some cursor).filter (!·.isEmpty) = some cursor := by
    refine Option.filter_eq_some_iff.2 ⟨rfl, ?_⟩
    cases hempty : cursor.isEmpty with
    | false => rfl
    | true =>
      unfold Key.decode Cursor.decode at hvalues
      rw [if_pos hempty] at hvalues
      cases hvalues
  have fails : (cursorPage codec s' p condition orders (some cursor) limit).run m =
      .error missing := by
    unfold cursorPage behind
    rw [given]
    refine Counted.run_bind_of_error (Counted.run_bind_of_error ?_)
    exact run_anchor_of_missing ht' hvalues hneeds lost m
  have table : FailsWith (· ≠ missing) (s.table p.name) := by
    rw [ht]
    exact failsWith_ok t
  have finds : FailsWith (· ≠ missing)
      ((cursorPage codec s p condition orders (some cursor) limit).run n) := by
    unfold cursorPage behind
    rw [given]
    refine failsWith_run_bind ?_ fun narrowed m _ => ?_
    · refine failsWith_run_bind (anchor_ne_missing ht hvalues (select_ne_nil hr hacc) n)
        fun row m _ => ?_
      have beyond := (Keyset.failsWith_condition p.entity
        (Order.withKey orders p.entity.primaryKey) row true).imp ne_missing_of_isOfValue
      exact failsWith_run_bind (failsWith_run_lift beyond m) fun _ _ _ => failsWith_ok _
    · refine failsWith_run_bind (failsWith_run_select ne_missing_of_isOfValue table _ _ m)
        fun rows k _ => ?_
      exact failsWith_run_around ne_missing_of_isOfValue table _ _ rows k
  rw [fails]
  exact fun h => finds missing h rfl

end Outcomes

/--
A page behind a cursor has the same outcome in two states with the same visible rows, one of which
has no hidden row with the key of the cursor, exactly if the other one has none either.  In any two
such states it has the same outcome if the cursor stands for the same row in both.
-/
theorem outcome_eq_iff {c : Predicate Value} (ht : s.table p.name = .ok t)
    (ht' : s'.table p.name = .ok t') (same : t.SameVisible scope t')
    (hk : t.DistinctKeys t.rows) (hkey : ∀ k ∈ t.key, k ∈ p.entity.primaryKey)
    (after : Option String) (limit : Int) :
    (¬ HiddenAnchor codec p scope orders after t' →
      ((∀ n, (connection codec s p (c.andAlso scope) orders (.cursor after limit)).run n =
          (connection codec s' p (c.andAlso scope) orders (.cursor after limit)).run n) ↔
        ¬ HiddenAnchor codec p scope orders after t)) ∧
    ((∀ cursor, after = some cursor →
        anchor codec s' p cursor (Order.withKey orders p.entity.primaryKey) =
          anchor codec s p cursor (Order.withKey orders p.entity.primaryKey)) →
      ∀ n, (connection codec s p (c.andAlso scope) orders (.cursor after limit)).run n =
        (connection codec s' p (c.andAlso scope) orders (.cursor after limit)).run n) := by
  have agree : (∀ cursor, after = some cursor →
        anchor codec s' p cursor (Order.withKey orders p.entity.primaryKey) =
          anchor codec s p cursor (Order.withKey orders p.entity.primaryKey)) →
      ∀ n, (connection codec s p (c.andAlso scope) orders (.cursor after limit)).run n =
        (connection codec s' p (c.andAlso scope) orders (.cursor after limit)).run n := by
    intro anchors n
    have narrows : (c.andAlso scope).Narrows scope := Predicate.narrows_andAlso
    have pages := cursorPage_congr ht ht' same hk narrows limit fun cursor h =>
      anchors cursor (eq_some_of_filter h)
    exact (congrArg (fun x : Counted Connection => x.run n) pages).symm
  refine ⟨fun h' => ⟨fun heq h => ?_, fun h => ?_⟩, agree⟩
  · exact outcomes_differ ht ht' same hk hkey h h' 0 0 (heq 0)
  · exact agree fun cursor hafter => anchor_congr ht ht' same hk h h' hafter

section Notes

open Sample.Notes

/-- The page behind a cursor, of the notes of the first owner in the order of their owners. -/
def notesBehind (s : Store) (cursor : String) : Counted Connection :=
  connection environment.schema.codec s projection (Predicate.always.andAlso (some ofFirstOwner))
    [⟨"owner", false⟩] (.cursor (some cursor) 1)

theorem sameVisible_notes (shown : List Row) {hidden : Row}
    (hshown : ∀ r ∈ shown, (table []).Within (some ofFirstOwner) r)
    (hhidden : ¬ (table []).Within (some ofFirstOwner) hidden) :
    (table (shown ++ [hidden])).SameVisible (some ofFirstOwner) (table shown) where
  columns := rfl
  key := rfl
  rows := by
    refine ⟨shown, [hidden], [], List.Perm.refl _, ?_, hshown, ?_, nofun⟩
    · rw [List.append_nil]
      exact List.Perm.refl _
    · rwa [List.forall_mem_singleton]

theorem accepts_note (id owner : Int) (price : Cell) :
    (table []).Accepts ofFirstOwner (note id owner price) ↔ owner = 1 := by
  have bound : (table []).bind ofFirstOwner = .ok (.test "owner" (.compare .eq (.int 1))) := rfl
  have held : Row.get (note id owner price) "owner" = .int owner := rfl
  rw [Table.accepts_iff bound]
  show decide (Test.holds (.compare .eq (.int 1)) (Row.get (note id owner price) "owner") =
    some true) = true ↔ _
  rw [held, decide_eq_true_iff]
  show Test.compared .eq (.int owner) (.int 1) = some true ↔ _
  rw [Test.compared_eq_true]
  show false = false ∧ false = false ∧ (compare owner 1 == .eq) = true ↔ _
  simp only [true_and, beq_iff_eq, Std.LawfulEqCmp.compare_eq_iff_eq]

theorem within_note {id owner : Int} {price : Cell} :
    (table []).Within (some ofFirstOwner) (note id owner price) ↔ owner = 1 := by
  rw [← accepts_note id owner price]
  unfold Table.Within
  simp only [Option.some.injEq, forall_eq']

/-- The second note is hidden, and a cursor with its key tells whether it is there. -/
theorem outcome_eq_iff_notes :
    (table [note 1 1 (.int 5), note 2 2 (.int 5)]).SameVisible (some ofFirstOwner)
        (table [note 1 1 (.int 5)]) ∧
      ¬ ∀ n, (notesBehind (store [note 1 1 (.int 5), note 2 2 (.int 5)]) "Int[1]:2").run n =
        (notesBehind (store [note 1 1 (.int 5)]) "Int[1]:2").run n := by
  have same : (table [note 1 1 (.int 5), note 2 2 (.int 5)]).SameVisible (some ofFirstOwner)
      (table [note 1 1 (.int 5)]) := by
    refine sameVisible_notes [note 1 1 (.int 5)] ?_ ?_
    · rw [List.forall_mem_singleton, within_note]
    · rw [within_note]
      decide
  have distinct : (table [note 1 1 (.int 5), note 2 2 (.int 5)]).DistinctKeys
      [note 1 1 (.int 5), note 2 2 (.int 5)] := by
    unfold Table.DistinctKeys
    rw [List.pairwise_pair]
    decide
  have shown : ¬ HiddenAnchor environment.schema.codec projection (some ofFirstOwner)
      [⟨"owner", false⟩] (some "Int[1]:2") (table [note 1 1 (.int 5)]) := by
    rintro ⟨-, -, -, -, -, r, hr, hout, -⟩
    rw [List.mem_singleton.1 hr] at hout
    exact hout (within_note.2 rfl)
  have hidden : HiddenAnchor environment.schema.codec projection (some ofFirstOwner)
      [⟨"owner", false⟩] (some "Int[1]:2") (table [note 1 1 (.int 5), note 2 2 (.int 5)]) := by
    refine ⟨⟨⟨"owner", false⟩, by decide, by decide⟩, "Int[1]:2", [.int 2], rfl, ?_,
      note 2 2 (.int 5), by decide, fun h => ?_, ?_⟩
    · with_unfolding_all rfl
    · exact absurd (within_note.1 h) (by decide)
    · exact Table.accepts_test.2 ⟨.integer, .compare .eq (.int 2), rfl, rfl, rfl⟩
  refine ⟨same, fun h => ?_⟩
  exact ((outcome_eq_iff rfl rfl same distinct (by decide) (some "Int[1]:2") 1).1 shown).1 h hidden

/-- Whether a hidden note is there can be told from the answer to a cursor with its key. -/
theorem notesBehind_hidden :
    (table [note 2 2 (.int 5)]).SameVisible (some ofFirstOwner) (table []) ∧
      (notesBehind (store [note 2 2 (.int 5)]) "Int[1]:2").run 0 ≠
        (notesBehind (store []) "Int[1]:2").run 0 := by
  have answers : ((notesBehind (store [note 2 2 (.int 5)]) "Int[1]:2").run 0).isOk = true := by
    decide +kernel
  have fails : ((notesBehind (store []) "Int[1]:2").run 0).isOk = false := by decide +kernel
  refine ⟨sameVisible_notes [] nofun ?_, fun h => ?_⟩
  · rw [within_note]
    decide
  · rw [h, fails] at answers
    cases answers

end Notes

end Query

end TableGraph
