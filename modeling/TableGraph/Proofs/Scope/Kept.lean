import TableGraph.Answer.Request
import TableGraph.Proofs.Plans
import TableGraph.Proofs.Registered
import TableGraph.Proofs.Scope.Answer
import TableGraph.Proofs.Scope.Change
import TableGraph.Sample.Notes
import TableGraph.Sample.Registered

/-!
# Row scopes are kept

Main statement: `keepsScopes`.  Whatever a request asks for, the rows that pages, rows by key and
relations deliver, and the rows that pages count, are let through by the row scope for reading that
the field got, and the rows that a mutation changes or removes were let through by the row scope for
that operation.  A scope without a condition restricts nothing.

Relations need more: their rows are loaded together, and fields whose scopes have one fingerprint
share what is loaded for the first of them.  Their rows are within their scopes if scopes that are
written alike let the same rows through; `shown_outside_scope` is a request whose scopes do not.
-/

namespace TableGraph.Answer

open TableGraph.Graph

namespace Environment

/-- The environment without row scopes. -/
def unscoped (env : Environment) : Environment :=
  { env with schema := { env.schema with context := { env.schema.context with scopes := [] } } }

/-- No field of a request gets, counts or changes rows that the row scope it got keeps from it. -/
structure KeepsScopes (env : Environment) (s : Store) : Prop where
  /-- Pages of the root hold rows within the scope for reading, and count such rows, each once. -/
  page : ∀ env' p a reading item n m, env.Enters env' → Reading.ofPage env' p a = .ok reading →
    (reading.run env.schema.codec s).run n = .ok (item, m) →
    ∃ scope, ∃ c : Connection, env'.scope p .read = .ok scope ∧ item = .connection c ∧
      (∀ r ∈ c.nodes, s.Shows p.name scope r) ∧
      ∀ k, c.count = some k → s.CountsOnce p.name scope k.total
  /-- Rows by key are within the scope for reading. -/
  key : ∀ env' p a reading item n m, env.Enters env' → Reading.ofKey env' p a = .ok reading →
    (reading.run env.schema.codec s).run n = .ok (item, m) →
    ∃ scope, env'.scope p .read = .ok scope ∧ item.Within s p.name scope
  /--
  Relations deliver and count rows within a scope of their target for reading, whatever was loaded
  before them or together with them while fields of the root are answered.  It is their own, or one
  that is written like it and that another field of the request got; what they deliver is within
  their own if scopes that are written alike let the same rows through.
  -/
  relation : ∀ (l : Loaded) env' r name target row a rel rows item,
    ((∃ qs n, l <+: (readRoots env s qs [] n).2.1) ∨
      ∃ p found n, l <+: (showRoot env s p found [] n).2.1) →
    env.Enters env' → env.schema.projection name = .ok target →
    related env' r target row a = .ok rel →
    (rows = [] ∨ l.find? rel.load = some (.ok rows)) → relatedItem env' rel rows = .ok item →
    ∃ scope, env'.scope target .read = .ok scope ∧
      (∃ env₁ scope₁, env.Enters env₁ ∧ env₁.scope target .read = .ok scope₁ ∧
        (scope₁ = scope ∨ Scope.WrittenAlike target.name scope₁ scope) ∧
        item.Within s target.name scope₁) ∧
      (env.TellsScopes s target → item.Within s target.name scope)
  /-- A field is handed what another one loads under a scope that is written alike. -/
  shared : ∀ env₁ env₂ r target row a rel₁ rel₂ scope₁ scope₂ n, env.Enters env₁ →
    env.Enters env₂ → related env₁ r target row a = .ok rel₁ →
    related env₂ r target row a = .ok rel₂ → env₁.scope target .read = .ok scope₁ →
    env₂.scope target .read = .ok scope₂ →
    Scope.WrittenAlike target.name scope₁ scope₂ → rel₁.load.same rel₁.load →
    (Fetch.makeLoads s [] n [rel₁.load, rel₂.load]).1.find? rel₂.load =
      (Fetch.makeLoads s [] n [rel₁.load]).1.find? rel₁.load
  /-- What was loaded at any time is an initial part of what is loaded in the end. -/
  loaded : ∀ (x : Fetch (Report Value)) l n, l <+: (x.run s l n).2.1
  /-- An update leaves alone what was not within the scope for updating. -/
  update : ∀ env' p f a db result db', env.Enters env' → f.source = .update p → db.stored = s →
    (change env' f a).outcome db = (result, db') →
    match result with
    | .ok _ => ∃ scope, env'.scope p .update = .ok scope ∧
      Mutation.Updates s db'.stored p.name scope
    | .error _ => db'.stored = s
  /-- A deletion leaves alone what was not within the scope for deleting. -/
  delete : ∀ env' p f a db result db', env.Enters env' → f.source = .delete p → db.stored = s →
    (change env' f a).outcome db = (result, db') →
    match result with
    | .ok _ => ∃ scope, env'.scope p .delete = .ok scope ∧
      Mutation.Deletes s db'.stored p.name scope
    | .error _ => db'.stored = s
  /-- A scope without a condition does not restrict reading. -/
  readsFreely : ∀ env' p, env.Enters env' → env'.scope p .read = .ok none →
    (∀ a, Reading.ofPage env' p a = Reading.ofPage env'.unscoped p a) ∧
    (∀ a, Reading.ofKey env' p a = Reading.ofKey env'.unscoped p a) ∧
    ∀ r row a, related env' r p row a = related env'.unscoped r p row a
  /-- A scope without a condition does not restrict changes. -/
  changesFreely : ∀ env' p f a, env.Enters env' →
    (f.source = .update p ∧ env'.scope p .update = .ok none ∨
      f.source = .delete p ∧ env'.scope p .delete = .ok none) →
    change env' f a = change env'.unscoped f a

end Environment

variable {env : Environment} {s : Store}

theorem prefix_makeLoads (l : Loaded) (n : Nat) (loads : List Load) :
    l <+: (Fetch.makeLoads s l n loads).1 := by
  unfold Fetch.makeLoads
  exact (List.prefix_append _ _).trans (List.prefix_append _ _)

theorem prefix_run {α : Type} (x : Fetch α) (l : Loaded) (n : Nat) : l <+: (x.run s l n).2.1 := by
  induction x generalizing l n with
  | done a => exact List.prefix_refl l
  | waiting loads resume ih =>
    unfold Fetch.run
    exact (prefix_makeLoads l n loads).trans (ih _ _ _)

theorem Loaded.Within.initial {l l' : Loaded} (h : l'.Within env s) (hl : l <+: l') :
    l.Within env s := fun r rows hr => h r rows (hl.subset hr)

theorem within_nil : Loaded.Within env s [] := nofun

theorem ofPage_unscoped {p : Projection} (h : env.scope p .read = .ok none) (a : Arguments) :
    Reading.ofPage env p a = Reading.ofPage env.unscoped p a := by
  unfold Reading.ofPage
  rw [h]
  rfl

theorem ofKey_unscoped {p : Projection} (h : env.scope p .read = .ok none) (a : Arguments) :
    Reading.ofKey env p a = Reading.ofKey env.unscoped p a := by
  unfold Reading.ofKey
  rw [h]
  rfl

theorem related_unscoped {p : Projection} (h : env.scope p .read = .ok none) (r : RelationField)
    (row : Record) (a : Arguments) :
    related env r p row a = related env.unscoped r p row a := by
  unfold related
  rw [h]
  rfl

theorem update_unscoped {p : Projection} {f : OutputField} (hf : f.source = .update p)
    (h : env.scope p .update = .ok none) (a : Arguments) :
    change env f a = change env.unscoped f a := by
  unfold change
  rw [hf]
  dsimp only
  rw [h]
  rfl

theorem delete_unscoped {p : Projection} {f : OutputField} (hf : f.source = .delete p)
    (h : env.scope p .delete = .ok none) (a : Arguments) :
    change env f a = change env.unscoped f a := by
  unfold change
  rw [hf]
  dsimp only
  rw [h]
  rfl

/-- A load that is made alone is the one that is found in the end. -/
theorem makeLoads_singleton (l : Load) (n : Nat) :
    ∃ rows, (Fetch.makeLoads s [] n [l]).1 = [(l, rows)] := by
  have made : ∀ n, ∃ rows, (Fetch.loadTogether s n [l]).1 = [(l, rows)] := by
    intro n
    unfold Fetch.loadTogether
    split
    · rename_i rows _ hrun
      obtain ⟨_, -, hrows, -⟩ := TableGraph.Load.run_many_eq_ok.1 hrun
      cases hrows
      exact ⟨_, rfl⟩
    · exact ⟨_, rfl⟩
  have none : ∀ n, Fetch.loadTogether s n [] = ([], n) := fun _ => rfl
  obtain ⟨rows, h⟩ := made n
  refine ⟨rows, ?_⟩
  unfold Fetch.makeLoads
  cases hmany : l.many <;> simp [Fetch.missing, Loaded.find?, hmany, none, h]

/-- Of two loads that are not told apart, one is made, and it is found for both. -/
theorem find?_makeLoads_pair {l₁ l₂ : Load} (self : l₁.same l₁) (same : l₁.same l₂) (n : Nat) :
    (Fetch.makeLoads s [] n [l₁, l₂]).1.find? l₂ = (Fetch.makeLoads s [] n [l₁]).1.find? l₁ := by
  have once : Fetch.missing [] [l₁, l₂] = Fetch.missing [] [l₁] := by
    show l₁ :: [l₂].filter (!l₁.same ·) = [l₁]
    rw [List.filter_singleton, same]
    rfl
  have pair : Fetch.makeLoads s [] n [l₁, l₂] = Fetch.makeLoads s [] n [l₁] := by
    unfold Fetch.makeLoads
    rw [once]
  obtain ⟨rows, h⟩ := makeLoads_singleton (s := s) l₁ n
  rw [pair, h]
  have found : ∀ {l : Load}, l₁.same l → Loaded.find? [(l₁, rows)] l = some rows := by
    intro l hl
    unfold Loaded.find?
    rw [List.find?_cons_of_pos (by exact hl)]
    rfl
  rw [found self, found same]

/-- Loads for one field differ in what their row scopes are told by. -/
theorem same_of_related {env₁ env₂ : Environment} (schema : env₁.schema = env₂.schema)
    {r : RelationField} {target : Projection} {row : Record} {a : Arguments} {rel₁ rel₂ : Related}
    (h₁ : related env₁ r target row a = .ok rel₁) (h₂ : related env₂ r target row a = .ok rel₂)
    {scope₁ scope₂ : Option (Predicate Value)} (hscope₁ : env₁.scope target .read = .ok scope₁)
    (hscope₂ : env₂.scope target .read = .ok scope₂)
    (alike : Scope.WrittenAlike target.name scope₁ scope₂) (self : rel₁.load.same rel₁.load) :
    rel₁.load.same rel₂.load := by
  have same := Scope.fingerprint_same_iff.2 alike
  obtain ⟨_, hscope₁', asked₁⟩ := asked_of_related h₁
  obtain ⟨_, hscope₂', asked₂⟩ := asked_of_related h₂
  rw [hscope₁] at hscope₁'
  rw [hscope₂] at hscope₂'
  cases hscope₁'
  cases hscope₂'
  unfold Load.same LoadKey.same at self ⊢
  simp only [Bool.and_eq_true] at self ⊢
  cases asked₁ with
  | one single loads₁ =>
    cases asked₂ with
    | one _ loads₂ =>
      obtain ⟨_, -, rfl⟩ := relatedLoad_eq_ok.1 loads₁
      obtain ⟨_, -, rfl⟩ := relatedLoad_eq_ok.1 loads₂
      refine ⟨self.1, self.2.1, ?_⟩
      rw [Group.same_iff] at self ⊢
      exact ⟨rfl, rfl, rfl, self.2.2.2.2.2.1, same, rfl⟩
    | page many => rw [single] at many; cases many
  | page many pages₁ ordered₁ loads₁ =>
    cases asked₂ with
    | one single => rw [single] at many; cases many
    | page _ pages₂ ordered₂ loads₂ =>
      rw [← schema, pages₁] at pages₂
      rw [ordered₁] at ordered₂
      cases pages₂
      cases ordered₂
      obtain ⟨_, -, rfl⟩ := relatedLoad_eq_ok.1 loads₁
      obtain ⟨_, -, rfl⟩ := relatedLoad_eq_ok.1 loads₂
      refine ⟨self.1, self.2.1, ?_⟩
      rw [Group.same_iff] at self ⊢
      exact ⟨rfl, rfl, rfl, self.2.2.2.2.2.1, same, rfl⟩

/-- Row scopes cannot be bypassed. -/
theorem keepsScopes (env : Environment) (s : Store) : env.KeepsScopes s where
  page _ _ _ _ _ _ _ entered h hrun := within_of_page h (entered.schema_eq ▸ hrun)
  key _ _ _ _ _ _ _ entered h hrun := within_of_key h (entered.schema_eq ▸ hrun)
  relation l env' r name target row a rel rows item hl entered ht h hrows hitem := by
    have within : l.Within env s := by
      rcases hl with ⟨qs, n, hl⟩ | ⟨p, found, n, hl⟩
      · exact (within_readRoots within_nil).initial hl
      · exact (within_showRoot within_nil).initial hl
    obtain ⟨scope, hscope, -⟩ := asked_of_related h
    have delivered := within_related entered within ht h hrows hitem hscope
    exact ⟨scope, hscope, delivered,
      fun tells => within_related_of_tells entered tells hscope delivered⟩
  shared _ _ _ _ _ _ _ _ _ _ n entered₁ entered₂ h₁ h₂ hscope₁ hscope₂ alike self :=
    find?_makeLoads_pair self (same_of_related
      (entered₁.schema_eq.trans entered₂.schema_eq.symm) h₁ h₂ hscope₁ hscope₂ alike self) n
  loaded x l n := prefix_run x l n
  update _ p f _ _ result _ _ hf stored h := by
    subst stored
    cases result with
    | ok item => exact (resolves_of_outcome hf rfl h).updates
    | error fault =>
      have mutation : mutationOf f.source = some (p, .update) := hf ▸ rfl
      exact ((transacts_change mutation).failed h).stored
  delete _ p f _ _ result _ _ hf stored h := by
    subst stored
    cases result with
    | ok item => exact (resolves_of_outcome hf rfl h).deletes
    | error fault =>
      have mutation : mutationOf f.source = some (p, .delete) := hf ▸ rfl
      exact ((transacts_change mutation).failed h).stored
  readsFreely _ _ _ h := ⟨ofPage_unscoped h, ofKey_unscoped h, related_unscoped h⟩
  changesFreely _ p f a _ h := by
    rcases h with ⟨hf, h⟩ | ⟨hf, h⟩
    · exact update_unscoped hf h a
    · exact delete_unscoped hf h a

section Notes

open Sample.Notes

/-- A note of the first owner and one of another. -/
def twoNotes : Store := store [note 1 1 (.int 5), note 2 2 (.int 5)]

/-- The field that deletes notes. -/
def deleteNotes : OutputField := ⟨"noteDelete", [], .named "Int", .delete projection⟩

/-- A page holds and counts the note of the first owner, and a deletion spares the other one. -/
theorem keepsScopes_notes :
    (∃ reading item m, Reading.ofPage environment projection ⟨[], none⟩ = .ok reading ∧
      (reading.run environment.schema.codec twoNotes).run 0 = .ok (item, m) ∧
      ∃ c : Connection, item = .connection c ∧ c.nodes.map (·.get "id") = [.int 1] ∧
        (∀ r ∈ c.nodes, twoNotes.Shows "note" (some ofFirstOwner) r) ∧
        ∀ k, c.count = some k → twoNotes.CountsOnce "note" (some ofFirstOwner) k.total) ∧
    ∃ item db, (change environment deleteNotes ⟨[], none⟩).outcome (.opened twoNotes) =
      (.ok item, db) ∧ db.stored.table "note" = .ok (table [note 2 2 (.int 5)]) ∧
      Mutation.Deletes twoNotes db.stored "note" (some ofFirstOwner) := by
  have read : Reading.ofPage environment projection ⟨[], none⟩ =
      .ok (.page projection (Predicate.always.andAlso (some ofFirstOwner)) [] .all) := rfl
  have shown : ((Reading.page projection (Predicate.always.andAlso (some ofFirstOwner)) [] .all).run
      environment.schema.codec twoNotes).run 0 = .ok (.connection ⟨[⟨"Int[1]:1",
        [("id", .int 1), ("owner", .int 1),
          ("price", .decimal (.finite false 50000000000 (-10)))]⟩],
        false, false, some (.ofAll 1)⟩, 1) := by
    with_unfolding_all rfl
  have deleted : (change environment deleteNotes ⟨[], none⟩).outcome (.opened twoNotes) =
      (.ok (.value (.int 1)), ⟨store [note 2 2 (.int 5)], none, 1, [.begun, .committed]⟩) := by
    with_unfolding_all rfl
  have kept := keepsScopes environment twoNotes
  have own := Environment.Enters.refl environment
  obtain ⟨scope, c, hscope, hc, hrows, hcount⟩ := kept.page _ _ _ _ _ _ _ own read shown
  obtain ⟨scope', hscope', hdeletes⟩ := kept.delete _ projection _ _ _ _ _ own rfl rfl deleted
  cases hscope
  cases hc
  cases hscope'
  exact ⟨⟨_, _, _, read, shown, _, rfl, rfl, hrows, hcount⟩, _, _, deleted, rfl, hdeletes⟩

end Notes

/-! ## Scopes that are not told apart -/

section Marks

open Sample Marks

/-- The request for the notes of all shops, under two names. -/
def marksRequest : Request :=
  ⟨"\x7b shop \x7b nodes \x7b whole: notes \x7b nodes \x7b id \x7d \x7d " ++
    "real: notes \x7b nodes \x7b id \x7d \x7d \x7d \x7d \x7d", [], none, []⟩

/-- The notes of a shop under a name. -/
def notesAs (name : String) : Selection :=
  .field (some name) "notes" [] [] [.field none "nodes" [] [] [.field none "id" [] [] []]]

/-- The operation of the request. -/
def marksOperation : OperationDefinition :=
  ⟨.query, none, [], [], [.field none "shop" [] []
    [.field none "nodes" [] [] [notesAs "whole", notesAs "real"]]]⟩

theorem ofText_marksRequest :
    Document.ofText marksRequest.document = .ok [.operation marksOperation] := by
  with_unfolding_all rfl

/-- A page that shows a note of a number. -/
def pageOf (n : Int) : Value := .object [("nodes", .list [.object [("id", .int n)]])]

/-- The reply is that data, and nothing failed. -/
def Reply.gives (data : Value) : Reply → Bool
  | .answered d [] _ _ => d == data
  | _ => false

/-- No note has the text of a float for its mark. -/
theorem not_shows_real (row : Record) :
    ¬ store.Shows "note" (some (withMark (.float (.ofInt 1)))) row := by
  rintro ⟨t, ht, r, hr, -, within⟩
  cases ht
  obtain rfl := List.mem_singleton.1 hr
  obtain ⟨type, q, htype, hq, hholds⟩ := Table.accepts_test.1 (within _ rfl)
  cases htype
  cases hq
  revert hholds
  decide +kernel

/-- A field shows a note of another one, although the row scope it got lets no note through. -/
theorem shown_outside_scope : ∃ schema, scopedBuilder.build = .ok schema ∧
    (∀ p ∈ schema.projections, p.name = "note" → ∀ call : FieldCall,
      call.path = [.key "shop", .key "nodes", .index 0, .key "real"] →
        ∃ scope, Environment.scope ⟨schema, call⟩ p .read = .ok scope ∧
          ∀ row, ¬ store.Shows "note" scope row) ∧
    (reply schema store marksRequest).1.gives (.object [("shop", .object [("nodes", .list
      [.object [("whole", pageOf 1), ("real", pageOf 1)]])])]) := by
  obtain ⟨schema, built⟩ : ∃ schema, scopedBuilder.build = .ok schema :=
    exists_of_isOk (by decide +kernel)
  refine ⟨schema, built, fun p hp name call path => ?_, ?_⟩
  · obtain ⟨-, shows⟩ := Builder.shows_entity built hp
    obtain ⟨context, -⟩ := Builder.roots_of_build built
    refine ⟨some (withMark (.float (.ofInt 1))), ?_, not_shows_real⟩
    have type : scopedBuilder.context.typeName p.entity.name = "Note" := by
      rw [show p.entity.name = "note" from name]
      decide +kernel
    unfold Environment.scope Scope.condition
    rw [context, shows.typeName, type]
    show Sample.Marks.scope call .read p.entity >>= _ = _
    unfold Sample.Marks.scope
    rw [path]
    rfl
  · have evaluated : ∀ data, (do
        let s ← scopedBuilder.build.toOption
        some ((reply s store marksRequest).1.gives data)) = some true →
        (reply schema store marksRequest).1.gives data := by
      intro data h
      rw [built] at h
      exact Option.some.inj h
    have given : marksRequest.bindings = [] ∧ marksRequest.operation = none := ⟨rfl, rfl⟩
    have plain : Selection.spreadsOfAll marksOperation.selections = [] := rfl
    refine evaluated _ ?_
    unfold reply
    simp only [ofText_marksRequest, Document.isValid_one, Document.plan?_one plain,
      Document.operationFits, Document.expanded_one plain, given]
    decide +kernel

end Marks

end TableGraph.Answer
