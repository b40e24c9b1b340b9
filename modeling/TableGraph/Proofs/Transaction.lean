import TableGraph.Proofs.Outcome
import TableGraph.Transaction

/-!
# How transactions end

A computation on a state that fails leaves the state as far as it got.  So what statements give says
what they leave of the store as well (`Work.Gives`), and a transaction ends in one of three ways
(`Session.outcome_transaction`): it was never begun, the pending store is committed, or it is rolled
back although statements may have changed it.

Main statements: `Session.transacts_transaction`, `Session.gives_transaction`.
-/

namespace TableGraph

/-! ## Attempts -/

namespace Attempt

variable {σ α β : Type} {s s' : σ}

theorem outcome_bind (x : Attempt σ α) (f : α → Attempt σ β) (s : σ) : (x >>= f).outcome s =
    match x.outcome s with
    | (.ok a, s') => (f a).outcome s'
    | (.error e, s') => (.error e, s') := by
  unfold outcome
  rw [ExceptT.run_bind, StateT.run_bind]
  generalize StateT.run (ExceptT.run x) s = ended
  obtain ⟨result, s'⟩ : Except Fault α × σ := ended
  cases result <;> rfl

theorem outcome_bind_of_ok {x : Attempt σ α} {f : α → Attempt σ β} {a : α}
    (h : x.outcome s = (.ok a, s')) : (x >>= f).outcome s = (f a).outcome s' := by
  rw [outcome_bind, h]

theorem outcome_lift (x : Except Fault α) (s : σ) :
    (liftM x : Attempt σ α).outcome s = (x, s) := rfl

theorem outcome_lift_bind (x : Except Fault α) (f : α → Attempt σ β) (s : σ) :
    ((liftM x : Attempt σ α) >>= f).outcome s =
      match x with
      | .ok a => (f a).outcome s
      | .error e => (.error e, s) := by
  rw [outcome_bind, outcome_lift]
  cases x <;> rfl

theorem outcome_get_bind (f : σ → Attempt σ β) (s : σ) :
    ((get : Attempt σ σ) >>= f).outcome s = (f s).outcome s := by
  rw [outcome_bind]
  rfl

theorem outcome_bind_eq_ok {x : Attempt σ α} {f : α → Attempt σ β} {b : β} {s'' : σ} :
    (x >>= f).outcome s = (.ok b, s'') ↔
      ∃ a s', x.outcome s = (.ok a, s') ∧ (f a).outcome s' = (.ok b, s'') := by
  rw [outcome_bind]
  cases hx : x.outcome s with
  | mk result s' =>
    cases result with
    | ok a => simp
    | error e => simp

/-- A computation that is caught goes on where it failed. -/
theorem outcome_tryCatch (x : Attempt σ α) (handle : Fault → Attempt σ α) (s : σ) :
    (tryCatch x handle).outcome s =
      match x.outcome s with
      | (.ok a, s') => (.ok a, s')
      | (.error e, s') => (handle e).outcome s' := by
  show Id.run (StateT.run (ExceptT.run (ExceptT.tryCatch x handle)) s) = _
  unfold outcome ExceptT.tryCatch
  rw [ExceptT.run_mk, StateT.run_bind]
  unfold ExceptT.run
  generalize StateT.run x s = ended
  obtain ⟨result, s'⟩ : Except Fault α × σ := ended
  cases result <;> rfl

end Attempt

namespace Work

variable {α β : Type} {w : Working} {s s' : Store} {n : Nat} {name : String}

/-- The statements go well: what they leave of the store, and what they tell. -/
def Gives (x : Work α) (w : Working) (s' : Store) (a : α) : Prop :=
  ∃ m, x.outcome w = (.ok a, ⟨s', m⟩)

theorem gives_pure {a b : α} : (pure a : Work α).Gives ⟨s, n⟩ s' b ↔ s = s' ∧ a = b := by
  constructor
  · rintro ⟨m, h⟩
    cases h
    exact ⟨rfl, rfl⟩
  · rintro ⟨rfl, rfl⟩
    exact ⟨n, rfl⟩

theorem gives_bind {x : Work α} {f : α → Work β} {b : β} : (x >>= f).Gives w s' b ↔
    ∃ a s₁ k, x.outcome w = (.ok a, ⟨s₁, k⟩) ∧ (f a).Gives ⟨s₁, k⟩ s' b := by
  unfold Gives
  simp only [Attempt.outcome_bind_eq_ok]
  constructor
  · rintro ⟨m, a, ⟨s₁, k⟩, hx, hf⟩
    exact ⟨a, s₁, k, hx, m, hf⟩
  · rintro ⟨a, s₁, k, hx, m, hf⟩
    exact ⟨m, a, ⟨s₁, k⟩, hx, hf⟩

theorem gives_lift {x : Except Fault α} {a : α} :
    (liftM x : Work α).Gives ⟨s, n⟩ s' a ↔ s = s' ∧ x = .ok a := by
  unfold Gives
  rw [Attempt.outcome_lift]
  constructor
  · rintro ⟨m, h⟩
    cases h
    exact ⟨rfl, rfl⟩
  · rintro ⟨rfl, rfl⟩
    exact ⟨n, rfl⟩

theorem gives_get_bind {f : Working → Work β} {b : β} :
    ((get : Work Working) >>= f).Gives w s' b ↔ (f w).Gives w s' b := by
  unfold Gives
  rw [Attempt.outcome_get_bind]

/-- A statement is counted whether it succeeds or not, and what it gives is read off its table. -/
theorem outcome_ask (name : String) (g : Table → Except Fault α) (s : Store) (n : Nat) :
    (ask name g).outcome ⟨s, n⟩ = (s.table name >>= g, ⟨s, n + 1⟩) := by
  show ((liftM (s.table name) : Work Table) >>= fun t => liftM (g t)).outcome ⟨s, n + 1⟩ = _
  rw [Attempt.outcome_lift_bind]
  cases s.table name <;> rfl

theorem gives_ask {g : Table → Except Fault α} {a : α} :
    (ask name g).Gives ⟨s, n⟩ s' a ↔ s = s' ∧ ∃ t, s.table name = .ok t ∧ g t = .ok a := by
  unfold Gives
  simp only [outcome_ask, Prod.mk.injEq, Working.mk.injEq, bind_eq_ok, exists_and_left,
    exists_eq', and_true]
  exact and_comm

theorem gives_ask_bind {g : Table → Except Fault α} {f : α → Work β} {b : β} :
    (ask name g >>= f).Gives ⟨s, n⟩ s' b ↔
      ∃ t a, s.table name = .ok t ∧ g t = .ok a ∧ (f a).Gives ⟨s, n + 1⟩ s' b := by
  rw [gives_bind]
  simp only [outcome_ask, Prod.mk.injEq, Working.mk.injEq, bind_eq_ok]
  constructor
  · rintro ⟨a, _, _, ⟨⟨t, ht, hg⟩, rfl, rfl⟩, hf⟩
    exact ⟨t, a, ht, hg, hf⟩
  · rintro ⟨t, a, ht, hg, hf⟩
    exact ⟨a, s, n + 1, ⟨⟨t, ht, hg⟩, rfl, rfl⟩, hf⟩

theorem gives_write_bind {g : Table → Except Fault (Table × α)} {f : Table × α → Work β} {b : β} :
    (write name g >>= f).Gives ⟨s, n⟩ s' b ↔ ∃ t t' a, s.table name = .ok t ∧
      g t = .ok (t', a) ∧ (f (t', a)).Gives ⟨s.put t', n + 1⟩ s' b := by
  have written : write name g >>= f = ask name g >>= fun x =>
      (modify fun w => { w with store := w.store.put x.1 } : Work PUnit) >>= fun _ => f x := by
    unfold write
    simp only [bind_assoc, pure_bind]
  rw [written, gives_ask_bind]
  constructor
  · rintro ⟨t, ⟨t', a⟩, ht, hg, hf⟩
    exact ⟨t, t', a, ht, hg, hf⟩
  · rintro ⟨t, t', a, ht, hg, hf⟩
    exact ⟨t, (t', a), ht, hg, hf⟩

end Work

/-! ## Transactions -/

/-- Nothing came of what was done: the same is stored, no transaction is left open, and the watch
was told nothing. -/
structure Database.Spares (db db' : Database) : Prop where
  stored : db'.stored = db.stored
  pending : db.pending = none → db'.pending = none
  trace : db'.trace = db.trace ∨ db'.trace = db.trace ++ [.begun, .rolledBack]

namespace Database

variable {db db' : Database}

theorem Spares.refl (db : Database) : db.Spares db := ⟨rfl, id, .inl rfl⟩

/-- The watch is told nothing of a transaction that is rolled back. -/
theorem Spares.events_eq (h : db.Spares db') : db'.events = db.events := by
  unfold events
  rcases h.trace with trace | trace
  · rw [trace]
  · rw [trace, List.filterMap_append]
    exact List.append_nil _

end Database

/-- The database can be reached and commits what a transaction made of the store. -/
def Store.Takes (s s' : Store) : Prop := s.isDown = false ∧ s'.commits = true

namespace Session

variable {α β : Type} {db db' : Database} {s' : Store} {work : Work α}

/-- What is done goes well: what is stored then, and what it tells. -/
def Gives (x : Session α) (db : Database) (s' : Store) (a : α) : Prop :=
  ∃ db', x.outcome db = (.ok a, db') ∧ db'.stored = s'

/--
Where it goes wrong nothing comes of it.  Else all of it is committed, and nothing happens behind
that but what is told of what is stored then.
-/
structure Transacts (x : Session α) (told : Store → List Occurrence) : Prop where
  failed : ∀ {db f db'}, x.outcome db = (.error f, db') → db.Spares db'
  committed : ∀ {db a db'}, x.outcome db = (.ok a, db') → db.stored.Takes db'.stored ∧
    db'.pending = none ∧ db'.trace = db.trace ++ [.begun, .committed] ++ told db'.stored

theorem outcome_begin (db : Database) : begin.outcome db =
    if db.stored.isDown then (.error Store.unreachable, db)
    else (.ok ⟨⟩, { db with pending := some db.stored, trace := db.trace ++ [.begun] }) := by
  unfold begin
  rw [Attempt.outcome_get_bind]
  split_ifs <;> rfl

theorem outcome_perform (work : Work α) (db : Database) : (perform work).outcome db =
    ((work.outcome ⟨db.pending.getD db.stored, db.statements⟩).1,
      { db with
        pending := some (work.outcome ⟨db.pending.getD db.stored, db.statements⟩).2.store
        statements := (work.outcome ⟨db.pending.getD db.stored, db.statements⟩).2.statements }) :=
  rfl

theorem outcome_commit (db : Database) : commit.outcome db =
    if (db.pending.getD db.stored).commits then (.ok ⟨⟩, { db with
      stored := db.pending.getD db.stored, pending := none, trace := db.trace ++ [.committed] })
    else (.error (.database "the transaction cannot be committed"), db) := by
  unfold commit
  rw [Attempt.outcome_get_bind]
  dsimp only
  split_ifs <;> rfl

/-- The ends of a transaction: there is none, it is rolled back or it is committed. -/
theorem outcome_transaction (work : Work α) (db : Database) : (transaction work).outcome db =
    if db.stored.isDown then (.error Store.unreachable, db)
    else match work.outcome ⟨db.stored, db.statements⟩ with
      | (.ok a, w) =>
        if w.store.commits then
          (.ok a, ⟨w.store, none, w.statements, db.trace ++ [.begun] ++ [.committed]⟩)
        else (.error (.database "the transaction cannot be committed"),
          ⟨db.stored, none, w.statements, db.trace ++ [.begun] ++ [.rolledBack]⟩)
      | (.error f, w) =>
        (.error f, ⟨db.stored, none, w.statements, db.trace ++ [.begun] ++ [.rolledBack]⟩) := by
  unfold transaction
  rw [Attempt.outcome_bind, outcome_begin]
  split_ifs
  · rfl
  · show Attempt.outcome (tryCatch _ _) _ = _
    rw [Attempt.outcome_tryCatch, Attempt.outcome_bind, outcome_perform]
    dsimp only [Option.getD_some]
    rcases work.outcome ⟨db.stored, db.statements⟩ with ⟨f | a, w⟩
    · rfl
    · dsimp only
      rw [Attempt.outcome_bind, outcome_commit]
      dsimp only [Option.getD_some]
      split_ifs <;> rfl

theorem transacts_transaction (work : Work α) : (transaction work).Transacts fun _ => [] where
  failed {db f db'} h := by
    rw [outcome_transaction] at h
    split_ifs at h
    · cases h
      exact ⟨rfl, id, .inl rfl⟩
    · split at h
      · split_ifs at h <;> cases h
        exact ⟨rfl, fun _ => rfl, .inr (List.append_assoc _ _ _)⟩
      · cases h
        exact ⟨rfl, fun _ => rfl, .inr (List.append_assoc _ _ _)⟩
  committed {db a db'} h := by
    rw [outcome_transaction] at h
    split_ifs at h with down
    · cases h
    · split at h
      · split_ifs at h with commits <;> cases h
        exact ⟨⟨Bool.eq_false_iff.2 down, commits⟩, rfl, by simp⟩
      · cases h

theorem Transacts.lift_bind {x : Except Fault α} {f : α → Session β}
    {told : Store → List Occurrence} (h : ∀ a, (f a).Transacts told) :
    ((liftM x : Session α) >>= f).Transacts told where
  failed {db fault db'} hrun := by
    rw [Attempt.outcome_lift_bind] at hrun
    cases x with
    | error e =>
      cases hrun
      exact .refl db
    | ok a => exact (h a).failed hrun
  committed {db b db'} hrun := by
    rw [Attempt.outcome_lift_bind] at hrun
    cases x with
    | error e => cases hrun
    | ok a => exact (h a).committed hrun

theorem gives_lift_bind {x : Except Fault α} {f : α → Session β} {b : β} :
    ((liftM x : Session α) >>= f).Gives db s' b ↔ ∃ a, x = .ok a ∧ (f a).Gives db s' b := by
  unfold Gives
  rw [Attempt.outcome_lift_bind]
  cases x with
  | error e => simp
  | ok a => simp

/-- A transaction goes well exactly if its statements do and what they leave is committed. -/
theorem gives_transaction {a : α} : (transaction work).Gives db s' a ↔
    db.stored.Takes s' ∧ work.Gives ⟨db.stored, db.statements⟩ s' a := by
  unfold Gives Work.Gives Store.Takes
  rw [outcome_transaction]
  split_ifs with down
  · simp [down]
  · rcases work.outcome ⟨db.stored, db.statements⟩ with ⟨f | b, w, m⟩
    · simp
    · dsimp only
      split_ifs with commits
      · constructor
        · rintro ⟨_, h, rfl⟩
          cases h
          exact ⟨⟨Bool.eq_false_iff.2 down, commits⟩, m, rfl⟩
        · rintro ⟨-, k, h⟩
          cases h
          exact ⟨_, rfl, rfl⟩
      · constructor
        · rintro ⟨_, h, -⟩
          cases h
        · rintro ⟨⟨-, h⟩, k, hwork⟩
          cases hwork
          exact absurd h commits

end Session

end TableGraph
