import Mathlib.Data.List.Forall2
import Mathlib.Data.List.Perm.Basic
import TableGraph.Store.Basic

/-!
# Outcomes of computations

When a sequence of steps succeeds, and what it then gives; which of its steps fails, if it does not.
The first part is about steps that may fail, the second about steps that also count the statements
they send.
-/

namespace TableGraph

/-! ## Steps that may fail -/

section Steps

variable {ε α β : Type}

theorem bind_eq_ok {x : Except ε α} {f : α → Except ε β} {b : β} :
    (x >>= f) = .ok b ↔ ∃ a, x = .ok a ∧ f a = .ok b := by
  cases x with
  | error e => simp [bind, Except.bind]
  | ok a => simp [bind, Except.bind]

theorem exists_of_isOk {x : Except ε α} (h : x.isOk) : ∃ a, x = .ok a := by
  cases x with
  | error e => cases h
  | ok a => exact ⟨a, rfl⟩

theorem eq_ok_of_toOption {x : Except ε α} {a : α} (h : x.toOption = some a) : x = .ok a := by
  cases x with
  | error e => cases h
  | ok b => exact congrArg Except.ok (Option.some.inj h)

theorem map_eq_ok {x : Except ε α} {f : α → β} {b : β} :
    (f <$> x) = .ok b ↔ ∃ a, x = .ok a ∧ f a = b := by
  cases x with
  | error e => simp [Functor.map, Except.map]
  | ok a => simp [Functor.map, Except.map]

theorem mapError_eq_ok {ε' : Type} {x : Except ε α} {f : ε → ε'} {a : α} :
    x.mapError f = .ok a ↔ x = .ok a := by
  cases x with
  | error e => exact iff_of_false nofun nofun
  | ok b => simp [Except.mapError]

/-- A list of steps succeeds item by item. -/
theorem mapM_eq_ok {f : α → Except ε β} {xs : List α} {ys : List β} :
    xs.mapM f = .ok ys ↔ List.Forall₂ (fun x y => f x = .ok y) xs ys := by
  induction xs generalizing ys with
  | nil => cases ys <;> simp [pure, Except.pure]
  | cons x xs ih =>
    rw [List.mapM_cons, bind_eq_ok]
    constructor
    · rintro ⟨y, hy, h⟩
      obtain ⟨zs, hzs, h⟩ := bind_eq_ok.1 h
      cases h
      exact .cons hy (ih.1 hzs)
    · intro h
      cases h with
      | cons hy hys => exact ⟨_, hy, bind_eq_ok.2 ⟨_, ih.2 hys, rfl⟩⟩

theorem mapM_congr {xs : List α} {f g : α → Except ε β} (h : ∀ x ∈ xs, f x = g x) :
    xs.mapM f = xs.mapM g := by
  induction xs with
  | nil => rfl
  | cons x xs ih =>
    rw [List.mapM_cons, List.mapM_cons, h x List.mem_cons_self,
      ih fun y hy => h y (List.mem_cons_of_mem x hy)]

theorem mapM_eq_map {f : α → Except ε β} {g : α → β} {xs : List α}
    (h : ∀ x ∈ xs, f x = .ok (g x)) : xs.mapM f = .ok (xs.map g) := by
  rw [mapM_eq_ok, List.forall₂_map_right_iff, List.forall₂_same]
  exact h

theorem forM_eq_ok {f : α → Except ε Unit} {xs : List α} :
    xs.forM f = .ok () ↔ ∀ x ∈ xs, f x = .ok () := by
  induction xs with
  | nil => simp [pure, Except.pure]
  | cons x xs ih =>
    show (f x >>= fun _ => xs.forM f) = .ok () ↔ _
    rw [bind_eq_ok, List.forall_mem_cons, ← ih]
    constructor
    · rintro ⟨_, hx, hxs⟩
      exact ⟨hx, hxs⟩
    · rintro ⟨hx, hxs⟩
      exact ⟨(), hx, hxs⟩

theorem exists_of_forall₂ {R : α → β → Prop} {xs : List α} {ys : List β} (h : List.Forall₂ R xs ys)
    {x : α} (hx : x ∈ xs) : ∃ y ∈ ys, R x y := by
  induction h with
  | nil => cases hx
  | cons hxy _ ih =>
    rcases List.mem_cons.1 hx with rfl | hx
    · exact ⟨_, List.mem_cons_self, hxy⟩
    · obtain ⟨y, hy, h⟩ := ih hx
      exact ⟨y, List.mem_cons_of_mem _ hy, h⟩

/-- Every item is what some step gave. -/
theorem mem_of_mapM {f : α → Except ε β} {xs : List α} {ys : List β} (h : xs.mapM f = .ok ys)
    {y : β} (hy : y ∈ ys) : ∃ x ∈ xs, f x = .ok y := exists_of_forall₂ (mapM_eq_ok.1 h).flip hy

/-- Every step gave some item. -/
theorem exists_of_mem_mapM {f : α → Except ε β} {xs : List α} {ys : List β}
    (h : xs.mapM f = .ok ys) {x : α} (hx : x ∈ xs) : ∃ y ∈ ys, f x = .ok y :=
  exists_of_forall₂ (mapM_eq_ok.1 h) hx

theorem length_of_mapM {f : α → Except ε β} {xs : List α} {ys : List β} (h : xs.mapM f = .ok ys) :
    ys.length = xs.length := (mapM_eq_ok.1 h).length_eq.symm

theorem exists_forall₂ {R : α → β → Prop} {xs : List α} (h : ∀ x ∈ xs, ∃ y, R x y) :
    ∃ ys, List.Forall₂ R xs ys := by
  induction xs with
  | nil => exact ⟨[], .nil⟩
  | cons x xs ih =>
    obtain ⟨y, hy⟩ := h x List.mem_cons_self
    obtain ⟨ys, hys⟩ := ih fun z hz => h z (List.mem_cons_of_mem x hz)
    exact ⟨y :: ys, .cons hy hys⟩

theorem forall₂_and {R S : α → β → Prop} {xs : List α} {ys : List β} (h : List.Forall₂ R xs ys)
    (h' : List.Forall₂ S xs ys) : List.Forall₂ (fun x y => R x y ∧ S x y) xs ys := by
  induction h with
  | nil => exact .nil
  | cons hxy _ ih =>
    cases h' with
    | cons hxy' h' => exact .cons ⟨hxy, hxy'⟩ (ih h')

theorem forall₂_imp_mem {R S : α → β → Prop} {xs : List α} {ys : List β} (h : List.Forall₂ R xs ys)
    (imp : ∀ x ∈ xs, ∀ y ∈ ys, R x y → S x y) : List.Forall₂ S xs ys := by
  induction h with
  | nil => exact .nil
  | cons hxy _ ih =>
    refine .cons (imp _ List.mem_cons_self _ List.mem_cons_self hxy) (ih fun x hx y hy => ?_)
    exact imp x (List.mem_cons_of_mem _ hx) y (List.mem_cons_of_mem _ hy)

theorem forall₂_trans {γ : Type} {R : α → β → Prop} {S : β → γ → Prop} {T : α → γ → Prop}
    (trans : ∀ x y z, R x y → S y z → T x z) {xs : List α} {ys : List β} {zs : List γ}
    (h : List.Forall₂ R xs ys) (h' : List.Forall₂ S ys zs) : List.Forall₂ T xs zs := by
  induction h generalizing zs with
  | nil =>
    cases h'
    exact .nil
  | cons hxy _ ih =>
    cases h' with
    | cons hyz h' => exact .cons (trans _ _ _ hxy hyz) (ih h')

theorem map_eq_of_forall₂ {γ : Type} {f : α → γ} {g : β → γ} {xs : List α} {ys : List β}
    (h : List.Forall₂ (fun x y => f x = g y) xs ys) : xs.map f = ys.map g := by
  rwa [← List.forall₂_eq_eq_eq, List.forall₂_map_left_iff, List.forall₂_map_right_iff]

theorem flatMap_eq_of_forall₂ {γ : Type} {f : α → List γ} {g : β → List γ} {xs : List α}
    {ys : List β} (h : List.Forall₂ (fun x y => f x = g y) xs ys) : xs.flatMap f = ys.flatMap g := by
  rw [List.flatMap_def, List.flatMap_def, map_eq_of_forall₂ h]

theorem forall_mem_congr_of_forall₂ {P : α → Prop} {Q : β → Prop} {xs : List α} {ys : List β}
    (h : List.Forall₂ (fun x y => P x ↔ Q y) xs ys) : (∀ x ∈ xs, P x) ↔ ∀ y ∈ ys, Q y := by
  induction h with
  | nil => exact iff_of_true nofun nofun
  | cons hxy _ ih => rw [List.forall_mem_cons, List.forall_mem_cons, hxy, ih]

theorem exists_mem_congr_of_forall₂ {P : α → Prop} {Q : β → Prop} {xs : List α} {ys : List β}
    (h : List.Forall₂ (fun x y => P x ↔ Q y) xs ys) : (∃ x ∈ xs, P x) ↔ ∃ y ∈ ys, Q y := by
  induction h with
  | nil => simp
  | cons hxy _ ih => rw [List.exists_mem_cons_iff, List.exists_mem_cons_iff, hxy, ih]

/-- One item in the place of another changes what its step gives, and nothing else. -/
theorem mapM_replace {f : α → Except ε β} {before after : List α} {x : α} {zs : List β}
    (h : (before ++ x :: after).mapM f = .ok zs) : ∃ ys y ys', f x = .ok y ∧ zs = ys ++ y :: ys' ∧
      ∀ x' y', f x' = .ok y' → (before ++ x' :: after).mapM f = .ok (ys ++ y' :: ys') := by
  rw [List.mapM_append, List.mapM_cons] at h
  obtain ⟨ys, hys, h⟩ := bind_eq_ok.1 h
  obtain ⟨_, hrest, h⟩ := bind_eq_ok.1 h
  cases h
  obtain ⟨y, hy, hrest⟩ := bind_eq_ok.1 hrest
  obtain ⟨ys', hys', hrest⟩ := bind_eq_ok.1 hrest
  cases hrest
  refine ⟨ys, y, ys', hy, rfl, fun x' y' hx' => ?_⟩
  rw [List.mapM_append, List.mapM_cons, hys, hx', hys']
  rfl

/-- The order of the items is the order of what their steps give. -/
theorem exists_perm_of_mapM {f : α → Except ε β} {xs xs' : List α} {ys : List β}
    (h : xs.Perm xs') (hys : xs.mapM f = .ok ys) : ∃ ys', xs'.mapM f = .ok ys' ∧ ys.Perm ys' := by
  obtain ⟨ys', hys', hperm⟩ := List.perm_comp_forall₂ h.symm (mapM_eq_ok.1 hys)
  exact ⟨ys', mapM_eq_ok.2 hys', hperm.symm⟩

/-- Steps that succeed one by one succeed together. -/
theorem mapM_of_forall {f : α → Except ε β} {xs : List α} (h : ∀ x ∈ xs, ∃ y, f x = .ok y) :
    ∃ ys, xs.mapM f = .ok ys := (exists_forall₂ h).imp fun _ => mapM_eq_ok.2

/-! ### The step that fails -/

variable {e : ε}

theorem bind_eq_error {x : Except ε α} {f : α → Except ε β} :
    (x >>= f) = .error e ↔ x = .error e ∨ ∃ a, x = .ok a ∧ f a = .error e := by
  cases x with
  | error e' => simp [bind, Except.bind]
  | ok a => simp [bind, Except.bind]

/-- A list of steps fails at the first item that does. -/
theorem mapM_eq_error {f : α → Except ε β} {xs : List α} : xs.mapM f = .error e ↔
    ∃ done x rest, xs = done ++ x :: rest ∧ (∃ ys, done.mapM f = .ok ys) ∧ f x = .error e := by
  induction xs with
  | nil => exact iff_of_false nofun (by simp)
  | cons x xs ih =>
    rw [List.mapM_cons, bind_eq_error]
    constructor
    · rintro (h | ⟨y, hy, h⟩)
      · exact ⟨[], x, xs, rfl, ⟨[], rfl⟩, h⟩
      · rcases bind_eq_error.1 h with h | ⟨_, -, h⟩
        · obtain ⟨done, z, rest, rfl, ⟨ys, hys⟩, hz⟩ := ih.1 h
          refine ⟨x :: done, z, rest, rfl, ⟨y :: ys, ?_⟩, hz⟩
          exact mapM_eq_ok.2 (.cons hy (mapM_eq_ok.1 hys))
        · cases h
    · rintro ⟨done, z, rest, split, ⟨ys, hys⟩, hz⟩
      cases done with
      | nil =>
        obtain ⟨rfl, rfl⟩ := List.cons.inj split
        exact .inl hz
      | cons x' done =>
        obtain ⟨rfl, rfl⟩ := List.cons.inj split
        obtain ⟨y, hy, hys⟩ := bind_eq_ok.1 (List.mapM_cons (f := f) ▸ hys)
        obtain ⟨ys, hys, -⟩ := bind_eq_ok.1 hys
        exact .inr ⟨y, hy, bind_eq_error.2 (.inl (ih.2 ⟨done, z, rest, rfl, ⟨ys, hys⟩, hz⟩))⟩

/-- Steps over a state fail at the first item that does. -/
theorem foldlM_eq_error {f : β → α → Except ε β} {xs : List α} {b : β} :
    xs.foldlM f b = .error e ↔ ∃ done x rest mid, xs = done ++ x :: rest ∧
      done.foldlM f b = .ok mid ∧ f mid x = .error e := by
  induction xs generalizing b with
  | nil => exact iff_of_false nofun (by simp)
  | cons x xs ih =>
    rw [List.foldlM_cons, bind_eq_error]
    constructor
    · rintro (h | ⟨b', hx, h⟩)
      · exact ⟨[], x, xs, b, rfl, rfl, h⟩
      · obtain ⟨done, z, rest, mid, rfl, hdone, hz⟩ := ih.1 h
        exact ⟨x :: done, z, rest, mid, rfl, bind_eq_ok.2 ⟨b', hx, hdone⟩, hz⟩
    · rintro ⟨done, z, rest, mid, split, hdone, hz⟩
      cases done with
      | nil =>
        obtain ⟨rfl, rfl⟩ := List.cons.inj split
        cases hdone
        exact .inl hz
      | cons x' done =>
        obtain ⟨rfl, rfl⟩ := List.cons.inj split
        obtain ⟨b', hx, hdone⟩ := bind_eq_ok.1 hdone
        exact .inr ⟨b', hx, ih.2 ⟨done, z, rest, mid, rfl, hdone, hz⟩⟩

/-- Checks of a list fail at the first item that does. -/
theorem forM_eq_error {f : α → Except ε Unit} {xs : List α} : xs.forM f = .error e ↔
    ∃ done x rest, xs = done ++ x :: rest ∧ (∀ d ∈ done, f d = .ok ()) ∧ f x = .error e := by
  have fold : ∀ xs : List α, xs.forM f = xs.foldlM (fun _ x => f x) () := by
    intro xs
    induction xs with
    | nil => rfl
    | cons x xs ih =>
      show (f x >>= fun _ => xs.forM f) = _
      rw [ih]
      rfl
  rw [fold, foldlM_eq_error]
  simp only [← forM_eq_ok, fold]
  constructor
  · rintro ⟨done, x, rest, _, h⟩
    exact ⟨done, x, rest, h⟩
  · rintro ⟨done, x, rest, h⟩
    exact ⟨done, x, rest, (), h⟩

end Steps

/-! ## Counted steps -/

namespace Counted

variable {α β : Type} {n m : Nat}

theorem run_lift (x : Except Fault α) : (liftM x : Counted α).run n = (·, n) <$> x := by
  cases x <;> rfl

theorem run_bind_eq_ok {x : Counted α} {f : α → Counted β} {b : β} :
    (x >>= f).run n = .ok (b, m) ↔ ∃ a k, x.run n = .ok (a, k) ∧ (f a).run k = .ok (b, m) := by
  rw [StateT.run_bind, bind_eq_ok]
  simp only [Prod.exists]

theorem run_bind_of_ok {x : Counted α} {f : α → Counted β} {a : α} (h : x.run n = .ok (a, m)) :
    (x >>= f).run n = (f a).run m := by
  rw [StateT.run_bind, h]
  rfl

theorem run_bind_of_error {x : Counted α} {f : α → Counted β} {e : Fault}
    (h : x.run n = .error e) : (x >>= f).run n = .error e := by
  rw [StateT.run_bind, h]
  rfl

theorem run_map_eq_ok {x : Counted α} {f : α → β} {b : β} :
    (f <$> x).run n = .ok (b, m) ↔ ∃ a, x.run n = .ok (a, m) ∧ f a = b := by
  rw [StateT.run_map, map_eq_ok]
  simp only [Prod.exists, Prod.mk.injEq]
  constructor
  · rintro ⟨a, k, h, hb, rfl⟩
    exact ⟨a, h, hb⟩
  · rintro ⟨a, h, hb⟩
    exact ⟨a, m, h, hb, rfl⟩

theorem run_pure_eq_ok {a b : α} :
    (pure a : Counted α).run n = .ok (b, m) ↔ a = b ∧ n = m := by
  rw [StateT.run_pure]
  simp only [pure, Except.pure, Except.ok.injEq, Prod.mk.injEq]

theorem run_lift_eq_ok {x : Except Fault α} {a : α} :
    (liftM x : Counted α).run n = .ok (a, m) ↔ x = .ok a ∧ n = m := by
  rw [run_lift, map_eq_ok]
  simp only [Prod.mk.injEq]
  constructor
  · rintro ⟨b, h, rfl, hn⟩
    exact ⟨h, hn⟩
  · rintro ⟨h, hn⟩
    exact ⟨a, h, rfl, hn⟩

theorem ext_run {x y : Counted α} (h : ∀ n, x.run n = y.run n) : x = y := StateT.ext h

/-- What follows a step need only be the same for what the step gives. -/
theorem bind_congr_of_run {x x' : Counted α} {f f' : α → Counted β} (hx : x' = x)
    (h : ∀ a n m, x.run n = .ok (a, m) → f' a = f a) : x' >>= f' = x >>= f := by
  subst hx
  refine ext_run fun n => ?_
  rw [StateT.run_bind, StateT.run_bind]
  cases hrun : x'.run n with
  | error e => rfl
  | ok r =>
    show (f' r.1).run r.2 = (f r.1).run r.2
    rw [h r.1 n r.2 hrun]

/-- A computation succeeds with a value, whatever number of statements it sends. -/
def Gives (x : Counted α) (n : Nat) (a : α) : Prop := ∃ m, x.run n = .ok (a, m)

theorem gives_bind {x : Counted α} {f : α → Counted β} {b : β} :
    (x >>= f).Gives n b ↔ ∃ a k, x.run n = .ok (a, k) ∧ (f a).Gives k b := by
  unfold Gives
  simp only [run_bind_eq_ok]
  constructor
  · rintro ⟨m, a, k, hx, hf⟩
    exact ⟨a, k, hx, m, hf⟩
  · rintro ⟨a, k, hx, m, hf⟩
    exact ⟨m, a, k, hx, hf⟩

theorem gives_lift_bind {x : Except Fault α} {f : α → Counted β} {b : β} :
    ((liftM x : Counted α) >>= f).Gives n b ↔ ∃ a, x = .ok a ∧ (f a).Gives n b := by
  rw [gives_bind]
  simp only [run_lift_eq_ok]
  constructor
  · rintro ⟨a, _, ⟨hx, rfl⟩, hf⟩
    exact ⟨a, hx, hf⟩
  · rintro ⟨a, hx, hf⟩
    exact ⟨a, n, ⟨hx, rfl⟩, hf⟩

end Counted

namespace Store

theorem registered_eq_ok {s : Store} {name : String} {t : Table} : s.registered name = .ok t ↔
    s.tables.find? (fun t => t.name = name) = some t := by
  unfold Store.registered
  cases s.tables.find? fun t => t.name = name <;> simp

theorem table_eq_ok {s : Store} {name : String} {t : Table} : s.table name = .ok t ↔
    (s.isDown = false ∧ name ∉ s.missing) ∧
      s.tables.find? (fun t => t.name = name) = some t := by
  unfold Store.table
  rw [bind_eq_ok]
  simp only [registered_eq_ok, List.contains_iff_mem]
  split_ifs with hdown hmissing <;> simp [*]

theorem registered_of_table {s : Store} {name : String} {t : Table} (h : s.table name = .ok t) :
    s.registered name = .ok t :=
  registered_eq_ok.2 (table_eq_ok.1 h).2

theorem name_of_table {s : Store} {name : String} {t : Table} (h : s.table name = .ok t) :
    t.name = name := by
  simpa using List.find?_some (table_eq_ok.1 h).2

variable {α : Type} {n m : Nat}

/-- A statement is counted whether it succeeds or not, and what it gives is read off its table. -/
theorem run_ask (s : Store) (name : String) (f : Table → Except Fault α) :
    (s.ask name f).run n = (·, n + 1) <$> (s.table name >>= f) := by
  show ((liftM (s.table name) >>= fun t => liftM (f t) : Counted α)).run (n + 1) = _
  rw [StateT.run_bind, Counted.run_lift]
  cases s.table name with
  | error e => rfl
  | ok t => exact Counted.run_lift (f t)

theorem run_ask_eq_ok {s : Store} {name : String} {f : Table → Except Fault α} {a : α} :
    (s.ask name f).run n = .ok (a, m) ↔
      ∃ t, s.table name = .ok t ∧ f t = .ok a ∧ n + 1 = m := by
  rw [run_ask, map_eq_ok]
  simp only [bind_eq_ok, Prod.mk.injEq]
  constructor
  · rintro ⟨b, ⟨t, ht, hf⟩, rfl, hm⟩
    exact ⟨t, ht, hf, hm⟩
  · rintro ⟨t, ht, hf, hm⟩
    exact ⟨a, ⟨t, ht, hf⟩, rfl, hm⟩

theorem gives_ask_bind {β : Type} {s : Store} {name : String} {g : Table → Except Fault α}
    {f : α → Counted β} {b : β} : (s.ask name g >>= f).Gives n b ↔
      ∃ t a, s.table name = .ok t ∧ g t = .ok a ∧ (f a).Gives (n + 1) b := by
  rw [Counted.gives_bind]
  simp only [run_ask_eq_ok]
  constructor
  · rintro ⟨a, _, ⟨t, ht, hg, rfl⟩, hf⟩
    exact ⟨t, a, ht, hg, hf⟩
  · rintro ⟨t, a, ht, hg, hf⟩
    exact ⟨a, n + 1, ⟨t, ht, hg, rfl⟩, hf⟩

end Store

end TableGraph
