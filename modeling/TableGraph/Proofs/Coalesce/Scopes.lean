import TableGraph.Proofs.Coalesce.Wording
import TableGraph.Proofs.Load.Same

/-!
# Row scopes of one fingerprint

Row scopes that compare columns with values have one fingerprint exactly if they are the same joins
of comparisons that have one fingerprint each.  So what is known of single comparisons of one
fingerprint is known of all such row scopes: `Predicate.Comparing.onePrint`.
-/

namespace TableGraph

theorem forall₂_append {α β : Type} {R : α → β → Prop} {as xs : List α} {bs ys : List β}
    (h : List.Forall₂ R (as ++ xs) (bs ++ ys)) (hlength : as.length = bs.length) :
    List.Forall₂ R as bs ∧ List.Forall₂ R xs ys := by
  induction as generalizing bs with
  | nil =>
    cases bs with
    | nil => exact ⟨.nil, h⟩
    | cons => cases hlength
  | cons a as ih =>
    cases bs with
    | nil => cases hlength
    | cons b bs =>
      obtain ⟨hab, h⟩ := List.forall₂_cons.1 h
      obtain ⟨hs, hxs⟩ := ih h (Nat.succ.inj hlength)
      exact ⟨.cons hab hs, hxs⟩

/-- A text is told from the pattern of it. -/
theorem Pattern.literal_injective {cs ds : List Char} (h : literal cs = literal ds) : cs = ds := by
  unfold literal at h
  induction cs generalizing ds with
  | nil =>
    cases ds with
    | nil => rfl
    | cons d ds =>
      rw [List.flatMap_cons] at h
      split_ifs at h <;> cases h
  | cons c cs ih =>
    cases ds with
    | nil =>
      rw [List.flatMap_cons] at h
      split_ifs at h <;> cases h
    | cons d ds =>
      rw [List.flatMap_cons, List.flatMap_cons] at h
      split_ifs at h with hc hd hd
      · obtain rfl : c = d := List.head_eq_of_cons_eq (List.tail_eq_of_cons_eq h)
        rw [ih (List.append_cancel_left h)]
      · obtain ⟨rfl, -⟩ := List.cons.inj h
        exact absurd (.inl rfl) hd
      · obtain ⟨rfl, -⟩ := List.cons.inj h
        exact absurd (.inl rfl) hc
      · obtain rfl : c = d := List.head_eq_of_cons_eq h
        rw [ih (List.append_cancel_left h)]

/-- Tests that are worded alike and have one list of operands are equal. -/
theorem Test.eq_of_worded {s t : Test Value} (h : s.Worded t) (operands : s.operands = t.operands) :
    s = t := by
  have kinds := h.1
  cases s <;> cases t <;> simp only [kind, compare.injEq, truth.injEq, null.injEq, among.injEq,
    between.injEq, like.injEq, part.injEq, and_true, reduceCtorEq] at kinds
  case among.among =>
    rw [operands_among, operands_among] at operands
    rw [kinds, operands]
  case part.part =>
    have literals := Value.text.inj (List.head_eq_of_cons_eq operands)
    rw [kinds, String.toList_inj.1 (Pattern.literal_injective (String.ofList_injective literals))]
  all_goals simp_all [Test.operands, sql]

theorem Scope.fingerprint_some_same_iff {table : String} {p q : Predicate Value} :
    (Scope.fingerprint table (some p)).same (Scope.fingerprint table (some q)) ↔
      p.words table = q.words table ∧
        List.Forall₂ (fun a b => a.freeze.same b.freeze) (p.operands table) (q.operands table) := by
  rw [Scope.fingerprint_same_iff]
  unfold Predicate.words Predicate.operands
  rw [String.toList_inj]
  rfl

namespace Predicate

variable {Bound : Value → Prop} {table : String}

/-- Comparisons of one column, with values that may be bound, that have one fingerprint. -/
def OnePrint (Bound : Value → Prop) (table column : String) (s t : Test Value) : Prop :=
  (∀ v ∈ s.operands, Bound v) ∧ (∀ v ∈ t.operands, Bound v) ∧
    (Scope.fingerprint table (some (.test column s))).same
      (Scope.fingerprint table (some (.test column t)))

theorem operands_test (column : String) (t : Test Value) :
    operands table (.test column t) = t.operands := t.operands_sql _

theorem words_test_of_worded {column : String} {s t : Test Value} (h : s.Worded t) :
    words table (.test column s) = words table (.test column t) := by
  show (s.sql (columnText table column)).text.toList =
    (t.sql (columnText table column)).text.toList
  rw [Test.text_eq, Test.text_eq, h.1, h.2]

/-- Operands of one fingerprint that both may be bound. -/
def SameBound (Bound : Value → Prop) (v w : Value) : Prop := 
  Bound v ∧ Bound w ∧ v.freeze.same w.freeze

theorem sameBound_iff {vs ws : List Value} : List.Forall₂ (SameBound Bound) vs ws ↔
    (∀ v ∈ vs, Bound v) ∧ (∀ w ∈ ws, Bound w) ∧
      List.Forall₂ (fun v w => v.freeze.same w.freeze) vs ws := by
  constructor
  · intro h
    induction h with
    | nil => exact ⟨nofun, nofun, .nil⟩
    | cons hvw _ ih =>
      exact ⟨List.forall_mem_cons.2 ⟨hvw.1, ih.1⟩, List.forall_mem_cons.2 ⟨hvw.2.1, ih.2.1⟩,
        .cons hvw.2.2 ih.2.2⟩
  · rintro ⟨hvs, hws, h⟩
    induction h with
    | nil => exact .nil
    | cons hvw _ ih =>
      rw [List.forall_mem_cons] at hvs hws
      exact .cons ⟨hvs.1, hws.1, hvw⟩ (ih hvs.2 hws.2)

theorem onePrint_of_sameBound {column : String} {s t : Test Value} (h : s.Worded t)
    (same : List.Forall₂ (SameBound Bound) s.operands t.operands) :
    OnePrint Bound table column s t := by
  obtain ⟨hs, ht, same⟩ := sameBound_iff.1 same
  refine ⟨hs, ht, Scope.fingerprint_some_same_iff.2 ⟨words_test_of_worded h, ?_⟩⟩
  rw [operands_test, operands_test]
  exact same

/-- Comparisons of one fingerprint are equal, if the values that may be bound are told apart. -/
theorem OnePrint.eq (told : ∀ v w, Bound v → Bound w → v.freeze.same w.freeze → v = w)
    {column : String} {s t : Test Value} (h : OnePrint Bound table column s t) : s = t := by
  obtain ⟨hs, ht, same⟩ := h
  obtain ⟨text, same⟩ := Scope.fingerprint_some_same_iff.1 same
  rw [operands_test, operands_test] at same
  have operands : List.Forall₂ Eq s.operands t.operands :=
    (sameBound_iff.2 ⟨hs, ht, same⟩).imp fun v w h => told v w h.1 h.2.1 h.2.2
  rw [List.forall₂_eq_eq_eq] at operands
  cases Comparing.test.reads .test text with
  | test worded => exact Test.eq_of_worded worded operands

mutual

/-- The operands of conditions that read alike belong to their tests, and the rest is left. -/
theorem Alike.onePrint {p q : Predicate Value} (h : Reads p q) {xs ys : List Value}
    (same : List.Forall₂ (SameBound Bound) (operands table p ++ xs) (operands table q ++ ys)) :
    Alike (OnePrint Bound table) Eq p q ∧ List.Forall₂ (SameBound Bound) xs ys := by
  match p with
  | .always =>
    cases h
    exact ⟨.always, same⟩
  | .tautology =>
    cases h
    exact ⟨.tautology, same⟩
  | .test column s =>
    cases h with
    | test worded =>
      rw [operands_test, operands_test] at same
      obtain ⟨own, rest⟩ := forall₂_append same worded.2
      exact ⟨.test (onePrint_of_sameBound worded own), rest⟩
  | .expression e =>
    cases h with
    | expression equal =>
      subst equal
      exact ⟨.expression rfl, (forall₂_append same rfl).2⟩
  | .all ps =>
    cases h with
    | all parts =>
      rw [operands_all, operands_all] at same
      exact (Alike.onePrints parts same).imp_left .all
  | .any ps =>
    cases h with
    | any parts =>
      rw [operands_any, operands_any] at same
      exact (Alike.onePrints parts same).imp_left .any
termination_by structural p

theorem Alike.onePrints {ps qs : List (Predicate Value)} (h : List.Forall₂ Reads ps qs)
    {xs ys : List Value} (same : List.Forall₂ (SameBound Bound)
      (ps.flatMap (operands table) ++ xs) (qs.flatMap (operands table) ++ ys)) :
    List.Forall₂ (Alike (OnePrint Bound table) Eq) ps qs ∧
      List.Forall₂ (SameBound Bound) xs ys := by
  match ps with
  | [] =>
    cases h
    exact ⟨.nil, same⟩
  | p :: ps =>
    cases h with
    | cons hp hps =>
      rw [List.flatMap_cons, List.flatMap_cons, List.append_assoc, List.append_assoc] at same
      obtain ⟨first, same⟩ := Alike.onePrint hp same
      obtain ⟨rest, same⟩ := Alike.onePrints hps same
      exact ⟨.cons first rest, same⟩
termination_by structural ps

end

/-- The condition compares columns with values that may be bound. -/
structure Binds (Bound : Value → Prop) (table : String) (p : Predicate Value) : Prop where
  comparing : p.Comparing
  bound : ∀ v ∈ p.operands table, Bound v

theorem binds_test {column : String} {t : Test Value} (h : ∀ v ∈ t.operands, Bound v) :
    Binds Bound table (.test column t) := ⟨.test, by rwa [operands_test]⟩

/-- Row scopes of one fingerprint are the same joins of comparisons of one fingerprint each. -/
theorem Binds.onePrint {p q : Predicate Value} (hp : Binds Bound table p)
    (hq : Binds Bound table q)
    (h : (Scope.fingerprint table (some p)).same (Scope.fingerprint table (some q))) :
    Alike (OnePrint Bound table) Eq p q := by
  obtain ⟨text, same⟩ := Scope.fingerprint_some_same_iff.1 h
  have operands :
      List.Forall₂ (SameBound Bound) (p.operands table ++ []) (q.operands table ++ []) := by
    rw [List.append_nil, List.append_nil]
    exact sameBound_iff.2 ⟨hp.bound, hq.bound, same⟩
  exact (Alike.onePrint (hp.comparing.reads hq.comparing text) operands).1

end Predicate

end TableGraph
