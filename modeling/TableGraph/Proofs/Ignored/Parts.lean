import TableGraph.Proofs.Ignored.Loads
import TableGraph.Proofs.Scope.Answer

/-!
# Parts of answers side by side

Two parts of an answer are alike if they fail alike, are done with related results, or wait for the
same loads and go on alike whatever is loaded for them, as long as that differs in one column at
most.  What parts are put together with keeps this; run on two states of a store, parts that are
alike end alike.
-/

namespace TableGraph.Answer

open TableGraph.Graph

variable {spot : Spot} {α β γ δ : Type} {R : α → β → Prop} {S : γ → δ → Prop}

/-! ## Reports -/

namespace Report

/-- Both reports note the same failures, and fail with one failure or have related results. -/
structure Alike (R : α → β → Prop) (r : Report α) (r' : Report β) : Prop where
  result : Both R r.result r'.result
  noted : r.noted = r'.noted

theorem Alike.refl {R : α → α → Prop} (h : ∀ a, R a a) (r : Report α) : r.Alike R r :=
  ⟨.refl h r.result, rfl⟩

theorem alike_ofValue {a : α} {b : β} (h : R a b) : (ofValue a).Alike R (ofValue b) :=
  ⟨.ok h, rfl⟩

theorem alike_ofExcept (path : Path) {x : Except Fault α} {y : Except Fault β} (h : Both R x y) :
    (ofExcept path x).Alike R (ofExcept path y) := by
  cases h with
  | ok related => exact alike_ofValue related
  | error f => exact ⟨.error _, rfl⟩

theorem Alike.bind {r : Report α} {r' : Report β} (h : r.Alike R r') {f : α → Report γ}
    {g : β → Report δ} (hfg : ∀ a b, R a b → (f a).Alike S (g b)) :
    (r.bind f).Alike S (r'.bind g) := by
  obtain ⟨x, noted⟩ := r
  obtain ⟨y, noted'⟩ := r'
  obtain ⟨result, same⟩ := h
  dsimp only at same result
  subst same
  cases result with
  | error e => exact ⟨.error e, rfl⟩
  | ok related =>
    obtain ⟨result, same⟩ := hfg _ _ related
    exact ⟨result, congrArg (noted ++ ·) same⟩

theorem Alike.settle {r : Report α} {r' : Report β} (h : r.Alike R r') {a : α} {b : β}
    (hnull : R a b) (nullable : Bool) :
    (r.settle nullable a).Alike R (r'.settle nullable b) := by
  obtain ⟨x, noted⟩ := r
  obtain ⟨y, noted'⟩ := r'
  obtain ⟨result, same⟩ := h
  dsimp only at same result
  subst same
  cases result with
  | error e =>
    cases nullable with
    | false => exact ⟨.error e, rfl⟩
    | true => exact ⟨.ok hnull, rfl⟩
  | ok related => cases nullable <;> exact ⟨.ok related, rfl⟩

theorem Alike.eq {r r' : Report α} (h : r.Alike Eq r') : r = r' := by
  obtain ⟨x, noted⟩ := r
  obtain ⟨y, noted'⟩ := r'
  obtain ⟨result, same⟩ := h
  dsimp only at same result
  rw [result.eq, same]

end Report

/-! ## Parts that wait for rows -/

namespace Fetch

/-- Both are done with related results, or both wait for the same loads and go on alike. -/
inductive Alike (spot : Spot) {α β : Type} (R : α → β → Prop) : Fetch α → Fetch β → Prop
  | done {a : α} {b : β} (related : R a b) : Alike spot R (done a) (done b)
  | waiting {loads : List Load} {resume : Loaded → Fetch α} {resume' : Loaded → Fetch β}
    (clear : ∀ r ∈ loads, r.key.group.Clear spot)
    (later : ∀ l l', Loaded.Alike spot l l' → Alike spot R (resume l) (resume' l')) :
    Alike spot R (waiting loads resume) (waiting loads resume')

theorem Alike.map {x : Fetch α} {y : Fetch β} (h : x.Alike spot R y) {f : α → γ} {g : β → δ}
    (hfg : ∀ a b, R a b → S (f a) (g b)) : (x.map f).Alike spot S (y.map g) := by
  induction h with
  | done related => exact .done (hfg _ _ related)
  | waiting clear _ ih => exact .waiting clear ih

theorem Alike.bind {x : Fetch α} {y : Fetch β} (h : x.Alike spot R y) {f : α → Fetch γ}
    {g : β → Fetch δ} (hfg : ∀ a b, R a b → (f a).Alike spot S (g b)) :
    (x.bind f).Alike spot S (y.bind g) := by
  induction h with
  | done related => exact hfg _ _ related
  | waiting clear _ ih => exact .waiting clear ih

/-- A load gives counterparts, unless it fails in both runs. -/
theorem load_alike {l l' : Loaded} (h : l.Alike spot l') {r : Load}
    (clear : r.key.group.Clear spot) :
    (load l r).Alike spot (fun x x' =>
      Both (List.Forall₂ (Record.Alike spot r.key.group.target)) x.1 x'.1 ∧ x.2.Alike spot x'.2)
      (load l' r) := by
  have found := h.find? r
  unfold load
  generalize l.find? r = x, l'.find? r = x' at found
  cases found with
  | none =>
    exact .waiting (List.forall_mem_singleton.2 clear) fun m m' related =>
      .done ⟨related.get r, related⟩
  | some related => exact .done ⟨related, h⟩

section Reports

variable {x x' : Fetch (Report α)} {y y' : Fetch (Report β)}

theorem noted_alike (h : x.Alike spot Eq x') : x.noted = x'.noted := by
  cases h with
  | done related => rw [related]
  | waiting => rfl

theorem Alike.alongside (hx : x.Alike spot Eq x') (hy : y.Alike spot Eq y') :
    (x.alongside y).Alike spot Eq (x'.alongside y') := by
  induction hx generalizing y y' with
  | @done r r' related =>
    subst related
    unfold Fetch.alongside
    split
    · rw [noted_alike hy]
      exact .done rfl
    · exact hy.map fun s s' same => by rw [same]
  | waiting clear _ ih =>
    cases hy with
    | @done s s' related =>
      subst related
      unfold Fetch.alongside
      split
      · exact .done rfl
      · exact .waiting clear fun l l' loaded => ih l l' loaded (.done rfl)
    | waiting clear' later' =>
      exact .waiting (List.forall_mem_append.2 ⟨clear, clear'⟩) fun l l' loaded =>
        ih l l' loaded (later' l l' loaded)

theorem together_alike {xs xs' : List (Fetch (Report α))}
    (h : List.Forall₂ (Alike spot Eq) xs xs') : (together xs).Alike spot Eq (together xs') := by
  induction h with
  | nil => exact .done rfl
  | cons own _ ih => exact (own.alongside ih).map fun r r' same => by rw [same]

end Reports

/-- Parts that are alike end alike, with as many statements. -/
theorem run_alike {s s' : Store} (stores : s.Alike spot s') {x : Fetch α} {y : Fetch β}
    (h : x.Alike spot R y) {l l' : Loaded} (loaded : l.Alike spot l') (n : Nat) :
    R (x.run s l n).1 (y.run s' l' n).1 ∧
      (x.run s l n).2.1.Alike spot (y.run s' l' n).2.1 ∧
      (x.run s l n).2.2 = (y.run s' l' n).2.2 := by
  induction h generalizing l l' n with
  | done related => exact ⟨related, loaded, rfl⟩
  | waiting clear _ ih =>
    obtain ⟨more, count⟩ := makeLoads_alike (n := n) stores loaded clear
    unfold Fetch.run
    dsimp only
    rw [← count]
    exact ih _ _ more more _

end Fetch

/-! ## Parts -/

/-- Parts that are known alike and show the same. -/
abbrev Part.Alike (spot : Spot) (p p' : Part α) : Prop := Report.Alike (Fetch.Alike spot Eq) p p'

theorem Part.alike_failed (f : Fault) (path : Path) :
    Part.Alike spot (.failed f path : Part α) (.failed f path) := ⟨.error _, rfl⟩

theorem Part.alike_known (a : α) : Part.Alike spot (.known a) (.known a) :=
  Report.alike_ofValue (.done rfl)

theorem Part.Alike.settle {p p' : Part Value} (h : Part.Alike spot p p') (nullable : Bool) :
    Part.Alike spot (p.settle nullable) (p'.settle nullable) := by
  have inner : Report.Alike (Fetch.Alike spot Eq)
      ⟨p.result.map fun x => x.map (Report.settle nullable .null), p.noted⟩
      ⟨p'.result.map fun x => x.map (Report.settle nullable .null), p'.noted⟩ :=
    ⟨h.result.map fun x x' related => related.map fun r r' same => by rw [same], h.noted⟩
  exact inner.settle (Fetch.Alike.done rfl) nullable

theorem checkNull_alike (path : Path) {x x' : Fetch (Report Value)} (h : x.Alike spot Eq x') :
    Part.Alike spot (checkNull path x) (checkNull path x') := by
  cases h with
  | @done r r' related =>
    subst related
    unfold checkNull
    split
    · exact ⟨.error _, rfl⟩
    · exact Report.alike_ofValue (.done rfl)
  | waiting clear later => exact Report.alike_ofValue (.waiting clear later)

theorem showLeaf_alike (s : TypeSystem) (type : String) (v : Value) (path : Path) :
    Part.Alike spot ((Report.ofExcept path (showLeaf s type v)).bind Part.known)
      ((Report.ofExcept path (showLeaf s type v)).bind Part.known) := by
  refine (Report.Alike.refl (fun _ => rfl) _).bind ?_
  rintro shown _ rfl
  exact Part.alike_known shown

theorem showObject_alike (refusal : Option Fault) (path : Path)
    {fields fields' : Report (List (Fetch (Report (String × Value))))}
    (h : fields.Alike (List.Forall₂ (Fetch.Alike spot Eq)) fields') :
    Part.Alike spot (showObject refusal path fields) (showObject refusal path fields') := by
  unfold showObject
  cases refusal with
  | some f => exact Part.alike_failed f path
  | none =>
    exact h.bind fun parts parts' related => Report.alike_ofValue
      ((Fetch.together_alike related).map fun r r' same => by rw [same])

theorem afterwards_alike {p p' : Part Value} (h : Part.Alike spot p p') :
    (afterwards p).Alike spot Eq (afterwards p') := by
  obtain ⟨x, noted⟩ := p
  obtain ⟨y, noted'⟩ := p'
  obtain ⟨result, same⟩ := h
  dsimp only at same result
  subst same
  cases result with
  | error e => exact .done rfl
  | ok related => exact related.map fun r r' same => by rw [same]

end TableGraph.Answer
