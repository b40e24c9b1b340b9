import TableGraph.Order
import TableGraph.Proofs.Outcome

/-!
# Orders that clients send

Clients order by columns that have a field; an order that is completed by a key has the columns of
the key as well.
-/

namespace TableGraph.Order

theorem field_of_ofValue {p : Projection} {v : Value} {written : Option (List String)}
    {orders : List Order} (h : ofValue p v written = .ok orders) :
    ∀ o ∈ orders, ∃ f ∈ p.fields, f.column.name = o.column ∧ f.column.type.isOrderable := by
  have keys : ∀ (fields : List (String × Value)) (names : List String) (orders : List Order),
      ofKeys p fields names = .ok orders →
      ∀ o ∈ orders, ∃ f ∈ p.fields, f.column.name = o.column ∧ f.column.type.isOrderable := by
    intro fields names
    induction names with
    | nil =>
      intro orders h
      cases h
      exact nofun
    | cons name names ih =>
      intro orders h
      unfold ofKeys at h
      split at h
      next => exact ih orders h
      next =>
        split at h
        next => cases h
        next f hf =>
          obtain ⟨rest, hrest, h⟩ := bind_eq_ok.1 h
          cases h
          have hmem := List.mem_filter.1 (List.mem_of_find?_eq_some hf)
          rw [List.forall_mem_cons]
          exact ⟨⟨f, hmem.1, rfl, hmem.2⟩, ih rest hrest⟩
  unfold ofValue at h
  split at h
  next => exact keys _ _ orders h
  next =>
    split_ifs at h
    cases h
    exact nofun

theorem mem_withKey {given : List Order} {key : List String} :
    ∀ o ∈ withKey given key, o ∈ given ∨ o.column ∈ key := by
  intro o ho
  rcases List.mem_append.1 ho with ho | ho
  · exact .inl ho
  · obtain ⟨k, hk, rfl⟩ := List.mem_map.1 ho
    exact .inr (List.mem_filter.1 hk).1

/-- An order that is completed by the key has all its columns. -/
theorem exists_of_mem_key {given : List Order} {key : List String} :
    ∀ k ∈ key, ∃ o ∈ withKey given key, o.column = k := by
  intro k hk
  by_cases hgiven : ∃ o ∈ given, o.column = k
  · obtain ⟨o, ho, hok⟩ := hgiven
    exact ⟨o, List.mem_append_left _ ho, hok⟩
  · refine ⟨⟨k, false⟩, List.mem_append_right _ (List.mem_map_of_mem ?_), rfl⟩
    have other : ¬ (given.map (·.column)).contains k = true := fun h =>
      hgiven (List.mem_map.1 (List.contains_iff_mem.1 h))
    exact List.mem_filter.2 ⟨hk, by simpa using other⟩

end TableGraph.Order
