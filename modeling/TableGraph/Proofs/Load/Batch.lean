import TableGraph.Proofs.Load.Plain
import TableGraph.Sample.Notes

/-!
# Right batches

Main statement: `batch_iff`.  A batch gives each of its keys what a statement of its own would find,
with one statement for each group, exactly if it tells the rows of each key; it does for plain keys.
Whole numbers and decimals in one batch are one part of a key but not of one type, so that the
statement fails that is bound by the type of the first.
-/

namespace TableGraph.Load

section Batch

variable {s : Store} {keys : List LoadKey} (hself : ∀ k ∈ keys, k.group.same k.group)
  (hjunction : ∀ k ∈ keys, ∀ j, k.group.junction = some j → j.table ≠ k.group.target)
  (hcondition : ∀ k ∈ keys, ∀ l ∈ keys, k.group.same l.group →
    ∀ t, s.table k.group.target = .ok t →
      t.matching (k.group.condition.getD .always) = t.matching (l.group.condition.getD .always))
  (hread : ∀ t ∈ s.tables, ∀ r ∈ t.rows, ∃ record, t.read r = .ok record)
  (halone : ∀ k ∈ keys, ∃ rows, alone s k = .ok rows)
include hself hjunction hcondition hread halone

/--
Whatever part of the rows is there, a batch of keys that are answered one by one is right, exactly
if it tells the rows of each key.  It tells the rows of plain keys.
-/
theorem batch_iff :
    ((∀ keep, Separately (s.keeping keep) keys) ↔ ∀ k ∈ keys, Tells s keys k) ∧
      (Plain s keys → ∀ k ∈ keys, Tells s keys k) :=
  ⟨separately_iff_tells hself hjunction hcondition hread halone, tells_of_plain hread⟩

end Batch

section Notes

open Sample.Notes

/-- Notes are looked for by their numbers. -/
def byNumber (values : List Value) : LoadKey :=
  ⟨values, ⟨"note", ["id"], none, .null, .null, [], none⟩⟩

/-- Two notes. -/
def twoNotes : Store := store [note 1 1 (.int 7), note 2 1 (.int 5)]

/-- Values that are searched for in the order in which they come. -/
def numbers : List LoadKey := [[.int 2], [.int 1], [.null], [.int 2]].map byNumber

theorem plain_numbers : Plain twoNotes numbers := by
  have held : ∀ n : Int, Cell.holds n → SqlType.Plain .integer (.int n) := fun n hn => .whole rfl hn
  intro k hk u hu
  obtain ⟨values, hvalues, rfl⟩ := List.mem_map.1 hk
  cases hu
  refine ⟨fun hnull => ?_, ?_⟩
  · have plain : ∀ n : Int, Cell.holds n →
        PlainKey (table [note 1 1 (.int 7), note 2 1 (.int 5)]) ["id"] [.int n] :=
      fun n hn => .cons ⟨.integer, rfl, held n hn⟩ .nil
    simp only [List.mem_cons, List.not_mem_nil, or_false] at hvalues
    rcases hvalues with rfl | rfl | rfl | rfl
    · exact plain 2 rfl
    · exact plain 1 rfl
    · cases hnull
    · exact plain 2 rfl
  · have row : ∀ n : Int, Cell.holds n → ∀ price,
        PlainRow (table [note 1 1 (.int 7), note 2 1 (.int 5)]) ["id"] (note n 1 price) := by
      intro n hn price c hc
      rw [List.mem_singleton.1 hc]
      exact ⟨.integer, rfl, Or.inr ⟨.int n, held n hn, rfl⟩⟩
    exact List.forall_mem_cons.2 ⟨row 1 rfl _, List.forall_mem_singleton.2 (row 2 rfl _)⟩

/-- Numbers are told apart, with a null and one that comes twice, and if only one note is there. -/
theorem batch_iff_notes : Separately twoNotes numbers ∧
    Separately (twoNotes.keeping fun _ r => r.get "id" = .int 1) numbers := by
  have shape : ∀ k ∈ numbers, k.group = (byNumber []).group := by
    intro k hk
    obtain ⟨values, -, rfl⟩ := List.mem_map.1 hk
    rfl
  have answered : (numbers.all fun k => (alone twoNotes k).isOk) = true := by decide +kernel
  have h := @batch_iff twoNotes numbers ?_ ?_ ?_ ?_ fun k hk =>
    exists_of_isOk (List.all_eq_true.1 answered k hk)
  · have right := h.1.2 (h.2 plain_numbers)
    exact ⟨right fun _ _ => true, right _⟩
  · intro k hk
    rw [shape k hk]
    rfl
  · intro k hk j hj
    rw [shape k hk] at hj
    cases hj
  · intro k hk l hl _ t _
    rw [shape k hk, shape l hl]
  · intro t ht r hr
    rw [List.mem_singleton.1 ht] at hr ⊢
    revert r
    exact List.forall_mem_cons.2 ⟨⟨_, rfl⟩, List.forall_mem_singleton.2 ⟨_, rfl⟩⟩

/-- A whole number and a decimal are answered one by one, but not together. -/
theorem batch_mixed :
    (Identity.ofValue (.decimal (.finite false 2 0))).same (.ofValue (.int 2)) ∧
      (∃ rows, [byNumber [.int 1], byNumber [.decimal (.finite false 2 0)]].mapM
        (alone twoNotes) = .ok rows ∧ rows.map List.length = [1, 1]) ∧
      ¬ Separately twoNotes [byNumber [.int 1], byNumber [.decimal (.finite false 2 0)]] := by
  refine ⟨by decide, ⟨_, by with_unfolding_all rfl, rfl⟩, ?_⟩
  have failed : ((many twoNotes [byNumber [.int 1],
      byNumber [.decimal (.finite false 2 0)]]).run 0).isOk = false := by decide +kernel
  rintro ⟨rows, -, hrun⟩
  rw [(hrun 0).1] at failed
  cases failed

end Notes

end TableGraph.Load
