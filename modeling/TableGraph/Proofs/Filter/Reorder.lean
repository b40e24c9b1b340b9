import Mathlib.Logic.Relation
import TableGraph.Proofs.Filter.Flat
import TableGraph.Proofs.Filter.OneType
import TableGraph.Proofs.Filter.Reading
import TableGraph.Sample.Filtered

/-!
# Trees in another order

`Filter.Rearranges` puts the entries of an object, the operators of a field, the subtrees under
`and` or `or`, or the operands of a list in another order, anywhere in a tree.  The operands of a
list must be of one type.  The bounds of a range stay where they are.

Main statement: `Filter.compile_keeps_meaning`.  The condition of a tree holds of the rows on which
the tree reads true, and so does the condition of every tree that is the same but for its order.
-/

namespace TableGraph

namespace Filter

/-! ## Rearranged trees -/

/-- Lists and tuples. -/
inductive Sequence : (List Value → Value) → Prop
  | list : Sequence .list
  | tuple : Sequence .tuple

/-- The operands of an operator of a field are of one type when they are decoded. -/
def OperandsOfOneType (codec : Codec) (p : Projection) (name operator : String)
    (vs : List Value) : Prop :=
  ∀ f ds, (p.filterFields.find? fun f => f.name = name) = some f →
    vs.mapM (decode codec f (f.path ++ "." ++ operator)) = .ok ds → OneType ds

/-- Something within an entry of a tree is in another order. -/
inductive Shuffles (codec : Codec) (p : Projection) (name : String) : Value → Value → Prop
  | subtrees {seq : List Value → Value} {us us' : List Value} (hname : name = "and" ∨ name = "or")
    (hseq : Sequence seq) (h : us.Perm us') : Shuffles codec p name (seq us) (seq us')
  | operators {sent sent' : List (String × Value)} (hname : name ≠ "and" ∧ name ≠ "or")
    (h : sent.Perm sent') : Shuffles codec p name (.object sent) (.object sent')
  | operands {before after : List (String × Value)} {operator : String}
    {seq : List Value → Value} {vs vs' : List Value} (hname : name ≠ "and" ∧ name ≠ "or")
    (hoperator : operator = "isIn" ∨ operator = "isNotIn") (hseq : Sequence seq)
    (h : vs.Perm vs') (hone : OperandsOfOneType codec p name operator vs) :
    Shuffles codec p name (.object (before ++ (operator, seq vs) :: after))
      (.object (before ++ (operator, seq vs') :: after))

/-- Something within a tree is in another order. -/
inductive Rearranges (codec : Codec) (p : Projection) : Value → Value → Prop
  | fields {fields fields' : List (String × Value)} (h : fields.Perm fields') :
    Rearranges codec p (.object fields) (.object fields')
  | entry {before after : List (String × Value)} {name : String} {v v' : Value}
    (h : Shuffles codec p name v v') : Rearranges codec p
      (.object (before ++ (name, v) :: after)) (.object (before ++ (name, v') :: after))
  | subtree {before after : List (String × Value)} {name : String} {seq : List Value → Value}
    {left right : List Value} {u u' : Value} (hname : name = "and" ∨ name = "or")
    (hseq : Sequence seq) (h : Rearranges codec p u u') : Rearranges codec p
      (.object (before ++ (name, seq (left ++ u :: right)) :: after))
      (.object (before ++ (name, seq (left ++ u' :: right)) :: after))

variable {codec : Codec} {p : Projection} {t : Table} {r : Row}

namespace Sequence

variable {seq : List Value → Value} (hseq : Sequence seq) {us : List Value}
include hseq

theorem subtreesOf_eq : subtreesOf (seq us) = us := by
  cases hseq <;> rfl

theorem subtrees_eq : subtrees codec p (seq us) = us.mapM (conjuncts codec p) := by
  rw [← branches_eq]
  cases hseq <;> rfl

theorem decodeList_eq {f : ColumnField} {path : String} :
    decodeList codec f path (seq us) = us.mapM (decode codec f path) := by
  cases hseq <;> rfl

end Sequence

/-! ## Reading rearranged trees -/

theorem exists_decodeList_of_perm {f : ColumnField} {path : String} {seq : List Value → Value}
    (hseq : Sequence seq) {vs vs' : List Value} (h : vs.Perm vs')
    (hone : ∀ ds, vs.mapM (decode codec f path) = .ok ds → OneType ds) {ds : List Value}
    (hds : decodeList codec f path (seq vs) = .ok ds) :
    ∃ ds', decodeList codec f path (seq vs') = .ok ds' ∧ ds.Perm ds' ∧
      ∀ type : SqlType, type.ComparesAmong ds = type.ComparesAmong ds' := by
  rw [hseq.decodeList_eq] at hds
  obtain ⟨ds', hds', hperm⟩ := exists_perm_of_mapM h hds
  exact ⟨ds', hseq.decodeList_eq.trans hds', hperm, fun type =>
    SqlType.comparesAmong_of_perm (hone ds hds) hperm⟩

theorem asks_of_perm {f : ColumnField} {path : String} {type : SqlType} {c : Cell} {o : Operator}
    (ho : o = .isIn ∨ o = .isNotIn) {seq : List Value → Value} (hseq : Sequence seq)
    {vs vs' : List Value} (h : vs.Perm vs')
    (hone : ∀ ds, vs.mapM (decode codec f path) = .ok ds → OneType ds)
    (asks : Asks codec f path type c (seq vs) o) : Asks codec f path type c (seq vs') o := by
  rcases ho with rfl | rfl
  · obtain ⟨ds, hds, d, hd, hc⟩ := asks
    obtain ⟨ds', hds', hperm, same⟩ := exists_decodeList_of_perm hseq h hone hds
    exact ⟨ds', hds', d, hperm.mem_iff.1 hd, same type ▸ hc⟩
  · obtain ⟨ds, hds, hc⟩ := asks
    obtain ⟨ds', hds', hperm, same⟩ := exists_decodeList_of_perm hseq h hone hds
    exact ⟨ds', hds', fun d hd => same type ▸ hc d (hperm.mem_iff.2 hd)⟩

theorem OperandsOfOneType.of_perm {name operator : String} {vs vs' : List Value}
    (hone : OperandsOfOneType codec p name operator vs) (h : vs.Perm vs') :
    OperandsOfOneType codec p name operator vs' := by
  intro f ds' hf hds'
  obtain ⟨ds, hds, hperm⟩ := exists_perm_of_mapM h.symm hds'
  exact (hone f ds hf hds).of_perm hperm.symm

theorem eq_isIn_or_of_ofName? {operator : String} (h : operator = "isIn" ∨ operator = "isNotIn")
    {o : Operator} (ho : Operator.ofName? operator = some o) : o = .isIn ∨ o = .isNotIn := by
  rcases h with rfl | rfl
  · exact .inl (Option.some.inj (ho.symm.trans (Operator.ofName?_name .isIn)))
  · exact .inr (Option.some.inj (ho.symm.trans (Operator.ofName?_name .isNotIn)))

/-- Operands in another order ask for the same cells. -/
theorem fieldReads_iff_of_perm {before after : List (String × Value)} {name operator : String}
    {seq : List Value → Value} {vs vs' : List Value}
    (hoperator : operator = "isIn" ∨ operator = "isNotIn") (hseq : Sequence seq)
    (h : vs.Perm vs') (hone : OperandsOfOneType codec p name operator vs) :
    FieldReads codec p t r name (.object (before ++ (operator, seq vs) :: after)) ↔
      FieldReads codec p t r name (.object (before ++ (operator, seq vs') :: after)) := by
  unfold FieldReads
  refine exists_congr fun f => and_congr_right fun hf => ?_
  rw [List.forall_mem_append, List.forall_mem_append, List.forall_mem_cons, List.forall_mem_cons]
  refine and_congr_right fun _ => and_congr_left fun _ => ?_
  refine exists_congr fun o => exists_congr fun type => and_congr_right fun ho =>
    and_congr_right fun _ => ?_
  have hset := eq_isIn_or_of_ofName? hoperator ho
  exact ⟨asks_of_perm hset hseq h (hone f · hf),
    asks_of_perm hset hseq h.symm (hone.of_perm h f · hf)⟩

theorem entryReads_congr {name : String} (hname : name = "and" ∨ name = "or") {v v' : Value}
    (every : (∀ u ∈ subtreesOf v, Reads codec p t r u) ↔ ∀ u ∈ subtreesOf v', Reads codec p t r u)
    (one : (∃ u ∈ subtreesOf v, Reads codec p t r u) ↔ ∃ u ∈ subtreesOf v', Reads codec p t r u)
    (none : subtreesOf v = [] ↔ subtreesOf v' = []) :
    EntryReads codec p t r name v ↔ EntryReads codec p t r name v' := by
  rcases hname with rfl | rfl
  · rw [entryReads_and_iff, entryReads_and_iff, every]
  · rw [entryReads_or_iff, entryReads_or_iff, one, none]

theorem Shuffles.entryReads_iff {name : String} {v v' : Value} (h : Shuffles codec p name v v') :
    EntryReads codec p t r name v ↔ EntryReads codec p t r name v' := by
  cases h with
  | @subtrees seq us us' hname hseq h =>
    refine entryReads_congr hname ?_ ?_ ?_
    all_goals rw [hseq.subtreesOf_eq, hseq.subtreesOf_eq]
    · exact forall_congr' fun u => imp_congr_left h.mem_iff
    · exact exists_congr fun u => and_congr_left fun _ => h.mem_iff
    · rw [← List.isEmpty_iff, ← List.isEmpty_iff, h.isEmpty_eq]
  | operators hname h =>
    rw [entryReads_field_iff hname.1 hname.2, entryReads_field_iff hname.1 hname.2]
    exact exists_congr fun f => and_congr_right fun _ =>
      forall_congr' fun e => imp_congr_left h.mem_iff
  | operands hname hoperator hseq h hone =>
    rw [entryReads_field_iff hname.1 hname.2, entryReads_field_iff hname.1 hname.2]
    exact fieldReads_iff_of_perm hoperator hseq h hone

theorem reads_congr {before after : List (String × Value)} {name : String} {v v' : Value}
    (h : EntryReads codec p t r name v ↔ EntryReads codec p t r name v') :
    Reads codec p t r (.object (before ++ (name, v) :: after)) ↔
      Reads codec p t r (.object (before ++ (name, v') :: after)) := by
  rw [reads_object_iff, reads_object_iff, List.forall_mem_append, List.forall_mem_append,
    List.forall_mem_cons, List.forall_mem_cons, h]

/-- A tree in another order reads true on the same rows. -/
theorem Rearranges.reads_iff {v v' : Value} (h : Rearranges codec p v v') :
    Reads codec p t r v ↔ Reads codec p t r v' := by
  induction h with
  | fields h =>
    rw [reads_object_iff, reads_object_iff]
    exact forall_congr' fun e => imp_congr_left h.mem_iff
  | entry h => exact reads_congr h.entryReads_iff
  | subtree hname hseq _ ih =>
    refine reads_congr (entryReads_congr hname ?_ ?_ ?_)
    all_goals rw [hseq.subtreesOf_eq, hseq.subtreesOf_eq]
    · rw [List.forall_mem_append, List.forall_mem_append, List.forall_mem_cons,
        List.forall_mem_cons, ih]
    · simp only [List.mem_append, List.mem_cons, or_and_right, exists_or, exists_eq_left, ih]
    · simp

/-! ## Compiling rearranged trees -/

/-- The conditions ask for nothing. -/
def Void (fs : List Filter) : Prop := ∀ f ∈ fs, f.predicate.isAlways

/-- The second conditions ask for nothing exactly if the first do, and a table that takes the
operands of the first takes theirs.  The first part is needed for the second: a disjunction takes no
operands if one of its branches asks for nothing. -/
structure Keeps (t : Table) (fs gs : List Filter) : Prop where
  void : Void fs ↔ Void gs
  bound : Bound t fs → Bound t gs

namespace Keeps

variable {fs gs fs' gs' : List Filter}

theorem refl (fs : List Filter) : Keeps t fs fs := ⟨.rfl, id⟩

theorem of_perm (h : fs.Perm gs) : Keeps t fs gs :=
  ⟨forall_congr' fun _ => imp_congr_left h.mem_iff, fun hb f hf => hb f (h.mem_iff.2 hf)⟩

theorem append (h : Keeps t fs gs) (h' : Keeps t fs' gs') : Keeps t (fs ++ fs') (gs ++ gs') := by
  constructor
  · unfold Void
    rw [List.forall_mem_append, List.forall_mem_append]
    exact and_congr h.void h'.void
  · unfold Bound
    rw [List.forall_mem_append, List.forall_mem_append]
    exact And.imp h.bound h'.bound

/-- Conditions among others. -/
theorem among (h : Keeps t fs gs) (before after : List Filter) :
    Keeps t (before ++ fs ++ after) (before ++ gs ++ after) :=
  ((refl before).append h).append (refl after)

theorem all (h : Keeps t fs gs) : Keeps t [.all fs] [.all gs] := by
  constructor
  · unfold Void
    rw [List.forall_mem_singleton, List.forall_mem_singleton, isAlways_all, isAlways_all]
    exact h.void
  · unfold Bound
    rw [List.forall_mem_singleton, List.forall_mem_singleton, exists_bind_all_iff,
      exists_bind_all_iff]
    exact h.bound

end Keeps

/-- A disjunction can be bound if one of its trees asks for nothing or all can be bound. -/
theorem exists_bind_any_iff {trees : List (List Filter)} :
    (∃ q, t.bind (Filter.any (trees.map .all)).predicate = .ok q) ↔
      (∃ tree ∈ trees, Void tree) ∨ Bound t (trees.map .all) := by
  constructor
  · intro h
    refine (bound_of_any h).symm.imp ?_ fun hbound => ?_
    · rintro ⟨tree, htree, halways⟩
      exact ⟨tree, htree, isAlways_all.1 (halways ▸ rfl)⟩
    · exact List.forall_mem_map.2 fun tree htree => exists_bind_all_iff.2 (hbound tree htree)
  · rintro (⟨tree, htree, hvoid⟩ | hbound)
    · refine ⟨.tautology, ?_⟩
      show t.bind (.anyOf (predicates (trees.map .all))) = _
      rw [predicates_eq_map]
      unfold Predicate.anyOf
      rw [if_pos (List.any_eq_true.2 ⟨_, List.mem_map_of_mem (List.mem_map_of_mem htree),
        isAlways_all.2 hvoid⟩)]
      rfl
    · obtain ⟨qs, hqs⟩ := mapM_of_forall hbound
      refine ⟨.anyOf qs, ?_⟩
      show t.bind (.anyOf (predicates (trees.map .all))) = _
      rw [predicates_eq_map]
      exact Predicate.mapM_anyOf (by rwa [List.mapM_map])

/-- Trees side by side keep what they ask together, under `and` as under `or`. -/
structure KeepsEach (t : Table) (trees trees' : List (List Filter)) : Prop where
  all : Keeps t (trees.map .all) (trees'.map .all)
  one : (∃ tree ∈ trees, Void tree) → ∃ tree ∈ trees', Void tree
  none : trees.isEmpty = trees'.isEmpty

namespace KeepsEach

variable {trees trees' : List (List Filter)}

theorem of_perm (h : trees.Perm trees') : KeepsEach t trees trees' where
  all := .of_perm (h.map _)
  one := fun ⟨tree, htree, hvoid⟩ => ⟨tree, h.mem_iff.1 htree, hvoid⟩
  none := h.isEmpty_eq

/-- One tree in the place of another. -/
theorem of_keeps {tree tree' : List Filter} (h : Keeps t tree tree')
    (before after : List (List Filter)) :
    KeepsEach t (before ++ tree :: after) (before ++ tree' :: after) where
  all := by
    simpa using h.all.among (before.map .all) (after.map .all)
  one := by
    rintro ⟨other, hother, hvoid⟩
    rw [List.mem_append, List.mem_cons] at hother
    rcases hother with hbefore | rfl | hafter
    · exact ⟨other, List.mem_append_left _ hbefore, hvoid⟩
    · exact ⟨tree', List.mem_append_right _ List.mem_cons_self, h.void.1 hvoid⟩
    · exact ⟨other, List.mem_append_right _ (List.mem_cons_of_mem _ hafter), hvoid⟩
  none := by cases before <;> rfl

theorem any (h : KeepsEach t trees trees') :
    Keeps t [.any (trees.map .all)] [.any (trees'.map .all)] := by
  constructor
  · unfold Void
    rw [List.forall_mem_singleton, List.forall_mem_singleton, isAlways_any, isAlways_any]
  · unfold Bound
    rw [List.forall_mem_singleton, List.forall_mem_singleton, exists_bind_any_iff,
      exists_bind_any_iff]
    exact Or.imp h.one h.all.bound

end KeepsEach

/-- The subtrees of an entry are compiled one by one. -/
theorem entry_keeps_of_subtrees {name : String} (hname : name = "and" ∨ name = "or")
    {v v' : Value} {own : List Filter}
    (h : ∀ trees, subtrees codec p v = .ok trees →
      ∃ trees', subtrees codec p v' = .ok trees' ∧ KeepsEach t trees trees')
    (hown : entry codec p name v = .ok own) :
    ∃ own', entry codec p name v' = .ok own' ∧ Keeps t own own' := by
  rcases hname with rfl | rfl
  · obtain ⟨trees, htrees, rfl⟩ := map_eq_ok.1 hown
    obtain ⟨trees', htrees', hkeeps⟩ := h trees htrees
    exact ⟨_, map_eq_ok.2 ⟨trees', htrees', rfl⟩, hkeeps.all⟩
  · obtain ⟨trees, htrees, rfl⟩ := map_eq_ok.1 hown
    obtain ⟨trees', htrees', hkeeps⟩ := h trees htrees
    refine ⟨_, map_eq_ok.2 ⟨trees', htrees', rfl⟩, ?_⟩
    rw [hkeeps.none]
    split_ifs
    · exact .refl []
    · exact hkeeps.any

/-- Operands in another order are compiled, and taken by the tables that took them before. -/
theorem operatorTest_keeps {f : ColumnField} {filter : ColumnFilter} {operator : String}
    (hoperator : operator = "isIn" ∨ operator = "isNotIn") {seq : List Value → Value}
    (hseq : Sequence seq) {vs vs' : List Value} (h : vs.Perm vs')
    (hone : ∀ ds, vs.mapM (decode codec f (f.path ++ "." ++ operator)) = .ok ds → OneType ds)
    {g : Filter} (hg : operatorTest codec f filter operator (seq vs) = .ok g) :
    ∃ g', operatorTest codec f filter operator (seq vs') = .ok g' ∧ Keeps t [g] [g'] := by
  obtain ⟨o, test, ho, htest, rfl⟩ := operatorTest_eq_ok hg
  obtain ⟨negated, set⟩ : ∃ negated, ∀ us,
      columnTest codec f (f.path ++ "." ++ operator) o (seq us) =
        .among negated <$> us.mapM (decode codec f (f.path ++ "." ++ operator)) := by
    rcases eq_isIn_or_of_ofName? hoperator (ofName?_of_operatorOf ho) with rfl | rfl
    · exact ⟨false, fun us => congrArg (Test.among false <$> ·) hseq.decodeList_eq⟩
    · exact ⟨true, fun us => congrArg (Test.among true <$> ·) hseq.decodeList_eq⟩
  rw [set] at htest
  obtain ⟨ds, hds, rfl⟩ := map_eq_ok.1 htest
  obtain ⟨ds', hds', hperm⟩ := exists_perm_of_mapM h hds
  -- The same test of the decoded operands, which are in another order as well.
  refine ⟨.test f.column.name (.among negated ds'), ?_, ?_, ?_⟩
  · unfold operatorTest
    rw [ho]
    exact bind_eq_ok.2 ⟨o, rfl, bind_eq_ok.2
      ⟨_, (set vs').trans (map_eq_ok.2 ⟨ds', hds', rfl⟩), rfl⟩⟩
  · simp [Void, predicate, Predicate.isAlways]
  · unfold Bound
    rw [List.forall_mem_singleton, List.forall_mem_singleton]
    rintro ⟨_, hb⟩
    obtain ⟨q, hq, -⟩ := map_eq_ok.1 hb
    obtain ⟨type, htype, hq⟩ := bind_eq_ok.1 hq
    obtain ⟨q', hq'⟩ := SqlType.exists_bind_among_of_perm (hone ds hds) hperm ⟨q, hq⟩
    exact ⟨_, map_eq_ok.2 ⟨q', bind_eq_ok.2 ⟨type, htype, hq'⟩, rfl⟩⟩

theorem Shuffles.entry_keeps {name : String} {v v' : Value} (h : Shuffles codec p name v v')
    {own : List Filter} (hown : entry codec p name v = .ok own) :
    ∃ own', entry codec p name v' = .ok own' ∧ Keeps t own own' := by
  cases h with
  | subtrees hname hseq h =>
    refine entry_keeps_of_subtrees hname (fun trees htrees => ?_) hown
    rw [hseq.subtrees_eq] at htrees
    obtain ⟨trees', htrees', hperm⟩ := exists_perm_of_mapM h htrees
    exact ⟨trees', hseq.subtrees_eq.trans htrees', .of_perm hperm⟩
  | operators hname h =>
    obtain ⟨f, filter, -, each⟩ := exists_entry_eq hname hown
    rw [each] at hown ⊢
    obtain ⟨own', hown', hperm⟩ := exists_perm_of_mapM h hown
    exact ⟨own', hown', .of_perm hperm⟩
  | operands hname hoperator hseq h hone =>
    obtain ⟨f, filter, hf, each⟩ := exists_entry_eq hname hown
    rw [each] at hown ⊢
    obtain ⟨before, g, after, hg, rfl, hreplace⟩ := mapM_replace hown
    obtain ⟨g', hg', hkeeps⟩ := operatorTest_keeps hoperator hseq h (hone f · hf) hg
    refine ⟨before ++ g' :: after, hreplace (_, _) g' hg', ?_⟩
    simpa using hkeeps.among before after

theorem conjuncts_keeps {before after : List (String × Value)} {name : String} {v v' : Value}
    (h : ∀ own, entry codec p name v = .ok own →
      ∃ own', entry codec p name v' = .ok own' ∧ Keeps t own own')
    {fs : List Filter} (hfs : conjuncts codec p (.object (before ++ (name, v) :: after)) = .ok fs) :
    ∃ gs, conjuncts codec p (.object (before ++ (name, v') :: after)) = .ok gs ∧ Keeps t fs gs := by
  rw [conjuncts_object] at hfs
  obtain ⟨owns, howns, rfl⟩ := map_eq_ok.1 hfs
  obtain ⟨first, own, last, hown, rfl, hreplace⟩ := mapM_replace howns
  obtain ⟨own', hown', hkeeps⟩ := h own hown
  refine ⟨(first ++ own' :: last).flatten, ?_, ?_⟩
  · rw [conjuncts_object]
    exact map_eq_ok.2 ⟨_, hreplace (name, v') own' hown', rfl⟩
  · simpa using hkeeps.among first.flatten last.flatten

/-- A tree in another order is compiled, and a table that takes its operands takes them again. -/
theorem Rearranges.conjuncts_keeps {v v' : Value} (h : Rearranges codec p v v') {fs : List Filter}
    (hfs : conjuncts codec p v = .ok fs) :
    ∃ gs, conjuncts codec p v' = .ok gs ∧ Keeps t fs gs := by
  induction h generalizing fs with
  | fields h =>
    rw [conjuncts_object] at hfs ⊢
    obtain ⟨owns, howns, rfl⟩ := map_eq_ok.1 hfs
    obtain ⟨owns', howns', hperm⟩ := exists_perm_of_mapM h howns
    exact ⟨owns'.flatten, map_eq_ok.2 ⟨owns', howns', rfl⟩, .of_perm hperm.flatten⟩
  | entry h => exact Filter.conjuncts_keeps (fun own hown => h.entry_keeps hown) hfs
  | subtree hname hseq _ ih =>
    refine Filter.conjuncts_keeps (fun own hown => ?_) hfs
    refine entry_keeps_of_subtrees hname (fun trees htrees => ?_) hown
    rw [hseq.subtrees_eq] at htrees
    obtain ⟨before, tree, after, htree, rfl, hreplace⟩ := mapM_replace htrees
    obtain ⟨tree', htree', hkeeps⟩ := ih htree
    exact ⟨_, hseq.subtrees_eq.trans (hreplace _ tree' htree'), .of_keeps hkeeps before after⟩

/-! ## Any number of changes -/

section Run

variable {v v' : Value} (h : Relation.ReflTransGen (Rearranges codec p) v v')
include h

theorem reads_iff_of_rearranged : Reads codec p t r v ↔ Reads codec p t r v' := by
  induction h with
  | refl => exact .rfl
  | tail _ step ih => exact ih.trans step.reads_iff

theorem exists_conjuncts_of_rearranged {fs : List Filter} (hfs : conjuncts codec p v = .ok fs)
    (hb : Bound t fs) : ∃ gs, conjuncts codec p v' = .ok gs ∧ Bound t gs := by
  induction h with
  | refl => exact ⟨fs, hfs, hb⟩
  | tail _ step ih =>
    obtain ⟨gs, hgs, hbound⟩ := ih
    obtain ⟨gs', hgs', hkeeps⟩ := step.conjuncts_keeps hgs
    exact ⟨gs', hgs', hkeeps.bound hbound⟩

end Run

/--
The condition that a tree is compiled to holds of the rows on which the tree reads true.  Trees that
are the same but for their order have conditions too, which hold of the same rows.
-/
theorem compile_keeps_meaning {v : Value} {c : Predicate Value} (h : compile codec p v = .ok c)
    {q : Predicate Cell} (hq : t.bind c = .ok q) :
    (∀ r, q.accepts r ↔ Reads codec p t r v) ∧
      ∀ v', Relation.ReflTransGen (Rearranges codec p) v v' → ∃ c' q',
        compile codec p v' = .ok c' ∧ t.bind c' = .ok q' ∧ ∀ r, q'.accepts r = q.accepts r := by
  have meaning := accepts_iff_reads h hq
  refine ⟨meaning, fun v' hv' => ?_⟩
  obtain ⟨f, hf, rfl⟩ := map_eq_ok.1 h
  obtain ⟨fs, hfs, rfl⟩ := map_eq_ok.1 hf
  obtain ⟨gs, hgs, hbound⟩ := exists_conjuncts_of_rearranged hv' hfs (exists_bind_all_iff.1 ⟨q, hq⟩)
  have compiled : compile codec p v' = .ok (Filter.all gs).predicate :=
    map_eq_ok.2 ⟨_, map_eq_ok.2 ⟨gs, hgs, rfl⟩, rfl⟩
  obtain ⟨q', hq'⟩ := exists_bind_all_iff.2 hbound
  refine ⟨_, q', compiled, hq', fun r => Bool.eq_iff_iff.2 ?_⟩
  rw [accepts_iff_reads compiled hq', meaning]
  exact (reads_iff_of_rearranged hv').symm

end Filter

namespace Filter

open Sample.Forms

/-- Subtrees, and the operands within one of them, in another order. -/
theorem rearranges_tree : Relation.ReflTransGen (Rearranges codec projection) tree rearranged := by
  refine .tail (.single (@Rearranges.subtree codec projection [] [] "or" .list []
    [only "id" "between" (.list [.int 5, .int 9])] _ (only "level" "isIn" (.list [.int 4, .int 2]))
    (.inr rfl) .list ?_)) ?_
  · refine @Rearranges.entry codec projection [] [] "level" _ _ ?_
    refine @Shuffles.operands codec projection "level" [] [] "isIn" .list _ _ (by decide) (.inl rfl)
      .list (.swap _ _ _) fun f ds hf hds => ?_
    cases hf
    exact oneType_of_family rfl rfl hds
  · exact @Rearranges.entry codec projection [] [] "or" _ _
      (@Shuffles.subtrees codec projection "or" .list _ _ (.inr rfl) .list (.swap _ _ _))

/-- The forms of a tree are the forms of the tree in another order. -/
theorem compile_keeps_meaning_tree : ∃ c q, compile codec projection tree = .ok c ∧
    (table []).bind c = .ok q ∧ (∀ r, q.accepts r ↔ Reads codec projection (table []) r tree) ∧
      ∃ c' q', compile codec projection rearranged = .ok c' ∧ (table []).bind c' = .ok q' ∧
        ∀ r, q'.accepts r = q.accepts r := by
  obtain ⟨c, hc⟩ : ∃ c, compile codec projection tree = .ok c := ⟨_, rfl⟩
  obtain ⟨q, hq⟩ : ∃ q, (table []).bind c = .ok q := by
    cases hc
    exact ⟨_, rfl⟩
  obtain ⟨means, order⟩ := compile_keeps_meaning hc hq
  exact ⟨c, q, hc, hq, means, order rearranged rearranges_tree⟩

/-- The bounds of a range are ordered, and so are operands of several types, as the first one says
how all are bound. -/
theorem select_exchanged :
    select (only "id" "between" (.list [.int 2, .int 5])) = .ok [form 3 (.int 2) (.int 7)] ∧
      select (only "id" "between" (.list [.int 5, .int 2])) = .ok [] ∧
      select (only "content" "isIn" (.list [.text "5", .text "true"])) =
        .ok [form 1 .null (.int 5)] ∧
      select (only "content" "isIn" (.list [.text "true", .text "5"])) =
        .error SqlType.unbindable :=
  ⟨rfl, rfl, rfl, rfl⟩

end Filter

end TableGraph
