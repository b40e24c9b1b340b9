import Mathlib
import TableGraph.Graph.Measure

/-!
# What the measure of an operation counts

The selections of an operation stand for a tree of fields: fragments are put in their place, and
what is inside a fragment that is being put in its place already is left out.  The depth of the
operation is the greatest length of a chain of fields inside one another, its complexity the number
of all fields, however often a fragment is used.

Main statement: `measure_tree`.  The tree exists and is the only one, the measure is that of the
tree, and it stays the same where fragments of a document without cycles are written out.
-/

namespace TableGraph.Graph

/-! ## Trees of fields -/

/-- A field with the fields inside it. -/
inductive FieldTree
  | field (name : String) (inside : List FieldTree)

namespace FieldTree

/-- The names of fields inside one another, the outermost first. -/
inductive Chain : List FieldTree → List String → Prop
  | nil {ts : List FieldTree} : Chain ts []
  | cons {ts inside : List FieldTree} {name : String} {names : List String}
      (here : field name inside ∈ ts) (further : Chain inside names) : Chain ts (name :: names)

mutual

/-- The names of the field and of all fields inside it. -/
def names : FieldTree → List String
  | field name inside => name :: allNames inside
termination_by structural t => t

/-- The names of all fields of several trees. -/
def allNames : List FieldTree → List String
  | [] => []
  | t :: ts => names t ++ allNames ts
termination_by structural ts => ts

end

/-- The measure is made of the longest chain of fields and of the number of fields. -/
structure Measured (ts : List FieldTree) (m : Measure) : Prop where
  depth : IsGreatest {n | ∃ chain, Chain ts chain ∧ chain.length = n} m.depth
  count : m.count = (allNames ts).length

variable {ts us : List FieldTree} {name : String} {chain : List String} {m n : Measure}

theorem chain_append : Chain (ts ++ us) chain ↔ Chain ts chain ∨ Chain us chain := by
  cases chain with
  | nil => exact iff_of_true .nil (.inl .nil)
  | cons name names =>
    constructor
    · rintro (_ | ⟨here, further⟩)
      exact (List.mem_append.1 here).imp (.cons · further) (.cons · further)
    · rintro ((_ | ⟨here, further⟩) | (_ | ⟨here, further⟩))
      · exact .cons (List.mem_append_left us here) further
      · exact .cons (List.mem_append_right ts here) further

theorem allNames_append : allNames (ts ++ us) = allNames ts ++ allNames us := by
  induction ts with
  | nil => rfl
  | cons t ts ih =>
    show names t ++ allNames (ts ++ us) = names t ++ allNames ts ++ allNames us
    rw [ih, List.append_assoc]

theorem measured_nil : Measured [] .zero where
  depth := by
    refine ⟨⟨[], .nil, rfl⟩, ?_⟩
    rintro n ⟨chain, _ | ⟨here, -⟩, rfl⟩
    · exact le_rfl
    · cases here
  count := rfl

/-- What stands side by side is as deep as the deeper part. -/
theorem Measured.append (hts : Measured ts m) (hus : Measured us n) :
    Measured (ts ++ us) (m.beside n) where
  depth := by
    have union : {n | ∃ chain, Chain (ts ++ us) chain ∧ chain.length = n} =
        {n | ∃ chain, Chain ts chain ∧ chain.length = n} ∪
          {n | ∃ chain, Chain us chain ∧ chain.length = n} := by
      ext n
      simp only [chain_append, or_and_right, exists_or, Set.mem_ofPred_eq, Set.mem_union]
    rw [union]
    exact hts.depth.union hus.depth
  count := by
    rw [allNames_append, List.length_append, ← hts.count, ← hus.count]
    rfl

/-- A field adds one to every chain inside it. -/
theorem Measured.field (h : Measured ts m) : Measured [.field name ts] m.around where
  depth := by
    obtain ⟨⟨chain, hchain, hlength⟩, longest⟩ := h.depth
    refine ⟨⟨name :: chain, .cons (List.mem_singleton_self _) hchain, congrArg (· + 1) hlength⟩, ?_⟩
    rintro _ ⟨_, _ | ⟨here, further⟩, rfl⟩
    · exact Nat.zero_le _
    · cases List.mem_singleton.1 here
      exact Nat.succ_le_succ (longest ⟨_, further, rfl⟩)
  count := by
    show m.count + 1 = (name :: (allNames ts ++ [])).length
    rw [List.append_nil, List.length_cons, h.count]

theorem Measured.unique (h : Measured ts m) (h' : Measured ts n) : m = n := by
  obtain ⟨depth, count⟩ := m
  obtain ⟨depth', count'⟩ := n
  exact congrArg₂ Measure.mk (h.depth.unique h'.depth) (h.count.trans h'.count.symm)

end FieldTree

/-! ## Trees of selections -/

section Trees

variable {d : Document} {path : List String} {ss ss' : List Selection} {ts us : List FieldTree}

/-- The selections stand for the trees, inside the fragments of a path.  Fields of the language
itself are left out with all that is inside them. -/
inductive Unfolds (d : Document) : List String → List Selection → List FieldTree → Prop
  | nil {path : List String} : Unfolds d path [] []
  | field {path : List String} {label : Option String} {name : String}
      {arguments : List (String × Literal)} {directives : List Directive}
      {inner ss : List Selection} {inside ts : List FieldTree} (own : "__".isPrefixOf name = false)
      (below : Unfolds d path inner inside) (beside : Unfolds d path ss ts) :
      Unfolds d path (.field label name arguments directives inner :: ss) (.field name inside :: ts)
  | hidden {path : List String} {label : Option String} {name : String}
      {arguments : List (String × Literal)} {directives : List Directive}
      {inner ss : List Selection} {ts : List FieldTree} (language : "__".isPrefixOf name = true)
      (beside : Unfolds d path ss ts) :
      Unfolds d path (.field label name arguments directives inner :: ss) ts
  | inline {path : List String} {on : Option String} {directives : List Directive}
      {inner ss : List Selection} {inside ts : List FieldTree} (below : Unfolds d path inner inside)
      (beside : Unfolds d path ss ts) :
      Unfolds d path (.inline on directives inner :: ss) (inside ++ ts)
  | spread {path : List String} {name : String} {directives : List Directive}
      {f : FragmentDefinition} {ss : List Selection} {inside ts : List FieldTree}
      (found : d.fragment? name = some f) (fresh : name ∉ path)
      (below : Unfolds d (name :: path) f.selections inside) (beside : Unfolds d path ss ts) :
      Unfolds d path (.spread name directives :: ss) (inside ++ ts)
  | skipped {path : List String} {name : String} {directives : List Directive}
      {ss : List Selection} {ts : List FieldTree} (idle : d.fragment? name = none ∨ name ∈ path)
      (beside : Unfolds d path ss ts) : Unfolds d path (.spread name directives :: ss) ts

/-- Selections stand for one tree only. -/
theorem Unfolds.unique (h : Unfolds d path ss ts) (h' : Unfolds d path ss us) : us = ts := by
  induction h generalizing us with
  | nil =>
    cases h'
    rfl
  | field own _ _ below beside =>
    cases h' with
    | field _ below' beside' => rw [below below', beside beside']
    | hidden language => exact absurd language (Bool.eq_false_iff.1 own)
  | hidden language _ beside =>
    cases h' with
    | field own => exact absurd language (Bool.eq_false_iff.1 own)
    | hidden _ beside' => exact beside beside'
  | inline _ _ below beside =>
    cases h' with
    | inline below' beside' => rw [below below', beside beside']
  | spread found fresh _ _ below beside =>
    cases h' with
    | spread found' _ below' beside' =>
      cases found.symm.trans found'
      rw [below below', beside beside']
    | skipped idle =>
      rcases idle with absent | repeated
      · cases found.symm.trans absent
      · exact absurd repeated fresh
  | skipped idle _ beside =>
    cases h' with
    | spread found fresh =>
      rcases idle with absent | repeated
      · cases found.symm.trans absent
      · exact absurd repeated fresh
    | skipped _ beside' => exact beside beside'

/-- The fragments outside a path. -/
def Document.remaining (d : Document) (path : List String) : List FragmentDefinition :=
  d.fragments.filter fun f => f.name ∉ path

theorem find?_remaining (name : String) : Fragments.find? (d.remaining path) name =
    if name ∈ path then none else d.fragment? name := by
  unfold Fragments.find? Document.remaining Document.fragment?
  rw [← List.filter_reverse, List.find?_filter]
  split_ifs with repeated
  · rw [List.find?_eq_none]
    rintro f - h
    simp only [decide_not, Bool.not_eq_true', decide_eq_false_iff_not, decide_eq_true_eq] at h
    exact h.1 (h.2 ▸ repeated)
  · congr 1
    funext f
    by_cases h : f.name = name <;> simp [h, repeated]

theorem others_remaining (name : String) :
    Fragments.others (d.remaining path) name = d.remaining (name :: path) := by
  unfold Fragments.others Document.remaining
  rw [List.filter_filter]
  congr 1
  funext f
  simp [not_or]

namespace Measure

theorem ofSelection_spread (fragments : List FragmentDefinition) (name : String)
    (directives : List Directive) : ofSelection fragments (.spread name directives) =
      match Fragments.find? fragments name with
      | none => zero
      | some f => ofSelections (Fragments.others fragments name) f.selections := by
  rw [ofSelection]
  split <;> simp_all

end Measure

open Graph.Measure FieldTree in
/-- Selections stand for a tree, and their measure is that of the tree. -/
theorem exists_unfolds (d : Document) (path : List String) (ss : List Selection) :
    ∃ ts, Unfolds d path ss ts ∧ Measured ts (ofSelections (d.remaining path) ss) := by
  match ss with
  | [] =>
    rw [ofSelections]
    exact ⟨[], .nil, measured_nil⟩
  | .field label name arguments directives inner :: ss =>
    obtain ⟨ts, hts, measured⟩ := exists_unfolds d path ss
    rw [ofSelections, ofSelection]
    by_cases language : "__".isPrefixOf name = true
    · rw [if_pos language]
      exact ⟨ts, .hidden language hts, measured_nil.append measured⟩
    · obtain ⟨inside, hinside, measured'⟩ := exists_unfolds d path inner
      rw [if_neg language]
      exact ⟨.field name inside :: ts, .field (Bool.eq_false_iff.2 language) hinside hts,
        measured'.field.append measured⟩
  | .inline on directives inner :: ss =>
    obtain ⟨ts, hts, measured⟩ := exists_unfolds d path ss
    obtain ⟨inside, hinside, measured'⟩ := exists_unfolds d path inner
    rw [ofSelections, ofSelection]
    exact ⟨inside ++ ts, .inline hinside hts, measured'.append measured⟩
  | .spread name directives :: ss =>
    obtain ⟨ts, hts, measured⟩ := exists_unfolds d path ss
    rw [ofSelections, ofSelection_spread]
    have skips : d.fragment? name = none ∨ name ∈ path → ∃ us, Unfolds d path
        (.spread name directives :: ss) us ∧
          Measured us (zero.beside (ofSelections (d.remaining path) ss)) :=
      fun idle => ⟨ts, .skipped idle hts, measured_nil.append measured⟩
    cases hfind : Fragments.find? (d.remaining path) name with
    | none =>
      rw [find?_remaining] at hfind
      split_ifs at hfind with repeated
      · exact skips (.inr repeated)
      · exact skips (.inl hfind)
    | some f =>
      have shorter : (d.remaining (name :: path)).length < (d.remaining path).length :=
        others_remaining (d := d) name ▸ Fragments.length_others_lt hfind
      rw [find?_remaining] at hfind
      split_ifs at hfind with repeated
      dsimp only
      rw [others_remaining]
      obtain ⟨inside, hinside, measured'⟩ := exists_unfolds d (name :: path) f.selections
      exact ⟨inside ++ ts, .spread hfind repeated hinside hts, measured'.append measured⟩
termination_by ((d.remaining path).length, sizeOf ss)

end Trees

/-! ## Fragments that are written out -/

/-- A fragment uses another one. -/
def Document.Uses (d : Document) (a b : String) : Prop :=
  ∃ f, d.fragment? a = some f ∧ b ∈ Selection.spreadsOfAll f.selections

/-- No fragment uses itself, directly or through others. -/
def Document.Acyclic (d : Document) : Prop := ∀ a, ¬ Relation.TransGen d.Uses a a

/-- The second selections are the first with some uses of fragments, in them or in these fragments,
replaced by the selections of the fragments. -/
inductive WritesOut (d : Document) : List Selection → List Selection → Prop
  | nil : WritesOut d [] []
  | field {label : Option String} {name : String} {arguments : List (String × Literal)}
      {directives : List Directive} {inner inner' ss ss' : List Selection}
      (below : WritesOut d inner inner') (beside : WritesOut d ss ss') :
      WritesOut d (.field label name arguments directives inner :: ss)
        (.field label name arguments directives inner' :: ss')
  | inline {on : Option String} {directives : List Directive} {inner inner' ss ss' : List Selection}
      (below : WritesOut d inner inner') (beside : WritesOut d ss ss') :
      WritesOut d (.inline on directives inner :: ss) (.inline on directives inner' :: ss')
  | kept {name : String} {directives : List Directive} {ss ss' : List Selection}
      (beside : WritesOut d ss ss') :
      WritesOut d (.spread name directives :: ss) (.spread name directives :: ss')
  | replaced {name : String} {on : Option String} {directives directives' : List Directive}
      {f : FragmentDefinition} {inner ss ss' : List Selection} (found : d.fragment? name = some f)
      (below : WritesOut d f.selections inner) (beside : WritesOut d ss ss') :
      WritesOut d (.spread name directives :: ss) (.inline on directives' inner :: ss')

/-- The second definition is the first with some uses of fragments written out. -/
inductive Rewrites (d : Document) : Definition → Definition → Prop
  | operation {o : OperationDefinition} {ss : List Selection} (h : WritesOut d o.selections ss) :
      Rewrites d (.operation o) (.operation { o with selections := ss })
  | fragment {f : FragmentDefinition} {ss : List Selection} (h : WritesOut d f.selections ss) :
      Rewrites d (.fragment f) (.fragment { f with selections := ss })

section Written

variable {d d' : Document} {path path' : List String} {ss ss' : List Selection}
  {ts : List FieldTree}

open Relation Selection

theorem mem_spreadsOfAll {name : String} {directives : List Directive} :
    name ∈ spreadsOfAll (.spread name directives :: ss) :=
  List.mem_append_left _ (List.mem_singleton_self name)

/-- Written out, selections use what fragments that they used use. -/
theorem WritesOut.exists_use (h : WritesOut d ss ss') :
    ∀ b ∈ spreadsOfAll ss', ∃ a ∈ spreadsOfAll ss, ReflTransGen d.Uses a b := by
  have both {xs xs' ys ys' : List String} (hx : ∀ b ∈ xs', ∃ a ∈ xs, ReflTransGen d.Uses a b)
      (hy : ∀ b ∈ ys', ∃ a ∈ ys, ReflTransGen d.Uses a b) :
      ∀ b ∈ xs' ++ ys', ∃ a ∈ xs ++ ys, ReflTransGen d.Uses a b := by
    rw [List.forall_mem_append]
    exact ⟨fun b hb => (hx b hb).imp fun a ⟨ha, uses⟩ => ⟨List.mem_append_left _ ha, uses⟩,
      fun b hb => (hy b hb).imp fun a ⟨ha, uses⟩ => ⟨List.mem_append_right _ ha, uses⟩⟩
  induction h with
  | nil => exact nofun
  | field _ _ below beside => exact both below beside
  | inline _ _ below beside => exact both below beside
  | @kept name _ _ _ _ beside =>
    exact both (List.forall_mem_singleton.2 ⟨name, List.mem_singleton_self name, .refl⟩) beside
  | @replaced name _ _ _ f _ _ _ found _ _ below beside =>
    have within : ∀ b ∈ spreadsOfAll _, ∃ a ∈ [name], ReflTransGen d.Uses a b := fun b hb => by
      obtain ⟨a, ha, uses⟩ := below b hb
      exact ⟨name, List.mem_singleton_self name, .head ⟨f, found, ha⟩ uses⟩
    exact both within beside

/-- Every fragment of the document is found in the rewritten one, with its uses written out. -/
theorem fragment?_rewritten (rewrites : List.Forall₂ (Rewrites d) d d') (name : String) :
    Option.Rel (fun f f' => WritesOut d f.selections f'.selections) (d.fragment? name)
      (d'.fragment? name) := by
  have fragments : List.Forall₂ (fun f f' : FragmentDefinition => f'.name = f.name ∧
      WritesOut d f.selections f'.selections) d.fragments d'.fragments := by
    refine List.rel_filterMap (fun x x' hx => ?_) rewrites
    cases hx with
    | operation => exact .none
    | fragment h => exact .some ⟨rfl, h⟩
  unfold Document.fragment?
  replace fragments := List.rel_reverse fragments
  generalize d.fragments.reverse = fs at fragments ⊢
  generalize d'.fragments.reverse = fs' at fragments ⊢
  induction fragments with
  | nil => exact .none
  | cons h _ ih =>
    rw [List.find?_cons, List.find?_cons, h.1]
    split
    · exact .some h.2
    · exact ih

/-- Every fragment of a path uses what the selections use. -/
def Leading (d : Document) (path : List String) (ss : List Selection) : Prop :=
  ∀ a ∈ path, ∀ b ∈ spreadsOfAll ss, TransGen d.Uses a b

theorem Leading.mono (h : Leading d path ss) (hss : spreadsOfAll ss' ⊆ spreadsOfAll ss) :
    Leading d path ss' := fun a ha b hb => h a ha b (hss hb)

/-- A path goes on with a fragment that the selections use. -/
theorem Leading.cons {name : String} (h : Leading d path ss) (hname : name ∈ spreadsOfAll ss)
    (uses : ∀ b ∈ spreadsOfAll ss', TransGen d.Uses name b) : Leading d (name :: path) ss' := by
  intro a ha b hb
  rcases List.mem_cons.1 ha with rfl | ha
  · exact uses b hb
  · exact (h a ha name hname).trans (uses b hb)

/-- Without cycles no use of a fragment is left out because of the path. -/
theorem Leading.not_mem {name : String} (acyclic : d.Acyclic) (h : Leading d path ss)
    (hname : name ∈ spreadsOfAll ss) : name ∉ path :=
  fun repeated => acyclic name (h name repeated name hname)

/-- Written out, selections of a document without cycles stand for the same tree, in whatever
fragments they are. -/
theorem Unfolds.writesOut (acyclic : d.Acyclic) (rewrites : List.Forall₂ (Rewrites d) d d')
    (h : Unfolds d path ss ts) (own : Leading d path ss) (written : WritesOut d ss ss')
    (leading : Leading d path' ss') : Unfolds d' path' ss' ts := by
  have left {xs ys : List String} : xs ⊆ xs ++ ys := List.subset_append_left xs ys
  have right {xs ys : List String} : ys ⊆ xs ++ ys := List.subset_append_right xs ys
  induction h generalizing path' ss' with
  | nil =>
    cases written
    exact .nil
  | field visible _ _ below beside =>
    cases written with
    | field inner rest =>
      exact .field visible (below (own.mono left) inner (leading.mono left))
        (beside (own.mono right) rest (leading.mono right))
  | hidden language _ beside =>
    cases written with
    | field inner rest => exact .hidden language (beside (own.mono right) rest (leading.mono right))
  | inline _ _ below beside =>
    cases written with
    | inline inner rest =>
      exact .inline (below (own.mono left) inner (leading.mono left))
        (beside (own.mono right) rest (leading.mono right))
  | @spread path name _ f _ _ _ found _ _ _ below beside =>
    have used : ∀ b ∈ spreadsOfAll f.selections, TransGen d.Uses name b :=
      fun b hb => .single ⟨f, found, hb⟩
    have inside := own.cons mem_spreadsOfAll used
    cases written with
    | kept rest =>
      have rewritten := fragment?_rewritten rewrites name
      rw [found] at rewritten
      generalize hfind : d'.fragment? name = found' at rewritten
      cases rewritten with
      | @some _ f' inner =>
        have used' : ∀ b ∈ spreadsOfAll f'.selections, TransGen d.Uses name b := by
          intro b hb
          obtain ⟨a, ha, uses⟩ := inner.exists_use b hb
          exact (used a ha).trans_left uses
        exact .spread hfind (leading.not_mem acyclic mem_spreadsOfAll)
          (below inside inner (leading.cons mem_spreadsOfAll used'))
          (beside (own.mono right) rest (leading.mono right))
    | replaced found' inner rest =>
      cases found.symm.trans found'
      exact .inline (below inside inner (leading.mono left))
        (beside (own.mono right) rest (leading.mono right))
  | @skipped path name _ _ _ idle _ beside =>
    have absent : d.fragment? name = none :=
      idle.resolve_right (own.not_mem acyclic mem_spreadsOfAll)
    cases written with
    | kept rest =>
      have rewritten := fragment?_rewritten rewrites name
      rw [absent] at rewritten
      generalize hfind : d'.fragment? name = found' at rewritten
      cases rewritten
      exact .skipped (.inl hfind) (beside (own.mono right) rest (leading.mono right))
    | replaced found => cases absent.symm.trans found

end Written

/-! ## Operations -/

/-- The measure of an operation is that of the only tree of fields it stands for.  If no fragment of
the document uses itself, fragments may be written out wherever they are used. -/
theorem measure_tree (d : Document) (o : OperationDefinition) :
    (∃ ts, (∀ us, Unfolds d [] o.selections us ↔ us = ts) ∧
      FieldTree.Measured ts (d.measure o)) ∧
    (d.Acyclic → ∀ d', List.Forall₂ (Rewrites d) d d' → ∀ ss, WritesOut d o.selections ss →
      Document.measure d' { o with selections := ss } = d.measure o) := by
  have all : ∀ d : Document, d.remaining [] = d.fragments := fun d =>
    List.filter_eq_self.2 fun _ _ => by simp
  have tree : ∀ (d : Document) (o : OperationDefinition),
      ∃ ts, Unfolds d [] o.selections ts ∧ FieldTree.Measured ts (d.measure o) := by
    intro d o
    obtain ⟨ts, hts, measured⟩ := exists_unfolds d [] o.selections
    rw [all] at measured
    exact ⟨ts, hts, measured⟩
  have nowhere : ∀ {ss}, Leading d [] ss := fun _ ha => absurd ha List.not_mem_nil
  obtain ⟨ts, hts, measured⟩ := tree d o
  refine ⟨⟨ts, fun us => ⟨hts.unique, fun h => h ▸ hts⟩, measured⟩, ?_⟩
  intro acyclic d' rewrites ss written
  obtain ⟨us, hus, measured'⟩ := tree d' { o with selections := ss }
  obtain rfl : us = ts := (hts.writesOut acyclic rewrites nowhere written nowhere).unique hus
  exact measured'.unique measured

section Books

/-- The title of a book, and what it is. -/
def bookFragment : FragmentDefinition :=
  ⟨"Book", "Book", [], [.field none "title" [] [] [], .field none "__typename" [] [] []]⟩

/-- The books of a shelf. -/
def shelfFragment (inside : Selection) : FragmentDefinition :=
  ⟨"Shelf", "Shelf", [], [.field none "books" [] [] [inside]]⟩

/-- A query for a shelf and its label. -/
def shelfQuery (inside : Selection) : OperationDefinition :=
  ⟨.query, none, [], [], [.field none "shelf" [] [] [inside, .field none "label" [] [] []]]⟩

/-- A query with the fragments of shelves and books. -/
def shelves (query : OperationDefinition) (shelf : FragmentDefinition) : Document :=
  [.operation query, .fragment shelf, .fragment bookFragment]

/-- A shelf with its books, as fragments that are used and written out. -/
def shelfSpread : Selection := .spread "Shelf" []
def bookSpread : Selection := .spread "Book" []
def bookInline : Selection := .inline none [] bookFragment.selections
def shelfInline : Selection := .inline (some "Shelf") [] (shelfFragment bookInline).selections

theorem acyclic_shelves :
    (shelves (shelfQuery shelfSpread) (shelfFragment bookSpread)).Acyclic := by
  have uses : ∀ a b, (shelves (shelfQuery shelfSpread) (shelfFragment bookSpread)).Uses a b →
      a = "Shelf" ∧ b = "Book" := by
    rintro a b ⟨f, found, hb⟩
    have hf : f ∈ [bookFragment, shelfFragment bookSpread] := List.mem_of_find?_eq_some found
    have named : f.name = a := by simpa using List.find?_some found
    rw [List.mem_cons, List.mem_singleton] at hf
    rcases hf with rfl | rfl
    · cases hb
    · exact ⟨named.symm, List.mem_singleton.1 hb⟩
  intro a cycle
  obtain ⟨b, first, -⟩ := Relation.TransGen.head'_iff.1 cycle
  obtain ⟨c, -, last⟩ := Relation.TransGen.tail'_iff.1 cycle
  have same : "Shelf" = "Book" := (uses a b first).1.symm.trans (uses c a last).2
  exact absurd same (by decide)

/-- The fragments of a shelf and of its books are written out, each where it is used. -/
theorem measure_tree_shelves :
    (shelves (shelfQuery shelfSpread) (shelfFragment bookSpread)).Acyclic ∧
      (shelves (shelfQuery shelfInline) (shelfFragment bookInline)).measure
        (shelfQuery shelfInline) = ⟨3, 4⟩ := by
  have book : WritesOut (shelves (shelfQuery shelfSpread) (shelfFragment bookSpread))
      (shelfFragment bookSpread).selections (shelfFragment bookInline).selections :=
    .field (.replaced rfl (.field .nil (.field .nil .nil)) .nil) .nil
  have shelf : WritesOut (shelves (shelfQuery shelfSpread) (shelfFragment bookSpread))
      (shelfQuery shelfSpread).selections (shelfQuery shelfInline).selections :=
    .field (.replaced rfl book (.field .nil .nil)) .nil
  have kept : WritesOut (shelves (shelfQuery shelfSpread) (shelfFragment bookSpread))
      bookFragment.selections bookFragment.selections := .field .nil (.field .nil .nil)
  have same := (measure_tree _ (shelfQuery shelfSpread)).2 acyclic_shelves _
    (.cons (.operation shelf) (.cons (.fragment book) (.cons (.fragment kept) .nil))) _ shelf
  exact ⟨acyclic_shelves, same.trans (by cbv)⟩

/-- What is inside a fragment that is inside itself is left out. -/
example : (shelves (shelfQuery shelfSpread) (shelfFragment shelfSpread)).measure
    (shelfQuery shelfSpread) = ⟨2, 3⟩ := by cbv

end Books

end TableGraph.Graph
