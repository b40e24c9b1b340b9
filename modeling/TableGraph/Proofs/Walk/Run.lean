import TableGraph.Proofs.Walk.Place

/-!
# Walks

A walk goes through the pages of an entity by their last cursors.  Over rows that keep their places
it ends and shows all of them (`exists_covering_walk`), and if a walk by single rows does so they
keep their places (`keepsPlace_of_walk`).
-/

namespace TableGraph

/-- Pages that follow one another, each behind the last cursor of the one before it, up to one that
no more are behind. -/
inductive Walk (ask : Option String → Counted Connection) :
    Option String → Nat → List Connection → Prop
  | last {after : Option String} {n m : Nat} {page : Connection}
    (h : (ask after).run n = .ok (page, m)) (hnext : page.hasNext = false) :
    Walk ask after n [page]
  | next {after : Option String} {n m : Nat} {page : Connection} {cursor : String}
    {pages : List Connection} (h : (ask after).run n = .ok (page, m))
    (hnext : page.hasNext = true) (hcursor : page.endCursor = some cursor)
    (rest : Walk ask (some cursor) m pages) : Walk ask after n (page :: pages)

/-- The pages show all rows in the order, each of them once, and tell that there are rows before
them unless they are the first. -/
structure Covers (t : Table) (orders : List Order) (rows : List Row) (pages : List Connection) :
    Prop where
  rows : ∃ sorted : List Row, sorted.Perm rows ∧ Table.Ascends orders sorted ∧
    sorted.mapM t.read = .ok (pages.flatMap (·.nodes))
  first : ∀ page, pages.head? = some page → page.hasPrevious = false
  later : ∀ page ∈ pages.tail, page.hasPrevious = true

theorem exists_split_of_forall₂ {α β : Type} {R : α → β → Prop} {xs zs : List α} {x : α}
    {ys : List β} (hxy : List.Forall₂ R (xs ++ x :: zs) ys) :
    ∃ front y rest, ys = front ++ y :: rest ∧ R x y ∧ front.length = xs.length := by
  induction xs generalizing ys with
  | nil =>
    obtain ⟨y, rest, hy, -, rfl⟩ := List.forall₂_cons_left_iff.1 hxy
    exact ⟨[], y, rest, rfl, hy, rfl⟩
  | cons _ xs ih =>
    obtain ⟨z, rest, -, hrest, rfl⟩ := List.forall₂_cons_left_iff.1 hxy
    obtain ⟨front, y, behind, rfl, hy, hlen⟩ := ih hrest
    exact ⟨z :: front, y, behind, rfl, hy, congrArg (· + 1) hlen⟩

namespace Walkable

variable {codec : Codec} {s : Store} {p : Projection} {enumerations : List Enumeration}
  {t : Table} {orders given : List Order} {rows : List Row} {condition : Predicate Value}
  (h : Walkable p enumerations t orders rows) (hm : t.matching condition = .ok rows)
  (ht : s.table p.name = .ok t) (horders : Order.withKey given p.entity.primaryKey = orders)
include h hm ht horders

/-! ## Rows that keep their places -/

/-- From rows that keep their places a walk goes on to the last one. -/
theorem exists_walk {limit : Int} (hlimit : 0 < limit)
    (hplace : ∀ r ∈ rows, t.KeepsPlace orders rows r) (k : Nat) {before start : List Row}
    (hk : start.length ≤ k) (hsorted : t.sorted orders rows = before ++ start) (hne : start ≠ [])
    {after : Option String} (hs : StartsAt codec p t orders rows after start) (n : Nat) :
    ∃ page pages, Walk (fun after => Query.connection codec s p condition given
        (.cursor after limit)) after n (page :: pages) ∧
      start.mapM t.read = .ok ((page :: pages).flatMap (·.nodes)) ∧
      page.hasPrevious = !before.isEmpty ∧ ∀ page ∈ pages, page.hasPrevious = true := by
  induction k generalizing before start after n with
  | zero => exact absurd (List.length_eq_zero_iff.1 (Nat.le_zero.1 hk)) hne
  | succ k ih =>
    obtain ⟨page, m, hrun, shows⟩ := h.exists_page hm ht horders hs hlimit n
    have size : 0 < limit.toNat := by omega
    have parts := (List.take_append_drop limit.toNat start).symm
    have shown : start.take limit.toNat ≠ [] := by
      rw [Ne, List.take_eq_nil_iff, not_or]
      exact ⟨size.ne', hne⟩
    obtain ⟨front, hfront⟩ : ∃ r, (start.take limit.toNat).head? = some r :=
      ⟨_, List.head?_eq_some_head shown⟩
    obtain ⟨last, hlast⟩ : ∃ r, (start.take limit.toNat).getLast? = some r :=
      ⟨_, List.getLast?_eq_some_getLast shown⟩
    have split := hsorted.trans (congrArg (before ++ ·) parts)
    have perm := t.sorted_perm orders rows
    have beyond := h.beyond_last hm hplace split hlast
    have next := shows.next last hlast
    rw [← Table.isEmpty_beyond_perm perm, beyond] at next
    have previous : page.hasPrevious = !before.isEmpty := by
      have hstart : start.head? = some front := by
        rw [parts, List.head?_append, hfront]
        rfl
      rw [shows.previous front hfront, h.isEmpty_before hm hplace hsorted hstart]
    by_cases hend : start.drop limit.toNat = []
    · rw [hend, List.append_nil] at parts
      rw [hend, List.isEmpty_nil] at next
      refine ⟨page, [], .last hrun next, ?_, previous, nofun⟩
      rw [List.flatMap_singleton, ← shows.nodes, ← parts]
    · obtain ⟨cursor, hcursor, hof⟩ := shows.cursor last hlast
      have hin : last ∈ rows := by
        have hmem := List.mem_append_left (start.drop limit.toNat) (List.mem_of_getLast? hlast)
        exact perm.mem_iff.1 (by rw [split]; exact List.mem_append_right before hmem)
      have starts : StartsAt codec p t orders rows (some cursor) _ := .behind hin hof
      rw [beyond] at starts
      have shorter : (start.drop limit.toNat).length ≤ k := by
        rw [List.length_drop]
        omega
      rw [← List.append_assoc] at split
      obtain ⟨page', pages, hwalk, hnodes, hprevious, hrest⟩ := ih shorter split hend starts m
      have more : page.hasNext = true := by
        rw [next, List.isEmpty_eq_false_iff.2 hend]
        rfl
      refine ⟨page, page' :: pages, .next hrun more hcursor hwalk, ?_, previous, ?_⟩
      · rw [parts, List.mapM_append, shows.nodes, hnodes]
        rfl
      · rw [List.forall_mem_cons]
        refine ⟨?_, hrest⟩
        rw [hprevious,
          List.isEmpty_eq_false_iff.2 (List.append_ne_nil_of_right_ne_nil before shown)]
        rfl

/-- Walks over rows that keep their places show all of them. -/
theorem exists_covering_walk {limit : Int} (hlimit : 0 < limit)
    (hplace : ∀ r ∈ rows, t.KeepsPlace orders rows r) (n : Nat) :
    ∃ pages, Walk (fun after => Query.connection codec s p condition given
        (.cursor after limit)) none n pages ∧ Covers t orders rows pages := by
  have perm := t.sorted_perm orders rows
  by_cases hne : t.sorted orders rows = []
  · have starts : StartsAt codec p t orders rows none _ := .first
    obtain ⟨page, m, hrun, shows⟩ := h.exists_page hm ht horders starts hlimit n
    rw [hne, List.take_nil] at shows
    obtain ⟨hnext, hprevious⟩ := shows.empty rfl
    refine ⟨[page], .last hrun hnext, ⟨[], hne ▸ perm, .nil, ?_⟩, ?_, nofun⟩
    · rw [List.flatMap_singleton]
      exact shows.nodes
    · intro first hfirst
      cases hfirst
      exact hprevious
  · obtain ⟨page, pages, hwalk, hnodes, hprevious, hrest⟩ :=
      h.exists_walk hm ht horders hlimit hplace _ le_rfl (List.nil_append _).symm hne .first n
    refine ⟨page :: pages, hwalk, ⟨_, perm, h.ascends hm, hnodes⟩, ?_, hrest⟩
    intro first hfirst
    cases hfirst
    exact hprevious

/-! ## Walks by single rows -/

/-- The page by single rows shows the row that its rows begin with, if they end the sorted ones. -/
theorem exists_first {after : Option String} {n m : Nat} {page : Connection} {more : List Record}
    {front start before rest : List Row} (hs : StartsAt codec p t orders rows after start)
    (hstart : t.sorted orders rows = front ++ start) (hne : start ≠ [])
    (hrest : t.sorted orders rows = before ++ rest)
    (hnodes : rest.mapM t.read = .ok (page.nodes ++ more))
    (hrun : (Query.connection codec s p condition given (.cursor after 1)).run n = .ok (page, m)) :
    ∃ r behind, start = r :: behind ∧ rest = r :: behind ∧ behind.mapM t.read = .ok more ∧
      Shows codec p t orders rows after [r] page := by
  have perm := t.sorted_perm orders rows
  obtain ⟨r, behind, rfl⟩ := List.exists_cons_of_ne_nil hne
  obtain ⟨page', m', hrun', shows⟩ := h.exists_page hm ht horders hs Int.one_pos n
  rw [hrun, Except.ok.injEq, Prod.mk.injEq] at hrun'
  obtain ⟨rfl, -⟩ := hrun'
  replace shows : Shows codec p t orders rows after [r] page := shows
  obtain ⟨record, hread, hnode⟩ : ∃ record, t.read r = .ok record ∧ page.nodes = [record] := by
    obtain ⟨record, _, hread, hnil, hnode⟩ :=
      List.forall₂_cons_left_iff.1 (mapM_eq_ok.1 shows.nodes)
    rw [List.forall₂_nil_left_iff.1 hnil] at hnode
    exact ⟨record, hread, hnode⟩
  rw [hnode, List.singleton_append] at hnodes
  obtain ⟨r', behind', hread', hmore, rfl⟩ := List.forall₂_cons_right_iff.1 (mapM_eq_ok.1 hnodes)
  have hin : r ∈ rows := perm.mem_iff.1 (by rw [hstart]; simp)
  have hin' : r' ∈ rows := perm.mem_iff.1 (by rw [hrest]; simp)
  obtain rfl := h.eq_of_read hin hin' hread hread'
  obtain rfl : behind = behind' := (h.ascends hm).behind_unique hstart hrest
  exact ⟨r, behind, rfl, rfl, mapM_eq_ok.2 hmore, shows⟩

/-- A walk by single rows that shows the rows of an end of the sorted ones starts from them, and
tells of each of them which rows are behind it and whether any are before it. -/
theorem places_of_walk {after : Option String} {n : Nat} {pages : List Connection}
    (hwalk : Walk (fun after => Query.connection codec s p condition given (.cursor after 1))
      after n pages) {front start before rest : List Row}
    (hs : StartsAt codec p t orders rows after start)
    (hstart : t.sorted orders rows = front ++ start) (hne : start ≠ [])
    (hrest : t.sorted orders rows = before ++ rest)
    (hnodes : rest.mapM t.read = .ok (pages.flatMap (·.nodes))) :
    start = rest ∧
      List.Forall₂ (fun r page => page.hasPrevious = !(t.beyond orders r false rows).isEmpty)
        rest pages ∧
      ∀ l r l', rest = l ++ r :: l' → t.beyond orders r true (t.sorted orders rows) = l' := by
  have perm := t.sorted_perm orders rows
  induction hwalk generalizing front start before rest with
  | @last after n m page hrun hnext =>
    rw [List.flatMap_singleton, ← List.append_nil page.nodes] at hnodes
    obtain ⟨r, behind, rfl, rfl, hmore, shows⟩ :=
      h.exists_first hm ht horders hs hstart hne hrest hnodes hrun
    obtain rfl := List.forall₂_nil_right_iff.1 (mapM_eq_ok.1 hmore)
    refine ⟨rfl, .cons (shows.previous r rfl) .nil, fun l r' l' hl => ?_⟩
    have next := shows.next r rfl
    rw [hnext, ← Table.isEmpty_beyond_perm perm] at next
    rcases List.cons_eq_append_iff.1 hl with ⟨rfl, hr⟩ | ⟨l₁, -, hl₁⟩
    · cases hr
      exact List.isEmpty_iff.1 (by simpa using next)
    · exact absurd hl₁.symm (List.append_ne_nil_of_right_ne_nil l₁ (List.cons_ne_nil r' l'))
  | @next after n m page cursor pages hrun hnext hcursor _ ih =>
    rw [List.flatMap_cons] at hnodes
    obtain ⟨r, behind, rfl, rfl, hmore, shows⟩ :=
      h.exists_first hm ht horders hs hstart hne hrest hnodes hrun
    obtain ⟨cursor', hcursor', hof⟩ := shows.cursor r rfl
    rw [hcursor, Option.some.injEq] at hcursor'
    subst hcursor'
    have hin : r ∈ rows := perm.mem_iff.1 (by rw [hstart]; simp)
    obtain ⟨front', hfront'⟩ := (h.ascends hm).exists_append_beyond t r
    have next := shows.next r rfl
    rw [hnext, ← Table.isEmpty_beyond_perm perm] at next
    have some : t.beyond orders r true (t.sorted orders rows) ≠ [] :=
      List.isEmpty_eq_false_iff.1 (by simpa using next)
    rw [← List.singleton_append, ← List.append_assoc] at hrest
    obtain ⟨hbehind, hprevious, hplaces⟩ := ih (.behind hin hof) hfront' some hrest hmore
    refine ⟨rfl, .cons (shows.previous r rfl) hprevious, fun l r' l' hl => ?_⟩
    rcases List.cons_eq_append_iff.1 hl with ⟨rfl, hr⟩ | ⟨l₁, rfl, hl₁⟩
    · cases hr
      exact hbehind
    · exact hplaces l₁ r' l' hl₁

/-- Rows that a walk by single rows shows in order keep their places. -/
theorem keepsPlace_of_walk
    (hwalk : ∃ pages, Walk (fun after => Query.connection codec s p condition given
        (.cursor after 1)) none 0 pages ∧ Covers t orders rows pages) :
    ∀ r ∈ rows, t.KeepsPlace orders rows r := by
  obtain ⟨pages, hwalk, ⟨sorted, hperm, hsorted, hnodes⟩, hfirst, hlater⟩ := hwalk
  have ascends := h.ascends hm
  have perm := t.sorted_perm orders rows
  obtain rfl : sorted = t.sorted orders rows := hsorted.eq_of_perm ascends (hperm.trans perm.symm)
  intro r hr
  have hin : r ∈ t.sorted orders rows := perm.mem_iff.2 hr
  obtain ⟨-, hprevious, hbeyond⟩ := h.places_of_walk hm ht horders hwalk .first
    (List.nil_append _).symm (List.ne_nil_of_mem hin) (List.nil_append _).symm hnodes
  obtain ⟨before, behind, split⟩ := List.append_of_mem hin
  have precede : (t.beyond orders r false (t.sorted orders rows)).isEmpty = before.isEmpty := by
    rw [split] at hprevious
    obtain ⟨front, page, more, rfl, hpage, hlen⟩ := exists_split_of_forall₂ hprevious
    have shown : page.hasPrevious = !before.isEmpty := by
      cases front with
      | nil =>
        rw [hfirst page rfl, List.length_eq_zero_iff.1 hlen.symm]
        rfl
      | cons first others =>
        rw [hlater page (by simp), List.isEmpty_eq_false_iff.2]
        · rfl
        · exact List.ne_nil_of_length_pos (hlen ▸ Nat.succ_pos _)
    rw [Table.isEmpty_beyond_perm perm]
    exact Bool.not_inj (hpage.symm.trans shown)
  have place := ascends.keepsPlace split (hbeyond before r behind split) precede
  exact place.perm perm

end Walkable

end TableGraph
