import Mathlib.Data.List.Infix
import TableGraph.Predicate.Sql
import TableGraph.Proofs.Coalesce.Alike

/-!
# The wording of conditions

The text of a condition that compares columns with values tells the condition up to its operands.
The words behind a column are a prefix code but for one pair (`Test.phrase_eq_or_like`), so that a
test can be told from the front of a text whose rest does not go on with a pattern.  From there two
texts are read side by side: the parts of a conjunction up to the first thing that is no `AND`, the
parts of a disjunction up to the end or a closing parenthesis.

Main statement: `Predicate.Comparing.reads`, conditions that compare columns with values and have
one text are the same joins of tests of the same wording.
-/

namespace TableGraph

deriving instance DecidableEq for Test

/-! ## Tests -/

namespace Test

/-- The operands, in order. -/
def operands (t : Test Value) : List Value := (t.sql "").operands

/-- The test without its operands. -/
def kind : Test Value → Test Unit
  | compare c _ => compare c ()
  | truth negated b => truth negated b
  | null negated => null negated
  | among negated _ => among negated []
  | between negated _ _ => between negated () ()
  | like negated _ => like negated ""
  | part place _ => part place ""

/-- The kinds of tests. -/
def kinds : List (Test Unit) :=
  [.eq, .ne, .gt, .ge, .lt, .le].map (compare · ()) ++
    ([false, true].flatMap fun negated =>
      [truth negated false, truth negated true, null negated, among negated [],
        between negated () (), like negated ""]) ++
    [.anywhere, .start, .finish].map (part · "")

/-- The pattern for a text in its place. -/
def shape : Place → String
  | .anywhere => "'%' || ? || '%'"
  | .start => "? || '%'"
  | .finish => "'%' || ?"

/-- What stands behind the column, up to a list of operands. -/
def phrase : Test Unit → List Char
  | compare c _ => (" " ++ c.sign ++ " ?").toList
  | truth negated b => ((if negated then " != " else " = ") ++ (if b then "1" else "0")).toList
  | null negated => (if negated then " IS NOT NULL" else " IS NULL").toList
  | among negated _ => (if negated then " NOT IN (" else " IN (").toList
  | between negated _ _ => (if negated then " NOT BETWEEN ? AND ?" else " BETWEEN ? AND ?").toList
  | like negated _ => (if negated then " NOT LIKE ?" else " LIKE ?").toList
  | part place _ => (" LIKE " ++ shape place ++ " ESCAPE '/'").toList

/-- A list of a number of operands. -/
def marks (n : Nat) : List Char :=
  (if n = 0 then emptyListText else ", ".intercalate (List.replicate n "?")).toList

/-- The number of parentheses in front of the column. -/
def opening : Test Unit → Nat
  | among true _ => 1
  | _ => 0

/-- What stands behind the phrase, for a number of operands. -/
def closing (k : Test Unit) (n : Nat) : List Char :=
  match k with
  | among negated _ => marks n ++ ')' :: (if negated then [')'] else [])
  | _ => []

/-- The tests are of one kind and have as many operands. -/
def Worded (s t : Test Value) : Prop := s.kind = t.kind ∧ s.operands.length = t.operands.length

/-- The text does not go on with a pattern. -/
def Stops (r : List Char) : Prop := ¬" ||".toList <+: r

variable {s t : Test Value}

theorem kind_mem (s : Test Value) : s.kind ∈ kinds := by
  cases s with
  | compare c v => cases c <;> simp [kind, kinds]
  | truth negated b => cases negated <;> cases b <;> simp [kind, kinds]
  | null negated => cases negated <;> simp [kind, kinds]
  | among negated vs => cases negated <;> simp [kind, kinds]
  | between negated low high => cases negated <;> simp [kind, kinds]
  | like negated pattern => cases negated <;> simp [kind, kinds]
  | part place needle => cases place <;> simp [kind, kinds]

/-- No phrase is the beginning of another, except that a pattern may go on. -/
theorem phrase_eq_or_like : ∀ k ∈ kinds, ∀ l ∈ kinds, phrase k <+: phrase l →
    k = l ∨ k = like false "" ∧ l = part .start "" := by
  decide +kernel

theorem operands_sql (t : Test Value) (column : String) : (t.sql column).operands = t.operands := by
  cases t with
  | among negated vs => cases negated <;> rfl
  | _ => rfl

theorem operands_among (negated : Bool) (vs : List Value) :
    (among negated vs).operands = vs := by
  cases negated <;> rfl

theorem text_eq (column : String) (s : Test Value) : (s.sql column).text.toList =
    List.replicate (opening s.kind) '(' ++ column.toList ++ phrase s.kind ++
      closing s.kind s.operands.length := by
  cases s with
  | compare c v => simp [sql, kind, opening, phrase, closing]
  | truth negated b => simp [sql, kind, opening, phrase, closing]
  | null negated => simp [sql, kind, opening, phrase, closing]
  | between negated low high => cases negated <;> simp [sql, kind, opening, phrase, closing]
  | among negated vs =>
    cases negated <;> simp [sql, kind, opening, phrase, closing, operands, marks]
  | like negated pattern => cases negated <;> simp [sql, kind, opening, phrase, closing]
  | part place needle => cases place <;> simp [sql, kind, opening, phrase, shape, closing]

theorem marks_succ (n : Nat) :
    marks (n + 1) = '?' :: (List.replicate n [',', ' ', '?']).flatten := by
  induction n with
  | zero => rfl
  | succ n ih =>
    have more : marks (n + 2) = '?' :: ',' :: ' ' :: marks (n + 1) := by
      simp [marks, List.replicate_succ]
    rw [more, ih, List.replicate_succ, List.flatten_cons]
    rfl

theorem flatten_marks_injective {m n : Nat} {r r' : List Char}
    (h : (List.replicate m [',', ' ', '?']).flatten ++ ')' :: r =
      (List.replicate n [',', ' ', '?']).flatten ++ ')' :: r') : m = n ∧ r = r' := by
  induction m generalizing n with
  | zero =>
    cases n with
    | zero => exact ⟨rfl, List.tail_eq_of_cons_eq h⟩
    | succ n => exact absurd (List.head_eq_of_cons_eq h) (by decide)
  | succ m ih =>
    cases n with
    | zero => exact absurd (List.head_eq_of_cons_eq h) (by decide)
    | succ n =>
      obtain ⟨hmn, hr⟩ := ih (@List.append_cancel_left _ [',', ' ', '?'] _ _ h)
      exact ⟨congrArg Nat.succ hmn, hr⟩

theorem marks_injective {m n : Nat} {r r' : List Char}
    (h : marks m ++ ')' :: r = marks n ++ ')' :: r') : m = n ∧ r = r' := by
  have none : marks 0 = 'S' :: emptyListText.toList.tail := rfl
  cases m with
  | zero =>
    cases n with
    | zero => exact ⟨rfl, List.tail_eq_of_cons_eq (List.append_cancel_left h)⟩
    | succ n =>
      rw [none, marks_succ] at h
      exact absurd (List.head_eq_of_cons_eq h) (by decide)
  | succ m =>
    cases n with
    | zero =>
      rw [none, marks_succ] at h
      exact absurd (List.head_eq_of_cons_eq h) (by decide)
    | succ n =>
      rw [marks_succ, marks_succ] at h
      obtain ⟨hmn, hr⟩ := flatten_marks_injective (List.tail_eq_of_cons_eq h)
      exact ⟨congrArg Nat.succ hmn, hr⟩

/-- The number of operands is told by the kind and what stands behind the phrase. -/
theorem closing_injective {r r' : List Char} (hkind : s.kind = t.kind)
    (h : closing s.kind s.operands.length ++ r = closing t.kind t.operands.length ++ r') :
    s.operands.length = t.operands.length ∧ r = r' := by
  cases s <;> cases t <;> simp only [kind, compare.injEq, truth.injEq, null.injEq, among.injEq,
    between.injEq, like.injEq, part.injEq, and_true, reduceCtorEq] at hkind
  case among.among negated vs negated' ws =>
    subst hkind
    rw [operands_among, operands_among] at h ⊢
    have h : (marks vs.length ++ ')' :: if negated then [')'] else []) ++ r =
        (marks ws.length ++ ')' :: if negated then [')'] else []) ++ r' := h
    rw [List.append_assoc, List.append_assoc] at h
    obtain ⟨hlength, hr⟩ := marks_injective h
    exact ⟨hlength, List.append_cancel_left hr⟩
  all_goals exact ⟨rfl, h⟩

/-! ### Telling a test from the front of a text -/

theorem head?_phrase : ∀ k ∈ kinds, (phrase k).head? = some ' ' := by
  decide

theorem quotedChar_eq (c : Char) : quotedChar c = c :: if c = '"' then ['"'] else [] := by
  unfold quotedChar
  split_ifs with h
  · rw [h]
  · rfl

/-- A name in quotes is told in front of a blank. -/
theorem quoted_injective {c d r r' : List Char}
    (h : c.flatMap quotedChar ++ '"' :: ' ' :: r = d.flatMap quotedChar ++ '"' :: ' ' :: r') :
    c = d ∧ r = r' := by
  -- behind a quote inside the name stands another one, behind the last one a blank
  have ends : ∀ {x : Char} {u v : List Char}, '"' :: ' ' :: u ≠ quotedChar x ++ v := by
    intro x u v h
    unfold quotedChar at h
    split_ifs at h with hx
    · cases h
    · exact hx (List.head_eq_of_cons_eq h).symm
  induction c generalizing d with
  | nil =>
    cases d with
    | nil => exact ⟨rfl, List.tail_eq_of_cons_eq (List.tail_eq_of_cons_eq h)⟩
    | cons y d =>
      rw [List.flatMap_cons, List.append_assoc] at h
      exact absurd h ends
  | cons x c ih =>
    cases d with
    | nil =>
      rw [List.flatMap_cons, List.append_assoc] at h
      exact absurd h.symm ends
    | cons y d =>
      rw [List.flatMap_cons, List.flatMap_cons, List.append_assoc, List.append_assoc] at h
      obtain rfl : x = y := by
        rw [quotedChar_eq, quotedChar_eq] at h
        exact List.head_eq_of_cons_eq h
      obtain ⟨rfl, hr⟩ := ih (List.append_cancel_left h)
      exact ⟨rfl, hr⟩

theorem quotedName_toList (name : String) :
    (quotedName name).toList = '"' :: name.toList.flatMap quotedChar ++ ['"'] :=
  String.toList_ofList

theorem isNameChar_of_plain {name : String} (h : isPlainName name) :
    name.toList ≠ [] ∧ ∀ c ∈ name.toList, isNameChar c := by
  unfold isPlainName at h
  split at h
  · cases h
  · rename_i c cs heq
    simp only [Bool.and_eq_true, List.all_eq_true, Bool.or_eq_true] at h
    refine heq ▸ ⟨List.cons_ne_nil _ _, List.forall_mem_cons.2 ⟨?_, h.1.2⟩⟩
    rcases h.1.1 with hc | hc <;> simp [isNameChar, hc]

/-- A name without quotes does not begin like one in quotes. -/
theorem plain_ne_quoted {c d : String} (h : isPlainName c) (r r' : List Char) :
    c.toList ++ r ≠ (quotedName d).toList ++ r' := by
  obtain ⟨nonempty, chars⟩ := isNameChar_of_plain h
  obtain ⟨x, xs, hx⟩ := List.exists_cons_of_ne_nil nonempty
  rw [quotedName_toList, hx]
  intro heq
  have quote := chars x (hx ▸ List.mem_cons_self)
  rw [List.head_eq_of_cons_eq heq] at quote
  exact absurd quote (by decide)

/-- A name is told in front of a blank. -/
theorem nameText_injective {c d : String} {r r' : List Char}
    (h : (nameText c).toList ++ ' ' :: r = (nameText d).toList ++ ' ' :: r') :
    c = d ∧ r = r' := by
  unfold nameText at h
  split_ifs at h with hc hd hd
  · have front : ∀ {name : String} {r : List Char}, isPlainName name →
        (name.toList ++ ' ' :: r).takeWhile isNameChar = name.toList := by
      intro name r hn
      rw [List.takeWhile_append_of_pos (isNameChar_of_plain hn).2,
        List.takeWhile_cons_of_neg (by decide), List.append_nil]
    obtain rfl : c = d := by
      rw [← String.toList_inj, ← front hc, h, front hd]
    exact ⟨rfl, List.tail_eq_of_cons_eq (List.append_cancel_left h)⟩
  · exact absurd h (plain_ne_quoted hc _ _)
  · exact absurd h.symm (plain_ne_quoted hd _ _)
  · rw [quotedName_toList, quotedName_toList, List.append_assoc, List.append_assoc] at h
    obtain ⟨hname, hr⟩ := quoted_injective (List.tail_eq_of_cons_eq h)
    exact ⟨String.toList_inj.1 hname, hr⟩

/-- A text that is not all parentheses does not begin with more of them than it has. -/
theorem ne_parentheses {n : Nat} {x r r' : List Char} {c : Char} (hc : c ≠ '(') (hx : c ∈ x) :
    x ++ r ≠ '(' :: (List.replicate n '(' ++ (x ++ r')) := by
  induction x with
  | nil => cases hx
  | cons y x ih =>
    intro h
    rw [List.cons_append, List.cons.injEq] at h
    obtain ⟨rfl, h⟩ := h
    have shifted : List.replicate n '(' ++ ('(' :: x ++ r') =
        '(' :: (List.replicate n '(' ++ (x ++ r')) := by
      rw [List.cons_append, List.append_cons, ← List.replicate_succ', List.replicate_succ,
        List.cons_append]
    rw [shifted] at h
    exact ih ((List.mem_cons.1 hx).resolve_left hc) h

/-- Parentheses in front of a text that is not all parentheses are told from it. -/
theorem parentheses_injective {m n : Nat} {x r r' : List Char} {c : Char} (hc : c ≠ '(')
    (hx : c ∈ x) (h : List.replicate m '(' ++ (x ++ r) = List.replicate n '(' ++ (x ++ r')) :
    m = n ∧ r = r' := by
  induction m generalizing n with
  | zero =>
    cases n with
    | zero => exact ⟨rfl, List.append_cancel_left h⟩
    | succ n => exact absurd h (ne_parentheses (x := x) hc hx)
  | succ m ih =>
    cases n with
    | zero => exact absurd h.symm (ne_parentheses (x := x) hc hx)
    | succ n =>
      obtain ⟨rfl, hr⟩ := ih (List.tail_eq_of_cons_eq h)
      exact ⟨rfl, hr⟩

variable {table c d : String} {m n : Nat} {r r' : List Char}

theorem front_eq (s : Test Value) :
    List.replicate m '(' ++ ((s.sql (columnText table c)).text.toList ++ r) =
      List.replicate (m + opening s.kind) '(' ++ ((nameText table ++ ".").toList ++
        ((nameText c).toList ++ (phrase s.kind ++ (closing s.kind s.operands.length ++ r)))) := by
  rw [text_eq, ← List.replicate_append_replicate]
  simp only [columnText, String.toList_append, List.append_assoc]

/-- The column of a test is told from the front of a text. -/
theorem column_injective
    (h : List.replicate m '(' ++
        ((s.sql (columnText table c)).text.toList ++ r) =
      List.replicate n '(' ++
        ((t.sql (columnText table d)).text.toList ++ r')) :
    m + opening s.kind = n + opening t.kind ∧ c = d ∧
      phrase s.kind ++ (closing s.kind s.operands.length ++ r) =
        phrase t.kind ++ (closing t.kind t.operands.length ++ r') := by
  have dot : '.' ∈ (nameText table ++ ".").toList := by simp
  have blank : ∀ t : Test Value, phrase t.kind = ' ' :: (phrase t.kind).tail := fun t =>
    List.eq_cons_of_mem_head? (head?_phrase _ (kind_mem t))
  rw [front_eq, front_eq] at h
  obtain ⟨hparens, h⟩ := parentheses_injective (by decide) dot h
  rw [blank s, blank t, List.cons_append, List.cons_append] at h
  obtain ⟨hname, h⟩ := nameText_injective h
  rw [blank s, blank t, List.cons_append, List.cons_append, h]
  exact ⟨hparens, hname, rfl⟩

/-- Phrases in front of one text are the same, except that a pattern may go on. -/
theorem phrase_cases {k l : Test Unit} (hk : k ∈ kinds) (hl : l ∈ kinds)
    (h : phrase k ++ r = phrase l ++ r') : k = l ∨ k = like false "" ∧ l = part .start "" ∨
      l = like false "" ∧ k = part .start "" := by
  rcases List.prefix_or_prefix_of_prefix (List.prefix_append (phrase k) r)
    (h ▸ List.prefix_append (phrase l) r') with hp | hp
  · exact (phrase_eq_or_like k hk l hl hp).imp_right .inl
  · exact (phrase_eq_or_like l hl k hk hp).imp Eq.symm .inr

/-- The parentheses in front of a test are told from its text. -/
theorem parentheses_eq
    (h : List.replicate m '(' ++
        ((s.sql (columnText table c)).text.toList ++ r) =
      List.replicate n '(' ++
        ((t.sql (columnText table d)).text.toList ++ r')) : m = n := by
  obtain ⟨hparens, -, h⟩ := column_injective h
  rcases phrase_cases (kind_mem s) (kind_mem t) h with hk | ⟨hs, ht⟩ | ⟨ht, hs⟩
  · rw [hk] at hparens
    exact Nat.add_right_cancel hparens
  · rw [hs, ht] at hparens
    exact hparens
  · rw [hs, ht] at hparens
    exact hparens

/-- A pattern that goes on differs from one that is followed by what stops. -/
theorem like_ne_part {i j : Nat} (hr : Stops r) :
    phrase (like false "") ++ (closing (like false "") i ++ r) ≠
      phrase (part .start "") ++ (closing (part .start "") j ++ r') := fun h =>
  hr ⟨_, (@List.append_cancel_left _ " LIKE ?".toList _ _ h).symm⟩

/-- A test is told, but for its operands, from the front of a text and its parentheses. -/
theorem front_injective (hr : Stops r) (hr' : Stops r')
    (h : List.replicate m '(' ++
        ((s.sql (columnText table c)).text.toList ++ r) =
      List.replicate n '(' ++
        ((t.sql (columnText table d)).text.toList ++ r')) :
    c = d ∧ Worded s t ∧ r = r' := by
  obtain ⟨-, hname, h⟩ := column_injective h
  have hkind : s.kind = t.kind := by
    rcases phrase_cases (kind_mem s) (kind_mem t) h with hk | ⟨hs, ht⟩ | ⟨ht, hs⟩
    · exact hk
    · rw [hs, ht] at h
      exact absurd h (like_ne_part hr)
    · rw [hs, ht] at h
      exact absurd h.symm (like_ne_part hr')
  have hclosing : closing s.kind s.operands.length ++ r =
      closing t.kind t.operands.length ++ r' := by
    rw [hkind] at h ⊢
    exact List.append_cancel_left h
  obtain ⟨hlength, hrest⟩ := closing_injective hkind hclosing
  exact ⟨hname, ⟨hkind, hlength⟩, hrest⟩

end Test

/-! ## Joins -/

/-- Items between separators are told one by one, if each is told from what may follow it. -/
theorem separated_injective {α β : Type} {f : α → List Char} {g : β → List Char}
    {sep r r' : List Char} (Q : α → β → Prop) (Follows : List Char → Prop)
    (hsep : ∀ x, Follows (sep ++ x)) (hr : Follows r) (hr' : Follows r') (hend : ¬sep <+: r)
    (hend' : ¬sep <+: r') {xs : List α} {ys : List β} (hxs : xs ≠ []) (hys : ys ≠ [])
    (item : ∀ x ∈ xs, ∀ y ∈ ys, ∀ u v, Follows u → Follows v → f x ++ u = g y ++ v →
      Q x y ∧ u = v)
    (h : sep.intercalate (xs.map f) ++ r = sep.intercalate (ys.map g) ++ r') :
    List.Forall₂ Q xs ys ∧ r = r' := by
  induction xs generalizing ys with
  | nil => exact absurd rfl hxs
  | cons x xs ih =>
    cases ys with
    | nil => exact absurd rfl hys
    | cons y ys =>
      have first := item x List.mem_cons_self y List.mem_cons_self
      cases xs with
      | nil =>
        cases ys with
        | nil =>
          obtain ⟨hQ, hrest⟩ := first r r' hr hr' (by simpa using h)
          exact ⟨.cons hQ .nil, hrest⟩
        | cons z ys =>
          obtain ⟨-, rfl⟩ := first r (sep ++ (sep.intercalate ((z :: ys).map g) ++ r')) hr
            (hsep _) (by simpa using h)
          exact absurd (List.prefix_append sep _) hend
      | cons w xs =>
        cases ys with
        | nil =>
          obtain ⟨-, rfl⟩ := first (sep ++ (sep.intercalate ((w :: xs).map f) ++ r)) r' (hsep _)
            hr' (by simpa using h)
          exact absurd (List.prefix_append sep _) hend'
        | cons z ys =>
          obtain ⟨hQ, hrest⟩ := first (sep ++ (sep.intercalate ((w :: xs).map f) ++ r))
            (sep ++ (sep.intercalate ((z :: ys).map g) ++ r')) (hsep _) (hsep _) (by simpa using h)
          obtain ⟨hQs, hr⟩ := ih (List.cons_ne_nil _ _) (List.cons_ne_nil _ _)
            (fun a ha b hb => item a (List.mem_cons_of_mem x ha) b (List.mem_cons_of_mem y hb))
            (List.append_cancel_left hrest)
          exact ⟨.cons hQ hQs, hr⟩

namespace Predicate

/-- The condition is a conjunction. -/
def isAll {α : Type} : Predicate α → Bool
  | all _ => true
  | _ => false

/-- Joins of comparisons of columns with values. -/
inductive Comparing : Predicate Value → Prop
  | test {column : String} {t : Test Value} : Comparing (.test column t)
  | allOf {ps : List (Predicate Value)} (nonempty : ps ≠ []) (parts : ∀ p ∈ ps, Comparing p) :
    Comparing (.allOf ps)
  | anyOf {ps : List (Predicate Value)} (nonempty : ps ≠ []) (parts : ∀ p ∈ ps, Comparing p) :
    Comparing (.anyOf ps)

/-- Joins of comparisons, no conjunction in a conjunction and no disjunction in a disjunction. -/
inductive Turns : Predicate Value → Prop
  | test {column : String} {t : Test Value} : Turns (.test column t)
  | all {p q : Predicate Value} {ps : List (Predicate Value)} (parts : ∀ r ∈ p :: q :: ps, Turns r)
    (turn : ∀ r ∈ p :: q :: ps, r.isAll = false) : Turns (.all (p :: q :: ps))
  | any {p q : Predicate Value} {ps : List (Predicate Value)} (parts : ∀ r ∈ p :: q :: ps, Turns r)
    (turn : ∀ r ∈ p :: q :: ps, r.isAny = false) : Turns (.any (p :: q :: ps))

variable {p q : Predicate Value}

theorem Turns.conjuncts (h : Turns p) :
    p.conjuncts ≠ [] ∧ ∀ q ∈ p.conjuncts, Turns q ∧ q.isAll = false := by
  cases h with
  | test =>
    exact ⟨List.cons_ne_nil _ _, List.forall_mem_singleton.2 ⟨.test, rfl⟩⟩
  | all parts turn => exact ⟨List.cons_ne_nil _ _, fun q hq => ⟨parts q hq, turn q hq⟩⟩
  | any parts turn =>
    exact ⟨List.cons_ne_nil _ _, List.forall_mem_singleton.2 ⟨.any parts turn, rfl⟩⟩

theorem Turns.disjuncts (h : Turns p) :
    p.disjuncts ≠ [] ∧ ∀ q ∈ p.disjuncts, Turns q ∧ q.isAny = false := by
  cases h with
  | test =>
    exact ⟨List.cons_ne_nil _ _, List.forall_mem_singleton.2 ⟨.test, rfl⟩⟩
  | all parts turn =>
    exact ⟨List.cons_ne_nil _ _, List.forall_mem_singleton.2 ⟨.all parts turn, rfl⟩⟩
  | any parts turn => exact ⟨List.cons_ne_nil _ _, fun q hq => ⟨parts q hq, turn q hq⟩⟩

theorem Turns.isAlways_eq (h : Turns p) : p.isAlways = false := by
  cases h <;> rfl

/-- The parts of a join of conditions that have parts have them as well. -/
theorem flatMap_parts {g : Predicate Value → List (Predicate Value)} {Q : Predicate Value → Prop}
    {ps : List (Predicate Value)} (nonempty : ps ≠ [])
    (h : ∀ p ∈ ps, g p ≠ [] ∧ ∀ q ∈ g p, Q q) : ps.flatMap g ≠ [] ∧ ∀ q ∈ ps.flatMap g, Q q := by
  refine ⟨fun hnil => ?_, fun q hq => ?_⟩
  · obtain ⟨p, hp⟩ := List.exists_mem_of_ne_nil ps nonempty
    exact (h p hp).1 (List.flatMap_eq_nil_iff.1 hnil p hp)
  · obtain ⟨p, hp, hq⟩ := List.mem_flatMap.1 hq
    exact (h p hp).2 q hq

/-- Joins keep turns. -/
theorem Comparing.turns (h : Comparing p) : Turns p := by
  induction h with
  | test => exact .test
  | @allOf ps nonempty _ ih =>
    obtain ⟨nonempty, parts⟩ := flatMap_parts nonempty fun p hp => (ih p hp).conjuncts
    unfold Predicate.allOf
    generalize ps.flatMap Predicate.conjuncts = qs at nonempty parts
    match qs with
    | [] => exact absurd rfl nonempty
    | [q] => exact (parts q List.mem_cons_self).1
    | q :: q' :: qs => exact .all (fun r hr => (parts r hr).1) fun r hr => (parts r hr).2
  | @anyOf ps nonempty _ ih =>
    have never : ps.any isAlways = false :=
      List.any_eq_false.2 fun p hp => by rw [(ih p hp).isAlways_eq]; exact Bool.false_ne_true
    obtain ⟨nonempty, parts⟩ := flatMap_parts nonempty fun p hp => (ih p hp).disjuncts
    unfold Predicate.anyOf
    rw [never, if_neg Bool.false_ne_true]
    generalize ps.flatMap Predicate.disjuncts = qs at nonempty parts
    match qs with
    | [] => exact absurd rfl nonempty
    | [q] => exact (parts q List.mem_cons_self).1
    | q :: q' :: qs => exact .any (fun r hr => (parts r hr).1) fun r hr => (parts r hr).2

/-! ### Texts -/

/-- The text of a condition. -/
def words (table : String) (p : Predicate Value) : List Char := (p.sql table).text.toList

/-- The text of a condition inside a conjunction. -/
def part (table : String) (p : Predicate Value) : List Char :=
  if p.isAny then '(' :: words table p ++ [')'] else words table p

/-- The operands of a condition, in order. -/
def operands (table : String) (p : Predicate Value) : List Value := (p.sql table).operands

variable {table : String}

theorem sqlItems_eq (table : String) (parenthesized : Bool) (ps : List (Predicate Value)) :
    sqlItems table parenthesized ps = ps.map fun p =>
      let part := p.sql table
      if parenthesized && p.isAny then { part with text := "(" ++ part.text ++ ")" } else part := by
  induction ps with
  | nil => rfl
  | cons p ps ih =>
    rw [List.map_cons, ← ih]
    rfl

theorem sql_all (ps : List (Predicate Value)) : (all ps).sql table =
    ⟨" AND ".intercalate ((sqlItems table true ps).map (·.text)),
      (sqlItems table true ps).flatMap (·.operands)⟩ := rfl

theorem sql_any (ps : List (Predicate Value)) : (any ps).sql table =
    ⟨" OR ".intercalate ((sqlItems table false ps).map (·.text)),
      (sqlItems table false ps).flatMap (·.operands)⟩ := rfl

theorem words_all (ps : List (Predicate Value)) :
    words table (all ps) = " AND ".toList.intercalate (ps.map (part table)) := by
  unfold words
  rw [sql_all, String.toList_intercalate, sqlItems_eq, List.map_map, List.map_map]
  congr 2
  funext p
  unfold part words
  cases h : p.isAny <;> simp [h]

theorem words_any (ps : List (Predicate Value)) :
    words table (any ps) = " OR ".toList.intercalate (ps.map (words table)) := by
  unfold words
  rw [sql_any, String.toList_intercalate, sqlItems_eq, List.map_map, List.map_map]
  rfl

theorem operands_all (ps : List (Predicate Value)) :
    operands table (all ps) = ps.flatMap (operands table) := by
  unfold operands
  rw [sql_all, sqlItems_eq, List.flatMap_map]
  dsimp only
  congr 1
  funext p
  cases p.isAny <;> rfl

theorem operands_any (ps : List (Predicate Value)) :
    operands table (any ps) = ps.flatMap (operands table) := by
  unfold operands
  rw [sql_any, sqlItems_eq, List.flatMap_map]
  rfl

/-- Behind parentheses, the text begins with a comparison. -/
def Begins (table : String) (n : Nat) (x : List Char) : Prop :=
  ∃ (c : String) (t : Test Value) (rest : List Char), x = List.replicate n '(' ++
    ((t.sql (columnText table c)).text.toList ++ rest)

theorem Begins.append {n : Nat} {x : List Char} (h : Begins table n x) (y : List Char) :
    Begins table n (x ++ y) := by
  obtain ⟨c, t, rest, rfl⟩ := h
  refine ⟨c, t, rest ++ y, ?_⟩
  simp only [List.append_assoc]

theorem Begins.part {n : Nat} (h : Begins table n (words table p)) :
    ∃ n, Begins table n (part table p) := by
  unfold Predicate.part
  split
  · obtain ⟨c, t, rest, h⟩ := h.append [')']
    exact ⟨n + 1, c, t, rest, congrArg ('(' :: ·) h⟩
  · exact ⟨n, h⟩

/-- The text of a comparison, or of a join, begins with a comparison. -/
theorem Turns.begins (h : Turns p) : ∃ n, Begins table n (words table p) := by
  induction h with
  | @test c t => exact ⟨0, c, t, [], (List.append_nil _).symm⟩
  | @all p q ps parts turn ih =>
    obtain ⟨n, h⟩ := ih p List.mem_cons_self
    obtain ⟨n, h⟩ := h.part
    rw [words_all, List.map_cons, List.map_cons, List.intercalate_cons_cons, List.append_assoc]
    exact ⟨n, h.append _⟩
  | @any p q ps parts turn ih =>
    obtain ⟨n, h⟩ := ih p List.mem_cons_self
    rw [words_any, List.map_cons, List.map_cons, List.intercalate_cons_cons, List.append_assoc]
    exact ⟨n, h.append _⟩

/-! ### Telling a condition from its text -/

/-- The same joins of tests that are worded alike. -/
abbrev Reads : Predicate Value → Predicate Value → Prop := Alike (fun _ s t => s.Worded t) Eq

/-- The text goes on neither with a pattern nor with a conjunct. -/
def EndsConjunction (r : List Char) : Prop := Test.Stops r ∧ ¬" AND ".toList <+: r

/-- What is no conjunction is told from the text it has inside one. -/
def Told (table : String) (p : Predicate Value) : Prop :=
  ∀ q, Turns q → q.isAll = false → ∀ r r', Test.Stops r → Test.Stops r' →
    part table p ++ r = part table q ++ r' → Reads p q ∧ r = r'

/-- What is no disjunction is told from its text, if that does not go on with a conjunct. -/
def ToldUpToAnd (table : String) (p : Predicate Value) : Prop :=
  ∀ q, Turns q → q.isAny = false → ∀ r r', EndsConjunction r → EndsConjunction r' →
    words table p ++ r = words table q ++ r' → Reads p q ∧ r = r'

theorem part_eq_words (h : p.isAny = false) : part table p = words table p := by
  unfold part
  rw [h, if_neg Bool.false_ne_true]

theorem part_any (ps : List (Predicate Value)) :
    part table (any ps) = '(' :: words table (any ps) ++ [')'] := rfl

/-- The conjuncts of what is no disjunction, in the text. -/
theorem words_eq_conjuncts (h : Turns p) (hp : p.isAny = false) :
    words table p = " AND ".toList.intercalate (p.conjuncts.map (part table)) := by
  cases h with
  | test =>
    show _ = " AND ".toList.intercalate [part table _]
    rw [List.intercalate_singleton, part_eq_words rfl]
  | all parts turn => exact words_all _
  | any => cases hp

theorem reads_of_conjuncts (hp : Turns p) (hq : Turns q) (hpa : p.isAny = false)
    (hqa : q.isAny = false) (h : List.Forall₂ Reads p.conjuncts q.conjuncts) :
    Reads p q := by
  cases hp with
  | test =>
    cases hq with
    | test => exact (List.forall₂_cons.1 h).1
    | all parts' turn' => cases (List.forall₂_cons.1 h).2
    | any => cases hqa
  | all parts turn =>
    cases hq with
    | test => cases (List.forall₂_cons.1 h).2
    | all parts' turn' => exact .all h
    | any => cases hqa
  | any => cases hpa

/-- A comparison does not read as a disjunction in parentheses. -/
theorem part_test_ne_any (c : String) (s : Test Value) {ps : List (Predicate Value)}
    (h : Turns (any ps)) (r r' : List Char) :
    part table (test c s) ++ r ≠ part table (any ps) ++ r' := by
  obtain ⟨n, d, t, rest, front⟩ := @Turns.begins _ table h
  rw [part_any, front]
  intro heq
  have fronts : List.replicate 0 '(' ++
        ((s.sql (columnText table c)).text.toList ++ r) =
      List.replicate (n + 1) '(' ++
        ((t.sql (columnText table d)).text.toList ++
          (rest ++ ([')'] ++ r'))) := by
    refine Eq.trans heq ?_
    simp only [List.replicate_succ, List.cons_append, List.append_assoc]
  cases Test.parentheses_eq fronts

theorem told_test (table c : String) (s : Test Value) : Told table (.test c s) := by
  intro q hq hqa r r' hr hr' h
  cases hq with
  | test =>
    obtain ⟨rfl, worded, hrest⟩ := Test.front_injective (m := 0) (n := 0) hr hr' h
    exact ⟨.test worded, hrest⟩
  | all => cases hqa
  | any parts turn => exact absurd h (part_test_ne_any c s (.any parts turn) r r')

/-- Disjunctions of what is told up to `AND` are told up to a closing parenthesis or the end. -/
theorem disjuncts_of_words {ps qs : List (Predicate Value)} (hps : ps ≠ []) (hqs : qs ≠ [])
    (h : ∀ p ∈ ps, ToldUpToAnd table p) (turns : ∀ q ∈ qs, Turns q)
    (turn : ∀ q ∈ qs, q.isAny = false) {r r' : List Char} (hr : r.head? ≠ some ' ')
    (hr' : r'.head? ≠ some ' ')
    (heq : " OR ".toList.intercalate (ps.map (words table)) ++ r =
      " OR ".toList.intercalate (qs.map (words table)) ++ r') :
    List.Forall₂ Reads ps qs ∧ r = r' := by
  have no : ∀ {x sep : List Char}, x.head? ≠ some ' ' → sep.head? = some ' ' → ¬sep <+: x := by
    rintro x sep hx hsep ⟨rest, rfl⟩
    rw [List.head?_append, hsep] at hx
    exact hx rfl
  have ends : ∀ {x : List Char}, x.head? ≠ some ' ' → EndsConjunction x := fun hx =>
    ⟨no hx (by decide), no hx (by decide)⟩
  refine separated_injective Reads EndsConjunction (fun x => ⟨?_, ?_⟩) (ends hr) (ends hr')
    (no hr (by decide)) (no hr' (by decide)) hps hqs
    (fun p hp q hq => h p hp q (turns q hq) (turn q hq)) heq
  · rintro ⟨rest, hx⟩
    exact absurd (List.head_eq_of_cons_eq (List.tail_eq_of_cons_eq hx)) (by decide)
  · rintro ⟨rest, hx⟩
    exact absurd (List.head_eq_of_cons_eq (List.tail_eq_of_cons_eq hx)) (by decide)

theorem told_any {p q : Predicate Value} {ps : List (Predicate Value)}
    (hp : Turns (any (p :: q :: ps)))
    (h : ∀ r ∈ p :: q :: ps, ToldUpToAnd table r) :
    Told table (any (p :: q :: ps)) := by
  intro q' hq' hqa r r' _ _ heq
  cases hq' with
  | @test c s => exact absurd heq.symm (part_test_ne_any c s hp r' r)
  | all => cases hqa
  | any parts turn =>
    rw [part_any, part_any, words_any, words_any] at heq
    simp only [List.cons_append, List.append_assoc, List.nil_append, List.cons.injEq,
      true_and] at heq
    have closed : ∀ x : List Char, (')' :: x).head? ≠ some ' ' := fun _ h =>
      absurd (Option.some.inj h) (by decide)
    obtain ⟨reads, hr⟩ := disjuncts_of_words (List.cons_ne_nil _ _) (List.cons_ne_nil _ _) h parts
      turn (closed r) (closed r') heq
    exact ⟨.any reads, List.tail_eq_of_cons_eq hr⟩

/-- What has conjuncts that are told is told up to `AND`. -/
theorem toldUpToAnd (hp : Turns p) (hpa : p.isAny = false)
    (h : ∀ c ∈ p.conjuncts, Told table c) : ToldUpToAnd table p := by
  intro q hq hqa r r' hr hr' heq
  rw [words_eq_conjuncts hp hpa, words_eq_conjuncts hq hqa] at heq
  have stops : ∀ x, Test.Stops (" AND ".toList ++ x) := fun x ⟨rest, hx⟩ =>
    absurd (List.head_eq_of_cons_eq (List.tail_eq_of_cons_eq hx)) (by decide)
  obtain ⟨parts, hrest⟩ := separated_injective Reads Test.Stops stops hr.1 hr'.1 hr.2 hr'.2
    hp.conjuncts.1 hq.conjuncts.1
    (fun c hc d hd => h c hc d (hq.conjuncts.2 d hd).1 (hq.conjuncts.2 d hd).2) heq
  exact ⟨reads_of_conjuncts hp hq hpa hqa parts, hrest⟩

/-- Comparisons and joins in turns are told from their texts, inside others too. -/
theorem Turns.told (h : Turns p) : (p.isAll = false → Told table p) ∧
    (p.isAny = false → ToldUpToAnd table p) := by
  induction h with
  | @test c t =>
    have told := told_test table c t
    exact ⟨fun _ => told, fun hp =>
      toldUpToAnd Turns.test hp (List.forall_mem_singleton.2 told)⟩
  | @all p q ps parts turn ih =>
    exact ⟨nofun, fun hp =>
      toldUpToAnd (.all parts turn) hp fun c hc => (ih c hc).1 (turn c hc)⟩
  | @any p q ps parts turn ih =>
    exact ⟨fun _ => told_any (.any parts turn) fun r hr => (ih r hr).2 (turn r hr), nofun⟩

/-- The disjuncts of a condition, in its text. -/
theorem words_eq_disjuncts (h : Turns p) :
    words table p = " OR ".toList.intercalate (p.disjuncts.map (words table)) := by
  cases h with
  | test | all =>
    show _ = " OR ".toList.intercalate [words table _]
    rw [List.intercalate_singleton]
  | any => exact words_any _

theorem reads_of_disjuncts (hp : Turns p) (hq : Turns q)
    (h : List.Forall₂ Reads p.disjuncts q.disjuncts) : Reads p q := by
  cases hp with
  | test | all =>
    cases hq with
    | test | all => exact (List.forall₂_cons.1 h).1
    | any => cases (List.forall₂_cons.1 h).2
  | any =>
    cases hq with
    | test | all => cases (List.forall₂_cons.1 h).2
    | any => exact .any h

/-- Joins of comparisons that have one text are the same joins of comparisons worded alike. -/
theorem Comparing.reads (hp : Comparing p) (hq : Comparing q)
    (h : words table p = words table q) : Reads p q := by
  have tp := hp.turns
  have tq := hq.turns
  rw [words_eq_disjuncts tp, words_eq_disjuncts tq] at h
  have told : ∀ c ∈ p.disjuncts, ToldUpToAnd table c := fun c hc =>
    (tp.disjuncts.2 c hc).1.told.2 (tp.disjuncts.2 c hc).2
  have ended : " OR ".toList.intercalate (p.disjuncts.map (words table)) ++ [] =
      " OR ".toList.intercalate (q.disjuncts.map (words table)) ++ [] := congrArg (· ++ []) h
  have none : ([] : List Char).head? ≠ some ' ' := nofun
  exact reads_of_disjuncts tp tq (disjuncts_of_words tp.disjuncts.1 tq.disjuncts.1 told
    (fun c hc => (tq.disjuncts.2 c hc).1) (fun c hc => (tq.disjuncts.2 c hc).2) none none ended).1

end Predicate

end TableGraph
