import TableGraph.Proofs.ClientOrder
import TableGraph.Proofs.Walk.Place

/-!
# Orders are total

What a client asks for is normalised: every key of its object that is not null gives the column of
its field once, the keys of the client in its order and then the others in theirs.  Completed by a
key, an order names no column twice and all those of the key, so that rows whose keys differ are
ordered strictly, whatever the client asked for.

Main statement: `Order.strict_of_ofValue`.
-/

namespace TableGraph

theorem nodup_of_forall₂ {α β γ : Type} {R : α → β → Prop} {g : β → γ} {xs : List α} {ys : List β}
    (h : List.Forall₂ R xs ys) (apart : ∀ x x' y y', R x y → R x' y' → g y = g y' → x = x')
    (distinct : xs.Nodup) : (ys.map g).Nodup := by
  induction h with
  | nil => exact List.nodup_nil
  | @cons x y xs ys hxy rest ih =>
    obtain ⟨hx, distinct⟩ := List.nodup_cons.1 distinct
    refine List.nodup_cons.2 ⟨fun hy => ?_, ih distinct⟩
    obtain ⟨y', hy', same⟩ := List.mem_map.1 hy
    obtain ⟨x', hx', h'⟩ := exists_of_forall₂ rest.flip hy'
    exact hx (apart x' x y' y h' hxy same ▸ hx')

/-! ## Rows in front of others -/

namespace Table

variable {os : List Order} {a b : Row}

/-- The row comes in front of the other in the first column in which they differ. -/
def Precedes (os : List Order) (a b : Row) : Prop :=
  ∃ equal o rest, os = equal ++ o :: rest ∧
    (∀ o' ∈ equal, compareBy o' a b = .eq) ∧ compareBy o a b = .lt

theorem precedes_iff : Precedes os a b ↔ compareRows os a b = .lt := by
  constructor
  · rintro ⟨equal, o, rest, rfl, same, less⟩
    rw [compareRows_append, compareRows_eq_iff.2 same, Ordering.eq_then, compareRows_cons, less]
    rfl
  · intro h
    induction os with
    | nil => cases h
    | cons o os ih =>
      rw [compareRows_cons] at h
      cases first : compareBy o a b with
      | lt => exact ⟨[], o, os, rfl, nofun, first⟩
      | gt =>
        rw [first] at h
        cases h
      | eq =>
        rw [first, Ordering.eq_then] at h
        obtain ⟨equal, o', rest, rfl, same, less⟩ := ih h
        exact ⟨o :: equal, o', rest, rfl, List.forall_mem_cons.2 ⟨first, same⟩, less⟩

instance (os : List Order) : IsStrictOrder Row (Precedes os) where
  irrefl a h := by
    rw [precedes_iff, compareRows_self] at h
    cases h
  trans a b c hab hbc :=
    precedes_iff.2 (Std.TransCmp.lt_trans (precedes_iff.1 hab) (precedes_iff.1 hbc))

/-- Rows that are not alike in all columns come one in front of the other. -/
theorem xor_precedes (apart : compareRows os a b ≠ .eq) :
    Xor (Precedes os a b) (Precedes os b a) := by
  have swap : compareRows os b a = (compareRows os a b).swap := Std.OrientedCmp.eq_swap
  unfold Xor
  rw [precedes_iff, precedes_iff, swap]
  cases h : compareRows os a b with
  | eq => exact absurd h apart
  | lt => exact .inl ⟨rfl, nofun⟩
  | gt => exact .inr ⟨rfl, nofun⟩

end Table

namespace Order

/-! ## Keys of an object -/

section Keys

variable {p : Projection} {fields : List (String × Value)} {written keys : List String}
  {orders : List Order}

/-- The fields of a value; what is no object has none. -/
def fieldsOf : Value → List (String × Value)
  | .object fields => fields
  | _ => []

/-- The keys that are not null, in the order of the object. -/
def askedKeys (fields : List (String × Value)) : List String :=
  (fields.filter fun x => !x.2.isNull).map (·.1)

/-- Every key that is not null comes once: those that the client wrote in its order, then the rest
in the order of the object. -/
structure Arranges (fields : List (String × Value)) (written names : List String) : Prop where
  once : names.Perm (askedKeys fields)
  split : ∃ first rest, names = first ++ rest ∧ first.Sublist written ∧
    rest.Sublist (askedKeys fields) ∧ ∀ k ∈ rest, k ∉ written

/-- The order of a key: the column of the field of this name, in the direction of its value. -/
def Reads (p : Projection) (fields : List (String × Value)) (k : String) (o : Order) : Prop :=
  ∃ f ∈ p.orderFields, f.name = k ∧ f.column.name = o.column ∧
    ∃ v, (k, v) ∈ fields ∧ o.descending = isDescending v

/-- The value of the key is not null. -/
def isAsked (fields : List (String × Value)) (k : String) : Bool :=
  !((fields.lookup k).getD .null).isNull

theorem forall₂_of_ofKeys (h : ofKeys p fields keys = .ok orders) :
    List.Forall₂ (Reads p fields) (keys.filter (isAsked fields)) orders := by
  induction keys generalizing orders with
  | nil =>
    cases h
    exact .nil
  | cons k keys ih =>
    unfold ofKeys at h
    split at h
    next unasked =>
      rw [List.filter_cons_of_neg (by simp [isAsked, unasked, Value.isNull])]
      exact ih h
    next asked =>
      obtain ⟨v, found⟩ : ∃ v, fields.lookup k = some v := by
        refine Option.ne_none_iff_exists'.1 fun none => asked ?_
        rw [none]
        rfl
      rw [found, Option.getD_some] at asked h
      have own : isAsked fields k := by
        unfold isAsked
        rw [found, Option.getD_some]
        cases v <;> first | rfl | exact absurd rfl asked
      split at h
      next => cases h
      next f hf =>
        obtain ⟨rest, hrest, h⟩ := bind_eq_ok.1 h
        cases h
        rw [List.filter_cons_of_pos own]
        have name : f.name = k := by simpa using List.find?_some hf
        exact .cons ⟨f, List.mem_of_find?_eq_some hf, name, rfl, v, mem_of_lookup found, rfl⟩
          (ih hrest)

theorem filter_isAsked (distinct : (fields.map (·.1)).Nodup) :
    (fields.map (·.1)).filter (isAsked fields) = askedKeys fields := by
  unfold askedKeys
  rw [List.filter_map]
  congr 1
  refine List.filter_congr fun x hx => ?_
  have own := lookup_map_name (·.1) (f := fun x : String × Value => x.2) distinct hx
  rw [show (fields.map fun x => (x.1, x.2)) = fields from List.map_id _] at own
  rw [Function.comp_apply, isAsked, own, Option.getD_some]

/-- The keys are taken as they should be. -/
theorem arranges_keysOf (distinct : (fields.map (·.1)).Nodup) (once : written.Nodup) :
    Arranges fields written ((keysOf fields written).filter (isAsked fields)) := by
  have asked := filter_isAsked distinct
  unfold keysOf
  dsimp only
  generalize hfirst : written.filter (fields.map (·.1)).contains = first
  have mem_first : ∀ k, k ∈ first ↔ k ∈ written ∧ k ∈ fields.map (·.1) := by
    intro k
    rw [← hfirst, List.mem_filter, List.contains_iff_mem]
  have mem_rest : ∀ k, k ∈ (fields.map (·.1)).filter (!first.contains ·) ↔
      k ∈ fields.map (·.1) ∧ k ∉ first := by
    intro k
    simp [List.mem_filter]
  rw [List.filter_append]
  refine ⟨?_, _, _, rfl, ?_, ?_, ?_⟩
  · rw [← asked, ← List.filter_append]
    refine List.Perm.filter _ ((List.perm_ext_iff_of_nodup ?_ distinct).2 fun k => ?_)
    · refine List.nodup_append.2 ⟨hfirst ▸ once.filter _, distinct.filter _, ?_⟩
      rintro k hk _ hk' rfl
      exact ((mem_rest k).1 hk').2 hk
    · rw [List.mem_append, mem_rest, mem_first]
      tauto
  · exact (List.filter_sublist).trans (hfirst ▸ List.filter_sublist)
  · rw [← asked, List.filter_comm]
    exact List.filter_sublist
  · intro k hk hwritten
    obtain ⟨own, other⟩ := (mem_rest k).1 (List.mem_filter.1 hk).1
    exact other ((mem_first k).2 ⟨hwritten, own⟩)

end Keys

/-! ## Orders that are read -/

section Normal

variable {b : Builder} {schema : SealedSchema} {p : Projection} {v : Value}
  {written : Option (List String)} {key : List String} {orders : List Order}

/-- The orders are those of the keys that are not null, in their order; no column comes twice. -/
structure Normal (p : Projection) (fields : List (String × Value)) (written : List String)
    (orders : List Order) : Prop where
  keys : ∃ names, Arranges fields written names ∧ List.Forall₂ (Reads p fields) names orders
  distinct : (orders.map (·.column)).Nodup

/-- An order is completed by a key: it comes first, then columns of the key, ascending. -/
structure Completes (key : List String) (orders completed : List Order) : Prop where
  first : ∃ rest, completed = orders ++ rest ∧ (rest.map (·.column)).Sublist key ∧
    ∀ o ∈ rest, o.descending = false
  has : ∀ k ∈ key, ∃ o ∈ completed, o.column = k
  distinct : (completed.map (·.column)).Nodup

theorem ofKeys_of_ofValue (h : ofValue p v written = .ok orders) :
    ofKeys p (fieldsOf v) (keysOf (fieldsOf v) (written.getD [])) = .ok orders := by
  unfold ofValue at h
  split at h
  next => exact h
  next other =>
    split_ifs at h
    cases h
    have none : fieldsOf v = [] := by
      unfold fieldsOf
      split
      next => exact absurd rfl (other _)
      next => rfl
    rw [none]
    have keys : keysOf [] (written.getD []) = [] := by simp [keysOf]
    rw [keys]
    rfl

theorem normal_of_ofValue (apart : p.OrdersApart) (distinct : ((fieldsOf v).map (·.1)).Nodup)
    (once : (written.getD []).Nodup) (h : ofValue p v written = .ok orders) :
    Normal p (fieldsOf v) (written.getD []) orders := by
  have arranges := arranges_keysOf distinct once
  have reads := forall₂_of_ofKeys (ofKeys_of_ofValue h)
  refine ⟨⟨_, arranges, reads⟩, nodup_of_forall₂ reads ?_ ?_⟩
  · rintro _ _ o o' ⟨f, hf, rfl, own, -⟩ ⟨f', hf', rfl, own', -⟩ same
    rw [← own, ← own'] at same
    rw [List.inj_on_of_nodup_map apart.columns hf hf' same]
  · refine arranges.once.nodup_iff.2 ?_
    rw [← filter_isAsked distinct]
    exact distinct.filter _

theorem completes_withKey (distinct : (orders.map (·.column)).Nodup) (hkey : key.Nodup) :
    Completes key orders (withKey orders key) := by
  refine ⟨⟨_, rfl, ?_, ?_⟩, exists_of_mem_key, ?_⟩
  · rw [List.map_map]
    exact (List.map_id _).symm ▸ List.filter_sublist
  · intro o ho
    obtain ⟨k, -, rfl⟩ := List.mem_map.1 ho
    rfl
  · have columns : (withKey orders key).map (·.column) = orders.map (·.column) ++
        key.filter (!(orders.map (·.column)).contains ·) := by
      unfold withKey
      rw [List.map_append, List.map_map]
      exact congrArg _ (List.map_id _)
    rw [columns]
    refine List.nodup_append.2 ⟨distinct, hkey.filter _, ?_⟩
    rintro k hk _ hk' rfl
    have other := (List.mem_filter.1 hk').2
    rw [List.contains_iff_mem.2 hk] at other
    cases other

/-- Rows whose keys differ are not alike by an order with the columns of the key. -/
theorem Completes.compareRows_ne {completed : List Order} (h : Completes key orders completed)
    {a b : Row} (differ : ∃ k ∈ key, (a.get k).order (b.get k) ≠ .eq) :
    Table.compareRows completed a b ≠ .eq := by
  obtain ⟨k, hk, differ⟩ := differ
  obtain ⟨o, ho, rfl⟩ := h.has k hk
  intro same
  have own := Table.compareRows_eq_iff.1 same o ho
  unfold Table.compareBy at own
  split at own
  · exact differ (Std.OrientedCmp.eq_symm own)
  · exact differ own

/-- Whatever a client asks of an entity is normalised, and completed by a key it is a strict order
in which of two rows whose keys differ one precedes the other. -/
theorem strict_of_ofValue (built : b.build = .ok schema) (hp : p ∈ schema.projections)
    (distinct : ((fieldsOf v).map (·.1)).Nodup) (once : (written.getD []).Nodup)
    (h : ofValue p v written = .ok orders) :
    Normal p (fieldsOf v) (written.getD []) orders ∧
      ∀ key : List String, key.Nodup → Completes key orders (withKey orders key) ∧
        IsStrictOrder Row (Table.Precedes (withKey orders key)) ∧
        ∀ a b : Row, (∃ k ∈ key, (a.get k).order (b.get k) ≠ .eq) →
          Xor (Table.Precedes (withKey orders key) a b)
            (Table.Precedes (withKey orders key) b a) := by
  have normal := normal_of_ofValue (Builder.ordersApart built hp) distinct once h
  refine ⟨normal, fun key hkey => ?_⟩
  have completes := completes_withKey normal.distinct hkey
  exact ⟨completes, inferInstance, fun a b differ =>
    Table.xor_precedes (completes.compareRows_ne differ)⟩

open Sample.Items in
/-- The ranks come first because the client wrote them first, the marks are null, and the numbers
tell items of one rank apart. -/
theorem strict_of_ofValue_items : ∃ schema, (builder {}).build = .ok schema ∧
    projection ∈ schema.projections ∧
    Normal projection [("id", .text "Desc"), ("rank", .text "Asc"), ("mark", .null)]
      ["mark", "rank"] [⟨"rank", false⟩, ⟨"id", true⟩] ∧
    Xor
      (Table.Precedes [⟨"rank", false⟩, ⟨"id", true⟩] (item 1 (.int 7) true) (item 2 (.int 7) true))
      (Table.Precedes [⟨"rank", false⟩, ⟨"id", true⟩] (item 2 (.int 7) true)
        (item 1 (.int 7) true)) := by
  obtain ⟨schema, built⟩ : ∃ schema, (builder {}).build = .ok schema :=
    exists_of_isOk (by decide +kernel)
  have known : projection ∈ schema.projections := by simp [Answer.projections_items built]
  have read : ofValue projection
      (.object [("id", .text "Desc"), ("rank", .text "Asc"), ("mark", .null)])
      (some ["mark", "rank"]) = .ok [⟨"rank", false⟩, ⟨"id", true⟩] := by decide +kernel
  obtain ⟨normal, total⟩ := strict_of_ofValue built known (by decide) (by decide) read
  obtain ⟨-, -, strict⟩ := total ["id"] (by decide)
  have differ :
      ((item 1 (.int 7) true).get "id").order ((item 2 (.int 7) true).get "id") ≠ .eq := by
    decide +kernel
  exact ⟨schema, built, known, normal, strict _ _ ⟨"id", by decide, differ⟩⟩

end Normal

end Order

end TableGraph
