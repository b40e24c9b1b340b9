import TableGraph.Proofs.Load.Same

/-!
# Identity of keys

Integers and decimals that are one whole number are the same part of a key, whatever exponent the
decimal has and however many zeros it ends in.  Apart from that, parts of a key are the same only if
they are equal values of one type: a truth value is no number here, and numbers that differ are
never the same.

Main statement: `LoadKey.identity_exact`.
-/

namespace TableGraph

/-! ## Parts of keys -/

namespace Value

variable {v w : Value} {n : Int}

/-- The values that keys are made of. -/
def isKeyPart : Value → Bool
  | null | bool _ | int _ | text _ | bytes _ | date _ | uuid _ => true
  | decimal d => d.isFinite
  | _ => false

/-- The value is an integer, or a decimal, of the size of a whole number. -/
inductive IsWhole : Value → Int → Prop
  | int (n : Int) : IsWhole (.int n) n
  | decimal {s : Bool} {c : Nat} {e n : Int} (size : (Decimal.finite s c e).toRat = n) :
    IsWhole (.decimal (.finite s c e)) n

/-- What it is for two values to be the same part of a key. -/
inductive SamePart : Value → Value → Prop
  /-- Both are one whole number. -/
  | whole {v w : Value} {n : Int} (first : v.IsWhole n) (second : w.IsWhole n) : SamePart v w
  /-- Both are decimals of one size that is not whole. -/
  | fraction {s t : Bool} {c d : Nat} {e f : Int}
    (size : (Decimal.finite s c e).toRat = (Decimal.finite t d f).toRat)
    (part : ∀ n : Int, (Decimal.finite s c e).toRat ≠ n) :
    SamePart (.decimal (.finite s c e)) (.decimal (.finite t d f))
  /-- They are one value that is not a number. -/
  | other {v : Value} (type : v.typeName ∉ ["int", "Decimal"]) : SamePart v v

/-- The number that an integer or a finite decimal is. -/
def size? : Value → Option ℚ
  | int n => some n
  | decimal (.finite s c e) => some (Decimal.finite s c e).toRat
  | _ => none

theorem isWhole_decimal_iff {s : Bool} {c : Nat} {e : Int} :
    (decimal (.finite s c e)).IsWhole n ↔ (Decimal.finite s c e).toRat = n :=
  ⟨fun | .decimal size => size, .decimal⟩

theorem IsWhole.size?_eq (h : v.IsWhole n) : v.size? = some (n : ℚ) := by
  cases h with
  | int => rfl
  | decimal size => exact congrArg some size

/-- Finite numbers are the same exactly if they are of one size. -/
theorem sameNumber_iff_toRat {x y : Decimal} (hx : x.isFinite) (hy : y.isFinite)
    (hv : v.number? = some x) (hw : w.number? = some y) : sameNumber v w ↔ x.toRat = y.toRat := by
  cases x with
  | infinite | nan => cases hx
  | finite s c e =>
    cases y with
    | infinite | nan => cases hy
    | finite t d f =>
      unfold sameNumber
      rw [hv, hw]
      show (some (Decimal.compareFinite s c e t d f) == some .eq) = true ↔ _
      rw [Option.some_beq_some, beq_iff_eq, Decimal.compareFinite_eq_iff]

theorem same_int_iff {m n : Int} : (int m).same (int n) ↔ m = n := by
  have size := sameNumber_iff_toRat (v := int m) (w := int n) rfl rfl rfl rfl
  rwa [Decimal.toRat_ofInt, Decimal.toRat_ofInt, Int.cast_inj] at size

theorem same_decimal_iff {x y : Decimal} (hx : x.isFinite) (hy : y.isFinite) :
    (decimal x).same (decimal y) ↔ x.toRat = y.toRat :=
  sameNumber_iff_toRat (v := decimal x) (w := decimal y) hx hy rfl rfl

theorem same_bool_iff {b c : Bool} : (bool b).same (bool c) ↔ b = c := by
  have size := sameNumber_iff_toRat (v := bool b) (w := bool c) rfl rfl rfl rfl
  rw [Decimal.toRat_ofInt, Decimal.toRat_ofInt, Int.cast_inj] at size
  refine Iff.trans size ?_
  cases b <;> cases c <;> decide

theorem same_self_of_isKeyPart (h : v.isKeyPart) : v.same v := by
  cases v with
  | decimal d =>
    cases d with
    | finite => exact same_self rfl rfl
    | infinite | nan => cases h
  | null | bool | int | text | bytes | date | uuid => exact same_self rfl rfl
  | float | time | dateTime | list | tuple | object | member => cases h

/-- Values of one type that are the same and not whole are the same part of a key. -/
theorem samePart_of_same (hv : v.isKeyPart) (hw : w.isKeyPart) (notWhole : ∀ n, ¬ v.IsWhole n)
    (type : v.typeName = w.typeName) (h : v.same w) : v.SamePart w := by
  cases v with
  | int n => exact absurd (.int n) (notWhole n)
  | decimal x =>
    cases w with
    | decimal y =>
      have size := (same_decimal_iff hv hw).1 h
      cases x with
      | infinite | nan => cases hv
      | finite =>
        cases y with
        | infinite | nan => cases hw
        | finite => exact .fraction size fun n hn => notWhole n (.decimal hn)
    | _ => simp [typeName] at type
  | bool b =>
    cases w with
    | bool c =>
      obtain rfl := same_bool_iff.1 h
      exact .other (by simp [typeName])
    | _ => simp [typeName] at type
  | null => cases w <;> first | cases h; done | exact .other (by simp [typeName])
  | text | bytes | date | uuid =>
    cases w <;> first | cases h | (cases eq_of_beq h; exact .other (by simp [typeName]))
  | float | time | dateTime | list | tuple | object | member => cases hv

end Value

namespace Identity

open Value

variable {v w : Value} {n : Int}

theorem ofValue_of_isWhole (h : v.IsWhole n) : ofValue v = ⟨"int", .int n⟩ := by
  cases h with
  | int => rfl
  | decimal size =>
    unfold ofValue
    dsimp only
    rw [Decimal.toInt?_eq_some_iff.2 size]

theorem ofValue_of_not_isWhole (hv : v.isKeyPart) (h : ∀ n, ¬ v.IsWhole n) :
    ofValue v = ⟨v.typeName, v⟩ ∧ v.typeName ≠ "int" := by
  cases v with
  | int n => exact absurd (.int n) (h n)
  | decimal d =>
    cases d with
    | finite s c e =>
      have none : (Decimal.finite s c e).toInt? = none :=
        Option.eq_none_iff_forall_ne_some.2 fun n hn =>
          h n (.decimal (Decimal.toInt?_eq_some_iff.1 hn))
      unfold ofValue
      dsimp only
      rw [none]
      exact ⟨rfl, by simp [typeName]⟩
    | infinite | nan => cases hv
  | null | bool | text | bytes | date | uuid => exact ⟨rfl, by simp [typeName]⟩
  | float | time | dateTime | list | tuple | object | member => cases hv

theorem same_iff {a b : Identity} :
    a.same b ↔ a.family = b.family ∧ a.value.same b.value := by
  unfold same
  rw [Bool.and_eq_true, decide_eq_true_iff]

theorem same_whole_iff {m : Int} (hv : v.IsWhole m) (hw : w.IsWhole n) :
    (ofValue v).same (ofValue w) ↔ m = n := by
  rw [ofValue_of_isWhole hv, ofValue_of_isWhole hw, same_iff, and_iff_right rfl]
  exact same_int_iff

/-- Two values have one identity exactly if they are the same part of a key. -/
theorem ofValue_same_iff (hv : v.isKeyPart) (hw : w.isKeyPart) :
    (ofValue v).same (ofValue w) ↔ v.SamePart w := by
  constructor
  · intro h
    by_cases wholeV : ∃ m, v.IsWhole m
    · obtain ⟨m, hm⟩ := wholeV
      by_cases wholeW : ∃ n, w.IsWhole n
      · obtain ⟨n, hn⟩ := wholeW
        obtain rfl := (same_whole_iff hm hn).1 h
        exact .whole hm hn
      · obtain ⟨identity, other⟩ := ofValue_of_not_isWhole hw (not_exists.1 wholeW)
        rw [ofValue_of_isWhole hm, identity, same_iff] at h
        exact absurd h.1.symm other
    · obtain ⟨identity, other⟩ := ofValue_of_not_isWhole hv (not_exists.1 wholeV)
      by_cases wholeW : ∃ n, w.IsWhole n
      · obtain ⟨n, hn⟩ := wholeW
        rw [ofValue_of_isWhole hn, identity, same_iff] at h
        exact absurd h.1 other
      · obtain ⟨identity', -⟩ := ofValue_of_not_isWhole hw (not_exists.1 wholeW)
        rw [identity, identity', same_iff] at h
        exact samePart_of_same hv hw (not_exists.1 wholeV) h.1 h.2
  · intro h
    cases h with
    | whole first second => exact (same_whole_iff first second).2 rfl
    | fraction size part =>
      have first := fun n whole => part n (isWhole_decimal_iff.1 whole)
      have second := fun n whole => part n (size.trans (isWhole_decimal_iff.1 whole))
      rw [(ofValue_of_not_isWhole hv first).1, (ofValue_of_not_isWhole hw second).1, same_iff]
      exact ⟨rfl, (same_decimal_iff rfl rfl).2 size⟩
    | other type =>
      have notWhole : ∀ n, ¬ v.IsWhole n := by
        rintro n (_ | _)
        · exact type (by simp [typeName])
        · exact type (by simp [typeName])
      rw [(ofValue_of_not_isWhole hv notWhole).1, same_iff]
      exact ⟨rfl, same_self_of_isKeyPart hv⟩

/-- Keys are the same exactly if they are of one length and the same part by part. -/
theorem sameKey_iff {vs ws : List Value} (hvs : ∀ v ∈ vs, v.isKeyPart)
    (hws : ∀ w ∈ ws, w.isKeyPart) :
    sameKey (vs.map ofValue) (ws.map ofValue) ↔ List.Forall₂ SamePart vs ws := by
  induction vs generalizing ws with
  | nil => cases ws <;> simp [sameKey]
  | cons v vs ih =>
    cases ws with
    | nil => simp [sameKey]
    | cons w ws =>
      rw [List.forall_mem_cons] at hvs hws
      rw [List.forall₂_cons, ← ofValue_same_iff hvs.1 hws.1, ← ih hvs.2 hws.2, List.map_cons,
        List.map_cons, sameKey, Bool.and_eq_true]

end Identity

namespace Value.SamePart

variable {v w : Value}

theorem refl (h : v.isKeyPart) : v.SamePart v := by
  rw [← Identity.ofValue_same_iff h h, Identity.same_iff]
  by_cases whole : ∃ n, v.IsWhole n
  · obtain ⟨n, hn⟩ := whole
    rw [Identity.ofValue_of_isWhole hn]
    exact ⟨rfl, same_self rfl rfl⟩
  · rw [(Identity.ofValue_of_not_isWhole h (not_exists.1 whole)).1]
    exact ⟨rfl, same_self_of_isKeyPart h⟩

theorem symm (h : v.SamePart w) : w.SamePart v := by
  cases h with
  | whole first second => exact .whole second first
  | fraction size part => exact .fraction size.symm fun n hn => part n (size.trans hn)
  | other type => exact .other type

/-- Numbers that are the same part of a key are of one size, and nothing else is with a number. -/
theorem size?_eq (h : v.SamePart w) : v.size? = w.size? := by
  cases h with
  | whole first second => rw [first.size?_eq, second.size?_eq]
  | fraction size => exact congrArg some size
  | other => rfl

/-- A truth value is the same part of a key as itself only. -/
theorem bool_iff (h : v.SamePart w) (t : Bool) : v = .bool t ↔ w = .bool t := by
  cases h with
  | whole first second =>
    refine iff_of_false ?_ ?_
    · rintro rfl
      cases first
    · rintro rfl
      cases second
  | fraction => exact iff_of_false nofun nofun
  | other => exact Iff.rfl

end Value.SamePart

/-! ## Keys -/

/-- The groups agree on everything but the condition. -/
structure Group.AgreesWith (g g' : Group) : Prop where
  target : g.target = g'.target
  columns : g.columns = g'.columns
  junction : g.junction = g'.junction
  filters : g.filters.same g'.filters
  scope : g.scope.same g'.scope
  orders : g.orders = g'.orders

theorem Group.agreesWith_iff {g g' : Group} : g.AgreesWith g' ↔ g.same g' := by
  rw [same_iff]
  exact ⟨fun h => ⟨h.target, h.columns, h.junction, h.filters, h.scope, h.orders⟩,
    fun ⟨target, columns, junction, filters, scope, orders⟩ =>
      ⟨target, columns, junction, filters, scope, orders⟩⟩

namespace LoadKey

variable {k l : LoadKey}

/-- The key is made of values that keys are made of. -/
def HasParts (k : LoadKey) : Prop := ∀ v ∈ k.values, v.isKeyPart

instance (k : LoadKey) : Decidable k.HasParts := inferInstanceAs (Decidable (∀ v ∈ k.values, _))

/-- The key has such parts, and fingerprints of filter and scope. -/
structure IsProper (k : LoadKey) : Prop where
  parts : k.HasParts
  filters : k.group.filters.isHashable
  scope : k.group.scope.isHashable

/-- No undefined number, which is not the same as itself, is in filter and scope. -/
structure IsDefined (k : LoadKey) : Prop where
  filters : k.group.filters.isDefined
  scope : k.group.scope.isDefined

theorem same_iff : k.same l ↔ sameKey k.identity l.identity ∧ k.group.same l.group := by
  unfold same
  rw [Bool.and_eq_true]

theorem same_iff_samePart (hk : k.HasParts) (hl : l.HasParts) :
    k.same l ↔ k.group.AgreesWith l.group ∧ List.Forall₂ Value.SamePart k.values l.values := by
  rw [same_iff, Group.agreesWith_iff, and_comm]
  exact and_congr_right fun _ => Identity.sameKey_iff hk hl

theorem IsProper.same_self (h : k.IsProper) (defined : k.IsDefined) : k.same k := by
  refine (same_iff_samePart h.parts h.parts).2 ⟨Group.agreesWith_iff.2 ?_, ?_⟩
  · exact Group.same_iff.2 ⟨rfl, rfl, rfl, Value.same_self h.filters defined.filters,
      Value.same_self h.scope defined.scope, rfl⟩
  · exact List.forall₂_same.2 fun v hv => .refl (h.parts v hv)

theorem IsProper.same_symm (hk : k.IsProper) (hl : l.HasParts) (h : k.same l) : l.same k := by
  obtain ⟨agree, parts⟩ := (same_iff_samePart hk.parts hl).1 h
  refine (same_iff_samePart hl hk.parts).2 ⟨?_, parts.flip.imp fun _ _ same => same.symm⟩
  exact ⟨agree.target.symm, agree.columns.symm, agree.junction.symm,
    Value.same_symm hk.filters agree.filters, Value.same_symm hk.scope agree.scope,
    agree.orders.symm⟩

theorem same_trans {j : LoadKey} (h : k.same l) (h' : l.same j) : k.same j := by
  rw [same_iff] at *
  exact ⟨sameKey_trans h.1 h'.1, Group.same_trans h.2 h'.2⟩

theorem equivalence_same :
    Equivalence fun k l : { k : LoadKey // k.IsProper ∧ k.IsDefined } => k.1.same l.1 = true where
  refl k := k.2.1.same_self k.2.2
  symm {k l} h := k.2.1.same_symm l.2.1.parts h
  trans h h' := same_trans h h'

/-- The same keys hold the same numbers and the same truth values at the same places. -/
theorem forall₂_of_same (hk : k.HasParts) (hl : l.HasParts) (h : k.same l) :
    List.Forall₂ (fun v w => v.size? = w.size? ∧ ∀ t, v = .bool t ↔ w = .bool t)
      k.values l.values :=
  ((same_iff_samePart hk hl).1 h).2.imp fun _ _ same => ⟨same.size?_eq, same.bool_iff⟩

/--
Keys are the same exactly if their groups agree and their parts are the same one by one: whole
numbers of one size, or equal values of another type.  This is an equivalence, by which numbers of
different sizes and truth values and numbers are told apart; it is symmetric and transitive even
where an undefined number in filter or scope keeps a key from being the same as itself.
-/
theorem identity_exact :
    (∀ k l : LoadKey, k.HasParts → l.HasParts →
      (k.same l ↔ k.group.AgreesWith l.group ∧ List.Forall₂ Value.SamePart k.values l.values)) ∧
    Equivalence (fun k l : { k : LoadKey // k.IsProper ∧ k.IsDefined } => k.1.same l.1 = true) ∧
    (∀ k l : LoadKey, k.IsProper → l.IsProper → k.same l → l.same k) ∧
    (∀ k l j : LoadKey, k.same l → l.same j → k.same j) ∧
    ∀ k l : LoadKey, k.HasParts → l.HasParts → k.same l →
      List.Forall₂ (fun v w => v.size? = w.size? ∧ ∀ t, v = .bool t ↔ w = .bool t)
        k.values l.values :=
  ⟨fun _ _ hk hl => same_iff_samePart hk hl, equivalence_same,
    fun _ _ hk hl h => hk.same_symm hl.parts h, fun _ _ _ h h' => same_trans h h',
    fun _ _ hk hl h => forall₂_of_same hk hl h⟩

/-- A key of a row of staff, among rows that a filter leaves. -/
def staffKey (values : List Value) (condition : Option (Predicate Value)) : LoadKey where
  values
  group :=
    { target := "staff", columns := ["store_id", "share", "active", "code"], junction := none
      filters := (Value.object [("level", .object [("gte", .int 2)])]).freeze
      scope := .null, orders := [⟨"name", false⟩], condition }

/-- Whole numbers and decimals of one size are one key, and `true` and `1` are not. -/
theorem identity_exact_staff :
    let k := staffKey [.int 100, .decimal (.finite false 250 (-2)), .bool true, .text "1"] none
    let l := staffKey [.decimal (.finite false 1 2), .decimal (.finite false 25 (-1)), .bool true,
      .text "1"] (some .always)
    let j := staffKey [.int 100, .decimal (.finite false 25 (-1)), .int 1, .text "1"] none
    (k.IsProper ∧ l.IsProper ∧ j.IsProper) ∧ (k.IsDefined ∧ l.IsDefined) ∧
      (k.same k ∧ k.same l ∧ l.same k ∧ List.Forall₂ Value.SamePart k.values l.values) ∧
      ¬ k.same j := by
  intro k l j
  have hk : k.IsProper := ⟨by decide, by decide, by decide⟩
  have hl : l.IsProper := ⟨by decide, by decide, by decide⟩
  have hj : j.IsProper := ⟨by decide, by decide, by decide⟩
  have dk : k.IsDefined := ⟨by decide, by decide⟩
  have dl : l.IsDefined := ⟨by decide, by decide⟩
  have same : k.same l := by decide +kernel
  obtain ⟨exact, equivalence, symm, trans, apart⟩ := identity_exact
  refine ⟨⟨hk, hl, hj⟩, ⟨dk, dl⟩, ⟨equivalence.refl ⟨k, hk, dk⟩, same, ?_, ?_⟩, fun h => ?_⟩
  · exact symm k l hk hl same
  · exact ((exact k l hk.parts hl.parts).1 same).2
  · -- The third parts would have to be truth values both.
    have flags := apart k j hk.parts hj.parts h
    cases flags with
    | cons _ flags => cases flags with
      | cons _ flags => cases flags with
        | cons flag _ => exact nomatch (flag.2 true).1 rfl

end LoadKey

end TableGraph
