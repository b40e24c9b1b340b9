import TableGraph.Answer.Reading
import TableGraph.Proofs.Load.Same
import TableGraph.Proofs.Orders
import TableGraph.Proofs.Plans
import TableGraph.Proofs.Sealing.Types
import TableGraph.Sample.Registered

/-!
# Orders as clients write them

A client orders by an object whose keys are fields and whose values are directions; the first key
decides.  Coercion gives the object in the order of the type, so the order of the client is restored
from the document or from the variables of the request.  Main statement: `delivers_iff`.  The order
of the client is the order of the rows, except that of a default value, which comes in the order of
the type.
-/

namespace TableGraph

open TableGraph.Graph

/-! ## Lists -/

section Lists

variable {α β : Type}

/-- A part of a list is what is kept of the list if the items of the part are. -/
theorem filter_contains_of_sublist [DecidableEq α] {part whole : List α} (distinct : whole.Nodup)
    (h : part.Sublist whole) : whole.filter part.contains = part := by
  refine (distinct.perm_iff_eq_of_sublist List.filter_sublist h).1 ?_
  refine (List.perm_ext_iff_of_nodup (distinct.filter _) (h.nodup distinct)).2 fun a => ?_
  rw [List.mem_filter, List.contains_iff_mem]
  exact ⟨fun ha => ha.2, fun ha => ⟨h.subset ha, ha⟩⟩

theorem lookup_map_snd (f : α → β) (xs : List (String × α)) (k : String) :
    (xs.map fun x => (x.1, f x.2)).lookup k = (xs.lookup k).map f := by
  induction xs with
  | nil => rfl
  | cons x xs ih =>
    rw [List.map_cons, List.lookup_cons, List.lookup_cons, ih]
    split <;> rfl

theorem lookup_filterMap_name (name : α → String) (g : String → Option β) (xs : List α)
    (k : String) : (xs.filterMap fun x => (g (name x)).map fun b => (name x, b)).lookup k =
      if k ∈ xs.map name then g k else none := by
  induction xs with
  | nil => rfl
  | cons x xs ih =>
    rw [List.map_cons]
    cases found : g (name x) with
    | none =>
      rw [List.filterMap_cons_none (by rw [found]; rfl), ih]
      by_cases own : k = name x
      · rw [own, found]
        simp
      · simp [own]
    | some b =>
      rw [List.filterMap_cons_some (by rw [found]; rfl), List.lookup_cons, ih]
      by_cases own : k = name x
      · simp [own, found]
      · rw [beq_false_of_ne own]
        simp [own]

theorem sublist_filterMap {γ : Type} {g : α → Option β} {c : β → γ} {d : α → γ} {xs : List α}
    (h : ∀ x ∈ xs, ∀ y, g x = some y → c y = d x) :
    ((xs.filterMap g).map c).Sublist (xs.map d) := by
  induction xs with
  | nil => exact .slnil
  | cons x xs ih =>
    have rest := ih fun y hy => h y (List.mem_cons_of_mem x hy)
    cases hx : g x with
    | none =>
      rw [List.filterMap_cons_none hx]
      exact rest.cons _
    | some y =>
      rw [List.filterMap_cons_some hx, List.map_cons, List.map_cons, h x List.mem_cons_self y hx]
      exact rest.cons_cons _

theorem eq_of_map_eq {f : α → β} {xs ys : List α} (inj : ∀ x ∈ xs, ∀ y ∈ ys, f x = f y → x = y)
    (h : xs.map f = ys.map f) : xs = ys := by
  rw [← List.forall₂_eq_eq_eq, List.forall₂_map_left_iff, List.forall₂_map_right_iff] at h
  rw [← List.forall₂_eq_eq_eq]
  exact forall₂_imp_mem h inj

end Lists

/-! ## Wishes -/

/-- What a client asks of a field: a direction, descending or not, or null. -/
abbrev Wish := String × Option Bool

namespace Wish

/-- A direction as a value. -/
def value : Option Bool → Value
  | none => .null
  | some false => .text "Asc"
  | some true => .text "Desc"

/-- A direction as it is written in a document. -/
def literal : Option Bool → Literal
  | none => .null
  | some false => .name "Asc"
  | some true => .name "Desc"

theorem isDescending_value (descending : Bool) :
    Order.isDescending (value (some descending)) = descending := by
  cases descending <;> decide +kernel

/-- The object of some wishes, in their order. -/
def fields (wishes : List Wish) : List (String × Value) := wishes.map fun w => (w.1, value w.2)

/-- The same object in a document. -/
def literals (wishes : List Wish) : List (String × Literal) :=
  wishes.map fun w => (w.1, literal w.2)

end Wish

namespace Projection

variable {p : Projection} {wishes : List Wish}

/-- The order that is asked for by a field. -/
def asked (p : Projection) (wishes : List Wish) (name : String) : Option Order :=
  (wishes.lookup name).join.bind fun descending =>
    (p.orderFields.find? fun f => f.name = name).map fun f => ⟨f.column.name, descending⟩

/-- The orders of some wishes: the column and the direction of every key that is not null. -/
def wished (p : Projection) (wishes : List Wish) : List Order :=
  wishes.filterMap fun w => w.2.bind fun descending =>
    (p.orderFields.find? fun f => f.name = w.1).map fun f => ⟨f.column.name, descending⟩

/-- The wishes are for fields that can be ordered by, each of them once. -/
structure Takes (p : Projection) (wishes : List Wish) : Prop where
  known : ∀ w ∈ wishes, ∃ f ∈ p.orderFields, f.name = w.1
  distinct : (wishes.map (·.1)).Nodup

/-- The object of some wishes in the order of the fields. -/
def arranged (p : Projection) (wishes : List Wish) : List (String × Value) :=
  p.orderFields.filterMap fun f => (wishes.lookup f.name).map fun d => (f.name, Wish.value d)

/-- The fields and the columns to order by are told apart by their names. -/
structure OrdersApart (p : Projection) : Prop where
  fields : (p.orderFields.map (·.name)).Nodup
  columns : (p.orderFields.map (·.column.name)).Nodup

/-! ## Reading orders -/

theorem find?_orderField (apart : p.OrdersApart) {f : ColumnField} (hf : f ∈ p.orderFields) :
    (p.orderFields.find? fun g => g.name = f.name) = some f := find?_name apart.fields hf

theorem column_of_asked (apart : p.OrdersApart) {f : ColumnField} (hf : f ∈ p.orderFields)
    {o : Order} (h : p.asked wishes f.name = some o) : o.column = f.column.name := by
  obtain ⟨descending, -, h⟩ := Option.bind_eq_some_iff.1 h
  rw [find?_orderField apart hf] at h
  cases h
  rfl

theorem lookup_wish (takes : p.Takes wishes) {w : Wish} (hw : w ∈ wishes) :
    wishes.lookup w.1 = some w.2 := by
  have own := lookup_map_name (·.1) (f := fun w : Wish => w.2) takes.distinct hw
  rwa [show (wishes.map fun w => (w.1, w.2)) = wishes from List.map_id _] at own

/-- Orders are asked for key by key. -/
theorem wished_eq (takes : p.Takes wishes) :
    p.wished wishes = (wishes.map (·.1)).filterMap (p.asked wishes) := by
  unfold wished
  rw [List.filterMap_map]
  refine List.filterMap_congr fun w hw => ?_
  unfold asked
  rw [Function.comp_apply, lookup_wish takes hw]
  rfl

/-- The keys of the arranged object are those of the wishes, in the order of the fields. -/
theorem names_arranged : (p.arranged wishes).map (·.1) =
    (p.orderFields.map (·.name)).filter (wishes.map (·.1)).contains := by
  unfold arranged
  induction p.orderFields with
  | nil => rfl
  | cons f fs ih =>
    rw [List.map_cons]
    cases found : wishes.lookup f.name with
    | none =>
      have unasked : ¬(wishes.map (·.1)).contains f.name := by
        rw [List.contains_iff_mem, List.mem_map]
        rintro ⟨w, hw, hname⟩
        exact absurd (List.lookup_eq_none_iff.1 found w hw) (by simp [hname])
      rw [List.filterMap_cons_none (by rw [found]; rfl), List.filter_cons_of_neg unasked, ih]
    | some d =>
      have asked : (wishes.map (·.1)).contains f.name :=
        List.contains_iff_mem.2 (List.mem_map_of_mem (mem_of_lookup found))
      rw [List.filterMap_cons_some (by rw [found]; rfl), List.filter_cons_of_pos asked,
        List.map_cons, ih]

theorem lookup_arranged {f : ColumnField} (hf : f ∈ p.orderFields) :
    (p.arranged wishes).lookup f.name = (wishes.lookup f.name).map Wish.value := by
  have arranged := lookup_filterMap_name (·.name)
    (fun name => (wishes.lookup name).map Wish.value) p.orderFields f.name
  rw [if_pos (List.mem_map_of_mem hf)] at arranged
  simpa only [Option.map_map, Projection.arranged, Function.comp_def] using arranged

/-- The keys of the arranged object are read one after another. -/
theorem ofKeys_arranged (apart : p.OrdersApart) (takes : p.Takes wishes) {keys : List String}
    (known : ∀ k ∈ keys, k ∈ wishes.map (·.1)) :
    Order.ofKeys p (p.arranged wishes) keys = .ok (keys.filterMap (p.asked wishes)) := by
  induction keys with
  | nil => rfl
  | cons k keys ih =>
    rw [List.forall_mem_cons] at known
    obtain ⟨w, hw, rfl⟩ := List.mem_map.1 known.1
    obtain ⟨f, hf, hname⟩ := takes.known w hw
    unfold Order.ofKeys
    have found : (p.arranged wishes).lookup w.1 = some (Wish.value w.2) := by
      rw [← hname, lookup_arranged hf, hname, lookup_wish takes hw]
      rfl
    have column := find?_orderField apart hf
    rw [hname] at column
    rw [ih known.2, found]
    obtain ⟨name, direction⟩ := w
    cases direction with
    | none =>
      rw [List.filterMap_cons_none]
      · rfl
      · rw [asked, lookup_wish takes hw]
        rfl
    | some descending =>
      rw [List.filterMap_cons_some (b := ⟨f.column.name, descending⟩)]
      · have direction := Wish.isDescending_value descending
        cases descending <;>
        · simp only [Wish.value, Option.getD_some, column] at direction ⊢
          rw [direction]
          rfl
      · rw [asked, lookup_wish takes hw, column]
        rfl

theorem nodup_arranged (apart : p.OrdersApart) : ((p.arranged wishes).map (·.1)).Nodup := by
  rw [names_arranged]
  exact apart.fields.filter _

theorem mem_arranged (takes : p.Takes wishes) {k : String} :
    k ∈ (p.arranged wishes).map (·.1) ↔ k ∈ wishes.map (·.1) := by
  rw [names_arranged, List.mem_filter, List.contains_iff_mem]
  refine and_iff_right_of_imp fun hk => ?_
  obtain ⟨w, hw, rfl⟩ := List.mem_map.1 hk
  obtain ⟨f, hf, hname⟩ := takes.known w hw
  exact hname ▸ List.mem_map_of_mem hf

/-- The columns of orders that come in the order of the fields. -/
theorem sublist_unwritten (apart : p.OrdersApart) :
    ((((p.arranged wishes).map (·.1)).filterMap (p.asked wishes)).map (·.column)).Sublist
      (p.orderFields.map (·.column.name)) := by
  have fields : (((p.orderFields.map (·.name)).filterMap (p.asked wishes)).map (·.column)).Sublist
      (p.orderFields.map (·.column.name)) := by
    rw [List.filterMap_map]
    exact sublist_filterMap fun f hf o => column_of_asked apart hf
  refine (List.Sublist.map _ (List.Sublist.filterMap _ ?_)).trans fields
  rw [names_arranged]
  exact List.filter_sublist

section Apart

variable (apart : p.OrdersApart) (takes : p.Takes wishes)
include apart takes

/-- The orders are those of the client if its keys are known in their order. -/
theorem ofValue_of_written {written : List String} (distinct : written.Nodup)
    (given : (wishes.map (·.1)).Sublist written) :
    Order.ofValue p (.object (p.arranged wishes)) (some written) = .ok (p.wished wishes) := by
  have first : written.filter ((p.arranged wishes).map (·.1)).contains = wishes.map (·.1) := by
    rw [← filter_contains_of_sublist distinct given]
    refine List.filter_congr fun k _ => Bool.eq_iff_iff.2 ?_
    simp only [List.contains_iff_mem, mem_arranged takes]
  have keys : Order.keysOf (p.arranged wishes) written = wishes.map (·.1) := by
    unfold Order.keysOf
    dsimp only
    rw [first, List.filter_eq_nil_iff.2, List.append_nil]
    intro k hk
    simpa using (mem_arranged takes).1 hk
  show Order.ofKeys p _ (Order.keysOf _ written) = _
  rw [keys, ofKeys_arranged apart takes fun k hk => hk, wished_eq takes]

/-- If nothing is known of the keys, the orders come in the order of the fields. -/
theorem ofValue_of_unwritten :
    Order.ofValue p (.object (p.arranged wishes)) none =
      .ok (((p.arranged wishes).map (·.1)).filterMap (p.asked wishes)) := by
  have keys : Order.keysOf (p.arranged wishes) [] = (p.arranged wishes).map (·.1) :=
    List.filter_eq_self.2 fun _ _ => rfl
  show Order.ofKeys p _ (Order.keysOf _ []) = _
  rw [keys, ofKeys_arranged apart takes fun k => (mem_arranged takes).1]

theorem perm_unwritten :
    (((p.arranged wishes).map (·.1)).filterMap (p.asked wishes)).Perm (p.wished wishes) := by
  rw [wished_eq takes]
  refine List.Perm.filterMap _ ?_
  exact (List.perm_ext_iff_of_nodup (nodup_arranged apart) takes.distinct).2
    fun k => mem_arranged takes

/-- Orders that come in the order of the fields are those of the client exactly if it wrote them in
this order. -/
theorem unwritten_eq_iff :
    ((p.arranged wishes).map (·.1)).filterMap (p.asked wishes) = p.wished wishes ↔
      ((p.wished wishes).map (·.column)).Sublist (p.orderFields.map (·.column.name)) := by
  have perm := perm_unwritten apart takes
  have fields := @sublist_unwritten p wishes apart
  constructor
  · intro same
    rwa [same] at fields
  · intro own
    have columns := (apart.columns.perm_iff_eq_of_sublist fields own).1 (perm.map _)
    have once := own.nodup apart.columns
    exact eq_of_map_eq (fun o ho o' ho' h => List.inj_on_of_nodup_map once (perm.mem_iff.1 ho) ho' h)
      columns

end Apart

end Projection

/-! ## Coercion -/

namespace Graph

variable {s : TypeSystem} {p : Projection} {wishes : List Wish} {used : List (String × Value)}

/-- The fields of the type of orders. -/
def orderInputs (p : Projection) : List InputField :=
  p.orderFields.map fun f => ⟨f.name, .named orderByName⟩

/-- The types of orders are found by their names. -/
structure Orderable (s : TypeSystem) (p : Projection) : Prop where
  fields : s.inputFields? p.orderTypeName = some (orderInputs p)
  directions : s.body? orderByName =
    some (.enumeration [("Asc", .text "Asc"), ("Desc", .text "Desc")])

/-- The literal stands for a direction, whether it is written or a variable that has one. -/
inductive Denotes (used : List (String × Value)) : Literal → Option Bool → Prop
  | written (d : Option Bool) : Denotes used (Wish.literal d) d
  | bound {v : String} {d : Option Bool} (found : used.lookup v = some (Wish.value d)) :
      Denotes used (.variable v) d

/-- An object of a document stands for some wishes; a variable without a value leaves its key out. -/
inductive Spells (used : List (String × Value)) : List (String × Literal) → List Wish → Prop
  | nil : Spells used [] []
  | cons {l : Literal} {d : Option Bool} {fields : List (String × Literal)} {wishes : List Wish}
      (name : String) (denotes : Denotes used l d) (rest : Spells used fields wishes) :
      Spells used ((name, l) :: fields) ((name, d) :: wishes)
  | absent {l : Literal} {fields : List (String × Literal)} {wishes : List Wish} (name : String)
      (absent : isAbsent used l = true) (rest : Spells used fields wishes) :
      Spells used ((name, l) :: fields) wishes

theorem spells_literals : ∀ wishes : List Wish, Spells used (Wish.literals wishes) wishes
  | [] => .nil
  | (name, d) :: wishes => .cons name (.written d) (spells_literals wishes)

theorem Spells.sublist {fields : List (String × Literal)} (h : Spells used fields wishes) :
    (wishes.map (·.1)).Sublist (fields.map (·.1)) := by
  induction h with
  | nil => exact .slnil
  | cons _ _ _ ih => exact ih.cons_cons _
  | absent _ _ _ ih => exact ih.cons _

/-- The object of some wishes is put in the order of the fields. -/
theorem arrange_fields : arrange (Wish.fields wishes) (orderInputs p) = some (p.arranged wishes) := by
  rw [@arrange_eq _ (orderInputs p) (List.forall_mem_map.2 fun _ _ => rfl)]
  unfold orderInputs Wish.fields Projection.arranged
  rw [List.filterMap_map]
  simp only [Function.comp_def, lookup_map_snd, Option.map_map]

theorem typeOf?_orderInputs {name : String} (h : ∃ f ∈ p.orderFields, f.name = name) :
    typeOf? (orderInputs p) name = some (.named orderByName) := by
  obtain ⟨f, hf, rfl⟩ := h
  unfold typeOf? orderInputs
  rw [List.find?_map]
  cases found : p.orderFields.find? ((fun g : InputField => decide (g.name = f.name)) ∘
      fun f => ⟨f.name, .named orderByName⟩) with
  | none => simpa using List.find?_eq_none.1 found f hf
  | some g => rfl

section Orderable

variable (orderable : Orderable s p)
include orderable

theorem ofLiteral?_direction {l : Literal} {d : Option Bool} (h : Denotes used l d) :
    isAbsent used l = false ∧
      ofLiteral? s used l (.named orderByName) = some (Wish.value d) := by
  have leaf := orderable.directions
  cases h with
  | written =>
    rcases d with - | - | - <;> refine ⟨rfl, ?_⟩
    · rfl
    all_goals
      simp only [Wish.literal, ofLiteral?, leafOfLiteral?, TypeRef.base, leaf]
      rfl
  | bound found =>
    refine ⟨by simp [isAbsent, found], ?_⟩
    simp only [ofLiteral?, ofVariable?, found]
    rcases d with - | - | - <;> rfl

theorem ofValue?_direction (d : Option Bool) :
    ofValue? s (Wish.value d) (.named orderByName) = some (Wish.value d) := by
  have leaf := orderable.directions
  rcases d with - | - | -
  · rfl
  all_goals
    simp only [Wish.value, ofValue?, leafOfValue?, TypeRef.base, leaf]
    rfl

/-- Wishes that are written are coerced in the order of the client. -/
theorem ofWritten?_wishes {fields : List (String × Literal)} (h : Spells used fields wishes)
    (known : ∀ w ∈ wishes, ∃ f ∈ p.orderFields, f.name = w.1) :
    ofWritten? s used fields (orderInputs p) = some (Wish.fields wishes) := by
  induction h with
  | nil => rfl
  | cons name denotes rest ih =>
    rw [List.forall_mem_cons] at known
    obtain ⟨present, value⟩ := ofLiteral?_direction orderable denotes
    rw [ofWritten?, ih known.2, typeOf?_orderInputs known.1]
    simp only [present, value]
    rfl
  | absent name absent rest ih =>
    rw [ofWritten?, ih known]
    cases typeOf? (orderInputs p) name with
    | none => rfl
    | some t =>
      simp only [absent]
      rfl

/-- Wishes that are sent are coerced in the order of the client. -/
theorem ofFields?_wishes (known : ∀ w ∈ wishes, ∃ f ∈ p.orderFields, f.name = w.1) :
    ofFields? s (Wish.fields wishes) (orderInputs p) = some (Wish.fields wishes) := by
  induction wishes with
  | nil => rfl
  | cons w wishes ih =>
    rw [List.forall_mem_cons] at known
    show ofFields? s ((w.1, Wish.value w.2) :: Wish.fields wishes) _ = _
    rw [ofFields?, ih known.2, typeOf?_orderInputs known.1]
    simp only [Option.bind_eq_bind, Option.bind_some, ofValue?_direction orderable]
    rfl

omit orderable in
theorem base_of_nullable {t : TypeRef} {name : String} (h : t.nullable = .named name) :
    t.base = name ∧ t.layers = 0 := by
  cases t with
  | named => exact ⟨by cases h; rfl, rfl⟩
  | list => cases h
  | nonNull inner =>
    obtain rfl : inner = .named name := h
    exact ⟨rfl, rfl⟩

section Known

variable (known : ∀ w ∈ wishes, ∃ f ∈ p.orderFields, f.name = w.1) {t : TypeRef}
  (typed : t.nullable = .named p.orderTypeName)
include known typed

/-- An object of a document is put in the order of the fields. -/
theorem ofLiteral?_wishes {fields : List (String × Literal)} (h : Spells used fields wishes) :
    ofLiteral? s used (.object fields) t = some (.object (p.arranged wishes)) := by
  obtain ⟨base, layers⟩ := base_of_nullable typed
  rw [ofLiteral?, base, orderable.fields, layers]
  simp only [ofWritten?_wishes orderable h known, Option.bind_eq_bind, Option.bind_some,
    arrange_fields]
  rfl

/-- An object that is sent is put in the order of the fields. -/
theorem ofValue?_wishes :
    ofValue? s (.object (Wish.fields wishes)) t = some (.object (p.arranged wishes)) := by
  obtain ⟨base, layers⟩ := base_of_nullable typed
  rw [ofValue?, base, orderable.fields, layers]
  simp only [ofFields?_wishes orderable known, Option.bind_eq_bind, Option.bind_some,
    arrange_fields]
  rfl

end Known

end Orderable

/-! ## Variables -/

/-- The value of a variable that is sent or has a default value. -/
def valueOf? (s : TypeSystem) (sent : List (String × Value)) (d : VariableDefinition) :
    Option (Option Value) :=
  match sent.lookup d.name, d.defaultValue with
  | some x, _ => some (ofValue? s x d.type)
  | none, some l => some (ofLiteral? s [] l d.type)
  | none, none => none

theorem lookup_variableValues {sent : List (String × Value)} {parameters : List VariableDefinition}
    (h : variableValues s sent parameters = some used) {d : VariableDefinition} {v : String}
    (declared : parameters.find? (fun d => d.name = v) = some d) {value : Option Value}
    (supplied : valueOf? s sent d = some value) : used.lookup v = value := by
  induction parameters generalizing used with
  | nil => cases declared
  | cons e parameters ih =>
    obtain ⟨vs, hvs, h⟩ := Option.bind_eq_some_iff.1 h
    by_cases own : e.name = v
    · rw [List.find?_cons_of_pos (by simpa using own)] at declared
      cases declared
      subst own
      unfold valueOf? at supplied
      split at h
      next x hx =>
        rw [hx] at supplied
        obtain ⟨a, ha, h⟩ := Option.bind_eq_some_iff.1 h
        cases h
        cases supplied
        rw [List.lookup_cons_self, ha]
      next l hx hl =>
        rw [hx, hl] at supplied
        obtain ⟨a, ha, h⟩ := Option.bind_eq_some_iff.1 h
        cases h
        cases supplied
        rw [List.lookup_cons_self, ha]
      next hx hl =>
        rw [hx, hl] at supplied
        cases supplied
    · rw [List.find?_cons_of_neg (by simpa using own)] at declared
      have other : (v == e.name) = false := beq_false_of_ne (Ne.symm own)
      have rest := ih hvs declared
      split at h
      · obtain ⟨a, -, h⟩ := Option.bind_eq_some_iff.1 h
        cases h
        rwa [List.lookup_cons, other]
      · obtain ⟨a, -, h⟩ := Option.bind_eq_some_iff.1 h
        cases h
        rwa [List.lookup_cons, other]
      · split_ifs at h
        cases h
        exact rest

/-! ## Ways to send an order -/

/-- How an order reaches a field. -/
inductive Way
  /-- It is written where the field is. -/
  | literal
  /-- It is the value of a variable that is sent with the request. -/
  | sent
  /-- It is the default value of a variable that is not sent. -/
  | default

/-- Some wishes reach a field whose arguments are given, in the order in which they are written. -/
inductive Supplied (p : Projection) (parameters : List VariableDefinition) (bindings : Variables)
    (given : List (String × Literal)) : Way → List Wish → Prop
  | literal {fields : List (String × Literal)} {wishes : List Wish}
      (argument : given.lookup "orderBy" = some (.object fields))
      (distinct : (fields.map (·.1)).Nodup) (spells : Spells bindings.used fields wishes) :
      Supplied p parameters bindings given .literal wishes
  | sent {v : String} {d : VariableDefinition} {wishes : List Wish}
      (argument : given.lookup "orderBy" = some (.variable v))
      (declared : parameters.find? (fun d => d.name = v) = some d)
      (typed : d.type.nullable = .named p.orderTypeName)
      (sent : bindings.sent.lookup v = some (.object (Wish.fields wishes))) :
      Supplied p parameters bindings given .sent wishes
  | default {v : String} {d : VariableDefinition} {wishes : List Wish}
      (argument : given.lookup "orderBy" = some (.variable v))
      (declared : parameters.find? (fun d => d.name = v) = some d)
      (typed : d.type.nullable = .named p.orderTypeName)
      (unsent : bindings.sent.lookup v = none)
      (value : d.defaultValue = some (.object (Wish.literals wishes))) :
      Supplied p parameters bindings given .default wishes

/-- The argument of an order. -/
def orderArgument (p : Projection) : InputField := ⟨"orderBy", .named p.orderTypeName⟩

variable {parameters : List VariableDefinition} {bindings : Variables}
  {given : List (String × Literal)} {way : Way}

/-- Whatever way an order takes, it reaches the field as an object in the order of the fields. -/
theorem Supplied.argumentValue_eq (orderable : Orderable s p)
    (known : ∀ w ∈ wishes, ∃ f ∈ p.orderFields, f.name = w.1)
    (accepted : variableValues s bindings.sent parameters = some bindings.used)
    (h : Supplied p parameters bindings given way wishes) :
    argumentValue s bindings.used (orderArgument p) (given.lookup "orderBy") =
      .ok (some (.object (p.arranged wishes))) := by
  have bound : ∀ {v}, given.lookup "orderBy" = some (.variable v) →
      bindings.used.lookup v = some (.object (p.arranged wishes)) →
      argumentValue s bindings.used (orderArgument p) (given.lookup "orderBy") =
        .ok (some (.object (p.arranged wishes))) := by
    intro v argument found
    rw [argument]
    unfold argumentValue
    simp only [Option.filter, isAbsent, found, Option.isNone_some, Bool.not_false, if_true]
    simp only [ofLiteral?, ofVariable?, found]
  cases h with
  | literal argument distinct spells =>
    have value := ofLiteral?_wishes orderable known (t := .named p.orderTypeName) rfl spells
    rw [argument]
    unfold argumentValue orderArgument
    simp only [Option.filter, isAbsent, Bool.not_false, if_true, value]
  | @sent v d _ argument declared typed sent =>
    have name : d.name = v := by simpa using List.find?_some declared
    refine bound argument (lookup_variableValues accepted declared ?_)
    unfold valueOf?
    rw [name, sent, ← ofValue?_wishes orderable known typed]
  | @default v d _ argument declared typed unsent value =>
    have name : d.name = v := by simpa using List.find?_some declared
    refine bound argument (lookup_variableValues accepted declared ?_)
    unfold valueOf?
    rw [name, unsent, value, ← ofLiteral?_wishes orderable known typed (spells_literals wishes)]

theorem Supplied.ofValue_eq (apart : p.OrdersApart) (takes : p.Takes wishes)
    (h : Supplied p parameters bindings given way wishes) (literal : way ≠ .default) :
    Order.ofValue p (.object (p.arranged wishes)) (writtenKeys bindings.sent given) =
      .ok (p.wished wishes) := by
  unfold writtenKeys
  cases h with
  | literal argument distinct spells =>
    rw [argument]
    exact Projection.ofValue_of_written apart takes distinct spells.sublist
  | sent argument declared typed sent =>
    have names : (Wish.fields wishes).map (·.1) = wishes.map (·.1) := List.map_map
    rw [argument]
    simp only [sent, names]
    exact Projection.ofValue_of_written apart takes takes.distinct (List.Sublist.refl _)
  | default => exact absurd rfl literal

/-- Nothing is known of the keys of a default value. -/
theorem Supplied.writtenKeys_eq (h : Supplied p parameters bindings given .default wishes) :
    writtenKeys bindings.sent given = none := by
  cases h with
  | default argument declared typed unsent value =>
    unfold writtenKeys
    rw [argument]
    simp only [unsent]

end Graph

/-! ## Schemas -/

namespace Builder

open TableGraph.Graph

variable {b : Builder} {schema : SealedSchema} {p : Projection}

theorem orderable (built : b.build = .ok schema) (hp : p ∈ schema.projections) :
    Orderable schema.types p := by
  obtain ⟨-, -, -, collected, check⟩ := build_eq_ok built
  obtain ⟨enumerations, -, -, types, -⟩ := buildTypes_iff.1 collected
  have shared : orderByType ∈ schema.types.types := by
    rw [types]
    refine List.mem_append_left _ (List.mem_append_right _ ?_)
    simp [sharedTypes]
  have own : entityOrderType p ∈ schema.types.types := by
    rw [types]
    refine List.mem_append_right _ (List.mem_flatMap.2 ⟨p, hp, ?_⟩)
    simp [entityTypes]
  refine ⟨inputFields?_eq (TypeSystem.body?_of_suffix check own p.typeName "OrderInput" rfl
    (by decide)), ?_⟩
  exact TypeSystem.body?_of_mem check shared (by decide) (by decide)

theorem ordersApart (built : b.build = .ok schema) (hp : p ∈ schema.projections) :
    p.OrdersApart := by
  obtain ⟨-, shows⟩ := shows_entity built hp
  have columns : p.fields.map (·.column) = p.entity.visibleColumns := by
    have each := (mapM_eq_ok.1 shows.fields).flip
    rw [← List.map_id p.entity.visibleColumns]
    refine map_eq_of_forall₂ (each.imp fun f c h => ?_)
    obtain ⟨filter, -, h⟩ := bind_eq_ok.1 h
    cases h
    rfl
  have visible : (p.fields.map (·.column.name)).Nodup := by
    have own : (p.entity.visibleColumns.map (·.name)).Nodup :=
      p.entity.distinct.sublist (List.filter_sublist.map _)
    rw [← columns, List.map_map] at own
    exact own
  exact ⟨(List.nodup_append.1 shows.distinct).1.sublist (List.filter_sublist.map _),
    visible.sublist (List.filter_sublist.map _)⟩

end Builder

/-! ## Rows in order -/

namespace Answer

open TableGraph.Graph

variable {b : Builder} {schema : SealedSchema} {p : Projection} {bindings : Variables}
  {given : List (String × Literal)} {orders : List Order} {values : List (String × Value)} {v : Value}

/-- The rows of an entity come in some order: so the argument of a field is read, pages of the root
are asked for, and related rows are loaded, which are told apart by their keys if they are walked. -/
structure Delivers (schema : SealedSchema) (p : Projection) (bindings : Variables)
    (given : List (String × Literal)) (orders : List Order) : Prop where
  read : ∃ v, argumentValue schema.types bindings.used (orderArgument p) (given.lookup "orderBy") =
    .ok (some v) ∧ Order.ofValue p v (writtenKeys bindings.sent given) = .ok orders
  root : ∀ extra values r,
    argumentValues schema.types bindings.used given (connectionArguments p) = .ok values →
    Reading.ofPage ⟨schema, extra⟩ p ⟨values, writtenKeys bindings.sent given⟩ = .ok r →
    ∃ condition request, r = .page p condition orders request
  related : ∀ extra relation row values found, relation.isToMany = true →
    argumentValues schema.types bindings.used given (connectionArguments p) = .ok values →
    related ⟨schema, extra⟩ relation p row ⟨values, writtenKeys bindings.sent given⟩ = .ok found →
    found.load.key.group.orders =
      if found.request.isCursor then Order.withKey orders p.entity.primaryKey else orders

theorem get_orderBy (written : Option (List String))
    (h : argumentValues schema.types bindings.used given (connectionArguments p) = .ok values)
    (value : argumentValue schema.types bindings.used (orderArgument p) (given.lookup "orderBy") =
      .ok (some v)) : (⟨values, written⟩ : Arguments).get "orderBy" = v := by
  obtain ⟨filters, -, h⟩ := bind_eq_ok.1 h
  obtain ⟨rest, hrest, h⟩ := bind_eq_ok.1 h
  obtain ⟨found, hfound, hrest⟩ := bind_eq_ok.1 hrest
  obtain ⟨pagination, -, hrest⟩ := bind_eq_ok.1 hrest
  cases hfound.symm.trans value
  cases hrest
  cases h
  cases filters <;> rfl

/-- What is read of the argument is the order in which all rows come. -/
theorem delivers_iff_read : Delivers schema p bindings given orders ↔
    ∃ v, argumentValue schema.types bindings.used (orderArgument p) (given.lookup "orderBy") =
      .ok (some v) ∧ Order.ofValue p v (writtenKeys bindings.sent given) = .ok orders := by
  refine ⟨Delivers.read, fun ⟨v, value, read⟩ => ⟨⟨v, value, read⟩, ?_, ?_⟩⟩
  · intro extra values r accepted h
    have own := get_orderBy (writtenKeys bindings.sent given) accepted value
    obtain ⟨_, -, h⟩ := bind_eq_ok.1 h
    obtain ⟨request, -, h⟩ := bind_eq_ok.1 h
    obtain ⟨orders', horders, h⟩ := bind_eq_ok.1 h
    obtain ⟨scope, -, h⟩ := bind_eq_ok.1 h
    obtain ⟨condition, -, h⟩ := bind_eq_ok.1 h
    cases h
    rw [own] at horders
    cases horders.symm.trans read
    exact ⟨_, _, rfl⟩
  · intro extra relation row values found toMany accepted h
    have own := get_orderBy (writtenKeys bindings.sent given) accepted value
    obtain ⟨_, -, h⟩ := bind_eq_ok.1 h
    obtain ⟨_, -, h⟩ := bind_eq_ok.1 h
    obtain ⟨scope, -, h⟩ := bind_eq_ok.1 h
    rw [if_pos toMany] at h
    obtain ⟨request, -, h⟩ := bind_eq_ok.1 h
    obtain ⟨orders', horders, h⟩ := bind_eq_ok.1 h
    obtain ⟨load, hload, h⟩ := bind_eq_ok.1 h
    obtain ⟨condition, -, hload⟩ := bind_eq_ok.1 hload
    rw [own] at horders
    cases horders.symm.trans read
    cases hload
    cases h
    rfl

variable {parameters : List VariableDefinition} {way : Way} {wishes : List Wish}

/-- The rows of a field come in the order of the client, except that a default value asks for its
columns in the order of the type. -/
theorem delivers_iff (built : b.build = .ok schema) (hp : p ∈ schema.projections)
    (accepted : variableValues schema.types bindings.sent parameters = some bindings.used)
    (takes : p.Takes wishes) (supplied : Supplied p parameters bindings given way wishes) :
    (∃ orders, Delivers schema p bindings given orders ∧ orders.Perm (p.wished wishes)) ∧
      (Delivers schema p bindings given (p.wished wishes) ↔ (way = .default →
        ((p.wished wishes).map (·.column)).Sublist (p.orderFields.map (·.column.name)))) := by
  have apart := Builder.ordersApart built hp
  have value := supplied.argumentValue_eq (Builder.orderable built hp) takes.known accepted
  simp only [delivers_iff_read, value]
  by_cases default : way = .default
  · subst default
    rw [supplied.writtenKeys_eq]
    have read := Projection.ofValue_of_unwritten apart takes
    refine ⟨⟨_, ⟨_, rfl, read⟩, Projection.perm_unwritten apart takes⟩, ?_⟩
    rw [← Projection.unwritten_eq_iff apart takes]
    constructor
    · rintro ⟨_, ⟨⟩, own⟩ -
      exact Except.ok.inj (read.symm.trans own)
    · exact fun same => ⟨_, rfl, read.trans (congrArg Except.ok (same rfl))⟩
  · have read := supplied.ofValue_eq apart takes default
    exact ⟨⟨_, ⟨_, rfl, read⟩, List.Perm.refl _⟩,
      iff_of_true ⟨_, rfl, read⟩ fun way => absurd way default⟩

/-! ### Fields of a document -/

/-- A field that is planned among others, at any depth. -/
inductive Among : List Planned → Planned → Prop
  | own {ps : List Planned} {f : Planned} (mem : f ∈ ps) : Among ps f
  | deeper {ps : List Planned} {f g : Planned} (mem : f ∈ ps) (inside : Among f.selections g) :
      Among ps g

/-- A planned field takes its arguments, and the keys of its order, from one field of the document.
The others of its name in the answer have the same arguments. -/
theorem exists_given {s : TypeSystem} {depth : Nat} {type : String} {selections : List Selection}
    {ps : List Planned} (planned : planFields s bindings depth type selections = .ok ps)
    {f : Planned} (among : Among ps f) : ∃ given,
      f.arguments = argumentValues s bindings.used given f.field.arguments ∧
        f.written = writtenKeys bindings.sent given := by
  induction among generalizing depth type selections with
  | own mem =>
    cases depth with
    | zero =>
      cases planned
      cases mem
    | succ depth =>
      obtain ⟨fields, -, planned⟩ := bind_eq_ok.1 planned
      cases planned
      obtain ⟨⟨key, shapes⟩, -, hplanned⟩ := List.mem_filterMap.1 mem
      cases shapes with
      | nil => cases hplanned
      | cons shape shapes =>
        obtain ⟨field, -, rfl⟩ := Option.map_eq_some_iff.1 hplanned
        exact ⟨shape.arguments, rfl, rfl⟩
  | deeper mem among ih =>
    obtain ⟨-, inner, -, n, -, none | inside⟩ := exists_of_planFields planned mem
    · rw [none] at among
      cases among with
      | own mem => cases mem
      | deeper mem => cases mem
    · exact ih inside

section Items

open Sample.Items

/-- Items by their ranks, and those of one rank from the last to the first. -/
def ranked : List Wish := [("rank", some false), ("id", some true)]

theorem projections_items (built : (builder {}).build = .ok schema) :
    schema.projections = [projection] := by
  obtain ⟨-, -, projections, -⟩ := Builder.build_eq_ok built
  have own : [entity].mapM (Builder.project {}) = .ok [projection] := by
    with_unfolding_all rfl
  exact Except.ok.inj (projections.symm.trans own)

theorem takes_ranked : projection.Takes ranked := ⟨by decide, by decide⟩

theorem delivers_iff_ranked : ∃ schema, (builder {}).build = .ok schema ∧
    projection ∈ schema.projections ∧
    Delivers schema projection ⟨[], []⟩ [("orderBy", .object (Wish.literals ranked))]
      [⟨"rank", false⟩, ⟨"id", true⟩] := by
  obtain ⟨schema, built⟩ : ∃ schema, (builder {}).build = .ok schema :=
    exists_of_isOk (by decide +kernel)
  have known : projection ∈ schema.projections := by simp [projections_items built]
  have supplied : Supplied projection [] ⟨[], []⟩ [("orderBy", .object (Wish.literals ranked))]
      .literal ranked := .literal rfl (by decide) (spells_literals ranked)
  have both := delivers_iff built known (by rfl) takes_ranked supplied
  have wished : projection.wished ranked = [⟨"rank", false⟩, ⟨"id", true⟩] := by decide +kernel
  exact ⟨schema, built, known, wished ▸ both.2.2 nofun⟩

/-- The ranks are asked for first in a default value, but the rows come by their numbers. -/
theorem not_delivers_default : ∃ schema parameters bindings given,
    (builder {}).build = .ok schema ∧ projection ∈ schema.projections ∧
    variableValues schema.types bindings.sent parameters = some bindings.used ∧
    projection.Takes ranked ∧ Supplied projection parameters bindings given .default ranked ∧
    ¬Delivers schema projection bindings given (projection.wished ranked) := by
  obtain ⟨schema, built⟩ : ∃ schema, (builder {}).build = .ok schema :=
    exists_of_isOk (by decide +kernel)
  have known : projection ∈ schema.projections := by simp [projections_items built]
  have orderable := Builder.orderable built known
  let d : VariableDefinition :=
    ⟨"o", .named "ItemOrderInput", some (.object (Wish.literals ranked)), []⟩
  let bindings : Variables := ⟨[("o", .object (projection.arranged ranked))], []⟩
  have value : ofLiteral? schema.types [] (.object (Wish.literals ranked))
      (.named "ItemOrderInput") = some (.object (projection.arranged ranked)) :=
    ofLiteral?_wishes orderable takes_ranked.known rfl (spells_literals ranked)
  have accepted : variableValues schema.types [] [d] = some bindings.used := by
    show (do
      let a ← ofLiteral? schema.types [] (.object (Wish.literals ranked)) (.named "ItemOrderInput")
      some [("o", a)]) = _
    rw [value]
    rfl
  have supplied : Supplied projection [d] bindings [("orderBy", .variable "o")] .default ranked :=
    .default rfl rfl rfl rfl rfl
  refine ⟨schema, [d], bindings, _, built, known, accepted, takes_ranked, supplied,
    fun delivers => ?_⟩
  obtain ⟨v, hv, read⟩ := delivers.read
  cases (supplied.argumentValue_eq orderable takes_ranked.known accepted).symm.trans hv
  have other : Order.ofValue projection (.object (projection.arranged ranked)) none ≠
      .ok (projection.wished ranked) := by
    decide +kernel
  exact other read

end Items

end Answer

end TableGraph
