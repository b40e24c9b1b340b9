import TableGraph.Proofs.Ignored.Parts
import TableGraph.Proofs.Relations

/-!
# Answers that do not show a column

What fields find in two states of a store that differ in one column is alike: the same values, and
rows that differ in that column.  Below an item with rows of an entity, no field shows the column and
no relation matches it; below an item without rows there is nothing that could.  So the answers to
selections are the same.
-/

namespace TableGraph

/-- The relation from an entity matches other columns. -/
structure Relation.Clear (spot : Spot) (name : String) (r : Relation) : Prop where
  sources : ∀ c ∈ r.fromColumns, spot.Clear name c
  targets : ∀ c ∈ r.toColumns, spot.Clear r.target c
  junction : ∀ j, r.junction = some j →
    (∀ c ∈ j.fromColumns, spot.Clear j.table c) ∧ ∀ c ∈ j.toColumns, spot.Clear j.table c

namespace Graph.OutputField

/-- The field does not show the column of rows of an entity, and leads on by other columns. -/
def Clear (spot : Spot) (name : String) (f : OutputField) : Prop :=
  match f.source with
  | .column c => spot.Clear name c.column.name
  | .relation r target => target = r.relation.target ∧ r.relation.Clear spot name
  | _ => True

end Graph.OutputField

namespace Answer

open TableGraph.Graph

variable {spot : Spot} {env : Environment} {name : String} {rows : Option String}

mutual

/-- Neither the field nor any below it shows the column of rows of an entity. -/
def Planned.Clear (spot : Spot) : Planned → Option String → Prop
  | ⟨_, field, _, _, _, selections⟩, rows =>
    (∀ name, rows = some name → field.Clear spot name) ∧
      Planned.AllClear spot selections (field.below rows)
termination_by structural p => p

/-- No field, and none below it, shows the column of rows of an entity. -/
def Planned.AllClear (spot : Spot) : List Planned → Option String → Prop
  | [], _ => True
  | p :: ps, rows => Planned.Clear spot p rows ∧ Planned.AllClear spot ps rows
termination_by structural ps => ps

end

/-- No conditions of the schema, of the request's row scopes and of what is loaded for relations are
on the column. -/
structure Environment.Clear (spot : Spot) (env : Environment) : Prop where
  fields : ∀ p ∈ env.schema.projections, ∀ f ∈ p.fields, spot.Clear p.name f.column.name
  keys : ∀ p ∈ env.schema.projections, ∀ k ∈ p.entity.primaryKey, spot.Clear p.name k
  scopes : ∀ env', env.Enters env' → ∀ p ∈ env.schema.projections, ∀ q,
    env'.scope p .read = .ok (some q) → q.Over (spot.Clear p.name)

theorem Environment.Clear.enter {env' : Environment} (h : env.Clear spot) (entered : env.Enters env') :
    env'.Clear spot := by
  obtain ⟨fields, keys, scopes⟩ := h
  rw [← entered.schema_eq] at fields keys scopes
  exact ⟨fields, keys, fun env'' further => scopes env'' (entered.trans further)⟩

/-! ## Items -/

/-- What a field finds in both runs: the same, but for the column of rows of an entity. -/
inductive Item.Alike (spot : Spot) (rows : Option String) : Item → Item → Prop
  | null : Item.Alike spot rows .null .null
  | value (v : Value) : Item.Alike spot rows (.value v) (.value v)
  | count (c : PageCount) : Item.Alike spot rows (.count c) (.count c)
  | row {name : String} (shown : rows = some name) {r r' : Record} (alike : r.Alike spot name r') :
    Item.Alike spot rows (.row r) (.row r')
  | connection {name : String} (shown : rows = some name) {c c' : Connection}
    (alike : c.Alike spot name c') : Item.Alike spot rows (.connection c) (.connection c')
  | edge {name : String} (shown : rows = some name) {e e' : Edge} (alike : e.Alike spot name e') :
    Item.Alike spot rows (.edge e) (.edge e')
  | list {items items' : List Item} (alike : List.Forall₂ (Item.Alike spot rows) items items') :
    Item.Alike spot rows (.list items) (.list items')

namespace Item

theorem alike_ofText? (t : Option String) : Item.Alike spot rows (ofText? t) (ofText? t) := by
  cases t with
  | none => exact .null
  | some t => exact .value _

theorem alike_ofValue (v : Value) : Item.Alike spot rows (ofValue v) (ofValue v) := by
  cases v with
  | null => exact .null
  | _ => exact .value _

theorem alike_ofRow? {r r' : Option Record} (h : Option.Rel (Record.Alike spot name) r r') :
    Item.Alike spot (some name) (ofRow? r) (ofRow? r') := by
  cases h with
  | none => exact .null
  | some alike => exact .row rfl alike

end Item

theorem connectionItem_alike {c c' : Connection} (h : c.Alike spot name c') (source : Source) :
    Option.Rel (Item.Alike spot (some name)) (connectionItem c source)
      (connectionItem c' source) := by
  cases source with
  | edges =>
    refine .some (.list ?_)
    rw [List.forall₂_map_left_iff, List.forall₂_map_right_iff]
    exact h.edges.imp fun _ _ alike => .edge rfl alike
  | nodes =>
    refine .some (.list ?_)
    rw [List.forall₂_map_left_iff, List.forall₂_map_right_iff]
    exact h.nodes.imp fun _ _ alike => .row rfl alike
  | pageInfo => exact .some (.connection rfl h)
  | pageCount =>
    unfold connectionItem
    rw [h.count]
    cases c'.count with
    | none => exact .some .null
    | some n => exact .some (.count n)
  | hasPrevious =>
    unfold connectionItem
    rw [h.hasPrevious]
    exact .some (.value _)
  | hasNext =>
    unfold connectionItem
    rw [h.hasNext]
    exact .some (.value _)
  | startCursor =>
    unfold connectionItem
    rw [h.startCursor]
    exact .some (Item.alike_ofText? _)
  | endCursor =>
    unfold connectionItem
    rw [h.endCursor]
    exact .some (Item.alike_ofText? _)
  | _ => exact .none

theorem edgeItem_alike {e e' : Edge} (h : e.Alike spot name e') (source : Source) :
    Option.Rel (Item.Alike spot (some name)) (edgeItem e source) (edgeItem e' source) := by
  cases source with
  | edgeCursor =>
    unfold edgeItem
    rw [h.1]
    exact .some (.value _)
  | edgeNode => exact .some (.row rfl h.2)
  | _ => exact .none

theorem columnItem_alike (env : Environment) {f : ColumnField} {r r' : Record}
    (clear : spot.Clear name f.column.name) (alike : r.Alike spot name r') :
    Both (Item.Alike spot rows) (columnItem env f r) (columnItem env f r') := by
  have plain : ∀ x : Except Fault Value,
      Both (Item.Alike spot rows) (Item.ofValue <$> x) (Item.ofValue <$> x) := fun x =>
    (Both.refl (fun _ => rfl) x).map fun v _ same => same ▸ Item.alike_ofValue v
  unfold columnItem
  rw [alike _ clear]
  refine (Both.refl (fun _ => rfl) _).bind fun _ _ _ => ?_
  dsimp only
  split <;> exact plain _

/-- What a field that waits for nothing finds. -/
theorem itemOf_alike (env : Environment) (typeName : String) {f : OutputField}
    {parent parent' : Item} (h : Item.Alike spot rows parent parent')
    (clear : ∀ name, rows = some name → f.Clear spot name) :
    Both (Item.Alike spot (f.below rows)) (itemOf env typeName f parent)
      (itemOf env typeName f parent') := by
  obtain ⟨fname, arguments, type, source⟩ := f
  have found : ∀ {rows : Option String} {x x' : Option Item},
      Option.Rel (Item.Alike spot rows) x x' → Both (Item.Alike spot rows)
        (x.elim (.error (notThere fname)) .ok) (x'.elim (.error (notThere fname)) .ok) := by
    intro rows x x' related
    cases related with
    | none => exact .error _
    | some alike => exact .ok alike
  unfold itemOf OutputField.below
  cases h with
  | null | value | list =>
    cases source with
    | typeName => exact .ok (.value _)
    | _ => exact .error _
  | count c =>
    cases source with
    | typeName | pages | current | offset | total => exact .ok (.value _)
    | _ => exact .error _
  | row shown alike =>
    cases source with
    | typeName => exact .ok (.value _)
    | column c => exact columnItem_alike env (clear _ shown) alike
    | _ => exact .error _
  | connection shown alike =>
    subst shown
    have related := found (connectionItem_alike alike source)
    cases source with
    | typeName => exact .ok (.value _)
    | column | relation => exact .error _
    | _ => exact related
  | edge shown alike =>
    subst shown
    have related := found (edgeItem_alike alike source)
    cases source with
    | typeName => exact .ok (.value _)
    | column | relation => exact .error _
    | _ => exact related

/-! ## Showing -/

theorem itemsOf_alike {item item' : Item} (h : Item.Alike spot rows item item') :
    Both (List.Forall₂ (Item.Alike spot rows)) (itemsOf item) (itemsOf item') := by
  have plain : ∀ vs : List Value, Both (ε := Fault) (List.Forall₂ (Item.Alike spot rows))
      (.ok (vs.map .ofValue)) (.ok (vs.map .ofValue)) := by
    intro vs
    refine .ok ?_
    rw [List.forall₂_map_left_iff, List.forall₂_map_right_iff, List.forall₂_same]
    exact fun v _ => Item.alike_ofValue v
  cases h with
  | value v =>
    cases v with
    | list vs | tuple vs => exact plain vs
    | _ => exact .error _
  | list alike => exact .ok alike
  | _ => exact .error _

section Show

variable {fields fields' : Item → Path → Part Value}
  (h : ∀ item item' path, Item.Alike spot rows item item' →
    Part.Alike spot (fields item path) (fields' item' path))
include h

theorem showItems_alike (nullable : Bool) (path : Path) (i : Nat) {items items' : List Item}
    (alike : List.Forall₂ (Item.Alike spot rows) items items') :
    (showItems nullable fields path i items).Alike (List.Forall₂ (Fetch.Alike spot Eq))
      (showItems nullable fields' path i items') := by
  induction alike generalizing i with
  | nil => exact Report.alike_ofValue .nil
  | cons own _ ih =>
    unfold showItems
    exact ((h _ _ _ own).settle nullable).bind fun x x' related =>
      (ih (i + 1)).bind fun xs xs' rest => Report.alike_ofValue (.cons related rest)

/-- Items that are alike are shown alike if objects are. -/
theorem showItem_alike (s : TypeSystem) (type : TypeRef) (path : Path) {item item' : Item}
    (alike : Item.Alike spot rows item item') :
    Part.Alike spot (showItem s fields type item path) (showItem s fields' type item' path) := by
  induction type generalizing item item' path with
  | nonNull t ih =>
    unfold showItem
    exact (ih path alike).bind fun x x' related => checkNull_alike path related
  | list t ih =>
    have items := (Report.alike_ofExcept path (itemsOf_alike alike)).bind fun items items' related =>
      (showItems_alike (fun item item' path alike => ih path alike) (!t.isNonNull) path 0
        related).bind fun parts parts' related =>
          Report.alike_ofValue ((Fetch.together_alike related).map fun r r' same =>
            congrArg (fun r => r.bind fun vs => .ofValue (Value.list vs)) same)
    cases alike with
    | null => exact Part.alike_known _
    | _ => exact items
  | named type =>
    have object := h item item' path alike
    cases alike with
    | null => exact Part.alike_known _
    | value v =>
      unfold showItem
      cases s.body? type with
      | none => exact showLeaf_alike s type v path
      | some body =>
        cases body with
        | object => exact object
        | _ => exact showLeaf_alike s type v path
    | _ =>
      unfold showItem
      cases s.body? type with
      | none => exact Part.alike_failed _ path
      | some body =>
        cases body with
        | object => exact object
        | _ => exact Part.alike_failed _ path

end Show

/-! ## Relations -/

section Related

variable {r : RelationField} {target : Projection} {row row' : Record} {a : Arguments}

/-- Rows that agree in the columns a relation starts from need the same load. -/
theorem related_alike (clear : ∀ c ∈ r.relation.fromColumns, spot.Clear name c)
    (alike : row.Alike spot name row') : related env r target row a = related env r target row' a := by
  have key : r.relation.fromColumns.map row.get = r.relation.fromColumns.map row'.get :=
    List.map_congr_left fun c hc => alike c (clear c hc)
  unfold related relatedLoad
  rw [key]

theorem clear_of_relatedLoad (henv : env.Clear spot) (hr : r.relation.Clear spot name)
    (ht : env.schema.projection r.relation.target = .ok target) {filter : Value}
    {orders : List Order} (horders : spot.ClearOrders target.name orders)
    {scope : Option (Predicate Value)} (hscope : env.scope target .read = .ok scope) {load : Load}
    (h : relatedLoad env.schema.codec r target row filter orders scope = .ok load) :
    load.key.group.Clear spot ∧ load.key.group.target = target.name := by
  have hmem := mem_of_projection ht
  obtain ⟨condition, hcondition, rfl⟩ := relatedLoad_eq_ok.1 h
  refine ⟨⟨?_, horders, ?_, hr.junction⟩, rfl⟩
  · have targets := hr.targets
    rwa [← name_of_projection ht] at targets
  · exact over_relatedCondition (henv.fields target hmem)
      (fun q hq => henv.scopes env (.refl env) target hmem q (hscope.trans (congrArg _ hq)))
      hcondition

/-- What is loaded for a relation has nothing to do with the column. -/
theorem clear_of_related (henv : env.Clear spot) (hr : r.relation.Clear spot name)
    (ht : env.schema.projection r.relation.target = .ok target) {rel : Related}
    (h : related env r target row a = .ok rel) :
    rel.load.key.group.Clear spot ∧ rel.load.key.group.target = target.name ∧
      rel.target = target := by
  have hmem := mem_of_projection ht
  obtain ⟨scope, hscope, asked⟩ := asked_of_related h
  cases asked with
  | one _ loads =>
    obtain ⟨clear, hname⟩ := clear_of_relatedLoad henv hr ht Spot.clearOrders_nil hscope loads
    exact ⟨clear, hname, rfl⟩
  | page _ _ horders loads =>
    have given : spot.ClearOrders target.name _ := fun o ho => by
      obtain ⟨f, hf, hname, -⟩ := Order.field_of_ofValue horders o ho
      exact hname ▸ henv.fields target hmem f hf
    refine (fun h => ⟨h.1, h.2, rfl⟩) (clear_of_relatedLoad henv hr ht ?_ hscope loads)
    split_ifs
    · intro o ho
      exact (Order.mem_withKey o ho).elim (given o) (henv.keys target hmem o.column)
    · exact given

theorem relatedItem_alike (henv : env.Clear spot) {rel : Related}
    (hmem : rel.target ∈ env.schema.projections) {rs rs' : List Record}
    (h : List.Forall₂ (Record.Alike spot rel.target.name) rs rs') :
    Both (Item.Alike spot (some rel.target.name)) (relatedItem env rel rs)
      (relatedItem env rel rs') := by
  unfold relatedItem
  split_ifs
  · have clear := Query.clear_keyColumns (henv.keys rel.target hmem)
    exact (Window.paginate_alike clear _ _ h).map fun c c' alike => .connection rfl alike
  · exact .ok (Item.alike_ofRow? (Both.head? h))

/-- The rows of a relation are shown alike if what is done with them is alike. -/
theorem showRelated_alike (henv : env.Clear spot) (hr : r.relation.Clear spot name)
    (ht : env.schema.projection r.relation.target = .ok target)
    (hrow : row.Alike spot name row') (path : Path) {part part' : Loaded → Item → Part Value}
    (hpart : ∀ l l' item item', Loaded.Alike spot l l' →
      Item.Alike spot (some target.name) item item' → Part.Alike spot (part l item) (part' l' item'))
    {l l' : Loaded} (hl : l.Alike spot l') :
    (showRelated env r target row a path part l).Alike spot Eq
      (showRelated env r target row' a path part' l') := by
  unfold showRelated
  rw [related_alike hr.sources hrow]
  cases hrel : related env r target row' a with
  | error f => exact .done rfl
  | ok rel =>
    obtain ⟨clear, hname, rfl⟩ := clear_of_related henv hr ht hrel
    have items : ∀ {rs rs' : Except Fault (List Record)},
        Both (List.Forall₂ (Record.Alike spot rel.target.name)) rs rs' →
        Both (Item.Alike spot (some rel.target.name)) (rs.bind (relatedItem env rel))
          (rs'.bind (relatedItem env rel)) := fun h =>
      h.bind fun _ _ alike => relatedItem_alike henv (mem_of_projection ht) alike
    dsimp only
    split_ifs
    · have found := items (.ok .nil)
      generalize Except.bind (.ok []) (relatedItem env rel) = x at found
      cases found with
      | error f => exact .done rfl
      | ok alike => exact afterwards_alike (hpart _ _ _ _ hl alike)
    · refine (Fetch.load_alike hl clear).bind fun x x' related => ?_
      have found := items (hname ▸ related.1)
      generalize x.1.bind (relatedItem env rel) = y, x'.1.bind (relatedItem env rel) = y' at found
      cases found with
      | error f => exact .done rfl
      | ok alike => exact afterwards_alike (hpart _ _ _ _ related.2 alike)

end Related

/-! ## Fields -/

mutual

theorem showField_alike (henv : env.Clear spot) (p : Planned) {rows : Option String}
    (hp : Planned.Clear spot p rows) (typeName : String) {parent parent' : Item}
    (h : Item.Alike spot rows parent parent') (path : Path) {l l' : Loaded}
    (hl : l.Alike spot l') : Part.Alike spot (showField env p typeName parent path l)
      (showField env p typeName parent' path l') := by
  obtain ⟨key, field, arguments, written, refusal, selections⟩ := p
  obtain ⟨own, inner⟩ := hp
  have whole : ∀ (path : Path) (l l' : Loaded) (item item' : Item), l.Alike spot l' →
      Item.Alike spot (field.below rows) item item' → Part.Alike spot
        (showItem env.schema.types (fun item path => showObject refusal path
          (showFields env selections field.type.base item path l)) field.type item path)
        (showItem env.schema.types (fun item path => showObject refusal path
          (showFields env selections field.type.base item path l')) field.type item' path) :=
    fun path l l' item item' hl alike =>
      showItem_alike (fun item item' path alike => showObject_alike refusal path
        (showFields_alike henv selections inner field.type.base alike path hl)) _ _ path alike
  unfold showField
  refine Part.Alike.settle ?_ _
  cases arguments with
  | error f => exact Part.alike_failed f _
  | ok values =>
    have entered := env.enters_enter typeName field.name (path ++ [.key key])
    have items := itemOf_alike (env.enter typeName field.name (path ++ [.key key])) typeName h own
    have plain := (Report.alike_ofExcept (path ++ [.key key]) items).bind fun item item' alike =>
      whole (path ++ [.key key]) l l' item item' hl alike
    obtain ⟨name, parameters, type, source⟩ := field
    cases h with
    | row shown alike =>
      subst shown
      cases source with
      | relation r target =>
        obtain ⟨rfl, hr⟩ := own _ rfl
        dsimp only
        cases ht : env.schema.projection r.relation.target with
        | error f => exact Part.alike_failed f _
        | ok t =>
          rw [← name_of_projection ht] at whole
          exact Report.alike_ofValue
            (showRelated_alike (henv.enter entered) hr ht alike _ (whole _) hl)
      | _ => exact plain
    | _ => cases source <;> exact plain
termination_by structural p

theorem showFields_alike (henv : env.Clear spot) (ps : List Planned) {rows : Option String}
    (hps : Planned.AllClear spot ps rows) (typeName : String) {parent parent' : Item}
    (h : Item.Alike spot rows parent parent') (path : Path) {l l' : Loaded}
    (hl : l.Alike spot l') : (showFields env ps typeName parent path l).Alike
      (List.Forall₂ (Fetch.Alike spot Eq)) (showFields env ps typeName parent' path l') := by
  cases ps with
  | nil => exact Report.alike_ofValue .nil
  | cons p ps =>
    unfold showFields
    exact (showField_alike henv p hps.1 typeName h path hl).bind fun x x' related =>
      (showFields_alike henv ps hps.2 typeName h path hl).bind fun xs xs' rest =>
        Report.alike_ofValue (.cons (related.map fun r r' same => by rw [same]) rest)
termination_by structural ps

end

theorem showFound_alike (henv : env.Clear spot) (p : Planned)
    (hp : Planned.AllClear spot p.selections rows) {item item' : Item}
    (h : Item.Alike spot rows item item') (path : Path) {l l' : Loaded} (hl : l.Alike spot l') :
    Part.Alike spot (showFound env p item path l) (showFound env p item' path l') :=
  showItem_alike (fun _ _ path alike => showObject_alike p.refusal path
    (showFields_alike henv p.selections hp p.field.type.base alike path hl)) _ _ path h

end Answer

end TableGraph
