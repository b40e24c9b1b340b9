import TableGraph.Proofs.Outcome
import TableGraph.Query.Page

/-!
# Faults of steps

With which faults a step can fail.  `FailsWith` is closed under everything that steps are put
together with, so that each function needs one lemma.  Binding and reading cells fails with faults
of the database, provided that the columns exist; conditions, cursors and shown values fail with
faults that tell what is wrong with a value.
-/

namespace TableGraph

/-! ## Steps -/

/-- If the step fails, its fault has a property. -/
def FailsWith {α : Type} (P : Fault → Prop) (x : Except Fault α) : Prop := ∀ f, x = .error f → P f

section FailsWith

variable {α β : Type} {P Q : Fault → Prop} {x : Except Fault α}

theorem failsWith_ok (a : α) : FailsWith P (.ok a : Except Fault α) := nofun

theorem failsWith_error {f : Fault} (h : P f) : FailsWith P (.error f : Except Fault α) := by
  intro f' h'
  cases h'
  exact h

theorem FailsWith.imp (h : FailsWith P x) (imp : ∀ f, P f → Q f) : FailsWith Q x :=
  fun f hf => imp f (h f hf)

theorem FailsWith.bind {f : α → Except Fault β} (hx : FailsWith P x)
    (hf : ∀ a, x = .ok a → FailsWith P (f a)) : FailsWith P (x >>= f) := by
  cases x with
  | error e => exact failsWith_error (hx e rfl)
  | ok a => exact hf a rfl

theorem FailsWith.map (f : α → β) (hx : FailsWith P x) : FailsWith P (f <$> x) := by
  cases x with
  | error e => exact failsWith_error (hx e rfl)
  | ok a => exact failsWith_ok _

theorem failsWith_mapM {f : α → Except Fault β} {xs : List α}
    (h : ∀ a ∈ xs, FailsWith P (f a)) : FailsWith P (xs.mapM f) := by
  induction xs with
  | nil => exact failsWith_ok _
  | cons a xs ih =>
    rw [List.mapM_cons]
    refine (h a List.mem_cons_self).bind fun b _ => ?_
    exact (ih fun a ha => h a (List.mem_cons_of_mem _ ha)).bind fun bs _ => failsWith_ok _

theorem failsWith_forM {f : α → Except Fault Unit} {xs : List α}
    (h : ∀ a ∈ xs, FailsWith P (f a)) : FailsWith P (xs.forM f) := by
  induction xs with
  | nil => exact failsWith_ok _
  | cons a xs ih =>
    refine (h a List.mem_cons_self).bind fun _ _ => ?_
    exact ih fun a ha => h a (List.mem_cons_of_mem _ ha)

end FailsWith

section Runs

variable {α β : Type} {P : Fault → Prop}

theorem failsWith_run_bind {x : Counted α} {f : α → Counted β} {n : Nat}
    (hx : FailsWith P (x.run n))
    (hf : ∀ a m, x.run n = .ok (a, m) → FailsWith P ((f a).run m)) :
    FailsWith P ((x >>= f).run n) := by
  rw [StateT.run_bind]
  exact hx.bind fun r hr => hf r.1 r.2 hr

theorem failsWith_run_lift {x : Except Fault α} (h : FailsWith P x) (n : Nat) :
    FailsWith P ((liftM x : Counted α).run n) := by
  rw [Counted.run_lift]
  exact h.map _

theorem failsWith_run_map {x : Counted α} (f : α → β) {n : Nat} (h : FailsWith P (x.run n)) :
    FailsWith P ((f <$> x).run n) := by
  rw [StateT.run_map]
  exact h.map _

theorem failsWith_run_ask {s : Store} {name : String} {f : Table → Except Fault α}
    (ht : FailsWith P (s.table name)) (hf : ∀ t, s.table name = .ok t → FailsWith P (f t))
    (n : Nat) : FailsWith P ((s.ask name f).run n) := by
  rw [Store.run_ask]
  exact (ht.bind hf).map _

end Runs

/-! ## Classes of faults -/

namespace Fault

/-- The database rejects a statement. -/
def isDatabase : Fault → Bool
  | database _ => true
  | _ => false

/-- The fault tells what is wrong with a value, a name or a cell. -/
def isOfValue : Fault → Bool
  | conversion .. | cursor _ | database _ | unreadable _ | wrongKind _ | absent _ | overflow
  | truthOrdering => true
  | _ => false

/-- The fault refuses a value that a client sends for a column. -/
def isRefusal : Fault → Bool
  | conversion .. | unreadable _ | wrongKind _ => true
  | _ => false

theorem isOfValue_of_isDatabase {f : Fault} (h : f.isDatabase) : f.isOfValue := by
  cases f <;> first | rfl | cases h

theorem isOfValue_of_isRefusal {f : Fault} (h : f.isRefusal) : f.isOfValue := by
  cases f <;> first | rfl | cases h

end Fault

/-! ## Tables of a store -/

namespace Store

variable {P : Fault → Prop} (s : Store) {name : String}

/-- The table of an entity fails to be found only if the entity is not registered. -/
theorem failsWith_registered (h : ∀ detail, P (.config detail)) :
    FailsWith P (s.registered name) := by
  unfold Store.registered
  split
  · exact failsWith_ok _
  · exact failsWith_error (h _)

/-- The table of a registered entity fails to be reached with a fault of the database. -/
theorem failsWith_table (hregistered : FailsWith P (s.registered name))
    (hdatabase : ∀ cause, P (.database cause)) : FailsWith P (s.table name) := by
  unfold Store.table
  refine hregistered.bind fun _ _ => ?_
  split_ifs
  · exact failsWith_error (hdatabase _)
  · exact failsWith_error (hdatabase _)
  · exact failsWith_ok _

end Store

/-! ## Operands and cells -/

namespace SqlType

theorem failsWith_bindRaw (v : Value) : FailsWith (·.isDatabase) (bindRaw v) := by
  unfold bindRaw cellOfInt
  split
  case h_3 => split_ifs <;> first | exact failsWith_ok _ | exact failsWith_error rfl
  all_goals first | exact failsWith_ok _ | exact failsWith_error rfl

theorem failsWith_bindTruth (v : Value) : FailsWith (·.isDatabase) (bindTruth v) := by
  unfold bindTruth
  split_ifs <;> first | exact failsWith_ok _ | exact failsWith_error rfl

theorem failsWith_bind (type : SqlType) (v : Value) : FailsWith (·.isDatabase) (type.bind v) := by
  unfold SqlType.bind
  split
  case h_1 => split <;> first | exact failsWith_ok _ | exact failsWith_error rfl
  case h_3 => exact failsWith_bindTruth _
  case h_4 => split <;> first | exact failsWith_ok _ | exact failsWith_error rfl
  case h_5 => split <;> first | exact failsWith_ok _ | exact failsWith_error rfl
  case h_6 => split <;> first | exact failsWith_ok _ | exact failsWith_error rfl
  all_goals first | exact failsWith_ok _ | exact failsWith_bindRaw _ | exact failsWith_error rfl

theorem failsWith_bindOperand (type : SqlType) (v : Value) :
    FailsWith (·.isDatabase) (type.bindOperand v) := by
  unfold bindOperand
  split
  · exact failsWith_ok _
  · exact failsWith_bind _ v

theorem failsWith_found {α : Type} (make : α → Value) (a : Option α) :
    FailsWith (· = unreadable) (found make a) := by
  cases a with
  | none => exact failsWith_error rfl
  | some a => exact failsWith_ok _

/-- The only way that reading a cell fails. -/
theorem failsWith_read (type : SqlType) (c : Cell) :
    FailsWith (· = unreadable) (type.read c) := by
  unfold SqlType.read
  split
  case h_5 =>
    split_ifs
    · exact failsWith_ok _
    · exact failsWith_error rfl
  case h_9 =>
    cases Value.ofJson _ with
    | error e => exact failsWith_error rfl
    | ok v => exact failsWith_ok v
  case h_10 | h_11 | h_12 | h_13 => exact failsWith_found _ _
  all_goals first | exact failsWith_ok _ | exact failsWith_error rfl

end SqlType

theorem Test.failsWith_bind (type : SqlType) (q : Test Value) :
    FailsWith (·.isDatabase) (q.bind type) := by
  unfold Test.bind
  split
  · exact (SqlType.failsWith_bindOperand type _).map _
  · exact failsWith_ok _
  · exact failsWith_ok _
  · refine (failsWith_mapM fun v _ => ?_).bind fun _ _ => failsWith_ok _
    split
    · exact failsWith_ok _
    · split_ifs
      · exact SqlType.failsWith_bindOperand type v
      · exact SqlType.failsWith_bind _ v
  · exact (SqlType.failsWith_bindOperand type _).bind fun _ _ =>
      (SqlType.failsWith_bindOperand type _).bind fun _ _ => failsWith_ok _
  · split_ifs <;> first | exact failsWith_ok _ | exact failsWith_error rfl
  · split_ifs <;> first | exact failsWith_ok _ | exact failsWith_error rfl

namespace Table

theorem failsWith_typeOf (t : Table) (column : String) :
    FailsWith (·.isOfValue) (t.typeOf column) := by
  unfold typeOf
  split
  · exact failsWith_ok _
  · exact failsWith_error rfl

end Table

mutual

theorem Predicate.failsWith_mapM {P : Fault → Prop}
    {f : String → Test Value → Except Fault (Test Cell)}
    (hf : ∀ column q, FailsWith P (f column q)) (p : Predicate Value) :
    FailsWith P (p.mapM f) := by
  cases p with
  | always => exact failsWith_ok _
  | tautology => exact failsWith_ok _
  | expression e => exact failsWith_ok _
  | test column q => exact (hf column q).map _
  | all ps => exact (Predicate.failsWith_mapMItems hf ps).map _
  | any ps => exact (Predicate.failsWith_mapMItems hf ps).map _
termination_by structural p

theorem Predicate.failsWith_mapMItems {P : Fault → Prop}
    {f : String → Test Value → Except Fault (Test Cell)}
    (hf : ∀ column q, FailsWith P (f column q)) (ps : List (Predicate Value)) :
    FailsWith P (Predicate.mapMItems f ps) := by
  cases ps with
  | nil => exact failsWith_ok _
  | cons p ps =>
    exact (Predicate.failsWith_mapM hf p).bind fun _ _ =>
      (Predicate.failsWith_mapMItems hf ps).bind fun _ _ => failsWith_ok _
termination_by structural ps

end

namespace Table

theorem failsWith_bind (t : Table) (p : Predicate Value) :
    FailsWith (·.isOfValue) (t.bind p) :=
  Predicate.failsWith_mapM (fun column q => (t.failsWith_typeOf column).bind fun type _ =>
    (q.failsWith_bind type).imp fun _ => Fault.isOfValue_of_isDatabase) p

/-- The only way that reading a row fails. -/
theorem eq_unreadable_of_readColumns {columns : List StoredColumn} {r : Row} {f : Fault}
    (h : readColumns r columns = .error f) : f = SqlType.unreadable := by
  have fails : FailsWith (· = SqlType.unreadable) (readColumns r columns) :=
    failsWith_mapM fun c _ => (c.type.failsWith_read _).bind fun _ _ => failsWith_ok _
  exact fails f h

theorem failsWith_readColumns (r : Row) (columns : List StoredColumn) :
    FailsWith (·.isDatabase) (readColumns r columns) :=
  fun _ h => eq_unreadable_of_readColumns h ▸ rfl

theorem failsWith_matching (t : Table) (p : Predicate Value) :
    FailsWith (·.isOfValue) (t.matching p) := (t.failsWith_bind p).bind fun _ _ => failsWith_ok _

theorem failsWith_select (t : Table) (p : Predicate Value) (orders : List Order)
    (limit : Option Int) (offset : Int) :
    FailsWith (·.isOfValue) (t.select p orders limit offset) :=
  (t.failsWith_matching p).bind fun _ _ => failsWith_mapM fun r _ =>
    (failsWith_readColumns r t.columns).imp fun _ => Fault.isOfValue_of_isDatabase

end Table

/-! ## Keyset conditions -/

namespace Keyset

theorem failsWith_step (e : Entity) (forward : Bool) (row : Record) (o : Order) :
    FailsWith (·.isOfValue) (step e forward row o) := by
  unfold step
  split_ifs
  · refine FailsWith.bind ?_ fun _ _ => failsWith_ok _
    unfold Test.ordered
    split <;> first | exact failsWith_ok _ | exact failsWith_error rfl
  · exact failsWith_error rfl

theorem failsWith_branches (e : Entity) (forward : Bool) (row : Record)
    (equal orders : List Order) :
    FailsWith (·.isOfValue) (branches e forward row equal orders) := by
  induction orders generalizing equal with
  | nil => exact failsWith_ok _
  | cons o orders ih =>
    exact (failsWith_step e forward row o).bind fun _ _ =>
      (ih _).bind fun _ _ => failsWith_ok _

theorem failsWith_condition (e : Entity) (orders : List Order) (row : Record) (forward : Bool) :
    FailsWith (·.isOfValue) (condition e orders row forward) :=
  (failsWith_branches e forward row [] orders).map _

/-- A row without nulls can be looked behind; otherwise the fault names the column. -/
theorem failsWith_checkAnchor (row : Record) (orders : List Order) :
    FailsWith (fun f => ∃ column : String,
      f = .pagination "cursor" s!"ordering column '{column}' is NULL at the cursor row")
      (checkAnchor row orders) := by
  induction orders with
  | nil => exact failsWith_ok _
  | cons o orders ih =>
    unfold checkAnchor
    split_ifs
    · exact failsWith_error ⟨_, rfl⟩
    · exact ih

end Keyset

/-! ## Shown values -/

namespace Codec

theorem failsWith_wholeOfText (s : String) : FailsWith (·.isOfValue) (wholeOfText s) := by
  unfold wholeOfText
  split <;> first | exact failsWith_ok _ | exact failsWith_error rfl

theorem failsWith_toWhole (v : Value) : FailsWith (·.isOfValue) (toWhole v) := by
  unfold toWhole
  split
  case h_3 =>
    unfold wholeOfFloat
    split
    · exact failsWith_error rfl
    · exact failsWith_error rfl
    · split <;> first | exact failsWith_ok _ | exact failsWith_error rfl
  case h_4 =>
    unfold wholeOfDecimal
    split
    · exact failsWith_error rfl
    · exact failsWith_error rfl
    · split <;> first | exact failsWith_ok _ | exact failsWith_error rfl
  case h_5 => exact failsWith_wholeOfText _
  case h_6 =>
    split
    · exact failsWith_error rfl
    · split <;> first | exact failsWith_ok _ | exact failsWith_error rfl
  all_goals first | exact failsWith_ok _ | exact failsWith_error rfl

theorem failsWith_floatOfText (s : String) : FailsWith (·.isOfValue) (floatOfText s) := by
  unfold floatOfText
  split <;> first | exact failsWith_ok _ | exact failsWith_error rfl

theorem failsWith_floatOfWhole (n : Int) : FailsWith (·.isOfValue) (floatOfWhole n) := by
  unfold floatOfWhole
  split <;> first | exact failsWith_ok _ | exact failsWith_error rfl

theorem failsWith_toFloat (v : Value) : FailsWith (·.isOfValue) (toFloat v) := by
  unfold toFloat
  split
  case h_2 => exact failsWith_floatOfWhole _
  case h_6 => exact failsWith_floatOfText _
  case h_7 => split <;> first | exact failsWith_floatOfText _ | exact failsWith_error rfl
  all_goals first | exact failsWith_ok _ | exact failsWith_error rfl

theorem failsWith_toByte (v : Value) : FailsWith (·.isOfValue) (toByte v) := by
  unfold toByte
  split
  case h_2 => split_ifs <;> first | exact failsWith_ok _ | exact failsWith_error rfl
  all_goals first | exact failsWith_ok _ | exact failsWith_error rfl

theorem failsWith_zeroBytes (n : Int) : FailsWith (·.isOfValue) (zeroBytes n) := by
  unfold zeroBytes
  split_ifs <;> first | exact failsWith_ok _ | exact failsWith_error rfl

theorem failsWith_toBytes (v : Value) : FailsWith (·.isOfValue) (toBytes v) := by
  unfold toBytes
  split
  all_goals first
    | exact failsWith_ok _
    | exact failsWith_zeroBytes _
    | exact failsWith_mapM fun v _ => failsWith_toByte v
    | exact failsWith_error rfl

/-- A value is written as text, or a number in it is too long. -/
theorem failsWith_textOf (v : Value) : FailsWith (· = unwritable) (textOf v) := by
  unfold textOf
  split_ifs
  · exact failsWith_ok _
  · exact failsWith_error rfl

theorem isOfValue_of_unwritable {f : Fault} (h : f = unwritable) : f.isOfValue := h ▸ rfl

theorem failsWith_momentText (rfc3339 : Bool) (v : Value) :
    FailsWith (· = unwritable) (momentText rfc3339 v) := by
  unfold momentText
  split
  · exact failsWith_ok _
  · exact failsWith_textOf _

theorem failsWith_jsonText (v : Value) : FailsWith (·.isOfValue) (jsonText v) := by
  unfold jsonText
  repeat' split
  all_goals first | exact failsWith_ok _ | exact failsWith_error rfl

theorem failsWith_formatBasic (rfc3339 : Bool) (kind : BasicKind) (v : Value) :
    FailsWith (·.isOfValue) (formatBasic rfc3339 kind v) := by
  have moment (rfc3339 : Bool) := (failsWith_momentText rfc3339 v).imp fun _ => isOfValue_of_unwritable
  unfold formatBasic
  split
  case h_1 => exact (failsWith_toWhole v).map _
  case h_2 => exact (failsWith_toFloat v).map _
  case h_3 => exact (failsWith_toFloat v).map _
  case h_4 => exact failsWith_ok _
  case h_5 => exact (failsWith_toBytes v).map _
  case h_6 =>
    split
    · exact failsWith_ok _
    · exact (failsWith_jsonText _).map _
  case h_7 | h_8 | h_9 | h_10 => exact (moment _).map _
  case h_11 => exact ((failsWith_textOf v).imp fun _ => isOfValue_of_unwritable).map _

theorem failsWith_format (codec : Codec) (type : ColumnType) (v : Value) :
    FailsWith (·.isOfValue) (codec.format type v) := by
  have text (v : Value) := (failsWith_textOf v).imp fun _ => isOfValue_of_unwritable
  induction type generalizing v with
  | basic kind label =>
    cases v with
    | null => exact failsWith_ok _
    | _ => exact failsWith_formatBasic _ kind _
  | enumeration name =>
    cases v with
    | null | member => exact failsWith_ok _
    | _ => exact (text _).map _
  | custom name =>
    cases v with
    | null => exact failsWith_ok _
    | _ => exact (text _).map _
  | array inner ih =>
    cases v with
    | null => exact failsWith_ok _
    | _ =>
      refine FailsWith.bind ?_ fun items _ => (failsWith_mapM fun v _ => ih v).map _
      unfold Codec.itemsOf
      first | exact failsWith_ok _ | exact failsWith_error rfl

end Codec

/-! ## Read values -/

namespace Codec

/-- A value is refused with words that show it, or because it cannot be written. -/
theorem failsWith_refuse {P : Fault → Prop} (refusal : ∀ f, f.isRefusal → P f) (path : String)
    (v : Value) (words : String → String) : FailsWith P (refuse path v words) := by
  unfold refuse
  split_ifs <;> exact failsWith_error (refusal _ rfl)

/-- A value is refused, unless it is a whole number too large for a float. -/
theorem failsWith_parseBasic {P : Fault → Prop} (refusal : ∀ f, f.isRefusal → P f) (path : String)
    (kind : BasicKind) {v : Value} (whole : ∀ n, v = .int n → FailsWith P (floatOfWhole n)) :
    FailsWith P (parseBasic path kind v) := by
  have refused : ∀ {α : Type} {f : Fault}, f.isRefusal →
      FailsWith P (.error f : Except Fault α) := fun h => failsWith_error (refusal _ h)
  have shows (v : Value) (words : String → String) : FailsWith P (refuse path v words) :=
    failsWith_refuse refusal path v words
  have text : FailsWith P (textOf v) :=
    (failsWith_textOf v).imp fun f h => refusal f (h ▸ rfl)
  unfold parseBasic
  split
  case h_1 =>
    unfold parseInteger
    dsimp only
    repeat' split
    all_goals first | exact failsWith_ok _ | exact shows _ _
  case h_5 =>
    refine text.bind fun s _ => ?_
    repeat' split
    all_goals first | exact failsWith_ok _ | exact shows _ _
  case h_2 | h_3 =>
    split
    · exact (whole _ rfl).map _
    · exact failsWith_ok _
    · exact shows _ _
  case h_6 =>
    refine text.bind fun s _ => ?_
    split_ifs <;> first | exact failsWith_ok _ | exact refused rfl
  case h_8 =>
    split
    · unfold parseJson
      split <;> first | exact failsWith_ok _ | exact refused rfl
    · exact failsWith_ok _
  case h_14 | h_15 | h_16 => exact text.map _
  all_goals
    try unfold parseMoment
    repeat' split
    all_goals first | exact failsWith_ok _ | exact refused rfl | exact shows _ _

theorem failsWith_parseEnumeration (codec : Codec) (path name : String) (v : Value) :
    FailsWith (·.isRefusal) (codec.parseEnumeration path name v) := by
  unfold parseEnumeration
  dsimp only
  repeat' split
  all_goals first | exact failsWith_ok _ | exact failsWith_refuse (fun _ h => h) _ _ _

theorem failsWith_parse (codec : Codec) (path : String) (type : ColumnType) (v : Value) :
    FailsWith (·.isOfValue) (codec.parse path type v) := by
  induction type generalizing v with
  | basic kind label =>
    cases v with
    | null => exact failsWith_ok _
    | _ =>
      exact failsWith_parseBasic (fun _ => Fault.isOfValue_of_isRefusal) path kind fun n _ =>
        failsWith_floatOfWhole n
  | enumeration name =>
    cases v with
    | null => exact failsWith_ok _
    | _ =>
      exact (codec.failsWith_parseEnumeration path name _).imp fun _ =>
        Fault.isOfValue_of_isRefusal
  | custom name =>
    cases v with
    | null => exact failsWith_ok _
    | _ => exact ((failsWith_textOf _).imp fun _ => isOfValue_of_unwritable).map _
  | array inner ih =>
    cases v with
    | null => exact failsWith_ok _
    | list items => exact (failsWith_mapM fun v _ => ih v).map _
    | tuple items => exact (failsWith_mapM fun v _ => ih v).map _
    | _ => exact failsWith_refuse (fun _ => Fault.isOfValue_of_isRefusal) _ _ _

end Codec

/-! ## Cursors -/

namespace Cursor

theorem failsWith_payloadValue (tag : CursorTag) (cs : List Char) :
    FailsWith (·.isOfValue) (payloadValue tag cs) := by
  unfold payloadValue
  dsimp only
  repeat' split
  all_goals first | exact failsWith_ok _ | exact failsWith_error rfl

theorem failsWith_payload (tag : CursorTag) (length : Int) (pos : Nat) (cs : List Char) :
    FailsWith (·.isOfValue) (payload tag length pos cs) := by
  unfold payload
  repeat' split
  all_goals first
    | exact failsWith_ok _
    | exact failsWith_error rfl
    | exact failsWith_error (failsWith_payloadValue _ _ _ ‹_›)

theorem failsWith_segment (pos : Nat) (cs : List Char) :
    FailsWith (·.isOfValue) (segment pos cs) := by
  unfold segment sized
  dsimp only
  repeat' split
  all_goals first | exact failsWith_payload _ _ _ _ | exact failsWith_error rfl

theorem failsWith_components (pos : Nat) (cs : List Char) :
    FailsWith (·.isOfValue) (components pos cs) := by
  fun_induction components pos cs with
  | case1 pos cs e h => exact failsWith_error (failsWith_segment pos cs e h)
  | case2 => exact failsWith_ok _
  | case3 => exact failsWith_error rfl
  | case4 => exact failsWith_error rfl
  | case5 => exact failsWith_ok _
  | case6 _ _ _ _ _ _ _ _ _ _ e h ih => exact failsWith_error (ih e h)

theorem failsWith_decode (s : String) : FailsWith (·.isOfValue) (decode s) := by
  unfold decode
  split_ifs
  · exact failsWith_error rfl
  · exact failsWith_components _ _

end Cursor

theorem Key.failsWith_ofText (codec : Codec) (path : String) (c : Column) (s : String) :
    FailsWith (·.isOfValue) (Key.ofText codec path c s) := by
  unfold Key.ofText
  split
  case h_4 =>
    split
    · exact failsWith_error rfl
    · exact codec.failsWith_parse path _ _
  all_goals split <;> first | exact failsWith_ok _ | exact failsWith_error rfl

theorem Key.failsWith_component (codec : Codec) (path : String) (c : Column) (v : Value) :
    FailsWith (·.isOfValue) (Key.component codec path c v) := by
  unfold Key.component
  split
  · exact failsWith_ok _
  · split_ifs
    · split <;> first | exact failsWith_ok _ | exact failsWith_error rfl
    · split
      · exact failsWith_ok _
      · exact Key.failsWith_ofText _ _ _ _

theorem Key.failsWith_decode (codec : Codec) (columns : List Column) (paths : List String)
    (s : String) : FailsWith (·.isOfValue) (Key.decode codec columns paths s) := by
  unfold Key.decode
  refine (Cursor.failsWith_decode s).bind fun parts _ => ?_
  split_ifs
  · exact failsWith_error rfl
  · exact failsWith_mapM fun _ _ => Key.failsWith_component codec _ _ _

theorem Key.failsWith_encode (codec : Codec) (columns : List Column) (r : Record) :
    FailsWith (·.isOfValue) (Key.encode codec columns r) := by
  refine (failsWith_mapM fun c _ => ?_).bind fun parts _ => ?_
  · unfold Key.part
    split
    · exact failsWith_ok _
    · exact (codec.failsWith_format c.type _).bind fun _ _ => failsWith_ok _
    · exact failsWith_ok _
  · unfold Cursor.encode
    split_ifs
    · exact failsWith_error rfl
    · exact failsWith_ok _

theorem Edge.failsWith_ofRecords (codec : Codec) (key : List Column) (rows : List Record) :
    FailsWith (·.isOfValue) (Edge.ofRecords codec key rows) :=
  failsWith_mapM fun r _ => (Key.failsWith_encode codec key r).bind fun _ _ => failsWith_ok _

namespace Query

theorem failsWith_page (codec : Codec) (p : Projection) (rows : List Record)
    (hasPrevious hasNext : Bool) (count : Option PageCount) :
    FailsWith (·.isOfValue) (page codec p rows hasPrevious hasNext count) :=
  (Edge.failsWith_ofRecords codec p.keyColumns rows).bind fun _ _ => failsWith_ok _

variable {P : Fault → Prop} (hP : ∀ f : Fault, f.isOfValue → P f) {codec : Codec} {s : Store}
  {p : Projection} (ht : FailsWith P (s.table p.name)) {condition : Predicate Value}
  {orders : List Order}
include hP ht

theorem failsWith_run_select (limit : Option Int) (offset : Int) (n : Nat) :
    FailsWith P ((s.ask p.name fun t => t.select condition orders limit offset).run n) :=
  failsWith_run_ask ht (fun t _ => (t.failsWith_select _ _ _ _).imp hP) n

theorem failsWith_run_reaches (row : Record) (forward : Bool) (n : Nat) :
    FailsWith P ((reaches s p condition orders row forward).run n) := by
  unfold reaches
  split_ifs
  · exact failsWith_ok _
  · refine failsWith_run_bind
      (failsWith_run_lift ((Keyset.failsWith_condition _ _ _ _).imp hP) n) fun beyond m _ => ?_
    refine failsWith_run_bind (failsWith_run_ask ht (fun t _ => ?_) m) fun _ _ _ => failsWith_ok _
    refine ((t.failsWith_matching _).imp hP).bind fun _ _ => failsWith_mapM fun r _ => ?_
    exact (Table.failsWith_readColumns r _).imp fun f h => hP f (Fault.isOfValue_of_isDatabase h)

theorem failsWith_run_around (after : Option String) (limit : Int) (rows : List Record)
    (n : Nat) : FailsWith P ((around codec s p condition orders after limit rows).run n) := by
  unfold around
  split
  · refine failsWith_run_bind (failsWith_run_reaches hP ht _ _ n) fun _ m _ => ?_
    refine failsWith_run_bind (failsWith_run_reaches hP ht _ _ m) fun _ k _ => ?_
    exact failsWith_run_lift ((failsWith_page _ _ _ _ _ _).imp hP) k
  · exact failsWith_run_lift ((failsWith_page _ _ _ _ _ _).imp hP) n

end Query

end TableGraph
