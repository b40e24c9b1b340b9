import TableGraph.Sample.Basic

/-!
# Columns of every type

One table has a column of each kind; the others have keys of several kinds and shapes.
-/

namespace TableGraph.Sample.Types

/-- The table `sample`. -/
def sampleEntity : Except Fault Entity :=
  entity "sample"
    [generated (column "id" (.plain (.integer .regular))),
      nullable (column "flag" (.plain .bool)),
      nullable (column "tiny" (.plain (.integer .tiny))),
      nullable (column "small" (.plain (.integer .small))),
      nullable (column "num" (.plain (.integer .regular))),
      nullable (column "big" (.plain (.integer .big))),
      nullable (column "utiny" (.plain (.integer .tinyUnsigned))),
      nullable (column "usmall" (.plain (.integer .smallUnsigned))),
      nullable (column "unum" (.plain (.integer .regularUnsigned))),
      nullable (column "ubig" (.plain (.integer .bigUnsigned))),
      nullable (column "real_f" (.plain .float)),
      nullable (column "dbl" (.plain .double)),
      nullable (column "price" (.plain .decimal)),
      nullable (column "label" (.plain .string)),
      nullable (column "grade" (.plain .char)),
      nullable (column "blob_data" (.plain .bytes)),
      nullable (column "doc" (.plain .json)),
      nullable (column "day" (.plain .date)),
      nullable (column "at_time" (.plain .time)),
      nullable (column "stamp" (.plain .dateTime)),
      nullable (column "stamp_tz" (.plain .dateTimeZoned)),
      nullable (column "guid" (.plain .uuid)),
      nullable (column "mood" (.enumeration "mood")),
      nullable (column "ip" (.plain .ipNetwork)),
      nullable (column "mac" (.plain .macAddress)),
      nullable (column "geo" (.custom "geometry"))]
    ["id"]
    [link .hasOne "detail" "sample_detail" ["id"] ["sample_id"] false none,
      link .belongsTo "peer" "sample" ["num"] ["id"] true none]

/-- The table `sample_detail`. -/
def sampleDetailEntity : Except Fault Entity :=
  entity "sample_detail"
    [column "sample_id" (.plain (.integer .regular)),
      column "note" (.plain .string),
      defaulted (hidden (nullable (column "secret" (.plain .string))))]
    ["sample_id"]
    [link .belongsTo "sample" "sample" ["sample_id"] ["id"] false none]

/-- The table `event`. -/
def eventEntity : Except Fault Entity :=
  entity "event"
    [column "day" (.plain .date),
      column "code" (.plain .char),
      nullable (column "title" (.plain .string))]
    ["day", "code"]
    [link .hasMany "visits" "visit" ["day", "code"] ["event_day", "event_code"] false none]

/-- The table `visit`. -/
def visitEntity : Except Fault Entity :=
  entity "visit"
    [generated (column "visit_id" (.plain (.integer .big))),
      nullable (column "event_day" (.plain .date)),
      nullable (column "event_code" (.plain .char)),
      nullable (column "score" (.plain .double))]
    ["visit_id"]
    [link .belongsTo "event" "event" ["event_day", "event_code"] ["day", "code"] true none,
      link .manyToMany "tokens" "token" ["visit_id"] ["uid"] false
        (some ⟨"visit_token", ["visit_id"], ["token_uid"]⟩)]

/-- The table `token`. -/
def tokenEntity : Except Fault Entity :=
  entity "token"
    [column "uid" (.plain .uuid),
      column "kind" (.plain .string),
      column "level" (.enumeration "mood")]
    ["uid"]
    [link .manyToMany "visits" "visit" ["uid"] ["visit_id"] false
        (some ⟨"visit_token", ["token_uid"], ["visit_id"]⟩)]

/-- The table `visit_token`. -/
def visitTokenEntity : Except Fault Entity :=
  entity "visit_token"
    [column "visit_id" (.plain (.integer .big)),
      column "token_uid" (.plain .uuid)]
    ["visit_id", "token_uid"] []

/-- The table `measure`. -/
def measureEntity : Except Fault Entity :=
  entity "measure"
    [column "weight" (.plain .double),
      column "unit" (.plain .string)]
    ["weight"] []

/-- The table `switch`. -/
def switchEntity : Except Fault Entity :=
  entity "switch"
    [column "on_state" (.plain .bool),
      column "label" (.plain .string)]
    ["on_state"] []

/-- The table `price_point`. -/
def pricePointEntity : Except Fault Entity :=
  entity "price_point"
    [column "amount" (.plain .decimal),
      nullable (column "label" (.plain .string))]
    ["amount"] []

/-- The table `hidden_key`. -/
def hiddenKeyEntity : Except Fault Entity :=
  entity "hidden_key"
    [generated (hidden (column "secret_id" (.plain (.integer .regular)))),
      column "name" (.plain .string)]
    ["secret_id"] []

/-- The table `triple`. -/
def tripleEntity : Except Fault Entity :=
  entity "triple"
    [column "a" (.plain (.integer .tiny)),
      column "b" (.plain .string),
      column "c" (.plain (.integer .smallUnsigned)),
      nullable (column "v" (.plain (.integer .regular)))]
    ["c", "a", "b"] []

/-- The schema. -/
def schema : Except Fault Schema :=
  schemaOf [sampleEntity, sampleDetailEntity, eventEntity, visitEntity, tokenEntity,
    visitTokenEntity, measureEntity, switchEntity, pricePointEntity, hiddenKeyEntity, tripleEntity]
    [("mood", ["happy", "so so", "very-sad"])]

/-- Rows of the table `sample`. -/
def sampleRows : List Record := [
    [("id", .int 1), ("flag", .bool true), ("tiny", .int (-128)), ("small", .int (-32768)),
      ("num", .int 2), ("big", .int (-9223372036854775808)), ("utiny", .int 255),
      ("usmall", .int 65535), ("unum", .int 4294967295), ("ubig", .int 9223372036854775807),
      ("real_f", float "1.5"), ("dbl", float "-0.25"), ("price", decimal "12.5"),
      ("label", .text "Alpha"), ("grade", .text "A"), ("blob_data", bytes "00ff10"),
      ("doc", .object [("a", .list [.int 1, .int 2, .object [("b", .null)]]), ("c", .text "é")]),
      ("day", date "2024-02-29"), ("at_time", time "13:05:09"),
      ("stamp", moment "2024-02-29T13:05:09"), ("stamp_tz", moment "2024-02-29T13:05:09.250000"),
      ("guid", uuid "00000000-0000-4000-8000-000000000001"), ("mood", .text "happy"),
      ("ip", .text "10.0.0.0/8"), ("mac", .text "aa:bb:cc:dd:ee:ff"), ("geo", .text "POINT(1 2)")],
    [("id", .int 2), ("flag", .bool false), ("tiny", .int 127), ("small", .int 32767),
      ("num", .int 3), ("big", .int 9223372036854775807), ("utiny", .int 0), ("usmall", .int 0),
      ("unum", .int 0), ("ubig", .int 0), ("real_f", float "3.0"), ("dbl", float "1e+22"),
      ("price", decimal "0.1"), ("label", .text "alpha beta"), ("grade", .text "b"),
      ("blob_data", bytes ""), ("doc", .text "plain"), ("day", date "1999-12-31"),
      ("at_time", time "00:00:00"), ("stamp", moment "1999-12-31T23:59:59.000001"),
      ("stamp_tz", moment "1999-12-31T23:59:59"),
      ("guid", uuid "00000000-0000-4000-8000-0000000000ff"), ("mood", .text "so so"),
      ("ip", .text "::1"), ("mac", .text "00:00:00:00:00:00"), ("geo", .text "")],
    [("id", .int 3)],
    [("id", .int 4), ("flag", .bool true), ("num", .int 1), ("label", .text "100%_done"),
      ("price", decimal "-3.75"), ("dbl", float "2.5"), ("day", date "2024-03-01"),
      ("mood", .text "very-sad"), ("doc", .list [float "1.5", .bool true]),
      ("stamp", moment "2024-03-01T00:00:00")],
    [("id", .int 5), ("num", .int 1), ("label", .text "Ärger"), ("price", decimal "12.5"),
      ("dbl", float "2.5"), ("mood", .text "happy")]]

/-- Rows of the table `sample_detail`. -/
def sampleDetailRows : List Record := [
    [("sample_id", .int 1), ("note", .text "first"), ("secret", .text "s1")],
    [("sample_id", .int 3), ("note", .text "third")]]

/-- Rows of the table `event`. -/
def eventRows : List Record := [
    [("day", date "2024-01-01"), ("code", .text "a"), ("title", .text "New Year")],
    [("day", date "2024-01-01"), ("code", .text "b")],
    [("day", date "2024-05-01"), ("code", .text "a"), ("title", .text "May")]]

/-- Rows of the table `visit`. -/
def visitRows : List Record := [
    [("visit_id", .int 1), ("event_day", date "2024-01-01"), ("event_code", .text "a"),
      ("score", float "1.5")],
    [("visit_id", .int 2), ("event_day", date "2024-01-01"), ("event_code", .text "b")],
    [("visit_id", .int 3), ("event_day", date "2024-01-01"), ("event_code", .text "a"),
      ("score", float "0.5")],
    [("visit_id", .int 4), ("event_day", date "2024-01-01")],
    [("visit_id", .int 5000000000), ("event_day", date "2024-12-25"), ("event_code", .text "z"),
      ("score", float "9.0")]]

/-- Rows of the table `token`. -/
def tokenRows : List Record :=
  rows ["uid", "kind", "level"] [
    [uuid "00000000-0000-4000-8000-000000000001", .text "red", .text "happy"],
    [uuid "00000000-0000-4000-8000-000000000002", .text "blue", .text "very-sad"],
    [uuid "00000000-0000-4000-8000-000000000003", .text "red", .text "so so"]]

/-- Rows of the table `visit_token`. -/
def visitTokenRows : List Record :=
  rows ["visit_id", "token_uid"] [
    [.int 1, uuid "00000000-0000-4000-8000-000000000001"],
    [.int 1, uuid "00000000-0000-4000-8000-000000000002"],
    [.int 3, uuid "00000000-0000-4000-8000-000000000002"],
    [.int 5000000000, uuid "00000000-0000-4000-8000-000000000003"]]

/-- Rows of the table `measure`. -/
def measureRows : List Record :=
  rows ["weight", "unit"] [
    [float "0.5", .text "kg"],
    [float "1.0", .text "kg"],
    [float "2.25", .text "lb"]]

/-- Rows of the table `switch`. -/
def switchRows : List Record :=
  rows ["on_state", "label"] [
    [.bool false, .text "off"],
    [.bool true, .text "on"]]

/-- Rows of the table `price_point`. -/
def pricePointRows : List Record := [
    [("amount", decimal "1.5"), ("label", .text "low")],
    [("amount", decimal "10")],
    [("amount", decimal "99.99"), ("label", .text "high")]]

/-- Rows of the table `hidden_key`. -/
def hiddenKeyRows : List Record :=
  rows ["secret_id", "name"] [
    [.int 1, .text "one"],
    [.int 2, .text "two"],
    [.int 3, .text "three"]]

/-- Rows of the table `triple`. -/
def tripleRows : List Record :=
  rows ["a", "b", "c", "v"] [
    [.int 1, .text "x", .int 1, .int 10],
    [.int 1, .text "y", .int 1, .null],
    [.int 2, .text "x", .int 1, .int 10],
    [.int (-1), .text "x", .int 2, .int 7],
    [.int 0, .text "", .int 2, .int 7],
    [.int 0, .text "é,:[", .int 3, .null]]

/-- The rows of all tables. -/
def seed : List (String × List Record) :=
  [("sample", sampleRows), ("sample_detail", sampleDetailRows), ("event", eventRows),
    ("visit", visitRows), ("token", tokenRows), ("visit_token", visitTokenRows),
    ("measure", measureRows), ("switch", switchRows), ("price_point", pricePointRows),
    ("hidden_key", hiddenKeyRows), ("triple", tripleRows)]

end TableGraph.Sample.Types

/-!
## Lists

A table with columns that hold lists.
-/

namespace TableGraph.Sample.Tiny

/-- The table `tag`. -/
def tagEntity : Except Fault Entity :=
  entity "tag"
    [column "id" (.plain (.integer .regular)),
      column "labels" (.array (.plain .string)),
      nullable (column "moods" (.array (.enumeration "mood")))]
    ["id"] []

/-- The schema. -/
def schema : Except Fault Schema :=
  schemaOf [tagEntity]
    [("mood", ["a", "b-c"])]

end TableGraph.Sample.Tiny
