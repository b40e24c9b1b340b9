import TableGraph.Graph.TypeSystem

/-!
# The text of a type system

Every type is written with its fields on lines of their own and a blank line between types.  Scalars
that need no definition are left out.
-/

namespace TableGraph.Graph

/-- The description of a scalar, as a block of text. -/
def ScalarKind.description : ScalarKind → List String
  | .bigInteger =>
    ["\"\"\"",
      "The `BigInt` scalar type represents whole numbers between -2^63 and 2^64 - 1, " ++
        "beyond the 32-bit range of `Int`.",
      "\"\"\""]
  | _ => []

/-- A name and a type with a colon between them. -/
def InputField.text (f : InputField) : String := f.name ++ ": " ++ f.type.text

/-- A field with its arguments and its type. -/
def OutputField.text (f : OutputField) : String :=
  let arguments :=
    if f.arguments.isEmpty then ""
    else "(" ++ ", ".intercalate (f.arguments.map (·.text)) ++ ")"
  f.name ++ arguments ++ ": " ++ f.type.text

/-- A head and members in braces, each on a line. -/
def blockLines (head : String) (members : List String) : List String :=
  if members.isEmpty then [head]
  else (head ++ " \x7b") :: members.map ("  " ++ ·) ++ ["\x7d"]

/-- The lines of a type. -/
def NamedType.lines (t : NamedType) : List String :=
  match t.body with
  | .scalar kind => kind.description ++ ["scalar " ++ t.name]
  | .enumeration values => blockLines ("enum " ++ t.name) (values.map (·.1))
  | .input fields => blockLines ("input " ++ t.name) (fields.map (·.text))
  | .object fields => blockLines ("type " ++ t.name) (fields.map (·.text))

/-- The lines of all types, with a blank line between two. -/
def TypeSystem.lines (s : TypeSystem) : List String :=
  ([""].intercalate (s.allTypes.map (·.lines)))

end TableGraph.Graph
