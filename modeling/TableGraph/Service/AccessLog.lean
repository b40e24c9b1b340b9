import TableGraph.Text.Template

/-!
# The access log

A service writes a line for every request.  Requests that are made again and again to see whether it
is alive, and those for its schema, are left out.
-/

namespace TableGraph.Service

/-- Requests for these paths are left out of the log. -/
def quietPaths : List String := ["/graphql/schema", "/health"]

/-- The text holds the other one. -/
def holds (s part : String) : Bool := 1 < (s.splitOn part).length

/-- The line is about a path: it stands between blanks or begins a quotation. -/
def mentions (line path : String) : Bool :=
  holds line (" " ++ path ++ " ") || holds line ("\"" ++ path)

/-- The line stays in the log. -/
def keepsLine (line : String) : Bool := !quietPaths.any (mentions line)

/-- The record of a template and values stays in the log. -/
def keepsRecord (template : String) (values : List Value) : Except Fault Bool :=
  keepsLine <$> Text.fillTemplate template values

end TableGraph.Service
