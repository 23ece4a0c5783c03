import TypeBridge.Error
import TypeBridge.Keyed
import TypeBridge.TypeText.Parser

/-!
Overrides: what a named type is mapped to instead of the default. An override is an expression that
is used as it stands, or another Go type that is mapped in its place.
-/

namespace TypeBridge

inductive TypeOverride where
  | expression (value : Expr)
  | type (type : SourceType)
deriving Inhabited

namespace TypeOverride

/-- An override written as a Go type expression. -/
def parse (text : String) : Except Error TypeOverride :=
  match TypeText.parse text with
  | .ok t => .ok (.type t)
  | .error e => .error (.typeExpression text e)

def keyword (word : Keyword) : TypeOverride := .expression (.keyword word)

def nullable (word : Keyword) : TypeOverride := .expression (.nullable (.keyword word))

/-- The overrides that are always in force. -/
def defaults : Keyed TypeOverride := .ofList [("error", keyword .string)]

/-- Common types that are written as primitives in JSON. -/
def standard : List (String × TypeOverride) :=
  [("time.Time", keyword .string),
   ("database/sql.NullTime", nullable .string),
   ("database/sql.NullString", nullable .string),
   ("database/sql.NullBool", nullable .boolean),
   ("database/sql.NullInt64", nullable .number),
   ("database/sql.NullInt32", nullable .number),
   ("database/sql.NullInt16", nullable .number),
   ("database/sql.NullFloat64", nullable .number),
   ("github.com/google/uuid.UUID", keyword .string),
   ("github.com/google/uuid.NullUUID", nullable .string)]

end TypeOverride

end TypeBridge
