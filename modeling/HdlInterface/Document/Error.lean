import HdlInterface.Json.Writer

/-!
# Document errors

Why a document cannot be read or written, or its names cannot be made canonical.
-/

namespace HdlInterface

/-- What a field has to hold. -/
inductive Shape
  | string
  | object
  | array
  | namePart
  | name
  | integer
  | bitWidth
deriving DecidableEq, Repr

def Shape.phrase : Shape → String
  | string => "a string"
  | object => "an object"
  | array => "an array"
  | namePart => "a name part string"
  | name => "a string or list of strings"
  | integer => "an integer"
  | bitWidth => "a bit width"

inductive DocumentError
  /-- a field that has to be present is not -/
  | missingField (key : String)
  /-- a field holds something else than it has to -/
  | unexpectedType (key : String) (expected : Shape)
  | invalidDirection (text : String)
  | unknownLiteral (kind : String)
  /-- an object that is neither a literal nor an operator -/
  | unparsable (fields : Fields)
  /-- a name is declared a second time in its scope -/
  | redefinition (name : String)
  /-- an entry of a keyed section declares another name than its key -/
  | nameMismatch (key name : String)
  /-- the text is not JSON; where a reader stops in it and why is left out -/
  | malformed

/-- What is reported. Malformed JSON is reported as such and no more: the colon and the detail that
a report has behind these words are left out. -/
def DocumentError.message : DocumentError → String
  | missingField key => s!"missing field '{key}'"
  | unexpectedType key expected => s!"field '{key}' expected {expected.phrase}"
  | invalidDirection text => s!"invalid port direction '{text}'"
  | unknownLiteral kind => s!"unknown type of literal '{kind}'"
  | unparsable fields => "unparsable expression " ++ fields.toText .compact
  | redefinition name => s!"redefinition of '{name}'"
  | nameMismatch key name => s!"entry '{key}' declares name '{name}'"
  | malformed => "malformed JSON"

end HdlInterface
