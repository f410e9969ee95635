/-!
# The names of the hooks
-/

namespace TemplateRecovery

/-- The hooks that a rendering function can call. -/
inductive Hook where
  | get
  | concat
  | subexpr
  | inline
  | attribute
  | element
  | content
  | block
  deriving DecidableEq, Inhabited, Repr

namespace Hook

def name : Hook → String
  | .get => "get"
  | .concat => "concat"
  | .subexpr => "subexpr"
  | .inline => "inline"
  | .attribute => "attribute"
  | .element => "element"
  | .content => "content"
  | .block => "block"

def all : List Hook := [.get, .concat, .subexpr, .inline, .attribute, .element, .content, .block]

def ofName? (name : String) : Option Hook := all.find? (·.name == name)

end Hook

end TemplateRecovery
