import TemplateRecovery.Value.Kind

/-!
# The log of a run

An `Event` is one thing worth noting while a template is recovered; `Event.message` is its wording.
-/

namespace TemplateRecovery

/-- Something worth noting while a template is recovered. -/
inductive Event where
  | slot (first last : Int) (kind : NodeKind)
  | block (name : String) (inverse : Bool)
  /-- A statement is about to be interpreted; the text of its first argument is kept. -/
  | statement (tag first : String)
  | alias (path : String)
  | registered (typeName : String)
  | detected (revision format : String)
  /-- A template was recovered; its text has so many characters. -/
  | recovered (revision : String) (length : Nat)

def Event.message : Event → String
  | .slot first last kind =>
    "Morph slot at [" ++ toString first ++ ", " ++ toString last ++ "] in " ++ kind.name ++ " node"
  | .block name inverse =>
    "Decompiling block '" ++ name ++ "' (inverse: " ++ (if inverse then "True" else "False") ++ ")"
  | .statement tag first => "Statement " ++ tag ++ " " ++ first
  | .alias path => "Defined alias path " ++ path
  | .registered typeName => "Template registered: " ++ typeName
  | .detected revision format => "Template revision " ++ revision ++ " -> " ++ format ++ " protocol"
  | .recovered revision length =>
    "Decompiled " ++ revision ++ " template (" ++ toString length ++ " chars)"

/-- The line that an event adds to the log. -/
def Event.line (e : Event) : String := "[DEBUG] " ++ e.message ++ "\n"

end TemplateRecovery
