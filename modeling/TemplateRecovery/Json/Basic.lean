import TemplateRecovery.Number.Binary64

/-!
# JSON documents

The members of an object are kept in the order in which they are written.
-/

namespace TemplateRecovery

/-- A JSON document. -/
inductive Json where
  | null
  | bool (b : Bool)
  | int (n : Int)
  | real (x : Binary64)
  | str (s : String)
  | arr (items : List Json)
  | obj (members : List (String × Json))
  deriving Inhabited

namespace Json

def member? (name : String) : Json → Option Json
  | .obj members => members.lookup name
  | _ => none

/-- The member of an object with this name, where null counts as absent. -/
def present? (name : String) (j : Json) : Option Json :=
  match j.member? name with
  | some .null => none
  | m => m

def str? : Json → Option String
  | .str s => some s
  | _ => none

def arr? : Json → Option (List Json)
  | .arr items => some items
  | _ => none

def obj? : Json → Option (List (String × Json))
  | .obj members => some members
  | _ => none

end Json

end TemplateRecovery
