import TemplateRecovery.Json.Basic

/-!
# Heights of JSON documents

The height of a document bounds the depth of every reader that descends into it.
-/

namespace TemplateRecovery

namespace Json

mutual

def height : Json → Nat
  | .arr items => itemsHeight items + 1
  | .obj members => membersHeight members + 1
  | _ => 1

def itemsHeight : List Json → Nat
  | [] => 0
  | j :: rest => max j.height (itemsHeight rest)

def membersHeight : List (String × Json) → Nat
  | [] => 0
  | (_, j) :: rest => max j.height (membersHeight rest)

end

end Json

end TemplateRecovery
