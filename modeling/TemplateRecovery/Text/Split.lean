/-!
# Splitting texts

`Text.splitAt` cuts a text at every occurrence of a character; the pieces may be empty, and there is
always at least one.
-/

namespace TemplateRecovery

namespace Text

/-- The pieces of a list of characters between the occurrences of a character. -/
def pieces (c : Char) : List Char → List (List Char)
  | [] => [[]]
  | d :: rest =>
    if d = c then [] :: pieces c rest
    else
      match pieces c rest with
      | [] => [[d]]
      | piece :: more => (d :: piece) :: more

/-- The pieces of a text between the occurrences of a character. -/
def splitAt (c : Char) (s : String) : List String := (pieces c s.toList).map String.ofList

end Text

end TemplateRecovery
