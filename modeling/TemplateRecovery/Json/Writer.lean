import TemplateRecovery.Json.Basic
import TemplateRecovery.Number.Shortest
import TemplateRecovery.Text.Quoted

/-!
# Writing JSON

A document is written on one line, with a blank after each comma and each colon. In a string only
the double quote, the backslash and the controls below the blank are escaped.
-/

namespace TemplateRecovery

namespace Json

def escapeChar (c : Char) : List Char :=
  if c = '"' ∨ c = '\\' then ['\\', c]
  else if c = '\n' then ['\\', 'n']
  else if c = '\r' then ['\\', 'r']
  else if c = '\t' then ['\\', 't']
  else if c.toNat = 0x08 then ['\\', 'b']
  else if c.toNat = 0x0C then ['\\', 'f']
  else if c.toNat < 0x20 then '\\' :: 'u' :: Text.hex 4 c.toNat
  else [c]

def quote (s : String) : String :=
  String.ofList ('"' :: (s.toList.flatMap escapeChar ++ ['"']))

mutual

def write : Json → String
  | .null => "null"
  | .bool true => "true"
  | .bool false => "false"
  | .int n => toString n
  | .real x => x.text
  | .str s => quote s
  | .arr items => "[" ++ ", ".intercalate (writeItems items) ++ "]"
  | .obj members => "\x7b" ++ ", ".intercalate (writeMembers members) ++ "\x7d"

def writeItems : List Json → List String
  | [] => []
  | j :: rest => j.write :: writeItems rest

def writeMembers : List (String × Json) → List String
  | [] => []
  | (name, j) :: rest => (quote name ++ ": " ++ j.write) :: writeMembers rest

end

end Json

end TemplateRecovery
