import TemplateRecovery.Number.Shortest
import TemplateRecovery.Text.Digit
import TemplateRecovery.Text.Quoted
import TemplateRecovery.View.Basic

/-!
# The text of a value inside messages

`View.repr?` writes a finished value so that its parts can be told apart: strings in quotes, arrays in
brackets, and expressions, morphs and nodes by type and fields. An object inside itself is written as
three dots. A number with more digits than can be read cannot be written either, nor can anything that
holds it.
-/

namespace TemplateRecovery

def listText (items : List String) : String := "[" ++ Text.join ", " items ++ "]"

/-- Texts in parentheses; a single one is followed by a comma. -/
def tupleText : List String → String
  | [s] => "(" ++ s ++ ",)"
  | items => "(" ++ Text.join ", " items ++ ")"

def mapText (entries : List String) : String := "\x7b" ++ Text.join ", " entries ++ "\x7d"

def recordText (name : String) (fields : List (String × Option String)) : Option String := do
  let texts ← fields.mapM fun (field, text) => text.map (field ++ "=" ++ ·)
  return name ++ "(" ++ Text.join ", " texts ++ ")"

/-- Whether a number has few enough digits to be written. -/
def isSpelled (n : Int) : Bool := n.natAbs < Nat.pow 10 Text.digitLimit

/-- An object inside itself. -/
def Bracket.dots : Bracket → String
  | .list => "[...]"
  | .tuple => "(...)"
  | .map => "\x7b...\x7d"
  | .record => "namespace(...)"
  | .part => "..."

mutual

/-- The text of a value inside messages and containers. -/
def View.repr? : View → Option String
  | .null => some "None"
  | .bool true => some "True"
  | .bool false => some "False"
  | .int n => if isSpelled n then some (toString n) else none
  | .float x => some x.text
  | .str s => some (Text.quote s)
  | .moment m => some m.repr
  | .label l => some l.repr
  | .list items => (reprItems items).map listText
  | .tuple items => (reprItems items).map tupleText
  | .map entries => (reprEntries entries).map mapText
  | .record fields => recordText "namespace" (reprFields fields)
  | .literal v => recordText "LiteralValue" [("value", v.repr?)]
  | .path p => recordText "PathValue" [("path", p.repr?)]
  | .concat parts => recordText "ConcatValue" [("parts", parts.repr?)]
  | .subexpr name params hash =>
    recordText "SubexprValue" [("name", name.repr?), ("params", params.repr?), ("hash", hash.repr?)]
  | .inline name params hash =>
    recordText "InlineMorph"
      [("helper_name", name.repr?), ("params", params.repr?), ("hash", hash.repr?)]
  | .modifier name params hash =>
    recordText "ElementMorph"
      [("helper_name", name.repr?), ("params", params.repr?), ("hash", hash.repr?)]
  | .attribute key value _ =>
    recordText "AttributeMorph" [("key", key.repr?), ("value", value.repr?)]
  | .content v => recordText "ContentMorph" [("content", v.repr?)]
  | .block name params hash primary alternate =>
    recordText "BlockMorph"
      [("block_name", name.repr?), ("params", params.repr?), ("hash", hash.repr?),
        ("primary", primary.repr?), ("alternate", alternate.repr?)]
  | .fragment children => recordText "FragmentNode" [("children", children.repr?)]
  | .element tag ns attributes bound modifiers children =>
    recordText "ElementNode"
      [("children", children.repr?), ("tag_name", tag.repr?), ("namespace", ns.repr?),
        ("attributes", attributes.repr?), ("attribute_morphs", bound.repr?),
        ("element_morphs", modifiers.repr?)]
  | .text contents children =>
    recordText "TextNode" [("children", children.repr?), ("contents", contents.repr?)]
  | .comment contents children =>
    recordText "CommentNode" [("children", children.repr?), ("contents", contents.repr?)]
  | .placeholder morph _ children =>
    recordText "MorphNode" [("children", children.repr?), ("morph", morph.repr?)]
  | .slot _ => some "ElementSlot()"
  | .callable _ text => some text
  | .other _ text => some text
  | .back bracket _ => some bracket.dots

def reprItems : List View → Option (List String)
  | [] => some []
  | v :: rest => do
    let text ← v.repr?
    let texts ← reprItems rest
    return text :: texts

def reprEntries : List (View × View) → Option (List String)
  | [] => some []
  | (k, v) :: rest => do
    let key ← k.repr?
    let text ← v.repr?
    let texts ← reprEntries rest
    return (key ++ ": " ++ text) :: texts

/-- The names and texts of the fields of an object. -/
def reprFields : List (String × View) → List (String × Option String)
  | [] => []
  | (k, v) :: rest => (k, v.repr?) :: reprFields rest

end

/-- The text of a value inside a message that can be written. -/
def View.repr (v : View) : String := v.repr?.getD ""

end TemplateRecovery
