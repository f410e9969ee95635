import TemplateRecovery.Render.Indent

/-!
# The text of a template

A finished tree is written with one node a line, nested parts one step of indentation deeper. Every
part prints what it holds by asking it for its text; a part that has none of the needed kind is
refused.

* `View.render` is the text of a node or morph at an indentation.
* `View.inlineText` is the text of an expression as the value of an attribute, `View.argument` its
  text as an argument of a helper.
* `View.plain` is the plain text of a value, `View.primitive` its text in the template language.

The layouts of the parts stand first; they are given the texts of what is inside in the order in which
these are asked for, so the first one that is refused decides.
-/

namespace TemplateRecovery

/-! ### Layouts -/

/-- A text between double braces. -/
def mustache (s : String) : String := "\x7b\x7b " ++ s ++ " \x7d\x7d"

/-- The text of a string; nothing else has one in this place. -/
def stringOnly : View → Except Fault String
  | .str s => .ok s
  | _ => .error .wrongType

/-- A view has no such text: unless it is an object that happens to have a field of this name, which
cannot be called as it would have to be, the attribute is missing. -/
def noText {α : Type} (name : String) : View → Except Fault α
  | .record fields =>
    if (fields.lookup name).isSome then .error .wrongType
    else .error (.noAttribute "types.SimpleNamespace" name)
  | .back .part _ => .error .endless
  | v => .error (.noAttribute v.ownerName name)

/-- The characters of a string are no parts of a template. -/
def noCharacters (name : String) (s : String) : Except Fault (List String) :=
  if s = "" then .ok [] else .error (.noAttribute "str" name)

/-- The plain text of a view, given what it prints if it is a node or morph. -/
def plainOf (rendered : Except Fault String) : View → Except Fault String
  | .str s => .ok s
  | .moment m => .ok m.text
  | .label l => .ok l.text
  | .back .part _ => .error .endless
  | v =>
    match v.label? with
    | some (.node _) => rendered
    | some (.morph _) => rendered
    | _ => Fault.written v

/-- The text of a view in the template language: truth values and null have their own spelling, and a
whole number loses its fraction. -/
def primitiveOf (rendered : Except Fault String) : View → Except Fault String
  | .null => .ok "null"
  | .bool true => .ok "true"
  | .bool false => .ok "false"
  | .float x => .ok (match x.toInt? with
    | some n => toString n
    | none => x.text)
  | v => plainOf rendered v

/-- A literal: a string in quotes, anything else as it is. -/
def literalOf (rendered : Except Fault String) : View → Except Fault String
  | .str s => .ok ("'" ++ s ++ "'")
  | v => primitiveOf rendered v

/-- A concatenation in double quotes. -/
def concatOf (parts : Except Fault (List String)) : Except Fault String := do
  let parts ← parts
  return "\"" ++ Text.join "" parts ++ "\""

/-- A helper with its parameters and named arguments; an empty group leaves no blank. -/
def callOf (name : View) (params hash : Except Fault (List String)) : Except Fault String := do
  let params ← params
  let hash ← hash
  let name ← stringOnly name
  return name ++ Text.group (Text.join " " params) ++ Text.group (Text.join " " hash)

/-- A helper between braces. -/
def helperOf (name : View) (params hash : Except Fault (List String)) : Except Fault String := do
  let text ← callOf name params hash
  return mustache text

/-- A bound attribute; without a value it cannot be printed. -/
def attributeOf (key value : View) (plainKey inline : Except Fault String) :
    Except Fault String :=
  match value with
  | .null => do
    let key ← plainKey
    .error (.shape (.missingValue key))
  | _ => do
    let key ← stringOnly key
    let text ← inline
    return key ++ "=" ++ text

def contentOf (primitive : Except Fault String) : Except Fault String := do
  let text ← primitive
  return mustache text

/-- The second branch of a block, if it has one. -/
def elseOf (indent : Width) (alternate : View) (text : Except Fault String) :
    Except Fault String :=
  match alternate with
  | .null => .ok ""
  | _ => do
    let margin ← indent.pad
    let text ← text
    return "\n" ++ margin ++ "\x7b\x7belse\x7d\x7d\n" ++ text

/-- A block with its branches one step deeper; without a primary branch it cannot be printed. -/
def blockOf (step indent : Width) (name primary alternate : View)
    (plainName opening : Except Fault String) (branch otherwise : Width → Except Fault String) :
    Except Fault String :=
  match primary with
  | .null => do
    let name ← plainName
    .error (.shape (.missingPrimary name))
  | _ => do
    let inner ← indent.deeper step
    let opening ← opening
    let first ← branch inner
    let second ← elseOf indent alternate (otherwise inner)
    let margin ← indent.pad
    let name ← stringOnly name
    return "\x7b\x7b#" ++ opening ++ " \x7d\x7d\n" ++ first ++ second ++ "\n" ++ margin ++
      "\x7b\x7b/" ++ name ++ "\x7d\x7d"

def fragmentOf (children : Except Fault (List String)) : Except Fault String := do
  let children ← children
  return Text.join "\n" children

/-- The children of an element, one step deeper and each on lines of its own. -/
def innerOf (step indent : Width) (children : View)
    (texts : Width → Except Fault (List String)) : Except Fault String :=
  if children.truthy then do
    let inner ← indent.deeper step
    let texts ← texts inner
    return Text.join "\n" texts ++ "\n"
  else .ok ""

/-- An opening tag, the children on lines of their own, and the closing tag. -/
def elementText (pad tag attributes bound modifiers children : String) : String :=
  pad ++ "<" ++ tag ++ Text.group attributes ++ Text.group bound ++ Text.group modifiers ++ ">\n" ++
    children ++ pad ++ "</" ++ tag ++ ">"

/-- An element: its tag with everything in it, its children, its closing tag. -/
def elementOf (indent : Width) (tag : View) (attributes bound modifiers : Except Fault (List String))
    (children : Except Fault String) : Except Fault String := do
  let attributes ← attributes
  let bound ← bound
  let modifiers ← modifiers
  let children ← children
  let margin ← indent.pad
  let tag ← stringOnly tag
  return elementText margin tag (Text.join " " attributes) (Text.join " " bound)
    (Text.join " " modifiers) children

def textOf (indent : Width) (contents : View) : Except Fault String := do
  let margin ← indent.pad
  let contents ← stringOnly contents
  return margin ++ contents

def commentOf (indent : Width) (contents : View) : Except Fault String := do
  let margin ← indent.pad
  let contents ← stringOnly contents
  return margin ++ "<!-- " ++ contents ++ " -->"

/-- What a placeholder is bound to; an unbound one cannot be printed. -/
def placeholderOf (indent : Width) (morph : View) (text : Except Fault String) :
    Except Fault String :=
  match morph with
  | .null => .error (.shape .unboundPlaceholder)
  | _ => do
    let margin ← indent.pad
    let text ← text
    return margin ++ text

/-- One more text in front. -/
def consText (text : Except Fault String) (rest : Except Fault (List String)) :
    Except Fault (List String) := do
  let text ← text
  let rest ← rest
  return text :: rest

/-- One more argument in front; the arguments are joined at the end, so only then one that is no
string is refused. -/
def consArgument (argument : Except Fault View) (rest : Except Fault (List String)) :
    Except Fault (List String) := do
  let argument ← argument
  let rest ← rest
  let text ← stringOnly argument
  return text :: rest

/-- A name and a value, the name first. -/
def pairOf (mark close : String) (key value : Except Fault String) : Except Fault String := do
  let key ← key
  let value ← value
  return key ++ mark ++ value ++ close

/-! ### Texts -/

mutual

/-- The text of a node or morph at an indentation. -/
def View.render (step indent : Width) : View → Except Fault String
  | .inline name params hash => helperOf name (argumentsText params) (hashText hash)
  | .modifier name params hash => helperOf name (argumentsText params) (hashText hash)
  | .attribute key value _ =>
    attributeOf key value (plainOf (key.render (.ofInt Width.defaultStep) (.ofInt 0)) key)
      value.inlineText
  | .content v => contentOf (primitiveOf (v.render (.ofInt Width.defaultStep) (.ofInt 0)) v)
  | .block name params hash primary alternate =>
    blockOf step indent name primary alternate
      (plainOf (name.render (.ofInt Width.defaultStep) (.ofInt 0)) name)
      (callOf name (argumentsText params) (hashText hash))
      (fun inner => primary.render step inner) (fun inner => alternate.render step inner)
  | .fragment children => fragmentOf (childrenTexts step indent children)
  | .element tag _ attributes bound modifiers children =>
    elementOf indent tag (attributesText attributes)
      (childrenTexts (.ofInt Width.defaultStep) (.ofInt 0) bound)
      (childrenTexts (.ofInt Width.defaultStep) (.ofInt 0) modifiers)
      (innerOf step indent children fun inner => childrenTexts step inner children)
  | .text contents _ => textOf indent contents
  | .comment contents _ => commentOf indent contents
  | .placeholder morph _ _ => placeholderOf indent morph (morph.render step indent)
  | v => noText "to_string" v

/-- The text of an expression as the value of an attribute. -/
def View.inlineText : View → Except Fault String
  | .literal v => literalOf (v.render (.ofInt Width.defaultStep) (.ofInt 0)) v
  | .path p => (stringOnly p).map mustache
  | .concat parts => concatOf (partsText parts)
  | .subexpr name params hash => helperOf name (argumentsText params) (hashText hash)
  | v => noText "to_inline_string" v

/-- What an expression is as an argument of a helper: a path stands for itself, whatever it is. -/
def View.argument : View → Except Fault View
  | .literal v => (literalOf (v.render (.ofInt Width.defaultStep) (.ofInt 0)) v).map .str
  | .path p => .ok p
  | .concat parts => (concatOf (partsText parts)).map .str
  | .subexpr name params hash => (helperOf name (argumentsText params) (hashText hash)).map .str
  | v => noText "to_value_string" v

/-- The plain text of what an expression is as an argument. -/
def View.argumentPlain : View → Except Fault String
  | .literal v => literalOf (v.render (.ofInt Width.defaultStep) (.ofInt 0)) v
  | .path p => plainOf (p.render (.ofInt Width.defaultStep) (.ofInt 0)) p
  | .concat parts => concatOf (partsText parts)
  | .subexpr name params hash => helperOf name (argumentsText params) (hashText hash)
  | v => noText "to_value_string" v

/-- One part of a concatenation: a literal contributes its plain text. -/
def View.partText : View → Except Fault String
  | .literal v => primitiveOf (v.render (.ofInt Width.defaultStep) (.ofInt 0)) v
  | .path p => (stringOnly p).map mustache
  | .concat parts => concatOf (partsText parts)
  | .subexpr name params hash => helperOf name (argumentsText params) (hashText hash)
  | v => noText "to_inline_string" v

def partsText : View → Except Fault (List String)
  | .list items => partItems items
  | .tuple items => partItems items
  | .map entries => partKeys entries
  | .str s => noCharacters "to_inline_string" s
  | _ => .error .wrongType

def partItems : List View → Except Fault (List String)
  | [] => .ok []
  | v :: rest => consText v.partText (partItems rest)

/-- The texts of parts that are the keys of a mapping. -/
def partKeys : List (View × View) → Except Fault (List String)
  | [] => .ok []
  | (k, _) :: rest => consText k.partText (partKeys rest)

def argumentsText : View → Except Fault (List String)
  | .list items => argumentItems items
  | .tuple items => argumentItems items
  | .map entries => argumentKeys entries
  | .str s => noCharacters "to_value_string" s
  | _ => .error .wrongType

def argumentItems : List View → Except Fault (List String)
  | [] => .ok []
  | v :: rest => consArgument v.argument (argumentItems rest)

/-- The texts of parameters that are the keys of a mapping. -/
def argumentKeys : List (View × View) → Except Fault (List String)
  | [] => .ok []
  | (k, _) :: rest => consArgument k.argument (argumentKeys rest)

def hashText : View → Except Fault (List String)
  | .map entries => hashItems entries
  | v => noText "items" v

def hashItems : List (View × View) → Except Fault (List String)
  | [] => .ok []
  | (key, v) :: rest =>
    consText
      (pairOf "=" "" (plainOf (key.render (.ofInt Width.defaultStep) (.ofInt 0)) key)
        v.argumentPlain)
      (hashItems rest)

def attributesText : View → Except Fault (List String)
  | .map entries => attributeItems entries
  | v => noText "items" v

def attributeItems : List (View × View) → Except Fault (List String)
  | [] => .ok []
  | (key, v) :: rest =>
    consText
      (pairOf "='" "'" (plainOf (key.render (.ofInt Width.defaultStep) (.ofInt 0)) key)
        (plainOf (v.render (.ofInt Width.defaultStep) (.ofInt 0)) v))
      (attributeItems rest)

def childrenTexts (step indent : Width) : View → Except Fault (List String)
  | .list items => childItems step indent items
  | .tuple items => childItems step indent items
  | .map entries => childKeys step indent entries
  | .str s => noCharacters "to_string" s
  | _ => .error .wrongType

def childItems (step indent : Width) : List View → Except Fault (List String)
  | [] => .ok []
  | v :: rest => consText (v.render step indent) (childItems step indent rest)

/-- The texts of children that are the keys of a mapping. -/
def childKeys (step indent : Width) : List (View × View) → Except Fault (List String)
  | [] => .ok []
  | (k, _) :: rest => consText (k.render step indent) (childKeys step indent rest)

end

namespace View

/-- What a node or morph prints when no width is given. -/
def standalone (v : View) : Except Fault String :=
  v.render (.ofInt Width.defaultStep) (.ofInt 0)

/-- The plain text of a value: a string stands for itself, a node or morph for what it prints. -/
def plain (v : View) : Except Fault String := plainOf v.standalone v

/-- The text of a value in the template language. -/
def primitive (v : View) : Except Fault String := primitiveOf v.standalone v

def rawText : View → Except Fault String
  | .literal v => v.primitive
  | v => noText "to_raw_string" v

/-- A helper with its parameters and named arguments. -/
def callText (name params hash : View) : Except Fault String :=
  callOf name (argumentsText params) (hashText hash)

/-- The text of a finished tree at an indentation, with the step that the options give. -/
def toText (v : View) (indent step : View) : Except Fault String :=
  v.render (Width.effective step) ⟨indent⟩

end View

end TemplateRecovery
