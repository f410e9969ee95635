/-!
# Kinds

The kinds of nodes, morphs and expressions, with the names that answers and messages give them.
-/

namespace TemplateRecovery

/-- The kinds of nodes. -/
inductive NodeKind where
  | fragment
  | element
  | text
  | comment
  | placeholder
  deriving DecidableEq, Inhabited, Repr

/-- The kinds of morphs. -/
inductive MorphKind where
  | inline
  | attribute
  | element
  | content
  | block
  deriving DecidableEq, Inhabited, Repr

/-- The kinds of expressions. -/
inductive ExprKind where
  | literal
  | path
  | concat
  | subexpr
  deriving DecidableEq, Inhabited, Repr

def NodeKind.name : NodeKind → String
  | .fragment => "fragment"
  | .element => "element"
  | .text => "text"
  | .comment => "comment"
  | .placeholder => "morph"

def NodeKind.typeName : NodeKind → String
  | .fragment => "FragmentNode"
  | .element => "ElementNode"
  | .text => "TextNode"
  | .comment => "CommentNode"
  | .placeholder => "MorphNode"

def MorphKind.name : MorphKind → String
  | .inline => "inline"
  | .attribute => "attribute"
  | .element => "element"
  | .content => "content"
  | .block => "block"

def MorphKind.typeName : MorphKind → String
  | .inline => "InlineMorph"
  | .attribute => "AttributeMorph"
  | .element => "ElementMorph"
  | .content => "ContentMorph"
  | .block => "BlockMorph"

def ExprKind.name : ExprKind → String
  | .literal => "literal"
  | .path => "path"
  | .concat => "concat"
  | .subexpr => "subexpr"

def ExprKind.typeName : ExprKind → String
  | .literal => "LiteralValue"
  | .path => "PathValue"
  | .concat => "ConcatValue"
  | .subexpr => "SubexprValue"

/-- What a node, a morph or an expression answers when it is asked for its kind. -/
inductive Label where
  | node (kind : NodeKind)
  | morph (kind : MorphKind)
  | expr (kind : ExprKind)
  deriving DecidableEq, Inhabited, Repr

namespace Label

def name : Label → String
  | .node kind => kind.name
  | .morph kind => kind.name
  | .expr kind => kind.name

def typeName : Label → String
  | .node _ => "NodeType"
  | .morph _ => "MorphType"
  | .expr _ => "ValueType"

def text (l : Label) : String := l.typeName ++ "." ++ l.name.toUpper

def repr (l : Label) : String := "<" ++ l.text ++ ": '" ++ l.name ++ "'>"

end Label

end TemplateRecovery
