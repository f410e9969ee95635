import TemplateRecovery.Attribute.Basic

/-!
# The functions of nodes, morphs and expressions

Nodes and morphs print themselves at an indentation, expressions print themselves as the value of an
attribute or as an argument, and all of them know their kind.
-/

namespace TemplateRecovery

namespace Method

/-- The text of a node or a morph, with an indentation and a step. -/
def printAt (v indent step : Value) : Act Value := do
  let s ← Act.store
  let text ← Act.lift ((s.tree v).toText (s.view indent) (s.view step))
  return .str text

def stepOf : Value → Act Value
  | .null => return .null
  | options => Attribute.get options "indent"

/-- The text of a node or a morph, with the arguments it was asked with. -/
def print (v : Value) : List Value → Act Value
  | [] => printAt v (.int 0) .null
  | [indent] => printAt v indent .null
  | [indent, options] => do
    let step ← stepOf options
    printAt v indent step
  | _ => Act.fail .wrongType

/-- A text that is computed from the finished form of a value. -/
def textOf (v : Value) (f : View → Except Fault String) : Act Value := do
  let s ← Act.store
  let text ← Act.lift (f (s.tree v))
  return .str text

/-- What an expression is as an argument: a path stands for itself. -/
def argumentOf (v : Value) (e : Expression) : Act Value :=
  match e with
  | .path p => return p
  | _ => textOf v fun view => view.argument.bind stringOnly

/-- The kind of a node, a morph or an expression. -/
def kindOf? : Object → Option Label
  | .node n _ => some (.node n.shape.kind)
  | .morph m _ => some (.morph m.kind)
  | .expression e => some (.expr e.kind)
  | _ => none

/-- Calls a function of a node, a morph or an expression. -/
def callPart (v : Value) (o : Object) (name : String) (args : List Value) : Act Value :=
  match name, o, args with
  | "to_string", .node _ _, args => print v args
  | "to_string", .morph _ _, args => print v args
  | "to_inline_string", .expression _, [] => textOf v View.inlineText
  | "to_value_string", .expression e, [] => argumentOf v e
  | "to_raw_string", .expression _, [] => textOf v View.rawText
  | "get_type", o, [] =>
    match kindOf? o with
    | some l => return .label l
    | none => Act.fail .wrongType
  | _, _, _ => Act.fail .wrongType

end Method

end TemplateRecovery
