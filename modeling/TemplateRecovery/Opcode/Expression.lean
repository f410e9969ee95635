import TemplateRecovery.Container
import TemplateRecovery.Opcode.Raw

/-!
# Expression arrays

The first item of an array is its tag; the tag fixes the number and the form of the others. Reading an
argument gives the expression that it denotes.

* `Opcode.param` reads a parameter, `Opcode.params` an array of them, `Opcode.hash` a flat array of
  names and values.
* `Opcode.expression` reads an array.
* `Opcode.encode` writes an expression as the array that denotes it.
* `Opcode.allocate` makes an expression an object of the store.
-/

namespace TemplateRecovery

namespace Opcode

/-- The tags of expressions. -/
inductive ExprTag where
  | get
  | concat
  | subexpr
  deriving DecidableEq, Inhabited, Repr

def ExprTag.name : ExprTag → String
  | .get => "get"
  | .concat => "concat"
  | .subexpr => "subexpr"

def ExprTag.ofRaw? : Raw → Option ExprTag
  | .atom (.str s) =>
    if s = "get" then some .get
    else if s = "concat" then some .concat
    else if s = "subexpr" then some .subexpr
    else none
  | _ => none

/-- An expression that an argument denotes. -/
inductive Expr where
  | literal (v : Value)
  | path (p : String)
  | concat (parts : List Expr)
  | subexpr (name : String) (params : List Expr) (hash : List (String × Expr))
  deriving Inhabited

/-- The fault of a tagged array with the wrong number of arguments. -/
def arityFault (d : Display) (tag : String) (least : Nat) (most : Option Nat) (args : List Raw) :
    Fault :=
  .ofShape (.arity tag least most (Raw.views d.view args))

def unknownTag {α : Type} (d : Display) (kind : TagKind) (tag : Raw) : Except Fault α := do
  let s ← d.rawText tag
  .error (.unknownTag kind (d.raw tag) s)

def helperName (d : Display) (tag : String) : Raw → Except Fault String
  | .atom (.str s) => .ok s
  | r => .error (.ofShape (.notName tag (d.raw r)))

mutual

def param (d : Display) : Raw → Except Fault Expr
  | .list items => expression d items
  | .tuple items => expression d items
  | .atom v => .ok (.literal v)

def expression (d : Display) : List Raw → Except Fault Expr
  | [] => .error (.shape (.emptyArray .expression))
  | tag :: args =>
    match ExprTag.ofRaw? tag with
    | none => unknownTag d .expression tag
    | some .get =>
      match args with
      | [.atom (.str p)] => .ok (.path p)
      | [r] => .error (.ofShape (.notPath (d.raw r)))
      | args => .error (arityFault d "get" 1 (some 1) args)
    | some .concat =>
      match args with
      | [parts] => do
        let parts ← params d parts
        return .concat parts
      | args => .error (arityFault d "concat" 1 (some 1) args)
    | some .subexpr =>
      match args with
      | [name] => do
        let name ← helperName d "subexpr" name
        return .subexpr name [] []
      | [name, ps] => do
        let name ← helperName d "subexpr" name
        let ps ← params d ps
        return .subexpr name ps []
      | [name, ps, h] => do
        let name ← helperName d "subexpr" name
        let ps ← params d ps
        let h ← hash d h
        return .subexpr name ps h
      | args => .error (arityFault d "subexpr" 1 (some 3) args)

/-- Parameters: null or an array. -/
def params (d : Display) : Raw → Except Fault (List Expr)
  | .atom .null => .ok []
  | .list items => paramItems d items
  | .tuple items => paramItems d items
  | .atom v => .error (.shape (.notParams (d.view v)))

/-- The expressions that the items of an array denote. -/
def paramItems (d : Display) : List Raw → Except Fault (List Expr)
  | [] => .ok []
  | r :: rest => do
    let e ← param d r
    let es ← paramItems d rest
    return e :: es

/-- Named arguments: null or a flat array of names and values. -/
def hash (d : Display) : Raw → Except Fault (List (String × Expr))
  | .atom .null => .ok []
  | .list items =>
    if items.length % 2 = 1 then .error (.ofShape (.oddHash (Raw.views d.view items)))
    else hashItems d items []
  | .tuple items =>
    if items.length % 2 = 1 then .error (.ofShape (.oddHash (Raw.views d.view items)))
    else hashItems d items []
  | .atom v => .error (.shape (.notHash (d.view v)))

/-- Names and values in turn, added to the arguments so far; a name given again takes the later
value in its first place. -/
def hashItems (d : Display) :
    List Raw → List (String × Expr) → Except Fault (List (String × Expr))
  | key :: r :: rest, done => do
    let e ← param d r
    let name ← d.rawText key
    hashItems d rest (Assoc.set name e done)
  | _, done => .ok done

end

mutual

/-- The array or literal that denotes an expression. -/
def encode : Expr → Raw
  | .literal v => .atom v
  | .path p => .list [.atom (.str "get"), .atom (.str p)]
  | .concat parts => .list [.atom (.str "concat"), .list (encodeAll parts)]
  | .subexpr name ps h =>
    .list [.atom (.str "subexpr"), .atom (.str name), .list (encodeAll ps), .list (encodeHash h)]

def encodeAll : List Expr → List Raw
  | [] => []
  | e :: rest => encode e :: encodeAll rest

/-- The flat items that denote named arguments. -/
def encodeHash : List (String × Expr) → List Raw
  | [] => []
  | (k, e) :: rest => .atom (.str k) :: encode e :: encodeHash rest

end

mutual

def allocate : Expr → Act Value
  | .literal v => Act.new (.expression (.literal v))
  | .path p => Act.new (.expression (.path (.str p)))
  | .concat parts => do
    let parts ← allocateAll parts
    Act.new (.expression (.concat (.own parts)))
  | .subexpr name ps h => do
    let ps ← allocateAll ps
    let h ← allocateHash h
    Act.new (.expression (.subexpr ⟨.str name, .own ps, .own h⟩))

def allocateAll : List Expr → Act (List Value)
  | [] => return []
  | e :: rest => do
    let v ← allocate e
    let vs ← allocateAll rest
    return v :: vs

def allocateHash : List (String × Expr) → Act Entries
  | [] => return []
  | (k, e) :: rest => do
    let v ← allocate e
    let entries ← allocateHash rest
    return (.str k, v) :: entries

end

/-! ### Values -/

/-- The expression that a value denotes as a parameter. -/
def paramOf (v : Value) : Act Value := do
  let s ← Act.store
  let e ← Act.lift (param s.display (Raw.ofValue s v))
  allocate e

/-- The expressions that a value denotes as parameters. -/
def paramsOf (v : Value) : Act (List Value) := do
  let s ← Act.store
  let es ← Act.lift (params s.display (Raw.ofValue s v))
  allocateAll es

def hashOf (v : Value) : Act Entries := do
  let s ← Act.store
  let h ← Act.lift (hash s.display (Raw.ofValue s v))
  allocateHash h

/-- A helper with its parameters and named arguments, read in this order. -/
def helperCall (tag : String) (name ps h : Value) : Act HelperCall := do
  let s ← Act.store
  let name ← Act.lift (helperName s.display tag (Raw.ofValue s name))
  let ps ← paramsOf ps
  let h ← hashOf h
  return ⟨.str name, .own ps, .own h⟩

/-- The expression that any value denotes when it is read as a tagged array: the characters of a
string and the entry of a mapping under zero can be tags too, but have no arguments. -/
def expressionOf (v : Value) : Act Value := do
  let s ← Act.store
  match s.array? v with
  | some _ => do
    let e ← Act.lift (expression s.display ((Raw.ofValue s v).array?.getD []))
    allocate e
  | none =>
    if s.truthy v then do
      let tag ← Container.item v (.int 0)
      match ExprTag.ofRaw? (Raw.ofValue s tag) with
      | none => Act.lift (unknownTag s.display .expression (Raw.ofValue s tag))
      | some _ => Act.fail .wrongType
    else Act.fail (.shape (.emptyArray .expression))

end Opcode

end TemplateRecovery
