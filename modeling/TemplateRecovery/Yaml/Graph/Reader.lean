import TemplateRecovery.Yaml.Graph
import TemplateRecovery.Yaml.Token.Lexer

/-!
# From tokens to a graph

The grammar of option files, one function for each of its rules. A collection gets its vertex before its
items are read, so that an alias inside of it can lead back to it.

* `Graph.Reader.node` reads a node, in blocks or between brackets.
* `Graph.ofText` reads the only document of a text.

Each function takes at least one token or is followed by one that does, which bounds how deep they
call each other.
-/

namespace TemplateRecovery

namespace Yaml

namespace Graph

namespace Reader

/-- What is left to read, and what was read. -/
structure State where
  tokens : List Token
  /-- Why there are no more tokens. -/
  failure : Failure
  graph : Graph := {}
  anchors : List (String × VertexId) := []
  /-- What the handles in front of tags stand for. -/
  handles : List (String × String) := []
  version : Nat × Nat := (1, 2)

/-- A computation on the tokens that are left. -/
abbrev Read := StateT State Reading

def wrong {α : Type} : Read α := fun _ => malformed

def peek : Read Token := fun s =>
  match s.tokens with
  | t :: _ => .ok (t, s)
  | [] => .error s.failure

def skip : Read Unit := modify fun s => { s with tokens := s.tokens.drop 1 }

/-- Takes the next token if it is this one. -/
def accept (t : Token) : Read Bool := do
  if (← peek) = t then skip; return true else return false

/-- Takes the next token, which has to be this one. -/
def expect (t : Token) : Read Unit := do
  if ← accept t then return () else wrong

def add (v : Vertex) : Read VertexId := fun s =>
  .ok (s.graph.nextId, { s with graph := s.graph.add v })

def fill (id : VertexId) (contents : Contents) : Read Unit :=
  modify fun s => { s with graph := s.graph.fill id contents }

/-- The tag of a scalar by its form. Only two versions of the format say which forms there are. -/
def resolve (text : String) : Read Tag := do
  let (major, minor) := (← get).version
  if major = 1 ∧ (minor = 1 ∨ minor = 2) then return Tag.ofPlain text
  else throw (.fault (.noKey (.tuple [.int major, .int minor])))

/-- A scalar that is not written at all. -/
def emptyScalar : Read VertexId := do
  add ⟨← resolve "", .scalar ""⟩

def tagName (t : WrittenTag) : Read String := do
  match t.handle with
  | none => return t.suffix
  | some handle =>
    match (← get).handles.lookup handle with
    | some replacement => return replacement ++ t.suffix
    | none => wrong

/-- The anchor and the tag in front of a node, in either order. -/
def properties : Read (Option String × Option WrittenTag) := do
  match ← peek with
  | .anchor name =>
    skip
    match ← peek with
    | .tag t => skip; return (some name, some t)
    | _ => return (some name, none)
  | .tag t =>
    skip
    match ← peek with
    | .anchor name => skip; return (some name, some t)
    | _ => return (none, some t)
  | _ => return (none, none)

/-- A fresh vertex to which an anchor leads. -/
def addAnchored (anchor : Option String) (v : Vertex) : Read VertexId := do
  let id ← add v
  match anchor with
  | some name => modify fun s => { s with anchors := (name, id) :: s.anchors }
  | none => pure ()
  return id

def collectionTag (name : Option String) (default : Tag) : Tag :=
  match name with
  | none => default
  | some "!" => default
  | some name => Tag.ofName name

def scalarTag (name : Option String) (text : String) (plain : Bool) : Read Tag :=
  match name with
  | none => if plain then resolve text else return .text
  | some "!" => resolve text
  | some name => return Tag.ofName name

/-- Where an entry without contents ends. -/
def endsIndentless : Token → Bool
  | .blockEntry => true
  | .key => true
  | .value => true
  | .blockEnd => true
  | _ => false

/-- Where a key or a value without contents ends in a block. -/
def endsBlockItem : Token → Bool
  | .key => true
  | .value => true
  | .blockEnd => true
  | _ => false

/-- Whether a token closes brackets or separates their items. -/
def endsFlowItem (close : Token) (t : Token) : Bool := t == .flowEntry || t == close

/-- Whether a node without contents ends the document. -/
def endsDocument : Token → Bool
  | .directive _ => true
  | .documentStart => true
  | .documentEnd => true
  | .streamEnd => true
  | _ => false

mutual

/-- A node. Blocks are not allowed between brackets, and a sequence without indentation only inside a
block mapping. -/
def node (block indentless : Bool) : Nat → Read VertexId
  | 0 => wrong
  | fuel + 1 => do
    match ← peek with
    | .alias name =>
      skip
      match (← get).anchors.lookup name with
      | some id => return id
      | none => wrong
    | _ =>
      let (anchor, written) ← properties
      let tag ← match written with
        | some t => some <$> tagName t
        | none => pure none
      match ← peek with
      | .scalar text plain =>
        skip
        addAnchored anchor ⟨← scalarTag tag text plain, .scalar text⟩
      | .flowSequenceStart =>
        skip
        let id ← addAnchored anchor ⟨collectionTag tag .sequence, .sequence []⟩
        let items ← flowItems true fuel
        fill id (.sequence items)
        return id
      | .flowMappingStart =>
        skip
        let id ← addAnchored anchor ⟨collectionTag tag .mapping, .mapping [] []⟩
        let entries ← flowEntries true fuel
        fill id (.mapping entries [])
        return id
      | t =>
        if indentless && t == .blockEntry then
          let id ← addAnchored anchor ⟨collectionTag tag .sequence, .sequence []⟩
          let items ← indentlessItems fuel
          fill id (.sequence items)
          return id
        else if block && t == .blockSequenceStart then
          skip
          let id ← addAnchored anchor ⟨collectionTag tag .sequence, .sequence []⟩
          let items ← blockItems fuel
          fill id (.sequence items)
          return id
        else if block && t == .blockMappingStart then
          skip
          let id ← addAnchored anchor ⟨collectionTag tag .mapping, .mapping [] []⟩
          let entries ← blockEntries fuel
          fill id (.mapping entries [])
          return id
        else if anchor.isSome || tag.isSome then
          addAnchored anchor ⟨← scalarTag tag "" true, .scalar ""⟩
        else wrong

def blockItems : Nat → Read (List VertexId)
  | 0 => wrong
  | fuel + 1 => do
    if ← accept .blockEntry then
      let next ← peek
      let item ←
        if next == .blockEntry || next == .blockEnd then emptyScalar else node true false fuel
      return item :: (← blockItems fuel)
    else
      expect .blockEnd
      return []

/-- The items of a sequence that is not indented. -/
def indentlessItems : Nat → Read (List VertexId)
  | 0 => wrong
  | fuel + 1 => do
    if ← accept .blockEntry then
      let item ← if endsIndentless (← peek) then emptyScalar else node true false fuel
      return item :: (← indentlessItems fuel)
    else return []

/-- A value after its mark, or no value, in a block. -/
def blockValue : Nat → Read VertexId
  | 0 => wrong
  | fuel + 1 => do
    if ← accept .value then
      if endsBlockItem (← peek) then emptyScalar else node true true fuel
    else emptyScalar

def blockEntries : Nat → Read (List (VertexId × VertexId))
  | 0 => wrong
  | fuel + 1 => do
    match ← peek with
    | .key =>
      skip
      let key ← if endsBlockItem (← peek) then emptyScalar else node true true fuel
      let value ← blockValue fuel
      return (key, value) :: (← blockEntries fuel)
    | .value =>
      let key ← emptyScalar
      let value ← blockValue fuel
      return (key, value) :: (← blockEntries fuel)
    | _ =>
      expect .blockEnd
      return []

/-- A value after its mark, or no value, between brackets. -/
def flowValue (close : Token) : Nat → Read VertexId
  | 0 => wrong
  | fuel + 1 => do
    if ← accept .value then
      if endsFlowItem close (← peek) then emptyScalar else node false false fuel
    else emptyScalar

/-- The key after its mark between brackets, which may be missing. -/
def flowKey (close : Token) : Nat → Read VertexId
  | 0 => wrong
  | fuel + 1 => do
    let next ← peek
    if next == .value || endsFlowItem close next then emptyScalar else node false false fuel

def flowItems (first : Bool) : Nat → Read (List VertexId)
  | 0 => wrong
  | fuel + 1 => do
    if ← accept .flowSequenceEnd then return []
    else
      if !first then expect .flowEntry
      if ← accept .key then
        let id ← add ⟨.mapping, .mapping [] []⟩
        let key ← flowKey .flowSequenceEnd fuel
        let value ← flowValue .flowSequenceEnd fuel
        fill id (.mapping [(key, value)] [])
        return id :: (← flowItems false fuel)
      else if ← accept .flowSequenceEnd then return []
      else
        let item ← node false false fuel
        return item :: (← flowItems false fuel)

def flowEntries (first : Bool) : Nat → Read (List (VertexId × VertexId))
  | 0 => wrong
  | fuel + 1 => do
    if ← accept .flowMappingEnd then return []
    else
      if !first then expect .flowEntry
      match ← peek with
      | .key =>
        skip
        let key ← flowKey .flowMappingEnd fuel
        let value ← flowValue .flowMappingEnd fuel
        return (key, value) :: (← flowEntries false fuel)
      | .value =>
        let key ← emptyScalar
        let value ← flowValue .flowMappingEnd fuel
        return (key, value) :: (← flowEntries false fuel)
      | .flowMappingEnd =>
        skip
        return []
      | _ =>
        let key ← node false false fuel
        let value ← emptyScalar
        return (key, value) :: (← flowEntries false fuel)

end

/-- The handles that need no directive. -/
def defaultHandles : List (String × String) := [("!", "!"), ("!!", Tag.root)]

def directives (hasVersion : Bool) : Nat → Read Unit
  | 0 => wrong
  | fuel + 1 => do
    match ← peek with
    | .directive (.version major minor) =>
      skip
      if hasVersion || major != 1 then wrong
      else
        modify fun s => { s with version := (major, minor) }
        directives true fuel
    | .directive (.handle name replacement) =>
      skip
      if ((← get).handles.lookup name).isSome then wrong
      else
        modify fun s => { s with handles := (name, replacement) :: s.handles }
        directives hasVersion fuel
    | .directive .other =>
      skip
      directives hasVersion fuel
    | _ => return ()

/-- Takes the marks that end a document. -/
def documentEnds : Nat → Read Unit
  | 0 => wrong
  | fuel + 1 => do
    if ← accept .documentEnd then documentEnds fuel else return ()

/-- The node of a document that starts with a mark; none at the end of the text. -/
def explicitDocument (fuel : Nat) : Read (Option VertexId) := do
  documentEnds fuel
  if (← peek) = .streamEnd then return none
  directives false fuel
  expect .documentStart
  modify fun s => { s with handles := s.handles ++ defaultHandles }
  some <$> if endsDocument (← peek) then emptyScalar else node true false fuel

/-- The node of the first document, if there is one. -/
def document (fuel : Nat) : Read (Option VertexId) := do
  match ← peek with
  | .directive _ => explicitDocument fuel
  | .documentStart => explicitDocument fuel
  | .streamEnd => return none
  | _ =>
    modify fun s => { s with handles := defaultHandles }
    some <$> node true false fuel

/-- The end of the document, after which nothing may follow. -/
def finish : Read Unit := do
  discard (accept .documentEnd)
  if (← peek) = .streamEnd then return () else wrong

end Reader

/-- The graph of the only document of a text, and its top node if there is one. -/
def ofText (text : String) : Reading (Option VertexId × Graph) :=
  let tokens := Token.ofText text
  let read : Reader.Read (Option VertexId) := do
    let top ← Reader.document (4 * tokens.list.length + 8)
    if top.isSome then Reader.finish
    return top
  match read { tokens := tokens.list, failure := tokens.failure.getD .malformed } with
  | .ok (top, s) => .ok (top, s.graph)
  | .error failure => .error failure

end Graph

end Yaml

end TemplateRecovery
