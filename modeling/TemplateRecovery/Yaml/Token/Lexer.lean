import TemplateRecovery.Yaml.Property
import TemplateRecovery.Yaml.Scalar.Block
import TemplateRecovery.Yaml.Scalar.Plain

/-!
# From text to tokens

Tokens are read from left to right. Whether a scalar is the key of a mapping is only known when a colon
follows it on its line, so the places where a key may have started are remembered, one for each level
of brackets.

* `Lexer.step` reads the next token, together with the tokens that a change of indentation gives.
* `Token.ofText` reads all tokens.
-/

namespace TemplateRecovery

namespace Yaml

namespace Lexer

/-- The two kinds of brackets. -/
inductive Bracket where
  | sequence
  | mapping
  deriving DecidableEq, Inhabited, Repr

/-- A place where a key may have started. -/
structure Candidate where
  /-- The number of tokens in front of it. -/
  position : Nat
  /-- Whether a key has to start here. -/
  required : Bool
  index : Nat
  line : Nat
  column : Nat

/-- What is known while tokens are read. -/
structure State where
  cursor : Cursor
  tokens : Array Token := #[]
  /-- The open brackets, innermost first. -/
  brackets : List Bracket := []
  /-- The indentation of the innermost block, or less than zero outside of all blocks. -/
  indent : Int := -1
  /-- The indentations of the blocks around it. -/
  outer : List Int := []
  /-- Whether a key may start here. -/
  mayStartKey : Bool := true
  /-- The places where keys may have started, by the number of open brackets. -/
  candidates : List (Nat × Candidate) := []
  /-- Whether a key could still have started at one of these places before the gap in front of this
  token. -/
  held : Bool := false
  ended : Bool := false

/-- Reading goes on, or fails in a state. -/
abbrev Result := Except (Failure × State) State

namespace State

def inFlow (s : State) : Bool := !s.brackets.isEmpty

def level (s : State) : Nat := s.brackets.length

def push (s : State) (t : Token) : State := { s with tokens := s.tokens.push t }

def fail {α : Type} (s : State) : Except (Failure × State) α := .error (.malformed, s)

def lift {α : Type} (s : State) : Reading α → Except (Failure × State) α
  | .ok a => .ok a
  | .error failure => .error (failure, s)

/-- Whether a key that may have started at a place cannot end any more. -/
def isStale (s : State) (k : Candidate) : Bool :=
  k.line != s.cursor.line || 1024 < s.cursor.index - k.index

/-- Forgets the places where keys can have started no longer. -/
def dropStale (s : State) : Result :=
  if s.candidates.any fun (_, k) => s.isStale k && k.required then s.fail
  else .ok { s with candidates := s.candidates.filter fun (_, k) => !s.isStale k }

/-- Forgets the place where a key may have started between these brackets. -/
def dropCandidate (s : State) : Result :=
  match s.candidates.lookup s.level with
  | some k =>
    if k.required then s.fail
    else .ok { s with candidates := s.candidates.filter fun (l, _) => l != s.level }
  | none => .ok s

/-- Remembers that a key may start here. -/
def saveCandidate (s : State) : Result :=
  if s.mayStartKey then do
    let s ← s.dropCandidate
    let c := s.cursor
    let required := !s.inFlow && s.indent == c.column
    let k : Candidate := ⟨s.tokens.size, required, c.index, c.line, c.column⟩
    return { s with candidates := (s.level, k) :: s.candidates }
  else .ok s

/-- Closes the blocks that are indented more deeply than a column. -/
def closeBlocks (column : Int) : List Int → State → State
  | [], s => s
  | next :: rest, s =>
    if column < s.indent then
      closeBlocks column rest { s.push .blockEnd with indent := next, outer := rest }
    else s

/-- Closes the blocks that are indented more deeply than a column, unless brackets are open. -/
def unwind (s : State) (column : Int) : State :=
  if s.inFlow then s else closeBlocks column s.outer s

/-- Opens a block at a column, if it is indented more deeply: the state, and whether it is open. -/
def openBlock (s : State) (column : Nat) : State × Bool :=
  if s.indent < column then ({ s with indent := column, outer := s.indent :: s.outer }, true)
  else (s, false)

def skip (s : State) (n : Nat) : State := { s with cursor := s.cursor.skip n }

/-- Blanks, comments and ends of lines. -/
def skipGaps : Nat → State → State
  | 0, s => s
  | fuel + 1, s =>
    let gap := if s.inFlow then isGap else (· == ' ')
    let c := (s.cursor.skipWhile gap).skipComment
    match c.lineBreak? with
    | some (_, c) => skipGaps fuel { s with cursor := c, mayStartKey := !s.inFlow || s.mayStartKey }
    | none => { s with cursor := c }

end State

open State

def fetchEnd (s : State) : Result := do
  let s ← (s.unwind (-1)).dropCandidate
  return { s.push .streamEnd with mayStartKey := false, candidates := [], ended := true }

def fetchDirective (s : State) : Result := do
  let s ← (s.unwind (-1)).dropCandidate
  let (d, c) ← s.lift (Property.directive s.cursor)
  return { s.push (.directive d) with mayStartKey := false, cursor := c }

def fetchDocumentMark (t : Token) (s : State) : Result := do
  let s ← (s.unwind (-1)).dropCandidate
  return { (s.push t).skip 3 with mayStartKey := false }

def fetchOpen (b : Bracket) (t : Token) (s : State) : Result := do
  let s ← s.saveCandidate
  return { (s.push t).skip 1 with brackets := b :: s.brackets, mayStartKey := true }

def fetchClose (t : Token) (s : State) : Result := do
  let s ← s.dropCandidate
  return { (s.push t).skip 1 with brackets := s.brackets.drop 1, mayStartKey := false }

def fetchFlowEntry (s : State) : Result := do
  let s ← s.dropCandidate
  return { (s.push .flowEntry).skip 1 with mayStartKey := true }

/-- Opens a block at this column where a key may start; brackets need no block. -/
def enterBlock (t : Token) (s : State) : Result :=
  if s.inFlow then .ok s
  else if s.mayStartKey then
    match s.openBlock s.cursor.column with
    | (s, true) => .ok (s.push t)
    | (s, false) => .ok s
  else s.fail

def fetchBlockEntry (s : State) : Result := do
  let s ← enterBlock .blockSequenceStart s
  let s ← s.dropCandidate
  return { (s.push .blockEntry).skip 1 with mayStartKey := true }

/-- The mark in front of a key. -/
def fetchKey (s : State) : Result := do
  let s ← enterBlock .blockMappingStart s
  let s ← s.dropCandidate
  return { (s.push .key).skip 1 with mayStartKey := !s.inFlow }

/-- Inserts the token for a key where it started, and opens its block there if need be. -/
def insertKey (k : Candidate) (s : State) : State :=
  let insert (s : State) (t : Token) : State :=
    { s with tokens := (s.tokens.toList.insertIdx k.position t).toArray }
  let s := insert s .key
  if s.inFlow then s
  else
    match s.openBlock k.column with
    | (s, true) => insert s .blockMappingStart
    | (s, false) => s

/-- The mark between a key and its value. -/
def fetchValue (s : State) : Result :=
  match s.candidates.lookup s.level with
  | some k =>
    let s := { s with candidates := s.candidates.filter fun (l, _) => l != s.level }
    .ok { ((insertKey k s).push .value).skip 1 with mayStartKey := false }
  | none => do
    let s ← enterBlock .blockMappingStart s
    let s ← s.dropCandidate
    return { (s.push .value).skip 1 with mayStartKey := !s.inFlow }

def fetchName (make : String → Token) (s : State) : Result := do
  let s ← s.saveCandidate
  let (name, c) ← s.lift (Property.name s.cursor)
  return { s.push (make name) with mayStartKey := false, cursor := c }

def fetchTag (s : State) : Result := do
  let s ← s.saveCandidate
  let (t, c) ← s.lift (Property.tag s.cursor)
  return { s.push (.tag t) with mayStartKey := false, cursor := c }

def fetchBlockScalar (folded : Bool) (s : State) : Result := do
  let s ← s.dropCandidate
  let (text, c) ← s.lift (Block.read folded s.indent s.cursor.next)
  return { s.push (.scalar (String.ofList text) false) with mayStartKey := true, cursor := c }

def fetchQuoted (s : State) : Result := do
  let s ← s.saveCandidate
  let (text, c) ← s.lift (Quoted.read s.cursor)
  return { s.push (.scalar (String.ofList text) false) with mayStartKey := false, cursor := c }

def fetchPlain (s : State) : Result := do
  let s ← s.saveCandidate
  let r := Plain.read s.inFlow (s.indent + 1) s.cursor
  return { s.push (.scalar (String.ofList r.text) true) with
    mayStartKey := r.crossed, cursor := r.cursor }

/-- Whether a colon here stands between a key and its value. -/
def isValueMark (s : State) : Bool :=
  let ended := endsWord (s.cursor.peekAt 1)
  match s.brackets with
  | [] => ended
  | .sequence :: _ => ended
  | .mapping :: _ =>
    if s.held && s.tokens.back? == some .value then ended else true

/-- Whether a plain scalar may start with a character, given the one after it. -/
def startsPlain (inFlow : Bool) (c after : Char) : Bool :=
  if c = '-' then !endsWord after
  else if c = ':' then (if inFlow then !isGap after else !endsWord after)
  else if c = '?' then !inFlow && !endsWord after
  else !endsWord c && !(",[]\x7b\x7d#&*!|>\x27\"%@`".toList.contains c)

/-- Whether something stands at the front of a line. -/
def isAtMargin (s : State) (word : String) : Bool := s.cursor.column == 0 && s.cursor.isWord word

/-- Reads the token that starts with the next character. -/
def fetch (s : State) : Result :=
  let c := s.cursor.peek
  let after := s.cursor.peekAt 1
  if c = '\x00' then fetchEnd s
  else if c = '%' && s.cursor.column == 0 then fetchDirective s
  else if isAtMargin s "---" then fetchDocumentMark .documentStart s
  else if isAtMargin s "..." then fetchDocumentMark .documentEnd s
  else if c = '[' then fetchOpen .sequence .flowSequenceStart s
  else if c = '\x7b' then fetchOpen .mapping .flowMappingStart s
  else if c = ']' then fetchClose .flowSequenceEnd s
  else if c = '\x7d' then fetchClose .flowMappingEnd s
  else if c = ',' then fetchFlowEntry s
  else if c = '-' && endsWord after then fetchBlockEntry s
  else if c = '?' && (s.inFlow || endsWord after) then fetchKey s
  else if c = ':' && isValueMark s then fetchValue s
  else if c = '*' then fetchName .alias s
  else if c = '&' then fetchName .anchor s
  else if c = '!' then fetchTag s
  else if c = '|' && !s.inFlow then fetchBlockScalar false s
  else if c = '>' && !s.inFlow then fetchBlockScalar true s
  else if c = Quoted.singleQuote || c = Quoted.doubleQuote then fetchQuoted s
  else if startsPlain s.inFlow c after then fetchPlain s
  else s.fail

def step (s : State) : Result := do
  let s ← s.dropStale
  let s := { s with held := !s.candidates.isEmpty }
  let s ← (s.skipGaps (s.cursor.rest.length + 1)).dropStale
  fetch (s.unwind s.cursor.column)

def run : Nat → State → Result
  | 0, s => s.fail
  | fuel + 1, s => do
    let s ← step s
    if s.ended then return s else run fuel s

/-- The tokens that are known for sure: no key can be inserted in front of them any more. -/
def State.settled (s : State) : List Token :=
  let limit := s.candidates.foldl (fun n (_, k) => min n k.position) s.tokens.size
  s.tokens.toList.take limit

end Lexer

/-- The tokens of a text, and the failure that ends them if there is one. -/
structure Tokens where
  list : List Token
  failure : Option Failure

def isAllowed (c : Char) : Bool :=
  let n := c.toNat
  n == 0x09 || n == 0x0A || n == 0x0D || (0x20 ≤ n && n ≤ 0x7E) || n == 0x85 ||
    (0xA0 ≤ n && n ≤ 0xD7FF) || (0xE000 ≤ n && n ≤ 0xFFFD) || 0x10000 ≤ n

/-- A text whose lines all end in the same way. -/
def uniform : List Char → List Char
  | [] => []
  | '\r' :: '\n' :: rest => '\n' :: uniform rest
  | '\r' :: rest => '\n' :: uniform rest
  | c :: rest => c :: uniform rest

/-- The tokens of a text. The mark that a file may start with is no part of it. -/
def Token.ofText (text : String) : Tokens :=
  let chars := uniform text.toList
  if !chars.all isAllowed then ⟨[], some .malformed⟩
  else
    let c : Cursor := { rest := chars }
    let c := if c.peek = '\uFEFF' then c.next else c
    match Lexer.run (chars.length + 2) { cursor := c } with
    | .ok s => ⟨s.tokens.toList, none⟩
    | .error (failure, s) => ⟨s.settled, some failure⟩

end Yaml

end TemplateRecovery
