import TemplateRecovery.Yaml.Cursor

/-!
# Block scalars

A block scalar consists of the lines that are indented more deeply than what surrounds them. Its
header tells whether ends of lines are kept or become blanks, what happens to those at the end, and
maybe how deep the lines are indented.
-/

namespace TemplateRecovery

namespace Yaml

namespace Block

/-- What happens to the ends of lines at the end of a block scalar. -/
inductive Chomping where
  /-- The last one is kept. -/
  | clip
  /-- None is kept. -/
  | strip
  /-- All are kept. -/
  | keep
  deriving DecidableEq, Inhabited, Repr

/-- The header of a block scalar. -/
structure Header where
  chomping : Chomping
  increment : Option Nat

/-- A mark for the ends of lines, if one is here. -/
def chomping? (c : Cursor) : Option (Chomping × Cursor) :=
  if c.peek = '+' then some (.keep, c.next)
  else if c.peek = '-' then some (.strip, c.next)
  else none

/-- A digit for the depth, if one is here; zero is none. -/
def increment? (c : Cursor) : Reading (Option Nat × Cursor) :=
  if c.peek.isDigit then
    if c.peek = '0' then malformed else .ok (some (c.peek.toNat - '0'.toNat), c.next)
  else .ok (none, c)

def marks (c : Cursor) : Reading (Header × Cursor) :=
  match chomping? c with
  | some (chomping, c) => do
    let (increment, c) ← increment? c
    return (⟨chomping, increment⟩, c)
  | none => do
    let (increment, c) ← increment? c
    match increment, chomping? c with
    | some n, some (chomping, c) => return (⟨chomping, some n⟩, c)
    | increment, _ => return (⟨.clip, increment⟩, c)

/-- A header with the rest of its line, which may hold a comment. -/
def header (c : Cursor) : Reading (Header × Cursor) := do
  let (h, c) ← marks c
  if isEnd c.peek || c.peek == ' ' then
    let c := c.skipBlanks.skipComment
    if isEnd c.peek then
      match c.lineBreak? with
      | some (_, c) => return (h, c)
      | none => return (h, c)
    else malformed
  else malformed

/-- The empty lines at the front of a block scalar. -/
structure Front where
  breaks : List Char
  /-- The column at which the first empty line ends. -/
  first : Option Nat
  /-- The greatest column that blanks reach. -/
  deepest : Nat
  cursor : Cursor

/-- The empty lines at the front, when the depth is not given. -/
def front : Nat → Front → Front
  | 0, f => f
  | fuel + 1, f =>
    if f.cursor.peek = ' ' then
      let c := f.cursor.next
      front fuel { f with deepest := max f.deepest c.column, cursor := c }
    else
      match f.cursor.lineBreak? with
      | none => f
      | some (b, c) =>
        front fuel
          { f with
            breaks := f.breaks ++ [b]
            first := f.first.or (some f.cursor.column)
            cursor := c }

/-- Whether the first empty line is indented, but less than what follows. -/
def Front.isUneven (f : Front) : Bool :=
  match f.first with
  | some column => 0 < column && column < f.deepest
  | none => false

/-- The place after the blanks up to a depth. -/
def dedent (indent : Nat) : Nat → Cursor → Cursor
  | 0, c => c
  | fuel + 1, c => if c.column < indent && c.peek == ' ' then dedent indent fuel c.next else c

/-- Empty lines, with blanks up to a depth dropped. -/
def emptyLines (indent : Nat) : Nat → Cursor → List Char → List Char × Cursor
  | 0, c, breaks => (breaks, c)
  | fuel + 1, c, breaks =>
    let c := dedent indent (c.rest.length + 1) c
    match c.lineBreak? with
    | some (b, c) => emptyLines indent fuel c (breaks ++ [b])
    | none => (breaks, c)

/-- Empty lines. -/
def breaksAt (indent : Nat) (c : Cursor) : List Char × Cursor :=
  emptyLines indent (c.rest.length + 1) c []

/-- The lines of a block scalar that were read: their text, the end of the last line, the empty lines
after it, and the place after these. -/
structure Lines where
  text : List Char
  lineEnd : List Char
  breaks : List Char
  cursor : Cursor

/-- How a block scalar reads its lines. -/
structure Layout where
  folded : Bool
  indent : Nat
  /-- Whether lines without indentation belong to it, so that a document may end in it. -/
  atMargin : Bool

/-- The characters between two lines. When folding, the end of a line between two lines that are not
indented further is a blank, or nothing if empty lines follow. -/
def between (l : Layout) (text : List Char) (lineEnd breaks : List Char) (c : Cursor) : List Char :=
  if l.folded && lineEnd == ['\n'] && !isGap (text.headD '\x00') && !isGap c.peek then
    if breaks.isEmpty then [' '] else []
  else lineEnd

def lines (l : Layout) : Nat → Lines → Lines
  | 0, r => r
  | fuel + 1, r =>
    if r.cursor.column = l.indent && r.cursor.peek != '\x00' then
      let (line, c) := r.cursor.span (!isEnd ·)
      let (lineEnd, c) := match c.lineBreak? with
        | some (b, c) => ([b], c)
        | none => ([], c)
      let text := r.text ++ r.breaks ++ line
      let (breaks, c) := breaksAt l.indent c
      if l.atMargin && c.column == 0 && c.isDocumentMark then ⟨text, lineEnd, breaks, c⟩
      else if c.column = l.indent && c.peek != '\x00' then
        lines l fuel ⟨text ++ between l line lineEnd breaks c, lineEnd, breaks, c⟩
      else ⟨text, lineEnd, breaks, c⟩
    else r

/-- The text of a block scalar with what is kept of the ends of lines after it. -/
def chomped (chomping : Chomping) (r : Lines) : List Char :=
  match chomping with
  | .clip => r.text ++ r.lineEnd
  | .strip => r.text
  | .keep => r.text ++ r.lineEnd ++ r.breaks

/-- Where a block scalar starts: its depth, the empty lines in front of it, and the place after
these. -/
def opening (outer : Int) (increment : Option Nat) (c : Cursor) :
    Reading (Nat × List Char × Cursor) :=
  let least := (outer + 1).toNat
  match increment with
  | some n =>
    let indent := max least 1 + n - 1
    let (breaks, c) := breaksAt indent c
    .ok (indent, breaks, c)
  | none =>
    let f := front (c.rest.length + 1) ⟨[], none, 0, c⟩
    if f.isUneven then malformed else .ok (max least f.deepest, f.breaks, f.cursor)

/-- Reads a block scalar after its mark, inside lines that are indented by `outer`. -/
def read (folded : Bool) (outer : Int) (c : Cursor) : Reading (List Char × Cursor) := do
  let (h, c) ← header c
  let (indent, breaks, c) ← opening outer h.increment c
  let atMargin := outer < 0 && h.increment.isNone
  let r := lines ⟨folded, indent, atMargin⟩ (c.rest.length + 1) ⟨[], [], breaks, c⟩
  return (chomped h.chomping r, r.cursor)

end Block

end Yaml

end TemplateRecovery
