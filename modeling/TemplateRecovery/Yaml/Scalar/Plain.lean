import TemplateRecovery.Yaml.Cursor

/-!
# Plain scalars

A plain scalar is written without quotes. It ends in front of what could be structure, and may go on
over several lines, whose ends become blanks.
-/

namespace TemplateRecovery

namespace Yaml

namespace Plain

/-- Whether a plain scalar ends in front of a character, given the one after it. -/
def stops (inFlow : Bool) (c after : Char) : Bool :=
  if c = ':' && !endsWord after then false
  else if c = '?' then false
  else endsWord c || c == ':' ||
    (inFlow && (c == ',' || c == '[' || c == ']' || c == '\x7b' || c == '\x7d'))

/-- The number of characters up to the end of a run of a plain scalar. -/
def runLength (inFlow : Bool) : List Char → Nat
  | [] => 0
  | c :: rest => if stops inFlow c (rest.headD '\x00') then 0 else runLength inFlow rest + 1

/-- What stands between two runs: the characters it stands for, the place after it, and whether a line
ended in it. -/
structure Gap where
  text : List Char
  cursor : Cursor
  crossed : Bool

/-- More ends of lines, with the blanks in front of lines dropped; nothing if a document ends. -/
def moreBreaks : Nat → Cursor → List Char → Option (List Char) × Cursor
  | 0, c, breaks => (some breaks, c)
  | fuel + 1, c, breaks =>
    if c.peek = ' ' then moreBreaks fuel c.next breaks
    else
      match c.lineBreak? with
      | none => (some breaks, c)
      | some (b, c) =>
        if c.isDocumentMark then (none, c) else moreBreaks fuel c (breaks ++ [b])

/-- What stands between two runs of a plain scalar; nothing if it ends the scalar. -/
def gap (c : Cursor) : Gap :=
  let (blanks, c) := c.span (· == ' ')
  match c.lineBreak? with
  | none => ⟨blanks, c, false⟩
  | some (first, c) =>
    if c.isDocumentMark then ⟨[], c, true⟩
    else
      match moreBreaks (c.rest.length + 1) c [] with
      | (none, c) => ⟨[], c, true⟩
      | (some breaks, c) => ⟨folded first breaks, c, true⟩

/-- A plain scalar that was read: its text, the place after it, and whether its last part was followed
by the end of a line. -/
structure Result where
  text : List Char
  cursor : Cursor
  crossed : Bool

/-- The runs of a plain scalar, joined by what stands between them. -/
def runs (inFlow : Bool) (indent : Int) : Nat → Result → List Char → Result
  | 0, r, _ => r
  | fuel + 1, r, between =>
    let c := r.cursor
    let length := if c.peek = '#' then 0 else runLength inFlow c.rest
    if length = 0 then r
    else
      let text := r.text ++ between ++ c.rest.take length
      let g := gap (c.skip length)
      let r : Result := ⟨text, g.cursor, g.crossed⟩
      if g.text.isEmpty || g.cursor.peek = '#' || (!inFlow && (g.cursor.column : Int) < indent) then r
      else runs inFlow indent fuel r g.text

def read (inFlow : Bool) (indent : Int) (c : Cursor) : Result :=
  runs inFlow indent (c.rest.length + 1) ⟨[], c, false⟩ []

end Plain

end Yaml

end TemplateRecovery
