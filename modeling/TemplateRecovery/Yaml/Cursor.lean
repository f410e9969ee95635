import TemplateRecovery.Fault.Basic

/-!
# A place in an option file

A `Cursor` is what is left of a text, with the number of characters, lines and columns in front of it.
The end of the text reads as the character zero, which no text holds.

* `Cursor.peek` and `Cursor.peekAt` look ahead, `Cursor.next` and `Cursor.skip` go on.
* `Cursor.span` takes the longest run of characters that pass a test.
* `Cursor.lineBreak?` reads one end of a line.
-/

namespace TemplateRecovery

namespace Yaml

/-- Why an option file cannot be read. -/
inductive Failure where
  /-- The file is not well formed. -/
  | malformed
  /-- A value in the file cannot be made. -/
  | fault (cause : Fault)

/-- A result, or why there is none. -/
abbrev Reading := Except Failure

def malformed {α : Type} : Reading α := .error .malformed

def isBreak (c : Char) : Bool :=
  c == '\n' || c == '\r' || c == '\x85' || c == '\u2028' || c == '\u2029'

def isEnd (c : Char) : Bool := c == '\x00' || isBreak c

def isGap (c : Char) : Bool := c == ' ' || c == '\t'

/-- Whether a word can end in front of a character. -/
def endsWord (c : Char) : Bool := isEnd c || isGap c

/-- A place in a text. -/
structure Cursor where
  rest : List Char
  index : Nat := 0
  line : Nat := 0
  column : Nat := 0
  deriving Inhabited

namespace Cursor

/-- The character so many places ahead. -/
def peekAt (c : Cursor) (k : Nat) : Char := c.rest.getD k '\x00'

def peek (c : Cursor) : Char := c.peekAt 0

/-- The place after a character. The mark at the front of a file takes no column. -/
def next (c : Cursor) : Cursor :=
  match c.rest with
  | [] => c
  | ch :: rest =>
    if ch = '\n' ∨ (ch = '\r' ∧ rest.head? ≠ some '\n') then
      ⟨rest, c.index + 1, c.line + 1, 0⟩
    else if ch = '\ufeff' then ⟨rest, c.index + 1, c.line, c.column⟩
    else ⟨rest, c.index + 1, c.line, c.column + 1⟩

def skip (c : Cursor) : Nat → Cursor
  | 0 => c
  | n + 1 => c.next.skip n

/-- The longest run of characters that pass a test, and the place after it. -/
def span (c : Cursor) (test : Char → Bool) : List Char × Cursor :=
  let run := c.rest.takeWhile test
  (run, c.skip run.length)

/-- The place after the characters that pass a test. -/
def skipWhile (c : Cursor) (test : Char → Bool) : Cursor := (c.span test).2

def skipBlanks (c : Cursor) : Cursor := c.skipWhile (· == ' ')

/-- The place at the end of the line, if a comment starts here. -/
def skipComment (c : Cursor) : Cursor :=
  if c.peek = '#' then c.skipWhile (!isEnd ·) else c

/-- The end of a line, if one is here: the character it stands for, and the place after it. -/
def lineBreak? (c : Cursor) : Option (Char × Cursor) :=
  match c.peek with
  | '\n' => some ('\n', c.next)
  | '\r' => some ('\n', if c.peekAt 1 = '\n' then c.skip 2 else c.next)
  | '\x85' => some ('\n', c.next)
  | '\u2028' => some ('\u2028', c.next)
  | '\u2029' => some ('\u2029', c.next)
  | _ => none

/-- Whether a text stands here, followed by the end of a word. -/
def isWord (c : Cursor) (word : String) : Bool :=
  word.toList.isPrefixOf c.rest && endsWord (c.peekAt word.length)

def isDocumentMark (c : Cursor) : Bool := c.isWord "---" || c.isWord "..."

end Cursor

/-- The characters that ends of lines stand for: a single plain one is a blank. -/
def folded (first : Char) (breaks : List Char) : List Char :=
  (if first ≠ '\n' then [first] else if breaks.isEmpty then [' '] else []) ++ breaks

end Yaml

end TemplateRecovery
