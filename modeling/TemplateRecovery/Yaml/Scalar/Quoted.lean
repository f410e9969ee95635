import TemplateRecovery.Yaml.Cursor

/-!
# Quoted scalars

Between single quotes a quote is written twice; between double quotes a backslash starts an escape. A
quoted scalar may go on over several lines, whose ends become blanks.
-/

namespace TemplateRecovery

namespace Yaml

namespace Quoted

def singleQuote : Char := '\x27'

def doubleQuote : Char := '"'

/-- Whether a run of ordinary characters ends in front of a character. -/
def stops (c : Char) : Bool := endsWord c || c == singleQuote || c == doubleQuote || c == '\\'

/-- The characters that short escapes stand for. -/
def escapes : List (Char × Char) := [
  ('0', '\x00'), ('a', '\x07'), ('b', '\x08'), ('t', '\x09'), ('\t', '\x09'), ('n', '\x0a'),
  ('v', '\x0b'), ('f', '\x0c'), ('r', '\x0d'), ('e', '\x1b'), (' ', ' '), ('"', '"'), ('/', '/'),
  ('\\', '\\'), ('N', '\x85'), ('_', '\xa0'), ('L', '\u2028'), ('P', '\u2029')]

/-- The number of digits of the escapes that give a code point. -/
def escapeWidths : List (Char × Nat) := [('x', 2), ('u', 4), ('U', 8)]

def hexNat? (digits : List Char) : Option Nat := do
  let values ← digits.mapM Text.hexValue?
  return values.foldl (fun n d => 16 * n + d) 0

def character (n : Nat) : Reading Char :=
  if n < 0x110000 then .ok (Char.ofNat n) else .error (.fault .notCharacter)

/-- More ends of lines, with the blanks around them dropped. A document may not end here. -/
def breaks : Nat → Cursor → List Char → Reading (List Char × Cursor)
  | 0, c, found => .ok (found, c)
  | fuel + 1, c, found =>
    if c.isDocumentMark then malformed
    else
      let c := c.skipWhile isGap
      match c.lineBreak? with
      | some (b, c) => breaks fuel c (found ++ [b])
      | none => .ok (found, c)

/-- More ends of lines. -/
def moreBreaks (c : Cursor) : Reading (List Char × Cursor) := breaks (c.rest.length + 1) c []

def escape (c : Cursor) : Reading (List Char × Cursor) :=
  match escapes.lookup c.peek, escapeWidths.lookup c.peek, c.lineBreak? with
  | some ch, _, _ => .ok ([ch], c.next)
  | none, some width, _ => do
    let c := c.next
    let digits := c.rest.take width
    match hexNat? digits with
    | some n =>
      if digits.length < width then malformed
      else do
        let ch ← character n
        return ([ch], c.skip width)
    | none => malformed
  | none, none, some (_, c) => moreBreaks c
  | none, none, none => malformed

/-- Characters up to blanks, an end of a line, or the closing quote. -/
def ordinary (double : Bool) : Nat → Cursor → List Char → Reading (List Char × Cursor)
  | 0, c, text => .ok (text, c)
  | fuel + 1, c, text => do
    let (run, c) := c.span (!stops ·)
    let text := text ++ run
    let ch := c.peek
    if !double && ch == singleQuote && c.peekAt 1 == singleQuote then
      ordinary double fuel (c.skip 2) (text ++ [ch])
    else if (double && ch == singleQuote) || (!double && (ch == doubleQuote || ch == '\\')) then
      ordinary double fuel c.next (text ++ [ch])
    else if double && ch == '\\' then do
      let (more, c) ← escape c.next
      ordinary double fuel c (text ++ more)
    else return (text, c)

/-- Blanks, or ends of lines. -/
def gap (c : Cursor) : Reading (List Char × Cursor) := do
  let (blanks, c) := c.span isGap
  if c.peek = '\x00' then malformed
  else
    match c.lineBreak? with
    | none => return (blanks, c)
    | some (first, c) => do
      let (breaks, c) ← moreBreaks c
      return (folded first breaks, c)

/-- The parts of a quoted scalar up to its closing quote. -/
def parts (quote : Char) : Nat → Cursor → List Char → Reading (List Char × Cursor)
  | 0, _, _ => malformed
  | fuel + 1, c, text => do
    if c.peek = quote then return (text, c.next)
    else do
      let (between, c) ← gap c
      let (run, c) ← ordinary (quote == doubleQuote) (c.rest.length + 1) c []
      parts quote fuel c (text ++ between ++ run)

def read (c : Cursor) : Reading (List Char × Cursor) := do
  let quote := c.peek
  let (run, c) ← ordinary (quote == doubleQuote) (c.rest.length + 1) c.next []
  parts quote (c.rest.length + 1) c run

end Quoted

end Yaml

end TemplateRecovery
