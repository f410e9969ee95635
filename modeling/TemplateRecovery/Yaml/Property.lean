import TemplateRecovery.Yaml.Scalar.Quoted
import TemplateRecovery.Yaml.Token

/-!
# Directives, names and tags

What can stand in front of a document or a node: directives, the names of anchors, and tags.
-/

namespace TemplateRecovery

namespace Yaml

namespace Property

/-- Whether a name or a tag may end in front of a character. -/
def endsTag (c : Char) : Bool := isEnd c || c == ' '

/-- Whether a character is a plain letter or digit. -/
def isPlain (c : Char) : Bool := c.isAlphanum

/-- Whether a character may be part of the name of an anchor. -/
def isNameChar (c : Char) : Bool :=
  let n := c.toNat
  ((0x21 ≤ n && n ≤ 0x7E) || (0xA0 ≤ n && n ≤ 0xD7FF) || (0xE000 ≤ n && n ≤ 0xFFFD && n != 0xFEFF) ||
    0x10000 ≤ n) && !(",[]\x7b\x7d".toList.contains c)

/-- Whether the name of an anchor may end in front of a character. -/
def endsName (c : Char) : Bool := endsWord c || "?:,[]\x7b\x7d%@`".toList.contains c

def name (c : Cursor) : Reading (String × Cursor) :=
  let (chars, c) := c.next.span isNameChar
  if chars.isEmpty || !endsName c.peek then malformed else .ok (String.ofList chars, c)

/-- Whether a character may be part of the address that a tag is. -/
def isAddressChar (c : Char) : Bool :=
  isPlain c || "-;/?:@&=+$,_.!~*\x27()[]#".toList.contains c

/-- The bytes that escapes in an address stand for. -/
def escapedBytes : Nat → Cursor → List UInt8 → Reading (List UInt8 × Cursor)
  | 0, c, bytes => .ok (bytes, c)
  | fuel + 1, c, bytes =>
    if c.peek = '%' then
      match Quoted.hexNat? ((c.rest.drop 1).take 2), (c.rest.drop 2).isEmpty with
      | some n, false => escapedBytes fuel (c.skip 3) (bytes ++ [n.toUInt8])
      | _, _ => malformed
    else .ok (bytes, c)

def addressParts : Nat → Cursor → List Char → Reading (List Char × Cursor)
  | 0, c, text => .ok (text, c)
  | fuel + 1, c, text => do
    let (chars, c) := c.span isAddressChar
    let text := text ++ chars
    if c.peek = '%' then do
      let (bytes, c) ← escapedBytes (c.rest.length + 1) c []
      match String.fromUTF8? (ByteArray.mk bytes.toArray) with
      | some s => addressParts fuel c (text ++ s.toList)
      | none => malformed
    else return (text, c)

/-- The address that a tag is; it is not empty. -/
def address (c : Cursor) : Reading (String × Cursor) := do
  let (chars, c) ← addressParts (c.rest.length + 1) c []
  if chars.isEmpty then malformed else return (String.ofList chars, c)

/-- A handle: a mark, or a name between two marks. -/
def handle (c : Cursor) : Reading (String × Cursor) :=
  if c.peek ≠ '!' then malformed
  else if c.peekAt 1 = ' ' then .ok ("!", c.next)
  else
    let (chars, c) := c.next.span fun ch => isPlain ch || ch == '-' || ch == '_'
    if c.peek = '!' then .ok ("!" ++ String.ofList chars ++ "!", c.next) else malformed

/-- Whether a second mark follows before the tag ends. -/
def hasHandle (c : Cursor) : Bool := (c.next.rest.takeWhile (!endsTag ·)).contains '!'

def tagParts (c : Cursor) : Reading (WrittenTag × Cursor) :=
  if c.peekAt 1 = '<' then do
    let (suffix, c) ← address (c.skip 2)
    if c.peek = '>' then return (⟨none, suffix⟩, c.next) else malformed
  else if endsWord (c.peekAt 1) then .ok (⟨none, "!"⟩, c.next)
  else if hasHandle c then do
    let (h, c) ← handle c
    let (suffix, c) ← address c
    return (⟨some h, suffix⟩, c)
  else do
    let (suffix, c) ← address c.next
    return (⟨some "!", suffix⟩, c)

def tag (c : Cursor) : Reading (WrittenTag × Cursor) := do
  let (t, c) ← tagParts c
  if endsTag c.peek then return (t, c) else malformed

def number (c : Cursor) : Reading (Nat × Cursor) :=
  let (digits, c) := c.span Char.isDigit
  if digits.isEmpty then malformed
  else .ok (digits.foldl (fun n d => 10 * n + (d.toNat - '0'.toNat)) 0, c)

def version (c : Cursor) : Reading (Directive × Cursor) := do
  let (major, c) ← number c.skipBlanks
  if c.peek = '.' then do
    let (minor, c) ← number c.next
    if endsTag c.peek then return (.version major minor, c) else malformed
  else malformed

def handleDirective (c : Cursor) : Reading (Directive × Cursor) := do
  let (h, c) ← handle c.skipBlanks
  if c.peek = ' ' then do
    let (replacement, c) ← address c.skipBlanks
    if endsTag c.peek then return (.handle h replacement, c) else malformed
  else malformed

/-- Whether a character may be part of the name of a directive. -/
def isDirectiveChar (c : Char) : Bool := isPlain c || c == '-' || c == '_' || c == ':' || c == '.'

def directiveValue (name : String) (c : Cursor) : Reading (Directive × Cursor) :=
  if name = "YAML" then version c
  else if name = "TAG" then handleDirective c
  else .ok (.other, c.skipWhile (!isEnd ·))

/-- A directive after its mark, with the rest of its line. -/
def directive (c : Cursor) : Reading (Directive × Cursor) := do
  let (chars, c) := c.next.span isDirectiveChar
  if chars.isEmpty || !endsTag c.peek then malformed
  else do
    let (d, c) ← directiveValue (String.ofList chars) c
    let c := c.skipBlanks.skipComment
    if isEnd c.peek then
      match c.lineBreak? with
      | some (_, c) => return (d, c)
      | none => return (d, c)
    else malformed

end Property

end Yaml

end TemplateRecovery
