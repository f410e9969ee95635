import TemplateRecovery.Json.Basic
import TemplateRecovery.Number.Reader

/-!
# Reading JSON

`Json.read?` reads a text that holds exactly one document. Every step of the reader consumes at
least one character, so the length of the text bounds the depth of the recursion.
-/

namespace TemplateRecovery

namespace Json

def skipBlanks (cs : List Char) : List Char :=
  cs.dropWhile fun c => c = ' ' ∨ c = '\t' ∨ c = '\n' ∨ c = '\r'

def hex4? : List Char → Option (Nat × List Char)
  | a :: b :: c :: d :: rest => do
    let a ← Text.hexValue? a
    let b ← Text.hexValue? b
    let c ← Text.hexValue? c
    let d ← Text.hexValue? d
    return (((a * 16 + b) * 16 + c) * 16 + d, rest)
  | _ => none

/-- A character written by its number; two halves of a pair are joined. -/
def unicode? (cs : List Char) : Option (Char × List Char) := do
  let (n, rest) ← hex4? cs
  if 0xD800 ≤ n ∧ n < 0xDC00 then
    match rest with
    | '\\' :: 'u' :: more =>
      let (low, after) ← hex4? more
      if 0xDC00 ≤ low ∧ low < 0xE000 then
        return (Char.ofNat (0x10000 + (n - 0xD800) * 0x400 + (low - 0xDC00)), after)
      else return (Char.ofNat 0xFFFD, rest)
    | _ => return (Char.ofNat 0xFFFD, rest)
  else if 0xDC00 ≤ n ∧ n < 0xE000 then return (Char.ofNat 0xFFFD, rest)
  else return (Char.ofNat n, rest)

def escape? : List Char → Option (Char × List Char)
  | '"' :: cs => some ('"', cs)
  | '\\' :: cs => some ('\\', cs)
  | '/' :: cs => some ('/', cs)
  | 'b' :: cs => some (Char.ofNat 8, cs)
  | 'f' :: cs => some (Char.ofNat 12, cs)
  | 'n' :: cs => some ('\n', cs)
  | 'r' :: cs => some ('\r', cs)
  | 't' :: cs => some ('\t', cs)
  | 'u' :: cs => unicode? cs
  | _ => none

/-- The rest of a string after its opening quote. -/
def string? : Nat → List Char → List Char → Option (String × List Char)
  | 0, _, _ => none
  | fuel + 1, done, cs =>
    match cs with
    | [] => none
    | '"' :: rest => some (String.ofList done.reverse, rest)
    | '\\' :: rest => do
      let (c, rest) ← escape? rest
      string? fuel (c :: done) rest
    | c :: rest => string? fuel (c :: done) rest

def isNumberChar (c : Char) : Bool :=
  c.isDigit || c == '-' || c == '+' || c == '.' || c == 'e' || c == 'E'

/-- A number: whole unless it has a point or an exponent. -/
def number? (cs : List Char) : Option (Json × List Char) :=
  let ds := cs.takeWhile isNumberChar
  let rest := cs.dropWhile isNumberChar
  let (negative, digits) := Binary64.readSign ds
  if digits.isEmpty then none
  else if digits.all Char.isDigit then
    some (.int (Binary64.signed negative (Binary64.digitsValue digits)), rest)
  else (Binary64.ofText? (String.ofList ds)).map (.real ·, rest)

mutual

def value? : Nat → List Char → Option (Json × List Char)
  | 0, _ => none
  | fuel + 1, cs =>
    match skipBlanks cs with
    | 'n' :: 'u' :: 'l' :: 'l' :: rest => some (.null, rest)
    | 't' :: 'r' :: 'u' :: 'e' :: rest => some (.bool true, rest)
    | 'f' :: 'a' :: 'l' :: 's' :: 'e' :: rest => some (.bool false, rest)
    | '"' :: rest => (string? (rest.length + 1) [] rest).map fun (s, rest) => (.str s, rest)
    | '[' :: rest =>
      match skipBlanks rest with
      | ']' :: rest => some (.arr [], rest)
      | rest => (items? fuel rest).map fun (items, rest) => (.arr items, rest)
    | '\x7b' :: rest =>
      match skipBlanks rest with
      | '\x7d' :: rest => some (.obj [], rest)
      | rest => (members? fuel rest).map fun (members, rest) => (.obj members, rest)
    | rest => number? rest

/-- The items of an array, up to its closing bracket. -/
def items? : Nat → List Char → Option (List Json × List Char)
  | 0, _ => none
  | fuel + 1, cs => do
    let (j, rest) ← value? fuel cs
    match skipBlanks rest with
    | ',' :: rest =>
      let (more, rest) ← items? fuel rest
      return (j :: more, rest)
    | ']' :: rest => return ([j], rest)
    | _ => none

/-- The members of an object, up to its closing brace. -/
def members? : Nat → List Char → Option (List (String × Json) × List Char)
  | 0, _ => none
  | fuel + 1, cs => do
    let '"' :: rest := skipBlanks cs | none
    let (name, rest) ← string? (rest.length + 1) [] rest
    let ':' :: rest := skipBlanks rest | none
    let (j, rest) ← value? fuel rest
    match skipBlanks rest with
    | ',' :: rest =>
      let (more, rest) ← members? fuel rest
      return ((name, j) :: more, rest)
    | '\x7d' :: rest => return ([(name, j)], rest)
    | _ => none

end

def read? (s : String) : Option Json :=
  let cs := s.toList
  match value? (2 * cs.length + 2) cs with
  | some (j, rest) => if (skipBlanks rest).isEmpty then some j else none
  | none => none

end Json

end TemplateRecovery
