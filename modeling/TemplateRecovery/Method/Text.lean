import TemplateRecovery.Container
import TemplateRecovery.Text.Search

/-!
# The functions of strings

A string is taken as the list of its characters. Letters are those of the plain alphabet. Memory is
not limited, only lengths are.
-/

namespace TemplateRecovery

namespace Method

def textValue (cs : List Char) : Value := .str (String.ofList cs)

def newTexts (texts : List (List Char)) : Act Value := Act.new (.list (texts.map textValue))

/-- The test for characters to drop: those of a given string, or blanks. -/
def dropTest : List Value → Option (Char → Bool)
  | [] => some Text.isBlank
  | [.null] => some Text.isBlank
  | [.str chars] => some chars.toList.contains
  | _ => none

/-- A string without some characters at its ends. -/
def strip (f : (Char → Bool) → List Char → List Char) (cs : List Char) (args : List Value) :
    Act Value :=
  match dropTest args with
  | some drop => return textValue (f drop cs)
  | none => Act.fail .wrongType

def stringsOf : List Value → Act (List String)
  | [] => return []
  | .str s :: rest => do
    let strings ← stringsOf rest
    return s :: strings
  | _ => Act.fail .wrongType

/-- A number of 64 bits. -/
def wordOf (v : Value) : Act Int :=
  match v.index? with
  | some n =>
    if n < -Container.indexLimit ∨ Container.indexLimit ≤ n then Act.fail .overflow else return n
  | none => Act.fail .wrongType

/-- How often a sequence of a length is repeated; the result has to have a length of 64 bits. -/
def timesOf (long : Fault) (length : Nat) (v : Value) : Act Nat := do
  let n ← wordOf v
  if Container.indexLimit ≤ n * length then Act.fail long else return n.toNat

/-- How often a string is cut at most; less than zero stands for no limit. -/
def limitOf (length : Nat) (v : Value) : Act Nat := do
  let n ← wordOf v
  return if n < 0 ∨ length < n then length + 1 else n.toNat

/-- The position that an index stands for among so many; one that is out of range counts as the
nearest end. -/
def clamped (length : Nat) (i : Int) : Nat :=
  let j := if i < 0 then i + length else i
  min j.toNat length

/-- The start of a range. One behind the end stays there. -/
def startOf (length : Nat) : Value → Act Nat
  | .null => return 0
  | v =>
    match v.index? with
    | some i => return if (length : Int) < i then length + 1 else clamped length i
    | none => Act.fail .wrongType

def stopOf (length : Nat) : Value → Act Nat
  | .null => return length
  | v =>
    match v.index? with
    | some i => return clamped length i
    | none => Act.fail .wrongType

/-- The range that optional arguments give. -/
def rangeOf (length : Nat) : List Value → Act (Nat × Nat)
  | [] => return (0, length)
  | [start] => do
    let first ← startOf length start
    return (first, length)
  | [start, stop] => do
    let first ← startOf length start
    let last ← stopOf length stop
    return (first, last)
  | _ => Act.fail .wrongType

/-- Whether a text is not empty and all its characters pass a test. -/
def allPass (test : Char → Bool) (cs : List Char) : Value := .bool (!cs.isEmpty && cs.all test)

/-- Calls a function of a string that takes no arguments. -/
def callPlainText (cs : List Char) (name : String) : Act Value :=
  match name with
  | "upper" => return textValue (cs.map Char.toUpper)
  | "lower" => return textValue (cs.map Char.toLower)
  | "casefold" => return textValue (cs.map Char.toLower)
  | "swapcase" => return textValue (cs.map Text.swapCase)
  | "title" => return textValue (Text.capitals false cs)
  | "capitalize" =>
    return textValue ((cs.take 1).map Char.toUpper ++ (cs.drop 1).map Char.toLower)
  | "isdigit" => return allPass Char.isDigit cs
  | "isdecimal" => return allPass Char.isDigit cs
  | "isnumeric" => return allPass Char.isDigit cs
  | "isalpha" => return allPass Char.isAlpha cs
  | "isalnum" => return allPass Char.isAlphanum cs
  | "isspace" => return allPass Text.isBlank cs
  | "isascii" => return .bool (cs.all fun c => c.toNat < 128)
  | "isprintable" => return .bool (cs.all Text.isPrintable)
  | "isupper" => return .bool (cs.any Char.isUpper && !cs.any Char.isLower)
  | "islower" => return .bool (cs.any Char.isLower && !cs.any Char.isUpper)
  | "istitle" => return .bool (Text.isTitle cs)
  | "isidentifier" =>
    return .bool (match cs with
      | [] => false
      | c :: rest => (c.isAlpha || c == '_') && rest.all fun d => d.isAlphanum || d == '_')
  | "encode" => return .foreign "bytes" ""
  | "__len__" => return .int cs.length
  | _ => Act.fail .wrongType

/-- Where a part occurs in a range of a string. -/
def search (find : List Char → List Char → Option Nat) (cs part : List Char) (range : List Value) :
    Act (Option Nat) := do
  let (first, last) ← rangeOf cs.length range
  if last < first then return none
  else return (find part ((cs.take last).drop first)).map (· + first)

/-- The position of a part that has to be there. -/
def required (found : Option Nat) : Act Value :=
  match found with
  | some p => return .int p
  | none => Act.fail (.raised "ValueError" "substring not found")

/-- The position of a part, or less than zero. -/
def orNegative (found : Option Nat) : Value := .int (match found with
  | some p => p
  | none => -1)

/-- How often a part occurs in a range of a string. -/
def occurrences (cs part : List Char) (range : List Value) : Act Value := do
  let (first, last) ← rangeOf cs.length range
  if last < first then return .int 0
  else
    let cs := (cs.take last).drop first
    return .int (if part.isEmpty then cs.length + 1
      else (Text.splitOver part (cs.length + 1) cs).length - 1)

/-- Whether a range of a string has one of some parts at an end. -/
def hasEnd (test : List Char → List Char → Bool) (cs : List Char) (range : List Value) :
    List Value → Act Value
  | [] => return .bool false
  | .str part :: rest => do
    let (first, last) ← rangeOf cs.length range
    if first ≤ last && test part.toList ((cs.take last).drop first) then return .bool true
    else hasEnd test cs range rest
  | _ => Act.fail .wrongType

/-- The parts to look for: one, or those of a tuple. -/
def partsOf (v : Value) : Act (List Value) := do
  let s ← Act.store
  match v, s.asObject? v with
  | .str _, _ => return [v]
  | _, some (_, .tuple items) => return items
  | _, _ => Act.fail .wrongType

/-- The pieces of a string between separators, cut at most so many times. -/
def cut (between : List Char → Nat → List Char → List (List Char))
    (blanks : Nat → List Char → List (List Char)) (cs : List Char) (separator : Value)
    (limit : Nat) : Act Value :=
  match separator with
  | .null => newTexts (blanks limit cs)
  | .str part =>
    if part = "" then Act.fail (.raised "ValueError" "empty separator")
    else newTexts (between part.toList limit cs)
  | _ => Act.fail .wrongType

/-- The pieces of a string by optional arguments: the separator, and how often to cut. -/
def cutBy (between : List Char → Nat → List Char → List (List Char))
    (blanks : Nat → List Char → List (List Char)) (cs : List Char) : List Value → Act Value
  | [] => cut between blanks cs .null (cs.length + 1)
  | [separator] => cut between blanks cs separator (cs.length + 1)
  | [separator, limit] => do
    let n ← limitOf cs.length limit
    cut between blanks cs separator n
  | _ => Act.fail .wrongType

/-- A string in front of a part, the part, and what is behind it. -/
def parted (found : Option Nat) (missing : List Value) (cs part : List Char) : Act Value :=
  if part.isEmpty then Act.fail (.raised "ValueError" "empty separator")
  else
    match found with
    | some p => Act.new (.tuple
        [textValue (cs.take p), textValue part, textValue (cs.drop (p + part.length))])
    | none => Act.new (.tuple missing)

/-- The character with which a string is filled up. -/
def fillOf : List Value → Act Char
  | [] => return ' '
  | [.str fill] =>
    match fill.toList with
    | [c] => return c
    | _ => Act.fail .wrongType
  | _ => Act.fail .wrongType

/-- A string filled up to a width; the missing characters are shared out between its ends. -/
def filled (share : Int → Nat → Nat × Nat) (cs : List Char) (width : Value) (fill : List Value) :
    Act Value := do
  if 1 < fill.length then Act.fail .wrongType
  let n ← wordOf width
  let c ← fillOf fill
  let (left, right) := share n (n.toNat - cs.length)
  return textValue (Text.pad left right c cs)

/-- The shares of both ends when a string is put into the middle. -/
def middle (width : Int) (missing : Nat) : Nat × Nat :=
  let left := missing / 2 + (if missing % 2 = 1 ∧ width % 2 = 1 then 1 else 0)
  (left, missing - left)

/-- A string with a part replaced, at most so many times. -/
def replaced (cs : List Char) (part other : String) (limit : Nat) : Value :=
  textValue (Text.replace part.toList other.toList limit cs)

/-- The number of columns between two tabs. -/
def tabSize (v : Value) : Act Nat :=
  match v.index? with
  | some n => if n < -0x80000000 ∨ 0x80000000 ≤ n then Act.fail .overflow else return n.toNat
  | none => Act.fail .wrongType

/-- The names of encodings that can write every character. -/
def fullEncodings : List String := ["utf-8", "utf8", "utf_8", "utf-16", "utf16", "utf-32", "utf32"]

def encoded (name : String) : Act Value :=
  if fullEncodings.contains name.toLower ∨ name.toLower = "ascii" ∨ name.toLower = "latin-1" then
    return .foreign "bytes" ""
  else Act.fail (.raised "LookupError" ("unknown encoding: " ++ name))

def repeated (cs : List Char) (count : Value) : Act Value := do
  let n ← timesOf .overflow cs.length count
  return textValue (List.flatten (List.replicate n cs))

def callText (text : String) (name : String) (args : List Value) : Act Value :=
  let cs := text.toList
  match name, args with
  | "strip", args => strip (fun drop cs => Text.dropBack drop (Text.dropFront drop cs)) cs args
  | "lstrip", args => strip Text.dropFront cs args
  | "rstrip", args => strip Text.dropBack cs args
  | "join", [v] => do
    let items ← Container.items v
    let strings ← stringsOf items
    return .str (Text.join text strings)
  | "replace", [.str part, .str other] => return replaced cs part other (cs.length + 1)
  | "replace", [.str part, .str other, limit] => do
    let n ← limitOf cs.length limit
    return replaced cs part other n
  | "zfill", [width] => do
    let n ← wordOf width
    let missing := n.toNat - cs.length
    match cs with
    | '-' :: rest => return textValue ('-' :: Text.pad missing 0 '0' rest)
    | '+' :: rest => return textValue ('+' :: Text.pad missing 0 '0' rest)
    | cs => return textValue (Text.pad missing 0 '0' cs)
  | "ljust", width :: fill => filled (fun _ n => (0, n)) cs width fill
  | "rjust", width :: fill => filled (fun _ n => (n, 0)) cs width fill
  | "center", width :: fill => filled middle cs width fill
  | "expandtabs", [] => return textValue (Text.expandTabs 8 0 cs)
  | "expandtabs", [size] => do
    let n ← tabSize size
    return textValue (Text.expandTabs n 0 cs)
  | "split", args => cutBy Text.splitOver Text.words cs args
  | "rsplit", args => cutBy Text.splitOverLast Text.wordsLast cs args
  | "splitlines", [] => newTexts (Text.lines false (cs.length + 1) cs)
  | "splitlines", [keep] => do
    let n ← tabSize keep
    let zero := keep.index? == some 0
    newTexts (Text.lines (!zero || n != 0) (cs.length + 1) cs)
  | "find", .str part :: range => do
    let found ← search Text.find? cs part.toList range
    return orNegative found
  | "rfind", .str part :: range => do
    let found ← search Text.findLast? cs part.toList range
    return orNegative found
  | "index", .str part :: range => do
    let found ← search Text.find? cs part.toList range
    required found
  | "rindex", .str part :: range => do
    let found ← search Text.findLast? cs part.toList range
    required found
  | "count", .str part :: range => occurrences cs part.toList range
  | "startswith", v :: range => do
    let parts ← partsOf v
    hasEnd List.isPrefixOf cs range parts
  | "endswith", v :: range => do
    let parts ← partsOf v
    hasEnd List.isSuffixOf cs range parts
  | "removeprefix", [.str part] =>
    return textValue (if part.toList.isPrefixOf cs then cs.drop part.length else cs)
  | "removesuffix", [.str part] =>
    return textValue (if part.toList.isSuffixOf cs then cs.take (cs.length - part.length) else cs)
  | "partition", [.str part] =>
    parted (Text.find? part.toList cs) [.str text, .str "", .str ""] cs part.toList
  | "rpartition", [.str part] =>
    parted (Text.findLast? part.toList cs) [.str "", .str "", .str text] cs part.toList
  | "encode", [.str encoding] => encoded encoding
  | "__contains__", [.str part] => return .bool (Text.find? part.toList cs).isSome
  | "__add__", [.str part] => return .str (text ++ part)
  | "__mul__", [count] => repeated cs count
  | "__rmul__", [count] => repeated cs count
  | "__getitem__", [index] => Container.item (.str text) index
  | name, [] => callPlainText cs name
  | _, _ => Act.fail .wrongType

end Method

end TemplateRecovery
