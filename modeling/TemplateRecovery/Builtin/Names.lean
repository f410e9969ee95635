import TemplateRecovery.Value.Basic

/-!
# What every program can see

Programs see the built-in functions, types and constants of their language, except those that reach
out of the program: files, other code, and the person at the terminal.

* `Builtin.isVisible` and `Builtin.isBlocked` tell the two groups apart.
* `Builtin.table` lists the visible names with their values, in order.
-/

namespace TemplateRecovery

namespace Builtin

/-- The names that are kept from programs. -/
def blocked : List String := [
  "__import__", "open", "eval", "exec", "compile", "input", "globals", "locals", "vars",
  "breakpoint", "exit", "quit", "help", "copyright", "credits", "license"]

def functions : List String := [
  "__build_class__", "abs", "all", "any", "ascii", "bin", "callable", "chr", "delattr", "dir",
  "divmod", "format", "getattr", "hasattr", "hash", "hex", "id", "isinstance", "issubclass", "iter",
  "aiter", "len", "max", "min", "next", "anext", "oct", "ord", "pow", "print", "repr", "round",
  "setattr", "sorted", "sum"]

def dataTypes : List String := [
  "bool", "memoryview", "bytearray", "bytes", "classmethod", "complex", "dict", "enumerate",
  "filter", "float", "frozenset", "property", "int", "list", "map", "object", "range", "reversed",
  "set", "slice", "staticmethod", "str", "super", "tuple", "type", "zip"]

def failureTypes : List String := [
  "BaseException", "BaseExceptionGroup", "Exception", "GeneratorExit", "KeyboardInterrupt",
  "SystemExit", "ArithmeticError", "AssertionError", "AttributeError", "BufferError", "EOFError",
  "ImportError", "LookupError", "MemoryError", "NameError", "OSError", "ReferenceError",
  "RuntimeError", "StopAsyncIteration", "StopIteration", "SyntaxError", "SystemError", "TypeError",
  "ValueError", "Warning", "FloatingPointError", "OverflowError", "ZeroDivisionError",
  "BytesWarning", "DeprecationWarning", "EncodingWarning", "FutureWarning", "ImportWarning",
  "PendingDeprecationWarning", "ResourceWarning", "RuntimeWarning", "SyntaxWarning",
  "UnicodeWarning", "UserWarning", "BlockingIOError", "ChildProcessError", "ConnectionError",
  "FileExistsError", "FileNotFoundError", "InterruptedError", "IsADirectoryError",
  "NotADirectoryError", "PermissionError", "ProcessLookupError", "TimeoutError", "IndentationError",
  "IndexError", "KeyError", "ModuleNotFoundError", "NotImplementedError", "RecursionError",
  "UnboundLocalError", "UnicodeError", "BrokenPipeError", "ConnectionAbortedError",
  "ConnectionRefusedError", "ConnectionResetError", "TabError", "UnicodeDecodeError",
  "UnicodeEncodeError", "UnicodeTranslateError", "ExceptionGroup"]

/-- The visible names with their values. -/
def table : List (String × Value) :=
  [("__name__", .str "builtins"), ("__doc__", .null), ("__package__", .str ""),
    ("__loader__", .typeObject "BuiltinImporter"),
    ("__spec__", .foreign "ModuleSpec" "ModuleSpec(name='builtins')")] ++
  functions.map (fun name => (name, .builtin name)) ++
  [("None", .null), ("Ellipsis", .foreign "ellipsis" "Ellipsis"),
    ("NotImplemented", .foreign "NotImplementedType" "NotImplemented"), ("False", .bool false),
    ("True", .bool true)] ++
  dataTypes.map (fun name => (name, .typeObject name)) ++
  [("__debug__", .bool true)] ++
  failureTypes.map (fun name => (name, .typeObject name)) ++
  [("EnvironmentError", .typeObject "OSError"), ("IOError", .typeObject "OSError")]

/-- Whether a name is kept from programs. -/
def isBlocked (name : String) : Bool := blocked.contains name

/-- Whether every program can see a name. -/
def isVisible (name : String) : Bool := (table.lookup name).isSome

end Builtin

end TemplateRecovery
