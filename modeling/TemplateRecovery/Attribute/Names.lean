/-!
# Names of attributes

The attributes that the values of the built-in types of a program have besides fields of their own.
All of them are functions, except for those listed as parts and the few that every reader of this
table treats on its own.

* `Attribute.common` lists what every value has.
* `Attribute.methods` lists the functions of a type.
* `Attribute.parts` lists what is computed from a value.
-/

namespace TemplateRecovery

namespace Attribute

/-- The functions that every value has. -/
def common : List String := [
  "__delattr__", "__dir__", "__eq__", "__format__", "__ge__", "__getattribute__",
  "__getstate__", "__gt__", "__hash__", "__init__", "__init_subclass__", "__le__", "__lt__",
  "__ne__", "__new__", "__reduce__", "__reduce_ex__", "__repr__", "__setattr__", "__sizeof__",
  "__str__", "__subclasshook__"]

def intMethods : List String := [
  "__abs__", "__add__", "__and__", "__bool__", "__ceil__", "__divmod__", "__float__",
  "__floor__", "__floordiv__", "__getnewargs__", "__index__", "__int__", "__invert__",
  "__lshift__", "__mod__", "__mul__", "__neg__", "__or__", "__pos__", "__pow__", "__radd__",
  "__rand__", "__rdivmod__", "__rfloordiv__", "__rlshift__", "__rmod__", "__rmul__",
  "__ror__", "__round__", "__rpow__", "__rrshift__", "__rshift__", "__rsub__", "__rtruediv__",
  "__rxor__", "__sub__", "__truediv__", "__trunc__", "__xor__", "as_integer_ratio",
  "bit_count", "bit_length", "conjugate", "from_bytes", "to_bytes"]

def floatMethods : List String := [
  "__abs__", "__add__", "__bool__", "__ceil__", "__divmod__", "__float__", "__floor__",
  "__floordiv__", "__getformat__", "__getnewargs__", "__int__", "__mod__", "__mul__",
  "__neg__", "__pos__", "__pow__", "__radd__", "__rdivmod__", "__rfloordiv__", "__rmod__",
  "__rmul__", "__round__", "__rpow__", "__rsub__", "__rtruediv__", "__sub__", "__truediv__",
  "__trunc__", "as_integer_ratio", "conjugate", "fromhex", "hex", "is_integer"]

def strMethods : List String := [
  "__add__", "__contains__", "__getitem__", "__getnewargs__", "__iter__", "__len__",
  "__mod__", "__mul__", "__rmod__", "__rmul__", "capitalize", "casefold", "center", "count",
  "encode", "endswith", "expandtabs", "find", "format", "format_map", "index", "isalnum",
  "isalpha", "isascii", "isdecimal", "isdigit", "isidentifier", "islower", "isnumeric",
  "isprintable", "isspace", "istitle", "isupper", "join", "ljust", "lower", "lstrip",
  "maketrans", "partition", "removeprefix", "removesuffix", "replace", "rfind", "rindex",
  "rjust", "rpartition", "rsplit", "rstrip", "split", "splitlines", "startswith", "strip",
  "swapcase", "title", "translate", "upper", "zfill"]

def listMethods : List String := [
  "__add__", "__class_getitem__", "__contains__", "__delitem__", "__getitem__", "__iadd__",
  "__imul__", "__iter__", "__len__", "__mul__", "__reversed__", "__rmul__", "__setitem__",
  "append", "clear", "copy", "count", "extend", "index", "insert", "pop", "remove", "reverse",
  "sort"]

def tupleMethods : List String := [
  "__add__", "__class_getitem__", "__contains__", "__getitem__", "__getnewargs__", "__iter__",
  "__len__", "__mul__", "__rmul__", "count", "index"]

def mapMethods : List String := [
  "__class_getitem__", "__contains__", "__delitem__", "__getitem__", "__ior__", "__iter__",
  "__len__", "__or__", "__reversed__", "__ror__", "__setitem__", "clear", "copy", "fromkeys",
  "get", "items", "keys", "pop", "popitem", "setdefault", "update", "values"]

def dayMethods : List String := [
  "__add__", "__radd__", "__rsub__", "__sub__", "ctime", "fromisocalendar", "fromisoformat",
  "fromordinal", "fromtimestamp", "isocalendar", "isoformat", "isoweekday", "replace",
  "strftime", "timetuple", "today", "toordinal", "weekday"]

def timeMethods : List String := [
  "__add__", "__radd__", "__rsub__", "__sub__", "astimezone", "combine", "ctime", "date",
  "dst", "fromisocalendar", "fromisoformat", "fromordinal", "fromtimestamp", "isocalendar",
  "isoformat", "isoweekday", "now", "replace", "strftime", "strptime", "time", "timestamp",
  "timetuple", "timetz", "today", "toordinal", "tzname", "utcfromtimestamp", "utcnow",
  "utcoffset", "utctimetuple", "weekday"]

def failureMethods : List String := ["__setstate__", "add_note", "with_traceback"]

def rangeMethods : List String := [
  "__bool__", "__contains__", "__getitem__", "__iter__", "__len__", "__reversed__", "count",
  "index"]

/-- The functions that every type has. -/
def typeMethods : List String := [
  "__call__", "__instancecheck__", "__or__", "__prepare__", "__ror__", "__subclasscheck__",
  "__subclasses__", "mro"]

/-- The functions of a type besides those that every value has. -/
def methods (typeName : String) : List String :=
  match typeName with
  | "NoneType" => ["__bool__"]
  | "bool" => intMethods
  | "int" => intMethods
  | "float" => floatMethods
  | "str" => strMethods
  | "list" => listMethods
  | "tuple" => tupleMethods
  | "dict" => mapMethods
  | "range" => rangeMethods
  | "date" => dayMethods
  | "datetime" => timeMethods
  | "function" => ["__call__", "__get__"]
  | "method" => ["__call__", "__get__"]
  | "builtin_function_or_method" => ["__call__"]
  | "method_descriptor" => ["__call__", "__get__"]
  | "type" => typeMethods
  | "Exception" => failureMethods
  | _ => []

/-- What is computed from a value of a type. -/
def parts (typeName : String) : List String :=
  match typeName with
  | "bool" => ["denominator", "imag", "numerator", "real"]
  | "int" => ["denominator", "imag", "numerator", "real"]
  | "float" => ["imag", "real"]
  | "range" => ["start", "step", "stop"]
  | "date" => ["day", "month", "year"]
  | "datetime" =>
    ["day", "fold", "hour", "microsecond", "minute", "month", "second", "tzinfo", "year"]
  | "Exception" => ["args"]
  | _ => []

end Attribute

end TemplateRecovery
