import TeamFlow.Value.Kind

/-! Offers. What is of a kind can be asked for more than its parts: for the operations and methods
that its kind and those below it offer. The first kind in line that offers a name is meant. -/

namespace TeamFlow

/-- How a kind offers something. Operations and methods belong to what is of the kind, `ofKind` to
the kind that it is of and `static` to the kind that offers it; a part is no more than a value. -/
inductive Offer where
  | operation | method | ofKind | static | part
deriving DecidableEq

structure Offers where
  operations : List String := []
  methods : List String := []
  ofKind : List String := []
  static : List String := []
  parts : List String := []

namespace Offers

def find? (o : Offers) (name : String) : Option Offer :=
  if o.operations.contains name then some .operation
  else if o.methods.contains name then some .method
  else if o.ofKind.contains name then some .ofKind
  else if o.static.contains name then some .static
  else if o.parts.contains name then some .part
  else none

end Offers

namespace Kind

/-- What a kind offers on its own. -/
def offers (k : Kind) : Offers :=
  match k.name with
  | "object" => {
    operations := ["__repr__", "__hash__", "__str__", "__getattribute__", "__setattr__",
      "__delattr__", "__lt__", "__le__", "__eq__", "__ne__", "__gt__", "__ge__", "__init__"]
    methods := ["__reduce_ex__", "__reduce__", "__getstate__", "__format__", "__sizeof__",
      "__dir__"]
    ofKind := ["__subclasshook__", "__init_subclass__"]
    static := ["__new__"] }
  | "NoneType" => {
    operations := ["__repr__", "__bool__"]
    static := ["__new__"] }
  | "bool" => {
    operations := ["__repr__", "__and__", "__rand__", "__xor__", "__rxor__", "__or__", "__ror__"]
    static := ["__new__"] }
  | "int" => {
    operations := ["__repr__", "__hash__", "__getattribute__", "__lt__", "__le__", "__eq__",
      "__ne__", "__gt__", "__ge__", "__add__", "__radd__", "__sub__", "__rsub__", "__mul__",
      "__rmul__", "__mod__", "__rmod__", "__divmod__", "__rdivmod__", "__pow__", "__rpow__",
      "__neg__", "__pos__", "__abs__", "__bool__", "__invert__", "__lshift__", "__rlshift__",
      "__rshift__", "__rrshift__", "__and__", "__rand__", "__xor__", "__rxor__", "__or__",
      "__ror__", "__int__", "__float__", "__floordiv__", "__rfloordiv__", "__truediv__",
      "__rtruediv__", "__index__"]
    methods := ["conjugate", "bit_length", "bit_count", "to_bytes", "as_integer_ratio",
      "__trunc__", "__floor__", "__ceil__", "__round__", "__getnewargs__", "__format__",
      "__sizeof__"]
    ofKind := ["from_bytes"]
    static := ["__new__"]
    parts := ["real", "imag", "numerator", "denominator"] }
  | "float" => {
    operations := ["__repr__", "__hash__", "__getattribute__", "__lt__", "__le__", "__eq__",
      "__ne__", "__gt__", "__ge__", "__add__", "__radd__", "__sub__", "__rsub__", "__mul__",
      "__rmul__", "__mod__", "__rmod__", "__divmod__", "__rdivmod__", "__pow__", "__rpow__",
      "__neg__", "__pos__", "__abs__", "__bool__", "__int__", "__float__", "__floordiv__",
      "__rfloordiv__", "__truediv__", "__rtruediv__"]
    methods := ["conjugate", "__trunc__", "__floor__", "__ceil__", "__round__", "as_integer_ratio",
      "hex", "is_integer", "__getnewargs__", "__format__"]
    ofKind := ["fromhex", "__getformat__"]
    static := ["__new__"]
    parts := ["real", "imag"] }
  | "str" => {
    operations := ["__repr__", "__hash__", "__str__", "__getattribute__", "__lt__", "__le__",
      "__eq__", "__ne__", "__gt__", "__ge__", "__iter__", "__mod__", "__rmod__", "__len__",
      "__getitem__", "__add__", "__mul__", "__rmul__", "__contains__"]
    methods := ["encode", "replace", "split", "rsplit", "join", "capitalize", "casefold", "title",
      "center", "count", "expandtabs", "find", "partition", "index", "ljust", "lower", "lstrip",
      "rfind", "rindex", "rjust", "rstrip", "rpartition", "splitlines", "strip", "swapcase",
      "translate", "upper", "startswith", "endswith", "removeprefix", "removesuffix", "isascii",
      "islower", "isupper", "istitle", "isspace", "isdecimal", "isdigit", "isnumeric", "isalpha",
      "isalnum", "isidentifier", "isprintable", "zfill", "format", "format_map", "__format__",
      "__sizeof__", "__getnewargs__"]
    static := ["__new__", "maketrans"] }
  | "list" => {
    operations := ["__repr__", "__getattribute__", "__lt__", "__le__", "__eq__", "__ne__",
      "__gt__", "__ge__", "__iter__", "__init__", "__len__", "__setitem__", "__delitem__",
      "__add__", "__mul__", "__rmul__", "__contains__", "__iadd__", "__imul__"]
    methods := ["__getitem__", "__reversed__", "__sizeof__", "clear", "copy", "append", "insert",
      "extend", "pop", "remove", "index", "count", "reverse", "sort"]
    ofKind := ["__class_getitem__"]
    static := ["__new__"] }
  | "tuple" => {
    operations := ["__repr__", "__hash__", "__getattribute__", "__lt__", "__le__", "__eq__",
      "__ne__", "__gt__", "__ge__", "__iter__", "__len__", "__getitem__", "__add__", "__mul__",
      "__rmul__", "__contains__"]
    methods := ["__getnewargs__", "index", "count"]
    ofKind := ["__class_getitem__"]
    static := ["__new__"] }
  | "dict" => {
    operations := ["__repr__", "__getattribute__", "__lt__", "__le__", "__eq__", "__ne__",
      "__gt__", "__ge__", "__iter__", "__init__", "__or__", "__ror__", "__ior__", "__len__",
      "__setitem__", "__delitem__"]
    methods := ["__getitem__", "__contains__", "__sizeof__", "get", "setdefault", "pop", "popitem",
      "keys", "items", "values", "update", "clear", "copy", "__reversed__"]
    ofKind := ["fromkeys", "__class_getitem__"]
    static := ["__new__"] }
  | "set" => {
    operations := ["__repr__", "__getattribute__", "__lt__", "__le__", "__eq__", "__ne__",
      "__gt__", "__ge__", "__iter__", "__init__", "__sub__", "__rsub__", "__and__", "__rand__",
      "__xor__", "__rxor__", "__or__", "__ror__", "__isub__", "__iand__", "__ixor__", "__ior__",
      "__len__"]
    methods := ["__contains__", "add", "clear", "copy", "discard", "difference",
      "difference_update", "intersection", "intersection_update", "isdisjoint", "issubset",
      "issuperset", "pop", "__reduce__", "remove", "__sizeof__", "symmetric_difference",
      "symmetric_difference_update", "union", "update"]
    ofKind := ["__class_getitem__"]
    static := ["__new__"] }
  | "type" => {
    operations := ["__repr__", "__call__", "__getattribute__", "__setattr__", "__delattr__",
      "__init__", "__or__", "__ror__"]
    methods := ["mro", "__subclasses__", "__instancecheck__", "__subclasscheck__", "__dir__",
      "__sizeof__"]
    ofKind := ["__prepare__"]
    static := ["__new__"] }
  | "BaseModel" => {
    methods := ["model_copy", "model_dump", "model_dump_json", "model_post_init", "dict", "json",
      "copy", "__copy__", "__deepcopy__", "__delattr__", "__eq__", "__getattr__", "__getstate__",
      "__init__", "__iter__", "__replace__", "__repr__", "__repr_args__", "__setattr__",
      "__setstate__", "__str__", "_calculate_keys", "_copy_and_set_values", "_iter"]
    ofKind := ["model_construct", "model_json_schema", "model_parametrized_name", "model_rebuild",
      "model_validate", "model_validate_json", "model_validate_strings", "construct", "from_orm",
      "parse_file", "parse_obj", "parse_raw", "schema", "schema_json", "update_forward_refs",
      "validate", "_get_value", "__class_getitem__", "__get_pydantic_core_schema__",
      "__get_pydantic_json_schema__", "__pydantic_init_subclass__"] }
  | "Serializable" => {
    methods := ["__init__", "to_json", "to_json_not_implemented", "__repr_args__"]
    ofKind := ["is_lc_serializable", "get_lc_namespace", "lc_id"] }
  | "BaseMessage" => {
    methods := ["__init__", "__add__", "pretty_repr", "pretty_print"]
    ofKind := ["is_lc_serializable", "get_lc_namespace"] }
  | "HumanMessage" => {
    methods := ["__init__"] }
  | "SystemMessage" => {
    methods := ["__init__"] }
  | "AIMessage" => {
    methods := ["__init__", "pretty_repr"]
    ofKind := ["_backwards_compat_tool_calls"] }
  | "ToolMessage" => {
    methods := ["__init__"]
    ofKind := ["coerce_args"] }
  | _ => {}

/-- Who offers something under a name, and how. -/
def offer? (k : Kind) (name : String) : Option (Offer × Kind) :=
  k.line.findSome? fun o => (o.offers.find? name).map fun offer => (offer, o)

/-- What a kind says of itself. -/
def manual? (k : Kind) : Option String :=
  match k.name with
  | "object" => some <|
    "The base class of the class hierarchy.\n\n" ++
    "When called, it accepts no arguments and returns a new featureless\n" ++
    "instance that has no instance attributes and cannot be given any.\n"
  | "bool" => some <|
    "bool(x) -> bool\n\nReturns True when the argument x is true, False otherwise.\n" ++
    "The builtins True and False are the only two instances of the class bool.\n" ++
    "The class bool is a subclass of the class int, and cannot be subclassed."
  | "int" => some <|
    "int([x]) -> integer\nint(x, base=10) -> integer\n\n" ++
    "Convert a number or string to an integer, or return 0 if no arguments\n" ++
    "are given.  If x is a number, return x.__int__().  For floating point\n" ++
    "numbers, this truncates towards zero.\n\n" ++
    "If x is not a number or if base is given, then x must be a string,\n" ++
    "bytes, or bytearray instance representing an integer literal in the\n" ++
    "given base.  The literal can be preceded by '+' or '-' and be surrounded\n" ++
    "by whitespace.  The base defaults to 10.  Valid bases are 0 and 2-36.\n" ++
    "Base 0 means to interpret the base from the string as an integer literal.\n" ++
    ">>> int('0b100', base=0)\n4"
  | "float" => some <|
    "Convert a string or number to a floating point number, if possible."
  | "str" => some <|
    "str(object='') -> str\nstr(bytes_or_buffer[, encoding[, errors]]) -> str\n\n" ++
    "Create a new string object from the given object. If encoding or\n" ++
    "errors is specified, then the object must expose a data buffer\n" ++
    "that will be decoded using the given encoding and error handler.\n" ++
    "Otherwise, returns the result of object.__str__() (if defined)\nor repr(object).\n" ++
    "encoding defaults to sys.getdefaultencoding().\nerrors defaults to 'strict'."
  | "list" => some <|
    "Built-in mutable sequence.\n\n" ++
    "If no argument is given, the constructor creates a new empty list.\n" ++
    "The argument must be an iterable if specified."
  | "tuple" => some <|
    "Built-in immutable sequence.\n\n" ++
    "If no argument is given, the constructor returns an empty tuple.\n" ++
    "If iterable is specified the tuple is initialized from iterable's items.\n\n" ++
    "If the argument is a tuple, the return value is the same object."
  | "dict" => some <|
    "dict() -> new empty dictionary\n" ++
    "dict(mapping) -> new dictionary initialized from a mapping object's\n" ++
    "    (key, value) pairs\ndict(iterable) -> new dictionary initialized as if via:\n" ++
    "    d = \x7b\x7d\n    for k, v in iterable:\n        d[k] = v\n" ++
    "dict(**kwargs) -> new dictionary initialized with the name=value pairs\n" ++
    "    in the keyword argument list.  For example:  dict(one=1, two=2)"
  | "set" => some <|
    "set() -> new empty set object\nset(iterable) -> new set object\n\n" ++
    "Build an unordered collection of unique elements."
  | "type" => some <|
    "type(object) -> the object's type\ntype(name, bases, dict, **kwds) -> a new type"
  | _ => none

/-- The signature in which a kind can be called, where it is known. -/
def signature? (k : Kind) : Option String :=
  match k.name with
  | "object" => some "()"
  | "float" => some "(x=0, /)"
  | "list" => some "(iterable=(), /)"
  | "tuple" => some "(iterable=(), /)"
  | _ => none

/-- Kinds that can be narrowed down by a key. -/
def isNarrowable (k : Kind) : Bool :=
  k.isBasic && ["list", "tuple", "dict", "set", "type"].contains k.name

end Kind

end TeamFlow
