/-!
# Kinds and their members

Whatever the name of a field leads to is of some kind, and its kind says which members it has. A
snippet is a text. Its members are the operations of texts, and each of these is a thing with a kind
and members in turn, so names can lead on from there, to what is said about an operation or to what
it belongs to. Nothing is ever done with a member but to follow it and to write it out.

The kinds come first here, and then what a member is. Which members a kind has is listed in the
modules below this one.
-/

namespace CallByValue

namespace Template

inductive Kind where
  | text
  /-- The kind above all others. -/
  | top
  | kind
  | row
  | nothing
  | number
  | truth
  /-- An operation taken from a thing. -/
  | boundOperation
  /-- An operation of a built-in notion taken from a thing. -/
  | boundBuiltIn
  | builtIn
  | operation
  | kindOperation
  | standalone
  | property
  | field
  /-- The members of a kind by name. -/
  | table
  | dictionary
  /-- A kind that a key was applied to. -/
  | narrowed
deriving DecidableEq

namespace Kind

def home : Kind → String
  | .narrowed => "types"
  | _ => "builtins"

def name : Kind → String
  | .text => "str"
  | .top => "object"
  | .kind => "type"
  | .row => "tuple"
  | .nothing => "NoneType"
  | .number => "int"
  | .truth => "bool"
  | .boundOperation => "builtin_function_or_method"
  | .boundBuiltIn => "method-wrapper"
  | .builtIn => "wrapper_descriptor"
  | .operation => "method_descriptor"
  | .kindOperation => "classmethod_descriptor"
  | .standalone => "staticmethod"
  | .property => "getset_descriptor"
  | .field => "member_descriptor"
  | .table => "mappingproxy"
  | .dictionary => "dict"
  | .narrowed => "GenericAlias"

/-- The name with the module in front, which is left out if it is the usual one. -/
def label (k : Kind) : String :=
  match k with
  | .narrowed => k.home ++ "." ++ k.name
  | _ => k.name

def display (k : Kind) : String :=
  "<class '" ++ k.label ++ "'>"

/-- The kind right above another. -/
def base? : Kind → Option Kind
  | .top => none
  | .truth => some .number
  | _ => some .top

/-- A kind and the kinds above it, upwards. -/
def upwards : Kind → List Kind
  | .top => [.top]
  | .truth => [.truth, .number, .top]
  | k => [k, .top]

def isNarrowable : Kind → Bool
  | .kind => true
  | .row => true
  | .table => true
  | .dictionary => true
  | _ => false

/-- What the arguments of a kind are written like, where that is known. -/
def signature : Kind → Option String
  | .top => some "()"
  | .row => some "(iterable=(), /)"
  | _ => none

def note : Kind → Option String
  | .text => some
    ("str(object='') -> str\n" ++
      "str(bytes_or_buffer[, encoding[, errors]]) -> str\n\n" ++
      "Create a new string object from the given object. If encoding or\n" ++
      "errors is specified, then the object must expose a data buffer\n" ++
      "that will be decoded using the given encoding and error handler.\n" ++
      "Otherwise, returns the result of object.__str__() (if defined)\n" ++
      "or repr(object).\n" ++
      "encoding defaults to sys.getdefaultencoding().\n" ++
      "errors defaults to 'strict'.")
  | .top => some
    ("The base class of the class hierarchy.\n\n" ++
      "When called, it accepts no arguments and returns a new featureless\n" ++
      "instance that has no instance attributes and cannot be given any.\n")
  | .kind => some
    ("type(object) -> the object's type\n" ++
      "type(name, bases, dict, **kwds) -> a new type")
  | .row => some
    ("Built-in immutable sequence.\n\n" ++
      "If no argument is given, the constructor returns an empty tuple.\n" ++
      "If iterable is specified the tuple is initialized from iterable's items.\n\n" ++
      "If the argument is a tuple, the return value is the same object.")
  | .number => some
    ("int([x]) -> integer\n" ++
      "int(x, base=10) -> integer\n\n" ++
      "Convert a number or string to an integer, or return 0 if no arguments\n" ++
      "are given.  If x is a number, return x.__int__().  For floating point\n" ++
      "numbers, this truncates towards zero.\n\n" ++
      "If x is not a number or if base is given, then x must be a string,\n" ++
      "bytes, or bytearray instance representing an integer literal in the\n" ++
      "given base.  The literal can be preceded by '+' or '-' and be surrounded\n" ++
      "by whitespace.  The base defaults to 10.  Valid bases are 0 and 2-36.\n" ++
      "Base 0 means to interpret the base from the string as an integer literal.\n" ++
      ">>> int('0b100', base=0)\n" ++
      "4")
  | .truth => some
    ("bool(x) -> bool\n\n" ++
      "Returns True when the argument x is true, False otherwise.\n" ++
      "The builtins True and False are the only two instances of the class bool.\n" ++
      "The class bool is a subclass of the class int, and cannot be subclassed.")
  | .standalone => some
    ("staticmethod(function) -> method\n\n" ++
      "Convert a function to be a static method.\n\n" ++
      "A static method does not receive an implicit first argument.\n" ++
      "To declare a static method, use this idiom:\n\n" ++
      "     class C:\n" ++
      "         @staticmethod\n" ++
      "         def f(arg1, arg2, ...):\n" ++
      "             ...\n\n" ++
      "It can be called either on the class (e.g. C.f()) or on an instance\n" ++
      "(e.g. C().f()). Both the class and the instance are ignored, and\n" ++
      "neither is passed implicitly as the first argument to the method.\n\n" ++
      "Static methods in Python are similar to those found in Java or C++.\n" ++
      "For a more advanced concept, see the classmethod builtin.")
  | .dictionary => some
    ("dict() -> new empty dictionary\n" ++
      "dict(mapping) -> new dictionary initialized from a mapping object's\n" ++
      "    (key, value) pairs\n" ++
      "dict(iterable) -> new dictionary initialized as if via:\n" ++
      "    d = \x7b\x7d\n" ++
      "    for k, v in iterable:\n" ++
      "        d[k] = v\n" ++
      "dict(**kwargs) -> new dictionary initialized with the name=value pairs\n" ++
      "    in the keyword argument list.  For example:  dict(one=1, two=2)")
  | .narrowed => some
    ("Represent a PEP 585 generic type\n\n" ++
      "E.g. for t = list[int], t.__origin__ is list and t.__args__ is (int,).")
  | _ => none

/-- The names of what is measured of every kind. -/
def measureNames : List String :=
  ["__basicsize__", "__itemsize__", "__flags__", "__weakrefoffset__", "__dictoffset__"]

def measures : Kind → List Nat
  | .text => [80, 0, 273159424, 0, 0]
  | .top => [16, 0, 529664, 0, 0]
  | .kind => [904, 40, 2148031744, 368, 264]
  | .row => [24, 8, 71849248, 0, 0]
  | .nothing => [16, 0, 528640, 0, 0]
  | .number => [24, 4, 21501184, 0, 0]
  | .truth => [32, 4, 21500160, 0, 0]
  | .boundOperation => [56, 0, 547200, 40, 0]
  | .boundBuiltIn => [32, 0, 545152, 0, 0]
  | .builtIn => [56, 0, 676224, 0, 0]
  | .operation => [56, 0, 678272, 0, 0]
  | .kindOperation => [56, 0, 545152, 0, 0]
  | .standalone => [32, 0, 546048, 0, 24]
  | .property => [48, 0, 545152, 0, 0]
  | .field => [48, 0, 545152, 0, 0]
  | .table => [24, 0, 545088, 0, 0]
  | .dictionary => [48, 0, 541611328, 0, 0]
  | .narrowed => [64, 0, 548096, 40, 0]

def measure? (k : Kind) (name : String) : Option Nat :=
  (measureNames.zip k.measures).lookup name

end Kind

/-- What a kind has under a name. -/
inductive MemberSort where
  | operation
  /-- An operation of a built-in notion such as length or order. -/
  | builtIn
  /-- An operation of the kind itself, also where it is taken from a thing. -/
  | kindOperation
  /-- The operation that makes things of the kind. -/
  | maker
  /-- An operation that needs neither a thing nor a kind. -/
  | standalone
  /-- Something that is worked out for each thing. -/
  | property
  /-- Something that each thing holds. -/
  | field
  /-- What is said about the kind. -/
  | note
  | blank
deriving DecidableEq

structure Member where
  name : String
  sort : MemberSort
  /-- What its arguments are written like. -/
  signature : Option String
  /-- What is said about it. -/
  note : Option String
deriving DecidableEq

namespace Member

def maker : Member :=
  ⟨"__new__", .maker, some "($type, *args, **kwargs)",
    some "Create and return a new object.  See help(type) for accurate signature."⟩

def property (name : String) : Member :=
  ⟨name, .property, none, none⟩

def field (name : String) : Member :=
  ⟨name, .field, none, none⟩

/-- The operations of built-in notions, each with its arguments and what is said about it. -/
def builtInNotes : List (String × String × String) :=
  [("__repr__", "($self, /)", "Return repr(self)."),
   ("__hash__", "($self, /)", "Return hash(self)."),
   ("__str__", "($self, /)", "Return str(self)."),
   ("__getattribute__", "($self, name, /)", "Return getattr(self, name)."),
   ("__lt__", "($self, value, /)", "Return self<value."),
   ("__le__", "($self, value, /)", "Return self<=value."),
   ("__eq__", "($self, value, /)", "Return self==value."),
   ("__ne__", "($self, value, /)", "Return self!=value."),
   ("__gt__", "($self, value, /)", "Return self>value."),
   ("__ge__", "($self, value, /)", "Return self>=value."),
   ("__iter__", "($self, /)", "Implement iter(self)."),
   ("__mod__", "($self, value, /)", "Return self%value."),
   ("__rmod__", "($self, value, /)", "Return value%self."),
   ("__len__", "($self, /)", "Return len(self)."),
   ("__getitem__", "($self, key, /)", "Return self[key]."),
   ("__add__", "($self, value, /)", "Return self+value."),
   ("__mul__", "($self, value, /)", "Return self*value."),
   ("__rmul__", "($self, value, /)", "Return value*self."),
   ("__contains__", "($self, key, /)", "Return key in self."),
   ("__setattr__", "($self, name, value, /)", "Implement setattr(self, name, value)."),
   ("__delattr__", "($self, name, /)", "Implement delattr(self, name)."),
   ("__init__", "($self, /, *args, **kwargs)",
    "Initialize self.  See help(type(self)) for accurate signature."),
   ("__call__", "($self, /, *args, **kwargs)", "Call self as a function."),
   ("__or__", "($self, value, /)", "Return self|value."),
   ("__ror__", "($self, value, /)", "Return value|self."),
   ("__bool__", "($self, /)", "True if self else False"),
   ("__radd__", "($self, value, /)", "Return value+self."),
   ("__sub__", "($self, value, /)", "Return self-value."),
   ("__rsub__", "($self, value, /)", "Return value-self."),
   ("__divmod__", "($self, value, /)", "Return divmod(self, value)."),
   ("__rdivmod__", "($self, value, /)", "Return divmod(value, self)."),
   ("__pow__", "($self, value, mod=None, /)", "Return pow(self, value, mod)."),
   ("__rpow__", "($self, value, mod=None, /)", "Return pow(value, self, mod)."),
   ("__neg__", "($self, /)", "-self"),
   ("__pos__", "($self, /)", "+self"),
   ("__abs__", "($self, /)", "abs(self)"),
   ("__invert__", "($self, /)", "~self"),
   ("__lshift__", "($self, value, /)", "Return self<<value."),
   ("__rlshift__", "($self, value, /)", "Return value<<self."),
   ("__rshift__", "($self, value, /)", "Return self>>value."),
   ("__rrshift__", "($self, value, /)", "Return value>>self."),
   ("__and__", "($self, value, /)", "Return self&value."),
   ("__rand__", "($self, value, /)", "Return value&self."),
   ("__xor__", "($self, value, /)", "Return self^value."),
   ("__rxor__", "($self, value, /)", "Return value^self."),
   ("__int__", "($self, /)", "int(self)"),
   ("__float__", "($self, /)", "float(self)"),
   ("__floordiv__", "($self, value, /)", "Return self//value."),
   ("__rfloordiv__", "($self, value, /)", "Return value//self."),
   ("__truediv__", "($self, value, /)", "Return self/value."),
   ("__rtruediv__", "($self, value, /)", "Return value/self."),
   ("__index__", "($self, /)",
    "Return self converted to an integer, if self is suitable for use as an index into a list."),
   ("__get__", "($self, instance, owner=None, /)",
    "Return an attribute of instance, which is of type owner."),
   ("__set__", "($self, instance, value, /)", "Set an attribute of instance to value."),
   ("__delete__", "($self, instance, /)", "Delete an attribute of instance."),
   ("__ior__", "($self, value, /)", "Return self|=value."),
   ("__setitem__", "($self, key, value, /)", "Set self[key] to value."),
   ("__delitem__", "($self, key, /)", "Delete self[key].")]

def builtIn (name : String) : Member :=
  match builtInNotes.lookup name with
  | some (signature, note) => ⟨name, .builtIn, some signature, some note⟩
  | none => ⟨name, .builtIn, none, none⟩

def builtIns (names : List String) : List Member :=
  names.map builtIn

end Member

end Template

end CallByValue
