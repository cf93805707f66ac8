import CallByValue.Template.Kind
/-!
# Members of the other kinds

What all things have, what kinds, rows and tables have, and what operations have themselves. The
members stand in the order in which a table shows them.
-/

namespace CallByValue

namespace Template

namespace Member

def ofAll : List Member :=
  [maker] ++
  builtIns ["__repr__", "__hash__", "__str__", "__getattribute__", "__setattr__", "__delattr__",
    "__lt__", "__le__", "__eq__", "__ne__", "__gt__", "__ge__", "__init__"] ++
  [⟨"__reduce_ex__", .operation, some "($self, protocol, /)", some "Helper for pickle."⟩,
   ⟨"__reduce__", .operation, some "($self, /)", some "Helper for pickle."⟩,
   ⟨"__getstate__", .operation, some "($self, /)", some "Helper for pickle."⟩,
   ⟨"__subclasshook__", .kindOperation, none,
     some ("Abstract classes can override this to customize issubclass().\n\n" ++
        "This is invoked early on by abc.ABCMeta.__subclasscheck__().\n" ++
        "It should return True, False or NotImplemented.  If it returns\n" ++
        "NotImplemented, the normal algorithm is used.  Otherwise, it\n" ++
        "overrides the normal algorithm (and the outcome is cached).\n")⟩,
   ⟨"__init_subclass__", .kindOperation, none,
     some ("This method is called when a class is subclassed.\n\n" ++
        "The default implementation does nothing. It may be\n" ++
        "overridden to extend subclasses.\n")⟩,
   ⟨"__format__", .operation, some "($self, format_spec, /)", some "Default object formatter."⟩,
   ⟨"__sizeof__", .operation, some "($self, /)", some "Size of object in memory, in bytes."⟩,
   ⟨"__dir__", .operation, some "($self, /)", some "Default dir() implementation."⟩,
   ⟨"__class__", .property, none, some "the object's class"⟩,
   ⟨"__doc__", .note, none, none⟩]

def ofKinds : List Member :=
  [maker] ++
  builtIns ["__repr__", "__call__", "__getattribute__", "__setattr__", "__delattr__",
    "__init__", "__or__", "__ror__"] ++
  [⟨"mro", .operation, some "($self, /)", some "Return a type's method resolution order."⟩,
   ⟨"__subclasses__", .operation, some "($self, /)", some "Return a list of immediate subclasses."⟩,
   ⟨"__prepare__", .kindOperation, none,
     some ("__prepare__() -> dict\n" ++
        "used to create the namespace for the class statement")⟩,
   ⟨"__instancecheck__", .operation, some "($self, instance, /)",
     some "Check if an object is an instance."⟩,
   ⟨"__subclasscheck__", .operation, some "($self, subclass, /)",
     some "Check if a class is a subclass."⟩,
   ⟨"__dir__", .operation, some "($self, /)", some "Specialized __dir__ implementation for types."⟩,
   ⟨"__sizeof__", .operation, some "($self, /)",
     some "Return memory consumption of the type object."⟩,
   field "__basicsize__",
   field "__itemsize__",
   field "__flags__",
   field "__weakrefoffset__",
   field "__base__",
   field "__dictoffset__",
   field "__mro__",
   property "__name__",
   property "__qualname__",
   property "__bases__",
   property "__module__",
   property "__abstractmethods__",
   property "__dict__",
   property "__doc__",
   property "__text_signature__",
   property "__annotations__"]

def ofRows : List Member :=
  [maker] ++
  builtIns ["__repr__", "__hash__", "__getattribute__", "__lt__", "__le__", "__eq__", "__ne__",
    "__gt__", "__ge__", "__iter__", "__len__", "__getitem__", "__add__", "__mul__", "__rmul__",
    "__contains__"] ++
  [⟨"__getnewargs__", .operation, some "($self, /)", none⟩,
   ⟨"index", .operation, some "($self, value, start=0, stop=sys.maxsize, /)",
     some ("Return first index of value.\n\n" ++
        "Raises ValueError if the value is not present.")⟩,
   ⟨"count", .operation, some "($self, value, /)", some "Return number of occurrences of value."⟩,
   ⟨"__class_getitem__", .kindOperation, none, some "See PEP 585"⟩,
   ⟨"__doc__", .note, none, none⟩]

def ofNothing : List Member :=
  [maker] ++
  builtIns ["__repr__", "__bool__"] ++
  [⟨"__doc__", .blank, none, none⟩]

def ofBoundOperations : List Member :=
  builtIns ["__repr__", "__hash__", "__call__", "__getattribute__", "__lt__", "__le__",
    "__eq__", "__ne__", "__gt__", "__ge__"] ++
  [⟨"__reduce__", .operation, none, none⟩,
   field "__module__",
   property "__doc__",
   property "__name__",
   property "__qualname__",
   property "__self__",
   property "__text_signature__"]

def ofBoundBuiltIns : List Member :=
  builtIns ["__repr__", "__hash__", "__call__", "__getattribute__", "__lt__", "__le__",
    "__eq__", "__ne__", "__gt__", "__ge__"] ++
  [⟨"__reduce__", .operation, none, none⟩,
   field "__self__",
   property "__objclass__",
   property "__name__",
   property "__qualname__",
   property "__doc__",
   property "__text_signature__"]

def ofBuiltIns : List Member :=
  builtIns ["__repr__", "__call__", "__getattribute__", "__get__"] ++
  [⟨"__reduce__", .operation, none, none⟩,
   field "__objclass__",
   field "__name__",
   property "__doc__",
   property "__qualname__",
   property "__text_signature__"]

def ofOperations : List Member :=
  builtIns ["__repr__", "__call__", "__getattribute__", "__get__"] ++
  [⟨"__reduce__", .operation, none, none⟩,
   field "__objclass__",
   field "__name__",
   property "__doc__",
   property "__qualname__",
   property "__text_signature__"]

def ofKindOperations : List Member :=
  builtIns ["__repr__", "__call__", "__getattribute__", "__get__"] ++
  [field "__objclass__",
   field "__name__",
   property "__doc__",
   property "__qualname__",
   property "__text_signature__"]

def ofProperties : List Member :=
  builtIns ["__repr__", "__getattribute__", "__get__", "__set__", "__delete__"] ++
  [field "__objclass__",
   field "__name__",
   property "__doc__",
   property "__qualname__"]

def ofFields : List Member :=
  builtIns ["__repr__", "__getattribute__", "__get__", "__set__", "__delete__"] ++
  [⟨"__reduce__", .operation, none, none⟩,
   field "__objclass__",
   field "__name__",
   property "__doc__",
   property "__qualname__"]

def ofTables : List Member :=
  [maker] ++
  builtIns ["__repr__", "__str__", "__getattribute__", "__lt__", "__le__", "__eq__", "__ne__",
    "__gt__", "__ge__", "__iter__", "__or__", "__ror__", "__ior__", "__len__", "__getitem__",
    "__contains__"] ++
  [⟨"get", .operation, none, some "D.get(k[,d]) -> D[k] if k in D, else d.  d defaults to None."⟩,
   ⟨"keys", .operation, none, some "D.keys() -> a set-like object providing a view on D's keys"⟩,
   ⟨"values", .operation, none, some "D.values() -> an object providing a view on D's values"⟩,
   ⟨"items", .operation, none, some "D.items() -> a set-like object providing a view on D's items"⟩,
   ⟨"copy", .operation, none, some "D.copy() -> a shallow copy of D"⟩,
   ⟨"__class_getitem__", .kindOperation, none, some "See PEP 585"⟩,
   ⟨"__reversed__", .operation, none, some "D.__reversed__() -> reverse iterator"⟩,
   ⟨"__doc__", .blank, none, none⟩,
   ⟨"__hash__", .blank, none, none⟩]

def ofDictionaries : List Member :=
  [maker] ++
  builtIns ["__repr__"] ++
  [⟨"__hash__", .blank, none, none⟩] ++
  builtIns ["__getattribute__", "__lt__", "__le__", "__eq__", "__ne__", "__gt__", "__ge__",
    "__iter__", "__init__", "__or__", "__ror__", "__ior__", "__len__"] ++
  [⟨"__getitem__", .operation, none, some "x.__getitem__(y) <==> x[y]"⟩] ++
  builtIns ["__setitem__", "__delitem__"] ++
  [⟨"__contains__", .operation, some "($self, key, /)",
     some "True if the dictionary has the specified key, else False."⟩,
   ⟨"__sizeof__", .operation, none, some "D.__sizeof__() -> size of D in memory, in bytes"⟩,
   ⟨"get", .operation, some "($self, key, default=None, /)",
     some "Return the value for key if key is in the dictionary, else default."⟩,
   ⟨"setdefault", .operation, some "($self, key, default=None, /)",
     some ("Insert key with a value of default if key is not in the dictionary.\n\n" ++
        "Return the value for key if key is in the dictionary, else default.")⟩,
   ⟨"pop", .operation, some "($self, key, default=<unrepresentable>, /)",
     some ("D.pop(k[,d]) -> v, remove specified key and return the corresponding value.\n\n" ++
        "If the key is not found, return the default if given; otherwise,\n" ++
        "raise a KeyError.")⟩,
   ⟨"popitem", .operation, some "($self, /)",
     some ("Remove and return a (key, value) pair as a 2-tuple.\n\n" ++
        "Pairs are returned in LIFO (last-in, first-out) order.\n" ++
        "Raises KeyError if the dict is empty.")⟩,
   ⟨"keys", .operation, none, some "D.keys() -> a set-like object providing a view on D's keys"⟩,
   ⟨"items", .operation, none, some "D.items() -> a set-like object providing a view on D's items"⟩,
   ⟨"values", .operation, none, some "D.values() -> an object providing a view on D's values"⟩,
   ⟨"update", .operation, none,
     some ("D.update([E, ]**F) -> None.  Update D from dict/iterable E and F.\n" ++
        "If E is present and has a .keys() method, then does:  for k in E: D[k] = E[k]\n" ++
        "If E is present and lacks a .keys() method, then does:  for k, v in E: D[k] = v\n" ++
        "In either case, this is followed by: for k in F:  D[k] = F[k]")⟩,
   ⟨"fromkeys", .kindOperation, some "($type, iterable, value=None, /)",
     some "Create a new dictionary with keys from iterable and values set to value."⟩,
   ⟨"clear", .operation, none, some "D.clear() -> None.  Remove all items from D."⟩,
   ⟨"copy", .operation, none, some "D.copy() -> a shallow copy of D"⟩,
   ⟨"__reversed__", .operation, some "($self, /)",
     some "Return a reverse iterator over the dict keys."⟩,
   ⟨"__class_getitem__", .kindOperation, none, some "See PEP 585"⟩,
   ⟨"__doc__", .note, none, none⟩]

def ofNarrowed : List Member :=
  [maker] ++
  builtIns ["__repr__", "__hash__", "__call__", "__getattribute__", "__lt__", "__le__",
    "__eq__", "__ne__", "__gt__", "__ge__", "__iter__", "__or__", "__ror__", "__getitem__"] ++
  [⟨"__mro_entries__", .operation, none, none⟩,
   ⟨"__instancecheck__", .operation, none, none⟩,
   ⟨"__subclasscheck__", .operation, none, none⟩,
   ⟨"__reduce__", .operation, none, none⟩,
   ⟨"__dir__", .operation, none, none⟩,
   field "__origin__",
   field "__args__",
   field "__unpacked__",
   ⟨"__parameters__", .property, none, some "Type variables in the GenericAlias."⟩,
   property "__typing_unpacked_tuple_args__",
   ⟨"__doc__", .note, none, none⟩]

def ofStandalone : List Member :=
  [maker] ++
  builtIns ["__repr__", "__call__", "__get__", "__init__"] ++
  [field "__func__",
   field "__wrapped__",
   property "__isabstractmethod__",
   property "__dict__",
   ⟨"__doc__", .note, none, none⟩]

end Member

end Template

end CallByValue
