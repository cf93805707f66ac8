import CallByValue.Template.Fault
import CallByValue.Template.Members.General
import CallByValue.Template.Members.Number
import CallByValue.Template.Members.Text
import CallByValue.Text.Numeral
/-!
# Parts of a snippet

The name of a field leads from a snippet to what it is filled with. Mostly that is the snippet
itself, or a character of it that a key picks. A name can also ask for a member of the snippet, of
its kind, or of whatever the name has led to so far.

What a member gives depends on where it is taken from. A thing gives its operations bound to itself,
and works out its properties. A kind has members of two sorts: properties of its own, such as its
name, and what it lists for the things of the kind, which it gives as they are. If it lists nothing
under a name, the operations of kinds are tried last.
-/

namespace CallByValue

namespace Template

/-- The members that a kind lists, without those of the kinds above it. -/
def Kind.members : Kind → List Member
  | .text => Member.ofTexts
  | .top => Member.ofAll
  | .kind => Member.ofKinds
  | .row => Member.ofRows
  | .nothing => Member.ofNothing
  | .number => Member.ofNumbers
  | .truth => Member.ofTruths
  | .boundOperation => Member.ofBoundOperations
  | .boundBuiltIn => Member.ofBoundBuiltIns
  | .builtIn => Member.ofBuiltIns
  | .operation => Member.ofOperations
  | .kindOperation => Member.ofKindOperations
  | .standalone => Member.ofStandalone
  | .property => Member.ofProperties
  | .field => Member.ofFields
  | .table => Member.ofTables
  | .dictionary => Member.ofDictionaries
  | .narrowed => Member.ofNarrowed

def Kind.member? (k : Kind) (name : String) : Option Member :=
  k.members.find? fun m => m.name = name

/-- The member with the given name, and which of the kinds upwards lists it. -/
def Kind.find? (k : Kind) (name : String) : Option (Kind × Member) :=
  k.upwards.findSome? fun owner => (owner.member? name).map (owner, ·)

/-- A key in brackets is a number if it is made of digits. -/
inductive Key where
  | number (n : Nat)
  | text (cs : List Char)

def Key.display : Key → String
  | .number n => toString n
  | .text cs => Text.quoted (String.ofList cs)

def Key.read (cs : List Char) : Except Fault Key :=
  match Text.leadingWord? cs with
  | none => .error .tooManyDigits
  | some (n, []) => .ok (.number n)
  | some (_, _ :: _) => .ok (.text cs)

inductive Part where
  | text (cs : List Char)
  | number (n : Nat)
  | truth (b : Bool)
  | nothing
  | kind (k : Kind)
  /-- A row of kinds. -/
  | kinds (ks : List Kind)
  /-- A row of one key. -/
  | keys (key : Key)
  | narrowed (k : Kind) (key : Key)
  | table (k : Kind)
  /-- A dictionary without entries. -/
  | dictionary
  /-- A member as a kind lists it. -/
  | member (owner : Kind) (m : Member)
  /-- An operation bound to what it was taken from. -/
  | bound (subject : Part) (owner : Kind) (m : Member)

namespace Part

def ofOption : Option String → Part
  | some s => .text s.toList
  | none => .nothing

def ofKey : Key → Part
  | .number n => .number n
  | .text cs => .text cs

def kindOf : Part → Kind
  | .text _ => .text
  | .number _ => .number
  | .truth _ => .truth
  | .nothing => .nothing
  | .kind _ => .kind
  | .kinds _ => .row
  | .keys _ => .row
  | .narrowed _ _ => .narrowed
  | .table _ => .table
  | .dictionary => .dictionary
  | .member _ m =>
    match m.sort with
    | .builtIn => .builtIn
    | .operation => .operation
    | .kindOperation => .kindOperation
    | .property => .property
    | .field => .field
    | _ => .standalone
  | .bound _ _ m => if m.sort = .builtIn then .boundBuiltIn else .boundOperation

/-- A member as a kind gives it, where `taker` is the kind that was asked. -/
def ofMember (taker owner : Kind) (m : Member) : Part :=
  match m.sort with
  | .kindOperation => .bound (.kind taker) owner m
  | .maker => .bound (.kind owner) owner m
  | .standalone => .bound (.kind owner) owner m
  | .note => ofOption owner.note
  | .blank => .nothing
  | _ => .member owner m

/-- What a table holds for a member. -/
def ofEntry (owner : Kind) (m : Member) : Part :=
  match m.sort with
  | .kindOperation => .member owner m
  | .standalone => .member owner m
  | _ => ofMember owner owner m

/-- What a member gives where a thing is asked for it, its properties aside. -/
def ofSubject (subject : Part) (owner : Kind) (m : Member) : Part :=
  match m.sort with
  | .operation => .bound subject owner m
  | .builtIn => .bound subject owner m
  | _ => ofMember subject.kindOf owner m

def row (ks : List Kind) : String :=
  match ks with
  | [k] => "(" ++ k.display ++ ",)"
  | ks => "(" ++ String.intercalate ", " (ks.map Kind.display) ++ ")"

def place : String :=
  " at 0x7f0000000000>"

def memberText (owner : Kind) (m : Member) : String :=
  let title := " '" ++ m.name ++ "' of '" ++ owner.label ++ "' objects>"
  match m.sort with
  | .builtIn => "<slot wrapper" ++ title
  | .property => "<attribute" ++ title
  | .field => "<member" ++ title
  | .standalone => "<staticmethod(<built-in method " ++ m.name ++ " of type object" ++ place ++ ")>"
  | _ => "<method" ++ title

def boundText (subject : Kind) (m : Member) : String :=
  match m.sort with
  | .builtIn => "<method-wrapper '" ++ m.name ++ "' of " ++ subject.label ++ " object" ++ place
  | _ => "<built-in method " ++ m.name ++ " of " ++ subject.label ++ " object" ++ place

/-- An entry of a table. None of them is a table. -/
def entryText (owner : Kind) (m : Member) : String :=
  let value :=
    match ofEntry owner m with
    | .text cs => Text.quoted (String.ofList cs)
    | .member owner m => memberText owner m
    | .bound subject _ m => boundText subject.kindOf m
    | _ => "None"
  Text.quoted m.name ++ ": " ++ value

def narrowedText (k : Kind) (key : Key) : String :=
  k.name ++ "[" ++ key.display ++ "]"

def tableText (k : Kind) : String :=
  "\x7b" ++ String.intercalate ", " (k.members.map (entryText k)) ++ "\x7d"

def display : Part → List Char
  | .text cs => cs
  | .number n => (toString n).toList
  | .truth b => (if b then "True" else "False").toList
  | .nothing => "None".toList
  | .kind k => k.display.toList
  | .kinds ks => (row ks).toList
  | .keys key => ("(" ++ key.display ++ ",)").toList
  | .narrowed k key => (narrowedText k key).toList
  | .table k => (tableText k).toList
  | .dictionary => "\x7b\x7d".toList
  | .member owner m => (memberText owner m).toList
  | .bound subject _ m => (boundText subject.kindOf m).toList

def quoted : Part → List Char
  | .text cs => (Text.quoted (String.ofList cs)).toList
  | .table k => (Kind.table.name ++ "(" ++ tableText k ++ ")").toList
  | part => part.display

/-- The full name of a bound operation. One of a built-in notion is named after the kind that lists
it, any other after the kind it was taken from. -/
def fullName (subject : Part) (owner : Kind) (m : Member) : String :=
  let k :=
    match m.sort, subject with
    | .builtIn, _ => owner
    | _, .kind k => k
    | _, subject => subject.kindOf
  k.name ++ "." ++ m.name

def memberProperty? (owner : Kind) (m : Member) (name : String) : Option Part :=
  if m.sort = .standalone then
    if name = "__func__" || name = "__wrapped__" then some (.bound (.kind owner) owner m)
    else if name = "__isabstractmethod__" then some (.truth false)
    else if name = "__dict__" then some .dictionary
    else none
  else if name = "__name__" then some (.text m.name.toList)
  else if name = "__qualname__" then some (.text (owner.name ++ "." ++ m.name).toList)
  else if name = "__objclass__" then some (.kind owner)
  else if name = "__doc__" then some (ofOption m.note)
  else if name = "__text_signature__" then some (ofOption m.signature)
  else none

def boundProperty? (subject : Part) (owner : Kind) (m : Member) (name : String) : Option Part :=
  if name = "__name__" then some (.text m.name.toList)
  else if name = "__qualname__" then some (.text (fullName subject owner m).toList)
  else if name = "__objclass__" then some (.kind owner)
  else if name = "__self__" then some (if m.sort = .standalone then .nothing else subject)
  else if name = "__module__" then some .nothing
  else if name = "__doc__" then some (ofOption m.note)
  else if name = "__text_signature__" then some (ofOption m.signature)
  else none

def narrowedProperty? (k : Kind) (key : Key) (name : String) : Option Part :=
  if name = "__origin__" then some (.kind k)
  else if name = "__args__" then some (.keys key)
  else if name = "__unpacked__" then some (.truth false)
  else if name = "__parameters__" then some (.kinds [])
  else if name = "__typing_unpacked_tuple_args__" then some .nothing
  else none

def numberProperty? (n : Nat) (name : String) : Option Part :=
  if name = "real" || name = "numerator" then some (.number n)
  else if name = "imag" then some (.number 0)
  else if name = "denominator" then some (.number 1)
  else none

/-- What a property of a thing comes out as. -/
def property? (part : Part) (name : String) : Option Part :=
  if name = "__class__" then some (.kind part.kindOf)
  else match part with
    | .number n => numberProperty? n name
    | .truth b => numberProperty? b.toNat name
    | .narrowed k key => narrowedProperty? k key name
    | .member owner m => memberProperty? owner m name
    | .bound subject owner m => boundProperty? subject owner m name
    | _ => none

def subject : Part → String
  | .kind k => "type object '" ++ k.label ++ "'"
  | part => "'" ++ part.kindOf.label ++ "' object"

/-- A member of a thing that is no kind. -/
def thingMember (part : Part) (name : String) : Except Fault Part :=
  let found :=
    match part.kindOf.find? name with
    | none => none
    | some (owner, m) =>
      if m.sort = .property || m.sort = .field then part.property? name
      else some (ofSubject part owner m)
  match found with
  | some part => .ok part
  | none => .error (.noPart part.subject name)

/-- What is said about a kind, or else what it lists in place of that. -/
def kindNote (k : Kind) : Part :=
  match k.note, k.member? "__doc__" with
  | none, some m => ofMember k k m
  | note, _ => ofOption note

def kindProperty (k : Kind) (name : String) : Except Fault Part :=
  if name = "__class__" then .ok (.kind .kind)
  else if name = "__name__" || name = "__qualname__" then .ok (.text k.name.toList)
  else if name = "__module__" then .ok (.text k.home.toList)
  else if name = "__doc__" then .ok (kindNote k)
  else if name = "__text_signature__" then .ok (ofOption k.signature)
  else if name = "__base__" then .ok (k.base?.elim .nothing .kind)
  else if name = "__bases__" then .ok (.kinds k.base?.toList)
  else if name = "__mro__" then .ok (.kinds k.upwards)
  else if name = "__dict__" then .ok (.table k)
  else if name = "__abstractmethods__" then .error (.unset name)
  else match k.measure? name with
    | some n => .ok (.number n)
    | none => .error (.noPart (subject (.kind k)) name)

def kindMember (k : Kind) (name : String) : Except Fault Part :=
  let ofKinds := Kind.kind.find? name
  let isProperty := ofKinds.any fun (_, m) => m.sort = .property || m.sort = .field
  if isProperty then kindProperty k name
  else match k.find? name, ofKinds with
    | some (owner, m), _ => .ok (ofMember k owner m)
    | none, some (owner, m) => .ok (ofSubject (.kind k) owner m)
    | none, none => .error (.noPart (subject (.kind k)) name)

/-- The members that a narrowed kind has of its own. It hands on the others of the kind. -/
def ownNames : List String :=
  ["__class__", "__origin__", "__args__", "__unpacked__", "__parameters__",
   "__typing_unpacked_tuple_args__", "__mro_entries__", "__reduce_ex__", "__reduce__", "__copy__",
   "__deepcopy__"]

def named (part : Part) (name : String) : Except Fault Part :=
  match part with
  | .kind k => kindMember k name
  | .narrowed k _ => if ownNames.contains name then thingMember part name else kindMember k name
  | part => thingMember part name

def pick {α : Type} (sequence : Sequence) (items : List α) : Key → Except Fault α
  | .text _ => .error (.keyNotNumber sequence)
  | .number n =>
    match items[n]? with
    | some item => .ok item
    | none => .error (.keyOutside sequence)

def entry (k : Kind) (key : Key) : Except Fault Part :=
  match key with
  | .number _ => .error (.noEntry key.display)
  | .text cs =>
    match k.member? (String.ofList cs) with
    | some m => .ok (ofEntry k m)
    | none => .error (.noEntry key.display)

def keyed (part : Part) (cs : List Char) : Except Fault Part := do
  let key ← Key.read cs
  match part with
  | .text cs => do return .text [← pick .text cs key]
  | .kinds ks => do return .kind (← pick .row ks key)
  | .keys k => do return ofKey (← pick .row [k] key)
  | .table k => entry k key
  | .dictionary => .error (.noEntry key.display)
  | .kind k =>
    if k.isNarrowable then .ok (.narrowed k key)
    else .error (.notKeyed ("type '" ++ k.label ++ "'"))
  | .narrowed k given => .error (.notGeneric (narrowedText k given))
  | part => .error (.notKeyed part.subject)

end Part

end Template

end CallByValue
