import Canonmark.Xml.Markup

/-! Namespaces. Attributes that begin with `xmlns` bind names to namespaces for their element and
all inside it. -/
namespace Canonmark.Xml

/-- The namespaces in force, the latest first. The empty name stands for names without a colon. -/
abbrev Scope := List (Chars × Chars)

namespace Scope

def xmlSpace : Chars := "http://www.w3.org/XML/1998/namespace".toList

def bindingSpace : Chars := "http://www.w3.org/2000/xmlns/".toList

def initial : Scope := [("xml".toList, xmlSpace)]

def boundName? (a : RawAttribute) : Option Chars :=
  if a.name.space == "xmlns".toList then some a.name.base
  else if a.name.space.isEmpty && a.name.base == "xmlns".toList then some []
  else none

/-- Whether a name may be bound to a namespace. Reserved names and namespaces belong together, and
only names without a colon can be taken out of a namespace. -/
def mayBind (name space : Chars) : Bool :=
  !(space.isEmpty && !name.isEmpty) && name != "xmlns".toList && !space.contains '\x7d' &&
    (name == "xml".toList) == (space == xmlSpace) && space != bindingSpace

def extend (scope : Scope) : List RawAttribute → Option Scope
  | [] => some scope
  | a :: as =>
    match boundName? a with
    | none => extend scope as
    | some name => if mayBind name a.value then extend ((name, a.value) :: scope) as else none

/-- The namespace of a name, which is empty if it has none; nothing if it is not bound. -/
def space? (scope : Scope) (name : Chars) : Option Chars :=
  match scope.lookup name with
  | some space => some space
  | none => if name.isEmpty then some [] else none

/-- The full name of an attribute, which has a namespace only if it has a colon. -/
def attributeName? (scope : Scope) (n : Name) : Option String :=
  if n.space.isEmpty then some (String.ofList n.base)
  else (scope.space? n.space).map fun space => String.ofList ('\x7b' :: space ++ '\x7d' :: n.base)

def attributes? (scope : Scope) : List RawAttribute → Option (List (String × String))
  | [] => some []
  | a :: as => do
    let others ← attributes? scope as
    if (boundName? a).isSome then some others
    else some ((← scope.attributeName? a.name, String.ofList a.value) :: others)

end Scope
end Canonmark.Xml
