import Canonmark.Xml.Markup

/-! Document types. Of their declarations only those of attributes have an effect, and those of
entities are refused. -/
namespace Canonmark.Xml

inductive Refusal where
  | malformed
  | entities
  deriving DecidableEq, Repr

/-- A declared attribute of the elements of a name. The value of a list of words is trimmed. -/
structure AttributeDeclaration where
  element : Chars
  name : Name
  words : Bool
  missing : Option Chars
  deriving DecidableEq, Repr

/-- What a document type tells: whether it leaves declarations to other files, whether the document
has said that these do not matter, and the attributes that it declares. -/
structure Doctype where
  elsewhere : Bool := false
  standalone : Bool := false
  attributes : List AttributeDeclaration := []
  deriving Repr

namespace Doctype

/-- Whether unknown entities may be declared elsewhere. -/
def isLenient (d : Doctype) : Bool := d.elsewhere && !d.standalone

/-- Whether declarations still count. They do not once something has been left out before them. -/
def counts (d : Doctype) (skipped : Bool) : Bool := !skipped || d.standalone

abbrev Read := StateT Chars (Except Refusal)

def take {α : Type} (f : Chars → Option (α × Chars)) : Read α := fun s =>
  match f s with
  | some r => .ok r
  | none => .error .malformed

def after? {α : Type} (signs : String) (read : Read α) : Read (Option α) := fun s =>
  match Text.dropStart? signs.toList s with
  | some rest => (read rest).map fun (a, rest) => (some a, rest)
  | none => .ok (none, s)

def signs (text : String) : Read Unit :=
  take fun s => (Text.dropStart? text.toList s).map fun rest => ((), rest)

def white : Read Unit := modify skipWhite

def gap : Read Unit :=
  take fun s => if (s.head?.map isWhite).getD false then some ((), skipWhite s) else none

def name : Read Name := take Name.read?

def word : Read Chars := take fun s =>
  let run := s.takeWhile fun c => isNameSign c || c == ':'
  if run.isEmpty then none else some (run, s.drop run.length)

def quoted : Read Chars := take fun s =>
  match s with
  | '"' :: s => splitAt? ['"'] s
  | '\'' :: s => splitAt? ['\''] s
  | _ => none

private def isPublicSign (c : Char) : Bool :=
  c.isAlphanum || " \n-'()+,./:=?;!*#@$_%".toList.contains c

def publicId : Read Unit := do
  if !(← quoted).all isPublicSign then throw .malformed

/-- A reference to another file, if there is one. A notation may have only a public name. -/
def externalId? (isNotation : Bool) : Read Bool := do
  if (← after? "SYSTEM" (do gap; discard quoted)).isSome then return true
  let public? ← after? "PUBLIC" do
    gap
    publicId
    let s ← get
    if isNotation && (skipWhite s).head? == some '>' then return
    gap
    discard quoted
  return public?.isSome

/-- Runs a reader until it says that it is done, at most as often as the text has characters. -/
def repeatRead {α : Type} (read : α → Read (α × Bool)) : (fuel : Nat) → α → Read α
  | 0, _ => throw .malformed
  | fuel + 1, a => do
    let (a, done) ← read a
    if done then return a else repeatRead read fuel a

def choice : Read Unit := do
  let fuel := (← get).length
  discard <| repeatRead (fun _ => do
    white
    discard word
    white
    if (← after? "|" (pure ())).isSome then return ((), false)
    signs ")"
    return ((), true)) fuel ()

/-- The type of an attribute; and whether its value is a list of words. -/
def attributeType : Read Bool := do
  if (← after? "(" choice).isSome then return true
  match String.ofList (← word) with
  | "CDATA" => return false
  | "ID" | "IDREF" | "IDREFS" | "ENTITY" | "ENTITIES" | "NMTOKEN" | "NMTOKENS" => return true
  | "NOTATION" =>
    gap
    signs "("
    choice
    return true
  | _ => throw .malformed

def joinWords (s : Chars) : Chars :=
  List.intercalate [' '] ((Text.splitWhere (· == ' ') s).filter (!·.isEmpty))

/-- The value of an attribute that is missing, if it is declared. -/
def missingValue (lenient : Bool) : Read (Option Chars) := do
  let keyword? ← after? "#" word
  match keyword?.map String.ofList with
  | some "REQUIRED" | some "IMPLIED" => return none
  | some "FIXED" =>
    gap
    return some (← take (quotedValue? lenient))
  | some _ => throw .malformed
  | none => return some (← take (quotedValue? lenient))

def attributeList (lenient : Bool) : Read (List AttributeDeclaration) := do
  gap
  let element := (← name).written
  let fuel := (← get).length + 1
  repeatRead (fun declared => do
    let spaced := skipWhite (← get)
    match spaced with
    | '>' :: rest =>
      set rest
      return (declared, true)
    | _ =>
      gap
      let name ← name
      gap
      let words ← attributeType
      gap
      let value ← missingValue lenient
      let missing := value.map fun v => if words then joinWords v else v
      return (declared ++ [⟨element, name, words, missing⟩], false)) fuel []

/-- The content model of an element is not looked into. -/
def elementDeclaration : Read Unit := do
  gap
  discard name
  gap
  take fun s =>
    let body := s.takeWhile fun c => isNameSign c || isWhite c || ":()|,?*+#".toList.contains c
    match s.drop body.length with
    | '>' :: rest => if body.isEmpty then none else some ((), rest)
    | _ => none

def notationDeclaration : Read Unit := do
  gap
  discard name
  gap
  if !(← externalId? true) then throw .malformed
  white
  signs ">"

/-- References in the value of an entity are well formed, and it holds no percent sign. -/
def isEntityValue : Chars → Bool
  | [] => true
  | c :: cs => c != '%' && (c != '&' || (reference? true cs).isSome) && isEntityValue cs

/-- The declaration of an entity. It is refused where it counts, whatever its value; the entities
that are always there may be declared again. -/
def entityDeclaration (counts : Bool) : Read Unit := do
  gap
  let parameter ← after? "%" gap
  let name := (← name).written
  gap
  let refused := counts && (parameter.isSome || (entity? name).isNone)
  if ← externalId? false then
    let s ← get
    if (skipWhite s).head? == some 'N' && parameter.isNone then
      gap
      signs "NDATA"
      gap
      discard word
  else
    let value ← quoted
    if refused then throw .entities
    if counts && !isEntityValue value then throw .malformed
  white
  signs ">"
  if refused then throw .entities

def declaration (state : Doctype × Bool) : Read ((Doctype × Bool) × Bool) := do
  let (d, skipped) := state
  white
  if (← after? "]" (pure ())).isSome then return (state, true)
  if (← after? "%" (do discard name; signs ";")).isSome then
    return (({ d with elsewhere := true }, true), false)
  if (← after? "<!ELEMENT" elementDeclaration).isSome then return (state, false)
  if let some declared ← after? "<!ATTLIST" (attributeList d.isLenient) then
    return ((if d.counts skipped then { d with attributes := d.attributes ++ declared }
      else d, skipped), false)
  if (← after? "<!ENTITY" (entityDeclaration (d.counts skipped))).isSome then return (state, false)
  if (← after? "<!NOTATION" notationDeclaration).isSome then return (state, false)
  signs "<"
  take fun s => (afterRemark? s).map fun rest => ((state, false), rest)

def doctype (standalone : Bool) : Read Doctype := do
  gap
  discard name
  let elsewhere ← do
    let s ← get
    if (skipWhite s).head? == some 'S' || (skipWhite s).head? == some 'P' then
      gap
      if !(← externalId? false) then throw .malformed
      pure true
    else pure false
  white
  let d : Doctype := { elsewhere, standalone }
  let fuel := (← get).length + 1
  let subset ← after? "[" (repeatRead declaration fuel (d, false))
  white
  signs ">"
  return (subset.map Prod.fst).getD d

private def pseudo (key : String) : Read Chars := do
  signs key
  white
  signs "="
  white
  quoted

private def isPlainSign (c : Char) : Bool := c.isAlphanum || c == '.' || c == '-' || c == '_'

/-- The declaration at the start of a document, after its `<?xml`: whether the document says that it
stands alone. -/
def xmlDeclaration : Read Bool := do
  gap
  if !(← pseudo "version").all isPlainSign then throw .malformed
  let mut standalone := false
  let mut s := skipWhite (← get)
  if s.head? == some 'e' then
    gap
    let encoding ← pseudo "encoding"
    if !encoding.all isPlainSign || !(encoding.head?.map Char.isAlpha).getD false
      then throw .malformed
    s := skipWhite (← get)
  if s.head? == some 's' then
    gap
    match String.ofList (← pseudo "standalone") with
    | "yes" => standalone := true
    | "no" => pure ()
    | _ => throw .malformed
  white
  signs "?>"
  return standalone

def prolog : Read Doctype := do
  let s ← get
  let standalone ← match Text.dropStart? "<?xml".toList s with
    | some (c :: _) => if isWhite c then after? "<?xml" xmlDeclaration else pure none
    | _ => pure none
  let standalone := standalone.getD false
  modify fun s => skipRemarks s.length s
  let d ← after? "<!DOCTYPE" (doctype standalone)
  modify fun s => skipRemarks s.length s
  return d.getD {}

/-- The attributes of an element: those that are written, and those that are declared for it. -/
def complete (d : Doctype) (element : Name) (as : List RawAttribute) : List RawAttribute :=
  let declared := d.attributes.filter fun a => a.element == element.written
  let written := as.map fun a =>
    match declared.find? fun b => b.name == a.name with
    | some b => if b.words then { a with value := joinWords a.value } else a
    | none => a
  declared.foldl (fun as b =>
    match b.missing with
    | some value => if as.any fun a => a.name == b.name then as else as ++ [⟨b.name, value⟩]
    | none => as) written

end Doctype
end Canonmark.Xml
