import Canonmark.Json.Literal

/-! Options of readers and writers: which class has which, what they may be, and how they are
overridden. -/
namespace Canonmark

structure OptionField where
  name : String
  default : Json

inductive OptionClass where
  | bare | parser | renderer | markdownParser | editorParser | markdownRenderer
  deriving DecidableEq, Repr

namespace OptionClass

def all : List OptionClass :=
  [bare, parser, renderer, markdownParser, editorParser, markdownRenderer]

def name : OptionClass → String
  | bare => "CloneFrozenMixin"
  | parser => "BaseParserOptions"
  | renderer => "BaseRendererOptions"
  | markdownParser => "MarkdownParserOptions"
  | editorParser => "EditorParserOptions"
  | markdownRenderer => "MarkdownRendererOptions"

def ofName? (s : String) : Option OptionClass := all.find? fun c => c.name == s

def parent? : OptionClass → Option OptionClass
  | bare => none
  | parser | renderer => some bare
  | markdownParser | editorParser => some parser
  | markdownRenderer => some renderer

/-- Whether options of class `c` may stand for options of class `d`. -/
def refines (c d : OptionClass) : Bool :=
  c == d ||
    match c.parent? with
    | none => false
    | some p => p == d || p.parent? == some d

def fields : OptionClass → List OptionField
  | bare | renderer => []
  | parser | editorParser => [⟨"validate", .bool true⟩]
  | markdownParser =>
    [⟨"validate", .bool true⟩, ⟨"trim_text", .bool false⟩, ⟨"tag_info", .bool false⟩]
  | markdownRenderer =>
    [⟨"no_index", .bool false⟩, ⟨"escape_special", .bool true⟩, ⟨"bullet_symbol", .str "-"⟩,
      ⟨"code_fence_min", .int 3⟩]

def fieldNames (c : OptionClass) : List String := c.fields.map (·.name)

end OptionClass

structure Options where
  cls : OptionClass
  values : Members

namespace Options

inductive Fault where
  | unexpected (name : String)
  | badBullet (value : Json)
  | lowFence (value : Json)
  | fenceNotNumber
  deriving Repr

def Fault.message : Fault → String
  | .unexpected name => "Unexpected option " ++ Text.Quoted.quoted name
  | .badBullet v => "bullet_symbol must be one of '-', '*', '+', got " ++ v.shown
  | .lowFence v => "code_fence_min must be at least 3, got " ++ v.plain
  | .fenceNotNumber => "code_fence_min must be a number"

/-- Bullets are one of three signs, and fences at least three backticks long. -/
def check (o : Options) : Except Fault Options := do
  match o.values.get? "bullet_symbol" with
  | none => pure ()
  | some v =>
    if v.isText "-" || v.isText "*" || v.isText "+" then pure () else .error (.badBullet v)
  match o.values.get? "code_fence_min" with
  | none => pure ()
  | some (.int i) => if i < 3 then .error (.lowFence (.int i)) else pure ()
  | some (.bool b) => .error (.lowFence (.bool b))
  | some (.float x) => if x.lessThanInt 3 then .error (.lowFence (.float x)) else pure ()
  | some _ => .error .fenceNotNumber
  .ok o

def construct (c : OptionClass) (given : Members) : Except Fault Options :=
  match given.names.find? fun n => !c.fieldNames.contains n with
  | some n => .error (.unexpected n)
  | none => check ⟨c, c.fields.map fun f => (f.name, (given.get? f.name).getD f.default)⟩

def update (o : Options) (given : Members) : Except Fault Options :=
  match given.names.find? fun n => !o.cls.fieldNames.contains n with
  | some n => .error (.unexpected n)
  | none => check ⟨o.cls, o.values.map fun (n, v) => (n, (given.get? n).getD v)⟩

/-- Names that no override can have, since they name the class and the options that are merged. -/
def reservedNames : List String := ["options_class", "options"]

/-- Overrides the fields of class `c` and skips all other names. Options of another class are left
as they are. -/
def merge (c : OptionClass) (base : Option Options) (given : Members) : Except Fault Options :=
  match given.names.find? reservedNames.contains with
  | some n => .error (.unexpected n)
  | none =>
    let known := given.filter fun (n, _) => c.fieldNames.contains n
    match base with
    | none => construct c known
    | some o =>
      if !o.cls.refines c then .ok o
      else if known.isEmpty then .ok o
      else o.update known

def flag (o : Options) (name : String) : Bool := ((o.values.get? name).map Json.truthy).getD false

end Options

structure ReaderOptions where
  validate : Bool := true
  trimText : Bool := false
  tagInfo : Bool := false
  deriving DecidableEq, Repr

def Options.reader (o : Options) : ReaderOptions where
  validate := o.flag "validate"
  trimText := o.flag "trim_text"
  tagInfo := o.flag "tag_info"

/-- The least length of a fence. Backticks can be counted by a whole number only. -/
inductive FenceMin where
  | whole (n : Nat)
  | float (x : Binary64)
  deriving DecidableEq, Repr

/-- The length of a fence that needs `n` backticks, if it is a whole number. -/
def FenceMin.lengthFor? (n : Nat) : FenceMin → Option Nat
  | whole k => some (max k n)
  | float x => if x.lessThanInt n then some n else none

structure Style where
  noIndex : Bool := false
  escape : Bool := true
  bullet : Char := '-'
  fenceMin : FenceMin := .whole 3
  deriving DecidableEq, Repr

def Options.style (o : Options) : Style where
  noIndex := o.flag "no_index"
  escape := o.flag "escape_special"
  bullet := match o.values.get? "bullet_symbol" with
    | some (.str s) => s.toList.headD '-'
    | _ => '-'
  fenceMin := match o.values.get? "code_fence_min" with
    | some (.int i) => .whole i.toNat
    | some (.float x) => .float x
    | _ => .whole 3

end Canonmark
