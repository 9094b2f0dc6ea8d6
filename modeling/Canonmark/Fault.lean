import Canonmark.Builder
import Canonmark.Editor.Tree
import Canonmark.Failure
import Canonmark.Markdown.Token
import Canonmark.Markdown.Writer
import Canonmark.Node.Schema
import Canonmark.Xml.Reader

/-! Everything that can go wrong in a conversion, by its cause. -/
namespace Canonmark

inductive Fault where
  | schema (fault : Schema.Fault)
  | jsonSyntax
  | rootNotDocument (typeName : String)
  | notCanonical (typeName : String)
  | wrongOptions (converter : String) (expected received : OptionClass)
  | options (fault : Options.Fault)
  | span (refusal : Span.Refusal)
  | write (fault : Markdown.WriteFault)
  | input (typeName : String)
  | output (typeName : String)
  | editorSyntax
  | editor (fault : Editor.Fault)
  | mapping (fault : Editor.MapFault)
  | builder (fault : Builder.Fault)
  | token (fault : Markdown.Token.Fault)
  | xml (refusal : Xml.Refusal)

/-- The family of a fault: a failure of this library, or a fault of a kind that all programs
know. -/
inductive FaultFamily where
  | failure (kind : FailureKind)
  | value
  | type
  | attributeAccess
  | overflow
  | xmlSyntax
  | xmlEntities
  deriving DecidableEq, Repr

/-- What is told about a fault. -/
structure Report where
  family : FaultFamily
  message : String := ""
  parameter : Option String := none
  stage : Option String := none
  valueCause : Bool := false
  syntaxCause : Bool := false

namespace Fault

private def invalid (message : String) (parameter : Option String) : Report :=
  { family := .failure .validation, message, parameter }

def report : Fault → Report
  | .schema f =>
    match f.reason with
    | .compositeClass => { family := .type, message := f.message }
    | _ =>
      { family := .failure .validation, message := f.message, parameter := f.parameter,
        valueCause := f.hasValueCause }
  | .jsonSyntax =>
    { family := .failure .validation, message := "Invalid JSON", syntaxCause := true }
  | .rootNotDocument t => invalid ("Root node must be a Document, got " ++ t) (some Schema.classKey)
  | .notCanonical t => invalid ("Not a canonical node: " ++ t) none
  | .wrongOptions converter expected received =>
    { family := .failure .invalidOptions,
      message := wrongOptionsMessage converter expected.name received.name,
      parameter := some "options" }
  | .options f =>
    match f with
    | .badBullet _ | .lowFence _ => { family := .value, message := f.message }
    | .unexpected _ | .fenceNotNumber => { family := .type, message := f.message }
  | .span r => { family := .value, message := r.message }
  | .write f =>
    match f with
    | .uncountableFence => { family := .type, message := f.message }
    | .endlessFence => { family := .overflow, message := f.message }
    | .longNumber => { family := .value, message := f.message }
    | .badStart _ =>
      { family := .failure .rendering, message := f.message, stage := f.stage?, valueCause := true }
    | _ => { family := .failure .rendering, message := f.message, stage := f.stage? }
  | .input t => { family := .type, message := "Unsupported input type: " ++ t }
  | .editorSyntax =>
    { family := .failure .validation
      message := "Editor value is not valid JSON"
      syntaxCause := true }
  | .editor f =>
    match f with
    | .unhandled _ =>
      { family := .failure .unhandledNode, message := f.message, stage := some "decode" }
    | _ => invalid f.message f.parameter
  | .mapping f =>
    match f with
    | .unmapped _ =>
      { family := .failure .unhandledNode, message := f.message, stage := some "map" }
    | .noChildren _ => { family := .failure .parsing, message := f.message, stage := some "map" }
    | .childrenNotList => { family := .attributeAccess, message := f.message }
  | .builder f =>
    match f with
    | .compositeClass | .textNotText => { family := .type, message := f.message }
    | .noTextRules | .classNotText | .contentNotText =>
      { family := .attributeAccess, message := f.message }
    | _ => { family := .failure .parsing, message := f.message, stage := f.stage }
  | .token f =>
    match f with
    | .unsupported _ =>
      { family := .failure .parsing, message := f.message, stage := some "tokenize" }
    | .misshapen .noMembers => { family := .attributeAccess, message := f.message }
    | .misshapen .wrongType => { family := .type, message := f.message }
    | .misshapen .longNumber => { family := .value, message := f.message }
  | .xml .malformed => { family := .xmlSyntax, message := "The XML is not well formed" }
  | .xml .entities => { family := .xmlEntities, message := "The XML declares entities" }
  | .output t => { family := .type, message := "Unsupported output type: " ++ t }

end Fault
end Canonmark
