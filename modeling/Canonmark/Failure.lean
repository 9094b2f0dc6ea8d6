import Canonmark.Json.Literal
import Canonmark.Options

/-! The kinds of failure, and the record that a failure carries. -/
namespace Canonmark

inductive FailureKind where
  | general | validation | invalidOptions | parsing | unhandledNode | rendering
  deriving DecidableEq, Repr

namespace FailureKind

def all : List FailureKind :=
  [general, validation, invalidOptions, parsing, unhandledNode, rendering]

/-- A kind and all that it is a case of, the most general one last. -/
def ancestry : FailureKind → List FailureKind
  | general => [general]
  | validation => [validation, general]
  | parsing => [parsing, general]
  | rendering => [rendering, general]
  | invalidOptions => [invalidOptions, validation, general]
  | unhandledNode => [unhandledNode, parsing, general]

end FailureKind

def wrongOptionsMessage (converter expected received : String) : String :=
  converter ++ " expected options of type '" ++ expected ++ "' but received '" ++ received ++ "'."

def unhandledNodeMessage (node : Json) : String := "Unhandled node: " ++ node.shown

structure Failure where
  kind : FailureKind
  message : Json
  details : Members

namespace Failure

/-- Names of the arguments that a kind of failure must and may be given. -/
def arguments : FailureKind → List String × List String
  | .general => (["message"], ["original_error"])
  | .validation => (["message"], ["parameter_name", "parameter_value", "original_error"])
  | .invalidOptions =>
    (["converter_name", "expected_type", "received_type"], ["message", "original_error"])
  | .parsing => (["message"], ["parsing_stage", "original_error"])
  | .unhandledNode => (["node"], ["message", "parsing_stage"])
  | .rendering => (["message"], ["rendering_stage", "original_error"])

/-- The failure with the given arguments, if they are those of its kind. Wrong options and unhandled
nodes have a message of their own unless one is given. -/
def make? (kind : FailureKind) (given : Members) : Option Failure :=
  let (needed, further) := arguments kind
  if needed.all given.has && given.names.all (needed ++ further).contains then
    let value (name : String) : Json := (given.get? name).getD .null
    let message : Json := match kind with
      | .invalidOptions =>
        match given.given? "message" with
        | some m => m
        | none => .str (wrongOptionsMessage (value "converter_name").plain
            (value "expected_type").plain (value "received_type").plain)
      | .unhandledNode =>
        match given.given? "message" with
        | some m => m
        | none => .str (unhandledNodeMessage (value "node"))
      | _ => value "message"
    let details : Members := match kind with
      | .general => []
      | .validation =>
        [("parameter_name", value "parameter_name"), ("parameter_value", value "parameter_value")]
      | .invalidOptions =>
        [("converter_name", value "converter_name"), ("expected_type", value "expected_type"),
          ("received_type", value "received_type"), ("parameter_name", .str "options"),
          ("parameter_value", value "received_type")]
      | .parsing => [("parsing_stage", value "parsing_stage")]
      | .unhandledNode => [("node", value "node"), ("parsing_stage", value "parsing_stage")]
      | .rendering => [("rendering_stage", value "rendering_stage")]
    some
      ⟨kind, message, ("message", message) :: ("original_error", value "original_error") :: details⟩
  else none

def text (f : Failure) : String := f.message.plain

end Failure
end Canonmark
