import Canonmark.Json.Literal
import Canonmark.Text.LetterCase

/-! Records of what happens, and the handlers that write them. -/
namespace Canonmark.Diagnostics

/-- The levels that have a name; the first name of a level is the one that is written. -/
def namedLevels : List (String × Int) := [
  ("CRITICAL", 50), ("FATAL", 50), ("ERROR", 40), ("WARNING", 30), ("WARN", 30), ("INFO", 20),
  ("DEBUG", 10), ("NOTSET", 0)]

def info : Int := 20

def warning : Int := 30

def debug : Int := 10

/-- A level given by number or name. Names are read without case, and an unknown one means INFO. -/
def levelOf : Json → Int
  | .int i => i
  | .bool b => if b then 1 else 0
  | v => (namedLevels.lookup (String.ofList (Text.toUpper v.plain.toList))).getD info

def levelName (level : Int) : String :=
  match namedLevels.find? fun (_, l) => l == level with
  | some (name, _) => name
  | none => "Level " ++ String.ofList (Text.Numeral.ofInt level)

inductive HandlerKind where
  | stream
  | file
  deriving DecidableEq, Repr

structure Handler where
  kind : HandlerKind
  level : Int
  trace : Bool
  deriving DecidableEq, Repr

def Handler.format (h : Handler) : String :=
  if h.trace then "[%(asctime)s] [%(levelname)s] [%(name)s] %(message)s"
    else "%(levelname)s: %(message)s"

def Handler.dateFormat (h : Handler) : Option String :=
  if h.trace then some "%Y-%m-%d %H:%M:%S" else none

inductive LogFile where
  | none
  | writable (path : String)
  | missing (path : String)

structure Logger where
  level : Int
  handlers : List Handler
  deriving Repr

/-- A record is dropped below the level of the logger; level zero stands for WARNING. -/
def Logger.admits (l : Logger) (level : Int) : Bool :=
  (if l.level == 0 then warning else l.level) ≤ level

structure Written where
  stream : List String := []
  file : List String := []
  deriving Repr

/-- Writes a record, which may have several lines, to every handler whose level it reaches. -/
def Logger.log (l : Logger) (level : Int) (message : String) (w : Written) : Written :=
  if l.admits level then
    l.handlers.foldl (fun w h =>
      let lines := (Text.lines (levelName level ++ ": " ++ message).toList).map String.ofList
      if level < h.level then w
      else match h.kind with
        | .stream => { w with stream := w.stream ++ lines }
        | .file => { w with file := w.file ++ lines }) w
  else w

def configure (level : Int) (file : LogFile) (trace : Bool) (w : Written) : Logger × Written :=
  let plain : Logger := ⟨level, [⟨.stream, level, trace⟩]⟩
  match file with
  | .none => (plain, w)
  | .writable path =>
    let l : Logger := { plain with handlers := plain.handlers ++ [⟨.file, level, trace⟩] }
    (l, l.log debug ("Logging to file: " ++ path) w)
  | .missing path =>
    (plain, plain.log warning ("Could not create log file " ++ path ++
      ": [Errno 2] No such file or directory: " ++ Text.Quoted.quoted path) w)

end Canonmark.Diagnostics
