import ClassMachine.Cli.Console
import ClassMachine.Cli.Folder
import ClassMachine.Manifest

/-!
# The command

The command reads a directory of listings. Without a target it prints their
manifest; with one it runs a static method on the given integers and prints
its result. All of this is a function of the arguments, the environment and
the folder; only the run itself is left to the caller, since it may not end.
-/

namespace ClassMachine.Cli

def usage : String :=
  "usage: pourover <dir> [Class.method:descriptor [int args...]]"

/-- What the command leaves behind. -/
structure Report where
  exit : Nat
  stdout : String
  stderr : String
deriving DecidableEq, Repr

/-! ## Failures -/

/-- An error with the errors behind it, outermost first. -/
structure Failure where
  message : String
  causes : List String := []
deriving DecidableEq, Repr

namespace Failure

/-- Text whose lines after the first are indented. -/
def indented (indent text : String) : String :=
  String.intercalate ("\n" ++ indent) ((text.toList.splitOn '\n').map String.ofList)

/-- Causes with their numbers. -/
def numbered : (number : Nat) → List String → String
  | _, [] => ""
  | number, cause :: causes =>
    let digits := toString number
    let margin := String.ofList (List.replicate (5 - digits.length) ' ')
    "\n" ++ margin ++ digits ++ ": " ++ indented "       " cause ++ numbered (number + 1) causes

/-- The text of a failure. A single cause has no number. -/
def text (f : Failure) : String :=
  let causes :=
    match f.causes with
    | [] => ""
    | [cause] => "\n\nCaused by:\n    " ++ indented "    " cause
    | causes => "\n\nCaused by:" ++ numbered 0 causes
  "Error: " ++ f.message ++ causes ++ "\n"

/-- The report of a failure, behind what was printed before. -/
def report (f : Failure) (printed : String := "") : Report :=
  ⟨1, printed, f.text⟩

end Failure

/-! ## Arguments -/

/-- A static method: its class, its name and its descriptor. -/
structure Target where
  className : String
  method : String
  descriptor : String
deriving DecidableEq, Repr

/-- Divides `Class.method:descriptor` at its first colon and at the last dot
before that. -/
def Target.parse (text : String) : Except Failure Target :=
  match Text.cutFirst? ':' text.toList with
  | none => .error { message := s!"target `{text}` has no descriptor\n{usage}" }
  | some (qualified, descriptor) =>
    match Text.cutLast? '.' qualified with
    | none => .error { message := s!"target `{text}` has no class\n{usage}" }
    | some (className, method) =>
      .ok ⟨String.ofList className, String.ofList method, String.ofList descriptor⟩

/-- The integer of an argument. -/
def readArgument (text : String) : Except Failure Value :=
  match Text.Range.int32.read text.toList with
  | .ok n => .ok (.int (Int32.ofInt n))
  | .error cause => .error ⟨s!"argument `{text}` is not an int", [cause.message]⟩

/-! ## The command itself -/

/-- The classes in a directory. -/
def readClasses (dir : String) (folder : Except String Folder) :
    Except Failure (List ClassCode) :=
  let classes : Except SourceError (List ClassCode) :=
    match folder with
    | .ok folder => folder.read dir
    | .error reason => .error (.unlisted reason)
  classes.mapError fun e => ⟨s!"failed to translate listings in {dir}", e.message :: e.causes⟩

/-- The start of a run of a target. -/
def startTarget (classes : List ClassCode) (target : String) (args : List String)
    (lookup : String → Option String) : Except Failure (Progress Console) := do
  let target ← Target.parse target
  let args ← args.mapM readArgument
  let limits ← (Limits.ofVariables lookup).mapError fun e => { message := e.message }
  let table ← (ClassTable.load classes).mapError fun e => ⟨e.message, e.causes⟩
  let machine := withConsole (.create table limits {})
  return machine.start target.className target.method target.descriptor args

/-- What the command does: it is done, or it has a program to run. -/
inductive Plan where
  | done (report : Report)
  | run (progress : Progress Console)

/-- The plan of a failure or of a program. -/
def Plan.ofExcept : Except Failure (Progress Console) → Plan
  | .ok progress => .run progress
  | .error failure => .done failure.report

/-- The plan for a list of arguments, of which the first names the folder. -/
def plan (args : List String) (lookup : String → Option String)
    (folder : Except String Folder) : Plan :=
  match args with
  | [] => .done (Failure.report { message := usage })
  | dir :: rest =>
    match readClasses dir folder, rest with
    | .error failure, _ => .done failure.report
    | .ok classes, [] => .done ⟨0, Manifest.write classes ++ "\n", ""⟩
    | .ok classes, target :: args => .ofExcept (startTarget classes target args lookup)

/-- The report of a program that has ended. -/
def finish (m : Machine Console) : Except RuntimeError (Option Value) → Report
  | .ok (some value) => ⟨0, m.world.text ++ m.heap.render value ++ "\n", ""⟩
  | .ok none => ⟨0, m.world.text, ""⟩
  | .error e => Failure.report { message := e.text } m.world.text

end ClassMachine.Cli
