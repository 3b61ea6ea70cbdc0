import ClassMachine.Cli.Command

/-!
# The program

Reads the folder from disk, hands it to the command, and prints what the
program prints while it runs.
-/

namespace ClassMachine.Cli

/-- The wording of a refusal by the file system, given the one for a file in place
of a directory or the other way round. -/
def refusal (mixedUp : String) : IO.Error → String
  | .noFileOrDirectory .. => noSuchFile
  | .inappropriateType .. => mixedUp
  | .invalidArgument .. => nameTooLong
  | e => toString e

/-- The folder at a path on disk. -/
def readFolder (dir : String) : IO (Except String Folder) := do
  if dir = "" then return .error noSuchFile
  try
    let entries ← ((← IO.currentDir) / dir).readDir
    let files ← entries.toList.mapM fun entry => do
      try
        return (entry.fileName, Except.ok (← IO.FS.readFile entry.path))
      catch e => return (entry.fileName, Except.error (refusal isADirectory e))
    return .ok ⟨files⟩
  catch e => return .error (refusal notADirectory e)

/-- Prints the report and gives its exit code. -/
def Report.print (r : Report) : IO UInt32 := do
  let out ← IO.getStdout
  out.putStr r.stdout
  out.flush
  (← IO.getStderr).putStr r.stderr
  return UInt32.ofNat r.exit

/-- Runs a program to its end, printing as it goes. -/
partial def runToEnd : Progress Console → IO UInt32
  | .running m f link => do
    if m.world.text ≠ "" then
      let out ← IO.getStdout
      out.putStr m.world.text
      out.flush
    runToEnd (Machine.step { m with world := {} } f link)
  | .finished m outcome => (finish m outcome).print

end ClassMachine.Cli

open ClassMachine in
/-- The command line. -/
def main (args : List String) : IO UInt32 := do
  let folder ←
    match args with
    | dir :: _ => Cli.readFolder dir
    | [] => pure (.ok ⟨[]⟩)
  let budget ← IO.getEnv Limits.budgetVariable
  let depth ← IO.getEnv Limits.depthVariable
  let hotLoop ← IO.getEnv Limits.hotLoopVariable
  let lookup name :=
    if name = Limits.budgetVariable then budget
    else if name = Limits.depthVariable then depth
    else if name = Limits.hotLoopVariable then hotLoop
    else none
  match Cli.plan args lookup folder with
  | .done report => report.print
  | .run progress => Cli.runToEnd progress
