import ClassMachine.Machine.Step

/-!
# The console

The stream that programs print to. Its object sits in the static field
`java/lang/System.out`, and its methods are bridges that add to the text of the
console.
-/

namespace ClassMachine.Cli

/-- The text that has been printed and not been handed on yet. -/
structure Console where
  text : String := ""

/-- The class of the stream. -/
def streamClass : String :=
  "java/io/PrintStream"

/-- The descriptors of the methods that print one argument. -/
def printDescriptors : List String :=
  ["(Ljava/lang/String;)V", "(Ljava/lang/Object;)V", "(I)V", "(Z)V", "(C)V"]

/-- The character of a code point, or the number itself. -/
def characterText (value : Int32) : String :=
  let n := value.toUInt32.toNat
  if n.isValidChar then String.singleton (Char.ofNat n) else toString value.toInt

/-- The text of an argument; words stand for truth values and characters where
the descriptor says so. -/
def argumentText (descriptor : String) (heap : Heap) : Value → String
  | .int value =>
    if descriptor = "(Z)V" then (if value = 0 then "false" else "true")
    else if descriptor = "(C)V" then characterText value
    else heap.render (.int value)
  | value => heap.render value

/-- A bridge that prints its first argument and an ending. -/
def printBridge (descriptor ending : String) : Bridge Console :=
  fun console heap _ args =>
    let text := argumentText descriptor heap (args.head?.getD .null)
    ⟨⟨console.text ++ text ++ ending⟩, heap, .ok .null⟩

/-- A bridge that ends the line. -/
def endLineBridge : Bridge Console :=
  fun console heap _ _ => ⟨⟨console.text ++ "\n"⟩, heap, .ok .null⟩

/-- The machine with the two bridges of a descriptor. -/
def addPrinters (m : Machine Console) (descriptor : String) : Machine Console :=
  (m.setBridge streamClass "println" descriptor (printBridge descriptor "\n")).setBridge
    streamClass "print" descriptor (printBridge descriptor "")

/-- The machine with a console. -/
def withConsole (m : Machine Console) : Machine Console :=
  let (index, heap) := m.heap.alloc (.object streamClass .empty)
  let m := { m with heap }.setStatic "java/lang/System" "out" (.ref index)
  let m := printDescriptors.foldl addPrinters m
  m.setBridge streamClass "println" "()V" endLineBridge

end ClassMachine.Cli
