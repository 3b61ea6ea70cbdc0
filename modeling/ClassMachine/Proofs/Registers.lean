import ClassMachine.Proofs.Scan

/-!
# A scan with registers

What a scan has read may stand in registers that know nothing of one another: its state,
the name of the class, the open method and the methods that are complete. `Scan` has the
same in the types of its states, so that a scan without a class holds no methods and
code is read for an open method only.

* `Registers.feed`: one line. Where the line is refused, the registers keep what has been
  read. Where the open method is missing, a signature is waited for again.
* `Registers.Sound`: what the state says of the other registers.
* `Reads`: a scan and registers that have read the same.

After every line the registers are those of the scan (`Registers.reads_feedLines`). So
they are sound, the open method is never missing, and both give the same class
(`Registers.parse_eq`).
-/

namespace ClassMachine.Listing

open Text

/-! ## Registers -/

/-- What a scan waits for. -/
inductive ScanState where
  | header
  | signature
  | metadata
  | code
deriving DecidableEq

/-- What has been read of a listing. -/
structure Registers where
  state : ScanState := .header
  className? : Option String := none
  superName : String := rootClass
  /-- The method whose lines are being read. -/
  pending? : Option Pending := none
  methods : List MethodCode := []
deriving DecidableEq

namespace Registers

/-- The end of the open method, if there is one. -/
def finish (r : Registers) : Registers × Option FormatError :=
  match r.pending? with
  | none => ({ r with state := .signature }, none)
  | some m =>
    let r := { r with state := .signature, pending? := none }
    match m.close with
    | .ok closed => ({ r with methods := r.methods ++ closed.toList }, none)
    | .error e => (r, some e)

/-- The name of the method that a line declares. -/
def methodName? (r : Registers) (line : List Char) : Option String :=
  if isClassInitializer line then some "<clinit>"
  else
    (signature? line).map fun name =>
      let name := canonicalName (String.ofList name)
      if r.className? = some name then "<init>" else name

def headerLine (r : Registers) (line : List Char) : Registers :=
  match header? r.superName line with
  | some header =>
    { r with state := .signature, className? := some header.name, superName := header.superName }
  | none => r

def signatureLine (r : Registers) (number : Nat) (line : List Char) : Registers :=
  match r.methodName? line with
  | some name => { r with state := .metadata, pending? := some { name, line := number } }
  | none => r

def metadataLine (r : Registers) (number : Nat) (line : List Char) :
    Registers × Option FormatError :=
  if line.isEmpty then r.finish
  else
    match r.pending? with
    | none => ({ r with state := .signature }, none)
    | some m =>
      match dropFront? "descriptor:".toList line with
      | some text =>
        let descriptor := some (String.ofList (trim text))
        ({ r with pending? := some { m with descriptor } }, none)
      | none =>
        match dropFront? "flags:".toList line with
        | some text => ({ r with pending? := some { m with flags := readFlags text } }, none)
        | none =>
          if "Code:".toList.isPrefixOf line then ({ r with state := .code }, none)
          else if (r.methodName? line).isSome then
            match r.finish with
            | (r, none) => (r.signatureLine number line, none)
            | failed => failed
          else (r, none)

def codeLine (r : Registers) (number : Nat) (line : List Char) :
    Registers × Option FormatError :=
  if endsCode line then r.finish
  else
    match r.pending? with
    | none => ({ r with state := .signature }, none)
    | some m =>
      if "stack=".toList.isPrefixOf line then
        match readMetrics number line with
        | .ok size => ({ r with pending? := some { m with size } }, none)
        | .error e => (r, some e)
      else
        match instructionLine? line with
        | none => (r, none)
        | some parts =>
          match m.addInstruction number line parts with
          | .ok m => ({ r with pending? := some m }, none)
          | .error e => (r, some e)

/-- Reads one line, without blanks around it. -/
def feed (r : Registers) (number : Nat) (line : List Char) : Registers × Option FormatError :=
  match r.state with
  | .header => (r.headerLine line, none)
  | .signature => (r.signatureLine number line, none)
  | .metadata => r.metadataLine number line
  | .code => r.codeLine number line

/-- Reads lines, of which the first has the given number, up to one that is refused. -/
def feedLines : Registers → (number : Nat) → List (List Char) → Registers × Option FormatError
  | r, _, [] => (r, none)
  | r, number, line :: lines =>
    match r.feed number (trim line) with
    | (r, none) => r.feedLines (number + 1) lines
    | refused => refused

/-- Reads the listing of one class. -/
def parse (text : String) : Except FormatError ClassCode :=
  match feedLines {} 1 (lines text.toList) with
  | (_, some e) => .error e
  | (r, none) =>
    match r.finish with
    | (_, some e) => .error e
    | (r, none) =>
      match r.className? with
      | none => .error .missingClassHeader
      | some name => .ok ⟨name, r.superName, r.methods⟩

/-- What the state says of the other registers. -/
structure Sound (r : Registers) : Prop where
  header : r.state = .header → r.className? = none ∧ r.methods = []
  signature : r.state = .signature → r.pending? = none
  metadata : r.state = .metadata → r.pending?.isSome
  code : r.state = .code → r.pending?.isSome

end Registers

/-! ## The registers of a scan -/

def Stage.state : Stage → ScanState
  | .signature => .signature
  | .metadata _ => .metadata
  | .code _ => .code

def Scan.registers : Scan → Registers
  | .start => {}
  | .inside header methods stage =>
    { state := stage.state
      className? := some header.name
      superName := header.superName
      pending? := stage.pending?
      methods }

/-- A scan and registers that have read the same: both go on, or both refuse the line. -/
inductive Reads : Except FormatError Scan → Registers × Option FormatError → Prop
  | goesOn (scan : Scan) : Reads (.ok scan) (scan.registers, none)
  | stops {r : Registers} (e : FormatError) : r.Sound → Reads (.error e) (r, some e)

variable {header : Header} {methods : List MethodCode} {stage : Stage} {m : Pending} {scan : Scan}
  {number : Nat} {line : List Char} {scanned : Except FormatError Scan}
  {read : Registers × Option FormatError}

theorem Scan.sound_registers (scan : Scan) : scan.registers.Sound := by
  cases scan with
  | start => exact ⟨fun _ => ⟨rfl, rfl⟩, nofun, nofun, nofun⟩
  | inside header methods stage =>
      cases stage with
      | signature => exact ⟨nofun, fun _ => rfl, nofun, nofun⟩
      | metadata m => exact ⟨nofun, nofun, fun _ => rfl, nofun⟩
      | code m => exact ⟨nofun, nofun, nofun, fun _ => rfl⟩

theorem Reads.sound (reads : Reads scanned read) : read.1.Sound := by
  cases reads with
  | goesOn scan => exact scan.sound_registers
  | stops e sound => exact sound

theorem Reads.cases (reads : Reads scanned read) :
    (∃ scan, scanned = .ok scan ∧ read = (scan.registers, none)) ∨
      ∃ e r, scanned = .error e ∧ read = (r, some e) ∧ r.Sound := by
  cases reads with
  | goesOn scan => exact Or.inl ⟨scan, rfl, rfl⟩
  | stops e sound => exact Or.inr ⟨e, _, rfl, rfl, sound⟩

namespace Registers

/-- The open method ends alike. -/
theorem finish_cases (header : Header) (methods : List MethodCode) (stage : Stage) :
    (∃ methods', stage.close methods = .ok methods' ∧
      (Scan.inside header methods stage).registers.finish =
        ((Scan.inside header methods' .signature).registers, none)) ∨
    ∃ e r, stage.close methods = .error e ∧
      (Scan.inside header methods stage).registers.finish = (r, some e) ∧ r.Sound := by
  cases stage with
  | signature => exact Or.inl ⟨methods, rfl, rfl⟩
  | metadata m | code m =>
      simp only [Stage.close, finish, Scan.registers, Stage.pending?]
      cases m.close with
      | ok closed => exact Or.inl ⟨methods ++ closed.toList, rfl, rfl⟩
      | error e =>
          exact Or.inr ⟨e, _, rfl, rfl, (Scan.inside header methods .signature).sound_registers⟩

theorem reads_finish (header : Header) (methods : List MethodCode) (stage : Stage) :
    Reads (do return .inside header (← stage.close methods) .signature)
      (Scan.inside header methods stage).registers.finish := by
  rcases finish_cases header methods stage with ⟨methods', closed, finished⟩ |
    ⟨e, r, failed, finished, sound⟩
  · rw [closed, finished]
    exact .goesOn (.inside header methods' .signature)
  · rw [failed, finished]
    exact .stops e sound

theorem methodName?_registers (header : Header) (methods : List MethodCode) (stage : Stage)
    (line : List Char) :
    (Scan.inside header methods stage).registers.methodName? line =
      Listing.methodName? header.name line := by
  simp only [methodName?, Listing.methodName?, Scan.registers, Option.some.injEq, eq_comm]

/-- A line where a signature is waited for. -/
theorem signatureLine_registers (header : Header) (methods : List MethodCode) (number : Nat)
    (line : List Char) :
    (Scan.inside header methods .signature).registers.signatureLine number line =
      (Scan.inside header methods (Listing.signatureLine header number line)).registers := by
  rw [signatureLine, methodName?_registers, Listing.signatureLine]
  cases Listing.methodName? header.name line <;> rfl

theorem reads_metadataLine (header : Header) (methods : List MethodCode) (m : Pending)
    (number : Nat) (line : List Char) :
    Reads (Listing.metadataLine header methods m number line)
      ((Scan.inside header methods (.metadata m)).registers.metadataLine number line) := by
  have pending : (Scan.inside header methods (.metadata m)).registers.pending? = some m := rfl
  have declares := methodName?_registers header methods (.metadata m) line
  unfold Listing.metadataLine metadataLine
  by_cases blank : line.isEmpty
  · rw [if_pos blank, if_pos blank]
    exact reads_finish header methods (.metadata m)
  rw [if_neg blank, if_neg blank, pending]
  cases dropFront? "descriptor:".toList line with
  | some text => exact .goesOn (.inside header methods (.metadata _))
  | none =>
      cases dropFront? "flags:".toList line with
      | some text => exact .goesOn (.inside header methods (.metadata _))
      | none =>
          dsimp only
          by_cases code : "Code:".toList.isPrefixOf line
          · rw [if_pos code, if_pos code]
            exact .goesOn (.inside header methods (.code m))
          rw [if_neg code, if_neg code]
          by_cases signature : (Listing.methodName? header.name line).isSome
          · rw [if_pos signature, if_pos (declares ▸ signature)]
            -- The open method ends as on a blank line, and then the signature is read.
            rcases finish_cases header methods (.metadata m) with ⟨methods', closed, finished⟩ |
              ⟨e, r, failed, finished, sound⟩
            · rw [closed, finished]
              dsimp only
              rw [signatureLine_registers]
              exact .goesOn (.inside header methods' _)
            · rw [failed, finished]
              exact .stops e sound
          · rw [if_neg signature, if_neg (declares ▸ signature)]
            exact .goesOn (.inside header methods (.metadata m))

theorem reads_codeLine (header : Header) (methods : List MethodCode) (m : Pending)
    (number : Nat) (line : List Char) :
    Reads (Listing.codeLine header methods m number line)
      ((Scan.inside header methods (.code m)).registers.codeLine number line) := by
  have pending : (Scan.inside header methods (.code m)).registers.pending? = some m := rfl
  have sound := (Scan.inside header methods (.code m)).sound_registers
  unfold Listing.codeLine codeLine
  by_cases ends : endsCode line
  · rw [if_pos ends, if_pos ends]
    exact reads_finish header methods (.code m)
  rw [if_neg ends, if_neg ends, pending]
  dsimp only
  by_cases metrics : "stack=".toList.isPrefixOf line
  · rw [if_pos metrics, if_pos metrics]
    cases readMetrics number line with
    | ok size => exact .goesOn (.inside header methods (.code { m with size }))
    | error e => exact .stops e sound
  rw [if_neg metrics, if_neg metrics]
  cases instructionLine? line with
  | none => exact .goesOn (.inside header methods (.code m))
  | some parts =>
      dsimp only
      cases m.addInstruction number line parts with
      | ok m' => exact .goesOn (.inside header methods (.code m'))
      | error e => exact .stops e sound

/-- **A line is read alike.** -/
theorem reads_feed (scan : Scan) (number : Nat) (line : List Char) :
    Reads (scan.feed number line) (scan.registers.feed number line) := by
  cases scan with
  | start =>
      have fed : (Scan.start.registers).feed number line =
          (Registers.headerLine {} line, none) := rfl
      rw [fed, headerLine, Scan.feed]
      cases header? rootClass line with
      | some header => exact .goesOn (.inside header [] .signature)
      | none => exact .goesOn .start
  | inside header methods stage =>
      cases stage with
      | signature =>
          have fed : (Scan.inside header methods .signature).registers.feed number line =
            ((Scan.inside header methods .signature).registers.signatureLine number line, none) :=
            rfl
          rw [fed, signatureLine_registers]
          exact .goesOn _
      | metadata m => exact reads_metadataLine header methods m number line
      | code m => exact reads_codeLine header methods m number line

/-- Lines are read alike. -/
theorem reads_feedLines (scan : Scan) (number : Nat) (lines : List (List Char)) :
    Reads (scan.feedLines number lines) (scan.registers.feedLines number lines) := by
  induction lines generalizing scan number with
  | nil => exact .goesOn scan
  | cons line lines ih =>
      rw [Scan.feedLines, feedLines]
      rcases (reads_feed scan number (trim line)).cases with ⟨scan', fed, read⟩ |
        ⟨e, r, fed, read, sound⟩
      · rw [fed, read]
        exact ih scan' (number + 1)
      · rw [fed, read]
        exact .stops e sound

/-- Both give the same class. -/
theorem parse_eq (text : String) : parse text = Listing.parse text := by
  unfold parse Listing.parse
  rcases (reads_feedLines .start 1 (lines text.toList)).cases with ⟨scan, fed, read⟩ |
    ⟨e, r, fed, read, _⟩
  · have read' : feedLines {} 1 (lines text.toList) = (scan.registers, none) := read
    rw [fed, read']
    cases scan with
    | start => rfl
    | inside header methods stage =>
        dsimp only [bind, Except.bind]
        rcases finish_cases header methods stage with ⟨methods', closed, finished⟩ |
          ⟨e, r, failed, finished, _⟩
        · rw [finished, Scan.finish, closed]
          rfl
        · rw [finished, Scan.finish, failed]
          rfl
  · have read' : feedLines {} 1 (lines text.toList) = (r, some e) := read
    rw [fed, read']
    rfl

end Registers

end ClassMachine.Listing
