import ClassMachine.Proofs.Bodies
import ClassMachine.Proofs.Text

/-!
# Methods are read independently

A blank line resets the scan: whatever was open is closed, and only the header and the
complete methods are left. So a listing may be cut behind a blank line. Its second part
is then read as if it stood right behind the header (`parse_append`).

* `Scan.under`: the scan with other methods in front of its own and its lines moved down.
  Reading more lines does not depend on either (`Scan.feedLines_under`).
* `FormatError.moved`: the error with its line moved down.
-/

namespace ClassMachine

/-- The error of a line that stands so many lines further down. -/
def FormatError.moved (shift : Nat) : FormatError → FormatError
  | .badMetric line field value => .badMetric (line + shift) field value
  | .nonMonotonicOffset line offset previous => .nonMonotonicOffset (line + shift) offset previous
  | .badInstruction line text => .badInstruction (line + shift) text
  | .missingDescriptor line method => .missingDescriptor (line + shift) method
  | e => e

/-- The class with other methods in front of its own. -/
def ClassCode.under (earlier : List MethodCode) (c : ClassCode) : ClassCode :=
  { c with methods := earlier ++ c.methods }

namespace Listing

open Text

variable {header : Header} {methods earlier : List MethodCode} {stage : Stage} {m : Pending}
  {scan scan' : Scan} {number shift : Nat} {line : List Char} {cs : List Char}

/-! ## Lines of two texts -/

theorem lines_ne_nil {c : Char} : lines (c :: cs) ≠ [] := by
  change consLine c (lines cs) ≠ []
  unfold consLine
  split
  · exact List.cons_ne_nil _ _
  · split <;> exact List.cons_ne_nil _ _

theorem consLine_append {c : Char} {front : List (List Char)} (occupied : front ≠ [])
    (rest : List (List Char)) : consLine c (front ++ rest) = consLine c front ++ rest := by
  obtain ⟨line, front, rfl⟩ := List.exists_cons_of_ne_nil occupied
  unfold consLine
  split <;> rfl

/-- Behind a line feed a text goes on with lines of its own. -/
theorem lines_append (front rest : List Char) :
    lines (front ++ '\n' :: rest) = lines (front ++ ['\n']) ++ lines rest := by
  induction front with
  | nil => rfl
  | cons c front ih =>
      have occupied : lines (front ++ ['\n']) ≠ [] := by
        cases front with
        | nil => exact lines_ne_nil
        | cons => exact lines_ne_nil
      change consLine c (lines (front ++ '\n' :: rest)) = consLine c (lines (front ++ ['\n'])) ++ _
      rw [ih, consLine_append occupied]

theorem lines_line (single : '\n' ∉ line) : lines (line ++ ['\n']) = [line] := by
  induction line with
  | nil => rfl
  | cons c line ih =>
      obtain ⟨other, single⟩ := not_or.1 (mt List.mem_cons.2 single)
      change consLine c (lines (line ++ ['\n'])) = _
      rw [ih single, consLine, if_neg (Ne.symm other)]

/-! ## Moving down -/

/-- The method with its signature further down. -/
def Pending.moved (shift : Nat) (m : Pending) : Pending :=
  { m with line := m.line + shift }

def Stage.moved (shift : Nat) : Stage → Stage
  | .signature => .signature
  | .metadata m => .metadata (m.moved shift)
  | .code m => .code (m.moved shift)

/-- The scan with other methods in front and its lines further down. -/
def Scan.under (earlier : List MethodCode) (shift : Nat) : Scan → Scan
  | .start => .start
  | .inside header methods stage => .inside header (earlier ++ methods) (stage.moved shift)

/-- The outcome with its error moved and its result changed. -/
def moveResult {α β : Type} (shift : Nat) (f : α → β) (x : Except FormatError α) :
    Except FormatError β :=
  (x.map f).mapError (·.moved shift)

section MoveResult

variable {α β γ δ : Type} {f : α → β} {g : γ → δ} {x : Except FormatError α}

@[simp]
theorem moveResult_ok (a : α) : moveResult shift f (.ok a) = .ok (f a) :=
  rfl

@[simp]
theorem moveResult_error (e : FormatError) :
    moveResult shift f (.error e) = .error (e.moved shift) :=
  rfl

/-- A sequence is moved part by part. -/
theorem moveResult_bind {rest : α → Except FormatError γ} {rest' : β → Except FormatError δ}
    (parts : ∀ a, rest' (f a) = moveResult shift g (rest a)) :
    moveResult shift f x >>= rest' = moveResult shift g (x >>= rest) := by
  cases x with
  | ok a => exact parts a
  | error e => rfl

end MoveResult

theorem Pending.close_moved (m : Pending) (shift : Nat) :
    (m.moved shift).close = moveResult shift id m.close := by
  obtain ⟨name, number, descriptor, flags, size, latest⟩ := m
  unfold close moved
  dsimp only
  split
  · rfl
  · cases descriptor with
    | none => rfl
    | some descriptor =>
        dsimp only
        split <;> rfl

theorem Stage.close_moved (earlier methods : List MethodCode) (stage : Stage) (shift : Nat) :
    (stage.moved shift).close (earlier ++ methods)
      = moveResult shift (earlier ++ ·) (stage.close methods) := by
  cases stage with
  | signature => rfl
  | metadata m | code m =>
      change (m.moved shift).close >>= _ = moveResult shift _ (m.close >>= _)
      rw [m.close_moved]
      refine moveResult_bind fun closed => ?_
      exact congrArg Except.ok (List.append_assoc earlier methods closed.toList)

theorem signatureLine_moved (header : Header) (number shift : Nat) (line : List Char) :
    signatureLine header (number + shift) line
      = (signatureLine header number line).moved shift := by
  unfold signatureLine
  split <;> rfl

theorem metadataLine_under (header : Header) (earlier methods : List MethodCode) (m : Pending)
    (number shift : Nat) (line : List Char) :
    metadataLine header (earlier ++ methods) (m.moved shift) (number + shift) line
      = moveResult shift (Scan.under earlier shift)
          (metadataLine header methods m number line) := by
  have closing := Stage.close_moved earlier methods (.metadata m) shift
  rw [Stage.moved] at closing
  unfold metadataLine
  rw [closing]
  split
  · exact moveResult_bind fun methods => rfl
  · split
    · rfl
    · split
      · rfl
      · split
        · rfl
        · split
          · refine moveResult_bind fun methods => ?_
            rw [signatureLine_moved]
            rfl
          · rfl

theorem Metrics.readFields_moved (number shift : Nat) (fields : List (List Char))
    (metrics : Metrics) :
    metrics.readFields (number + shift) fields
      = moveResult shift id (metrics.readFields number fields) := by
  induction fields generalizing metrics with
  | nil => rfl
  | cons field fields ih =>
      rw [readFields, readFields]
      dsimp only
      split
      · exact ih _
      · rfl

theorem Metrics.complete_moved (number shift : Nat) (metrics : Metrics) :
    metrics.complete (number + shift) = moveResult shift id (metrics.complete number) := by
  unfold complete
  split <;> rfl

theorem readMetrics_moved (number shift : Nat) (line : List Char) :
    readMetrics (number + shift) line = moveResult shift id (readMetrics number line) := by
  rw [readMetrics, Metrics.readFields_moved]
  exact moveResult_bind fun metrics => metrics.complete_moved number shift

theorem Pending.addInstruction_moved (m : Pending) (number shift : Nat) (line : List Char)
    (parts : InstructionLine) :
    (m.moved shift).addInstruction (number + shift) line parts
      = moveResult shift (Pending.moved shift) (m.addInstruction number line parts) := by
  obtain ⟨name, first, descriptor, flags, size, latest⟩ := m
  unfold addInstruction moved
  dsimp only
  split
  · rfl
  · cases latest with
    | nil => rfl
    | cons last latest =>
        dsimp only
        split <;> rfl

theorem codeLine_under (header : Header) (earlier methods : List MethodCode) (m : Pending)
    (number shift : Nat) (line : List Char) :
    codeLine header (earlier ++ methods) (m.moved shift) (number + shift) line
      = moveResult shift (Scan.under earlier shift) (codeLine header methods m number line) := by
  have closing := Stage.close_moved earlier methods (.code m) shift
  rw [Stage.moved] at closing
  unfold codeLine
  rw [closing]
  split
  · exact moveResult_bind fun methods => rfl
  · split
    · rw [readMetrics_moved]
      exact moveResult_bind fun size => rfl
    · split
      · rfl
      · rw [m.addInstruction_moved]
        exact moveResult_bind fun m => rfl

/-! ## The header -/

/-- The header that has been read. -/
def Scan.heading? : Scan → Option Header
  | .start => none
  | .inside header _ _ => some header

/-- The first header counts. -/
theorem Scan.heading?_feed (fed : scan.feed number line = .ok scan') :
    scan'.heading? = scan.heading?.or (header? rootClass line) := by
  cases scan with
  | start =>
      rw [feed] at fed
      split at fed
      · rename_i header found
        cases fed
        rw [found]
        rfl
      · rename_i missing
        cases fed
        rw [missing]
        rfl
  | inside header methods stage =>
      have feeds := feeds_of_feed fed
      cases feeds <;> rfl

theorem Scan.heading?_feedLines {lines : List (List Char)}
    (fed : scan.feedLines number lines = .ok scan') :
    scan'.heading? = scan.heading?.or (lines.findSome? fun line =>
      header? rootClass (trim line)) := by
  induction lines generalizing number scan with
  | nil =>
      cases fed
      simp
  | cons line lines ih =>
      obtain ⟨scan₁, first, rest⟩ := bind_eq_ok.1 fed
      rw [ih rest, heading?_feed first, Option.or_assoc, List.findSome?_cons]
      cases header? rootClass (trim line) <;> simp

theorem Scan.exists_inside (read : scan.heading? = some header) :
    ∃ methods stage, scan = .inside header methods stage := by
  cases scan with
  | start => cases read
  | inside header methods stage =>
      cases read
      exact ⟨methods, stage, rfl⟩

/-! ## Reading on -/

theorem Scan.feed_under (earlier : List MethodCode) (shift number : Nat) (line : List Char)
    (read : scan.heading? = some header) :
    (scan.under earlier shift).feed (number + shift) line
      = moveResult shift (Scan.under earlier shift) (scan.feed number line) := by
  obtain ⟨methods, stage, rfl⟩ := Scan.exists_inside read
  cases stage with
  | signature =>
      change Except.ok (Scan.inside header (earlier ++ methods) _) = _
      rw [signatureLine_moved]
      rfl
  | metadata m => exact metadataLine_under header earlier methods m number shift line
  | code m => exact codeLine_under header earlier methods m number shift line

/-- Behind a header the methods read so far and the numbers of the lines do not matter. -/
theorem Scan.feedLines_under (earlier : List MethodCode) (shift number : Nat)
    (lines : List (List Char)) (read : scan.heading? = some header) :
    (scan.under earlier shift).feedLines (number + shift) lines
      = moveResult shift (Scan.under earlier shift) (scan.feedLines number lines) := by
  induction lines generalizing number scan with
  | nil => rfl
  | cons line lines ih =>
      rw [feedLines, feedLines, Scan.feed_under earlier shift number _ read]
      cases fed : scan.feed number (trim line) with
      | error e => rfl
      | ok scan' =>
          have read' : scan'.heading? = some header := by
            rw [Scan.heading?_feed fed, read]
            rfl
          have next := ih (number + 1) read'
          rw [Nat.add_right_comm] at next
          exact next

theorem Scan.finish_under (earlier : List MethodCode) (shift : Nat)
    (read : scan.heading? = some header) :
    (scan.under earlier shift).finish = moveResult shift (ClassCode.under earlier) scan.finish := by
  obtain ⟨methods, stage, rfl⟩ := Scan.exists_inside read
  change (stage.moved shift).close (earlier ++ methods) >>= _ = moveResult shift _ (_ >>= _)
  rw [Stage.close_moved]
  exact moveResult_bind fun methods => rfl

/-- The class behind a header has the other methods in front of its own. -/
theorem Scan.parse_under (earlier : List MethodCode) (shift number : Nat)
    (lines : List (List Char)) (read : scan.heading? = some header) :
    (scan.under earlier shift).feedLines (number + shift) lines >>= Scan.finish
      = moveResult shift (ClassCode.under earlier) (scan.feedLines number lines >>= Scan.finish) := by
  rw [Scan.feedLines_under earlier shift number lines read]
  cases fed : scan.feedLines number lines with
  | error e => rfl
  | ok scan' =>
      have read' : scan'.heading? = some header := by
        rw [Scan.heading?_feedLines fed, read]
        rfl
      exact Scan.finish_under earlier shift read'

/-! ## Cutting a listing -/

/-- A blank line closes what is open. -/
theorem Scan.feed_blank (header : Header) (methods : List MethodCode) (stage : Stage)
    (number : Nat) :
    (inside header methods stage).feed number []
      = (return .inside header (← stage.close methods) .signature) := by
  cases stage with
  | signature => rfl
  | metadata m | code m => rfl

/-- Whole lines, the last of them blank, that declare a class. -/
structure FirstPart (header : Header) (text : String) : Prop where
  ended : text.toList.getLast? = some '\n'
  blank : ∀ line ∈ (lines text.toList).getLast?, ∀ c ∈ line, isBlank c = true
  declared : (lines text.toList).findSome? (fun line => header? rootClass (trim line))
    = some header

/-- A single line that declares a class. -/
structure HeaderLine (header : Header) (line : String) : Prop where
  single : '\n' ∉ line.toList
  declared : header? rootClass (trim line.toList) = some header

variable {front rest text : String}

theorem trim_of_blank (blank : ∀ c ∈ line, isBlank c = true) : trim line = [] := by
  have gone : line.dropWhile isBlank = [] := List.dropWhile_eq_nil_iff.2 blank
  rw [trim, trimOf, gone]
  rfl

theorem FirstPart.lines_append (first : FirstPart header front) (rest : List Char) :
    lines (front.toList ++ rest) = lines front.toList ++ lines rest := by
  obtain ⟨shorter, ends⟩ := List.getLast?_eq_some_iff.1 first.ended
  rw [ends, List.append_assoc]
  exact Listing.lines_append shorter rest

/-- The last line comes behind the header and resets the scan. -/
theorem FirstPart.scan_eq (first : FirstPart header front) {number : Nat}
    (fed : Scan.start.feedLines number (lines front.toList) = .ok scan) :
    ∃ methods, scan = .inside header methods .signature := by
  obtain ⟨earlier, last, cut⟩ : ∃ earlier last, lines front.toList = earlier ++ [last] := by
    rcases List.eq_nil_or_concat (lines front.toList) with none | ⟨earlier, last, cut⟩
    · have declared := first.declared
      rw [none] at declared
      cases declared
    · exact ⟨earlier, last, by rw [cut, List.concat_eq_append]⟩
  have blank : trim last = [] := by
    apply trim_of_blank
    apply first.blank
    rw [cut, List.getLast?_concat]
    rfl
  have declared := first.declared
  rw [cut, List.findSome?_append, List.findSome?_singleton, blank] at declared
  have nothing : header? rootClass [] = none := by decide
  rw [nothing, Option.or_none] at declared
  rw [cut, Scan.feedLines_append] at fed
  obtain ⟨scan', before, fed⟩ := bind_eq_ok.1 fed
  have read : scan'.heading? = some header := by
    rw [Scan.heading?_feedLines before, declared]
    rfl
  obtain ⟨methods, stage, rfl⟩ := Scan.exists_inside read
  rw [Scan.feedLines, blank, Scan.feed_blank] at fed
  obtain ⟨scan₁, closed, fed⟩ := bind_eq_ok.1 fed
  obtain ⟨methods', -, closed⟩ := bind_eq_ok.1 closed
  cases closed
  cases fed
  exact ⟨methods', rfl⟩

/-- Lines behind a header line are read from an empty class on. -/
theorem HeaderLine.parse_line_append (heading : HeaderLine header text) (rest : String) :
    parse (text ++ "\n" ++ rest)
      = (Scan.inside header [] .signature).feedLines 2 (lines rest.toList) >>= Scan.finish := by
  have cut : lines (text ++ "\n" ++ rest).toList = text.toList :: lines rest.toList := by
    rw [String.toList_append, String.toList_append, List.append_assoc]
    change lines (text.toList ++ '\n' :: rest.toList) = _
    rw [Listing.lines_append, lines_line heading.single]
    rfl
  have start : Scan.start.feed 1 (trim text.toList) = .ok (.inside header [] .signature) := by
    rw [Scan.feed, heading.declared]
  rw [parse, cut, Scan.feedLines, start]
  rfl

/-- A first part that can be read is followed by the methods of the rest. -/
theorem FirstPart.parse_append_of_ok (first : FirstPart header front)
    (heading : HeaderLine header text) {c : ClassCode} (parsed : parse front = .ok c)
    (rest : String) :
    parse (front ++ rest)
      = moveResult ((lines front.toList).length - 1) (ClassCode.under c.methods)
          (parse (text ++ "\n" ++ rest)) := by
  obtain ⟨scan, fed, finished⟩ := bind_eq_ok.1 parsed
  obtain ⟨methods, rfl⟩ := first.scan_eq fed
  cases finished
  have occupied : 0 < (lines front.toList).length := by
    apply List.length_pos_of_ne_nil
    intro none
    have declared := first.declared
    rw [none] at declared
    cases declared
  -- The rest is read behind all lines of the front, and alone behind its header line.
  have number : 1 + (lines front.toList).length = 2 + ((lines front.toList).length - 1) := by
    omega
  have inside : (Scan.inside header [] .signature).heading? = some header := rfl
  have next := Scan.parse_under methods ((lines front.toList).length - 1) 2
    (lines rest.toList) inside
  rw [Scan.under, List.append_nil, ← number] at next
  rw [heading.parse_line_append, parse, String.toList_append, first.lines_append,
    Scan.feedLines_append, fed]
  exact next

/-- A first part that cannot be read is not made readable by what follows. -/
theorem FirstPart.parse_append_of_error (first : FirstPart header front) {e : FormatError}
    (failed : parse front = .error e) (rest : String) : parse (front ++ rest) = .error e := by
  rw [parse, String.toList_append, first.lines_append, Scan.feedLines_append]
  rw [parse] at failed
  cases fed : Scan.start.feedLines 1 (lines front.toList) with
  | error e' =>
      rw [fed] at failed
      cases failed
      rfl
  | ok scan =>
      obtain ⟨methods, rfl⟩ := first.scan_eq fed
      rw [fed] at failed
      cases failed

/-- **The parts of a listing are read independently.** Behind a blank line a listing can be
read if both its parts can, the second one below a header line of its own. It has the methods
of the one and then those of the other, and it fails as the first part does or else as the
second one, further down. -/
theorem parse_append (first : FirstPart header front) (heading : HeaderLine header text)
    (rest : String) :
    ((∃ whole, parse (front ++ rest) = .ok whole)
      ↔ (∃ c, parse front = .ok c) ∧ ∃ d, parse (text ++ "\n" ++ rest) = .ok d)
    ∧ (∀ c d, parse front = .ok c → parse (text ++ "\n" ++ rest) = .ok d →
        parse (front ++ rest) = .ok { d with methods := c.methods ++ d.methods })
    ∧ (∀ e, parse front = .error e → parse (front ++ rest) = .error e)
    ∧ (∀ c e, parse front = .ok c → parse (text ++ "\n" ++ rest) = .error e →
        parse (front ++ rest) = .error (e.moved ((lines front.toList).length - 1))) := by
  refine ⟨?_, ?_, fun e failed => first.parse_append_of_error failed rest, ?_⟩
  · cases parsed : parse front with
    | error e =>
        have failed := first.parse_append_of_error parsed rest
        rw [failed]
        simp
    | ok c =>
        have followed := first.parse_append_of_ok heading parsed rest
        rw [followed]
        cases parse (text ++ "\n" ++ rest) <;> simp
  · intro c d parsed parsed'
    have followed := first.parse_append_of_ok heading parsed rest
    rw [parsed'] at followed
    exact followed
  · intro c e parsed failed
    have followed := first.parse_append_of_ok heading parsed rest
    rw [failed] at followed
    exact followed

/-- A class whose method is still open at the blank line. -/
def counterFront : String :=
  "class Counter \x7b\n int next();\n descriptor: ()I\n Code:\n 0: iconst_1\n 1: ireturn\n\n"

/-- A method of that class with a flag and metrics of its own. -/
def counterRest : String :=
  " static void reset(int);\n descriptor: (I)V\n flags: (0x0008) ACC_STATIC\n Code:\n"
    ++ " stack=1, locals=1, args_size=1\n 0: return\n\x7d"

/-- The method of the first part. -/
def counterNext : MethodCode where
  name := "next"
  descriptor := "()I"
  flags := .empty
  maxStack := 0
  maxLocals := 0
  argsSize := 0
  instructions := [⟨0, .other "ICONST_1", [], none⟩, ⟨1, .returnValue .int, [], none⟩]

/-- The method of the second part. -/
def counterReset : MethodCode where
  name := "reset"
  descriptor := "(I)V"
  flags := .ofList [.accStatic]
  maxStack := 1
  maxLocals := 1
  argsSize := 1
  instructions := [⟨0, .returnVoid, [], none⟩]

theorem parse_counter :
    FirstPart ⟨"Counter", rootClass⟩ counterFront
      ∧ HeaderLine ⟨"Counter", rootClass⟩ "class Counter"
      ∧ parse (counterFront ++ counterRest)
          = .ok ⟨"Counter", rootClass, [counterNext, counterReset]⟩ := by
  have first : FirstPart ⟨"Counter", rootClass⟩ counterFront :=
    ⟨by decide +kernel, by decide +kernel, by decide +kernel⟩
  have heading : HeaderLine ⟨"Counter", rootClass⟩ "class Counter" :=
    ⟨by decide +kernel, by decide +kernel⟩
  have front : parse counterFront = .ok ⟨"Counter", rootClass, [counterNext]⟩ :=
    eq_ok_of_toOption (by decide +kernel)
  have behind : parse ("class Counter" ++ "\n" ++ counterRest)
      = .ok ⟨"Counter", rootClass, [counterReset]⟩ :=
    eq_ok_of_toOption (by decide +kernel)
  exact ⟨first, heading, (parse_append first heading counterRest).2.1 _ _ front behind⟩

end Listing

end ClassMachine
