import ClassMachine.Proofs.Readiness
import ClassMachine.Proofs.Store

/-!
# Kinds of field values

A value is checked against the descriptor in the operand of the instruction that
writes it. An instruction that reads it checks nothing, and what is read depends on
the place alone: the owner and the name of a static field, the name of a field of an
instance.

* `ClassTable.Writes`: an instruction of the program has written the value to a place.
* `Progress.Fielded`: every value in a field has been written by an instruction there.
  It holds throughout every lifetime in which the host leaves fields alone
  (`Progress.Lives.fielded`).
* `ClassTable.Agree`: the instructions that write to a place agree on the kind of what
  they write.

Where they agree, every value that is read is of the kind of its descriptor
(`Progress.Lives.reads_fit`). Where they do not, one written as a word may be read as
a reference (`reread_reads_word`).
-/

namespace ClassMachine

variable {ω : Type} {m m' : Machine ω} {f g : Frame} {link : Link} {p q : Progress ω}
  {insn : Instruction} {effect : Effect} {table : ClassTable} {h h' : Heap} {value : Value}
  {field : MemberRef} {ty : Ty} {rest : List Char} {place : MemberRef → Prop}

/-! ## Written values -/

namespace ClassTable

/-- Some method of the table has the instruction. -/
def Holds (t : ClassTable) (insn : Instruction) : Prop :=
  ∃ method, t.Has method ∧ insn ∈ method.code.instructions

/-- An instruction of that opcode writes to the place, by its own account a value of
that type. -/
def WritesType (t : ClassTable) (op : Opcode) (place : MemberRef → Prop) (ty : Ty) : Prop :=
  ∃ insn ref rest, t.Holds insn ∧ insn.opcode = op ∧ insn.operand? 0 = some (.field ref) ∧
    place ref ∧ Ty.decode ref.descriptor.toList = .ok (ty, rest)

/-- The value fits the type of an instruction that writes to the place. -/
def Writes (t : ClassTable) (op : Opcode) (place : MemberRef → Prop) (value : Value) : Prop :=
  ∃ ty, t.WritesType op place ty ∧ value.fits ty = true

/-- All that write to the place write values of the kind of the type. -/
def Agree (t : ClassTable) (op : Opcode) (place : MemberRef → Prop) (ty : Ty) : Prop :=
  ∀ ty', t.WritesType op place ty' → ty'.isIntLike = ty.isIntLike

theorem Writes.fits (writes : table.Writes op place value) (agree : table.Agree op place ty) :
    value.fits ty = true := by
  obtain ⟨ty', wrote, fits⟩ := writes
  rw [Value.fits, ← agree ty' wrote]
  exact fits

end ClassTable

/-- The static fields that share the place of the given one. -/
def MemberRef.SamePlace (ref field : MemberRef) : Prop :=
  ref.owner = field.owner ∧ ref.name = field.name

/-- The fields of instances that share the place of the given one. -/
def MemberRef.SameName (ref field : MemberRef) : Prop :=
  ref.name = field.name

/-- A checked value fits the type in the descriptor. -/
theorem Frame.checkField_eq_ok (checked : Frame.checkField field value = .ok ()) :
    ∃ ty rest, Ty.decode field.descriptor.toList = .ok (ty, rest) ∧ value.fits ty = true := by
  unfold checkField at checked
  split at checked
  · rename_i ty rest decoded
    exact ⟨ty, rest, decoded, checkFit_eq_ok.1 checked⟩
  · cases checked

/-- So does the value of a field that has not been written. -/
theorem Value.fits_defaultFor {descriptor : String}
    (decoded : Ty.decode descriptor.toList = .ok (ty, rest)) :
    (Value.defaultFor descriptor).fits ty = true := by
  unfold defaultFor
  generalize descriptor.toList = cs at decoded
  unfold Ty.decode at decoded
  split at decoded
  · cases decoded
  · obtain ⟨⟨component, rest⟩, _, array⟩ := bind_eq_ok.1 decoded
    cases component <;> cases array <;> rfl
  · unfold Ty.decodeClass at decoded
    split at decoded <;> cases decoded
    rfl
  · rename_i c cs _ _
    split at decoded
    · rename_i ty' code
      cases decoded
      unfold Ty.ofCode? at code
      split at code <;> cases code <;> rfl
    · cases decoded

/-! ## The heap -/

/-- Every value in a field of an instance has been written there. -/
def Heap.Written (table : ClassTable) (h : Heap) : Prop :=
  ∀ index className fields name value, h.get? index = some (.object className fields) →
    fields.find? name = some value → table.Writes .putField (·.name = name) value

/-- Work on a heap that leaves the fields of instances alone: every instance has the
fields that it had, or none. -/
def Heap.Spares (h h' : Heap) : Prop :=
  ∀ index className fields, h'.get? index = some (.object className fields) →
    fields = .empty ∨ ∃ className', h.get? index = some (.object className' fields)

namespace Heap

theorem Written.spares (written : h.Written table) (spares : h.Spares h') : h'.Written table := by
  intro index className fields name value there found
  rcases spares index className fields there with rfl | ⟨className', before⟩
  · rw [Table.find?_empty] at found
    cases found
  · exact written index className' fields name value before found

/-- A new object is no instance, or one without fields. -/
theorem spares_alloc {object : HeapObject}
    (blank : ∀ className fields, object = .object className fields → fields = .empty) :
    h.Spares (h.alloc object).2 := by
  intro index className fields there
  rw [get?_alloc] at there
  split at there
  · exact Or.inl (blank className fields (Option.some.inj there))
  · exact Or.inr ⟨className, there⟩

theorem Spares.refl (h : Heap) : h.Spares h :=
  fun _ className _ there => Or.inr ⟨className, there⟩

theorem spares_constant (c : Constant) : h.Spares (h.constant c).2 := by
  cases c with
  | int value => exact .refl h
  | string text =>
      unfold constant intern
      dsimp only
      split
      · exact .refl h
      · exact spares_alloc nofun
  | classRef name =>
      unfold constant classLiteral
      dsimp only
      split
      · exact .refl h
      · exact spares_alloc nofun
  | float word => exact spares_alloc nofun
  | long value => exact spares_alloc nofun
  | double word => exact spares_alloc nofun

/-- Only a write into a field changes a field. -/
theorem find?_of_write {w : Write} {object : HeapObject} {className name : String}
    {fields : Table String Value} (wrote : object.write w = .object className fields)
    (found : fields.find? name = some value) :
    w = .field name value ∨
      ∃ before, object = .object className before ∧ before.find? name = some value := by
  cases object with
  | object className' before =>
      cases w with
      | field name' value' =>
          cases wrote
          rcases Table.find?_insert_eq_some found with ⟨rfl, rfl⟩ | ⟨_, found⟩
          · exact Or.inl rfl
          · exact Or.inr ⟨before, rfl, found⟩
      | word position value' =>
          cases wrote
          exact Or.inr ⟨fields, rfl, found⟩
      | reference position value' =>
          cases wrote
          exact Or.inr ⟨fields, rfl, found⟩
  | ints component elements => cases w <;> cases wrote
  | refs component elements => cases w <;> cases wrote
  | _ => cases w <;> cases wrote

theorem Written.write {target : Nat} {w : Write} (written : h.Written table)
    (writes : ∀ name value, w = .field name value →
      table.Writes .putField (·.name = name) value) : (h.write target w).Written table := by
  intro index className fields name value there found
  rw [get?_write] at there
  split at there
  · obtain ⟨object, before, wrote⟩ := Option.map_eq_some_iff.1 there
    rcases find?_of_write wrote found with field | ⟨fields', rfl, found'⟩
    · exact writes name value field
    · exact written index className fields' name value before found'
  · exact written index className fields name value there found

end Heap

/-! ## The store of a machine -/

/-- A use of a class that writes a static field writes what an instruction checked. -/
def ClassUse.Written (table : ClassTable) : ClassUse → Prop
  | .putStatic field value => table.Writes .putStatic (·.SamePlace field) value
  | _ => True

/-- Every value in a field has been written there by an instruction of the program. -/
structure Machine.Fielded (table : ClassTable) (m : Machine ω) : Prop where
  statics : ∀ owner name value, m.statics.find? (owner, name) = some value →
    table.Writes .putStatic (fun ref => ref.owner = owner ∧ ref.name = name) value
  instances : m.heap.Written table

namespace Machine

theorem Fielded.of_same (same : m.SameStore m') (fielded : m.Fielded table) :
    m'.Fielded table := by
  obtain ⟨statics, instances⟩ := fielded
  rw [← same.statics] at statics
  rw [← same.heap] at instances
  exact ⟨statics, instances⟩

theorem Fielded.use {use : ClassUse} (fielded : m.Fielded table) (written : use.Written table)
    (f : Frame) : (m.use f use).1.Fielded table := by
  cases use with
  | getStatic field => exact fielded
  | putStatic field value =>
      refine ⟨fun owner name value' found => ?_, fielded.instances⟩
      change (m.statics.insert (field.owner, field.name) value).find? (owner, name) = _ at found
      rcases Table.find?_insert_eq_some found with ⟨same, rfl⟩ | ⟨_, found⟩
      · cases same
        exact written
      · exact fielded.statics owner name value' found
  | new name =>
      refine ⟨fielded.statics, fielded.instances.spares (Heap.spares_alloc ?_)⟩
      rintro className fields eq
      cases eq
      rfl

/-- What an instruction of the program checks, it may write. -/
theorem writes_of_checkField {op : Opcode} (holds : table.Holds insn) (opcode : insn.opcode = op)
    (operand : insn.operand? 0 = some (.field field)) (here : place field)
    (checked : Frame.checkField field value = .ok ()) : table.Writes op place value := by
  obtain ⟨ty, rest, decoded, fits⟩ := Frame.checkField_eq_ok checked
  exact ⟨ty, ⟨insn, field, rest, holds, opcode, operand, here, decoded⟩, fits⟩

theorem written_of_execute {name : String} {use : ClassUse} (holds : table.Holds insn)
    (done : insn.execute h f = .ok (.touch g name use)) : use.Written table := by
  have stores := Instruction.execute_stores done
  cases use with
  | getStatic ref => trivial
  | putStatic ref value =>
      obtain ⟨opcode, operand, checked⟩ := stores
      exact writes_of_checkField holds opcode operand ⟨rfl, rfl⟩ checked
  | new name => trivial

/-- The work of an instruction of the program. -/
theorem Fielded.worked (fielded : m.Fielded table) (holds : table.Holds insn)
    (done : insn.execute m.heap f = .ok effect) : (m.worked effect).Fielded table := by
  have stores := Instruction.execute_stores done
  cases effect with
  | allocate g object =>
      have blank : m.heap.Spares (m.heap.alloc object).2 :=
        Heap.spares_alloc fun className fields eq => (stores className fields eq).elim
      exact ⟨fielded.statics, fielded.instances.spares blank⟩
  | constant g c => exact ⟨fielded.statics, fielded.instances.spares (Heap.spares_constant c)⟩
  | write g index w =>
      refine ⟨fielded.statics, fielded.instances.write fun name value eq => ?_⟩
      rw [eq] at stores
      obtain ⟨opcode, ref, operand, same, checked⟩ := stores
      exact writes_of_checkField holds opcode operand same checked
  | touch g name use => exact fielded.use (written_of_execute holds done) g
  | _ => exact fielded

end Machine

/-! ## Lifetimes -/

/-- A bridge that leaves the fields of instances alone. -/
def SparingBridge (bridge : Bridge ω) : Prop :=
  ∀ world (h : Heap) receiver args, h.Spares (bridge world h receiver args).heap

/-- A host that leaves fields alone: it sets no static field, allocates no instance
that has fields, and its bridges spare those of instances. -/
def HostAction.SparesFields (m : Machine ω) : HostAction ω → Prop
  | .setBridge _ _ _ bridge => SparingBridge bridge
  | .setStatic _ _ _ => False
  | .setHeap heap => m.heap.Spares heap
  | .setWorld _ | .call _ _ _ _ => True

theorem HostAction.SparesFields.bridged {action : HostAction ω} (spares : action.SparesFields m) :
    action.Bridged SparingBridge := by
  cases action with
  | setBridge => exact spares
  | _ => trivial

namespace Machine

theorem Fielded.callBridge {bridge : Bridge ω} (fielded : m.Fielded table)
    (spares : SparingBridge bridge) (key : MethodKey) (descriptor : Descriptor)
    (receiver : Option Value) (args : List Value) :
    (m.callBridge bridge key descriptor receiver args).1.Fielded table := by
  obtain ⟨statics, heap⟩ := m.callBridge_store bridge key descriptor receiver args
  have spared : m.heap.Spares (m.callBridge bridge key descriptor receiver args).1.heap := by
    rcases heap with same | replied
    · rw [same]
      exact .refl m.heap
    · rw [replied]
      exact spares m.world m.heap receiver args
  refine ⟨?_, fielded.instances.spares spared⟩
  rw [statics]
  exact fielded.statics

end Machine

namespace Progress

/-- Every value in a field has been written there by an instruction of the program, and
so has every one that is about to be written once an initializer has run. -/
structure Fielded (table : ClassTable) (p : Progress ω) : Prop where
  linked : p.Linked
  classes : p.machine.classes = table
  bridges : ∀ key bridge, p.machine.bridges.find? key = some bridge → SparingBridge bridge
  machine : p.machine.Fielded table
  delayed : ∀ use ∈ p.delayed, use.Written table

theorem fielded_fresh (table : ClassTable) (limits : Limits) (world : ω) :
    (fresh table limits world).Fielded table where
  linked := trivial
  classes := rfl
  bridges := Machine.bridged_create (fun _ h _ _ => .refl h) table limits world
  machine := ⟨nofun, nofun⟩
  delayed := nofun

/-- The current instruction is one of the program. -/
theorem Fielded.holds (fielded : (running m f link).Fielded table)
    (current : f.insn? = some insn) : table.Holds insn := by
  have linked : link.Linked m.classes f.method := fielded.linked
  refine ⟨f.method, ?_, List.mem_of_getElem? current⟩
  rw [← fielded.classes]
  exact linked.has

/-- What a step leaves of the store and of the delayed uses. -/
theorem Fielded.of_leaves {held : List ClassUse} (leaves : m.Leaves held p)
    (fielded : m.Fielded table) (written : ∀ use ∈ held, use.Written table) :
    p.machine.Fielded table ∧ ∀ use ∈ p.delayed, use.Written table :=
  ⟨fielded.of_same leaves.same, fun use member => written use (leaves.waits member)⟩

theorem Fielded.edits (fielded : (running m f link).Fielded table) (edits : m.Edits f link p) :
    p.machine.Fielded table ∧ ∀ use ∈ p.delayed, use.Written table := by
  have machine : m.Fielded table := fielded.machine
  have delayed : ∀ use ∈ link.delayed, use.Written table := fielded.delayed
  cases edits with
  | leaves leaves => exact of_leaves leaves machine delayed
  | works current done leaves =>
      exact of_leaves leaves (machine.worked (fielded.holds current) done) delayed
  | delays current done leaves =>
      have written := Machine.written_of_execute (fielded.holds current) done
      exact of_leaves leaves machine (List.forall_mem_cons.2 ⟨written, delayed⟩)
  | replies current done bridged leaves =>
      have spares := fielded.bridges _ _ bridged
      exact of_leaves leaves (machine.callBridge spares _ _ _ _) delayed
  | resumes same leaves =>
      rw [same] at delayed
      obtain ⟨written, below⟩ := List.forall_mem_cons.1 delayed
      exact of_leaves leaves (machine.use written _) below

theorem Next.fielded (next : p.Next HostAction.SparesFields q) (fielded : p.Fielded table) :
    q.Fielded table := by
  have linked := next.linked fielded.linked
  have classes := (next.classes fielded.linked).trans fielded.classes
  have bridges := next.bridged (fun _ _ => HostAction.SparesFields.bridged) fielded.linked
    fielded.bridges
  cases next with
  | step m f link =>
      obtain ⟨machine, delayed⟩ := fielded.edits (m.step_edits f link)
      exact ⟨linked, classes, bridges, machine, delayed⟩
  | @act m action outcome allows =>
      have machine : m.Fielded table := fielded.machine
      cases action with
      | setBridge | setWorld =>
          exact ⟨linked, classes, bridges, ⟨machine.statics, machine.instances⟩, nofun⟩
      | setStatic => exact allows.elim
      | setHeap heap =>
          exact ⟨linked, classes, bridges, ⟨machine.statics, machine.instances.spares allows⟩, nofun⟩
      | call className method descriptor args =>
          rcases m.start_leaves className method descriptor args with leaves |
            ⟨bridge, parsed, bridged, leaves⟩
          · obtain ⟨store, delayed⟩ := Fielded.of_leaves leaves machine nofun
            exact ⟨linked, classes, bridges, store, delayed⟩
          · have replied := machine.callBridge (fielded.bridges _ _ bridged)
              (.of className method descriptor) parsed none args
            obtain ⟨store, delayed⟩ := Fielded.of_leaves leaves replied nofun
            exact ⟨linked, classes, bridges, store, delayed⟩

/-- **Every value in a field has been written there, and checked then.** -/
theorem Lives.fielded {limits : Limits} {world : ω}
    (lives : (fresh table limits world).Lives HostAction.SparesFields p) : p.Fielded table :=
  lives.invariant (fielded_fresh table limits world) fun _ _ _ fielded next => next.fielded fielded

end Progress

/-! ## Reading -/

theorem Machine.Fielded.static_fits (fielded : m.Fielded table)
    (decoded : Ty.decode field.descriptor.toList = .ok (ty, rest))
    (agree : table.Agree .putStatic (·.SamePlace field) ty) :
    ((m.statics.find? (field.owner, field.name)).getD (.defaultFor field.descriptor)).fits ty =
      true := by
  cases found : m.statics.find? (field.owner, field.name) with
  | none => exact Value.fits_defaultFor decoded
  | some value => exact (fielded.statics _ _ value found).fits agree

theorem Heap.Written.field_fits {index : Nat} {className : String} {fields : Table String Value}
    (written : h.Written table) (there : h.get? index = some (.object className fields))
    (decoded : Ty.decode field.descriptor.toList = .ok (ty, rest))
    (agree : table.Agree .putField (·.SameName field) ty) :
    ((fields.find? field.name).getD (.defaultFor field.descriptor)).fits ty = true := by
  cases found : fields.find? field.name with
  | none => exact Value.fits_defaultFor decoded
  | some value => exact (written index className fields _ value there found).fits agree

namespace Frame

theorem popRef_eq_ok {reference : Option Nat} (popped : f.popRef = .ok (reference, g)) :
    g = f.dropTop := by
  obtain ⟨rest, stack, rfl⟩ := pop_eq_ok_iff.1 (popRef_eq_ok_iff.1 popped)
  rw [dropTop, stack]
  rfl

theorem instanceFields_eq_ok {index : Nat} {className : String} {fields : Table String Value}
    (found : h.instanceFields index = .ok (className, fields)) :
    h.get? index = some (.object className fields) := by
  unfold Heap.instanceFields at found
  split at found
  · cases found
    assumption
  · cases found

/-- The field takes the place of the instance on top of the operands. -/
theorem getField_eq_ok (done : f.getField h field = .ok g) :
    ∃ index className fields, h.get? index = some (.object className fields) ∧
      g = f.dropTop.push ((fields.find? field.name).getD (.defaultFor field.descriptor)) := by
  simp only [getField, bind_eq_ok, Prod.exists] at done
  obtain ⟨reference, f', popped, index, _, className, fields, found, done⟩ := done
  cases done
  exact ⟨index, className, fields, instanceFields_eq_ok found, by rw [popRef_eq_ok popped]⟩

end Frame

namespace Progress

/-- The frame waits for the initializer of the class of a static field. -/
def Delays (p : Progress ω) (f : Frame) (link : Link) (field : MemberRef) : Prop :=
  ∃ m callee, p =
    .running m callee (.caller f (.initializer field.owner (.use (.getStatic field))) link)

/-- The program goes on behind the instruction that the frame is at, with a value of
the kind of the type on top: a word if the type is that of words, and a reference
or null if it is not. -/
def Pushes (p : Progress ω) (f : Frame) (link : Link) (ty : Ty) : Prop :=
  ∃ m value, p = .running m (f.push value).advance link ∧
    if ty.isIntLike then ∃ word, value = .int word
    else value = .null ∨ ∃ index, value = .ref index

end Progress

namespace Machine

/-- The value of a static field is pushed as soon as its class is ready. -/
theorem Fielded.proceed_pushes (fielded : m.Fielded table)
    (decoded : Ty.decode field.descriptor.toList = .ok (ty, rest))
    (agree : table.Agree .putStatic (·.SamePlace field) ty) (f : Frame) (link : Link) :
    (m.proceed f link (.use (.getStatic field))).Pushes f link ty :=
  ⟨m, _, rfl, Value.fits_iff.1 (fielded.static_fits decoded agree)⟩

/-- The step of an instruction that reads a static field. -/
theorem Fielded.step_getStatic (fielded : m.Fielded table)
    (decoded : Ty.decode field.descriptor.toList = .ok (ty, rest))
    (agree : table.Agree .putStatic (·.SamePlace field) ty) (current : f.insn? = some insn)
    (opcode : insn.opcode = .getStatic) (operand : insn.operand? 0 = some (.field field))
    (link : Link) :
    (m.step f link).Failed ∨ (m.step f link).Delays f link field ∨
      (m.step f link).Pushes f link ty := by
  by_cases spent : m.Spent
  · exact Or.inl (failed_of_spent current spent)
  · have done : insn.execute m.heap f = .ok (.touch f field.owner (.getStatic field)) := by
      simp only [Instruction.execute, opcode, Instruction.fieldOperand, operand]
      rfl
    rw [step_of_execute_ok current spent done, apply]
    rcases m.counted.withClass_cases f link field.owner (.use (.getStatic field)) with
      ⟨m', e, _, ends⟩ | ⟨m', callee, _, waits⟩ | ⟨m', same, proceeds⟩
    · exact Or.inl ⟨m', e, ends⟩
    · exact Or.inr (Or.inl ⟨m', callee, waits⟩)
    · have kept : m.SameStore m' := ⟨same.heap, same.statics⟩
      have ready := fielded.of_same kept
      rw [proceeds]
      exact Or.inr (Or.inr (ready.proceed_pushes decoded agree f link))

/-- The step of an instruction that reads a field of an instance. -/
theorem Fielded.step_getField (fielded : m.Fielded table)
    (decoded : Ty.decode field.descriptor.toList = .ok (ty, rest))
    (agree : table.Agree .putField (·.SameName field) ty) (current : f.insn? = some insn)
    (opcode : insn.opcode = .getField) (operand : insn.operand? 0 = some (.field field))
    (link : Link) : (m.step f link).Failed ∨ (m.step f link).Pushes f.dropTop link ty := by
  by_cases spent : m.Spent
  · exact Or.inl (failed_of_spent current spent)
  · have execute : insn.execute m.heap f = (do return .next (← f.getField m.heap field)) := by
      simp only [Instruction.execute, opcode, Instruction.fieldOperand, operand]
      rfl
    cases done : f.getField m.heap field with
    | error fault =>
        rw [done] at execute
        exact Or.inl (failed_of_execute_error current spent execute)
    | ok g =>
        rw [done] at execute
        obtain ⟨index, className, fields, there, rfl⟩ := Frame.getField_eq_ok done
        rw [step_of_execute_ok current spent execute]
        exact Or.inr ⟨_, _, rfl,
          Value.fits_iff.1 (fielded.instances.field_fits there decoded agree)⟩

end Machine

namespace Progress

/-- **What is read from a field is of the kind of the descriptor where all that write to
the field agree on it.** The host is to leave fields alone. Then in every state of
every run:

* if all writes to static fields of the same owner and name are of the kind of the
  descriptor, reading the static field fails, or waits for an initializer, or pushes a
  value of that kind, and so it does once the initializer has returned;
* if all writes to fields of the same name are, reading the field of an instance fails
  or pushes a value of that kind. -/
theorem Lives.reads_fit {limits : Limits} {world : ω}
    (lives : (fresh table limits world).Lives HostAction.SparesFields (.running m f link))
    (decoded : Ty.decode field.descriptor.toList = .ok (ty, rest)) :
    (table.Agree .putStatic (·.SamePlace field) ty →
      (∀ insn, f.insn? = some insn → insn.opcode = .getStatic →
        insn.operand? 0 = some (.field field) →
        (m.step f link).Failed ∨ (m.step f link).Delays f link field ∨
          (m.step f link).Pushes f link ty) ∧
      ∀ g name below, link = .caller g (.initializer name (.use (.getStatic field))) below →
        m.returns f = true → (m.step f link).Pushes g below ty) ∧
    (table.Agree .putField (·.SameName field) ty →
      ∀ insn, f.insn? = some insn → insn.opcode = .getField →
        insn.operand? 0 = some (.field field) →
        (m.step f link).Failed ∨ (m.step f link).Pushes f.dropTop link ty) := by
  have fielded : m.Fielded table := lives.fielded.machine
  refine ⟨fun agree => ⟨fun insn current opcode operand => ?_, ?_⟩,
    fun agree insn current opcode operand => ?_⟩
  · exact fielded.step_getStatic decoded agree current opcode operand link
  · rintro g name below rfl returned
    obtain ⟨insn, value, current, room, done⟩ := Machine.leave_of_returns returned
    have left : m.SameStore m.counted.leave := ⟨rfl, rfl⟩
    rw [Machine.step_of_execute_ok current room done]
    exact (fielded.of_same left).proceed_pushes decoded agree g below
  · exact fielded.step_getField decoded agree current opcode operand link

end Progress

/-! ## One place, two kinds -/

/-- A method that writes a word into a static field and reads it by another
descriptor. -/
def rereadCode (descriptor : String) : MethodCode where
  name := "run"
  descriptor := "()I"
  flags := .ofList [.accStatic]
  maxStack := 1
  maxLocals := 1
  argsSize := 0
  instructions :=
    [⟨0, .bipush, [.int 5], none⟩, ⟨2, .putStatic, [.field ⟨"Reread", "x", "I"⟩], none⟩,
      ⟨5, .getStatic, [.field ⟨"Reread", "x", descriptor⟩], none⟩,
      ⟨8, .store .ref, [.slot 0], none⟩, ⟨9, .iconst, [.int 1], none⟩,
      ⟨10, .returnValue .int, [], none⟩]

/-- The table with that method alone. -/
def rereadTable (descriptor : String) : ClassTable where
  classes := .insert .empty "Reread"
    { name := "Reread"
      superName := rootClass
      methods := .insert .empty ("run", "()I") ⟨0, "Reread", rereadCode descriptor, ⟨[], .int⟩⟩ }
  methodCount := 1

theorem mem_of_holds_reread {descriptor : String} (holds : (rereadTable descriptor).Holds insn) :
    insn ∈ (rereadCode descriptor).instructions := by
  obtain ⟨method, ⟨key, found⟩, member⟩ := holds
  obtain ⟨c, owner, found⟩ := Option.bind_eq_some_iff.1 found
  rcases Table.find?_insert_eq_some owner with ⟨_, rfl⟩ | ⟨_, nowhere⟩
  · rcases Table.find?_insert_eq_some found with ⟨_, rfl⟩ | ⟨_, nowhere⟩
    · exact member
    · cases nowhere
  · cases nowhere

/-- Two moves lead to the instruction that reads. -/
theorem reread_lives (descriptor : String) (p : Progress Unit)
    (reached :
      ((Machine.create (rereadTable descriptor) {} ()).start "Reread" "run" "()I" []).run 2 = p) :
    (Progress.fresh (rereadTable descriptor) {} ()).Lives HostAction.SparesFields p :=
  Progress.lives_of_call trivial ⟨2, reached⟩

/-- Where it is read by the descriptor by which it has been written, it is a word. -/
theorem reread_reads_fit :
    ClassTable.load [⟨"Reread", rootClass, [rereadCode "I"]⟩] = .ok (rereadTable "I") ∧
      ∃ (m : Machine Unit) (f : Frame),
        (Progress.fresh (rereadTable "I") {} ()).Lives HostAction.SparesFields
          (.running m f .host) ∧
        (rereadTable "I").Agree .putStatic (·.SamePlace ⟨"Reread", "x", "I"⟩) .int ∧
        (m.step f .host).Pushes f .host .int := by
  have agree : (rereadTable "I").Agree .putStatic (·.SamePlace ⟨"Reread", "x", "I"⟩) .int := by
    rintro ty ⟨insn, ref, rest, holds, opcode, operand, _, decoded⟩
    have member := mem_of_holds_reread holds
    simp only [rereadCode, List.mem_cons, List.not_mem_nil, or_false] at member
    rcases member with rfl | rfl | rfl | rfl | rfl | rfl <;> cases opcode
    cases operand
    cases decoded
    rfl
  obtain ⟨m, f, m', g, there, current, next⟩ : ∃ m f m' g,
      ((Machine.create (rereadTable "I") {} ()).start "Reread" "run" "()I" []).run 2 =
        .running m f .host ∧
      f.insn? = some ⟨5, .getStatic, [.field ⟨"Reread", "x", "I"⟩], none⟩ ∧
      m.step f .host = .running m' g .host :=
    ⟨_, _, _, _, rfl, rfl, rfl⟩
  have lives := reread_lives "I" _ there
  have decoded : Ty.decode "I".toList = .ok (.int, []) := rfl
  refine ⟨rfl, m, f, lives, agree, ?_⟩
  rcases ((lives.reads_fit decoded).1 agree).1 _ current rfl rfl with
    ⟨_, _, fails⟩ | ⟨_, _, delays⟩ | pushes
  · cases next.symm.trans fails
  · cases next.symm.trans delays
  · exact pushes

/-- What has been written as a word may be read by the descriptor of a class, and is
the same word. -/
theorem reread_reads_word :
    ClassTable.load [⟨"Reread", rootClass, [rereadCode "Ljava/lang/Object;"]⟩] =
        .ok (rereadTable "Ljava/lang/Object;") ∧
      Ty.decode "Ljava/lang/Object;".toList = .ok (.object "java/lang/Object", []) ∧
      ∃ (m m' : Machine Unit) (f : Frame) (insn : Instruction),
        (Progress.fresh (rereadTable "Ljava/lang/Object;") {} ()).Lives HostAction.SparesFields
          (.running m f .host) ∧
        f.insn? = some insn ∧ insn.opcode = .getStatic ∧
        insn.operand? 0 = some (.field ⟨"Reread", "x", "Ljava/lang/Object;"⟩) ∧
        m.step f .host = .running m' (f.push (.int 5)).advance .host := by
  obtain ⟨m, m', f, there, current, step⟩ : ∃ m m' f,
      ((Machine.create (rereadTable "Ljava/lang/Object;") {} ()).start "Reread" "run" "()I"
        []).run 2 = .running m f .host ∧
      f.insn? = some ⟨5, .getStatic, [.field ⟨"Reread", "x", "Ljava/lang/Object;"⟩], none⟩ ∧
      m.step f .host = .running m' (f.push (.int 5)).advance .host :=
    ⟨_, _, _, rfl, rfl, rfl⟩
  exact ⟨rfl, rfl, m, m', f, _, reread_lives _ _ there, current, rfl, rfl, step⟩

end ClassMachine
