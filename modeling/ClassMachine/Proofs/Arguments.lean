import ClassMachine.Proofs.DescriptorGrammar
import ClassMachine.Proofs.Loaded
import ClassMachine.Proofs.Operands
import ClassMachine.Proofs.Suspension

/-!
# Arguments in local variables

A new frame has the receiver in the first slot and the arguments behind it, each in the
slot where the widths of those before it end (`LoadedMethod.slotOf`).

* `LoadedMethod.Takes`: what a call must bring along, and `Frame.Holds`: what its frame
  has. A method is entered if and only if it takes what it is given
  (`Frame.enter_isOk_iff`), and the frame then holds it (`Frame.enter_holds`).
* `Machine.Invokes`: a frame of a method is put above the instruction that calls it, at
  once or behind the initializer of the class.
-/

namespace ClassMachine

variable {ω : Type} {m m' : Machine ω} {f g callee : Frame} {link : Link} {insn : Instruction}
  {ty : Ty} {types : List Ty} {value : Value} {values args : List Value} {base slot : Nat}
  {method : LoadedMethod} {receiver : Option Value}

/-! ## Slots -/

/-- The number of slots that a parameter takes. -/
def Ty.width (ty : Ty) : Nat :=
  if ty = .long ∨ ty = .double then 2 else 1

/-- The slot of the parameter at a position, if the first one has the slot `base`. -/
def Ty.slotAt (types : List Ty) (base position : Nat) : Nat :=
  (types.take position).foldl (fun slot ty => slot + ty.width) base

namespace Ty

@[simp]
theorem slotAt_zero (types : List Ty) (base : Nat) : slotAt types base 0 = base :=
  rfl

@[simp]
theorem slotAt_cons_succ (ty : Ty) (types : List Ty) (base position : Nat) :
    slotAt (ty :: types) base (position + 1) = slotAt types (base + ty.width) position :=
  rfl

theorem width_pos (ty : Ty) : 0 < ty.width := by
  unfold width
  split <;> decide

theorem le_slotAt (types : List Ty) (base position : Nat) : base ≤ slotAt types base position := by
  induction types generalizing base position with
  | nil => rw [slotAt, List.take_nil, List.foldl_nil]
  | cons ty types ih =>
      cases position with
      | zero => exact Nat.le_refl _
      | succ position => exact Nat.le_of_add_right_le (ih (base + ty.width) position)

end Ty

/-! ## Placing -/

namespace Frame

/-- Arguments are placed one by one, each behind the slots of the one before it. -/
theorem placeArgs_cons_eq_ok :
    f.placeArgs slot (ty :: types) (value :: values) = .ok g ↔
      value.fits ty = true ∧ slot < f.locals.size ∧
        { f with locals := f.locals.setIfInBounds slot (some value) }.placeArgs
          (slot + ty.slots) types values = .ok g := by
  rw [placeArgs, bind_eq_ok]
  constructor
  · rintro ⟨_, fits, placed⟩
    obtain ⟨f₁, stored, placed⟩ := bind_eq_ok.1 placed
    obtain ⟨inside, rfl⟩ := store_eq_ok.1 stored
    exact ⟨checkFit_eq_ok.1 fits, inside, placed⟩
  · rintro ⟨fits, inside, placed⟩
    exact ⟨(), checkFit_eq_ok.2 fits, bind_eq_ok.2 ⟨_, store_eq_ok.2 ⟨inside, rfl⟩, placed⟩⟩

theorem placeArgs_isOk_iff (fields : ∀ ty ∈ types, ty.IsField)
    (count : values.length = types.length) :
    (∃ g, f.placeArgs slot types values = .ok g) ↔
      ∀ k ty value, types[k]? = some ty → values[k]? = some value →
        value.fits ty = true ∧ Ty.slotAt types slot k < f.locals.size := by
  -- The arguments behind the first one begin where its slots end.
  induction types generalizing f slot values with
  | nil => exact ⟨fun _ => nofun, fun _ => ⟨f, rfl⟩⟩
  | cons ty types ih =>
      obtain ⟨value, values, rfl⟩ := List.exists_cons_of_length_eq_add_one count
      obtain ⟨field, fields⟩ := List.forall_mem_cons.1 fields
      have width : ty.slots = ty.width := Ty.slots_of_isField field
      have count : values.length = types.length := Nat.succ.inj count
      simp only [placeArgs_cons_eq_ok, exists_and_left, ih fields count, width,
        Array.size_setIfInBounds]
      constructor
      · rintro ⟨fits, inside, others⟩ k
        cases k with
        | zero =>
            rintro _ _ ⟨⟩ ⟨⟩
            exact ⟨fits, inside⟩
        | succ k =>
            intro ty' value' type there
            rw [Ty.slotAt_cons_succ]
            exact others k ty' value' type there
      · intro all
        obtain ⟨fits, inside⟩ := all 0 ty value rfl rfl
        refine ⟨fits, inside, fun k ty' value' type there => ?_⟩
        have later := all (k + 1) ty' value' type there
        rwa [Ty.slotAt_cons_succ] at later

/-- Each argument is in its slot, and nothing else of the frame has changed. -/
theorem placeArgs_places (fields : ∀ ty ∈ types, ty.IsField)
    (count : values.length = types.length) (placed : f.placeArgs slot types values = .ok g) :
    g.stack = f.stack ∧
      (∀ k value, values[k]? = some value →
        g.locals[Ty.slotAt types slot k]? = some (some value)) ∧
      ∀ i, (∀ k < types.length, i ≠ Ty.slotAt types slot k) → g.locals[i]? = f.locals[i]? := by
  induction types generalizing f slot values with
  | nil =>
      cases placed
      obtain rfl := List.eq_nil_of_length_eq_zero count
      exact ⟨rfl, nofun, fun _ _ => rfl⟩
  | cons ty types ih =>
      obtain ⟨value, values, rfl⟩ := List.exists_cons_of_length_eq_add_one count
      obtain ⟨field, fields⟩ := List.forall_mem_cons.1 fields
      have width : ty.slots = ty.width := Ty.slots_of_isField field
      obtain ⟨_, inside, placed⟩ := placeArgs_cons_eq_ok.1 placed
      rw [width] at placed
      obtain ⟨stack, args, others⟩ := ih fields (Nat.succ.inj count) placed
      refine ⟨stack, fun k value' there => ?_, fun i apart => ?_⟩
      · cases k with
        | zero =>
            -- The later arguments lie behind the slots of this one.
            cases there
            rw [Ty.slotAt_zero, others slot fun k _ => ?_]
            · simp [inside]
            · have behind := Ty.le_slotAt types (slot + ty.width) k
              have := ty.width_pos
              omega
        | succ k =>
            rw [Ty.slotAt_cons_succ]
            exact args k value' there
      · have first : i ≠ slot := apart 0 (Nat.succ_pos _)
        rw [others i fun k inside => ?_]
        · simp [first.symm]
        · have later := apart (k + 1) (Nat.succ_lt_succ inside)
          rwa [Ty.slotAt_cons_succ] at later

end Frame

/-! ## New frames -/

namespace LoadedMethod

/-- The slot of the argument at a position: the receiver, if there is one, and the
arguments before it lie in front. -/
def slotOf (method : LoadedMethod) (receiver : Option Value) (position : Nat) : Nat :=
  Ty.slotAt method.descriptor.params (if receiver.isSome then 1 else 0) position

/-- What the frame of a call has to be given. -/
structure Takes (method : LoadedMethod) (receiver : Option Value) (args : List Value) :
    Prop where
  count : args.length = method.descriptor.params.length
  object : ∀ value ∈ receiver, (∃ index, value = .ref index) ∧ 1 ≤ method.code.maxLocals.toNat
  kinds : ∀ (k : Nat) (ty : Ty) (value : Value),
    method.descriptor.params[k]? = some ty → args[k]? = some value →
    if ty.isIntLike then ∃ word, value = .int word
    else value = .null ∨ ∃ index, value = .ref index
  room : ∀ k < method.descriptor.params.length,
    method.slotOf receiver k < method.code.maxLocals.toNat

end LoadedMethod

namespace Frame

/-- The frame at the start of a call: the receiver and the arguments are in their slots,
and nothing else has been written. -/
structure Holds (f : Frame) (method : LoadedMethod) (receiver : Option Value)
    (args : List Value) : Prop where
  size : f.locals.size = method.code.maxLocals.toNat
  object : ∀ value ∈ receiver, f.locals[0]? = some (some value)
  each : ∀ k value, args[k]? = some value →
    f.locals[method.slotOf receiver k]? = some (some value)
  unset : ∀ i < method.code.maxLocals.toNat, (receiver.isSome → i ≠ 0) →
    (∀ k < args.length, i ≠ method.slotOf receiver k) → f.locals[i]? = some none
  stack : f.stack = []
  ip : f.ip = 0

theorem placeReceiver_isOk_iff :
    (∃ placed, f.placeReceiver receiver = .ok placed) ↔
      ∀ value ∈ receiver, (∃ index, value = .ref index) ∧ 1 ≤ f.locals.size := by
  cases receiver with
  | none => exact ⟨fun _ => nofun, fun _ => ⟨_, rfl⟩⟩
  | some value =>
      cases value with
      | ref index =>
          simp only [placeReceiver, bind_eq_ok, store_eq_ok]
          constructor
          · rintro ⟨_, _, ⟨inside, _⟩, _⟩ _ ⟨⟩
            exact ⟨⟨index, rfl⟩, inside⟩
          · intro given
            exact ⟨_, _, ⟨(given _ rfl).2, rfl⟩, rfl⟩
      | int word => simp [placeReceiver]
      | null => simp [placeReceiver]

/-- The receiver takes the first slot. -/
theorem placeReceiver_places (placed : f.placeReceiver receiver = .ok (slot, g)) :
    slot = (if receiver.isSome then 1 else 0) ∧ g.stack = f.stack ∧
      g.locals.size = f.locals.size ∧ (∀ value ∈ receiver, g.locals[0]? = some (some value)) ∧
      ∀ i, (receiver.isSome → i ≠ 0) → g.locals[i]? = f.locals[i]? := by
  unfold placeReceiver at placed
  split at placed
  · cases placed
    exact ⟨rfl, rfl, rfl, nofun, fun _ _ => rfl⟩
  · rename_i index
    obtain ⟨f₁, stored, placed⟩ := bind_eq_ok.1 placed
    obtain ⟨inside, rfl⟩ := store_eq_ok.1 stored
    cases placed
    refine ⟨rfl, rfl, Array.size_setIfInBounds, ?_, fun i apart => ?_⟩
    · rintro _ ⟨⟩
      simp [Nat.lt_of_lt_of_le Nat.one_pos inside]
    · have first : i ≠ 0 := apart rfl
      simp [first.symm]
  · cases placed

/-- The frame of a method before anything is placed in it. -/
def blank (method : LoadedMethod) : Frame :=
  { locals := Array.replicate method.code.maxLocals.toNat none
    stack := []
    ip := 0
    method
    receiver := none }

theorem enter_eq_ok_iff :
    Frame.enter method receiver args = .ok f ↔
      args.length = method.descriptor.params.length ∧
        ∃ slot g, (blank method).placeReceiver receiver = .ok (slot, g) ∧
          g.placeArgs slot method.descriptor.params args = .ok f := by
  unfold Frame.enter
  split
  · rename_i count
    exact ⟨nofun, fun ⟨count', _⟩ => (count count').elim⟩
  · rename_i count
    constructor
    · intro entered
      obtain ⟨⟨slot, g⟩, received, placed⟩ := bind_eq_ok.1 entered
      exact ⟨Decidable.not_not.1 count, slot, g, received, placed⟩
    · rintro ⟨_, slot, g, received, placed⟩
      exact bind_eq_ok.2 ⟨(slot, g), received, placed⟩

theorem size_locals_blank (method : LoadedMethod) :
    (blank method).locals.size = method.code.maxLocals.toNat :=
  Array.size_replicate

/-- A method is entered if and only if it takes what it is given. -/
theorem enter_isOk_iff (fields : ∀ ty ∈ method.descriptor.params, ty.IsField) :
    (∃ f, Frame.enter method receiver args = .ok f) ↔ method.Takes receiver args := by
  have blankSize := size_locals_blank method
  constructor
  · rintro ⟨f, entered⟩
    obtain ⟨count, slot, g, received, placed⟩ := enter_eq_ok_iff.1 entered
    have given := placeReceiver_isOk_iff.1 ⟨_, received⟩
    obtain ⟨rfl, _, size, _⟩ := placeReceiver_places received
    have each := (placeArgs_isOk_iff fields count).1 ⟨f, placed⟩
    rw [size, blankSize] at each
    rw [blankSize] at given
    refine ⟨count, given, fun k ty value type there => ?_, fun k inside => ?_⟩
    · exact Value.fits_iff.1 (each k ty value type there).1
    · have there : args[k]? = some args[k] := List.getElem?_eq_getElem (count ▸ inside)
      exact (each k _ _ (List.getElem?_eq_getElem inside) there).2
  · intro takes
    have given := takes.object
    rw [← blankSize] at given
    obtain ⟨⟨slot, g⟩, received⟩ := placeReceiver_isOk_iff.2 given
    obtain ⟨rfl, _, size, _⟩ := placeReceiver_places received
    obtain ⟨f, placed⟩ := (placeArgs_isOk_iff (f := g) fields takes.count).2
      fun k ty value type there => by
        obtain ⟨inside, _⟩ := List.getElem?_eq_some_iff.1 type
        rw [size, blankSize]
        exact ⟨Value.fits_iff.2 (takes.kinds k ty value type there), takes.room k inside⟩
    exact ⟨f, enter_eq_ok_iff.2 ⟨takes.count, _, g, received, placed⟩⟩

theorem enter_holds (fields : ∀ ty ∈ method.descriptor.params, ty.IsField)
    (entered : Frame.enter method receiver args = .ok f) : f.Holds method receiver args := by
  obtain ⟨count, slot, g, received, placed⟩ := enter_eq_ok_iff.1 entered
  obtain ⟨rfl, stack, size, first, others⟩ := placeReceiver_places received
  obtain ⟨stack', places, apart⟩ := placeArgs_places fields count placed
  have ip := (Frame.enter_eq_ok entered).2
  refine ⟨?_, fun value given => ?_, places, fun i inside behind free => ?_, ?_, ip⟩
  · rw [(alike_of_placeArgs placed).size, size, size_locals_blank]
  · rw [← first value given]
    refine apart 0 fun k _ => ?_
    rw [Option.mem_def.1 given]
    exact (Nat.lt_of_lt_of_le Nat.one_pos (Ty.le_slotAt _ 1 k)).ne
  · rw [apart i fun k bound => free k (count ▸ bound), others i behind]
    simp [blank, inside]
  · rw [stack', stack]
    rfl

end Frame

namespace ClassTable

variable {classes : List ClassCode} {table : ClassTable} {key : MethodKey}

/-- The parameters of a loaded method are of field types, as its descriptor has been read. -/
theorem isField_of_load (loaded : load classes = .ok table)
    (found : table.method? key = some method) :
    ∀ ty ∈ method.descriptor.params, ty.IsField := by
  have sound := ((load_sound loaded).method found).1
  obtain ⟨_, _, written⟩ := Descriptor.parse_eq_ok_iff.1 sound.descriptor
  exact fun ty member => (written.wellFormed.params ty member).1

end ClassTable

/-! ## Calls -/

/-- A frame is put above the instruction that calls it: at once, or when the frame of an
initializer, which is put there first, returns. -/
inductive Machine.Invokes (m : Machine ω) (f : Frame) (link : Link) :
    Machine ω → Frame → Prop
  | atOnce {m' : Machine ω} {callee g : Frame} {key : MethodKey} {wantsValue : Bool} :
    m.step f link = .running m' callee (.caller g (.call key wantsValue) link) →
    Invokes m f link m' callee
  | afterInitializer {m₁ m₂ m' : Machine ω} {initializer last callee g g' : Frame}
    {name : String} {resume : Resume} {key : MethodKey} {wantsValue : Bool} :
    m.step f link =
      .running m₁ initializer (.caller g (.initializer name resume) link) →
    (Progress.running m₁ initializer (.caller g (.initializer name resume) link)).Reaches
      (.running m₂ last (.caller g (.initializer name resume) link)) →
    m₂.step last (.caller g (.initializer name resume) link) =
      .running m' callee (.caller g' (.call key wantsValue) link) →
    Invokes m f link m' callee

namespace Machine

/-- A step after which the program goes on has carried out the instruction. -/
theorem execute_of_step {above : Link} (current : f.insn? = some insn)
    (next : m.step f link = .running m' g above) :
    ∃ effect, insn.execute m.heap f = .ok effect ∧ m.counted.apply link effect =
      .running m' g above := by
  have fails (m₁ : Machine ω) (method : LoadedMethod) (index : Nat) (fault : Fault) :
      m₁.failAt method index link fault ≠ .running m' g above := by
    obtain ⟨m₂, ends, _⟩ := m₁.failAt_eq method index link fault
    rw [ends]
    exact nofun
  by_cases spent : m.Spent
  · obtain ⟨budget, limited, reached⟩ := spent
    rw [step_of_spent current limited reached] at next
    exact (fails _ _ _ _ next).elim
  · rw [step_of_not_spent current spent, perform] at next
    split at next
    · rename_i effect done
      exact ⟨effect, done, next⟩
    · exact (fails _ _ _ _ next).elim

/-- The initializer returns to the static call that waits for it, and the method is
entered with the arguments that were taken. -/
theorem enter_of_resume {key : MethodKey} {name : String} {wants wants' : Bool} {g' : Frame}
    (value : Option Value)
    (next : (Link.caller g (.initializer name (.enter method args wants)) link).resume m value =
      .running m' callee (.caller g' (.call key wants') link)) :
    Frame.enter method none args = .ok callee := by
  rw [Link.resume, proceed, enterFrom] at next
  split at next
  · rename_i m'' frame entered
    cases next
    unfold enter at entered
    split at entered
    · cases entered
    · obtain ⟨frame, entered, done⟩ := bind_eq_ok.1 entered
      cases done
      exact entered
  · obtain ⟨m₂, ends, _⟩ := m.failAt_eq g.method g.ip link (by assumption)
    rw [fail, ends] at next
    cases next

/-- Where the frame that waits has come to wait for something else, the frame above it has
returned. -/
theorem resume_of_step {await await' : Await} {g' : Frame}
    (next : m.step f (.caller g await link) = .running m' callee (.caller g' await' link))
    (other : await ≠ await') :
    ∃ m'' value, (Link.caller g await link).resume m'' value =
      .running m' callee (.caller g' await' link) := by
  have turns := m.step_turns f (.caller g await link)
  rw [next] at turns
  generalize goal : Progress.running m' callee (.caller g' await' link) = p at turns
  cases turns with
  | continues continues =>
      cases continues with
      | stays =>
          cases goal
          exact (other rfl).elim
      | waits =>
          cases goal
      | ends => cases goal
  | returns m'' value => exact ⟨m'', value, rfl⟩

/-- A step that goes on has taken the operands of the call, if it is one. -/
theorem calling_of_step {mode : CallMode} {above : Link} (current : f.insn? = some insn)
    (opcode : insn.opcode = .invoke mode) (next : m.step f link = .running m' g above) :
    ∃ ref k rest c,
      insn.operand? 0 = some (.method ref) ∧ c.mode = mode ∧
      c.key = .of ref.owner ref.name ref.descriptor ∧ (c.receiver = none ↔ mode = .static) ∧
      f.stack = c.args.reverse ++ ((c.receiver.map Value.ofReference).toList ++ rest) ∧
      m.counted.Calling k link c (.running m' g above) := by
  obtain ⟨effect, done, next⟩ := execute_of_step current next
  obtain ⟨ref, operand, done⟩ := Instruction.takeCall_of_execute opcode done
  obtain ⟨k, c, rfl, _, mode, key, _, static, stack, _⟩ := Frame.takeCall_eq_ok done
  have calling := m.counted.call_calling k link c
  rw [apply] at next
  rw [next] at calling
  exact ⟨ref, k, k.stack, c, operand, mode, key, static, stack, calling⟩

/-- Only the method that a static or special call names is entered, with the operands of the
call. -/
theorem Invokes.enters {mode : CallMode} (invokes : m.Invokes f link m' callee)
    (current : f.insn? = some insn) (opcode : insn.opcode = .invoke mode) :
    ∃ ref receiver args rest,
      insn.operand? 0 = some (.method ref) ∧
      m.classes.method? (.of ref.owner ref.name ref.descriptor) = some callee.method ∧
      (mode = .static ∧ receiver = none ∨ mode = .special ∧ receiver.isSome) ∧
      f.stack = args.reverse ++ (receiver.toList ++ rest) ∧
      Frame.enter callee.method receiver args = .ok callee := by
  cases invokes with
  | atOnce next =>
      obtain ⟨ref, _, rest, c, operand, rfl, key, nullary, stack, calling⟩ :=
        calling_of_step current opcode next
      -- Only a method that is entered leaves a frame above the caller and waiting for it.
      generalize goal : Progress.running _ _ _ = p at calling
      cases calling with
      | fails => cases goal
      | answered =>
          obtain ⟨_, _, same, _⟩ := deliver_eq_running goal.symm
          exact (link.caller_ne _ _ same).elim
      | delayed => cases goal
      | @entered m₁ method frame receiver key' found given entered =>
          cases goal
          obtain rfl := (Frame.enter_eq_ok entered).1
          rw [key] at found
          refine ⟨ref, receiver.map Value.ref, c.args, rest, operand, found, ?_, ?_, entered⟩
          · rcases given with ⟨static, rfl⟩ | ⟨special, object, _⟩
            · exact Or.inl ⟨static, rfl⟩
            · exact Or.inr ⟨special, by rw [Option.isSome_map]; exact object⟩
          · rw [stack]
            rcases given with ⟨static, rfl⟩ | ⟨_, object, same⟩
            · rw [nullary.2 static]
              rfl
            · obtain ⟨index, rfl⟩ := Option.isSome_iff_exists.1 object
              rw [same]
              rfl
  | afterInitializer first _ last =>
      obtain ⟨ref, _, rest, c, operand, rfl, key, nullary, stack, calling⟩ :=
        calling_of_step current opcode first
      generalize goal : Progress.running _ _ _ = p at calling
      cases calling with
      | fails => cases goal
      | answered =>
          obtain ⟨_, _, same, _⟩ := deliver_eq_running goal.symm
          exact (link.caller_ne _ _ same).elim
      | entered => cases goal
      | delayed initializer found static =>
          cases goal
          -- The arguments have waited in the caller together with the method.
          obtain ⟨_, value, resumed⟩ := resume_of_step last nofun
          have entered := enter_of_resume value resumed
          obtain rfl := (Frame.enter_eq_ok entered).1
          rw [key] at found
          refine ⟨ref, none, c.args, rest, operand, found, Or.inl ⟨static, rfl⟩, ?_, entered⟩
          rw [stack, nullary.2 static]
          rfl

end Machine

theorem Frame.load_eq_ok {index : Nat} (there : f.locals[index]? = some (some value)) :
    f.load index = .ok value := by
  rw [load, there]

/-- **Arguments are placed exactly.** A frame for a loaded method can be made if and only if
the method takes the receiver and the arguments, and it then holds each of them in its slot
and nothing else. The frame that a call instruction puts above its own is one for the method
that it names: the operands that were pushed are found in the slots, the first one pushed
in the first of them. -/
theorem ClassTable.arguments_placed {classes : List ClassCode} {table : ClassTable}
    (loaded : ClassTable.load classes = .ok table) :
    (∀ key method receiver args, table.method? key = some method →
      ((∃ f, Frame.enter method receiver args = .ok f) ↔ method.Takes receiver args) ∧
        ∀ f, Frame.enter method receiver args = .ok f → f.Holds method receiver args) ∧
    ∀ (ω : Type) (m m' : Machine ω) (f callee : Frame) (link : Link) (insn : Instruction)
      (mode : CallMode), m.classes = table → f.insn? = some insn →
      insn.opcode = .invoke mode → m.Invokes f link m' callee →
      ∃ ref receiver args rest,
        insn.operand? 0 = some (.method ref) ∧
        table.method? (.of ref.owner ref.name ref.descriptor) = some callee.method ∧
        (mode = .static ∧ receiver = none ∨ mode = .special ∧ receiver.isSome) ∧
        f.stack = args.reverse ++ (receiver.toList ++ rest) ∧
        callee.method.Takes receiver args ∧ callee.Holds callee.method receiver args ∧
        (∀ value ∈ receiver, callee.load 0 = .ok value) ∧
        ∀ k value, args[k]? = some value →
          callee.load (callee.method.slotOf receiver k) = .ok value := by
  constructor
  · intro key method receiver args found
    have fields := isField_of_load loaded found
    exact ⟨Frame.enter_isOk_iff fields, fun f => Frame.enter_holds fields⟩
  · rintro ω m m' f callee link insn mode rfl current opcode invokes
    obtain ⟨ref, receiver, args, rest, operand, found, given, stack, entered⟩ :=
      invokes.enters current opcode
    have fields := isField_of_load loaded found
    have holds := Frame.enter_holds fields entered
    exact ⟨ref, receiver, args, rest, operand, found, given, stack,
      (Frame.enter_isOk_iff fields).1 ⟨callee, entered⟩, holds,
      fun value there => Frame.load_eq_ok (holds.object value there),
      fun k value there => Frame.load_eq_ok (holds.each k value there)⟩

/-! ## A wide argument -/

/-- A method that calls another one with a long number and a word. -/
def longCallCode : MethodCode where
  name := "run"
  descriptor := "()I"
  flags := .ofList [.accStatic]
  maxStack := 3
  maxLocals := 0
  argsSize := 0
  instructions :=
    [⟨0, .lconst, [.int 1], none⟩, ⟨1, .bipush, [.int 5], none⟩,
      ⟨3, .invoke .static, [.method ⟨"Wide", "second", "(JI)I"⟩], none⟩,
      ⟨6, .returnValue .int, [], none⟩]

/-- The method that is called gives back the word, which is behind two slots. -/
def secondCode : MethodCode where
  name := "second"
  descriptor := "(JI)I"
  flags := .ofList [.accStatic]
  maxStack := 1
  maxLocals := 3
  argsSize := 3
  instructions := [⟨0, .load .int, [.slot 2], none⟩, ⟨1, .returnValue .int, [], none⟩]

/-- The call finds the long number in the first slot and the word in the third. -/
theorem long_arguments_placed :
    ∃ (table : ClassTable) (m m' : Machine Unit) (f callee : Frame),
      ClassTable.load [⟨"Wide", rootClass, [longCallCode, secondCode]⟩] = .ok table ∧
      ((Machine.create table {} ()).start "Wide" "run" "()I" []).run 2 = .running m f .host ∧
      m.Invokes f .host m' callee ∧ f.stack = [.int 5, .ref 0] ∧
      callee.load 0 = .ok (.ref 0) ∧ callee.load 2 = .ok (.int 5) := by
  obtain ⟨table, m, m', f, callee, g, loaded, there, classes, current, stack, next, params⟩ :
      ∃ table m m' f callee g,
        ClassTable.load [⟨"Wide", rootClass, [longCallCode, secondCode]⟩] = .ok table ∧
        ((Machine.create table {} ()).start "Wide" "run" "()I" []).run 2 =
          .running m f .host ∧ m.classes = table ∧
        f.insn? =
          some ⟨3, .invoke .static, [.method ⟨"Wide", "second", "(JI)I"⟩], none⟩ ∧
        f.stack = [.int 5, .ref 0] ∧
        m.step f .host = .running m' callee
          (.caller g (.call ⟨"Wide", "second", "(JI)I"⟩ true) .host) ∧
        callee.method.descriptor.params = [.long, .int] :=
    ⟨_, _, _, _, _, _, rfl, rfl, rfl, rfl, rfl, rfl, rfl⟩
  have invokes : m.Invokes f .host m' callee := .atOnce next
  obtain ⟨_, receiver, args, rest, _, _, given, pushed, takes, _, _, each⟩ :=
    (ClassTable.arguments_placed loaded).2 Unit m m' f callee .host _ _ classes current rfl
      invokes
  obtain rfl : receiver = none := by
    rcases given with ⟨_, none⟩ | ⟨special, _⟩
    · exact none
    · cases special
  have count : args.reverse.length = 2 := by
    rw [List.length_reverse, takes.count, params]
    rfl
  rw [stack, Option.toList_none, List.nil_append] at pushed
  obtain rfl : args = [.ref 0, .int 5] := by
    have top := congrArg (List.take 2) pushed
    rw [← count, List.take_left, count] at top
    rw [← List.reverse_reverse args, ← top]
    rfl
  have first := each 0 _ rfl
  have second := each 1 _ rfl
  rw [LoadedMethod.slotOf, params] at first second
  exact ⟨table, m, m', f, callee, loaded, there, invokes, stack, first, second⟩

end ClassMachine
