import ClassMachine.Proofs.HeapHistory

/-!
# Live references

A reference is live if it is below the size of the heap. A heap is closed if all
references in it are live, and so are the indices of interned objects.

An instruction that works on a closed heap and a frame with live references comes to an
effect with live references, or it fails for something else than a reference to no
object (`Instruction.execute_yields`). `Yields` says both of a computation, so that the
lemma for a sequence of computations is put together from those for its parts.
-/

namespace ClassMachine

variable {f g : Frame} {h : Heap} {n n' : Nat} {insn : Instruction} {value : Value}

/-! ## Values and objects -/

/-- If the value is a reference, then one below the bound. -/
def Value.Live (n : Nat) (value : Value) : Prop :=
  ∀ index, value = .ref index → index < n

namespace Value

theorem Live.mono (live : value.Live n) (grows : n ≤ n') : value.Live n' :=
  fun index eq => Nat.lt_of_lt_of_le (live index eq) grows

theorem live_int (word : Int32) : (Value.int word).Live n :=
  nofun

theorem live_null : Value.null.Live n :=
  nofun

theorem live_ref {index : Nat} (bound : index < n) : (Value.ref index).Live n := by
  rintro _ ⟨⟩
  exact bound

theorem live_defaultFor (descriptor : String) : (defaultFor descriptor).Live n := by
  unfold defaultFor
  split
  all_goals nofun

end Value

/-- If there is a value, it is live. -/
def LiveOption (n : Nat) (value : Option Value) : Prop :=
  ∀ v, value = some v → v.Live n

theorem liveOption_none : LiveOption n none :=
  fun _ absent => nomatch absent

theorem liveOption_some (live : value.Live n) : LiveOption n (some value) := by
  rintro _ ⟨⟩
  exact live

/-- Every reference in the object is below the bound. -/
def HeapObject.Live (n : Nat) : HeapObject → Prop
  | .object _ fields => ∀ name value, fields.find? name = some value → value.Live n
  | .refs _ elements => ∀ position, (elements.get position).Live n
  | _ => True

/-- A reference that is written is below the bound. -/
def Write.Live (n : Nat) : Write → Prop
  | .word _ _ => True
  | .reference _ value => (Value.ofReference value).Live n
  | .field _ value => value.Live n

namespace HeapObject

variable {o : HeapObject} {w : Write}

theorem Live.mono (live : o.Live n) (grows : n ≤ n') : o.Live n' := by
  cases o with
  | object className fields => exact fun name value found => (live name value found).mono grows
  | refs component elements => exact fun position => (live position).mono grows
  | _ => trivial

theorem Live.write (live : o.Live n) (fresh : w.Live n) : (o.write w).Live n := by
  cases o with
  | object className fields =>
      cases w with
      | field name value =>
          intro other found there
          rcases Table.find?_insert_eq_some there with ⟨_, rfl⟩ | ⟨_, there⟩
          · exact fresh
          · exact live other found there
      | word | reference => exact live
  | refs component elements =>
      cases w with
      | reference position value =>
          intro other
          by_cases same : other = position
          · subst same
            by_cases inside : other < elements.size
            · rw [Cells.get_set_self elements _ inside]
              exact fresh
            · rw [Cells.set, dif_neg inside]
              exact live other
          · rw [Cells.get_set_of_ne elements _ same]
            exact live other
      | word | field => exact live
  | _ => cases w <;> trivial

end HeapObject

/-! ## Heaps -/

/-- Every reference in the heap is live, and so is the index of every interned object. -/
structure Heap.Closed (h : Heap) : Prop where
  objects : ∀ index o, h.get? index = some o → o.Live h.size
  strings : ∀ text index, h.strings.find? text = some index → index < h.size
  classes : ∀ name index, h.classes.find? name = some index → index < h.size

namespace Heap

theorem size_alloc (h : Heap) (object : HeapObject) : (h.alloc object).2.size = h.size + 1 :=
  Array.size_push _

theorem lt_size_alloc (h : Heap) (object : HeapObject) : h.size < (h.alloc object).2.size := by
  rw [size_alloc]
  exact Nat.lt_succ_self _

theorem exists_of_lt {index : Nat} (live : index < h.size) : ∃ o, h.get? index = some o :=
  ⟨_, Array.getElem?_eq_getElem live⟩

theorem closed_empty : empty.Closed :=
  ⟨nofun, nofun, nofun⟩

/-- The index of a new object is live. -/
theorem Closed.alloc {object : HeapObject} (closed : h.Closed) (live : object.Live h.size) :
    (h.alloc object).2.Closed where
  objects := by
    intro index o there
    rw [size_alloc]
    rw [get?_alloc] at there
    split at there
    · cases there
      exact live.mono (Nat.le_succ _)
    · exact (closed.objects index o there).mono (Nat.le_succ _)
  strings := by
    intro text index found
    rw [size_alloc]
    exact Nat.lt_succ_of_lt (closed.strings text index found)
  classes := by
    intro name index found
    rw [size_alloc]
    exact Nat.lt_succ_of_lt (closed.classes name index found)

theorem size_write (h : Heap) (target : Nat) (w : Write) : (h.write target w).size = h.size :=
  Array.size_modify

theorem Closed.write {w : Write} (closed : h.Closed) (live : w.Live h.size) (target : Nat) :
    (h.write target w).Closed where
  objects := by
    intro index o there
    rw [size_write]
    rw [get?_write] at there
    split at there
    · obtain ⟨before, found, rfl⟩ := Option.map_eq_some_iff.1 there
      exact (closed.objects index before found).write live
    · exact closed.objects index o there
  strings := by
    rw [size_write]
    exact closed.strings
  classes := by
    rw [size_write]
    exact closed.classes

/-- Interning leaves a closed heap, in which the object is. -/
theorem Closed.intern (closed : h.Closed) (text : String) :
    (h.intern text).2.Closed ∧ (h.intern text).1 < (h.intern text).2.size := by
  cases found : h.strings.find? text with
  | some index =>
      rw [intern_of_present found]
      exact ⟨closed, closed.strings text index found⟩
  | none =>
      rw [intern_of_absent found]
      obtain ⟨objects, strings, classes⟩ : (h.alloc (.string text)).2.Closed :=
        closed.alloc trivial
      have fresh := h.lt_size_alloc (.string text)
      refine ⟨⟨objects, fun key index there => ?_, classes⟩, fresh⟩
      rcases Table.find?_insert_eq_some there with ⟨_, rfl⟩ | ⟨_, there⟩
      · exact fresh
      · exact strings key index there

theorem Closed.classLiteral (closed : h.Closed) (name : String) :
    (h.classLiteral name).2.Closed ∧ (h.classLiteral name).1 < (h.classLiteral name).2.size := by
  cases found : h.classes.find? name with
  | some index =>
      rw [classLiteral_of_present found]
      exact ⟨closed, closed.classes name index found⟩
  | none =>
      rw [classLiteral_of_absent found]
      obtain ⟨objects, strings, classes⟩ : (h.alloc (.classLiteral name)).2.Closed :=
        closed.alloc trivial
      have fresh := h.lt_size_alloc (.classLiteral name)
      refine ⟨⟨objects, strings, fun key index there => ?_⟩, fresh⟩
      rcases Table.find?_insert_eq_some there with ⟨_, rfl⟩ | ⟨_, there⟩
      · exact fresh
      · exact classes key index there

/-- The value of a literal is live in the heap that it is allocated in. -/
theorem Closed.constant (closed : h.Closed) (literal : Constant) :
    (h.constant literal).2.Closed ∧
      (h.constant literal).1.Live (h.constant literal).2.size := by
  have allocated (object : HeapObject) (live : object.Live h.size) :
      (h.alloc object).2.Closed ∧ (Value.ref h.size).Live (h.alloc object).2.size :=
    ⟨closed.alloc live, Value.live_ref (h.lt_size_alloc object)⟩
  cases literal with
  | int word => exact ⟨closed, Value.live_int word⟩
  | string text =>
      obtain ⟨closed', bound⟩ := closed.intern text
      exact ⟨closed', Value.live_ref bound⟩
  | classRef name =>
      obtain ⟨closed', bound⟩ := closed.classLiteral name
      exact ⟨closed', Value.live_ref bound⟩
  | float word => exact allocated (.float word) trivial
  | long word => exact allocated (.long word) trivial
  | double word => exact allocated (.double word) trivial

end Heap

/-! ## Computations -/

/-- The fault is not that a reference leads to no object. -/
def Fault.Grounded (fault : Fault) : Prop :=
  ∀ expected, fault ≠ .wrongObject expected none

/-- The computation gives something with the property, or fails for something else than
a reference to no object. -/
def Yields {α : Type} (P : α → Prop) : Except Fault α → Prop
  | .ok a => P a
  | .error fault => fault.Grounded

namespace Yields

variable {α β : Type} {P : α → Prop} {Q : β → Prop} {x : Except Fault α}

theorem bind {k : α → Except Fault β} (first : Yields P x) (rest : ∀ a, P a → Yields Q (k a)) :
    Yields Q (x >>= k) := by
  cases x with
  | ok a => exact rest a first
  | error fault => exact first

theorem of_ok {a : α} (yields : Yields P x) (done : x = .ok a) : P a := by
  rw [done] at yields
  exact yields

theorem of_error {fault : Fault} (yields : Yields P x) (failed : x = .error fault) :
    fault.Grounded := by
  rw [failed] at yields
  exact yields

/-- Of a result that is no reference nothing has to be known. -/
abbrev Any : Except Fault α → Prop :=
  Yields fun _ => True

end Yields

open Yields (Any)

namespace Instruction

variable (insn : Instruction)

theorem intOperand_any (position : Nat) : Any (insn.intOperand position) := by
  unfold intOperand
  split
  · trivial
  · nofun

theorem slotOperand_any : Any insn.slotOperand := by
  unfold slotOperand
  split
  · trivial
  · nofun

theorem targetOperand_any : Any insn.targetOperand := by
  unfold targetOperand
  split
  · trivial
  · nofun

theorem constantOperand_any : Any insn.constantOperand := by
  unfold constantOperand
  split
  · trivial
  · nofun

theorem fieldOperand_any : Any insn.fieldOperand := by
  unfold fieldOperand
  split
  · trivial
  · nofun

theorem methodOperand_any : Any insn.methodOperand := by
  unfold methodOperand
  split
  · trivial
  · nofun

theorem classOperand_any : Any insn.classOperand := by
  unfold classOperand
  split
  · trivial
  · nofun

theorem componentOperand_any : Any insn.componentOperand := by
  unfold componentOperand
  split
  · split
    · trivial
    · nofun
  · split
    · trivial
    · nofun
  · nofun

end Instruction

theorem nonNull_yields {reference : Option Nat} (live : (Value.ofReference reference).Live n) :
    Yields (· < n) (nonNull reference) := by
  cases reference with
  | some index => exact live index rfl
  | none => nofun

theorem arrayIndex_any (length : Nat) (index : Int32) : Any (arrayIndex length index) := by
  unfold arrayIndex
  split
  · trivial
  · nofun

theorem newLength_any (count : Int32) : Any (newLength count) := by
  unfold newLength
  split
  · trivial
  · nofun

theorem BinaryOp.apply_any (op : BinaryOp) (a b : Int32) : Any (op.apply a b) := by
  cases op with
  | div | rem =>
      unfold apply
      dsimp only
      split
      · nofun
      · trivial
  | _ => trivial

/-! ## Objects -/

namespace Heap.Closed

variable {index : Nat}

theorem intArray_any (live : index < h.size) : Any (h.intArray index) := by
  obtain ⟨o, there⟩ := exists_of_lt live
  unfold intArray
  rw [there]
  cases o with
  | ints => trivial
  | _ => nofun

theorem arraySize_any (live : index < h.size) : Any (h.arraySize index) := by
  obtain ⟨o, there⟩ := exists_of_lt live
  unfold arraySize
  rw [there]
  cases o with
  | ints | refs => trivial
  | _ => nofun

theorem refArray_yields (closed : h.Closed) (live : index < h.size) :
    Yields (fun found => ∀ position, (found.2.get position).Live h.size) (h.refArray index) := by
  obtain ⟨o, there⟩ := exists_of_lt live
  unfold refArray
  rw [there]
  cases o with
  | refs component elements => exact closed.objects index _ there
  | _ => nofun

theorem instanceFields_yields (closed : h.Closed) (live : index < h.size) :
    Yields (fun found => ∀ name value, found.2.find? name = some value → value.Live h.size)
      (h.instanceFields index) := by
  obtain ⟨o, there⟩ := exists_of_lt live
  unfold instanceFields
  rw [there]
  cases o with
  | object className fields => exact closed.objects index _ there
  | _ => nofun

end Heap.Closed

/-! ## Frames -/

/-- Every reference in the frame is below the bound. -/
structure Frame.Live (n : Nat) (f : Frame) : Prop where
  stack : ∀ value ∈ f.stack, value.Live n
  locals : ∀ (index : Nat) (value : Value), f.locals[index]? = some (some value) → value.Live n
  receiver : ∀ index, f.receiver = some index → index < n

namespace Frame

/-- What is popped. -/
abbrev LivePair (n : Nat) (popped : Value × Frame) : Prop :=
  popped.1.Live n ∧ popped.2.Live n

theorem Live.mono (live : f.Live n) (grows : n ≤ n') : f.Live n' where
  stack := fun value member => (live.stack value member).mono grows
  locals := fun index value there => (live.locals index value there).mono grows
  receiver := fun index there => Nat.lt_of_lt_of_le (live.receiver index there) grows

theorem Live.push (live : f.Live n) (fresh : value.Live n) : (f.push value).Live n :=
  ⟨List.forall_mem_cons.2 ⟨fresh, live.stack⟩, live.locals, live.receiver⟩

theorem Live.pushAll {values : List Value} (live : f.Live n)
    (fresh : ∀ value ∈ values, value.Live n) : (f.pushAll values).Live n where
  stack := by
    intro value member
    rcases List.mem_append.1 member with new | old
    · exact fresh value (List.mem_reverse.1 new)
    · exact live.stack value old
  locals := live.locals
  receiver := live.receiver

theorem Live.advance (live : f.Live n) : f.advance.Live n :=
  ⟨live.stack, live.locals, live.receiver⟩

theorem pop_yields (live : f.Live n) : Yields (LivePair n) f.pop := by
  unfold pop
  split
  · rename_i value stack eq
    have values := live.stack
    rw [eq] at values
    obtain ⟨top, rest⟩ := List.forall_mem_cons.1 values
    exact ⟨top, rest, live.locals, live.receiver⟩
  · nofun

theorem peek_yields (live : f.Live n) : Yields (Value.Live n) f.peek := by
  unfold peek
  split
  · rename_i value stack eq
    exact live.stack value (eq ▸ List.mem_cons_self)
  · nofun

theorem popInt_yields (live : f.Live n) : Yields (fun popped => popped.2.Live n) f.popInt := by
  refine (pop_yields live).bind fun ⟨value, g⟩ ⟨_, frame⟩ => ?_
  cases value with
  | int word => exact frame
  | _ => nofun

theorem popRef_yields (live : f.Live n) :
    Yields (fun popped => (Value.ofReference popped.1).Live n ∧ popped.2.Live n) f.popRef := by
  refine (pop_yields live).bind fun ⟨value, g⟩ ⟨top, frame⟩ => ?_
  cases value with
  | int word => nofun
  | ref index => exact ⟨top, frame⟩
  | null => exact ⟨top, frame⟩

theorem popArgs_yields (live : f.Live n) (count : Nat) :
    Yields (fun popped => (∀ value ∈ popped.1, value.Live n) ∧ popped.2.Live n)
      (f.popArgs count) := by
  unfold popArgs
  split
  · nofun
  · refine ⟨fun value member => ?_, fun value member => ?_, live.locals, live.receiver⟩
    · exact live.stack value (List.mem_of_mem_take (List.mem_reverse.1 member))
    · exact live.stack value (List.mem_of_mem_drop member)

theorem popSlot_yields (live : f.Live n) (slot : Slot) : Yields (LivePair n) (f.popSlot slot) := by
  cases slot with
  | int =>
      refine (popInt_yields live).bind fun ⟨word, g⟩ frame => ?_
      exact ⟨Value.live_int word, frame⟩
  | ref => exact (popRef_yields live).bind fun ⟨reference, g⟩ popped => popped
  | _ => exact pop_yields live

theorem load_yields (live : f.Live n) (index : Nat) : Yields (Value.Live n) (f.load index) := by
  unfold load
  split
  · rename_i value there
    exact live.locals index value there
  · nofun
  · nofun

theorem store_yields (live : f.Live n) (index : Nat) (fresh : value.Live n) :
    Yields (Frame.Live n) (f.store index value) := by
  unfold store
  split
  · refine ⟨live.stack, fun other found there => ?_, live.receiver⟩
    rw [Array.getElem?_setIfInBounds] at there
    split at there
    · cases there
      exact fresh
    · exact live.locals other found there
  · nofun

theorem loadSlot_yields (live : f.Live n) (slot : Slot) (index : Nat) :
    Yields (Frame.Live n) (f.loadSlot slot index) := by
  refine (load_yields live index).bind fun value loaded => ?_
  cases slot with
  | int | ref =>
      dsimp only
      split
      all_goals first | exact live.push loaded | nofun
  | _ => exact live.push loaded

theorem increment_yields (live : f.Live n) (index : Nat) (delta : Int32) :
    Yields (Frame.Live n) (f.increment index delta) := by
  refine (load_yields live index).bind fun value _ => ?_
  cases value with
  | int current => exact store_yields live index (Value.live_int _)
  | _ => nofun

theorem popElement_yields (live : f.Live n) :
    Yields (fun popped => popped.1 < n ∧ popped.2.2.Live n) f.popElement := by
  refine (popInt_yields live).bind fun ⟨index, f₁⟩ first => ?_
  refine (popRef_yields first).bind fun ⟨reference, f₂⟩ ⟨found, second⟩ => ?_
  exact (nonNull_yields found).bind fun array bound => ⟨bound, second⟩

theorem arrayLoad_yields (closed : h.Closed) (live : f.Live h.size) (cell : Cell) :
    Yields (Frame.Live h.size) (f.arrayLoad h cell) := by
  unfold arrayLoad
  split
  · refine (popElement_yields live).bind fun ⟨array, index, g⟩ ⟨bound, frame⟩ => ?_
    refine (closed.refArray_yields bound).bind fun ⟨_, elements⟩ cells => ?_
    refine (arrayIndex_any _ index).bind fun position _ => ?_
    exact frame.push (cells position)
  · refine (popElement_yields live).bind fun ⟨array, index, g⟩ ⟨bound, frame⟩ => ?_
    refine (Heap.Closed.intArray_any bound).bind fun ⟨_, elements⟩ _ => ?_
    refine (arrayIndex_any _ index).bind fun position _ => ?_
    exact frame.push (Value.live_int _)

theorem pop2_yields (live : f.Live n) : Yields (Frame.Live n) (f.pop2 h) := by
  refine (pop_yields live).bind fun ⟨top, f₁⟩ ⟨_, first⟩ => ?_
  dsimp only
  split
  · exact first
  · exact (pop_yields first).bind fun ⟨_, f₂⟩ ⟨_, second⟩ => second

theorem dupX1_yields (live : f.Live n) : Yields (Frame.Live n) f.dupX1 := by
  refine (pop_yields live).bind fun ⟨v₁, f₁⟩ ⟨one, first⟩ => ?_
  refine (pop_yields first).bind fun ⟨v₂, f₂⟩ ⟨two, second⟩ => ?_
  exact second.pushAll (by simp [one, two])

theorem dupX2_yields (live : f.Live n) : Yields (Frame.Live n) (f.dupX2 h) := by
  refine (pop_yields live).bind fun ⟨v₁, f₁⟩ ⟨one, first⟩ => ?_
  refine (pop_yields first).bind fun ⟨v₂, f₂⟩ ⟨two, second⟩ => ?_
  dsimp only
  split
  · exact second.pushAll (by simp [one, two])
  · refine (pop_yields second).bind fun ⟨v₃, f₃⟩ ⟨three, third⟩ => ?_
    exact third.pushAll (by simp [one, two, three])

theorem dup2_yields (live : f.Live n) : Yields (Frame.Live n) (f.dup2 h) := by
  refine (pop_yields live).bind fun ⟨v₁, f₁⟩ ⟨one, first⟩ => ?_
  dsimp only
  split
  · exact first.pushAll (by simp [one])
  · refine (pop_yields first).bind fun ⟨v₂, f₂⟩ ⟨two, second⟩ => ?_
    exact second.pushAll (by simp [one, two])

theorem swap_yields (live : f.Live n) : Yields (Frame.Live n) f.swap := by
  refine (pop_yields live).bind fun ⟨v₁, f₁⟩ ⟨one, first⟩ => ?_
  refine (pop_yields first).bind fun ⟨v₂, f₂⟩ ⟨two, second⟩ => ?_
  exact second.pushAll (by simp [one, two])

theorem binary_yields (live : f.Live n) (op : BinaryOp) :
    Yields (Frame.Live n) (f.binary op) := by
  refine (popInt_yields live).bind fun ⟨b, f₁⟩ first => ?_
  refine (popInt_yields first).bind fun ⟨a, f₂⟩ second => ?_
  exact (op.apply_any a b).bind fun result _ => second.push (Value.live_int result)

theorem unary_yields (live : f.Live n) (op : UnaryOp) : Yields (Frame.Live n) (f.unary op) :=
  (popInt_yields live).bind fun ⟨_, _⟩ frame => frame.push (Value.live_int _)

theorem test_yields (live : f.Live n) (op : Opcode) :
    Yields (fun tested => tested.2.Live n) (f.test op) := by
  unfold test
  split
  · exact (popInt_yields live).bind fun ⟨_, _⟩ frame => frame
  · refine (popInt_yields live).bind fun ⟨_, _⟩ first => ?_
    exact (popInt_yields first).bind fun ⟨_, _⟩ second => second
  · refine (popRef_yields live).bind fun ⟨_, _⟩ ⟨_, first⟩ => ?_
    exact (popRef_yields first).bind fun ⟨_, _⟩ ⟨_, second⟩ => second
  · exact (popRef_yields live).bind fun ⟨_, _⟩ ⟨_, frame⟩ => frame
  · exact live

theorem getField_yields (closed : h.Closed) (live : f.Live h.size) (field : MemberRef) :
    Yields (Frame.Live h.size) (f.getField h field) := by
  refine (popRef_yields live).bind fun ⟨reference, g⟩ ⟨found, frame⟩ => ?_
  refine (nonNull_yields found).bind fun object bound => ?_
  refine (closed.instanceFields_yields bound).bind fun ⟨_, fields⟩ values => ?_
  refine frame.push ?_
  cases there : fields.find? field.name with
  | some value => exact values field.name value there
  | none => exact Value.live_defaultFor field.descriptor

theorem checkFit_any (ty : Ty) (value : Value) : Any (checkFit ty value) := by
  unfold checkFit
  split
  · trivial
  · nofun

theorem checkField_any (field : MemberRef) (value : Value) : Any (checkField field value) := by
  unfold checkField
  split
  · exact checkFit_any _ value
  · nofun

/-! ## New frames -/

theorem placeArgs_yields (live : f.Live n) (slot : Nat) {types : List Ty} {values : List Value}
    (args : ∀ value ∈ values, value.Live n) :
    Yields (Frame.Live n) (f.placeArgs slot types values) := by
  induction types generalizing f slot values with
  | nil => exact live
  | cons ty types ih =>
      cases values with
      | nil => exact live
      | cons value values =>
          obtain ⟨first, rest⟩ := List.forall_mem_cons.1 args
          refine (checkFit_any ty value).bind fun _ _ => ?_
          exact (store_yields live slot first).bind fun g stored => ih stored _ rest

theorem placeReceiver_yields (live : f.Live n) {receiver : Option Value}
    (given : LiveOption n receiver) :
    Yields (fun placed => placed.2.Live n) (f.placeReceiver receiver) := by
  unfold placeReceiver
  split
  · exact live
  · rename_i index
    have bound : index < n := given _ rfl index rfl
    have held : Frame.Live n { f with receiver := some index } := by
      refine ⟨live.stack, live.locals, ?_⟩
      rintro _ ⟨⟩
      exact bound
    exact (store_yields held 0 (Value.live_ref bound)).bind fun g stored => stored
  · nofun

/-- A call that is given live references starts with live references. -/
theorem enter_yields (method : LoadedMethod) {receiver : Option Value} {args : List Value}
    (given : LiveOption n receiver)
    (live : ∀ value ∈ args, value.Live n) :
    Yields (Frame.Live n) (Frame.enter method receiver args) := by
  have blank (slots : Nat) : Frame.Live n ⟨Array.replicate slots none, [], 0, method, none⟩ := by
    refine ⟨fun _ member => (List.not_mem_nil member).elim, fun index value there => ?_, nofun⟩
    rw [Array.getElem?_replicate] at there
    split at there <;> cases there
  unfold Frame.enter
  split
  · nofun
  · refine (placeReceiver_yields (blank _) given).bind fun ⟨slot, g⟩ placed => ?_
    exact placeArgs_yields placed slot live

end Frame

/-! ## Instructions -/

/-- The value that a class is used with is live. -/
def ClassUse.Live (n : Nat) : ClassUse → Prop
  | .putStatic _ value => value.Live n
  | _ => True

/-- What a call is given is live. -/
structure Call.Live (n : Nat) (c : Call) : Prop where
  receiver : ∀ reference, c.receiver = some reference → (Value.ofReference reference).Live n
  args : ∀ value ∈ c.args, value.Live n

/-- Every reference in the effect is below the bound. -/
def Effect.Live (n : Nat) : Effect → Prop
  | .next f | .constant f _ | .jump f _ => f.Live n
  | .allocate f object => f.Live n ∧ object.Live n
  | .write f _ w => f.Live n ∧ w.Live n
  | .leave value => LiveOption n value
  | .touch f _ use => f.Live n ∧ use.Live n
  | .call f c => f.Live n ∧ c.Live n

namespace Frame

theorem arrayStore_yields (closed : h.Closed) (live : f.Live h.size) (cell : Cell) :
    Yields (Effect.Live h.size) (f.arrayStore h cell) := by
  unfold arrayStore
  split
  · refine (popRef_yields live).bind fun ⟨value, f₁⟩ ⟨fresh, first⟩ => ?_
    refine (popElement_yields first).bind fun ⟨array, index, f₂⟩ ⟨bound, second⟩ => ?_
    refine (closed.refArray_yields bound).bind fun ⟨_, elements⟩ _ => ?_
    exact (arrayIndex_any _ index).bind fun position _ => ⟨second, fresh⟩
  · refine (popInt_yields live).bind fun ⟨value, f₁⟩ first => ?_
    refine (popElement_yields first).bind fun ⟨array, index, f₂⟩ ⟨bound, second⟩ => ?_
    refine (Heap.Closed.intArray_any bound).bind fun ⟨component, elements⟩ _ => ?_
    exact (arrayIndex_any _ index).bind fun position _ => ⟨second, trivial⟩

theorem putField_yields (closed : h.Closed) (live : f.Live h.size) (field : MemberRef) :
    Yields (Effect.Live h.size) (f.putField h field) := by
  refine (pop_yields live).bind fun ⟨value, f₁⟩ ⟨fresh, first⟩ => ?_
  refine (checkField_any field value).bind fun _ _ => ?_
  refine (popRef_yields first).bind fun ⟨reference, f₂⟩ ⟨found, second⟩ => ?_
  refine (nonNull_yields found).bind fun object bound => ?_
  exact (closed.instanceFields_yields bound).bind fun _ _ => ⟨second, fresh⟩

theorem branch_yields (live : f.Live n) (insn : Instruction) :
    Yields (Effect.Live n) (f.branch insn) := by
  refine (test_yields live insn.opcode).bind fun ⟨taken, g⟩ frame => ?_
  refine insn.targetOperand_any.bind fun target _ => ?_
  cases taken with
  | true => exact frame
  | false => exact frame

theorem takeCall_yields (live : f.Live n) (mode : CallMode) (target : MemberRef) :
    Yields (Effect.Live n) (f.takeCall mode target) := by
  have parsed : Any ((Descriptor.parse target.descriptor).mapError Fault.badDescriptor) := by
    cases Descriptor.parse target.descriptor with
    | ok => trivial
    | error => nofun
  refine parsed.bind fun descriptor _ => ?_
  refine (popArgs_yields live _).bind fun ⟨args, g⟩ ⟨given, frame⟩ => ?_
  dsimp only
  split
  · exact ⟨frame, nofun, given⟩
  · refine (popRef_yields frame).bind fun ⟨receiver, k⟩ ⟨found, frame⟩ => ?_
    refine ⟨frame, ?_, given⟩
    rintro _ ⟨⟩
    exact found

end Frame

namespace Instruction

open ClassMachine.Frame

/-- An instruction whose work is all on its frame. -/
theorem yields_next {work : Except Fault Frame} (yields : Yields (Frame.Live n) work) :
    Yields (Effect.Live n) (do return .next (← work)) :=
  yields.bind fun _ frame => frame

/-- **An instruction that is given live references leaves live references, and does not
fail for a reference to no object.** -/
theorem execute_yields (insn : Instruction) (closed : h.Closed) (live : f.Live h.size) :
    Yields (Effect.Live h.size) (insn.execute h f) := by
  cases op : insn.opcode <;> simp only [execute, op]
  case nop => exact live
  case aconstNull => exact live.push Value.live_null
  case iconst | bipush | sipush =>
    exact (insn.intOperand_any 0).bind fun _ _ => live.push (Value.live_int _)
  case lconst | fconst | dconst =>
    exact (insn.intOperand_any 0).bind fun _ _ => ⟨live, trivial⟩
  case ldc | ldcW | ldc2W => exact insn.constantOperand_any.bind fun _ _ => live
  case load slot =>
    exact insn.slotOperand_any.bind fun index _ => yields_next (loadSlot_yields live slot index)
  case store slot =>
    refine (popSlot_yields live slot).bind fun popped holds => ?_
    exact insn.slotOperand_any.bind fun index _ => yields_next (store_yields holds.2 index holds.1)
  case iinc =>
    refine insn.slotOperand_any.bind fun index _ => ?_
    exact (insn.intOperand_any 1).bind fun delta _ => yields_next (increment_yields live index delta)
  case arrayLoad cell => exact yields_next (arrayLoad_yields closed live cell)
  case arrayStore cell => exact arrayStore_yields closed live cell
  case arrayLength =>
    refine (popRef_yields live).bind fun popped holds => ?_
    refine (nonNull_yields holds.1).bind fun array bound => ?_
    exact (Heap.Closed.arraySize_any bound).bind fun length _ => holds.2.push (Value.live_int _)
  case pop => exact (pop_yields live).bind fun popped holds => holds.2
  case pop2 => exact yields_next (pop2_yields live)
  case dup => exact (peek_yields live).bind fun value top => live.push top
  case dupX1 => exact yields_next (dupX1_yields live)
  case dupX2 => exact yields_next (dupX2_yields live)
  case dup2 => exact yields_next (dup2_yields live)
  case swap => exact yields_next (swap_yields live)
  case binary b => exact yields_next (binary_yields live b)
  case unary u => exact yields_next (unary_yields live u)
  case ifZero | ifInt | ifRef | ifNull | goto | gotoW => exact branch_yields live insn
  case returnValue slot =>
    exact (popSlot_yields live slot).bind fun popped holds => liveOption_some holds.1
  case returnVoid => exact liveOption_none
  case getStatic => exact insn.fieldOperand_any.bind fun _ _ => ⟨live, trivial⟩
  case putStatic =>
    refine insn.fieldOperand_any.bind fun field _ => ?_
    refine (pop_yields live).bind fun popped holds => ?_
    exact (checkField_any field popped.1).bind fun _ _ => ⟨holds.2, holds.1⟩
  case getField =>
    exact insn.fieldOperand_any.bind fun field _ => yields_next (getField_yields closed live field)
  case putField => exact insn.fieldOperand_any.bind fun field _ => putField_yields closed live field
  case invoke mode =>
    exact insn.methodOperand_any.bind fun target _ => takeCall_yields live mode target
  case new => exact insn.classOperand_any.bind fun _ _ => ⟨live, trivial⟩
  case newArray =>
    refine insn.componentOperand_any.bind fun component _ => ?_
    refine (popInt_yields live).bind fun popped frame => ?_
    exact (newLength_any popped.1).bind fun length _ => ⟨frame, trivial⟩
  case anewArray =>
    -- A new array holds null everywhere.
    refine insn.classOperand_any.bind fun component _ => ?_
    refine (popInt_yields live).bind fun popped frame => ?_
    refine (newLength_any popped.1).bind fun length _ => ⟨frame, fun position => ?_⟩
    rw [Cells.get_new]
    exact Value.live_null
  case checkCast => exact (peek_yields live).bind fun _ _ => live
  case monitorEnter | monitorExit =>
    refine (popRef_yields live).bind fun popped holds => ?_
    exact (nonNull_yields holds.1).bind fun _ _ => holds.2
  case invokeDynamic | multiAnewArray | athrow | instanceOf | other =>
    rintro _ ⟨⟩

end Instruction

end ClassMachine
