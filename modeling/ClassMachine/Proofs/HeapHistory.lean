import ClassMachine.Proofs.ControlFlow
import ClassMachine.Proofs.Store

/-!
# The history of a heap

What is done to a heap can be written down: every call that allocates or interns,
with the index that it gave, and every write.

* `Heap.Does`: the events that lead from one heap to another.
* `HeapObject.Becomes`: what can become of an object.
* `Heap.Keeps`: a heap after which nothing has been removed, moved or interned anew.
* `Heap.Interned`: the tables name the objects that they are asked for.

Every run of every program works on the heap through such events
(`Machine.Edits.does`), so a log can be kept of a whole lifetime (`Progress.Logs`). In
every log interning is exact (`Progress.Lives.heap_history`).
-/

namespace ClassMachine

variable {ω : Type} {m : Machine ω} {f : Frame} {link : Link} {p q : Progress ω}
  {h h' h'' : Heap} {o o' o'' : HeapObject}

/-! ## Events -/

/-- A call that gives the index of an object. -/
inductive HeapCall where
  | alloc (object : HeapObject)
  | intern (text : String)
  | classLiteral (name : String)
deriving DecidableEq

namespace HeapCall

/-- The index that the call gives, and the heap that it leaves. -/
def run (h : Heap) : HeapCall → Nat × Heap
  | .alloc object => h.alloc object
  | .intern text => h.intern text
  | .classLiteral name => h.classLiteral name

/-- The object that the call asks for. -/
def object : HeapCall → HeapObject
  | .alloc object => object
  | .intern text => .string text
  | .classLiteral name => .classLiteral name

/-- Only an object of its own is not interned. -/
def Interns : HeapCall → Prop
  | .alloc _ => False
  | .intern _ | .classLiteral _ => True

/-- What is interned tells which call has asked for it. -/
theorem eq_of_object_eq {c d : HeapCall} (interns : c.Interns) (interns' : d.Interns)
    (same : c.object = d.object) : c = d := by
  cases c with
  | alloc => exact interns.elim
  | intern | classLiteral =>
      cases d with
      | alloc => exact interns'.elim
      | intern | classLiteral => cases same <;> rfl

end HeapCall

/-- An entry in the log of a heap. -/
inductive HeapEvent where
  /-- A call gave an index. -/
  | gave (call : HeapCall) (index : Nat)
  | wrote (index : Nat) (w : Write)
deriving DecidableEq

/-- The events lead from one heap to the other. -/
inductive Heap.Does : Heap → List HeapEvent → Heap → Prop
  | nil (h : Heap) : Does h [] h
  | call {h h' : Heap} {events : List HeapEvent} (c : HeapCall) :
    Does (c.run h).2 events h' → Does h (.gave c (c.run h).1 :: events) h'
  | write {h h' : Heap} {events : List HeapEvent} (index : Nat) (w : Write) :
    Does (h.write index w) events h' → Does h (.wrote index w :: events) h'

variable {events more : List HeapEvent}

namespace Heap

theorem Does.append (first : h.Does events h') (second : h'.Does more h'') :
    h.Does (events ++ more) h'' := by
  induction first with
  | nil => exact second
  | call c _ ih => exact .call c (ih second)
  | write index w _ ih => exact .write index w (ih second)

/-- Between any two events the heap is in a state of its own. -/
theorem Does.split (does : h.Does (events ++ more) h'') :
    ∃ h', h.Does events h' ∧ h'.Does more h'' := by
  induction events generalizing h with
  | nil => exact ⟨h, .nil h, does⟩
  | cons event events ih =>
      cases does with
      | call c rest =>
          obtain ⟨h', first, second⟩ := ih rest
          exact ⟨h', .call c first, second⟩
      | write index w rest =>
          obtain ⟨h', first, second⟩ := ih rest
          exact ⟨h', .write index w first, second⟩

theorem does_call (h : Heap) (c : HeapCall) : h.Does [.gave c (c.run h).1] (c.run h).2 :=
  .call c (.nil _)

end Heap

/-! ## What becomes of an object -/

/-- What an object can be later on. Only arrays and instances change: an array keeps its
component and its size, an instance keeps its class and all the fields that it has. -/
inductive HeapObject.Becomes : HeapObject → HeapObject → Prop
  | same (o : HeapObject) : Becomes o o
  | fields {className : String} {before after : Table String Value} :
    (∀ name, (before.find? name).isSome → (after.find? name).isSome) →
    Becomes (.object className before) (.object className after)
  | words {component : TyKind} {before after : Cells (0 : Int32)} :
    after.size = before.size → Becomes (.ints component before) (.ints component after)
  | references {component : String} {before after : Cells Value.null} :
    after.size = before.size → Becomes (.refs component before) (.refs component after)

namespace HeapObject

theorem Becomes.trans (first : o.Becomes o') (second : o'.Becomes o'') : o.Becomes o'' := by
  cases first with
  | same => exact second
  | fields kept =>
      cases second with
      | same => exact .fields kept
      | fields kept' => exact .fields fun name present => kept' name (kept name present)
  | words size =>
      cases second with
      | same => exact .words size
      | words size' => exact .words (size'.trans size)
  | references size =>
      cases second with
      | same => exact .references size
      | references size' => exact .references (size'.trans size)

theorem becomes_write (o : HeapObject) (w : Write) : o.Becomes (o.write w) := by
  cases o with
  | object className fields =>
      cases w with
      | field name value =>
          refine .fields fun other present => ?_
          by_cases same : other = name
          · rw [same, Table.find?_insert_self]
            rfl
          · rw [Table.find?_insert_of_ne fields value same]
            exact present
      | word | reference => exact .same _
  | ints component elements =>
      cases w with
      | word position value => exact .words (elements.size_set position value)
      | reference | field => exact .same _
  | refs component elements =>
      cases w with
      | reference position value => exact .references (elements.size_set position _)
      | word | field => exact .same _
  | _ => cases w <;> exact .same _

/-- An object stays of its kind. -/
theorem Becomes.kind (becomes : o.Becomes o') : o'.kind = o.kind := by
  cases becomes <;> rfl

end HeapObject

/-! ## What stays of a heap -/

/-- A later state of a heap: every object is where it was, and so is what has been
interned. -/
structure Heap.Keeps (h h' : Heap) : Prop where
  size : h.size ≤ h'.size
  objects : ∀ index o, h.get? index = some o → ∃ o', h'.get? index = some o' ∧ o.Becomes o'
  strings : ∀ text index, h.strings.find? text = some index → h'.strings.find? text = some index
  classes : ∀ name index, h.classes.find? name = some index → h'.classes.find? name = some index

/-- Every entry of the tables leads to the object that it stands for. -/
structure Heap.Interned (h : Heap) : Prop where
  strings : ∀ text index, h.strings.find? text = some index →
    h.get? index = some (.string text)
  classes : ∀ name index, h.classes.find? name = some index →
    h.get? index = some (.classLiteral name)

namespace Heap

theorem get?_size (h : Heap) : h.get? h.size = none :=
  Array.getElem?_eq_none (Nat.le_refl _)

theorem Keeps.refl (h : Heap) : h.Keeps h where
  size := Nat.le_refl _
  objects := fun _ o there => ⟨o, there, .same o⟩
  strings := fun _ _ found => found
  classes := fun _ _ found => found

theorem Keeps.trans (first : h.Keeps h') (second : h'.Keeps h'') : h.Keeps h'' where
  size := Nat.le_trans first.size second.size
  objects := by
    intro index o there
    obtain ⟨o', there', becomes⟩ := first.objects index o there
    obtain ⟨o'', there'', becomes'⟩ := second.objects index o' there'
    exact ⟨o'', there'', becomes.trans becomes'⟩
  strings := fun text index found => second.strings text index (first.strings text index found)
  classes := fun name index found => second.classes name index (first.classes name index found)

theorem keeps_alloc (h : Heap) (object : HeapObject) : h.Keeps (h.alloc object).2 where
  size := by
    change h.objects.size ≤ (h.objects.push object).size
    rw [Array.size_push]
    exact Nat.le_succ _
  objects := by
    intro index o there
    have old : index ≠ h.size := by
      rintro rfl
      cases there.symm.trans h.get?_size
    exact ⟨o, by rw [get?_alloc, if_neg old, there], .same o⟩
  strings := fun _ _ found => found
  classes := fun _ _ found => found

theorem keeps_write (h : Heap) (target : Nat) (w : Write) : h.Keeps (h.write target w) where
  size := Nat.le_of_eq Array.size_modify.symm
  objects := by
    intro index o there
    rw [get?_write, there]
    split
    · exact ⟨o.write w, rfl, o.becomes_write w⟩
    · exact ⟨o, rfl, .same o⟩
  strings := fun _ _ found => found
  classes := fun _ _ found => found

/-- An entry for a new key leaves those of the others. -/
theorem find?_insert_of_none {β : Type} {t : Table String β} {key other : String}
    {value found : β} (absent : t.find? key = none) (there : t.find? other = some found) :
    (t.insert key value).find? other = some found := by
  have distinct : other ≠ key := by
    rintro rfl
    cases there.symm.trans absent
  rw [Table.find?_insert_of_ne t value distinct, there]

theorem intern_of_present {text : String} {index : Nat}
    (present : h.strings.find? text = some index) : h.intern text = (index, h) := by
  rw [intern, present]

theorem intern_of_absent {text : String} (absent : h.strings.find? text = none) :
    h.intern text = (h.size, { (h.alloc (.string text)).2 with
      strings := h.strings.insert text h.size }) := by
  rw [intern, absent]
  rfl

theorem classLiteral_of_present {name : String} {index : Nat}
    (present : h.classes.find? name = some index) : h.classLiteral name = (index, h) := by
  rw [classLiteral, present]

theorem classLiteral_of_absent {name : String} (absent : h.classes.find? name = none) :
    h.classLiteral name = (h.size, { (h.alloc (.classLiteral name)).2 with
      classes := h.classes.insert name h.size }) := by
  rw [classLiteral, absent]
  rfl

theorem keeps_intern (h : Heap) (text : String) : h.Keeps (h.intern text).2 := by
  cases found : h.strings.find? text with
  | some index =>
      rw [intern_of_present found]
      exact .refl h
  | none =>
      rw [intern_of_absent found]
      obtain ⟨size, objects, _, classes⟩ := h.keeps_alloc (.string text)
      exact ⟨size, objects, fun _ _ there => find?_insert_of_none found there, classes⟩

theorem keeps_classLiteral (h : Heap) (name : String) : h.Keeps (h.classLiteral name).2 := by
  cases found : h.classes.find? name with
  | some index =>
      rw [classLiteral_of_present found]
      exact .refl h
  | none =>
      rw [classLiteral_of_absent found]
      obtain ⟨size, objects, strings, _⟩ := h.keeps_alloc (.classLiteral name)
      exact ⟨size, objects, strings, fun _ _ there => find?_insert_of_none found there⟩

/-- Old entries lead to the same objects, so only new ones have to be looked at. -/
theorem Interned.of_keeps (interned : h.Interned) (keeps : h.Keeps h')
    (strings : ∀ text index, h'.strings.find? text = some index →
      h.strings.find? text = some index ∨ h'.get? index = some (.string text))
    (classes : ∀ name index, h'.classes.find? name = some index →
      h.classes.find? name = some index ∨ h'.get? index = some (.classLiteral name)) :
    h'.Interned where
  strings := by
    intro text index found
    rcases strings text index found with old | new
    · obtain ⟨o, there, becomes⟩ := keeps.objects index _ (interned.strings text index old)
      cases becomes
      exact there
    · exact new
  classes := by
    intro name index found
    rcases classes name index found with old | new
    · obtain ⟨o, there, becomes⟩ := keeps.objects index _ (interned.classes name index old)
      cases becomes
      exact there
    · exact new

theorem interned_empty : empty.Interned :=
  ⟨nofun, nofun⟩

theorem Interned.alloc (interned : h.Interned) (object : HeapObject) :
    (h.alloc object).2.Interned :=
  interned.of_keeps (h.keeps_alloc object) (fun _ _ => Or.inl) (fun _ _ => Or.inl)

theorem Interned.write (interned : h.Interned) (target : Nat) (w : Write) :
    (h.write target w).Interned :=
  interned.of_keeps (h.keeps_write target w) (fun _ _ => Or.inl) (fun _ _ => Or.inl)

theorem Interned.intern (interned : h.Interned) (text : String) :
    (h.intern text).2.Interned := by
  have keeps := h.keeps_intern text
  cases found : h.strings.find? text with
  | some index =>
      rw [intern_of_present found]
      exact interned
  | none =>
      rw [intern_of_absent found] at keeps ⊢
      refine interned.of_keeps keeps (fun key index there => ?_) (fun _ _ => Or.inl)
      rcases Table.find?_insert_eq_some there with ⟨rfl, rfl⟩ | ⟨_, old⟩
      · exact Or.inr Array.getElem?_push_size
      · exact Or.inl old

theorem Interned.classLiteral (interned : h.Interned) (name : String) :
    (h.classLiteral name).2.Interned := by
  have keeps := h.keeps_classLiteral name
  cases found : h.classes.find? name with
  | some index =>
      rw [classLiteral_of_present found]
      exact interned
  | none =>
      rw [classLiteral_of_absent found] at keeps ⊢
      refine interned.of_keeps keeps (fun _ _ => Or.inl) (fun key index there => ?_)
      rcases Table.find?_insert_eq_some there with ⟨rfl, rfl⟩ | ⟨_, old⟩
      · exact Or.inr Array.getElem?_push_size
      · exact Or.inl old

end Heap

/-! ## Answers -/

/-- The heap gives that index to the call, or could have given it: an allocated object
is there, and an interned one is what the table leads to. -/
def Heap.Answers (h : Heap) : HeapCall → Nat → Prop
  | .alloc object, index => ∃ o, h.get? index = some o ∧ object.Becomes o
  | .intern text, index => h.strings.find? text = some index
  | .classLiteral name, index => h.classes.find? name = some index

namespace HeapCall

theorem keeps (c : HeapCall) (h : Heap) : h.Keeps (c.run h).2 := by
  cases c with
  | alloc object => exact h.keeps_alloc object
  | intern text => exact h.keeps_intern text
  | classLiteral name => exact h.keeps_classLiteral name

theorem interned (c : HeapCall) (interned : h.Interned) : (c.run h).2.Interned := by
  cases c with
  | alloc object => exact interned.alloc object
  | intern text => exact interned.intern text
  | classLiteral name => exact interned.classLiteral name

theorem answers (c : HeapCall) (h : Heap) : (c.run h).2.Answers c (c.run h).1 := by
  cases c with
  | alloc object => exact ⟨object, Array.getElem?_push_size, .same object⟩
  | intern text =>
      cases found : h.strings.find? text with
      | some index =>
          rw [run, Heap.intern_of_present found]
          exact found
      | none =>
          rw [run, Heap.intern_of_absent found]
          exact Table.find?_insert_self _ _ _
  | classLiteral name =>
      cases found : h.classes.find? name with
      | some index =>
          rw [run, Heap.classLiteral_of_present found]
          exact found
      | none =>
          rw [run, Heap.classLiteral_of_absent found]
          exact Table.find?_insert_self _ _ _

end HeapCall

namespace Heap

variable {c d : HeapCall} {index i j : Nat}

theorem Answers.keeps (answers : h.Answers c index) (keeps : h.Keeps h') :
    h'.Answers c index := by
  cases c with
  | alloc object =>
      obtain ⟨o, there, becomes⟩ := answers
      obtain ⟨o', there', becomes'⟩ := keeps.objects index o there
      exact ⟨o', there', becomes.trans becomes'⟩
  | intern text => exact keeps.strings text index answers
  | classLiteral name => exact keeps.classes name index answers

theorem Answers.get?_of_interns (answers : h.Answers c index) (interned : h.Interned)
    (interns : c.Interns) : h.get? index = some c.object := by
  cases c with
  | alloc => exact interns.elim
  | intern text => exact interned.strings text index answers
  | classLiteral name => exact interned.classes name index answers

/-- What a call has asked for is there. -/
theorem Answers.get? (answers : h.Answers c index) (interned : h.Interned) :
    ∃ o, h.get? index = some o ∧ c.object.Becomes o := by
  cases c with
  | alloc object => exact answers
  | intern | classLiteral =>
      exact ⟨_, answers.get?_of_interns interned trivial, .same _⟩

theorem Does.keeps (does : h.Does events h') : h.Keeps h' := by
  induction does with
  | nil h => exact .refl h
  | @call h _ _ c _ ih => exact (c.keeps h).trans ih
  | @write h _ _ index w _ ih => exact (h.keeps_write index w).trans ih

theorem Does.interned (does : h.Does events h') (interned : h.Interned) : h'.Interned := by
  induction does with
  | nil => exact interned
  | call c _ ih => exact ih (c.interned interned)
  | write index w _ ih => exact ih (interned.write index w)

/-- The answer to a call holds from then on. -/
theorem Does.answers (does : h.Does events h') (gave : .gave c index ∈ events) :
    h'.Answers c index := by
  induction does with
  | nil => cases gave
  | @call h _ _ _ rest ih =>
      rcases List.mem_cons.1 gave with here | later
      · cases here
        exact (c.answers h).keeps rest.keeps
      · exact ih later
  | write index w _ ih =>
      rcases List.mem_cons.1 gave with here | later
      · cases here
      · exact ih later

theorem Answers.unique (left : h.Answers c i) (right : h.Answers c j) (interns : c.Interns) :
    i = j := by
  cases c with
  | alloc => exact interns.elim
  | intern | classLiteral => exact Option.some.inj (left.symm.trans right)

/-- Two calls that intern give the same index just if they are the same call. -/
theorem Does.index_eq_iff (does : h.Does events h') (interned : h.Interned)
    (first : .gave c i ∈ events) (second : .gave d j ∈ events) (interns : c.Interns)
    (interns' : d.Interns) : i = j ↔ c = d := by
  have left := does.answers first
  have right := does.answers second
  refine ⟨?_, ?_⟩
  · rintro rfl
    have one := left.get?_of_interns (does.interned interned) interns
    have two := right.get?_of_interns (does.interned interned) interns'
    exact HeapCall.eq_of_object_eq interns interns' (Option.some.inj (one.symm.trans two))
  · rintro rfl
    exact left.unique right interns

end Heap

/-- Interning is exact: two calls that intern give the same index just if they are the
same call. -/
structure InternsExactly (events : List HeapEvent) : Prop where
  strings : ∀ s t i j, .gave (.intern s) i ∈ events → .gave (.intern t) j ∈ events →
    (i = j ↔ s = t)
  classes : ∀ s t i j, .gave (.classLiteral s) i ∈ events →
    .gave (.classLiteral t) j ∈ events → (i = j ↔ s = t)
  distinct : ∀ s t i j, .gave (.intern s) i ∈ events → .gave (.classLiteral t) j ∈ events →
    i ≠ j

theorem Heap.Does.internsExactly (does : h.Does events h') (interned : h.Interned) :
    InternsExactly events where
  strings := by
    intro s t i j first second
    rw [does.index_eq_iff interned first second trivial trivial, HeapCall.intern.injEq]
  classes := by
    intro s t i j first second
    rw [does.index_eq_iff interned first second trivial trivial, HeapCall.classLiteral.injEq]
  distinct := by
    intro s t i j first second same
    cases (does.index_eq_iff interned first second trivial trivial).1 same

/-! ## Steps -/

/-- A literal that is not a word is asked for by a call. -/
theorem Heap.does_constant (h : Heap) (value : Constant) :
    ∃ events, h.Does events (h.constant value).2 := by
  cases value with
  | int value => exact ⟨[], .nil h⟩
  | string text => exact ⟨_, h.does_call (.intern text)⟩
  | classRef name => exact ⟨_, h.does_call (.classLiteral name)⟩
  | float word => exact ⟨_, h.does_call (.alloc (.float word))⟩
  | long value => exact ⟨_, h.does_call (.alloc (.long value))⟩
  | double word => exact ⟨_, h.does_call (.alloc (.double word))⟩

/-- A bridge that works on heaps by calls and writes. -/
def HeapBridge (bridge : Bridge ω) : Prop :=
  ∀ world (h : Heap) receiver args, ∃ events, h.Does events (bridge world h receiver args).heap

/-- A host that works on the heap by calls and writes, and sets bridges that do. -/
def HostAction.UsesHeap (m : Machine ω) : HostAction ω → Prop
  | .setBridge _ _ _ bridge => HeapBridge bridge
  | .setHeap heap => ∃ events, m.heap.Does events heap
  | .setStatic _ _ _ | .setWorld _ | .call _ _ _ _ => True

theorem HostAction.UsesHeap.bridged {action : HostAction ω} (uses : action.UsesHeap m) :
    action.Bridged HeapBridge := by
  cases action with
  | setBridge => exact uses
  | _ => trivial

namespace Machine

theorem does_use (m : Machine ω) (f : Frame) (use : ClassUse) :
    ∃ events, m.heap.Does events (m.use f use).1.heap := by
  cases use with
  | getStatic field => exact ⟨[], .nil _⟩
  | putStatic field value => exact ⟨[], .nil _⟩
  | new name => exact ⟨_, m.heap.does_call (.alloc (.object name .empty))⟩

theorem does_worked (m : Machine ω) (effect : Effect) :
    ∃ events, m.heap.Does events (m.worked effect).heap := by
  cases effect with
  | allocate f object => exact ⟨_, m.heap.does_call (.alloc object)⟩
  | constant f value => exact m.heap.does_constant value
  | write f index w => exact ⟨_, .write index w (.nil _)⟩
  | touch f name use => exact m.does_use f use
  | _ => exact ⟨[], .nil _⟩

theorem does_callBridge (m : Machine ω) {bridge : Bridge ω} (uses : HeapBridge bridge)
    (key : MethodKey) (descriptor : Descriptor) (receiver : Option Value) (args : List Value) :
    ∃ events, m.heap.Does events (m.callBridge bridge key descriptor receiver args).1.heap := by
  obtain ⟨_, same | replied⟩ := m.callBridge_store bridge key descriptor receiver args
  · exact ⟨[], same ▸ .nil _⟩
  · rw [replied]
    exact uses m.world m.heap receiver args

/-- A step works on the heap by calls and writes. -/
theorem Edits.does (edits : m.Edits f link p) (bridged : m.Bridged HeapBridge) :
    ∃ events, m.heap.Does events p.machine.heap := by
  cases edits with
  | leaves leaves => exact ⟨[], leaves.same.heap ▸ .nil _⟩
  | works current done leaves =>
      rw [leaves.same.heap]
      exact m.does_worked _
  | delays current done leaves => exact ⟨[], leaves.same.heap ▸ .nil _⟩
  | replies current done found leaves =>
      rw [leaves.same.heap]
      exact m.does_callBridge (bridged _ _ found) _ _ _ _
  | resumes same leaves =>
      rw [leaves.same.heap]
      exact m.does_use _ _

end Machine

/-! ## Lifetimes -/

namespace Progress

/-- Every move works on the heap by calls and writes. -/
theorem Next.does (next : p.Next HostAction.UsesHeap q) (bridged : p.machine.Bridged HeapBridge) :
    ∃ events, p.machine.heap.Does events q.machine.heap := by
  cases next with
  | step m f link => exact (m.step_edits f link).does bridged
  | @act m action outcome allows =>
      cases action with
      | setBridge | setStatic | setWorld => exact ⟨[], .nil _⟩
      | setHeap heap => exact allows
      | call className method descriptor args =>
          rcases m.start_leaves className method descriptor args with leaves |
            ⟨bridge, parsed, found, leaves⟩
          · exact ⟨[], leaves.same.heap ▸ .nil _⟩
          · change ∃ events, m.heap.Does events (m.start ..).machine.heap
            rw [leaves.same.heap]
            exact m.does_callBridge (bridged _ _ found) _ _ _ _

/-- A lifetime, and a log of what has been done to the heap in it. A log accounts for
every move. -/
inductive Logs (start : Progress ω) : List HeapEvent → Progress ω → Prop
  | start : Logs start [] start
  | next {p q : Progress ω} {events more : List HeapEvent} :
    Logs start events p → p.Next HostAction.UsesHeap q →
    p.machine.heap.Does more q.machine.heap → Logs start (events ++ more) q

theorem Logs.act {outcome : Except RuntimeError (Option Value)}
    (logs : p.Logs events (.finished m outcome)) (action : HostAction ω)
    (allows : action.UsesHeap m) (does : m.heap.Does more (action.act m).machine.heap) :
    p.Logs (events ++ more) (action.act m) :=
  logs.next (.act outcome allows) does

theorem Logs.step (logs : p.Logs events (.running m f link))
    (does : m.heap.Does more (m.step f link).machine.heap) :
    p.Logs (events ++ more) (m.step f link) :=
  logs.next (.step m f link) does

theorem Logs.does (logs : p.Logs events q) : p.machine.heap.Does events q.machine.heap := by
  induction logs with
  | start => exact .nil _
  | next _ _ more ih => exact ih.append more

theorem Logs.lives (logs : p.Logs events q) : p.Lives HostAction.UsesHeap q := by
  induction logs with
  | start => exact .refl
  | next _ next _ ih => exact ih.tail next

/-- A log can be kept of every lifetime. -/
theorem Lives.logs {table : ClassTable} {limits : Limits} {world : ω}
    (lives : (fresh table limits world).Lives HostAction.UsesHeap p) :
    ∃ events, (fresh table limits world).Logs events p := by
  have root : HeapBridge (ω := ω) fun world heap _ _ => ⟨world, heap, .ok .null⟩ :=
    fun _ h _ _ => ⟨[], .nil h⟩
  induction lives with
  | refl => exact ⟨[], .start⟩
  | tail before next ih =>
      obtain ⟨events, logs⟩ := ih
      obtain ⟨more, does⟩ := next.does
        (Lives.bridged root (fun _ _ => HostAction.UsesHeap.bridged) before)
      exact ⟨events ++ more, logs.next next does⟩

/-- **The heap only grows, objects keep what they are, and interning is exact.** The host
and its bridges work on the heap by calls and writes alone, and so does the program. Then
a log can be kept of the whole lifetime, and for every log of it:

* at every moment every index that a call has given leads to the object that was asked
  for, or what has become of it, and nothing that is there then is gone or another
  object at the end;
* any two calls for strings, wherever they are in the log, have given the same index if
  and only if the strings are the same, and so it is for class literals; none of a
  string is that of a class literal. -/
theorem Lives.heap_history {table : ClassTable} {limits : Limits} {world : ω}
    (lives : (fresh table limits world).Lives HostAction.UsesHeap p) :
    (∃ events, (fresh table limits world).Logs events p) ∧
    ∀ events, (fresh table limits world).Logs events p →
      (∀ before after, events = before ++ after →
        ∃ h, Heap.empty.Does before h ∧ h.Does after p.machine.heap ∧
          h.Keeps p.machine.heap ∧
          ∀ c index, .gave c index ∈ before →
            ∃ o, h.get? index = some o ∧ c.object.Becomes o) ∧
      InternsExactly events := by
  refine ⟨lives.logs, fun events logs => ?_⟩
  have does : Heap.empty.Does events p.machine.heap := logs.does
  refine ⟨?_, does.internsExactly Heap.interned_empty⟩
  rintro before after rfl
  obtain ⟨h, first, second⟩ := does.split
  refine ⟨h, first, second, second.keeps, fun c index gave => ?_⟩
  exact (first.answers gave).get? (first.interned Heap.interned_empty)

end Progress

/-- A class with a method that loads a string and a class literal, and gives the
string. -/
def keeperClass : ClassCode where
  name := "Keeper"
  superName := "java/lang/Object"
  methods :=
    [plainMethod "keep" "()Ljava/lang/String;"
      [⟨0, .ldc, [.constant (.classRef "Keeper")], none⟩,
        ⟨2, .pop, [], none⟩,
        ⟨3, .ldc, [.constant (.string "kept")], none⟩,
        ⟨5, .returnValue .ref, [], none⟩]]

/-- The table with that class alone. -/
def keeperTable : ClassTable :=
  (ClassTable.load [keeperClass]).toOption.getD .empty

/-- The host and the program ask for the same string, and get the same object. -/
theorem keeper_heap_history :
    ∃ m : Machine Unit, (Progress.fresh keeperTable {} ()).Logs
        [.gave (.intern "kept") 0, .gave (.classLiteral "Keeper") 1, .gave (.intern "kept") 0]
        (.finished m (.ok (some (.ref 0)))) ∧
      m.heap.objects = #[.string "kept", .classLiteral "Keeper"] ∧
      InternsExactly
        [.gave (.intern "kept") 0, .gave (.classLiteral "Keeper") 1,
          .gave (.intern "kept") 0] := by
  have kept := Heap.does_call .empty (.intern "kept")
  have hosted := Progress.Logs.start.act (p := .fresh keeperTable {} ()) (.setHeap _) ⟨_, kept⟩ kept
  have called := hosted.act (.call "Keeper" "keep" "()Ljava/lang/String;" []) trivial (.nil _)
  have first := called.step (.call (.classLiteral "Keeper") (.nil _))
  have second := first.step (.nil _)
  have third := second.step (.call (.intern "kept") (.nil _))
  have fourth := third.step (.nil _)
  have history := fourth.lives.heap_history.2 _ fourth
  exact ⟨_, fourth, rfl, history.2⟩

end ClassMachine
