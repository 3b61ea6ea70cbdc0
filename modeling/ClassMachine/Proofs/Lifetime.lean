import Mathlib.Logic.Relation
import ClassMachine.Proofs.Step

/-!
# The lifetime of a machine

A machine outlives the calls of its host. Between two calls the host can set
bridges and static fields and work on the heap; during a call the program takes
its steps. `Progress.Next` is one such move, among those that the host allows
itself, and `Progress.Lives` is any number of them.

A failed call is followed by others like any call. So a lifetime goes through
every sequence of calls, whatever their outcomes, and through every state inside
them.
-/

namespace ClassMachine

variable {ω : Type} {m : Machine ω} {p q r : Progress ω}

/-- What the host does with a machine on which no call runs. -/
inductive HostAction (ω : Type) where
  | setBridge (className method descriptor : String) (bridge : Bridge ω)
  | setStatic (className field : String) (value : Value)
  /-- Allocates objects, or works on those that there are. -/
  | setHeap (heap : Heap)
  | setWorld (world : ω)
  | call (className method descriptor : String) (args : List Value)

/-- What becomes of the machine: a program that runs, or a machine for the next
action. -/
def HostAction.act (m : Machine ω) : HostAction ω → Progress ω
  | .setBridge className method descriptor bridge =>
    .finished (m.setBridge className method descriptor bridge) (.ok none)
  | .setStatic className field value => .finished (m.setStatic className field value) (.ok none)
  | .setHeap heap => .finished { m with heap } (.ok none)
  | .setWorld world => .finished { m with world } (.ok none)
  | .call className method descriptor args => m.start className method descriptor args

namespace Progress

/-- A machine on which the host has done nothing yet. -/
def fresh (table : ClassTable) (limits : Limits) (world : ω) : Progress ω :=
  .finished (.create table limits world) (.ok none)

/-- One move: a step of the program, or an action that the host allows itself. -/
inductive Next (allowed : Machine ω → HostAction ω → Prop) : Progress ω → Progress ω → Prop
  | step (m : Machine ω) (f : Frame) (link : Link) :
    Next allowed (.running m f link) (m.step f link)
  | act {m : Machine ω} {action : HostAction ω}
    (outcome : Except RuntimeError (Option Value)) :
    allowed m action → Next allowed (.finished m outcome) (action.act m)

/-- Any number of moves. -/
abbrev Lives (allowed : Machine ω → HostAction ω → Prop) : Progress ω → Progress ω → Prop :=
  Relation.ReflTransGen (Next allowed)

variable {allowed : Machine ω → HostAction ω → Prop}

/-- What holds at first and is kept by every move of the lifetime holds throughout. -/
theorem Lives.invariant {I : Progress ω → Prop} (start : I p)
    (keep : ∀ q r, p.Lives allowed q → I q → q.Next allowed r → I r)
    (lives : p.Lives allowed q) : I q := by
  induction lives with
  | refl => exact start
  | tail before next ih => exact keep _ _ before ih next

/-- The run of a call is part of a lifetime. -/
theorem Reaches.lives (reached : p.Reaches q) : p.Lives allowed q := by
  refine reached.invariant (I := fun q => p.Lives allowed q) .refl fun q _ lives => ?_
  cases q with
  | running m f link => exact lives.tail (.step m f link)
  | finished m outcome => exact lives

/-- A lifetime goes on with an action of the host. -/
theorem Lives.act {outcome : Except RuntimeError (Option Value)}
    (lives : p.Lives allowed (.finished m outcome)) (action : HostAction ω)
    (allows : allowed m action) : p.Lives allowed (action.act m) :=
  lives.tail (.act outcome allows)

/-- A lifetime may start with a call. -/
theorem lives_of_call {table : ClassTable} {limits : Limits} {world : ω}
    {className method descriptor : String} {args : List Value}
    (allows : allowed (.create table limits world) (.call className method descriptor args))
    (reached :
      ((Machine.create table limits world).start className method descriptor args).Reaches p) :
    (fresh table limits world).Lives allowed p :=
  .head (.act (.ok none) allows) reached.lives

theorem Next.linked (next : p.Next allowed q) (linked : p.Linked) : q.Linked := by
  cases next with
  | step m f link => exact (Machine.step_moves linked).linked linked
  | @act m action outcome allows =>
      cases action with
      | call className method descriptor args =>
          exact (m.start_starts className method descriptor args).linked
      | _ => trivial

/-- No move loads a class or changes a limit. -/
theorem Next.classes (next : p.Next allowed q) (linked : p.Linked) :
    q.machine.classes = p.machine.classes := by
  cases next with
  | step m f link => exact (Machine.step_moves linked).becomes.classes
  | @act m action outcome allows =>
      cases action with
      | call className method descriptor args =>
          exact (m.start_starts className method descriptor args).becomes.classes
      | _ => rfl

/-- Frames are linked throughout a lifetime. -/
theorem Lives.linked (lives : p.Lives allowed q) (linked : p.Linked) : q.Linked :=
  lives.invariant linked fun _ _ _ linked next => next.linked linked

theorem Lives.classes (lives : p.Lives allowed q) (linked : p.Linked) :
    q.machine.classes = p.machine.classes :=
  lives.invariant (I := fun q => q.machine.classes = p.machine.classes) rfl
    fun _ _ before same next => (next.classes (before.linked linked)).trans same

end Progress

/-! ## Bridges -/

section Bridges

variable {B : Bridge ω → Prop} {allowed : Machine ω → HostAction ω → Prop}

/-- If the action sets a bridge, then one with the property. -/
def HostAction.Bridged (B : Bridge ω → Prop) : HostAction ω → Prop
  | .setBridge _ _ _ bridge => B bridge
  | _ => True

/-- Every bridge of the machine has the property. -/
def Machine.Bridged (B : Bridge ω → Prop) (m : Machine ω) : Prop :=
  ∀ key bridge, m.bridges.find? key = some bridge → B bridge

namespace Machine

theorem Bridged.of_same {m' : Machine ω} (bridged : m.Bridged B) (same : m'.bridges = m.bridges) :
    m'.Bridged B := by
  rw [Bridged, same]
  exact bridged

theorem Bridged.setBridge {bridge : Bridge ω} (bridged : m.Bridged B) (holds : B bridge)
    (className method descriptor : String) :
    (m.setBridge className method descriptor bridge).Bridged B := by
  intro key other found
  change (m.bridges.insert (.of className method descriptor) bridge).find? key = _ at found
  rcases Table.find?_insert_eq_some found with ⟨_, rfl⟩ | ⟨_, found⟩
  · exact holds
  · exact bridged key other found

/-- The machine comes with one bridge, which does nothing. -/
theorem bridged_create (root : B fun world heap _ _ => ⟨world, heap, .ok .null⟩)
    (table : ClassTable) (limits : Limits) (world : ω) : (create table limits world).Bridged B :=
  Bridged.setBridge (m := { create table limits world with bridges := .empty }) nofun root _ _ _

end Machine

theorem HostAction.bridged_act {action : HostAction ω} (sets : action.Bridged B)
    (bridged : m.Bridged B) : (action.act m).machine.Bridged B := by
  cases action with
  | setBridge className method descriptor bridge => exact bridged.setBridge sets _ _ _
  | setStatic | setHeap | setWorld => exact bridged
  | call className method descriptor args =>
      exact bridged.of_same (m.start_starts className method descriptor args).becomes.bridges

namespace Progress

theorem Next.bridged (sets : ∀ m action, allowed m action → action.Bridged B)
    (next : p.Next allowed q) (linked : p.Linked) (bridged : p.machine.Bridged B) :
    q.machine.Bridged B := by
  cases next with
  | step m f link => exact bridged.of_same (Machine.step_moves linked).becomes.bridges
  | act outcome allows => exact HostAction.bridged_act (sets _ _ allows) bridged

/-- What holds of every bridge that the host sets holds of all bridges throughout. -/
theorem Lives.bridged {table : ClassTable} {limits : Limits} {world : ω}
    (root : B fun world heap _ _ => ⟨world, heap, .ok .null⟩)
    (sets : ∀ m action, allowed m action → action.Bridged B)
    (lives : (fresh table limits world).Lives allowed p) : p.machine.Bridged B := by
  have start : (fresh table limits world).machine.Bridged B :=
    Machine.bridged_create root table limits world
  have linked : (fresh table limits world).Linked := trivial
  exact lives.invariant (I := fun p => p.machine.Bridged B) start fun _ _ before bridged next =>
    next.bridged sets (before.linked linked) bridged

end Progress

end Bridges

end ClassMachine
