import ClassMachine.Proofs.Step

/-!
# The depth of calls

A machine counts its frames: at every moment of a call the depth has grown by
the number of frames at work, and as long as there is one it is within the
limit. When the call has ended, in whatever way, the depth is what it was.
-/

namespace ClassMachine

variable {ω : Type} {m m' : Machine ω} {f : Frame} {link : Link} {p q : Progress ω} {base : Nat}

/-- The depth is that before the call and the number of frames, within the limit. -/
structure Progress.Counts (base : Nat) (p : Progress ω) : Prop where
  depth : p.machine.depth = base + p.frames.length
  room : p.frames ≠ [] → p.machine.depth ≤ p.machine.limits.maxDepth

/-- A failure ends all frames. -/
theorem Machine.counts_failAt {method : LoadedMethod} {index : Nat} {fault : Fault}
    (depth : m.depth = base + (link.frames.length + 1)) :
    (m.failAt method index link fault).Counts base := by
  obtain ⟨m', ends, keeps⟩ := m.failAt_eq method index link fault
  rw [ends]
  refine ⟨?_, fun busy => (busy rfl).elim⟩
  have left : m'.depth = m.depth - (link.frames.length + 1) := keeps.depth
  rw [Progress.machine, left, depth, Nat.add_sub_cancel]
  rfl

theorem Settles.counts (settles : Settles m f link p)
    (depth : m.depth = base + (link.frames.length + 1)) (room : m.depth ≤ m.limits.maxDepth) :
    p.Counts base := by
  cases settles with
  | advance keeps =>
      refine ⟨keeps.depth.trans depth, fun _ => ?_⟩
      rw [Progress.machine, keeps.depth, keeps.limits]
      exact room
  | @enter m' g callee await keeps space =>
      refine ⟨?_, fun _ => ?_⟩
      · change m.depth + 1 = base + (link.frames.length + 1 + 1)
        omega
      · change m.depth + 1 ≤ m'.limits.maxDepth
        rw [keeps.limits]
        exact space
  | @fail m' fault _ keeps => exact Machine.counts_failAt (keeps.depth.trans depth)

theorem Moves.counts (moves : Moves m f link p)
    (depth : m.depth = base + (link.frames.length + 1)) (room : m.depth ≤ m.limits.maxDepth) :
    p.Counts base := by
  cases moves with
  | fellOff => exact Machine.counts_failAt depth
  | spent => exact Machine.counts_failAt depth
  | settles _ _ _ settles => exact settles.counts depth room
  | jump _ _ keeps =>
      refine ⟨keeps.depth.trans depth, fun _ => ?_⟩
      rw [Progress.machine, keeps.depth, keeps.limits]
      exact room
  | answer =>
      refine ⟨?_, fun busy => (busy rfl).elim⟩
      change m.depth - 1 = base
      rw [depth]
      rfl
  | enter _ _ _ space =>
      refine ⟨?_, fun _ => space⟩
      change m.depth - 1 + 1 = base + 1
      rw [depth]
      rfl
  | refuse =>
      refine ⟨?_, fun busy => (busy rfl).elim⟩
      change m.depth - 1 = base
      rw [depth]
      rfl
  | @resume _ g await link _ _ _ _ settles =>
      -- The frame that returned is no longer counted when its caller goes on.
      have left : m.counted.leave.depth = base + (link.frames.length + 1) := by
        change m.depth - 1 = _
        rw [depth]
        rfl
      exact settles.counts left (Nat.le_trans (Nat.sub_le _ _) room)

theorem Starts.counts (starts : Starts m p) : p.Counts m.depth := by
  cases starts with
  | refuse _ keeps => exact ⟨keeps.depth, fun busy => (busy rfl).elim⟩
  | answer _ keeps => exact ⟨keeps.depth, fun busy => (busy rfl).elim⟩
  | @run m' f link keeps space _ alone =>
      refine ⟨?_, fun _ => ?_⟩
      · change m.depth + 1 = m.depth + (link.frames.length + 1)
        rw [alone]
        rfl
      · change m.depth + 1 ≤ m'.limits.maxDepth
        rw [keeps.limits]
        exact space

namespace Progress

theorem Counts.step (linked : p.Linked) (counts : p.Counts base) : p.step.Counts base := by
  cases p with
  | finished m outcome => exact counts
  | running m f link =>
      have busy : (running m f link).frames ≠ [] := nofun
      exact (Machine.step_moves linked).counts counts.depth (counts.room busy)

/-- **Depth is exact.** -/
theorem counts_of_reaches {className method descriptor : String} {args : List Value}
    (reached : (m.start className method descriptor args).Reaches p) : p.Counts m.depth := by
  have starts := m.start_starts className method descriptor args
  exact reached.invariant starts.counts fun q ahead => Counts.step (ahead.linked starts.linked)

/-- There are never more frames than the limit allows. -/
theorem length_frames_le {className method descriptor : String} {args : List Value}
    (reached : (m.start className method descriptor args).Reaches p) :
    p.frames.length ≤ m.limits.maxDepth := by
  obtain ⟨depth, room⟩ := counts_of_reaches reached
  rw [(becomes_of_reaches reached).limits] at room
  by_cases busy : p.frames = []
  · rw [busy]
    exact Nat.zero_le _
  · have := room busy
    omega

end Progress

end ClassMachine
