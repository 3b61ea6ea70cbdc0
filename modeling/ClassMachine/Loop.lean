import ClassMachine.Machine.Step

/-!
# Running to the end

The outer loop around `Progress.step`. It ends only if the program does; then
its result is the end that counted steps lead to.
-/

namespace ClassMachine

variable {ω : Type} [Inhabited ω]

instance : Inhabited (Progress ω) :=
  ⟨.finished (.create .empty {} default) (.ok none)⟩

/-- Runs a program until it has ended. -/
def Progress.complete : Progress ω → Progress ω
  | .running m f link => m.step f link |>.complete
  | .finished m outcome => .finished m outcome
partial_fixpoint

end ClassMachine
