import ClassMachine.Proofs.Normal

/-!
# Resolution of jumps

The second pass of normalization replaces offsets by indices and leaves
everything else of a method where it is.

* `LastAt code offset index`: the last instruction at the offset has that index.
* `Instruction.Resolvable`: what an instruction needs so that its operands can be
  resolved, and `Instruction.Offends`: the error of one that cannot be.
* `MethodCode.ResolvedTo`: what becomes of a method.

A class can be normalized if and only if every instruction can be resolved.
Otherwise the error is that of the first one that cannot, in the first method
that has one (`ClassCode.normalize_resolves`).
-/

namespace ClassMachine

variable {className method : String} {code : List Instruction} {insn insn' : Instruction}
  {operand operand' : Operand} {operands operands' : List Operand} {m m' : MethodCode}
  {position offset : UInt32} {index : Nat} {e : FormatError}

/-! ## Instructions at an offset -/

/-- Some instruction of the code stands at the offset. -/
def IsBoundary (code : List Instruction) (offset : UInt32) : Prop :=
  ∃ insn ∈ code, insn.offset = offset

/-- The last instruction at the offset has that index. -/
structure LastAt (code : List Instruction) (offset : UInt32) (index : Nat) : Prop where
  found : ∃ insn, code[index]? = some insn ∧ insn.offset = offset
  last : ∀ i insn, code[i]? = some insn → insn.offset = offset → i ≤ index

theorem LastAt.isBoundary (last : LastAt code offset index) : IsBoundary code offset := by
  obtain ⟨insn, found, same⟩ := last.found
  exact ⟨insn, List.mem_of_getElem? found, same⟩

theorem LastAt.unique {index' : Nat} (last : LastAt code offset index)
    (last' : LastAt code offset index') : index = index' := by
  obtain ⟨insn, found, same⟩ := last.found
  obtain ⟨insn', found', same'⟩ := last'.found
  exact Nat.le_antisymm (last'.last _ _ found same) (last.last _ _ found' same')

/-- Where offsets strictly increase there is no other instruction at the offset. -/
theorem LastAt.eq_of_increasing (increasing : code.Pairwise fun a b => a.offset < b.offset)
    (last : LastAt code offset index) {i : Nat} (found : code[i]? = some insn)
    (same : insn.offset = offset) : i = index := by
  rcases Nat.lt_or_eq_of_le (last.last i insn found same) with before | eq
  · obtain ⟨insn', found', same'⟩ := last.found
    obtain ⟨inside, rfl⟩ := List.getElem?_eq_some_iff.1 found
    obtain ⟨inside', rfl⟩ := List.getElem?_eq_some_iff.1 found'
    have less := List.pairwise_iff_getElem.1 increasing i index inside inside' before
    rw [same, same'] at less
    exact (UInt32.lt_irrefl _ less).elim
  · exact eq

theorem indexAt?_eq_none_iff : indexAt? offset code = none ↔ ¬ IsBoundary code offset := by
  unfold IsBoundary
  induction code with
  | nil => exact ⟨fun _ => nofun, fun _ => rfl⟩
  | cons insn rest ih =>
      simp only [indexAt?, List.mem_cons, exists_eq_or_imp, not_or, ← ih]
      cases indexAt? offset rest <;> simp

theorem lastAt_of_indexAt? (found : indexAt? offset code = some index) :
    LastAt code offset index := by
  induction code generalizing index with
  | nil => cases found
  | cons insn rest ih =>
      rw [indexAt?] at found
      -- The rest of the code is searched first, so a later instruction is preferred.
      split at found
      · rename_i later behind
        cases found
        obtain ⟨there, last⟩ := ih behind
        refine ⟨there, fun i other placed same => ?_⟩
        cases i with
        | zero => exact Nat.zero_le _
        | succ i => exact Nat.succ_le_succ (last i other placed same)
      · rename_i nowhere
        split at found
        · rename_i here
          cases found
          refine ⟨⟨insn, rfl, here⟩, fun i other placed same => ?_⟩
          cases i with
          | zero => exact Nat.le_refl 0
          | succ i =>
              have boundary : IsBoundary rest offset :=
                ⟨other, List.mem_of_getElem? placed, same⟩
              exact (indexAt?_eq_none_iff.1 nowhere boundary).elim
        · cases found

theorem indexAt?_eq_some_iff : indexAt? offset code = some index ↔ LastAt code offset index := by
  refine ⟨lastAt_of_indexAt?, fun last => ?_⟩
  cases found : indexAt? offset code with
  | none => exact (indexAt?_eq_none_iff.1 found last.isBoundary).elim
  | some index' => rw [(lastAt_of_indexAt? found).unique last]

@[simp]
theorem Instruction.offset_normalize (className : String) (insn : Instruction) :
    (insn.normalize className).offset = insn.offset := by
  unfold normalize
  split <;> rfl

@[simp]
theorem Instruction.comment_normalize (className : String) (insn : Instruction) :
    (insn.normalize className).comment = insn.comment := by
  unfold normalize
  split <;> rfl

/-- The first pass moves no instruction. -/
theorem indexAt?_map_normalize (className : String) (offset : UInt32) (code : List Instruction) :
    indexAt? offset (code.map (Instruction.normalize className)) = indexAt? offset code := by
  induction code with
  | nil => rfl
  | cons insn rest ih =>
      rw [List.map_cons, indexAt?, indexAt?, ih, Instruction.offset_normalize]

/-! ## Operands -/

/-- What becomes of an operand: an offset leads to the last instruction there, and
every other operand stays. -/
inductive Operand.ResolvedTo (code : List Instruction) : Operand → Operand → Prop
  | jump {position : UInt32} {index : Nat} :
    LastAt code position index → ResolvedTo code (.offset position) (.target index)
  | other {operand : Operand} :
    (∀ position, operand ≠ .offset position) → ResolvedTo code operand operand

namespace Operand

theorem resolve_map_normalize (className : String) (code : List Instruction) :
    Operand.resolve (code.map (Instruction.normalize className)) = Operand.resolve code := by
  funext operand
  cases operand with
  | offset position => simp only [resolve, indexAt?_map_normalize]
  | _ => rfl

theorem resolve_eq_ok_iff :
    operand.resolve code = .ok operand' ↔ operand.ResolvedTo code operand' := by
  constructor
  · intro resolved
    rcases resolve_eq_ok resolved with ⟨position, index, rfl, found, rfl⟩ | ⟨other, rfl⟩
    · exact .jump (indexAt?_eq_some_iff.1 found)
    · exact .other other
  · intro resolved
    cases resolved with
    | jump last => rw [resolve, indexAt?_eq_some_iff.2 last]
    | other other =>
        cases operand with
        | offset position => exact (other position rfl).elim
        | _ => rfl

/-- Only an offset at which no instruction stands cannot be resolved. -/
theorem resolve_eq_error (failed : operand.resolve code = .error position) :
    operand = .offset position ∧ ¬ IsBoundary code position := by
  unfold resolve at failed
  split at failed
  · split at failed
    · cases failed
    · rename_i nowhere
      cases failed
      exact ⟨rfl, indexAt?_eq_none_iff.1 nowhere⟩
  · cases failed

theorem resolve_isOk_iff :
    (∃ operand', operand.resolve code = .ok operand') ↔
      ∀ position, operand = .offset position → IsBoundary code position := by
  constructor
  · rintro ⟨operand', resolved⟩ position rfl
    cases resolve_eq_ok_iff.1 resolved with
    | jump last => exact last.isBoundary
    | other other => exact (other position rfl).elim
  · intro boundaries
    cases resolved : operand.resolve code with
    | ok operand' => exact ⟨operand', rfl⟩
    | error position =>
        obtain ⟨rfl, nowhere⟩ := resolve_eq_error resolved
        exact (nowhere (boundaries position rfl)).elim

theorem mapM_resolve_eq_ok_iff :
    operands.mapM (Operand.resolve code) = .ok operands' ↔
      List.Forall₂ (ResolvedTo code) operands operands' := by
  simp only [mapM_eq_ok_iff, resolve_eq_ok_iff]

theorem mapM_resolve_isOk_iff :
    (∃ operands', operands.mapM (Operand.resolve code) = .ok operands') ↔
      ∀ position, .offset position ∈ operands → IsBoundary code position := by
  simp only [mapM_isOk_iff, resolve_isOk_iff]
  constructor
  · intro boundaries position member
    exact boundaries _ member position rfl
  · rintro boundaries operand member position rfl
    exact boundaries position member

theorem ResolvedTo.ne_offset (resolved : operand.ResolvedTo code operand') (position : UInt32) :
    operand' ≠ .offset position := by
  cases resolved with
  | jump => nofun
  | other other => exact other position

end Operand

/-! ## Instructions -/

namespace Instruction

/-- The operands are those of a jump: exactly one, an offset or an index. -/
def HasJump (insn : Instruction) : Prop :=
  (∃ position, insn.operands = [.offset position]) ∨ ∃ index, insn.operands = [.target index]

/-- An instruction whose operands can be resolved in the code of its method. -/
structure Resolvable (code : List Instruction) (insn : Instruction) : Prop where
  jumps : insn.opcode.family = .controlTransfer → insn.HasJump
  boundaries : ∀ position, .offset position ∈ insn.operands → IsBoundary code position

/-- The error of an instruction that cannot be resolved: a control transfer without
the operands of a jump, or else the first offset that leads nowhere. -/
inductive Offends (className method : String) (code : List Instruction) (insn : Instruction) :
    FormatError → Prop
  | operands :
    insn.opcode.family = .controlTransfer → ¬ insn.HasJump →
    Offends className method code insn
      (.badBranchOperand className method insn.offset insn.operands)
  | target {before after : List Operand} {position : UInt32} :
    (insn.opcode.family = .controlTransfer → insn.HasJump) →
    insn.operands = before ++ .offset position :: after →
    (∀ earlier, .offset earlier ∈ before → IsBoundary code earlier) →
    ¬ IsBoundary code position →
    Offends className method code insn
      (.unresolvedBranch className method insn.offset position)

theorem resolve_map_normalize (owner className method : String) (code : List Instruction) :
    Instruction.resolve className method (code.map (Instruction.normalize owner)) =
      Instruction.resolve className method code := by
  funext insn
  unfold resolve
  rw [Operand.resolve_map_normalize]

/-- The check of the operands of a control transfer. -/
theorem hasJump_iff :
    (insn.opcode.family = .controlTransfer → insn.HasJump) ↔
      ¬ (insn.opcode.family = .controlTransfer ∧ !isJumpOperands insn.operands) := by
  rw [HasJump, ← isJumpOperands_iff]
  cases isJumpOperands insn.operands <;> simp

theorem resolve_of_hasJump (jumps : insn.opcode.family = .controlTransfer → insn.HasJump) :
    insn.resolve className method code =
      match insn.operands.mapM (Operand.resolve code) with
      | .ok operands => .ok { insn with operands }
      | .error target => .error (.unresolvedBranch className method insn.offset target) :=
  if_neg (hasJump_iff.1 jumps)

theorem resolve_eq_ok_iff :
    insn.resolve className method code = .ok insn' ↔
      (insn.opcode.family = .controlTransfer → insn.HasJump) ∧
      insn' = { insn with operands := insn'.operands } ∧
      List.Forall₂ (Operand.ResolvedTo code) insn.operands insn'.operands := by
  constructor
  · intro resolved
    have jumps := hasJump_iff.2 fun bad => by
      rw [resolve, if_pos bad] at resolved
      cases resolved
    rw [resolve_of_hasJump jumps] at resolved
    split at resolved
    · rename_i operands mapped
      cases resolved
      exact ⟨jumps, rfl, Operand.mapM_resolve_eq_ok_iff.1 mapped⟩
    · cases resolved
  · rintro ⟨jumps, same, pairs⟩
    rw [resolve_of_hasJump jumps, Operand.mapM_resolve_eq_ok_iff.2 pairs]
    exact congrArg Except.ok same.symm

theorem resolve_isOk_iff :
    (∃ insn', insn.resolve className method code = .ok insn') ↔ insn.Resolvable code := by
  constructor
  · rintro ⟨insn', resolved⟩
    obtain ⟨jumps, _, pairs⟩ := resolve_eq_ok_iff.1 resolved
    have mapped := Operand.mapM_resolve_eq_ok_iff.2 pairs
    exact ⟨jumps, Operand.mapM_resolve_isOk_iff.1 ⟨_, mapped⟩⟩
  · rintro ⟨jumps, boundaries⟩
    obtain ⟨operands, mapped⟩ := Operand.mapM_resolve_isOk_iff.2 boundaries
    rw [resolve_of_hasJump jumps, mapped]
    exact ⟨_, rfl⟩

/-- An instruction that cannot be resolved offends. -/
theorem offends_of_resolve_eq_error (failed : insn.resolve className method code = .error e) :
    insn.Offends className method code e := by
  by_cases jumps : insn.opcode.family = .controlTransfer → insn.HasJump
  · rw [resolve_of_hasJump jumps] at failed
    split at failed
    · cases failed
    · rename_i target mapped
      cases failed
      obtain ⟨before, operand, after, split, resolvable, unresolved⟩ :=
        first_of_mapM_eq_error mapped
      obtain ⟨rfl, nowhere⟩ := Operand.resolve_eq_error unresolved
      refine .target jumps split (fun earlier member => ?_) nowhere
      exact Operand.resolve_isOk_iff.1 (resolvable _ member) earlier rfl
  · obtain ⟨family, bad⟩ := Classical.not_imp.1 jumps
    have refused := Classical.not_not.1 (mt hasJump_iff.2 jumps)
    rw [resolve, if_pos refused] at failed
    cases failed
    exact .operands family bad

/-- What becomes of an instruction: it keeps its place and its comment. -/
structure ResolvedTo (className : String) (code : List Instruction) (insn insn' : Instruction) :
    Prop where
  offset : insn'.offset = insn.offset
  comment : insn'.comment = insn.comment
  opcode : insn'.opcode = (insn.normalize className).opcode
  operands :
    List.Forall₂ (Operand.ResolvedTo code) (insn.normalize className).operands insn'.operands

theorem resolvedTo_of_resolve_eq_ok {owner : String}
    (resolved : (insn.normalize owner).resolve className method code = .ok insn') :
    insn.ResolvedTo owner code insn' := by
  obtain ⟨_, same, pairs⟩ := resolve_eq_ok_iff.1 resolved
  refine ⟨?_, ?_, ?_, pairs⟩
  · rw [same]
    exact insn.offset_normalize owner
  · rw [same]
    exact insn.comment_normalize owner
  · rw [same]

theorem ResolvedTo.offset_notMem (resolved : insn.ResolvedTo className code insn')
    (position : UInt32) : .offset position ∉ insn'.operands := by
  intro member
  have mapped := Operand.mapM_resolve_eq_ok_iff.2 resolved.operands
  obtain ⟨operand, _, left⟩ := mem_of_mapM mapped member
  exact (Operand.resolve_eq_ok_iff.1 left).ne_offset position rfl

end Instruction

/-! ## Methods and classes -/

namespace MethodCode

/-- A method whose instructions can all be resolved once their operands are
classified. -/
def Resolvable (className : String) (m : MethodCode) : Prop :=
  ∀ insn ∈ m.instructions, (insn.normalize className).Resolvable m.instructions

/-- What becomes of a method: everything but the instructions stays, and these stay
in order. -/
structure ResolvedTo (className : String) (m m' : MethodCode) : Prop where
  name : m'.name = m.name
  descriptor : m'.descriptor = m.descriptor
  flags : m'.flags = m.flags
  maxStack : m'.maxStack = m.maxStack
  maxLocals : m'.maxLocals = m.maxLocals
  argsSize : m'.argsSize = m.argsSize
  instructions :
    List.Forall₂ (Instruction.ResolvedTo className m.instructions) m.instructions m'.instructions

/-- Both passes on one instruction. -/
def resolveAt (className : String) (m : MethodCode) (insn : Instruction) :
    Except FormatError Instruction :=
  (insn.normalize className).resolve className m.name m.instructions

/-- Jumps may as well be resolved in the code as it was before the first pass. -/
theorem normalize_eq (className : String) (m : MethodCode) :
    m.normalize className = do
      return { m with instructions := ← m.instructions.mapM (m.resolveAt className) } := by
  unfold normalize
  dsimp only
  rw [Instruction.resolve_map_normalize, List.mapM_map]
  rfl

theorem normalize_eq_ok_iff :
    m.normalize className = .ok m' ↔
      ∃ instructions, m.instructions.mapM (m.resolveAt className) = .ok instructions ∧
        m' = { m with instructions } := by
  rw [normalize_eq, bind_eq_ok]
  constructor
  · rintro ⟨instructions, mapped, done⟩
    cases done
    exact ⟨instructions, mapped, rfl⟩
  · rintro ⟨instructions, mapped, rfl⟩
    exact ⟨instructions, mapped, rfl⟩

theorem normalize_isOk_iff :
    (∃ m', m.normalize className = .ok m') ↔ m.Resolvable className := by
  have each : (∃ instructions, m.instructions.mapM (m.resolveAt className) = .ok instructions) ↔
      m.Resolvable className := by
    simp only [mapM_isOk_iff, resolveAt, Instruction.resolve_isOk_iff, Resolvable]
  rw [← each]
  constructor
  · rintro ⟨m', normal⟩
    obtain ⟨instructions, mapped, _⟩ := normalize_eq_ok_iff.1 normal
    exact ⟨instructions, mapped⟩
  · rintro ⟨instructions, mapped⟩
    exact ⟨_, normalize_eq_ok_iff.2 ⟨instructions, mapped, rfl⟩⟩

theorem resolvedTo_of_normalize_eq_ok (normal : m.normalize className = .ok m') :
    m.ResolvedTo className m' := by
  obtain ⟨instructions, mapped, rfl⟩ := normalize_eq_ok_iff.1 normal
  refine ⟨rfl, rfl, rfl, rfl, rfl, rfl, ?_⟩
  exact (mapM_eq_ok_iff.1 mapped).imp fun _ _ => Instruction.resolvedTo_of_resolve_eq_ok

theorem offset_notMem_of_normalize_eq_ok (normal : m.normalize className = .ok m') :
    ∀ insn ∈ m'.instructions, ∀ position, .offset position ∉ insn.operands := by
  obtain ⟨instructions, mapped, rfl⟩ := normalize_eq_ok_iff.1 normal
  intro insn member
  obtain ⟨original, _, resolved⟩ := mem_of_mapM mapped member
  exact (Instruction.resolvedTo_of_resolve_eq_ok resolved).offset_notMem

/-- A method that cannot be normalized fails at its first instruction that cannot be
resolved. -/
theorem offends_of_normalize_eq_error (failed : m.normalize className = .error e) :
    ∃ before insn after, m.instructions = before ++ insn :: after ∧
      (∀ earlier ∈ before, (earlier.normalize className).Resolvable m.instructions) ∧
      (insn.normalize className).Offends className m.name m.instructions e := by
  rw [normalize_eq] at failed
  rcases bind_eq_error.1 failed with traversal | ⟨_, _, done⟩
  · obtain ⟨before, insn, after, split, resolvable, unresolved⟩ :=
      first_of_mapM_eq_error traversal
    refine ⟨before, insn, after, split, fun earlier member => ?_, ?_⟩
    · exact Instruction.resolve_isOk_iff.1 (resolvable earlier member)
    · exact Instruction.offends_of_resolve_eq_error unresolved
  · cases done

end MethodCode

namespace ClassCode

variable {c n : ClassCode}

theorem normalize_eq_ok_iff :
    c.normalize = .ok n ↔
      n.name = canonicalName c.name ∧ n.superName = canonicalName c.superName ∧
      c.methods.mapM (MethodCode.normalize (canonicalName c.name)) = .ok n.methods := by
  unfold normalize
  rw [bind_eq_ok]
  constructor
  · rintro ⟨methods, mapped, done⟩
    cases done
    exact ⟨rfl, rfl, mapped⟩
  · rintro ⟨name, superName, mapped⟩
    refine ⟨n.methods, mapped, ?_⟩
    rw [← name, ← superName]
    rfl

theorem normalize_isOk_iff :
    (∃ n, c.normalize = .ok n) ↔ ∀ m ∈ c.methods, m.Resolvable (canonicalName c.name) := by
  have each : (∃ methods, c.methods.mapM (MethodCode.normalize (canonicalName c.name)) =
      .ok methods) ↔ ∀ m ∈ c.methods, m.Resolvable (canonicalName c.name) := by
    simp only [mapM_isOk_iff, MethodCode.normalize_isOk_iff]
  rw [← each]
  constructor
  · rintro ⟨n, normal⟩
    exact ⟨n.methods, (normalize_eq_ok_iff.1 normal).2.2⟩
  · rintro ⟨methods, mapped⟩
    exact ⟨⟨_, _, methods⟩, normalize_eq_ok_iff.2 ⟨rfl, rfl, mapped⟩⟩

/-- A class that cannot be normalized fails at its first method that cannot be. -/
theorem offends_of_normalize_eq_error (failed : c.normalize = .error e) :
    ∃ methods m methods', c.methods = methods ++ m :: methods' ∧
      (∀ earlier ∈ methods, earlier.Resolvable (canonicalName c.name)) ∧
      m.normalize (canonicalName c.name) = .error e := by
  unfold normalize at failed
  rcases bind_eq_error.1 failed with traversal | ⟨_, _, done⟩
  · obtain ⟨methods, m, methods', split, resolvable, unresolved⟩ :=
      first_of_mapM_eq_error traversal
    refine ⟨methods, m, methods', split, fun earlier member => ?_, unresolved⟩
    exact MethodCode.normalize_isOk_iff.1 (resolvable earlier member)
  · cases done

/-- **Normalization resolves jumps and moves nothing.** A class can be normalized if
and only if all its instructions can be resolved. Then the methods and their
instructions stay in order, each offset leads to the last instruction there, the
only one where offsets strictly increase, and no offset is left. Otherwise the
error names the first instruction that cannot be resolved, in the first method
that has one. -/
theorem normalize_resolves (c : ClassCode) :
    ((∃ n, c.normalize = .ok n) ↔ ∀ m ∈ c.methods, m.Resolvable (canonicalName c.name)) ∧
    (∀ n, c.normalize = .ok n →
      n.name = canonicalName c.name ∧ n.superName = canonicalName c.superName ∧
      List.Forall₂ (MethodCode.ResolvedTo (canonicalName c.name)) c.methods n.methods ∧
      ∀ m ∈ n.methods, ∀ insn ∈ m.instructions, ∀ position, .offset position ∉ insn.operands) ∧
    (∀ m ∈ c.methods, m.instructions.Pairwise (fun a b => a.offset < b.offset) →
      ∀ position index, LastAt m.instructions position index →
        ∀ i insn, m.instructions[i]? = some insn → insn.offset = position → i = index) ∧
    ∀ e, c.normalize = .error e →
      ∃ methods m methods', c.methods = methods ++ m :: methods' ∧
        (∀ earlier ∈ methods, earlier.Resolvable (canonicalName c.name)) ∧
        ∃ before insn after, m.instructions = before ++ insn :: after ∧
          (∀ earlier ∈ before,
            (earlier.normalize (canonicalName c.name)).Resolvable m.instructions) ∧
          (insn.normalize (canonicalName c.name)).Offends (canonicalName c.name) m.name
            m.instructions e := by
  refine ⟨normalize_isOk_iff, fun n normal => ?_, ?_, fun e failed => ?_⟩
  · obtain ⟨name, superName, mapped⟩ := normalize_eq_ok_iff.1 normal
    refine ⟨name, superName, ?_, fun m member => ?_⟩
    · exact (mapM_eq_ok_iff.1 mapped).imp fun _ _ => MethodCode.resolvedTo_of_normalize_eq_ok
    · obtain ⟨original, _, normal⟩ := mem_of_mapM mapped member
      exact MethodCode.offset_notMem_of_normalize_eq_ok normal
  · intro m _ increasing position index last i insn found same
    exact last.eq_of_increasing increasing found same
  · obtain ⟨methods, m, methods', split, resolvable, unresolved⟩ :=
      offends_of_normalize_eq_error failed
    exact ⟨methods, m, methods', split, resolvable,
      MethodCode.offends_of_normalize_eq_error unresolved⟩

end ClassCode

/-- A loop whose jumps are still offsets, one forward and one back. -/
def loopingClass : ClassCode where
  name := "p.Loop"
  superName := "java.lang.Object"
  methods :=
    [{ name := "run"
       descriptor := "(I)V"
       flags := .empty
       maxStack := 1
       maxLocals := 1
       argsSize := 1
       instructions :=
         [⟨0, .other "ILOAD_0", [], none⟩, ⟨1, .ifZero .eq, [.int 7], some "done"⟩,
           ⟨4, .goto, [.int 0], none⟩, ⟨7, .returnVoid, [], none⟩] }]

/-- Its jumps lead to the instructions at their offsets. -/
theorem looping_normalize_resolves :
    ∃ n, loopingClass.normalize = .ok n ∧
      n.methods.map (fun m => m.instructions.map Instruction.operands) =
        [[[.slot 0], [.target 3], [.target 0], []]] ∧
      List.Forall₂ (MethodCode.ResolvedTo "p/Loop") loopingClass.methods n.methods := by
  obtain ⟨n, normal, operands⟩ : ∃ n, loopingClass.normalize = .ok n ∧
      n.methods.map (fun m => m.instructions.map Instruction.operands) =
        [[[.slot 0], [.target 3], [.target 0], []]] :=
    ⟨_, rfl, rfl⟩
  exact ⟨n, normal, operands, (loopingClass.normalize_resolves.2.1 n normal).2.2.1⟩

end ClassMachine
