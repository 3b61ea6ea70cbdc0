import ClassMachine.Normal
import ClassMachine.Proofs.Scan

/-!
# What normalization gives

Normalization of a scanned method in its two passes. The first one classifies
operands: a pool token that no comment describes is left on a local variable or
behind the first operand, and nowhere else unless the instruction jumps
(`Instruction.Classified`). The second one resolves jumps, and fails at every
control transfer that does not have exactly one offset. So what both leave is
resolved except for those pool tokens (`Instruction.Translated`).
-/

namespace ClassMachine

variable {className method : String} {code : List Instruction} {insn insn' : Instruction}
  {operands : List Operand} {m m' : MethodCode}

/-- The families whose first operand a comment describes. -/
def Family.isDescribed : Family → Bool
  | .constantLoad | .fieldAccess | .invocation | .typeReference => true
  | _ => false

/-- Operands that stand for themselves. -/
def Operand.isSettled : Operand → Bool
  | .target _ | .pool _ | .offset _ => false
  | _ => true

/-! ## Operands of one instruction -/

/-- Scanned operands after the first pass. -/
structure Instruction.Classified (insn : Instruction) : Prop where
  noTarget : ∀ index, .target index ∉ insn.operands
  pools : ∀ {i index}, insn.operands[i]? = some (.pool index) →
    insn.opcode.family = .localVariable ∨ insn.opcode.family = .controlTransfer ∨
      0 < i ∧ insn.opcode.family.isDescribed = true

theorem isSettled_ofSlot (value : Int32) : (Operand.ofSlot value).isSettled = true := by
  unfold Operand.ofSlot
  split <;> rfl

theorem isSettled_suffixOperand (base : Opcode) (value : Int32) :
    (suffixOperand base value).isSettled = true := by
  unfold suffixOperand
  split
  · exact isSettled_ofSlot value
  · rfl

/-- What a comment spells out, or its text, stands for itself. -/
theorem isSettled_symbol {read : String → Option Operand}
    (settled : ∀ text operand, read text = some operand → operand.isSettled = true)
    (text : String) : ((read text).getD (.raw text)).isSettled = true := by
  cases found : read text with
  | none => rfl
  | some operand => exact settled text operand found

/-- The operands that a comment describes: a symbol, then scanned ones. -/
theorem symbolOperands_eq {isClassified : Operand → Bool} {read : String → Option Operand}
    (comment : Option String)
    (unclassified : ∀ operand, operand.isScanned = true → isClassified operand = false)
    (settled : ∀ text operand, read text = some operand → operand.isSettled = true)
    (scanned : ∀ operand ∈ operands, operand.isScanned = true) :
    ∃ symbol rest, symbolOperands isClassified read comment operands = symbol :: rest ∧
      symbol.isSettled = true ∧ ∀ operand ∈ rest, operand.isScanned = true := by
  -- The scanner makes no symbols, so the comment has not been used yet.
  have fresh : operands.head?.any isClassified = false := by
    cases operands with
    | nil => rfl
    | cons first rest => exact unclassified first (scanned first List.mem_cons_self)
  unfold symbolOperands
  rw [fresh, if_neg Bool.false_ne_true]
  extract_lets symbol
  have symbolSettled : symbol.isSettled = true := by
    cases comment with
    | none => rfl
    | some text => exact isSettled_symbol settled text
  cases operands with
  | nil => exact ⟨symbol, [], rfl, symbolSettled, scanned⟩
  | cons first rest =>
      by_cases replaced : first.isReplaceable = true
      · exact ⟨symbol, rest, if_pos replaced, symbolSettled, (List.forall_mem_cons.1 scanned).2⟩
      · exact ⟨symbol, first :: rest, if_neg replaced, symbolSettled, scanned⟩

theorem noTarget_of_scanned (scanned : ∀ operand ∈ operands, operand.isScanned = true)
    (index : Nat) : .target index ∉ operands := by
  intro member
  cases scanned _ member

/-- Pool tokens are left behind the symbol of a comment only. -/
theorem Instruction.classified_of_described {isClassified : Operand → Bool} {α : Type}
    {read : String → Option α} {symbol : α → Operand}
    (described : insn.opcode.family.isDescribed = true)
    (unclassified : ∀ operand, operand.isScanned = true → isClassified operand = false)
    (settled : ∀ a, (symbol a).isSettled = true) (scanned : insn.Scanned) :
    Classified { insn with
      operands := symbolOperands isClassified (fun c => (read c).map symbol) insn.comment
        insn.operands } := by
  have settledRead (text : String) (operand : Operand)
      (found : (read text).map symbol = some operand) : operand.isSettled = true := by
    obtain ⟨a, _, rfl⟩ := Option.map_eq_some_iff.1 found
    exact settled a
  obtain ⟨first, rest, eq, settles, others⟩ :=
    symbolOperands_eq insn.comment unclassified settledRead scanned
  rw [eq]
  refine ⟨fun index member => ?_, fun {i index} found => ?_⟩
  · rcases List.mem_cons.1 member with rfl | member
    · cases settles
    · exact noTarget_of_scanned others index member
  · cases i with
    | zero =>
        cases found
        cases settles
    | succ i => exact Or.inr (Or.inr ⟨Nat.succ_pos i, described⟩)

/-- Where nothing describes them, pool tokens become text. -/
theorem Instruction.classified_of_unpooled (scanned : insn.Scanned) :
    Classified { insn with operands := insn.operands.map Operand.unpooled } := by
  refine ⟨fun index member => ?_, fun {i index} found => ?_⟩
  · obtain ⟨operand, source, eq⟩ := List.mem_map.1 member
    have shape := scanned operand source
    cases operand <;> cases shape <;> cases eq
  · obtain ⟨operand, _, eq⟩ := List.mem_map.1 (List.mem_of_getElem? found)
    cases operand <;> simp [Operand.unpooled] at eq

theorem Instruction.classified_of_local (family : insn.opcode.family = .localVariable)
    (scanned : insn.Scanned) :
    Classified { insn with operands := localOperands insn.operands } := by
  refine ⟨fun index member => ?_, fun _ => Or.inl family⟩
  change .target index ∈ localOperands insn.operands at member
  unfold localOperands at member
  split at member
  · rename_i value rest eq
    rcases List.mem_cons.1 member with eq | member
    · have settled := isSettled_ofSlot value
      rw [← eq] at settled
      cases settled
    · exact noTarget_of_scanned scanned index (eq ▸ List.mem_cons_of_mem _ member)
  · exact noTarget_of_scanned scanned index member

theorem Instruction.classified_of_jump (family : insn.opcode.family = .controlTransfer)
    (scanned : insn.Scanned) :
    Classified { insn with operands := insn.operands.map Operand.asOffset } := by
  refine ⟨fun index member => ?_, fun _ => Or.inr (Or.inl family)⟩
  obtain ⟨operand, source, eq⟩ := List.mem_map.1 member
  have shape := scanned operand source
  unfold Operand.asOffset at eq
  split at eq
  · split at eq <;> cases eq
  · rw [eq] at shape
    cases shape

/-- **The first pass on scanned operands.** -/
theorem Instruction.Scanned.normalize_classified (scanned : insn.Scanned) (className : String) :
    (insn.normalize className).Classified := by
  unfold normalize
  split
  · rename_i base value _
    have settled := isSettled_suffixOperand base value
    refine ⟨fun index member => ?_, fun {i index} found => ?_⟩
    · rw [← List.mem_singleton.1 member] at settled
      cases settled
    · rw [← List.mem_singleton.1 (List.mem_of_getElem? found)] at settled
      cases settled
  · cases family : insn.opcode.family with
    | immediate | plain => exact classified_of_unpooled scanned
    | localVariable => exact classified_of_local family scanned
    | controlTransfer => exact classified_of_jump family scanned
    | constantLoad | fieldAccess | invocation | typeReference =>
        refine classified_of_described (by rw [family]; rfl) ?_ (fun _ => rfl) scanned
        intro operand shape
        cases operand <;> first | rfl | cases shape

/-! ## Jumps of one method -/

/-- An instruction of a method of that length after both passes. -/
structure Instruction.Translated (length : Nat) (insn : Instruction) : Prop where
  jumps : insn.opcode.family = .controlTransfer → ∃ index, insn.operands = [.target index]
  inside : ∀ index, .target index ∈ insn.operands → index < length
  noOffset : ∀ position, .offset position ∉ insn.operands
  pools : ∀ {i index}, insn.operands[i]? = some (.pool index) →
    insn.opcode.family = .localVariable ∨ 0 < i ∧ insn.opcode.family.isDescribed = true

theorem indexAt?_lt {offset : UInt32} {index : Nat} (found : indexAt? offset code = some index) :
    index < code.length := by
  induction code generalizing index with
  | nil => cases found
  | cons insn rest ih =>
      rw [indexAt?] at found
      split at found
      · rename_i index' later
        cases found
        exact Nat.succ_lt_succ (ih later)
      · split at found
        · cases found
          exact Nat.succ_pos _
        · cases found

theorem Operand.resolve_eq_ok {operand operand' : Operand}
    (resolved : operand.resolve code = .ok operand') :
    (∃ position index, operand = .offset position ∧ indexAt? position code = some index ∧
      operand' = .target index) ∨
    (∀ position, operand ≠ .offset position) ∧ operand' = operand := by
  unfold resolve at resolved
  split at resolved
  · rename_i position
    split at resolved
    · rename_i index found
      cases resolved
      exact Or.inl ⟨position, index, rfl, found, rfl⟩
    · cases resolved
  · rename_i other
    cases resolved
    exact Or.inr ⟨other, rfl⟩

theorem Instruction.resolve_eq_ok (resolved : insn.resolve className method code = .ok insn') :
    insn'.opcode = insn.opcode ∧
      (insn.opcode.family = .controlTransfer → isJumpOperands insn.operands = true) ∧
      insn.operands.mapM (Operand.resolve code) = .ok insn'.operands := by
  unfold resolve at resolved
  split at resolved
  · cases resolved
  · rename_i good
    split at resolved
    · rename_i operands mapped
      cases resolved
      refine ⟨rfl, fun family => ?_, mapped⟩
      simpa [family] using good
    · cases resolved

/-- The operands of a jump are one offset or one target. -/
theorem isJumpOperands_iff :
    isJumpOperands operands = true ↔
      (∃ position, operands = [.offset position]) ∨ ∃ index, operands = [.target index] := by
  unfold isJumpOperands
  split <;> simp_all

/-- **The second pass on classified operands.** -/
theorem Instruction.Classified.translated (classified : insn.Classified)
    (resolved : insn.resolve className method code = .ok insn') :
    insn'.Translated code.length := by
  obtain ⟨opcode, jumps, mapped⟩ := resolve_eq_ok resolved
  have jumps' : insn'.opcode.family = .controlTransfer →
      ∃ index, insn'.operands = [.target index] := by
    intro family
    rw [opcode] at family
    rcases isJumpOperands_iff.1 (jumps family) with ⟨position, eq⟩ | ⟨index, eq⟩
    · rw [eq] at mapped
      obtain ⟨operand', rest, first, others, done⟩ := mapM_cons_eq_ok.1 mapped
      cases others
      rcases Operand.resolve_eq_ok first with ⟨_, index, _, _, rfl⟩ | ⟨other, _⟩
      · exact ⟨index, done⟩
      · exact (other position rfl).elim
    · exact (classified.noTarget index (eq ▸ List.mem_singleton_self _)).elim
  refine ⟨jumps', fun index member => ?_, fun position member => ?_, fun {i index} found => ?_⟩
  · obtain ⟨operand, source, resolved⟩ := mem_of_mapM mapped member
    rcases Operand.resolve_eq_ok resolved with ⟨_, _, _, found, eq⟩ | ⟨_, rfl⟩
    · cases eq
      exact indexAt?_lt found
    · exact (classified.noTarget index source).elim
  · obtain ⟨operand, _, resolved⟩ := mem_of_mapM mapped member
    rcases Operand.resolve_eq_ok resolved with ⟨_, _, _, _, eq⟩ | ⟨other, rfl⟩
    · cases eq
    · exact other position rfl
  · obtain ⟨operand, source, resolved⟩ := getElem?_of_mapM mapped found
    rcases Operand.resolve_eq_ok resolved with ⟨_, _, _, _, eq⟩ | ⟨_, rfl⟩
    · cases eq
    · rw [opcode]
      rcases classified.pools source with slot | family | described
      · exact Or.inl slot
      · -- A control transfer has its target alone, so no pool token is left in it.
        obtain ⟨target, eq⟩ := jumps' (opcode ▸ family)
        rw [eq] at found
        cases List.mem_singleton.1 (List.mem_of_getElem? found)
      · exact Or.inr described

/-! ## Methods and classes -/

/-- A method after both passes. -/
structure MethodCode.Translated (m : MethodCode) : Prop where
  nonempty : m.instructions ≠ []
  descriptor : ∃ descriptor, Descriptor.parse m.descriptor = .ok descriptor
  instructions : ∀ insn ∈ m.instructions, insn.Translated m.instructions.length

theorem MethodCode.Scanned.translated (scanned : m.Scanned)
    (normal : m.normalize className = .ok m') : m'.Translated := by
  obtain ⟨resolved, mapped, done⟩ := bind_eq_ok.1 normal
  cases done
  have length := length_of_mapM mapped
  refine ⟨?_, scanned.descriptor, fun insn member => ?_⟩
  · intro empty
    change resolved = [] at empty
    rw [empty, List.length_nil, List.length_map] at length
    exact scanned.nonempty (List.length_eq_zero_iff.1 length.symm)
  · obtain ⟨classified, source, resolved⟩ := mem_of_mapM mapped member
    obtain ⟨original, member, rfl⟩ := List.mem_map.1 source
    rw [length]
    exact ((scanned.instructions original member).normalize_classified className).translated
      resolved

/-- **Normalization of a scanned class.** -/
theorem ClassCode.normalize_translated {c c' : ClassCode}
    (scanned : ∀ m ∈ c.methods, m.Scanned) (normal : c.normalize = .ok c') :
    ∀ m ∈ c'.methods, m.Translated := by
  obtain ⟨methods, mapped, done⟩ := bind_eq_ok.1 normal
  cases done
  intro m member
  obtain ⟨original, source, normal⟩ := mem_of_mapM mapped member
  exact (scanned original source).translated normal

end ClassMachine
