import ClassMachine.Proofs.Resolution
import ClassMachine.Proofs.Translation

/-!
# Where symbols come from

A listing has no literals, members and classes among its operands: they are spelled out
in comments. So every such operand of translated code is the one that the comment of its
instruction spells out (`explained_of_readListing`).
-/

namespace ClassMachine

variable {className method text : String} {comment : Option String} {code : List Instruction}
  {insn insn' : Instruction} {operand operand' : Operand} {operands : List Operand}
  {m m' : MethodCode} {c : ClassCode}

namespace Operand

/-- Operands that name no symbol. -/
def isBare : Operand → Bool
  | .constant _ | .field _ | .method _ | .classRef _ => false
  | _ => true

/-- The symbol that a comment spells out in a class. -/
inductive SpelledBy (className text : String) : Operand → Prop
  | constant {value : Constant} :
    Comment.constant? text = some value → SpelledBy className text (.constant value)
  | field {ref : MemberRef} :
    Comment.fieldRef? className text = some ref → SpelledBy className text (.field ref)
  | method {ref : MemberRef} :
    Comment.methodRef? className text = some ref → SpelledBy className text (.method ref)
  | classRef {name : String} :
    Comment.className? text = some name → SpelledBy className text (.classRef name)

/-- An operand is a symbol only if the comment spells it out. -/
def Explained (className : String) (comment : Option String) (operand : Operand) : Prop :=
  operand.isBare = true ∨ ∃ text, comment = some text ∧ operand.SpelledBy className text

theorem isBare_of_isScanned (scanned : operand.isScanned = true) : operand.isBare = true := by
  cases operand <;> first | rfl | cases scanned

theorem isBare_ofSlot (value : Int32) : (ofSlot value).isBare = true := by
  unfold ofSlot
  split <;> rfl

theorem isBare_suffixOperand (base : Opcode) (value : Int32) :
    (suffixOperand base value).isBare = true := by
  unfold suffixOperand
  split
  · exact isBare_ofSlot value
  · rfl

theorem isBare_unpooled (bare : operand.isBare = true) : operand.unpooled.isBare = true := by
  cases operand <;> first | rfl | cases bare

theorem isBare_asOffset (bare : operand.isBare = true) : operand.asOffset.isBare = true := by
  unfold asOffset
  split
  · split <;> rfl
  · exact bare

theorem isBare_localOperands (bare : ∀ operand ∈ operands, operand.isBare = true) :
    ∀ operand ∈ localOperands operands, operand.isBare = true := by
  unfold localOperands
  split
  · rename_i value rest
    obtain ⟨_, others⟩ := List.forall_mem_cons.1 bare
    exact List.forall_mem_cons.2 ⟨isBare_ofSlot value, others⟩
  · exact bare

/-- What takes the place of a pool token is spelled out, or the plain text of the comment. -/
theorem explained_symbolOperands {isClassified : Operand → Bool} {read : String → Option Operand}
    (spells : ∀ text operand, read text = some operand → operand.SpelledBy className text)
    (bare : ∀ operand ∈ operands, operand.isBare = true) :
    ∀ operand ∈ symbolOperands isClassified read comment operands,
      operand.Explained className comment := by
  have explained : ∀ operand ∈ operands, operand.Explained className comment :=
    fun operand member => Or.inl (bare operand member)
  unfold symbolOperands
  split
  · exact explained
  · extract_lets symbol
    have first : symbol.Explained className comment := by
      cases comment with
      | none => exact Or.inl rfl
      | some text =>
          change ((read text).getD (.raw text)).Explained className (some text)
          cases found : read text with
          | none => exact Or.inl rfl
          | some operand => exact Or.inr ⟨text, rfl, spells text operand found⟩
    split
    · exact List.forall_mem_singleton.2 first
    · obtain ⟨head, rest⟩ := List.forall_mem_cons.1 explained
      split
      · exact List.forall_mem_cons.2 ⟨first, rest⟩
      · exact List.forall_mem_cons.2 ⟨first, explained⟩

theorem ResolvedTo.explained (resolved : operand.ResolvedTo code operand')
    (explained : operand.Explained className comment) : operand'.Explained className comment := by
  cases resolved with
  | jump => exact Or.inl rfl
  | other => exact explained

end Operand

open Operand

/-- The first pass takes symbols out of the comment. -/
theorem Instruction.Scanned.explained_normalize (scanned : insn.Scanned) (className : String) :
    ∀ operand ∈ (insn.normalize className).operands,
      operand.Explained className insn.comment := by
  -- The scanner leaves operands bare, so what is not bare comes from the comment.
  have bare : ∀ operand ∈ insn.operands, operand.isBare = true :=
    fun operand member => isBare_of_isScanned (scanned operand member)
  unfold normalize
  split
  · rename_i base value _
    exact List.forall_mem_singleton.2 (Or.inl (isBare_suffixOperand base value))
  · change ∀ operand ∈ classifiedOperands _ _ _ _, _
    cases insn.opcode.family with
    | immediate | plain =>
        exact List.forall_mem_map.2 fun operand member =>
          Or.inl (isBare_unpooled (bare operand member))
    | localVariable => exact fun operand member => Or.inl (isBare_localOperands bare operand member)
    | controlTransfer =>
        exact List.forall_mem_map.2 fun operand member =>
          Or.inl (isBare_asOffset (bare operand member))
    | constantLoad =>
        refine explained_symbolOperands (fun text operand found => ?_) bare
        obtain ⟨value, read, rfl⟩ := Option.map_eq_some_iff.1 found
        exact .constant read
    | fieldAccess =>
        refine explained_symbolOperands (fun text operand found => ?_) bare
        obtain ⟨ref, read, rfl⟩ := Option.map_eq_some_iff.1 found
        exact .field read
    | invocation =>
        refine explained_symbolOperands (fun text operand found => ?_) bare
        obtain ⟨ref, read, rfl⟩ := Option.map_eq_some_iff.1 found
        exact .method read
    | typeReference =>
        refine explained_symbolOperands (fun text operand found => ?_) bare
        obtain ⟨name, read, rfl⟩ := Option.map_eq_some_iff.1 found
        exact .classRef read

/-- The second pass takes nothing into an instruction but indices. -/
theorem Instruction.ResolvedTo.explained (resolved : insn.ResolvedTo className code insn')
    (scanned : insn.Scanned) :
    ∀ operand ∈ insn'.operands, operand.Explained className insn'.comment := by
  intro operand member
  have mapped := Operand.mapM_resolve_eq_ok_iff.2 resolved.operands
  obtain ⟨original, source, left⟩ := mem_of_mapM mapped member
  rw [resolved.comment]
  exact (Operand.resolve_eq_ok_iff.1 left).explained
    (scanned.explained_normalize className original source)

theorem MethodCode.Scanned.explained (scanned : m.Scanned)
    (normal : m.normalize className = .ok m') :
    ∀ insn ∈ m'.instructions, ∀ operand ∈ insn.operands,
      operand.Explained className insn.comment := by
  obtain ⟨instructions, mapped, rfl⟩ := MethodCode.normalize_eq_ok_iff.1 normal
  intro insn member
  obtain ⟨original, source, resolved⟩ := mem_of_mapM mapped member
  exact (Instruction.resolvedTo_of_resolve_eq_ok resolved).explained
    (scanned.instructions original source)

/-- **Where symbols come from.** In the class of a listing every literal, member and
class is spelled out by the comment of its instruction. -/
theorem explained_of_readListing {text : String} (read : readListing text = .ok c) :
    ∀ m ∈ c.methods, ∀ insn ∈ m.instructions, ∀ operand ∈ insn.operands,
      operand.Explained c.name insn.comment := by
  obtain ⟨scanned, parsed, normal⟩ := bind_eq_ok.1 read
  obtain ⟨name, _, mapped⟩ := ClassCode.normalize_eq_ok_iff.1 normal
  intro m member
  obtain ⟨original, source, normal⟩ := mem_of_mapM mapped member
  rw [name]
  exact (Listing.parse_scanned parsed original source).explained normal

end ClassMachine
