import ClassMachine.Main
import ClassMachine.Proofs.Budget
import ClassMachine.Proofs.CallStack
import ClassMachine.Proofs.Translation
import ClassMachine.Proofs.Resolution
import ClassMachine.Proofs.Idempotence
import ClassMachine.Proofs.Lifetime
import ClassMachine.Proofs.Readiness
import ClassMachine.Proofs.Store
import ClassMachine.Proofs.Fields
import ClassMachine.Proofs.Initialization
import ClassMachine.Proofs.Manifest
import ClassMachine.Proofs.StringConstant
import ClassMachine.Proofs.Diagnostics
import ClassMachine.Proofs.Shadowing
import ClassMachine.Proofs.DepthLimit
import ClassMachine.Proofs.HeapHistory
import ClassMachine.Proofs.Closed
import ClassMachine.Proofs.WellFormed
import ClassMachine.Proofs.Concatenation
import ClassMachine.Proofs.Layout
import ClassMachine.Proofs.Spelling
import ClassMachine.Proofs.FiniteLiterals
import ClassMachine.Proofs.DescriptorGrammar
import ClassMachine.Proofs.Arguments
import ClassMachine.Proofs.FrameLaw
import ClassMachine.Proofs.Expressions
import ClassMachine.Proofs.StackSlots
import ClassMachine.Proofs.CallResult
import ClassMachine.Proofs.MemberComments
import ClassMachine.Proofs.LastDefinition
import ClassMachine.Proofs.Metrics
import ClassMachine.Proofs.Profile
import ClassMachine.Proofs.Sources
import ClassMachine.Proofs.Constructors
import ClassMachine.Proofs.TypeParameters
