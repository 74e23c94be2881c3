import Umimmio.Lib.Partial
import Umimmio.Ops

namespace Umimmio
open Effects
set_option autoImplicit true

variable {r : Register} {σ : Type}

inductive MemoryOrder
  | relaxed
  | consume
  | acquire
  | release
  | acqRel
  | seqCst
  deriving DecidableEq, Repr

inductive Barrier
  | atomicSignalFence (order : MemoryOrder)
  | dmb
  | dsb
  deriving DecidableEq, Repr

/-- What is done about a range error; a policy that does not return ends the program. -/
inductive ErrorPolicy (σ : Type)
  | assertOnError
  | trapOnError
  | ignoreError
  | custom (handler : String → σ → Option σ)

def ErrorPolicy.onRangeError : ErrorPolicy σ → String → σ → Option σ
  | .assertOnError, _, _ => none
  | .trapOnError, _, _ => none
  | .ignoreError, _, s => some s
  | .custom handler, msg, s => handler msg s

inductive OpName
  | write
  | read
  | modify
  | is
  | flip
  | clear
  | reset
  | readVariant
  deriving DecidableEq, Repr

/-- The member functions an operation is called through: its own, and the `read` it is built on. -/
def Op.names : Op r → List OpName
  | .write _ => [.write]
  | .read => [.read]
  | .readField _ => [.read]
  | .is _ => [.is, .read]
  | .modify _ => [.modify]
  | .flip _ => [.flip]
  | .clear _ => [.clear]
  | .reset => [.reset]
  | .readVariant _ _ => [.readVariant, .read]

/-- A transport with `reg_read` and `reg_write` that derives its operations from `RegOps`. -/
structure RegTransport (σ : Type) where
  tag : TransportTag
  checkPolicy : Bool
  errorPolicy : ErrorPolicy σ
  exposes : List OpName
  regRead : (r : Register) → σ → Option (r.RegValueType × σ)
  regWrite : (r : Register) → r.RegValueType → σ → Option σ

namespace RegTransport

variable (T : RegTransport σ)

def Callable (op : Op r) : Prop := op.Admitted T.tag ∧ ∀ n ∈ op.names, n ∈ T.exposes

def handler : PartialHandler (RegCmd r) RegCmd.Resp σ
  | .regRead, s => T.regRead r s
  | .regWrite value, s => (T.regWrite r value s).map fun s => ((), s)
  | .onRangeError msg, s => (T.errorPolicy.onRangeError msg s).map fun s => ((), s)

end RegTransport

/-- What the wrapper asks for: barriers, accesses of the inner transport, and its error policy. -/
inductive AtomicCmd (r : Register)
  | barrier (b : Barrier)
  | innerRead
  | innerWrite (value : r.RegValueType)
  | onRangeError (msg : String)

def AtomicCmd.Resp : AtomicCmd r → Type
  | .barrier _ => Unit
  | .innerRead => r.RegValueType
  | .innerWrite _ => Unit
  | .onRangeError _ => Unit

abbrev AtomicProg (r : Register) := Prog (AtomicCmd r) AtomicCmd.Resp

namespace AtomicProg

def atomicSignalFence (order : MemoryOrder) : AtomicProg r Unit :=
  .call (.barrier (.atomicSignalFence order)) .ret

/-- On a host build, the hardware barriers do nothing. -/
def hwDmb (onArm : Bool) : AtomicProg r Unit :=
  if onArm then .call (.barrier .dmb) .ret else pure ()

def hwDsb (onArm : Bool) : AtomicProg r Unit :=
  if onArm then .call (.barrier .dsb) .ret else pure ()

def preReadBarrier (onArm : Bool) (order : MemoryOrder) : AtomicProg r Unit :=
  if order = .seqCst then do
    atomicSignalFence .seqCst
    hwDsb onArm
  else if order = .acquire ∨ order = .acqRel then
    atomicSignalFence .acquire
  else
    atomicSignalFence .relaxed

def postReadBarrier (onArm : Bool) (order : MemoryOrder) : AtomicProg r Unit :=
  if order = .seqCst then do
    hwDmb onArm
    atomicSignalFence .seqCst
  else if order = .acquire ∨ order = .acqRel then do
    hwDmb onArm
    atomicSignalFence .acquire
  else
    atomicSignalFence .relaxed

def preWriteBarrier (onArm : Bool) (order : MemoryOrder) : AtomicProg r Unit :=
  if order = .seqCst then do
    atomicSignalFence .seqCst
    hwDsb onArm
  else if order = .release ∨ order = .acqRel then do
    atomicSignalFence .release
    hwDmb onArm
  else
    atomicSignalFence .relaxed

def postWriteBarrier (onArm : Bool) (order : MemoryOrder) : AtomicProg r Unit :=
  if order = .seqCst then do
    hwDsb onArm
    atomicSignalFence .seqCst
  else if order = .release ∨ order = .acqRel then do
    hwDsb onArm
    atomicSignalFence .release
  else
    atomicSignalFence .relaxed

def innerRead (r : Register) : AtomicProg r r.RegValueType := .call .innerRead .ret

def innerWrite (value : r.RegValueType) : AtomicProg r Unit := .call (.innerWrite value) .ret

end AtomicProg

/-- The wrapper derives from `RegOps<std::true_type, AssertOnError>`, whatever it wraps. -/
structure AtomicTransport (σ : Type) where
  inner : RegTransport σ
  order : MemoryOrder := .seqCst
  onArm : Bool

namespace AtomicTransport

def exposes : List OpName := [.write, .read, .modify, .is, .flip, .clear, .reset, .readVariant]

def checkPolicy : Bool := true

def errorPolicy : ErrorPolicy σ := .assertOnError

variable (A : AtomicTransport σ)

def Callable (op : Op r) : Prop := op.Admitted A.inner.tag ∧ ∀ n ∈ op.names, n ∈ exposes

def regRead (r : Register) : AtomicProg r r.RegValueType := do
  AtomicProg.preReadBarrier A.onArm A.order
  let val ← AtomicProg.innerRead r
  AtomicProg.postReadBarrier A.onArm A.order
  return val

def regWrite (value : r.RegValueType) : AtomicProg r Unit := do
  AtomicProg.preWriteBarrier A.onArm A.order
  AtomicProg.innerWrite value
  AtomicProg.postWriteBarrier A.onArm A.order

def regOps : (c : RegCmd r) → Unit → AtomicProg r (c.Resp × Unit)
  | .regRead, u => A.regRead r >>= fun x => .ret (x, u)
  | .regWrite value, u => A.regWrite value >>= fun x => .ret (x, u)
  | .onRangeError msg, u => .call (.onRangeError msg) fun x => .ret (x, u)

def handler : PartialHandler (AtomicCmd r) AtomicCmd.Resp σ
  | .barrier _, s => some ((), s)
  | .innerRead, s => A.inner.regRead r s
  | .innerWrite value, s => (A.inner.regWrite r value s).map fun s => ((), s)
  | .onRangeError msg, s =>
    ((errorPolicy : ErrorPolicy σ).onRangeError msg s).map fun s => ((), s)

def run (op : Op r) : AtomicProg r (OpResult × Unit) :=
  (op.prog checkPolicy).translate A.regOps ()

end AtomicTransport

end Umimmio
