import Umimmio.SharedStore
import Umimmio.Wirings

namespace Umimmio
open Effects Bytes
set_option autoImplicit true

/-- Contexts that use the registers behind one transport. -/
abbrev WiredPool (W : Wiring) (κ : Type) := Pool κ (fun a : TypedOp => RegCmd a.reg)
  (fun _ => RegCmd.Resp) OpResult W.State

abbrev WiredEvent (W : Wiring) (κ : Type) := PoolEvent Empty κ (fun a : TypedOp => RegCmd a.reg)
  (fun _ => RegCmd.Resp) OpResult W.State

section Contexts

variable {κ : Type} [DecidableEq κ] {W : Wiring} {area : Nat → Byte} {checkPolicy : Bool}
  {Admitted : κ → TypedOp → Prop} {s : W.State} {store : Store} {evs : List (WiredEvent W κ)}
  {c c' : WiredPool W κ}

namespace Wiring

/-- Contexts preempt each other between two register accesses of a call, and enclose their
read-modify-writes in critical sections. -/
def lockedStep (W : Wiring) (area : Nat → Byte) (checkPolicy : Bool)
    (Admitted : κ → TypedOp → Prop) (c : WiredPool W κ) (e : WiredEvent W κ) (c' : WiredPool W κ) :
    Prop :=
  PoolStep (fun _ => W.registers area) (TypedOp.prog checkPolicy) Empty.elim Admitted c e c' ∧
    ExclusiveCalls TypedOp.op c'.running

/-- The completed calls in order, each with its context and its result. -/
def calls (W : Wiring) (area : Nat → Byte) (evs : List (WiredEvent W κ)) :
    List (κ × TypedOp × OpResult) :=
  evs.filterMap (PoolEvent.completes? fun _ => W.registers area)

end Wiring

end Contexts

end Umimmio
