import Umimmio.Lib.Bytes
import Umimmio.OpsWords

namespace Umimmio
open Effects Bytes
set_option autoImplicit true

variable {r : Register} {p : PointerWidth}

/-- What code does through volatile pointers, and what it asks of the error policy. -/
inductive DirectCmd (p : PointerWidth)
  | volatileRead (addr : BitVec p.bits) (w : Nat)
  | volatileWrite (addr : BitVec p.bits) (w : Nat) (value : BitVec w)
  | onRangeError (msg : String)

def DirectCmd.Resp : DirectCmd p → Type
  | .volatileRead _ w => BitVec w
  | .volatileWrite _ _ _ => Unit
  | .onRangeError _ => Unit

abbrev DirectProg (p : PointerWidth) := Prog (DirectCmd p) DirectCmd.Resp

namespace DirectProg

def volatileRead (addr : BitVec p.bits) (w : Nat) : DirectProg p (BitVec w) :=
  .call (.volatileRead addr w) .ret

def volatileWrite (addr : BitVec p.bits) (value : BitVec w) : DirectProg p Unit :=
  .call (.volatileWrite addr w value) .ret

def onRangeError (msg : String) : DirectProg p Unit := .call (.onRangeError msg) .ret

end DirectProg

namespace DirectTransport

def regRead (p : PointerWidth) (r : Register) : DirectProg p r.RegValueType :=
  .volatileRead (BitVec.ofNat _ r.address) r.valueBits

def regWrite (value : r.RegValueType) : DirectProg p Unit :=
  .volatileWrite (BitVec.ofNat _ r.address) value

def regOps : (c : RegCmd r) → Unit → DirectProg p (c.Resp × Unit)
  | .regRead, u => regRead p r >>= fun x => .ret (x, u)
  | .regWrite value, u => regWrite value >>= fun x => .ret (x, u)
  | .onRangeError msg, u => .onRangeError msg >>= fun x => .ret (x, u)

def write (checkPolicy : Bool) (values : List (ValueArg r)) : DirectProg p (Unit × Unit) :=
  (RegOps.write checkPolicy values).translate regOps ()

def read (r : Register) : DirectProg p (r.RegValueType × Unit) :=
  (RegOps.read r).translate regOps ()

end DirectTransport

/-- A byte-addressed memory, and the range errors that were reported to a policy that returns. -/
structure Machine (p : PointerWidth) where
  mem : Mem p.bits
  errors : List String := []

/-- Memory as a host of the given byte order accesses it. -/
def Machine.access (native : Endian) : Handler (DirectCmd p) DirectCmd.Resp (Machine p)
  | .volatileRead addr w, m => (decode w native (m.mem.load addr (w / 8)), m)
  | .volatileWrite addr _ value, m => ((), { m with mem := m.mem.store addr (encode native value) })
  | .onRangeError msg, m => ((), { m with errors := m.errors ++ [msg] })

end Umimmio
