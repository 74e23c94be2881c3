import Umimmio.OpsWords

namespace Umimmio
open Effects
set_option autoImplicit true

variable {r : Register}

/-- What the CSR transport asks of its accessor; CSR numbers and words have 32 bits. -/
inductive CsrCmd
  | csrRead (number : BitVec 32)
  | csrWrite (number value : BitVec 32)
  | onRangeError (msg : String)

def CsrCmd.Resp : CsrCmd → Type
  | .csrRead _ => BitVec 32
  | .csrWrite _ _ => Unit
  | .onRangeError _ => Unit

abbrev CsrProg := Prog CsrCmd CsrCmd.Resp

def Register.csrNumber (r : Register) : BitVec 32 := BitVec.ofNat 32 r.address

namespace CsrTransport

def regRead (r : Register) : CsrProg r.RegValueType :=
  .call (.csrRead r.csrNumber) fun value => .ret (value.setWidth r.valueBits)

def regWrite (value : r.RegValueType) : CsrProg Unit :=
  .call (.csrWrite r.csrNumber (value.setWidth 32)) .ret

def regOps : (c : RegCmd r) → Unit → CsrProg (c.Resp × Unit)
  | .regRead, u => (fun value => (value, u)) <$> regRead r
  | .regWrite value, u => (fun x => (x, u)) <$> regWrite value
  | .onRangeError msg, u => .call (.onRangeError msg) fun x => .ret (x, u)

def run (checkPolicy : Bool) (op : Op r) : CsrProg (OpResult × Unit) :=
  (op.prog checkPolicy).translate regOps ()

end CsrTransport

end Umimmio
