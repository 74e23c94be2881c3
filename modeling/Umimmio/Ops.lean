import Umimmio.Lib.Prog
import Umimmio.Region

namespace Umimmio
open Effects
set_option autoImplicit true

/-- What an operation asks of the transport and of the error policy, for one register. -/
inductive RegCmd (r : Register)
  | regRead
  | regWrite (value : r.RegValueType)
  | onRangeError (msg : String)

def RegCmd.Resp {r : Register} : RegCmd r → Type
  | .regRead => r.RegValueType
  | .regWrite _ => Unit
  | .onRangeError _ => Unit

abbrev RegProg (r : Register) := Prog (RegCmd r) RegCmd.Resp

abbrev RegHandler (r : Register) := Handler (RegCmd r) RegCmd.Resp

def regRead (r : Register) : RegProg r r.RegValueType := .call .regRead .ret

def regWrite (value : r.RegValueType) : RegProg r Unit := .call (.regWrite value) .ret

def onRangeError (r : Register) (msg : String) : RegProg r Unit := .call (.onRangeError msg) .ret

namespace RegOps

/-- Range check of a dynamic value; a named value is not checked here. -/
def checkDynamicRange (checkPolicy : Bool) (R : Region r) (x : BitVec (Carrier.bits T)) :
    RegProg r Unit :=
  if checkPolicy ∧ R.bitWidth < T.bits ∧ (1#64 <<< R.bitWidth) - 1#64 < x.setWidth 64 then
    onRangeError r "Value out of range"
  else pure ()

def read (r : Register) : RegProg r r.RegValueType := regRead r

def readField (f : Field r) : RegProg r (BitVec (uintFit f.bitWidth)) := do
  let val ← read r
  return RegionValue.get val f

def is (checkPolicy : Bool) (v : ValueArg r) : RegProg r Bool := do
  match v.val with
  | .value _ => pure ()
  | .dynamicValue _ x => checkDynamicRange checkPolicy v.region x
  let val ← read r
  return RegionValue.is val v

def insertValue (regVal : r.RegValueType) (v : ValueArg r) : r.RegValueType :=
  CInt.insert regVal v.region.mask (v.val.cast r.valueBits) v.region.shift

def applyFieldValue (checkPolicy : Bool) (regVal : r.RegValueType) (v : ValueArg r) :
    RegProg r r.RegValueType := do
  match v.val with
  | .value _ => pure ()
  | .dynamicValue _ x => checkDynamicRange checkPolicy v.region x
  return insertValue regVal v

def writeRegisterValue (v : ValueArg r) : RegProg r Unit :=
  regWrite (v.val.cast r.valueBits)

def writeFieldValue (checkPolicy : Bool) (v : ValueArg r) : RegProg r Unit := do
  let regVal ← applyFieldValue checkPolicy r.resetValue v
  regWrite regVal

def writeSingle (checkPolicy : Bool) (v : ValueArg r) : RegProg r Unit :=
  if v.region.isRegister then writeRegisterValue v else writeFieldValue checkPolicy v

def writeMultiple (checkPolicy : Bool) (values : List (ValueArg r)) : RegProg r Unit := do
  let regVal ← values.foldlM (applyFieldValue checkPolicy) r.resetValue
  regWrite regVal

def write (checkPolicy : Bool) : List (ValueArg r) → RegProg r Unit
  | [v] => writeSingle checkPolicy v
  | values => writeMultiple checkPolicy values

def modifyImpl (checkPolicy : Bool) (values : List (ValueArg r)) : RegProg r Unit := do
  let current ← regRead r
  let current ← values.foldlM (applyFieldValue checkPolicy) current
  let current := if r.w1cMask ≠ 0 then CInt.andNot current r.w1cMask else current
  regWrite current

def modify (checkPolicy : Bool) (values : List (ValueArg r)) : RegProg r Unit :=
  modifyImpl checkPolicy values

def flip (f : Field r) : RegProg r Unit := do
  let current ← regRead r
  let current := CInt.xorAssign current (Region.field f).mask
  let current := if r.w1cMask ≠ 0 then CInt.andNot current r.w1cMask else current
  regWrite current

def clear (f : Field r) : RegProg r Unit :=
  if r.w1cMask = (Region.register : Region r).mask then
    regWrite (Region.field f).mask
  else do
    let current ← regRead r
    let current := CInt.andNot current r.w1cMask
    let current := CInt.orAssign current (Region.field f).mask
    regWrite current

def reset (r : Register) : RegProg r Unit := regWrite r.resetValue

inductive Variant (w : Nat)
  | alternative (index : Nat)
  | unknownValue (value : BitVec w)
  deriving DecidableEq

def tryMatch (raw : BitVec w) : List Int → Nat → Variant w
  | [], _ => .unknownValue raw
  | v :: variants, index =>
    if raw = BitVec.ofInt w v then .alternative index else tryMatch raw variants (index + 1)

def readVariant (f : Field r) (variants : List Int) : RegProg r (Variant (uintFit f.bitWidth)) := do
  let raw ← readField f
  return tryMatch raw variants 0

end RegOps

inductive Op (r : Register)
  | write (values : List (ValueArg r))
  | read
  | readField (f : Field r)
  | is (v : ValueArg r)
  | modify (values : List (ValueArg r))
  | flip (f : Field r)
  | clear (f : Field r)
  | reset
  | readVariant (f : Field r) (variants : List Int)

inductive OpResult
  | done
  | bits (w : Nat) (value : BitVec w)
  | bool (b : Bool)
  | variant (w : Nat) (v : RegOps.Variant w)

namespace Op

def prog (checkPolicy : Bool) : Op r → RegProg r OpResult
  | .write values => (fun _ => .done) <$> RegOps.write checkPolicy values
  | .read => .bits r.valueBits <$> RegOps.read r
  | .readField f => .bits (uintFit f.bitWidth) <$> RegOps.readField f
  | .is v => .bool <$> RegOps.is checkPolicy v
  | .modify values => (fun _ => .done) <$> RegOps.modify checkPolicy values
  | .flip f => (fun _ => .done) <$> RegOps.flip f
  | .clear f => (fun _ => .done) <$> RegOps.clear f
  | .reset => (fun _ => .done) <$> RegOps.reset r
  | .readVariant f variants => .variant (uintFit f.bitWidth) <$> RegOps.readVariant f variants

/-- The `requires` clauses and `static_assert`s of an operation, called over a transport of the
given tag. -/
def Admitted (tag : TransportTag) (op : Op r) : Prop :=
  tag ∈ r.parent.allowedTransportsType ∧
    match op with
    | .write values => values ≠ [] ∧ ∀ v ∈ values, v.writableValue
    | .read => r.accessType.canRead
    | .readField f => f.accessType.canRead ∧ r.accessType.canRead
    | .is v => v.readableValue ∧ r.accessType.canRead
    | .modify values => values ≠ [] ∧ ∀ v ∈ values, v.modifiableValue
    | .flip f => f.accessType.canRead ∧ f.accessType.canWrite ∧ f.bitWidth = 1 ∧
        f.accessType.normalWrite
    | .clear f => f.accessType.isW1C ∧
        (r.w1cMask = (Region.register : Region r).mask ∨ r.accessType.canRead)
    | .reset => r.accessType.canWrite
    | .readVariant f _ => f.accessType.canRead ∧ r.accessType.canRead

theorem admitted_write_singleton {tag : TransportTag} {v : ValueArg r}
    (ht : tag ∈ r.parent.allowedTransportsType) (hv : v.writableValue = true) :
    (write [v]).Admitted tag :=
  ⟨ht, List.cons_ne_nil _ _, List.forall_mem_singleton.mpr hv⟩

theorem admitted_modify_singleton {tag : TransportTag} {v : ValueArg r}
    (ht : tag ∈ r.parent.allowedTransportsType) (hv : v.modifiableValue = true) :
    (modify [v]).Admitted tag :=
  ⟨ht, List.cons_ne_nil _ _, List.forall_mem_singleton.mpr hv⟩

end Op

structure TypedOp where
  {reg : Register}
  op : Op reg

end Umimmio
