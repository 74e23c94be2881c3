import Umimmio.Lib.CInt
import Umimmio.Policy

namespace Umimmio
set_option autoImplicit true

/-- What a register reads of the device or block it is declared in. -/
structure Parent where
  accessType : Access
  allowedTransportsType : List TransportTag
  baseAddress : Addr
  deriving DecidableEq, Repr

structure Device where
  access : Access := .policy .rw
  allowedTransports : List TransportTag := []
  baseAddress : Addr := 0

def Device.toParent (d : Device) : Parent where
  accessType := d.access
  allowedTransportsType := if d.allowedTransports = [] then [.direct] else d.allowedTransports
  baseAddress := d.baseAddress

structure Block where
  parent : Parent
  baseAddr : Addr
  access : Access := .inherit

def Block.toParent (b : Block) : Parent where
  accessType := b.access.resolve b.parent.accessType
  allowedTransportsType := b.parent.allowedTransportsType
  baseAddress := b.parent.baseAddress + b.baseAddr

/-- A register type; the last fields are its `static_assert`s. -/
structure Register where
  parent : Parent
  offset : Addr
  bits : Nat
  access : Access := .policy .rw
  reset : BitVec 64 := 0
  w1c : BitVec 64 := 0
  bits_pos : 0 < bits
  bits_le : bits ≤ 64
  w1c_fits : bits = 64 ∨ w1c.toNat < 2 ^ bits

inductive NamedBits
  | bits8
  | bits16
  | bits32
  | bits64

def NamedBits.bits : NamedBits → Nat
  | bits8 => 8
  | bits16 => 16
  | bits32 => 32
  | bits64 => 64

theorem NamedBits.pos (b : NamedBits) : 0 < b.bits := by
  cases b <;> decide

theorem NamedBits.le (b : NamedBits) : b.bits ≤ 64 := by
  cases b <;> decide

namespace Register

def declare (parent : Parent) (offset : Addr) (b : NamedBits) (access : Access := .policy .rw)
    (reset : BitVec 64 := 0) : Register where
  parent := parent
  offset := offset
  bits := b.bits
  access := access
  reset := reset
  w1c := 0
  bits_pos := b.pos
  bits_le := b.le
  w1c_fits := .inr (show 0 < 2 ^ b.bits from Nat.two_pow_pos b.bits)

abbrev valueBits (r : Register) : Nat := uintFit r.bits

abbrev RegValueType (r : Register) : Type := BitVec r.valueBits

def address (r : Register) : Nat := r.parent.baseAddress + r.offset

def accessType (r : Register) : Access := r.access.resolve r.parent.accessType

def resetValue (r : Register) : r.RegValueType := r.reset.setWidth r.valueBits

def w1cMask (r : Register) : r.RegValueType := r.w1c.setWidth r.valueBits

theorem bits_le_valueBits (r : Register) : r.bits ≤ r.valueBits := le_uintFit r.bits_le

theorem w1cMask_lt (r : Register) (h : r.w1cMask.getLsbD i = true) : i < r.bits := by
  rw [w1cMask, BitVec.getLsbD_setWidth, Bool.and_eq_true] at h
  rcases r.w1c_fits with hb | hb
  · rw [hb]
    exact BitVec.lt_of_getLsbD h.2
  · by_contra hi
    have hp : 2 ^ r.bits ≤ 2 ^ i := Nat.pow_le_pow_right (by omega) (by omega)
    rw [BitVec.getLsbD, Nat.testBit_lt_two_pow (by omega)] at h
    exact absurd h.2 Bool.false_ne_true

end Register

inductive Trait
  | accessPolicy (p : AccessPolicy)
  | numeric
  | inherit
  | other
  deriving DecidableEq, Repr

def extractAccess : List Trait → Access
  | [] => .inherit
  | .accessPolicy p :: _ => .policy p
  | _ :: rest => extractAccess rest

structure Field (r : Register) where
  bitOffset : Nat
  bitWidth : Nat
  traits : List Trait := []
  width_pos : 0 < bitWidth
  in_reg : bitOffset + bitWidth ≤ r.bits

def Field.bit (i : Nat) (h : i < r.bits) (traits : List Trait := []) : Field r :=
  ⟨i, 1, traits, Nat.one_pos, h⟩

def Field.accessType (f : Field r) : Access := (extractAccess f.traits).resolve r.accessType

inductive Region (r : Register)
  | register
  | field (f : Field r)

namespace Region

def isRegister : Region r → Bool
  | .register => true
  | .field _ => false

def bitWidth : Region r → Nat
  | .register => r.bits
  | .field f => f.bitWidth

def shift : Region r → Nat
  | .register => 0
  | .field f => f.bitOffset

def accessType : Region r → Access
  | .register => r.accessType
  | .field f => f.accessType

def mask (R : Region r) : r.RegValueType :=
  if r.valueBits ≤ R.bitWidth then CInt.narrow (~~~CInt.promote 0#r.valueBits)
  else CInt.onesShifted r.valueBits R.bitWidth R.shift

/-- Bit positions of the register that belong to the region. -/
def Covers (R : Region r) (i : Nat) : Prop := R.shift ≤ i ∧ i < R.shift + R.bitWidth

instance (R : Region r) (i : Nat) : Decidable (R.Covers i) :=
  inferInstanceAs (Decidable (_ ∧ _))

theorem in_reg (R : Region r) : R.shift + R.bitWidth ≤ r.bits := by
  cases R with
  | register => exact Nat.le_of_eq (Nat.zero_add _)
  | field f => exact f.in_reg

theorem Covers.lt_bits {R : Region r} (h : R.Covers i) : i < r.bits :=
  Nat.lt_of_lt_of_le h.2 R.in_reg

theorem Covers.lt_valueBits {R : Region r} (h : R.Covers i) : i < r.valueBits :=
  Nat.lt_of_lt_of_le h.lt_bits r.bits_le_valueBits

@[simp] theorem covers_register_iff : (Region.register : Region r).Covers i ↔ i < r.bits := by
  simp only [Covers, shift, bitWidth, Nat.zero_le, Nat.zero_add, true_and]

/-- The mask has exactly the region's bits set, the full-width special case included. -/
@[simp] theorem getLsbD_mask (R : Region r) (i : Nat) :
    R.mask.getLsbD i = decide (R.Covers i) := by
  have hr := R.in_reg
  have hb := r.bits_le_valueBits
  unfold mask
  by_cases hf : r.valueBits ≤ R.bitWidth
  · rw [if_pos hf]
    by_cases hi : i < r.valueBits
    · have hc : R.Covers i := ⟨by omega, by omega⟩
      simp only [CInt.getLsbD_narrow, BitVec.getLsbD_not, CInt.getLsbD_promote,
        BitVec.getLsbD_zero, CInt.lt_intBits hi, hi, hc, decide_true, Bool.not_false, Bool.and_self]
    · have hc : ¬ R.Covers i := fun hc => hi hc.lt_valueBits
      simp only [CInt.getLsbD_narrow, hi, hc, decide_false, Bool.false_and]
  · rw [if_neg hf, CInt.getLsbD_onesShifted (Nat.lt_of_not_le hf), decide_eq_decide]
    exact ⟨fun h => h.2, fun h => ⟨Covers.lt_valueBits h, h⟩⟩

end Region

inductive Carrier
  | uint8
  | uint16
  | uint32
  | uint64
  deriving DecidableEq, Repr

def Carrier.bits : Carrier → Nat
  | .uint8 => 8
  | .uint16 => 16
  | .uint32 => 32
  | .uint64 => 64

/-- The payload of a `Value` (any constant) or of a `DynamicValue`. -/
inductive Assigned
  | value (enumValue : Int)
  | dynamicValue (T : Carrier) (assignedValue : BitVec T.bits)

namespace Assigned

/-- `static_cast` to an unsigned type of `w` bits. -/
def cast (w : Nat) : Assigned → BitVec w
  | .value e => BitVec.ofInt w e
  | .dynamicValue _ x => x.setWidth w

def number : Assigned → Int
  | .value e => e
  | .dynamicValue _ x => x.toNat

end Assigned

structure ValueArg (r : Register) where
  region : Region r
  val : Assigned

namespace ValueArg

def InRange (v : ValueArg r) : Prop := 0 ≤ v.val.number ∧ v.val.number < 2 ^ v.region.bitWidth

def readableValue (v : ValueArg r) : Bool := v.region.accessType.canRead

def writableValue (v : ValueArg r) : Bool := v.region.accessType.canWrite

def modifiableValue (v : ValueArg r) : Bool :=
  v.writableValue && v.region.accessType.canRead && v.region.accessType.normalWrite

end ValueArg

namespace RegionValue

def get (val : r.RegValueType) (f : Field r) : BitVec (uintFit f.bitWidth) :=
  ((CInt.promote val &&& CInt.promote (Region.field f).mask) >>> f.bitOffset).setWidth _

def is (val : r.RegValueType) (v : ValueArg r) : Bool :=
  match v.region with
  | .register => val == v.val.cast r.valueBits
  | .field f => get val f == v.val.cast (uintFit f.bitWidth)

def eq {f : Field r} (val : BitVec (uintFit f.bitWidth)) (v : Assigned) : Bool :=
  val == v.cast (uintFit f.bitWidth)

end RegionValue

/-- `Value::shifted_value`, in the type that C++ promotes it to. -/
def shiftedValue (f : Field r) (enumValue : Int) : BitVec (CInt.intBits r.valueBits) :=
  CInt.promote (BitVec.ofInt r.valueBits enumValue) <<< f.bitOffset

end Umimmio
