import Umimmio.OpsWords
import Umimmio.Transport.Driver

namespace Umimmio
open Effects Bytes
set_option autoImplicit true

variable {r : Register} {τ : Type}

inductive AddressType
  | uint8
  | uint16
  deriving DecidableEq, Repr

def AddressType.bits : AddressType → Nat
  | .uint8 => 8
  | .uint16 => 16

def AddressType.size : AddressType → Nat
  | .uint8 => 1
  | .uint16 => 2

theorem AddressType.eight_dvd_bits (a : AddressType) : 8 ∣ a.bits := by
  cases a <;> decide

def Register.valueSize (r : Register) : Nat := r.valueBits / 8

theorem Register.eight_dvd_valueBits (r : Register) : 8 ∣ r.valueBits := eight_dvd_uintFit r.bits

theorem Register.valueSize_le (r : Register) : r.valueSize ≤ maxRegBytes := by
  have := uintFit_le r.bits
  rw [valueSize, valueBits, maxRegBytes]
  omega

theorem Register.valueSize_pos (r : Register) : 0 < r.valueSize := by
  have h0 := uintFit_pos r.bits
  have h8 := eight_dvd_uintFit r.bits
  rw [valueSize, valueBits]
  omega

/-- A byte-oriented transport: its byte orders, and raw accesses that may keep state. -/
structure ByteAdapter (τ : Type) where
  addressType : AddressType
  dataEndian : Endian
  native : Endian
  rawRead : BitVec addressType.bits → List Byte → τ → DriverProg (List Byte × τ)
  rawWrite : BitVec addressType.bits → List Byte → τ → DriverProg (Unit × τ)

namespace ByteAdapter

/-- Pack a value into a byte buffer, through the memory of the host. -/
def pack (dataEndian native : Endian) (value : BitVec w) : List Byte :=
  if w = 8 then [value.setWidth 8]
  else
    let value := if dataEndian ≠ native then byteswap value else value
    encode native value

def unpack (dataEndian native : Endian) (w : Nat) (buffer : List Byte) : BitVec w :=
  if w = 8 then (buffer.getD 0 0).setWidth w
  else
    let value := decode w native buffer
    if dataEndian ≠ native then byteswap value else value

def regAddr (A : ByteAdapter τ) (r : Register) : BitVec A.addressType.bits :=
  BitVec.ofNat _ r.address

def regRead (A : ByteAdapter τ) (r : Register) (t : τ) : DriverProg (r.RegValueType × τ) := do
  let buffer ← DriverProg.uninitialized r.valueSize
  let (buffer, t) ← A.rawRead (A.regAddr r) buffer t
  return (unpack A.dataEndian A.native r.valueBits buffer, t)

def regWrite (A : ByteAdapter τ) (value : r.RegValueType) (t : τ) : DriverProg (Unit × τ) :=
  A.rawWrite (A.regAddr r) (pack A.dataEndian A.native value) t

def regOps (A : ByteAdapter τ) : (c : RegCmd r) → τ → DriverProg (c.Resp × τ)
  | .regRead, t => A.regRead r t
  | .regWrite value, t => A.regWrite value t
  | .onRangeError msg, t => .call (.onRangeError msg) fun u => .ret (u, t)

def run (A : ByteAdapter τ) (checkPolicy : Bool) (op : Op r) (t : τ) : DriverProg (OpResult × τ) :=
  (op.prog checkPolicy).translate A.regOps t

theorem pack_eq (dataEndian native : Endian) (hw : 8 ∣ w) (value : BitVec w) :
    pack dataEndian native value = encode dataEndian value := by
  unfold pack
  by_cases h8 : w = 8
  · subst h8
    rw [if_pos rfl, encode_byte, BitVec.setWidth_eq]
  · rw [if_neg h8]
    by_cases he : dataEndian = native
    · rw [if_neg (not_not.mpr he), he]
    · rw [if_pos he]
      exact encode_byteswap hw (Ne.symm he) value

theorem unpack_eq (dataEndian native : Endian) (hw : 8 ∣ w) (hb : buffer.length = w / 8) :
    unpack dataEndian native w buffer = decode w dataEndian buffer := by
  unfold unpack
  by_cases h8 : w = 8
  · subst h8
    rw [if_pos rfl, decode_byte hb, BitVec.setWidth_eq]
  · rw [if_neg h8]
    by_cases he : dataEndian = native
    · rw [if_neg (not_not.mpr he), he]
    · rw [if_pos he]
      exact byteswap_decode hw (Ne.symm he) hb

@[simp] theorem length_pack (dataEndian native : Endian) (value : r.RegValueType) :
    (pack dataEndian native value).length = r.valueSize := by
  rw [pack_eq _ _ r.eight_dvd_valueBits, length_encode]
  rfl

theorem getElem?_pack (dataEndian native : Endian) (value : r.RegValueType) (hk : k < r.valueSize) :
    (pack dataEndian native value)[k]? =
      some (value.extractLsb' (8 * dataEndian.position r.valueSize k) 8) := by
  rw [pack_eq _ _ r.eight_dvd_valueBits]
  exact getElem?_encode dataEndian value hk

theorem unpack_pack (dataEndian native : Endian) (value : r.RegValueType) :
    unpack dataEndian native r.valueBits (pack dataEndian native value) = value := by
  have h8 := r.eight_dvd_valueBits
  rw [unpack_eq _ _ h8 (length_pack _ _ value), pack_eq _ _ h8, decode_encode h8]

theorem pack_unpack (dataEndian native : Endian) {buffer : List Byte}
    (hb : buffer.length = r.valueSize) :
    pack dataEndian native (unpack dataEndian native r.valueBits buffer) = buffer := by
  have h8 := r.eight_dvd_valueBits
  rw [unpack_eq _ _ h8 hb, pack_eq _ _ h8, encode_decode h8 _ hb]

/-- The bytes of a register value on the wire are in the declared order, whatever the host's, and
packing and unpacking are inverse. -/
theorem wire_order (r : Register) (dataEndian native : Endian) :
    (∀ value : r.RegValueType,
      (pack dataEndian native value).length = r.valueSize ∧
        ∀ k < r.valueSize, (pack dataEndian native value)[k]? =
          some (value.extractLsb' (8 * dataEndian.position r.valueSize k) 8)) ∧
    (∀ value : r.RegValueType,
      unpack dataEndian native r.valueBits (pack dataEndian native value) = value) ∧
    ∀ buffer : List Byte, buffer.length = r.valueSize →
      pack dataEndian native (unpack dataEndian native r.valueBits buffer) = buffer := by
  constructor
  · intro value
    exact ⟨length_pack _ _ value, fun k hk => getElem?_pack _ _ value hk⟩
  · exact ⟨unpack_pack _ _, fun buffer hb => pack_unpack _ _ hb⟩

end ByteAdapter

end Umimmio
