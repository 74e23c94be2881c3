import Umimmio.Transport.ByteAdapter

namespace Umimmio
open Effects Bytes
set_option autoImplicit true

def encodeAddress (addrEndian : Endian) : (a : AddressType) → BitVec a.bits → List Byte
  | .uint8, regAddr => [regAddr]
  | .uint16, regAddr =>
    match addrEndian with
    | .big => [(regAddr >>> 8).setWidth 8, (regAddr &&& 0xFF).setWidth 8]
    | .little => [(regAddr &&& 0xFF).setWidth 8, (regAddr >>> 8).setWidth 8]

def encodeSpiAddress (addrEndian : Endian) (rwBit cmdMask : Byte) (a : AddressType)
    (regAddr : BitVec a.bits) : List Byte :=
  match encodeAddress addrEndian a regAddr with
  | [] => []
  | b :: rest => ((b &&& cmdMask) ||| rwBit) :: rest

theorem setWidth_and_0xFF (x : BitVec 16) : (x &&& 0xFF#16).setWidth 8 = x.extractLsb' 0 8 := by
  apply BitVec.eq_of_getLsbD_eq
  intro i hi
  have hm : (0xFF#16).getLsbD i = true := by
    rw [show 0xFF#16 = (BitVec.allOnes 8).setWidth 16 from rfl, BitVec.getLsbD_setWidth,
      BitVec.getLsbD_allOnes, decide_eq_true hi, decide_eq_true (by omega), Bool.and_self]
  rw [BitVec.getLsbD_setWidth, BitVec.getLsbD_and, hm, BitVec.getLsbD_extractLsb',
    Nat.zero_add, Bool.and_true]

theorem setWidth_shiftRight_8 (x : BitVec 16) : (x >>> 8).setWidth 8 = x.extractLsb' 8 8 := by
  apply BitVec.eq_of_getLsbD_eq
  intro i hi
  rw [BitVec.getLsbD_setWidth, BitVec.getLsbD_ushiftRight, BitVec.getLsbD_extractLsb']

/-- The wire address is the byte encoding of the address in its declared order. -/
theorem encodeAddress_eq (addrEndian : Endian) (a : AddressType) (regAddr : BitVec a.bits) :
    encodeAddress addrEndian a regAddr = encode addrEndian regAddr := by
  cases a with
  | uint8 => exact (encode_byte addrEndian regAddr).symm
  | uint16 =>
    change BitVec 16 at regAddr
    have hle : toLE regAddr = [regAddr.extractLsb' 0 8, regAddr.extractLsb' 8 8] := rfl
    rw [← setWidth_and_0xFF, ← setWidth_shiftRight_8] at hle
    cases addrEndian with
    | little => exact hle.symm
    | big => exact (congrArg List.reverse hle).symm

@[simp] theorem length_encodeAddress (addrEndian : Endian) (a : AddressType)
    (regAddr : BitVec a.bits) : (encodeAddress addrEndian a regAddr).length = a.size := by
  cases a <;> cases addrEndian <;> rfl

theorem encodeAddress_cons (addrEndian : Endian) (a : AddressType) (regAddr : BitVec a.bits) :
    ∃ b rest, encodeAddress addrEndian a regAddr = b :: rest ∧ rest.length = a.size - 1 := by
  cases a <;> cases addrEndian <;> exact ⟨_, _, rfl, rfl⟩

@[simp] theorem length_encodeSpiAddress (addrEndian : Endian) (rwBit cmdMask : Byte)
    (a : AddressType) (regAddr : BitVec a.bits) :
    (encodeSpiAddress addrEndian rwBit cmdMask a regAddr).length = a.size := by
  cases a <;> cases addrEndian <;> rfl

theorem and_mask_of_or {b m w : Byte} (hb : b &&& m = b) (hw : w &&& m = 0) :
    (b &&& m ||| w) &&& m = b := by
  apply BitVec.eq_of_getLsbD_eq
  intro i hi
  have hbi := congrArg (fun x => x.getLsbD i) hb
  have hwi := congrArg (fun x => x.getLsbD i) hw
  simp only [BitVec.getLsbD_and, BitVec.getLsbD_or, BitVec.ofNat_eq_ofNat,
    BitVec.getLsbD_zero] at hbi hwi ⊢
  rw [hbi, Bool.and_or_distrib_right, hbi, hwi, Bool.or_false]

theorem and_not_mask_of_or {b m w : Byte} (hw : w &&& m = 0) :
    (b &&& m ||| w) &&& ~~~m = w := by
  apply BitVec.eq_of_getLsbD_eq
  intro i hi
  have hwi := congrArg (fun x => x.getLsbD i) hw
  simp only [BitVec.getLsbD_and, BitVec.getLsbD_or, BitVec.getLsbD_not, BitVec.ofNat_eq_ofNat,
    BitVec.getLsbD_zero, decide_eq_true hi, Bool.true_and] at hwi ⊢
  cases hm : m.getLsbD i <;> simp_all

theorem maskedByte_eq_iff {m w : Byte} (hw : w &&& m = 0) (x y : Byte) :
    (x &&& m ||| w) = (y &&& m ||| w) ↔
      ∀ j < 8, m.getLsbD j = true → x.getLsbD j = y.getLsbD j := by
  have hbit : ∀ j, m.getLsbD j = true → w.getLsbD j = false := by
    intro j hm
    have hj := congrArg (fun b => b.getLsbD j) hw
    simpa only [BitVec.getLsbD_and, hm, Bool.and_true, BitVec.ofNat_eq_ofNat,
      BitVec.getLsbD_zero] using hj
  constructor
  · intro h j _ hm
    have hj := congrArg (fun b => b.getLsbD j) h
    simpa only [BitVec.getLsbD_or, BitVec.getLsbD_and, hm, hbit j hm, Bool.and_true,
      Bool.or_false] using hj
  · intro h
    apply BitVec.eq_of_getLsbD_eq
    intro j hj
    simp only [BitVec.getLsbD_or, BitVec.getLsbD_and]
    cases hm : m.getLsbD j with
    | false => rw [Bool.and_false, Bool.and_false]
    | true => rw [h j hj hm]

end Umimmio
