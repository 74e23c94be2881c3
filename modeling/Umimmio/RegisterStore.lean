import Mathlib.Logic.Function.Basic
import Umimmio.Lib.Run
import Umimmio.Transport.ByteAdapter

namespace Umimmio
open Effects Bytes
set_option autoImplicit true

variable {r : Register}

abbrev Store := Addr → BitVec 64

def Store.word (store : Store) (r : Register) : r.RegValueType :=
  (store r.address).setWidth r.valueBits

def storeRegisters : RegHandler r Store
  | .regRead, store => (store.word r, store)
  | .regWrite value, store => ((), Function.update store r.address (value.setWidth 64))
  | .onRangeError _, store => ((), store)

theorem Store.word_update (store : Store) (value : r.RegValueType) :
    Store.word (Function.update store r.address (value.setWidth 64)) r = value := by
  rw [word, Function.update_self, BitVec.setWidth_setWidth_of_le _ (uintFit_le r.bits),
    BitVec.setWidth_eq]

/-- Register accesses on a byte memory that holds the registers in the given byte order. -/
def memoryRegisters (n : Nat) (dataEndian : Endian) : RegHandler r (Mem n)
  | .regRead, mem =>
    (decode r.valueBits dataEndian (mem.load (BitVec.ofNat n r.address) r.valueSize), mem)
  | .regWrite value, mem =>
    ((), mem.store (BitVec.ofNat n r.address) (encode dataEndian value))
  | .onRangeError _, mem => ((), mem)

/-- Registers inside an address space whose byte ranges are pairwise identical or disjoint. -/
structure RegisterMap (n : Nat) where
  regs : List Register
  inside : ∀ r ∈ regs, r.address + r.valueSize ≤ 2 ^ n
  apart : ∀ r ∈ regs, ∀ q ∈ regs, r.address = q.address ∧ r.valueSize = q.valueSize ∨
    r.address + r.valueSize ≤ q.address ∨ q.address + q.valueSize ≤ r.address

namespace RegisterMap

variable {n : Nat} {M : RegisterMap n} {dataEndian : Endian} {store : Store} {mem mem0 : Mem n}

/-- The memory is the encoding of the store; bytes of no register are those of `mem0`. -/
structure Encodes (M : RegisterMap n) (dataEndian : Endian) (mem0 : Mem n) (store : Store)
    (mem : Mem n) : Prop where
  words : ∀ r ∈ M.regs, mem.load (BitVec.ofNat n r.address) r.valueSize =
    encode dataEndian (store.word r)
  frame : ∀ a, (∀ r ∈ M.regs, ¬ Mem.InRange (BitVec.ofNat n r.address) r.valueSize a) →
    mem a = mem0 a

theorem valueBits_eq {q : Register} (h : r.valueSize = q.valueSize) :
    r.valueBits = q.valueBits := by
  have hr := r.eight_dvd_valueBits
  have hq := q.eight_dvd_valueBits
  rw [Register.valueSize, Register.valueSize] at h
  omega

theorem encode_word (hw : w = w') (hle : w ≤ 64) (e : Endian) (value : BitVec w) :
    encode e ((value.setWidth 64).setWidth w') = encode e value := by
  subst hw
  rw [BitVec.setWidth_setWidth_of_le _ hle, BitVec.setWidth_eq]

theorem Encodes.read (h : M.Encodes dataEndian mem0 store mem) (hr : r ∈ M.regs) :
    (memoryRegisters n dataEndian (.regRead : RegCmd r) mem).1 = store.word r := by
  rw [memoryRegisters, h.words r hr, decode_encode r.eight_dvd_valueBits]

theorem Encodes.write (h : M.Encodes dataEndian mem0 store mem) (hr : r ∈ M.regs)
    (value : r.RegValueType) :
    M.Encodes dataEndian mem0 (Function.update store r.address (value.setWidth 64))
      (mem.store (BitVec.ofNat n r.address) (encode dataEndian value)) := by
  have hlen : (encode dataEndian value).length = r.valueSize := length_encode _ _
  have hin := M.inside r hr
  constructor
  · intro q hq
    rcases M.apart r hr q hq with ⟨ha, hs⟩ | hd
    · have hload := Mem.load_store mem (BitVec.ofNat n r.address)
        (show (encode dataEndian value).length ≤ 2 ^ n by omega)
      rw [Store.word, ← ha, Function.update_self, ← hs, ← hlen, hload,
        encode_word (valueBits_eq hs) (uintFit_le r.bits)]
    · have hq' := M.inside q hq
      have hpos := r.valueSize_pos
      have hposq := q.valueSize_pos
      have hne : q.address ≠ r.address := by omega
      rw [Store.word, Function.update_of_ne hne, Mem.load_store_disjoint, h.words q hq,
        Store.word]
      intro k hk
      rw [← BitVec.ofNat_add, Mem.inRange_ofNat (by omega) (by omega)]
      omega
  · intro a ha
    rw [Mem.store_of_not_inRange _ (by rw [hlen]; exact ha r hr)]
    exact h.frame a ha

/-- The store that a memory encodes. -/
def storeOf (M : RegisterMap n) (dataEndian : Endian) (mem : Mem n) : Store := fun a =>
  match M.regs.find? fun r => r.address = a with
  | some r =>
    (decode r.valueBits dataEndian (mem.load (BitVec.ofNat n r.address) r.valueSize)).setWidth 64
  | none => 0

theorem encodes_storeOf (M : RegisterMap n) (dataEndian : Endian) (mem : Mem n) :
    M.Encodes dataEndian mem (M.storeOf dataEndian mem) mem := by
  refine ⟨fun r hr => ?_, fun _ _ => rfl⟩
  cases hq : M.regs.find? fun q => q.address = r.address with
  | none =>
    rw [List.find?_eq_none] at hq
    exact absurd (decide_eq_true rfl) (hq r hr)
  | some q =>
    have ha : q.address = r.address := by simpa using List.find?_some hq
    have hs : q.valueSize = r.valueSize := by
      have hposr := r.valueSize_pos
      have hposq := q.valueSize_pos
      rcases M.apart q (List.mem_of_find?_eq_some hq) r hr with h | h
      · exact h.2
      · omega
    have hload : (mem.load (BitVec.ofNat n q.address) q.valueSize).length = q.valueBits / 8 :=
      Mem.length_load _ _ _
    have hword : M.storeOf dataEndian mem r.address = (decode q.valueBits dataEndian
        (mem.load (BitVec.ofNat n q.address) q.valueSize)).setWidth 64 := by
      rw [storeOf, hq]
    rw [Store.word, hword, encode_word (valueBits_eq hs) (uintFit_le q.bits),
      encode_decode q.eight_dvd_valueBits _ hload, ha, hs]

theorem Encodes.lockstep (h : M.Encodes dataEndian mem0 store mem) (hr : r ∈ M.regs)
    (c : RegCmd r) :
    (memoryRegisters n dataEndian c mem).1 = (storeRegisters c store).1 ∧
      M.Encodes dataEndian mem0 (storeRegisters c store).2
        (memoryRegisters n dataEndian c mem).2 := by
  cases c with
  | regRead => exact ⟨h.read hr, h⟩
  | regWrite value => exact ⟨rfl, h.write hr value⟩
  | onRangeError msg => exact ⟨rfl, h⟩

end RegisterMap

end Umimmio
