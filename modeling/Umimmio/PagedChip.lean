import Mathlib.Logic.Function.Basic
import Umimmio.Lib.Run
import Umimmio.Bus

namespace Umimmio
open Effects Bytes
set_option autoImplicit true

/-- A chip with 256 pages of 256 bytes and the page it is on. -/
structure Chip where
  page : Byte
  mem : Byte → Mem 8

namespace Chip

def select (page : Byte) (chip : Chip) : Chip := { chip with page }

def store (offset : Byte) (payload : List Byte) (chip : Chip) : Chip where
  page := chip.page
  mem := Function.update chip.mem chip.page ((chip.mem chip.page).store offset payload)

def effect (pageSelectAddr : Byte) : List Byte → Chip → Chip
  | [offset, value], chip =>
    if offset = pageSelectAddr then chip.select value else chip.store offset [value]
  | offset :: payload, chip => chip.store offset payload
  | [], chip => chip

def reply : List Byte → Chip → Nat → Byte
  | offset :: _, chip, k => chip.mem chip.page (offset + BitVec.ofNat 8 k)
  | [], _, _ => 0

/-- A chip that takes the two-byte frame to the page-select address as a page change. -/
def target (pageSelectAddr : Byte) : Target Chip where
  effect := effect pageSelectAddr
  reply := reply

def storeByte (pageSelectAddr offset value : Byte) (chip : Chip) : Chip :=
  if offset = pageSelectAddr then chip.select value else chip.store offset [value]

def storeBytes (pageSelectAddr : Byte) : Byte → List Byte → Chip → Chip
  | _, [], chip => chip
  | offset, value :: payload, chip =>
    storeBytes pageSelectAddr (offset + 1) payload (chip.storeByte pageSelectAddr offset value)

/-- A chip that takes every byte stored at the page-select address as a page change. -/
def bytewise (pageSelectAddr : Byte) : Target Chip where
  effect
    | offset :: payload, chip => chip.storeBytes pageSelectAddr offset payload
    | [], chip => chip
  reply := reply

/-- The registers under their logical addresses. -/
def flat (chip : Chip) : Mem 16 := fun a => chip.mem (pageOf a) (inPageOffset a)

end Chip

theorem toNat_pageOf (a : BitVec 16) : (pageOf a).toNat = a.toNat / 256 := by
  rw [pageOf, BitVec.toNat_setWidth, BitVec.toNat_ushiftRight, Nat.shiftRight_eq_div_pow]
  omega

theorem toNat_inPageOffset (a : BitVec 16) : (inPageOffset a).toNat = a.toNat % 256 := by
  rw [inPageOffset, setWidth_and_0xFF, BitVec.extractLsb'_toNat, Nat.shiftRight_zero]

def InPage (addr : BitVec 16) (size : Nat) : Prop := (inPageOffset addr).toNat + size ≤ 256

instance (addr : BitVec 16) (size : Nat) : Decidable (InPage addr size) :=
  inferInstanceAs (Decidable (_ ≤ _))

def Avoids (pageSelectAddr : Byte) (addr : BitVec 16) (size : Nat) : Prop :=
  ¬ Mem.InRange (inPageOffset addr) size pageSelectAddr

instance (pageSelectAddr : Byte) (addr : BitVec 16) (size : Nat) :
    Decidable (Avoids pageSelectAddr addr size) :=
  inferInstanceAs (Decidable (¬ _))

theorem InPage.pageOf_add (h : InPage addr size) (hk : k < size) :
    pageOf (addr + BitVec.ofNat 16 k) = pageOf addr := by
  rw [InPage, toNat_inPageOffset] at h
  apply BitVec.eq_of_toNat_eq
  rw [toNat_pageOf, toNat_pageOf, BitVec.toNat_add, BitVec.toNat_ofNat]
  have := addr.isLt
  omega

theorem inPageOffset_add (addr : BitVec 16) (k : Nat) :
    inPageOffset (addr + BitVec.ofNat 16 k) = inPageOffset addr + BitVec.ofNat 8 k := by
  apply BitVec.eq_of_toNat_eq
  rw [toNat_inPageOffset, BitVec.toNat_add, BitVec.toNat_add, toNat_inPageOffset,
    BitVec.toNat_ofNat, BitVec.toNat_ofNat]
  omega

/-- On the page of an access, offsets and logical addresses are the same distance from its start. -/
theorem InPage.sub_eq (h : InPage addr size) (hp : pageOf a = pageOf addr)
    (hlt : (inPageOffset a - inPageOffset addr).toNat < size ∨ (a - addr).toNat < size) :
    (inPageOffset a - inPageOffset addr).toNat = (a - addr).toNat := by
  have hp' := congrArg BitVec.toNat hp
  rw [toNat_pageOf, toNat_pageOf] at hp'
  rw [InPage, toNat_inPageOffset] at h
  rw [BitVec.toNat_sub, BitVec.toNat_sub, toNat_inPageOffset, toNat_inPageOffset] at *
  have := a.isLt
  have := addr.isLt
  omega

theorem InPage.not_inRange (h : InPage addr size) (hp : pageOf a ≠ pageOf addr) :
    ¬ Mem.InRange addr size a := by
  intro hr
  apply hp
  have ha : a = addr + BitVec.ofNat 16 (a - addr).toNat := by
    rw [BitVec.ofNat_toNat, BitVec.setWidth_eq, BitVec.add_comm, BitVec.sub_add_cancel]
  rw [ha]
  exact h.pageOf_add hr

namespace Chip

theorem flat_store (chip : Chip) (h : InPage addr payload.length)
    (hp : chip.page = pageOf addr) :
    (chip.store (inPageOffset addr) payload).flat = chip.flat.store addr payload := by
  funext a
  rw [flat, store]
  by_cases ha : pageOf a = pageOf addr
  · simp only [hp, ha, Function.update_self]
    have hflat : chip.mem (pageOf addr) (inPageOffset a) = chip.flat a := by rw [flat, ha]
    by_cases hr : Mem.InRange addr payload.length a
    · rw [Mem.store, Mem.store, h.sub_eq ha (.inr hr), hflat]
    · have hr' : ¬ Mem.InRange (inPageOffset addr) payload.length (inPageOffset a) := by
        intro hr'
        rw [Mem.InRange, h.sub_eq ha (.inl hr')] at hr'
        exact hr hr'
      rw [Mem.store_of_not_inRange _ hr, Mem.store_of_not_inRange _ hr', hflat]
  · simp only [hp, Function.update_of_ne ha]
    rw [Mem.store_of_not_inRange _ (h.not_inRange ha), flat]

theorem flat_load (chip : Chip) (h : InPage addr size) (hp : chip.page = pageOf addr) :
    DriverProg.bytesOf size (reply [inPageOffset addr] chip) = chip.flat.load addr size := by
  apply List.map_congr_left
  intro k hk
  have hk := List.mem_range.mp hk
  rw [reply, flat, h.pageOf_add hk, inPageOffset_add, hp]

theorem effect_select (pageSelectAddr page : Byte) (chip : Chip) :
    effect pageSelectAddr [pageSelectAddr, page] chip = chip.select page :=
  if_pos rfl

theorem effect_store (chip : Chip) (h : Avoids pageSelectAddr addr payload.length) :
    effect pageSelectAddr (inPageOffset addr :: payload) chip =
      chip.store (inPageOffset addr) payload := by
  match payload with
  | [] => rfl
  | [value] =>
    refine if_neg ?_
    rintro rfl
    apply h
    rw [List.length_singleton, Mem.InRange, BitVec.sub_self]
    decide
  | _ :: _ :: _ => rfl

theorem bytewise_select (pageSelectAddr page : Byte) (chip : Chip) :
    (bytewise pageSelectAddr).effect [pageSelectAddr, page] chip = chip.select page :=
  if_pos rfl

/-- After a data frame the chip is on the page stored at the page-select address, if any. -/
theorem page_storeBytes (pageSelectAddr offset : Byte) (payload : List Byte) (chip : Chip)
    (h : payload.length ≤ 256) :
    (chip.storeBytes pageSelectAddr offset payload).page =
      payload.getD (pageSelectAddr - offset).toNat chip.page := by
  induction payload generalizing offset chip with
  | nil => rfl
  | cons value payload ih =>
    rw [List.length_cons] at h
    rw [storeBytes, ih _ _ (by omega), storeByte]
    have h1 : (1 : Byte).toNat = 1 := rfl
    have hp := pageSelectAddr.isLt
    by_cases ho : offset = pageSelectAddr
    · have hd : (pageSelectAddr - (offset + 1)).toNat = 255 := by
        rw [ho, BitVec.toNat_sub, BitVec.toNat_add, h1]
        omega
      rw [if_pos ho, hd, ho, BitVec.sub_self, List.getD_eq_default _ _ (by omega)]
      rfl
    · have hs : (pageSelectAddr - offset).toNat = (pageSelectAddr - (offset + 1)).toNat + 1 := by
        have hne : offset.toNat ≠ pageSelectAddr.toNat := fun h => ho (BitVec.eq_of_toNat_eq h)
        rw [BitVec.toNat_sub, BitVec.toNat_sub, BitVec.toNat_add, h1]
        omega
      rw [if_neg ho, hs, List.getD_cons_succ]
      rfl

end Chip

end Umimmio
