import Umimmio.Hardware
import Umimmio.PackWords

namespace Umimmio
open Effects
set_option autoImplicit true

variable {r : Register}

/-- A plain store for the whole storage word of one register. -/
def storageWord : RegHandler r r.RegValueType
  | .regRead, word => (word, word)
  | .regWrite w, _ => ((), w)
  | .onRangeError _, word => ((), word)

/-- The reset value has no bit above the register's width. -/
def Register.ResetFits (r : Register) : Prop := r.reset.toNat < 2 ^ r.bits

theorem Register.ResetFits.getLsbD (h : r.ResetFits) (hi : r.bits ≤ i) :
    r.resetValue.getLsbD i = false := by
  have hp : 2 ^ r.bits ≤ 2 ^ i := Nat.pow_le_pow_right (by omega) hi
  rw [resetValue, BitVec.getLsbD_setWidth, BitVec.getLsbD,
    Nat.testBit_lt_two_pow (Nat.lt_of_lt_of_le h hp), Bool.and_false]

theorem ValueArg.InRange.getLsbD_cast_of_ge {v : ValueArg r} (hv : v.InRange)
    (hi : v.region.bitWidth ≤ i) : (v.val.cast w).getLsbD i = false := by
  by_cases hw : i < w
  · have hlt : v.val.number.toNat < 2 ^ v.region.bitWidth := by
      rw [Int.toNat_lt hv.1]
      exact_mod_cast hv.2
    have hp : 2 ^ v.region.bitWidth ≤ 2 ^ i := Nat.pow_le_pow_right (by omega) hi
    rw [hv.getLsbD_cast hw, Nat.testBit_lt_two_pow (Nat.lt_of_lt_of_le hlt hp)]
  · exact BitVec.getLsbD_of_ge _ _ (Nat.le_of_not_lt hw)

namespace RegOps

/-- The raw cast of a whole register's value is its masked insert into the reset value. -/
theorem cast_eq_insertValue (hr : r.ResetFits) {v : ValueArg r} (hv : v.InRange)
    (hreg : v.region = .register) : v.val.cast r.valueBits = insertValue r.resetValue v := by
  apply BitVec.eq_of_getLsbD_eq
  intro i _
  rw [getLsbD_insertValue, hreg]
  by_cases hi : i < r.bits
  · rw [if_pos (Region.covers_register_iff.mpr hi)]
    rfl
  · have hge : v.region.bitWidth ≤ i := by
      rw [hreg]
      exact Nat.le_of_not_lt hi
    rw [if_neg fun hc => hi (Region.covers_register_iff.mp hc), hv.getLsbD_cast_of_ge hge,
      hr.getLsbD (Nat.le_of_not_lt hi)]

theorem writeWord_eq (hr : r.ResetFits) {values : List (ValueArg r)}
    (hv : ∀ v ∈ values, v.InRange) : writeWord values = packWord r.resetValue values := by
  unfold writeWord
  split
  next v =>
    cases hreg : v.region with
    | register => exact cast_eq_insertValue hr (hv v (List.mem_singleton_self v)) hreg
    | field f => rfl
  next => rfl

/-- A write of in-range values leaves the word that a reset and then a modify of them leave. -/
theorem write_eq_reset_modify (hr : r.ResetFits) (hm : r.w1cMask = 0)
    {values : List (ValueArg r)} (hv : ∀ v ∈ values, v.InRange) (checkPolicy : Bool)
    (word : r.RegValueType) :
    ((write checkPolicy values).run storageWord word).2 =
      ((modify checkPolicy values).run storageWord ((reset r).run storageWord word).2).2 := by
  have hq : ∀ msg (s : r.RegValueType), (storageWord (.onRangeError msg) s).2 = s :=
    fun msg s => rfl
  rw [run_write hq, run_modify hq, maskW1c_of_zero hm, writeWord_eq hr hv]
  rfl

def levelRegister : Register :=
  { Register.declare ({} : Device).toParent 0x20 .bits16 (.policy .rw) 0x0A5 with
    bits := 12
    bits_pos := by decide
    bits_le := by decide
    w1c_fits := .inr (by decide) }

def setLevel : List (ValueArg levelRegister) := [⟨.register, .dynamicValue .uint16 0x123⟩]

theorem write_eq_reset_modify_level :
    ((write true setLevel).run storageWord 0xFFF#16).2 =
      ((modify true setLevel).run storageWord
        ((reset levelRegister).run storageWord 0xFFF#16).2).2 := by
  have hr : levelRegister.ResetFits := show 0x0A5 < 2 ^ 12 by decide
  have hv : ∀ v ∈ setLevel, v.InRange := List.forall_mem_singleton.mpr ⟨by decide, by decide⟩
  exact write_eq_reset_modify hr rfl hv true 0xFFF#16

end RegOps

end Umimmio
