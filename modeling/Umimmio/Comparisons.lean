import Umimmio.NamedValues

namespace Umimmio
open Effects
set_option autoImplicit true

variable {r : Register}

/-- Width of the type in which values of the region are compared. -/
def Region.storageBits : Region r → Nat
  | .register => r.valueBits
  | .field f => uintFit f.bitWidth

theorem Region.bitWidth_le_storageBits (R : Region r) : R.bitWidth ≤ R.storageBits := by
  cases R with
  | register => exact r.bits_le_valueBits
  | field f =>
    have hw : f.bitWidth ≤ 64 :=
      Nat.le_trans (Nat.le_trans (Nat.le_add_left _ _) f.in_reg) r.bits_le
    exact le_uintFit hw

theorem RegionValue.toNat_get_busRead (f : Field r) (word : BitVec r.bits) :
    (get (busRead word) f).toNat = ((Region.field f).content word).toNat := by
  apply Nat.eq_of_testBit_eq
  intro j
  rw [BitVec.testBit_toNat, BitVec.testBit_toNat, getLsbD_get, getLsbD_busRead]
  by_cases hj : j < f.bitWidth
  · rw [(Region.field f).getLsbD_content word hj, decide_eq_true hj, Bool.true_and]
    rfl
  · have hge : (Region.field f).bitWidth ≤ j := Nat.le_of_not_lt hj
    rw [decide_eq_false hj, Bool.false_and, BitVec.getLsbD_of_ge _ _ hge]

theorem beq_setWidth_iff (x : BitVec w) (y : BitVec n) :
    (y == x.setWidth n) = true ↔ y.toNat = x.toNat % 2 ^ n := by
  rw [beq_iff_eq, ← BitVec.toNat_inj, BitVec.toNat_setWidth]

theorem RegionValue.eq_iff (f : Field r) (word : BitVec r.bits) (x : BitVec (Carrier.bits T)) :
    eq (get (busRead word) f) (.dynamicValue T x) = true ↔
      ((Region.field f).content word).toNat = x.toNat % 2 ^ uintFit f.bitWidth := by
  rw [← toNat_get_busRead]
  exact beq_setWidth_iff x _

theorem RegionValue.is_iff (R : Region r) (word : BitVec r.bits) (x : BitVec (Carrier.bits T)) :
    is (busRead word) ⟨R, .dynamicValue T x⟩ = true ↔
      (R.content word).toNat = x.toNat % 2 ^ R.storageBits := by
  cases R with
  | register =>
    have hc : ((Region.register : Region r).content word).toNat = (busRead word).toNat := by
      have hb := r.bits_le_valueBits
      have hself : (Region.register : Region r).content word = word :=
        BitVec.extractLsb'_eq_self
      rw [hself, busRead, BitVec.toNat_setWidth_of_le hb]
      rfl
    rw [hc]
    exact beq_setWidth_iff x _
  | field f => exact eq_iff f word x

/-- Every comparison of the region's content with the dynamic value is one of integers. -/
structure ComparesExactly (checkPolicy : Bool) (R : Region r) (x : BitVec (Carrier.bits T))
    (word : BitVec r.bits) : Prop where
  regOps : ((RegOps.is checkPolicy ⟨R, .dynamicValue T x⟩).run wordStore word).1 = true ↔
    (R.content word).toNat = x.toNat
  regionValue : RegionValue.is (busRead word) ⟨R, .dynamicValue T x⟩ = true ↔
    (R.content word).toNat = x.toNat
  eq : ∀ f, R = .field f →
    (RegionValue.eq (RegionValue.get (busRead word) f) (.dynamicValue T x) = true ↔
      (R.content word).toNat = x.toNat)

theorem eq_mod_iff_eq_iff {c d n : Nat} (hc : c < n) :
    (c = d % n ↔ c = d) ↔ d < n ∨ d % n ≠ c := by
  constructor
  · intro h
    by_contra hn
    rw [not_or, not_not] at hn
    have hd := h.mp hn.2.symm
    omega
  · rintro (hd | hd)
    · rw [Nat.mod_eq_of_lt hd]
    · constructor
      · exact fun h => absurd h.symm hd
      · rintro rfl
        exact absurd (Nat.mod_eq_of_lt hc) hd

theorem run_is_wordStore (checkPolicy : Bool) (v : ValueArg r) (word : BitVec r.bits) :
    ((RegOps.is checkPolicy v).run wordStore word).1 = RegionValue.is (busRead word) v :=
  congrArg Prod.fst (RegOps.run_is (h := wordStore) (fun _ _ => rfl) checkPolicy v word)

/-- The comparisons are exact unless the value exceeds the storage type of the region and what is
left of it there is the content. -/
theorem comparesExactly_iff (checkPolicy : Bool) (R : Region r) (x : BitVec (Carrier.bits T))
    (word : BitVec r.bits) :
    ComparesExactly checkPolicy R x word ↔
      x.toNat < 2 ^ R.storageBits ∨ x.toNat % 2 ^ R.storageBits ≠ (R.content word).toNat := by
  have hc : (R.content word).toNat < 2 ^ R.storageBits :=
    Nat.lt_of_lt_of_le (BitVec.isLt _)
      (Nat.pow_le_pow_right (by omega) R.bitWidth_le_storageBits)
  rw [← eq_mod_iff_eq_iff hc]
  constructor
  · intro h
    rw [← h.regionValue, RegionValue.is_iff]
  · intro h
    constructor
    · rw [run_is_wordStore]
      exact (RegionValue.is_iff R word x).trans h
    · exact (RegionValue.is_iff R word x).trans h
    · rintro f rfl
      exact (RegionValue.eq_iff f word x).trans h

def configRegister : Register := .declare ({} : Device).toParent 0x04 .bits32

def configPrescaler : Field configRegister := ⟨8, 8, [.numeric], by decide, by decide⟩

def prescaler256 : BitVec (Carrier.bits .uint16) := 256#16

/-- A prescaler of 0 matches the dynamic value 256. -/
theorem comparesExactly_fails_256 :
    (Op.is ⟨.field configPrescaler, .dynamicValue .uint16 prescaler256⟩).Admitted .direct ∧
      ¬ ComparesExactly true (.field configPrescaler) prescaler256 0#32 := by
  have hexact : ¬ ComparesExactly true (.field configPrescaler) prescaler256 0#32 := by
    intro h
    have h256 := h.regionValue
    revert h256
    decide
  exact ⟨⟨by decide, by decide, by decide⟩, hexact⟩

end Umimmio
