import Umimmio.OpsWords

namespace Umimmio
open Effects
set_option autoImplicit true

variable {r : Register}

/-- What a bus write of `written` leaves in a bit that holds `stored`. -/
def WriteBehavior.react : WriteBehavior → (stored written : Bool) → Bool
  | .normal, _, w => w
  | .oneToClear, s, w => s && !w
  | .oneToSet, s, w => s || w
  | .oneToToggle, s, w => s ^^ w
  | .zeroToClear, s, w => s && w
  | .zeroToSet, s, w => s || !w
  | .zeroToToggle, s, w => s ^^ !w

def busRead (word : BitVec r.bits) : r.RegValueType := word.setWidth r.valueBits

/-- A bus write on a register whose bit `i` reacts by `behavior i`. -/
def busWrite (behavior : Nat → WriteBehavior) (w : r.RegValueType) (word : BitVec r.bits) :
    BitVec r.bits :=
  CInt.ofBits r.bits fun i => (behavior i).react (word.getLsbD i) (w.getLsbD i)

def hardware (behavior : Nat → WriteBehavior) : RegHandler r (BitVec r.bits)
  | .regRead, word => (busRead word, word)
  | .regWrite w, word => ((), busWrite behavior w word)
  | .onRangeError _, word => ((), word)

@[simp] theorem getLsbD_busRead (word : BitVec r.bits) (i : Nat) :
    (busRead word).getLsbD i = word.getLsbD i := by
  rw [busRead, BitVec.getLsbD_setWidth]
  by_cases hi : i < r.bits
  · rw [decide_eq_true (Nat.lt_of_lt_of_le hi r.bits_le_valueBits), Bool.true_and]
  · rw [BitVec.getLsbD_of_ge _ _ (Nat.le_of_not_lt hi), Bool.and_false]

theorem getLsbD_busWrite (behavior : Nat → WriteBehavior) (w : r.RegValueType)
    (word : BitVec r.bits) (hi : i < r.bits) :
    (busWrite behavior w word).getLsbD i =
      (behavior i).react (word.getLsbD i) (w.getLsbD i) :=
  CInt.getLsbD_ofBits _ hi

def Region.content (R : Region r) (word : BitVec r.bits) : BitVec R.bitWidth :=
  word.extractLsb' R.shift R.bitWidth

theorem Region.getLsbD_content (R : Region r) (word : BitVec r.bits) (hj : j < R.bitWidth) :
    (R.content word).getLsbD j = word.getLsbD (R.shift + j) := by
  rw [content, BitVec.getLsbD_extractLsb', decide_eq_true hj, Bool.true_and]

theorem ValueArg.InRange.getLsbD_cast {v : ValueArg r} (hv : v.InRange) (hj : j < w) :
    (v.val.cast w).getLsbD j = v.val.number.toNat.testBit j := by
  cases he : v.val with
  | value e =>
    have h0 : 0 ≤ e := by simpa only [he, Assigned.number] using hv.1
    obtain ⟨n, rfl⟩ := Int.eq_ofNat_of_zero_le h0
    rw [Assigned.cast, Assigned.number, BitVec.ofInt_natCast, BitVec.getLsbD_ofNat,
      decide_eq_true hj, Bool.true_and, Int.toNat_natCast]
  | dynamicValue T x =>
    rw [Assigned.cast, Assigned.number, BitVec.getLsbD_setWidth, decide_eq_true hj,
      Bool.true_and, Int.toNat_natCast, BitVec.getLsbD]

theorem ValueArg.InRange.content_eq {v : ValueArg r} (hv : v.InRange) {word : BitVec r.bits}
    (h : ∀ i, v.region.Covers i →
      word.getLsbD i = (v.val.cast r.valueBits).getLsbD (i - v.region.shift)) :
    ((v.region.content word).toNat : Int) = v.val.number := by
  have hlt : v.val.number.toNat < 2 ^ v.region.bitWidth := by
    rw [Int.toNat_lt hv.1]
    exact_mod_cast hv.2
  have hn : (v.region.content word).toNat = v.val.number.toNat := by
    apply Nat.eq_of_testBit_eq
    intro j
    by_cases hj : j < v.region.bitWidth
    · have hr := v.region.in_reg
      have hb := r.bits_le_valueBits
      have hc : v.region.Covers (v.region.shift + j) := ⟨Nat.le_add_right _ _, by omega⟩
      have hw := v.region.getLsbD_content word hj
      rw [h _ hc, Nat.add_sub_cancel_left, hv.getLsbD_cast (by omega)] at hw
      exact hw
    · have hp : 2 ^ v.region.bitWidth ≤ 2 ^ j := Nat.pow_le_pow_right (by omega) (by omega)
      rw [Nat.testBit_lt_two_pow (Nat.lt_of_lt_of_le (BitVec.isLt _) hp),
        Nat.testBit_lt_two_pow (Nat.lt_of_lt_of_le hlt hp)]
  rw [hn, Int.toNat_of_nonneg hv.1]

end Umimmio
