import Mathlib.Data.Nat.Bitwise

namespace CInt
set_option autoImplicit true

/-- Width in which C++ evaluates operators on `w`-bit unsigned operands; narrow ones turn `int`. -/
def intBits (w : Nat) : Nat := max w 32

def promote (x : BitVec w) : BitVec (intBits w) := x.setWidth (intBits w)

def narrow (x : BitVec (intBits w)) : BitVec w := x.setWidth w

@[simp] theorem getLsbD_promote (x : BitVec w) (i : Nat) :
    (promote x).getLsbD i = x.getLsbD i := by
  have hw : w ≤ intBits w := Nat.le_max_left _ _
  rw [promote, BitVec.getLsbD_setWidth]
  by_cases hi : i < w
  · simp only [show i < intBits w by omega, decide_true, Bool.true_and]
  · rw [BitVec.getLsbD_of_ge _ _ (Nat.le_of_not_lt hi), Bool.and_false]

@[simp] theorem getLsbD_narrow (x : BitVec (intBits w)) (i : Nat) :
    (narrow x).getLsbD i = (decide (i < w) && x.getLsbD i) :=
  BitVec.getLsbD_setWidth _ _ _

/-- `x &= ~m` -/
def andNot (x m : BitVec w) : BitVec w := narrow (promote x &&& ~~~promote m)

/-- `x |= m` -/
def orAssign (x m : BitVec w) : BitVec w := narrow (promote x ||| promote m)

/-- `x ^= m` -/
def xorAssign (x m : BitVec w) : BitVec w := narrow (promote x ^^^ promote m)

/-- `(x & ~m) | ((v << shift) & m)` -/
def insert (x m v : BitVec w) (shift : Nat) : BitVec w :=
  narrow ((promote x &&& ~~~promote m) ||| ((promote v <<< shift) &&& promote m))

/-- `((1 << width) - 1) << shift`, each step converted as C++ converts it. -/
def onesShifted (w width shift : Nat) : BitVec w :=
  narrow (promote (narrow ((promote 1#w <<< width) - 1#_) : BitVec w) <<< shift)

theorem lt_intBits (h : i < w) : i < intBits w :=
  Nat.lt_of_lt_of_le h (Nat.le_max_left _ _)

@[simp] theorem getLsbD_andNot (x m : BitVec w) (i : Nat) :
    (andNot x m).getLsbD i = (x.getLsbD i && !m.getLsbD i) := by
  by_cases hi : i < w
  · simp only [andNot, getLsbD_narrow, BitVec.getLsbD_and, BitVec.getLsbD_not, getLsbD_promote,
      hi, lt_intBits hi, decide_true, Bool.true_and]
  · simp only [BitVec.getLsbD_of_ge _ i (Nat.le_of_not_lt hi), Bool.false_and]

@[simp] theorem getLsbD_orAssign (x m : BitVec w) (i : Nat) :
    (orAssign x m).getLsbD i = (x.getLsbD i || m.getLsbD i) := by
  by_cases hi : i < w
  · simp only [orAssign, getLsbD_narrow, BitVec.getLsbD_or, getLsbD_promote, hi, decide_true,
      Bool.true_and]
  · simp only [BitVec.getLsbD_of_ge _ i (Nat.le_of_not_lt hi), Bool.or_false]

@[simp] theorem getLsbD_xorAssign (x m : BitVec w) (i : Nat) :
    (xorAssign x m).getLsbD i = (x.getLsbD i ^^ m.getLsbD i) := by
  by_cases hi : i < w
  · simp only [xorAssign, getLsbD_narrow, BitVec.getLsbD_xor, getLsbD_promote, hi, decide_true,
      Bool.true_and]
  · simp only [BitVec.getLsbD_of_ge _ i (Nat.le_of_not_lt hi), Bool.xor_false]

theorem getLsbD_insert (x m v : BitVec w) (shift i : Nat) :
    (insert x m v shift).getLsbD i =
      if m.getLsbD i then decide (shift ≤ i) && v.getLsbD (i - shift) else x.getLsbD i := by
  by_cases hi : i < w
  · simp only [insert, getLsbD_narrow, BitVec.getLsbD_or, BitVec.getLsbD_and, BitVec.getLsbD_not,
      BitVec.getLsbD_shiftLeft, getLsbD_promote, hi, lt_intBits hi, decide_true, Bool.true_and]
    cases m.getLsbD i with
    | false => simp
    | true =>
      by_cases hs : i < shift
      · simp [hs, Nat.not_le.mpr hs]
      · simp [hs, Nat.le_of_not_lt hs]
  · simp only [BitVec.getLsbD_of_ge _ i (Nat.le_of_not_lt hi), Bool.false_eq_true, ↓reduceIte]

theorem getLsbD_two_pow_sub_one (h : n < w) (i : Nat) :
    ((1#w <<< n) - 1#w).getLsbD i = decide (i < n) := by
  have hp : 2 ^ n < 2 ^ w := Nat.pow_lt_pow_right (by omega) h
  have ht : ((1#w <<< n) - 1#w).toNat = 2 ^ n - 1 := by
    have h1 : (1#w).toNat = 1 := by
      rw [BitVec.toNat_ofNat, Nat.mod_eq_of_lt (Nat.one_lt_two_pow (by omega))]
    have hs : (1#w <<< n).toNat = 2 ^ n := by
      rw [BitVec.toNat_shiftLeft, h1, Nat.one_shiftLeft, Nat.mod_eq_of_lt hp]
    rw [BitVec.toNat_sub_of_le (by rw [BitVec.le_def, h1, hs]; exact Nat.one_le_two_pow), hs, h1]
  rw [BitVec.getLsbD, ht, Nat.testBit_two_pow_sub_one]

theorem getLsbD_onesShifted (hn : n < w) (i : Nat) :
    (onesShifted w n shift).getLsbD i = decide (i < w ∧ shift ≤ i ∧ i < shift + n) := by
  have h1 : promote 1#w = 1#(intBits w) := by
    apply BitVec.eq_of_getLsbD_eq
    intro j hj
    have : 0 < w := by omega
    simp [BitVec.getLsbD_one, this, lt_intBits this]
  by_cases hi : i < w
  · simp only [onesShifted, getLsbD_narrow, getLsbD_promote, BitVec.getLsbD_shiftLeft, h1,
      getLsbD_two_pow_sub_one (lt_intBits hn), hi, lt_intBits hi, decide_true, Bool.true_and,
      true_and]
    by_cases hs : shift ≤ i
    · simp only [show i - shift < w by omega, hs, decide_true, Bool.true_and, true_and,
        Nat.not_lt.mpr hs, decide_false, Bool.not_false, decide_eq_decide]
      omega
    · simp only [hs, Nat.lt_of_not_le hs, decide_true, Bool.not_true, Bool.false_and, false_and,
        decide_false]
  · simp [onesShifted, hi]

def ofBits : (w : Nat) → (Nat → Bool) → BitVec w
  | 0, _ => 0#0
  | w + 1, f => BitVec.cons (f w) (ofBits w f)

theorem getLsbD_ofBits (f : Nat → Bool) (hi : i < w) : (ofBits w f).getLsbD i = f i := by
  induction w with
  | zero => omega
  | succ w ih =>
    rw [ofBits, BitVec.getLsbD_cons]
    by_cases hw : i = w
    · rw [if_pos hw, hw]
    · rw [if_neg hw, ih (by omega)]

end CInt
