import Umimmio.Lib.Bytes
import Umimmio.Lib.Prog
import Umimmio.Policy

namespace Umimmio
open Effects Bytes
set_option autoImplicit true

inductive BufferCmd
  | onError (msg : String)

def BufferCmd.Resp : BufferCmd → Type
  | .onError _ => Unit

abbrev BufferProg := Prog BufferCmd BufferCmd.Resp

def onError (msg : String) : BufferProg Unit := .call (.onError msg) .ret

structure BufferMmio (p : PointerWidth) where
  base : BitVec p.bits
  size : BitVec p.bits

namespace BufferMmio

variable {p : PointerWidth}

/-- The 32-bit offset in an expression with `size_t`. -/
def converted (p : PointerWidth) (offset : BitVec 32) : BitVec p.bits := offset.setWidth p.bits

/-- A reference to `n` bytes at the offset; the end of the access is computed in `size_t`. -/
def elementAt (B : BufferMmio p) (n : Nat) (msg : String) (checkPolicy : Bool)
    (offset : BitVec 32) : BufferProg (BitVec p.bits) := do
  if checkPolicy ∧ (converted p offset % BitVec.ofNat _ n ≠ 0 ∨
      B.size < converted p offset + BitVec.ofNat _ n) then
    onError msg
  return B.base + converted p offset

def wordAt (B : BufferMmio p) : Bool → BitVec 32 → BufferProg (BitVec p.bits) :=
  B.elementAt 4 "BufferMmio::word_at: offset misaligned or out of bounds"

def halfwordAt (B : BufferMmio p) : Bool → BitVec 32 → BufferProg (BitVec p.bits) :=
  B.elementAt 2 "BufferMmio::halfword_at: offset misaligned or out of bounds"

/-- A pointer to the byte at the offset. -/
def byteAt (B : BufferMmio p) (msg : String) (checkPolicy : Bool) (offset : BitVec 32) :
    BufferProg (BitVec p.bits) := do
  if checkPolicy ∧ B.size ≤ converted p offset then
    onError msg
  return B.base + converted p offset

def bytesAt (B : BufferMmio p) : Bool → BitVec 32 → BufferProg (BitVec p.bits) :=
  B.byteAt "BufferMmio::bytes_at: offset out of bounds"

def constBytesAt (B : BufferMmio p) : Bool → BitVec 32 → BufferProg (BitVec p.bits) :=
  B.byteAt "BufferMmio::const_bytes_at: offset out of bounds"

/-- An error policy whose `on_error` logs the message and returns. -/
def logErrors : Handler BufferCmd BufferCmd.Resp (List String)
  | .onError msg, log => ((), log ++ [msg])

end BufferMmio

inductive Accessor
  | wordAt
  | halfwordAt
  | bytesAt
  | constBytesAt
  deriving DecidableEq, Repr

namespace Accessor

def size : Accessor → Nat
  | .wordAt => 4
  | .halfwordAt => 2
  | .bytesAt => 1
  | .constBytesAt => 1

/-- The accessor checks its offset for alignment and the end of its access. -/
def ChecksEnd : Accessor → Prop
  | .wordAt => True
  | .halfwordAt => True
  | .bytesAt => False
  | .constBytesAt => False

variable {p : PointerWidth}

def prog (B : BufferMmio p) : Accessor → Bool → BitVec 32 → BufferProg (BitVec p.bits)
  | .wordAt => B.wordAt
  | .halfwordAt => B.halfwordAt
  | .bytesAt => B.bytesAt
  | .constBytesAt => B.constBytesAt

def errors (a : Accessor) (B : BufferMmio p) (offset : BitVec 32) : List String :=
  ((a.prog B true offset).run BufferMmio.logErrors []).2

def address (a : Accessor) (B : BufferMmio p) (offset : BitVec 32) : BitVec p.bits :=
  ((a.prog B true offset).run BufferMmio.logErrors []).1

/-- The access is misaligned or ends outside the buffer. -/
def Outside (a : Accessor) (B : BufferMmio p) (offset : BitVec 32) : Prop :=
  ¬ a.size ∣ offset.toNat ∨ B.size.toNat < offset.toNat + a.size

/-- The accessor reports exactly the accesses outside the buffer, and the bytes of every other
access lie in the buffer. -/
structure ChecksBounds (a : Accessor) (B : BufferMmio p) (offset : BitVec 32) : Prop where
  reports : a.errors B offset ≠ [] ↔ a.Outside B offset
  inside : a.errors B offset = [] → ∀ k < a.size,
    Mem.InRange B.base B.size.toNat (a.address B offset + BitVec.ofNat _ k)

end Accessor

namespace BufferMmio

variable {p : PointerWidth} (B : BufferMmio p) (offset : BitVec 32)

theorem toNat_converted : (converted p offset).toNat = offset.toNat :=
  BitVec.toNat_setWidth_of_le p.le_bits

/-- The bytes of an access that ends inside the buffer, counted without wrapping. -/
theorem inRange_of_le (h : offset.toNat + n ≤ B.size.toNat) (hk : k < n) :
    Mem.InRange B.base B.size.toNat (B.base + converted p offset + BitVec.ofNat _ k) := by
  have hsize := B.size.isLt
  have hdiff : (B.base + converted p offset + BitVec.ofNat _ k - B.base).toNat =
      offset.toNat + k := by
    rw [BitVec.add_assoc, BitVec.add_comm, BitVec.add_sub_cancel, BitVec.toNat_add,
      toNat_converted, BitVec.toNat_ofNat, Nat.mod_eq_of_lt (show k < 2 ^ p.bits by omega),
      Nat.mod_eq_of_lt (by omega)]
  rw [Mem.InRange, hdiff]
  omega

theorem run_elementAt (n : Nat) (msg : String) :
    (B.elementAt n msg true offset).run logErrors [] =
      (B.base + converted p offset,
        if converted p offset % BitVec.ofNat _ n ≠ 0 ∨
          B.size < converted p offset + BitVec.ofNat _ n then [msg] else []) := by
  rw [elementAt]
  simp only [true_and]
  split_ifs <;> rfl

theorem run_byteAt (msg : String) :
    (B.byteAt msg true offset).run logErrors [] =
      (B.base + converted p offset, if B.size ≤ converted p offset then [msg] else []) := by
  rw [byteAt]
  simp only [true_and]
  split_ifs <;> rfl

theorem toNat_ofNat_of_dvd {n : Nat} (hn : n ∣ 2 ^ 31) :
    (BitVec.ofNat p.bits n).toNat = n := by
  have hle := Nat.le_of_dvd (by decide) hn
  have hp := p.two_pow_le
  rw [BitVec.toNat_ofNat, Nat.mod_eq_of_lt (by omega)]

theorem misaligned_iff {n : Nat} (hn : n ∣ 2 ^ 31) :
    converted p offset % BitVec.ofNat _ n ≠ 0 ↔ ¬ n ∣ offset.toNat := by
  rw [ne_eq, ← BitVec.toNat_inj, BitVec.toNat_umod, toNat_converted, toNat_ofNat_of_dvd hn,
    BitVec.ofNat_eq_ofNat, BitVec.toNat_ofNat, Nat.zero_mod, Nat.dvd_iff_mod_eq_zero]

theorem end_iff {n : Nat} (hn : n ∣ 2 ^ 31) :
    B.size < converted p offset + BitVec.ofNat _ n ↔
      B.size.toNat < (offset.toNat + n) % 2 ^ p.bits := by
  rw [BitVec.lt_def, BitVec.toNat_add, toNat_converted, toNat_ofNat_of_dvd hn]

/-- An aligned offset leaves room for one more element below `2 ^ 32`. -/
theorem add_le_of_dvd {n : Nat} (hn : n ∣ 2 ^ 31) (ho : n ∣ offset.toNat) :
    offset.toNat + n ≤ 2 ^ 32 := by
  have h32 : n ∣ 2 ^ 32 := Nat.dvd_trans hn ⟨2, rfl⟩
  have hlt : offset.toNat < 2 ^ 32 := offset.isLt
  obtain ⟨a, ha⟩ := ho
  obtain ⟨b, hb⟩ := h32
  rw [ha, hb] at hlt ⊢
  have hab : a + 1 ≤ b := Nat.lt_of_mul_lt_mul_left hlt
  calc n * a + n = n * (a + 1) := rfl
    _ ≤ n * b := Nat.mul_le_mul_left n hab

/-- The wrapped end of an access is compared as the exact one, unless it is the first address that
`size_t` cannot hold. -/
theorem wrapped_end_iff {n : Nat} (hn : n ∣ 2 ^ 31) :
    ((¬ n ∣ offset.toNat ∨ B.size.toNat < (offset.toNat + n) % 2 ^ p.bits) ↔
      (¬ n ∣ offset.toNat ∨ B.size.toNat < offset.toNat + n)) ↔
        offset.toNat + n ≠ 2 ^ p.bits := by
  by_cases ho : n ∣ offset.toNat
  · have hle := add_le_of_dvd offset hn ho
    have hp := p.two_pow_le
    have hsize := B.size.isLt
    by_cases he : offset.toNat + n = 2 ^ p.bits
    · rw [he, Nat.mod_self]
      simp only [ho, not_true_eq_false, false_or, Nat.not_lt_zero, hsize, ne_eq, iff_true]
    · rw [Nat.mod_eq_of_lt (by omega)]
      exact iff_of_true Iff.rfl he
  · have hne : offset.toNat + n ≠ 2 ^ p.bits := by
      intro he
      have hdvd : n ∣ 2 ^ p.bits :=
        Nat.dvd_trans hn (Nat.pow_dvd_pow 2 (Nat.le_trans (by decide) p.le_bits))
      rw [← he] at hdvd
      exact ho ((Nat.dvd_add_left (Nat.dvd_refl n)).mp hdvd)
    exact iff_of_true (iff_of_true (.inl ho) (.inl ho)) hne

theorem ite_singleton_ne_nil {c : Prop} [Decidable c] {msg : String} :
    (if c then [msg] else []) ≠ [] ↔ c := by
  split_ifs with h <;> simp [h]

theorem elementAt_errors_iff {n : Nat} (hn : n ∣ 2 ^ 31) (msg : String) :
    ((B.elementAt n msg true offset).run logErrors []).2 ≠ [] ↔
      ¬ n ∣ offset.toNat ∨ B.size.toNat < (offset.toNat + n) % 2 ^ p.bits := by
  rw [run_elementAt, ite_singleton_ne_nil, misaligned_iff offset hn, end_iff B offset hn]

theorem byteAt_errors_iff (msg : String) :
    ((B.byteAt msg true offset).run logErrors []).2 ≠ [] ↔
      ¬ 1 ∣ offset.toNat ∨ B.size.toNat < offset.toNat + 1 := by
  rw [run_byteAt, ite_singleton_ne_nil, BitVec.le_def, toNat_converted, Nat.lt_succ_iff]
  exact (or_iff_right fun h => h (Nat.one_dvd _)).symm

end BufferMmio

namespace Accessor

variable {p : PointerWidth}

theorem address_eq (a : Accessor) (B : BufferMmio p) (offset : BitVec 32) :
    a.address B offset = B.base + BufferMmio.converted p offset := by
  cases a with
  | wordAt => exact congrArg Prod.fst (B.run_elementAt offset 4 _)
  | halfwordAt => exact congrArg Prod.fst (B.run_elementAt offset 2 _)
  | bytesAt => exact congrArg Prod.fst (B.run_byteAt offset _)
  | constBytesAt => exact congrArg Prod.fst (B.run_byteAt offset _)

/-- An accessor that reports what is outside returns addresses inside. -/
theorem checksBounds_iff_reports (a : Accessor) (B : BufferMmio p) (offset : BitVec 32) :
    a.ChecksBounds B offset ↔ (a.errors B offset ≠ [] ↔ a.Outside B offset) := by
  constructor
  · exact ChecksBounds.reports
  · intro h
    constructor
    · exact h
    · intro he k hk
      have hin : ¬ a.Outside B offset := fun ho => h.mpr ho he
      rw [Outside, not_or, Nat.not_lt] at hin
      rw [address_eq]
      exact B.inRange_of_le offset hin.2 hk

/-- The bounds checks are exact on every offset but one: where the access would end at the first
address that `size_t` cannot hold, a word or halfword access is let through. -/
theorem checksBounds_iff (a : Accessor) (B : BufferMmio p) (offset : BitVec 32) :
    a.ChecksBounds B offset ↔ (a.ChecksEnd → offset.toNat + a.size ≠ 2 ^ p.bits) := by
  rw [checksBounds_iff_reports]
  cases a with
  | wordAt =>
    have h4 : 4 ∣ 2 ^ 31 := by decide
    exact (iff_congr (B.elementAt_errors_iff offset h4 _) Iff.rfl).trans
      ((B.wrapped_end_iff offset h4).trans ⟨fun h _ => h, fun h => h trivial⟩)
  | halfwordAt =>
    have h2 : 2 ∣ 2 ^ 31 := by decide
    exact (iff_congr (B.elementAt_errors_iff offset h2 _) Iff.rfl).trans
      ((B.wrapped_end_iff offset h2).trans ⟨fun h _ => h, fun h => h trivial⟩)
  | bytesAt => exact iff_of_true (B.byteAt_errors_iff offset _) False.elim
  | constBytesAt => exact iff_of_true (B.byteAt_errors_iff offset _) False.elim

/-- The last aligned word of a 32-bit address space passes the check of a 4 KiB buffer. -/
theorem checksBounds_fails_wrap :
    ¬ wordAt.ChecksBounds (⟨0x50100000#32, 0x1000#32⟩ : BufferMmio .bits32) 0xFFFFFFFC#32 := by
  rw [checksBounds_iff_reports]
  intro h
  exact absurd (h.mpr (.inr (by decide))) (by decide)

end Accessor

end Umimmio
