import Mathlib.Algebra.Group.Nat.Defs
import Mathlib.Tactic.SplitIfs

namespace Umimmio
set_option autoImplicit true

abbrev Addr := Nat

/-- Width of `uintptr_t` and of `size_t`. -/
inductive PointerWidth
  | bits32
  | bits64
  deriving DecidableEq, Repr

def PointerWidth.bits : PointerWidth → Nat
  | .bits32 => 32
  | .bits64 => 64

theorem PointerWidth.le_bits (p : PointerWidth) : 32 ≤ p.bits := by
  cases p <;> decide

theorem PointerWidth.two_pow_le (p : PointerWidth) : 2 ^ 32 ≤ 2 ^ p.bits :=
  Nat.pow_le_pow_right (by omega) p.le_bits

def maxRegBytes : Nat := 8

/-- Width of the smallest unsigned integer type that can hold `bits` bits. -/
def uintFit (bits : Nat) : Nat :=
  if bits ≤ 8 then 8 else if bits ≤ 16 then 16 else if bits ≤ 32 then 32 else 64

theorem le_uintFit (h : bits ≤ 64) : bits ≤ uintFit bits := by
  unfold uintFit
  split_ifs <;> omega

theorem uintFit_le (bits : Nat) : uintFit bits ≤ 64 := by
  unfold uintFit
  split_ifs <;> omega

theorem eight_dvd_uintFit (bits : Nat) : 8 ∣ uintFit bits := by
  unfold uintFit
  split_ifs <;> omega

theorem uintFit_pos (bits : Nat) : 0 < uintFit bits := by
  unfold uintFit
  split_ifs <;> omega

inductive WriteBehavior
  | normal
  | oneToClear
  | oneToSet
  | oneToToggle
  | zeroToClear
  | zeroToSet
  | zeroToToggle
  deriving DecidableEq, Repr

structure AccessPolicy where
  canRead : Bool
  canWrite : Bool
  writeBehavior : WriteBehavior := .normal
  deriving DecidableEq, Repr

namespace AccessPolicy

def rw : AccessPolicy := ⟨true, true, .normal⟩
def ro : AccessPolicy := ⟨true, false, .normal⟩
def wo : AccessPolicy := ⟨false, true, .normal⟩
def w1c : AccessPolicy := ⟨true, true, .oneToClear⟩
def w1s : AccessPolicy := ⟨false, true, .oneToSet⟩
def w1t : AccessPolicy := ⟨false, true, .oneToToggle⟩
def z0c : AccessPolicy := ⟨true, true, .zeroToClear⟩
def z0s : AccessPolicy := ⟨true, true, .zeroToSet⟩
def z0t : AccessPolicy := ⟨true, true, .zeroToToggle⟩

end AccessPolicy

inductive Access
  | policy (p : AccessPolicy)
  | inherit
  deriving DecidableEq, Repr

namespace Access

/-- The `AccessType` of a region declared with this argument below the given parent. -/
def resolve : Access → Access → Access
  | .inherit, parent => parent
  | .policy p, _ => .policy p

def canRead : Access → Bool
  | .policy p => p.canRead
  | .inherit => false

def canWrite : Access → Bool
  | .policy p => p.canWrite
  | .inherit => false

def isW1C : Access → Bool
  | .policy p => p.writeBehavior == .oneToClear
  | .inherit => false

/-- An access type without a write behaviour counts as normal. -/
def normalWrite : Access → Bool
  | .policy p => p.writeBehavior == .normal
  | .inherit => true

def writeBehavior : Access → WriteBehavior
  | .policy p => p.writeBehavior
  | .inherit => .normal

theorem isW1C_iff (a : Access) : a.isW1C = true ↔ a.writeBehavior = .oneToClear := by
  cases a with
  | policy p => exact beq_iff_eq
  | inherit => simp only [isW1C, writeBehavior, Bool.false_eq_true, reduceCtorEq]

end Access

inductive TransportTag
  | direct
  | i2c
  | spi
  | csr
  deriving DecidableEq, Repr

end Umimmio
