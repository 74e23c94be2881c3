import Umimmio.Hardware
import Umimmio.OpsTrace

namespace Umimmio
open Effects
set_option autoImplicit true

variable {r : Register} {σ : Type}

def Op.args : Op r → List (ValueArg r)
  | .write values => values
  | .modify values => values
  | .is v => [v]
  | _ => []

/-- With checks on, every argument that exceeds its region is reported once, in argument order, and
no other one is. -/
def ChecksExactly (h : RegHandler r σ) (s : σ) (op : Op r) : Prop :=
  RegOps.rangeErrors h (op.prog true) s =
    op.args.flatMap fun v => if v.Exceeds then ["Value out of range"] else []

/-- A write of a single register value, which `write_register_value` casts without a check. -/
def Op.CastsUnchecked : Op r → Prop
  | .write [v] => v.region.isRegister ∧ v.Exceeds
  | _ => False

theorem rangeErrors_checked (v : ValueArg r) :
    v.rangeErrors true = if v.Exceeds then ["Value out of range"] else [] := by
  simp only [ValueArg.rangeErrors, true_and]

theorem writeErrors_iff (values : List (ValueArg r)) :
    RegOps.writeErrors true values = values.flatMap (·.rangeErrors true) ↔
      ¬ (Op.write values).CastsUnchecked := by
  match values with
  | [] => exact iff_of_true rfl id
  | [v] =>
    rw [RegOps.writeErrors, List.flatMap_singleton, rangeErrors_checked]
    by_cases hr : v.region.isRegister
    · rw [if_pos hr]
      by_cases hx : v.Exceeds
      · rw [if_pos hx]
        exact iff_of_false (List.cons_ne_nil _ _).symm fun h => h ⟨hr, hx⟩
      · rw [if_neg hx]
        exact iff_of_true rfl fun h => hx h.2
    · rw [if_neg hr]
      exact iff_of_true rfl fun h => hr h.1
  | u :: v :: values => exact iff_of_true rfl id

/-- The checks are exact on every operation but the write of one register value that does not
fit. -/
theorem checksExactly_iff (h : RegHandler r σ) (s : σ) (op : Op r) :
    ChecksExactly h s op ↔ ¬ op.CastsUnchecked := by
  simp only [ChecksExactly, ← rangeErrors_checked]
  rw [Op.rangeErrors_prog]
  cases op with
  | write values => exact writeErrors_iff values
  | is v => exact iff_of_true (List.flatMap_singleton _ _).symm id
  | _ => exact iff_of_true rfl id

def dataRegister : Register := .declare ({} : Device).toParent 0x0C .bits8

def wideData : ValueArg dataRegister := ⟨.register, .dynamicValue .uint16 0x1FF⟩

/-- The word 0xFF goes out and no error is reported. -/
theorem checksExactly_fails_register :
    (Op.write [wideData]).Admitted .direct ∧
      ¬ ChecksExactly (hardware fun _ => .normal) 0#8 (.write [wideData]) := by
  have hadmitted : (Op.write [wideData]).Admitted .direct := by
    apply Op.admitted_write_singleton <;> decide
  refine ⟨hadmitted, ?_⟩
  intro h
  have hlen := congrArg List.length h
  revert hlen
  decide

end Umimmio
