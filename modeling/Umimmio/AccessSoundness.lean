import Umimmio.Hardware
import Umimmio.OpsTrace

namespace Umimmio
open Effects
set_option autoImplicit true

variable {r : Register} {σ : Type}

/-- The register's own access type allows the bus access. -/
def RegCmd.Permitted : RegCmd r → Prop
  | .regRead => r.accessType.canRead
  | .regWrite _ => r.accessType.canWrite
  | .onRangeError _ => True

def AllPermitted (cs : List (RegCmd r)) : Prop := ∀ c ∈ cs, c.Permitted

def Op.SoundOnBus (checkPolicy : Bool) (op : Op r) (h : RegHandler r σ) (s : σ) : Prop :=
  AllPermitted ((op.prog checkPolicy).commands h s)

/-- What an operation needs of the register but does not check there. -/
def Op.RegisterAllows : Op r → Prop
  | .write _ => r.accessType.canWrite
  | .modify _ => r.accessType.canRead ∧ r.accessType.canWrite
  | .flip _ => r.accessType.canRead ∧ r.accessType.canWrite
  | .clear _ => r.accessType.canWrite
  | _ => True

@[simp] theorem allPermitted_cons (c : RegCmd r) (cs : List (RegCmd r)) :
    AllPermitted (c :: cs) ↔ c.Permitted ∧ AllPermitted cs :=
  List.forall_mem_cons

@[simp] theorem allPermitted_append (cs ds : List (RegCmd r)) :
    AllPermitted (cs ++ ds) ↔ AllPermitted cs ∧ AllPermitted ds :=
  List.forall_mem_append

@[simp] theorem allPermitted_nil : AllPermitted ([] : List (RegCmd r)) :=
  List.forall_mem_nil _

@[simp] theorem allPermitted_rangeErrors (msgs : List String) :
    AllPermitted (msgs.map (.onRangeError : String → RegCmd r)) := by
  intro c hc
  obtain ⟨msg, _, rfl⟩ := List.mem_map.mp hc
  trivial

@[simp] theorem permitted_regRead :
    (RegCmd.regRead : RegCmd r).Permitted ↔ r.accessType.canRead = true :=
  Iff.rfl

@[simp] theorem permitted_regWrite (w : r.RegValueType) :
    (RegCmd.regWrite w).Permitted ↔ r.accessType.canWrite = true :=
  Iff.rfl

theorem soundOnBus_clear (checkPolicy : Bool) (f : Field r) {tag : TransportTag}
    (ha : (Op.clear f).Admitted tag) (h : RegHandler r σ) (s : σ) :
    (Op.clear f).SoundOnBus checkPolicy h s ↔ r.accessType.canWrite = true := by
  rw [Op.SoundOnBus, Op.prog, Prog.commands_map]
  by_cases hd : RegOps.ClearsDirectly r
  · rw [RegOps.clear_direct f hd]
    exact List.forall_mem_singleton
  · -- the mixed path asserts that the register is readable
    have hread : r.accessType.canRead = true := ha.2.2.resolve_left hd
    rw [RegOps.clear_mixed f hd]
    refine List.forall_mem_cons.trans ((and_iff_right hread).trans ?_)
    exact List.forall_mem_singleton

/-- An admitted operation makes only accesses that its register allows, exactly when the register
allows what the operation checks on the field alone. -/
theorem soundOnBus_iff (checkPolicy : Bool) (op : Op r) {tag : TransportTag}
    (ha : op.Admitted tag) (h : RegHandler r σ) (s : σ) :
    op.SoundOnBus checkPolicy h s ↔ op.RegisterAllows := by
  cases op with
  | write values =>
    rw [Op.SoundOnBus, Op.prog, Prog.commands_map, RegOps.commands_write]
    simp only [allPermitted_append, allPermitted_rangeErrors, allPermitted_cons,
      permitted_regWrite, allPermitted_nil, and_true, true_and, Op.RegisterAllows]
  | modify values =>
    rw [Op.SoundOnBus, Op.prog, Prog.commands_map, RegOps.commands_modify]
    simp only [List.cons_append, allPermitted_append, allPermitted_rangeErrors, allPermitted_cons,
      permitted_regRead, permitted_regWrite, allPermitted_nil, and_true, true_and,
      Op.RegisterAllows]
  | is v =>
    rw [Op.SoundOnBus, Op.prog, Prog.commands_map, RegOps.commands_is]
    simp only [allPermitted_append, allPermitted_rangeErrors, allPermitted_cons,
      permitted_regRead, allPermitted_nil, and_true, true_and, Op.RegisterAllows, iff_true]
    exact ha.2.2
  | flip f =>
    refine List.forall_mem_cons.trans (and_congr Iff.rfl ?_)
    exact List.forall_mem_singleton
  | clear f => exact soundOnBus_clear checkPolicy f ha h s
  | read => exact iff_of_true (List.forall_mem_singleton.mpr ha.2) trivial
  | readField f => exact iff_of_true (List.forall_mem_singleton.mpr ha.2.2) trivial
  | reset => exact iff_of_true (List.forall_mem_singleton.mpr ha.2) trivial
  | readVariant f variants => exact iff_of_true (List.forall_mem_singleton.mpr ha.2.2) trivial

def ovrRegister : Register :=
  .declare ({} : Device).toParent 0x04 .bits32 (.policy .ro)

def ovrEnable : Field ovrRegister := .bit 0 (by decide) [.accessPolicy .rw]

def enableOvr : Op ovrRegister := .write [⟨.field ovrEnable, .value 1⟩]

theorem enableOvr_admitted : enableOvr.Admitted .direct := by
  apply Op.admitted_write_singleton <;> decide

/-- A read-write field of a read-only register is written. -/
theorem soundOnBus_fails_readOnly :
    enableOvr.Admitted .direct ∧
      ¬ enableOvr.SoundOnBus true (hardware fun _ => .normal) 0#32 := by
  have hunsound : ¬ enableOvr.SoundOnBus true (hardware fun _ => .normal) 0#32 := by
    intro hs
    have hw : ovrRegister.accessType.canWrite = true := hs (.regWrite 1#32) (.head _)
    revert hw
    decide
  exact ⟨enableOvr_admitted, hunsound⟩

def enableRegister : Register := .declare ({} : Device).toParent 0x00 .bits32

def enableBit : Field enableRegister := .bit 0 (by decide) [.accessPolicy .rw]

theorem soundOnBus_iff_readWrite :
    (Op.flip enableBit).SoundOnBus true (hardware fun _ => .normal) 0#32 := by
  have hadmitted : (Op.flip enableBit).Admitted .direct :=
    ⟨by decide, by decide, by decide, rfl, by decide⟩
  exact (soundOnBus_iff true (.flip enableBit) hadmitted _ _).mpr ⟨by decide, by decide⟩

end Umimmio
