import Umimmio.PagedRun
import Umimmio.TypedBus

namespace Umimmio
open Effects Bytes
set_option autoImplicit true

variable {r : Register} {δ ρ : Type}

/-- What is to be seen of a device's registers; a page select does not change it. -/
structure RegisterView (T : ByteTransport) (D : Target δ) (ρ : Type) where
  view : δ → ρ
  select_keeps : ∀ P, T = .paged P → ∀ page device,
    view (D.effect [P.pageSelectAddr, page] device) = view device

namespace ByteTransport

/-- The driver reports a failure of the register read that the next operation on the register
starts with, or of the page select before it. -/
def ReadFails (T : ByteTransport) (D : Target δ) (r : Register) (t : T.State) (b : Bus δ) : Prop :=
  match T, t with
  | .i2c T, _ => (b.outcome T.driver.voidWriteRead).ok = false
  | .spi T, _ => (b.outcome T.driver.voidTransfer).ok = false
  | .paged T, c =>
    T.SelectFails (pageOf (T.adapter.regAddr r)) c b ∨
      ((T.selected D (pageOf (T.adapter.regAddr r)) c b).outcome
        T.driver.voidWriteRead).ok = false

/-- The page select before the read fails, and so does the one before the write. -/
def BothSelectsFail (T : ByteTransport) (D : Target δ) (r : Register) (t : T.State) (b : Bus δ) :
    Prop :=
  match T, t with
  | .paged T, c =>
    T.SelectFails (pageOf (T.adapter.regAddr r)) c b ∧
      T.SelectFails (pageOf (T.adapter.regAddr r)) c
        (T.selectSent D (pageOf (T.adapter.regAddr r)) b)
  | _, _ => False

/-- If its read fails, the operation writes no register and leaves the registers alone. -/
def FailsHarmlessly (T : ByteTransport) (D : Target δ) (view : δ → ρ) (area : Nat → Byte)
    (checkPolicy : Bool) (op : Op r) (t : T.State) (b : Bus δ) : Prop :=
  let after := (T.perform D area checkPolicy op t b).2.2
  T.ReadFails D r t b → after.Without .write ∧ view after.device = view b.device

variable (T : ByteTransport) (D : Target δ) (area : Nat → Byte)

/-- On the bus a read-modify-write is a read and a write of the register. -/
theorem sameTraffic_rmw {op : Op r} (hop : op.IsRmw) (checkPolicy : Bool) (t : T.State)
    (b : Bus δ) :
    (T.perform D area checkPolicy op t b).2.2.SameTraffic
      (T.registers D area (.regWrite (op.rmwWord (T.registers D area .regRead (t, b)).1))
        (T.registers D area (.regRead : RegCmd r) (t, b)).2).2.2 := by
  have hbus := (T.perform_quiet D area checkPolicy op t b).2.2
  rw [hop.run (T.registers_quiet D area)] at hbus
  exact hbus

theorem failsHarmlessly_iff_of_write {op : Op r} {view : δ → ρ}
    (hw : ¬ (T.perform D area checkPolicy op t b).2.2.Without .write) :
    T.FailsHarmlessly D view area checkPolicy op t b ↔ ¬ T.ReadFails D r t b := by
  constructor
  · exact fun h hf => hw (h hf).1
  · exact fun h hf => absurd hf h

end ByteTransport

theorem PagedI2cTransport.selectSent_view {T : PagedI2cTransport} {D : Target δ}
    (V : RegisterView (.paged T) D ρ) (page : Byte) (b : Bus δ) :
    V.view (T.selectSent D page b).device = V.view b.device := by
  rw [selectSent, Bus.report_device, Bus.sent]
  split_ifs
  · exact V.select_keeps T rfl page b.device
  · rfl

namespace ByteTransport

theorem failsHarmlessly_paged (T : PagedI2cTransport) (D : Target δ)
    (V : RegisterView (.paged T) D ρ) (area : Nat → Byte) (checkPolicy : Bool) {op : Op r}
    (hop : op.IsRmw) (c : (paged T).State) {b : Bus δ} (hb : b.Without .write) :
    (paged T).FailsHarmlessly D V.view area checkPolicy op c b ↔
      ¬ (paged T).ReadFails D r c b ∨ (paged T).BothSelectsFail D r c b := by
  have hrun := (paged T).sameTraffic_rmw D area hop checkPolicy c b
  by_cases hs : T.SelectFails (pageOf (T.adapter.regAddr r)) c b
  · rw [PagedI2cTransport.registers_read_failed hs] at hrun
    by_cases hw : T.SelectFails (pageOf (T.adapter.regAddr r)) c
        (T.selectSent D (pageOf (T.adapter.regAddr r)) b)
    · refine iff_of_true (fun _ => ?_) (.inr ⟨hs, hw⟩)
      have hselect : (T.selectSent D (pageOf (T.adapter.regAddr r)) b).Without .write :=
        Bus.without_selectSent T hb nofun
      rw [T.registers_write, if_pos hw] at hrun
      rw [hrun.without_iff, hrun.device_eq]
      constructor
      · exact Bus.without_selectSent T hselect nofun
      · exact (T.selectSent_view V _ _).trans (T.selectSent_view V _ b)
    · rw [failsHarmlessly_iff_of_write]
      · exact (or_iff_left fun h => hw h.2).symm
      · rw [hrun.without_iff, T.registers_write, if_neg hw]
        exact fun h => ((Bus.without_dataWritten T).mp h).2 rfl
  · rw [PagedI2cTransport.registers_read_sent hs] at hrun
    rw [failsHarmlessly_iff_of_write]
    · exact (or_iff_left fun h => hs h.1).symm
    · rw [hrun.without_iff, PagedI2cTransport.registers_write_hit]
      exact fun h => ((Bus.without_dataWritten T).mp h).2 rfl

/-- A read-modify-write whose read fails does no harm exactly when the page could not be selected
for the write either. -/
theorem failsHarmlessly_iff (T : ByteTransport) (D : Target δ) (V : RegisterView T D ρ)
    (area : Nat → Byte) (checkPolicy : Bool) {op : Op r} (hop : op.IsRmw) (t : T.State)
    (device : δ) (script : List Outcome) :
    T.FailsHarmlessly D V.view area checkPolicy op t { device := device, script := script } ↔
      ¬ T.ReadFails D r t { device := device, script := script } ∨
        T.BothSelectsFail D r t { device := device, script := script } := by
  have hrun := T.sameTraffic_rmw D area hop checkPolicy t { device := device, script := script }
  cases T with
  | i2c T =>
    rw [failsHarmlessly_iff_of_write]
    · exact (or_iff_left nofun).symm
    · rw [hrun.without_iff, T.registers_write, Bus.without_report, Bus.without_sent]
      exact fun h => h.2 rfl
  | spi T =>
    rw [failsHarmlessly_iff_of_write]
    · exact (or_iff_left nofun).symm
    · rw [hrun.without_iff, T.registers_write, Bus.without_report, Bus.without_sent]
      exact fun h => h.2 rfl
  | paged T => exact failsHarmlessly_paged T D V area checkPolicy hop t nofun

def modeRegister : Register :=
  .declare ({ allowedTransports := [.i2c] } : Device).toParent 0x0110 .bits8

def modeEnable : Field modeRegister := .bit 0 (by decide)
def modeChip : Chip := ⟨1, fun _ _ => 0xA5⟩

def modeView : RegisterView (.paged codec) (Chip.target 0) (Byte → Mem 8) where
  view := Chip.mem
  select_keeps := by
    rintro P ⟨⟩ page chip
    rfl

/-- A flip whose read fails after a successful page select overwrites the register with 1. -/
theorem failsHarmlessly_fails_flip :
    (Op.flip modeEnable).Admitted .i2c ∧ (paged codec).Exposes (.flip modeEnable) ∧
      ¬ (paged codec).FailsHarmlessly (Chip.target 0) Chip.mem (fun _ => 0) true
        (.flip modeEnable) {} { device := modeChip, script := [{}, { ok := false }] } := by
  refine ⟨⟨by decide, by decide, by decide, rfl, by decide⟩, trivial, fun h => ?_⟩
  have hmem := congrFun (congrFun (h (.inr rfl)).2 1) 0x10
  revert hmem
  decide

theorem failsHarmlessly_iff_flip :
    (paged codec).FailsHarmlessly (Chip.target 0) modeView.view (fun _ => 0) true
      (.flip modeEnable) {}
      { device := modeChip, script := [{ ok := false }, { ok := false }] } := by
  have hop : (Op.flip modeEnable).IsRmw := trivial
  rw [failsHarmlessly_iff (paged codec) (Chip.target 0) modeView (fun _ => 0) true hop]
  exact .inr ⟨⟨by decide, rfl⟩, by decide, rfl⟩

end ByteTransport

end Umimmio
