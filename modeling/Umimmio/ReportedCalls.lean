import Umimmio.FrameBounds
import Umimmio.OpsTrace

namespace Umimmio
open Effects Bytes
set_option autoImplicit true

variable {r : Register} {δ : Type}

def DriverCmd.InRange : DriverCmd → Prop
  | .onRangeError _ => False
  | _ => True

theorem DriverCmd.Fits.inRange (c : DriverCmd) (h : c.Fits) : c.InRange := by
  cases c with
  | onRangeError msg => exact h
  | _ => trivial

namespace ByteTransport

/-- Register accesses of typed values report no range error. -/
theorem only_regOps (T : ByteTransport) {c : RegCmd r} (hc : c.InRange) (t : T.State) :
    (T.adapter.regOps c t).Only DriverCmd.InRange := by
  cases c with
  | regRead =>
    have hd : ∀ area : Nat → Byte, T.Frames (.rawRead (DriverProg.bytesOf r.valueSize area)) := by
      intro area _
      rw [RawAccess.size, DriverProg.length_bytesOf]
      exact r.valueSize_le
    apply Prog.Only.call trivial
    intro area
    exact ((T.only_rawRead _ (hd area) t).mono DriverCmd.Fits.inRange).bind fun _ => .ret _
  | regWrite value =>
    exact (T.only_rawWrite _ (T.length_payload value) t).mono DriverCmd.Fits.inRange
  | onRangeError msg => exact hc.elim

end ByteTransport

namespace Bus

/-- Every failed driver call has been reported once. -/
def Reported (b : Bus δ) : Prop := b.errors.length = b.calls.countP fun call => !call.ok

variable {b : Bus δ} {D : Target δ}

theorem reported_sent (isVoid : Bool) (site : Site) (tx : List Byte) (msg : String) :
    ((b.sent D isVoid site tx).report (b.outcome isVoid).ok msg).Reported ↔ b.Reported := by
  cases hok : (b.outcome isVoid).ok <;>
    simp [Reported, report, sent, hok, List.countP_append]

theorem reported_queried (isVoid : Bool) (tx : List Byte) (msg : String) :
    ((b.queried isVoid tx).report (b.outcome isVoid).ok msg).Reported ↔ b.Reported := by
  cases hok : (b.outcome isVoid).ok <;>
    simp [Reported, report, queried, hok, List.countP_append]

theorem reported_selected (T : PagedI2cTransport) (page : Byte) (c : PageCache) :
    (T.selected D page c b).Reported ↔ b.Reported := by
  unfold PagedI2cTransport.selected
  split_ifs
  · exact Iff.rfl
  · exact reported_sent _ _ _ _

end Bus

theorem ByteTransport.registers_reported (T : ByteTransport) (D : Target δ) (area : Nat → Byte)
    (c : RegCmd r) (s : T.State × Bus δ) (h : s.2.Reported) :
    (T.registers D area c s).2.2.Reported := by
  cases c with
  | regRead =>
    cases T with
    | i2c T =>
      rw [T.registers_read]
      exact (Bus.reported_queried _ _ _).mpr h
    | spi T =>
      rw [T.registers_read]
      exact (Bus.reported_sent _ _ _ _).mpr h
    | paged T =>
      rw [T.registers_read]
      split_ifs
      · exact (Bus.reported_sent _ _ _ _).mpr h
      · exact (Bus.reported_queried _ _ _).mpr ((Bus.reported_selected _ _ _).mpr h)
  | regWrite value =>
    cases T with
    | i2c T =>
      rw [T.registers_write]
      exact (Bus.reported_sent _ _ _ _).mpr h
    | spi T =>
      rw [T.registers_write]
      exact (Bus.reported_sent _ _ _ _).mpr h
    | paged T =>
      rw [T.registers_write]
      split_ifs
      · exact (Bus.reported_sent _ _ _ _).mpr h
      · exact (Bus.reported_sent _ _ _ _).mpr ((Bus.reported_selected _ _ _).mpr h)
  | onRangeError msg => exact h

end Umimmio
