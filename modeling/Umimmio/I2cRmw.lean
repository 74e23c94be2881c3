import Umimmio.TypedBus

namespace Umimmio
open Effects Bytes
set_option autoImplicit true

variable {r : Register} {δ : Type}

/-- A register read is followed by a write of the same register: the address that the read sends
begins the frame of the write. -/
def ReadsThenWrites (calls : List (Call δ)) : Prop :=
  ∃ c d, [c, d].Sublist calls ∧ c.site = .read ∧ d.site = .write ∧ c.tx <+: d.tx

theorem readsThenWrites_sent {b : Bus δ} (D : Target δ) (isVoid isVoid' : Bool)
    (addrBytes data : List Byte) (msg : String) :
    ReadsThenWrites (((b.queried isVoid addrBytes).report ok msg).sent D isVoid' .write
      (addrBytes ++ data)).calls := by
  refine ⟨⟨.read, addrBytes, (b.outcome isVoid).ok, b.device⟩, _,
    (List.singleton_sublist.mpr ?_).append (List.Sublist.refl [_]), rfl, rfl,
    List.prefix_append _ _⟩
  rw [Bus.report_calls]
  exact List.mem_append_right _ (List.mem_singleton.mpr rfl)

theorem Bus.Without.not_readsThenWrites {b : Bus δ} (h : b.Without .read ∨ b.Without .write) :
    ¬ ReadsThenWrites b.calls := by
  rintro ⟨c, d, hs, hc, hd, _⟩
  rcases h with h | h
  · exact h c (hs.subset (by simp)) hc
  · exact h d (hs.subset (by simp)) hd

namespace ByteTransport

def ReadSent (T : ByteTransport) (r : Register) (t : T.State) (b : Bus δ) : Prop :=
  match T, t with
  | .paged T, c => ¬ T.SelectFails (pageOf (T.adapter.regAddr r)) c b
  | _, _ => True

theorem rmw_i2c (T : I2cTransport) (D : Target δ) (area : Nat → Byte) (value : r.RegValueType)
    (t : (i2c T).State) (b : Bus δ) :
    ReadsThenWrites ((i2c T).registers D area (.regWrite value)
      ((i2c T).registers D area (.regRead : RegCmd r) (t, b)).2).2.2.calls := by
  rw [T.registers_write, T.registers_read, Bus.report_calls]
  exact readsThenWrites_sent D _ _ _ _ _

theorem rmw_paged (T : PagedI2cTransport) (D : Target δ) (area : Nat → Byte)
    (value : r.RegValueType) (t : (paged T).State) {b : Bus δ}
    (hs : ¬ T.SelectFails (pageOf (T.adapter.regAddr r)) t b) :
    ReadsThenWrites ((paged T).registers D area (.regWrite value)
      ((paged T).registers D area (.regRead : RegCmd r) (t, b)).2).2.2.calls := by
  rw [PagedI2cTransport.registers_read_sent hs, PagedI2cTransport.registers_write_hit]
  unfold PagedI2cTransport.dataWritten
  rw [Bus.report_calls]
  exact readsThenWrites_sent D _ _ [_] _ _

/-- On the I2C transports an operation does no read-modify-write exactly when it is not one of
those that `RegOps` implements so, or when the page of its read cannot be selected. -/
theorem readsThenWrites_iff (T : ByteTransport) (hT : T.tag = .i2c) (D : Target δ)
    (area : Nat → Byte) (checkPolicy : Bool) (op : Op r) (t : T.State) (device : δ)
    (script : List Outcome) :
    ¬ ReadsThenWrites
        (T.perform D area checkPolicy op t { device := device, script := script }).2.2.calls ↔
      ¬ op.IsRmw ∨ ¬ T.ReadSent r t { device := device, script := script } := by
  rw [calls_perform]
  by_cases hop : op.IsRmw
  · rw [hop.run (T.registers_quiet D area)]
    simp only [quietRegisters]
    cases T with
    | i2c T =>
      refine iff_of_false (not_not.mpr (rmw_i2c T D area _ t _)) ?_
      rintro (h | h)
      · exact h hop
      · exact h trivial
    | spi T => cases hT
    | paged T =>
      by_cases hs : T.SelectFails (pageOf (T.adapter.regAddr r)) t
          { device := device, script := script }
      · refine iff_of_true (Bus.Without.not_readsThenWrites (.inl ?_)) (.inr (not_not.mpr hs))
        apply write_without_read
        rw [PagedI2cTransport.registers_read_failed hs]
        exact Bus.without_selectSent T nofun nofun
      · refine iff_of_false (not_not.mpr (rmw_paged T D area _ t hs)) ?_
        rintro (h | h)
        · exact h hop
        · exact h hs
  · refine iff_of_true (Bus.Without.not_readsThenWrites ?_) (.inl hop)
    rcases Op.run_state_of_not_isRmw (T.registers_quiet D area) hop checkPolicy with h | ⟨w, h⟩
    · right
      rw [h]
      exact T.read_without_write D area _ nofun
    · left
      rw [h]
      exact T.write_without_read D area w _ nofun

def sensor : I2cTransport := { native := .little, deviceAddr := 0x40 }
def sensorTarget : Target Unit := ⟨fun _ _ => (), fun _ _ _ => 0⟩

def sensorControl : Register :=
  .declare ({ allowedTransports := [.i2c] } : Device).toParent 0x01 .bits8

def sensorEnable : Field sensorControl := .bit 0 (by decide)

theorem readsThenWrites_flip :
    (Op.flip sensorEnable).Admitted .i2c ∧ (i2c sensor).Exposes (.flip sensorEnable) ∧
      ReadsThenWrites ((i2c sensor).perform sensorTarget (fun _ => 0) true (.flip sensorEnable) ()
        { device := () }).2.2.calls :=
  ⟨⟨by decide, by decide, by decide, rfl, by decide⟩, trivial, _, _, List.Sublist.refl [_, _],
    rfl, rfl, [_], rfl⟩

theorem readsThenWrites_iff_reset :
    ¬ ReadsThenWrites ((i2c sensor).perform sensorTarget (fun _ => 0) true
      (.reset : Op sensorControl) () { device := () }).2.2.calls :=
  (readsThenWrites_iff (i2c sensor) rfl sensorTarget (fun _ => 0) true .reset () () []).mpr
    (.inl id)

end ByteTransport

end Umimmio
