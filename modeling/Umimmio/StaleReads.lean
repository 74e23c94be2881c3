import Umimmio.FailedReads

namespace Umimmio
open Effects Bytes
set_option autoImplicit true

variable {r : Register} {δ : Type}

/-- The driver leaves the receive span as it was when a transfer fails. -/
def DriverCmd.untouched : (c : DriverCmd) → c.Resp → c.Resp
  | .i2cWriteRead _ _ rx, (ok, area) => (ok, if ok then area else fun k => rx.getD k 0)
  | .spiTransfer _ _ rx, (ok, area) => (ok, if ok then area else fun k => rx.getD k 0)
  | _, x => x

def Target.holding (D : Target δ) (driver : DriverType) (area : Nat → Byte) :
    DriverHandler (Bus δ) :=
  fun c b => (c.untouched (D.bus driver area c b).1, (D.bus driver area c b).2)

namespace ByteTransport

/-- The value of a register read whose receive buffer starts out as `area`. -/
def readValue (T : ByteTransport) (D : Target δ) (area : Nat → Byte) (r : Register) (t : T.State)
    (b : Bus δ) : r.RegValueType :=
  ((T.adapter.regRead r t).run (D.holding T.driver area) b).1.1

/-- The transport overwrites the bytes of a failed read. -/
def ZeroFills : ByteTransport → Prop
  | .i2c _ => False
  | .spi _ => True
  | .paged _ => True

def failedBytes (T : ByteTransport) (area : Nat → Byte) (n : Nat) : List Byte :=
  match T with
  | .i2c _ => DriverProg.bytesOf n area
  | .spi _ => List.replicate n 0
  | .paged _ => List.replicate n 0

theorem readValue_eq (T : ByteTransport) (D : Target δ) (area : Nat → Byte) (t : T.State)
    (b : Bus δ) :
    T.readValue D area r t b =
      ByteAdapter.unpack T.adapter.dataEndian T.adapter.native r.valueBits
        ((T.adapter.rawRead (T.adapter.regAddr r) (DriverProg.bytesOf r.valueSize area) t).run
          (D.holding T.driver area) b).1.1 := by
  rw [readValue, ByteAdapter.regRead, Prog.run_bind, Prog.run_bind]
  rfl

end ByteTransport

theorem DriverProg.bytesOf_getD (data : List Byte) :
    bytesOf data.length (fun k => data.getD k 0) = data := by
  apply List.ext_getElem (length_bytesOf _ _)
  intro k _ hk
  simp only [bytesOf, List.getElem_map, List.getElem_range, List.getD_eq_getElem data 0 hk]

theorem I2cTransport.holding_rawRead (T : I2cTransport) (D : Target δ) (area : Nat → Byte)
    (regAddr : BitVec T.addressWidth.bits) (data : List Byte) {b : Bus δ}
    (hf : (b.outcome T.driver.voidWriteRead).ok = false) :
    ((T.rawRead regAddr data).run (D.holding T.driver area) b).1 = data := by
  have hrx : ((DriverProg.i2cWriteRead T.deviceAddr
      (encodeAddress T.addrEndian T.addressWidth regAddr) data).run
        (D.holding T.driver area) b).1.2 = fun k => data.getD k 0 :=
    if_neg fun hok => Bool.false_ne_true (hf.symm.trans hok)
  rw [rawRead, Prog.run_bind, Prog.run_bind, Prog.run_pure]
  exact (congrArg (DriverProg.bytesOf data.length) hrx).trans (DriverProg.bytesOf_getD data)

theorem SpiTransport.holding_rawRead (T : SpiTransport) (D : Target δ) (area : Nat → Byte)
    (regAddr : BitVec T.addressWidth.bits) {data : List Byte} (hd : data.length ≤ maxRegBytes)
    {b : Bus δ} (hf : (b.outcome T.driver.voidTransfer).ok = false) :
    ((T.rawRead regAddr data).run (D.holding T.driver area) b).1 =
      List.replicate data.length 0 := by
  have hzero := DriverProg.bytesOf_getD (List.replicate (T.addressWidth.size + data.length) 0)
  rw [List.length_replicate] at hzero
  have hspan : ((DriverProg.spiTransfer .read (encodeSpiAddress T.addrEndian T.readBit T.cmdMask
      T.addressWidth regAddr ++ List.replicate data.length 0)
        (List.replicate (T.addressWidth.size + data.length) 0)).run
          (D.holding T.driver area) b).1.2 =
      fun k => (List.replicate (T.addressWidth.size + data.length) 0).getD k 0 :=
    if_neg fun hok => Bool.false_ne_true (hf.symm.trans hok)
  rw [T.rawRead_eq regAddr hd]
  simp only [Prog.run_bind, Prog.run_pure, hspan, hzero, List.drop_replicate,
    Nat.add_sub_cancel_left]

theorem PagedI2cTransport.holding_selectPage (T : PagedI2cTransport) (D : Target δ)
    (area : Nat → Byte) (regAddr : BitVec 16) (c : PageCache) (b : Bus δ) :
    (T.selectPage regAddr c).run (D.holding T.driver area) b =
      (T.selectPage regAddr c).run (D.bus T.driver area) b := by
  unfold selectPage
  by_cases hc : c.Hits (pageOf regAddr)
  · simp only [hc, if_true, Prog.run_pure]
  · have hsend : (DriverProg.i2cWrite .select T.deviceAddr
        [T.pageSelectAddr, pageOf regAddr]).run (D.holding T.driver area) b =
          (DriverProg.i2cWrite .select T.deviceAddr
            [T.pageSelectAddr, pageOf regAddr]).run (D.bus T.driver area) b := rfl
    simp only [hc, if_false, Prog.run_bind, hsend]
    split_ifs <;> rfl

theorem PagedI2cTransport.holding_rawRead (T : PagedI2cTransport) (D : Target δ)
    (area : Nat → Byte) (regAddr : BitVec 16) (data : List Byte) (c : PageCache) {b : Bus δ}
    (hf : T.SelectFails (pageOf regAddr) c b ∨
      ((T.selected D (pageOf regAddr) c b).outcome T.driver.voidWriteRead).ok = false) :
    ((T.rawRead regAddr data c).run (D.holding T.driver area) b).1.1 =
      List.replicate data.length 0 := by
  rw [rawRead]
  simp only [Prog.run_bind, holding_selectPage, run_selectPage]
  by_cases hs : T.SelectFails (pageOf regAddr) c b
  · rw [if_pos hs]
    rfl
  · rw [if_neg hs]
    have hok := hf.resolve_left hs
    generalize T.selected D (pageOf regAddr) c b = b1 at hok
    have hquery : ((DriverProg.i2cWriteRead T.deviceAddr [inPageOffset regAddr] data).run
        (D.holding T.driver area) b1).1.1 = false := hok
    simp only [Bool.not_true, Bool.false_eq_true, if_false, Prog.run_bind, hquery,
      b1.void_of_failed _ hok, Bool.not_false, Bool.and_self, if_true, Prog.run_pure]
    rfl

namespace ByteTransport

theorem readValue_failed (T : ByteTransport) (D : Target δ) (area : Nat → Byte) (t : T.State)
    {b : Bus δ} (hf : T.ReadFails D r t b) :
    T.readValue D area r t b =
      ByteAdapter.unpack T.adapter.dataEndian T.adapter.native r.valueBits
        (T.failedBytes area r.valueSize) := by
  have hlen : (DriverProg.bytesOf r.valueSize area).length = r.valueSize :=
    DriverProg.length_bytesOf _ _
  rw [readValue_eq]
  congr 1
  cases T with
  | i2c T =>
    have hraw := T.holding_rawRead D area (T.adapter.regAddr r)
      (DriverProg.bytesOf r.valueSize area) hf
    exact (congrArg Prod.fst (congrArg Prod.fst (Prog.run_map _ _ _ _))).trans hraw
  | spi T =>
    have hraw := T.holding_rawRead D area (T.adapter.regAddr r)
      (hlen.trans_le r.valueSize_le) hf
    rw [hlen] at hraw
    exact (congrArg Prod.fst (congrArg Prod.fst (Prog.run_map _ _ _ _))).trans hraw
  | paged T =>
    have hraw := T.holding_rawRead D area (T.adapter.regAddr r)
      (DriverProg.bytesOf r.valueSize area) t hf
    rw [hlen] at hraw
    exact hraw

theorem unpack_inj (dataEndian native : Endian) {bs cs : List Byte}
    (hb : bs.length = r.valueSize) (hc : cs.length = r.valueSize) :
    ByteAdapter.unpack dataEndian native r.valueBits bs =
        ByteAdapter.unpack dataEndian native r.valueBits cs ↔ bs = cs := by
  rw [ByteAdapter.unpack_eq _ _ r.eight_dvd_valueBits hb,
    ByteAdapter.unpack_eq _ _ r.eight_dvd_valueBits hc]
  constructor
  · intro h
    rw [← encode_decode r.eight_dvd_valueBits dataEndian hb, h,
      encode_decode r.eight_dvd_valueBits dataEndian hc]
  · exact congrArg _

theorem bytesOf_eq_iff (n : Nat) (area₁ area₂ : Nat → Byte) :
    DriverProg.bytesOf n area₁ = DriverProg.bytesOf n area₂ ↔ ∀ k < n, area₁ k = area₂ k := by
  rw [DriverProg.bytesOf, DriverProg.bytesOf, List.map_inj_left]
  simp only [List.mem_range]

/-- A failed read returns the same value whatever the receive buffer held, exactly when the
transport overwrites the buffer or it held the same bytes. -/
theorem readValue_eq_iff (T : ByteTransport) (D : Target δ) (t : T.State) {b : Bus δ}
    (hf : T.ReadFails D r t b) (area₁ area₂ : Nat → Byte) :
    T.readValue D area₁ r t b = T.readValue D area₂ r t b ↔
      T.ZeroFills ∨ ∀ k < r.valueSize, area₁ k = area₂ k := by
  rw [readValue_failed T D area₁ t hf, readValue_failed T D area₂ t hf]
  cases T with
  | i2c T =>
    have hvalue := unpack_inj T.dataEndian T.native (DriverProg.length_bytesOf r.valueSize area₁)
      (DriverProg.length_bytesOf r.valueSize area₂)
    exact (hvalue.trans (bytesOf_eq_iff r.valueSize area₁ area₂)).trans (or_iff_right id).symm
  | spi T => exact iff_of_true rfl (.inl trivial)
  | paged T => exact iff_of_true rfl (.inl trivial)

def eepromData : Register :=
  .declare ({ allowedTransports := [.i2c] } : Device).toParent 0x01 .bits8

def eeprom : ByteTransport := .i2c { native := .little, deviceAddr := 0x50 }

def eepromChip : Target Unit := ⟨fun _ u => u, fun _ _ _ => 0⟩

/-- The bus does not answer, and the read returns what the stack held. -/
theorem readValue_fails_stale :
    (Op.read : Op eepromData).Admitted .i2c ∧
      eeprom.ReadFails eepromChip eepromData () { device := (), script := [{ ok := false }] } ∧
      eeprom.readValue eepromChip (fun _ => 0xAA) eepromData ()
          { device := (), script := [{ ok := false }] } ≠
        eeprom.readValue eepromChip (fun _ => 0x55) eepromData ()
          { device := (), script := [{ ok := false }] } := by
  refine ⟨⟨by decide, by decide⟩, rfl, ?_⟩
  decide

theorem readValue_eq_iff_eeprom :
    eeprom.readValue eepromChip (fun _ => 0xAA) eepromData ()
        { device := (), script := [{ ok := false }] } =
      eeprom.readValue eepromChip (fun k => if k = 0 then 0xAA else 0x55) eepromData ()
        { device := (), script := [{ ok := false }] } := by
  have hf : eeprom.ReadFails eepromChip eepromData ()
      { device := (), script := [{ ok := false }] } := rfl
  refine (readValue_eq_iff eeprom eepromChip () hf _ _).mpr (.inr ?_)
  intro k hk
  obtain rfl : k = 0 := Nat.lt_one_iff.mp hk
  rfl

end ByteTransport

end Umimmio
