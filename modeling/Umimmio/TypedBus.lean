import Umimmio.Bus

namespace Umimmio
open Effects Bytes
set_option autoImplicit true

variable {r : Register} {δ τ : Type}

theorem ByteAdapter.run_regRead (A : ByteAdapter τ) (D : Target δ) (driver : DriverType)
    (area : Nat → Byte) (t : τ) (b : Bus δ) :
    (A.regRead r t).run (D.bus driver area) b =
      let x := (A.rawRead (A.regAddr r) (DriverProg.bytesOf r.valueSize area) t).run
        (D.bus driver area) b
      ((unpack A.dataEndian A.native r.valueBits x.1.1, x.1.2), x.2) := by
  rw [regRead, Prog.run_bind, Prog.run_bind]
  rfl

inductive ByteTransport
  | i2c (T : I2cTransport)
  | spi (T : SpiTransport)
  | paged (T : PagedI2cTransport)

namespace ByteTransport

abbrev State : ByteTransport → Type
  | .i2c _ => Unit
  | .spi _ => Unit
  | .paged _ => PageCache

def adapter : (T : ByteTransport) → ByteAdapter T.State
  | .i2c T => T.adapter
  | .spi T => T.adapter
  | .paged T => T.adapter

def driver : ByteTransport → DriverType
  | .i2c T => T.driver
  | .spi T => T.driver
  | .paged T => T.driver

def tag : ByteTransport → TransportTag
  | .i2c _ => .i2c
  | .spi _ => .spi
  | .paged _ => .i2c

/-- The operations a byte transport does not delete. -/
def Exposes (T : ByteTransport) (op : Op r) : Prop :=
  match T with
  | .i2c _ => op.OnI2c
  | .spi _ => True
  | .paged _ => op.OnI2c

/-- Register accesses as the transport performs them on a bus. -/
def registers (T : ByteTransport) (D : Target δ) (area : Nat → Byte) :
    RegHandler r (T.State × Bus δ) :=
  (D.bus T.driver area).through T.adapter.regOps

def perform (T : ByteTransport) (D : Target δ) (area : Nat → Byte) (checkPolicy : Bool) (op : Op r)
    (t : T.State) (b : Bus δ) : OpResult × T.State × Bus δ :=
  let x := (T.adapter.run checkPolicy op t).run (D.bus T.driver area) b
  (x.1.1, x.1.2, x.2)

variable (T : ByteTransport) (D : Target δ) (area : Nat → Byte)

theorem perform_eq (checkPolicy : Bool) (op : Op r) (t : T.State) (b : Bus δ) :
    T.perform D area checkPolicy op t b =
      (op.prog checkPolicy).run (T.registers D area) (t, b) := by
  rw [perform, ByteAdapter.run, Prog.run_translate]
  rfl

/-- The register accesses alone: reports of range errors are dropped. -/
def quietRegisters : RegHandler r (T.State × Bus δ)
  | .regRead, s => T.registers D area .regRead s
  | .regWrite value, s => T.registers D area (.regWrite value) s
  | .onRangeError _, s => ((), s)

/-- Without its reports an operation does the same on the bus. -/
theorem perform_quiet (checkPolicy : Bool) (op : Op r) (t : T.State) (b : Bus δ) :
    let x := T.perform D area checkPolicy op t b
    let y := (op.prog checkPolicy).run (T.quietRegisters D area) (t, b)
    x.1 = y.1 ∧ x.2.1 = y.2.1 ∧ x.2.2.SameTraffic y.2.2 := by
  intro x y
  have hx : x = (op.prog checkPolicy).run (T.registers D area) (t, b) :=
    T.perform_eq D area checkPolicy op t b
  rw [hx]
  refine Prog.run_sim (Q := fun (s s' : T.State × Bus δ) => s.1 = s'.1 ∧ s.2.SameTraffic s'.2)
    (fun c s s' h => ?_) (op.prog checkPolicy) ⟨rfl, .refl b⟩
  obtain ⟨t, b⟩ := s
  obtain ⟨t', b'⟩ := s'
  obtain ⟨rfl, hb⟩ := h
  obtain ⟨hresult, hnext⟩ := D.run_sameTraffic T.driver area (T.adapter.regOps c t) hb
  have hvalue := congrArg Prod.fst hresult
  have hstate := congrArg Prod.snd hresult
  cases c with
  | regRead => exact ⟨hvalue, hstate, hnext⟩
  | regWrite value => exact ⟨rfl, hstate, hnext⟩
  | onRangeError msg =>
    obtain ⟨msgs, rfl⟩ := hb
    exact ⟨rfl, rfl, _, rfl⟩

theorem registers_quiet (msg : String) (s : T.State × Bus δ) :
    (T.quietRegisters (r := r) D area (.onRangeError msg) s).2 = s :=
  rfl

theorem calls_perform (checkPolicy : Bool) (op : Op r) (t : T.State) (b : Bus δ) :
    (T.perform D area checkPolicy op t b).2.2.calls =
      ((op.prog checkPolicy).run (T.quietRegisters D area) (t, b)).2.2.calls :=
  (T.perform_quiet D area checkPolicy op t b).2.2.calls_eq

def payload (T : ByteTransport) (value : r.RegValueType) : List Byte :=
  ByteAdapter.pack T.adapter.dataEndian T.adapter.native value

theorem length_payload (value : r.RegValueType) :
    (T.payload value).length ≤ maxRegBytes := by
  rw [payload, ByteAdapter.length_pack]
  exact r.valueSize_le

end ByteTransport

namespace I2cTransport

variable (T : I2cTransport) (D : Target δ) (area : Nat → Byte)

def addrBytes (T : I2cTransport) (r : Register) : List Byte :=
  encodeAddress T.addrEndian T.addressWidth (T.adapter.regAddr r)

theorem registers_read (s : (ByteTransport.i2c T).State × Bus δ) :
    (ByteTransport.i2c T).registers D area (.regRead : RegCmd r) s =
      (ByteAdapter.unpack T.dataEndian T.native r.valueBits
          (DriverProg.bytesOf r.valueSize (s.2.received D T.driver.voidWriteRead (T.addrBytes r))),
        s.1, (s.2.queried T.driver.voidWriteRead (T.addrBytes r)).report
          (s.2.outcome T.driver.voidWriteRead).ok "I2C read failed") := by
  have hread := T.adapter.run_regRead (r := r) D T.driver area () s.2
  simp only [adapter, Prog.run_map, run_rawRead, DriverProg.length_bytesOf] at hread
  exact congrArg (fun x => (x.1.1, x.1.2, x.2)) hread

theorem registers_write (value : r.RegValueType) (s : (ByteTransport.i2c T).State × Bus δ) :
    ((ByteTransport.i2c T).registers D area (.regWrite value) s).2 =
      (s.1, (s.2.sent D T.driver.voidWrite .write
        (T.addrBytes r ++ (ByteTransport.i2c T).payload value)).report
          (s.2.outcome T.driver.voidWrite).ok "I2C write failed") := by
  have hmap := Prog.run_map (D.bus T.driver area)
    (T.rawWrite (T.adapter.regAddr r) ((ByteTransport.i2c T).payload value)) (fun x => (x, ())) s.2
  have hwrite := T.run_rawWrite D area (T.adapter.regAddr r)
    ((ByteTransport.i2c T).length_payload value) s.2
  have hrun := hmap.trans (congrArg (fun x => ((x.1, ()), x.2)) hwrite)
  exact congrArg (fun x => (x.1.2, x.2)) hrun

end I2cTransport

namespace SpiTransport

variable (T : SpiTransport) (D : Target δ) (area : Nat → Byte)

def writeFrame (T : SpiTransport) (value : r.RegValueType) : List Byte :=
  encodeSpiAddress T.addrEndian T.writeBit T.cmdMask T.addressWidth (T.adapter.regAddr r) ++
    (ByteTransport.spi T).payload value

theorem registers_read (s : (ByteTransport.spi T).State × Bus δ) :
    (ByteTransport.spi T).registers D area (.regRead : RegCmd r) s =
      (ByteAdapter.unpack T.dataEndian T.native r.valueBits
          ((DriverProg.bytesOf (T.addressWidth.size + r.valueSize)
            (s.2.received D T.driver.voidTransfer
              (T.readFrame (T.adapter.regAddr r) r.valueSize))).drop T.addressWidth.size),
        s.1, (s.2.sent D T.driver.voidTransfer .read
          (T.readFrame (T.adapter.regAddr r) r.valueSize)).report
            (s.2.outcome T.driver.voidTransfer).ok "SPI read failed") := by
  have hlen : (DriverProg.bytesOf r.valueSize area).length ≤ maxRegBytes := by
    rw [DriverProg.length_bytesOf]
    exact r.valueSize_le
  have hread := T.adapter.run_regRead (r := r) D T.driver area () s.2
  simp only [adapter, Prog.run_map, run_rawRead T D area _ hlen, DriverProg.length_bytesOf]
    at hread
  exact congrArg (fun x => (x.1.1, x.1.2, x.2)) hread

theorem registers_write (value : r.RegValueType) (s : (ByteTransport.spi T).State × Bus δ) :
    ((ByteTransport.spi T).registers D area (.regWrite value) s).2 =
      (s.1, (s.2.sent D T.driver.voidTransfer .write (T.writeFrame value)).report
        (s.2.outcome T.driver.voidTransfer).ok "SPI write failed") := by
  have hmap := Prog.run_map (D.bus T.driver area)
    (T.rawWrite (T.adapter.regAddr r) ((ByteTransport.spi T).payload value)) (fun x => (x, ())) s.2
  have hwrite := T.run_rawWrite D area (T.adapter.regAddr r)
    ((ByteTransport.spi T).length_payload value) s.2
  have hrun := hmap.trans (congrArg (fun x => ((x.1, ()), x.2)) hwrite)
  exact congrArg (fun x => (x.1.2, x.2)) hrun

end SpiTransport

namespace PagedI2cTransport

variable (T : PagedI2cTransport) (D : Target δ) (area : Nat → Byte)

theorem registers_read (s : (ByteTransport.paged T).State × Bus δ) :
    ((ByteTransport.paged T).registers D area (.regRead : RegCmd r) s).2 =
      if T.SelectFails (pageOf (T.adapter.regAddr r)) s.1 s.2 then
        (s.1, T.selectSent D (pageOf (T.adapter.regAddr r)) s.2)
      else (⟨pageOf (T.adapter.regAddr r), true⟩,
        T.dataRead (T.adapter.regAddr r)
          (T.selected D (pageOf (T.adapter.regAddr r)) s.1 s.2)) := by
  have hread := T.adapter.run_regRead (r := r) D T.driver area s.1 s.2
  have hraw : (T.adapter.rawRead (T.adapter.regAddr r)
      (DriverProg.bytesOf r.valueSize area) s.1).run (D.bus T.driver area) s.2 = _ :=
    T.run_rawRead D area (T.adapter.regAddr r) (DriverProg.bytesOf r.valueSize area) s.1 s.2
  rw [hraw] at hread
  have hstate := congrArg (fun x => (x.1.2, x.2)) hread
  refine hstate.trans ?_
  split_ifs <;> rfl

theorem registers_write (value : r.RegValueType) (s : (ByteTransport.paged T).State × Bus δ) :
    ((ByteTransport.paged T).registers D area (.regWrite value) s).2 =
      if T.SelectFails (pageOf (T.adapter.regAddr r)) s.1 s.2 then
        (s.1, T.selectSent D (pageOf (T.adapter.regAddr r)) s.2)
      else (⟨pageOf (T.adapter.regAddr r), true⟩,
        T.dataWritten D (T.adapter.regAddr r) ((ByteTransport.paged T).payload value)
          (T.selected D (pageOf (T.adapter.regAddr r)) s.1 s.2)) := by
  have hwrite := T.run_rawWrite D area (T.adapter.regAddr r)
    ((ByteTransport.paged T).length_payload value) s.1 s.2
  have hstate := congrArg (fun x => (x.1.2, x.2)) hwrite
  refine hstate.trans ?_
  split_ifs <;> rfl

variable {T D area} {s : (ByteTransport.paged T).State × Bus δ}

theorem registers_read_failed (hf : T.SelectFails (pageOf (T.adapter.regAddr r)) s.1 s.2) :
    ((ByteTransport.paged T).registers D area (.regRead : RegCmd r) s).2 =
      (s.1, T.selectSent D (pageOf (T.adapter.regAddr r)) s.2) := by
  rw [registers_read, if_pos hf]

theorem registers_read_sent (hf : ¬ T.SelectFails (pageOf (T.adapter.regAddr r)) s.1 s.2) :
    ((ByteTransport.paged T).registers D area (.regRead : RegCmd r) s).2 =
      (⟨pageOf (T.adapter.regAddr r), true⟩,
        T.dataRead (T.adapter.regAddr r)
          (T.selected D (pageOf (T.adapter.regAddr r)) s.1 s.2)) := by
  rw [registers_read, if_neg hf]

/-- A write to the page that the cache names needs no select. -/
theorem registers_write_hit (value : r.RegValueType) (b : Bus δ) :
    ((ByteTransport.paged T).registers D area (.regWrite value)
        (⟨pageOf (T.adapter.regAddr r), true⟩, b)).2 =
      (⟨pageOf (T.adapter.regAddr r), true⟩,
        T.dataWritten D (T.adapter.regAddr r) ((ByteTransport.paged T).payload value) b) := by
  have hhit : PageCache.Hits ⟨pageOf (T.adapter.regAddr r), true⟩
      (pageOf (T.adapter.regAddr r)) := ⟨rfl, rfl⟩
  rw [registers_write, if_neg fun h => h.1 hhit, selected, if_pos hhit]

end PagedI2cTransport

def Bus.Without (b : Bus δ) (site : Site) : Prop := ∀ call ∈ b.calls, call.site ≠ site

namespace Bus

variable {b : Bus δ} {D : Target δ}

theorem SameTraffic.without_iff {b' : Bus δ} (h : b.SameTraffic b') :
    b.Without site ↔ b'.Without site := by
  rw [Without, h.calls_eq, Without]

@[simp] theorem without_report (ok : Bool) (msg : String) (site : Site) :
    (b.report ok msg).Without site ↔ b.Without site := by
  rw [Without, report_calls, Without]

@[simp] theorem without_sent (isVoid : Bool) (site site' : Site) (tx : List Byte) :
    (b.sent D isVoid site' tx).Without site ↔ b.Without site ∧ site' ≠ site := by
  simp only [Without, sent, List.forall_mem_append, List.forall_mem_singleton]

@[simp] theorem without_queried (isVoid : Bool) (site : Site) (tx : List Byte) :
    (b.queried isVoid tx).Without site ↔ b.Without site ∧ .read ≠ site := by
  simp only [Without, queried, List.forall_mem_append, List.forall_mem_singleton]

theorem without_selectSent (T : PagedI2cTransport) (h : b.Without site) (hs : .select ≠ site) :
    (T.selectSent D page b).Without site := by
  rw [PagedI2cTransport.selectSent, without_report, without_sent]
  exact ⟨h, hs⟩

theorem without_dataRead (T : PagedI2cTransport) (h : b.Without site) (hs : .read ≠ site) :
    (T.dataRead regAddr b).Without site := by
  rw [PagedI2cTransport.dataRead, without_report, without_queried]
  exact ⟨h, hs⟩

theorem without_dataWritten (T : PagedI2cTransport) :
    (T.dataWritten D regAddr data b).Without site ↔ b.Without site ∧ .write ≠ site := by
  rw [PagedI2cTransport.dataWritten, without_report, without_sent]

theorem without_selected {T : PagedI2cTransport} (h : b.Without site) (hs : .select ≠ site) :
    (T.selected D page c b).Without site := by
  unfold PagedI2cTransport.selected
  split_ifs
  · exact h
  · exact without_selectSent T h hs

end Bus

namespace ByteTransport

variable (T : ByteTransport) (D : Target δ) (area : Nat → Byte)

theorem read_without_write (s : T.State × Bus δ) (h : s.2.Without .write) :
    (T.registers D area (.regRead : RegCmd r) s).2.2.Without .write := by
  cases T with
  | i2c T =>
    rw [T.registers_read, Bus.without_report, Bus.without_queried]
    exact ⟨h, nofun⟩
  | spi T =>
    rw [T.registers_read, Bus.without_report, Bus.without_sent]
    exact ⟨h, nofun⟩
  | paged T =>
    rw [T.registers_read]
    split_ifs
    · exact Bus.without_selectSent T h nofun
    · exact Bus.without_dataRead T (Bus.without_selected h nofun) nofun

theorem write_without_read (value : r.RegValueType) (s : T.State × Bus δ)
    (h : s.2.Without .read) : (T.registers D area (.regWrite value) s).2.2.Without .read := by
  cases T with
  | i2c T =>
    rw [T.registers_write, Bus.without_report, Bus.without_sent]
    exact ⟨h, nofun⟩
  | spi T =>
    rw [T.registers_write, Bus.without_report, Bus.without_sent]
    exact ⟨h, nofun⟩
  | paged T =>
    rw [T.registers_write]
    split_ifs
    · exact Bus.without_selectSent T h nofun
    · exact (Bus.without_dataWritten T).mpr ⟨Bus.without_selected h nofun, nofun⟩

end ByteTransport

end Umimmio
