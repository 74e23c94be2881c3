import Umimmio.Transport.PagedI2c
import Umimmio.Transport.Spi

namespace Umimmio
open Effects Bytes
set_option autoImplicit true

variable {δ : Type}

structure Target (δ : Type) where
  effect : List Byte → δ → δ
  reply : List Byte → δ → Nat → Byte

/-- How a driver call ends. A failed call may still have reached the device, and a failed read
leaves some bytes in the receive span. -/
structure Outcome where
  ok : Bool := true
  latched : Bool := false
  fill : Nat → Byte := fun _ => 0

structure Call (δ : Type) where
  site : Site
  tx : List Byte
  ok : Bool
  device : δ

/-- A bus with one device; the script says how the next driver calls end, successfully after it. The
error policy returns, and its two handlers keep what they are called with. -/
structure Bus (δ : Type) where
  device : δ
  script : List Outcome := []
  calls : List (Call δ) := []
  errors : List String := []
  rangeErrors : List String := []

namespace Bus

/-- How the next call of a driver function ends; one that returns `void` never fails. -/
def outcome (b : Bus δ) (isVoid : Bool) : Outcome := if isVoid then {} else b.script.headD {}

def sent (b : Bus δ) (D : Target δ) (isVoid : Bool) (site : Site) (tx : List Byte) : Bus δ where
  device :=
    if (b.outcome isVoid).ok || (b.outcome isVoid).latched then D.effect tx b.device else b.device
  script := b.script.tail
  calls := b.calls ++ [⟨site, tx, (b.outcome isVoid).ok, b.device⟩]
  errors := b.errors
  rangeErrors := b.rangeErrors

def queried (b : Bus δ) (isVoid : Bool) (tx : List Byte) : Bus δ where
  device := b.device
  script := b.script.tail
  calls := b.calls ++ [⟨.read, tx, (b.outcome isVoid).ok, b.device⟩]
  errors := b.errors
  rangeErrors := b.rangeErrors

def received (b : Bus δ) (D : Target δ) (isVoid : Bool) (tx : List Byte) : Nat → Byte :=
  if (b.outcome isVoid).ok then D.reply tx b.device else (b.outcome isVoid).fill

def report (b : Bus δ) (ok : Bool) (msg : String) : Bus δ :=
  if ok then b else { b with errors := b.errors ++ [msg] }

def reportRange (b : Bus δ) (msg : String) : Bus δ :=
  { b with rangeErrors := b.rangeErrors ++ [msg] }

end Bus

/-- The bus under an error policy that returns; `area` is what uninitialised memory holds. -/
def Target.bus (D : Target δ) (driver : DriverType) (area : Nat → Byte) : DriverHandler (Bus δ)
  | .i2cWrite site _ tx, b =>
    ((b.outcome driver.voidWrite).ok, b.sent D driver.voidWrite site tx)
  | .i2cWriteRead _ tx _, b =>
    (((b.outcome driver.voidWriteRead).ok, b.received D driver.voidWriteRead tx),
      b.queried driver.voidWriteRead tx)
  | .spiTransfer site tx _, b =>
    (((b.outcome driver.voidTransfer).ok, b.received D driver.voidTransfer tx),
      b.sent D driver.voidTransfer site tx)
  | .onTransportError msg, b => ((), b.report false msg)
  | .uninitialized _, b => (area, b)
  | .onRangeError msg, b => ((), b.reportRange msg)
  | .memset _, b => ((), b)
  | .outOfBounds _ _, b => ((), b)

/-- Two buses that differ in the range errors reported, at most. -/
def Bus.SameTraffic (b b' : Bus δ) : Prop := ∃ msgs, b' = { b with rangeErrors := msgs }

theorem Bus.SameTraffic.refl (b : Bus δ) : b.SameTraffic b := ⟨b.rangeErrors, rfl⟩

theorem Bus.SameTraffic.calls_eq {b b' : Bus δ} (h : b.SameTraffic b') : b.calls = b'.calls := by
  obtain ⟨msgs, rfl⟩ := h
  rfl

theorem Bus.SameTraffic.device_eq {b b' : Bus δ} (h : b.SameTraffic b') :
    b.device = b'.device := by
  obtain ⟨msgs, rfl⟩ := h
  rfl

/-- What has been reported of values out of range does not matter to the driver. -/
theorem Target.run_sameTraffic (D : Target δ) (driver : DriverType) (area : Nat → Byte)
    (p : DriverProg α) {b b' : Bus δ} (h : b.SameTraffic b') :
    (p.run (D.bus driver area) b).1 = (p.run (D.bus driver area) b').1 ∧
      (p.run (D.bus driver area) b).2.SameTraffic (p.run (D.bus driver area) b').2 := by
  refine Prog.run_sim (Q := Bus.SameTraffic) (fun c b b' h => ?_) p h
  obtain ⟨msgs, rfl⟩ := h
  cases c <;> exact ⟨rfl, _, rfl⟩

namespace Bus

variable (b : Bus δ) (D : Target δ) (isVoid : Bool)

theorem sent_device_of_ok {b : Bus δ} {D : Target δ} {isVoid : Bool}
    (h : (b.outcome isVoid).ok = true) (site : Site) (tx : List Byte) :
    (b.sent D isVoid site tx).device = D.effect tx b.device := by
  rw [sent, h, Bool.true_or, if_pos rfl]

/-- A call ends as the script allows, or successfully. -/
theorem outcome_of_script {b : Bus δ} {P : Outcome → Prop} (h0 : P {}) (h : ∀ o ∈ b.script, P o)
    (isVoid : Bool) : P (b.outcome isVoid) := by
  unfold outcome
  split_ifs
  · exact h0
  · cases hs : b.script with
    | nil => exact h0
    | cons o script => exact h o (by simp [hs])

theorem void_of_failed (h : (b.outcome isVoid).ok = false) : isVoid = false := by
  cases isVoid with
  | false => rfl
  | true => cases h

@[simp] theorem report_true (msg : String) : b.report true msg = b :=
  rfl

@[simp] theorem report_device (ok : Bool) (msg : String) : (b.report ok msg).device = b.device := by
  cases ok <;> rfl

@[simp] theorem report_calls (ok : Bool) (msg : String) : (b.report ok msg).calls = b.calls := by
  cases ok <;> rfl

@[simp] theorem report_script (ok : Bool) (msg : String) :
    (b.report ok msg).script = b.script := by
  cases ok <;> rfl

theorem run_reportFailure (driver : DriverType) (area : Nat → Byte) (b' : Bus δ) (msg : String) :
    (DriverProg.reportFailure isVoid (b.outcome isVoid).ok msg).run (D.bus driver area) b' =
    ((), b'.report (b.outcome isVoid).ok msg) := by
  cases isVoid with
  | true => rfl
  | false =>
    cases (b.outcome false).ok with
    | true => rfl
    | false => rfl

end Bus

namespace I2cTransport

variable (T : I2cTransport) (D : Target δ) (area : Nat → Byte)

theorem run_rawWrite (regAddr : BitVec T.addressWidth.bits) {data : List Byte}
    (hd : data.length ≤ maxRegBytes) (b : Bus δ) :
    (T.rawWrite regAddr data).run (D.bus T.driver area) b =
      ((), (b.sent D T.driver.voidWrite .write
        (encodeAddress T.addrEndian T.addressWidth regAddr ++ data)).report
          (b.outcome T.driver.voidWrite).ok "I2C write failed") := by
  rw [rawWrite, DriverProg.writeFrame_eq _ hd, pure_bind, Prog.run_bind]
  exact Bus.run_reportFailure b D T.driver.voidWrite T.driver area _ _

theorem run_rawRead (regAddr : BitVec T.addressWidth.bits) (data : List Byte) (b : Bus δ) :
    (T.rawRead regAddr data).run (D.bus T.driver area) b =
      (DriverProg.bytesOf data.length (b.received D T.driver.voidWriteRead
          (encodeAddress T.addrEndian T.addressWidth regAddr)),
        (b.queried T.driver.voidWriteRead
          (encodeAddress T.addrEndian T.addressWidth regAddr)).report
            (b.outcome T.driver.voidWriteRead).ok "I2C read failed") := by
  rw [rawRead, Prog.run_bind, Prog.run_bind, Prog.run_pure]
  exact congrArg (Prod.mk _)
    (congrArg Prod.snd (Bus.run_reportFailure b D T.driver.voidWriteRead T.driver area _ _))

end I2cTransport

namespace SpiTransport

variable (T : SpiTransport) (D : Target δ) (area : Nat → Byte)

theorem run_rawWrite (regAddr : BitVec T.addressWidth.bits) {data : List Byte}
    (hd : data.length ≤ maxRegBytes) (b : Bus δ) :
    (T.rawWrite regAddr data).run (D.bus T.driver area) b =
      ((), (b.sent D T.driver.voidTransfer .write
        (encodeSpiAddress T.addrEndian T.writeBit T.cmdMask T.addressWidth regAddr ++ data)).report
          (b.outcome T.driver.voidTransfer).ok "SPI write failed") := by
  rw [rawWrite, DriverProg.writeFrame_eq _ hd, pure_bind, Prog.run_bind]
  exact Bus.run_reportFailure b D T.driver.voidTransfer T.driver area _ _

def readFrame (regAddr : BitVec T.addressWidth.bits) (n : Nat) : List Byte :=
  encodeSpiAddress T.addrEndian T.readBit T.cmdMask T.addressWidth regAddr ++ List.replicate n 0

theorem run_rawRead (regAddr : BitVec T.addressWidth.bits) {data : List Byte}
    (hd : data.length ≤ maxRegBytes) (b : Bus δ) :
    (T.rawRead regAddr data).run (D.bus T.driver area) b =
      ((DriverProg.bytesOf (T.addressWidth.size + data.length)
          (b.received D T.driver.voidTransfer (T.readFrame regAddr data.length))).drop
            T.addressWidth.size,
        (b.sent D T.driver.voidTransfer .read (T.readFrame regAddr data.length)).report
          (b.outcome T.driver.voidTransfer).ok "SPI read failed") := by
  rw [T.rawRead_eq regAddr hd]
  simp only [Prog.run_bind, Prog.run_pure]
  exact congrArg (Prod.mk _)
    (congrArg Prod.snd (Bus.run_reportFailure b D T.driver.voidTransfer T.driver area _ _))

end SpiTransport

namespace PagedI2cTransport

variable (T : PagedI2cTransport) (D : Target δ) (area : Nat → Byte)

def SelectFails (page : Byte) (c : PageCache) (b : Bus δ) : Prop :=
  ¬ c.Hits page ∧ (b.outcome T.driver.voidWrite).ok = false

instance (page : Byte) (c : PageCache) (b : Bus δ) : Decidable (T.SelectFails page c b) :=
  inferInstanceAs (Decidable (_ ∧ _))

def selectSent (page : Byte) (b : Bus δ) : Bus δ :=
  (b.sent D T.driver.voidWrite .select [T.pageSelectAddr, page]).report
    (b.outcome T.driver.voidWrite).ok "Paged I2C page-select write failed"

theorem outcome_ok_of_selects {T : PagedI2cTransport} {c : PageCache} {b : Bus δ}
    (hf : ¬ T.SelectFails page c b) (hh : ¬ c.Hits page) :
    (b.outcome T.driver.voidWrite).ok = true := by
  by_contra hok
  exact hf ⟨hh, Bool.eq_false_of_not_eq_true hok⟩

/-- The bus when an access whose select does not fail sends its data frame. -/
def selected (page : Byte) (c : PageCache) (b : Bus δ) : Bus δ :=
  if c.Hits page then b else T.selectSent D page b

theorem run_selectPage (regAddr : BitVec 16) (c : PageCache) (b : Bus δ) :
    (T.selectPage regAddr c).run (D.bus T.driver area) b =
      if T.SelectFails (pageOf regAddr) c b then
        ((false, c), T.selectSent D (pageOf regAddr) b)
      else ((true, ⟨pageOf regAddr, true⟩), T.selected D (pageOf regAddr) c b) := by
  by_cases hc : c.Hits (pageOf regAddr)
  · have hf : ¬ T.SelectFails (pageOf regAddr) c b := fun hf => hf.1 hc
    rw [selectPage_hit hc, if_neg hf, selected, if_pos hc, ← hc.eq]
    rfl
  · have hsend : (DriverProg.i2cWrite .select T.deviceAddr
        [T.pageSelectAddr, pageOf regAddr]).run (D.bus T.driver area) b =
          ((b.outcome T.driver.voidWrite).ok, b.sent D T.driver.voidWrite .select
            [T.pageSelectAddr, pageOf regAddr]) := rfl
    rw [selectPage_miss hc, Prog.run_bind, hsend, selected, if_neg hc, selectSent]
    by_cases hf : T.SelectFails (pageOf regAddr) c b
    · have hok := hf.2
      rw [if_pos hf, hok, b.void_of_failed _ hok]
      rfl
    · have hok := outcome_ok_of_selects hf hc
      rw [if_neg hf, hok, if_pos (Bool.or_true _), Bus.report_true]
      rfl

def dataWritten (regAddr : BitVec 16) (data : List Byte) (b : Bus δ) : Bus δ :=
  (b.sent D T.driver.voidWrite .write (inPageOffset regAddr :: data)).report
    (b.outcome T.driver.voidWrite).ok "Paged I2C write failed"

def dataRead (regAddr : BitVec 16) (b : Bus δ) : Bus δ :=
  (b.queried T.driver.voidWriteRead [inPageOffset regAddr]).report
    (b.outcome T.driver.voidWriteRead).ok "Paged I2C read failed"

def bytesRead (regAddr : BitVec 16) (size : Nat) (b : Bus δ) : List Byte :=
  if (b.outcome T.driver.voidWriteRead).ok then
    DriverProg.bytesOf size (D.reply [inPageOffset regAddr] b.device)
  else List.replicate size 0

theorem run_rawWrite (regAddr : BitVec 16) {data : List Byte} (hd : data.length ≤ maxRegBytes)
    (c : PageCache) (b : Bus δ) :
    (T.rawWrite regAddr data c).run (D.bus T.driver area) b =
      if T.SelectFails (pageOf regAddr) c b then
        (((), c), T.selectSent D (pageOf regAddr) b)
      else (((), ⟨pageOf regAddr, true⟩),
        T.dataWritten D regAddr data (T.selected D (pageOf regAddr) c b)) := by
  rw [rawWrite, if_neg (Nat.not_lt.mpr hd)]
  simp only [Prog.run_bind, run_selectPage]
  by_cases hf : T.SelectFails (pageOf regAddr) c b
  · rw [if_pos hf, if_pos hf]
    rfl
  · rw [if_neg hf, if_neg hf]
    simp only [Bool.not_true, Bool.false_eq_true, if_false, DriverProg.writeFrame_eq _ hd,
      pure_bind, Prog.run_bind, Prog.run_pure]
    exact congrArg (Prod.mk _) (congrArg Prod.snd
      (Bus.run_reportFailure _ D T.driver.voidWrite T.driver area _ _))

theorem run_rawWrite_oversize (regAddr : BitVec 16) {data : List Byte}
    (hd : maxRegBytes < data.length) (c : PageCache) (b : Bus δ) :
    (T.rawWrite regAddr data c).run (D.bus T.driver area) b =
      (((), c), b.reportRange "Paged I2C write size exceeds max_reg_bytes") := by
  rw [T.rawWrite_oversize regAddr hd]
  rfl

theorem run_rawRead (regAddr : BitVec 16) (data : List Byte) (c : PageCache) (b : Bus δ) :
    (T.rawRead regAddr data c).run (D.bus T.driver area) b =
      if T.SelectFails (pageOf regAddr) c b then
        ((List.replicate data.length 0, c), T.selectSent D (pageOf regAddr) b)
      else ((T.bytesRead D regAddr data.length (T.selected D (pageOf regAddr) c b),
          ⟨pageOf regAddr, true⟩),
        T.dataRead regAddr (T.selected D (pageOf regAddr) c b)) := by
  rw [rawRead]
  simp only [Prog.run_bind, run_selectPage]
  by_cases hf : T.SelectFails (pageOf regAddr) c b
  · rw [if_pos hf, if_pos hf]
    rfl
  · rw [if_neg hf, if_neg hf]
    generalize T.selected D (pageOf regAddr) c b = b1
    have hquery : (DriverProg.i2cWriteRead T.deviceAddr [inPageOffset regAddr] data).run
        (D.bus T.driver area) b1 =
          (((b1.outcome T.driver.voidWriteRead).ok,
            b1.received D T.driver.voidWriteRead [inPageOffset regAddr]),
          b1.queried T.driver.voidWriteRead [inPageOffset regAddr]) := rfl
    simp only [Bool.not_true, Bool.false_eq_true, if_false, Prog.run_bind, hquery, bytesRead,
      dataRead, Bus.received]
    cases hok : (b1.outcome T.driver.voidWriteRead).ok with
    | true =>
      simp only [Bool.not_true, Bool.and_false, Bool.false_eq_true, if_false, if_true,
        Prog.run_pure, Bus.report_true]
    | false =>
      simp only [b1.void_of_failed _ hok, Bool.not_false, Bool.and_self, if_true, Prog.run_bind,
        Prog.run_pure, Bool.false_eq_true, if_false]
      rfl

end PagedI2cTransport

end Umimmio
