import Umimmio.Transport.PagedI2c

namespace Umimmio
open Effects Bytes
set_option autoImplicit true

variable {σ : Type}

/-- A bus driver with a state of its own. A read puts bytes into any part of the receive span. -/
structure I2cDriver (σ : Type) where
  write : Byte → List Byte → σ → Bool × σ
  writeRead : Byte → List Byte → List Byte → σ → (Bool × (Nat → Option Byte)) × σ

/-- The caller of a raw read: its buffer, and what the error handler saw in it at each call. -/
structure Caller (σ : Type) where
  driver : σ
  buffer : List Byte
  seen : List (List Byte) := []

def received (buffer : List Byte) (bytes : Nat → Option Byte) : List Byte :=
  buffer.mapIdx fun k b => (bytes k).getD b

/-- The driver and the caller's memory, under an error policy that looks at the buffer. -/
def I2cDriver.handler (V : I2cDriver σ) : DriverHandler (Caller σ)
  | .i2cWrite _ deviceAddr tx, s =>
    let x := V.write deviceAddr tx s.driver
    (x.1, { s with driver := x.2 })
  | .i2cWriteRead deviceAddr tx _, s =>
    let x := V.writeRead deviceAddr tx s.buffer s.driver
    let buffer := received s.buffer x.1.2
    ((x.1.1, fun k => buffer.getD k 0), { s with driver := x.2, buffer := buffer })
  | .memset size, s => ((), { s with buffer := List.replicate size 0 })
  | .onTransportError _, s => ((), { s with seen := s.seen ++ [s.buffer] })
  | .spiTransfer _ _ _, s => ((true, fun _ => 0), s)
  | .uninitialized _, s => (fun _ => 0, s)
  | .onRangeError _, s => ((), s)
  | .outOfBounds _ _, s => ((), s)

def zeros (size : Nat) : List Byte := List.replicate size 0

namespace PagedI2cTransport

variable (T : PagedI2cTransport) (V : I2cDriver σ) (regAddr : BitVec 16) (c : PageCache)

/-- The page select that the access needs is reported to fail. -/
def SelectRejected (d : σ) : Prop :=
  ¬ c.Hits (pageOf regAddr) ∧ T.driver.voidWrite = false ∧
    (V.write T.deviceAddr [T.pageSelectAddr, pageOf regAddr] d).1 = false

/-- The driver when the access sends its data frame. -/
def driverSelected (d : σ) : σ :=
  if c.Hits (pageOf regAddr) then d
  else (V.write T.deviceAddr [T.pageSelectAddr, pageOf regAddr] d).2

def ReadRejected (buffer : List Byte) (d : σ) : Prop :=
  T.driver.voidWriteRead = false ∧
    (V.writeRead T.deviceAddr [inPageOffset regAddr] buffer
      (T.driverSelected V regAddr c d)).1.1 = false

def afterRead (buffer : List Byte) (d : σ) : Caller σ :=
  ((T.rawRead regAddr buffer c).run V.handler { driver := d, buffer := buffer }).2

/-- When the read fails, the handler is called once, sees only zeros, and zeros are left. -/
def ReportsZeros (buffer : List Byte) (d : σ) : Prop :=
  T.SelectRejected V regAddr c d ∨ T.ReadRejected V regAddr c buffer d →
    (T.afterRead V regAddr c buffer d).seen = [zeros buffer.length] ∧
      (T.afterRead V regAddr c buffer d).buffer = zeros buffer.length

variable {T V regAddr c} {buffer : List Byte} {d : σ}

theorem run_select (s : Caller σ) :
    (DriverProg.i2cWrite .select T.deviceAddr [T.pageSelectAddr, pageOf regAddr]).run V.handler s =
      ((V.write T.deviceAddr [T.pageSelectAddr, pageOf regAddr] s.driver).1,
        { s with
          driver := (V.write T.deviceAddr [T.pageSelectAddr, pageOf regAddr] s.driver).2 }) :=
  rfl

/-- A failed select is reported before the zeros are written. -/
theorem afterRead_of_selectRejected (h : T.SelectRejected V regAddr c d) :
    (T.afterRead V regAddr c buffer d).seen = [buffer] ∧
      (T.afterRead V regAddr c buffer d).buffer = zeros buffer.length := by
  obtain ⟨hmiss, hvoid, hok⟩ := h
  rw [afterRead, rawRead, selectPage_miss hmiss, bind_assoc, Prog.run_bind, run_select, hvoid, hok]
  exact ⟨rfl, rfl⟩

theorem run_selectPage_of_accepted (h : ¬ T.SelectRejected V regAddr c d) :
    (T.selectPage regAddr c).run V.handler { driver := d, buffer := buffer } =
      ((true, ⟨pageOf regAddr, true⟩),
        { driver := T.driverSelected V regAddr c d, buffer := buffer }) := by
  by_cases hc : c.Hits (pageOf regAddr)
  · rw [selectPage_hit hc, driverSelected, if_pos hc, ← hc.eq]
    rfl
  · have hok : (T.driver.voidWrite ||
        (V.write T.deviceAddr [T.pageSelectAddr, pageOf regAddr] d).1) = true := by
      by_contra hn
      rw [Bool.not_eq_true, Bool.or_eq_false_iff] at hn
      exact h ⟨hc, hn⟩
    rw [selectPage_miss hc, Prog.run_bind, run_select, if_pos hok, driverSelected, if_neg hc]
    rfl

/-- A failed read is reported after the zeros are written. -/
theorem afterRead_of_readRejected (hs : ¬ T.SelectRejected V regAddr c d)
    (hr : T.ReadRejected V regAddr c buffer d) :
    (T.afterRead V regAddr c buffer d).seen = [zeros buffer.length] ∧
      (T.afterRead V regAddr c buffer d).buffer = zeros buffer.length := by
  obtain ⟨hvoid, hok⟩ := hr
  have hquery : ∀ s : Caller σ, s.driver = T.driverSelected V regAddr c d → s.buffer = buffer →
      ((DriverProg.i2cWriteRead T.deviceAddr [inPageOffset regAddr] buffer).run V.handler s).1.1 =
        false := by
    rintro s hd hb
    subst hb
    rw [← hd] at hok
    exact hok
  rw [afterRead, rawRead, Prog.run_bind, run_selectPage_of_accepted hs]
  simp only [Bool.not_true, Bool.false_eq_true, if_false, Prog.run_bind]
  rw [hquery _ rfl rfl, hvoid]
  exact ⟨rfl, rfl⟩

theorem reportsZeros_of_selectRejected (hs : T.SelectRejected V regAddr c d) :
    T.ReportsZeros V regAddr c buffer d ↔ buffer = zeros buffer.length := by
  have hselect : (T.afterRead V regAddr c buffer d).seen = [buffer] ∧
      (T.afterRead V regAddr c buffer d).buffer = zeros buffer.length :=
    afterRead_of_selectRejected hs
  obtain ⟨hseen, hzeros⟩ := hselect
  constructor
  · intro h
    have hz := (h (.inl hs)).1
    rw [hseen, List.singleton_inj] at hz
    exact hz
  · intro hb _
    rw [hseen]
    exact ⟨congrArg (fun b => [b]) hb, hzeros⟩

theorem reportsZeros_of_accepted (hs : ¬ T.SelectRejected V regAddr c d) :
    T.ReportsZeros V regAddr c buffer d := by
  intro h
  exact afterRead_of_readRejected hs (h.resolve_left hs)

theorem reported_once (h : T.SelectRejected V regAddr c d ∨ T.ReadRejected V regAddr c buffer d) :
    (T.afterRead V regAddr c buffer d).seen.length = 1 ∧
      (T.afterRead V regAddr c buffer d).buffer = zeros buffer.length := by
  by_cases hs : T.SelectRejected V regAddr c d
  · have hselect : (T.afterRead V regAddr c buffer d).seen = [buffer] ∧
        (T.afterRead V regAddr c buffer d).buffer = zeros buffer.length :=
      afterRead_of_selectRejected hs
    obtain ⟨hseen, hzeros⟩ := hselect
    rw [hseen]
    exact ⟨rfl, hzeros⟩
  · obtain ⟨hseen, hzeros⟩ := afterRead_of_readRejected hs (h.resolve_left hs)
    rw [hseen]
    exact ⟨rfl, hzeros⟩

/-- A failed paged read is reported once and leaves zeros, but the handler sees them already there
only if it was not the page select that failed, or if there was nothing to zero. -/
theorem reportsZeros_iff (T : PagedI2cTransport) (V : I2cDriver σ) (regAddr : BitVec 16)
    (c : PageCache) (buffer : List Byte) (d : σ) :
    (T.ReportsZeros V regAddr c buffer d ↔
      ¬ T.SelectRejected V regAddr c d ∨ buffer = zeros buffer.length) ∧
    (T.SelectRejected V regAddr c d ∨ T.ReadRejected V regAddr c buffer d →
      (T.afterRead V regAddr c buffer d).seen.length = 1 ∧
        (T.afterRead V regAddr c buffer d).buffer = zeros buffer.length) := by
  constructor
  · by_cases hs : T.SelectRejected V regAddr c d
    · rw [reportsZeros_of_selectRejected hs]
      exact (or_iff_right fun hn => hn hs).symm
    · exact iff_of_true (reportsZeros_of_accepted hs) (.inl hs)
  · exact reported_once

/-- A driver that does not reach its device. -/
def deadDriver : I2cDriver Unit where
  write _ _ u := (false, u)
  writeRead _ _ _ u := ((false, fun _ => none), u)

def pagedDevice : PagedI2cTransport := { native := .little, deviceAddr := 0x30 }

/-- The handler finds the old byte in the buffer when the page select fails. -/
theorem reportsZeros_fails_select :
    ¬ pagedDevice.ReportsZeros deadDriver 0x0110 {} [0xA5] () := by
  intro h
  have hseen := (h (.inl ⟨by decide, rfl, rfl⟩)).1
  revert hseen
  decide

end PagedI2cTransport

end Umimmio
