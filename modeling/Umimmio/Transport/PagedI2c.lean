import Umimmio.Transport.I2c

namespace Umimmio
open Effects Bytes
set_option autoImplicit true

structure PagedI2cTransport where
  driver : DriverType := {}
  pageSelectAddr : Byte := 0x00
  native : Endian
  deviceAddr : Byte
  deriving DecidableEq

structure PageCache where
  currentPage : Byte := 0
  pageCacheValid : Bool := false
  deriving DecidableEq, Repr

def pageOf (regAddr : BitVec 16) : Byte := (regAddr >>> 8).setWidth 8

def inPageOffset (regAddr : BitVec 16) : Byte := (regAddr &&& 0xFF#16).setWidth 8

def PageCache.invalidate (c : PageCache) : PageCache := { c with pageCacheValid := false }

/-- The cache claims that the chip is on the page. -/
def PageCache.Hits (c : PageCache) (page : Byte) : Prop :=
  c.pageCacheValid = true ∧ page = c.currentPage

instance (c : PageCache) (page : Byte) : Decidable (c.Hits page) :=
  inferInstanceAs (Decidable (_ ∧ _))

theorem PageCache.Hits.eq {c : PageCache} {page : Byte} (h : c.Hits page) : c = ⟨page, true⟩ := by
  obtain ⟨hvalid, hpage⟩ := h
  rw [hpage, ← hvalid]

namespace PagedI2cTransport

def selectPage (T : PagedI2cTransport) (regAddr : BitVec 16) (c : PageCache) :
    DriverProg (Bool × PageCache) := do
  let page := pageOf regAddr
  if c.Hits page then
    return (true, c)
  let ok ← DriverProg.i2cWrite .select T.deviceAddr [T.pageSelectAddr, page]
  if !T.driver.voidWrite && !ok then
    DriverProg.onTransportError "Paged I2C page-select write failed"
    return (false, c)
  return (true, { currentPage := page, pageCacheValid := true })

theorem selectPage_hit {T : PagedI2cTransport} {c : PageCache} {regAddr : BitVec 16}
    (hc : c.Hits (pageOf regAddr)) : T.selectPage regAddr c = pure (true, c) :=
  if_pos hc

theorem selectPage_miss {T : PagedI2cTransport} {c : PageCache} {regAddr : BitVec 16}
    (hc : ¬ c.Hits (pageOf regAddr)) :
    T.selectPage regAddr c =
      DriverProg.i2cWrite .select T.deviceAddr [T.pageSelectAddr, pageOf regAddr] >>= fun ok =>
        if T.driver.voidWrite || ok then pure (true, ⟨pageOf regAddr, true⟩)
        else DriverProg.onTransportError "Paged I2C page-select write failed" >>= fun _ =>
          pure (false, c) := by
  unfold selectPage
  rw [if_neg hc]
  refine congrArg _ (funext fun ok => ?_)
  cases T.driver.voidWrite <;> cases ok <;> rfl

def rawWrite (T : PagedI2cTransport) (regAddr : BitVec 16) (data : List Byte) (c : PageCache) :
    DriverProg (Unit × PageCache) := do
  if maxRegBytes < data.length then
    DriverProg.onRangeError "Paged I2C write size exceeds max_reg_bytes"
    return ((), c)
  let (selected, c) ← T.selectPage regAddr c
  if !selected then
    return ((), c)
  let frame ← DriverProg.writeFrame [inPageOffset regAddr] data
  let ok ← DriverProg.i2cWrite .write T.deviceAddr frame
  DriverProg.reportFailure T.driver.voidWrite ok "Paged I2C write failed"
  return ((), c)

theorem rawWrite_oversize (T : PagedI2cTransport) (regAddr : BitVec 16) {data : List Byte}
    (hd : maxRegBytes < data.length) (c : PageCache) :
    T.rawWrite regAddr data c =
      (fun _ => ((), c)) <$>
        DriverProg.onRangeError "Paged I2C write size exceeds max_reg_bytes" := by
  rw [rawWrite, if_pos hd]
  rfl

def rawRead (T : PagedI2cTransport) (regAddr : BitVec 16) (data : List Byte) (c : PageCache) :
    DriverProg (List Byte × PageCache) := do
  let (selected, c) ← T.selectPage regAddr c
  if !selected then
    let data ← DriverProg.memset data.length
    return (data, c)
  let (ok, rx) ← DriverProg.i2cWriteRead T.deviceAddr [inPageOffset regAddr] data
  if !T.driver.voidWriteRead && !ok then
    let data ← DriverProg.memset data.length
    DriverProg.onTransportError "Paged I2C read failed"
    return (data, c)
  return (DriverProg.bytesOf data.length rx, c)

/-- Addresses are 16 bits and the data order is little-endian. -/
def adapter (T : PagedI2cTransport) : ByteAdapter PageCache where
  addressType := .uint16
  dataEndian := .little
  native := T.native
  rawRead := T.rawRead
  rawWrite := T.rawWrite

end PagedI2cTransport

end Umimmio
