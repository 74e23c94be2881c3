import Umimmio.Transport.Detail

namespace Umimmio
open Effects Bytes
set_option autoImplicit true

structure SpiTransport where
  driver : DriverType := {}
  addressWidth : AddressType := .uint8
  addrEndian : Endian := .big
  dataEndian : Endian := .little
  readBit : Byte := 0x80
  cmdMask : Byte := 0x7F
  writeBit : Byte := 0x00
  native : Endian

namespace SpiTransport

def rawWrite (T : SpiTransport) (regAddr : BitVec T.addressWidth.bits) (data : List Byte) :
    DriverProg Unit := do
  let tx ← DriverProg.writeFrame
    (encodeSpiAddress T.addrEndian T.writeBit T.cmdMask T.addressWidth regAddr) data
  let (ok, _) ← DriverProg.spiTransfer .write tx []
  DriverProg.reportFailure T.driver.voidTransfer ok "SPI write failed"

def rawRead (T : SpiTransport) (regAddr : BitVec T.addressWidth.bits) (data : List Byte) :
    DriverProg (List Byte) := do
  let addrBytes := encodeSpiAddress T.addrEndian T.readBit T.cmdMask T.addressWidth regAddr
  let tx ← DriverProg.span (addrBytes ++ List.replicate maxRegBytes 0)
    (T.addressWidth.size + data.length)
  let rx ← DriverProg.span (List.replicate (T.addressWidth.size + maxRegBytes) 0)
    (T.addressWidth.size + data.length)
  let (ok, rx) ← DriverProg.spiTransfer .read tx rx
  DriverProg.reportFailure T.driver.voidTransfer ok "SPI read failed"
  let rxBuf := DriverProg.bytesOf (T.addressWidth.size + data.length) rx
  DriverProg.memcpyFrom rxBuf T.addressWidth.size data.length (T.addressWidth.size + maxRegBytes)

/-- A read that fits its buffers asks nothing but the transfer. -/
theorem rawRead_eq (T : SpiTransport) (regAddr : BitVec T.addressWidth.bits) {data : List Byte}
    (hd : data.length ≤ maxRegBytes) :
    T.rawRead regAddr data =
      DriverProg.spiTransfer .read
        (encodeSpiAddress T.addrEndian T.readBit T.cmdMask T.addressWidth regAddr ++
          List.replicate data.length 0)
        (List.replicate (T.addressWidth.size + data.length) 0) >>= fun x =>
          DriverProg.reportFailure T.driver.voidTransfer x.1 "SPI read failed" >>= fun _ =>
            pure ((DriverProg.bytesOf (T.addressWidth.size + data.length) x.2).drop
              T.addressWidth.size) := by
  have htx := DriverProg.span_readFrame
    (encodeSpiAddress T.addrEndian T.readBit T.cmdMask T.addressWidth regAddr) hd
  have hrx := DriverProg.span_readFrame (List.replicate T.addressWidth.size 0) hd
  rw [length_encodeSpiAddress] at htx
  rw [List.length_replicate, List.replicate_append_replicate,
    List.replicate_append_replicate] at hrx
  have hcopy : ∀ rx, DriverProg.memcpyFrom
      (DriverProg.bytesOf (T.addressWidth.size + data.length) rx) T.addressWidth.size data.length
        (T.addressWidth.size + maxRegBytes) =
      pure ((DriverProg.bytesOf (T.addressWidth.size + data.length) rx).drop
        T.addressWidth.size) := by
    intro rx
    exact DriverProg.memcpyFrom_eq (DriverProg.length_bytesOf _ _) (Nat.add_le_add_left hd _)
  rw [rawRead, htx, pure_bind, hrx, pure_bind]
  simp only [hcopy]

def adapter (T : SpiTransport) : ByteAdapter Unit where
  addressType := T.addressWidth
  dataEndian := T.dataEndian
  native := T.native
  rawRead regAddr data u := (fun bytes => (bytes, u)) <$> T.rawRead regAddr data
  rawWrite regAddr data u := (fun x => (x, u)) <$> T.rawWrite regAddr data

end SpiTransport

end Umimmio
