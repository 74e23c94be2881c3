import Umimmio.Transport.Detail

namespace Umimmio
open Effects Bytes
set_option autoImplicit true

structure I2cTransport where
  driver : DriverType := {}
  addressWidth : AddressType := .uint8
  addrEndian : Endian := .big
  dataEndian : Endian := .little
  native : Endian
  deviceAddr : Byte

namespace I2cTransport

def rawWrite (T : I2cTransport) (regAddr : BitVec T.addressWidth.bits) (data : List Byte) :
    DriverProg Unit := do
  let frame ← DriverProg.writeFrame (encodeAddress T.addrEndian T.addressWidth regAddr) data
  let ok ← DriverProg.i2cWrite .write T.deviceAddr frame
  DriverProg.reportFailure T.driver.voidWrite ok "I2C write failed"

def rawRead (T : I2cTransport) (regAddr : BitVec T.addressWidth.bits) (data : List Byte) :
    DriverProg (List Byte) := do
  let tx := encodeAddress T.addrEndian T.addressWidth regAddr
  let (ok, rx) ← DriverProg.i2cWriteRead T.deviceAddr tx data
  DriverProg.reportFailure T.driver.voidWriteRead ok "I2C read failed"
  return DriverProg.bytesOf data.length rx

def adapter (T : I2cTransport) : ByteAdapter Unit where
  addressType := T.addressWidth
  dataEndian := T.dataEndian
  native := T.native
  rawRead regAddr data u := (fun bytes => (bytes, u)) <$> T.rawRead regAddr data
  rawWrite regAddr data u := (fun x => (x, u)) <$> T.rawWrite regAddr data

end I2cTransport

/-- `modify` is deleted on the I2C transports; the other operations are inherited. -/
def Op.OnI2c : Op r → Prop
  | .modify _ => False
  | _ => True

end Umimmio
