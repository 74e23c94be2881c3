import Umimmio.Lib.Bytes
import Umimmio.Lib.Prog
import Umimmio.Policy

namespace Umimmio
open Effects Bytes
set_option autoImplicit true

/-- Which functions of a bus driver return `void`, and so cannot report a failure. -/
structure DriverType where
  voidWrite : Bool := false
  voidWriteRead : Bool := false
  voidTransfer : Bool := false
  deriving DecidableEq, Repr

inductive Site
  | select
  | write
  | read
  deriving DecidableEq, Repr

/-- What the byte transports ask of the driver, of the error policy and of the caller's memory. -/
inductive DriverCmd
  | i2cWrite (site : Site) (deviceAddr : Byte) (tx : List Byte)
  | i2cWriteRead (deviceAddr : Byte) (tx rx : List Byte)
  | spiTransfer (site : Site) (tx rx : List Byte)
  | onRangeError (msg : String)
  | onTransportError (msg : String)
  | memset (size : Nat)
  | uninitialized (size : Nat)
  | outOfBounds (used capacity : Nat)

def DriverCmd.Resp : DriverCmd → Type
  | .i2cWrite _ _ _ => Bool
  | .i2cWriteRead _ _ _ => Bool × (Nat → Byte)
  | .spiTransfer _ _ _ => Bool × (Nat → Byte)
  | .uninitialized _ => Nat → Byte
  | .onRangeError _ => Unit
  | .onTransportError _ => Unit
  | .memset _ => Unit
  | .outOfBounds _ _ => Unit

abbrev DriverProg := Prog DriverCmd DriverCmd.Resp

abbrev DriverHandler := Handler DriverCmd DriverCmd.Resp

namespace DriverProg

def i2cWrite (site : Site) (deviceAddr : Byte) (tx : List Byte) : DriverProg Bool :=
  .call (.i2cWrite site deviceAddr tx) .ret

def i2cWriteRead (deviceAddr : Byte) (tx rx : List Byte) : DriverProg (Bool × (Nat → Byte)) :=
  .call (.i2cWriteRead deviceAddr tx rx) .ret

def spiTransfer (site : Site) (tx rx : List Byte) : DriverProg (Bool × (Nat → Byte)) :=
  .call (.spiTransfer site tx rx) .ret

def onRangeError (msg : String) : DriverProg Unit := .call (.onRangeError msg) .ret

def onTransportError (msg : String) : DriverProg Unit := .call (.onTransportError msg) .ret

def outOfBounds (used capacity : Nat) : DriverProg Unit := .call (.outOfBounds used capacity) .ret

/-- The check after a driver call; a function that returns `void` is not checked. -/
def reportFailure (isVoid ok : Bool) (msg : String) : DriverProg Unit :=
  if !isVoid && !ok then onTransportError msg else pure ()

def bytesOf (n : Nat) (area : Nat → Byte) : List Byte := (List.range n).map area

@[simp] theorem length_bytesOf (n : Nat) (area : Nat → Byte) : (bytesOf n area).length = n := by
  rw [bytesOf, List.length_map, List.length_range]

theorem drop_bytesOf (m n : Nat) (area : Nat → Byte) :
    (bytesOf (m + n) area).drop m = bytesOf n fun k => area (m + k) := by
  have hlen : ((List.range m).map area).length = m := by
    rw [List.length_map, List.length_range]
  rw [bytesOf, List.range_add, List.map_append, List.drop_left' hlen, List.map_map]
  rfl

def memset (size : Nat) : DriverProg (List Byte) :=
  .call (.memset size) fun _ => .ret (List.replicate size 0)

/-- A local buffer without an initialiser. -/
def uninitialized (size : Nat) : DriverProg (List Byte) :=
  .call (.uninitialized size) fun area => .ret (bytesOf size area)

def memcpy (buf : List Byte) (offset : Nat) (data : List Byte) : DriverProg (List Byte) := do
  if buf.length < offset + data.length then
    outOfBounds (offset + data.length) buf.length
  return buf.take offset ++ data ++ buf.drop (offset + data.length)

def span (buf : List Byte) (size : Nat) : DriverProg (List Byte) := do
  if buf.length < size then
    outOfBounds size buf.length
  return buf.take size

/-- `memcpy` out of a buffer of the given capacity that starts with `bytes`. -/
def memcpyFrom (bytes : List Byte) (offset size capacity : Nat) : DriverProg (List Byte) := do
  if capacity < offset + size then
    outOfBounds (offset + size) capacity
  return (bytes.drop offset).take size

theorem memcpy_eq (h : offset + data.length ≤ buf.length) :
    memcpy buf offset data = pure (buf.take offset ++ data ++ buf.drop (offset + data.length)) := by
  rw [memcpy, if_neg (Nat.not_lt.mpr h)]

theorem memcpyFrom_eq (hb : bytes.length = offset + size) (h : offset + size ≤ capacity) :
    memcpyFrom bytes offset size capacity = pure (bytes.drop offset) := by
  have hlen : (bytes.drop offset).length = size := by
    rw [List.length_drop, hb, Nat.add_sub_cancel_left]
  rw [memcpyFrom, if_neg (Nat.not_lt.mpr h), List.take_of_length_le (Nat.le_of_eq hlen)]

theorem span_eq (h : size ≤ buf.length) : span buf size = pure (buf.take size) := by
  rw [span, if_neg (Nat.not_lt.mpr h)]

def writeFrame (addrBytes data : List Byte) : DriverProg (List Byte) := do
  let buf ← memcpy (addrBytes ++ List.replicate maxRegBytes 0) addrBytes.length data
  span buf (addrBytes.length + data.length)

theorem writeFrame_eq (addrBytes : List Byte) (h : data.length ≤ maxRegBytes) :
    writeFrame addrBytes data = pure (addrBytes ++ data) := by
  have hc : addrBytes.length + data.length ≤
      (addrBytes ++ List.replicate maxRegBytes (0 : Byte)).length := by
    rw [List.length_append, List.length_replicate]
    omega
  rw [writeFrame, memcpy_eq hc, pure_bind, List.take_left, span_eq]
  · rw [← List.length_append, List.take_left]
  · rw [List.length_append, List.length_append]
    omega

theorem span_readFrame (addrBytes : List Byte) (h : n ≤ maxRegBytes) :
    span (addrBytes ++ List.replicate maxRegBytes 0) (addrBytes.length + n) =
      pure (addrBytes ++ List.replicate n 0) := by
  rw [span_eq, List.take_length_add_append, List.take_replicate, Nat.min_eq_left h]
  rw [List.length_append, List.length_replicate]
  omega

end DriverProg

/-- The command is no bus transaction. -/
def DriverCmd.IsLocal : DriverCmd → Prop
  | .i2cWrite _ _ _ => False
  | .i2cWriteRead _ _ _ => False
  | .spiTransfer _ _ _ => False
  | _ => True

namespace DriverProg

theorem only_outOfBounds_local (used capacity : Nat) :
    (outOfBounds used capacity).Only DriverCmd.IsLocal :=
  .call trivial .ret

theorem only_memcpy_local (buf : List Byte) (offset : Nat) (data : List Byte) :
    (memcpy buf offset data).Only DriverCmd.IsLocal := by
  rw [memcpy]
  split_ifs
  · exact (only_outOfBounds_local _ _).bind fun _ => .ret _
  · exact .ret _

theorem only_span_local (buf : List Byte) (size : Nat) :
    (span buf size).Only DriverCmd.IsLocal := by
  rw [span]
  split_ifs
  · exact (only_outOfBounds_local _ _).bind fun _ => .ret _
  · exact .ret _

theorem only_memcpyFrom_local (bytes : List Byte) (offset size capacity : Nat) :
    (memcpyFrom bytes offset size capacity).Only DriverCmd.IsLocal := by
  rw [memcpyFrom]
  split_ifs
  · exact (only_outOfBounds_local _ _).bind fun _ => .ret _
  · exact .ret _

theorem only_writeFrame_local (addrBytes data : List Byte) :
    (writeFrame addrBytes data).Only DriverCmd.IsLocal :=
  (only_memcpy_local _ _ _).bind fun _ => only_span_local _ _

theorem only_reportFailure_local (isVoid ok : Bool) (msg : String) :
    (reportFailure isVoid ok msg).Only DriverCmd.IsLocal := by
  rw [reportFailure]
  split_ifs
  · exact .call trivial .ret
  · exact .ret _

end DriverProg

end Umimmio
