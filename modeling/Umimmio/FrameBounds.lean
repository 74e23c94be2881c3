import Umimmio.Lib.Trace
import Umimmio.TypedBus

namespace Umimmio
open Effects Bytes
set_option autoImplicit true

variable {σ : Type}

/-- The command is not an access outside a buffer. -/
def DriverCmd.InBounds : DriverCmd → Prop
  | .outOfBounds _ _ => False
  | _ => True

/-- A command of an access whose size fits the transport. -/
def DriverCmd.Fits : DriverCmd → Prop
  | .onRangeError _ => False
  | .outOfBounds _ _ => False
  | _ => True

theorem DriverCmd.Fits.inBounds (c : DriverCmd) (h : c.Fits) : c.InBounds := by
  cases c with
  | outOfBounds used capacity => exact h
  | _ => trivial

namespace DriverProg

theorem only_reportFailure (isVoid ok : Bool) (msg : String) :
    (reportFailure isVoid ok msg).Only DriverCmd.Fits := by
  rw [reportFailure]
  split_ifs
  · exact .call trivial fun _ => .ret _
  · exact .ret _

/-- The first command is an access outside a buffer. -/
def Overruns (p : DriverProg α) : Prop :=
  ∃ used capacity next, p = .call (.outOfBounds used capacity) next

theorem Overruns.bind {p : DriverProg α} (h : Overruns p) (f : α → DriverProg β) :
    Overruns (p >>= f) := by
  obtain ⟨used, capacity, next, rfl⟩ := h
  exact ⟨used, capacity, fun x => next x >>= f, rfl⟩

theorem Overruns.map {p : DriverProg α} (h : Overruns p) (f : α → β) : Overruns (f <$> p) := by
  rw [map_eq_pure_bind]
  exact h.bind _

theorem Overruns.not_inBounds {p : DriverProg α} (hp : Overruns p) (h : DriverHandler σ) (s : σ) :
    ¬ ∀ c ∈ p.commands h s, c.InBounds := by
  obtain ⟨used, capacity, next, rfl⟩ := hp
  intro hin
  exact hin (.outOfBounds used capacity) List.mem_cons_self

theorem overruns_span {buf : List Byte} {size : Nat} (h : buf.length < size) :
    Overruns (span buf size) := by
  rw [span, if_pos h]
  exact ⟨_, _, _, rfl⟩

theorem overruns_writeFrame (addrBytes : List Byte) {data : List Byte}
    (hd : maxRegBytes < data.length) : Overruns (writeFrame addrBytes data) := by
  have hbuf : (addrBytes ++ List.replicate maxRegBytes (0 : Byte)).length <
      addrBytes.length + data.length := by
    rw [List.length_append, List.length_replicate]
    exact Nat.add_lt_add_left hd _
  have hcopy : Overruns (memcpy (addrBytes ++ List.replicate maxRegBytes 0) addrBytes.length
      data) := by
    rw [memcpy, if_pos hbuf]
    exact ⟨_, _, _, rfl⟩
  exact hcopy.bind _

end DriverProg

namespace I2cTransport

variable (T : I2cTransport) (regAddr : BitVec T.addressWidth.bits)

theorem only_rawWrite {data : List Byte} (hd : data.length ≤ maxRegBytes) :
    (T.rawWrite regAddr data).Only DriverCmd.Fits := by
  rw [rawWrite, DriverProg.writeFrame_eq _ hd, pure_bind]
  exact .call trivial fun _ => DriverProg.only_reportFailure _ _ _

theorem only_rawRead (data : List Byte) : (T.rawRead regAddr data).Only DriverCmd.Fits :=
  .call trivial fun _ => (DriverProg.only_reportFailure _ _ _).bind fun _ => .ret _

theorem overruns_rawWrite {data : List Byte} (hd : maxRegBytes < data.length) :
    DriverProg.Overruns (T.rawWrite regAddr data) :=
  (DriverProg.overruns_writeFrame _ hd).bind _

end I2cTransport

namespace SpiTransport

variable (T : SpiTransport) (regAddr : BitVec T.addressWidth.bits)

theorem only_rawWrite {data : List Byte} (hd : data.length ≤ maxRegBytes) :
    (T.rawWrite regAddr data).Only DriverCmd.Fits := by
  rw [rawWrite, DriverProg.writeFrame_eq _ hd, pure_bind]
  exact .call trivial fun _ => DriverProg.only_reportFailure _ _ _

theorem only_rawRead {data : List Byte} (hd : data.length ≤ maxRegBytes) :
    (T.rawRead regAddr data).Only DriverCmd.Fits := by
  rw [T.rawRead_eq regAddr hd]
  exact .call trivial fun _ => (DriverProg.only_reportFailure _ _ _).bind fun _ => .ret _

theorem overruns_rawWrite {data : List Byte} (hd : maxRegBytes < data.length) :
    DriverProg.Overruns (T.rawWrite regAddr data) :=
  (DriverProg.overruns_writeFrame _ hd).bind _

theorem overruns_rawRead {data : List Byte} (hd : maxRegBytes < data.length) :
    DriverProg.Overruns (T.rawRead regAddr data) := by
  have hbuf : (encodeSpiAddress T.addrEndian T.readBit T.cmdMask T.addressWidth regAddr ++
      List.replicate maxRegBytes 0).length < T.addressWidth.size + data.length := by
    rw [List.length_append, length_encodeSpiAddress, List.length_replicate]
    exact Nat.add_lt_add_left hd _
  exact (DriverProg.overruns_span hbuf).bind _

end SpiTransport

namespace PagedI2cTransport

variable (T : PagedI2cTransport) (regAddr : BitVec 16)

theorem only_selectPage (c : PageCache) : (T.selectPage regAddr c).Only DriverCmd.Fits := by
  by_cases hc : c.Hits (pageOf regAddr)
  · rw [selectPage_hit hc]
    exact .ret _
  · rw [selectPage_miss hc]
    apply Prog.Only.call trivial
    intro ok
    change Prog.Only _ (if _ then _ else _)
    split_ifs
    · exact .ret _
    · exact .call trivial fun _ => .ret _

theorem only_rawRead (data : List Byte) (c : PageCache) :
    (T.rawRead regAddr data c).Only DriverCmd.Fits := by
  apply (T.only_selectPage regAddr c).bind
  rintro ⟨selected, c⟩
  dsimp only
  split_ifs
  · exact .call trivial fun _ => .ret _
  · apply Prog.Only.call trivial
    rintro ⟨ok, rx⟩
    change Prog.Only _ (if _ then _ else _)
    split_ifs
    · exact .call trivial fun _ => .call trivial fun _ => .ret _
    · exact .ret _

theorem only_rawWrite {data : List Byte} (hd : data.length ≤ maxRegBytes) (c : PageCache) :
    (T.rawWrite regAddr data c).Only DriverCmd.Fits := by
  rw [rawWrite, if_neg (Nat.not_lt.mpr hd)]
  apply (T.only_selectPage regAddr c).bind
  rintro ⟨selected, c⟩
  dsimp only
  split_ifs
  · exact .ret _
  · rw [DriverProg.writeFrame_eq _ hd, pure_bind]
    exact .call trivial fun _ => (DriverProg.only_reportFailure _ _ _).bind fun _ => .ret _

end PagedI2cTransport

/-- A call of a raw entry point; a read gets the bytes that are in the caller's memory. -/
inductive RawAccess
  | rawWrite (data : List Byte)
  | rawRead (data : List Byte)

def RawAccess.size : RawAccess → Nat
  | .rawWrite data => data.length
  | .rawRead data => data.length

namespace ByteTransport

/-- A raw access, and the state that it leaves the transport in. -/
def raw (T : ByteTransport) (regAddr : BitVec T.adapter.addressType.bits) :
    RawAccess → T.State → DriverProg T.State
  | .rawWrite data, t => Prod.snd <$> T.adapter.rawWrite regAddr data t
  | .rawRead data, t => Prod.snd <$> T.adapter.rawRead regAddr data t

/-- The access copies its data through a buffer of the transport. -/
def Buffers (T : ByteTransport) : RawAccess → Prop
  | .rawWrite _ => True
  | .rawRead _ =>
    match T with
    | .i2c _ => False
    | .spi _ => True
    | .paged _ => False

/-- The transport has room for the data of the access. -/
def Frames (T : ByteTransport) (a : RawAccess) : Prop := T.Buffers a → a.size ≤ maxRegBytes

theorem not_frames_iff (T : ByteTransport) (a : RawAccess) :
    ¬ T.Frames a ↔ T.Buffers a ∧ maxRegBytes < a.size := by
  rw [Frames, Classical.not_imp, Nat.not_le]

/-- The access stays inside the buffers, and one that has no room does nothing but report it. -/
structure StaysInBuffers (T : ByteTransport) (h : DriverHandler σ)
    (regAddr : BitVec T.adapter.addressType.bits) (a : RawAccess) (t : T.State) (s : σ) :
    Prop where
  inside : ∀ c ∈ (T.raw regAddr a t).commands h s, c.InBounds
  rejects : ¬ T.Frames a → ∃ msg, (T.raw regAddr a t).commands h s = [.onRangeError msg] ∧
    ((T.raw regAddr a t).run h s).1 = t

/-- The transport checks the size of a write. -/
def ChecksSize : ByteTransport → Prop
  | .i2c _ => False
  | .spi _ => False
  | .paged _ => True

theorem only_rawRead (T : ByteTransport) (regAddr : BitVec T.adapter.addressType.bits)
    {data : List Byte} (hd : T.Frames (.rawRead data)) (t : T.State) :
    (T.adapter.rawRead regAddr data t).Only DriverCmd.Fits := by
  cases T with
  | i2c T => exact (T.only_rawRead regAddr data).map _
  | spi T => exact (T.only_rawRead regAddr (hd trivial)).map _
  | paged T => exact T.only_rawRead regAddr data t

theorem only_rawWrite (T : ByteTransport) (regAddr : BitVec T.adapter.addressType.bits)
    {data : List Byte} (hd : data.length ≤ maxRegBytes) (t : T.State) :
    (T.adapter.rawWrite regAddr data t).Only DriverCmd.Fits := by
  cases T with
  | i2c T => exact (T.only_rawWrite regAddr hd).map _
  | spi T => exact (T.only_rawWrite regAddr hd).map _
  | paged T => exact T.only_rawWrite regAddr hd t

theorem only_raw (T : ByteTransport) (regAddr : BitVec T.adapter.addressType.bits)
    {a : RawAccess} (ha : T.Frames a) (t : T.State) :
    (T.raw regAddr a t).Only DriverCmd.Fits := by
  cases a with
  | rawWrite data => exact (T.only_rawWrite regAddr (ha trivial) t).map _
  | rawRead data => exact (T.only_rawRead regAddr ha t).map _

/-- A transport that checks no size overruns its buffer. -/
theorem overruns_raw (T : ByteTransport) (regAddr : BitVec T.adapter.addressType.bits)
    {a : RawAccess} (hT : ¬ T.ChecksSize) (ha : ¬ T.Frames a) (t : T.State) :
    DriverProg.Overruns (T.raw regAddr a t) := by
  obtain ⟨hbuffers, hsize⟩ := (T.not_frames_iff a).mp ha
  cases a with
  | rawWrite data =>
    cases T with
    | i2c T => exact ((T.overruns_rawWrite regAddr hsize).map _).map _
    | spi T => exact ((T.overruns_rawWrite regAddr hsize).map _).map _
    | paged T => exact absurd trivial hT
  | rawRead data =>
    cases T with
    | i2c T => exact hbuffers.elim
    | spi T => exact ((T.overruns_rawRead regAddr hsize).map _).map _
    | paged T => exact hbuffers.elim

/-- A checked write of too many bytes reports the size and does nothing else. -/
theorem staysInBuffers_checked (T : PagedI2cTransport) (h : DriverHandler σ)
    (regAddr : BitVec 16) {a : RawAccess} (ha : ¬ (paged T).Frames a) (c : PageCache) (s : σ) :
    (paged T).StaysInBuffers h regAddr a c s := by
  obtain ⟨hbuffers, hsize⟩ := ((paged T).not_frames_iff a).mp ha
  cases a with
  | rawRead data => exact hbuffers.elim
  | rawWrite data =>
    have hraw : (paged T).raw regAddr (.rawWrite data) c =
        Prod.snd <$> (fun _ => ((), c)) <$>
          DriverProg.onRangeError "Paged I2C write size exceeds max_reg_bytes" :=
      congrArg (fun p => Prod.snd <$> p) (T.rawWrite_oversize regAddr hsize c)
    constructor
    · rw [hraw]
      intro cmd hcmd
      obtain rfl := List.mem_singleton.mp hcmd
      trivial
    · intro _
      rw [hraw]
      exact ⟨_, rfl, rfl⟩

/-- A raw access stays inside the buffers of its transport, or is rejected by it, exactly when its
data fits or the transport checks the size: `raw_write` of the plain I2C and SPI transports and
`raw_read` of the SPI transport overrun their buffers. -/
theorem staysInBuffers_iff (T : ByteTransport) (h : DriverHandler σ)
    (regAddr : BitVec T.adapter.addressType.bits) (a : RawAccess) (t : T.State) (s : σ) :
    T.StaysInBuffers h regAddr a t s ↔ T.Frames a ∨ T.ChecksSize := by
  constructor
  · intro hs
    by_contra hn
    rw [not_or] at hn
    exact (T.overruns_raw regAddr hn.2 hn.1 t).not_inBounds h s hs.inside
  · intro hok
    by_cases ha : T.Frames a
    · constructor
      · intro c hc
        exact DriverCmd.Fits.inBounds c ((T.only_raw regAddr ha t).of_mem_commands hc)
      · intro hn
        exact absurd ha hn
    · have hT := hok.resolve_left ha
      cases T with
      | i2c T => exact hT.elim
      | spi T => exact hT.elim
      | paged T => exact staysInBuffers_checked T h regAddr ha t s

/-- A driver that acknowledges everything and reads zeros. -/
def acknowledging : DriverHandler Unit
  | .i2cWrite _ _ _, u => (true, u)
  | .i2cWriteRead _ _ _, u => ((true, fun _ => 0), u)
  | .spiTransfer _ _ _, u => ((true, fun _ => 0), u)
  | .uninitialized _, u => (fun _ => 0, u)
  | .onRangeError _, u => ((), u)
  | .onTransportError _, u => ((), u)
  | .memset _, u => ((), u)
  | .outOfBounds _ _, u => ((), u)

def expanderI2c : ByteTransport := .i2c { native := .little, deviceAddr := 0x40 }

/-- Nine bytes do not fit the frame of an address and eight bytes. -/
theorem staysInBuffers_fails_nine :
    ¬ expanderI2c.StaysInBuffers acknowledging 0x10#8 (.rawWrite (List.replicate 9 0)) () () := by
  intro h
  exact h.inside (.outOfBounds 10 9) (.head _)

end ByteTransport

end Umimmio
