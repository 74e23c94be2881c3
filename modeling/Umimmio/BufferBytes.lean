import Umimmio.Lib.Run
import Umimmio.Lib.Partial
import Umimmio.Transport.BufferMmio

namespace Umimmio
open Effects Bytes
set_option autoImplicit true

variable {p : PointerWidth}

/-- An error policy whose `on_error` does not return. -/
def BufferMmio.trapErrors : PartialHandler BufferCmd BufferCmd.Resp Unit
  | .onError _, _ => none

/-- A read or a write of the element that an accessor refers to. -/
inductive BufferAccess
  | read (a : Accessor) (offset : BitVec 32)
  | write (a : Accessor) (ha : a ≠ .constBytesAt) (offset : BitVec 32) (value : BitVec (8 * a.size))

inductive BufferResult
  | value (w : Nat) (x : BitVec w)
  | stored
  deriving DecidableEq, Repr

namespace BufferAccess

def accessor : BufferAccess → Accessor
  | .read a _ => a
  | .write a _ _ _ => a

def offset : BufferAccess → BitVec 32
  | .read _ offset => offset
  | .write _ _ offset _ => offset

abbrev size (x : BufferAccess) : Nat := x.accessor.size

/-- What the access does behind the address that it got. -/
def effect (native : Endian) (x : BufferAccess) (addr : BitVec p.bits) (mem : Mem p.bits) :
    BufferResult × Mem p.bits :=
  match x with
  | .read a _ => (.value _ (decode (8 * a.size) native (mem.load addr a.size)), mem)
  | .write _ _ _ value => (.stored, mem.store addr (encode native value))

def perform (B : BufferMmio p) (native : Endian) (x : BufferAccess) (mem : Mem p.bits) :
    Option (BufferResult × Mem p.bits) :=
  ((x.accessor.prog B true x.offset).outcome BufferMmio.trapErrors ()).map fun y =>
    x.effect native y.1 mem

/-- The access on the bytes of the buffer, which are all there is. -/
def onBytes (native : Endian) (x : BufferAccess) (bytes : List Byte) :
    Option (BufferResult × List Byte) :=
  if x.size ∣ x.offset.toNat ∧ x.offset.toNat + x.size ≤ bytes.length then
    some <| match x with
    | .read a offset =>
      (.value _ (decode (8 * a.size) native ((bytes.drop offset.toNat).take a.size)), bytes)
    | .write a _ offset value =>
      (.stored, bytes.take offset.toNat ++ encode native value ++
        bytes.drop (offset.toNat + a.size))
  else none

/-- The end of the access is an address that `size_t` can hold, where the accessor computes it. -/
def EndFits (p : PointerWidth) (x : BufferAccess) : Prop :=
  x.accessor.ChecksEnd → x.offset.toNat + x.size ≠ 2 ^ p.bits

end BufferAccess

/-- The memory holds the bytes of the buffer; outside it is as it was at first. -/
structure BufferMmio.Holds (B : BufferMmio p) (first : Mem p.bits) (mem : Mem p.bits)
    (bytes : List Byte) : Prop where
  inside : mem.load B.base B.size.toNat = bytes
  outside : ∀ a, ¬ Mem.InRange B.base B.size.toNat a → mem a = first a

namespace Accessor

/-- Under such a policy an accessor returns exactly where it reports nothing. -/
theorem outcome_prog (a : Accessor) (B : BufferMmio p) (offset : BitVec 32) :
    (a.prog B true offset).outcome BufferMmio.trapErrors () =
      if a.errors B offset = [] then some (a.address B offset, ()) else none := by
  have helement : ∀ n msg, (B.elementAt n msg true offset).outcome BufferMmio.trapErrors () =
      if ((B.elementAt n msg true offset).run BufferMmio.logErrors []).2 = [] then
        some (((B.elementAt n msg true offset).run BufferMmio.logErrors []).1, ()) else none := by
    intro n msg
    rw [BufferMmio.elementAt]
    split_ifs <;> first | rfl | contradiction
  have hbyte : ∀ msg, (B.byteAt msg true offset).outcome BufferMmio.trapErrors () =
      if ((B.byteAt msg true offset).run BufferMmio.logErrors []).2 = [] then
        some (((B.byteAt msg true offset).run BufferMmio.logErrors []).1, ()) else none := by
    intro msg
    rw [BufferMmio.byteAt]
    split_ifs <;> first | rfl | contradiction
  cases a with
  | wordAt => exact helement 4 _
  | halfwordAt => exact helement 2 _
  | bytesAt => exact hbyte _
  | constBytesAt => exact hbyte _

end Accessor

namespace BufferAccess

variable {B : BufferMmio p} {native : Endian} {first mem : Mem p.bits} {bytes : List Byte}

theorem perform_of_outside {x : BufferAccess} (hx : x.EndFits p)
    (ho : x.accessor.Outside B x.offset) (mem : Mem p.bits) : x.perform B native mem = none := by
  have hreports := ((Accessor.checksBounds_iff _ B x.offset).mpr hx).reports
  rw [perform, Accessor.outcome_prog, if_neg (hreports.mpr ho), Option.map_none]

theorem perform_of_inside {x : BufferAccess} (hx : x.EndFits p)
    (ho : ¬ x.accessor.Outside B x.offset) (mem : Mem p.bits) :
    x.perform B native mem =
      some (x.effect native (B.base + BitVec.ofNat _ x.offset.toNat) mem) := by
  have hreports := ((Accessor.checksBounds_iff _ B x.offset).mpr hx).reports
  have he : x.accessor.errors B x.offset = [] := by
    by_contra hne
    exact ho (hreports.mp hne)
  rw [perform, Accessor.outcome_prog, if_pos he, Option.map_some, Accessor.address_eq,
    BufferMmio.converted, ← BitVec.ofNat_toNat]

/-- Inside the buffer, what an access does to the memory it does to the bytes of the buffer. -/
theorem effect_holds {x : BufferAccess} (h : B.Holds first mem bytes)
    (hend : x.offset.toNat + x.size ≤ B.size.toNat) (hdvd : x.size ∣ x.offset.toNat) :
    ∃ y, x.onBytes native bytes = some y ∧
      (x.effect native (B.base + BitVec.ofNat _ x.offset.toNat) mem).1 = y.1 ∧
        B.Holds first (x.effect native (B.base + BitVec.ofNat _ x.offset.toNat) mem).2 y.2 := by
  have hlen : bytes.length = B.size.toNat := by rw [← h.inside, Mem.length_load]
  refine ⟨_, if_pos ⟨hdvd, hlen ▸ hend⟩, ?_⟩
  cases x with
  | read a offset =>
    have hload : mem.load (B.base + BitVec.ofNat _ offset.toNat) a.size =
        (bytes.drop offset.toNat).take a.size := by
      rw [← h.inside]
      exact Mem.load_slice mem B.base hend
    exact ⟨congrArg (fun bs => BufferResult.value _ (decode (8 * a.size) native bs)) hload, h⟩
  | write a ha offset value =>
    have hbytes : (encode native value).length = a.size := by
      rw [length_encode, Nat.mul_div_cancel_left _ (by decide)]
    have hfits : offset.toNat + (encode native value).length ≤ B.size.toNat := by
      rw [hbytes]
      exact hend
    have hstore := Mem.load_store_slice mem B.base (Nat.le_of_lt B.size.isLt) hfits
    rw [h.inside, hbytes] at hstore
    refine ⟨rfl, hstore, fun b hb => ?_⟩
    have hout : ¬ Mem.InRange (B.base + BitVec.ofNat _ offset.toNat) (encode native value).length
        b := by
      intro hr
      rw [hbytes] at hr
      exact hb (hr.widen hend (Nat.le_of_lt B.size.isLt))
    exact (Mem.store_of_not_inRange _ hout).trans (h.outside b hb)

/-- An access stops where it stops on the bytes of the buffer, and else does the same. -/
theorem perform_holds {x : BufferAccess} (h : B.Holds first mem bytes) (hx : x.EndFits p) :
    (x.perform B native mem = none ∧ x.onBytes native bytes = none) ∨
      ∃ y z, x.perform B native mem = some y ∧ x.onBytes native bytes = some z ∧ y.1 = z.1 ∧
        B.Holds first y.2 z.2 := by
  have hlen : bytes.length = B.size.toNat := by rw [← h.inside, Mem.length_load]
  by_cases ho : x.accessor.Outside B x.offset
  · refine .inl ⟨perform_of_outside hx ho mem, if_neg fun hin => ?_⟩
    rcases ho with hmis | hout
    · exact hmis hin.1
    · have hend := hin.2
      rw [hlen] at hend
      exact absurd hend (Nat.not_le.mpr hout)
  · have hin := ho
    rw [Accessor.Outside, not_or, not_not, Nat.not_lt] at hin
    obtain ⟨z, hz, hvalue, hholds⟩ := effect_holds h hin.2 hin.1
    exact .inr ⟨_, z, perform_of_inside hx ho mem, hz, hvalue, hholds⟩

/-- Accesses through a `BufferMmio` are accesses of an array of its bytes in host order: they
return the same, stop at the same error, and leave the memory outside the buffer alone. -/
theorem buffer_refines_bytes (B : BufferMmio p) (native : Endian) {accesses : List BufferAccess}
    (hx : ∀ x ∈ accesses, x.EndFits p) (mem : Mem p.bits) :
    let onMemory := attempt (perform B native) accesses mem
    let onBuffer := attempt (onBytes native) accesses (mem.load B.base B.size.toNat)
    onMemory.1 = onBuffer.1 ∧ onMemory.2.load B.base B.size.toNat = onBuffer.2 ∧
      ∀ a, ¬ Mem.InRange B.base B.size.toNat a → onMemory.2 a = mem a := by
  have h0 : B.Holds mem mem (mem.load B.base B.size.toNat) := ⟨rfl, fun _ _ => rfl⟩
  obtain ⟨hresults, hholds⟩ := attempt_sim (f := perform B native) (g := onBytes native)
    (R := B.Holds mem) accesses
    (fun x hmem s bytes h => perform_holds h (hx x hmem)) h0
  exact ⟨hresults, hholds.inside, hholds.outside⟩

def twoWords : BufferMmio .bits32 := ⟨0x50100000#32, 8#32⟩

/-- The third access is misaligned. -/
def twoWordsAccesses : List BufferAccess :=
  [.write .wordAt (by decide) 4 0x11223344, .read .bytesAt 5, .read .halfwordAt 5,
    .write .bytesAt (by decide) 0 0xFF]

theorem buffer_refines_bytes_misaligned :
    let onMemory := attempt (perform twoWords .little) twoWordsAccesses fun _ => 0
    onMemory.1 = [.stored, .value 8 0x33] ∧
      onMemory.2.load twoWords.base 8 = [0, 0, 0, 0, 0x44, 0x33, 0x22, 0x11] := by
  have hx : ∀ x ∈ twoWordsAccesses, x.EndFits .bits32 := by
    simp only [twoWordsAccesses, List.forall_mem_cons]
    exact ⟨fun _ => by decide, fun _ => by decide, fun _ => by decide, fun _ => by decide, nofun⟩
  obtain ⟨hresults, hbytes, _⟩ := buffer_refines_bytes twoWords .little hx fun _ => 0
  exact ⟨hresults.trans (by decide), hbytes.trans (by decide)⟩

end BufferAccess

end Umimmio
