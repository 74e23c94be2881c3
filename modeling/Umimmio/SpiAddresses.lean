import Umimmio.Transport.Spi

namespace Umimmio
open Effects Bytes
set_option autoImplicit true

inductive Direction
  | read
  | write
  deriving DecidableEq, Repr

namespace SpiTransport

def rwBit (T : SpiTransport) : Direction → Byte
  | .read => T.readBit
  | .write => T.writeBit

/-- The address bytes of an access to the register with the given address. -/
def addressBytes (T : SpiTransport) (d : Direction) (address : Addr) : List Byte :=
  encodeSpiAddress T.addrEndian (T.rwBit d) T.cmdMask T.addressWidth (BitVec.ofNat _ address)

/-- The two directions are told apart by bits that the mask keeps free of the address. -/
structure CommandsApart (T : SpiTransport) : Prop where
  distinct : T.readBit ≠ T.writeBit
  read_outside : T.readBit &&& T.cmdMask = 0
  write_outside : T.writeBit &&& T.cmdMask = 0

def Unique (T : SpiTransport) (a b : Addr) (d e : Direction) : Prop :=
  T.addressBytes d a = T.addressBytes e b → a = b ∧ d = e

/-- Where the first wire byte lies in the address. -/
def firstByte : AddressType → Endian → Nat
  | .uint16, .big => 8
  | _, _ => 0

/-- The bit is not in the byte that the mask is applied to, or inside the mask. -/
def Unmasked (first : Nat) (m : Byte) (i : Nat) : Prop :=
  first ≤ i → i < first + 8 → m.getLsbD (i - first) = true

/-- The address bits that go out on the wire. -/
def Sends (T : SpiTransport) (i : Nat) : Prop :=
  Unmasked (firstByte T.addressWidth T.addrEndian) T.cmdMask i

theorem unmasked_add_iff (first : Nat) (m : Byte) (hj : j < 8) :
    Unmasked first m (first + j) ↔ m.getLsbD j = true := by
  rw [Unmasked, Nat.add_sub_cancel_left]
  exact ⟨fun h => h (Nat.le_add_right _ _) (Nat.add_lt_add_left hj _), fun h _ _ => h⟩

theorem unmasked_of_lt (m : Byte) (hi : i < first) : Unmasked first m i :=
  fun h => absurd h (Nat.not_le_of_lt hi)

theorem unmasked_of_ge (m : Byte) (hi : first + 8 ≤ i) : Unmasked first m i :=
  fun _ h => absurd h (Nat.not_lt_of_le hi)

theorem CommandsApart.rwBit_outside {T : SpiTransport} (h : T.CommandsApart) (d : Direction) :
    T.rwBit d &&& T.cmdMask = 0 := by
  cases d with
  | read => exact h.read_outside
  | write => exact h.write_outside

end SpiTransport

theorem byte_eq_iff (x y : Byte) : x = y ↔ ∀ j < 8, x.getLsbD j = y.getLsbD j :=
  ⟨fun h _ _ => h ▸ rfl, BitVec.eq_of_getLsbD_eq⟩

theorem forall_lt_sixteen {P : Nat → Prop} :
    (∀ i < 16, P i) ↔ (∀ j < 8, P j) ∧ ∀ j < 8, P (8 + j) := by
  constructor
  · intro h
    exact ⟨fun j hj => h j (by omega), fun j hj => h (8 + j) (by omega)⟩
  · rintro ⟨hlow, hhigh⟩ i hi
    by_cases h8 : i < 8
    · exact hlow i h8
    · obtain ⟨j, rfl⟩ := Nat.exists_eq_add_of_le (Nat.le_of_not_lt h8)
      exact hhigh j (by omega)

def lowByte (address : Addr) : Byte := (BitVec.ofNat 16 address &&& 0xFF#16).setWidth 8
def highByte (address : Addr) : Byte := (BitVec.ofNat 16 address >>> 8).setWidth 8

theorem getLsbD_lowByte (address : Addr) (hj : j < 8) :
    (lowByte address).getLsbD j = address.testBit j := by
  rw [lowByte, setWidth_and_0xFF, BitVec.getLsbD_extractLsb', BitVec.getLsbD_ofNat,
    decide_eq_true hj, Nat.zero_add, decide_eq_true (by omega), Bool.true_and, Bool.true_and]

theorem getLsbD_highByte (address : Addr) (hj : j < 8) :
    (highByte address).getLsbD j = address.testBit (8 + j) := by
  rw [highByte, BitVec.getLsbD_setWidth, BitVec.getLsbD_ushiftRight, BitVec.getLsbD_ofNat,
    decide_eq_true hj, decide_eq_true (by omega), Bool.true_and, Bool.true_and]

namespace SpiTransport

section Encoded
variable {m w : Byte} (hw : w &&& m = 0) (a b : Addr)
include hw

theorem encode_uint8_iff (e : Endian) :
    encodeSpiAddress e w m .uint8 (BitVec.ofNat 8 a) =
        encodeSpiAddress e w m .uint8 (BitVec.ofNat 8 b) ↔
      ∀ j < 8, m.getLsbD j = true → a.testBit j = b.testBit j := by
  refine List.singleton_inj.trans ((maskedByte_eq_iff hw _ _).trans ?_)
  refine forall₂_congr fun j hj => ?_
  rw [BitVec.getLsbD_ofNat, BitVec.getLsbD_ofNat, decide_eq_true hj, Bool.true_and, Bool.true_and]

theorem encode_big_iff :
    encodeSpiAddress .big w m .uint16 (BitVec.ofNat 16 a) =
        encodeSpiAddress .big w m .uint16 (BitVec.ofNat 16 b) ↔
      (∀ j < 8, a.testBit j = b.testBit j) ∧
        ∀ j < 8, m.getLsbD j = true → a.testBit (8 + j) = b.testBit (8 + j) := by
  have hbytes : encodeSpiAddress .big w m .uint16 (BitVec.ofNat 16 a) =
        encodeSpiAddress .big w m .uint16 (BitVec.ofNat 16 b) ↔
      lowByte a = lowByte b ∧ (highByte a &&& m ||| w) = (highByte b &&& m ||| w) :=
    List.cons_eq_cons.trans ((and_congr_right' List.singleton_inj).trans and_comm)
  rw [hbytes, byte_eq_iff, maskedByte_eq_iff hw]
  refine and_congr (forall₂_congr fun j hj => ?_) (forall₂_congr fun j hj => ?_)
  · rw [getLsbD_lowByte a hj, getLsbD_lowByte b hj]
  · rw [getLsbD_highByte a hj, getLsbD_highByte b hj]

theorem encode_little_iff :
    encodeSpiAddress .little w m .uint16 (BitVec.ofNat 16 a) =
        encodeSpiAddress .little w m .uint16 (BitVec.ofNat 16 b) ↔
      (∀ j < 8, m.getLsbD j = true → a.testBit j = b.testBit j) ∧
        ∀ j < 8, a.testBit (8 + j) = b.testBit (8 + j) := by
  have hbytes : encodeSpiAddress .little w m .uint16 (BitVec.ofNat 16 a) =
        encodeSpiAddress .little w m .uint16 (BitVec.ofNat 16 b) ↔
      (lowByte a &&& m ||| w) = (lowByte b &&& m ||| w) ∧ highByte a = highByte b :=
    List.cons_eq_cons.trans (and_congr_right' List.singleton_inj)
  rw [hbytes, maskedByte_eq_iff hw, byte_eq_iff]
  refine and_congr (forall₂_congr fun j hj => ?_) (forall₂_congr fun j hj => ?_)
  · rw [getLsbD_lowByte a hj, getLsbD_lowByte b hj]
  · rw [getLsbD_highByte a hj, getLsbD_highByte b hj]

end Encoded

/-- Two accesses in one direction send the same bytes exactly when their addresses agree on the
bits that go out. -/
theorem addressBytes_eq_iff {T : SpiTransport} (h : T.CommandsApart) (d : Direction)
    (a b : Addr) :
    T.addressBytes d a = T.addressBytes d b ↔
      ∀ i < T.addressWidth.bits, T.Sends i → a.testBit i = b.testBit i := by
  have hw := h.rwBit_outside d
  simp only [addressBytes, Sends]
  generalize T.rwBit d = w at hw
  generalize T.cmdMask = m at hw
  cases T.addressWidth with
  | uint8 =>
    refine (encode_uint8_iff hw a b _).trans (forall₂_congr fun j hj => ?_)
    have hsends := unmasked_add_iff 0 m hj
    rw [Nat.zero_add] at hsends
    exact imp_congr_left hsends.symm
  | uint16 =>
    refine Iff.trans ?_ forall_lt_sixteen.symm
    cases T.addrEndian with
    | big =>
      refine (encode_big_iff hw a b).trans
        (and_congr (forall₂_congr fun j hj => ?_) (forall₂_congr fun j hj => ?_))
      · exact (imp_iff_right (unmasked_of_lt m hj)).symm
      · exact imp_congr_left (unmasked_add_iff 8 m hj).symm
    | little =>
      refine (encode_little_iff hw a b).trans
        (and_congr (forall₂_congr fun j hj => ?_) (forall₂_congr fun j hj => ?_))
      · have hsends := unmasked_add_iff 0 m hj
        rw [Nat.zero_add] at hsends
        exact imp_congr_left hsends.symm
      · exact (imp_iff_right (unmasked_of_ge m (Nat.le_add_right 8 j))).symm

theorem direction_eq {T : SpiTransport} (h : T.CommandsApart)
    (he : T.addressBytes d a = T.addressBytes e b) : d = e := by
  obtain ⟨x, _, hx, _⟩ := encodeAddress_cons T.addrEndian T.addressWidth (BitVec.ofNat _ a)
  obtain ⟨y, _, hy, _⟩ := encodeAddress_cons T.addrEndian T.addressWidth (BitVec.ofNat _ b)
  simp only [addressBytes, encodeSpiAddress, hx, hy, List.cons.injEq] at he
  have hbits : T.rwBit d = T.rwBit e := by
    have hmask := congrArg (· &&& ~~~T.cmdMask) he.1
    simpa only [and_not_mask_of_or (h.rwBit_outside d), and_not_mask_of_or (h.rwBit_outside e)]
      using hmask
  cases d with
  | read =>
    cases e with
    | read => rfl
    | write => exact absurd hbits h.distinct
  | write =>
    cases e with
    | read => exact absurd hbits.symm h.distinct
    | write => rfl

/-- Accesses are told apart by their address bytes exactly when, in one direction, different
addresses differ in a bit that goes out. -/
theorem unique_iff {T : SpiTransport} (h : T.CommandsApart) (a b : Addr) (d e : Direction) :
    T.Unique a b d e ↔
      (d = e → a ≠ b →
        ∃ i < T.addressWidth.bits, T.Sends i ∧ a.testBit i ≠ b.testBit i) := by
  constructor
  · rintro hu rfl hab
    by_contra hsame
    apply hab
    refine (hu ((addressBytes_eq_iff h d a b).mpr ?_)).1
    intro i hi hs
    by_contra hne
    exact hsame ⟨i, hi, hs, hne⟩
  · intro hd he
    obtain rfl := direction_eq h he
    refine ⟨?_, rfl⟩
    by_contra hab
    obtain ⟨i, hi, hs, hne⟩ := hd rfl hab
    exact hne ((addressBytes_eq_iff h d a b).mp he i hi hs)

def sensor : SpiTransport := { native := .little }

theorem sensor_commandsApart : sensor.CommandsApart where
  distinct := by decide
  read_outside := by decide
  write_outside := by decide

/-- A read of register 0x80 sends the same command byte as a read of register 0x00. -/
theorem unique_fails_masked :
    sensor.CommandsApart ∧ (0x80 : Addr) < 2 ^ sensor.addressWidth.bits ∧
      ¬ sensor.Unique 0x00 0x80 .read .read := by
  have hunique : ¬ sensor.Unique 0x00 0x80 .read .read := by
    intro hu
    have he := (hu (by decide)).1
    revert he
    decide
  exact ⟨sensor_commandsApart, by decide, hunique⟩

theorem unique_iff_sensor : sensor.Unique 0x10 0x11 .read .read := by
  rw [unique_iff sensor_commandsApart]
  intro _ _
  refine ⟨0, by decide, ?_, by decide⟩
  intro _ _
  decide

end SpiTransport

end Umimmio
