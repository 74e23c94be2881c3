import Umimmio.RegisterStore
import Umimmio.TypedBus

namespace Umimmio
open Effects Bytes
set_option autoImplicit true

variable {r : Register}

/-- A byte memory on I2C: it decodes the address bytes and then loads or stores. -/
def I2cTransport.memory (T : I2cTransport) : Target (Mem T.addressWidth.bits) where
  effect tx mem := mem.store (decode _ T.addrEndian (tx.take T.addressWidth.size))
    (tx.drop T.addressWidth.size)
  reply tx mem k := mem (decode _ T.addrEndian (tx.take T.addressWidth.size) + BitVec.ofNat _ k)

namespace SpiTransport

def command (T : SpiTransport) (tx : List Byte) : Byte := tx.headD 0 &&& ~~~T.cmdMask

def addressOf (T : SpiTransport) (tx : List Byte) : BitVec T.addressWidth.bits :=
  decode _ T.addrEndian ((tx.headD 0 &&& T.cmdMask) :: (tx.tail.take (T.addressWidth.size - 1)))

/-- A byte memory on SPI; `idle` is what it shifts out while it receives. -/
def memory (T : SpiTransport) (idle : Nat → Byte) : Target (Mem T.addressWidth.bits) where
  effect tx mem :=
    if T.command tx = T.writeBit then mem.store (T.addressOf tx) (tx.drop T.addressWidth.size)
    else mem
  reply tx mem k :=
    if T.addressWidth.size ≤ k ∧ T.command tx = T.readBit then
      mem (T.addressOf tx + BitVec.ofNat _ (k - T.addressWidth.size))
    else idle k

/-- The command bits tell reads from writes, and lie outside the addresses of the registers. -/
structure Decodable (T : SpiTransport) (M : RegisterMap T.addressWidth.bits) : Prop where
  distinct : T.readBit ≠ T.writeBit
  read_outside : T.readBit &&& T.cmdMask = 0
  write_outside : T.writeBit &&& T.cmdMask = 0
  address_inside : ∀ r ∈ M.regs, ∀ b ∈ (encodeAddress T.addrEndian T.addressWidth
    (BitVec.ofNat _ r.address)).head?, b &&& T.cmdMask = b

end SpiTransport

namespace SpiTransport

variable {T : SpiTransport} {M : RegisterMap T.addressWidth.bits}

theorem decode_frame (regAddr : BitVec T.addressWidth.bits) {rwBit : Byte}
    (hrw : rwBit &&& T.cmdMask = 0)
    (hin : ∀ b ∈ (encodeAddress T.addrEndian T.addressWidth regAddr).head?, b &&& T.cmdMask = b)
    (data : List Byte) :
    let tx := encodeSpiAddress T.addrEndian rwBit T.cmdMask T.addressWidth regAddr ++ data
    T.command tx = rwBit ∧ T.addressOf tx = regAddr ∧ tx.drop T.addressWidth.size = data := by
  obtain ⟨b, rest, he, hrest⟩ := encodeAddress_cons T.addrEndian T.addressWidth regAddr
  have hb : b &&& T.cmdMask = b := hin b (by rw [he]; rfl)
  have hspi : encodeSpiAddress T.addrEndian rwBit T.cmdMask T.addressWidth regAddr =
      (b &&& T.cmdMask ||| rwBit) :: rest := by
    rw [encodeSpiAddress, he]
  have hdec : decode T.addressWidth.bits T.addrEndian (b :: rest) = regAddr := by
    rw [← he, encodeAddress_eq, decode_encode T.addressWidth.eight_dvd_bits]
  have hdrop : (encodeSpiAddress T.addrEndian rwBit T.cmdMask T.addressWidth regAddr ++ data).drop
      T.addressWidth.size = data := by
    rw [← length_encodeSpiAddress T.addrEndian rwBit T.cmdMask T.addressWidth regAddr,
      List.drop_left]
  refine ⟨?_, ?_, hdrop⟩
  · rw [hspi, command, List.cons_append, List.headD_cons]
    exact and_not_mask_of_or hrw
  · rw [hspi, addressOf, List.cons_append, List.headD_cons, List.tail_cons, ← hrest,
      List.take_left, and_mask_of_or hb hrw, hdec]

end SpiTransport

theorem I2cTransport.decode_frame (T : I2cTransport) (regAddr : BitVec T.addressWidth.bits)
    (data : List Byte) :
    let tx := encodeAddress T.addrEndian T.addressWidth regAddr ++ data
    decode T.addressWidth.bits T.addrEndian (tx.take T.addressWidth.size) = regAddr ∧
      tx.drop T.addressWidth.size = data := by
  have hlen := length_encodeAddress T.addrEndian T.addressWidth regAddr
  constructor
  · rw [← hlen, List.take_left, encodeAddress_eq, decode_encode T.addressWidth.eight_dvd_bits]
  · rw [← hlen, List.drop_left]

theorem Bus.outcome_nil {δ : Type} {b : Bus δ} (h : b.script = []) (isVoid : Bool) :
    b.outcome isVoid = {} := by
  rw [Bus.outcome, h]
  cases isVoid <;> rfl

theorem Bus.script_sent {δ : Type} {b : Bus δ} (h : b.script = []) (D : Target δ) (isVoid : Bool)
    (site : Site) (tx : List Byte) (ok : Bool) (msg : String) :
    ((b.sent D isVoid site tx).report ok msg).script = [] := by
  rw [report_script, sent, h]
  rfl

theorem ByteTransport.payload_eq (T : ByteTransport) (value : r.RegValueType) :
    T.payload value = encode T.adapter.dataEndian value :=
  ByteAdapter.pack_eq _ _ r.eight_dvd_valueBits value

/-- The transport's bus and a plain memory answer an access alike and stay in the same state. -/
def ByteTransport.InStep (T : ByteTransport) {n : Nat} (D : Target (Mem n)) (area : Nat → Byte)
    (dataEndian : Endian) (c : RegCmd r) (s : T.State × Bus (Mem n)) : Prop :=
  (T.registers D area c s).1 = (memoryRegisters n dataEndian c s.2.device).1 ∧
    (T.registers D area c s).2.2.device = (memoryRegisters n dataEndian c s.2.device).2 ∧
      (T.registers D area c s).2.2.script = []

theorem I2cTransport.inStep (T : I2cTransport) (area : Nat → Byte) (c : RegCmd r)
    (s : (ByteTransport.i2c T).State × Bus (Mem T.addressWidth.bits)) (hs : s.2.script = []) :
    (ByteTransport.i2c T).InStep T.memory area T.dataEndian c s := by
  have hout := Bus.outcome_nil hs
  cases c with
  | regRead =>
    have hdec := (T.decode_frame (T.adapter.regAddr r) []).1
    rw [List.append_nil] at hdec
    have hload : DriverProg.bytesOf r.valueSize
        (s.2.received T.memory T.driver.voidWriteRead (T.addrBytes r)) =
          s.2.device.load (BitVec.ofNat _ r.address) r.valueSize := by
      rw [Bus.received, hout, if_pos rfl]
      apply List.map_congr_left
      intro k hk
      exact congrArg (fun a => s.2.device (a + BitVec.ofNat _ k)) hdec
    rw [ByteTransport.InStep, T.registers_read, hload]
    refine ⟨?_, Bus.report_device _ _ _, ?_⟩
    · exact ByteAdapter.unpack_eq _ _ r.eight_dvd_valueBits (Mem.length_load _ _ _)
    · rw [Bus.report_script, Bus.queried, hs]
      rfl
  | regWrite value =>
    have hdec := T.decode_frame (T.adapter.regAddr r) ((ByteTransport.i2c T).payload value)
    have hpay := (ByteTransport.i2c T).payload_eq value
    rw [ByteTransport.InStep, T.registers_write]
    refine ⟨rfl, ?_, Bus.script_sent hs _ _ _ _ _ _⟩
    rw [Bus.report_device, Bus.sent_device_of_ok (by rw [hout])]
    exact congrArg₂ (Mem.store s.2.device) hdec.1 (hdec.2.trans hpay)
  | onRangeError msg => exact ⟨rfl, rfl, hs⟩

theorem SpiTransport.inStep (T : SpiTransport) {M : RegisterMap T.addressWidth.bits}
    (hd : T.Decodable M) (idle area : Nat → Byte) (hr : r ∈ M.regs) (c : RegCmd r)
    (s : (ByteTransport.spi T).State × Bus (Mem T.addressWidth.bits)) (hs : s.2.script = []) :
    (ByteTransport.spi T).InStep (T.memory idle) area T.dataEndian c s := by
  have hout := Bus.outcome_nil hs
  have hin := hd.address_inside r hr
  cases c with
  | regRead =>
    obtain ⟨hcmd, haddr, _⟩ := decode_frame (T.adapter.regAddr r) hd.read_outside hin
      (List.replicate r.valueSize 0)
    have hload : (DriverProg.bytesOf (T.addressWidth.size + r.valueSize)
        (s.2.received (T.memory idle) T.driver.voidTransfer
          (T.readFrame (T.adapter.regAddr r) r.valueSize))).drop T.addressWidth.size =
            s.2.device.load (BitVec.ofNat _ r.address) r.valueSize := by
      rw [DriverProg.drop_bytesOf, Bus.received, hout, if_pos rfl]
      apply List.map_congr_left
      intro k hk
      refine (if_pos ⟨Nat.le_add_right _ _, hcmd⟩).trans ?_
      rw [Nat.add_sub_cancel_left]
      exact congrArg (fun a => s.2.device (a + BitVec.ofNat _ k)) haddr
    rw [ByteTransport.InStep, T.registers_read, hload]
    refine ⟨?_, ?_, Bus.script_sent hs _ _ _ _ _ _⟩
    · exact ByteAdapter.unpack_eq _ _ r.eight_dvd_valueBits (Mem.length_load _ _ _)
    · rw [Bus.report_device, Bus.sent_device_of_ok (by rw [hout])]
      exact if_neg fun h => hd.distinct (hcmd.symm.trans h)
  | regWrite value =>
    obtain ⟨hcmd, haddr, hdata⟩ := decode_frame (T.adapter.regAddr r) hd.write_outside hin
      ((ByteTransport.spi T).payload value)
    have hpay := (ByteTransport.spi T).payload_eq value
    rw [ByteTransport.InStep, T.registers_write]
    refine ⟨rfl, ?_, Bus.script_sent hs _ _ _ _ _ _⟩
    rw [Bus.report_device, Bus.sent_device_of_ok (by rw [hout])]
    exact (if_pos hcmd).trans (congrArg₂ (Mem.store s.2.device) haddr (hdata.trans hpay))
  | onRangeError msg => exact ⟨rfl, rfl, hs⟩

inductive FlatTransport
  | i2c (T : I2cTransport)
  | spi (T : SpiTransport)

namespace FlatTransport

abbrev toByteTransport : FlatTransport → ByteTransport
  | .i2c T => .i2c T
  | .spi T => .spi T

abbrev addressBits : FlatTransport → Nat
  | .i2c T => T.addressWidth.bits
  | .spi T => T.addressWidth.bits

def dataEndian : FlatTransport → Endian
  | .i2c T => T.dataEndian
  | .spi T => T.dataEndian

/-- The byte memory at the other end of the bus. -/
def memory (idle : Nat → Byte) : (T : FlatTransport) → Target (Mem T.addressBits)
  | .i2c T => T.memory
  | .spi T => T.memory idle

/-- The device can tell the command from the address of every register. -/
def Decodable : (T : FlatTransport) → RegisterMap T.addressBits → Prop
  | .i2c _, _ => True
  | .spi T, M => T.Decodable M

theorem inStep (T : FlatTransport) {M : RegisterMap T.addressBits} (hd : T.Decodable M)
    (idle area : Nat → Byte) (hr : r ∈ M.regs) (c : RegCmd r)
    (s : T.toByteTransport.State × Bus (Mem T.addressBits)) (hs : s.2.script = []) :
    T.toByteTransport.InStep (T.memory idle) area T.dataEndian c s := by
  cases T with
  | i2c T => exact T.inStep area c s hs
  | spi T => exact T.inStep hd idle area hr c s hs

end FlatTransport

namespace FlatTransport

def performAll (T : FlatTransport) (idle area : Nat → Byte) (checkPolicy : Bool)
    (ops : List TypedOp) (s : T.toByteTransport.State × Bus (Mem T.addressBits)) :
    List OpResult × T.toByteTransport.State × Bus (Mem T.addressBits) :=
  execute (fun (a : TypedOp) s =>
    T.toByteTransport.perform (T.memory idle) area checkPolicy a.op s.1 s.2) ops s

def storeAll (checkPolicy : Bool) (ops : List TypedOp) (store : Store) :
    List OpResult × Store :=
  execute (fun (a : TypedOp) store => (a.op.prog checkPolicy).run storeRegisters store) ops store

/-- The bus succeeds from now on, and its memory encodes the store. -/
def Refines (T : FlatTransport) (M : RegisterMap T.addressBits) (mem : Mem T.addressBits)
    (s : T.toByteTransport.State × Bus (Mem T.addressBits)) (store : Store) : Prop :=
  s.2.script = [] ∧ M.Encodes T.dataEndian mem store s.2.device

section Refines

variable {T : FlatTransport} {M : RegisterMap T.addressBits} {mem : Mem T.addressBits}
  {s : T.toByteTransport.State × Bus (Mem T.addressBits)} {store : Store}

theorem Refines.access (h : T.Refines M mem s store) (hd : T.Decodable M)
    (idle area : Nat → Byte) (hr : r ∈ M.regs) (c : RegCmd r) :
    (T.toByteTransport.registers (T.memory idle) area c s).1 = (storeRegisters c store).1 ∧
      T.Refines M mem (T.toByteTransport.registers (T.memory idle) area c s).2
        (storeRegisters c store).2 := by
  obtain ⟨hvalue, hdevice, hscript⟩ := T.inStep hd idle area hr c s h.1
  obtain ⟨hstore, hencodes⟩ := h.2.lockstep hr c
  exact ⟨hvalue.trans hstore, hscript, hdevice ▸ hencodes⟩

theorem Refines.perform (h : T.Refines M mem s store) (hd : T.Decodable M)
    (idle area : Nat → Byte) (hr : r ∈ M.regs) (checkPolicy : Bool) (op : Op r) :
    (T.toByteTransport.perform (T.memory idle) area checkPolicy op s.1 s.2).1 =
        ((op.prog checkPolicy).run storeRegisters store).1 ∧
      T.Refines M mem (T.toByteTransport.perform (T.memory idle) area checkPolicy op s.1 s.2).2
        ((op.prog checkPolicy).run storeRegisters store).2 := by
  rw [ByteTransport.perform_eq]
  exact Prog.run_sim (Q := T.Refines M mem) (fun c s store h => h.access hd idle area hr c) _ h

end Refines

/-- Typed operations over I2C or SPI return what they return on a register store, and leave the
memory that encodes the store. -/
theorem refines_store (T : FlatTransport) (M : RegisterMap T.addressBits) (hd : T.Decodable M)
    (idle area : Nat → Byte) (checkPolicy : Bool) (ops : List TypedOp)
    (ho : ∀ a ∈ ops, a.reg ∈ M.regs) (t : T.toByteTransport.State) (mem : Mem T.addressBits) :
    let onBus := T.performAll idle area checkPolicy ops (t, { device := mem })
    let onStore := storeAll checkPolicy ops (M.storeOf T.dataEndian mem)
    onBus.1 = onStore.1 ∧ M.Encodes T.dataEndian mem onStore.2 onBus.2.2.device := by
  have h0 : T.Refines M mem (t, { device := mem }) (M.storeOf T.dataEndian mem) :=
    ⟨rfl, M.encodes_storeOf T.dataEndian mem⟩
  obtain ⟨hresults, _, hmem⟩ := execute_sim (R := T.Refines M mem) ops
    (fun a ha s store h => h.perform hd idle area (ho a ha) checkPolicy a.op) h0
  exact ⟨hresults, hmem⟩

def spiLevel : Register :=
  .declare ({ allowedTransports := [.spi] } : Device).toParent 0x10 .bits16

/-- The register that follows it. -/
def spiTrim : Register :=
  .declare ({ allowedTransports := [.spi] } : Device).toParent 0x12 .bits8

theorem spiRegs_cases (hr : r ∈ [spiLevel, spiTrim]) : r = spiLevel ∨ r = spiTrim := by
  rwa [List.mem_cons, List.mem_singleton] at hr

def spiDevice : SpiTransport := { dataEndian := .big, native := .little }

def spiMap : RegisterMap spiDevice.addressWidth.bits where
  regs := [spiLevel, spiTrim]
  inside := by
    intro r hr
    rcases spiRegs_cases hr with rfl | rfl <;> decide
  apart := by
    intro r hr q hq
    rcases spiRegs_cases hr with rfl | rfl <;> rcases spiRegs_cases hq with rfl | rfl
    · exact .inl ⟨rfl, rfl⟩
    · exact .inr (.inl (by decide))
    · exact .inr (.inr (by decide))
    · exact .inl ⟨rfl, rfl⟩

/-- Seven bits are left for register addresses. -/
theorem spiDevice_decodable {M : RegisterMap spiDevice.addressWidth.bits}
    (hM : ∀ r ∈ M.regs, r.address < 2 ^ 7) : spiDevice.Decodable M where
  distinct := by decide
  read_outside := by decide
  write_outside := by decide
  address_inside := by
    intro r hr b hb
    have haddr := hM r hr
    obtain rfl : BitVec.ofNat 8 r.address = b := by
      cases hb
      rfl
    apply BitVec.eq_of_toNat_eq
    rw [BitVec.toNat_and, BitVec.toNat_ofNat]
    exact (Nat.and_two_pow_sub_one_eq_mod _ 7).trans (by omega)

def spiOps : List TypedOp :=
  [⟨(.write [⟨.register, .dynamicValue .uint16 0x1234⟩] : Op spiLevel)⟩,
    ⟨(.write [⟨.register, .dynamicValue .uint8 0x56⟩] : Op spiTrim)⟩, ⟨(.read : Op spiLevel)⟩,
    ⟨(.read : Op spiTrim)⟩]

theorem spiMap_below : ∀ r ∈ spiMap.regs, r.address < 2 ^ 7 := by
  intro r hr
  rcases spiRegs_cases hr with rfl | rfl <;> decide

theorem refines_store_spi :
    let onBus := performAll (.spi spiDevice) (fun _ => 0) (fun _ => 0) true spiOps
      ((), { device := fun _ => 0 })
    let onStore := storeAll true spiOps (spiMap.storeOf .big fun _ => 0)
    onBus.1 = onStore.1 ∧ spiMap.Encodes .big (fun _ => 0) onStore.2 onBus.2.2.device :=
  refines_store (.spi spiDevice) spiMap (spiDevice_decodable spiMap_below) (fun _ => 0) (fun _ => 0)
    true spiOps (by simp [spiOps, spiMap]) () fun _ => 0

end FlatTransport

end Umimmio
