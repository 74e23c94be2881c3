import Umimmio.SharedBus

namespace Umimmio
open Effects Bytes
set_option autoImplicit true

variable {r : Register}

/-- A device that keeps registers behind any of the byte transports. -/
inductive ByteDevice
  | i2c (d : RegisterDevice)
  | spi (T : SpiTransport) (M : RegisterMap T.addressWidth.bits) (hd : T.Decodable M)
      (idle : Nat → Byte)

namespace ByteDevice

abbrev transport : ByteDevice → ByteTransport
  | .i2c d => d.transport
  | .spi T _ _ _ => .spi T

abbrev δ : ByteDevice → Type
  | .i2c d => d.δ
  | .spi T _ _ _ => Mem T.addressWidth.bits

def target : (d : ByteDevice) → Target d.δ
  | .i2c d => d.target
  | .spi T _ _ idle => T.memory idle

def regs : ByteDevice → List Register
  | .i2c d => d.regs
  | .spi _ M _ _ => M.regs

/-- The bus succeeds from now on, and the device holds the store for the transport. -/
def Refines : (d : ByteDevice) → d.δ → d.transport.State × Bus d.δ → Store → Prop
  | .i2c d, first, s, store => d.Refines first s store
  | .spi T M _ _, first, s, store => FlatTransport.Refines (.spi T) M first s store

/-- The device encodes the store; what is not of a register is as it was at first. -/
def Holds : (d : ByteDevice) → d.δ → Store → d.δ → Prop
  | .i2c d, first, store, device => d.Holds first store device
  | .spi T M _ _, first, store, mem => M.Encodes T.dataEndian first store mem

variable {d : ByteDevice} {first : d.δ} {store : Store}

theorem Refines.holds {s : d.transport.State × Bus d.δ} (h : d.Refines first s store) :
    d.Holds first store s.2.device := by
  cases d with
  | i2c d => exact (RegisterDevice.Refines.holds h).2
  | spi T M hd idle => exact h.2

/-- A new transport object knows nothing that could be wrong. -/
theorem refines_construct {b : Bus d.δ} (hb : b.script = []) (hd : d.Holds first store b.device) :
    d.Refines first (d.transport.construct, b) store := by
  cases d with
  | i2c d => exact RegisterDevice.refines_construct hb hd
  | spi T M hdec idle => exact ⟨hb, hd⟩

theorem Refines.access {s : d.transport.State × Bus d.δ} (h : d.Refines first s store)
    (area : Nat → Byte) (hr : r ∈ d.regs) (c : RegCmd r) :
    let x := d.transport.registers d.target area c s
    x.1 = (storeRegisters c store).1 ∧ d.Refines first x.2 (storeRegisters c store).2 := by
  cases d with
  | i2c d =>
    cases d with
    | i2c T M => exact FlatTransport.Refines.access (T := .i2c T) h trivial (fun _ => 0) area hr c
    | paged T M => exact PagedI2cTransport.Refines.access h area hr c
  | spi T M hd idle => exact FlatTransport.Refines.access (T := .spi T) h hd idle area hr c

theorem Refines.perform {s : d.transport.State × Bus d.δ} (h : d.Refines first s store)
    (area : Nat → Byte) (hr : r ∈ d.regs) (checkPolicy : Bool) (op : Op r) :
    let x := d.transport.perform d.target area checkPolicy op s.1 s.2
    x.1 = ((op.prog checkPolicy).run storeRegisters store).1 ∧
      d.Refines first x.2 ((op.prog checkPolicy).run storeRegisters store).2 := by
  cases d with
  | i2c d => exact RegisterDevice.Refines.perform h area hr checkPolicy op
  | spi T M hd idle =>
    exact FlatTransport.Refines.perform (T := .spi T) h hd idle area hr checkPolicy op

/-- What the driver has called and reported before does not matter. -/
theorem Refines.of_device_eq {t : d.transport.State} {b b' : Bus d.δ}
    (h : d.Refines first (t, b) store) (hb : b'.script = []) (hdev : b'.device = b.device) :
    d.Refines first (t, b') store := by
  cases d with
  | i2c d =>
    cases d with
    | i2c T M => exact ⟨hb, hdev ▸ h.2⟩
    | paged T M => exact ⟨hb, hdev ▸ h.names, hdev ▸ h.encodes⟩
  | spi T M hd idle => exact ⟨hb, hdev ▸ h.2⟩

/-- Operations through one transport object have the results of the store. -/
theorem Refines.process {t : d.transport.State} {b : Bus d.δ} (h : d.Refines first (t, b) store)
    (area : Nat → Byte) (checkPolicy : Bool) {ops : List TypedOp} (ho : ∀ a ∈ ops, a.reg ∈ d.regs) :
    let x := (d.transport.process checkPolicy ops t).run
      (d.target.bus d.transport.driver area) b
    let onStore := FlatTransport.storeAll checkPolicy ops store
    x.1.1 = onStore.1 ∧ d.Refines first (x.1.2, x.2) onStore.2 := by
  simp only [ByteTransport.run_process]
  exact execute_sim (R := d.Refines first) ops
    (fun a ha s store h => h.perform area (ho a ha) checkPolicy a.op) h

end ByteDevice

end Umimmio
