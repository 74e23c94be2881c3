import Umimmio.ByteDevice
import Umimmio.CsrStore
import Umimmio.Transport.Direct

namespace Umimmio
open Effects Bytes
set_option autoImplicit true

variable {r : Register}

/-- The registers of a map behind one of the transports. -/
inductive Wiring
  | direct (p : PointerWidth) (native : Endian) (M : RegisterMap p.bits)
  | csr (M : CsrMap) (hM : M.Fits)
  | bytes (d : ByteDevice)

namespace Wiring

/-- The registers a typed operation may name; CSRs also have to be readable. -/
def regs : Wiring → List Register
  | .direct _ _ M => M.regs
  | .csr M _ => M.regs.filter fun r => r.accessType.canRead
  | .bytes d => d.regs

abbrev State : Wiring → Type
  | .direct p _ _ => Machine p
  | .csr _ _ => CsrFile
  | .bytes d => d.transport.State × Bus d.δ

def perform (area : Nat → Byte) (checkPolicy : Bool) (op : Op r) :
    (W : Wiring) → W.State → OpResult × W.State
  | .direct _ native _, m =>
    let x := ((op.prog checkPolicy).translate DirectTransport.regOps ()).run
      (Machine.access native) m
    (x.1.1, x.2)
  | .csr _ _, m => CsrTransport.perform checkPolicy op m
  | .bytes d, s => d.transport.perform d.target area checkPolicy op s.1 s.2

/-- What is at the other end of the transport holds the words of the store. -/
def Refines : (W : Wiring) → W.State → Store → Prop
  | .direct _ native M, m, store => ∃ first, M.Encodes native first store m.mem
  | .csr M _, m, store => M.Agrees m.cells store
  | .bytes d, s, store => ∃ first, d.Refines first s store

end Wiring

namespace DirectTransport

variable {p : PointerWidth} {native : Endian} {M : RegisterMap p.bits}

theorem through_regOps (native : Endian) (c : RegCmd r) (s : Unit × Machine p) :
    (((Machine.access native).through regOps) c s).1 = (memoryRegisters p.bits native c s.2.mem).1 ∧
      (((Machine.access native).through regOps) c s).2.2.mem =
        (memoryRegisters p.bits native c s.2.mem).2 := by
  cases c <;> exact ⟨rfl, rfl⟩

/-- Register accesses through volatile pointers act on the memory that encodes the store. -/
theorem refines_run {m : Machine p} (h : M.Encodes native first store m.mem) (hr : r ∈ M.regs)
    (q : RegProg r α) :
    let x := (q.translate regOps ()).run (Machine.access native) m
    x.1.1 = (q.run storeRegisters store).1 ∧
      M.Encodes native first (q.run storeRegisters store).2 x.2.mem := by
  simp only [Prog.run_translate]
  refine Prog.run_sim (Q := fun (s : Unit × Machine p) store =>
    M.Encodes native first store s.2.mem) (fun c s store h => ?_) _ h
  obtain ⟨hvalue, hmem⟩ := through_regOps native c s
  obtain ⟨hstore, hencodes⟩ := h.lockstep hr c
  exact ⟨hvalue.trans hstore, hmem ▸ hencodes⟩

end DirectTransport

namespace Wiring

/-- Register accesses as the transport performs them. -/
def registers (area : Nat → Byte) : (W : Wiring) → RegHandler r W.State
  | .direct _ native _ => fun c m =>
    let x := (DirectTransport.regOps c ()).run (Machine.access native) m
    (x.1.1, x.2)
  | .csr _ _ => CsrTransport.registers
  | .bytes d => d.transport.registers d.target area

theorem perform_eq (W : Wiring) (area : Nat → Byte) (checkPolicy : Bool) (op : Op r) (s : W.State) :
    W.perform area checkPolicy op s = (op.prog checkPolicy).run (W.registers area) s := by
  cases W with
  | direct p native M =>
    have hstep : ∀ (c : RegCmd r) (s : Unit × Machine p) (m : Machine p), s.2 = m →
        let x := (Wiring.direct p native M).registers area c m
        (((Machine.access native).through DirectTransport.regOps) c s).1 = x.1 ∧
          (((Machine.access native).through DirectTransport.regOps) c s).2.2 = x.2 := by
      rintro c s m rfl
      exact ⟨rfl, rfl⟩
    obtain ⟨hvalue, hnext⟩ := Prog.run_sim hstep (op.prog checkPolicy) (rfl : ((), s).2 = s)
    rw [perform, Prog.run_translate]
    exact Prod.ext hvalue hnext
  | csr M hM => exact CsrTransport.perform_eq checkPolicy op s
  | bytes d => exact d.transport.perform_eq d.target area checkPolicy op s.1 s.2

variable {W : Wiring} {s : W.State} {store : Store}

theorem Refines.access (h : W.Refines s store) (hr : r ∈ W.regs) (area : Nat → Byte)
    (c : RegCmd r) :
    (W.registers area c s).1 = (storeRegisters c store).1 ∧
      W.Refines (W.registers area c s).2 (storeRegisters c store).2 := by
  cases W with
  | direct p native M =>
    obtain ⟨first, h⟩ := h
    obtain ⟨hvalue, hmem⟩ := DirectTransport.through_regOps native c ((), s)
    obtain ⟨hstore, hencodes⟩ := h.lockstep hr c
    exact ⟨hvalue.trans hstore, first, hmem ▸ hencodes⟩
  | csr M hM =>
    obtain ⟨hmem, hread⟩ := List.mem_filter.mp hr
    obtain ⟨hvalue, hcells⟩ := CsrTransport.registers_cells c s
    obtain ⟨hstore, hagrees⟩ := h.lockstep hM hmem hread c
    refine ⟨hvalue.trans hstore, ?_⟩
    change M.Agrees (CsrTransport.registers c s).2.cells _
    rw [hcells]
    exact hagrees
  | bytes d =>
    obtain ⟨first, h⟩ := h
    obtain ⟨hvalue, hrefines⟩ := h.access area hr c
    exact ⟨hvalue, first, hrefines⟩

theorem Refines.perform (h : W.Refines s store) (hr : r ∈ W.regs) (area : Nat → Byte)
    (checkPolicy : Bool) (op : Op r) :
    (W.perform area checkPolicy op s).1 = ((op.prog checkPolicy).run storeRegisters store).1 ∧
      W.Refines (W.perform area checkPolicy op s).2
        ((op.prog checkPolicy).run storeRegisters store).2 := by
  rw [W.perform_eq]
  exact Prog.run_sim (Q := W.Refines) (fun c s store h => h.access hr area c)
    (op.prog checkPolicy) h

end Wiring

/-- Code of a driver: typed operations, each chosen by the results of those before it. -/
abbrev DriverCode (α : Type) := Prog TypedOp (fun _ => OpResult) α

def Wiring.runs (W : Wiring) (area : Nat → Byte) (checkPolicy : Bool) :
    Handler TypedOp (fun _ => OpResult) W.State :=
  fun a s => W.perform area checkPolicy a.op s

theorem Op.run_checkPolicy (op : Op r) (checkPolicy checkPolicy' : Bool) (store : Store) :
    (op.prog checkPolicy).run storeRegisters store =
      (op.prog checkPolicy').run storeRegisters store := by
  have hq : ∀ msg s, (storeRegisters (.onRangeError msg : RegCmd r) s).2 = s := fun _ _ => rfl
  cases op with
  | write values => rw [prog, prog, Prog.run_map, Prog.run_map, RegOps.run_write hq,
      RegOps.run_write hq]
  | modify values => rw [prog, prog, Prog.run_map, Prog.run_map, RegOps.run_modify hq,
      RegOps.run_modify hq]
  | is v => rw [prog, prog, Prog.run_map, Prog.run_map, RegOps.run_is hq, RegOps.run_is hq]
  | _ => rfl

def fifoLevel : Register :=
  .declare ({ allowedTransports := [.direct, .i2c, .spi] } : Device).toParent 0x10 .bits8

def fifoMap (n : Nat) (hn : 0x11 ≤ 2 ^ n) : RegisterMap n where
  regs := [fifoLevel]
  inside := by
    intro r hr
    obtain rfl := List.mem_singleton.mp hr
    exact hn
  apart := by
    intro r hr q hq
    obtain rfl := List.mem_singleton.mp hr
    obtain rfl := List.mem_singleton.mp hq
    exact .inl ⟨rfl, rfl⟩

theorem encodes_fifoMap (n : Nat) (hn : 0x11 ≤ 2 ^ n) (e : Endian) :
    (fifoMap n hn).Encodes e (fun _ => 0) (fun _ => 0) fun _ => 0 := by
  refine ⟨fun r hr => ?_, fun _ _ => rfl⟩
  obtain rfl := List.mem_singleton.mp hr
  cases e <;> rfl

theorem fifoMap_below : ∀ r ∈ (fifoMap 8 (by decide)).regs, r.address < 2 ^ 7 := by
  intro r hr
  obtain rfl := List.mem_singleton.mp hr
  decide

def fifoSpi : Wiring :=
  .bytes (.spi FlatTransport.spiDevice (fifoMap 8 (by decide))
    (FlatTransport.spiDevice_decodable fifoMap_below) fun _ => 0)

end Umimmio
