import Umimmio.Lib.Pool
import Umimmio.PagedStore

namespace Umimmio
open Effects Bytes
set_option autoImplicit true

variable {r : Register} {κ : Type}

/-- The command is no bus transaction, or one with the device at the address. -/
def DriverCmd.To (addr : Byte) : DriverCmd → Prop
  | .i2cWrite _ deviceAddr _ => deviceAddr = addr
  | .i2cWriteRead deviceAddr _ _ => deviceAddr = addr
  | .spiTransfer _ _ _ => False
  | _ => True

theorem DriverCmd.IsLocal.to {c : DriverCmd} (hc : c.IsLocal) (addr : Byte) : c.To addr := by
  cases c with
  | i2cWrite site deviceAddr tx => exact hc.elim
  | i2cWriteRead deviceAddr tx rx => exact hc.elim
  | spiTransfer site tx rx => exact hc
  | _ => trivial

inductive I2cStation
  | i2c (T : I2cTransport)
  | paged (T : PagedI2cTransport)

namespace I2cStation

abbrev toByteTransport : I2cStation → ByteTransport
  | .i2c T => .i2c T
  | .paged T => .paged T

def deviceAddr : I2cStation → Byte
  | .i2c T => T.deviceAddr
  | .paged T => T.deviceAddr

end I2cStation

section Addressing

variable {addr : Byte}

theorem DriverProg.only_i2cWrite_to (site : Site) (tx : List Byte) :
    (DriverProg.i2cWrite site addr tx).Only (DriverCmd.To addr) :=
  .call rfl .ret

theorem DriverProg.only_i2cWriteRead_to (tx rx : List Byte) :
    (DriverProg.i2cWriteRead addr tx rx).Only (DriverCmd.To addr) :=
  .call rfl .ret

theorem DriverProg.only_writeFrame_to (addrBytes data : List Byte) :
    (DriverProg.writeFrame addrBytes data).Only (DriverCmd.To addr) :=
  (only_writeFrame_local _ _).mono fun _ hc => hc.to addr

theorem DriverProg.only_reportFailure_to (isVoid ok : Bool) (msg : String) :
    (DriverProg.reportFailure isVoid ok msg).Only (DriverCmd.To addr) :=
  (only_reportFailure_local _ _ _).mono fun _ hc => hc.to addr

theorem I2cTransport.only_rawWrite_to (T : I2cTransport) (regAddr : BitVec T.addressWidth.bits)
    (data : List Byte) : (T.rawWrite regAddr data).Only (DriverCmd.To T.deviceAddr) :=
  (DriverProg.only_writeFrame_to _ _).bind fun _ => (DriverProg.only_i2cWrite_to _ _).bind fun _ =>
    DriverProg.only_reportFailure_to _ _ _

theorem I2cTransport.only_rawRead_to (T : I2cTransport) (regAddr : BitVec T.addressWidth.bits)
    (data : List Byte) : (T.rawRead regAddr data).Only (DriverCmd.To T.deviceAddr) :=
  (DriverProg.only_i2cWriteRead_to _ _).bind fun _ =>
    (DriverProg.only_reportFailure_to _ _ _).bind fun _ => .ret _

namespace PagedI2cTransport

variable (T : PagedI2cTransport) (regAddr : BitVec 16)

theorem only_selectPage_to (c : PageCache) :
    (T.selectPage regAddr c).Only (DriverCmd.To T.deviceAddr) := by
  by_cases hc : c.Hits (pageOf regAddr)
  · rw [selectPage_hit hc]
    exact .ret _
  · rw [selectPage_miss hc]
    refine (DriverProg.only_i2cWrite_to _ _).bind fun ok => ?_
    split_ifs
    · exact .ret _
    · exact .call trivial fun _ => .ret _

theorem only_rawRead_to (data : List Byte) (c : PageCache) :
    (T.rawRead regAddr data c).Only (DriverCmd.To T.deviceAddr) := by
  apply (T.only_selectPage_to regAddr c).bind
  rintro ⟨selected, c⟩
  dsimp only
  split_ifs
  · exact .call trivial fun _ => .ret _
  · refine (DriverProg.only_i2cWriteRead_to _ _).bind ?_
    rintro ⟨ok, rx⟩
    dsimp only
    split_ifs
    · exact .call trivial fun _ => .call trivial fun _ => .ret _
    · exact .ret _

theorem only_rawWrite_to (data : List Byte) (c : PageCache) :
    (T.rawWrite regAddr data c).Only (DriverCmd.To T.deviceAddr) := by
  rw [rawWrite]
  split_ifs
  · exact .call trivial fun _ => .ret _
  · apply (T.only_selectPage_to regAddr c).bind
    rintro ⟨selected, c⟩
    dsimp only
    split_ifs
    · exact .ret _
    · exact (DriverProg.only_writeFrame_to _ _).bind fun _ =>
        (DriverProg.only_i2cWrite_to _ _).bind fun _ =>
          (DriverProg.only_reportFailure_to _ _ _).bind fun _ => .ret _

end PagedI2cTransport

end Addressing

namespace I2cStation

/-- A transport talks to nobody but its device. -/
theorem only_regOps_to (S : I2cStation) (c : RegCmd r) (t : S.toByteTransport.State) :
    (S.toByteTransport.adapter.regOps c t).Only (DriverCmd.To S.deviceAddr) := by
  cases S with
  | i2c T =>
    cases c with
    | regRead =>
      exact .call trivial fun area => ((T.only_rawRead_to _ _).map _).bind fun _ => .ret _
    | regWrite value => exact (T.only_rawWrite_to _ _).map _
    | onRangeError msg => exact .call trivial fun _ => .ret _
  | paged T =>
    cases c with
    | regRead => exact .call trivial fun area => (T.only_rawRead_to _ _ t).bind fun _ => .ret _
    | regWrite value => exact T.only_rawWrite_to _ _ t
    | onRangeError msg => exact .call trivial fun _ => .ret _

end I2cStation

namespace ByteTransport

/-- The state of a new transport object. -/
def construct : (T : ByteTransport) → T.State
  | .i2c _ => ()
  | .spi _ => ()
  | .paged _ => {}

/-- Typed operations through one transport object, one after the other. -/
def process (T : ByteTransport) (checkPolicy : Bool) :
    List TypedOp → T.State → DriverProg (List OpResult × T.State)
  | [], t => .ret ([], t)
  | a :: ops, t => do
    let (result, t) ← T.adapter.run checkPolicy a.op t
    let (results, t) ← T.process checkPolicy ops t
    return (result :: results, t)

variable {δ : Type} (T : ByteTransport) (D : Target δ) (area : Nat → Byte)

theorem run_process (checkPolicy : Bool) (ops : List TypedOp) (t : T.State) (b : Bus δ) :
    (T.process checkPolicy ops t).run (D.bus T.driver area) b =
      let x := execute (fun (a : TypedOp) (s : T.State × Bus δ) =>
        T.perform D area checkPolicy a.op s.1 s.2) ops (t, b)
      ((x.1, x.2.1), x.2.2) := by
  induction ops generalizing t b with
  | nil => rfl
  | cons a ops ih =>
    rw [process, Prog.run_bind, Prog.run_bind, ih, execute_cons]
    rfl

end ByteTransport

/-- I2C devices behind one driver; a device acknowledges its own address. -/
structure SharedI2c (κ : Type) where
  station : κ → I2cStation
  δ : κ → Type
  D : (i : κ) → Target (δ i)
  area : Nat → Byte
  device? : Byte → Option κ
  acknowledges : ∀ i, device? (station i).deviceAddr = some i

def DriverCmd.deviceAddr? : DriverCmd → Option Byte
  | .i2cWrite _ deviceAddr _ => some deviceAddr
  | .i2cWriteRead deviceAddr _ _ => some deviceAddr
  | _ => none

/-- The response to a transaction that no device acknowledges. -/
def DriverCmd.notAcknowledged : (c : DriverCmd) → c.Resp
  | .i2cWrite _ _ _ => false
  | .i2cWriteRead _ _ _ => (false, fun _ => 0)
  | .spiTransfer _ _ _ => (false, fun _ => 0)
  | .uninitialized _ => fun _ => 0
  | .onRangeError _ => ()
  | .onTransportError _ => ()
  | .memset _ => ()
  | .outOfBounds _ _ => ()

/-- A context with a transport to one of the devices, for the lifetime of the transport object. -/
structure I2cProcess (κ : Type) where
  device : κ
  checkPolicy : Bool
  ops : List TypedOp

namespace SharedI2c

variable (S : SharedI2c κ)

abbrev transport (i : κ) : ByteTransport := (S.station i).toByteTransport

/-- Each device with the calls and errors of its driver, and how the next ones end. -/
abbrev State : Type := (i : κ) → Bus (S.δ i)

/-- Who answers a command of a context: the addressed device, or its own surroundings. -/
def responder (i : κ) (c : DriverCmd) : Option κ :=
  match c.deviceAddr? with
  | some addr => S.device? addr
  | none => some i

def prog (p : I2cProcess κ) : DriverProg (List OpResult) :=
  Prod.fst <$> (S.transport p.device).process p.checkPolicy p.ops (S.transport p.device).construct

/-- The bus of a device that has it to itself. -/
def ownBus (i : κ) : DriverHandler (Bus (S.δ i)) := (S.D i).bus (S.transport i).driver S.area

theorem responder_of_to {i : κ} {c : DriverCmd} (hc : c.To (S.station i).deviceAddr) :
    S.responder i c = some i := by
  cases c with
  | i2cWrite site deviceAddr tx =>
    obtain rfl : deviceAddr = _ := hc
    exact S.acknowledges i
  | i2cWriteRead deviceAddr tx rx =>
    obtain rfl : deviceAddr = _ := hc
    exact S.acknowledges i
  | _ => rfl

theorem only_process_to (i : κ) (checkPolicy : Bool) (ops : List TypedOp)
    (t : (S.transport i).State) :
    ((S.transport i).process checkPolicy ops t).Only (DriverCmd.To (S.station i).deviceAddr) := by
  induction ops generalizing t with
  | nil => exact .ret _
  | cons a ops ih =>
    have hall : (a.op.prog checkPolicy).Only fun _ => True := by
      generalize a.op.prog checkPolicy = p
      induction p with
      | ret x => exact .ret x
      | call c next ih => exact .call trivial ih
    have hrun : ((S.transport i).adapter.run checkPolicy a.op t).Only
        (DriverCmd.To (S.station i).deviceAddr) :=
      hall.translate (fun c t _ => (S.station i).only_regOps_to c t) t
    exact hrun.bind fun x => (ih x.2).bind fun y => .ret _

variable [DecidableEq κ]

def handler (i : κ) : DriverHandler S.State := fun c s =>
  match S.responder i c with
  | some j =>
    let x := (S.D j).bus (S.transport i).driver S.area c (s j)
    (x.1, Function.update s j x.2)
  | none => (c.notAcknowledged, s)

theorem handler_of_to {i : κ} {c : DriverCmd} (hc : c.To (S.station i).deviceAddr) (s : S.State) :
    S.handler i c s = ((S.ownBus i c (s i)).1, Function.update s i (S.ownBus i c (s i)).2) := by
  rw [handler, S.responder_of_to hc]
  rfl

abbrev ProcessPool : Type := Pool κ (fun _ : I2cProcess κ => DriverCmd) (fun _ => DriverCmd.Resp)
  (List OpResult) S.State

abbrev ProcessEvent : Type := PoolEvent Empty κ (fun _ : I2cProcess κ => DriverCmd)
  (fun _ => DriverCmd.Resp) (List OpResult) S.State

/-- Contexts that preempt each other between two driver calls, each with a device of its own. -/
def step (Admitted : I2cProcess κ → Prop) : S.ProcessPool → S.ProcessEvent → S.ProcessPool → Prop :=
  PoolStep (fun p => S.handler p.device) S.prog Empty.elim
    fun i p => p.device = i ∧ Admitted p

theorem separates : Separates (fun p : I2cProcess κ => S.handler p.device)
    (fun i p c => p.device = i ∧ c.To (S.station i).deviceAddr) (fun i s => s i)
    (fun i _ => S.ownBus i) where
  response := by
    rintro i p c s ⟨rfl, hc⟩
    rw [S.handler_of_to hc]
  own := by
    rintro i p c s ⟨rfl, hc⟩
    rw [S.handler_of_to hc]
    exact Function.update_self _ _ _
  other := by
    rintro i p c s j ⟨rfl, hc⟩ hj
    rw [S.handler_of_to hc]
    exact Function.update_of_ne hj _ _

/-- Transports with different device addresses do not notice each other on a bus, whatever fails
and however their driver calls interleave: every process has the results, and every device the
history, of a bus that it has to itself. -/
theorem processes_isolated {s0 : S.State} {evs : List S.ProcessEvent} {c : S.ProcessPool}
    (hr : Run (S.step Admitted) (Pool.idle s0) evs c) (i : κ) :
    c.ActsAlone S.prog (fun i _ => S.ownBus i) (fun i s => s i) s0 evs i := by
  refine S.separates.acts_alone ?_ hr i
  rintro i p ⟨rfl, _⟩
  refine Prog.Only.mono ?_ fun c hc => ⟨rfl, hc⟩
  exact (S.only_process_to p.device p.checkPolicy p.ops _).map _

end SharedI2c

/-- A device that keeps registers, and the map of the registers. -/
inductive RegisterDevice
  | i2c (T : I2cTransport) (M : RegisterMap T.addressWidth.bits)
  | paged (T : PagedI2cTransport) (M : PagedMap T.pageSelectAddr)

namespace RegisterDevice

def station : RegisterDevice → I2cStation
  | .i2c T _ => .i2c T
  | .paged T _ => .paged T

abbrev transport (d : RegisterDevice) : ByteTransport := d.station.toByteTransport

abbrev δ : RegisterDevice → Type
  | .i2c T _ => Mem T.addressWidth.bits
  | .paged _ _ => Chip

def target : (d : RegisterDevice) → Target d.δ
  | .i2c T _ => T.memory
  | .paged T _ => Chip.target T.pageSelectAddr

def regs : RegisterDevice → List Register
  | .i2c _ M => M.regs
  | .paged _ M => M.regs

/-- The register store that a device holds. -/
def storeOf : (d : RegisterDevice) → d.δ → Store
  | .i2c T M, mem => M.storeOf T.dataEndian mem
  | .paged _ M, chip => M.storeOf .little chip.flat

/-- The device encodes the store; what is not of a register is as it was at first. -/
def Holds : (d : RegisterDevice) → d.δ → Store → d.δ → Prop
  | .i2c T M, first, store, mem => M.Encodes T.dataEndian first store mem
  | .paged _ M, first, store, chip => M.Encodes .little first.flat store chip.flat

/-- Also: the bus succeeds from now on, and the cache of the transport is right. -/
def Refines : (d : RegisterDevice) → d.δ → d.transport.State × Bus d.δ → Store → Prop
  | .i2c T M, first, s, store => FlatTransport.Refines (.i2c T) M first s store
  | .paged _ M, first, s, store => PagedI2cTransport.Refines M.toRegisterMap first.flat s store

theorem Refines.perform {d : RegisterDevice} {first : d.δ} {s : d.transport.State × Bus d.δ}
    (h : d.Refines first s store) (area : Nat → Byte) (hr : r ∈ d.regs) (checkPolicy : Bool)
    (op : Op r) :
    let x := d.transport.perform d.target area checkPolicy op s.1 s.2
    x.1 = ((op.prog checkPolicy).run storeRegisters store).1 ∧
      d.Refines first x.2 ((op.prog checkPolicy).run storeRegisters store).2 := by
  cases d with
  | i2c T M =>
    exact FlatTransport.Refines.perform (T := .i2c T) h trivial (fun _ => 0) area hr checkPolicy op
  | paged T M => exact PagedI2cTransport.Refines.perform h area hr checkPolicy op

/-- A new transport object knows nothing that could be wrong. -/
theorem refines_construct {d : RegisterDevice} {first : d.δ} {b : Bus d.δ} (hb : b.script = [])
    (hd : d.Holds first store b.device) : d.Refines first (d.transport.construct, b) store := by
  cases d with
  | i2c T M => exact ⟨hb, hd⟩
  | paged T M => exact ⟨hb, nofun, hd⟩

theorem Refines.holds {d : RegisterDevice} {first : d.δ} {s : d.transport.State × Bus d.δ}
    (h : d.Refines first s store) : s.2.script = [] ∧ d.Holds first store s.2.device := by
  cases d with
  | i2c T M => exact ⟨h.1, h.2⟩
  | paged T M => exact ⟨h.script, h.encodes⟩

theorem holds_storeOf (d : RegisterDevice) (first : d.δ) :
    d.Holds first (d.storeOf first) first := by
  cases d with
  | i2c T M => exact M.encodes_storeOf T.dataEndian first
  | paged T M => exact M.encodes_storeOf .little first.flat

/-- A process on a bus of its own has the results of the store. -/
theorem run_process (d : RegisterDevice) {first : d.δ} (area : Nat → Byte) (checkPolicy : Bool)
    {ops : List TypedOp} (ho : ∀ a ∈ ops, a.reg ∈ d.regs) {b : Bus d.δ} (hb : b.script = [])
    (hd : d.Holds first store b.device) :
    let x := (Prod.fst <$> d.transport.process checkPolicy ops d.transport.construct).run
      (d.target.bus d.transport.driver area) b
    let onStore := FlatTransport.storeAll checkPolicy ops store
    x.1 = onStore.1 ∧ x.2.script = [] ∧ d.Holds first onStore.2 x.2.device := by
  have hsim := execute_sim (R := d.Refines first) ops
    (fun a ha s store h => h.perform area (ho a ha) checkPolicy a.op) (refines_construct hb hd)
  simp only [Prog.run_map, ByteTransport.run_process]
  exact ⟨hsim.1, hsim.2.holds⟩

end RegisterDevice

section Stores

variable [DecidableEq κ]

/-- The devices on a bus where every address is acknowledged by its device. -/
structure RegisterBus (κ : Type) where
  device : κ → RegisterDevice
  area : Nat → Byte
  device? : Byte → Option κ
  acknowledges : ∀ i, device? (device i).station.deviceAddr = some i

def RegisterBus.shared (B : RegisterBus κ) : SharedI2c κ where
  station i := (B.device i).station
  δ i := (B.device i).δ
  D i := (B.device i).target
  area := B.area
  device? := B.device?
  acknowledges := B.acknowledges

/-- Register devices behind one I2C bus, flat or paged, each used through its own transport, are
independent register stores: however the driver calls of the processes interleave, each process
returns what it returns on the store of its device, which the device encodes in the end. -/
theorem shared_bus_stores (B : RegisterBus κ) (first : (i : κ) → (B.device i).δ)
    {evs : List B.shared.ProcessEvent} {c : B.shared.ProcessPool}
    (hr : Run (B.shared.step fun p => ∀ a ∈ p.ops, a.reg ∈ (B.device p.device).regs)
      (Pool.idle fun i => { device := first i }) evs c) (i : κ) :
    let finished := evs.filterMap (PoolEvent.finished? i)
    let onStore := execute (fun (p : I2cProcess κ) store =>
      FlatTransport.storeAll p.checkPolicy p.ops store) (finished.map Prod.fst)
        ((B.device i).storeOf (first i))
    finished.map Prod.snd = onStore.1 ∧
      (c.running i = none → (B.device i).Holds (first i) onStore.2 (c.state i).device) := by
  obtain ⟨s, halone, hcont⟩ := B.shared.processes_isolated hr i
  have hsim := execute_sim (R := fun (b : Bus (B.device i).δ) store =>
      b.script = [] ∧ (B.device i).Holds (first i) store b.device)
    (f := fun p b => (B.shared.prog p).run (B.shared.ownBus i) b)
    (g := fun (p : I2cProcess κ) store => FlatTransport.storeAll p.checkPolicy p.ops store)
    (s := { device := first i }) ((evs.filterMap (PoolEvent.finished? i)).map Prod.fst)
    (by
      intro p hp b store hb
      obtain ⟨⟨p, results⟩, hfin, rfl⟩ := List.mem_map.mp hp
      obtain ⟨rfl, ho⟩ := Pool.finished_admitted hr hfin
      exact (B.device p.device).run_process B.area p.checkPolicy ho hb.1 hb.2)
    ⟨rfl, (B.device i).holds_storeOf (first i)⟩
  rw [halone] at hsim
  refine ⟨hsim.1, fun hnone => ?_⟩
  rw [Pool.Continues, hnone] at hcont
  rw [hcont]
  exact hsim.2.2

end Stores

def sensorLevel : Register :=
  .declare ({ allowedTransports := [.i2c] } : Device).toParent 0x02 .bits8

def sensor : I2cTransport := { native := .little, deviceAddr := 0x20 }

def sensorMap : RegisterMap sensor.addressWidth.bits where
  regs := [sensorLevel]
  inside := by
    intro r hr
    obtain rfl := List.mem_singleton.mp hr
    decide
  apart := by
    intro r hr q hq
    obtain rfl := List.mem_singleton.mp hr
    obtain rfl := List.mem_singleton.mp hq
    exact .inl ⟨rfl, rfl⟩

def codecAndSensor : RegisterBus Bool where
  device i := if i then .paged codec codecMap else .i2c sensor sensorMap
  area := fun _ => 0
  device? addr := if addr = 0x30 then some true else if addr = 0x20 then some false else none
  acknowledges := by
    rintro (_ | _)
    · rfl
    · rfl

def codecAndSensorFirst : (i : Bool) → (codecAndSensor.device i).δ
  | true => codecChip
  | false => fun _ => 0x5A

def setVolumeProcess : I2cProcess Bool := ⟨true, true, [setVolume]⟩

def readLevelProcess : I2cProcess Bool := ⟨false, true, [⟨(.read : Op sensorLevel)⟩]⟩

/-- The page select of a write to the codec fails while the sensor is read. -/
theorem processes_isolated_failure : ∃ (evs : List codecAndSensor.shared.ProcessEvent)
    (c : codecAndSensor.shared.ProcessPool),
    (c.state true).errors = ["Paged I2C page-select write failed"] ∧
      ∀ i, c.ActsAlone codecAndSensor.shared.prog (fun i _ => codecAndSensor.shared.ownBus i)
        (fun i s => s i) (fun i => { device := codecAndSensorFirst i, script := [{ ok := !i }] })
        evs i := by
  have hr : Run (codecAndSensor.shared.step fun _ => True)
      (Pool.idle fun i => { device := codecAndSensorFirst i, script := [{ ok := !i }] }) _ _ :=
    .snoc (.snoc (.snoc (.snoc (.snoc (.snoc (.snoc .nil
      (.start _ _ true setVolumeProcess rfl ⟨rfl, trivial⟩))
      (.start _ _ false readLevelProcess rfl ⟨rfl, trivial⟩))
      (.command _ _ false readLevelProcess _ _ _ rfl))
      (.command _ _ true setVolumeProcess _ _ _ rfl))
      (.command _ _ false readLevelProcess _ _ _ rfl))
      (.command _ _ true setVolumeProcess _ _ _ rfl))
      (.finish _ _ false readLevelProcess _ _ rfl)
  exact ⟨_, _, rfl, fun i => codecAndSensor.shared.processes_isolated hr i⟩

/-- The sensor is read between the page select and the data frame of a write to the codec. -/
theorem shared_bus_stores_codec : ∃ (evs : List codecAndSensor.shared.ProcessEvent)
    (c : codecAndSensor.shared.ProcessPool),
    (evs.filterMap (PoolEvent.finished? false)).map Prod.snd = [[.bits 8 0x5A]] ∧
      codecMap.Encodes .little codecChip.flat
        (FlatTransport.storeAll true [setVolume] (codecMap.storeOf .little codecChip.flat)).2
          (c.state true).device.flat := by
  have hcodec : setVolumeProcess.device = true ∧ ∀ a ∈ setVolumeProcess.ops,
      a.reg ∈ (codecAndSensor.device setVolumeProcess.device).regs := by
    refine ⟨rfl, fun a ha => ?_⟩
    obtain rfl := List.mem_singleton.mp ha
    exact List.mem_singleton_self _
  have hsensor : readLevelProcess.device = false ∧ ∀ a ∈ readLevelProcess.ops,
      a.reg ∈ (codecAndSensor.device readLevelProcess.device).regs := by
    refine ⟨rfl, fun a ha => ?_⟩
    obtain rfl := List.mem_singleton.mp ha
    exact List.mem_singleton_self _
  have hr : Run (codecAndSensor.shared.step fun p =>
        ∀ a ∈ p.ops, a.reg ∈ (codecAndSensor.device p.device).regs)
      (Pool.idle fun i => { device := codecAndSensorFirst i }) _ _ :=
    .snoc (.snoc (.snoc (.snoc (.snoc (.snoc (.snoc (.snoc .nil
      (.start _ _ true setVolumeProcess rfl hcodec))
      (.command _ _ true setVolumeProcess _ _ _ rfl))
      (.start _ _ false readLevelProcess rfl hsensor))
      (.command _ _ false readLevelProcess _ _ _ rfl))
      (.command _ _ false readLevelProcess _ _ _ rfl))
      (.finish _ _ false readLevelProcess _ _ rfl))
      (.command _ _ true setVolumeProcess _ _ _ rfl))
      (.finish _ _ true setVolumeProcess _ _ rfl)
  obtain ⟨hresults, _⟩ := shared_bus_stores codecAndSensor codecAndSensorFirst hr false
  obtain ⟨_, hholds⟩ := shared_bus_stores codecAndSensor codecAndSensorFirst hr true
  exact ⟨_, _, hresults.trans rfl, hholds rfl⟩

end Umimmio
