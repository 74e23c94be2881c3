import Umimmio.ByteDevice
import Umimmio.LatchPolling
import Umimmio.Lib.FailStop

namespace Umimmio
open Effects Bytes
set_option autoImplicit true

variable {r : Register} {δ : Type}

/-- The driver function can report a failure, and reports one. -/
def DriverType.Reports (driver : DriverType) : (c : DriverCmd) → c.Resp → Prop
  | .i2cWrite _ _ _, ok => driver.voidWrite = false ∧ (ok : Bool) = false
  | .i2cWriteRead _ _ _, x => driver.voidWriteRead = false ∧ (x : Bool × (Nat → Byte)).1 = false
  | .spiTransfer _ _ _, x => driver.voidTransfer = false ∧ (x : Bool × (Nat → Byte)).1 = false
  | _, _ => False

def DriverCmd.IsMemset : DriverCmd → Prop
  | .memset _ => True
  | _ => False

def DriverCmd.IsTransportError : DriverCmd → Prop
  | .onTransportError _ => True
  | _ => False

/-- After a failed driver call the program asks for nothing but memory until it has called the
error policy. -/
abbrev DriverProg.ReportsFailures (driver : DriverType) (p : DriverProg α) : Prop :=
  p.FailStop driver.Reports DriverCmd.IsMemset DriverCmd.IsTransportError

namespace DriverProg

variable {driver : DriverType}

theorem halting_reportFailure (msg : String) :
    (reportFailure false false msg).Halting DriverCmd.IsMemset DriverCmd.IsTransportError :=
  .halt trivial

theorem reportsFailures_of_local {p : DriverProg α} (hp : p.Only DriverCmd.IsLocal) :
    p.ReportsFailures driver := by
  refine Prog.Only.failStop hp fun c x hc hx => ?_
  cases c with
  | i2cWrite site deviceAddr tx => exact hc.elim
  | i2cWriteRead deviceAddr tx rx => exact hc.elim
  | spiTransfer site tx rx => exact hc.elim
  | _ => exact hx.elim

theorem reportsFailures_reportFailure (isVoid ok : Bool) (msg : String) :
    (reportFailure isVoid ok msg).ReportsFailures driver :=
  reportsFailures_of_local (only_reportFailure_local _ _ _)

theorem reportsFailures_span (buf : List Byte) (size : Nat) :
    (span buf size).ReportsFailures driver :=
  reportsFailures_of_local (only_span_local _ _)

theorem reportsFailures_writeFrame (addrBytes data : List Byte) :
    (writeFrame addrBytes data).ReportsFailures driver :=
  reportsFailures_of_local (only_writeFrame_local _ _)

theorem reportsFailures_memcpyFrom (bytes : List Byte) (offset size capacity : Nat) :
    (memcpyFrom bytes offset size capacity).ReportsFailures driver :=
  reportsFailures_of_local (only_memcpyFrom_local _ _ _ _)

end DriverProg

namespace I2cTransport

variable (T : I2cTransport) (regAddr : BitVec T.addressWidth.bits) (data : List Byte)

theorem reportsFailures_rawWrite : (T.rawWrite regAddr data).ReportsFailures T.driver := by
  refine (DriverProg.reportsFailures_writeFrame _ _).bind fun frame => .command_bind ?_ fun ok =>
    DriverProg.reportsFailures_reportFailure _ _ _
  rintro ok ⟨hvoid, rfl⟩
  rw [hvoid]
  exact DriverProg.halting_reportFailure _

theorem reportsFailures_rawRead : (T.rawRead regAddr data).ReportsFailures T.driver := by
  refine .command_bind ?_ fun x =>
    (DriverProg.reportsFailures_reportFailure _ _ _).bind fun _ => .ret _
  rintro ⟨ok, rx⟩ ⟨hvoid, rfl⟩
  dsimp only
  rw [hvoid]
  exact (DriverProg.halting_reportFailure _).bind _

end I2cTransport

namespace SpiTransport

variable (T : SpiTransport) (regAddr : BitVec T.addressWidth.bits) (data : List Byte)

theorem reportsFailures_rawWrite : (T.rawWrite regAddr data).ReportsFailures T.driver := by
  refine (DriverProg.reportsFailures_writeFrame _ _).bind fun tx => .command_bind ?_ fun x =>
    DriverProg.reportsFailures_reportFailure _ _ _
  rintro ⟨ok, rx⟩ ⟨hvoid, rfl⟩
  dsimp only
  rw [hvoid]
  exact DriverProg.halting_reportFailure _

theorem reportsFailures_rawRead : (T.rawRead regAddr data).ReportsFailures T.driver := by
  refine (DriverProg.reportsFailures_span _ _).bind fun tx =>
    (DriverProg.reportsFailures_span _ _).bind fun rx => .command_bind ?_ fun x =>
      (DriverProg.reportsFailures_reportFailure _ _ _).bind fun _ =>
        DriverProg.reportsFailures_memcpyFrom _ _ _ _
  rintro ⟨ok, rx⟩ ⟨hvoid, rfl⟩
  dsimp only
  rw [hvoid]
  exact (DriverProg.halting_reportFailure _).bind _

end SpiTransport

namespace PagedI2cTransport

variable (T : PagedI2cTransport) (regAddr : BitVec 16)

theorem reportsFailures_selectPage (c : PageCache) :
    (T.selectPage regAddr c).ReportsFailures T.driver := by
  by_cases hc : c.Hits (pageOf regAddr)
  · rw [selectPage_hit hc]
    exact .ret _
  · rw [selectPage_miss hc]
    refine .command_bind ?_ fun ok => ?_
    · rintro ok ⟨hvoid, rfl⟩
      rw [hvoid]
      exact .halt trivial
    · split_ifs
      · exact .ret _
      · exact .call (fun _ hx => hx.elim) fun _ => .ret _

theorem reportsFailures_rawRead (data : List Byte) (c : PageCache) :
    (T.rawRead regAddr data c).ReportsFailures T.driver := by
  apply (T.reportsFailures_selectPage regAddr c).bind
  rintro ⟨selected, c⟩
  dsimp only
  split_ifs
  · exact .call (fun _ hx => hx.elim) fun _ => .ret _
  · refine .command_bind ?_ ?_
    · rintro ⟨ok, rx⟩ ⟨hvoid, rfl⟩
      dsimp only
      rw [hvoid]
      exact .quiet trivial fun _ => .halt trivial
    · rintro ⟨ok, rx⟩
      dsimp only
      split_ifs
      · exact .call (fun _ hx => hx.elim) fun _ => .call (fun _ hx => hx.elim) fun _ => .ret _
      · exact .ret _

theorem reportsFailures_rawWrite (data : List Byte) (c : PageCache) :
    (T.rawWrite regAddr data c).ReportsFailures T.driver := by
  rw [rawWrite]
  split_ifs
  · exact .call (fun _ hx => hx.elim) fun _ => .ret _
  · apply (T.reportsFailures_selectPage regAddr c).bind
    rintro ⟨selected, c⟩
    dsimp only
    split_ifs
    · exact .ret _
    · refine (DriverProg.reportsFailures_writeFrame _ _).bind fun frame => .command_bind ?_
        fun ok => (DriverProg.reportsFailures_reportFailure _ _ _).bind fun _ => .ret _
      rintro ok ⟨hvoid, rfl⟩
      rw [hvoid]
      exact (DriverProg.halting_reportFailure _).bind _

end PagedI2cTransport

namespace ByteTransport

variable (T : ByteTransport)

theorem reportsFailures_regOps (c : RegCmd r) (t : T.State) :
    (T.adapter.regOps c t).ReportsFailures T.driver := by
  cases c with
  | regRead =>
    refine .call (fun _ hx => hx.elim) fun area => ?_
    cases T with
    | i2c T => exact ((T.reportsFailures_rawRead _ _).map _).bind fun _ => .ret _
    | spi T => exact ((T.reportsFailures_rawRead _ _).map _).bind fun _ => .ret _
    | paged T => exact (T.reportsFailures_rawRead _ _ t).bind fun _ => .ret _
  | regWrite value =>
    cases T with
    | i2c T => exact (T.reportsFailures_rawWrite _ _).map _
    | spi T => exact (T.reportsFailures_rawWrite _ _).map _
    | paged T => exact T.reportsFailures_rawWrite _ _ t
  | onRangeError msg => exact .call (fun _ hx => hx.elim) fun _ => .ret _

theorem reportsFailures_process (checkPolicy : Bool) (ops : List TypedOp) (t : T.State) :
    (T.process checkPolicy ops t).ReportsFailures T.driver := by
  induction ops generalizing t with
  | nil => exact .ret _
  | cons a ops ih =>
    have hrun : (T.adapter.run checkPolicy a.op t).ReportsFailures T.driver :=
      Prog.FailStop.translate T.reportsFailures_regOps _ t
    exact hrun.bind fun x => (ih x.2).bind fun y => .ret _

end ByteTransport

/-- The bus under an error policy that ends the program. -/
def Target.trapping (D : Target δ) (driver : DriverType) (area : Nat → Byte) :
    PartialHandler DriverCmd DriverCmd.Resp (Bus δ)
  | .onRangeError _, _ => none
  | .onTransportError _, _ => none
  | c, b => some (D.bus driver area c b)

section Trapping

variable {D : Target δ} {driver : DriverType} {area : Nat → Byte}

theorem Target.trapping_none (c : DriverCmd) (b : Bus δ) (hc : c.IsTransportError) :
    D.trapping driver area c b = none := by
  cases c with
  | onTransportError msg => rfl
  | _ => exact hc.elim

theorem Target.trapping_isSome (c : DriverCmd) (b : Bus δ) (hc : c.IsMemset) :
    (D.trapping driver area c b).isSome := by
  cases c with
  | memset size => rfl
  | _ => exact hc.elim

theorem Bus.ok_of_not_reported {b : Bus δ} {isVoid : Bool}
    (h : ¬ (isVoid = false ∧ (b.outcome isVoid).ok = false)) : (b.outcome isVoid).ok = true := by
  cases hok : (b.outcome isVoid).ok with
  | true => rfl
  | false => exact absurd ⟨b.void_of_failed isVoid hok, hok⟩ h

theorem Target.trapping_lockstep {c : DriverCmd} {b b' : Bus δ} {x : c.Resp × Bus δ}
    (hs : b'.script = [] ∧ b'.device = b.device) (hx : D.trapping driver area c b = some x)
    (hgood : ¬ driver.Reports c x.1) :
    x.1 = (D.bus driver area c b').1 ∧
      (D.bus driver area c b').2.script = [] ∧ (D.bus driver area c b').2.device = x.2.device := by
  obtain ⟨hscript, hdev⟩ := hs
  have hout := Bus.outcome_nil hscript
  have htail : b'.script.tail = [] := by rw [hscript, List.tail_nil]
  cases c with
  | i2cWrite site deviceAddr tx =>
    cases hx
    have hok := Bus.ok_of_not_reported hgood
    refine ⟨hok.trans (by simp only [Target.bus, hout]), htail, ?_⟩
    simp only [Target.bus]
    rw [Bus.sent_device_of_ok hok, Bus.sent_device_of_ok (by rw [hout]), hdev]
  | i2cWriteRead deviceAddr tx rx =>
    cases hx
    have hok := Bus.ok_of_not_reported hgood
    refine ⟨?_, htail, hdev⟩
    simp only [Target.bus, Bus.received]
    rw [hok, hout, hdev]
    rfl
  | spiTransfer site tx rx =>
    cases hx
    have hok := Bus.ok_of_not_reported hgood
    refine ⟨?_, htail, ?_⟩
    · simp only [Target.bus, Bus.received]
      rw [hok, hout, hdev]
      rfl
    · simp only [Target.bus]
      rw [Bus.sent_device_of_ok hok, Bus.sent_device_of_ok (by rw [hout]), hdev]
  | onRangeError msg => cases hx
  | onTransportError msg => cases hx
  | memset size =>
    cases hx
    exact ⟨rfl, hscript, hdev⟩
  | uninitialized size =>
    cases hx
    exact ⟨rfl, hscript, hdev⟩
  | outOfBounds used capacity =>
    cases hx
    exact ⟨rfl, hscript, hdev⟩

theorem Target.trapping_returned {p : DriverProg α} (hp : p.ReportsFailures driver) {b : Bus δ}
    {x : α} {b' : Bus δ} (hx : p.outcome (D.trapping driver area) b = some (x, b')) :
    let y := p.run (D.bus driver area) { device := b.device }
    x = y.1 ∧ y.2.script = [] ∧ y.2.device = b'.device :=
  hp.outcome_sim trapping_none (k := D.bus driver area)
    (Q := fun b b' => b'.script = [] ∧ b'.device = b.device)
    (fun _ _ _ _ hs hx hgood => trapping_lockstep hs hx hgood)
    (t := { device := b.device }) ⟨rfl, rfl⟩ hx

end Trapping

/-- Under an error policy that ends the program, a failed driver call is the last thing that
reaches the bus: what comes after it is the filling of the caller's memory and the error. -/
theorem fail_stop (T : ByteTransport) (D : Target δ) (area : Nat → Byte) (checkPolicy : Bool)
    (ops : List TypedOp) (t : T.State) (b : Bus δ)
    {before after : List ((c : DriverCmd) × Option c.Resp)} {c : DriverCmd} {x : c.Resp}
    (he : (T.process checkPolicy ops t).events (D.trapping T.driver area) b =
      before ++ ⟨c, some x⟩ :: after) (hx : T.driver.Reports c x) :
    (T.process checkPolicy ops t).outcome (D.trapping T.driver area) b = none ∧
      ∃ fills msg, after = fills ++ [⟨.onTransportError msg, none⟩] ∧
        ∀ e ∈ fills, e.1.IsMemset := by
  obtain ⟨hnone, fills, c', hafter, hfills, hc'⟩ :=
    (T.reportsFailures_process checkPolicy ops t).after Target.trapping_none
      Target.trapping_isSome he hx
  cases c' with
  | onTransportError msg => exact ⟨hnone, fills, msg, hafter, hfills⟩
  | _ => exact hc'.elim

theorem fail_stop_codec :
    ((ByteTransport.paged codec).process true [getVolume, setVolume] {}).outcome
        ((Chip.target codec.pageSelectAddr).trapping codec.driver fun _ => 0)
        { device := codecChip, script := [{}, { ok := false }] } = none := by
  have he : ((ByteTransport.paged codec).process true [getVolume, setVolume] {}).events
      ((Chip.target codec.pageSelectAddr).trapping codec.driver fun _ => 0)
      { device := codecChip, script := [{}, { ok := false }] } =
      [⟨.uninitialized 2, some fun _ => 0⟩, ⟨.i2cWrite .select 0x30 [0x00, 0x01], some true⟩] ++
        ⟨.i2cWriteRead 0x30 [0x10] [0, 0], some (false, fun _ => 0)⟩ ::
          [⟨.memset 2, some ()⟩, ⟨.onTransportError "Paged I2C read failed", none⟩] := rfl
  exact (fail_stop (.paged codec) (Chip.target codec.pageSelectAddr) (fun _ => 0) true
    [getVolume, setVolume] {} { device := codecChip, script := [{}, { ok := false }] } he
      ⟨rfl, rfl⟩).1

/-- A run of operations that returns under such a policy has the results of the store, and the
device holds what the store does, whichever calls the driver would have reported as failed. -/
theorem returned_refines_store (d : ByteDevice) (area : Nat → Byte) (checkPolicy : Bool)
    {ops : List TypedOp} (ho : ∀ a ∈ ops, a.reg ∈ d.regs) {t : d.transport.State} {b : Bus d.δ}
    {first : d.δ} {store : Store} (h : d.Refines first (t, { device := b.device }) store)
    {results : List OpResult} {t' : d.transport.State} {b' : Bus d.δ}
    (hx : (d.transport.process checkPolicy ops t).outcome
      (d.target.trapping d.transport.driver area) b = some ((results, t'), b')) :
    let onStore := FlatTransport.storeAll checkPolicy ops store
    results = onStore.1 ∧ d.Refines first (t', { device := b'.device }) onStore.2 := by
  obtain ⟨hvalue, hscript, hdev⟩ := Target.trapping_returned
    (d.transport.reportsFailures_process checkPolicy ops t) hx
  obtain ⟨hresults, hrefines⟩ := h.process area checkPolicy ho
  have hresults' := congrArg Prod.fst hvalue
  have hstate := congrArg Prod.snd hvalue
  refine ⟨hresults'.trans hresults, ?_⟩
  obtain rfl : t' = _ := hstate
  exact hrefines.of_device_eq rfl hdev.symm

theorem returned_refines_store_codec :
    [.done, .bits 16 0x1234] = (FlatTransport.storeAll true [setVolume, getVolume]
      (codecMap.storeOf .little codecChip.flat)).1 := by
  have hx : ((ByteTransport.paged codec).process true [setVolume, getVolume] {}).outcome
      ((Chip.target codec.pageSelectAddr).trapping codec.driver fun _ => 0)
      { device := codecChip, script := [{}, {}, {}, { ok := false }] } =
        some (([.done, .bits 16 0x1234], _), _) := rfl
  have hstart : (ByteDevice.i2c (.paged codec codecMap)).Refines codecChip
      ({}, { device := codecChip }) (codecMap.storeOf .little codecChip.flat) :=
    RegisterDevice.refines_construct (d := .paged codec codecMap) rfl
      (codecMap.encodes_storeOf .little codecChip.flat)
  refine (returned_refines_store (.i2c (.paged codec codecMap)) (fun _ => 0) true ?_ hstart hx).1
  intro a ha
  rcases List.mem_cons.mp ha with rfl | ha
  · exact List.mem_singleton_self _
  · obtain rfl := List.mem_singleton.mp ha
    exact List.mem_singleton_self _

theorem Target.outcome_trapping_iff (D : Target δ) (driver : DriverType) (area : Nat → Byte)
    (p : DriverProg α) (b : Bus δ) :
    let x := p.run (D.latching driver area) (b, false)
    p.outcome (D.trapping driver area) b = if x.2.2 = false then some (x.1, x.2.1) else none := by
  intro x
  have hgood : ∀ c (s : Bus δ × Bool), (D.latching driver area c s).2.2 = false → s.2 = false := by
    intro c s hs
    cases c with
    | onTransportError msg => cases hs
    | onRangeError msg => cases hs
    | _ => exact hs
  have hwithin := Prog.outcome_within (fun s : Bus δ × Bool => s.2 = false) hgood p
    (s := (b, false)) rfl
  have hmap := Prog.outcome_mapState (h := D.trapping driver area)
    (k := (D.latching driver area).within fun s : Bus δ × Bool => s.2 = false)
    (fun b => (b, false)) (fun c b => by cases c <;> rfl) p b
  have heq := hmap.symm.trans hwithin
  cases hout : p.outcome (D.trapping driver area) b with
  | none =>
    rw [hout, Option.map_none] at heq
    by_cases hl : x.2.2 = false
    · rw [if_pos hl] at heq
      cases heq
    · rw [if_neg hl]
  | some y =>
    rw [hout, Option.map_some] at heq
    by_cases hl : x.2.2 = false
    · rw [if_pos hl] at heq ⊢
      have hx : (y.1, y.2, false) = x := Option.some.inj heq
      rw [← hx]
    · rw [if_neg hl] at heq
      cases heq

/-- `LatchError` and the policies that end the program agree: the latch stays clear exactly in the
runs that return under the others, with the same results, driver calls and device. -/
theorem clear_latch_iff_returned (T : ByteTransport) (D : Target δ) (area : Nat → Byte)
    (checkPolicy : Bool) (ops : List TypedOp) (t : T.State) (b : Bus δ) :
    let x := (T.process checkPolicy ops t).run (D.latching T.driver area) (b, false)
    (T.process checkPolicy ops t).outcome (D.trapping T.driver area) b =
      if x.2.2 = false then some (x.1, x.2.1) else none :=
  D.outcome_trapping_iff T.driver area (T.process checkPolicy ops t) b

end Umimmio
