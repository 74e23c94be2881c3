import Umimmio.CrashConsistency

namespace Umimmio
open Effects Bytes
set_option autoImplicit true

variable {r : Register} {δ : Type}

theorem FlatTransport.device_registers (T : FlatTransport) (D : Target δ) (area : Nat → Byte)
    (c : RegCmd r) (s : T.toByteTransport.State × Bus δ) :
    (T.toByteTransport.registers D area c s).2.2.device = s.2.device ∨
      (T.toByteTransport.registers D area c s).2.2.device =
        (T.toByteTransport.registers D area c (s.1, { device := s.2.device })).2.2.device := by
  have hsent : ∀ isVoid site tx msg, ((s.2.sent D isVoid site tx).report
      (s.2.outcome isVoid).ok msg).device = s.2.device ∨
        ((s.2.sent D isVoid site tx).report (s.2.outcome isVoid).ok msg).device =
          ((({ device := s.2.device } : Bus δ).sent D isVoid site tx).report
            (Bus.outcome { device := s.2.device } isVoid).ok msg).device := by
    intro isVoid site tx msg
    have hok : (Bus.outcome { device := s.2.device } isVoid).ok = true := by
      rw [Bus.outcome_nil rfl]
    rw [Bus.report_device, Bus.report_device, Bus.sent_device_of_ok hok]
    exact s.2.sent_device_cases D isVoid site tx
  cases T with
  | i2c T =>
    cases c with
    | regRead =>
      refine .inl ?_
      rw [T.registers_read, Bus.report_device]
      rfl
    | regWrite value =>
      rw [T.registers_write, T.registers_write]
      exact hsent _ _ _ _
    | onRangeError msg => exact .inl rfl
  | spi T =>
    cases c with
    | regRead =>
      rw [T.registers_read, T.registers_read]
      exact hsent _ _ _ _
    | regWrite value =>
      rw [T.registers_write, T.registers_write]
      exact hsent _ _ _ _
    | onRangeError msg => exact .inl rfl

namespace PagedI2cTransport

variable {T : PagedI2cTransport} {area : Nat → Byte}

/-- No failed call reaches the chip, a valid cache names the chip's page, and the chip's memory
encodes the store. -/
structure Tracks (M : RegisterMap 16) (mem : Mem 16) (s : PageCache × Bus Chip)
    (store : Store) : Prop where
  lossless : ∀ o ∈ s.2.script, o.Lossless
  names : s.1.Names s.2.device.page
  encodes : M.Encodes .little mem store s.2.device.flat

theorem selectSent_of_fails {b : Bus Chip} {c : PageCache} {page : Byte}
    (hl : ∀ o ∈ b.script, o.Lossless) (hf : T.SelectFails page c b) :
    (T.selectSent (Chip.target T.pageSelectAddr) page b).device = b.device := by
  rw [selectSent, Bus.report_device]
  exact Bus.sent_device_of_failed hl hf.2 _ _

theorem selected_of_lossless {b : Bus Chip} {c : PageCache} {page : Byte}
    (hl : ∀ o ∈ b.script, o.Lossless) (hc : c.Names b.device.page)
    (hf : ¬ T.SelectFails page c b) :
    (T.selected (Chip.target T.pageSelectAddr) page c b).device = b.device.select page ∧
      ∀ o ∈ (T.selected (Chip.target T.pageSelectAddr) page c b).script, o.Lossless := by
  unfold selected
  by_cases hh : c.Hits page
  · rw [if_pos hh]
    have hp : b.device.page = page := (hc hh.1).trans hh.2.symm
    refine ⟨?_, hl⟩
    rw [Chip.select, ← hp]
  · rw [if_neg hh, selectSent]
    refine ⟨?_, fun o ho => hl o ?_⟩
    · rw [Bus.report_device, Bus.sent_device_of_ok (outcome_ok_of_selects hf hh)]
      exact Chip.effect_select _ _ _
    · rw [Bus.report_script] at ho
      exact List.mem_of_mem_tail ho

theorem mem_script_of_dataRead {o : Outcome} {regAddr : BitVec 16} {b : Bus Chip}
    (ho : o ∈ (T.dataRead regAddr b).script) : o ∈ b.script := by
  rw [script_dataRead] at ho
  exact List.mem_of_mem_tail ho

theorem mem_script_of_dataWritten {o : Outcome} {D : Target Chip} {regAddr : BitVec 16}
    {data : List Byte} {b : Bus Chip} (ho : o ∈ (T.dataWritten D regAddr data b).script) :
    o ∈ b.script := by
  rw [dataWritten, Bus.report_script] at ho
  exact List.mem_of_mem_tail ho

theorem dataWritten_of_failed {b : Bus Chip} (hl : ∀ o ∈ b.script, o.Lossless)
    (hok : (b.outcome T.driver.voidWrite).ok = false) (D : Target Chip) (regAddr : BitVec 16)
    (data : List Byte) : (T.dataWritten D regAddr data b).device = b.device := by
  rw [dataWritten, Bus.report_device]
  exact Bus.sent_device_of_failed hl hok _ _

theorem Tracks.access {M : PagedMap T.pageSelectAddr} {mem : Mem 16} {store : Store}
    {s : PageCache × Bus Chip} (h : Tracks M.toRegisterMap mem s store) (area : Nat → Byte)
    (hr : r ∈ M.regs) (c : RegCmd r) :
    let x := (ByteTransport.paged T).registers (Chip.target T.pageSelectAddr) area c s
    Tracks M.toRegisterMap mem x.2 store ∨
      Tracks M.toRegisterMap mem x.2 (storeRegisters c store).2 := by
  obtain ⟨hl, hc, hencodes⟩ := h
  have hfailed : T.SelectFails (pageOf (T.adapter.regAddr r)) s.1 s.2 →
      Tracks M.toRegisterMap mem (s.1, T.selectSent (Chip.target T.pageSelectAddr)
        (pageOf (T.adapter.regAddr r)) s.2) store := by
    intro hf
    have hdev := selectSent_of_fails hl hf
    refine ⟨fun o ho => hl o ?_, ?_, ?_⟩
    · rw [selectSent, Bus.report_script] at ho
      exact List.mem_of_mem_tail ho
    · rw [hdev]
      exact hc
    · rw [hdev]
      exact hencodes
  cases c with
  | regRead =>
    refine .inl ?_
    simp only [registers_read]
    by_cases hf : T.SelectFails (pageOf (T.adapter.regAddr r)) s.1 s.2
    · rw [if_pos hf]
      exact hfailed hf
    · rw [if_neg hf]
      obtain ⟨hdev, hscript⟩ := selected_of_lossless (T := T) hl hc hf
      have hread : (T.dataRead (T.adapter.regAddr r) (T.selected (Chip.target T.pageSelectAddr)
          (pageOf (T.adapter.regAddr r)) s.1 s.2)).device =
            s.2.device.select (pageOf (T.adapter.regAddr r)) :=
        (device_dataRead _ _).trans hdev
      refine ⟨fun o ho => hscript o (mem_script_of_dataRead ho), fun _ => ?_, ?_⟩
      · rw [hread]
        rfl
      · rw [hread]
        exact hencodes
  | regWrite value =>
    simp only [registers_write]
    by_cases hf : T.SelectFails (pageOf (T.adapter.regAddr r)) s.1 s.2
    · rw [if_pos hf]
      exact .inl (hfailed hf)
    · rw [if_neg hf]
      obtain ⟨hdev, hscript⟩ := selected_of_lossless (T := T) hl hc hf
      generalize T.selected (Chip.target T.pageSelectAddr) (pageOf (T.adapter.regAddr r)) s.1 s.2 =
        b at hdev hscript
      have hrest : ∀ o ∈ (T.dataWritten (Chip.target T.pageSelectAddr) (T.adapter.regAddr r)
          ((ByteTransport.paged T).payload value) b).script, o.Lossless :=
        fun o ho => hscript o (mem_script_of_dataWritten ho)
      cases hok : (b.outcome T.driver.voidWrite).ok with
      | true =>
        have hin : InPage (T.adapter.regAddr r) r.valueSize := M.inPage r hr
        have hav : Avoids T.pageSelectAddr (T.adapter.regAddr r) r.valueSize := M.avoids r hr
        have hlen : ((ByteTransport.paged T).payload value).length = r.valueSize :=
          ByteAdapter.length_pack _ _ value
        have hpay := (ByteTransport.paged T).payload_eq value
        rw [← hlen] at hin hav
        obtain ⟨hflat, hpage⟩ := dataWritten_of_ok hok hdev hin hav
        refine .inr ⟨hrest, fun _ => hpage, ?_⟩
        rw [hflat, hpay]
        exact (hencodes.lockstep hr (.regWrite value)).2
      | false =>
        have hsame : (T.dataWritten (Chip.target T.pageSelectAddr) (T.adapter.regAddr r)
            ((ByteTransport.paged T).payload value) b).device =
              s.2.device.select (pageOf (T.adapter.regAddr r)) :=
          (dataWritten_of_failed hscript hok _ _ _).trans hdev
        refine .inl ⟨hrest, fun _ => ?_, ?_⟩
        · rw [hsame]
          rfl
        · rw [hsame]
          exact hencodes
  | onRangeError msg => exact .inl ⟨hl, hc, hencodes⟩

end PagedI2cTransport

namespace ByteDevice

variable {d : ByteDevice} {first : d.δ} {store : Store}

/-- The failed calls of a paged driver do not reach the chip; others may have reached the device. -/
def Tolerates (d : ByteDevice) (script : List Outcome) : Prop :=
  match d with
  | .i2c (.paged _ _) => ∀ o ∈ script, o.Lossless
  | _ => True

/-- Whatever fails from now on, the transport and the device agree on the store. -/
def Tracks : (d : ByteDevice) → d.δ → d.transport.State × Bus d.δ → Store → Prop
  | .i2c (.i2c T M), first, s, store => M.Encodes T.dataEndian first store s.2.device
  | .i2c (.paged _ M), first, s, store =>
    PagedI2cTransport.Tracks M.toRegisterMap first.flat s store
  | .spi T M _ _, first, s, store => M.Encodes T.dataEndian first store s.2.device

theorem Tracks.holds {s : d.transport.State × Bus d.δ} (h : d.Tracks first s store) :
    d.Holds first store s.2.device := by
  cases d with
  | i2c d =>
    cases d with
    | i2c T M => exact h
    | paged T M => exact h.encodes
  | spi T M hd idle => exact h

theorem tracks_construct {b : Bus d.δ} (hb : d.Tolerates b.script)
    (h : d.Holds first store b.device) : d.Tracks first (d.transport.construct, b) store := by
  cases d with
  | i2c d =>
    cases d with
    | i2c T M => exact h
    | paged T M => exact ⟨hb, nofun, h⟩
  | spi T M hd idle => exact h

theorem Tracks.access {s : d.transport.State × Bus d.δ} (h : d.Tracks first s store)
    (area : Nat → Byte) (hr : r ∈ d.regs) (c : RegCmd r) :
    let x := d.transport.registers d.target area c s
    d.Tracks first x.2 store ∨ d.Tracks first x.2 (storeRegisters c store).2 := by
  cases d with
  | i2c d =>
    cases d with
    | i2c T M =>
      have hperfect := FlatTransport.Refines.access (T := .i2c T) (M := M)
        (s := (s.1, { device := s.2.device })) ⟨rfl, h⟩ trivial (fun _ => 0) area hr c
      rcases (FlatTransport.i2c T).device_registers T.memory area c s with hsame | hdone
      · exact .inl ((congrArg (M.Encodes T.dataEndian first store) hsame).mpr h)
      · exact .inr ((congrArg (M.Encodes T.dataEndian first _) hdone).mpr hperfect.2.2)
    | paged T M => exact PagedI2cTransport.Tracks.access h area hr c
  | spi T M hd idle =>
    have hperfect := FlatTransport.Refines.access (T := .spi T) (M := M)
      (s := (s.1, { device := s.2.device })) ⟨rfl, h⟩ hd idle area hr c
    rcases (FlatTransport.spi T).device_registers (T.memory idle) area c s with hsame | hdone
    · exact .inl ((congrArg (M.Encodes T.dataEndian first store) hsame).mpr h)
    · exact .inr ((congrArg (M.Encodes T.dataEndian first _) hdone).mpr hperfect.2.2)

theorem Tracks.of_sameTraffic {s s' : d.transport.State × Bus d.δ} (ht : s.1 = s'.1)
    (hb : s.2.SameTraffic s'.2) (h : d.Tracks first s' store) : d.Tracks first s store := by
  obtain ⟨t, b⟩ := s
  obtain ⟨t', b'⟩ := s'
  obtain rfl : t = t' := ht
  obtain ⟨msgs, rfl⟩ := hb
  cases d with
  | i2c d =>
    cases d with
    | i2c T M => exact h
    | paged T M => exact ⟨h.lossless, h.names, h.encodes⟩
  | spi T M hd idle => exact h

/-- An operation that writes back nothing it has read is performed or lost as a whole. -/
theorem Tracks.perform {s : d.transport.State × Bus d.δ} (h : d.Tracks first s store)
    (area : Nat → Byte) (hr : r ∈ d.regs) (checkPolicy : Bool) {op : Op r} (hop : ¬ op.IsRmw) :
    let x := d.transport.perform d.target area checkPolicy op s.1 s.2
    d.Tracks first x.2 store ∨
      d.Tracks first x.2 ((op.prog checkPolicy).run storeRegisters store).2 := by
  intro x
  obtain ⟨_, ht, hb⟩ := d.transport.perform_quiet d.target area checkPolicy op s.1 s.2
  suffices hdone : d.Tracks first ((op.prog checkPolicy).run
      (d.transport.quietRegisters d.target area) s).2 store ∨
        d.Tracks first ((op.prog checkPolicy).run (d.transport.quietRegisters d.target area) s).2
          ((op.prog checkPolicy).run storeRegisters store).2 from
    hdone.imp (Tracks.of_sameTraffic ht hb) (Tracks.of_sameTraffic ht hb)
  have hquiet := d.transport.registers_quiet (r := r) d.target area
  rcases op.prog_shape checkPolicy with ⟨msgs, f, he⟩ | ⟨msgs, w, he⟩ | ⟨hrmw, _⟩
  · rw [he, run_reportThen hquiet, run_reportThen quiet_storeRegisters]
    exact h.access area hr .regRead
  · rw [he, run_reportThen hquiet, run_reportThen quiet_storeRegisters]
    exact h.access area hr (.regWrite w)
  · exact absurd hrmw hop

theorem Tracks.performAll {s : d.transport.State × Bus d.δ} (h : d.Tracks first s store)
    (area : Nat → Byte) (checkPolicy : Bool) {ops : List TypedOp} (ho : ∀ a ∈ ops, a.reg ∈ d.regs)
    (hops : ∀ a ∈ ops, ¬ a.op.IsRmw) :
    ∃ done, List.Sublist done ops ∧
      d.Tracks first (execute (fun (a : TypedOp) (s : d.transport.State × Bus d.δ) =>
        d.transport.perform d.target area checkPolicy a.op s.1 s.2) ops s).2
          (FlatTransport.storeAll checkPolicy done store).2 := by
  induction ops generalizing s store with
  | nil => exact ⟨[], .slnil, h⟩
  | cons a ops ih =>
    have ho' : ∀ a ∈ ops, a.reg ∈ d.regs := fun a ha => ho a (List.mem_cons_of_mem _ ha)
    have hops' : ∀ a ∈ ops, ¬ a.op.IsRmw := fun a ha => hops a (List.mem_cons_of_mem _ ha)
    rw [execute_cons]
    rcases h.perform area (ho a List.mem_cons_self) checkPolicy (hops a List.mem_cons_self) with
      hlost | hdone
    · obtain ⟨done, hsub, hlast⟩ := ih hlost ho' hops'
      exact ⟨done, .cons a hsub, hlast⟩
    · obtain ⟨done, hsub, hlast⟩ := ih hdone ho' hops'
      exact ⟨a :: done, .cons_cons a hsub, hlast⟩

/-- Operations through a new transport object with the latch cleared before. -/
def latchedRun (d : ByteDevice) (area : Nat → Byte) (checkPolicy : Bool) (ops : List TypedOp)
    (device : d.δ) (script : List Outcome) :
    (List OpResult × d.transport.State) × Bus d.δ × Bool :=
  (d.transport.process checkPolicy ops d.transport.construct).run
    (d.target.latching d.transport.driver area)
    ({ device := device, script := script }, (LatchError.take false).2)

theorem bus_latchedRun (d : ByteDevice) (area : Nat → Byte) (checkPolicy : Bool)
    (ops : List TypedOp) (device : d.δ) (script : List Outcome) :
    let x := execute (fun (a : TypedOp) (s : d.transport.State × Bus d.δ) =>
      d.transport.perform d.target area checkPolicy a.op s.1 s.2) ops
        (d.transport.construct, { device := device, script := script })
    (d.latchedRun area checkPolicy ops device script).2.1 = x.2.2 := by
  obtain ⟨_, hbus⟩ := Prog.run_sim (h := d.target.latching d.transport.driver area)
    (k := d.target.bus d.transport.driver area) (Q := fun s b => s.1 = b)
    (s := ({ device := device, script := script }, (LatchError.take false).2))
    (by
      rintro c s b rfl
      exact ⟨rfl, rfl⟩) (d.transport.process checkPolicy ops d.transport.construct) rfl
  rw [ByteTransport.run_process] at hbus
  exact hbus

/-- Repeated until the latch stays clear, a sequence of operations without read-modify-writes leaves
what it leaves where nothing fails. -/
theorem polled_retry_completes (d : ByteDevice) (area : Nat → Byte) (checkPolicy : Bool)
    {ops : List TypedOp} (ho : ∀ a ∈ ops, a.reg ∈ d.regs) (hops : ∀ a ∈ ops, ¬ a.op.IsRmw)
    {first device : d.δ} {store : Store} (h : d.Holds first store device)
    {failed : List (List Outcome)} (hl : ∀ script ∈ failed, d.Tolerates script)
    {script : List Outcome} :
    let x := d.latchedRun area checkPolicy ops (failed.foldl (fun device script =>
      (d.latchedRun area checkPolicy ops device script).2.1.device) device) script
    (LatchError.take x.2.2).1 = false →
      d.Holds first (FlatTransport.storeAll checkPolicy ops store).2 x.2.1.device := by
  induction failed generalizing device store with
  | nil =>
    intro x hclear
    have hout := d.target.outcome_trapping_iff d.transport.driver area
      (d.transport.process checkPolicy ops d.transport.construct)
      { device := device, script := script }
    obtain ⟨_, _, hdev⟩ := Target.trapping_returned
      (d.transport.reportsFailures_process checkPolicy ops d.transport.construct)
      (hout.trans (if_pos hclear))
    exact hdev ▸ ((refines_construct rfl h).process area checkPolicy ho).2.holds
  | cons failure failed ih =>
    have hstart := tracks_construct (b := { device := device, script := failure })
      (hl failure List.mem_cons_self) h
    obtain ⟨done, hdone, htracks⟩ := hstart.performAll area checkPolicy ho hops
    have hholds := htracks.holds
    rw [← bus_latchedRun] at hholds
    rw [← storeAll_again (fun a ha hf => hops a ha (Op.isRmw_of_isFlip hf)) hdone]
    exact ih hholds fun script hs => hl script (List.mem_cons_of_mem _ hs)

theorem polled_retry_completes_codec :
    codecMap.Encodes .little codecChip.flat (FlatTransport.storeAll true [setVolume, getVolume]
      (codecMap.storeOf .little codecChip.flat)).2
        (pagedCodec.latchedRun (fun _ => 0) true [setVolume, getVolume]
          ([[{ ok := false }], [{}, { ok := false }]].foldl (fun device script =>
            (pagedCodec.latchedRun (fun _ => 0) true [setVolume, getVolume] device
              script).2.1.device) codecChip) []).2.1.device.flat := by
  have hl : ∀ script ∈ [[{ ok := false }], [{}, { ok := false }]], pagedCodec.Tolerates script := by
    intro script hs o ho
    simp only [List.mem_cons, List.not_mem_nil, or_false] at hs
    rcases hs with rfl | rfl
    · obtain rfl := List.mem_singleton.mp ho
      rfl
    · rcases List.mem_cons.mp ho with rfl | ho
      · rfl
      · obtain rfl := List.mem_singleton.mp ho
        rfl
  exact polled_retry_completes pagedCodec (fun _ => 0) true codecOps_regs codecOps_not_isRmw
    (codecMap.encodes_storeOf .little codecChip.flat) hl rfl

end ByteDevice

end Umimmio
