import Umimmio.ErrorPolicies
import Umimmio.Lib.Visits
import Umimmio.SharedStore

namespace Umimmio
open Effects Bytes
set_option autoImplicit true

variable {r : Register} {δ : Type} {ω : Type}

theorem I2cTransport.changesOnce_rawWrite (T : I2cTransport)
    (regAddr : BitVec T.addressWidth.bits) (data : List Byte) :
    (T.rawWrite regAddr data).ChangesOnce DriverCmd.IsLocal :=
  (DriverProg.only_writeFrame_local _ _).bind_changesOnce fun _ =>
    (Prog.ChangesOnce.command _).bind fun _ => DriverProg.only_reportFailure_local _ _ _

theorem I2cTransport.changesOnce_rawRead (T : I2cTransport)
    (regAddr : BitVec T.addressWidth.bits) (data : List Byte) :
    (T.rawRead regAddr data).ChangesOnce DriverCmd.IsLocal :=
  (Prog.ChangesOnce.command _).bind fun _ =>
    (DriverProg.only_reportFailure_local _ _ _).bind fun _ => .ret _

theorem SpiTransport.changesOnce_rawWrite (T : SpiTransport)
    (regAddr : BitVec T.addressWidth.bits) (data : List Byte) :
    (T.rawWrite regAddr data).ChangesOnce DriverCmd.IsLocal :=
  (DriverProg.only_writeFrame_local _ _).bind_changesOnce fun _ =>
    (Prog.ChangesOnce.command _).bind fun _ => DriverProg.only_reportFailure_local _ _ _

theorem SpiTransport.changesOnce_rawRead (T : SpiTransport)
    (regAddr : BitVec T.addressWidth.bits) (data : List Byte) :
    (T.rawRead regAddr data).ChangesOnce DriverCmd.IsLocal :=
  (DriverProg.only_span_local _ _).bind_changesOnce fun _ =>
    (DriverProg.only_span_local _ _).bind_changesOnce fun _ =>
      (Prog.ChangesOnce.command _).bind fun _ =>
        (DriverProg.only_reportFailure_local _ _ _).bind fun _ =>
          DriverProg.only_memcpyFrom_local _ _ _ _

namespace PagedI2cTransport

variable (T : PagedI2cTransport) (regAddr : BitVec 16)

/-- No bus transaction, or one that selects a page. -/
def OnlySelects (c : DriverCmd) : Prop :=
  c.IsLocal ∨ ∃ page, c = .i2cWrite .select T.deviceAddr [T.pageSelectAddr, page]

theorem onlySelects_of_local {T : PagedI2cTransport} (c : DriverCmd) (hc : c.IsLocal) :
    T.OnlySelects c :=
  .inl hc

theorem only_selectPage_selects (c : PageCache) :
    (T.selectPage regAddr c).Only T.OnlySelects := by
  by_cases hc : c.Hits (pageOf regAddr)
  · rw [selectPage_hit hc]
    exact .ret _
  · rw [selectPage_miss hc]
    refine .call (.inr ⟨_, rfl⟩) fun ok => ?_
    change Prog.Only _ (if _ then _ else _)
    split_ifs
    · exact .ret _
    · exact .call (.inl trivial) fun _ => .ret _

theorem changesOnce_rawWrite (data : List Byte) (c : PageCache) :
    (T.rawWrite regAddr data c).ChangesOnce T.OnlySelects := by
  rw [rawWrite]
  split_ifs
  · exact .keeps (.inl trivial) fun _ => .ret _
  · apply (T.only_selectPage_selects regAddr c).bind_changesOnce
    rintro ⟨selected, c⟩
    dsimp only
    split_ifs
    · exact .ret _
    · refine ((DriverProg.only_writeFrame_local _ _).mono onlySelects_of_local).bind_changesOnce
        fun _ => (Prog.ChangesOnce.command _).bind fun _ => ?_
      exact ((DriverProg.only_reportFailure_local _ _ _).mono onlySelects_of_local).bind
        fun _ => .ret _

theorem changesOnce_rawRead (data : List Byte) (c : PageCache) :
    (T.rawRead regAddr data c).ChangesOnce T.OnlySelects := by
  apply (T.only_selectPage_selects regAddr c).bind_changesOnce
  rintro ⟨selected, c⟩
  dsimp only
  split_ifs
  · exact .keeps (.inl trivial) fun _ => .ret _
  · refine (Prog.ChangesOnce.command _).bind ?_
    rintro ⟨ok, rx⟩
    dsimp only
    split_ifs
    · exact .call (.inl trivial) fun _ => .call (.inl trivial) fun _ => .ret _
    · exact .ret _

end PagedI2cTransport

namespace ByteTransport

/-- The commands of a transport that write no register. -/
def Prepares (T : ByteTransport) (c : DriverCmd) : Prop :=
  match T with
  | .i2c _ => c.IsLocal
  | .spi _ => c.IsLocal
  | .paged T => T.OnlySelects c

theorem changesOnce_regOps (T : ByteTransport) (c : RegCmd r) (t : T.State) :
    (T.adapter.regOps c t).ChangesOnce T.Prepares := by
  cases c with
  | regRead =>
    cases T with
    | i2c T =>
      exact .keeps trivial fun _ => ((T.changesOnce_rawRead _ _).map _).bind fun _ => .ret _
    | spi T =>
      exact .keeps trivial fun _ => ((T.changesOnce_rawRead _ _).map _).bind fun _ => .ret _
    | paged T =>
      exact .keeps (.inl trivial) fun _ => (T.changesOnce_rawRead _ _ t).bind fun _ => .ret _
  | regWrite value =>
    cases T with
    | i2c T => exact (T.changesOnce_rawWrite _ _).map _
    | spi T => exact (T.changesOnce_rawWrite _ _).map _
    | paged T => exact T.changesOnce_rawWrite _ _ t
  | onRangeError msg =>
    cases T with
    | paged T => exact .keeps (.inl trivial) fun _ => .ret _
    | _ => exact .keeps trivial fun _ => .ret _

end ByteTransport

theorem Target.device_of_local {D : Target δ} {driver : DriverType} {area : Nat → Byte}
    {c : DriverCmd} (hc : c.IsLocal) (b : Bus δ) : (D.bus driver area c b).2.device = b.device := by
  cases c with
  | i2cWrite site deviceAddr tx => exact hc.elim
  | i2cWriteRead deviceAddr tx rx => exact hc.elim
  | spiTransfer site tx rx => exact hc.elim
  | onTransportError msg => exact b.report_device false msg
  | _ => rfl

theorem PagedI2cTransport.flat_of_onlySelects {T : PagedI2cTransport} {driver : DriverType}
    {area : Nat → Byte} {c : DriverCmd} (hc : T.OnlySelects c) (b : Bus Chip) :
    ((Chip.target T.pageSelectAddr).bus driver area c b).2.device.flat = b.device.flat := by
  rcases hc with hc | ⟨page, rfl⟩
  · rw [Target.device_of_local hc]
  · simp only [Target.bus, Bus.sent]
    split_ifs
    · have hselect : (Chip.target T.pageSelectAddr).effect [T.pageSelectAddr, page] b.device =
          b.device.select page := Chip.effect_select _ _ _
      rw [hselect]
      rfl
    · rfl

namespace ByteDevice

variable {d : ByteDevice} {first : d.δ} {store : Store}

theorem holds_of_prepares {c : DriverCmd} (hc : d.transport.Prepares c) (area : Nat → Byte)
    (b : Bus d.δ) (store : Store) :
    d.Holds first store (d.target.bus d.transport.driver area c b).2.device =
      d.Holds first store b.device := by
  cases d with
  | i2c d =>
    cases d with
    | i2c T M => exact congrArg _ (Target.device_of_local hc b)
    | paged T M =>
      exact congrArg (M.Encodes .little first.flat store)
        (PagedI2cTransport.flat_of_onlySelects hc b)
  | spi T M hd idle => exact congrArg _ (Target.device_of_local hc b)

theorem Refines.visits_access {t : d.transport.State} {b : Bus d.δ}
    (h : d.Refines first (t, b) store) (area : Nat → Byte) (hr : r ∈ d.regs) (c : RegCmd r) :
    ∀ b' ∈ (d.transport.adapter.regOps c t).visits (d.target.bus d.transport.driver area) b,
      d.Holds first store b'.device ∨
        d.Holds first (storeRegisters c store).2 b'.device := by
  intro b' hb'
  have hview := (d.transport.changesOnce_regOps c t).visits
    (fun (b : Bus d.δ) store => d.Holds first store b.device)
    (fun c b hc => funext (d.holds_of_prepares hc area b)) b b' hb'
  rcases hview with hold | hnew
  · exact .inl ((congrFun hold store).mpr h.holds)
  · exact .inr ((congrFun hnew _).mpr (h.access area hr c).2.holds)

theorem Refines.visits_process {t : d.transport.State} {b : Bus d.δ}
    (h : d.Refines first (t, b) store) (area : Nat → Byte) (checkPolicy : Bool)
    {ops : List TypedOp} (ho : ∀ a ∈ ops, a.reg ∈ d.regs) :
    ∀ b' ∈ (d.transport.process checkPolicy ops t).visits
        (d.target.bus d.transport.driver area) b,
      ∃ done, done <+: ops ∧
        d.Holds first (FlatTransport.storeAll checkPolicy done store).2 b'.device := by
  induction ops generalizing t b store with
  | nil =>
    intro b' hb'
    obtain rfl := List.mem_singleton.mp hb'
    exact ⟨[], List.prefix_rfl, h.holds⟩
  | cons a ops ih =>
    intro b' hb'
    have hr := ho a List.mem_cons_self
    rw [ByteTransport.process, Prog.mem_visits_bind] at hb'
    rcases hb' with hb' | hb'
    · obtain ⟨store', hstore', hholds⟩ := Prog.visits_translate (k := storeRegisters)
        (Q := fun s store => d.Refines first s store)
        (W := fun b store => d.Holds first store b.device) (fun t b store h => h.holds)
        (fun c t b store h => ⟨(h.access area hr c).1, (h.access area hr c).2,
          h.visits_access area hr c⟩) (a.op.prog checkPolicy) h b' hb'
      have hlast : WritesLast storeRegisters (a.op.prog checkPolicy) :=
        Op.writesLast quiet_storeRegisters (fun _ => rfl) a.op checkPolicy
      rcases hlast.visits store store' hstore' with rfl | rfl
      · exact ⟨[], List.nil_prefix, hholds⟩
      · exact ⟨[a], List.cons_prefix_cons.mpr ⟨rfl, List.nil_prefix⟩, hholds⟩
    · have hrest := (Prog.mem_visits_map (d.transport.process checkPolicy ops
        (d.transport.perform d.target area checkPolicy a.op t b).2.1)
        (fun y => ((d.transport.perform d.target area checkPolicy a.op t b).1 :: y.1, y.2))
        (d.transport.perform d.target area checkPolicy a.op t b).2.2).mp hb'
      obtain ⟨done, hdone, hholds⟩ := ih (h.perform area hr checkPolicy a.op).2
        (fun a ha => ho a (List.mem_cons_of_mem _ ha)) b' hrest
      exact ⟨a :: done, List.cons_prefix_cons.mpr ⟨rfl, hdone⟩, hholds⟩

end ByteDevice

theorem Bus.sent_device_cases (b : Bus δ) (D : Target δ) (isVoid : Bool) (site : Site)
    (tx : List Byte) :
    (b.sent D isVoid site tx).device = b.device ∨
      (b.sent D isVoid site tx).device = D.effect tx b.device := by
  rw [sent]
  split_ifs
  · exact .inr rfl
  · exact .inl rfl

theorem FlatTransport.storeAll_append (checkPolicy : Bool) (ops ops' : List TypedOp)
    (store : Store) :
    (FlatTransport.storeAll checkPolicy (ops ++ ops') store).2 =
      (FlatTransport.storeAll checkPolicy ops' (FlatTransport.storeAll checkPolicy ops store).2).2
    := by
  rw [storeAll, execute_append]
  rfl

theorem FlatTransport.storeAll_reads {reads : List TypedOp} (h : ∀ a ∈ reads, a.op = .read)
    (checkPolicy : Bool) (store : Store) :
    (FlatTransport.storeAll checkPolicy reads store).2 = store := by
  induction reads with
  | nil => rfl
  | cons a reads ih =>
    have hread : ((a.op.prog checkPolicy).run storeRegisters store).2 = store := by
      rw [h a List.mem_cons_self]
      rfl
    refine Eq.trans ?_ (ih fun a ha => h a (List.mem_cons_of_mem _ ha))
    exact congrArg (fun store => (FlatTransport.storeAll checkPolicy reads store).2) hread

def TypedOp.rangeErrors (checkPolicy : Bool) (a : TypedOp) : List String :=
  a.op.rangeErrors checkPolicy

/-- An operation that finds a value out of range has at most read its register when it ends. -/
theorem ByteAdapter.reached_run {τ σ : Type} (A : ByteAdapter τ)
    {h : PartialHandler DriverCmd DriverCmd.Resp σ}
    (hh : ∀ msg s, h (.onRangeError msg) s = none) {op : Op r} {checkPolicy : Bool}
    (he : op.rangeErrors checkPolicy ≠ []) :
    (∀ (f : OpResult × τ → DriverProg ω) t s,
      (A.run checkPolicy op t >>= f).reached h s = s) ∨
    ∀ (f : OpResult × τ → DriverProg ω) t s,
      (A.run checkPolicy op t >>= f).reached h s = (A.run checkPolicy (.read : Op r) t).reached h s
    := by
  obtain ⟨msg, msgs, hm⟩ := List.exists_cons_of_ne_nil he
  have hstop : ∀ (p : RegProg r OpResult) (f : OpResult × τ → DriverProg ω) t s,
      ((reportThen (op.rangeErrors checkPolicy) p).translate A.regOps t >>= f).reached h s = s := by
    intro p f t s
    rw [hm]
    refine (Prog.reached_call _ _ s).trans ?_
    rw [hh]
    rfl
  rcases op.prog_reports checkPolicy with ⟨g, hp⟩ | ⟨w, hp⟩ | ⟨_, hp⟩
  · refine .inl fun f t s => ?_
    rw [ByteAdapter.run, hp]
    exact hstop _ f t s
  · refine .inl fun f t s => ?_
    rw [ByteAdapter.run, hp]
    exact hstop _ f t s
  · refine .inr fun f t s => ?_
    rw [ByteAdapter.run, hp, Prog.translate_call, bind_assoc]
    exact Prog.reached_bind_congr _ (fun x s => hstop _ f x.2 s) s

namespace ByteTransport

theorem reached_process (T : ByteTransport) {σ : Type}
    {h : PartialHandler DriverCmd DriverCmd.Resp σ}
    (hh : ∀ msg s, h (.onRangeError msg) s = none) (checkPolicy : Bool) (ops : List TypedOp) :
    ∃ reads : List TypedOp, (∀ a ∈ reads, a.op = .read ∧ ∃ a' ∈ ops, a'.reg = a.reg) ∧
      ∀ t s, (T.process checkPolicy ops t).reached h s =
        (T.process checkPolicy (ops.takeWhile (·.rangeErrors checkPolicy = []) ++ reads)
          t).reached h s := by
  induction ops with
  | nil => exact ⟨[], fun x hx => absurd hx List.not_mem_nil, fun t s => rfl⟩
  | cons a ops ih =>
    by_cases he : a.rangeErrors checkPolicy = []
    · obtain ⟨reads, hreads, hreached⟩ := ih
      refine ⟨reads, fun x hx => ?_, fun t s => ?_⟩
      · obtain ⟨hread, a', ha', hreg⟩ := hreads x hx
        exact ⟨hread, a', List.mem_cons_of_mem _ ha', hreg⟩
      · have hcons : (a :: ops).takeWhile (·.rangeErrors checkPolicy = []) =
            a :: ops.takeWhile (·.rangeErrors checkPolicy = []) :=
          List.takeWhile_cons_of_pos (decide_eq_true he)
        rw [hcons, List.cons_append, process, process]
        refine Prog.reached_bind_congr _ (fun x s => ?_) s
        exact (Prog.reached_map _ _ s).trans
          ((hreached x.2 s).trans (Prog.reached_map _ _ s).symm)
    · have hnil : (a :: ops).takeWhile (·.rangeErrors checkPolicy = []) = [] :=
        List.takeWhile_cons_of_neg fun hd => he (of_decide_eq_true hd)
      rw [hnil]
      rcases T.adapter.reached_run hh he with hstop | hread
      · exact ⟨[], fun x hx => absurd hx List.not_mem_nil, fun t s => hstop _ t s⟩
      · refine ⟨[⟨(.read : Op a.reg)⟩], fun x hx => ?_, fun t s => (hread _ t s).trans ?_⟩
        · obtain rfl := List.mem_singleton.mp hx
          exact ⟨rfl, a, List.mem_cons_self, rfl⟩
        · have hone : T.process checkPolicy [⟨(.read : Op a.reg)⟩] t =
              (fun y => ([y.1], y.2)) <$> T.adapter.run checkPolicy (.read : Op a.reg) t := by
            rw [process, map_eq_pure_bind]
            rfl
          rw [List.nil_append, hone, Prog.reached_map]

end ByteTransport

section Trapping

variable {D : Target δ} {driver : DriverType} {area : Nat → Byte}

theorem Target.trapping_failed {c : DriverCmd} {b b' : Bus δ} {x : c.Resp × Bus δ}
    (hs : b'.script = [] ∧ b'.device = b.device) (hx : D.trapping driver area c b = some x)
    (hfailed : driver.Reports c x.1) :
    (b'.script = [] ∧ b'.device = x.2.device) ∨
      (D.bus driver area c b').2.script = [] ∧ (D.bus driver area c b').2.device = x.2.device := by
  obtain ⟨hscript, hdev⟩ := hs
  have hout := Bus.outcome_nil hscript
  have htail : b'.script.tail = [] := by rw [hscript, List.tail_nil]
  have hsent : ∀ isVoid site tx,
      (b'.script = [] ∧ b'.device = (b.sent D isVoid site tx).device) ∨
        (b'.sent D isVoid site tx).script = [] ∧
          (b'.sent D isVoid site tx).device = (b.sent D isVoid site tx).device := by
    intro isVoid site tx
    rcases b.sent_device_cases D isVoid site tx with hsame | heffect
    · exact .inl ⟨hscript, hdev.trans hsame.symm⟩
    · refine .inr ⟨htail, ?_⟩
      rw [Bus.sent_device_of_ok (by rw [hout]), hdev, heffect]
  cases c with
  | i2cWrite site deviceAddr tx =>
    cases hx
    exact hsent _ site tx
  | i2cWriteRead deviceAddr tx rx =>
    cases hx
    exact .inl ⟨hscript, hdev⟩
  | spiTransfer site tx rx =>
    cases hx
    exact hsent _ site tx
  | _ => exact hfailed.elim

theorem Target.trapping_reached (D : Target δ) (area : Nat → Byte) {p : DriverProg α}
    (hp : p.ReportsFailures driver) (b : Bus δ) :
    ∃ b' ∈ p.visits (D.bus driver area) { device := b.device },
      b'.device = (p.reached (D.trapping driver area) b).device := by
  obtain ⟨b', hb', _, hdev⟩ := hp.reached trapping_none (k := D.bus driver area)
    (Q := fun b b' => b'.script = [] ∧ b'.device = b.device)
    (fun _ _ _ _ hs hx hgood => trapping_lockstep hs hx hgood)
    (fun _ _ _ _ hs hx hfailed => trapping_failed hs hx hfailed)
    (fun c b b' x hc hs hx => by
      cases c with
      | memset size =>
        cases hx
        exact hs
      | _ => exact hc.elim)
    (s := b) (t := { device := b.device }) ⟨rfl, rfl⟩
  exact ⟨b', hb', hdev⟩

end Trapping

namespace ByteDevice

variable {d : ByteDevice} {first : d.δ} {store : Store}

/-- Wherever an error policy ends the program, none of its operations is done in part, and none from
one on that finds a value out of range. -/
theorem Refines.reached (area : Nat → Byte) (checkPolicy : Bool) {ops : List TypedOp}
    (ho : ∀ a ∈ ops, a.reg ∈ d.regs) {t : d.transport.State} {b : Bus d.δ}
    (h : d.Refines first (t, { device := b.device }) store) :
    ∃ done, done <+: ops.takeWhile (·.rangeErrors checkPolicy = []) ∧
      d.Holds first (FlatTransport.storeAll checkPolicy done store).2
        ((d.transport.process checkPolicy ops t).reached
          (d.target.trapping d.transport.driver area) b).device := by
  obtain ⟨reads, hreads, hreached⟩ := d.transport.reached_process
    (h := d.target.trapping d.transport.driver area) (fun _ _ => rfl) checkPolicy ops
  have hregs : ∀ a ∈ ops.takeWhile (·.rangeErrors checkPolicy = []) ++ reads, a.reg ∈ d.regs := by
    intro a ha
    rcases List.mem_append.mp ha with ha | ha
    · exact ho a ((List.takeWhile_sublist _).subset ha)
    · obtain ⟨a', ha', hreg⟩ := (hreads a ha).2
      rw [← hreg]
      exact ho a' ha'
  obtain ⟨b', hb', hdev⟩ := d.target.trapping_reached area (d.transport.reportsFailures_process
    checkPolicy (ops.takeWhile (·.rangeErrors checkPolicy = []) ++ reads) t) b
  obtain ⟨done, hdone, hholds⟩ := h.visits_process area checkPolicy hregs b' hb'
  rw [List.prefix_iff_eq_take.mp hdone, List.take_append, FlatTransport.storeAll_append,
    hdev] at hholds
  refine ⟨_, List.take_prefix done.length _, ?_⟩
  rw [hreached]
  rw [FlatTransport.storeAll_reads fun a ha => (hreads a (List.mem_of_mem_take ha)).1] at hholds
  exact hholds

/-- An attempt to perform operations: with a new transport object, as far as the error policy lets
it when the driver calls end as the script says. -/
def attempted (d : ByteDevice) (area : Nat → Byte) (checkPolicy : Bool)
    (attempts : List (List TypedOp × List Outcome)) (device : d.δ) : d.δ :=
  attempts.foldl (fun device x =>
    ((d.transport.process checkPolicy x.1 d.transport.construct).reached
      (d.target.trapping d.transport.driver area) { device := device, script := x.2 }).device)
    device

abbrev pagedCodec : ByteDevice := .i2c (.paged codec codecMap)

theorem codecOps_regs : ∀ a ∈ [setVolume, getVolume], a.reg ∈ pagedCodec.regs := by
  intro a ha
  rcases List.mem_cons.mp ha with rfl | ha
  · exact List.mem_singleton_self _
  · obtain rfl := List.mem_singleton.mp ha
    exact List.mem_singleton_self _

theorem codecOps_not_isRmw : ∀ a ∈ [setVolume, getVolume], ¬ a.op.IsRmw := by
  intro a ha
  rcases List.mem_cons.mp ha with rfl | ha
  · exact id
  · obtain rfl := List.mem_singleton.mp ha
    exact id

end ByteDevice

def Op.IsFlip : Op r → Prop
  | .flip _ => True
  | _ => False

theorem Op.isRmw_of_isFlip {op : Op r} (h : op.IsFlip) : op.IsRmw := by
  cases op with
  | flip f => trivial
  | _ => exact h.elim

theorem Op.IsRmw.getLsbD_rmwWord_of_dependsOn {op : Op r} (hop : op.IsRmw) (hf : ¬ op.IsFlip)
    (hi : op.DependsOn i) (current : r.RegValueType) :
    (op.rmwWord current).getLsbD i = current.getLsbD i := by
  cases op with
  | modify values =>
    have hb : (Op.modify values).WritesBack := trivial
    rw [getLsbD_rmwWord_of_not_names hb hi.1, hi.2, Bool.not_false, Bool.and_true]
  | flip f => exact absurd trivial hf
  | clear f =>
    have hd : ¬ RegOps.ClearsDirectly r := hop
    rw [rmwWord, if_neg hd, RegOps.getLsbD_clearWord, decide_eq_false hi.1, hi.2, Bool.not_false,
      Bool.and_true, Bool.or_false]
  | _ => exact hop.elim

def Store.look (store : Store) (x : Addr × Nat) : Bool :=
  (store x.1).getLsbD x.2

theorem Store.ext_look (s s' : Store) (h : ∀ x, s.look x = s'.look x) : s = s' := by
  funext a
  apply BitVec.eq_of_getLsbD_eq
  intro i _
  exact h (a, i)

theorem Op.assigns {op : Op r} (hf : ¬ op.IsFlip) (checkPolicy : Bool) :
    ∃ A, Assigns Store.look A fun store => ((op.prog checkPolicy).run storeRegisters store).2 := by
  rcases op.prog_shape checkPolicy with ⟨msgs, f, he⟩ | ⟨msgs, w, he⟩ | ⟨hop, _⟩
  · refine ⟨fun _ => False, fun s s' x hx => hx.elim, fun s x _ => ?_⟩
    rw [he, run_reportThen quiet_storeRegisters]
    rfl
  · have hrun : ∀ store, ((op.prog checkPolicy).run storeRegisters store).2 =
        Function.update store r.address (w.setWidth 64) := by
      intro store
      rw [he, run_reportThen quiet_storeRegisters]
      rfl
    refine ⟨fun x => x.1 = r.address, fun s s' x hx => ?_, fun s x hx => ?_⟩
    · rw [hrun, hrun, Store.look, Store.look, hx, Function.update_self, Function.update_self]
    · rw [hrun, Store.look, Function.update_of_ne hx, Store.look]
  · have hrun : ∀ store, ((op.prog checkPolicy).run storeRegisters store).2 =
        Function.update store r.address ((op.rmwWord (store.word r)).setWidth 64) :=
      fun store => congrArg Prod.snd (hop.run quiet_storeRegisters checkPolicy store)
    refine ⟨fun x => x.1 = r.address ∧ ¬ (x.2 < r.valueBits ∧ op.DependsOn x.2),
      fun s s' x hx => ?_, fun s x hx => ?_⟩
    · obtain ⟨ha, hx⟩ := hx
      rw [hrun, hrun, Store.look, Store.look, ha, Function.update_self, Function.update_self,
        BitVec.getLsbD_setWidth, BitVec.getLsbD_setWidth]
      congr 1
      by_cases hi : x.2 < r.valueBits
      · exact (hop.getLsbD_rmwWord_eq_iff _ _ x.2).mpr fun hd => absurd ⟨hi, hd⟩ hx
      · rw [BitVec.getLsbD_of_ge _ _ (not_lt.mp hi), BitVec.getLsbD_of_ge _ _ (not_lt.mp hi)]
    · rw [hrun, Store.look]
      by_cases ha : x.1 = r.address
      · obtain ⟨hi, hd⟩ : x.2 < r.valueBits ∧ op.DependsOn x.2 := by
          by_contra hn
          exact hx ⟨ha, hn⟩
        have hle : x.2 < 64 := hi.trans_le (uintFit_le r.bits)
        rw [ha, Function.update_self, BitVec.getLsbD_setWidth,
          hop.getLsbD_rmwWord_of_dependsOn hf hd, Store.word, BitVec.getLsbD_setWidth,
          decide_eq_true hle, decide_eq_true hi, Bool.true_and, Bool.true_and, Store.look, ha]
      · rw [Function.update_of_ne ha, Store.look]

theorem storeAll_again {ops done : List TypedOp} (hops : ∀ a ∈ ops, ¬ a.op.IsFlip)
    (hdone : done.Sublist ops) (checkPolicy : Bool) (store : Store) :
    (FlatTransport.storeAll checkPolicy ops (FlatTransport.storeAll checkPolicy done store).2).2 =
      (FlatTransport.storeAll checkPolicy ops store).2 :=
  execute_again Store.ext_look hdone (fun a ha => Op.assigns (hops a ha) checkPolicy) store

namespace ByteDevice

variable {d : ByteDevice} {first : d.δ} {store : Store}

/-- A sequence of operations without flips may be started over after a failure: once an attempt
returns, the device holds what it would after a first attempt that succeeds. -/
theorem retry_completes (d : ByteDevice) (area : Nat → Byte) (checkPolicy : Bool)
    {ops : List TypedOp} (ho : ∀ a ∈ ops, a.reg ∈ d.regs) (hops : ∀ a ∈ ops, ¬ a.op.IsFlip)
    {first device : d.δ} {store : Store} (h : d.Holds first store device)
    (failed : List (List Outcome)) {script : List Outcome}
    {x : List OpResult × d.transport.State} {b : Bus d.δ}
    (hx : (d.transport.process checkPolicy ops d.transport.construct).outcome
      (d.target.trapping d.transport.driver area)
      { device := d.attempted area checkPolicy (failed.map (ops, ·)) device, script := script } =
        some (x, b)) :
    d.Holds first (FlatTransport.storeAll checkPolicy ops store).2 b.device := by
  induction failed generalizing device store with
  | nil =>
    obtain ⟨_, _, hdev⟩ := Target.trapping_returned
      (d.transport.reportsFailures_process checkPolicy ops d.transport.construct) hx
    rw [← hdev]
    exact ((refines_construct rfl h).process area checkPolicy ho).2.holds
  | cons failure failed ih =>
    obtain ⟨done, hdone, hholds⟩ := (refines_construct rfl h).reached area checkPolicy ho
      (b := { device := device, script := failure })
    rw [← storeAll_again hops (hdone.sublist.trans (List.takeWhile_sublist _))]
    exact ih hholds hx

def spiMute : Field FlatTransport.spiLevel := .bit 15 (by decide)

def muteLevel : TypedOp :=
  ⟨(.modify [⟨.field spiMute, .dynamicValue .uint8 1⟩] : Op FlatTransport.spiLevel)⟩

def spiLevels : ByteDevice :=
  .spi FlatTransport.spiDevice FlatTransport.spiMap
    (FlatTransport.spiDevice_decodable FlatTransport.spiMap_below) fun _ => 0

theorem retry_completes_mute : ∃ mem : Mem FlatTransport.spiDevice.addressWidth.bits,
    FlatTransport.spiMap.Encodes .big (fun _ => 0) (FlatTransport.storeAll true [muteLevel]
      (FlatTransport.spiMap.storeOf .big fun _ => 0)).2 mem := by
  have hregs : ∀ a ∈ [muteLevel], a.reg ∈ spiLevels.regs := by
    intro a ha
    obtain rfl := List.mem_singleton.mp ha
    exact List.mem_cons_self
  have hflips : ∀ a ∈ [muteLevel], ¬ a.op.IsFlip := by
    intro a ha
    obtain rfl := List.mem_singleton.mp ha
    exact id
  have hx : (spiLevels.transport.process true [muteLevel] ()).outcome
      (spiLevels.target.trapping FlatTransport.spiDevice.driver fun _ => 0)
      { device := spiLevels.attempted (fun _ => 0) true
          [([muteLevel], [{}, { ok := false, latched := true }])] (fun _ => 0), script := [] } =
        some (([.done], ()), _) := rfl
  exact ⟨_, retry_completes spiLevels (fun _ => 0) true hregs hflips
    (FlatTransport.spiMap.encodes_storeOf .big fun _ => 0) [[{}, { ok := false, latched := true }]]
    hx⟩

end ByteDevice

end Umimmio
