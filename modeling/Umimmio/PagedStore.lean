import Umimmio.MemoryDevice
import Umimmio.PagedRefinement

namespace Umimmio
open Effects Bytes
set_option autoImplicit true

variable {r : Register}

/-- A register map of a paged chip: its registers lie inside their pages and off the page-select
register. -/
structure PagedMap (pageSelectAddr : Byte) extends RegisterMap 16 where
  inPage : ∀ r ∈ regs, InPage (BitVec.ofNat 16 r.address) r.valueSize
  avoids : ∀ r ∈ regs, Avoids pageSelectAddr (BitVec.ofNat 16 r.address) r.valueSize

/-- The page that a valid cache names. -/
def PageCache.Names (c : PageCache) (page : Byte) : Prop :=
  c.pageCacheValid = true → page = c.currentPage

namespace PagedI2cTransport

variable {T : PagedI2cTransport} {area : Nat → Byte}

theorem not_selectFails_of_script {b : Bus Chip} (hb : b.script = []) (page : Byte)
    (c : PageCache) : ¬ T.SelectFails page c b := by
  intro hf
  have hok := hf.2
  rw [Bus.outcome_nil hb] at hok
  cases hok

/-- On a bus that succeeds the data frame finds the chip on the page of the access. -/
theorem selected_of_script {b : Bus Chip} (hb : b.script = []) {c : PageCache}
    (hc : c.Names b.device.page) (page : Byte) :
    (T.selected (Chip.target T.pageSelectAddr) page c b).device = b.device.select page ∧
      (T.selected (Chip.target T.pageSelectAddr) page c b).script = [] := by
  unfold selected
  by_cases hh : c.Hits page
  · rw [if_pos hh]
    refine ⟨?_, hb⟩
    have hp : b.device.page = page := (hc hh.1).trans hh.2.symm
    rw [Chip.select, ← hp]
  · have hok : (b.outcome T.driver.voidWrite).ok = true := by rw [Bus.outcome_nil hb]
    rw [if_neg hh, selectSent]
    refine ⟨?_, Bus.script_sent hb _ _ _ _ _ _⟩
    rw [Bus.report_device, Bus.sent_device_of_ok hok]
    exact Chip.effect_select _ _ _

theorem bytesRead_of_script {b : Bus Chip} {chip : Chip} (hb : b.script = [])
    (hd : b.device = chip.select (pageOf regAddr)) (hin : InPage regAddr size) :
    T.bytesRead (Chip.target T.pageSelectAddr) regAddr size b = chip.flat.load regAddr size := by
  rw [bytesRead, Bus.outcome_nil hb, if_pos rfl, hd]
  exact Chip.flat_load (chip.select (pageOf regAddr)) hin rfl

theorem device_dataRead (regAddr : BitVec 16) (b : Bus Chip) :
    (T.dataRead regAddr b).device = b.device := by
  rw [dataRead, Bus.report_device]
  rfl

theorem script_dataRead (regAddr : BitVec 16) (b : Bus Chip) :
    (T.dataRead regAddr b).script = b.script.tail := by
  rw [dataRead, Bus.report_script]
  rfl

theorem dataRead_of_script {b : Bus Chip} (hb : b.script = []) (regAddr : BitVec 16) :
    (T.dataRead regAddr b).device = b.device ∧ (T.dataRead regAddr b).script = [] := by
  refine ⟨device_dataRead regAddr b, ?_⟩
  rw [script_dataRead, hb]
  rfl

theorem dataWritten_of_ok {b : Bus Chip} {chip : Chip}
    (hok : (b.outcome T.driver.voidWrite).ok = true) (hd : b.device = chip.select (pageOf regAddr))
    (hin : InPage regAddr data.length) (ha : Avoids T.pageSelectAddr regAddr data.length) :
    let b' := T.dataWritten (Chip.target T.pageSelectAddr) regAddr data b
    b'.device.flat = chip.flat.store regAddr data ∧ b'.device.page = pageOf regAddr := by
  have heffect : (T.dataWritten (Chip.target T.pageSelectAddr) regAddr data b).device =
      (chip.select (pageOf regAddr)).store (inPageOffset regAddr) data := by
    rw [dataWritten, Bus.report_device, Bus.sent_device_of_ok hok, hd]
    exact Chip.effect_store _ ha
  constructor
  · rw [heffect]
    exact Chip.flat_store _ hin rfl
  · rw [heffect]
    rfl

theorem dataWritten_of_script {b : Bus Chip} {chip : Chip} (hb : b.script = [])
    (hd : b.device = chip.select (pageOf regAddr)) (hin : InPage regAddr data.length)
    (ha : Avoids T.pageSelectAddr regAddr data.length) :
    let b' := T.dataWritten (Chip.target T.pageSelectAddr) regAddr data b
    b'.device.flat = chip.flat.store regAddr data ∧ b'.device.page = pageOf regAddr ∧
      b'.script = [] := by
  have hok : (b.outcome T.driver.voidWrite).ok = true := by rw [Bus.outcome_nil hb]
  obtain ⟨hflat, hpage⟩ := dataWritten_of_ok hok hd hin ha
  exact ⟨hflat, hpage, Bus.script_sent hb _ _ _ _ _ _⟩

theorem registers_read_value (D : Target Chip) (area : Nat → Byte)
    (s : (ByteTransport.paged T).State × Bus Chip)
    (hf : ¬ T.SelectFails (pageOf (T.adapter.regAddr r)) s.1 s.2) :
    ((ByteTransport.paged T).registers D area (.regRead : RegCmd r) s).1 =
      ByteAdapter.unpack .little T.native r.valueBits (T.bytesRead D (T.adapter.regAddr r)
        r.valueSize (T.selected D (pageOf (T.adapter.regAddr r)) s.1 s.2)) := by
  have hread := T.adapter.run_regRead (r := r) D T.driver area s.1 s.2
  have hraw : (T.adapter.rawRead (T.adapter.regAddr r)
      (DriverProg.bytesOf r.valueSize area) s.1).run (D.bus T.driver area) s.2 = _ :=
    T.run_rawRead D area (T.adapter.regAddr r) (DriverProg.bytesOf r.valueSize area) s.1 s.2
  rw [hraw, if_neg hf, DriverProg.length_bytesOf] at hread
  exact congrArg (fun x => x.1.1) hread

/-- An access of the paged transport is one of the flat memory of its chip, and leaves a cache that
names the page. -/
theorem inStep {M : PagedMap T.pageSelectAddr} (area : Nat → Byte) (hr : r ∈ M.regs)
    (c : RegCmd r) (s : (ByteTransport.paged T).State × Bus Chip) (hs : s.2.script = [])
    (hc : PageCache.Names s.1 s.2.device.page) :
    let x := (ByteTransport.paged T).registers (Chip.target T.pageSelectAddr) area c s
    x.1 = (memoryRegisters 16 .little c s.2.device.flat).1 ∧
      x.2.2.device.flat = (memoryRegisters 16 .little c s.2.device.flat).2 ∧
      x.2.2.script = [] ∧ PageCache.Names x.2.1 x.2.2.device.page := by
  have hin : InPage (T.adapter.regAddr r) r.valueSize := M.inPage r hr
  have hav : Avoids T.pageSelectAddr (T.adapter.regAddr r) r.valueSize := M.avoids r hr
  have hf : ¬ T.SelectFails (pageOf (T.adapter.regAddr r)) s.1 s.2 :=
    not_selectFails_of_script hs _ _
  obtain ⟨hdev, hscript⟩ := selected_of_script (T := T) hs hc (pageOf (T.adapter.regAddr r))
  cases c with
  | regRead =>
    have hvalue := registers_read_value (Chip.target T.pageSelectAddr) area s hf
    have hstate : ((ByteTransport.paged T).registers (Chip.target T.pageSelectAddr) area
        (.regRead : RegCmd r) s).2 = _ := registers_read_sent hf
    have hbytes := bytesRead_of_script (T := T) hscript hdev hin
    obtain ⟨hdevice, hrest⟩ := dataRead_of_script (T := T) hscript (T.adapter.regAddr r)
    simp only [hstate]
    refine ⟨?_, ?_, hrest, fun _ => ?_⟩
    · rw [hvalue]
      refine (ByteAdapter.unpack_eq _ _ r.eight_dvd_valueBits ?_).trans
        (congrArg (decode r.valueBits .little) hbytes)
      exact (congrArg List.length hbytes).trans (Mem.length_load _ _ _)
    · have hflat := congrArg Chip.flat (hdevice.trans hdev)
      exact hflat
    · have hpage := congrArg Chip.page (hdevice.trans hdev)
      exact hpage
  | regWrite value =>
    have hpay := (ByteTransport.paged T).payload_eq value
    have hlen : ((ByteTransport.paged T).payload value).length = r.valueSize :=
      ByteAdapter.length_pack _ _ value
    have hstate := (registers_write T (Chip.target T.pageSelectAddr) area value s).trans
      (if_neg hf)
    rw [← hlen] at hin hav
    obtain ⟨hflat, hpage, hrest⟩ := dataWritten_of_script (T := T) hscript hdev hin hav
    simp only [hstate]
    refine ⟨rfl, ?_, hrest, fun _ => hpage⟩
    exact hflat.trans (congrArg (Mem.store s.2.device.flat (BitVec.ofNat 16 r.address)) hpay)
  | onRangeError msg => exact ⟨rfl, rfl, hs, hc⟩

end PagedI2cTransport

namespace PagedI2cTransport

/-- The bus succeeds from now on, the cache names the chip's page if it is valid, and the chip's
memory encodes the store. -/
structure Refines (M : RegisterMap 16) (mem : Mem 16) (s : PageCache × Bus Chip)
    (store : Store) : Prop where
  script : s.2.script = []
  names : s.1.Names s.2.device.page
  encodes : M.Encodes .little mem store s.2.device.flat

variable {T : PagedI2cTransport} {M : PagedMap T.pageSelectAddr} {mem : Mem 16} {store : Store}

theorem Refines.access {s : PageCache × Bus Chip} (h : Refines M.toRegisterMap mem s store)
    (area : Nat → Byte) (hr : r ∈ M.regs) (c : RegCmd r) :
    let x := (ByteTransport.paged T).registers (Chip.target T.pageSelectAddr) area c s
    x.1 = (storeRegisters c store).1 ∧
      Refines M.toRegisterMap mem x.2 (storeRegisters c store).2 := by
  obtain ⟨hvalue, hflat, hscript, hnames⟩ := inStep area hr c s h.script h.names
  obtain ⟨hstore, hencodes⟩ := h.encodes.lockstep hr c
  exact ⟨hvalue.trans hstore, hscript, hnames, hflat ▸ hencodes⟩

theorem Refines.perform {s : PageCache × Bus Chip} (h : Refines M.toRegisterMap mem s store)
    (area : Nat → Byte) (hr : r ∈ M.regs) (checkPolicy : Bool) (op : Op r) :
    let x := (ByteTransport.paged T).perform (Chip.target T.pageSelectAddr) area checkPolicy op
      s.1 s.2
    x.1 = ((op.prog checkPolicy).run storeRegisters store).1 ∧
      Refines M.toRegisterMap mem x.2 ((op.prog checkPolicy).run storeRegisters store).2 := by
  simp only [ByteTransport.perform_eq]
  exact Prog.run_sim (Q := fun (s : PageCache × Bus Chip) store =>
    Refines M.toRegisterMap mem s store) (fun c s store h => h.access area hr c) _ h

end PagedI2cTransport

section Masters

variable {κ : Type} [DecidableEq κ]

/-- Bus masters of one paged chip, each with a transport object of its own. `fresh`: nobody else
has used the chip since the master did, or since it invalidated its cache. -/
structure Masters (κ : Type) where
  bus : Bus Chip
  cache : κ → PageCache := fun _ => {}
  fresh : κ → Bool := fun _ => true

inductive MasterEvent (κ : Type)
  | access (i : κ) (a : TypedOp) (result : OpResult)
  | invalidatePageCache (i : κ)
  | foreignPage (page : Byte)

/-- Masters that invalidate their caches before they use the chip after somebody else. -/
inductive MasterStep (T : κ → PagedI2cTransport) (M : PagedMap pageSelectAddr)
    (area : Nat → Byte) (checkPolicy : Bool) : Masters κ → MasterEvent κ → Masters κ → Prop
  | access (m : Masters κ) (i : κ) (a : TypedOp) (ha : a.reg ∈ M.regs) (hi : m.fresh i = true)
      (hx : (ByteTransport.paged (T i)).perform (Chip.target pageSelectAddr) area checkPolicy a.op
        (m.cache i) m.bus = (result, c, b)) :
      MasterStep T M area checkPolicy m (.access i a result)
        { bus := b, cache := Function.update m.cache i c, fresh := fun j => decide (j = i) }
  | invalidatePageCache (m : Masters κ) (i : κ) :
      MasterStep T M area checkPolicy m (.invalidatePageCache i)
        { m with
          cache := Function.update m.cache i (m.cache i).invalidate
          fresh := Function.update m.fresh i true }
  | foreignPage (m : Masters κ) (page : Byte) :
      MasterStep T M area checkPolicy m (.foreignPage page)
        { m with
          bus := { m.bus with device := m.bus.device.select page }
          fresh := fun _ => false }

def MasterEvent.access? : MasterEvent κ → Option (TypedOp × OpResult)
  | .access _ a result => some (a, result)
  | _ => none

/-- The accesses so far did what they would have done on the store, one after the other, and every
fresh cache that is valid names the chip's page. -/
structure Masters.AsStore (M : RegisterMap 16) (checkPolicy : Bool) (mem : Mem 16)
    (evs : List (MasterEvent κ)) (m : Masters κ) (store : Store) : Prop where
  results : FlatTransport.storeAll checkPolicy ((evs.filterMap MasterEvent.access?).map Prod.fst)
    (M.storeOf .little mem) = ((evs.filterMap MasterEvent.access?).map Prod.snd, store)
  script : m.bus.script = []
  names : ∀ i, m.fresh i = true → (m.cache i).Names m.bus.device.page
  encodes : M.Encodes .little mem store m.bus.device.flat

variable {T : κ → PagedI2cTransport} {M : PagedMap pageSelectAddr} {area : Nat → Byte}
  {checkPolicy : Bool} {mem : Mem 16}

theorem Masters.AsStore.step {m m' : Masters κ} {e : MasterEvent κ} {evs : List (MasterEvent κ)}
    (hT : ∀ i, (T i).pageSelectAddr = pageSelectAddr)
    (h : m.AsStore M.toRegisterMap checkPolicy mem evs store)
    (hs : MasterStep T M area checkPolicy m e m') :
    ∃ store', m'.AsStore M.toRegisterMap checkPolicy mem (evs ++ [e]) store' := by
  cases hs with
  | @access result c b _ i a ha hi hx =>
    obtain rfl := hT i
    have hrefines : PagedI2cTransport.Refines M.toRegisterMap mem (m.cache i, m.bus) store :=
      ⟨h.script, h.names i hi, h.encodes⟩
    obtain ⟨hvalue, hafter⟩ := hrefines.perform area ha checkPolicy a.op
    rw [hx] at hvalue hafter
    obtain rfl : result = _ := hvalue
    refine ⟨((a.op.prog checkPolicy).run storeRegisters store).2, ?_, hafter.script, ?_,
      hafter.encodes⟩
    · have hcons : ∀ b, (MasterEvent.access i a b).access? = some (a, b) := fun _ => rfl
      rw [List.filterMap_append, List.filterMap_cons_some (hcons _), List.filterMap_nil,
        List.map_append, List.map_append, FlatTransport.storeAll, execute_append,
        ← FlatTransport.storeAll, h.results]
      rfl
    · intro j hj
      obtain rfl := of_decide_eq_true hj
      simp only [Function.update_self]
      exact hafter.names
  | invalidatePageCache _ i =>
    refine ⟨store, ?_, h.script, ?_, h.encodes⟩
    · rw [List.filterMap_append, List.filterMap_cons_none rfl, List.filterMap_nil, List.append_nil]
      exact h.results
    · intro j hj
      by_cases hij : j = i
      · subst hij
        simp only [Function.update_self]
        exact nofun
      · simp only [Function.update_of_ne hij] at hj ⊢
        exact h.names j hj
  | foreignPage _ page =>
    refine ⟨store, ?_, h.script, nofun, h.encodes⟩
    rw [List.filterMap_append, List.filterMap_cons_none rfl, List.filterMap_nil, List.append_nil]
    exact h.results

/-- Typed operations of several masters on one paged chip return what they return on one register
store, in the order of the operations, as long as each master invalidates its page cache before it
uses the chip after somebody else. -/
theorem masters_refine_store (hT : ∀ i, (T i).pageSelectAddr = pageSelectAddr) (chip : Chip)
    {m : Masters κ} {evs : List (MasterEvent κ)}
    (hr : Run (MasterStep T M area checkPolicy) { bus := { device := chip } } evs m) :
    let accesses := evs.filterMap MasterEvent.access?
    let onStore := FlatTransport.storeAll checkPolicy (accesses.map Prod.fst)
      (M.storeOf .little chip.flat)
    accesses.map Prod.snd = onStore.1 ∧
      M.Encodes .little chip.flat onStore.2 m.bus.device.flat := by
  have hinv : ∃ store, m.AsStore M.toRegisterMap checkPolicy chip.flat evs store := by
    refine hr.inv (I := fun (evs : List (MasterEvent κ)) (m : Masters κ) =>
      ∃ store, m.AsStore M.toRegisterMap checkPolicy chip.flat evs store) ?_ ?_
    · exact ⟨M.storeOf .little chip.flat, rfl, rfl, fun _ _ => nofun,
        M.encodes_storeOf .little chip.flat⟩
    · rintro evs m e m' ⟨store, h⟩ hstep
      exact h.step hT hstep
  obtain ⟨store, h⟩ := hinv
  simp only [h.results]
  exact ⟨trivial, h.encodes⟩

end Masters

def codecVolume : Register :=
  .declare ({ allowedTransports := [.i2c] } : Device).toParent 0x0110 .bits16

def codecMap : PagedMap codec.pageSelectAddr where
  regs := [codecVolume]
  inside := by
    intro r hr
    obtain rfl := List.mem_singleton.mp hr
    decide
  apart := by
    intro r hr q hq
    obtain rfl := List.mem_singleton.mp hr
    obtain rfl := List.mem_singleton.mp hq
    exact .inl ⟨rfl, rfl⟩
  inPage := by
    intro r hr
    obtain rfl := List.mem_singleton.mp hr
    decide
  avoids := by
    intro r hr
    obtain rfl := List.mem_singleton.mp hr
    decide

def setVolume : TypedOp :=
  ⟨(.write [⟨.register, .dynamicValue .uint16 0x1234⟩] : Op codecVolume)⟩

def getVolume : TypedOp := ⟨(.read : Op codecVolume)⟩

/-- One master writes, somebody leaves the page, and the other master reads what was written. -/
theorem masters_refine_store_codec : ∃ (evs : List (MasterEvent Bool)) (m : Masters Bool),
    (evs.filterMap MasterEvent.access?).map Prod.snd = [.done, .bits 16 0x1234] ∧
      codecMap.Encodes .little codecChip.flat
        (FlatTransport.storeAll true [setVolume, getVolume]
          (codecMap.storeOf .little codecChip.flat)).2 m.bus.device.flat := by
  have hr : Run (MasterStep (fun _ : Bool => codec) codecMap (fun _ => 0) true)
      { bus := { device := codecChip } } _ _ :=
    .snoc (.snoc (.snoc (.snoc .nil
      (.access _ true setVolume (List.mem_singleton_self _) rfl rfl)) (.foreignPage _ 7))
      (.invalidatePageCache _ false))
      (.access _ false getVolume (List.mem_singleton_self _) rfl rfl)
  obtain ⟨hresults, hencodes⟩ := masters_refine_store (fun _ => rfl) codecChip hr
  exact ⟨_, _, hresults.trans rfl, hencodes⟩

end Umimmio
