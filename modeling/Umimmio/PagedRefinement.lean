import Umimmio.PagedRun

namespace Umimmio
open Effects Bytes
set_option autoImplicit true

def PagedEvent.succeeded (e : PagedEvent) : Bool := e.calls.all fun call => call.ok

/-- A flat register file: successful accesses load and store, nothing else has an effect. -/
def FlatStep (m : Mem 16) (e : PagedEvent) (m' : Mem 16) : Prop :=
  match e.action with
  | .rawWrite regAddr data => m' = if e.succeeded then m.store regAddr data else m
  | .rawRead regAddr data =>
    m' = m ∧ (e.succeeded = true → e.data = m.load regAddr data.length)
  | .foreignPage _ => m' = m
  | .invalidatePageCache => m' = m

def Outcome.Lossless (o : Outcome) : Prop := o.latched = false

/-- The accesses of the refinement: after a page change made by others the cache is invalidated
first, and the bytes stay in the page; written ones keep off the page-select register. -/
def FlatAdmitted (pageSelectAddr : Byte) (s : PagedSystem) : PagedAction → Prop
  | .rawWrite regAddr data => s.stale = false ∧ data.length ≤ maxRegBytes ∧
      InPage regAddr data.length ∧ Avoids pageSelectAddr regAddr data.length
  | .rawRead regAddr data => s.stale = false ∧ InPage regAddr data.length
  | .foreignPage _ => True
  | .invalidatePageCache => True

/-- Unless somebody else changed the page, a valid cache names the chip's page. -/
def PagedSystem.Coherent (s : PagedSystem) : Prop :=
  s.stale = false → s.cache.pageCacheValid = true → s.chip.page = s.cache.currentPage

namespace Bus

variable {δ : Type} {b : Bus δ} {D : Target δ}

def succeeded (b : Bus δ) : Bool := b.calls.all fun call => call.ok

@[simp] theorem succeeded_sent (isVoid : Bool) (site : Site) (tx : List Byte) :
    (b.sent D isVoid site tx).succeeded = (b.succeeded && (b.outcome isVoid).ok) := by
  simp only [succeeded, sent, List.all_append, List.all_cons, List.all_nil, Bool.and_true]

@[simp] theorem succeeded_queried (isVoid : Bool) (tx : List Byte) :
    (b.queried isVoid tx).succeeded = (b.succeeded && (b.outcome isVoid).ok) := by
  simp only [succeeded, queried, List.all_append, List.all_cons, List.all_nil, Bool.and_true]

@[simp] theorem succeeded_report (ok : Bool) (msg : String) :
    (b.report ok msg).succeeded = b.succeeded := by
  rw [succeeded, report_calls, succeeded]

theorem sent_device_of_failed (hl : ∀ o ∈ b.script, o.Lossless)
    (h : (b.outcome isVoid).ok = false) (site : Site) (tx : List Byte) :
    (b.sent D isVoid site tx).device = b.device := by
  have hlatched := outcome_of_script (P := Outcome.Lossless) rfl hl isVoid
  rw [Outcome.Lossless] at hlatched
  rw [sent, h, hlatched, Bool.false_or, if_neg Bool.false_ne_true]

end Bus

namespace PagedI2cTransport

variable {T : PagedI2cTransport} {area : Nat → Byte} {s : PagedSystem} {outcomes : List Outcome}

/-- When the select does not fail, the data frame finds the chip on the page of the access. -/
structure OnPage (page : Byte) (chip : Chip) (b : Bus Chip) : Prop where
  device : b.device = chip.select page
  succeeded : b.succeeded = true
  lossless : ∀ o ∈ b.script, o.Lossless

theorem selected_onPage (hc : s.Coherent) (hs : s.stale = false)
    (hl : ∀ o ∈ outcomes, o.Lossless)
    (hf : ¬ T.SelectFails page s.cache (s.bus outcomes)) :
    OnPage page s.chip
      (T.selected (Chip.target T.pageSelectAddr) page s.cache (s.bus outcomes)) := by
  unfold selected
  by_cases hh : s.cache.Hits page
  · rw [if_pos hh]
    refine ⟨?_, rfl, hl⟩
    have hp : s.chip.page = page := (hc hs hh.1).trans hh.2.symm
    rw [Chip.select, ← hp]
    rfl
  · have hok := outcome_ok_of_selects hf hh
    rw [if_neg hh, selectSent, hok, Bus.report_true]
    refine ⟨?_, ?_, fun o ho => hl o (List.mem_of_mem_tail ho)⟩
    · rw [Bus.sent_device_of_ok hok]
      exact Chip.effect_select _ _ _
    · rw [Bus.succeeded_sent, hok]
      rfl

theorem selectSent_failed (hl : ∀ o ∈ outcomes, o.Lossless)
    (hf : T.SelectFails page s.cache (s.bus outcomes)) :
    (T.selectSent (Chip.target T.pageSelectAddr) page (s.bus outcomes)).device = s.chip ∧
      (T.selectSent (Chip.target T.pageSelectAddr) page (s.bus outcomes)).succeeded = false := by
  constructor
  · rw [selectSent, Bus.report_device, Bus.sent_device_of_failed hl hf.2]
    rfl
  · rw [selectSent, Bus.succeeded_report, Bus.succeeded_sent, hf.2, Bool.and_false]

theorem dataWritten_onPage {b : Bus Chip} (hb : OnPage (pageOf regAddr) chip b)
    (hin : InPage regAddr data.length) (ha : Avoids T.pageSelectAddr regAddr data.length) :
    let b' := T.dataWritten (Chip.target T.pageSelectAddr) regAddr data b
    b'.device.flat = (if b'.succeeded then chip.flat.store regAddr data else chip.flat) ∧
      b'.device.page = pageOf regAddr := by
  simp only [dataWritten, Bus.report_device, Bus.succeeded_report, Bus.succeeded_sent,
    hb.succeeded, Bool.true_and]
  cases hok : (b.outcome T.driver.voidWrite).ok with
  | true =>
    rw [Bus.sent_device_of_ok hok, hb.device, if_pos rfl]
    have he : (Chip.target T.pageSelectAddr).effect (inPageOffset regAddr :: data)
        (chip.select (pageOf regAddr)) =
          (chip.select (pageOf regAddr)).store (inPageOffset regAddr) data :=
      Chip.effect_store _ ha
    rw [he]
    exact ⟨Chip.flat_store _ hin rfl, rfl⟩
  | false =>
    rw [Bus.sent_device_of_failed hb.lossless hok, hb.device]
    exact ⟨rfl, rfl⟩

theorem bytesRead_onPage {b : Bus Chip} (hb : OnPage (pageOf regAddr) chip b)
    (hin : InPage regAddr size) (hok : (T.dataRead regAddr b).succeeded = true) :
    T.bytesRead (Chip.target T.pageSelectAddr) regAddr size b = chip.flat.load regAddr size := by
  rw [dataRead, Bus.succeeded_report, Bus.succeeded_queried, hb.succeeded, Bool.true_and] at hok
  rw [bytesRead, if_pos hok, hb.device]
  exact Chip.flat_load (chip.select (pageOf regAddr)) hin rfl

theorem flatStep_write_iff (c : PageCache) (b : Bus Chip) (bytes : List Byte) :
    FlatStep m (s.accessed (.rawWrite regAddr data) bytes c b) m' ↔
      m' = if b.succeeded then m.store regAddr data else m :=
  Iff.rfl

theorem flatStep_read_iff (c : PageCache) (b : Bus Chip) (bytes : List Byte) :
    FlatStep m (s.accessed (.rawRead regAddr data) bytes c b) m' ↔
      m' = m ∧ (b.succeeded = true → bytes = m.load regAddr data.length) :=
  Iff.rfl

theorem flatStep_rawWrite (area : Nat → Byte) (hc : s.Coherent)
    (hl : ∀ o ∈ outcomes, o.Lossless)
    (ha : FlatAdmitted T.pageSelectAddr s (.rawWrite regAddr data)) :
    let e := T.perform (Chip.target T.pageSelectAddr) area outcomes s (.rawWrite regAddr data)
    FlatStep s.chip.flat e e.after.chip.flat ∧ e.after.Coherent := by
  obtain ⟨hs, hd, hin, hav⟩ := ha
  simp only [perform, run_rawWrite T _ area regAddr hd]
  by_cases hf : T.SelectFails (pageOf regAddr) s.cache (s.bus outcomes)
  · obtain ⟨hdev, hsucc⟩ := selectSent_failed hl hf
    rw [if_pos hf, flatStep_write_iff, hsucc]
    simp only [PagedSystem.accessed, PagedSystem.Coherent, hdev]
    exact ⟨rfl, hc⟩
  · have hb := selected_onPage hc hs hl hf
    obtain ⟨hflat, hpage⟩ := dataWritten_onPage hb hin hav
    rw [if_neg hf, flatStep_write_iff]
    exact ⟨hflat, fun _ _ => hpage⟩

theorem flatStep_rawRead (area : Nat → Byte) (hc : s.Coherent)
    (hl : ∀ o ∈ outcomes, o.Lossless)
    (ha : FlatAdmitted T.pageSelectAddr s (.rawRead regAddr data)) :
    let e := T.perform (Chip.target T.pageSelectAddr) area outcomes s (.rawRead regAddr data)
    FlatStep s.chip.flat e e.after.chip.flat ∧ e.after.Coherent := by
  obtain ⟨hs, hin⟩ := ha
  simp only [perform, run_rawRead T _ area regAddr]
  by_cases hf : T.SelectFails (pageOf regAddr) s.cache (s.bus outcomes)
  · obtain ⟨hdev, hsucc⟩ := selectSent_failed hl hf
    rw [if_pos hf, flatStep_read_iff, hsucc]
    simp only [PagedSystem.accessed, PagedSystem.Coherent, hdev]
    exact ⟨⟨trivial, fun h => absurd h Bool.false_ne_true⟩, hc⟩
  · have hb := selected_onPage hc hs hl hf
    have hdev : (T.dataRead regAddr
        (T.selected (Chip.target T.pageSelectAddr) (pageOf regAddr) s.cache
          (s.bus outcomes))).device = s.chip.select (pageOf regAddr) := by
      rw [dataRead, Bus.report_device]
      exact hb.device
    rw [if_neg hf, flatStep_read_iff]
    simp only [PagedSystem.accessed, PagedSystem.Coherent, hdev]
    exact ⟨⟨rfl, bytesRead_onPage hb hin⟩, fun _ _ => rfl⟩

def FlatRun (T : PagedI2cTransport) (area : Nat → Byte) (chip : Chip) :
    List PagedEvent → PagedSystem → Prop :=
  Run (T.Step (Chip.target T.pageSelectAddr) area (FlatAdmitted T.pageSelectAddr)
    Outcome.Lossless) { chip := chip }

theorem flatStep_step (hc : s.Coherent)
    (h : T.Step (Chip.target T.pageSelectAddr) area (FlatAdmitted T.pageSelectAddr)
      Outcome.Lossless s e s') :
    FlatStep s.chip.flat e s'.chip.flat ∧ s'.Coherent := by
  obtain ⟨outcomes, hl, ha, he, rfl⟩ := h
  cases hact : e.action with
  | rawWrite regAddr data =>
    rw [hact] at ha he
    rw [he]
    exact flatStep_rawWrite area hc hl ha
  | rawRead regAddr data =>
    rw [hact] at ha he
    rw [he]
    exact flatStep_rawRead area hc hl ha
  | foreignPage page =>
    rw [hact] at he
    rw [he]
    exact ⟨rfl, nofun⟩
  | invalidatePageCache =>
    rw [hact] at he
    rw [he]
    exact ⟨rfl, nofun⟩

/-- A paged transport and its chip refine a flat register file with 16-bit addresses. -/
theorem refines_flat (T : PagedI2cTransport) (area : Nat → Byte) (chip : Chip)
    (h : T.FlatRun area chip evs s) : Run FlatStep chip.flat evs s.chip.flat := by
  have hinv := h.inv (I := fun evs s => Run FlatStep chip.flat evs s.chip.flat ∧ s.Coherent)
    ⟨.nil, nofun⟩ fun evs s e s' hi hs => by
      obtain ⟨hflat, hc⟩ := flatStep_step hi.2 hs
      exact ⟨.snoc hi.1 hflat, hc⟩
  exact hinv.1

def codecWrite : PagedEvent :=
  codec.perform (Chip.target 0) (fun _ => 0) [] { chip := codecChip } (.rawWrite 0x0110 [0xAB])

def codecRead : PagedEvent :=
  codec.perform (Chip.target 0) (fun _ => 0) [] codecWrite.after (.rawRead 0x0110 [0])

theorem refines_flat_codec :
    Run FlatStep codecChip.flat [codecWrite, codecRead] codecRead.after.chip.flat :=
  refines_flat codec (fun _ => 0) codecChip
    (.snoc (.snoc .nil ⟨[], by simp, ⟨rfl, by decide, by decide, by decide⟩, rfl, rfl⟩)
      ⟨[], by simp, ⟨rfl, by decide⟩, rfl, rfl⟩)

end PagedI2cTransport

end Umimmio
