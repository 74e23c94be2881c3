import Umimmio.PagedChip

namespace Umimmio
open Effects Bytes
set_option autoImplicit true

inductive PagedAction
  | rawWrite (regAddr : BitVec 16) (data : List Byte)
  | rawRead (regAddr : BitVec 16) (data : List Byte)
  | foreignPage (page : Byte)
  | invalidatePageCache

/-- A paged transport and its chip. `stale`: somebody else changed the page since the last
invalidation. `selectFailed`: the last page select reported a failure. -/
structure PagedSystem where
  chip : Chip
  cache : PageCache := {}
  stale : Bool := false
  selectFailed : Bool := false

/-- What an action did: its driver calls, the bytes a read delivered, and the state it left. -/
structure PagedEvent where
  before : PagedSystem
  action : PagedAction
  calls : List (Call Chip) := []
  data : List Byte := []
  after : PagedSystem

/-- Whether the last page select among the calls failed, or the one before them. -/
def selectFailedAfter (before : Bool) (calls : List (Call Chip)) : Bool :=
  calls.foldl (fun failed call => if call.site = .select then !call.ok else failed) before

def PagedAction.regAddr? : PagedAction → Option (BitVec 16)
  | .rawWrite regAddr _ => some regAddr
  | .rawRead regAddr _ => some regAddr
  | .foreignPage _ => none
  | .invalidatePageCache => none

def PagedAction.Framed : PagedAction → Prop
  | .rawWrite _ data => data.length ≤ maxRegBytes
  | _ => True

def PagedAction.frameEffect (D : Target Chip) : PagedAction → Chip → Chip
  | .rawWrite regAddr data => D.effect (inPageOffset regAddr :: data)
  | _ => id

/-- Every data frame of the access is sent while the chip is on the page of its address. -/
def PagedEvent.OnTargetPage (e : PagedEvent) : Prop :=
  ∀ regAddr, e.action.regAddr? = some regAddr →
    ∀ call ∈ e.calls, call.site ≠ .select → call.device.page = pageOf regAddr

theorem PagedEvent.OnTargetPage.of_calls {e : PagedEvent}
    (ha : e.action.regAddr? = some regAddr)
    (hc : ∀ call ∈ e.calls, call.site ≠ .select → call.device.page = pageOf regAddr) :
    e.OnTargetPage := by
  intro a h
  rw [ha] at h
  cases h
  exact hc

theorem PagedEvent.OnTargetPage.of_no_access {e : PagedEvent} (ha : e.action.regAddr? = none) :
    e.OnTargetPage := by
  intro a h
  rw [ha] at h
  cases h

namespace PagedSystem

def bus (s : PagedSystem) (outcomes : List Outcome) : Bus Chip where
  device := s.chip
  script := outcomes

def accessed (s : PagedSystem) (action : PagedAction) (data : List Byte) (c : PageCache)
    (b : Bus Chip) : PagedEvent where
  before := s
  action := action
  calls := b.calls
  data := data
  after :=
    { s with
      chip := b.device
      cache := c
      selectFailed := selectFailedAfter s.selectFailed b.calls }

end PagedSystem

namespace PagedI2cTransport

def perform (T : PagedI2cTransport) (D : Target Chip) (area : Nat → Byte) (outcomes : List Outcome)
    (s : PagedSystem) : PagedAction → PagedEvent
  | .rawWrite regAddr data =>
    let x := (T.rawWrite regAddr data s.cache).run (D.bus T.driver area) (s.bus outcomes)
    s.accessed (.rawWrite regAddr data) [] x.1.2 x.2
  | .rawRead regAddr data =>
    let x := (T.rawRead regAddr data s.cache).run (D.bus T.driver area) (s.bus outcomes)
    s.accessed (.rawRead regAddr data) x.1.1 x.1.2 x.2
  | .foreignPage page =>
    { before := s, action := .foreignPage page,
      after := { s with chip := s.chip.select page, stale := true } }
  | .invalidatePageCache =>
    { before := s, action := .invalidatePageCache,
      after := { s with cache := s.cache.invalidate, stale := false } }

/-- Steps whose actions are admitted in their state and whose driver calls may end as they do. -/
def Step (T : PagedI2cTransport) (D : Target Chip) (area : Nat → Byte)
    (Admitted : PagedSystem → PagedAction → Prop) (May : Outcome → Prop)
    (s : PagedSystem) (e : PagedEvent) (s' : PagedSystem) : Prop :=
  ∃ outcomes, (∀ o ∈ outcomes, May o) ∧ Admitted s e.action ∧
    e = T.perform D area outcomes s e.action ∧ s' = e.after

theorem Step.after_eq {T : PagedI2cTransport} (h : T.Step D area Admitted May s e s') :
    s' = e.after := by
  obtain ⟨_, _, _, _, hs⟩ := h
  exact hs

variable {T : PagedI2cTransport} {D : Target Chip} {area : Nat → Byte} {s : PagedSystem}
  {outcomes : List Outcome}

def selectedChip (T : PagedI2cTransport) (D : Target Chip) (page : Byte) (s : PagedSystem) : Chip :=
  if s.cache.Hits page then s.chip else D.effect [T.pageSelectAddr, page] s.chip

def selectCalls (T : PagedI2cTransport) (page : Byte) (s : PagedSystem) : List (Call Chip) :=
  if s.cache.Hits page then [] else [⟨.select, [T.pageSelectAddr, page], true, s.chip⟩]

theorem selectedChip_page
    (hD : ∀ chip, D.effect [T.pageSelectAddr, page] chip = chip.select page)
    (hc : s.cache.Hits page → s.chip.page = page) : (T.selectedChip D page s).page = page := by
  unfold selectedChip
  split_ifs with hh
  · exact hc hh
  · rw [hD]
    rfl

/-- All that an access can do, its size aside: fail to select the page, or select it and send one
data frame, which has the given effect on the chip if it arrives. -/
inductive Accessed (T : PagedI2cTransport) (D : Target Chip) (outcomes : List Outcome)
    (s : PagedSystem) (page : Byte) (effect : Chip → Chip) (e : PagedEvent) : Prop
  | failed (hf : T.SelectFails page s.cache (s.bus outcomes))
      (hcalls : e.calls = [⟨.select, [T.pageSelectAddr, page], false, s.chip⟩])
      (hcache : e.after.cache = s.cache)
  | sent (site : Site) (tx : List Byte) (ok : Bool) (hsite : site ≠ .select)
      (hcalls : e.calls = T.selectCalls page s ++ [⟨site, tx, ok, T.selectedChip D page s⟩])
      (hcache : e.after.cache = ⟨page, true⟩)
      (hchip : e.after.chip = T.selectedChip D page s ∨
        e.after.chip = effect (T.selectedChip D page s))
      (hok : (∀ o ∈ outcomes, o.ok = true) → e.after.chip = effect (T.selectedChip D page s))

theorem Accessed.on_target (h : Accessed T D outcomes s page effect e)
    (hpage : (T.selectedChip D page s).page = page) (hcall : call ∈ e.calls)
    (hc : call.site ≠ .select) : call.device.page = page := by
  cases h with
  | failed hf hcalls hcache =>
    rw [hcalls] at hcall
    obtain rfl := List.mem_singleton.mp hcall
    exact absurd rfl hc
  | sent site tx ok hsite hcalls hcache hchip hok =>
    rw [hcalls] at hcall
    rcases List.mem_append.mp hcall with hcall | hcall
    · unfold selectCalls at hcall
      split_ifs at hcall
      · cases hcall
      · obtain rfl := List.mem_singleton.mp hcall
        exact absurd rfl hc
    · obtain rfl := List.mem_singleton.mp hcall
      exact hpage

theorem selectSent_calls (hf : T.SelectFails page s.cache (s.bus outcomes)) :
    (T.selectSent D page (s.bus outcomes)).calls =
      [⟨.select, [T.pageSelectAddr, page], false, s.chip⟩] := by
  rw [selectSent, Bus.report_calls, Bus.sent, hf.2]
  rfl

theorem selected_eq (D : Target Chip) (hf : ¬ T.SelectFails page s.cache (s.bus outcomes)) :
    (T.selected D page s.cache (s.bus outcomes)).device = T.selectedChip D page s ∧
      (T.selected D page s.cache (s.bus outcomes)).calls = T.selectCalls page s ∧
        ∀ o ∈ (T.selected D page s.cache (s.bus outcomes)).script, o ∈ outcomes := by
  unfold selected selectedChip selectCalls
  by_cases hh : s.cache.Hits page
  · simp only [if_pos hh]
    exact ⟨rfl, rfl, fun o ho => ho⟩
  · have hok := outcome_ok_of_selects hf hh
    simp only [if_neg hh, selectSent, hok, Bus.report_true, Bus.sent, Bool.true_or, if_pos]
    exact ⟨rfl, rfl, fun o ho => List.mem_of_mem_tail ho⟩

theorem accessed_rawWrite (T : PagedI2cTransport) (D : Target Chip) (area : Nat → Byte)
    (outcomes : List Outcome) (s : PagedSystem) (regAddr : BitVec 16) {data : List Byte}
    (hd : data.length ≤ maxRegBytes) :
    Accessed T D outcomes s (pageOf regAddr) (D.effect (inPageOffset regAddr :: data))
      (T.perform D area outcomes s (.rawWrite regAddr data)) := by
  simp only [perform, run_rawWrite T D area regAddr hd]
  by_cases hf : T.SelectFails (pageOf regAddr) s.cache (s.bus outcomes)
  · rw [if_pos hf]
    exact .failed hf (selectSent_calls hf) rfl
  · rw [if_neg hf]
    obtain ⟨hdev, hcalls, hscript⟩ := selected_eq D hf
    refine .sent .write (inPageOffset regAddr :: data)
      ((T.selected D (pageOf regAddr) s.cache (s.bus outcomes)).outcome T.driver.voidWrite).ok
      nofun ?_ rfl ?_ fun hall => ?_
    · rw [← hdev, ← hcalls]
      exact Bus.report_calls _ _ _
    · rw [← hdev, PagedSystem.accessed, dataWritten, Bus.report_device, Bus.sent]
      split_ifs
      · exact .inr rfl
      · exact .inl rfl
    · have hok := Bus.outcome_of_script (P := fun o => o.ok = true) rfl
        (fun o ho => hall o (hscript o ho)) T.driver.voidWrite
      rw [← hdev, PagedSystem.accessed, dataWritten, Bus.report_device, Bus.sent_device_of_ok hok]

theorem accessed_rawRead (T : PagedI2cTransport) (D : Target Chip) (area : Nat → Byte)
    (outcomes : List Outcome) (s : PagedSystem) (regAddr : BitVec 16) (data : List Byte) :
    Accessed T D outcomes s (pageOf regAddr) id
      (T.perform D area outcomes s (.rawRead regAddr data)) := by
  simp only [perform, run_rawRead T D area regAddr data]
  by_cases hf : T.SelectFails (pageOf regAddr) s.cache (s.bus outcomes)
  · rw [if_pos hf]
    exact .failed hf (selectSent_calls hf) rfl
  · rw [if_neg hf]
    obtain ⟨hdev, hcalls, hscript⟩ := selected_eq D hf
    refine .sent .read [inPageOffset regAddr]
      ((T.selected D (pageOf regAddr) s.cache (s.bus outcomes)).outcome T.driver.voidWriteRead).ok
      nofun ?_ rfl ?_ fun _ => ?_
    · rw [← hdev, ← hcalls]
      exact Bus.report_calls _ _ _
    · rw [← hdev]
      exact .inl (Bus.report_device _ _ _)
    · rw [← hdev]
      exact Bus.report_device _ _ _

theorem rejected_rawWrite (T : PagedI2cTransport) (D : Target Chip) (area : Nat → Byte)
    (outcomes : List Outcome) (s : PagedSystem) (regAddr : BitVec 16) {data : List Byte}
    (hd : maxRegBytes < data.length) :
    (T.perform D area outcomes s (.rawWrite regAddr data)).calls = [] ∧
      (T.perform D area outcomes s (.rawWrite regAddr data)).after = s := by
  simp only [perform, run_rawWrite_oversize T D area regAddr hd]
  exact ⟨rfl, rfl⟩

theorem Step.access (h : T.Step D area Admitted May s e s')
    (ha : e.action.regAddr? = some regAddr) :
    (¬ e.action.Framed ∧ e.calls = [] ∧ e.after = s) ∨
      e.action.Framed ∧ e.after.stale = s.stale ∧
        e.after.selectFailed = selectFailedAfter s.selectFailed e.calls ∧
        ∃ outcomes, (∀ o ∈ outcomes, May o) ∧
          Accessed T D outcomes s (pageOf regAddr) (e.action.frameEffect D) e := by
  obtain ⟨outcomes, hmay, _, he, _⟩ := h
  cases hact : e.action with
  | rawWrite addr data =>
    rw [hact] at ha he
    cases ha
    by_cases hd : data.length ≤ maxRegBytes
    · have hacc := accessed_rawWrite T D area outcomes s regAddr hd
      rw [← he] at hacc
      refine .inr ⟨hd, ?_, ?_, outcomes, hmay, hacc⟩ <;> rw [he] <;> rfl
    · have hr := rejected_rawWrite T D area outcomes s regAddr (Nat.lt_of_not_le hd)
      rw [← he] at hr
      exact .inl ⟨hd, hr⟩
  | rawRead addr data =>
    rw [hact] at ha he
    cases ha
    have hacc := accessed_rawRead T D area outcomes s regAddr data
    rw [← he] at hacc
    refine .inr ⟨trivial, ?_, ?_, outcomes, hmay, hacc⟩ <;> rw [he] <;> rfl
  | foreignPage page =>
    rw [hact] at ha
    cases ha
  | invalidatePageCache =>
    rw [hact] at ha
    cases ha

theorem Step.no_access (h : T.Step D area Admitted May s e s')
    (ha : e.action.regAddr? = none) :
    s'.stale = true ∨ s'.cache.pageCacheValid = false := by
  obtain ⟨outcomes, _, _, he, rfl⟩ := h
  cases hact : e.action with
  | rawWrite addr data =>
    rw [hact] at ha
    cases ha
  | rawRead addr data =>
    rw [hact] at ha
    cases ha
  | foreignPage page =>
    rw [he, hact]
    exact .inl rfl
  | invalidatePageCache =>
    rw [he, hact]
    exact .inr rfl

theorem Step.before_eq (h : T.Step D area Admitted May s e s') : e.before = s := by
  obtain ⟨outcomes, _, _, he, _⟩ := h
  rw [he]
  cases e.action <;> rfl

end PagedI2cTransport

def codec : PagedI2cTransport := { native := .little, deviceAddr := 0x30 }
def codecChip : Chip := ⟨3, fun _ _ => 0⟩

end Umimmio
