import Umimmio.PagedRun

namespace Umimmio
open Effects Bytes
set_option autoImplicit true

/-- A valid cache names the page the chip is on. -/
def PagedSystem.CacheCoherent (s : PagedSystem) : Prop :=
  s.cache.pageCacheValid = true → s.chip.page = s.cache.currentPage

def PageCacheAdmitted (_ : PagedSystem) : PagedAction → Prop
  | .rawWrite _ data => data.length ≤ maxRegBytes
  | .rawRead _ _ => True
  | .foreignPage _ => False
  | .invalidatePageCache => True

/-- A write that reaches the page-select register stores the number of its own page there. -/
def PagedAction.StoresOwnPage (pageSelectAddr : Byte) : PagedAction → Prop
  | .rawWrite regAddr data =>
    data.getD (pageSelectAddr - inPageOffset regAddr).toNat (pageOf regAddr) = pageOf regAddr
  | _ => True

instance (pageSelectAddr : Byte) (action : PagedAction) :
    Decidable (action.StoresOwnPage pageSelectAddr) := by
  unfold PagedAction.StoresOwnPage
  split <;> infer_instance

namespace PagedI2cTransport

variable {T : PagedI2cTransport} {D : Target Chip} {area : Nat → Byte} {s : PagedSystem}
  {outcomes : List Outcome} {e : PagedEvent}

theorem Accessed.on_page (h : T.Accessed (Chip.bytewise T.pageSelectAddr) outcomes s page effect e)
    (hs : s.CacheCoherent) (hall : ∀ o ∈ outcomes, o.ok = true) :
    (∀ call ∈ e.calls, call.site ≠ .select → call.device.page = page) ∧
      e.after.cache = ⟨page, true⟩ ∧ ∃ chip, chip.page = page ∧ e.after.chip = effect chip := by
  have hpage : (T.selectedChip (Chip.bytewise T.pageSelectAddr) page s).page = page :=
    selectedChip_page (Chip.bytewise_select _ _) fun hh => (hs hh.1).trans hh.2.symm
  refine ⟨fun call hcall => h.on_target hpage hcall, ?_⟩
  cases h with
  | failed hf hcalls hcache =>
    have hok := Bus.outcome_of_script (b := s.bus outcomes) (P := fun o => o.ok = true) rfl hall
    exact absurd (hok _) (ne_true_of_eq_false hf.2)
  | sent site tx ok hsite hcalls hcache hchip hok => exact ⟨hcache, _, hpage, hok hall⟩

/-- A write leaves the chip on the page whose number it stores, and the cache on its own page. -/
theorem Accessed.coherent_write {data : List Byte} (hd : data.length ≤ maxRegBytes)
    (hact : e.action = .rawWrite regAddr data)
    (h : T.Accessed (Chip.bytewise T.pageSelectAddr) outcomes s (pageOf regAddr)
      ((Chip.bytewise T.pageSelectAddr).effect (inPageOffset regAddr :: data)) e)
    (hs : s.CacheCoherent) (hall : ∀ o ∈ outcomes, o.ok = true) :
    (e.after.CacheCoherent ∧ e.OnTargetPage) ↔ e.action.StoresOwnPage T.pageSelectAddr := by
  obtain ⟨hcalls, hcache, chip, hpage, hchip⟩ := h.on_page hs hall
  have hlen : data.length ≤ 256 := Nat.le_trans hd (by decide)
  have hafter : e.after.chip.page =
      data.getD (T.pageSelectAddr - inPageOffset regAddr).toNat (pageOf regAddr) := by
    rw [hchip, ← hpage]
    exact Chip.page_storeBytes _ _ _ _ hlen
  have htarget : e.OnTargetPage := .of_calls (by rw [hact]; rfl) hcalls
  rw [PagedSystem.CacheCoherent, hcache, hafter, hact]
  exact ⟨fun h => h.1 rfl, fun h => ⟨fun _ => h, htarget⟩⟩

theorem Accessed.coherent_read {data : List Byte} (hact : e.action = .rawRead regAddr data)
    (h : T.Accessed (Chip.bytewise T.pageSelectAddr) outcomes s (pageOf regAddr) id e)
    (hs : s.CacheCoherent) (hall : ∀ o ∈ outcomes, o.ok = true) :
    e.after.CacheCoherent ∧ e.OnTargetPage := by
  obtain ⟨hcalls, hcache, chip, hpage, hchip⟩ := h.on_page hs hall
  have hcoherent : e.after.CacheCoherent := by
    rw [PagedSystem.CacheCoherent, hcache, hchip]
    exact fun _ => hpage
  exact ⟨hcoherent, .of_calls (by rw [hact]; rfl) hcalls⟩

theorem coherent_step_iff (hs : s.CacheCoherent)
    (h : T.Step (Chip.bytewise T.pageSelectAddr) area PageCacheAdmitted (fun o => o.ok = true)
      s e s') :
    (s'.CacheCoherent ∧ e.OnTargetPage) ↔ e.action.StoresOwnPage T.pageSelectAddr := by
  obtain ⟨outcomes, hall, ha, he, rfl⟩ := h
  cases hact : e.action with
  | rawWrite regAddr data =>
    rw [hact] at ha he
    have hacc := accessed_rawWrite T (Chip.bytewise T.pageSelectAddr) area outcomes s regAddr ha
    rw [← he] at hacc
    rw [← hact]
    exact hacc.coherent_write ha hact hs hall
  | rawRead regAddr data =>
    rw [hact] at he
    have hacc := accessed_rawRead T (Chip.bytewise T.pageSelectAddr) area outcomes s regAddr data
    rw [← he] at hacc
    exact iff_of_true (hacc.coherent_read hact hs hall) trivial
  | foreignPage page =>
    rw [hact] at ha
    exact ha.elim
  | invalidatePageCache =>
    rw [hact] at he
    have hcoherent : e.after.CacheCoherent := by
      rw [he]
      exact nofun
    exact iff_of_true ⟨hcoherent, .of_no_access (by rw [hact]; rfl)⟩ trivial

def CacheRun (T : PagedI2cTransport) (area : Nat → Byte) (chip : Chip) :
    List PagedEvent → PagedSystem → Prop :=
  Run (T.Step (Chip.bytewise T.pageSelectAddr) area PageCacheAdmitted fun o => o.ok = true)
    { chip := chip }

/-- The page cache stays coherent along a run, and every data frame is sent on the page of its
address, exactly when no write puts another page's number on the page-select register. -/
theorem cacheCoherent_iff (T : PagedI2cTransport) (area : Nat → Byte) (chip : Chip)
    (h : T.CacheRun area chip evs s) :
    (∀ e ∈ evs, e.after.CacheCoherent ∧ e.OnTargetPage) ↔
      ∀ e ∈ evs, e.action.StoresOwnPage T.pageSelectAddr := by
  have hiff := h.forall_iff (P := fun e => e.after.CacheCoherent ∧ e.OnTargetPage)
    (Q := fun e => e.action.StoresOwnPage T.pageSelectAddr) (I := PagedSystem.CacheCoherent)
    (fun hv => Bool.noConfusion hv) fun s e s' hs he => by
      have hstep := coherent_step_iff hs he
      rw [he.after_eq] at hstep ⊢
      exact ⟨hstep, fun hstores => (hstep.mpr hstores).1⟩
  exact hiff.1

/-- Writing 1 to logical address 0: the transport selects page 0, and the data frame page 1. -/
def overwritePage : PagedEvent :=
  codec.perform (Chip.bytewise 0) (fun _ => 0) [] { chip := codecChip } (.rawWrite 0x0000 [1])

theorem overwritePage_run :
    codec.CacheRun (fun _ => 0) codecChip [overwritePage] overwritePage.after :=
  .snoc .nil ⟨[], by simp, (show 1 ≤ 8 by decide), rfl, rfl⟩

theorem cacheCoherent_fails_overwrite :
    codec.CacheRun (fun _ => 0) codecChip [overwritePage] overwritePage.after ∧
      ¬ overwritePage.after.CacheCoherent := by
  have hcoherent : ¬ overwritePage.after.CacheCoherent := by
    intro h
    have hp := h rfl
    revert hp
    decide
  exact ⟨overwritePage_run, hcoherent⟩

theorem cacheCoherent_iff_overwrite :
    ¬ ∀ e ∈ [overwritePage], e.after.CacheCoherent ∧ e.OnTargetPage := by
  rw [cacheCoherent_iff codec (fun _ => 0) codecChip overwritePage_run]
  intro h
  have hs := h overwritePage (by simp)
  revert hs
  decide

end PagedI2cTransport

end Umimmio
