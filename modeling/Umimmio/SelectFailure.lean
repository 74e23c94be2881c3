import Umimmio.PagedRun

namespace Umimmio
open Effects Bytes
set_option autoImplicit true

def PagedEvent.SelectsFirst (e : PagedEvent) : Prop := e.calls.head?.map Call.site = some .select

/-- An access after a failed page select selects its page first. -/
def PagedEvent.RetriesSelect (e : PagedEvent) : Prop :=
  ∀ regAddr, e.action.regAddr? = some regAddr → e.before.selectFailed = true → e.SelectsFirst

/-- An access after a failed page select has a size the transport takes, and is not to the page
that a still valid cache names. -/
def PagedEvent.MissesAfterFailure (e : PagedEvent) : Prop :=
  ∀ regAddr, e.action.regAddr? = some regAddr → e.before.selectFailed = true →
    e.action.Framed ∧ ¬ e.before.cache.Hits (pageOf regAddr)

def PagedAction.KeepsOff (pageSelectAddr : Byte) : PagedAction → Prop
  | .rawWrite regAddr data => Avoids pageSelectAddr regAddr data.length
  | _ => True

/-- An access changes the page by its select only, and nobody else has changed it since the last
invalidation. -/
def PagedEvent.PageKept (pageSelectAddr : Byte) (e : PagedEvent) : Prop :=
  ∀ regAddr, e.action.regAddr? = some regAddr →
    e.before.stale = false ∧ e.action.KeepsOff pageSelectAddr

/-- Unless somebody else changed the page or the last select failed, a valid cache names the
chip's page. -/
def PagedSystem.SelectCoherent (s : PagedSystem) : Prop :=
  s.stale = false → s.selectFailed = false → s.cache.pageCacheValid = true →
    s.chip.page = s.cache.currentPage

theorem PagedAction.KeepsOff.frameEffect_page {action : PagedAction}
    (h : action.KeepsOff pageSelectAddr) (chip : Chip) :
    (action.frameEffect (Chip.target pageSelectAddr) chip).page = chip.page := by
  cases action with
  | rawWrite regAddr data =>
    have he : (Chip.target pageSelectAddr).effect (inPageOffset regAddr :: data) chip =
        chip.store (inPageOffset regAddr) data := Chip.effect_store chip h
    rw [frameEffect, he]
    rfl
  | _ => rfl

namespace PagedI2cTransport

variable {T : PagedI2cTransport} {D : Target Chip} {area : Nat → Byte} {s : PagedSystem}
  {outcomes : List Outcome} {e : PagedEvent}

theorem Accessed.selectsFirst_iff (h : T.Accessed D outcomes s page effect e) :
    e.SelectsFirst ↔ ¬ s.cache.Hits page := by
  cases h with
  | failed hf hcalls hcache =>
    rw [PagedEvent.SelectsFirst, hcalls]
    exact iff_of_true rfl hf.1
  | sent site tx ok hsite hcalls hcache hchip hok =>
    rw [PagedEvent.SelectsFirst, hcalls, selectCalls]
    by_cases hh : s.cache.Hits page
    · rw [if_pos hh]
      refine iff_of_false (fun h => hsite ?_) (not_not.mpr hh)
      exact Option.some.inj h
    · rw [if_neg hh]
      exact iff_of_true rfl hh

theorem retriesSelect_iff (h : T.Step D area Admitted May s e s') :
    e.RetriesSelect ↔ e.MissesAfterFailure := by
  have haccess : ∀ regAddr, e.action.regAddr? = some regAddr →
      (e.SelectsFirst ↔ e.action.Framed ∧ ¬ e.before.cache.Hits (pageOf regAddr)) := by
    intro regAddr ha
    rw [h.before_eq]
    rcases h.access ha with ⟨hn, hcalls, _⟩ | ⟨hframed, _, _, outcomes, _, hacc⟩
    · rw [PagedEvent.SelectsFirst, hcalls]
      exact iff_of_false nofun fun h => hn h.1
    · rw [hacc.selectsFirst_iff]
      exact (and_iff_right hframed).symm
  constructor
  · intro hr regAddr ha hf
    exact (haccess regAddr ha).mp (hr regAddr ha hf)
  · intro hm regAddr ha hf
    exact (haccess regAddr ha).mpr (hm regAddr ha hf)

theorem Accessed.select_coherent
    (h : T.Accessed (Chip.target T.pageSelectAddr) outcomes s page effect e)
    (hs : s.cache.Hits page → s.chip.page = page)
    (heffect : ∀ chip, (effect chip).page = chip.page)
    (hafter : e.after.selectFailed = selectFailedAfter s.selectFailed e.calls) :
    (∀ call ∈ e.calls, call.site ≠ .select → call.device.page = page) ∧
      e.after.SelectCoherent := by
  have hpage : (T.selectedChip (Chip.target T.pageSelectAddr) page s).page = page :=
    selectedChip_page (Chip.effect_select _ _) hs
  refine ⟨fun call hcall => h.on_target hpage hcall, fun _ hfailed _ => ?_⟩
  cases h with
  | failed hf hcalls hcache =>
    rw [hafter, hcalls] at hfailed
    cases hfailed
  | sent site tx ok hsite hcalls hcache hchip hok =>
    rw [hcache]
    rcases hchip with hchip | hchip
    · rw [hchip, hpage]
    · rw [hchip, heffect, hpage]

theorem select_coherent_step (hs : s.SelectCoherent)
    (h : T.Step (Chip.target T.pageSelectAddr) area Admitted May s e s')
    (hm : e.MissesAfterFailure) (hk : e.PageKept T.pageSelectAddr) :
    e.OnTargetPage ∧ s'.SelectCoherent := by
  cases ha : e.action.regAddr? with
  | none =>
    refine ⟨.of_no_access ha, fun hstale _ hvalid => ?_⟩
    rcases h.no_access ha with h' | h'
    · rw [hstale] at h'
      cases h'
    · rw [hvalid] at h'
      cases h'
  | some regAddr =>
    have hm := hm regAddr ha
    obtain ⟨hstale, hoff⟩ := hk regAddr ha
    rw [h.before_eq] at hm hstale
    rw [h.after_eq]
    rcases h.access ha with ⟨_, hcalls, hsame⟩ | ⟨_, _, hfailed, outcomes, _, hacc⟩
    · rw [hsame]
      refine ⟨.of_calls ha fun call hcall => ?_, hs⟩
      rw [hcalls] at hcall
      cases hcall
    · have hhit : s.cache.Hits (pageOf regAddr) → s.chip.page = pageOf regAddr := by
        intro hh
        have hf : s.selectFailed = false := by
          by_contra hf
          exact (hm (by simpa using hf)).2 hh
        exact (hs hstale hf hh.1).trans hh.2.symm
      obtain ⟨htarget, hcoherent⟩ := hacc.select_coherent hhit hoff.frameEffect_page hfailed
      exact ⟨.of_calls ha htarget, hcoherent⟩

/-- All runs: any driver call may fail, and a failed one may still have reached the chip. -/
def SelectRun (T : PagedI2cTransport) (area : Nat → Byte) (chip : Chip) :
    List PagedEvent → PagedSystem → Prop :=
  Run (T.Step (Chip.target T.pageSelectAddr) area (fun _ _ => True) fun _ => True)
    { chip := chip }

/-- After failed page selects the next accesses select first exactly when they miss the cache; and
in a run where they all do, no data frame is sent on a wrong page. -/
theorem selectFailure_iff (T : PagedI2cTransport) (area : Nat → Byte) (chip : Chip)
    (h : T.SelectRun area chip evs s) :
    ((∀ e ∈ evs, e.RetriesSelect) ↔ ∀ e ∈ evs, e.MissesAfterFailure) ∧
      ((∀ e ∈ evs, e.MissesAfterFailure) → (∀ e ∈ evs, e.PageKept T.pageSelectAddr) →
        ∀ e ∈ evs, e.OnTargetPage) := by
  constructor
  · refine forall₂_congr fun e he => ?_
    obtain ⟨_, _, hs⟩ := h.exists_step he
    exact retriesSelect_iff hs
  · have hinv := h.inv
      (I := fun evs s => (∀ e ∈ evs, e.MissesAfterFailure) →
        (∀ e ∈ evs, e.PageKept T.pageSelectAddr) →
          (∀ e ∈ evs, e.OnTargetPage) ∧ s.SelectCoherent)
      (fun _ _ => ⟨nofun, fun _ _ hv => Bool.noConfusion hv⟩) fun evs s e s' hi hs hm hk => by
        rw [List.forall_mem_append, List.forall_mem_singleton] at hm hk ⊢
        obtain ⟨hon, hcoherent⟩ := hi hm.1 hk.1
        obtain ⟨htarget, hnext⟩ := select_coherent_step hcoherent hs hm.2 hk.2
        exact ⟨⟨hon, htarget⟩, hnext⟩
    exact fun hm hk => (hinv hm hk).1

def retryRead (outcomes : List Outcome) (s : PagedSystem) (regAddr : BitVec 16) : PagedEvent :=
  codec.perform (Chip.target 0) (fun _ => 0) outcomes s (.rawRead regAddr [0])

def readPage0 : PagedEvent := retryRead [] { chip := codecChip } 0x0010
def failPage1 : PagedEvent := retryRead [{ ok := false, latched := true }] readPage0.after 0x0110

theorem retry_run (regAddr : BitVec 16) :
    codec.SelectRun (fun _ => 0) codecChip
      [readPage0, failPage1, retryRead [] failPage1.after regAddr]
      (retryRead [] failPage1.after regAddr).after :=
  .snoc (.snoc (.snoc .nil ⟨[], by simp, trivial, rfl, rfl⟩)
    ⟨[{ ok := false, latched := true }], by simp, trivial, rfl, rfl⟩)
    ⟨[], by simp, trivial, rfl, rfl⟩

/-- Going back to page 0 selects nothing, and reads from page 1. -/
theorem selectFailure_fails_cached :
    codec.SelectRun (fun _ => 0) codecChip
        [readPage0, failPage1, retryRead [] failPage1.after 0x0010]
        (retryRead [] failPage1.after 0x0010).after ∧
      ¬ (retryRead [] failPage1.after 0x0010).RetriesSelect ∧
      ¬ (retryRead [] failPage1.after 0x0010).OnTargetPage := by
  have hretries : ¬ (retryRead [] failPage1.after 0x0010).RetriesSelect := by
    intro h
    have hfirst := h 0x0010 rfl rfl
    revert hfirst
    unfold PagedEvent.SelectsFirst
    decide
  have htarget : ¬ (retryRead [] failPage1.after 0x0010).OnTargetPage := by
    intro h
    have hpage := h 0x0010 rfl _ (List.mem_singleton.mpr rfl) nofun
    revert hpage
    decide
  exact ⟨retry_run 0x0010, hretries, htarget⟩

theorem selectFailure_iff_retry :
    readPage0.OnTargetPage ∧ failPage1.OnTargetPage ∧
      (retryRead [] failPage1.after 0x0110).OnTargetPage := by
  have htarget := (selectFailure_iff codec (fun _ => 0) codecChip (retry_run 0x0110)).2 ?_ ?_
  · exact ⟨htarget _ (by simp), htarget _ (by simp), htarget _ (by simp)⟩
  · intro e he regAddr ha hf
    simp only [List.mem_cons, List.not_mem_nil, or_false] at he
    rcases he with rfl | rfl | rfl
    · cases hf
    · cases hf
    · cases ha
      exact ⟨trivial, by decide⟩
  · intro e he regAddr ha
    simp only [List.mem_cons, List.not_mem_nil, or_false] at he
    rcases he with rfl | rfl | rfl <;> exact ⟨rfl, trivial⟩

end PagedI2cTransport

end Umimmio
