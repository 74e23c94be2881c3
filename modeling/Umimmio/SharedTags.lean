import Umimmio.LatchPolling

namespace Umimmio
open Effects Bytes
set_option autoImplicit true

section Tags

variable {ι Tag : Type} [DecidableEq ι] [DecidableEq Tag] {stations : ι → Station} {tag : ι → Tag}

/-- What the devices that share a tag do. -/
def ofTag (tag : ι → Tag) (k : Tag) (e : ι × LatchEvent) : Option LatchEvent :=
  if tag e.1 = k then some e.2 else none

/-- The latch of each tag tells whether a call of one of its devices has failed since a poll
through any of them. -/
structure LatchSystem.Tracks (tag : ι → Tag) (evs : List (ι × LatchEvent))
    (s : LatchSystem stations Tag) : Prop where
  reported : ∀ i, (s.bus i).Reported
  latched : ∀ k, s.latched k = true ↔ FailedSinceTake (evs.filterMap (ofTag tag k))
  polls : ∀ k, PollsRight (evs.filterMap (ofTag tag k))

theorem LatchSystem.Tracks.step {s t : LatchSystem stations Tag} (h : s.Tracks tag evs)
    (hs : LatchSystemStep stations tag s e t) : t.Tracks tag (evs ++ [e]) := by
  cases hs with
  | @device i e u hdev =>
    have hbus : (s.device tag i).bus.Reported := h.reported i
    have hsnoc : ∀ k, (evs ++ [(i, e)]).filterMap (ofTag tag k) =
        evs.filterMap (ofTag tag k) ++ if tag i = k then [e] else [] := by
      intro k
      rw [List.filterMap_append]
      refine congrArg _ ?_
      by_cases hk : tag i = k
      · rw [if_pos hk]
        exact List.filterMap_cons_some (if_pos hk)
      · rw [if_neg hk]
        exact List.filterMap_cons_none (if_neg hk)
    constructor
    · intro j
      by_cases hj : j = i
      · subst hj
        simp only [LatchSystem.update, Function.update_self]
        exact hdev.reported hbus
      · simp only [LatchSystem.update, Function.update_of_ne hj]
        exact h.reported j
    · intro k
      rw [hsnoc]
      by_cases hk : tag i = k
      · subst hk
        rw [if_pos rfl]
        simp only [LatchSystem.update, Function.update_self]
        rw [hdev.latched_iff hbus, failedSinceTake_snoc_iff, ← h.latched (tag i)]
        rfl
      · simp only [LatchSystem.update, Function.update_of_ne (Ne.symm hk)]
        rw [if_neg hk, List.append_nil]
        exact h.latched k
    · intro k
      rw [hsnoc]
      by_cases hk : tag i = k
      · subst hk
        rw [if_pos rfl]
        refine (h.polls _).snoc ?_
        rintro b rfl
        cases hdev
        exact h.latched (tag i)
      · rw [if_neg hk, List.append_nil]
        exact h.polls k

/-- Devices that share a tag share its latch: in every run a poll reports exactly the failed calls
of all of them since the last poll through any of them, and no others. -/
theorem shared_latch_polls {s t : LatchSystem stations Tag}
    (hs : ∀ i, (s.bus i).calls = [] ∧ (s.bus i).errors = []) (hl : ∀ k, s.latched k = false)
    (h : Run (LatchSystemStep stations tag) s evs t) (k : Tag) :
    PollsRight (evs.filterMap (ofTag tag k)) ∧
      (t.latched k = true ↔ FailedSinceTake (evs.filterMap (ofTag tag k))) := by
  have htracks : t.Tracks tag evs := by
    refine h.inv (I := fun evs t => LatchSystem.Tracks tag evs t) ?_ ?_
    · refine ⟨fun i => ?_, fun k => ?_, fun k => ?_⟩
      · obtain ⟨hcalls, herrors⟩ := hs i
        exact (congrArg List.length herrors).trans (congrArg (List.countP _) hcalls).symm
      · rw [hl k]
        exact iff_of_false Bool.false_ne_true not_failedSinceTake_nil
      · intro before b after heq
        exact absurd heq.symm (List.append_ne_nil_of_right_ne_nil _ (List.cons_ne_nil _ _))
    · intro evs t e u h hstep
      exact h.step hstep
  exact ⟨htracks.polls k, htracks.latched k⟩

/-- A device polls the latch that it shares with the device whose call has failed. -/
theorem shared_latch_polls_two : PollsRight [.access [false], .take true, .take false] := by
  have hrun : ∃ t, Run (LatchSystemStep (fun _ : Bool => polled) fun _ => ())
      { transport := fun _ => (), latched := fun _ => false,
        bus := fun _ => { device := (), script := [{ ok := false }] } }
      [(true, .access [false]), (false, .take true), (true, .take false)] t :=
    ⟨_, .snoc (.snoc (.snoc .nil (.device _ true
      (.access _ (.read : Op pollStatus) trivial trivial))) (.device _ false (.take _)))
      (.device _ true (.take _))⟩
  obtain ⟨t, hrun⟩ := hrun
  exact (shared_latch_polls (fun _ => ⟨rfl, rfl⟩) (fun _ => rfl) hrun ()).1

end Tags

end Umimmio
