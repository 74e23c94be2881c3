import Umimmio.SharedBits

namespace Umimmio
open Effects
set_option autoImplicit true

variable {r : Register} {κ σ : Type}

theorem Op.DependsOn.not_flag {op : Op r} (h : op.DependsOn i) : r.w1cMask.getLsbD i = false := by
  cases op with
  | modify values => exact h.2
  | flip f => exact h
  | clear f => exact h.2
  | _ => exact h.elim

section Contexts

variable [DecidableEq κ] {checkPolicy : Bool} {Admitted : κ → Op r → Prop} {word : BitVec r.bits}
  {evs : List (FlagEvent r κ)} {c c' : FlagPool r κ} {e : FlagEvent r κ}

/-- The steps of contexts that enclose their read-modify-writes in critical sections, and of the
hardware, which raises flags at any time. -/
def lockedFlagStep (checkPolicy : Bool) (Admitted : κ → Op r → Prop) (c : FlagPool r κ)
    (e : FlagEvent r κ) (c' : FlagPool r κ) : Prop :=
  flagStep checkPolicy Admitted c e c' ∧ ExclusiveCalls (fun op : Op r => op) c'.running

/-- What a call has read is current while only flags differ: those that come up between the read
and the write of a call do not matter to it. -/
theorem keepsRead_hardware :
    KeepsRead (fun _ : Op r => hardware (w1cBehavior r)) (fun op : Op r => op) setFlags
      fun _ v word => ∀ i, r.w1cMask.getLsbD i = false → v.getLsbD i = word.getLsbD i where
  quiet _ _ _ := rfl
  reads _ _ := rfl
  current _ word i _ := getLsbD_busRead word i
  surroundings m op v word hv i hi := by
    rw [getLsbD_setFlags, hi, Bool.and_false, Bool.or_false]
    exact hv i hi
  elsewhere _ _ _ _ _ haddr := absurd rfl haddr
  same op v word hop hv := by
    refine (hop.rmwWord_eq_iff _ _).mpr fun i hi => ?_
    exact (hv i hi.not_flag).trans (getLsbD_busRead word i).symm

/-- With every read-modify-write in a critical section, calls act as a whole when they complete, as
to results and register, however contexts preempt each other and whenever flags are raised. -/
theorem locked_flags_atomic
    (hr : Run (lockedFlagStep checkPolicy Admitted) (Pool.idle word) evs c) :
    (∀ e ∈ evs, e.Fresh (fun _ => hardware (w1cBehavior r)) (Op.prog checkPolicy)) ∧
      c.state = evs.foldl (PoolEvent.effect (fun _ => hardware (w1cBehavior r))
        (Op.prog checkPolicy) setFlags) word := by
  have hw : ∀ (i : κ) (op : Op r), Admitted i op →
      WritesLast (hardware (w1cBehavior r)) (op.prog checkPolicy) := by
    intro i op _
    exact Op.writesLast (fun _ _ => rfl) (fun _ => rfl) op checkPolicy
  have hfresh : ∀ e ∈ evs, e.Fresh (fun _ => hardware (w1cBehavior r)) (Op.prog checkPolicy) :=
    keepsRead_hardware.fresh_of_exclusive hr
  have hrun : Run (flagStep checkPolicy Admitted) (Pool.idle word) evs c :=
    hr.mono fun _ _ _ h => h.1
  exact ⟨hfresh, Pool.state_eq_foldl_effect hw hrun hfresh⟩

theorem locked_flags_atomic_flip : ∃ (evs : List (FlagEvent statusRegister Bool))
    (c : FlagPool statusRegister Bool), c.state.toNat = 0x103 ∧
      c.state = evs.foldl (PoolEvent.effect (fun _ => hardware (w1cBehavior statusRegister))
        (Op.prog true) setFlags) 0x001#32 := by
  have hx : ∀ c : FlagPool statusRegister Bool,
      (∀ x, c.running true = some x → x.key.OnlyReads) →
        ExclusiveCalls (fun op : Op statusRegister => op) c.running :=
    fun _ hreads => ExclusiveCalls.of_reads true hreads
  have hr : Run (lockedFlagStep true fun (_ : Bool) (_ : Op statusRegister) => True)
      (Pool.idle 0x001#32) _ _ :=
    .snoc (.snoc (.snoc (.snoc (.snoc (.snoc .nil
      ⟨.start _ _ false (.flip enable) rfl trivial, hx _ (by rintro _ ⟨⟩)⟩)
      ⟨.start _ _ true (.readField flag0) rfl trivial, hx _ (by rintro _ ⟨⟩; trivial)⟩)
      ⟨.command _ _ false (.flip enable) _ _ _ rfl, hx _ (by rintro _ ⟨⟩; trivial)⟩)
      ⟨.surroundings _ _ 0x002#32, hx _ (by rintro _ ⟨⟩; trivial)⟩)
      ⟨.command _ _ true (.readField flag0) _ _ _ rfl, hx _ (by rintro _ ⟨⟩; trivial)⟩)
      ⟨.command _ _ false (.flip enable) _ _ _ rfl, hx _ (by rintro _ ⟨⟩; trivial)⟩
  exact ⟨_, _, by decide +kernel, (locked_flags_atomic hr).2⟩

end Contexts

end Umimmio
