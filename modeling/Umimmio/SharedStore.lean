import Umimmio.PreemptedCalls
import Umimmio.RegisterStore

namespace Umimmio
open Effects
set_option autoImplicit true

variable {r : Register}

/-- The bits of the word read that an operation writes back as they depend on it. -/
def Op.DependsOn : Op r → Nat → Prop
  | .modify values, i => ¬ Umimmio.Names values i ∧ r.w1cMask.getLsbD i = false
  | .flip _, i => r.w1cMask.getLsbD i = false
  | .clear f, i => ¬ (Region.field f).Covers i ∧ r.w1cMask.getLsbD i = false
  | _, _ => False

theorem getLsbD_packWord_of_names (base base' : r.RegValueType) {values : List (ValueArg r)}
    (h : Names values i) :
    (packWord base values).getLsbD i = (packWord base' values).getLsbD i := by
  induction values generalizing base base' with
  | nil =>
    obtain ⟨v, hv, _⟩ := h
    cases hv
  | cons v values ih =>
    rw [packWord_cons, packWord_cons]
    by_cases hn : Names values i
    · exact ih _ _ hn
    · have hv : v.region.Covers i := by
        obtain ⟨u, hu, hc⟩ := h
        rcases List.mem_cons.mp hu with rfl | hu
        · exact hc
        · exact absurd ⟨u, hu, hc⟩ hn
      rw [getLsbD_packWord_of_not_names _ hn, getLsbD_packWord_of_not_names _ hn,
        getLsbD_insertValue, getLsbD_insertValue, if_pos hv, if_pos hv]

theorem Op.IsRmw.getLsbD_rmwWord_eq_iff {op : Op r} (hop : op.IsRmw)
    (current current' : r.RegValueType) (i : Nat) :
    (op.rmwWord current).getLsbD i = (op.rmwWord current').getLsbD i ↔
      (op.DependsOn i → current.getLsbD i = current'.getLsbD i) := by
  cases op with
  | modify values =>
    simp only [rmwWord, getLsbD_maskW1c, DependsOn]
    by_cases hn : Umimmio.Names values i
    · rw [getLsbD_packWord_of_names current current' hn]
      exact iff_of_true rfl fun h => absurd hn h.1
    · rw [getLsbD_packWord_of_not_names _ hn, getLsbD_packWord_of_not_names _ hn]
      cases r.w1cMask.getLsbD i <;> simp [hn]
  | flip f =>
    simp only [rmwWord, getLsbD_maskW1c, CInt.getLsbD_xorAssign, DependsOn]
    cases r.w1cMask.getLsbD i <;> simp
  | clear f =>
    have hd : ¬ RegOps.ClearsDirectly r := hop
    simp only [rmwWord, if_neg hd, RegOps.getLsbD_clearWord, DependsOn]
    by_cases hc : (Region.field f).Covers i
    · simp [hc]
    · cases r.w1cMask.getLsbD i <;> simp [hc]
  | _ => exact hop.elim

theorem Op.IsRmw.rmwWord_eq_iff {op : Op r} (hop : op.IsRmw) (current current' : r.RegValueType) :
    op.rmwWord current = op.rmwWord current' ↔
      ∀ i, op.DependsOn i → current.getLsbD i = current'.getLsbD i := by
  constructor
  · intro h i
    exact (hop.getLsbD_rmwWord_eq_iff current current' i).mp (by rw [h])
  · intro h
    apply BitVec.eq_of_getLsbD_eq
    intro i _
    exact (hop.getLsbD_rmwWord_eq_iff current current' i).mpr (h i)

theorem quiet_storeRegisters (msg : String) (s : Store) :
    (storeRegisters (.onRangeError msg : RegCmd r) s).2 = s :=
  rfl

abbrev SharedPool (κ : Type) := Pool κ (fun a : TypedOp => RegCmd a.reg) (fun _ => RegCmd.Resp)
  OpResult Store

abbrev SharedEvent (κ : Type) := PoolEvent Empty κ (fun a : TypedOp => RegCmd a.reg)
  (fun _ => RegCmd.Resp) OpResult Store

def TypedOp.prog (checkPolicy : Bool) (a : TypedOp) : RegProg a.reg OpResult :=
  a.op.prog checkPolicy

theorem TypedOp.writesLast (checkPolicy : Bool) (a : TypedOp) :
    WritesLast storeRegisters (a.prog checkPolicy) :=
  Op.writesLast quiet_storeRegisters (fun _ => rfl) a.op checkPolicy

/-- A context that is about to write finds the bits it depends on as it has read them. -/
def SharedEvent.UpToDate : SharedEvent κ → Prop
  | .command _ a seen (.regWrite _) _ s => ∀ v : a.reg.RegValueType, ⟨.regRead, v⟩ ∈ seen →
    ∀ i, a.op.DependsOn i → v.getLsbD i = (s.word a.reg).getLsbD i
  | _ => True

abbrev SharedEvent.Fresh (checkPolicy : Bool) : SharedEvent κ → Prop :=
  PoolEvent.Fresh (fun _ => storeRegisters) (TypedOp.prog checkPolicy)

theorem update_word_inj (store : Store) (w w' : r.RegValueType) :
    Function.update store r.address (w.setWidth 64) =
      Function.update store r.address (w'.setWidth 64) ↔ w = w' := by
  constructor
  · intro h
    have hw := congrArg (fun s => Store.word s r) h
    rwa [Store.word_update, Store.word_update] at hw
  · rintro rfl
    rfl

theorem SharedEvent.fresh_iff {a : TypedOp} {seen : List ((c : RegCmd a.reg) × RegCmd.Resp c)}
    {c : RegCmd a.reg} {next : RegCmd.Resp c → RegProg a.reg OpResult}
    (h : Residual (a.prog checkPolicy) seen (.call c next)) (i : κ) (s : Store) :
    SharedEvent.Fresh checkPolicy (.command i a seen c next s : SharedEvent κ) ↔
      SharedEvent.UpToDate (.command i a seen c next s : SharedEvent κ) := by
  refine (Op.fresh_iff quiet_storeRegisters (fun _ => rfl) h s).trans ?_
  cases c with
  | regRead => exact Iff.rfl
  | onRangeError msg => exact Iff.rfl
  | regWrite w =>
    refine forall₂_congr fun v hv => (update_word_inj s _ _).trans ?_
    have hop : a.op.IsRmw := (Op.stage h).isRmw hv (Prog.call_ne_ret _ next)
    exact hop.rmwWord_eq_iff v (s.word a.reg)

section Contexts

variable {κ : Type} [DecidableEq κ] {checkPolicy : Bool} {Admitted : κ → TypedOp → Prop}
  {s0 : Store} {evs : List (SharedEvent κ)} {c c' : SharedPool κ}

/-- Contexts that preempt each other between two register accesses of a call. -/
def sharedStep (checkPolicy : Bool) (Admitted : κ → TypedOp → Prop) :
    SharedPool κ → SharedEvent κ → SharedPool κ → Prop :=
  PoolStep (fun _ => storeRegisters) (TypedOp.prog checkPolicy) Empty.elim Admitted

/-- The calls, one after the other as they complete, have the same results and leave the same
store. -/
abbrev SerialSoFar (checkPolicy : Bool) (s0 : Store) (evs : List (SharedEvent κ)) (s : Store) :
    Prop :=
  Serial (fun _ => storeRegisters) (TypedOp.prog checkPolicy) s0 evs s

/-- The calls of preempting contexts are serial at all times, in the order in which they complete,
exactly when no read-modify-write writes back a bit that is no longer as it has read it. -/
theorem serializes_iff
    (hr : Run (sharedStep checkPolicy Admitted) (Pool.idle s0) evs c) :
    (∀ pre post u, evs = pre ++ post →
      Run (sharedStep checkPolicy Admitted) (Pool.idle s0) pre u →
        SerialSoFar checkPolicy s0 pre u.state) ↔
    ∀ e ∈ evs, e.UpToDate := by
  refine (serial_iff (fun _ a _ => a.writesLast checkPolicy) hr).trans
    (forall₂_congr fun e he => ?_)
  obtain ⟨_, t, _, ht, hstep⟩ := hr.exists_reached_step he
  have hstarted := Pool.Started.run ht
  cases hstep with
  | surroundings s run e => exact e.elim
  | start s run i k hi hk => exact Iff.rfl
  | finish s run i k seen a hi => exact Iff.rfl
  | command s run i a seen cmd next hi => exact SharedEvent.fresh_iff (hstarted i _ hi).2 i s

def flipEnable : TypedOp := ⟨Op.flip enable⟩

theorem serializes_iff_lost : ∃ (evs : List (SharedEvent Bool)) (c : SharedPool Bool),
    Run (sharedStep true fun _ _ => True) (Pool.idle fun _ => 0) evs c ∧
      c.state 0x08 = 0x100#64 ∧
      ¬ ∀ pre post u, evs = pre ++ post →
        Run (sharedStep true fun _ _ => True) (Pool.idle fun _ => 0) pre u →
          SerialSoFar true (fun _ => 0) pre u.state := by
  have hr : Run (sharedStep true fun _ _ => True) (Pool.idle fun _ => 0) _ _ :=
    .snoc (.snoc (.snoc (.snoc (.snoc (.snoc .nil (.start _ _ false flipEnable rfl trivial))
      (.start _ _ true flipEnable rfl trivial))
      (.command _ _ false flipEnable _ _ _ rfl)) (.command _ _ true flipEnable _ _ _ rfl))
      (.command _ _ true flipEnable _ _ _ rfl)) (.command _ _ false flipEnable _ _ _ rfl)
  refine ⟨_, _, hr, rfl, ?_⟩
  rw [serializes_iff hr]
  intro h
  have hlast := h _ (List.mem_append_right _ (List.mem_singleton_self _)) _
    (List.mem_singleton_self _) 8 rfl
  exact absurd hlast (by decide)

/-- The steps of contexts that enclose their read-modify-writes in critical sections. -/
def lockedStep (checkPolicy : Bool) (Admitted : κ → TypedOp → Prop) (c : SharedPool κ)
    (e : SharedEvent κ) (c' : SharedPool κ) : Prop :=
  sharedStep checkPolicy Admitted c e c' ∧ ExclusiveCalls TypedOp.op c'.running

/-- What a call has read is current while it is the word in the store. -/
theorem keepsRead_storeRegisters :
    KeepsRead (fun a : TypedOp => storeRegisters (r := a.reg)) TypedOp.op Empty.elim
      fun a v s => v = s.word a.reg where
  quiet _ := quiet_storeRegisters
  reads _ _ := rfl
  current _ _ := rfl
  surroundings e := e.elim
  elsewhere _ _ _ _ _ haddr hv :=
    hv.trans (congrArg (BitVec.setWidth _) (Function.update_of_ne haddr _ _).symm)
  same a _ _ _ hv := congrArg a.op.rmwWord hv

theorem fresh_of_locked (hr : Run (lockedStep checkPolicy Admitted) (Pool.idle s0) evs c) :
    ∀ e ∈ evs, e.Fresh checkPolicy :=
  keepsRead_storeRegisters.fresh_of_exclusive hr

/-- With every read-modify-write in a critical section, preempting contexts lose no update: at any
time the results and the store are those of the completed calls, one after the other. -/
theorem locked_serializes
    (hr : Run (lockedStep checkPolicy Admitted) (Pool.idle s0) evs c) :
    SerialSoFar checkPolicy s0 evs c.state :=
  Serial.of_fresh (fun _ a _ => a.writesLast checkPolicy) (hr.mono fun _ _ _ h => h.1)
    (fresh_of_locked hr)

def readEnable : TypedOp := ⟨Op.readField enable⟩

theorem locked_serializes_flip : ∃ (evs : List (SharedEvent Bool)) (c : SharedPool Bool),
    evs.filterMap (PoolEvent.commit? fun _ => storeRegisters) =
      [(readEnable, .bits 8 0), (flipEnable, .done)] ∧
      SerialSoFar true (fun _ => 0) evs c.state := by
  have hx : ∀ c : SharedPool Bool, (∀ x, c.running true = some x → x.key.op.OnlyReads) →
      ExclusiveCalls TypedOp.op c.running := fun _ => ExclusiveCalls.of_reads true
  have hr : Run (lockedStep true fun _ _ => True) (Pool.idle fun _ => 0) _ _ :=
    .snoc (.snoc (.snoc (.snoc (.snoc .nil
      ⟨.start _ _ false flipEnable rfl trivial, hx _ (by rintro _ ⟨⟩)⟩)
      ⟨.start _ _ true readEnable rfl trivial, hx _ (by rintro _ ⟨⟩; trivial)⟩)
      ⟨.command _ _ false flipEnable _ _ _ rfl, hx _ (by rintro _ ⟨⟩; trivial)⟩)
      ⟨.command _ _ true readEnable _ _ _ rfl, hx _ (by rintro _ ⟨⟩; trivial)⟩)
      ⟨.command _ _ false flipEnable _ _ _ rfl, hx _ (by rintro _ ⟨⟩; trivial)⟩
  exact ⟨_, _, rfl, locked_serializes hr⟩

end Contexts

end Umimmio
