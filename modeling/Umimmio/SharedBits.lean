import Umimmio.SharedStore
import Umimmio.Transport.AtomicDirect

namespace Umimmio
open Effects
set_option autoImplicit true

variable {r : Register} {κ : Type}

section Flags

abbrev FlagPool (r : Register) (κ : Type) := Pool κ (fun _ : Op r => RegCmd r)
  (fun _ => RegCmd.Resp) OpResult (BitVec r.bits)

abbrev FlagEvent (r : Register) (κ : Type) := PoolEvent (BitVec r.bits) κ
  (fun _ : Op r => RegCmd r) (fun _ => RegCmd.Resp) OpResult (BitVec r.bits)

/-- The word whose ones an operation writes to the W1C positions of its register. -/
def Op.clears : Op r → r.RegValueType
  | .write values => writeWord values
  | .clear f => (Region.field f).mask
  | .reset => r.resetValue
  | _ => 0

def RegCmd.ClearsOnly (op : Op r) : RegCmd r → Prop
  | .regWrite w => ∀ i, r.w1cMask.getLsbD i = true → w.getLsbD i = op.clears.getLsbD i
  | _ => True

theorem getLsbD_maskW1c_flag (current : r.RegValueType) (hm : r.w1cMask.getLsbD i = true) :
    (maskW1c current).getLsbD i = (0 : r.RegValueType).getLsbD i := by
  rw [getLsbD_maskW1c, hm, Bool.not_true, Bool.and_false]
  exact BitVec.getLsbD_zero.symm

theorem only_regWrite_clears (op : Op r) (w : r.RegValueType)
    (hw : ∀ i, r.w1cMask.getLsbD i = true → w.getLsbD i = op.clears.getLsbD i) :
    (regWrite w).Only (RegCmd.ClearsOnly op) :=
  .call hw .ret

theorem Op.only_clears (op : Op r) (checkPolicy : Bool) :
    (op.prog checkPolicy).Only (RegCmd.ClearsOnly op) := by
  have hread : (regRead r).Only (RegCmd.ClearsOnly op) := .call trivial .ret
  have hreport : ∀ msgs, (RegOps.reportAll r msgs).Only (RegCmd.ClearsOnly op) :=
    only_reportAll fun _ => trivial
  cases op with
  | write values =>
    rw [prog, RegOps.write_eq]
    exact ((hreport _).bind fun _ => only_regWrite_clears _ _ fun i _ => rfl).map _
  | read => exact hread.map _
  | readField f => exact (hread.bind fun _ => .ret _).map _
  | is v =>
    rw [prog, RegOps.is_eq, RegOps.checkValue_eq]
    exact ((hreport _).bind fun _ => hread.map _).map _
  | modify values =>
    have hwrite : ∀ current, (regWrite (maskW1c (packWord current values))).Only
        (RegCmd.ClearsOnly (.modify values)) := fun current =>
      only_regWrite_clears _ _ fun i hm => getLsbD_maskW1c_flag _ hm
    rw [prog, RegOps.modify_eq]
    exact (hread.bind fun current => (hreport _).bind fun _ => hwrite current).map _
  | flip f =>
    have hwrite : ∀ current,
        (regWrite (maskW1c (CInt.xorAssign current (Region.field f).mask))).Only
          (RegCmd.ClearsOnly (.flip f)) := fun current =>
      only_regWrite_clears _ _ fun i hm => getLsbD_maskW1c_flag _ hm
    exact (hread.bind fun current => hwrite current).map _
  | clear f =>
    have hwrite : ∀ current, (regWrite (RegOps.clearWord f current)).Only
        (RegCmd.ClearsOnly (.clear f)) := by
      intro current
      refine only_regWrite_clears _ _ fun i hm => ?_
      rw [RegOps.getLsbD_clearWord, hm, Bool.not_true, Bool.and_false, Bool.false_or]
      exact (Region.getLsbD_mask _ i).symm
    by_cases hd : RegOps.ClearsDirectly r
    · rw [prog, RegOps.clear_direct f hd]
      exact (only_regWrite_clears _ _ fun i _ => rfl).map _
    · rw [prog, RegOps.clear_mixed f hd]
      exact Prog.Only.map _ (.call trivial hwrite)
  | reset => exact (only_regWrite_clears _ _ fun i _ => rfl).map _
  | readVariant f variants => exact ((hread.bind fun _ => .ret _).bind fun _ => .ret _).map _

/-- What an event does to the flags if every operation acts at once when it writes. -/
def FlagEvent.replay (word : BitVec r.bits) : FlagEvent r κ → BitVec r.bits
  | .surroundings m => setFlags m word
  | .command _ op _ (.regWrite _) _ _ => word &&& ~~~op.clears.setWidth r.bits
  | _ => word

variable [DecidableEq κ]

/-- Contexts that preempt each other on one register with W1C flags, which the hardware sets. -/
def flagStep (checkPolicy : Bool) (Admitted : κ → Op r → Prop) :
    FlagPool r κ → FlagEvent r κ → FlagPool r κ → Prop :=
  PoolStep (fun _ => hardware (w1cBehavior r)) (Op.prog checkPolicy) setFlags Admitted

theorem FlagEvent.replay_step {c c' : FlagPool r κ} {e : FlagEvent r κ} {flags : BitVec r.bits}
    (hstarted : c.Started (Op.prog checkPolicy) Admitted)
    (hflags : ∀ i, r.w1cMask.getLsbD i = true → c.state.getLsbD i = flags.getLsbD i)
    (hs : flagStep checkPolicy Admitted c e c') (hm : r.w1cMask.getLsbD i = true) :
    c'.state.getLsbD i = (replay flags e).getLsbD i := by
  cases hs with
  | surroundings word run m =>
    rw [replay, getLsbD_setFlags, getLsbD_setFlags, ← hflags i hm]
  | start word run k op hi hk => exact hflags i hm
  | finish word run k op seen a hi => exact hflags i hm
  | command word run k op seen cmd next hi =>
    cases cmd with
    | regRead => exact hflags i hm
    | onRangeError msg => exact hflags i hm
    | regWrite w =>
      have hw : ∀ i, r.w1cMask.getLsbD i = true → w.getLsbD i = op.clears.getLsbD i := by
        cases (op.only_clears checkPolicy).residual (hstarted k _ hi).2 with
        | call hc _ => exact hc
      have hlt := r.w1cMask_lt hm
      have hword : word.getLsbD i = flags.getLsbD i := hflags i hm
      refine (getLsbD_busWrite_flag w word hm).trans ?_
      rw [replay, BitVec.getLsbD_and, BitVec.getLsbD_not, decide_eq_true hlt, Bool.true_and,
        BitVec.getLsbD_setWidth, decide_eq_true hlt, Bool.true_and, hw i hm, hword]

/-- However the calls of the contexts interleave, the W1C flags are those that the hardware has set
and no bus write of a call has had a 1 for since: `modify` and `flip` never lose one, and `clear`
only its own. -/
theorem flags_replay {word : BitVec r.bits} {evs : List (FlagEvent r κ)} {c : FlagPool r κ}
    (hr : Run (flagStep checkPolicy Admitted) (Pool.idle word) evs c)
    (hm : r.w1cMask.getLsbD i = true) :
    c.state.getLsbD i = (evs.foldl FlagEvent.replay word).getLsbD i := by
  have hinv : c.Started (Op.prog checkPolicy) Admitted ∧ ∀ i, r.w1cMask.getLsbD i = true →
      c.state.getLsbD i = (evs.foldl FlagEvent.replay word).getLsbD i := by
    refine hr.inv (I := fun (evs : List (FlagEvent r κ)) (c : FlagPool r κ) =>
      c.Started (Op.prog checkPolicy) Admitted ∧ ∀ i, r.w1cMask.getLsbD i = true →
        c.state.getLsbD i = (evs.foldl FlagEvent.replay word).getLsbD i)
      ⟨Pool.started_idle _ _ word, fun _ _ => rfl⟩ ?_
    rintro evs t e u ⟨hstarted, hflags⟩ hstep
    refine ⟨hstarted.step hstep, fun i hm => ?_⟩
    rw [List.foldl_append]
    exact FlagEvent.replay_step hstarted hflags hstep hm
  exact hinv.2 i hm

/-- A flag raised, and another one cleared, between the read and the write of a flip. -/
theorem flags_replay_preempted : ∃ (evs : List (FlagEvent statusRegister Bool))
    (c : FlagPool statusRegister Bool),
    c.state.toNat = 0x102 ∧
      c.state.getLsbD 1 = (evs.foldl FlagEvent.replay 0x001#32).getLsbD 1 := by
  have hr : Run (flagStep true fun (_ : Bool) (_ : Op statusRegister) => True)
      (Pool.idle 0x001#32) _ _ :=
    .snoc (.snoc (.snoc (.snoc (.snoc (.snoc (.snoc .nil
      (.start _ _ false (.flip enable) rfl trivial)) (.command _ _ false (.flip enable) _ _ _ rfl))
      (.surroundings _ _ 0x002#32)) (.start _ _ true (.clear flag0) rfl trivial))
      (.command _ _ true (.clear flag0) _ _ _ rfl)) (.command _ _ true (.clear flag0) _ _ _ rfl))
      (.command _ _ false (.flip enable) _ _ _ rfl)
  have hm : statusRegister.w1cMask.getLsbD 1 = true := by decide
  exact ⟨_, _, by decide +kernel, flags_replay hr hm⟩

end Flags

section Aliases

/-- A call of `write` through one of the aliases of a register. -/
structure AliasCall (r : Register) where
  kind : Alias
  values : List (ValueArg r)

def AliasCall.prog (offset : Alias → Addr) (checkPolicy : Bool) (a : AliasCall r) :
    MmioProg (Unit × Unit) :=
  AtomicDirect.write (offset a.kind) checkPolicy a.values

/-- A register with an alias of each kind; nothing else is mapped. -/
def aliasBus (r : Register) (offset : Alias → Addr) :
    Handler MmioCmd MmioCmd.Resp (BitVec r.bits)
  | .volatileWrite addr _ value, word =>
    ((),
      if addr = r.address + offset .set then Alias.set.react word (value.setWidth r.bits)
      else if addr = r.address + offset .clr then Alias.clr.react word (value.setWidth r.bits)
      else if addr = r.address + offset .xor then Alias.xor.react word (value.setWidth r.bits)
      else word)
  | .onRangeError _, word => ((), word)
  | .missingRegRead w, word => (0#w, word)

theorem aliasBus_write {offset : Alias → Addr} (ho : Function.Injective offset) (a : Alias)
    (value : BitVec w) (word : BitVec r.bits) :
    (aliasBus r offset (.volatileWrite (r.address + offset a) w value) word).2 =
      a.react word (value.setWidth r.bits) := by
  have hne : ∀ b, b ≠ a → r.address + offset a ≠ r.address + offset b :=
    fun b hb h => hb (ho (Nat.add_left_cancel h)).symm
  cases a with
  | set => exact if_pos rfl
  | clr => exact (if_neg (hne .set nofun)).trans (if_pos rfl)
  | xor => exact (if_neg (hne .set nofun)).trans ((if_neg (hne .clr nofun)).trans (if_pos rfl))

/-- The bus writes of a call are of its word, to its alias. -/
def MmioCmd.Carries (offset : Alias → Addr) (a : AliasCall r) : MmioCmd → Prop
  | .volatileWrite addr _ value => addr = r.address + offset a.kind ∧
      value.setWidth r.bits = (writeWord a.values).setWidth r.bits
  | _ => True

theorem AliasCall.only_carries (offset : Alias → Addr) (checkPolicy : Bool) (a : AliasCall r) :
    (a.prog offset checkPolicy).Only (MmioCmd.Carries offset a) := by
  have hregs : (RegOps.write checkPolicy a.values).Only fun c =>
      ∀ w, c = .regWrite w → w = writeWord a.values := by
    rw [RegOps.write_eq]
    refine (only_reportAll (fun msg w h => by cases h) _).bind fun _ => ?_
    exact .call (fun w h => by cases h; rfl) .ret
  refine hregs.translate (fun c u hc => ?_) ()
  cases c with
  | regRead => exact .call trivial fun _ => .ret _
  | regWrite w =>
    rw [hc w rfl]
    exact .call ⟨rfl, rfl⟩ fun _ => .ret _
  | onRangeError msg => exact .call trivial fun _ => .ret _

abbrev AliasPool (r : Register) (κ : Type) := Pool κ (fun _ : AliasCall r => MmioCmd)
  (fun _ => MmioCmd.Resp) (Unit × Unit) (BitVec r.bits)

abbrev AliasEvent (r : Register) (κ : Type) := PoolEvent Empty κ
  (fun _ : AliasCall r => MmioCmd) (fun _ => MmioCmd.Resp) (Unit × Unit) (BitVec r.bits)

def Alias.reactBit : Alias → (stored written : Bool) → Bool
  | .set, stored, written => stored || written
  | .clr, stored, written => stored && !written
  | .xor, stored, written => stored ^^ written

theorem Alias.getLsbD_react (a : Alias) (word written : BitVec w) (hi : i < w) :
    (a.react word written).getLsbD i = a.reactBit (word.getLsbD i) (written.getLsbD i) := by
  cases a with
  | set => exact BitVec.getLsbD_or
  | clr =>
    rw [react, BitVec.getLsbD_and, BitVec.getLsbD_not, decide_eq_true hi, Bool.true_and]
    rfl
  | xor => exact BitVec.getLsbD_xor

theorem Alias.reactBit_false (a : Alias) (stored : Bool) : a.reactBit stored false = stored := by
  cases a <;> cases stored <;> rfl

/-- What an event does to a bit if only the writes that name it count. -/
def AliasEvent.replayBit (i : Nat) (stored : Bool) : AliasEvent r κ → Bool
  | .command _ a _ (.volatileWrite _ _ _) _ _ =>
    if Names a.values i then a.kind.reactBit stored ((writeWord a.values).getLsbD i) else stored
  | _ => stored

variable [DecidableEq κ]

/-- Contexts that preempt each other in writes through the aliases of one register. -/
def aliasStep (offset : Alias → Addr) (checkPolicy : Bool) (Admitted : κ → AliasCall r → Prop) :
    AliasPool r κ → AliasEvent r κ → AliasPool r κ → Prop :=
  PoolStep (fun _ => aliasBus r offset) (AliasCall.prog offset checkPolicy) Empty.elim Admitted

theorem AliasEvent.replayBit_step {offset : Alias → Addr} (ho : Function.Injective offset)
    {c c' : AliasPool r κ} {e : AliasEvent r κ}
    (hstarted : c.Started (AliasCall.prog offset checkPolicy) Admitted)
    (hs : aliasStep offset checkPolicy Admitted c e c') (hi : i < r.bits)
    (hreset : r.resetValue.getLsbD i = false) :
    c'.state.getLsbD i = replayBit i (c.state.getLsbD i) e := by
  cases hs with
  | surroundings word run e => exact e.elim
  | start word run k a hk ha => rfl
  | finish word run k a seen x hk => rfl
  | command word run k a seen cmd next hk =>
    have hcmd : MmioCmd.Carries offset a cmd := by
      cases (a.only_carries offset checkPolicy).residual (hstarted k _ hk).2 with
      | call hc _ => exact hc
    cases cmd with
    | onRangeError msg => rfl
    | missingRegRead w => rfl
    | volatileWrite addr w value =>
      obtain ⟨rfl, hvalue⟩ := hcmd
      change ((aliasBus r offset (.volatileWrite _ w value) word).2).getLsbD i = _
      rw [aliasBus_write ho, hvalue, Alias.getLsbD_react _ _ _ hi, BitVec.getLsbD_setWidth,
        decide_eq_true hi, Bool.true_and, replayBit]
      by_cases hn : Names a.values i
      · rw [if_pos hn]
      · rw [if_neg hn, getLsbD_writeWord_of_not_names hi hn, hreset, Alias.reactBit_false]

/-- Writes through the SET, CLR and XOR aliases need no lock: whatever preempts them, a bit with
reset value 0 holds the outcome of just the writes that name it, in the order of the bus writes. -/
theorem alias_writes_replay {offset : Alias → Addr} (ho : Function.Injective offset)
    {word : BitVec r.bits} {evs : List (AliasEvent r κ)} {c : AliasPool r κ}
    (hr : Run (aliasStep offset checkPolicy Admitted) (Pool.idle word) evs c) (hi : i < r.bits)
    (hreset : r.resetValue.getLsbD i = false) :
    c.state.getLsbD i = evs.foldl (AliasEvent.replayBit i) (word.getLsbD i) := by
  have hinv : c.Started (AliasCall.prog offset checkPolicy) Admitted ∧
      c.state.getLsbD i = evs.foldl (AliasEvent.replayBit i) (word.getLsbD i) := by
    refine hr.inv (I := fun (evs : List (AliasEvent r κ)) (c : AliasPool r κ) =>
      c.Started (AliasCall.prog offset checkPolicy) Admitted ∧
        c.state.getLsbD i = evs.foldl (AliasEvent.replayBit i) (word.getLsbD i))
      ⟨Pool.started_idle _ _ word, rfl⟩ ?_
    rintro evs t e u ⟨hstarted, hbit⟩ hstep
    refine ⟨hstarted.step hstep, ?_⟩
    rw [List.foldl_append, ← hbit]
    exact AliasEvent.replayBit_step ho hstarted hstep hi hreset
  exact hinv.2

def gpioAliases : Alias → Addr
  | .xor => 0x1000
  | .set => 0x2000
  | .clr => 0x3000

/-- Pin 5 set by one context and toggled by another. -/
theorem alias_writes_replay_pin5 : ∃ (evs : List (AliasEvent Alias.gpioOut Bool))
    (c : AliasPool Alias.gpioOut Bool),
    c.state.toNat = 0 ∧
      c.state.getLsbD 5 = evs.foldl (AliasEvent.replayBit 5) ((0#32).getLsbD 5) := by
  have ho : Function.Injective gpioAliases := by
    intro a b h
    cases a <;> cases b <;> first | rfl | exact absurd h (by decide)
  have hr : Run (aliasStep gpioAliases true fun (_ : Bool) (_ : AliasCall Alias.gpioOut) => True)
      (Pool.idle 0#32) _ _ :=
    .snoc (.snoc (.snoc (.snoc .nil (.start _ _ false ⟨.set, Alias.setPin5⟩ rfl trivial))
      (.start _ _ true ⟨.xor, Alias.setPin5⟩ rfl trivial))
      (.command _ _ false ⟨.set, Alias.setPin5⟩ _ _ _ rfl))
      (.command _ _ true ⟨.xor, Alias.setPin5⟩ _ _ _ rfl)
  exact ⟨_, _, by decide +kernel, alias_writes_replay ho hr (by decide) (by decide)⟩

end Aliases

end Umimmio
