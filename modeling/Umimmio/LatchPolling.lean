import Umimmio.Lib.Run
import Umimmio.ReportedCalls

namespace Umimmio
open Effects Bytes
set_option autoImplicit true

variable {r : Register} {δ : Type}

namespace LatchError

def onRangeError (_latched : Bool) (_msg : String) : Bool := true

def onTransportError (_latched : Bool) (_msg : String) : Bool := true

/-- Read and clear the latch. -/
def take (latched : Bool) : Bool × Bool := (latched, false)

def handle : DriverCmd → Bool → Bool
  | .onRangeError msg, latched => onRangeError latched msg
  | .onTransportError msg, latched => onTransportError latched msg
  | _, latched => latched

end LatchError

/-- The bus under the latching error policy. -/
def Target.latching (D : Target δ) (driver : DriverType) (area : Nat → Byte) :
    DriverHandler (Bus δ × Bool) :=
  fun c s => ((D.bus driver area c s.1).1, (D.bus driver area c s.1).2, LatchError.handle c s.2)

/-- A device with its transport and driver. -/
structure Station where
  T : ByteTransport
  checkPolicy : Bool
  δ : Type
  D : Target δ
  area : Nat → Byte

structure Station.State (S : Station) where
  transport : S.T.State
  bus : Bus S.δ
  latched : Bool

namespace Station

variable {S : Station}

def State.Initial (s : S.State) : Prop :=
  s.bus.calls = [] ∧ s.bus.errors = [] ∧ s.latched = false

def perform (op : Op r) (s : S.State) : OpResult × S.State :=
  let x := (S.T.adapter.run S.checkPolicy op s.transport).run (S.D.latching S.T.driver S.area)
    (s.bus, s.latched)
  (x.1.1, ⟨x.1.2, x.2.1, x.2.2⟩)

theorem perform_eq (op : Op r) (s : S.State) :
    let x := S.T.perform S.D S.area S.checkPolicy op s.transport s.bus
    (perform op s).1 = x.1 ∧ (perform op s).2.transport = x.2.1 ∧ (perform op s).2.bus = x.2.2 := by
  obtain ⟨hvalue, hbus⟩ := Prog.run_sim (h := S.D.latching S.T.driver S.area)
    (k := S.D.bus S.T.driver S.area) (Q := fun s b => s.1 = b) (s := (s.bus, s.latched))
    (by
      rintro c s b rfl
      exact ⟨rfl, rfl⟩) (S.T.adapter.run S.checkPolicy op s.transport) rfl
  exact ⟨congrArg Prod.fst hvalue, congrArg Prod.snd hvalue, hbus⟩

theorem perform_reported (op : Op r) {s : S.State} (h : s.bus.Reported) :
    (perform op s).2.bus.Reported := by
  rw [(perform_eq op s).2.2, S.T.perform_eq]
  apply Prog.run_inv (I := fun x : S.T.State × Bus S.δ => x.2.Reported) ?_ _ h
  intro c s h
  exact S.T.registers_reported S.D S.area c s h

theorem perform_calls (op : Op r) (s : S.State) :
    s.bus.calls <+: (perform op s).2.bus.calls := by
  apply Prog.run_inv (h := S.D.latching S.T.driver S.area)
    (I := fun x => s.bus.calls <+: x.1.calls) ?_ _ (List.prefix_refl _)
  intro c x h
  cases c with
  | i2cWrite site deviceAddr tx => exact h.trans (List.prefix_append _ _)
  | i2cWriteRead deviceAddr tx rx => exact h.trans (List.prefix_append _ _)
  | spiTransfer site tx rx => exact h.trans (List.prefix_append _ _)
  | _ => exact h

theorem perform_latched {op : Op r} (ho : op.InRange) (s : S.State) :
    (perform op s).2.latched = true ↔
      s.latched = true ∨ s.bus.errors.length < (perform op s).2.bus.errors.length := by
  have hinv : ∀ c (x : Bus S.δ × Bool), c.InRange →
      s.bus.errors.length ≤ x.1.errors.length ∧
        (x.2 = true ↔ s.latched = true ∨ s.bus.errors.length < x.1.errors.length) →
      s.bus.errors.length ≤ (S.D.latching S.T.driver S.area c x).2.1.errors.length ∧
        ((S.D.latching S.T.driver S.area c x).2.2 = true ↔ s.latched = true ∨
          s.bus.errors.length < (S.D.latching S.T.driver S.area c x).2.1.errors.length) := by
    intro c x hc h
    cases c with
    | onTransportError msg =>
      have hlen : (S.D.latching S.T.driver S.area (.onTransportError msg) x).2.1.errors.length =
          x.1.errors.length + 1 := List.length_append
      rw [hlen]
      exact ⟨Nat.le_succ_of_le h.1, iff_of_true rfl (.inr (Nat.lt_succ_of_le h.1))⟩
    | onRangeError msg => exact hc.elim
    | _ => exact h
  exact (Prog.Only.run_inv ((ho.only S.checkPolicy).translate
    (fun c t hc => S.T.only_regOps hc t) s.transport) hinv
      ⟨Nat.le_refl _, (or_iff_left (Nat.lt_irrefl _)).symm⟩).2

/-- Whether each driver call of an operation succeeded, in order. -/
def callsMade (op : Op r) (s : S.State) : List Bool :=
  ((perform op s).2.bus.calls.drop s.bus.calls.length).map Call.ok

/-- An operation latches an error exactly when one of its driver calls fails. -/
theorem perform_latched_iff {op : Op r} (ho : op.InRange) {s : S.State} (h : s.bus.Reported) :
    (perform op s).2.latched = true ↔ s.latched = true ∨ false ∈ callsMade op s := by
  have hafter := perform_reported op h
  obtain ⟨calls, hcalls⟩ := perform_calls op s
  rw [perform_latched ho, callsMade, h, hafter, ← hcalls, List.countP_append, List.drop_left,
    Nat.lt_add_right_iff_pos, List.countP_pos_iff]
  simp only [Bool.not_eq_true', List.mem_map]

end Station

/-- What is to be seen of a device that is polled: the outcomes of an operation's driver calls, the
results of `take`, and changes on its bus that are none of its own. -/
inductive LatchEvent
  | access (calls : List Bool)
  | take (result : Bool)
  | surroundings

/-- Typed operations with values in range, and polls, on a bus that others may use in between. -/
inductive LatchStep (S : Station) : S.State → LatchEvent → S.State → Prop
  | access (s : S.State) {r : Register} (op : Op r) (he : S.T.Exposes op) (ho : op.InRange) :
      LatchStep S s (.access (Station.callsMade op s)) (Station.perform op s).2
  | take (s : S.State) :
      LatchStep S s (.take (LatchError.take s.latched).1)
        { s with latched := (LatchError.take s.latched).2 }
  | surroundings (s : S.State) (device : S.δ) (script : List Outcome) :
      LatchStep S s .surroundings { s with bus := { s.bus with device, script } }

/-- A driver call has failed, and no poll has come after it. -/
inductive FailedSinceTake : List LatchEvent → Prop
  | access (h : false ∈ calls) : FailedSinceTake (evs ++ [.access calls])
  | later (h : FailedSinceTake evs) (he : ∀ b, e ≠ .take b) : FailedSinceTake (evs ++ [e])

theorem not_failedSinceTake_nil : ¬ FailedSinceTake [] := by
  generalize hl : ([] : List LatchEvent) = l
  intro h
  cases h with
  | access h => exact List.append_ne_nil_of_right_ne_nil _ (List.cons_ne_nil _ _) hl.symm
  | later h he => exact List.append_ne_nil_of_right_ne_nil _ (List.cons_ne_nil _ _) hl.symm

theorem failedSinceTake_snoc_iff (evs : List LatchEvent) (e : LatchEvent) :
    FailedSinceTake (evs ++ [e]) ↔
      (∃ calls, e = .access calls ∧ false ∈ calls) ∨ FailedSinceTake evs ∧ ∀ b, e ≠ .take b := by
  constructor
  · generalize hl : evs ++ [e] = l
    intro h
    cases h with
    | access h =>
      obtain ⟨_, he⟩ := List.append_inj' hl rfl
      exact .inl ⟨_, List.singleton_inj.mp he, h⟩
    | later h hne =>
      obtain ⟨rfl, he⟩ := List.append_inj' hl rfl
      obtain rfl := List.singleton_inj.mp he
      exact .inr ⟨h, hne⟩
  · rintro (⟨calls, rfl, h⟩ | ⟨h, he⟩)
    · exact .access h
    · exact .later h he

namespace LatchStep

variable {S : Station} {s t : S.State} {e : LatchEvent}

theorem reported (h : LatchStep S s e t) (hs : s.bus.Reported) : t.bus.Reported := by
  cases h with
  | access op he ho => exact Station.perform_reported op hs
  | take => exact hs
  | surroundings => exact hs

theorem latched_iff (h : LatchStep S s e t) (hs : s.bus.Reported) :
    t.latched = true ↔
      (∃ calls, e = .access calls ∧ false ∈ calls) ∨ s.latched = true ∧ ∀ b, e ≠ .take b := by
  cases h with
  | access op he ho => simp [Station.perform_latched_iff ho hs, or_comm]
  | take => simp [LatchError.take]
  | surroundings => simp

end LatchStep

/-- Every poll reports exactly the failures since the poll before it. -/
def PollsRight (evs : List LatchEvent) : Prop :=
  ∀ before b after, evs = before ++ .take b :: after → (b = true ↔ FailedSinceTake before)

theorem PollsRight.snoc {evs : List LatchEvent} {e : LatchEvent} (h : PollsRight evs)
    (he : ∀ b, e = .take b → (b = true ↔ FailedSinceTake evs)) : PollsRight (evs ++ [e]) := by
  intro before b after heq
  rcases after.eq_nil_or_concat with rfl | ⟨after, e', rfl⟩
  · obtain ⟨rfl, hb⟩ := List.append_inj' heq rfl
    exact he b (List.singleton_inj.mp hb)
  · rw [List.concat_eq_append, ← List.cons_append, ← List.append_assoc] at heq
    exact h before b after (List.append_inj' heq rfl).1

/-- Over every run of a device, the latch tells whether a call has failed since the last poll. -/
theorem LatchStep.run_latched {S : Station} {s t : S.State} (hs : s.Initial)
    (h : Run (LatchStep S) s evs t) :
    t.bus.Reported ∧ (t.latched = true ↔ FailedSinceTake evs) ∧ PollsRight evs := by
  obtain ⟨hcalls, herrors, hlatched⟩ := hs
  refine h.inv (I := fun evs t => t.bus.Reported ∧ (t.latched = true ↔ FailedSinceTake evs) ∧
    PollsRight evs) ?_ ?_
  · refine ⟨?_, ?_, ?_⟩
    · rw [Bus.Reported, hcalls, herrors]
      rfl
    · rw [hlatched]
      exact iff_of_false Bool.false_ne_true not_failedSinceTake_nil
    · intro before b after heq
      exact absurd heq.symm (List.append_ne_nil_of_right_ne_nil _ (List.cons_ne_nil _ _))
  · rintro evs t e u ⟨hreported, hfailed, hpolls⟩ hstep
    refine ⟨hstep.reported hreported, ?_, hpolls.snoc ?_⟩
    · rw [hstep.latched_iff hreported, hfailed, failedSinceTake_snoc_iff]
    · rintro b rfl
      cases hstep
      exact hfailed

section System
variable {ι Tag : Type} [DecidableEq ι] [DecidableEq Tag] (stations : ι → Station) (tag : ι → Tag)

/-- Devices whose error policies keep one latch for each tag. -/
structure LatchSystem (Tag : Type) where
  transport : (i : ι) → (stations i).T.State
  bus : (i : ι) → Bus (stations i).δ
  latched : Tag → Bool

namespace LatchSystem

variable {stations} (s : LatchSystem stations Tag)

def device (i : ι) : (stations i).State := ⟨s.transport i, s.bus i, s.latched (tag i)⟩

def update (i : ι) (u : (stations i).State) : LatchSystem stations Tag where
  transport := Function.update s.transport i u.transport
  bus := Function.update s.bus i u.bus
  latched := Function.update s.latched (tag i) u.latched

theorem device_update_self (i : ι) (u : (stations i).State) :
    (s.update tag i u).device tag i = u := by
  simp only [device, update, Function.update_self]

theorem device_update_of_ne {tag : ι → Tag} (ht : Function.Injective tag) {i j : ι} (hij : j ≠ i)
    (u : (stations i).State) : (s.update tag i u).device tag j = s.device tag j := by
  simp only [device, update, Function.update_of_ne hij, Function.update_of_ne (ht.ne hij)]

end LatchSystem

/-- One device takes a step of its own on the latch of its tag. -/
inductive LatchSystemStep :
    LatchSystem stations Tag → ι × LatchEvent → LatchSystem stations Tag → Prop
  | device (s : LatchSystem stations Tag) (i : ι) {e : LatchEvent} {u : (stations i).State}
      (h : LatchStep (stations i) (s.device tag i) e u) :
      LatchSystemStep s (i, e) (s.update tag i u)

def ofDevice (i : ι) (e : ι × LatchEvent) : Option LatchEvent := if e.1 = i then some e.2 else none

/-- Every device of an interleaved run takes the steps of a run by itself. -/
theorem LatchSystemStep.device_run {s t : LatchSystem stations Tag}
    (ht : Function.Injective tag) (h : Run (LatchSystemStep stations tag) s evs t) (i : ι) :
    Run (LatchStep (stations i)) (s.device tag i) (evs.filterMap (ofDevice i))
      (t.device tag i) := by
  have hstep : ∀ (s : LatchSystem stations Tag) v e (u : LatchSystem stations Tag),
      s.device tag i = v → LatchSystemStep stations tag s e u →
        (ofDevice i e = none ∧ u.device tag i = v) ∨
          ∃ e' w, ofDevice i e = some e' ∧ LatchStep (stations i) v e' w ∧ u.device tag i = w := by
    intro s v e u hv h
    subst hv
    cases h with
    | device j h =>
      by_cases hj : j = i
      · subst hj
        exact .inr ⟨_, _, if_pos rfl, h, s.device_update_self tag j _⟩
      · exact .inl ⟨if_neg hj, s.device_update_of_ne ht (Ne.symm hj) _⟩
  obtain ⟨v, hv, heq⟩ := h.project (R := fun s v => s.device tag i = v) (ofDevice i) rfl hstep
  rw [heq]
  exact hv

/-- Each poll reports exactly the failed calls of its own device since the poll before, whatever
else runs in between. -/
theorem latch_polls {s t : LatchSystem stations Tag} (hs : ∀ i, (s.device tag i).Initial)
    (ht : Function.Injective tag) (h : Run (LatchSystemStep stations tag) s evs t) (i : ι) :
    Run (LatchStep (stations i)) (s.device tag i) (evs.filterMap (ofDevice i))
        (t.device tag i) ∧
      PollsRight (evs.filterMap (ofDevice i)) := by
  have hrun := LatchSystemStep.device_run stations tag ht h i
  exact ⟨hrun, (LatchStep.run_latched (hs i) hrun).2.2⟩

end System

def pollStatus : Register :=
  .declare ({ allowedTransports := [.i2c] } : Device).toParent 0x02 .bits8

def polled : Station where
  T := .i2c { native := .little, deviceAddr := 0x20 }
  checkPolicy := true
  δ := Unit
  D := { effect := fun _ u => u, reply := fun _ _ _ => 0 }
  area := fun _ => 0

/-- Two devices with latches of their own; the first call of each fails. -/
def pollStart : LatchSystem (fun _ : Bool => polled) Bool where
  transport := fun _ => ()
  bus := fun _ => { device := (), script := [{ ok := false }] }
  latched := fun _ => false

theorem latch_polls_two :
    PollsRight [.access [false], .take true] ∧ PollsRight [.take false] := by
  have hinit : ∀ i, (pollStart.device id i).Initial := fun _ => ⟨rfl, rfl, rfl⟩
  have hrun : ∃ t, Run (LatchSystemStep (fun _ : Bool => polled) id) pollStart
      [(true, .access [false]), (false, .take false), (true, .take true)] t :=
    ⟨_, .snoc (.snoc (.snoc .nil (.device _ true
      (.access _ (.read : Op pollStatus) trivial trivial))) (.device _ false (.take _)))
      (.device _ true (.take _))⟩
  obtain ⟨t, hrun⟩ := hrun
  exact ⟨(latch_polls (fun _ => polled) id hinit Function.injective_id hrun true).2,
    (latch_polls (fun _ => polled) id hinit Function.injective_id hrun false).2⟩

end Umimmio
