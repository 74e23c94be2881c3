import Umimmio.TransportTrace
import Umimmio.TypedBus

namespace Umimmio
open Effects Bytes
set_option autoImplicit true

variable {r : Register} {σ : Type}

def AtomicCmd.IsBarrier : AtomicCmd r → Prop
  | .barrier _ => True
  | _ => False

namespace AtomicProg

theorem only_fence (order : MemoryOrder) :
    (atomicSignalFence order : AtomicProg r Unit).Only AtomicCmd.IsBarrier :=
  .call trivial fun x => .ret x

theorem only_hwDmb (onArm : Bool) :
    (hwDmb onArm : AtomicProg r Unit).Only AtomicCmd.IsBarrier := by
  cases onArm with
  | true => exact .call trivial fun x => .ret x
  | false => exact .ret ()

theorem only_hwDsb (onArm : Bool) :
    (hwDsb onArm : AtomicProg r Unit).Only AtomicCmd.IsBarrier := by
  cases onArm with
  | true => exact .call trivial fun x => .ret x
  | false => exact .ret ()

theorem only_preReadBarrier (onArm : Bool) (order : MemoryOrder) :
    (preReadBarrier onArm order : AtomicProg r Unit).Only AtomicCmd.IsBarrier := by
  rw [preReadBarrier]
  split_ifs
  · exact (only_fence _).bind fun _ => only_hwDsb _
  · exact only_fence _
  · exact only_fence _

theorem only_postReadBarrier (onArm : Bool) (order : MemoryOrder) :
    (postReadBarrier onArm order : AtomicProg r Unit).Only AtomicCmd.IsBarrier := by
  rw [postReadBarrier]
  split_ifs
  · exact (only_hwDmb _).bind fun _ => only_fence _
  · exact (only_hwDmb _).bind fun _ => only_fence _
  · exact only_fence _

theorem only_preWriteBarrier (onArm : Bool) (order : MemoryOrder) :
    (preWriteBarrier onArm order : AtomicProg r Unit).Only AtomicCmd.IsBarrier := by
  rw [preWriteBarrier]
  split_ifs
  · exact (only_fence _).bind fun _ => only_hwDsb _
  · exact (only_fence _).bind fun _ => only_hwDmb _
  · exact only_fence _

theorem only_postWriteBarrier (onArm : Bool) (order : MemoryOrder) :
    (postWriteBarrier onArm order : AtomicProg r Unit).Only AtomicCmd.IsBarrier := by
  rw [postWriteBarrier]
  split_ifs
  · exact (only_hwDsb _).bind fun _ => only_fence _
  · exact (only_hwDsb _).bind fun _ => only_fence _
  · exact only_fence _

end AtomicProg

namespace AtomicTransport

variable (A : AtomicTransport σ)

def seen : ((c : AtomicCmd r) × Option c.Resp) → TransportEvent σ
  | ⟨.barrier b, _⟩ => .barrier b
  | ⟨.innerRead, x⟩ => .regRead r x
  | ⟨.innerWrite value, _⟩ => .regWrite r value
  | ⟨.onRangeError msg, _⟩ => .rangeError errorPolicy msg

def events (a : TypedOp) (s : σ) : List (TransportEvent σ) :=
  ((A.run a.op).events A.handler s).map seen

def outcome (a : TypedOp) (s : σ) : Option (OpResult × σ) :=
  ((A.run a.op).outcome A.handler s).map fun x => (x.1.1, x.2)

def trace : List TypedOp → σ → List (TransportEvent σ) :=
  TransportEvent.traceAll A.events A.outcome

/-- A command of the wrapper as the `RegOps` above it sees it. -/
def view : ((c : AtomicCmd r) × Option c.Resp) → Option ((c : RegCmd r) × Option c.Resp)
  | ⟨.barrier _, _⟩ => none
  | ⟨.innerRead, x⟩ => some ⟨.regRead, x⟩
  | ⟨.innerWrite value, x⟩ => some ⟨.regWrite value, x⟩
  | ⟨.onRangeError msg, x⟩ => some ⟨.onRangeError msg, x⟩

theorem erase_seen (evs : List ((c : AtomicCmd r) × Option c.Resp)) :
    TransportEvent.erase (evs.map (seen : _ → TransportEvent σ)) =
      (evs.filterMap view).map (RegTransport.seen errorPolicy) := by
  induction evs with
  | nil => rfl
  | cons e evs ih =>
    obtain ⟨c, x⟩ := e
    cases c with
    | barrier b => exact ih
    | innerRead => exact congrArg (List.cons _) ih
    | innerWrite value => exact congrArg (List.cons _) ih
    | onRangeError msg => exact congrArg (List.cons _) ih

/-- The inner transport under the policies of the wrapper. -/
def policed : RegTransport σ := A.inner.withPolicies checkPolicy errorPolicy

variable {A}

theorem view_barriers {p : AtomicProg r Unit} (hp : p.Only AtomicCmd.IsBarrier) (s : σ) :
    (p.events A.handler s).filterMap view = [] ∧ p.outcome A.handler s = some ((), s) := by
  induction hp generalizing s with
  | ret a => exact ⟨rfl, rfl⟩
  | @call c next hc _ ih =>
    cases c with
    | barrier b => exact ih () s
    | innerRead => exact hc.elim
    | innerWrite value => exact hc.elim
    | onRangeError msg => exact hc.elim

/-- Barriers before and after a program are out of view. -/
theorem view_bracket {pre post : AtomicProg r Unit} (hpre : pre.Only AtomicCmd.IsBarrier)
    (hpost : post.Only AtomicCmd.IsBarrier) (p : AtomicProg r α) (s : σ) :
    ((pre >>= fun _ => p >>= fun x => post >>= fun _ => pure x).events A.handler s).filterMap view =
        (p.events A.handler s).filterMap view ∧
      (pre >>= fun _ => p >>= fun x => post >>= fun _ => pure x).outcome A.handler s =
        p.outcome A.handler s := by
  obtain ⟨hpreEvents, hpreOutcome⟩ := view_barriers (A := A) hpre s
  rw [Prog.events_bind, Prog.outcome_bind, hpreOutcome, List.filterMap_append, hpreEvents,
    List.nil_append, Option.elim_some, Option.bind_some, Prog.events_bind, Prog.outcome_bind,
    List.filterMap_append]
  cases p.outcome A.handler s with
  | none => exact ⟨List.append_nil _, rfl⟩
  | some x =>
    obtain ⟨hpostEvents, hpostOutcome⟩ := view_barriers (A := A) hpost x.2
    rw [Option.elim_some, Option.bind_some, Prog.events_bind, Prog.outcome_bind, hpostOutcome,
      List.filterMap_append, hpostEvents]
    exact ⟨List.append_nil _, rfl⟩

variable (A)

theorem view_regRead (r : Register) (s : σ) :
    ((A.regRead r).events A.handler s).filterMap view =
        [⟨.regRead, (A.policed.handler .regRead s).map Prod.fst⟩] ∧
      (A.regRead r).outcome A.handler s = A.policed.handler .regRead s := by
  obtain ⟨hevents, houtcome⟩ := view_bracket (A := A)
    (AtomicProg.only_preReadBarrier A.onArm A.order)
    (AtomicProg.only_postReadBarrier A.onArm A.order) (AtomicProg.innerRead r) s
  constructor
  · refine hevents.trans ?_
    exact congrArg (List.filterMap view) (Prog.events_command A.handler .innerRead s)
  · exact houtcome.trans (Prog.outcome_command A.handler .innerRead s)

theorem view_regWrite (value : r.RegValueType) (s : σ) :
    ((A.regWrite value).events A.handler s).filterMap view =
        [⟨.regWrite value, (A.policed.handler (.regWrite value) s).map Prod.fst⟩] ∧
      (A.regWrite value).outcome A.handler s = A.policed.handler (.regWrite value) s := by
  have hwrite : A.regWrite value = AtomicProg.preWriteBarrier A.onArm A.order >>= fun _ =>
      AtomicProg.innerWrite value >>= fun x =>
        AtomicProg.postWriteBarrier A.onArm A.order >>= fun _ => pure x := by
    simp only [bind_pure_unit]
    rfl
  obtain ⟨hevents, houtcome⟩ := view_bracket (A := A)
    (AtomicProg.only_preWriteBarrier A.onArm A.order)
    (AtomicProg.only_postWriteBarrier A.onArm A.order) (AtomicProg.innerWrite value) s
  rw [hwrite]
  constructor
  · refine hevents.trans ?_
    exact congrArg (List.filterMap view) (Prog.events_command A.handler (.innerWrite value) s)
  · exact houtcome.trans (Prog.outcome_command A.handler (.innerWrite value) s)

theorem view_pair {p : AtomicProg r α} {evs : List ((c : RegCmd r) × Option c.Resp)}
    {o : Option (α × σ)} {s : σ}
    (h : (p.events A.handler s).filterMap view = evs ∧ p.outcome A.handler s = o) (u : Unit) :
    ((p >>= fun x => .ret (x, u)).events A.handler s).filterMap view = evs ∧
      (p >>= fun x => .ret (x, u)).outcome A.handler s = o.map fun x => ((x.1, u), x.2) := by
  change (((fun x => (x, u)) <$> p).events A.handler s).filterMap view = evs ∧
    ((fun x => (x, u)) <$> p).outcome A.handler s = _
  rw [Prog.events_map, Prog.outcome_map, h.1, h.2]
  exact ⟨rfl, rfl⟩

theorem view_regOps (c : RegCmd r) (u : Unit) (s : σ) :
    ((A.regOps c u).events A.handler s).filterMap view =
        [⟨c, (A.policed.handler c s).map Prod.fst⟩] ∧
      (A.regOps c u).outcome A.handler s =
        (A.policed.handler c s).map fun x => ((x.1, u), x.2) := by
  cases c with
  | regRead => exact A.view_pair (A.view_regRead r s) u
  | regWrite value => exact A.view_pair (A.view_regWrite value s) u
  | onRangeError msg => exact ⟨rfl, rfl⟩

theorem trace_erase (ops : List TypedOp) (s : σ) :
    TransportEvent.erase (A.trace ops s) = A.policed.trace ops s := by
  induction ops generalizing s with
  | nil => rfl
  | cons a ops ih =>
    obtain ⟨hevents, houtcome⟩ := Prog.translate_view (h := A.policed.handler) (k := A.handler)
      (T := A.regOps) view A.view_regOps (a.op.prog checkPolicy) () s
    have herase : TransportEvent.erase (A.events a s) = A.policed.events a s := by
      rw [events, erase_seen, run, hevents]
      rfl
    have hresult : A.outcome a s = A.policed.outcome a s := by
      rw [outcome, run, houtcome, Option.map_map]
      exact congrFun Option.map_id_fun _
    have happend : ∀ evs evs' : List (TransportEvent σ), TransportEvent.erase (evs ++ evs') =
        TransportEvent.erase evs ++ TransportEvent.erase evs' := fun _ _ => List.filter_append _ _
    rw [trace, TransportEvent.traceAll, happend, herase, hresult, RegTransport.trace_cons]
    cases A.policed.outcome a s with
    | none => rfl
    | some x => exact congrArg (fun t => A.policed.events a s ++ .result x.1 :: t) (ih x.2)

/-- Every operation of the sequence can be called on the inner transport, and but for the barriers
the wrapped run shows what the run on the inner transport shows. -/
def TransparentOn (ops : List TypedOp) (s : σ) : Prop :=
  (∀ a ∈ ops, A.inner.Callable a.op) ∧
    TransportEvent.erase (A.trace ops s) = A.inner.trace ops s

variable {A}

/-- A range check that fails shows the policies of the wrapper. -/
theorem TransparentOn.policies {ops : List TypedOp} {s : σ} (h : A.TransparentOn ops s)
    (hfails : ¬ A.inner.ChecksPass ops s) :
    A.inner.checkPolicy = true ∧ A.inner.errorPolicy = .assertOnError := by
  obtain ⟨msg, hmem⟩ := RegTransport.exists_rangeError hfails errorPolicy
  have hinner : .rangeError errorPolicy msg ∈ A.inner.trace ops s := by
    rw [← h.2, trace_erase]
    exact hmem
  exact RegTransport.of_rangeError_mem hinner

variable (A)

/-- The wrapper is transparent exactly for sequences of operations that the inner transport exposes,
if it has the policies of the wrapper or no range check of the sequence fails. -/
theorem transparentOn_iff {ops : List TypedOp} (hops : ∀ a ∈ ops, A.Callable a.op) (s : σ) :
    A.TransparentOn ops s ↔
      (∀ a ∈ ops, ∀ n ∈ a.op.names, n ∈ A.inner.exposes) ∧
        ((A.inner.checkPolicy = true ∧ A.inner.errorPolicy = .assertOnError) ∨
          A.inner.ChecksPass ops s) := by
  constructor
  · intro h
    exact ⟨fun a ha => (h.1 a ha).2, or_iff_not_imp_right.mpr h.policies⟩
  · rintro ⟨hexposed, hpolicies⟩
    refine ⟨fun a ha => ⟨(hops a ha).1, hexposed a ha⟩, ?_⟩
    rw [trace_erase]
    rcases hpolicies with ⟨hcheck, hpolicy⟩ | hpass
    · have hpoliced : A.policed = A.inner := by
        rw [policed, checkPolicy, errorPolicy, ← hcheck, ← hpolicy]
        exact A.inner.withPolicies_self
      rw [hpoliced]
    · exact hpass.trace_eq checkPolicy errorPolicy

end AtomicTransport

namespace ByteTransport

def exposes : ByteTransport → List OpName
  | .i2c _ => [.write, .read, .is, .flip, .clear, .reset, .readVariant]
  | .spi _ => [.write, .read, .modify, .is, .flip, .clear, .reset, .readVariant]
  | .paged _ => [.write, .read, .is, .flip, .clear, .reset, .readVariant]

/-- A byte transport whose error policy is `IgnoreError`. -/
def ignoring (T : ByteTransport) (D : Target δ) (area : Nat → Byte) (checkPolicy : Bool) :
    RegTransport (T.State × Bus δ) where
  tag := T.tag
  checkPolicy := checkPolicy
  errorPolicy := .ignoreError
  exposes := T.exposes
  regRead _ s := some (T.registers D area .regRead s)
  regWrite _ value s := some (T.registers D area (.regWrite value) s).2

end ByteTransport

namespace AtomicTransport

def expanderPins : Register :=
  .declare ({ allowedTransports := [.i2c] } : Device).toParent 0x06 .bits8

def expanderDrive : Field expanderPins := ⟨0, 4, [], by decide, by decide⟩

def driveAt (x : BitVec 8) : List (ValueArg expanderPins) :=
  [⟨.field expanderDrive, .dynamicValue .uint8 x⟩]

/-- An I2C transport with `IgnoreError`, wrapped. -/
def expander : AtomicTransport (Unit × Bus Unit) where
  inner := (ByteTransport.i2c { native := .little, deviceAddr := 0x20 }).ignoring
    { effect := fun _ u => u, reply := fun _ _ _ => 0 } (fun _ => 0) true
  onArm := true

def expanderStart : Unit × Bus Unit := ((), { device := () })

/-- The wrapper offers the `modify` that the I2C transport deletes, and traps on a value out of
range that the I2C transport ignores. -/
theorem transparentOn_fails_i2c :
    (expander.Callable (.modify (driveAt 1)) ∧
      ¬ expander.TransparentOn [⟨.modify (driveAt 1)⟩] expanderStart) ∧
    (expander.Callable (.write (driveAt 0x1F)) ∧
      ¬ expander.TransparentOn [⟨.write (driveAt 0x1F)⟩] expanderStart) := by
  have hchecks : ¬ expander.inner.ChecksPass [⟨.write (driveAt 0x1F)⟩] expanderStart :=
    fun h => absurd (h.1 trivial) (by decide)
  refine ⟨⟨?_, fun h => ?_⟩, ?_, fun h => ?_⟩
  · exact ⟨⟨by decide, by decide, List.forall_mem_singleton.mpr rfl⟩, by decide⟩
  · have hcall := (h.1 _ (List.mem_singleton_self _)).2 .modify (List.mem_singleton_self _)
    revert hcall
    decide
  · exact ⟨⟨by decide, by decide, List.forall_mem_singleton.mpr rfl⟩, by decide⟩
  · exact nomatch (h.policies hchecks).2

theorem transparentOn_iff_drive :
    expander.TransparentOn [⟨.write (driveAt 0xF)⟩] expanderStart := by
  refine (transparentOn_iff expander ?_ expanderStart).mpr ⟨?_, .inr ⟨fun _ => ?_, ?_⟩⟩
  · rw [List.forall_mem_singleton]
    exact ⟨⟨by decide, by decide, List.forall_mem_singleton.mpr rfl⟩, by decide⟩
  · rw [List.forall_mem_singleton]
    decide
  · decide
  · exact fun _ _ => trivial

end AtomicTransport

end Umimmio
