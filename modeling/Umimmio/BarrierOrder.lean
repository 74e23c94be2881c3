import Umimmio.AtomicTransparency
import Umimmio.Lib.Bracket

namespace Umimmio
open Effects Bytes Lists
set_option autoImplicit true

variable {r : Register} {σ : Type}

inductive AccessKind
  | read
  | write
  deriving DecidableEq, Repr

def TransportEvent.access? : TransportEvent σ → Option AccessKind
  | .regRead _ _ => some .read
  | .regWrite _ _ => some .write
  | _ => none

def Barrier.isHardware : Barrier → Bool
  | .atomicSignalFence _ => false
  | .dmb => true
  | .dsb => true

namespace MemoryOrder

/-- The order of the compiler fences around an access. -/
def fence : MemoryOrder → AccessKind → MemoryOrder
  | .seqCst, _ => .seqCst
  | .acquire, .read => .acquire
  | .acqRel, .read => .acquire
  | .release, .write => .release
  | .acqRel, .write => .release
  | _, _ => .relaxed

def hardwareBefore : MemoryOrder → AccessKind → List Barrier
  | .seqCst, _ => [.dsb]
  | .release, .write => [.dmb]
  | .acqRel, .write => [.dmb]
  | _, _ => []

def hardwareAfter : MemoryOrder → AccessKind → List Barrier
  | .seqCst, .read => [.dmb]
  | .acquire, .read => [.dmb]
  | .acqRel, .read => [.dmb]
  | .seqCst, .write => [.dsb]
  | .release, .write => [.dsb]
  | .acqRel, .write => [.dsb]
  | _, _ => []

def Acquires (o : MemoryOrder) : Prop := o = .acquire ∨ o = .acqRel ∨ o = .seqCst

def Releases (o : MemoryOrder) : Prop := o = .release ∨ o = .acqRel ∨ o = .seqCst

/-- The pairs of neighbouring accesses that `std::memory_order` keeps in order: nothing later moves
before a read that acquires, nothing earlier moves after a write that releases, and sequentially
consistent accesses have one order. -/
def Requires (o : MemoryOrder) (x y : AccessKind) : Prop :=
  (x = .read ∧ o.Acquires) ∨ (y = .write ∧ o.Releases) ∨ o = .seqCst

end MemoryOrder

namespace AtomicProg

def emit : List Barrier → AtomicProg r Unit
  | [] => .ret ()
  | b :: bs => .call (.barrier b) fun _ => emit bs

end AtomicProg

namespace AtomicTransport

variable (A : AtomicTransport σ)

def opening (x : AccessKind) : List Barrier :=
  .atomicSignalFence (A.order.fence x) :: if A.onArm then A.order.hardwareBefore x else []

def closing (x : AccessKind) : List Barrier :=
  (if A.onArm then A.order.hardwareAfter x else []) ++ [.atomicSignalFence (A.order.fence x)]

theorem preReadBarrier_eq : (AtomicProg.preReadBarrier A.onArm A.order : AtomicProg r Unit) =
    AtomicProg.emit (A.opening .read) := by
  rw [opening]
  cases A.order <;> cases A.onArm <;> rfl

theorem postReadBarrier_eq : (AtomicProg.postReadBarrier A.onArm A.order : AtomicProg r Unit) =
    AtomicProg.emit (A.closing .read) := by
  rw [closing]
  cases A.order <;> cases A.onArm <;> rfl

theorem preWriteBarrier_eq : (AtomicProg.preWriteBarrier A.onArm A.order : AtomicProg r Unit) =
    AtomicProg.emit (A.opening .write) := by
  rw [opening]
  cases A.order <;> cases A.onArm <;> rfl

theorem postWriteBarrier_eq : (AtomicProg.postWriteBarrier A.onArm A.order : AtomicProg r Unit) =
    AtomicProg.emit (A.closing .write) := by
  rw [closing]
  cases A.order <;> cases A.onArm <;> rfl

theorem emit_events (bs : List Barrier) (s : σ) :
    ((AtomicProg.emit bs : AtomicProg r Unit).events A.handler s).map
        (seen : _ → TransportEvent σ) = bs.map .barrier ∧
      (AtomicProg.emit bs : AtomicProg r Unit).outcome A.handler s = some ((), s) := by
  induction bs with
  | nil => exact ⟨rfl, rfl⟩
  | cons b bs ih => exact ⟨congrArg (List.cons (.barrier b : TransportEvent σ)) ih.1, ih.2⟩

theorem bracket_events (before after : List Barrier) (c : AtomicCmd r) (s : σ) :
    let p : AtomicProg r (c.Resp × Unit) := AtomicProg.emit before >>= fun _ =>
      (.call c .ret : AtomicProg r c.Resp) >>= fun x => AtomicProg.emit after >>= fun _ =>
        pure (x, ())
    (p.events A.handler s).map (seen : _ → TransportEvent σ) = before.map .barrier ++
        seen ⟨c, (A.handler c s).map Prod.fst⟩ ::
          (A.handler c s).elim [] (fun _ => after.map .barrier) ∧
      p.outcome A.handler s = (A.handler c s).map fun x => ((x.1, ()), x.2) := by
  intro p
  obtain ⟨hbefore, houtcome⟩ := A.emit_events (r := r) before s
  have hevents : p.events A.handler s = _ := Prog.events_bind A.handler _ _ s
  have hresult : p.outcome A.handler s = _ := Prog.outcome_bind A.handler _ _ s
  rw [hevents, hresult, houtcome, List.map_append, hbefore, Option.elim_some, Option.bind_some,
    Prog.events_bind, Prog.outcome_bind, Prog.events_command, Prog.outcome_command]
  cases A.handler c s with
  | none => exact ⟨rfl, rfl⟩
  | some x =>
    obtain ⟨hafter, houtcome'⟩ := A.emit_events (r := r) after x.2
    rw [Option.elim_some, Option.bind_some, Prog.events_bind, Prog.outcome_bind, houtcome',
      Option.elim_some, Option.bind_some, Option.elim_some, List.map_append, List.map_append,
      hafter]
    refine ⟨?_, rfl⟩
    rw [← hafter]
    exact congrArg (fun t => _ ++ _ :: t) (List.append_nil _)

/-- The barriers around each access of a trace are those of the order. -/
abbrev Brackets : List (TransportEvent σ) → Prop :=
  Bracketed TransportEvent.access? TransportEvent.isBarrier
    (fun x => (A.opening x).map .barrier) (fun x => (A.closing x).map .barrier)

theorem regRead_events (u : Unit) (s : σ) :
    ((A.regOps (.regRead : RegCmd r) u).events A.handler s).map (seen : _ → TransportEvent σ) =
        (A.opening .read).map .barrier ++
          seen ⟨.innerRead, (A.handler (.innerRead : AtomicCmd r) s).map Prod.fst⟩ ::
            (A.handler (.innerRead : AtomicCmd r) s).elim [] (fun _ =>
              (A.closing .read).map .barrier) ∧
      (A.regOps (.regRead : RegCmd r) u).outcome A.handler s =
        (A.handler (.innerRead : AtomicCmd r) s).map fun x => ((x.1, ()), x.2) := by
  have hops : A.regOps (.regRead : RegCmd r) u = AtomicProg.emit (A.opening .read) >>= fun _ =>
      (.call .innerRead .ret : AtomicProg r _) >>= fun x =>
        AtomicProg.emit (A.closing .read) >>= fun _ => pure (x, ()) := by
    rw [← preReadBarrier_eq, ← postReadBarrier_eq]
    simp only [regOps, regRead, AtomicProg.innerRead, bind_assoc]
    rfl
  rw [hops]
  exact A.bracket_events _ _ _ s

theorem regWrite_events (value : r.RegValueType) (u : Unit) (s : σ) :
    ((A.regOps (.regWrite value) u).events A.handler s).map (seen : _ → TransportEvent σ) =
        (A.opening .write).map .barrier ++
          seen ⟨.innerWrite value, (A.handler (.innerWrite value) s).map Prod.fst⟩ ::
            (A.handler (.innerWrite value) s).elim [] (fun _ =>
              (A.closing .write).map .barrier) ∧
      (A.regOps (.regWrite value) u).outcome A.handler s =
        (A.handler (.innerWrite value) s).map fun x => ((x.1, ()), x.2) := by
  have hops : A.regOps (.regWrite value) u = AtomicProg.emit (A.opening .write) >>= fun _ =>
      (.call (.innerWrite value) .ret : AtomicProg r _) >>= fun x =>
        AtomicProg.emit (A.closing .write) >>= fun _ => pure (x, ()) := by
    rw [← preWriteBarrier_eq, ← postWriteBarrier_eq]
    simp only [regOps, regWrite, AtomicProg.innerWrite, bind_assoc]
    rfl
  rw [hops]
  exact A.bracket_events _ _ _ s

variable {A}

theorem Brackets.access {rest : List (TransportEvent σ)} {x : AccessKind} {c : AtomicCmd r} (s : σ)
    (hc : ∀ y, (seen ⟨c, y⟩ : TransportEvent σ).access? = some x)
    (hnone : A.handler c s = none → rest = [])
    (hsome : ∀ y, A.handler c s = some y → A.Brackets rest) :
    A.Brackets ((A.opening x).map .barrier ++ seen ⟨c, (A.handler c s).map Prod.fst⟩ ::
      ((A.handler c s).elim [] (fun _ => (A.closing x).map .barrier) ++ rest)) := by
  cases hx : A.handler c s with
  | none =>
    rw [hnone hx]
    exact .cut (hc _)
  | some y => exact .marked (hc _) (hsome y hx)

/-- A program of register accesses through the wrapper, and what comes after it if it returns. -/
theorem brackets_translate (p : RegProg r α) (u : Unit) (s : σ) {rest : List (TransportEvent σ)}
    (hnone : (p.translate A.regOps u).outcome A.handler s = none → rest = [])
    (hsome : ∀ x, (p.translate A.regOps u).outcome A.handler s = some x → A.Brackets rest) :
    A.Brackets (((p.translate A.regOps u).events A.handler s).map seen ++ rest) := by
  induction p generalizing s with
  | ret a => exact hsome _ rfl
  | call c next ih =>
    rw [Prog.translate_call, Prog.outcome_bind] at hnone hsome
    rw [Prog.translate_call, Prog.events_bind, List.map_append, List.append_assoc]
    cases c with
    | regRead =>
      obtain ⟨hevents, houtcome⟩ := A.regRead_events (r := r) u s
      rw [houtcome] at hnone hsome ⊢
      rw [hevents, List.append_assoc, List.cons_append]
      refine Brackets.access s (fun _ => rfl) (fun hx => ?_) fun y hx => ?_
      · rw [hx] at hnone ⊢
        exact hnone rfl
      · rw [hx] at hnone hsome ⊢
        exact ih y.1 y.2 hnone hsome
    | regWrite value =>
      obtain ⟨hevents, houtcome⟩ := A.regWrite_events value u s
      rw [houtcome] at hnone hsome ⊢
      rw [hevents, List.append_assoc, List.cons_append]
      refine Brackets.access s (fun _ => rfl) (fun hx => ?_) fun y hx => ?_
      · rw [hx] at hnone ⊢
        exact hnone rfl
      · rw [hx] at hnone hsome ⊢
        exact ih y.1 y.2 hnone hsome
    | onRangeError msg =>
      -- The policy of the wrapper asserts.
      rw [hnone rfl]
      exact .plain rfl rfl .nil

theorem brackets_trace (A : AtomicTransport σ) (ops : List TypedOp) (s : σ) :
    A.Brackets (A.trace ops s) := by
  induction ops generalizing s with
  | nil => exact .nil
  | cons a ops ih =>
    refine brackets_translate (a.op.prog checkPolicy) () s (fun hnone => ?_) fun x hsome => ?_
    · rw [outcome, run, hnone]
      rfl
    · rw [outcome, run, hsome]
      exact .plain rfl rfl (ih x.2)

/-- A write that releases is also kept before a read that follows it. -/
theorem exists_hardware_iff (A : AtomicTransport σ) (x y : AccessKind) :
    (∃ c ∈ A.closing x ++ A.opening y, c.isHardware = true) ↔
      A.onArm = true ∧ (A.order.Requires x y ∨
        x = .write ∧ y = .read ∧ (A.order = .release ∨ A.order = .acqRel)) := by
  rw [closing, opening]
  cases A.onArm with
  | false => simp [Barrier.isHardware]
  | true =>
    cases A.order <;> cases x <;> cases y <;>
      simp [Barrier.isHardware, MemoryOrder.hardwareAfter, MemoryOrder.hardwareBefore,
        MemoryOrder.Requires, MemoryOrder.Acquires, MemoryOrder.Releases]

/-- In every run the barriers between two neighbouring register accesses, also of different
operations, are those that close the first and open the second. A hardware barrier is among them
exactly on Arm and where the memory order asks for it, or where a read follows a write that
releases. -/
theorem barriers_between (A : AtomicTransport σ) (ops : List TypedOp) (s : σ)
    {before between after : List (TransportEvent σ)} {a b : TransportEvent σ}
    (hl : A.trace ops s = before ++ a :: (between ++ b :: after)) (ha : a.access? = some x)
    (hb : b.access? = some y) (hn : ∀ e ∈ between, e.access? = none) :
    between.filter TransportEvent.isBarrier = (A.closing x ++ A.opening y).map .barrier ∧
      ((∃ c, .barrier c ∈ between ∧ c.isHardware = true) ↔
        A.onArm = true ∧ (A.order.Requires x y ∨
          x = .write ∧ y = .read ∧ (A.order = .release ∨ A.order = .acqRel))) := by
  have hbrackets : ∀ bs : List Barrier, ∀ e ∈ bs.map (.barrier : Barrier → TransportEvent σ),
      e.access? = none ∧ e.isBarrier = true := by
    intro bs e he
    obtain ⟨c, _, rfl⟩ := List.mem_map.mp he
    exact ⟨rfl, rfl⟩
  have hfilter : between.filter TransportEvent.isBarrier =
      (A.closing x ++ A.opening y).map .barrier := by
    rw [List.map_append]
    exact (A.brackets_trace ops s).filter_between (fun x => hbrackets (A.opening x))
      (fun x => hbrackets (A.closing x)) hl ha hb hn
  refine ⟨hfilter, ?_⟩
  rw [← A.exists_hardware_iff]
  refine exists_congr fun c => and_congr_left fun _ => ?_
  have hmem : (.barrier c ∈ between) ↔ .barrier c ∈ between.filter TransportEvent.isBarrier :=
    ⟨fun h => List.mem_filter.mpr ⟨h, rfl⟩, fun h => (List.mem_filter.mp h).1⟩
  rw [hmem, hfilter]
  constructor
  · intro h
    obtain ⟨c', hc', he⟩ := List.mem_map.mp h
    cases he
    exact hc'
  · exact List.mem_map_of_mem

theorem barriers_between_acquire :
    ¬ ∃ c, .barrier c ∈ ([.barrier (.atomicSignalFence .relaxed), .result .done,
      .barrier (.atomicSignalFence .acquire)] : List (TransportEvent (Unit × Bus Unit))) ∧
        c.isHardware = true := by
  have hl : { expander with order := .acquire }.trace
      [⟨.write (driveAt 1)⟩, ⟨(.read : Op expanderPins)⟩] expanderStart =
        [.barrier (.atomicSignalFence .relaxed)] ++ .regWrite expanderPins 1 ::
          ([.barrier (.atomicSignalFence .relaxed), .result .done,
            .barrier (.atomicSignalFence .acquire)] ++ .regRead expanderPins (some 0) ::
              [.barrier .dmb, .barrier (.atomicSignalFence .acquire), .result (.bits 8 0)]) := rfl
  rw [(barriers_between { expander with order := .acquire }
    [⟨.write (driveAt 1)⟩, ⟨(.read : Op expanderPins)⟩] expanderStart hl rfl rfl (by simp [
      TransportEvent.access?])).2]
  rintro ⟨_, hrequires | hrelease⟩
  · exact absurd hrequires (by simp [MemoryOrder.Requires])
  · exact absurd hrelease (by simp)

end AtomicTransport

end Umimmio
