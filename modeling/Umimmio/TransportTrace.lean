import Umimmio.OpsTrace
import Umimmio.Transport.Atomic

namespace Umimmio
open Effects
set_option autoImplicit true

variable {r : Register} {σ : Type}

theorem outcome_regRead (h : PartialHandler (RegCmd r) RegCmd.Resp σ) (s : σ) :
    (regRead r).outcome h s = h .regRead s :=
  Prog.outcome_command h _ s

theorem events_regRead (h : PartialHandler (RegCmd r) RegCmd.Resp σ) (s : σ) :
    (regRead r).events h s = [⟨.regRead, (h .regRead s).map Prod.fst⟩] :=
  Prog.events_command h _ s

theorem reportAll_events {msgs : List String} (hm : msgs ≠ [])
    (h : PartialHandler (RegCmd r) RegCmd.Resp σ) (s : σ) :
    ∃ msg x, ⟨.onRangeError msg, x⟩ ∈ (RegOps.reportAll r msgs).events h s := by
  cases msgs with
  | nil => exact absurd rfl hm
  | cons msg msgs => exact ⟨msg, _, List.mem_cons_self⟩

/-- A `modify` whose read does not return ends there. -/
theorem modify_stopped {h : PartialHandler (RegCmd r) RegCmd.Resp σ} {s : σ}
    (hread : h .regRead s = none) (checkPolicy : Bool) (values : List (ValueArg r)) :
    ((Op.modify values).prog checkPolicy).events h s = [⟨.regRead, none⟩] ∧
      ((Op.modify values).prog checkPolicy).outcome h s = none := by
  rw [Op.prog, RegOps.modify_eq, Prog.events_map, Prog.outcome_map, Prog.events_bind,
    Prog.outcome_bind, events_regRead, outcome_regRead, hread]
  exact ⟨rfl, rfl⟩

/-- What is to be seen of a run: barriers, register accesses with the value read, range errors with
the policy they are reported to, and the results of the operations that return. -/
inductive TransportEvent (σ : Type)
  | barrier (b : Barrier)
  | regRead (r : Register) (value : Option r.RegValueType)
  | regWrite (r : Register) (value : r.RegValueType)
  | rangeError (policy : ErrorPolicy σ) (msg : String)
  | result (x : OpResult)

namespace TransportEvent

def isBarrier : TransportEvent σ → Bool
  | .barrier _ => true
  | _ => false

def erase (evs : List (TransportEvent σ)) : List (TransportEvent σ) :=
  evs.filter fun e => !e.isBarrier

/-- Operations one after the other, until one does not return. -/
def traceAll (events : TypedOp → σ → List (TransportEvent σ))
    (outcome : TypedOp → σ → Option (OpResult × σ)) :
    List TypedOp → σ → List (TransportEvent σ)
  | [], _ => []
  | a :: ops, s =>
    events a s ++
      (outcome a s).elim [] fun x => .result x.1 :: traceAll events outcome ops x.2

end TransportEvent

namespace RegTransport

variable (T : RegTransport σ)

def seen (policy : ErrorPolicy σ) : ((c : RegCmd r) × Option c.Resp) → TransportEvent σ
  | ⟨.regRead, x⟩ => .regRead r x
  | ⟨.regWrite value, _⟩ => .regWrite r value
  | ⟨.onRangeError msg, _⟩ => .rangeError policy msg

def events (a : TypedOp) (s : σ) : List (TransportEvent σ) :=
  ((a.op.prog T.checkPolicy).events T.handler s).map (seen T.errorPolicy)

def outcome (a : TypedOp) (s : σ) : Option (OpResult × σ) :=
  (a.op.prog T.checkPolicy).outcome T.handler s

def trace : List TypedOp → σ → List (TransportEvent σ) :=
  TransportEvent.traceAll T.events T.outcome

/-- The same accesses below `RegOps` with other policies. -/
def withPolicies (checkPolicy : Bool) (errorPolicy : ErrorPolicy σ) : RegTransport σ :=
  { T with checkPolicy, errorPolicy }

theorem withPolicies_self : T.withPolicies T.checkPolicy T.errorPolicy = T :=
  rfl

/-- The operation comes to its range checks: only `modify` accesses its register before. -/
def ReachesChecks (op : Op r) (s : σ) : Prop :=
  match op with
  | .modify _ => (T.regRead r s).isSome
  | _ => True

/-- No range check that the sequence comes to fails. -/
def ChecksPass : List TypedOp → σ → Prop
  | [], _ => True
  | a :: ops, s =>
    (T.ReachesChecks a.op s → a.op.rangeErrors true = []) ∧
      ∀ x, (a.op.prog false).outcome T.handler s = some x → ChecksPass ops x.2

variable {T}

theorem ReachesChecks.reports {op : Op r} {s : σ} (hr : T.ReachesChecks op s)
    (he : op.rangeErrors true ≠ []) (policy : ErrorPolicy σ) :
    ∃ msg x, ⟨.onRangeError msg, x⟩ ∈
      (op.prog true).events (T.withPolicies true policy).handler s := by
  cases op with
  | write values =>
    obtain ⟨msg, x, hmem⟩ := reportAll_events he (T.withPolicies true policy).handler s
    rw [Op.prog, RegOps.write_eq, Prog.events_map, Prog.events_bind]
    exact ⟨msg, x, List.mem_append_left _ hmem⟩
  | is v =>
    obtain ⟨msg, x, hmem⟩ := reportAll_events he (T.withPolicies true policy).handler s
    rw [Op.prog, RegOps.is_eq, RegOps.checkValue_eq, Prog.events_map, Prog.events_bind]
    exact ⟨msg, x, List.mem_append_left _ hmem⟩
  | modify values =>
    obtain ⟨⟨current, s'⟩, hread⟩ := Option.isSome_iff_exists.mp hr
    obtain ⟨msg, x, hmem⟩ := reportAll_events he (T.withPolicies true policy).handler s'
    have hout : (T.withPolicies true policy).handler .regRead s = some (current, s') := hread
    rw [Op.prog, RegOps.modify_eq, Prog.events_map, Prog.events_bind, outcome_regRead, hout]
    refine ⟨msg, x, List.mem_append_right _ ?_⟩
    rw [Option.elim_some, Prog.events_bind]
    exact List.mem_append_left _ hmem
  | _ => exact absurd rfl he

theorem seen_congr {e : (c : RegCmd r) × Option c.Resp} (he : e.1.InRange)
    (policy policy' : ErrorPolicy σ) : seen policy e = seen policy' e := by
  obtain ⟨c, x⟩ := e
  cases c with
  | regRead => rfl
  | regWrite value => rfl
  | onRangeError msg => exact he.elim

theorem handler_congr {c : RegCmd r} (hc : c.InRange) (checkPolicy : Bool)
    (policy : ErrorPolicy σ) (s : σ) :
    (T.withPolicies checkPolicy policy).handler c s = T.handler c s := by
  cases c with
  | regRead => rfl
  | regWrite value => rfl
  | onRangeError msg => exact hc.elim

theorem perform_of_rangeErrors {op : Op r} (he : op.rangeErrors true = []) (checkPolicy : Bool)
    (policy : ErrorPolicy σ) (s : σ) :
    ((op.prog checkPolicy).events (T.withPolicies checkPolicy policy).handler s).map (seen policy) =
        ((op.prog false).events T.handler s).map (seen T.errorPolicy) ∧
      (op.prog checkPolicy).outcome (T.withPolicies checkPolicy policy).handler s =
        (op.prog false).outcome T.handler s := by
  have hprog : op.prog checkPolicy = op.prog false := by
    apply Op.prog_congr
    cases checkPolicy with
    | true => rw [he, Op.rangeErrors_unchecked]
    | false => rfl
  have honly := Op.only_of_rangeErrors op.rangeErrors_unchecked
  obtain ⟨hevents, houtcome⟩ := honly.congr
    (fun c s hc => handler_congr (T := T) hc checkPolicy policy s) s
  rw [hprog, hevents, houtcome]
  exact ⟨List.map_congr_left fun e hmem => seen_congr (honly.of_mem_events hmem) _ _, rfl⟩

/-- An operation whose range checks pass runs alike under all policies. -/
theorem perform_withPolicies {a : TypedOp} {s : σ}
    (h : T.ReachesChecks a.op s → a.op.rangeErrors true = []) (checkPolicy : Bool)
    (policy : ErrorPolicy σ) :
    (T.withPolicies checkPolicy policy).events a s =
        ((a.op.prog false).events T.handler s).map (seen T.errorPolicy) ∧
      (T.withPolicies checkPolicy policy).outcome a s =
        (a.op.prog false).outcome T.handler s := by
  by_cases he : a.op.rangeErrors true = []
  · exact perform_of_rangeErrors he checkPolicy policy s
  · obtain ⟨op⟩ := a
    have hreach : ¬ T.ReachesChecks op s := mt h he
    cases op with
    | modify values =>
      have hread : T.regRead _ s = none := Option.not_isSome_iff_eq_none.mp hreach
      obtain ⟨hevents, houtcome⟩ := modify_stopped (h := T.handler) hread false values
      obtain ⟨hevents', houtcome'⟩ := modify_stopped
        (h := (T.withPolicies checkPolicy policy).handler) hread checkPolicy values
      rw [hevents, houtcome]
      exact ⟨congrArg (List.map (seen policy)) hevents', houtcome'⟩
    | _ => exact absurd trivial hreach

theorem trace_cons (T : RegTransport σ) (a : TypedOp) (ops : List TypedOp) (s : σ) :
    T.trace (a :: ops) s =
      T.events a s ++ (T.outcome a s).elim [] fun x => .result x.1 :: T.trace ops x.2 :=
  rfl

/-- A sequence whose range checks pass runs alike under all policies. -/
theorem ChecksPass.trace_eq {ops : List TypedOp} {s : σ} (h : T.ChecksPass ops s)
    (checkPolicy : Bool) (policy : ErrorPolicy σ) :
    (T.withPolicies checkPolicy policy).trace ops s = T.trace ops s := by
  induction ops generalizing s with
  | nil => rfl
  | cons a ops ih =>
    obtain ⟨hchecks, hrest⟩ := h
    obtain ⟨hevents, houtcome⟩ := perform_withPolicies hchecks checkPolicy policy
    have hself := perform_withPolicies hchecks T.checkPolicy T.errorPolicy
    rw [withPolicies_self] at hself
    rw [trace_cons, trace_cons, hevents, houtcome, hself.1, hself.2]
    cases hx : (a.op.prog false).outcome T.handler s with
    | none => rfl
    | some x => rw [Option.elim_some, Option.elim_some, ih (hrest x hx)]

/-- A sequence with a range check that fails reports it, if it is checked. -/
theorem exists_rangeError {ops : List TypedOp} {s : σ} (h : ¬ T.ChecksPass ops s)
    (policy : ErrorPolicy σ) :
    ∃ msg, .rangeError policy msg ∈ (T.withPolicies true policy).trace ops s := by
  induction ops generalizing s with
  | nil => exact absurd trivial h
  | cons a ops ih =>
    rw [trace_cons]
    by_cases hchecks : T.ReachesChecks a.op s → a.op.rangeErrors true = []
    · have hrest : ¬ ∀ x, (a.op.prog false).outcome T.handler s = some x →
          T.ChecksPass ops x.2 := fun hrest => h ⟨hchecks, hrest⟩
      push Not at hrest
      obtain ⟨x, hx, hfails⟩ := hrest
      obtain ⟨msg, hmem⟩ := ih hfails
      rw [(perform_withPolicies hchecks true policy).2, hx]
      exact ⟨msg, List.mem_append_right _ (List.mem_cons_of_mem _ hmem)⟩
    · push Not at hchecks
      obtain ⟨msg, x, hmem⟩ := hchecks.1.reports hchecks.2 policy
      exact ⟨msg, List.mem_append_left _ (List.mem_map.mpr ⟨_, hmem, rfl⟩)⟩

theorem of_rangeError_mem_events {a : TypedOp} {s : σ} {policy : ErrorPolicy σ} {msg : String}
    (h : .rangeError policy msg ∈ T.events a s) :
    T.checkPolicy = true ∧ T.errorPolicy = policy := by
  obtain ⟨⟨c, x⟩, hmem, he⟩ := List.mem_map.mp h
  cases c with
  | regRead => cases he
  | regWrite value => cases he
  | onRangeError msg' =>
    obtain ⟨rfl, rfl⟩ := TransportEvent.rangeError.inj he
    refine ⟨?_, rfl⟩
    by_contra hc
    rw [Bool.not_eq_true] at hc
    rw [hc] at hmem
    exact (Op.only_of_rangeErrors a.op.rangeErrors_unchecked).of_mem_events hmem

/-- Range errors are reported to the policy of the transport, and only if it checks. -/
theorem of_rangeError_mem {ops : List TypedOp} {s : σ} {policy : ErrorPolicy σ} {msg : String}
    (h : .rangeError policy msg ∈ T.trace ops s) :
    T.checkPolicy = true ∧ T.errorPolicy = policy := by
  induction ops generalizing s with
  | nil => cases h
  | cons a ops ih =>
    rw [trace_cons] at h
    rcases List.mem_append.mp h with h | h
    · exact of_rangeError_mem_events h
    · cases hx : T.outcome a s with
      | none =>
        rw [hx] at h
        cases h
      | some x =>
        rw [hx, Option.elim_some] at h
        rcases List.mem_cons.mp h with he | h
        · cases he
        · exact ih h

end RegTransport

end Umimmio
