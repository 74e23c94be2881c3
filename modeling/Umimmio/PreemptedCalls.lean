import Umimmio.Lib.Pool
import Umimmio.OpsTrace
import Umimmio.W1cEvents

namespace Umimmio
open Effects
set_option autoImplicit true

variable {r : Register}

def readOut (f : r.RegValueType → OpResult) : RegProg r OpResult :=
  .call .regRead fun current => .ret (f current)

def reportThen (msgs : List String) (p : RegProg r OpResult) : RegProg r OpResult :=
  RegOps.reportAll r msgs >>= fun _ => p

theorem reportThen_ne_ret (msgs : List String) (b : OpResult) :
    reportThen msgs (.call c next) ≠ (.ret b : RegProg r OpResult) := by
  cases msgs <;> nofun

/-- An operation reports and reads, or reports and writes, or reads, reports and writes back. -/
theorem Op.prog_reports (op : Op r) (checkPolicy : Bool) :
    (∃ f, op.prog checkPolicy = reportThen (op.rangeErrors checkPolicy) (readOut f)) ∨
    (∃ w, op.prog checkPolicy = reportThen (op.rangeErrors checkPolicy) (writeBack w)) ∨
    op.IsRmw ∧ op.prog checkPolicy = .call .regRead fun current =>
      reportThen (op.rangeErrors checkPolicy) (writeBack (op.rmwWord current)) := by
  cases op with
  | write values =>
    refine .inr (.inl ⟨writeWord values, ?_⟩)
    rw [prog, RegOps.write_eq, map_eq_pure_bind, bind_assoc]
    rfl
  | read => exact .inl ⟨.bits r.valueBits, rfl⟩
  | readField f => exact .inl ⟨fun current => .bits _ (RegionValue.get current f), rfl⟩
  | is v =>
    refine .inl ⟨fun current => .bool (RegionValue.is current v), ?_⟩
    rw [prog, RegOps.is_eq, RegOps.checkValue_eq, map_eq_pure_bind, bind_assoc]
    rfl
  | modify values =>
    refine .inr (.inr ⟨trivial, ?_⟩)
    rw [prog, RegOps.modify_eq, map_eq_pure_bind, bind_assoc]
    simp only [bind_assoc]
    rfl
  | flip f => exact .inr (.inr ⟨trivial, rfl⟩)
  | clear f =>
    by_cases hd : RegOps.ClearsDirectly r
    · refine .inr (.inl ⟨(Region.field f).mask, ?_⟩)
      rw [prog, RegOps.clear_direct f hd]
      rfl
    · refine .inr (.inr ⟨hd, ?_⟩)
      simp only [prog, RegOps.clear_mixed f hd, rmwWord, if_neg hd]
      rfl
  | reset => exact .inr (.inl ⟨r.resetValue, rfl⟩)
  | readVariant f variants =>
    exact .inl ⟨fun current => .variant _ (RegOps.tryMatch (RegionValue.get current f)
      variants 0), rfl⟩

theorem Op.prog_shape (op : Op r) (checkPolicy : Bool) :
    (∃ msgs f, op.prog checkPolicy = reportThen msgs (readOut f)) ∨
    (∃ msgs w, op.prog checkPolicy = reportThen msgs (writeBack w)) ∨
    op.IsRmw ∧ ∃ msgs, op.prog checkPolicy =
      .call .regRead fun current => reportThen msgs (writeBack (op.rmwWord current)) := by
  rcases op.prog_reports checkPolicy with ⟨f, he⟩ | ⟨w, he⟩ | ⟨hop, he⟩
  · exact .inl ⟨_, f, he⟩
  · exact .inr (.inl ⟨_, w, he⟩)
  · exact .inr (.inr ⟨hop, _, he⟩)

/-- What a call has left to do: the reports still to come, then its reads and writes. -/
inductive Op.Stage (op : Op r) (checkPolicy : Bool) (seen : List ((c : RegCmd r) × RegCmd.Resp c)) :
    RegProg r OpResult → Prop
  | reading (msgs : List String)
      (hp : ∃ msgs, op.prog checkPolicy = reportThen msgs (readOut f))
      (hs : ∀ v, ⟨.regRead, v⟩ ∉ seen) : Stage op checkPolicy seen (reportThen msgs (readOut f))
  | writing (msgs : List String)
      (hp : ∃ msgs, op.prog checkPolicy = reportThen msgs (writeBack w))
      (hs : ∀ v, ⟨.regRead, v⟩ ∉ seen) : Stage op checkPolicy seen (reportThen msgs (writeBack w))
  | fetching (msgs : List String) (hop : op.IsRmw) (hs : ∀ v, ⟨.regRead, v⟩ ∉ seen) :
      Stage op checkPolicy seen
        (.call .regRead fun current => reportThen msgs (writeBack (op.rmwWord current)))
  | storing (msgs : List String) (hop : op.IsRmw) (hs : ∀ v, ⟨.regRead, v⟩ ∈ seen ↔ v = current) :
      Stage op checkPolicy seen (reportThen msgs (writeBack (op.rmwWord current)))
  | done (a : OpResult) : Stage op checkPolicy seen (.ret a)

theorem read_mem_snoc_report {seen : List ((c : RegCmd r) × RegCmd.Resp c)} (msg : String)
    (x : RegCmd.Resp (.onRangeError msg : RegCmd r)) (v : r.RegValueType) :
    ⟨.regRead, v⟩ ∈ seen ++ [⟨.onRangeError msg, x⟩] ↔ ⟨.regRead, v⟩ ∈ seen := by
  rw [List.mem_append, List.mem_singleton, or_iff_left]
  exact fun h => nomatch congrArg Sigma.fst h

theorem Op.stage {op : Op r} {checkPolicy : Bool} (h : Residual (op.prog checkPolicy) seen rest) :
    op.Stage checkPolicy seen rest := by
  induction h with
  | nil =>
    rcases op.prog_shape checkPolicy with ⟨msgs, f, he⟩ | ⟨msgs, w, he⟩ | ⟨hop, msgs, he⟩
    · rw [he]
      exact .reading msgs ⟨msgs, he⟩ nofun
    · rw [he]
      exact .writing msgs ⟨msgs, he⟩ nofun
    · rw [he]
      exact .fetching msgs hop nofun
  | @snoc seen c next h x ih =>
    generalize hq : Prog.call c next = q at ih
    cases ih with
    | reading msgs hp hs =>
      cases msgs with
      | nil =>
        cases hq
        exact .done _
      | cons msg msgs =>
        cases hq
        exact .reading msgs hp fun v => (read_mem_snoc_report msg x v).not.mpr (hs v)
    | writing msgs hp hs =>
      cases msgs with
      | nil =>
        cases hq
        exact .done _
      | cons msg msgs =>
        cases hq
        exact .writing msgs hp fun v => (read_mem_snoc_report msg x v).not.mpr (hs v)
    | fetching msgs hop hs =>
      cases hq
      refine .storing msgs hop fun v => ?_
      rw [List.mem_append, List.mem_singleton, or_iff_right (hs v)]
      exact ⟨fun h => by cases h; rfl, fun h => by rw [h]⟩
    | storing msgs hop hs =>
      cases msgs with
      | nil =>
        cases hq
        exact .done _
      | cons msg msgs =>
        cases hq
        exact .storing msgs hop fun v => (read_mem_snoc_report msg x v).trans (hs v)
    | done a => cases hq

theorem Op.Stage.write_inv {op : Op r} {w : r.RegValueType}
    {next : RegCmd.Resp (.regWrite w : RegCmd r) → RegProg r OpResult}
    (h : op.Stage checkPolicy seen (.call (.regWrite w) next)) : ∃ b, next () = .ret b := by
  generalize hq : Prog.call (RegCmd.regWrite w) next = q at h
  cases h with
  | reading msgs hp hs => cases msgs <;> cases hq
  | writing msgs hp hs =>
    cases msgs with
    | nil =>
      cases hq
      exact ⟨.done, rfl⟩
    | cons msg msgs => cases hq
  | fetching msgs hop hs => cases hq
  | storing msgs hop hs =>
    cases msgs with
    | nil =>
      cases hq
      exact ⟨.done, rfl⟩
    | cons msg msgs => cases hq
  | done b => cases hq

theorem Op.Stage.isRmw {op : Op r} (h : op.Stage checkPolicy seen rest)
    (hv : (⟨.regRead, v⟩ : (c : RegCmd r) × RegCmd.Resp c) ∈ seen) (hrest : ∀ b, rest ≠ .ret b) :
    op.IsRmw := by
  cases h with
  | reading msgs hp hs => exact absurd hv (hs v)
  | writing msgs hp hs => exact absurd hv (hs v)
  | fetching msgs hop hs => exact hop
  | storing msgs hop hs => exact hop
  | done b => exact absurd rfl (hrest b)

def Op.OnlyReads : Op r → Prop
  | .read => True
  | .readField _ => True
  | .is _ => True
  | .readVariant _ _ => True
  | _ => False

theorem Op.OnlyReads.not_isRmw {op : Op r} (h : op.OnlyReads) : ¬ op.IsRmw := by
  cases op <;> first | exact id | exact h.elim

def RegCmd.NoWrite : RegCmd r → Prop
  | .regWrite _ => False
  | _ => True

theorem only_reportAll {P : RegCmd r → Prop} (hP : ∀ msg, P (.onRangeError msg))
    (msgs : List String) : (RegOps.reportAll r msgs).Only P := by
  induction msgs with
  | nil => exact .ret _
  | cons msg msgs ih => exact .call (hP msg) fun _ => ih

theorem Op.OnlyReads.only {op : Op r} (h : op.OnlyReads) (checkPolicy : Bool) :
    (op.prog checkPolicy).Only RegCmd.NoWrite := by
  have hread : (regRead r).Only RegCmd.NoWrite := .call trivial .ret
  cases op with
  | read => exact hread.map _
  | readField f => exact (hread.bind fun _ => .ret _).map _
  | is v =>
    rw [prog, RegOps.is_eq, RegOps.checkValue_eq]
    exact ((only_reportAll (fun _ => trivial) _).bind fun _ => hread.map _).map _
  | readVariant f variants => exact ((hread.bind fun _ => .ret _).bind fun _ => .ret _).map _
  | _ => exact h.elim

section Quiet

variable {σ : Type} {h : RegHandler r σ} (hq : ∀ msg s, (h (.onRangeError msg) s).2 = s)
include hq

theorem run_reportThen (msgs : List String) (p : RegProg r OpResult) (s : σ) :
    (reportThen msgs p).run h s = p.run h s := by
  rw [reportThen, Prog.run_bind, RegOps.run_reportAll hq]

theorem writesLast_reportThen (msgs : List String) {p : RegProg r OpResult}
    (hp : WritesLast h p) : WritesLast h (reportThen msgs p) := by
  induction msgs with
  | nil => exact hp
  | cons msg msgs ih => exact .call (fun s => .inl (hq msg s)) fun _ => ih

theorem Op.writesLast (hr : ∀ s, (h .regRead s).2 = s) (op : Op r) (checkPolicy : Bool) :
    WritesLast h (op.prog checkPolicy) := by
  have hwrite : ∀ w, WritesLast h (writeBack w) :=
    fun w => .call (fun s => .inr ⟨.done, rfl⟩) fun _ => .ret _
  rcases op.prog_shape checkPolicy with ⟨msgs, f, he⟩ | ⟨msgs, w, he⟩ | ⟨hop, msgs, he⟩
  · rw [he]
    exact writesLast_reportThen hq msgs (.call (fun s => .inl (hr s)) fun _ => .ret _)
  · rw [he]
    exact writesLast_reportThen hq msgs (hwrite w)
  · rw [he]
    exact .call (fun s => .inl (hr s)) fun current => writesLast_reportThen hq msgs (hwrite _)

/-- A call that is about to write, writes what it would write on reading now. -/
def Op.Repeats (h : RegHandler r σ) (op : Op r) (seen : List ((c : RegCmd r) × RegCmd.Resp c))
    (s : σ) : RegCmd r → Prop
  | .regWrite _ => ∀ v, ⟨.regRead, v⟩ ∈ seen →
    (h (.regWrite (op.rmwWord v)) s).2 = (h (.regWrite (op.rmwWord (h .regRead s).1)) s).2
  | _ => True

theorem Op.fresh_iff (hr : ∀ s, (h .regRead s).2 = s) {op : Op r} {c : RegCmd r}
    {next : RegCmd.Resp c → RegProg r OpResult}
    (hres : Residual (op.prog checkPolicy) seen (.call c next)) (s : σ) :
    (∀ a, next (h c s).1 = .ret a → (op.prog checkPolicy).run h s = (a, (h c s).2)) ↔
      op.Repeats h seen s c := by
  have hstage := Op.stage hres
  generalize hrest : Prog.call c next = rest at hstage
  cases hstage with
  | @reading f msgs hp hs =>
    cases msgs with
    | nil =>
      cases hrest
      refine iff_of_true (fun a ha => ?_) trivial
      obtain ⟨msgs, hp⟩ := hp
      cases ha
      rw [hp, run_reportThen hq]
      rfl
    | cons msg msgs =>
      cases hrest
      exact iff_of_true (fun a ha => absurd ha (reportThen_ne_ret msgs a)) trivial
  | @writing w msgs hp hs =>
    cases msgs with
    | nil =>
      cases hrest
      refine iff_of_true (fun a ha => ?_) fun v hv => absurd hv (hs v)
      obtain ⟨msgs, hp⟩ := hp
      cases ha
      rw [hp, run_reportThen hq]
      rfl
    | cons msg msgs =>
      cases hrest
      exact iff_of_true (fun a ha => absurd ha (reportThen_ne_ret msgs a)) trivial
  | fetching msgs hop hs =>
    cases hrest
    exact iff_of_true (fun a ha => absurd ha (reportThen_ne_ret msgs a)) trivial
  | @storing current msgs hop hs =>
    cases msgs with
    | nil =>
      cases hrest
      have hrun : (op.prog checkPolicy).run h s =
          (.done, (h (.regWrite (op.rmwWord (h .regRead s).1)) s).2) := by
        rw [hop.run hq, hr]
      constructor
      · intro hfresh v hv
        have he := (hfresh .done rfl).symm.trans hrun
        rw [(hs v).mp hv]
        exact (Prod.mk.inj he).2
      · intro hrep a ha
        cases ha
        rw [hrun, ← hrep current ((hs current).mpr rfl)]
    | cons msg msgs =>
      cases hrest
      exact iff_of_true (fun a ha => absurd ha (reportThen_ne_ret msgs a)) trivial
  | done b => cases hrest

end Quiet

section Calls

variable {K ε κ σ : Type} {reg : K → Register} {op : (k : K) → Op (reg k)} {checkPolicy : Bool}
  {Admitted : κ → K → Prop} {h : (k : K) → RegHandler (reg k) σ} {env : ε → σ → σ}
  {Cur : (k : K) → (reg k).RegValueType → σ → Prop}

/-- While a context is in a read-modify-write, no other one is in a writing operation on the same
address. -/
def ExclusiveCalls (op : (k : K) → Op (reg k))
    (running : κ → Option (Running (fun k => RegCmd (reg k)) (fun _ => RegCmd.Resp) OpResult)) :
    Prop :=
  ∀ i j x y, running i = some x → running j = some y → i ≠ j → (op x.key).IsRmw →
    (reg x.key).address = (reg y.key).address → (op y.key).OnlyReads

/-- One of two contexts is only reading. -/
theorem ExclusiveCalls.of_reads {running : Bool → Option (Running (fun k => RegCmd (reg k))
    (fun _ => RegCmd.Resp) OpResult)} (b : Bool)
    (hreads : ∀ x, running b = some x → (op x.key).OnlyReads) : ExclusiveCalls op running := by
  have hb : ∀ i j : Bool, i ≠ j → i = b ∨ j = b := by cases b <;> decide
  intro i j x y hi hj hij hop _
  rcases hb i j hij with rfl | rfl
  · exact absurd hop (hreads x hi).not_isRmw
  · exact hreads y hj

/-- What the calls in progress have read is current. -/
def CurrentCalls (Cur : (k : K) → (reg k).RegValueType → σ → Prop)
    (c : Pool κ (fun k => RegCmd (reg k)) (fun _ => RegCmd.Resp) OpResult σ) : Prop :=
  ∀ i x, c.running i = some x → ∀ v : (reg x.key).RegValueType, ⟨.regRead, v⟩ ∈ x.seen →
    (∀ b, x.rest ≠ .ret b) → Cur x.key v c.state

/-- Only writes to the same address end that what a call has read is current, and as long as it is,
the call writes back what it would on reading again. -/
structure KeepsRead (h : (k : K) → RegHandler (reg k) σ) (op : (k : K) → Op (reg k))
    (env : ε → σ → σ) (Cur : (k : K) → (reg k).RegValueType → σ → Prop) : Prop where
  quiet : ∀ k msg s, (h k (.onRangeError msg) s).2 = s
  reads : ∀ k s, (h k .regRead s).2 = s
  current : ∀ k s, Cur k (h k .regRead s).1 s
  surroundings : ∀ e k v s, Cur k v s → Cur k v (env e s)
  elsewhere : ∀ k k' w v s, (reg k).address ≠ (reg k').address → Cur k v s →
    Cur k v (h k' (.regWrite w) s).2
  same : ∀ k v s, (op k).IsRmw → Cur k v s →
    (op k).rmwWord v = (op k).rmwWord (h k .regRead s).1

variable [DecidableEq κ]
  {c c' : Pool κ (fun k => RegCmd (reg k)) (fun _ => RegCmd.Resp) OpResult σ}
  {e : PoolEvent ε κ (fun k => RegCmd (reg k)) (fun _ => RegCmd.Resp) OpResult σ}
  {evs : List (PoolEvent ε κ (fun k => RegCmd (reg k)) (fun _ => RegCmd.Resp) OpResult σ)}

theorem KeepsRead.step (hk : KeepsRead h op env Cur) (hcur : CurrentCalls Cur c)
    (hstarted : c.Started (fun k => (op k).prog checkPolicy) Admitted)
    (hx : ExclusiveCalls op c.running)
    (hs : PoolStep h (fun k => (op k).prog checkPolicy) env Admitted c e c') :
    CurrentCalls Cur c' := by
  cases hs with
  | surroundings s run e =>
    intro i x hi v hv hrest
    exact hk.surroundings e x.key v s (hcur i x hi v hv hrest)
  | start s run i k hi hadm =>
    refine Pool.forall_update hcur ?_
    rintro _ ⟨⟩ v hv
    cases hv
  | finish s run i k seen a hi => exact Pool.forall_update hcur fun _ h => nomatch h
  | command s run i k seen cmd next hi =>
    have hstage := Op.stage (hstarted i _ hi).2
    cases cmd with
    | onRangeError msg =>
      change CurrentCalls Cur ⟨(h k (.onRangeError msg) s).2, _⟩
      rw [hk.quiet]
      refine Pool.forall_update hcur ?_
      rintro _ ⟨⟩ v hv _
      have hseen := (read_mem_snoc_report msg _ v).mp hv
      exact hcur i _ hi v hseen (Prog.call_ne_ret _ next)
    | regRead =>
      change CurrentCalls Cur ⟨(h k .regRead s).2, _⟩
      rw [hk.reads]
      refine Pool.forall_update hcur ?_
      rintro _ ⟨⟩ v hv _
      rcases List.mem_append.mp hv with hv | hv
      · exact hcur i _ hi v hv (Prog.call_ne_ret _ next)
      · cases List.mem_singleton.mp hv
        exact hk.current k s
    | regWrite w =>
      intro j x hj v hv hrest
      by_cases hij : j = i
      · subst hij
        change Function.update run j _ j = some x at hj
        rw [Function.update_self] at hj
        cases hj
        obtain ⟨b, hb⟩ := hstage.write_inv
        exact absurd hb (hrest b)
      · change Function.update run i _ j = some x at hj
        rw [Function.update_of_ne hij] at hj
        refine hk.elsewhere x.key k w v s (fun haddr => ?_) (hcur j x hj v hv hrest)
        have hrmw := (Op.stage (hstarted j x hj).2).isRmw hv hrest
        have hreads := (hx j i x _ hj hi hij hrmw haddr).only checkPolicy
        cases hreads.residual (hstarted i _ hi).2 with
        | call hc _ => exact hc

theorem KeepsRead.fresh (hk : KeepsRead h op env Cur) (hcur : CurrentCalls Cur c)
    (hstarted : c.Started (fun k => (op k).prog checkPolicy) Admitted)
    (hs : PoolStep h (fun k => (op k).prog checkPolicy) env Admitted c e c') :
    e.Fresh h fun k => (op k).prog checkPolicy := by
  cases hs with
  | surroundings s run e => trivial
  | start s run i k hi hadm => trivial
  | finish s run i k seen a hi => trivial
  | command s run i k seen cmd next hi =>
    have hres := (hstarted i _ hi).2
    refine (Op.fresh_iff (hk.quiet k) (hk.reads k) hres s).mpr ?_
    cases cmd with
    | regRead => trivial
    | onRangeError msg => trivial
    | regWrite w =>
      intro v hv
      have hop := (Op.stage hres).isRmw hv (Prog.call_ne_ret _ next)
      rw [hk.same k v s hop (hcur i _ hi v hv (Prog.call_ne_ret _ next))]

/-- With every read-modify-write in a critical section, a call does what the whole of it would do
at the moment when it completes. -/
theorem KeepsRead.fresh_of_exclusive (hk : KeepsRead h op env Cur)
    (hr : Run (fun c e c' => PoolStep h (fun k => (op k).prog checkPolicy) env Admitted c e c' ∧
      ExclusiveCalls op c'.running) (Pool.idle s0) evs c) :
    ∀ e ∈ evs, e.Fresh h fun k => (op k).prog checkPolicy := by
  have hinv : c.Started (fun k => (op k).prog checkPolicy) Admitted ∧
      ExclusiveCalls op c.running ∧ CurrentCalls Cur c ∧
        ∀ e ∈ evs, e.Fresh h fun k => (op k).prog checkPolicy := by
    refine hr.inv (I := fun evs c => c.Started (fun k => (op k).prog checkPolicy) Admitted ∧
      ExclusiveCalls op c.running ∧ CurrentCalls Cur c ∧
        ∀ e ∈ evs, e.Fresh h fun k => (op k).prog checkPolicy)
      ⟨Pool.started_idle _ _ s0, fun _ _ _ _ h => (nomatch h), fun _ _ h => (nomatch h),
        fun _ h => (nomatch h)⟩ ?_
    rintro evs t e u ⟨hstarted, hx, hcur, hfresh⟩ ⟨hstep, hx'⟩
    refine ⟨hstarted.step hstep, hx', hk.step hcur hstarted hx hstep, ?_⟩
    rw [List.forall_mem_append, List.forall_mem_singleton]
    exact ⟨hfresh, hk.fresh hcur hstarted hstep⟩
  exact hinv.2.2.2

end Calls

end Umimmio
