import Umimmio.Lib.Run

namespace Effects
set_option autoImplicit true

section Residual
variable {C : Type} {R : C → Type} {ρ σ : Type}

theorem Prog.call_ne_ret (c : C) (next : R c → Prog C R ρ) (a : ρ) : Prog.call c next ≠ .ret a :=
  nofun

/-- What is left of a program once its first commands have been answered. -/
inductive Residual (p : Prog C R ρ) : List ((c : C) × R c) → Prog C R ρ → Prop
  | nil : Residual p [] p
  | snoc (h : Residual p seen (.call c next)) (x : R c) : Residual p (seen ++ [⟨c, x⟩]) (next x)

/-- Only the last command of the program may change the state. -/
inductive WritesLast (h : Handler C R σ) : Prog C R ρ → Prop
  | ret (a : ρ) : WritesLast h (.ret a)
  | call (hc : ∀ s, (h c s).2 = s ∨ ∃ a, next (h c s).1 = .ret a)
      (hn : ∀ x, WritesLast h (next x)) : WritesLast h (.call c next)

theorem WritesLast.residual {h : Handler C R σ} {p q : Prog C R ρ} (hp : WritesLast h p)
    (hr : Residual p seen q) : WritesLast h q := by
  induction hr with
  | nil => exact hp
  | snoc _ x ih =>
    cases ih with
    | call _ hn => exact hn x

/-- A command that does not complete its program leaves the state alone. -/
theorem WritesLast.state_of_call {h : Handler C R σ} {p : Prog C R ρ} {c d : C}
    {next : R c → Prog C R ρ} {next' : R d → Prog C R ρ} (hp : WritesLast h p)
    (hr : Residual p seen (.call c next)) (hnext : next (h c s).1 = .call d next') :
    (h c s).2 = s := by
  cases hp.residual hr with
  | call hc _ =>
    rcases hc s with heq | ⟨a, ha⟩
    · exact heq
    · cases hnext.symm.trans ha

theorem Prog.Only.residual {P : C → Prop} {p q : Prog C R ρ} (hp : p.Only P)
    (hr : Residual p seen q) : q.Only P := by
  induction hr with
  | nil => exact hp
  | snoc _ x ih =>
    cases ih with
    | call _ hn => exact hn x

end Residual

section Pool
variable {κ K ε ρ σ : Type} {C : K → Type} {R : (k : K) → C k → Type}

/-- A call in progress: the commands it has issued with their responses, and what is left. -/
structure Running (C : K → Type) (R : (k : K) → C k → Type) (ρ : Type) where
  key : K
  seen : List ((c : C key) × R key c)
  rest : Prog (C key) (R key) ρ

/-- Contexts that share a state, each with at most one call in progress. -/
structure Pool (κ : Type) (C : K → Type) (R : (k : K) → C k → Type) (ρ σ : Type) where
  state : σ
  running : κ → Option (Running C R ρ)

def Pool.idle (s : σ) : Pool κ C R ρ σ where
  state := s
  running := fun _ => none

/-- A command is listed with the state that it finds. -/
inductive PoolEvent (ε κ : Type) (C : K → Type) (R : (k : K) → C k → Type) (ρ σ : Type)
  | surroundings (e : ε)
  | start (i : κ) (k : K)
  | command (i : κ) (k : K) (seen : List ((c : C k) × R k c)) (c : C k)
      (next : R k c → Prog (C k) (R k) ρ) (s : σ)
  | finish (i : κ) (k : K) (a : ρ)

/-- Every call in progress is an admitted one, as far as it has come. -/
def Pool.Started (prog : (k : K) → Prog (C k) (R k) ρ) (Admitted : κ → K → Prop)
    (c : Pool κ C R ρ σ) : Prop :=
  ∀ i x, c.running i = some x → Admitted i x.key ∧ Residual (prog x.key) x.seen x.rest

theorem Pool.started_idle (prog : (k : K) → Prog (C k) (R k) ρ) (Admitted : κ → K → Prop)
    (s : σ) : (Pool.idle s : Pool κ C R ρ σ).Started prog Admitted :=
  fun _ _ hi => nomatch hi

variable [DecidableEq κ]

/-- One step of one context, or of the surroundings. -/
inductive PoolStep (h : (k : K) → Handler (C k) (R k) σ) (prog : (k : K) → Prog (C k) (R k) ρ)
    (env : ε → σ → σ) (Admitted : κ → K → Prop) :
    Pool κ C R ρ σ → PoolEvent ε κ C R ρ σ → Pool κ C R ρ σ → Prop
  | surroundings (s : σ) (run : κ → Option (Running C R ρ)) (e : ε) :
      PoolStep h prog env Admitted ⟨s, run⟩ (.surroundings e) ⟨env e s, run⟩
  | start (s : σ) (run : κ → Option (Running C R ρ)) (i : κ) (k : K) (hi : run i = none)
      (hk : Admitted i k) :
      PoolStep h prog env Admitted ⟨s, run⟩ (.start i k)
        ⟨s, Function.update run i (some ⟨k, [], prog k⟩)⟩
  | command (s : σ) (run : κ → Option (Running C R ρ)) (i : κ) (k : K)
      (seen : List ((c : C k) × R k c)) (c : C k) (next : R k c → Prog (C k) (R k) ρ)
      (hi : run i = some ⟨k, seen, .call c next⟩) :
      PoolStep h prog env Admitted ⟨s, run⟩ (.command i k seen c next s)
        ⟨(h k c s).2, Function.update run i
          (some ⟨k, seen ++ [⟨c, (h k c s).1⟩], next (h k c s).1⟩)⟩
  | finish (s : σ) (run : κ → Option (Running C R ρ)) (i : κ) (k : K)
      (seen : List ((c : C k) × R k c)) (a : ρ) (hi : run i = some ⟨k, seen, .ret a⟩) :
      PoolStep h prog env Admitted ⟨s, run⟩ (.finish i k a) ⟨s, Function.update run i none⟩

variable {h : (k : K) → Handler (C k) (R k) σ} {prog : (k : K) → Prog (C k) (R k) ρ}
  {env : ε → σ → σ} {Admitted : κ → K → Prop}

theorem Pool.forall_update {run : κ → Option (Running C R ρ)} {P : κ → Running C R ρ → Prop}
    {y : Option (Running C R ρ)} (hrun : ∀ j x, run j = some x → P j x)
    (hy : ∀ x, y = some x → P i x) (j : κ) (x : Running C R ρ)
    (hj : Function.update run i y j = some x) : P j x := by
  by_cases hij : j = i
  · subst hij
    rw [Function.update_self] at hj
    exact hy x hj
  · rw [Function.update_of_ne hij] at hj
    exact hrun j x hj

theorem Pool.Started.step {c c' : Pool κ C R ρ σ} {e : PoolEvent ε κ C R ρ σ}
    (hc : c.Started prog Admitted) (hs : PoolStep h prog env Admitted c e c') :
    c'.Started prog Admitted := by
  cases hs with
  | surroundings s run e => exact hc
  | start s run i k hi hk =>
    refine forall_update hc ?_
    rintro _ ⟨⟩
    exact ⟨hk, .nil⟩
  | command s run i k seen c next hi =>
    obtain ⟨hk, hr⟩ := hc i _ hi
    refine forall_update hc ?_
    rintro _ ⟨⟩
    exact ⟨hk, .snoc hr _⟩
  | finish s run i k seen a hi => exact forall_update hc nofun

theorem Pool.Started.run {s : σ} {c : Pool κ C R ρ σ} {evs : List (PoolEvent ε κ C R ρ σ)}
    (hr : Run (PoolStep h prog env Admitted) (Pool.idle s) evs c) : c.Started prog Admitted :=
  hr.inv (I := fun _ c => c.Started prog Admitted) (Pool.started_idle prog Admitted s)
    fun _ _ _ _ hc hs => hc.step hs

end Pool

section Effect
variable {κ K ε ρ σ : Type} {C : K → Type} {R : (k : K) → C k → Type}

/-- The call that the event completes, and its result. -/
def PoolEvent.commit? (h : (k : K) → Handler (C k) (R k) σ) :
    PoolEvent ε κ C R ρ σ → Option (K × ρ)
  | .command _ k _ c next s =>
    match next (h k c s).1 with
    | .ret a => some (k, a)
    | .call _ _ => none
  | _ => none

/-- The context whose call the event completes, the call, and its result. -/
def PoolEvent.completes? (h : (k : K) → Handler (C k) (R k) σ) :
    PoolEvent ε κ C R ρ σ → Option (κ × K × ρ)
  | .command i k _ c next s =>
    match next (h k c s).1 with
    | .ret a => some (i, k, a)
    | .call _ _ => none
  | _ => none

/-- A call that the event completes does what the whole call would do now. -/
def PoolEvent.Fresh (h : (k : K) → Handler (C k) (R k) σ)
    (prog : (k : K) → Prog (C k) (R k) ρ) : PoolEvent ε κ C R ρ σ → Prop
  | .command _ k _ c next s =>
    ∀ a, next (h k c s).1 = .ret a → (prog k).run (h k) s = (a, (h k c s).2)
  | _ => True

/-- What an event does where a call acts as a whole when it completes. -/
def PoolEvent.effect (h : (k : K) → Handler (C k) (R k) σ) (prog : (k : K) → Prog (C k) (R k) ρ)
    (env : ε → σ → σ) (s : σ) : PoolEvent ε κ C R ρ σ → σ
  | .surroundings e => env e s
  | .command _ k _ c next s' =>
    match next (h k c s').1 with
    | .ret _ => ((prog k).run (h k) s).2
    | .call _ _ => s
  | _ => s

variable [DecidableEq κ] {h : (k : K) → Handler (C k) (R k) σ}
  {prog : (k : K) → Prog (C k) (R k) ρ} {env : ε → σ → σ} {Admitted : κ → K → Prop} {s0 : σ}
  {evs : List (PoolEvent ε κ C R ρ σ)} {c c' : Pool κ C R ρ σ}

theorem PoolEvent.effect_step (hw : ∀ i k, Admitted i k → WritesLast (h k) (prog k))
    (hc : c.Started prog Admitted) {e : PoolEvent ε κ C R ρ σ}
    (hs : PoolStep h prog env Admitted c e c') (hf : e.Fresh h prog) :
    c'.state = e.effect h prog env c.state := by
  cases hs with
  | surroundings s run e => rfl
  | start s run i k hi hk => rfl
  | finish s run i k seen a hi => rfl
  | command s run i k seen cmd next hi =>
    obtain ⟨hk, hr⟩ := hc i _ hi
    cases hnext : next (h k cmd s).1 with
    | ret a =>
      rw [effect, hnext, hf a hnext]
    | call d next' =>
      rw [effect, hnext]
      exact (hw i k hk).state_of_call hr hnext

/-- Calls that are as they would be as a whole when they complete, make the state what it would be
if they acted only then. -/
theorem Pool.state_eq_foldl_effect (hw : ∀ i k, Admitted i k → WritesLast (h k) (prog k))
    (hr : Run (PoolStep h prog env Admitted) (Pool.idle s0) evs c)
    (hf : ∀ e ∈ evs, e.Fresh h prog) : c.state = evs.foldl (PoolEvent.effect h prog env) s0 := by
  have hinv : c.Started prog Admitted ∧
      ((∀ e ∈ evs, e.Fresh h prog) → c.state = evs.foldl (PoolEvent.effect h prog env) s0) := by
    refine hr.inv (I := fun (evs : List (PoolEvent ε κ C R ρ σ)) (c : Pool κ C R ρ σ) =>
      c.Started prog Admitted ∧
        ((∀ e ∈ evs, e.Fresh h prog) → c.state = evs.foldl (PoolEvent.effect h prog env) s0))
      ⟨Pool.started_idle prog Admitted s0, fun _ => rfl⟩ ?_
    rintro evs t e u ⟨hstarted, hstate⟩ hstep
    refine ⟨hstarted.step hstep, fun hall => ?_⟩
    rw [List.forall_mem_append, List.forall_mem_singleton] at hall
    rw [List.foldl_append, ← hstate hall.1]
    exact PoolEvent.effect_step hw hstarted hstep hall.2
  exact hinv.2 hf

end Effect

section Serial
variable {κ K ρ σ : Type} {C : K → Type} {R : (k : K) → C k → Type}

/-- Running the calls one after the other, as they complete, gives the same results and state. -/
def Serial (h : (k : K) → Handler (C k) (R k) σ) (prog : (k : K) → Prog (C k) (R k) ρ) (s0 : σ)
    (evs : List (PoolEvent Empty κ C R ρ σ)) (s : σ) : Prop :=
  execute (fun k s => (prog k).run (h k) s) ((evs.filterMap (PoolEvent.commit? h)).map Prod.fst)
    s0 = ((evs.filterMap (PoolEvent.commit? h)).map Prod.snd, s)

variable {h : (k : K) → Handler (C k) (R k) σ} {prog : (k : K) → Prog (C k) (R k) ρ}
  {env : Empty → σ → σ} {Admitted : κ → K → Prop} {s0 : σ}
  {evs : List (PoolEvent Empty κ C R ρ σ)} {c c' : Pool κ C R ρ σ}

theorem serial_snoc_of_none {e : PoolEvent Empty κ C R ρ σ} (he : e.commit? h = none) :
    Serial h prog s0 (evs ++ [e]) s ↔ Serial h prog s0 evs s := by
  rw [Serial, Serial, List.filterMap_append, List.filterMap_cons_none he, List.filterMap_nil,
    List.append_nil]

theorem serial_snoc_of_some {e : PoolEvent Empty κ C R ρ σ} (he : e.commit? h = some (k, a))
    (hs : Serial h prog s0 evs s) :
    Serial h prog s0 (evs ++ [e]) s' ↔ (prog k).run (h k) s = (a, s') := by
  rw [Serial] at hs
  rw [Serial, List.filterMap_append, List.filterMap_cons_some he, List.filterMap_nil,
    List.map_append, List.map_append, execute_append, hs, Prod.mk.injEq, List.append_cancel_left_eq,
    Prod.ext_iff]
  simp only [execute, List.map_cons, List.map_nil, List.cons.injEq, and_true]

variable [DecidableEq κ]

theorem serial_step_iff (hw : ∀ i k, Admitted i k → WritesLast (h k) (prog k))
    (hc : c.Started prog Admitted) (hserial : Serial h prog s0 evs c.state)
    {e : PoolEvent Empty κ C R ρ σ} (hs : PoolStep h prog env Admitted c e c') :
    Serial h prog s0 (evs ++ [e]) c'.state ↔ e.Fresh h prog := by
  cases hs with
  | surroundings s run e => exact e.elim
  | start s run i k hi hk => exact iff_of_true ((serial_snoc_of_none rfl).mpr hserial) trivial
  | finish s run i k seen a hi =>
    exact iff_of_true ((serial_snoc_of_none rfl).mpr hserial) trivial
  | command s run i k seen cmd next hi =>
    obtain ⟨hk, hr⟩ := hc i _ hi
    cases hnext : next (h k cmd s).1 with
    | ret a =>
      have hcommit : (PoolEvent.command i k seen cmd next s :
          PoolEvent Empty κ C R ρ σ).commit? h = some (k, a) := by
        rw [PoolEvent.commit?, hnext]
      rw [serial_snoc_of_some hcommit hserial, PoolEvent.Fresh]
      constructor
      · intro h1 b hb
        cases hnext.symm.trans hb
        exact h1
      · intro h1
        exact h1 a hnext
    | call d next' =>
      have hcommit : (PoolEvent.command i k seen cmd next s :
          PoolEvent Empty κ C R ρ σ).commit? h = none := by
        rw [PoolEvent.commit?, hnext]
      have hstate : (h k cmd s).2 = s := (hw i k hk).state_of_call hr hnext
      rw [serial_snoc_of_none hcommit, hstate]
      exact iff_of_true hserial fun a ha => nomatch hnext.symm.trans ha

/-- A run is a serial one, call by call as they complete, exactly when every call that completes
does what the whole of it would do at that moment. -/
theorem serial_iff (hw : ∀ i k, Admitted i k → WritesLast (h k) (prog k))
    (hr : Run (PoolStep h prog env Admitted) (Pool.idle s0) evs c) :
    (∀ pre post u, evs = pre ++ post →
      Run (PoolStep h prog env Admitted) (Pool.idle s0) pre u → Serial h prog s0 pre u.state) ↔
    ∀ e ∈ evs, e.Fresh h prog := by
  constructor
  · intro hall e he
    obtain ⟨pre, post, hsplit⟩ := List.append_of_mem he
    have hsplit' : evs = (pre ++ [e]) ++ post := by
      rw [hsplit, List.append_assoc, List.singleton_append]
    rw [hsplit'] at hr
    obtain ⟨u', hpre, _⟩ := hr.append_inv
    obtain ⟨u, hu, hstep⟩ := hpre.snoc_inv
    have hserial := hall pre (e :: post) u hsplit hu
    have hserial' := hall (pre ++ [e]) post u' hsplit' hpre
    exact (serial_step_iff hw (.run hu) hserial hstep).mp hserial'
  · intro hfresh pre post u hsplit hu
    have hpre : ∀ e ∈ pre, e.Fresh h prog := by
      intro e he
      apply hfresh e
      rw [hsplit]
      exact List.mem_append_left post he
    have hinv : u.Started prog Admitted ∧
        ((∀ e ∈ pre, e.Fresh h prog) → Serial h prog s0 pre u.state) := by
      refine hu.inv (I := fun (evs : List (PoolEvent Empty κ C R ρ σ)) (c : Pool κ C R ρ σ) =>
        c.Started prog Admitted ∧ ((∀ e ∈ evs, e.Fresh h prog) → Serial h prog s0 evs c.state))
        ⟨Pool.started_idle prog Admitted s0, fun _ => rfl⟩ ?_
      rintro evs v e w ⟨hstarted, hserial⟩ hstep
      refine ⟨hstarted.step hstep, fun hall => ?_⟩
      rw [List.forall_mem_append, List.forall_mem_singleton] at hall
      exact (serial_step_iff hw hstarted (hserial hall.1) hstep).mpr hall.2
    exact hinv.2 hpre

theorem Serial.of_fresh (hw : ∀ i k, Admitted i k → WritesLast (h k) (prog k))
    (hr : Run (PoolStep h prog env Admitted) (Pool.idle s0) evs c)
    (hf : ∀ e ∈ evs, e.Fresh h prog) : Serial h prog s0 evs c.state :=
  (serial_iff hw hr).mpr hf evs [] c (List.append_nil evs).symm hr

end Serial

section Simulation
variable {κ K ε ρ σ τ : Type} {C : K → Type} {R : (k : K) → C k → Type} [DecidableEq κ]
  {h : (k : K) → Handler (C k) (R k) σ} {h' : (k : K) → Handler (C k) (R k) τ}
  {prog : (k : K) → Prog (C k) (R k) ρ} {env : ε → σ → σ} {env' : ε → τ → τ}
  {Admitted : κ → K → Prop} {X : (κ → Option (Running C R ρ)) → Prop} {Q : σ → τ → Prop} {s0 : σ}
  {evs : List (PoolEvent ε κ C R ρ σ)} {c c' : Pool κ C R ρ σ} {d : Pool κ C R ρ τ}

end Simulation

section Separate
variable {κ K ρ σ : Type} {C : K → Type} {R : (k : K) → C k → Type} {τ : κ → Type}

/-- The commands of a context act on its own part of the state, and on no other part. -/
structure Separates (h : (k : K) → Handler (C k) (R k) σ) (Own : κ → (k : K) → C k → Prop)
    (view : (i : κ) → σ → τ i) (g : (i : κ) → (k : K) → Handler (C k) (R k) (τ i)) : Prop where
  response : ∀ i k c s, Own i k c → (h k c s).1 = (g i k c (view i s)).1
  own : ∀ i k c s, Own i k c → view i (h k c s).2 = (g i k c (view i s)).2
  other : ∀ i k c s j, Own i k c → j ≠ i → view j (h k c s).2 = view j s

/-- What a context is doing ends as if it had started in `s` and been left alone. -/
def Pool.Continues (prog : (k : K) → Prog (C k) (R k) ρ)
    (g : (i : κ) → (k : K) → Handler (C k) (R k) (τ i)) (view : (i : κ) → σ → τ i)
    (c : Pool κ C R ρ σ) (i : κ) (s : τ i) : Prop :=
  match c.running i with
  | none => view i c.state = s
  | some x => x.rest.run (g i x.key) (view i c.state) = (prog x.key).run (g i x.key) s

variable {h : (k : K) → Handler (C k) (R k) σ} {prog : (k : K) → Prog (C k) (R k) ρ}
  {env : Empty → σ → σ} {Admitted : κ → K → Prop} {Own : κ → (k : K) → C k → Prop}
  {view : (i : κ) → σ → τ i} {g : (i : κ) → (k : K) → Handler (C k) (R k) (τ i)} {s0 : σ}
  {evs : List (PoolEvent Empty κ C R ρ σ)} {c c' : Pool κ C R ρ σ}

theorem Pool.Continues.congr {run run' : κ → Option (Running C R ρ)} {s s' : σ} {t : τ i}
    (hc : (⟨s, run⟩ : Pool κ C R ρ σ).Continues prog g view i t) (hrun : run' i = run i)
    (hview : view i s' = view i s) : (⟨s', run'⟩ : Pool κ C R ρ σ).Continues prog g view i t := by
  rw [Continues] at hc ⊢
  simp only [hrun, hview]
  exact hc

variable [DecidableEq κ]

/-- The call of the context that the event ends, and its result. -/
def PoolEvent.finished? (i : κ) : PoolEvent Empty κ C R ρ σ → Option (K × ρ)
  | .finish j k a => if j = i then some (k, a) else none
  | _ => none

/-- The call of every event that ends one was an admitted one. -/
theorem Pool.finished_admitted (hr : Run (PoolStep h prog env Admitted) (Pool.idle s0) evs c)
    (hx : x ∈ evs.filterMap (PoolEvent.finished? i)) : Admitted i x.1 := by
  obtain ⟨e, he, hfin⟩ := List.mem_filterMap.mp hx
  cases e with
  | finish j k a =>
    obtain ⟨_, t, _, ht, hstep⟩ := hr.exists_reached_step he
    have hadmitted : Admitted j k := by
      cases hstep with
      | finish s run _ _ seen _ hj => exact (Pool.Started.run ht j _ hj).1
    by_cases hji : j = i
    · rw [PoolEvent.finished?, if_pos hji] at hfin
      cases hfin
      rw [← hji]
      exact hadmitted
    · rw [PoolEvent.finished?, if_neg hji] at hfin
      cases hfin
  | surroundings e => exact e.elim
  | start j k => cases hfin
  | command j k seen cmd next s => cases hfin

/-- The context has done what it would do alone, call after call. -/
def Pool.ActsAlone (prog : (k : K) → Prog (C k) (R k) ρ)
    (g : (i : κ) → (k : K) → Handler (C k) (R k) (τ i)) (view : (i : κ) → σ → τ i) (s0 : σ)
    (evs : List (PoolEvent Empty κ C R ρ σ)) (c : Pool κ C R ρ σ) (i : κ) : Prop :=
  ∃ s, execute (fun k s => (prog k).run (g i k) s)
      ((evs.filterMap (PoolEvent.finished? i)).map Prod.fst) (view i s0) =
        ((evs.filterMap (PoolEvent.finished? i)).map Prod.snd, s) ∧
    c.Continues prog g view i s

theorem Pool.ActsAlone.snoc_of_none {e : PoolEvent Empty κ C R ρ σ}
    (hc : c.ActsAlone prog g view s0 evs i) (he : e.finished? i = none)
    (hstep : ∀ s, c.Continues prog g view i s → c'.Continues prog g view i s) :
    c'.ActsAlone prog g view s0 (evs ++ [e]) i := by
  obtain ⟨s, hrun, hcont⟩ := hc
  refine ⟨s, ?_, hstep s hcont⟩
  rw [List.filterMap_append, List.filterMap_cons_none he, List.filterMap_nil, List.append_nil]
  exact hrun

theorem Pool.ActsAlone.step (hsep : Separates h Own view g)
    (hown : ∀ i k, Admitted i k → (prog k).Only (Own i k)) (hstarted : c.Started prog Admitted)
    (hc : c.ActsAlone prog g view s0 evs i) {e : PoolEvent Empty κ C R ρ σ}
    (hs : PoolStep h prog env Admitted c e c') :
    c'.ActsAlone prog g view s0 (evs ++ [e]) i := by
  cases hs with
  | surroundings s run e => exact e.elim
  | start s run j k hj hk =>
    refine hc.snoc_of_none rfl fun t ht => ?_
    by_cases hij : i = j
    · subst hij
      rw [Continues] at ht ⊢
      simp only [hj] at ht
      simp only [Function.update_self]
      rw [ht]
    · exact ht.congr (Function.update_of_ne hij _ _) rfl
  | command s run j k seen cmd next hj =>
    obtain ⟨hk, hr⟩ := hstarted j _ hj
    have hcmd : Own j k cmd := by
      cases (hown j k hk).residual hr with
      | call hcmd _ => exact hcmd
    refine hc.snoc_of_none rfl fun t ht => ?_
    by_cases hij : i = j
    · subst hij
      rw [Continues] at ht ⊢
      simp only [hj, Prog.run_call] at ht
      simp only [Function.update_self]
      rw [hsep.own i k cmd s hcmd, hsep.response i k cmd s hcmd]
      exact ht
    · exact ht.congr (Function.update_of_ne hij _ _) (hsep.other j k cmd s i hcmd hij)
  | finish s run j k seen a hj =>
    by_cases hij : i = j
    · subst hij
      obtain ⟨t, hrun, hcont⟩ := hc
      rw [Continues] at hcont
      simp only [hj] at hcont
      refine ⟨view i s, ?_, ?_⟩
      · have hfin : (PoolEvent.finish i k a : PoolEvent Empty κ C R ρ σ).finished? i =
            some (k, a) := if_pos rfl
        rw [List.filterMap_append, List.filterMap_cons_some hfin, List.filterMap_nil,
          List.map_append, List.map_append, execute_append, hrun]
        simp only [execute, List.map_cons, List.map_nil, ← hcont]
        rfl
      · rw [Continues]
        simp only [Function.update_self]
    · refine hc.snoc_of_none (if_neg (Ne.symm hij)) fun t ht => ?_
      exact ht.congr (Function.update_of_ne hij _ _) rfl

/-- Contexts that each have a part of the state to themselves act as if they were alone. -/
theorem Separates.acts_alone (hsep : Separates h Own view g)
    (hown : ∀ i k, Admitted i k → (prog k).Only (Own i k))
    (hr : Run (PoolStep h prog env Admitted) (Pool.idle s0) evs c) (i : κ) :
    c.ActsAlone prog g view s0 evs i := by
  have hinv : c.Started prog Admitted ∧ c.ActsAlone prog g view s0 evs i := by
    refine hr.inv (I := fun (evs : List (PoolEvent Empty κ C R ρ σ)) (c : Pool κ C R ρ σ) =>
      c.Started prog Admitted ∧ c.ActsAlone prog g view s0 evs i)
      ⟨Pool.started_idle prog Admitted s0, view i s0, rfl, rfl⟩ ?_
    rintro evs t e u ⟨hstarted, hc⟩ hstep
    exact ⟨hstarted.step hstep, hc.step hsep hown hstarted hstep⟩
  exact hinv.2

end Separate

end Effects
