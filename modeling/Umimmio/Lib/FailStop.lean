import Umimmio.Lib.Partial

namespace Effects
set_option autoImplicit true

variable {C D : Type} {R : C → Type} {S : D → Type} {α β σ τ υ : Type}

namespace Prog

/-- Only quiet commands come before one that halts the program. -/
inductive Halting (Quiet Halts : C → Prop) : Prog C R α → Prop
  | halt (hc : Halts c) : Halting Quiet Halts (.call c next)
  | quiet (hc : Quiet c) (hn : ∀ x, Halting Quiet Halts (next x)) :
      Halting Quiet Halts (.call c next)

/-- After a bad response the program goes on to halt. -/
inductive FailStop (Bad : (c : C) → R c → Prop) (Quiet Halts : C → Prop) : Prog C R α → Prop
  | ret (a : α) : FailStop Bad Quiet Halts (.ret a)
  | call (hb : ∀ x, Bad c x → (next x).Halting Quiet Halts)
      (hn : ∀ x, FailStop Bad Quiet Halts (next x)) : FailStop Bad Quiet Halts (.call c next)

variable {Bad : (c : C) → R c → Prop} {Quiet Halts : C → Prop}

theorem Halting.bind {p : Prog C R α} (hp : p.Halting Quiet Halts) (f : α → Prog C R β) :
    (p >>= f).Halting Quiet Halts := by
  induction hp with
  | halt hc => exact .halt hc
  | quiet hc _ ih => exact .quiet hc ih

theorem FailStop.bind {p : Prog C R α} {f : α → Prog C R β} (hp : p.FailStop Bad Quiet Halts)
    (hf : ∀ a, (f a).FailStop Bad Quiet Halts) : (p >>= f).FailStop Bad Quiet Halts := by
  induction hp with
  | ret a => exact hf a
  | call hb _ ih => exact .call (fun x hx => (hb x hx).bind f) ih

theorem FailStop.command_bind {f : R c → Prog C R β}
    (hb : ∀ x, Bad c x → (f x).Halting Quiet Halts) (hf : ∀ x, (f x).FailStop Bad Quiet Halts) :
    (Prog.call c .ret >>= f).FailStop Bad Quiet Halts :=
  .call hb hf

theorem FailStop.map {p : Prog C R α} (f : α → β) (hp : p.FailStop Bad Quiet Halts) :
    (f <$> p).FailStop Bad Quiet Halts := by
  rw [map_eq_pure_bind]
  exact hp.bind fun a => .ret (f a)

/-- A program none of whose commands can fail. -/
theorem Only.failStop {P : C → Prop} {p : Prog C R α} (hp : p.Only P)
    (hP : ∀ c x, P c → ¬ Bad c x) : p.FailStop Bad Quiet Halts := by
  induction hp with
  | ret a => exact .ret a
  | call hc _ ih => exact .call (fun x hx => absurd hx (hP _ x hc)) ih

theorem FailStop.translate {Bad : (d : D) → S d → Prop} {Quiet Halts : D → Prop}
    {T : (c : C) → τ → Prog D S (R c × τ)} (hT : ∀ c t, (T c t).FailStop Bad Quiet Halts)
    (p : Prog C R α) (t : τ) : (p.translate T t).FailStop Bad Quiet Halts := by
  induction p generalizing t with
  | ret a => exact .ret (a, t)
  | call c next ih => exact (hT c t).bind fun x => ih x.1 x.2

section Halted

variable {h : PartialHandler C R σ}

theorem Halting.outcome {p : Prog C R α} (hp : p.Halting Quiet Halts)
    (hh : ∀ c s, Halts c → h c s = none) (s : σ) : p.outcome h s = none := by
  induction hp generalizing s with
  | halt hc => rw [outcome_call, hh _ s hc, Option.bind_none]
  | @quiet c next hc _ ih =>
    rw [outcome_call]
    cases h c s with
    | none => rfl
    | some x => exact ih x.1 x.2

theorem Halting.events {p : Prog C R α} (hp : p.Halting Quiet Halts)
    (hh : ∀ c s, Halts c → h c s = none) (hq : ∀ c s, Quiet c → (h c s).isSome) (s : σ) :
    ∃ quiet c, p.events h s = quiet ++ [⟨c, none⟩] ∧ (∀ e ∈ quiet, Quiet e.1) ∧ Halts c := by
  induction hp generalizing s with
  | @halt c next hc =>
    refine ⟨[], c, ?_, nofun, hc⟩
    rw [events_call, hh c s hc]
    rfl
  | @quiet c next hc _ ih =>
    obtain ⟨x, hx⟩ := Option.isSome_iff_exists.mp (hq c s hc)
    obtain ⟨quiet, c', hevents, hquiet, hhalts⟩ := ih x.1 x.2
    refine ⟨⟨c, some x.1⟩ :: quiet, c', ?_, List.forall_mem_cons.mpr ⟨hc, hquiet⟩, hhalts⟩
    rw [events_call, hx]
    exact congrArg (List.cons _) hevents

/-- Nothing but quiet commands and the one that halts comes after a bad response. -/
theorem FailStop.after {p : Prog C R α} (hp : p.FailStop Bad Quiet Halts)
    (hh : ∀ c s, Halts c → h c s = none) (hq : ∀ c s, Quiet c → (h c s).isSome) {s : σ}
    {pre post : List ((c : C) × Option (R c))} {c : C} {x : R c}
    (he : p.events h s = pre ++ ⟨c, some x⟩ :: post) (hb : Bad c x) :
    p.outcome h s = none ∧
      ∃ quiet c', post = quiet ++ [⟨c', none⟩] ∧ (∀ e ∈ quiet, Quiet e.1) ∧ Halts c' := by
  induction hp generalizing s pre with
  | ret a =>
    have hlen := congrArg List.length he
    rw [List.length_append, List.length_cons] at hlen
    cases hlen
  | @call c' next hbad _ ih =>
    rw [events_call] at he
    rw [outcome_call]
    cases hx : h c' s with
    | none =>
      rw [hx] at he
      cases pre with
      | nil => cases he
      | cons e pre =>
        have hnil := (List.cons.inj he).2
        cases pre <;> cases hnil
    | some y =>
      rw [hx] at he
      cases pre with
      | nil =>
        obtain ⟨hhead, htail⟩ := List.cons.inj he
        cases hhead
        have hhalt := hbad _ hb
        obtain ⟨quiet, c, hevents, hquiet, hhalts⟩ := hhalt.events hh hq y.2
        exact ⟨hhalt.outcome hh _, quiet, c, htail.symm.trans hevents, hquiet, hhalts⟩
      | cons e pre => exact ih y.1 (List.cons.inj he).2

/-- A run that returns has seen no bad response: it went as it goes where nothing fails. -/
theorem FailStop.outcome_sim {k : Handler C R τ} {Q : σ → τ → Prop} {p : Prog C R α}
    (hp : p.FailStop Bad Quiet Halts) (hh : ∀ c s, Halts c → h c s = none)
    (hQ : ∀ c s t x, Q s t → h c s = some x → ¬ Bad c x.1 → x.1 = (k c t).1 ∧ Q x.2 (k c t).2)
    {s : σ} {t : τ} (hs : Q s t) {y : α × σ} (hy : p.outcome h s = some y) :
    y.1 = (p.run k t).1 ∧ Q y.2 (p.run k t).2 := by
  induction hp generalizing s t with
  | ret a =>
    cases hy
    exact ⟨rfl, hs⟩
  | @call c next hbad _ ih =>
    rw [outcome_call] at hy
    cases hx : h c s with
    | none =>
      rw [hx] at hy
      cases hy
    | some x =>
      rw [hx, Option.bind_some] at hy
      have hgood : ¬ Bad c x.1 := by
        intro hb
        rw [(hbad x.1 hb).outcome hh] at hy
        cases hy
      obtain ⟨hvalue, hnext⟩ := hQ c s t x hs hx hgood
      rw [run_call, ← hvalue]
      exact ih x.1 hnext hy

end Halted

end Prog

/-- The commands that leave a good state return. -/
def Handler.within (Good : σ → Prop) [DecidablePred Good] (h : Handler C R σ) :
    PartialHandler C R σ :=
  fun c s => if Good (h c s).2 then some (h c s) else none

namespace Prog

/-- Where no command makes a bad state good again, a run that ends in a good state is one that
returns where bad states do not. -/
theorem outcome_within (Good : σ → Prop) [DecidablePred Good] {h : Handler C R σ}
    (hgood : ∀ c s, Good (h c s).2 → Good s) (p : Prog C R α) {s : σ} (hs : Good s) :
    p.outcome (h.within Good) s = if Good (p.run h s).2 then some (p.run h s) else none := by
  induction p generalizing s with
  | ret a => exact (if_pos hs).symm
  | call c next ih =>
    rw [outcome_call, run_call, Handler.within]
    by_cases hc : Good (h c s).2
    · rw [if_pos hc, Option.bind_some]
      exact ih _ hc
    · have hbad : ¬ Good ((next (h c s).1).run h (h c s).2).2 :=
        run_inv (I := fun s => ¬ Good s) (fun c s hn hg => hn (hgood c s hg)) _ hc
      rw [if_neg hc, Option.bind_none, if_neg hbad]

/-- A state that is seen through a map. -/
theorem outcome_mapState {h : PartialHandler C R σ} {k : PartialHandler C R υ} (f : σ → υ)
    (hk : ∀ c s, k c (f s) = (h c s).map fun x => (x.1, f x.2)) (p : Prog C R α) (s : σ) :
    p.outcome k (f s) = (p.outcome h s).map fun x => (x.1, f x.2) := by
  induction p generalizing s with
  | ret a => rfl
  | call c next ih =>
    rw [outcome_call, outcome_call, hk]
    cases h c s with
    | none => rfl
    | some x => exact ih x.1 x.2

end Prog

end Effects
