import Umimmio.Lib.FailStop
import Umimmio.Lib.Pool

namespace Effects
set_option autoImplicit true

variable {C D : Type} {R : C → Type} {S : D → Type} {α β σ τ υ ω : Type}

namespace Prog

/-- The states of a run, from the one it starts in to the one it ends in. -/
def visits (h : Handler C R σ) : Prog C R α → σ → List σ
  | .ret _, s => [s]
  | .call c next, s => s :: (next (h c s).1).visits h (h c s).2

/-- The state in which a run ends, at its return or at a command that does not return. -/
def reached (h : PartialHandler C R σ) : Prog C R α → σ → σ
  | .ret _, s => s
  | .call c next, s => (h c s).elim s fun x => (next x.1).reached h x.2

theorem reached_call {h : PartialHandler C R σ} (c : C) (next : R c → Prog C R α) (s : σ) :
    (Prog.call c next).reached h s = (h c s).elim s fun x => (next x.1).reached h x.2 :=
  rfl

section Reached

variable {h : PartialHandler C R σ}

theorem reached_bind_congr (p : Prog C R α) {f : α → Prog C R β} {g : α → Prog C R ω}
    (hfg : ∀ a s, (f a).reached h s = (g a).reached h s) (s : σ) :
    (p >>= f).reached h s = (p >>= g).reached h s := by
  induction p generalizing s with
  | ret a => exact hfg a s
  | call c next ih =>
    rw [call_bind, call_bind, reached_call, reached_call]
    cases h c s with
    | none => rfl
    | some x => exact ih _ _

theorem reached_map (p : Prog C R α) (f : α → β) (s : σ) :
    (f <$> p).reached h s = p.reached h s := by
  rw [map_eq_pure_bind]
  refine (reached_bind_congr p (f := pure ∘ f) (g := pure) (fun _ _ => rfl) s).trans ?_
  rw [bind_pure]

end Reached

section Visits

variable {h : Handler C R σ}

theorem visits_call (c : C) (next : R c → Prog C R α) (s : σ) :
    (Prog.call c next).visits h s = s :: (next (h c s).1).visits h (h c s).2 :=
  rfl

theorem mem_visits_start (p : Prog C R α) (s : σ) : s ∈ p.visits h s := by
  cases p with
  | ret a => exact List.mem_singleton_self s
  | call c next => exact List.mem_cons_self

theorem mem_visits_end (p : Prog C R α) (s : σ) : (p.run h s).2 ∈ p.visits h s := by
  induction p generalizing s with
  | ret a => exact List.mem_singleton_self s
  | call c next ih => exact List.mem_cons_of_mem _ (ih _ _)

theorem mem_visits_bind (p : Prog C R α) (f : α → Prog C R β) (s : σ) :
    u ∈ (p >>= f).visits h s ↔
      u ∈ p.visits h s ∨ u ∈ (f (p.run h s).1).visits h (p.run h s).2 := by
  induction p generalizing s with
  | ret a =>
    refine ⟨.inr, fun hu => hu.elim (fun hu => ?_) id⟩
    obtain rfl := List.mem_singleton.mp hu
    exact mem_visits_start _ u
  | call c next ih => rw [call_bind, visits_call, visits_call, List.mem_cons, List.mem_cons, ih,
      run_call, or_assoc]

theorem mem_visits_map (p : Prog C R α) (f : α → β) (s : σ) :
    u ∈ (f <$> p).visits h s ↔ u ∈ p.visits h s := by
  rw [map_eq_pure_bind, mem_visits_bind]
  refine ⟨fun hu => hu.elim id fun hu => ?_, .inl⟩
  obtain rfl := List.mem_singleton.mp hu
  exact mem_visits_end p s

/-- A program that issues only some commands visits only states that these commands keep. -/
theorem Only.visits_inv {P : C → Prop} {I : σ → Prop} {p : Prog C R α} (hp : p.Only P)
    (hI : ∀ c s, P c → I s → I (h c s).2) (hs : I s) : ∀ u ∈ p.visits h s, I u := by
  induction hp generalizing s with
  | ret a =>
    intro u hu
    obtain rfl := List.mem_singleton.mp hu
    exact hs
  | call hc _ ih =>
    intro u hu
    rcases List.mem_cons.mp hu with rfl | hu
    · exact hs
    · exact ih _ (hI _ s hc hs) u hu

end Visits

/-- At most one command is not among those that keep what is seen of the state. -/
inductive ChangesOnce (P : C → Prop) : Prog C R α → Prop
  | ret (a : α) : ChangesOnce P (.ret a)
  | keeps (hc : P c) (hn : ∀ x, ChangesOnce P (next x)) : ChangesOnce P (.call c next)
  | changes {c : C} {next : R c → Prog C R α} (hn : ∀ x, (next x).Only P) :
      ChangesOnce P (.call c next)

section ChangesOnce

variable {P : C → Prop}

theorem Only.changesOnce {p : Prog C R α} (hp : p.Only P) : p.ChangesOnce P := by
  induction hp with
  | ret a => exact .ret a
  | call hc _ ih => exact .keeps hc ih

theorem ChangesOnce.command (c : C) : (Prog.call c .ret : Prog C R (R c)).ChangesOnce P :=
  .changes fun x => .ret x

theorem Only.bind_changesOnce {p : Prog C R α} {f : α → Prog C R β} (hp : p.Only P)
    (hf : ∀ a, (f a).ChangesOnce P) : (p >>= f).ChangesOnce P := by
  induction hp with
  | ret a => exact hf a
  | call hc _ ih => exact .keeps hc ih

theorem ChangesOnce.bind {p : Prog C R α} {f : α → Prog C R β} (hp : p.ChangesOnce P)
    (hf : ∀ a, (f a).Only P) : (p >>= f).ChangesOnce P := by
  induction hp with
  | ret a => exact (hf a).changesOnce
  | keeps hc _ ih => exact .keeps hc ih
  | changes hn => exact .changes fun x => (hn x).bind hf

theorem ChangesOnce.map {p : Prog C R α} (f : α → β) (hp : p.ChangesOnce P) :
    (f <$> p).ChangesOnce P := by
  rw [map_eq_pure_bind]
  exact hp.bind fun a => .ret (f a)

/-- What is seen of the state is always as at the start or as at the end of the run. -/
theorem ChangesOnce.visits {h : Handler C R σ} {p : Prog C R α} (hp : p.ChangesOnce P)
    (view : σ → ω) (hP : ∀ c s, P c → view (h c s).2 = view s) (s : σ) :
    ∀ u ∈ p.visits h s, view u = view s ∨ view u = view (p.run h s).2 := by
  induction hp generalizing s with
  | ret a =>
    intro u hu
    obtain rfl := List.mem_singleton.mp hu
    exact .inl rfl
  | @keeps c next hc _ ih =>
    intro u hu
    rcases List.mem_cons.mp hu with rfl | hu
    · exact .inl rfl
    · rw [run_call, ← hP c s hc]
      exact ih _ _ u hu
  | @changes c next hn =>
    intro u hu
    rcases List.mem_cons.mp hu with rfl | hu
    · exact .inl rfl
    · have hI : ∀ c' t, P c' → view t = view (h c s).2 → view (h c' t).2 = view (h c s).2 :=
        fun c' t hc' ht => (hP c' t hc').trans ht
      have hmid := (hn (h c s).1).visits_inv (h := h) hI rfl u hu
      have hend := (hn (h c s).1).run_inv (h := h) hI rfl
      rw [run_call]
      exact .inr (hmid.trans hend.symm)

end ChangesOnce

/-- A translated program visits states of what the translated commands leave, each of them as it
was before a command or as it is after it. -/
theorem visits_translate {h : Handler D S σ} {k : Handler C R υ}
    {T : (c : C) → τ → Prog D S (R c × τ)} {Q : τ × σ → υ → Prop} {W : σ → υ → Prop}
    (hW : ∀ t s u, Q (t, s) u → W s u)
    (hT : ∀ c t s u, Q (t, s) u → let x := (T c t).run h s
      x.1.1 = (k c u).1 ∧ Q (x.1.2, x.2) (k c u).2 ∧
        ∀ s' ∈ (T c t).visits h s, W s' u ∨ W s' (k c u).2)
    (p : Prog C R α) {t : τ} {s : σ} {u : υ} (hs : Q (t, s) u) :
    ∀ s' ∈ (p.translate T t).visits h s, ∃ u' ∈ p.visits k u, W s' u' := by
  induction p generalizing t s u with
  | ret a =>
    intro s' hs'
    obtain rfl := List.mem_singleton.mp hs'
    exact ⟨u, mem_visits_start _ u, hW t _ u hs⟩
  | call c next ih =>
    intro s' hs'
    obtain ⟨hvalue, hnext, hvisits⟩ := hT c t s u hs
    rw [translate_call, mem_visits_bind] at hs'
    rw [visits_call]
    rcases hs' with hs' | hs'
    · rcases hvisits s' hs' with hw | hw
      · exact ⟨u, List.mem_cons_self, hw⟩
      · exact ⟨_, List.mem_cons_of_mem _ (mem_visits_start _ _), hw⟩
    · rw [hvalue] at hs'
      obtain ⟨u', hu', hw⟩ := ih _ hnext s' hs'
      exact ⟨u', List.mem_cons_of_mem _ hu', hw⟩

section Halted

variable {h : PartialHandler C R σ} {k : Handler C R τ} {Q : σ → τ → Prop}
  {Bad : (c : C) → R c → Prop} {Quiet Halts : C → Prop}

theorem Halting.reached {p : Prog C R α} (hp : p.Halting Quiet Halts) {I : σ → Prop}
    (hh : ∀ c s, Halts c → h c s = none)
    (hq : ∀ c s x, Quiet c → I s → h c s = some x → I x.2) (hs : I s) : I (p.reached h s) := by
  induction hp generalizing s with
  | halt hc =>
    rw [reached_call, hh _ s hc]
    exact hs
  | @quiet c next hc _ ih =>
    rw [reached_call]
    cases hx : h c s with
    | none => exact hs
    | some x => exact ih x.1 (hq c s x hc hs hx)

/-- Wherever such a program is stopped, it is in a state that a run where nothing fails visits, as
long as a command with a bad response did either nothing or what it should. -/
theorem FailStop.reached {p : Prog C R α} (hp : p.FailStop Bad Quiet Halts)
    (hh : ∀ c s, Halts c → h c s = none)
    (hgood : ∀ c s t x, Q s t → h c s = some x → ¬ Bad c x.1 → x.1 = (k c t).1 ∧ Q x.2 (k c t).2)
    (hbad : ∀ c s t x, Q s t → h c s = some x → Bad c x.1 → Q x.2 t ∨ Q x.2 (k c t).2)
    (hquiet : ∀ c s t x, Quiet c → Q s t → h c s = some x → Q x.2 t)
    {s : σ} {t : τ} (hs : Q s t) : ∃ t' ∈ p.visits k t, Q (p.reached h s) t' := by
  induction hp generalizing s t with
  | ret a => exact ⟨t, List.mem_singleton_self t, hs⟩
  | @call c next hb _ ih =>
    rw [reached_call, visits_call]
    cases hx : h c s with
    | none => exact ⟨t, List.mem_cons_self, hs⟩
    | some x =>
      by_cases hbx : Bad c x.1
      · have hstop : ∀ t', Q x.2 t' → Q ((next x.1).reached h x.2) t' := fun t' ht' =>
          (hb x.1 hbx).reached (I := fun s => Q s t') hh
            (fun c s x hc hs hx => hquiet c s t' x hc hs hx) ht'
        rcases hbad c s t x hs hx hbx with hold | hnew
        · exact ⟨t, List.mem_cons_self, hstop t hold⟩
        · exact ⟨_, List.mem_cons_of_mem _ (mem_visits_start _ _), hstop _ hnew⟩
      · obtain ⟨hvalue, hnext⟩ := hgood c s t x hs hx hbx
        obtain ⟨t', ht', hq⟩ := ih x.1 hnext
        rw [hvalue] at ht'
        exact ⟨t', List.mem_cons_of_mem _ ht', hq⟩

end Halted

end Prog

theorem WritesLast.visits {h : Handler C R σ} {p : Prog C R α} (hp : WritesLast h p) (s : σ) :
    ∀ u ∈ p.visits h s, u = s ∨ u = (p.run h s).2 := by
  induction hp generalizing s with
  | ret a =>
    intro u hu
    exact .inl (List.mem_singleton.mp hu)
  | @call c next hc _ ih =>
    intro u hu
    rcases List.mem_cons.mp hu with rfl | hu
    · exact .inl rfl
    · rw [Prog.run_call]
      rcases hc s with hsame | ⟨a, ha⟩
      · have hu' := ih _ _ u hu
        rw [hsame] at hu' ⊢
        exact hu'
      · rw [ha] at hu ⊢
        exact .inr (List.mem_singleton.mp hu)

end Effects
