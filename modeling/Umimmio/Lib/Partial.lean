import Umimmio.Lib.Prog

namespace Effects
set_option autoImplicit true

variable {C D : Type} {R : C → Type} {S : D → Type} {α β σ τ : Type}

/-- Commands that need not return. -/
abbrev PartialHandler (C : Type) (R : C → Type) (σ : Type) := (c : C) → σ → Option (R c × σ)

namespace Prog

def outcome (h : PartialHandler C R σ) : Prog C R α → σ → Option (α × σ)
  | .ret a, s => some (a, s)
  | .call c next, s => (h c s).bind fun x => (next x.1).outcome h x.2

/-- The commands issued until one does not return, each with its response. -/
def events (h : PartialHandler C R σ) : Prog C R α → σ → List ((c : C) × Option (R c))
  | .ret _, _ => []
  | .call c next, s =>
    ⟨c, (h c s).map Prod.fst⟩ :: (h c s).elim [] fun x => (next x.1).events h x.2

variable (h : PartialHandler C R σ)

@[simp] theorem outcome_call (c : C) (next : R c → Prog C R α) (s : σ) :
    (Prog.call c next).outcome h s = (h c s).bind fun x => (next x.1).outcome h x.2 :=
  rfl

@[simp] theorem events_call (c : C) (next : R c → Prog C R α) (s : σ) :
    (Prog.call c next).events h s =
      ⟨c, (h c s).map Prod.fst⟩ :: (h c s).elim [] fun x => (next x.1).events h x.2 :=
  rfl

theorem outcome_command (c : C) (s : σ) :
    (Prog.call c .ret : Prog C R (R c)).outcome h s = h c s := by
  rw [outcome_call]
  exact Option.bind_fun_some _

theorem events_command (c : C) (s : σ) :
    (Prog.call c .ret : Prog C R (R c)).events h s = [⟨c, (h c s).map Prod.fst⟩] := by
  rw [events_call]
  cases h c s with
  | none => rfl
  | some x => rfl

@[simp] theorem outcome_bind (p : Prog C R α) (f : α → Prog C R β) (s : σ) :
    (p >>= f).outcome h s = (p.outcome h s).bind fun x => (f x.1).outcome h x.2 := by
  induction p generalizing s with
  | ret a => rfl
  | call c next ih =>
    rw [call_bind, outcome_call, outcome_call]
    cases h c s with
    | none => rfl
    | some x => exact ih _ _

@[simp] theorem events_bind (p : Prog C R α) (f : α → Prog C R β) (s : σ) :
    (p >>= f).events h s =
      p.events h s ++ (p.outcome h s).elim [] fun x => (f x.1).events h x.2 := by
  induction p generalizing s with
  | ret a => rfl
  | call c next ih =>
    rw [call_bind, events_call, events_call, outcome_call]
    cases h c s with
    | none => rfl
    | some x => exact congrArg (List.cons _) (ih _ _)

@[simp] theorem events_map (p : Prog C R α) (f : α → β) (s : σ) :
    (f <$> p).events h s = p.events h s := by
  rw [map_eq_pure_bind, events_bind]
  cases p.outcome h s with
  | none => exact List.append_nil _
  | some x => exact List.append_nil _

@[simp] theorem outcome_map (p : Prog C R α) (f : α → β) (s : σ) :
    (f <$> p).outcome h s = (p.outcome h s).map fun x => (f x.1, x.2) := by
  rw [map_eq_pure_bind, outcome_bind]
  cases p.outcome h s with
  | none => rfl
  | some x => rfl

variable {h}

/-- A command that a program does not issue may be handled in any way. -/
theorem Only.congr {k : PartialHandler C R σ} {P : C → Prop} {p : Prog C R α} (hp : p.Only P)
    (hk : ∀ c s, P c → h c s = k c s) (s : σ) :
    p.events h s = p.events k s ∧ p.outcome h s = p.outcome k s := by
  induction hp generalizing s with
  | ret a => exact ⟨rfl, rfl⟩
  | call hc _ ih =>
    rw [events_call, events_call, outcome_call, outcome_call, hk _ s hc]
    cases k _ s with
    | none => exact ⟨rfl, rfl⟩
    | some x => exact ⟨congrArg (List.cons _) (ih _ _).1, (ih _ _).2⟩

/-- The events of a run are of the commands it may issue. -/
theorem Only.of_mem_events {P : C → Prop} {p : Prog C R α} (hp : p.Only P) {s : σ}
    {e : (c : C) × Option (R c)} (he : e ∈ p.events h s) : P e.1 := by
  induction hp generalizing s with
  | ret a => cases he
  | call hc _ ih =>
    rcases List.mem_cons.mp he with rfl | he
    · exact hc
    · cases hx : h _ s with
      | none =>
        rw [hx] at he
        cases he
      | some x =>
        rw [hx] at he
        exact ih _ he

/-- A translation that adds only events out of view is the program it translates. -/
theorem translate_view {k : PartialHandler D S σ} {T : (c : C) → τ → Prog D S (R c × τ)}
    (view : ((d : D) × Option (S d)) → Option ((c : C) × Option (R c)))
    (hT : ∀ c t s, ((T c t).events k s).filterMap view = [⟨c, (h c s).map Prod.fst⟩] ∧
      (T c t).outcome k s = (h c s).map fun x => ((x.1, t), x.2))
    (p : Prog C R α) (t : τ) (s : σ) :
    ((p.translate T t).events k s).filterMap view = p.events h s ∧
      (p.translate T t).outcome k s = (p.outcome h s).map fun x => ((x.1, t), x.2) := by
  induction p generalizing s with
  | ret a => exact ⟨rfl, rfl⟩
  | call c next ih =>
    obtain ⟨hevents, houtcome⟩ := hT c t s
    rw [translate_call, events_bind, outcome_bind, houtcome, List.filterMap_append, hevents,
      events_call, outcome_call]
    cases h c s with
    | none => exact ⟨rfl, rfl⟩
    | some x => exact ⟨congrArg (List.cons _) (ih _ _).1, (ih _ _).2⟩

end Prog

end Effects
