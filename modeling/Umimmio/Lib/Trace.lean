import Umimmio.Lib.Prog

namespace Effects
set_option autoImplicit true

variable {C D : Type} {R : C → Type} {S : D → Type} {α β σ τ : Type}

namespace Prog

/-- The commands of a run, each with its response. -/
def trace (h : Handler C R σ) : Prog C R α → σ → List ((c : C) × R c)
  | .ret _, _ => []
  | .call c next, s => ⟨c, (h c s).1⟩ :: (next (h c s).1).trace h (h c s).2

@[simp] theorem trace_pure (h : Handler C R σ) (a : α) (s : σ) :
    (pure a : Prog C R α).trace h s = [] :=
  rfl

@[simp] theorem trace_call (h : Handler C R σ) (c : C) (next : R c → Prog C R α) (s : σ) :
    (Prog.call c next).trace h s =
      ⟨c, (h c s).1⟩ :: (next (h c s).1).trace h (h c s).2 :=
  rfl

@[simp] theorem trace_bind (h : Handler C R σ) (p : Prog C R α) (f : α → Prog C R β) (s : σ) :
    (p >>= f).trace h s = p.trace h s ++ (f (p.run h s).1).trace h (p.run h s).2 := by
  induction p generalizing s with
  | ret a => rfl
  | call c next ih =>
    rw [call_bind, trace_call, trace_call, run_call, ih, List.cons_append]

@[simp] theorem trace_map (h : Handler C R σ) (p : Prog C R α) (f : α → β) (s : σ) :
    (f <$> p).trace h s = p.trace h s := by
  rw [map_eq_pure_bind, trace_bind, trace_pure, List.append_nil]

def commands (h : Handler C R σ) (p : Prog C R α) (s : σ) : List C := (p.trace h s).map Sigma.fst

theorem Only.of_mem_commands {P : C → Prop} {h : Handler C R σ} {p : Prog C R α} (hp : p.Only P)
    (hc : c ∈ p.commands h s) : P c := by
  induction hp generalizing s with
  | ret a => cases hc
  | call hp _ ih =>
    rcases List.mem_cons.mp hc with rfl | hc
    · exact hp
    · exact ih _ hc

@[simp] theorem commands_bind (h : Handler C R σ) (p : Prog C R α) (f : α → Prog C R β) (s : σ) :
    (p >>= f).commands h s = p.commands h s ++ (f (p.run h s).1).commands h (p.run h s).2 := by
  rw [commands, trace_bind, List.map_append]
  rfl

@[simp] theorem commands_map (h : Handler C R σ) (p : Prog C R α) (f : α → β) (s : σ) :
    (f <$> p).commands h s = p.commands h s :=
  congrArg _ (trace_map h p f s)

end Prog

end Effects
