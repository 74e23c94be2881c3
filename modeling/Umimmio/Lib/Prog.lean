import Mathlib.Logic.Function.Basic

namespace Effects
set_option autoImplicit true

variable {C D : Type} {R : C → Type} {S : D → Type} {α β γ σ τ : Type}

/-- A program issues commands and continues with their responses. -/
inductive Prog (C : Type) (R : C → Type) (α : Type) : Type
  | ret (a : α) : Prog C R α
  | call (c : C) (next : R c → Prog C R α) : Prog C R α

namespace Prog

protected def bind : Prog C R α → (α → Prog C R β) → Prog C R β
  | .ret a, f => f a
  | .call c next, f => .call c fun r => (next r).bind f

instance : Monad (Prog C R) where
  pure := .ret
  bind := Prog.bind

@[simp] theorem call_bind (c : C) (next : R c → Prog C R α) (f : α → Prog C R β) :
    (Prog.call c next >>= f) = .call c fun r => next r >>= f :=
  rfl

theorem bind_ret (p : Prog C R α) : (p >>= Prog.ret) = p := by
  induction p with
  | ret a => rfl
  | call c next ih => simp only [call_bind, ih]

theorem bind_assoc (p : Prog C R α) (f : α → Prog C R β) (g : β → Prog C R γ) :
    (p >>= f >>= g) = p >>= fun a => f a >>= g := by
  induction p with
  | ret a => rfl
  | call c next ih => simp only [call_bind, ih]

instance : LawfulMonad (Prog C R) :=
  LawfulMonad.mk' (Prog C R) (fun p => bind_ret p) (fun _ _ => rfl) bind_assoc

end Prog

abbrev Handler (C : Type) (R : C → Type) (σ : Type) := (c : C) → σ → R c × σ

namespace Prog

def run (h : Handler C R σ) : Prog C R α → σ → α × σ
  | .ret a, s => (a, s)
  | .call c next, s => (next (h c s).1).run h (h c s).2

@[simp] theorem run_pure (h : Handler C R σ) (a : α) (s : σ) :
    (pure a : Prog C R α).run h s = (a, s) :=
  rfl

@[simp] theorem run_call (h : Handler C R σ) (c : C) (next : R c → Prog C R α) (s : σ) :
    (Prog.call c next).run h s = (next (h c s).1).run h (h c s).2 :=
  rfl

@[simp] theorem run_bind (h : Handler C R σ) (p : Prog C R α) (f : α → Prog C R β) (s : σ) :
    (p >>= f).run h s = (f (p.run h s).1).run h (p.run h s).2 := by
  induction p generalizing s with
  | ret a => rfl
  | call c next ih => exact ih _ _

@[simp] theorem run_map (h : Handler C R σ) (p : Prog C R α) (f : α → β) (s : σ) :
    (f <$> p).run h s = (f (p.run h s).1, (p.run h s).2) := by
  rw [map_eq_pure_bind, run_bind, run_pure]

/-- The program issues no command outside `P`. -/
inductive Only (P : C → Prop) : Prog C R α → Prop
  | ret (a : α) : Only P (.ret a)
  | call (hc : P c) (hn : ∀ x, Only P (next x)) : Only P (.call c next)

theorem Only.mono {P Q : C → Prop} {p : Prog C R α} (hp : p.Only P) (h : ∀ c, P c → Q c) :
    p.Only Q := by
  induction hp with
  | ret a => exact .ret a
  | call hc _ ih => exact .call (h _ hc) ih

theorem Only.bind {P : C → Prop} {p : Prog C R α} {f : α → Prog C R β} (hp : p.Only P)
    (hf : ∀ a, (f a).Only P) : (p >>= f).Only P := by
  induction hp with
  | ret a => exact hf a
  | call hc _ ih => exact .call hc ih

theorem Only.map {P : C → Prop} {p : Prog C R α} (f : α → β) (hp : p.Only P) :
    (f <$> p).Only P := by
  rw [map_eq_pure_bind]
  exact hp.bind fun a => .ret (f a)

theorem Only.run_inv {h : Handler C R σ} {P : C → Prop} {I : σ → Prop} {p : Prog C R α}
    (hp : p.Only P) (hI : ∀ c s, P c → I s → I (h c s).2) (hs : I s) : I (p.run h s).2 := by
  induction hp generalizing s with
  | ret a => exact hs
  | call hc _ ih => exact ih _ (hI _ s hc hs)

theorem run_inv {h : Handler C R σ} {I : σ → Prop} (hI : ∀ c s, I s → I (h c s).2)
    (p : Prog C R α) (hs : I s) : I (p.run h s).2 := by
  induction p generalizing s with
  | ret a => exact hs
  | call c next ih => exact ih _ (hI c s hs)

/-- Handlers in lockstep give every program the same result and keep the relation. -/
theorem run_sim {h : Handler C R σ} {k : Handler C R τ} {Q : σ → τ → Prop}
    (hQ : ∀ c s t, Q s t → (h c s).1 = (k c t).1 ∧ Q (h c s).2 (k c t).2)
    (p : Prog C R α) (hs : Q s t) :
    (p.run h s).1 = (p.run k t).1 ∧ Q (p.run h s).2 (p.run k t).2 := by
  induction p generalizing s t with
  | ret a => exact ⟨rfl, hs⟩
  | call c next ih =>
    obtain ⟨he, hn⟩ := hQ c s t hs
    rw [run_call, run_call, ← he]
    exact ih _ hn

theorem Only.run_sim {h : Handler C R σ} {k : Handler C R τ} {P : C → Prop} {Q : σ → τ → Prop}
    {p : Prog C R α} (hp : p.Only P)
    (hQ : ∀ c s t, P c → Q s t → (h c s).1 = (k c t).1 ∧ Q (h c s).2 (k c t).2) (hs : Q s t) :
    (p.run h s).1 = (p.run k t).1 ∧ Q (p.run h s).2 (p.run k t).2 := by
  induction hp generalizing s t with
  | ret a => exact ⟨rfl, hs⟩
  | @call c next hc _ ih =>
    obtain ⟨he, hn⟩ := hQ c s t hc hs
    rw [run_call, run_call, ← he]
    exact ih _ hn

/-- Implement each command by a program over other commands, threading a state of its own. -/
def translate (T : (c : C) → τ → Prog D S (R c × τ)) : Prog C R α → τ → Prog D S (α × τ)
  | .ret a, t => .ret (a, t)
  | .call c next, t => T c t >>= fun x => (next x.1).translate T x.2

@[simp] theorem translate_call (T : (c : C) → τ → Prog D S (R c × τ)) (c : C)
    (next : R c → Prog C R α) (t : τ) :
    (Prog.call c next).translate T t = T c t >>= fun x => (next x.1).translate T x.2 :=
  rfl

theorem Only.translate {P : C → Prop} {Q : D → Prop} {T : (c : C) → τ → Prog D S (R c × τ)}
    {p : Prog C R α} (hp : p.Only P) (hT : ∀ c t, P c → (T c t).Only Q) (t : τ) :
    (p.translate T t).Only Q := by
  induction hp generalizing t with
  | ret a => exact .ret (a, t)
  | call hc _ ih => exact (hT _ t hc).bind fun x => ih x.1 x.2

end Prog

def Handler.through (T : (c : C) → τ → Prog D S (R c × τ)) (h : Handler D S σ) :
    Handler C R (τ × σ) :=
  fun c s => let x := (T c s.1).run h s.2; (x.1.1, x.1.2, x.2)

theorem Prog.run_translate (T : (c : C) → τ → Prog D S (R c × τ)) (h : Handler D S σ)
    (p : Prog C R α) (t : τ) (s : σ) :
    (p.translate T t).run h s =
      (((p.run (h.through T) (t, s)).1, (p.run (h.through T) (t, s)).2.1),
        (p.run (h.through T) (t, s)).2.2) := by
  induction p generalizing t s with
  | ret a => rfl
  | call c next ih =>
    rw [translate_call, run_bind, ih]
    rfl

end Effects
