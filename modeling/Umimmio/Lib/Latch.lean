import Mathlib.Data.List.Basic

namespace Latch
set_option autoImplicit true

/-- What an event does to a latch. -/
inductive Effect (κ : Type)
  | keep
  | clear
  | load (k : κ)

def Effect.apply : Effect κ → Option κ → Option κ
  | .keep, l => l
  | .clear, _ => none
  | .load k, _ => some k

/-- The latch is loaded with what it holds. -/
def Effect.Reloads : Effect κ → Option κ → Prop
  | .load k, l => l = some k
  | _, _ => False

instance [DecidableEq κ] (e : Effect κ) (l : Option κ) : Decidable (e.Reloads l) :=
  match e with
  | .keep => inferInstanceAs (Decidable False)
  | .clear => inferInstanceAs (Decidable False)
  | .load _ => inferInstanceAs (Decidable (_ = _))

variable {ε κ : Type} (effect : ε → Effect κ)

def held (l : Option κ) (log : List ε) : Option κ :=
  log.foldl (fun l e => (effect e).apply l) l

/-- The log without the events that load the latch with what it holds. -/
def dropReloads [DecidableEq κ] : Option κ → List ε → List ε
  | _, [] => []
  | l, e :: log =>
    if (effect e).Reloads l then dropReloads l log
    else e :: dropReloads ((effect e).apply l) log

variable {effect}

theorem held_cons (l : Option κ) (e : ε) (log : List ε) :
    held effect l (e :: log) = held effect ((effect e).apply l) log :=
  rfl

theorem Effect.Reloads.apply {e : Effect κ} (h : e.Reloads l) : e.apply l = l := by
  cases e with
  | keep => rfl
  | clear => exact h.elim
  | load k => exact Eq.symm h

theorem dropReloads_append [DecidableEq κ] (l : Option κ) (log log' : List ε) :
    dropReloads effect l (log ++ log') =
      dropReloads effect l log ++ dropReloads effect (held effect l log) log' := by
  induction log generalizing l with
  | nil => rfl
  | cons e log ih =>
    rw [List.cons_append, dropReloads, dropReloads, held_cons]
    split_ifs with h
    · rw [h.apply]
      exact ih l
    · rw [List.cons_append]
      exact congrArg (List.cons e) (ih _)

end Latch
