import Mathlib.Data.List.Basic

namespace Lists
set_option autoImplicit true

variable {ε μ : Type}

/-- Every marked entry stands between the brackets of its mark; the last one may be cut off. Other
entries are no brackets. -/
inductive Bracketed (mark : ε → Option μ) (bracket : ε → Bool) (pre post : μ → List ε) :
    List ε → Prop
  | nil : Bracketed mark bracket pre post []
  | plain (he : mark e = none) (hb : bracket e = false) (h : Bracketed mark bracket pre post l) :
      Bracketed mark bracket pre post (e :: l)
  | marked (he : mark e = some x) (h : Bracketed mark bracket pre post l) :
      Bracketed mark bracket pre post (pre x ++ e :: (post x ++ l))
  | cut (he : mark e = some x) : Bracketed mark bracket pre post (pre x ++ [e])

variable {mark : ε → Option μ} {bracket : ε → Bool} {pre post : μ → List ε}

/-- A marked entry comes after a prefix without marks. -/
theorem eq_append_of_mark {p l before after : List ε} {a : ε} (hp : ∀ e ∈ p, mark e = none)
    (ha : mark a = some x) (h : p ++ l = before ++ a :: after) :
    ∃ before', before = p ++ before' ∧ l = before' ++ a :: after := by
  induction p generalizing before with
  | nil => exact ⟨before, rfl, h⟩
  | cons e p ih =>
    cases before with
    | nil =>
      obtain ⟨rfl, _⟩ := List.cons.inj h
      rw [hp e List.mem_cons_self] at ha
      cases ha
    | cons e' before =>
      obtain ⟨rfl, htail⟩ := List.cons.inj h
      obtain ⟨before', hbefore, hl⟩ := ih (fun e he => hp e (List.mem_cons_of_mem _ he)) htail
      exact ⟨before', congrArg (List.cons e) hbefore, hl⟩

section Brackets

variable (hpre : ∀ x, ∀ e ∈ pre x, mark e = none ∧ bracket e = true)
include hpre

theorem filter_before_marked {before after : List ε} {b : ε} (he : mark e = some x)
    (hl : pre x ++ e :: rest = before ++ b :: after) (hb : mark b = some y)
    (hn : ∀ e ∈ before, mark e = none) : before.filter bracket = pre y := by
  obtain ⟨before', rfl, htail⟩ := eq_append_of_mark (fun e he => (hpre x e he).1) hb hl
  cases before' with
  | nil =>
    obtain ⟨rfl, _⟩ := List.cons.inj htail
    obtain rfl : x = y := Option.some.inj (he.symm.trans hb)
    rw [List.append_nil]
    exact List.filter_eq_self.mpr fun e he => (hpre x e he).2
  | cons e' before' =>
    obtain ⟨rfl, _⟩ := List.cons.inj htail
    rw [hn e (List.mem_append_right _ List.mem_cons_self)] at he
    cases he

/-- The brackets before the first mark are those of that mark. -/
theorem Bracketed.filter_before (h : Bracketed mark bracket pre post l) {before after : List ε}
    {b : ε} (hl : l = before ++ b :: after) (hb : mark b = some y)
    (hn : ∀ e ∈ before, mark e = none) : before.filter bracket = pre y := by
  induction h generalizing before with
  | nil => exact absurd hl.symm (List.append_ne_nil_of_right_ne_nil _ (List.cons_ne_nil _ _))
  | @plain e l he hbracket _ ih =>
    cases before with
    | nil =>
      obtain ⟨rfl, _⟩ := List.cons.inj hl
      rw [he] at hb
      cases hb
    | cons e' before =>
      obtain ⟨rfl, htail⟩ := List.cons.inj hl
      rw [List.filter_cons_of_neg (by rw [hbracket]; exact Bool.false_ne_true)]
      exact ih htail fun e he => hn e (List.mem_cons_of_mem _ he)
  | marked he _ _ => exact filter_before_marked hpre he hl hb hn
  | cut he => exact filter_before_marked hpre he hl hb hn

/-- The brackets between two neighbouring marks close the first and open the second. -/
theorem Bracketed.filter_between (h : Bracketed mark bracket pre post l)
    (hpost : ∀ x, ∀ e ∈ post x, mark e = none ∧ bracket e = true)
    {before between after : List ε} {a b : ε} (hl : l = before ++ a :: (between ++ b :: after))
    (ha : mark a = some x) (hb : mark b = some y) (hn : ∀ e ∈ between, mark e = none) :
    between.filter bracket = post x ++ pre y := by
  induction h generalizing before with
  | nil => exact absurd hl.symm (List.append_ne_nil_of_right_ne_nil _ (List.cons_ne_nil _ _))
  | @plain e l he hbracket _ ih =>
    cases before with
    | nil =>
      obtain ⟨rfl, _⟩ := List.cons.inj hl
      rw [he] at ha
      cases ha
    | cons e' before => exact ih (List.cons.inj hl).2
  | @marked e x' l he h ih =>
    obtain ⟨before', rfl, htail⟩ := eq_append_of_mark (fun e he => (hpre x' e he).1) ha hl
    cases before' with
    | nil =>
      obtain ⟨rfl, hrest⟩ := List.cons.inj htail
      obtain rfl : x' = x := Option.some.inj (he.symm.trans ha)
      obtain ⟨between', rfl, hl'⟩ := eq_append_of_mark (fun e he => (hpost x' e he).1) hb hrest
      have hclose : (post x').filter bracket = post x' :=
        List.filter_eq_self.mpr fun e he => (hpost x' e he).2
      rw [List.filter_append, hclose,
        h.filter_before hpre hl' hb fun e he => hn e (List.mem_append_right _ he)]
    | cons e' before' =>
      obtain ⟨rfl, hrest⟩ := List.cons.inj htail
      obtain ⟨before'', _, hl'⟩ := eq_append_of_mark (fun e he => (hpost x' e he).1) ha hrest
      exact ih hl'
  | @cut e x' he =>
    obtain ⟨before', rfl, htail⟩ := eq_append_of_mark (fun e he => (hpre x' e he).1) ha hl
    have hlen := congrArg List.length htail
    rw [List.length_singleton, List.length_append, List.length_cons, List.length_append,
      List.length_cons] at hlen
    omega

end Brackets

end Lists
