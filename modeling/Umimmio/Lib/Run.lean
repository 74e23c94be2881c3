import Umimmio.Lib.Prog

namespace Effects
set_option autoImplicit true

variable {ε ε' ι ρ σ τ : Type}

/-- Runs of a labelled transition relation from `s`, with their events in order. -/
inductive Run (step : σ → ε → σ → Prop) (s : σ) : List ε → σ → Prop
  | nil : Run step s [] s
  | snoc (hr : Run step s evs t) (he : step t e u) : Run step s (evs ++ [e]) u

theorem Run.inv {step : σ → ε → σ → Prop} {I : List ε → σ → Prop} (h0 : I [] s)
    (hI : ∀ evs t e u, I evs t → step t e u → I (evs ++ [e]) u) (h : Run step s evs t) :
    I evs t := by
  induction h with
  | nil => exact h0
  | snoc hr he ih => exact hI _ _ _ _ ih he

theorem Run.mono {step step' : σ → ε → σ → Prop} (h : Run step s evs t)
    (hstep : ∀ t e u, step t e u → step' t e u) : Run step' s evs t := by
  induction h with
  | nil => exact .nil
  | snoc hr he ih => exact .snoc ih (hstep _ _ _ he)

/-- Where two properties of a step agree as long as the second keeps an invariant, they hold of all
steps of the same runs. -/
theorem Run.forall_iff {step : σ → ε → σ → Prop} {P Q : ε → Prop} {I : σ → Prop} (h0 : I s)
    (hI : ∀ t e u, I t → step t e u → (P e ↔ Q e) ∧ (Q e → I u)) (h : Run step s evs t) :
    ((∀ e ∈ evs, P e) ↔ ∀ e ∈ evs, Q e) ∧ ((∀ e ∈ evs, Q e) → I t) := by
  induction h with
  | nil => exact ⟨by simp, fun _ => h0⟩
  | snoc hr he ih =>
    simp only [List.forall_mem_append, List.forall_mem_singleton]
    refine ⟨?_, fun hq => (hI _ _ _ (ih.2 hq.1) he).2 hq.2⟩
    constructor
    · intro hp
      have hq := ih.1.mp hp.1
      exact ⟨hq, (hI _ _ _ (ih.2 hq) he).1.mp hp.2⟩
    · intro hq
      exact ⟨ih.1.mpr hq.1, (hI _ _ _ (ih.2 hq.1) he).1.mpr hq.2⟩

/-- A run seen through a partial view of its events is a run of any system that answers each visible
step and is unaffected by the others. -/
theorem Run.project {step : σ → ε → σ → Prop} {step' : τ → ε' → τ → Prop} {R : σ → τ → Prop}
    (view : ε → Option ε') (h : Run step s evs u) (hs : R s t)
    (hR : ∀ s t e u, R s t → step s e u →
      (view e = none ∧ R u t) ∨ ∃ e' v, view e = some e' ∧ step' t e' v ∧ R u v) :
    ∃ v, Run step' t (evs.filterMap view) v ∧ R u v := by
  induction h with
  | nil => exact ⟨t, .nil, hs⟩
  | snoc hr he ih =>
    obtain ⟨v, hv, hRv⟩ := ih
    rw [List.filterMap_append]
    rcases hR _ _ _ _ hRv he with ⟨hnone, hstay⟩ | ⟨e', w, hsome, hstep, hRw⟩
    · rw [List.filterMap_cons_none hnone, List.filterMap_nil, List.append_nil]
      exact ⟨v, hv, hstay⟩
    · rw [List.filterMap_cons_some hsome, List.filterMap_nil]
      exact ⟨w, .snoc hv hstep, hRw⟩

theorem Run.exists_step {step : σ → ε → σ → Prop} (h : Run step s evs t) (he : e ∈ evs) :
    ∃ u v, step u e v := by
  induction h with
  | nil => cases he
  | snoc hr hs ih =>
    rcases List.mem_append.mp he with he | he
    · exact ih he
    · obtain rfl := List.mem_singleton.mp he
      exact ⟨_, _, hs⟩

theorem Run.exists_reached_step {step : σ → ε → σ → Prop} (h : Run step s evs t) (he : e ∈ evs) :
    ∃ pre u v, Run step s pre u ∧ step u e v := by
  induction h with
  | nil => cases he
  | snoc hr hs ih =>
    rcases List.mem_append.mp he with he | he
    · exact ih he
    · obtain rfl := List.mem_singleton.mp he
      exact ⟨_, _, _, hr, hs⟩

theorem Run.append_inv {step : σ → ε → σ → Prop} (h : Run step s (evs ++ evs') u) :
    ∃ t, Run step s evs t ∧ Run step t evs' u := by
  generalize hl : evs ++ evs' = l at h
  induction h generalizing evs' with
  | nil =>
    obtain ⟨rfl, rfl⟩ := List.append_eq_nil_iff.mp hl
    exact ⟨s, .nil, .nil⟩
  | snoc hr he ih =>
    rcases evs'.eq_nil_or_concat with rfl | ⟨evs', e, rfl⟩
    · rw [List.append_nil] at hl
      subst hl
      exact ⟨_, .snoc hr he, .nil⟩
    · rw [List.concat_eq_append, ← List.append_assoc] at hl
      obtain ⟨hevs, hlast⟩ := List.append_inj' hl rfl
      obtain ⟨t, hpre, hpost⟩ := ih hevs
      rw [List.concat_eq_append, hlast]
      exact ⟨t, hpre, .snoc hpost he⟩

theorem Run.snoc_inv {step : σ → ε → σ → Prop} (h : Run step s (evs ++ [e]) u) :
    ∃ t, Run step s evs t ∧ step t e u := by
  generalize hl : evs ++ [e] = l at h
  cases h with
  | nil => exact absurd hl (List.append_ne_nil_of_right_ne_nil _ (List.cons_ne_nil _ _))
  | snoc hr he =>
    obtain ⟨rfl, hlast⟩ := List.append_inj' hl rfl
    obtain rfl := List.singleton_inj.mp hlast
    exact ⟨_, hr, he⟩

def execute (f : ι → σ → ρ × σ) : List ι → σ → List ρ × σ
  | [], s => ([], s)
  | i :: is, s => ((f i s).1 :: (execute f is (f i s).2).1, (execute f is (f i s).2).2)

@[simp] theorem execute_cons (f : ι → σ → ρ × σ) (i : ι) (is : List ι) (s : σ) :
    execute f (i :: is) s =
      ((f i s).1 :: (execute f is (f i s).2).1, (execute f is (f i s).2).2) :=
  rfl

theorem execute_append (f : ι → σ → ρ × σ) (is js : List ι) (s : σ) :
    execute f (is ++ js) s =
      ((execute f is s).1 ++ (execute f js (execute f is s).2).1,
        (execute f js (execute f is s).2).2) := by
  induction is generalizing s with
  | nil => rfl
  | cons i is ih => rw [List.cons_append, execute_cons, execute_cons, ih, List.cons_append]

theorem execute_sim {f : ι → σ → ρ × σ} {g : ι → τ → ρ × τ} {R : σ → τ → Prop}
    (is : List ι)
    (hR : ∀ i ∈ is, ∀ s t, R s t → (f i s).1 = (g i t).1 ∧ R (f i s).2 (g i t).2)
    (hs : R s t) :
    (execute f is s).1 = (execute g is t).1 ∧ R (execute f is s).2 (execute g is t).2 := by
  induction is generalizing s t with
  | nil => exact ⟨rfl, hs⟩
  | cons i is ih =>
    obtain ⟨he, hn⟩ := hR i (by simp) s t hs
    obtain ⟨hes, hns⟩ := ih (fun j hj => hR j (by simp [hj])) hn
    exact ⟨by simp only [execute_cons, he, hes], hns⟩

/-- An update of the parts of a state in `A`: what it makes of them does not depend on the state. -/
structure Assigns (look : σ → κ → β) (A : κ → Prop) (f : σ → σ) : Prop where
  sets : ∀ s s' k, A k → look (f s) k = look (f s') k
  keeps : ∀ s k, ¬ A k → look (f s) k = look s k

section Assigns

variable {κ β : Type} {look : σ → κ → β}

theorem Assigns.comp {A B : κ → Prop} {f g : σ → σ} (hg : Assigns look B g)
    (hf : Assigns look A f) : Assigns look (fun k => A k ∨ B k) (g ∘ f) := by
  constructor
  · intro s s' k hk
    by_cases hB : B k
    · exact hg.sets (f s) (f s') k hB
    · have hA : A k := hk.resolve_right hB
      exact (hg.keeps (f s) k hB).trans ((hf.sets s s' k hA).trans (hg.keeps (f s') k hB).symm)
  · intro s k hk
    exact (hg.keeps (f s) k fun hB => hk (.inr hB)).trans (hf.keeps s k fun hA => hk (.inl hA))

theorem execute_assigns {f : ι → σ → ρ × σ} {is done : List ι} (hdone : done.Sublist is)
    (h : ∀ i ∈ is, ∃ A, Assigns look A fun s => (f i s).2) :
    ∃ A B, Assigns look A (fun s => (execute f is s).2) ∧
      Assigns look B (fun s => (execute f done s).2) ∧ ∀ k, B k → A k := by
  induction hdone with
  | slnil =>
    have hnil : Assigns look (fun _ => False) fun s => (execute f [] s).2 :=
      ⟨fun s s' k hk => hk.elim, fun s k _ => rfl⟩
    exact ⟨_, _, hnil, hnil, fun k hk => hk⟩
  | cons i _ ih =>
    obtain ⟨A, B, hA, hB, hBA⟩ := ih fun j hj => h j (List.mem_cons_of_mem _ hj)
    obtain ⟨C, hC⟩ := h i List.mem_cons_self
    exact ⟨_, B, hA.comp hC, hB, fun k hk => .inr (hBA k hk)⟩
  | cons_cons i _ ih =>
    obtain ⟨A, B, hA, hB, hBA⟩ := ih fun j hj => h j (List.mem_cons_of_mem _ hj)
    obtain ⟨C, hC⟩ := h i List.mem_cons_self
    exact ⟨_, _, hA.comp hC, hB.comp hC, fun k hk => hk.imp id (hBA k)⟩

/-- Updates that were made in part, some of them perhaps lost, may be made again from the start. -/
theorem execute_again {f : ι → σ → ρ × σ} {is done : List ι}
    (hlook : ∀ s s', (∀ k, look s k = look s' k) → s = s') (hdone : done.Sublist is)
    (h : ∀ i ∈ is, ∃ A, Assigns look A fun s => (f i s).2) (s : σ) :
    (execute f is (execute f done s).2).2 = (execute f is s).2 := by
  obtain ⟨A, B, hA, hB, hBA⟩ := execute_assigns hdone h
  apply hlook
  intro k
  by_cases hk : A k
  · exact hA.sets _ s k hk
  · have hpart := hB.keeps s k fun hB => hk (hBA k hB)
    exact (hA.keeps _ k hk).trans (hpart.trans (hA.keeps s k hk).symm)

end Assigns

/-- Steps one after the other until one does not return. -/
def attempt (f : ι → σ → Option (ρ × σ)) : List ι → σ → List ρ × σ
  | [], s => ([], s)
  | i :: is, s =>
    match f i s with
    | none => ([], s)
    | some x => let y := attempt f is x.2; (x.1 :: y.1, y.2)

theorem attempt_cons_none {f : ι → σ → Option (ρ × σ)} (h : f i s = none) (is : List ι) :
    attempt f (i :: is) s = ([], s) := by
  rw [attempt, h]

theorem attempt_cons_some {f : ι → σ → Option (ρ × σ)} {x : ρ × σ} (h : f i s = some x)
    (is : List ι) :
    attempt f (i :: is) s = (x.1 :: (attempt f is x.2).1, (attempt f is x.2).2) := by
  rw [attempt, h]

/-- Steps in lockstep stop together. -/
theorem attempt_sim {f : ι → σ → Option (ρ × σ)} {g : ι → τ → Option (ρ × τ)} {R : σ → τ → Prop}
    (is : List ι) (h : ∀ i ∈ is, ∀ s t, R s t → (f i s = none ∧ g i t = none) ∨
      ∃ x y, f i s = some x ∧ g i t = some y ∧ x.1 = y.1 ∧ R x.2 y.2) (hs : R s t) :
    (attempt f is s).1 = (attempt g is t).1 ∧ R (attempt f is s).2 (attempt g is t).2 := by
  induction is generalizing s t with
  | nil => exact ⟨rfl, hs⟩
  | cons i is ih =>
    rcases h i List.mem_cons_self s t hs with ⟨hf, hg⟩ | ⟨x, y, hf, hg, hvalue, hnext⟩
    · rw [attempt_cons_none hf, attempt_cons_none hg]
      exact ⟨rfl, hs⟩
    · rw [attempt_cons_some hf, attempt_cons_some hg, hvalue]
      obtain ⟨hresults, hend⟩ := ih (fun j hj => h j (List.mem_cons_of_mem _ hj)) hnext
      exact ⟨congrArg (List.cons y.1) hresults, hend⟩

section Interleave
variable {C E K : Type} {R : C → Type}

/-- Calls run their programs on a state that the surroundings may change between commands. -/
structure Config (K C : Type) (R : C → Type) (ρ σ : Type) where
  state : σ
  running : Option (K × Prog C R ρ)

inductive Event (E K C : Type)
  | surroundings (e : E)
  | start (k : K)
  | command (k : K) (c : C)
  | finish (k : K)

/-- One step of the caller or of its surroundings; calls do not nest. -/
inductive Step (h : Handler C R σ) (prog : K → Prog C R ρ) (env : E → σ → σ)
    (Admitted : K → Prop) : Config K C R ρ σ → Event E K C → Config K C R ρ σ → Prop
  | surroundings (s : σ) (p : Option (K × Prog C R ρ)) (e : E) :
      Step h prog env Admitted ⟨s, p⟩ (.surroundings e) ⟨env e s, p⟩
  | start (s : σ) (k : K) (hk : Admitted k) :
      Step h prog env Admitted ⟨s, none⟩ (.start k) ⟨s, some (k, prog k)⟩
  | command (s : σ) (k : K) (c : C) (next : R c → Prog C R ρ) :
      Step h prog env Admitted ⟨s, some (k, .call c next)⟩ (.command k c)
        ⟨(h c s).2, some (k, next (h c s).1)⟩
  | finish (s : σ) (k : K) (a : ρ) :
      Step h prog env Admitted ⟨s, some (k, .ret a)⟩ (.finish k) ⟨s, none⟩

end Interleave

end Effects
