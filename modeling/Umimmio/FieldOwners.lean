import Umimmio.FieldVariables
import Umimmio.SharedWirings

namespace Umimmio
open Effects Bytes
set_option autoImplicit true

variable {κ : Type} {ι : κ → Type} {L : Layout κ ι} {ω : Type}

/-- The fields whose variables an operation reads or sets; a write sets all those of a register. -/
def VarOp.Uses : VarOp L → (k : κ) × ι k → Prop
  | .write k _, x => x.1 = k
  | .modify k values, x => ∃ v ∈ values, x = ⟨k, v.1⟩
  | .read k i, x => x = ⟨k, i⟩
  | .is k i _, x => x = ⟨k, i⟩
  | .flip k i, x => x = ⟨k, i⟩
  | .clear _ _, _ => False
  | .reset k, x => x.1 = k
  | .readVariant k i _, x => x = ⟨k, i⟩

namespace Layout

/-- The operations on registers that use only the fields of one owner. -/
def Owned (L : Layout κ ι) (owner : (k : κ) × ι k → ω) (i : ω) (a : TypedOp) : Prop :=
  ∃ c : VarOp L, c.typed = a ∧ ∀ x, c.Uses x → owner x = i

namespace Vars

variable [∀ k, DecidableEq (ι k)]

theorem assign_cons (fields : (i : ι k) → BitVec (L.field k i).bitWidth) (v : ι k × Assigned)
    (values : List (ι k × Assigned)) :
    assign k fields (v :: values) = assign k (Function.update fields v.1 (v.2.cast _)) values :=
  rfl

theorem assign_congr {fields fields' : (i : ι k) → BitVec (L.field k i).bitWidth}
    (values : List (ι k × Assigned)) (h : fields i = fields' i) :
    assign k fields values i = assign k fields' values i := by
  induction values generalizing fields fields' with
  | nil => exact h
  | cons v values ih =>
    rw [assign_cons, assign_cons]
    apply ih
    by_cases hi : i = v.1
    · subst hi
      rw [Function.update_self, Function.update_self]
    · rw [Function.update_of_ne hi, Function.update_of_ne hi]
      exact h

variable [DecidableEq κ]

/-- What becomes of a variable depends on no other one. -/
theorem run_congr (c : VarOp L) {x y : L.Vars} (h : x k i = y k i) :
    (run c x).2 k i = (run c y).2 k i := by
  have hsets : ∀ (l : κ) {fields fields' : (i : ι l) → BitVec (L.field l i).bitWidth},
      (∀ i : ι l, x l i = y l i → fields i = fields' i) →
        Function.update x l fields k i = Function.update y l fields' k i := by
    intro l fields fields' hfields
    by_cases hk : k = l
    · subst hk
      rw [Function.update_self, Function.update_self]
      exact hfields i h
    · rw [Function.update_of_ne hk, Function.update_of_ne hk]
      exact h
  cases c with
  | write l values => exact hsets l fun _ _ => rfl
  | modify l values => exact hsets l fun _ h => assign_congr values h
  | reset l => exact hsets l fun _ _ => rfl
  | flip l j =>
    refine hsets l fun i h => ?_
    by_cases hi : i = j
    · subst hi
      rw [Function.update_self, Function.update_self, h]
    · rw [Function.update_of_ne hi, Function.update_of_ne hi]
      exact h
  | _ => exact h

/-- A result depends on no other variables than those used. -/
theorem run_value_congr {c : VarOp L} {x y : L.Vars}
    (h : ∀ k i, c.Uses ⟨k, i⟩ → x k i = y k i) : (run c x).1 = (run c y).1 := by
  cases c with
  | read k i => rw [run, run, h k i rfl]
  | is k i v => rw [run, run, h k i rfl]
  | readVariant k i variants => rw [run, run, h k i rfl]
  | _ => rfl

end Vars

/-- Stores that agree on the fields of an owner. -/
def AgreeOn (L : Layout κ ι) (owner : (k : κ) × ι k → ω) (i : ω) (store store' : Store) : Prop :=
  ∀ k j, owner ⟨k, j⟩ = i → L.vars store k j = L.vars store' k j

variable [DecidableEq κ] [∀ k, DecidableEq (ι k)] {owner : (k : κ) × ι k → ω} {store store' : Store}

theorem Owned.run {a : TypedOp} (ha : L.Owned owner i a) (h : L.AgreeOn owner i store store')
    (checkPolicy : Bool) :
    let x := (a.prog checkPolicy).run storeRegisters store
    let y := (a.prog checkPolicy).run storeRegisters store'
    x.1 = y.1 ∧ L.AgreeOn owner i x.2 y.2 := by
  obtain ⟨c, rfl, huses⟩ := ha
  have hx := (c.run_typed checkPolicy store).1
  have hy := (c.run_typed checkPolicy store').1
  constructor
  · refine (congrArg Prod.fst hx).trans (Eq.trans ?_ (congrArg Prod.fst hy).symm)
    exact Vars.run_value_congr fun k j hu => h k j (huses _ hu)
  · intro k j hj
    have hx' := congrFun (congrFun (congrArg Prod.snd hx) k) j
    have hy' := congrFun (congrFun (congrArg Prod.snd hy) k) j
    exact hx'.trans ((Vars.run_congr c (h k j hj)).trans hy'.symm)

/-- What is at the other end of the transport holds the fields of the owner as the store does. -/
def Holds (L : Layout κ ι) (owner : (k : κ) × ι k → ω) (i : ω) (W : Wiring) (store : Store)
    (s : W.State) : Prop :=
  ∃ store', W.Refines s store' ∧ L.AgreeOn owner i store store'

theorem Holds.run {W : Wiring} {s : W.State} {a : TypedOp} (h : L.Holds owner i W store s)
    (ha : L.Owned owner i a) (hreg : a.reg ∈ W.regs) (area : Nat → Byte) (checkPolicy : Bool) :
    ((a.prog checkPolicy).run storeRegisters store).1 = (W.runs area checkPolicy a s).1 ∧
      L.Holds owner i W ((a.prog checkPolicy).run storeRegisters store).2
        (W.runs area checkPolicy a s).2 := by
  obtain ⟨store', hs, hagree⟩ := h
  obtain ⟨hvalue, hnext⟩ := hs.perform hreg area checkPolicy a.op
  obtain ⟨hsame, hkeep⟩ := ha.run hagree checkPolicy
  exact ⟨hsame.trans hvalue.symm, _, hnext, hkeep⟩

end Layout

end Umimmio
