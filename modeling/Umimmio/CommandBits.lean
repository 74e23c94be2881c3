import Umimmio.Hardware
import Umimmio.PackWords

namespace Umimmio
open Effects
set_option autoImplicit true

variable {r : Register}

def WriteBehavior.IsCommand : WriteBehavior → Prop
  | .oneToClear => True
  | .oneToSet => True
  | .oneToToggle => True
  | _ => False

/-- By the access policy of a field, a 1 written to the bit is a command; W1C bits also lie inside
the numeric mask. -/
def CommandBit (fields : List (Field r)) (i : Nat) (k : WriteBehavior) : Prop :=
  (∃ f ∈ fields, (Region.field f).Covers i ∧ f.accessType.writeBehavior = k) ∧ k.IsCommand ∧
    (k = .oneToClear → r.w1cMask.getLsbD i = true)

/-- Writing the reset value of a command bit leaves the stored bit alone. -/
def WriteBehavior.Spares (k : WriteBehavior) (reset stored : Bool) : Prop :=
  reset = false ∨ k = .oneToClear ∧ stored = false ∨ k = .oneToSet ∧ stored = true

def afterWrite (checkPolicy : Bool) (behavior : Nat → WriteBehavior)
    (values : List (FieldValue r)) (word : BitVec r.bits) : BitVec r.bits :=
  ((RegOps.write checkPolicy (FieldValue.args values)).run (hardware behavior) word).2

theorem afterWrite_eq (checkPolicy : Bool) (behavior : Nat → WriteBehavior)
    (values : List (FieldValue r)) (word : BitVec r.bits) :
    afterWrite checkPolicy behavior values word =
      busWrite behavior (packWord r.resetValue (FieldValue.args values)) word := by
  rw [afterWrite, RegOps.run_write fun _ _ => rfl, writeWord_args]
  rfl

theorem WriteBehavior.react_eq_self_iff {k : WriteBehavior} (hk : k.IsCommand)
    (stored written : Bool) : k.react stored written = stored ↔ k.Spares written stored := by
  cases k with
  | oneToClear => cases stored <;> cases written <;> simp [react, Spares]
  | oneToSet => cases stored <;> cases written <;> simp [react, Spares]
  | oneToToggle => cases stored <;> cases written <;> simp [react, Spares]
  | _ => exact hk.elim

theorem commandBit_keeps_iff {fields : List (Field r)} {behavior : Nat → WriteBehavior}
    (hb : ∀ i k, CommandBit fields i k → behavior i = k) (checkPolicy : Bool)
    {values : List (FieldValue r)} (word : BitVec r.bits) (hc : CommandBit fields i k)
    (hn : ∀ v ∈ values, ¬ v.Covers i) :
    (afterWrite checkPolicy behavior values word).getLsbD i = word.getLsbD i ↔
      k.Spares (r.resetValue.getLsbD i) (word.getLsbD i) := by
  obtain ⟨f, _, hf, _⟩ := hc.1
  rw [afterWrite_eq, getLsbD_busWrite _ _ _ hf.lt_bits, hb i k hc, packWord_outside _ hn]
  exact WriteBehavior.react_eq_self_iff hc.2.1 _ _

theorem Region.content_eq_iff (R : Region r) (word word' : BitVec r.bits) :
    R.content word = R.content word' ↔ ∀ i, R.Covers i → word.getLsbD i = word'.getLsbD i := by
  constructor
  · intro h i hc
    have hj : i - R.shift < R.bitWidth := Nat.sub_lt_left_of_lt_add hc.1 hc.2
    have hi : R.shift + (i - R.shift) = i := Nat.add_sub_cancel' hc.1
    have hbit := congrArg (fun x => x.getLsbD (i - R.shift)) h
    simpa only [R.getLsbD_content _ hj, hi] using hbit
  · intro h
    apply BitVec.eq_of_getLsbD_eq
    intro j hj
    rw [R.getLsbD_content _ hj, R.getLsbD_content _ hj]
    exact h _ ⟨Nat.le_add_right _ _, Nat.add_lt_add_left hj _⟩

/-- A field whose written ones set or toggle. -/
def Field.IsPort (f : Field r) : Prop :=
  f.accessType.writeBehavior = .oneToSet ∨ f.accessType.writeBehavior = .oneToToggle

theorem Field.IsPort.commandBit {f : Field r} (hp : f.IsPort) {fields : List (Field r)}
    (hf : f ∈ fields) (hc : (Region.field f).Covers i) :
    CommandBit fields i f.accessType.writeBehavior := by
  refine ⟨⟨f, hf, hc, rfl⟩, ?_⟩
  rcases hp with hp | hp
  · rw [hp]
    exact ⟨trivial, fun h => nomatch h⟩
  · rw [hp]
    exact ⟨trivial, fun h => nomatch h⟩

/-- A write fires no command outside the fields it names, exactly where the reset value of the
register does not ask for it. -/
theorem write_spares_iff {fields : List (Field r)} {behavior : Nat → WriteBehavior}
    (hb : ∀ i k, CommandBit fields i k → behavior i = k) (checkPolicy : Bool)
    (values : List (FieldValue r)) (word : BitVec r.bits) :
    (∀ i k, CommandBit fields i k → (∀ v ∈ values, ¬ v.Covers i) →
      ((afterWrite checkPolicy behavior values word).getLsbD i = word.getLsbD i ↔
        k.Spares (r.resetValue.getLsbD i) (word.getLsbD i))) ∧
    ∀ g ∈ fields, g.IsPort →
      (∀ v ∈ values, (Region.field g).Disjoint (.field v.field)) →
        ((Region.field g).content (afterWrite checkPolicy behavior values word) =
            (Region.field g).content word ↔
          ∀ i, (Region.field g).Covers i →
            g.accessType.writeBehavior.Spares (r.resetValue.getLsbD i) (word.getLsbD i)) := by
  constructor
  · intro i k hc hn
    exact commandBit_keeps_iff hb checkPolicy word hc hn
  · intro g hg hp hd
    rw [Region.content_eq_iff]
    apply forall_congr'
    intro i
    apply imp_congr_right
    intro hc
    apply commandBit_keeps_iff hb checkPolicy word (hp.commandBit hg hc)
    intro v hv
    exact hd v hv i hc

def triggerRegister : Register :=
  .declare ({} : Device).toParent 0x08 .bits32 (.policy .rw) 0x100

def triggerEnable : Field triggerRegister := .bit 0 (by decide)
def triggerStart : Field triggerRegister := .bit 8 (by decide) [.accessPolicy .w1s]

def enableTrigger : List (FieldValue triggerRegister) := [⟨triggerEnable, .value 1⟩]

def triggerBehavior (i : Nat) : WriteBehavior := if i = 8 then .oneToSet else .normal

theorem triggerBehavior_eq {i : Nat} {k : WriteBehavior}
    (h : CommandBit [triggerEnable, triggerStart] i k) : triggerBehavior i = k := by
  obtain ⟨⟨f, hf, hc, rfl⟩, hk, _⟩ := h
  rcases List.mem_cons.mp hf with rfl | hf
  · exact hk.elim
  · obtain rfl := List.mem_singleton.mp hf
    have hlo : 8 ≤ i := hc.1
    have hhi : i < 9 := hc.2
    obtain rfl : i = 8 := by omega
    rfl

theorem triggerStart_commandBit : CommandBit [triggerEnable, triggerStart] 8 .oneToSet :=
  ⟨⟨triggerStart, by simp, by decide, by decide⟩, trivial, fun h => nomatch h⟩

/-- Enabling the unit writes the reset value of the start bit and starts it. -/
theorem write_spares_fails_reset :
    (Op.write (FieldValue.args enableTrigger)).Admitted .direct ∧
      (∀ i k, CommandBit [triggerEnable, triggerStart] i k → triggerBehavior i = k) ∧
      (∀ v ∈ enableTrigger, (Region.field v.field).Disjoint (.field triggerStart)) ∧
      ¬ ∀ i k, CommandBit [triggerEnable, triggerStart] i k →
        (afterWrite true triggerBehavior enableTrigger 0#32).getLsbD i = (0#32).getLsbD i := by
  have hdisjoint : ∀ v ∈ enableTrigger,
      (Region.field v.field).Disjoint (.field triggerStart) := by
    intro v hv i hi hs
    obtain rfl := List.mem_singleton.mp hv
    have h1 : i < 1 := hi.2
    have h8 : 8 ≤ i := hs.1
    omega
  have hadmitted : (Op.write (FieldValue.args enableTrigger)).Admitted .direct := by
    apply Op.admitted_write_singleton <;> decide
  refine ⟨hadmitted, fun _ _ => triggerBehavior_eq, hdisjoint, ?_⟩
  intro h
  have h8 := h 8 .oneToSet triggerStart_commandBit
  revert h8
  decide

theorem write_spares_iff_started :
    (afterWrite true triggerBehavior enableTrigger 0x100#32).getLsbD 8 =
      (0x100#32).getLsbD 8 :=
  ((write_spares_iff (fun _ _ => triggerBehavior_eq) true enableTrigger 0x100#32).1 8 .oneToSet
    triggerStart_commandBit (by
      intro v hv hc
      obtain rfl := List.mem_singleton.mp hv
      have h1 : 8 < 1 := hc.2
      omega)).mpr (.inr (.inr ⟨rfl, by decide⟩))

end Umimmio
