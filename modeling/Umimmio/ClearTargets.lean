import Umimmio.Hardware

namespace Umimmio
open Effects
set_option autoImplicit true

variable {r : Register}

/-- The bit is write-1-to-clear: by the access type of a field that covers it, else by the
register's. -/
def EffectiveW1C (fields : List (Field r)) (i : Nat) : Prop :=
  (∃ f ∈ fields, (Region.field f).Covers i ∧ f.accessType.isW1C) ∨
    (∀ f ∈ fields, ¬ (Region.field f).Covers i) ∧ r.accessType.isW1C

def recordingHardware (behavior : Nat → WriteBehavior) :
    RegHandler r (BitVec r.bits × List r.RegValueType)
  | .regRead, (word, ws) => (busRead word, (word, ws))
  | .regWrite w, (word, ws) => ((), (busWrite behavior w word, ws ++ [w]))
  | .onRangeError _, s => ((), s)

/-- The clear writes one word, with a 1 at a W1C bit only inside its field, so that no other W1C
flag changes. -/
def ClearsOnly (behavior : Nat → WriteBehavior) (fields : List (Field r)) (f : Field r)
    (word : BitVec r.bits) : Prop :=
  let after := ((RegOps.clear f).run (recordingHardware behavior) (word, [])).2
  (∃ w, after.2 = [w] ∧
    ∀ i < r.bits, EffectiveW1C fields i → w.getLsbD i = true → (Region.field f).Covers i) ∧
  ∀ i < r.bits, EffectiveW1C fields i → ¬ (Region.field f).Covers i →
    after.1.getLsbD i = word.getLsbD i

/-- Every W1C flag outside the field that is raised lies inside the numeric W1C mask. -/
def RaisedInsideMask (fields : List (Field r)) (f : Field r) (word : BitVec r.bits) : Prop :=
  ∀ i < r.bits, EffectiveW1C fields i → ¬ (Region.field f).Covers i →
    word.getLsbD i = true → r.w1cMask.getLsbD i = true

theorem run_clear (behavior : Nat → WriteBehavior) (f : Field r) (word : BitVec r.bits) :
    ((RegOps.clear f).run (recordingHardware behavior) (word, [])).2 =
      (busWrite behavior ((Op.clear f).rmwWord (busRead word)) word,
        [(Op.clear f).rmwWord (busRead word)]) := by
  by_cases hd : RegOps.ClearsDirectly r
  · rw [RegOps.clear_direct f hd, Op.rmwWord, if_pos hd]
    rfl
  · rw [RegOps.clear_mixed f hd, Op.rmwWord, if_neg hd]
    rfl

theorem busWrite_keeps_w1c {behavior : Nat → WriteBehavior} {w : r.RegValueType}
    {word : BitVec r.bits} (hi : i < r.bits) (hb : behavior i = .oneToClear)
    (hw : w.getLsbD i = false) : (busWrite behavior w word).getLsbD i = word.getLsbD i := by
  rw [getLsbD_busWrite _ _ _ hi, hb, hw, WriteBehavior.react, Bool.not_false, Bool.and_true]

theorem clearsOnly_iff_word {behavior : Nat → WriteBehavior} {fields : List (Field r)}
    (hb : ∀ i, EffectiveW1C fields i → behavior i = .oneToClear) (f : Field r)
    (word : BitVec r.bits) :
    ClearsOnly behavior fields f word ↔
      ∀ i < r.bits, EffectiveW1C fields i →
        ((Op.clear f).rmwWord (busRead word)).getLsbD i = true → (Region.field f).Covers i := by
  simp only [ClearsOnly, run_clear]
  constructor
  · rintro ⟨⟨w, hw, hone⟩, _⟩
    obtain rfl := List.singleton_inj.mp hw
    exact hone
  · intro hone
    refine ⟨⟨_, rfl, hone⟩, ?_⟩
    intro i hi he hc
    apply busWrite_keeps_w1c hi (hb i he)
    by_contra hw
    exact hc (hone i hi he (Bool.eq_true_of_not_eq_false hw))

theorem getLsbD_rmwWord_clear_iff {f : Field r} {current : r.RegValueType}
    (hc : ¬ (Region.field f).Covers i) :
    ((Op.clear f).rmwWord current).getLsbD i = true ↔
      ¬ RegOps.ClearsDirectly r ∧ current.getLsbD i = true ∧ r.w1cMask.getLsbD i = false := by
  rw [Op.rmwWord]
  split_ifs with hd
  · rw [Region.getLsbD_mask, decide_eq_false hc]
    exact iff_of_false Bool.false_ne_true fun h => h.1 hd
  · rw [RegOps.getLsbD_clearWord, decide_eq_false hc, Bool.or_false, Bool.and_eq_true,
      Bool.not_eq_true']
    exact (and_iff_right hd).symm

/-- `clear(F)` touches no W1C flag but those of `F` exactly when it takes the direct path, or the
raised W1C flags outside `F` are declared in the mask. -/
theorem clearsOnly_iff (fields : List (Field r)) {f : Field r} (behavior : Nat → WriteBehavior)
    (hb : ∀ i, EffectiveW1C fields i → behavior i = .oneToClear) (word : BitVec r.bits) :
    ClearsOnly behavior fields f word ↔
      RegOps.ClearsDirectly r ∨ RaisedInsideMask fields f word := by
  rw [clearsOnly_iff_word hb]
  constructor
  · intro hone
    by_cases hd : RegOps.ClearsDirectly r
    · exact .inl hd
    · right
      intro i hi he hc hs
      by_contra hm
      apply hc
      apply hone i hi he
      rw [getLsbD_rmwWord_clear_iff hc, getLsbD_busRead]
      exact ⟨hd, hs, Bool.eq_false_of_not_eq_true hm⟩
  · intro h i hi he hw
    by_contra hc
    rw [getLsbD_rmwWord_clear_iff hc, getLsbD_busRead] at hw
    obtain ⟨hd, hs, hm⟩ := hw
    rcases h with h | h
    · exact hd h
    · rw [h i hi he hc hs] at hm
      cases hm

def gpioOutClr : Register :=
  .declare ({ baseAddress := 0xD0000000 } : Device).toParent 0x018 .bits32 (.policy .w1c)

def pin0 : Field gpioOutClr := .bit 0 (by decide)
def pin1 : Field gpioOutClr := .bit 1 (by decide)

theorem pin1_effectiveW1C : EffectiveW1C [pin0, pin1] 1 :=
  .inl ⟨pin1, by simp, by decide, by decide⟩

theorem clearsOnly_fails_unmasked :
    (Op.clear pin0).Admitted .direct ∧
      ¬ ClearsOnly (fun _ => .oneToClear) [pin0, pin1] pin0 0x3#32 := by
  have hadmitted : (Op.clear pin0).Admitted .direct :=
    ⟨by decide, by decide, .inr (by decide)⟩
  refine ⟨hadmitted, ?_⟩
  intro h
  have h1 := h.2 1 (by decide) pin1_effectiveW1C (by decide)
  revert h1
  decide

theorem clearsOnly_iff_alone :
    ClearsOnly (fun _ => .oneToClear) [pin0, pin1] pin0 0x1#32 := by
  refine (clearsOnly_iff [pin0, pin1] _ (fun _ _ => rfl) 0x1#32).mpr (.inr ?_)
  intro i hi _ hc hs
  change (0x1#32).getLsbD i = true at hs
  rw [BitVec.getLsbD_one, Bool.and_eq_true, decide_eq_true_eq, decide_eq_true_eq] at hs
  obtain rfl : i = 0 := hs.2
  exact absurd (by decide) hc

end Umimmio
