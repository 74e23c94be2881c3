import Umimmio.Hardware
import Umimmio.PackWords

namespace Umimmio
open Effects
set_option autoImplicit true

variable {r : Register}

def wordStore : RegHandler r (BitVec r.bits) := hardware fun _ => .normal

def namedValue (f : Field r) (e : Int) : FieldValue r := ⟨f, .value e⟩

/-- After the operation every comparison with the value holds, and its shifted value is the word
written under the mask of the field. -/
structure MeansSame (checkPolicy : Bool) (f : Field r) (e : Int) (op : RegProg r Unit)
    (word : BitVec r.bits) : Prop where
  is : ((RegOps.is checkPolicy (namedValue f e).toArg).run wordStore (op.run wordStore word).2).1 =
    true
  eq : RegionValue.eq ((RegOps.readField f).run wordStore (op.run wordStore word).2).1 (.value e) =
    true
  variant : ((RegOps.readVariant f [e]).run wordStore (op.run wordStore word).2).1 =
    .alternative 0
  shifted : ∃ w, RegOps.words wordStore op word = [w] ∧
    shiftedValue f e = CInt.promote w &&& CInt.promote (Region.field f).mask

/-- The bits of the value above the field's width are lost in every cast to the storage type of the
field, and in the shift of the value cast to the register's type. -/
def Field.Holds (f : Field r) (e : Int) : Prop :=
  ∀ j, f.bitWidth ≤ j → e.testBit j = true →
    uintFit f.bitWidth ≤ j ∧ (r.valueBits ≤ j ∨ CInt.intBits r.valueBits ≤ f.bitOffset + j)

def Field.Carries (f : Field r) (w : r.RegValueType) (e : Int) : Prop :=
  ∀ j < f.bitWidth, w.getLsbD (f.bitOffset + j) = e.testBit j

theorem Field.Carries.get_eq_iff {f : Field r} {w : r.RegValueType} (h : f.Carries w e) :
    RegionValue.get w f = BitVec.ofInt (uintFit f.bitWidth) e ↔
      ∀ j, f.bitWidth ≤ j → j < uintFit f.bitWidth → e.testBit j = false := by
  constructor
  · intro he j hj hfit
    have hbit := congrArg (fun x => x.getLsbD j) he
    simp only [RegionValue.getLsbD_get, decide_eq_false (Nat.not_lt.mpr hj), Bool.false_and,
      getLsbD_ofInt e hfit] at hbit
    exact hbit.symm
  · intro hz
    apply BitVec.eq_of_getLsbD_eq
    intro j hfit
    rw [RegionValue.getLsbD_get, getLsbD_ofInt e hfit]
    by_cases hj : j < f.bitWidth
    · rw [decide_eq_true hj, Bool.true_and, h j hj]
    · rw [decide_eq_false hj, Bool.false_and, hz j (Nat.le_of_not_lt hj) hfit]

theorem getLsbD_shiftedValue (f : Field r) (e : Int) (hi : i < CInt.intBits r.valueBits) :
    (shiftedValue f e).getLsbD i =
      (decide (f.bitOffset ≤ i ∧ i - f.bitOffset < r.valueBits) &&
        e.testBit (i - f.bitOffset)) := by
  rw [shiftedValue, BitVec.getLsbD_shiftLeft, CInt.getLsbD_promote, decide_eq_true hi,
    Bool.true_and]
  by_cases ho : f.bitOffset ≤ i
  · by_cases hv : i - f.bitOffset < r.valueBits
    · rw [decide_eq_false (Nat.not_lt.mpr ho), Bool.not_false, Bool.true_and, getLsbD_ofInt e hv,
        decide_eq_true ⟨ho, hv⟩, Bool.true_and]
    · rw [BitVec.getLsbD_of_ge _ _ (Nat.le_of_not_lt hv), Bool.and_false,
        decide_eq_false fun h => hv h.2, Bool.false_and]
  · rw [decide_eq_true (Nat.lt_of_not_le ho), Bool.not_true, Bool.false_and,
      decide_eq_false fun h => ho h.1, Bool.false_and]

theorem Field.Carries.getLsbD_masked {f : Field r} {w : r.RegValueType} (h : f.Carries w e)
    (i : Nat) :
    (CInt.promote w &&& CInt.promote (Region.field f).mask).getLsbD i =
      (decide ((Region.field f).Covers i) && e.testBit (i - f.bitOffset)) := by
  rw [BitVec.getLsbD_and, CInt.getLsbD_promote, CInt.getLsbD_promote, Region.getLsbD_mask]
  by_cases hc : (Region.field f).Covers i
  · obtain ⟨j, rfl⟩ := Nat.exists_eq_add_of_le hc.1
    have hw : w.getLsbD ((Region.field f).shift + j) = e.testBit j :=
      h j (Nat.lt_of_add_lt_add_left hc.2)
    have hj : (Region.field f).shift + j - f.bitOffset = j := Nat.add_sub_cancel_left _ _
    rw [hw, hj, Bool.and_comm]
  · rw [decide_eq_false hc, Bool.and_false, Bool.false_and]

theorem Field.Carries.shifted_iff {f : Field r} {w : r.RegValueType} (h : f.Carries w e) :
    shiftedValue f e = CInt.promote w &&& CInt.promote (Region.field f).mask ↔
      ∀ j, f.bitWidth ≤ j → j < r.valueBits → f.bitOffset + j < CInt.intBits r.valueBits →
        e.testBit j = false := by
  constructor
  · intro he j hj hv hp
    have hc : ¬ (Region.field f).Covers (f.bitOffset + j) := fun hc =>
      Nat.not_lt.mpr hj (Nat.lt_of_add_lt_add_left hc.2)
    have hbit := congrArg (fun x => x.getLsbD (f.bitOffset + j)) he
    simp only [getLsbD_shiftedValue f e hp, h.getLsbD_masked, decide_eq_false hc, Bool.false_and,
      Nat.add_sub_cancel_left, Nat.le_add_right, hv, and_self, decide_true, Bool.true_and] at hbit
    exact hbit
  · intro hz
    apply BitVec.eq_of_getLsbD_eq
    intro i hi
    rw [getLsbD_shiftedValue f e hi, h.getLsbD_masked]
    by_cases hc : (Region.field f).Covers i
    · have hv : i - f.bitOffset < r.valueBits := Nat.lt_of_le_of_lt (Nat.sub_le _ _) hc.lt_valueBits
      rw [decide_eq_true hc, decide_eq_true ⟨hc.1, hv⟩]
    · rw [decide_eq_false hc, Bool.false_and, Bool.and_eq_false_imp]
      intro hd
      obtain ⟨ho, hv⟩ := of_decide_eq_true hd
      have hj : f.bitWidth ≤ i - f.bitOffset :=
        Nat.le_of_not_lt fun hj => hc ⟨ho, (Nat.sub_lt_iff_lt_add' ho).mp hj⟩
      apply hz _ hj hv
      rwa [Nat.add_sub_cancel' ho]

theorem Field.holds_iff (f : Field r) (e : Int) :
    f.Holds e ↔
      (∀ j, f.bitWidth ≤ j → j < uintFit f.bitWidth → e.testBit j = false) ∧
      ∀ j, f.bitWidth ≤ j → j < r.valueBits → f.bitOffset + j < CInt.intBits r.valueBits →
        e.testBit j = false := by
  constructor
  · intro h
    constructor
    · intro j hj hfit
      by_contra hb
      exact Nat.not_le.mpr hfit (h j hj (Bool.eq_true_of_not_eq_false hb)).1
    · intro j hj hv hp
      by_contra hb
      rcases (h j hj (Bool.eq_true_of_not_eq_false hb)).2 with hle | hle
      · exact Nat.not_le.mpr hv hle
      · exact Nat.not_le.mpr hp hle
  · rintro ⟨hfit, hshift⟩ j hj hb
    constructor
    · by_contra hle
      rw [hfit j hj (Nat.lt_of_not_le hle)] at hb
      cases hb
    · by_contra hle
      rw [not_or, Nat.not_le, Nat.not_le] at hle
      rw [hshift j hj hle.1 hle.2] at hb
      cases hb

theorem getLsbD_stored (w : r.RegValueType) (word : BitVec r.bits) (hi : i < r.bits) :
    (busRead (busWrite (fun _ => .normal) w word)).getLsbD i = w.getLsbD i := by
  rw [getLsbD_busRead, getLsbD_busWrite _ _ _ hi]
  rfl

theorem Field.Carries.stored {f : Field r} {w : r.RegValueType} (h : f.Carries w e)
    (word : BitVec r.bits) : f.Carries (busRead (busWrite (fun _ => .normal) w word)) e := by
  intro j hj
  have hin := f.in_reg
  rw [getLsbD_stored w word (by omega), h j hj]

theorem meansSame_iff_of_word {checkPolicy : Bool} {f : Field r} {op : RegProg r Unit}
    {w : r.RegValueType} {word : BitVec r.bits} (hw : RegOps.words wordStore op word = [w])
    (hs : (op.run wordStore word).2 = busWrite (fun _ => .normal) w word) (h : f.Carries w e) :
    MeansSame checkPolicy f e op word ↔ f.Holds e := by
  have hread : (wordStore .regRead (op.run wordStore word).2).1 =
      busRead (busWrite (fun _ => .normal) w word) := congrArg busRead hs
  have hget := (h.stored word).get_eq_iff
  rw [f.holds_iff, ← hget, ← h.shifted_iff, ← hread]
  constructor
  · intro hm
    obtain ⟨w', hw', hshifted⟩ := hm.shifted
    obtain rfl := List.singleton_inj.mp (hw.symm.trans hw')
    exact ⟨beq_iff_eq.mp hm.eq, hshifted⟩
  · rintro ⟨hvalue, hshifted⟩
    refine ⟨?_, beq_iff_eq.mpr hvalue, if_pos hvalue, w, hw, hshifted⟩
    rw [RegOps.run_is fun _ _ => rfl]
    exact beq_iff_eq.mpr hvalue

theorem carries_packWord (base : r.RegValueType) (f : Field r) (e : Int) :
    f.Carries (packWord base (FieldValue.args [namedValue f e])) e := by
  intro j hj
  have hc : (namedValue f e).Covers (f.bitOffset + j) := Field.covers_add hj
  rw [packWord_named base (List.pairwise_singleton _ _) (List.mem_singleton_self _) hc]
  exact congrArg _ (Nat.add_sub_cancel_left _ _)

/-- A named value reads back as itself and agrees with its shifted value, after a write or modify,
exactly when its bits above the field's width are lost in every cast. -/
theorem meansSame_iff (checkPolicy : Bool) (f : Field r) (e : Int) (hm : r.w1cMask = 0)
    (word : BitVec r.bits) :
    (MeansSame checkPolicy f e
        (RegOps.write checkPolicy (FieldValue.args [namedValue f e])) word ↔ f.Holds e) ∧
    (MeansSame checkPolicy f e
        (RegOps.modify checkPolicy (FieldValue.args [namedValue f e])) word ↔ f.Holds e) := by
  constructor
  · have hword := RegOps.words_write checkPolicy (FieldValue.args [namedValue f e]) wordStore word
    have hrun := RegOps.run_write (h := wordStore) (fun _ _ => rfl) checkPolicy
      (FieldValue.args [namedValue f e]) word
    rw [writeWord_args] at hword hrun
    exact meansSame_iff_of_word hword (congrArg Prod.snd hrun) (carries_packWord _ f e)
  · have hword := RegOps.words_modify checkPolicy (FieldValue.args [namedValue f e]) wordStore word
    have hrun := RegOps.run_modify (h := wordStore) (fun _ _ => rfl) checkPolicy
      (FieldValue.args [namedValue f e]) word
    rw [maskW1c_of_zero hm] at hword hrun
    exact meansSame_iff_of_word hword (congrArg Prod.snd hrun) (carries_packWord _ f e)

def outputRegister : Register := .declare ({} : Device).toParent 0x20 .bits32

def outputEnable : Field outputRegister := .bit 4 (by decide)

/-- The written bit is 0, and the comparison is with 2. -/
theorem meansSame_fails_wide :
    (Op.write (FieldValue.args [namedValue outputEnable 2])).Admitted .direct ∧
      ¬ MeansSame true outputEnable 2
        (RegOps.write true (FieldValue.args [namedValue outputEnable 2])) 0#32 := by
  have hadmitted :
      (Op.write (FieldValue.args [namedValue outputEnable 2])).Admitted .direct := by
    apply Op.admitted_write_singleton <;> decide
  refine ⟨hadmitted, ?_⟩
  intro h
  have his := h.is
  revert his
  decide

theorem outputEnable_holds : outputEnable.Holds 1 := by
  intro j hj hb
  have h0 : j = 0 := Nat.testBit_one_eq_true_iff_self_eq_zero.mp hb
  exact absurd (h0 ▸ hj : 1 ≤ 0) (by omega)

theorem meansSame_iff_enable :
    MeansSame true outputEnable 1
      (RegOps.modify true (FieldValue.args [namedValue outputEnable 1])) 0x3#32 :=
  (meansSame_iff true outputEnable 1 (by decide) 0x3#32).2.mpr outputEnable_holds

end Umimmio
