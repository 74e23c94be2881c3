import Mathlib.Data.Int.Bitwise
import Umimmio.OpsTrace

namespace Umimmio
open Effects
set_option autoImplicit true

variable {r : Register}

theorem getLsbD_ofInt (e : Int) (hj : j < w) : (BitVec.ofInt w e).getLsbD j = e.testBit j := by
  cases e with
  | ofNat n =>
    rw [Int.ofNat_eq_natCast, BitVec.ofInt_natCast, BitVec.getLsbD_ofNat, decide_eq_true hj,
      Bool.true_and]
    rfl
  | negSucc n =>
    rw [BitVec.ofInt_negSucc_eq_not_ofNat, BitVec.getLsbD_not, BitVec.getLsbD_ofNat,
      decide_eq_true hj, Bool.true_and, Bool.true_and]
    rfl

theorem Assigned.getLsbD_cast (a : Assigned) (hj : j < w) :
    (a.cast w).getLsbD j = a.number.testBit j := by
  cases a with
  | value e => exact getLsbD_ofInt e hj
  | dynamicValue T x =>
    rw [cast, BitVec.getLsbD_setWidth, decide_eq_true hj, Bool.true_and]
    rfl

theorem Field.covers_add {f : Field r} (hj : j < f.bitWidth) :
    (Region.field f).Covers (f.bitOffset + j) :=
  ⟨Nat.le_add_right _ _, Nat.add_lt_add_left hj _⟩

theorem RegionValue.getLsbD_get (word : r.RegValueType) (f : Field r) (j : Nat) :
    (get word f).getLsbD j = (decide (j < f.bitWidth) && word.getLsbD (f.bitOffset + j)) := by
  have hin := f.in_reg
  have hw : f.bitWidth ≤ uintFit f.bitWidth := le_uintFit (by have := r.bits_le; omega)
  have hc : (Region.field f).Covers (f.bitOffset + j) ↔ j < f.bitWidth :=
    ⟨fun h => Nat.lt_of_add_lt_add_left h.2, Field.covers_add⟩
  rw [get, BitVec.getLsbD_setWidth, BitVec.getLsbD_ushiftRight, BitVec.getLsbD_and,
    CInt.getLsbD_promote, CInt.getLsbD_promote, Region.getLsbD_mask, decide_eq_decide.mpr hc]
  by_cases hj : j < f.bitWidth
  · rw [decide_eq_true hj, decide_eq_true (Nat.lt_of_lt_of_le hj hw), Bool.true_and,
      Bool.true_and, Bool.and_true]
  · rw [decide_eq_false hj, Bool.and_false, Bool.and_false, Bool.false_and]

theorem RegionValue.toNat_get {word : r.RegValueType} {f : Field r} {n : Int}
    (h : ∀ j < f.bitWidth, word.getLsbD (f.bitOffset + j) = n.testBit j) :
    ((get word f).toNat : Int) = n % 2 ^ f.bitWidth := by
  have he : (get word f).toNat = (BitVec.ofInt f.bitWidth n).toNat := by
    apply Nat.eq_of_testBit_eq
    intro j
    rw [BitVec.testBit_toNat, BitVec.testBit_toNat, getLsbD_get]
    by_cases hj : j < f.bitWidth
    · rw [decide_eq_true hj, Bool.true_and, h j hj, getLsbD_ofInt n hj]
    · rw [decide_eq_false hj, Bool.false_and, BitVec.getLsbD_of_ge _ _ (Nat.le_of_not_lt hj)]
  have hp : ((2 ^ f.bitWidth : Nat) : Int) ≠ 0 := by
    exact_mod_cast (Nat.two_pow_pos f.bitWidth).ne'
  rw [he, BitVec.toNat_ofInt, Int.toNat_of_nonneg (Int.emod_nonneg n hp), Nat.cast_pow,
    Nat.cast_ofNat]

/-- A `Value` or `DynamicValue` of a field. -/
structure FieldValue (r : Register) where
  field : Field r
  val : Assigned

namespace FieldValue

def toArg (v : FieldValue r) : ValueArg r := ⟨.field v.field, v.val⟩

def Covers (v : FieldValue r) (i : Nat) : Prop := (Region.field v.field).Covers i

def args (values : List (FieldValue r)) : List (ValueArg r) := values.map toArg

def Apart (values : List (FieldValue r)) : Prop :=
  values.Pairwise fun u v => (Region.field u.field).Disjoint (.field v.field)

end FieldValue

/-- The word is the base with each field's value inserted; where fields overlap, the last value
in the pack counts. -/
structure Composes (base : r.RegValueType) (values : List (FieldValue r)) (word : r.RegValueType) :
    Prop where
  outside : ∀ i, (∀ v ∈ values, ¬ v.Covers i) → word.getLsbD i = base.getLsbD i
  inside : ∀ before v after i, values = before ++ v :: after → v.Covers i →
    (∀ u ∈ after, ¬ u.Covers i) → word.getLsbD i = v.val.number.testBit (i - v.field.bitOffset)
  named : FieldValue.Apart values → ∀ v ∈ values,
    ((RegionValue.get word v.field).toNat : Int) = v.val.number % 2 ^ v.field.bitWidth
  unnamed : ∀ f : Field r, (∀ v ∈ values, (Region.field f).Disjoint (.field v.field)) →
    RegionValue.get word f = RegionValue.get base f

theorem names_args_iff (values : List (FieldValue r)) (i : Nat) :
    Names (FieldValue.args values) i ↔ ∃ v ∈ values, v.Covers i := by
  simp only [Names, FieldValue.args, List.mem_map, exists_exists_and_eq_and]
  rfl

theorem packWord_outside (base : r.RegValueType) {values : List (FieldValue r)}
    (h : ∀ v ∈ values, ¬ v.Covers i) :
    (packWord base (FieldValue.args values)).getLsbD i = base.getLsbD i := by
  apply getLsbD_packWord_of_not_names
  rw [names_args_iff]
  rintro ⟨v, hv, hc⟩
  exact h v hv hc

theorem FieldValue.getLsbD_cast {v : FieldValue r} (hc : v.Covers i) :
    (v.val.cast r.valueBits).getLsbD (i - v.field.bitOffset) =
      v.val.number.testBit (i - v.field.bitOffset) := by
  have hi : i < r.valueBits := Region.Covers.lt_valueBits hc
  exact v.val.getLsbD_cast (by omega)

/-- The values before the last one that covers a bit do not matter for it. -/
theorem packWord_inside (base : r.RegValueType) (before : List (FieldValue r)) {v : FieldValue r}
    {after : List (FieldValue r)} (hc : v.Covers i) (h : ∀ u ∈ after, ¬ u.Covers i) :
    (packWord base (FieldValue.args (before ++ v :: after))).getLsbD i =
      v.val.number.testBit (i - v.field.bitOffset) := by
  induction before generalizing base with
  | nil =>
    have hcast := FieldValue.getLsbD_cast hc
    rw [List.nil_append, FieldValue.args, List.map_cons, packWord_cons]
    refine (packWord_outside _ h).trans ((getLsbD_insertValue base v.toArg i).trans ?_)
    exact (if_pos hc).trans hcast
  | cons u before ih => exact ih _

theorem packWord_named (base : r.RegValueType) {values : List (FieldValue r)}
    (hd : FieldValue.Apart values) (hv : v ∈ values) (hc : v.Covers i) :
    (packWord base (FieldValue.args values)).getLsbD i =
      v.val.number.testBit (i - v.field.bitOffset) := by
  have hd' : (FieldValue.args values).Pairwise fun u v => u.region.Disjoint v.region :=
    List.pairwise_map.mpr hd
  rw [getLsbD_packWord_of_mem base hd' (List.mem_map_of_mem hv) hc]
  exact FieldValue.getLsbD_cast hc

theorem packWord_composes (base : r.RegValueType) (values : List (FieldValue r)) :
    Composes base values (packWord base (FieldValue.args values)) where
  outside i h := packWord_outside base h
  inside before v after i hs hc h := by
    rw [hs]
    exact packWord_inside base before hc h
  named hd v hv := by
    apply RegionValue.toNat_get
    intro j hj
    have hc : v.Covers (v.field.bitOffset + j) := Field.covers_add hj
    rw [packWord_named base hd hv hc, Nat.add_sub_cancel_left]
  unnamed f hd := by
    apply BitVec.eq_of_getLsbD_eq
    intro j _
    rw [RegionValue.getLsbD_get, RegionValue.getLsbD_get]
    by_cases hj : j < f.bitWidth
    · rw [packWord_outside base fun v hv => hd v hv _ (Field.covers_add hj)]
    · rw [decide_eq_false hj, Bool.false_and, Bool.false_and]

theorem FieldValue.Apart.perm {values values' : List (FieldValue r)} (hd : Apart values)
    (hp : values.Perm values') : Apart values' := by
  apply (hp.pairwise_iff ?_).mp hd
  intro u v huv i hv hu
  exact huv i hu hv

theorem packWord_perm (base : r.RegValueType) {values values' : List (FieldValue r)}
    (hd : FieldValue.Apart values) (hp : values.Perm values') :
    packWord base (FieldValue.args values') = packWord base (FieldValue.args values) := by
  apply BitVec.eq_of_getLsbD_eq
  intro i _
  by_cases hn : ∃ v ∈ values, v.Covers i
  · obtain ⟨v, hv, hc⟩ := hn
    rw [packWord_named base hd hv hc, packWord_named base (hd.perm hp) (hp.mem_iff.mp hv) hc]
  · have hn' : ∀ v ∈ values, ¬ v.Covers i := fun v hv hc => hn ⟨v, hv, hc⟩
    rw [packWord_outside base hn', packWord_outside base fun v hv => hn' v (hp.mem_iff.mpr hv)]

theorem writeWord_args (values : List (FieldValue r)) :
    writeWord (FieldValue.args values) = packWord r.resetValue (FieldValue.args values) :=
  match values with
  | [] => rfl
  | [_] => rfl
  | _ :: _ :: _ => rfl

theorem maskW1c_of_zero (hm : r.w1cMask = 0) (current : r.RegValueType) :
    maskW1c current = current :=
  if_neg (not_not.mpr hm)

/-- A write or modify of a pack of field values puts one word on the bus, the base with the
values inserted; with disjoint fields the order of the pack does not matter. -/
theorem packs_compose (checkPolicy : Bool) (values : List (FieldValue r)) (h : RegHandler r σ)
    (s : σ) :
    (∃ w, RegOps.words h (RegOps.write checkPolicy (FieldValue.args values)) s = [w] ∧
      Composes r.resetValue values w) ∧
    (r.w1cMask = 0 →
      ∃ w, RegOps.words h (RegOps.modify checkPolicy (FieldValue.args values)) s = [w] ∧
        Composes (h .regRead s).1 values w) ∧
    (FieldValue.Apart values → ∀ values', values.Perm values' →
      RegOps.words h (RegOps.write checkPolicy (FieldValue.args values')) s =
        RegOps.words h (RegOps.write checkPolicy (FieldValue.args values)) s ∧
      RegOps.words h (RegOps.modify checkPolicy (FieldValue.args values')) s =
        RegOps.words h (RegOps.modify checkPolicy (FieldValue.args values)) s) := by
  constructor
  · rw [RegOps.words_write, writeWord_args]
    exact ⟨_, rfl, packWord_composes _ values⟩
  · constructor
    · intro hm
      rw [RegOps.words_modify, maskW1c_of_zero hm]
      exact ⟨_, rfl, packWord_composes _ values⟩
    · intro hd values' hp
      rw [RegOps.words_write, RegOps.words_write, writeWord_args, writeWord_args,
        RegOps.words_modify, RegOps.words_modify]
      exact ⟨congrArg (fun w => [w]) (packWord_perm _ hd hp),
        congrArg (fun w => [maskW1c w]) (packWord_perm _ hd hp)⟩

end Umimmio
