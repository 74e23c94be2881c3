import Umimmio.Ops

namespace Umimmio
open Effects
set_option autoImplicit true

variable {r : Register}

def packWord (base : r.RegValueType) (values : List (ValueArg r)) : r.RegValueType :=
  values.foldl RegOps.insertValue base

def maskW1c (current : r.RegValueType) : r.RegValueType :=
  if r.w1cMask ≠ 0 then CInt.andNot current r.w1cMask else current

/-- Some value of the pack is for a region that contains the bit. -/
def Names (values : List (ValueArg r)) (i : Nat) : Prop :=
  ∃ v ∈ values, v.region.Covers i

instance (values : List (ValueArg r)) (i : Nat) : Decidable (Names values i) :=
  inferInstanceAs (Decidable (∃ v ∈ values, v.region.Covers i))

def Region.Disjoint (R R' : Region r) : Prop := ∀ i, R.Covers i → ¬ R'.Covers i

@[simp] theorem getLsbD_maskW1c (current : r.RegValueType) (i : Nat) :
    (maskW1c current).getLsbD i = (current.getLsbD i && !r.w1cMask.getLsbD i) := by
  unfold maskW1c
  split_ifs with h
  · exact CInt.getLsbD_andNot _ _ _
  · rw [not_not.mp h, BitVec.ofNat_eq_ofNat, BitVec.getLsbD_zero, Bool.not_false, Bool.and_true]

theorem getLsbD_insertValue (base : r.RegValueType) (v : ValueArg r) (i : Nat) :
    (RegOps.insertValue base v).getLsbD i =
      if v.region.Covers i then (v.val.cast r.valueBits).getLsbD (i - v.region.shift)
      else base.getLsbD i := by
  rw [RegOps.insertValue, CInt.getLsbD_insert, Region.getLsbD_mask]
  by_cases hc : v.region.Covers i
  · rw [if_pos (decide_eq_true hc), if_pos hc, decide_eq_true hc.1, Bool.true_and]
  · rw [if_neg (by rw [decide_eq_false hc]; exact Bool.false_ne_true), if_neg hc]

@[simp] theorem packWord_cons (base : r.RegValueType) (v : ValueArg r)
    (values : List (ValueArg r)) :
    packWord base (v :: values) = packWord (RegOps.insertValue base v) values :=
  rfl

theorem getLsbD_packWord_of_not_names (base : r.RegValueType) {values : List (ValueArg r)}
    (h : ¬ Names values i) : (packWord base values).getLsbD i = base.getLsbD i := by
  induction values generalizing base with
  | nil => rfl
  | cons v values ih =>
    have hv : ¬ v.region.Covers i := fun hc => h ⟨v, by simp, hc⟩
    have hn : ¬ Names values i := fun ⟨u, hu, hc⟩ => h ⟨u, by simp [hu], hc⟩
    rw [packWord_cons, ih _ hn, getLsbD_insertValue, if_neg hv]

/-- With pairwise disjoint regions every value of the pack ends up in its region. -/
theorem getLsbD_packWord_of_mem (base : r.RegValueType) {values : List (ValueArg r)}
    (hd : values.Pairwise fun u v => u.region.Disjoint v.region) (hv : v ∈ values)
    (hc : v.region.Covers i) :
    (packWord base values).getLsbD i =
      (v.val.cast r.valueBits).getLsbD (i - v.region.shift) := by
  induction values generalizing base with
  | nil => cases hv
  | cons u values ih =>
    rw [List.pairwise_cons] at hd
    rw [packWord_cons]
    rcases List.mem_cons.mp hv with rfl | hv
    · have hn : ¬ Names values i := fun ⟨w, hw, hcw⟩ => hd.1 w hw i hc hcw
      rw [getLsbD_packWord_of_not_names _ hn, getLsbD_insertValue, if_pos hc]
    · exact ih _ hd.2 hv

def writeWord : List (ValueArg r) → r.RegValueType
  | [v] => if v.region.isRegister then v.val.cast r.valueBits else packWord r.resetValue [v]
  | values => packWord r.resetValue values

theorem getLsbD_writeWord_of_not_names {values : List (ValueArg r)} (hi : i < r.bits)
    (h : ¬ Names values i) : (writeWord values).getLsbD i = r.resetValue.getLsbD i := by
  unfold writeWord
  split
  next v =>
    have hr : ¬ v.region.isRegister = true := by
      intro hr
      refine h ⟨v, List.mem_singleton.mpr rfl, ?_⟩
      cases hv : v.region with
      | register => exact Region.covers_register_iff.mpr hi
      | field f =>
        rw [hv] at hr
        cases hr
    rw [if_neg hr, getLsbD_packWord_of_not_names _ h]
  next => exact getLsbD_packWord_of_not_names _ h

namespace ValueArg

/-- The argument is a dynamic value that does not fit its region. -/
def Exceeds (v : ValueArg r) : Prop :=
  match v.val with
  | .value _ => False
  | .dynamicValue _ x => 2 ^ v.region.bitWidth - 1 < x.toNat

instance (v : ValueArg r) : Decidable v.Exceeds :=
  match v with
  | ⟨_, .value _⟩ => inferInstanceAs (Decidable False)
  | ⟨_, .dynamicValue _ _⟩ => inferInstanceAs (Decidable (_ < _))

def rangeErrors (checkPolicy : Bool) (v : ValueArg r) : List String :=
  if checkPolicy ∧ v.Exceeds then ["Value out of range"] else []

theorem InRange.rangeErrors {v : ValueArg r} (hv : v.InRange) (checkPolicy : Bool) :
    v.rangeErrors checkPolicy = [] := by
  obtain ⟨R, a⟩ := v
  refine if_neg fun h => ?_
  cases a with
  | value e => exact h.2
  | dynamicValue T x =>
    have hx : (x.toNat : Int) < 2 ^ R.bitWidth := hv.2
    have hn : x.toNat < 2 ^ R.bitWidth := by exact_mod_cast hx
    exact Nat.not_lt_of_le (Nat.le_sub_one_of_lt hn) h.2

theorem rangeErrors_inRange (checkPolicy : Bool) {values : List (ValueArg r)}
    (hv : ∀ v ∈ values, v.InRange) : values.flatMap (·.rangeErrors checkPolicy) = [] :=
  List.flatMap_eq_nil_iff.mpr fun v h => (hv v h).rangeErrors checkPolicy

end ValueArg

namespace RegOps

theorem exceeds_iff (R : Region r) (x : BitVec (Carrier.bits T)) :
    (R.bitWidth < T.bits ∧ (1#64 <<< R.bitWidth) - 1#64 < x.setWidth 64) ↔
      2 ^ R.bitWidth ≤ x.toNat := by
  have hT : T.bits ≤ 64 := by cases T <;> decide
  by_cases hw : R.bitWidth < T.bits
  · have hp : 2 ^ R.bitWidth < 2 ^ 64 := Nat.pow_lt_pow_right (by omega) (by omega)
    have h1 : (1#64).toNat = 1 := rfl
    have hs : (1#64 <<< R.bitWidth).toNat = 2 ^ R.bitWidth := by
      rw [BitVec.toNat_shiftLeft, h1, Nat.one_shiftLeft, Nat.mod_eq_of_lt hp]
    have hle : 1#64 ≤ 1#64 <<< R.bitWidth := by
      rw [BitVec.le_def, hs, h1]
      exact Nat.one_le_two_pow
    rw [and_iff_right hw, BitVec.lt_def, BitVec.toNat_sub_of_le hle, hs,
      BitVec.toNat_setWidth_of_le hT, h1]
    have h0 : 0 < 2 ^ R.bitWidth := Nat.two_pow_pos _
    omega
  · have hp : 2 ^ T.bits ≤ 2 ^ R.bitWidth := Nat.pow_le_pow_right (by omega) (by omega)
    have hx := x.isLt
    exact iff_of_false (fun h => hw h.1) (by omega)

theorem checkDynamicRange_eq (checkPolicy : Bool) (R : Region r) (x : BitVec (Carrier.bits T)) :
    checkDynamicRange checkPolicy R x =
      if checkPolicy ∧ 2 ^ R.bitWidth ≤ x.toNat then onRangeError r "Value out of range"
      else pure () := by
  simp only [checkDynamicRange, exceeds_iff]

def checkValue (checkPolicy : Bool) (v : ValueArg r) : RegProg r Unit :=
  match v.val with
  | .value _ => pure ()
  | .dynamicValue _ x => checkDynamicRange checkPolicy v.region x

theorem applyFieldValue_eq (checkPolicy : Bool) (regVal : r.RegValueType) (v : ValueArg r) :
    applyFieldValue checkPolicy regVal v =
      checkValue checkPolicy v >>= fun _ => pure (insertValue regVal v) := by
  obtain ⟨R, a⟩ := v
  cases a <;> rfl

theorem is_eq (checkPolicy : Bool) (v : ValueArg r) :
    is checkPolicy v =
      checkValue checkPolicy v >>= fun _ => (RegionValue.is · v) <$> read r := by
  obtain ⟨R, a⟩ := v
  cases a <;> rfl

def reportAll (r : Register) (msgs : List String) : RegProg r Unit := forM msgs (onRangeError r)

theorem reportAll_append (msgs msgs' : List String) :
    reportAll r (msgs ++ msgs') = reportAll r msgs >>= fun _ => reportAll r msgs' :=
  List.forM_append

theorem checkValue_eq (checkPolicy : Bool) (v : ValueArg r) :
    checkValue checkPolicy v = reportAll r (v.rangeErrors checkPolicy) := by
  obtain ⟨R, a⟩ := v
  cases a with
  | value e =>
    rw [ValueArg.rangeErrors, if_neg fun hx => hx.2]
    rfl
  | dynamicValue T x =>
    have hx : 2 ^ R.bitWidth ≤ x.toNat ↔ (⟨R, .dynamicValue T x⟩ : ValueArg r).Exceeds := by
      have hp : 0 < 2 ^ R.bitWidth := Nat.two_pow_pos _
      simp only [ValueArg.Exceeds]
      omega
    simp only [checkValue, checkDynamicRange_eq, ValueArg.rangeErrors, ← hx]
    split_ifs <;> rfl

theorem foldlM_eq (checkPolicy : Bool) (base : r.RegValueType) (values : List (ValueArg r)) :
    values.foldlM (applyFieldValue checkPolicy) base =
      reportAll r (values.flatMap (·.rangeErrors checkPolicy)) >>= fun _ =>
        pure (packWord base values) := by
  induction values generalizing base with
  | nil => rfl
  | cons v values ih =>
    rw [List.foldlM_cons, applyFieldValue_eq, bind_assoc, checkValue_eq, List.flatMap_cons,
      reportAll_append, bind_assoc]
    refine congrArg _ (funext fun _ => ?_)
    rw [pure_bind, ih]
    rfl

def writeErrors (checkPolicy : Bool) : List (ValueArg r) → List String
  | [v] => if v.region.isRegister then [] else v.rangeErrors checkPolicy
  | values => values.flatMap (·.rangeErrors checkPolicy)

theorem writeMultiple_eq (checkPolicy : Bool) (values : List (ValueArg r)) :
    writeMultiple checkPolicy values =
      reportAll r (values.flatMap (·.rangeErrors checkPolicy)) >>= fun _ =>
        regWrite (packWord r.resetValue values) := by
  rw [writeMultiple, foldlM_eq, bind_assoc]
  rfl

theorem writeSingle_eq (checkPolicy : Bool) (v : ValueArg r) :
    writeSingle checkPolicy v =
      reportAll r (writeErrors checkPolicy [v]) >>= fun _ => regWrite (writeWord [v]) := by
  rw [writeSingle, writeErrors, writeWord]
  by_cases hr : v.region.isRegister
  · rw [if_pos hr, if_pos hr, if_pos hr]
    rfl
  · rw [if_neg hr, if_neg hr, if_neg hr, writeFieldValue, applyFieldValue_eq, bind_assoc,
      checkValue_eq]
    rfl

/-- A write reports its range errors and then writes one word. -/
theorem write_eq (checkPolicy : Bool) (values : List (ValueArg r)) :
    write checkPolicy values =
      reportAll r (writeErrors checkPolicy values) >>= fun _ => regWrite (writeWord values) :=
  match values with
  | [] => writeMultiple_eq checkPolicy []
  | [v] => writeSingle_eq checkPolicy v
  | u :: v :: values => writeMultiple_eq checkPolicy (u :: v :: values)

theorem modify_eq (checkPolicy : Bool) (values : List (ValueArg r)) :
    modify checkPolicy values = regRead r >>= fun current =>
      reportAll r (values.flatMap (·.rangeErrors checkPolicy)) >>= fun _ =>
        regWrite (maskW1c (packWord current values)) := by
  rw [modify, modifyImpl]
  simp only [foldlM_eq, bind_assoc]
  rfl

theorem modify_inRange (checkPolicy : Bool) {values : List (ValueArg r)}
    (hv : ∀ v ∈ values, v.InRange) :
    modify checkPolicy values =
      .call .regRead fun current => regWrite (maskW1c (packWord current values)) := by
  rw [modify_eq, ValueArg.rangeErrors_inRange checkPolicy hv]
  rfl

/-- The register has no bit outside its W1C mask, so a clear writes without reading. -/
def ClearsDirectly (r : Register) : Prop := r.w1cMask = (Region.register : Region r).mask

instance (r : Register) : Decidable (ClearsDirectly r) :=
  inferInstanceAs (Decidable (_ = _))

def clearWord (f : Field r) (current : r.RegValueType) : r.RegValueType :=
  CInt.orAssign (CInt.andNot current r.w1cMask) (Region.field f).mask

theorem clear_direct (f : Field r) (h : ClearsDirectly r) :
    clear f = regWrite (Region.field f).mask :=
  if_pos h

theorem clear_mixed (f : Field r) (h : ¬ ClearsDirectly r) :
    clear f = .call .regRead fun current => regWrite (clearWord f current) :=
  if_neg h

@[simp] theorem getLsbD_clearWord (f : Field r) (current : r.RegValueType) (i : Nat) :
    (clearWord f current).getLsbD i =
      (current.getLsbD i && !r.w1cMask.getLsbD i || decide ((Region.field f).Covers i)) := by
  rw [clearWord, CInt.getLsbD_orAssign, CInt.getLsbD_andNot, Region.getLsbD_mask]

section Quiet

variable {σ : Type} {h : RegHandler r σ} (hq : ∀ msg s, (h (.onRangeError msg) s).2 = s)
include hq

theorem run_reportAll (msgs : List String) (s : σ) : ((reportAll r msgs).run h s).2 = s := by
  induction msgs generalizing s with
  | nil => rfl
  | cons msg msgs ih => exact (ih _).trans (hq msg s)

theorem run_is (checkPolicy : Bool) (v : ValueArg r) (s : σ) :
    (is checkPolicy v).run h s = (RegionValue.is (h .regRead s).1 v, (h .regRead s).2) := by
  rw [is_eq, checkValue_eq, Prog.run_bind, run_reportAll hq]
  rfl

theorem run_write (checkPolicy : Bool) (values : List (ValueArg r)) (s : σ) :
    (write checkPolicy values).run h s = h (.regWrite (writeWord values)) s := by
  rw [write_eq, Prog.run_bind, run_reportAll hq]
  rfl

theorem run_modify (checkPolicy : Bool) (values : List (ValueArg r)) (s : σ) :
    (modify checkPolicy values).run h s =
      h (.regWrite (maskW1c (packWord (h .regRead s).1 values))) (h .regRead s).2 := by
  rw [modify_eq, Prog.run_bind, Prog.run_bind, run_reportAll hq]
  rfl

end Quiet

end RegOps

def Op.rmwWord : Op r → r.RegValueType → r.RegValueType
  | .modify values, current => maskW1c (packWord current values)
  | .flip f, current => maskW1c (CInt.xorAssign current (Region.field f).mask)
  | .clear f, current =>
    if RegOps.ClearsDirectly r then (Region.field f).mask else RegOps.clearWord f current
  | _, current => current

/-- The positions whose stored bits the operation asks to change. -/
def Op.Names : Op r → Nat → Prop
  | .modify values, i => Umimmio.Names values i
  | .flip f, i => (Region.field f).Covers i
  | _, _ => False

def Op.WritesBack : Op r → Prop
  | .modify _ => True
  | .flip _ => True
  | _ => False

theorem getLsbD_rmwWord_of_not_names {op : Op r} (hop : op.WritesBack) (hn : ¬ op.Names i) :
    (op.rmwWord current).getLsbD i = (current.getLsbD i && !r.w1cMask.getLsbD i) := by
  cases op with
  | modify values =>
    rw [Op.rmwWord, getLsbD_maskW1c, getLsbD_packWord_of_not_names current hn]
  | flip f =>
    have hc : decide ((Region.field f).Covers i) = false := decide_eq_false hn
    rw [Op.rmwWord, getLsbD_maskW1c, CInt.getLsbD_xorAssign, Region.getLsbD_mask, hc,
      Bool.xor_false]
  | _ => exact hop.elim

/-- The operations that read a register and write it back: also the clear of a mixed register. -/
def Op.IsRmw : Op r → Prop
  | .modify _ => True
  | .flip _ => True
  | .clear _ => ¬ RegOps.ClearsDirectly r
  | _ => False

theorem Op.WritesBack.isRmw {op : Op r} (hop : op.WritesBack) : op.IsRmw := by
  cases op with
  | modify values => trivial
  | flip f => trivial
  | _ => exact hop.elim

section Runs

variable {σ : Type} {h : RegHandler r σ} (hq : ∀ msg s, (h (.onRangeError msg) s).2 = s)
include hq

theorem Op.IsRmw.run {op : Op r} (hop : op.IsRmw) (checkPolicy : Bool) (s : σ) :
    (op.prog checkPolicy).run h s =
      (.done, (h (.regWrite (op.rmwWord (h .regRead s).1)) (h .regRead s).2).2) := by
  cases op with
  | modify values =>
    rw [Op.prog, Prog.run_map, RegOps.run_modify hq]
    rfl
  | flip f => rfl
  | clear f =>
    have hd : ¬ RegOps.ClearsDirectly r := hop
    have hw : (Op.clear f).rmwWord (h .regRead s).1 = RegOps.clearWord f (h .regRead s).1 :=
      if_neg hd
    rw [Op.prog, Prog.run_map, RegOps.clear_mixed f hd, hw]
    rfl
  | _ => exact hop.elim

/-- An operation that is no read-modify-write makes one register access. -/
theorem Op.run_state_of_not_isRmw {op : Op r} (hop : ¬ op.IsRmw) (checkPolicy : Bool) :
    (∀ s, ((op.prog checkPolicy).run h s).2 = (h .regRead s).2) ∨
      ∃ w, ∀ s, ((op.prog checkPolicy).run h s).2 = (h (.regWrite w) s).2 := by
  cases op with
  | write values =>
    refine .inr ⟨writeWord values, fun s => ?_⟩
    rw [Op.prog, Prog.run_map, RegOps.run_write hq]
  | read => exact .inl fun s => rfl
  | readField f => exact .inl fun s => rfl
  | is v =>
    refine .inl fun s => ?_
    rw [Op.prog, Prog.run_map, RegOps.run_is hq]
  | modify values => exact absurd trivial hop
  | flip f => exact absurd trivial hop
  | clear f =>
    have hd : RegOps.ClearsDirectly r := not_not.mp hop
    refine .inr ⟨(Region.field f).mask, fun s => ?_⟩
    rw [Op.prog, Prog.run_map, RegOps.clear_direct f hd]
    rfl
  | reset => exact .inr ⟨r.resetValue, fun s => rfl⟩
  | readVariant f variants => exact .inl fun s => rfl

end Runs

end Umimmio
