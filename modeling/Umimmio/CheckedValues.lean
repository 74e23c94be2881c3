import Umimmio.PackWords
import Umimmio.RangeChecks
import Umimmio.SharedStore
import Umimmio.Wirings

namespace Umimmio
open Effects Bytes
set_option autoImplicit true

variable {r : Register}

/-- A value out of range does not compile where it is constant evaluated. -/
def makeCheckedDynamicValue (constantEvaluated : Bool) (R : Region r)
    (x : BitVec (Carrier.bits T)) : Option (ValueArg r) :=
  if R.bitWidth < T.bits ∧ constantEvaluated ∧ (1#64 <<< R.bitWidth) - 1#64 < x.setWidth 64 then
    none
  else some ⟨R, .dynamicValue T x⟩

/-- A named value, or one that was made by `value()` in a constant expression. -/
def ValueArg.Constant (v : ValueArg r) : Prop :=
  match v.val with
  | .value _ => True
  | .dynamicValue _ x => makeCheckedDynamicValue true v.region x = some v

theorem makeChecked_none_iff (R : Region r) (x : BitVec (Carrier.bits T)) :
    makeCheckedDynamicValue true R x = none ↔ (ValueArg.mk R (.dynamicValue T x)).Exceeds := by
  have hexceeds : (ValueArg.mk R (.dynamicValue T x)).Exceeds ↔ 2 ^ R.bitWidth ≤ x.toNat := by
    have hp : 0 < 2 ^ R.bitWidth := Nat.two_pow_pos _
    change 2 ^ R.bitWidth - 1 < x.toNat ↔ _
    omega
  rw [hexceeds, ← RegOps.exceeds_iff]
  by_cases hx : R.bitWidth < T.bits ∧ (1#64 <<< R.bitWidth) - 1#64 < x.setWidth 64
  · exact iff_of_true (if_pos ⟨hx.1, rfl, hx.2⟩) hx
  · have hmade : makeCheckedDynamicValue true R x = some ⟨R, .dynamicValue T x⟩ :=
      if_neg fun h => hx ⟨h.1, h.2.2⟩
    exact iff_of_false (fun hnone => Option.some_ne_none _ (hmade.symm.trans hnone)) hx

theorem ValueArg.Constant.not_exceeds {v : ValueArg r} (hv : v.Constant) : ¬ v.Exceeds := by
  obtain ⟨R, a⟩ := v
  cases a with
  | value e => exact id
  | dynamicValue T x =>
    rw [← makeChecked_none_iff]
    exact fun hnone => Option.some_ne_none _ (hv.symm.trans hnone)

theorem Op.prog_of_constant {op : Op r} (ho : ∀ v ∈ op.args, v.Constant) :
    op.prog true = op.prog false := by
  have hvalue : ∀ v ∈ op.args, v.rangeErrors true = [] := fun v hv =>
    if_neg fun h => (ho v hv).not_exceeds h.2
  refine prog_congr (Eq.trans ?_ op.rangeErrors_unchecked.symm)
  cases op with
  | write values =>
    match values with
    | [] => rfl
    | [v] =>
      rw [rangeErrors, RegOps.writeErrors, hvalue v List.mem_cons_self, ite_self]
    | u :: v :: values => exact List.flatMap_eq_nil_iff.mpr hvalue
  | modify values => exact List.flatMap_eq_nil_iff.mpr hvalue
  | is v => exact hvalue v List.mem_cons_self
  | _ => rfl

theorem Wiring.perform_of_constant (W : Wiring) (area : Nat → Byte) {op : Op r}
    (ho : ∀ v ∈ op.args, v.Constant) (s : W.State) :
    W.perform area true op s = W.perform area false op s := by
  have hprog := Op.prog_of_constant ho
  cases W with
  | direct p native M => rw [perform, perform, hprog]
  | csr M hM => rw [perform, perform, CsrTransport.perform_eq, CsrTransport.perform_eq, hprog]
  | bytes d => rw [perform, perform, ByteTransport.perform_eq, ByteTransport.perform_eq, hprog]

/-- What the check at run time would report does not compile in a constant expression, and driver
code whose values are all constant evaluated goes the same with the checks at run time and without
them, reports included. -/
theorem constants_need_no_check (W : Wiring) (area : Nat → Byte) {p : DriverCode α}
    (hp : p.Only fun a => ∀ v ∈ a.op.args, v.Constant) (s : W.State) :
    (∀ (r : Register) (R : Region r) (T : Carrier) (x : BitVec T.bits),
      makeCheckedDynamicValue true R x = none ↔
        (ValueArg.mk R (.dynamicValue T x)).rangeErrors true = ["Value out of range"]) ∧
      p.run (W.runs area true) s = p.run (W.runs area false) s := by
  constructor
  · intro r R T x
    rw [makeChecked_none_iff, rangeErrors_checked]
    split_ifs with hx <;> simp [hx]
  · obtain ⟨hvalue, hstate⟩ := hp.run_sim (h := W.runs area true) (k := W.runs area false)
      (Q := fun s t => s = t) (fun a s t ha hst => by
        cases hst
        have hperform := W.perform_of_constant area ha s
        exact ⟨congrArg Prod.fst hperform, congrArg Prod.snd hperform⟩) (rfl : s = s)
    exact Prod.ext hvalue hstate

theorem constants_need_no_check_fifo :
    let p : DriverCode OpResult :=
      .call ⟨(.write [⟨.register, .dynamicValue .uint16 0x1F⟩] : Op fifoLevel)⟩ fun _ =>
        .call ⟨(.modify [⟨.register, .value 7⟩] : Op fifoLevel)⟩ .ret
    p.run (fifoSpi.runs (fun _ => 0) true) ((), { device := fun _ => 0 }) =
      p.run (fifoSpi.runs (fun _ => 0) false) ((), { device := fun _ => 0 }) := by
  refine (constants_need_no_check fifoSpi (fun _ => 0) (.call ?_ fun _ => .call ?_ .ret)
    ((), { device := fun _ => 0 })).2
  · intro v hv
    obtain rfl := List.mem_singleton.mp hv
    rfl
  · intro v hv
    obtain rfl := List.mem_singleton.mp hv
    trivial

/-- The carrier of `F::ValueType`. -/
def Carrier.fit (bits : Nat) : Carrier :=
  if bits ≤ 8 then .uint8 else if bits ≤ 16 then .uint16 else if bits ≤ 32 then .uint32
  else .uint64

theorem Carrier.bits_fit (bits : Nat) : (Carrier.fit bits).bits = uintFit bits := by
  unfold fit uintFit
  split_ifs <;> rfl

/-- `F::value(saved.get(F{}).bits())`. -/
def savedValue (saved : r.RegValueType) (f : Field r) : FieldValue r :=
  ⟨f, .dynamicValue (.fit f.bitWidth) ((RegionValue.get saved f).setWidth _)⟩

theorem getLsbD_savedValue (saved : r.RegValueType) {f : Field r}
    (hc : (Region.field f).Covers i) :
    ((savedValue saved f).val.cast r.valueBits).getLsbD (i - f.bitOffset) = saved.getLsbD i := by
  have hi : i < r.valueBits := hc.lt_valueBits
  have hlow : f.bitOffset ≤ i := hc.1
  have hj : i - f.bitOffset < f.bitWidth := by
    have hhigh : i < f.bitOffset + f.bitWidth := hc.2
    omega
  have hfit : i - f.bitOffset < (Carrier.fit f.bitWidth).bits := by
    have hin := f.in_reg
    have hle := r.bits_le
    rw [Carrier.bits_fit]
    exact Nat.lt_of_lt_of_le hj (le_uintFit (by omega))
  rw [savedValue, Assigned.cast, BitVec.getLsbD_setWidth, BitVec.getLsbD_setWidth,
    decide_eq_true (by omega : i - f.bitOffset < r.valueBits), decide_eq_true hfit, Bool.true_and,
    Bool.true_and, RegionValue.getLsbD_get, decide_eq_true hj, Bool.true_and,
    Nat.add_sub_cancel' hlow]

theorem getLsbD_packWord_saved (saved base : r.RegValueType) (fields : List (Field r)) (i : Nat) :
    (packWord base (FieldValue.args (fields.map (savedValue saved)))).getLsbD i =
      if ∃ f ∈ fields, (Region.field f).Covers i then saved.getLsbD i else base.getLsbD i := by
  induction fields generalizing base with
  | nil => exact (if_neg fun ⟨f, hf, _⟩ => absurd hf List.not_mem_nil).symm
  | cons f fields ih =>
    rw [List.map_cons, FieldValue.args, List.map_cons, packWord_cons]
    refine (ih _).trans ?_
    by_cases hrest : ∃ g ∈ fields, (Region.field g).Covers i
    · obtain ⟨g, hg, hc⟩ := hrest
      rw [if_pos ⟨g, hg, hc⟩, if_pos ⟨g, List.mem_cons_of_mem _ hg, hc⟩]
    · rw [if_neg hrest]
      refine (getLsbD_insertValue base _ i).trans ?_
      by_cases hc : (Region.field f).Covers i
      · have hsaved := getLsbD_savedValue saved hc
        exact (if_pos hc).trans (hsaved.trans (if_pos ⟨f, List.mem_cons_self, hc⟩).symm)
      · refine (if_neg hc).trans (if_neg ?_).symm
        rintro ⟨g, hg, hcg⟩
        rcases List.mem_cons.mp hg with rfl | hg
        · exact hc hcg
        · exact hrest ⟨g, hg, hcg⟩

theorem savedValue_inRange (saved : r.RegValueType) (f : Field r) :
    (savedValue saved f).toArg.InRange := by
  have hlt : ((RegionValue.get saved f).setWidth (Carrier.fit f.bitWidth).bits).toNat <
      2 ^ f.bitWidth := by
    refine Nat.lt_pow_two_of_testBit _ fun j hj => ?_
    rw [BitVec.testBit_toNat, BitVec.getLsbD_setWidth, RegionValue.getLsbD_get,
      decide_eq_false (Nat.not_lt.mpr hj), Bool.false_and, Bool.and_false]
  refine ⟨Int.natCast_nonneg _, ?_⟩
  change (((RegionValue.get saved f).setWidth (Carrier.fit f.bitWidth).bits).toNat : Int) <
    2 ^ f.bitWidth
  exact_mod_cast hlt

/-- The words that driver code acts on, without a transport. -/
def storeRuns : Handler TypedOp (fun _ => OpResult) Store :=
  fun a store => (a.op.prog true).run storeRegisters store

theorem Wiring.Refines.runs {W : Wiring} {s : W.State} {store : Store} (hs : W.Refines s store)
    (area : Nat → Byte) (checkPolicy : Bool) {p : DriverCode α}
    (hp : p.Only fun a => a.reg ∈ W.regs) :
    (p.run (W.runs area checkPolicy) s).1 = (p.run storeRuns store).1 ∧
      W.Refines (p.run (W.runs area checkPolicy) s).2 (p.run storeRuns store).2 := by
  refine hp.run_sim (Q := fun s store => W.Refines s store) (fun a s store ha hs => ?_) hs
  obtain ⟨hvalue, hafter⟩ := hs.perform ha area checkPolicy a.op
  rw [a.op.run_checkPolicy checkPolicy true] at hvalue hafter
  exact ⟨hvalue, hafter⟩

/-- Save fields of a register, do something else, and put the fields back. -/
def restoring (fields : List (Field r)) (body : DriverCode α) : DriverCode α :=
  .call ⟨(.read : Op r)⟩ fun
    | .bits _ saved => body >>= fun a =>
      .call ⟨(.modify (FieldValue.args (fields.map (savedValue (saved.setWidth _)))) : Op r)⟩
        fun _ => .ret a
    | _ => body

theorem only_restoring {P : TypedOp → Prop} (hP : ∀ op : Op r, P ⟨op⟩) (fields : List (Field r))
    {body : DriverCode α} (hbody : body.Only P) : (restoring fields body).Only P := by
  refine .call (hP _) fun x => ?_
  cases x with
  | bits w saved => exact hbody.bind fun a => .call (hP _) fun _ => .ret a
  | _ => exact hbody

theorem run_restoring (fields : List (Field r)) (body : DriverCode α) (store : Store) :
    let y := body.run storeRuns store
    (restoring fields body).run storeRuns store =
      (y.1, Function.update y.2 r.address (((Op.modify (FieldValue.args
        (fields.map (savedValue (store.word r))))).rmwWord (y.2.word r)).setWidth 64)) := by
  have hread : storeRuns ⟨(.read : Op r)⟩ store = (.bits r.valueBits (store.word r), store) := rfl
  have hmodify : ∀ (values : List (ValueArg r)) (store : Store),
      (storeRuns ⟨.modify values⟩ store).2 = Function.update store r.address
        (((Op.modify values).rmwWord (store.word r)).setWidth 64) := by
    intro values store
    have hop : (Op.modify values : Op r).IsRmw := trivial
    exact congrArg Prod.snd (hop.run quiet_storeRegisters true store)
  rw [restoring, Prog.run_call, hread]
  simp only [Prog.run_bind, Prog.run_call, BitVec.setWidth_eq, hmodify]
  rfl

/-- Fields that driver code restores are as it has found them, whatever happens in between; the
other bits of the register and the other registers are as the code in between has left them. No
saved value is out of range. -/
theorem restores_fields (W : Wiring) (area : Nat → Byte) (checkPolicy : Bool) (hr : r ∈ W.regs)
    (fields : List (Field r)) {body : DriverCode α} (hbody : body.Only fun a => a.reg ∈ W.regs)
    {s : W.State} {store : Store} (hs : W.Refines s store) :
    let x := (restoring fields body).run (W.runs area checkPolicy) s
    let y := body.run storeRuns store
    x.1 = y.1 ∧
      (∀ saved : r.RegValueType, (Op.modify (FieldValue.args
        (fields.map (savedValue saved)))).rangeErrors checkPolicy = []) ∧
      ∃ after, W.Refines x.2 after ∧ (∀ a, a ≠ r.address → after a = y.2 a) ∧
        ∀ i, (after.word r).getLsbD i =
          ((if ∃ f ∈ fields, (Region.field f).Covers i then (store.word r).getLsbD i
            else (y.2.word r).getLsbD i) && !r.w1cMask.getLsbD i) := by
  intro x y
  have honly : (restoring fields body).Only fun a => a.reg ∈ W.regs :=
    only_restoring (fun _ => hr) fields hbody
  obtain ⟨hvalue, hafter⟩ := hs.runs area checkPolicy honly
  rw [run_restoring] at hvalue hafter
  refine ⟨hvalue, fun saved => ?_, _, hafter, fun a ha => Function.update_of_ne ha _ _, fun i => ?_⟩
  · refine ValueArg.rangeErrors_inRange checkPolicy fun v hv => ?_
    obtain ⟨u, hu, rfl⟩ := List.mem_map.mp hv
    obtain ⟨f, _, rfl⟩ := List.mem_map.mp hu
    exact savedValue_inRange saved f
  · rw [Store.word_update, Op.rmwWord, getLsbD_maskW1c, getLsbD_packWord_saved]

def fifoFlag : Field fifoLevel := .bit 0 (by decide) [.numeric]

def fillFifo : DriverCode OpResult :=
  .call ⟨(.write [⟨.register, .dynamicValue .uint8 0xFF⟩] : Op fifoLevel)⟩ .ret

theorem restores_fields_fifo : ∃ after : Store,
    fifoSpi.Refines ((restoring [fifoFlag] fillFifo).run (fifoSpi.runs (fun _ => 0) true)
      ((), { device := fun _ => 0 })).2 after ∧
    (after.word fifoLevel).getLsbD 0 = false ∧ (after.word fifoLevel).getLsbD 4 = true := by
  have hmem : fifoLevel ∈ fifoSpi.regs := List.mem_singleton_self _
  have hfill : fillFifo.Only fun a => a.reg ∈ fifoSpi.regs := .call hmem .ret
  have hs : fifoSpi.Refines ((), { device := fun _ => 0 }) fun _ => 0 :=
    ⟨_, rfl, encodes_fifoMap 8 _ .big⟩
  obtain ⟨_, _, after, hafter, _, hbits⟩ :=
    restores_fields fifoSpi (fun _ => 0) true hmem [fifoFlag] hfill hs
  exact ⟨after, hafter, (hbits 0).trans (by decide), (hbits 4).trans (by decide)⟩

end Umimmio
