import Umimmio.CheckedValues

namespace Umimmio
open Effects Bytes
set_option autoImplicit true

variable {r : Register} {f g : Field r}

namespace Field

def extract (f : Field r) (word : r.RegValueType) : BitVec f.bitWidth :=
  word.extractLsb' f.bitOffset f.bitWidth

theorem getLsbD_extract (f : Field r) (word : r.RegValueType) (hj : j < f.bitWidth) :
    (f.extract word).getLsbD j = word.getLsbD (f.bitOffset + j) := by
  rw [extract, BitVec.getLsbD_extractLsb', decide_eq_true hj, Bool.true_and]

theorem extract_congr {word word' : r.RegValueType}
    (h : ∀ i, (Region.field f).Covers i → word.getLsbD i = word'.getLsbD i) :
    f.extract word = f.extract word' := by
  apply BitVec.eq_of_getLsbD_eq
  intro j hj
  rw [f.getLsbD_extract word hj, f.getLsbD_extract word' hj]
  exact h _ (Field.covers_add hj)

theorem get_eq (f : Field r) (word : r.RegValueType) :
    RegionValue.get word f = (f.extract word).setWidth _ := by
  apply BitVec.eq_of_getLsbD_eq
  intro j hfit
  rw [RegionValue.getLsbD_get, BitVec.getLsbD_setWidth, decide_eq_true hfit, Bool.true_and]
  by_cases hj : j < f.bitWidth
  · rw [decide_eq_true hj, Bool.true_and, f.getLsbD_extract word hj]
  · rw [decide_eq_false hj, Bool.false_and, BitVec.getLsbD_of_ge _ _ (not_lt.mp hj)]

theorem extract_insertValue_self (base : r.RegValueType) (f : Field r) (a : Assigned) :
    f.extract (RegOps.insertValue base ⟨.field f, a⟩) = a.cast _ := by
  apply BitVec.eq_of_getLsbD_eq
  intro j hj
  have hbits : j < r.valueBits :=
    lt_of_le_of_lt (Nat.le_add_left j f.bitOffset) (Field.covers_add hj).lt_valueBits
  have hinsert := getLsbD_insertValue base ⟨.field f, a⟩ (f.bitOffset + j)
  rw [f.getLsbD_extract _ hj, hinsert.trans (if_pos (Field.covers_add hj)), a.getLsbD_cast hj]
  exact (congrArg _ (Nat.add_sub_cancel_left _ _)).trans (a.getLsbD_cast hbits)

theorem extract_insertValue_of_disjoint (h : (Region.field f).Disjoint (.field g))
    (base : r.RegValueType) (a : Assigned) :
    g.extract (RegOps.insertValue base ⟨.field f, a⟩) = g.extract base :=
  extract_congr fun i hc =>
    (getLsbD_insertValue base ⟨.field f, a⟩ i).trans (if_neg fun hf => h i hf hc)

theorem extract_flip_self (f : Field r) (word : r.RegValueType) :
    f.extract (CInt.xorAssign word (Region.field f).mask) = ~~~ f.extract word := by
  apply BitVec.eq_of_getLsbD_eq
  intro j hj
  rw [f.getLsbD_extract _ hj, CInt.getLsbD_xorAssign, Region.getLsbD_mask,
    decide_eq_true (Field.covers_add hj), Bool.xor_true, BitVec.getLsbD_not, decide_eq_true hj,
    Bool.true_and, f.getLsbD_extract word hj]

theorem extract_flip_of_disjoint (h : (Region.field f).Disjoint (.field g))
    (word : r.RegValueType) :
    g.extract (CInt.xorAssign word (Region.field f).mask) = g.extract word :=
  extract_congr fun i hc => by
    rw [CInt.getLsbD_xorAssign, Region.getLsbD_mask, decide_eq_false fun hf => h i hf hc,
      Bool.xor_false]

theorem extract_maskW1c (hf : ∀ i, (Region.field f).Covers i → r.w1cMask.getLsbD i = false)
    (word : r.RegValueType) : f.extract (maskW1c word) = f.extract word :=
  extract_congr fun i hc => by rw [getLsbD_maskW1c, hf i hc, Bool.not_false, Bool.and_true]

theorem extract_clear (hf : ∀ i, (Region.field f).Covers i → r.w1cMask.getLsbD i = false)
    (hg : ∀ i, (Region.field g).Covers i → r.w1cMask.getLsbD i = true) (word : r.RegValueType) :
    f.extract ((Op.clear g).rmwWord word) = f.extract word := by
  refine extract_congr fun i hc => ?_
  have hout := hf i hc
  by_cases hd : RegOps.ClearsDirectly r
  · rw [ClearsDirectly.w1cMask hd hc.lt_bits] at hout
    exact absurd hout.symm Bool.false_ne_true
  · have hcg : ¬ (Region.field g).Covers i := fun hcg =>
      Bool.false_ne_true (hout.symm.trans (hg i hcg))
    rw [Op.rmwWord, if_neg hd, RegOps.getLsbD_clearWord, hout, decide_eq_false hcg, Bool.not_false,
      Bool.and_true, Bool.or_false]

end Field

/-- A field of W1C bits. -/
structure Flag (r : Register) where
  field : Field r
  inside : ∀ b, (Region.field field).Covers b → r.w1cMask.getLsbD b = true

/-- Registers with fields that do not overlap each other, nor flags. -/
structure Layout (κ : Type) (ι : κ → Type) where
  reg : κ → Register
  field : (k : κ) → ι k → Field (reg k)
  apart : ∀ k l, (reg k).address = (reg l).address → k = l
  disjoint : ∀ k i j, i ≠ j → (Region.field (field k i)).Disjoint (.field (field k j))
  outside : ∀ k i b, (Region.field (field k i)).Covers b → (reg k).w1cMask.getLsbD b = false

variable {κ : Type} {ι : κ → Type}

/-- What code does with the fields of a layout. -/
inductive VarOp (L : Layout κ ι)
  | write (k : κ) (values : List (ι k × Assigned))
  | modify (k : κ) (values : List (ι k × Assigned))
  | read (k : κ) (i : ι k)
  | is (k : κ) (i : ι k) (v : Assigned)
  | flip (k : κ) (i : ι k)
  | clear (k : κ) (flag : Flag (L.reg k))
  | reset (k : κ)
  | readVariant (k : κ) (i : ι k) (variants : List Int)

namespace Layout

def args (L : Layout κ ι) (k : κ) (values : List (ι k × Assigned)) : List (ValueArg (L.reg k)) :=
  values.map fun v => ⟨.field (L.field k v.1), v.2⟩

/-- A variable for each field, as wide as the field. -/
abbrev Vars (L : Layout κ ι) := (k : κ) → (i : ι k) → BitVec (L.field k i).bitWidth

def vars (L : Layout κ ι) (store : Store) : L.Vars :=
  fun k i => (L.field k i).extract (store.word (L.reg k))

end Layout

namespace VarOp

variable {L : Layout κ ι}

/-- The operation on the register that the code calls. -/
def typed : VarOp L → TypedOp
  | .write k values => ⟨.write (L.args k values)⟩
  | .modify k values => ⟨.modify (L.args k values)⟩
  | .read k i => ⟨.readField (L.field k i)⟩
  | .is k i v => ⟨.is ⟨.field (L.field k i), v⟩⟩
  | .flip k i => ⟨.flip (L.field k i)⟩
  | .clear _ flag => ⟨.clear flag.field⟩
  | .reset k => ⟨(.reset : Op (L.reg k))⟩
  | .readVariant k i variants => ⟨.readVariant (L.field k i) variants⟩

end VarOp

namespace Layout.Vars

variable {L : Layout κ ι}

def initial (L : Layout κ ι) (k : κ) : (i : ι k) → BitVec (L.field k i).bitWidth :=
  fun i => (L.field k i).extract (L.reg k).resetValue

variable [∀ k, DecidableEq (ι k)]

def assign (k : κ) (fields : (i : ι k) → BitVec (L.field k i).bitWidth)
    (values : List (ι k × Assigned)) : (i : ι k) → BitVec (L.field k i).bitWidth :=
  values.foldl (fun fields v => Function.update fields v.1 (v.2.cast _)) fields

theorem assign_extract (k : κ) (base : (L.reg k).RegValueType) (values : List (ι k × Assigned)) :
    assign k (fun i => (L.field k i).extract base) values =
      fun i => (L.field k i).extract (packWord base (L.args k values)) := by
  induction values generalizing base with
  | nil => rfl
  | cons v values ih =>
    rw [args, List.map_cons, packWord_cons, ← args, ← ih, assign, List.foldl_cons, ← assign]
    congr 1
    funext i
    by_cases hi : i = v.1
    · subst hi
      rw [Function.update_self, Field.extract_insertValue_self]
    · rw [Function.update_of_ne hi,
        Field.extract_insertValue_of_disjoint (L.disjoint k v.1 i (Ne.symm hi))]

variable [DecidableEq κ]

/-- The meaning of an operation: assignments to variables, and questions about their values. -/
def run : Handler (VarOp L) (fun _ => OpResult) L.Vars
  | .write k values, x => (.done, Function.update x k (assign k (initial L k) values))
  | .modify k values, x => (.done, Function.update x k (assign k (x k) values))
  | .read k i, x => (.bits _ ((x k i).setWidth (uintFit (L.field k i).bitWidth)), x)
  | .is k i v, x => (.bool ((x k i).setWidth (uintFit (L.field k i).bitWidth) == v.cast _), x)
  | .flip k i, x => (.done, Function.update x k (Function.update (x k) i (~~~ x k i)))
  | .clear _ _, x => (.done, x)
  | .reset k, x => (.done, Function.update x k (initial L k))
  | .readVariant k i variants, x =>
    (.variant _ (RegOps.tryMatch ((x k i).setWidth (uintFit (L.field k i).bitWidth)) variants 0), x)

end Layout.Vars

namespace Layout

variable {L : Layout κ ι}

theorem writeWord_args (k : κ) (values : List (ι k × Assigned)) :
    writeWord (L.args k values) = packWord (L.reg k).resetValue (L.args k values) := by
  match values with
  | [] => rfl
  | [v] => rfl
  | u :: v :: values => rfl

variable [DecidableEq κ]

theorem vars_update (store : Store) (k : κ) (word : (L.reg k).RegValueType) :
    L.vars (Function.update store (L.reg k).address (word.setWidth 64)) =
      Function.update (L.vars store) k fun i => (L.field k i).extract word := by
  funext l i
  by_cases hl : l = k
  · subst hl
    rw [Function.update_self, vars, Store.word_update]
  · have ha : (L.reg l).address ≠ (L.reg k).address := fun ha => hl (L.apart l k ha)
    rw [Function.update_of_ne hl, vars, Store.word, Function.update_of_ne ha]
    rfl

end Layout

theorem Op.run_clear (f : Field r) (checkPolicy : Bool) (store : Store) :
    ((Op.clear f).prog checkPolicy).run storeRegisters store =
      (.done, Function.update store r.address
        (((Op.clear f).rmwWord (store.word r)).setWidth 64)) := by
  by_cases hd : RegOps.ClearsDirectly r
  · rw [Op.prog, Op.rmwWord, if_pos hd, RegOps.clear_direct f hd]
    rfl
  · have hop : (Op.clear f).IsRmw := hd
    exact hop.run quiet_storeRegisters checkPolicy store

/-- On a store an operation has its meaning, and leaves other words alone. -/
theorem VarOp.run_typed [DecidableEq κ] [∀ k, DecidableEq (ι k)] {L : Layout κ ι} (c : VarOp L)
    (checkPolicy : Bool) (store : Store) :
    let x := (c.typed.op.prog checkPolicy).run storeRegisters store
    (x.1, L.vars x.2) = Layout.Vars.run c (L.vars store) ∧
      ∀ a, (∀ k, a ≠ (L.reg k).address) → x.2 a = store a := by
  have hsets : ∀ (k : κ) (word : (L.reg k).RegValueType),
      (c.typed.op.prog checkPolicy).run storeRegisters store =
        (.done, Function.update store (L.reg k).address (word.setWidth 64)) →
      Layout.Vars.run c (L.vars store) =
        (.done, Function.update (L.vars store) k fun i => (L.field k i).extract word) →
      ((c.typed.op.prog checkPolicy).run storeRegisters store).map id L.vars =
          Layout.Vars.run c (L.vars store) ∧
        ∀ a, (∀ k, a ≠ (L.reg k).address) →
          ((c.typed.op.prog checkPolicy).run storeRegisters store).2 a = store a := by
    intro k word hx hv
    rw [hx, hv, ← L.vars_update]
    exact ⟨rfl, fun a ha => Function.update_of_ne (ha k) _ _⟩
  cases c with
  | write k values =>
    refine hsets k (packWord (L.reg k).resetValue (L.args k values)) ?_ ?_
    · rw [typed, Op.prog, Prog.run_map, RegOps.run_write quiet_storeRegisters, L.writeWord_args]
      rfl
    · rw [← Layout.Vars.assign_extract]
      rfl
  | modify k values =>
    refine hsets k (maskW1c (packWord (store.word (L.reg k)) (L.args k values))) ?_ ?_
    · rw [typed, Op.prog, Prog.run_map, RegOps.run_modify quiet_storeRegisters]
      rfl
    · simp only [Field.extract_maskW1c (L.outside k _), ← Layout.Vars.assign_extract]
      rfl
  | flip k i =>
    refine hsets k (maskW1c (CInt.xorAssign (store.word (L.reg k))
      (Region.field (L.field k i)).mask)) rfl ?_
    simp only [Field.extract_maskW1c (L.outside k _)]
    rw [Layout.Vars.run]
    congr 2
    funext j
    by_cases hj : j = i
    · subst hj
      rw [Function.update_self, Field.extract_flip_self]
      rfl
    · rw [Function.update_of_ne hj, Field.extract_flip_of_disjoint (L.disjoint k i j (Ne.symm hj))]
      rfl
  | clear k flag =>
    refine hsets k ((Op.clear flag.field).rmwWord (store.word (L.reg k)))
      (Op.run_clear flag.field checkPolicy store) ?_
    simp only [Field.extract_clear (L.outside k _) flag.inside]
    rw [Layout.Vars.run]
    exact congrArg _ (Function.update_eq_self k _).symm
  | reset k => exact hsets k (L.reg k).resetValue rfl rfl
  | read k i =>
    refine ⟨?_, fun a _ => rfl⟩
    rw [Layout.Vars.run, Layout.vars, ← Field.get_eq]
    rfl
  | is k i v =>
    refine ⟨?_, fun a _ => ?_⟩
    · rw [Layout.Vars.run, Layout.vars, ← Field.get_eq, typed, Op.prog, Prog.run_map,
        RegOps.run_is quiet_storeRegisters]
      rfl
    · rw [typed, Op.prog, Prog.run_map, RegOps.run_is quiet_storeRegisters]
      rfl
  | readVariant k i variants =>
    refine ⟨?_, fun a _ => rfl⟩
    rw [Layout.Vars.run, Layout.vars, ← Field.get_eq]
    rfl

namespace Layout

variable [DecidableEq κ] [∀ k, DecidableEq (ι k)]

/-- Code over the fields of a layout, called over a transport. -/
def runs (L : Layout κ ι) (W : Wiring) (area : Nat → Byte) (checkPolicy : Bool) :
    Handler (VarOp L) (fun _ => OpResult) W.State :=
  fun c => W.runs area checkPolicy c.typed

end Layout

end Umimmio
