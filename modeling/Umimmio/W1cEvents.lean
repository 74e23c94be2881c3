import Umimmio.Lib.Run
import Umimmio.Hardware

namespace Umimmio
open Effects
set_option autoImplicit true

variable {r : Register}

/-- The declared fields of a register whose W1C mask covers its W1C fields and no normal one. -/
structure W1cMap (r : Register) where
  fields : List (Field r)
  w1c_inside : ∀ f ∈ fields, f.accessType.isW1C →
    ∀ i, (Region.field f).Covers i → r.w1cMask.getLsbD i = true
  normal_outside : ∀ f ∈ fields, f.accessType.normalWrite →
    ∀ i, (Region.field f).Covers i → r.w1cMask.getLsbD i = false

/-- The calls of a W1C run: in-range values of disjoint declared fields, flips and clears. -/
def W1cMap.Admits (M : W1cMap r) (tag : TransportTag) (op : Op r) : Prop :=
  op.Admitted tag ∧
    match op with
    | .modify values => (∀ v ∈ values, v.InRange ∧ ∃ f ∈ M.fields, v.region = .field f) ∧
        values.Pairwise fun u v => u.region.Disjoint v.region
    | .flip f => f ∈ M.fields
    | .clear f => f ∈ M.fields
    | _ => False

def w1cBehavior (r : Register) (i : Nat) : WriteBehavior :=
  if r.w1cMask.getLsbD i then .oneToClear else .normal

def setFlags (m word : BitVec r.bits) : BitVec r.bits :=
  word ||| (m &&& r.w1cMask.setWidth r.bits)

abbrev W1cConfig (r : Register) := Config (Op r) (RegCmd r) RegCmd.Resp OpResult (BitVec r.bits)

abbrev W1cEvent (r : Register) := Event (BitVec r.bits) (Op r) (RegCmd r)

def w1cStep (M : W1cMap r) (tag : TransportTag) (checkPolicy : Bool) :
    W1cConfig r → W1cEvent r → W1cConfig r → Prop :=
  Step (hardware (w1cBehavior r)) (Op.prog checkPolicy) setFlags (M.Admits tag)

def writeBack (w : r.RegValueType) : RegProg r OpResult := .call (.regWrite w) fun _ => .ret .done

/-- An admitted call reads once and writes once, except a direct clear, which only writes. -/
theorem W1cMap.Admits.prog_eq {M : W1cMap r} (h : M.Admits tag op) (checkPolicy : Bool) :
    (op.prog checkPolicy = .call .regRead fun current => writeBack (op.rmwWord current)) ∨
      ∀ current, op.prog checkPolicy = writeBack (op.rmwWord current) := by
  cases op with
  | modify values =>
    left
    rw [Op.prog, RegOps.modify_inRange _ fun v hv => (h.2.1 v hv).1]
    rfl
  | flip f => exact .inl rfl
  | clear f =>
    by_cases hd : RegOps.ClearsDirectly r
    · right
      intro current
      simp only [Op.prog, RegOps.clear_direct f hd, Op.rmwWord, if_pos hd]
      rfl
    · left
      simp only [Op.prog, RegOps.clear_mixed f hd, Op.rmwWord, if_neg hd]
      rfl
  | _ => exact h.2.elim

theorem getLsbD_setFlags (m word : BitVec r.bits) (i : Nat) :
    (setFlags m word).getLsbD i =
      (word.getLsbD i || (m.getLsbD i && r.w1cMask.getLsbD i)) := by
  rw [setFlags, BitVec.getLsbD_or, BitVec.getLsbD_and, BitVec.getLsbD_setWidth]
  by_cases hi : i < r.bits
  · rw [decide_eq_true hi, Bool.true_and]
  · rw [BitVec.getLsbD_of_ge m i (Nat.le_of_not_lt hi), Bool.false_and, Bool.false_and]

theorem getLsbD_busWrite_flag (w : r.RegValueType) (word : BitVec r.bits)
    (hm : r.w1cMask.getLsbD i = true) :
    (busWrite (w1cBehavior r) w word).getLsbD i = (word.getLsbD i && !w.getLsbD i) := by
  rw [getLsbD_busWrite _ _ _ (r.w1cMask_lt hm), w1cBehavior, if_pos hm]
  rfl

theorem getLsbD_busWrite_normal (w : r.RegValueType) (word : BitVec r.bits) (hi : i < r.bits)
    (hm : r.w1cMask.getLsbD i = false) :
    (busWrite (w1cBehavior r) w word).getLsbD i = w.getLsbD i := by
  rw [getLsbD_busWrite _ _ _ hi, w1cBehavior, hm]
  rfl

theorem ClearsDirectly.w1cMask (h : RegOps.ClearsDirectly r) (hi : i < r.bits) :
    r.w1cMask.getLsbD i = true := by
  rw [show r.w1cMask = (Region.register : Region r).mask from h, Region.getLsbD_mask]
  exact decide_eq_true (Region.covers_register_iff.mpr hi)

theorem getLsbD_rmwWord_clear (f : Field r) (current : r.RegValueType)
    (hm : r.w1cMask.getLsbD i = true) :
    ((Op.clear f).rmwWord current).getLsbD i = decide ((Region.field f).Covers i) := by
  rw [Op.rmwWord]
  split_ifs with hd
  · exact Region.getLsbD_mask _ i
  · rw [RegOps.getLsbD_clearWord, hm, Bool.not_true, Bool.and_false, Bool.false_or]

/-- Only a clear writes a 1 to a W1C position, and only inside its field. -/
theorem W1cMap.Admits.clears {M : W1cMap r} (h : M.Admits tag op)
    (hm : r.w1cMask.getLsbD i = true) (hw : (op.rmwWord current).getLsbD i = true) :
    ∃ f, op = .clear f ∧ (Region.field f).Covers i := by
  cases op with
  | modify values =>
    rw [Op.rmwWord, getLsbD_maskW1c, hm, Bool.not_true, Bool.and_false] at hw
    exact absurd hw Bool.false_ne_true
  | flip f =>
    rw [Op.rmwWord, getLsbD_maskW1c, hm, Bool.not_true, Bool.and_false] at hw
    exact absurd hw Bool.false_ne_true
  | clear f =>
    rw [getLsbD_rmwWord_clear f current hm] at hw
    exact ⟨f, rfl, of_decide_eq_true hw⟩
  | _ => exact h.2.elim

theorem W1cMap.Admits.modify_outside {M : W1cMap r} (h : M.Admits tag (.modify values))
    (hv : v ∈ values) (hc : v.region.Covers i) : r.w1cMask.getLsbD i = false := by
  obtain ⟨_, f, hf, hvf⟩ := h.2.1 v hv
  have hmod := h.1.2.2 v hv
  rw [ValueArg.modifiableValue, Bool.and_eq_true, hvf] at hmod
  rw [hvf] at hc
  exact M.normal_outside f hf hmod.2 i hc

theorem W1cMap.Admits.rmwWord_frame {M : W1cMap r} (h : M.Admits tag op) (hi : i < r.bits)
    (hm : r.w1cMask.getLsbD i = false) (hn : ¬ op.Names i) :
    (op.rmwWord current).getLsbD i = current.getLsbD i := by
  cases op with
  | modify values =>
    have hb : (Op.modify values).WritesBack := trivial
    rw [getLsbD_rmwWord_of_not_names hb hn, hm, Bool.not_false, Bool.and_true]
  | flip f =>
    have hb : (Op.flip f).WritesBack := trivial
    rw [getLsbD_rmwWord_of_not_names hb hn, hm, Bool.not_false, Bool.and_true]
  | clear f =>
    have hd : ¬ RegOps.ClearsDirectly r := by
      intro hd
      rw [ClearsDirectly.w1cMask hd hi] at hm
      exact absurd hm.symm Bool.false_ne_true
    have hc : ¬ (Region.field f).Covers i := by
      intro hc
      rw [M.w1c_inside f h.2 h.1.2.1 i hc] at hm
      exact absurd hm.symm Bool.false_ne_true
    rw [Op.rmwWord, if_neg hd, RegOps.getLsbD_clearWord, hm, decide_eq_false hc, Bool.not_false,
      Bool.and_true, Bool.or_false]
  | _ => exact h.2.elim

/-- The bits outside the W1C mask that a call has read are still those of the register. -/
def Agrees (current : r.RegValueType) (word : BitVec r.bits) : Prop :=
  ∀ i < r.bits, r.w1cMask.getLsbD i = false → current.getLsbD i = word.getLsbD i

theorem Agrees.setFlags {word : BitVec r.bits} (h : Agrees current word) (m : BitVec r.bits) :
    Agrees current (setFlags m word) := by
  intro i hi hm
  rw [getLsbD_setFlags, hm, Bool.and_false, Bool.or_false]
  exact h i hi hm

/-- The bus write of the call came last, but for what the hardware did since. -/
def WroteLast (op : Op r) (evs : List (W1cEvent r)) : Prop :=
  ∃ pre w post, evs = pre ++ [.command op (.regWrite w)] ++ post ∧
    ∀ e ∈ post, ∃ m, e = .surroundings m

/-- How far a call has come: about to read, about to write back what it read, or done. -/
inductive Phase (checkPolicy : Bool) (op : Op r) (evs : List (W1cEvent r))
    (word : BitVec r.bits) : RegProg r OpResult → Prop
  | reading : Phase checkPolicy op evs word
      (.call .regRead fun current => writeBack (op.rmwWord current))
  | writing (current : r.RegValueType) (ha : Agrees current word) :
      Phase checkPolicy op evs word (writeBack (op.rmwWord current))
  | done (hw : WroteLast op evs) : Phase checkPolicy op evs word (.ret .done)

def W1cInv (M : W1cMap r) (tag : TransportTag) (checkPolicy : Bool) (evs : List (W1cEvent r))
    (c : W1cConfig r) : Prop :=
  ∀ op p, c.running = some (op, p) → M.Admits tag op ∧ Phase checkPolicy op evs c.state p

theorem W1cInv.step {M : W1cMap r} (h : W1cInv M tag checkPolicy evs c)
    (hs : w1cStep M tag checkPolicy c e c') : W1cInv M tag checkPolicy (evs ++ [e]) c' := by
  intro op p hp
  cases hs with
  | surroundings word q m =>
    obtain ⟨ha, hph⟩ := h op p hp
    refine ⟨ha, ?_⟩
    cases hph with
    | reading => exact .reading
    | writing current hag => exact .writing current (hag.setFlags m)
    | done hw =>
      obtain ⟨pre, w, post, he, hpost⟩ := hw
      refine .done ⟨pre, w, post ++ [.surroundings m], by simp [he], ?_⟩
      intro e he'
      rcases List.mem_append.mp he' with he' | he'
      · exact hpost e he'
      · exact ⟨m, List.mem_singleton.mp he'⟩
  | start word op' hk =>
    cases hp
    refine ⟨hk, ?_⟩
    rcases hk.prog_eq checkPolicy with he | he
    · rw [he]
      exact .reading
    · rw [he (busRead word)]
      exact .writing _ fun i _ _ => getLsbD_busRead word i
  | command word op' cmd next =>
    cases hp
    obtain ⟨ha, hph⟩ := h op _ rfl
    refine ⟨ha, ?_⟩
    cases hph with
    | reading => exact .writing _ fun i _ _ => getLsbD_busRead word i
    | writing current hag => exact .done ⟨evs, op.rmwWord current, [], by simp, by simp⟩
  | finish => cases hp

theorem W1cInv.run {M : W1cMap r}
    (h : Run (w1cStep M tag checkPolicy) ⟨word, none⟩ evs c) : W1cInv M tag checkPolicy evs c :=
  h.inv (fun _ _ hp => by cases hp) fun _ _ _ _ hi hs => hi.step hs

/-- What one step may do to a W1C register after the events so far. -/
structure W1cSafe (evs : List (W1cEvent r)) (c : W1cConfig r) (e : W1cEvent r)
    (c' : W1cConfig r) : Prop where
  kept : ∀ i, r.w1cMask.getLsbD i = true → c.state.getLsbD i = true →
    c'.state.getLsbD i = false →
    ∃ f w, e = .command (.clear f) (.regWrite w) ∧ (Region.field f).Covers i
  cleared : ∀ f w, e = .command (.clear f) (.regWrite w) →
    ∀ i, (Region.field f).Covers i → c'.state.getLsbD i = false
  frame : ∀ i, r.w1cMask.getLsbD i = false → c'.state.getLsbD i ≠ c.state.getLsbD i →
    ∃ op w, e = .command op (.regWrite w) ∧ op.Names i
  modified : ∀ values w, e = .command (.modify values) (.regWrite w) →
    ∀ v ∈ values, ((v.region.content c'.state).toNat : Int) = v.val.number
  flipped : ∀ f w, e = .command (.flip f) (.regWrite w) →
    ∀ i, (Region.field f).Covers i → c'.state.getLsbD i = !c.state.getLsbD i
  wrote : ∀ op, e = .finish op → WroteLast op evs

theorem W1cSafe.of_flags {c c' : W1cConfig r} (he : ∀ op w, e ≠ .command op (.regWrite w))
    (hf : ∀ op, e = .finish op → WroteLast op evs) (hw : c'.state = setFlags m c.state) :
    W1cSafe evs c e c' where
  kept := by
    intro i _ h1 h0
    rw [hw, getLsbD_setFlags, h1, Bool.true_or] at h0
    cases h0
  cleared := fun f w h => absurd h (he _ w)
  frame := by
    intro i hm hn
    rw [hw, getLsbD_setFlags, hm, Bool.and_false, Bool.or_false] at hn
    exact absurd rfl hn
  modified := fun values w h => absurd h (he _ w)
  flipped := fun f w h => absurd h (he _ w)
  wrote := hf

@[simp] theorem setFlags_zero (word : BitVec r.bits) : setFlags 0 word = word := by
  simp only [setFlags, BitVec.ofNat_eq_ofNat, BitVec.zero_and, BitVec.or_zero]

theorem W1cMap.Admits.writes_safe {M : W1cMap r} (h : M.Admits tag op) {word : BitVec r.bits}
    (ha : Agrees current word) :
    W1cSafe evs ⟨word, some (op, writeBack (op.rmwWord current))⟩
      (.command op (.regWrite (op.rmwWord current)))
      ⟨busWrite (w1cBehavior r) (op.rmwWord current) word, some (op, .ret .done)⟩ where
  kept := by
    intro i hm h1 h0
    rw [getLsbD_busWrite_flag _ _ hm, h1, Bool.true_and, Bool.not_eq_false'] at h0
    obtain ⟨f, rfl, hc⟩ := h.clears hm h0
    exact ⟨f, _, rfl, hc⟩
  cleared := by
    intro f w he i hc
    cases he
    have hm := M.w1c_inside f h.2 h.1.2.1 i hc
    rw [getLsbD_busWrite_flag _ _ hm, getLsbD_rmwWord_clear f current hm, decide_eq_true hc,
      Bool.not_true, Bool.and_false]
  frame := by
    intro i hm hne
    refine ⟨op, _, rfl, ?_⟩
    by_contra hn
    have hi : i < r.bits := by
      by_contra hi
      exact hne (by rw [BitVec.getLsbD_of_ge _ i (Nat.le_of_not_lt hi),
        BitVec.getLsbD_of_ge _ i (Nat.le_of_not_lt hi)])
    rw [getLsbD_busWrite_normal _ _ hi hm, h.rmwWord_frame hi hm hn] at hne
    exact hne (ha i hi hm)
  modified := by
    intro values w he v hv
    cases he
    apply (h.2.1 v hv).1.content_eq
    intro i hc
    have hm := h.modify_outside hv hc
    rw [getLsbD_busWrite_normal _ _ hc.lt_bits hm, Op.rmwWord, getLsbD_maskW1c, hm,
      Bool.not_false, Bool.and_true, getLsbD_packWord_of_mem current h.2.2 hv hc]
  flipped := by
    intro f w he i hc
    cases he
    have hm := M.normal_outside f h.2 h.1.2.2.2.2 i hc
    rw [getLsbD_busWrite_normal _ _ hc.lt_bits hm, Op.rmwWord, getLsbD_maskW1c, hm,
      CInt.getLsbD_xorAssign, Region.getLsbD_mask, decide_eq_true hc, ha i hc.lt_bits hm,
      Bool.xor_true, Bool.not_false, Bool.and_true]
  wrote := fun op he => by cases he

theorem W1cInv.safe {M : W1cMap r} (h : W1cInv M tag checkPolicy evs c)
    (hs : w1cStep M tag checkPolicy c e c') : W1cSafe evs c e c' := by
  cases hs with
  | surroundings word p m => exact .of_flags (m := m) (by simp) (by simp) rfl
  | start word op hk => exact .of_flags (m := 0) (by simp) (by simp) (setFlags_zero _).symm
  | command word op cmd next =>
    obtain ⟨ha, hph⟩ := h op _ rfl
    cases hph with
    | reading => exact .of_flags (m := 0) (by simp) (by simp) (setFlags_zero _).symm
    | writing current hag => exact ha.writes_safe hag
  | finish word op a =>
    obtain ⟨ha, hph⟩ := h op _ rfl
    cases hph with
    | done hw =>
      exact .of_flags (m := 0) (by simp) (by rintro _ ⟨⟩; exact hw) (setFlags_zero _).symm

/-- In every run of `modify`, `flip` and `clear` calls interleaved with hardware events, every step
keeps the W1C flags that no `clear` names, and the bits outside the mask that no call names. -/
theorem w1c_run_safe (M : W1cMap r) (tag : TransportTag) (checkPolicy : Bool)
    (word : BitVec r.bits) (hr : Run (w1cStep M tag checkPolicy) ⟨word, none⟩ evs c)
    (hs : w1cStep M tag checkPolicy c e c') : W1cSafe evs c e c' :=
  (W1cInv.run hr).safe hs

def statusRegister : Register :=
  { Register.declare ({} : Device).toParent 0x08 .bits32 with
    w1c := 0x03
    w1c_fits := .inr (show 3 < 2 ^ 32 by decide) }

def flag0 : Field statusRegister := .bit 0 (by decide) [.accessPolicy .w1c]
def flag1 : Field statusRegister := .bit 1 (by decide) [.accessPolicy .w1c]
def enable : Field statusRegister := .bit 8 (by decide)

def statusMap : W1cMap statusRegister where
  fields := [flag0, flag1, enable]
  w1c_inside := by
    intro f hf hw i hc
    simp only [List.mem_cons, List.not_mem_nil, or_false] at hf
    rcases hf with rfl | rfl | rfl
    · obtain rfl : i = 0 := Nat.lt_one_iff.mp hc.2
      decide
    · obtain rfl : i = 1 := Nat.le_antisymm (Nat.lt_succ_iff.mp hc.2) hc.1
      decide
    · exact absurd hw (by decide)
  normal_outside := by
    intro f hf hn i hc
    simp only [List.mem_cons, List.not_mem_nil, or_false] at hf
    rcases hf with rfl | rfl | rfl
    · exact absurd hn (by decide)
    · exact absurd hn (by decide)
    · obtain rfl : i = 8 := Nat.le_antisymm (Nat.lt_succ_iff.mp hc.2) hc.1
      decide

/-- A flag raised between the read and the write of a flip survives the write. -/
theorem w1c_run_safe_flip : ∃ evs c e c',
    c.state.toNat = 0x003 ∧ c'.state.toNat = 0x103 ∧
      W1cSafe (r := statusRegister) evs c e c' := by
  have hk : statusMap.Admits .direct (.flip enable) :=
    ⟨⟨by decide, by decide⟩, by simp [statusMap]⟩
  have hr : Run (w1cStep statusMap .direct true) ⟨0x001#32, none⟩ _ _ :=
    .snoc (.snoc (.snoc .nil (.start _ _ hk)) (.command _ _ _ _)) (.surroundings _ _ 0x002#32)
  exact ⟨_, _, _, _, by decide, by decide,
    w1c_run_safe statusMap .direct true 0x001#32 hr (.command _ _ _ _)⟩

end Umimmio
