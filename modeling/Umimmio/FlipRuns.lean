import Mathlib.Algebra.Group.Nat.Even
import Mathlib.Data.Nat.Bits
import Umimmio.PackWords
import Umimmio.W1cEvents

namespace Umimmio
open Effects
set_option autoImplicit true

variable {r : Register} {f : Field r}

/-- The named value of a 1-bit field that is not the bit in the word. -/
def Field.complement (f : Field r) (word : r.RegValueType) : ValueArg r :=
  ⟨.field f, .value (1 - ((word.getLsbD f.bitOffset).toNat : Int))⟩

theorem Field.complement_inRange (hw : f.bitWidth = 1) (word : r.RegValueType) :
    (f.complement word).InRange := by
  have h1 : (Region.field f).bitWidth = 1 := hw
  simp only [ValueArg.InRange, complement, Assigned.number, h1]
  cases word.getLsbD f.bitOffset <;> decide

theorem Field.covers_iff_of_bit (hw : f.bitWidth = 1) (i : Nat) :
    (Region.field f).Covers i ↔ i = f.bitOffset := by
  have h1 : (Region.field f).bitWidth = 1 := hw
  simp only [Region.Covers, Region.shift, h1]
  omega

/-- Toggling by XOR and inserting the complement give the same word. -/
theorem xorAssign_mask_eq (hw : f.bitWidth = 1) (word : r.RegValueType) :
    CInt.xorAssign word (Region.field f).mask =
      RegOps.insertValue word (f.complement word) := by
  apply BitVec.eq_of_getLsbD_eq
  intro i hi
  rw [CInt.getLsbD_xorAssign, Region.getLsbD_mask, getLsbD_insertValue]
  by_cases hc : (Region.field f).Covers i
  · obtain rfl := (f.covers_iff_of_bit hw i).mp hc
    have hv : 0 < r.valueBits := Nat.lt_of_le_of_lt (Nat.zero_le _) hi
    rw [if_pos (show (f.complement word).region.Covers f.bitOffset from hc), decide_eq_true hc,
      Assigned.getLsbD_cast _ (Nat.lt_of_le_of_lt (Nat.sub_le _ _) hi)]
    have hbit : (f.complement word).val.number.testBit 0 = !word.getLsbD f.bitOffset := by
      simp only [Field.complement, Assigned.number]
      cases word.getLsbD f.bitOffset <;> decide
    have hshift : (f.complement word).region.shift = f.bitOffset := rfl
    rw [hshift, Nat.sub_self, hbit, Bool.xor_true]
  · rw [if_neg (show ¬ (f.complement word).region.Covers i from hc), decide_eq_false hc,
      Bool.xor_false]

def flipWord (f : Field r) (current : r.RegValueType) : r.RegValueType :=
  maskW1c (CInt.xorAssign current (Region.field f).mask)

theorem flip_eq (f : Field r) :
    RegOps.flip f = .call .regRead fun current => regWrite (flipWord f current) :=
  rfl

theorem flip_eq_modify (hw : f.bitWidth = 1) (checkPolicy : Bool) (h : RegHandler r σ) (s : σ) :
    let v := f.complement (h .regRead s).1
    (RegOps.flip f).commands h s = (RegOps.modify checkPolicy [v]).commands h s ∧
      (RegOps.flip f).run h s = (RegOps.modify checkPolicy [v]).run h s := by
  intro v
  have hv : ∀ u ∈ [v], u.InRange := List.forall_mem_singleton.mpr (f.complement_inRange hw _)
  have hword : flipWord f (h .regRead s).1 = maskW1c (packWord (h .regRead s).1 [v]) :=
    congrArg maskW1c (xorAssign_mask_eq hw _)
  rw [RegOps.modify_inRange checkPolicy hv, flip_eq]
  simp only [Prog.commands, Prog.trace_call, Prog.run_call, hword, and_self]

abbrev FlipConfig (r : Register) := Config Unit (RegCmd r) RegCmd.Resp Unit (BitVec r.bits)

/-- Runs of flips of one field, with flags raised by the hardware at any time. -/
def flipStep (f : Field r) :
    FlipConfig r → Event (BitVec r.bits) Unit (RegCmd r) → FlipConfig r → Prop :=
  Step (hardware (w1cBehavior r)) (fun _ => RegOps.flip f) setFlags fun _ => True

def isFinish : Event E K C → Bool
  | .finish _ => true
  | _ => false

def finished (evs : List (Event E K C)) : Nat := evs.countP isFinish

def Raised (evs : List (Event (BitVec w) K C)) (i : Nat) : Prop :=
  ∃ m, .surroundings m ∈ evs ∧ m.getLsbD i = true

theorem Raised.append {evs : List (Event (BitVec w) K C)} (h : Raised evs i) :
    Raised (evs ++ evs') i := by
  obtain ⟨m, hm, hi⟩ := h
  exact ⟨m, List.mem_append_left _ hm, hi⟩

theorem raised_last {m : BitVec w} (evs : List (Event (BitVec w) K C))
    (h : m.getLsbD i = true) : Raised (evs ++ [.surroundings m]) i :=
  ⟨m, List.mem_append_right _ (List.mem_singleton_self _), h⟩

theorem raised_snoc {evs : List (Event (BitVec w) K C)} (h : Raised (evs ++ [e]) i) :
    Raised evs i ∨ ∃ m, e = .surroundings m ∧ m.getLsbD i = true := by
  obtain ⟨m, hm, hi⟩ := h
  rcases List.mem_append.mp hm with hm | hm
  · exact .inl ⟨m, hm, hi⟩
  · exact .inr ⟨m, (List.mem_singleton.mp hm).symm, hi⟩

/-- What the register holds after `n` writes of flips: the field's bit toggled `n` times, and the
W1C flags that were or became set. -/
structure Flipped (f : Field r) (n : Nat) (evs : List (Event (BitVec r.bits) Unit (RegCmd r)))
    (word state : BitVec r.bits) : Prop where
  toggled : ∀ i < r.bits, r.w1cMask.getLsbD i = false →
    state.getLsbD i = (word.getLsbD i ^^ (decide ((Region.field f).Covers i) && n.bodd))
  flagged : ∀ i, r.w1cMask.getLsbD i = true → word.getLsbD i = true ∨ Raised evs i →
    state.getLsbD i = true

namespace Flipped

theorem refl (f : Field r) (word : BitVec r.bits) : Flipped f 0 [] word word where
  toggled := by
    intro i _ _
    rw [Nat.bodd_zero, Bool.and_false, Bool.xor_false]
  flagged := by
    rintro i _ (h | ⟨m, hm, _⟩)
    · exact h
    · cases hm

theorem setFlags (h : Flipped f n evs word state) (m : BitVec r.bits) :
    Flipped f n (evs ++ [.surroundings m]) word (setFlags m state) where
  toggled := by
    intro i hi hm
    rw [getLsbD_setFlags, hm, Bool.and_false, Bool.or_false]
    exact h.toggled i hi hm
  flagged := by
    intro i hm hw
    rw [getLsbD_setFlags, hm, Bool.and_true, Bool.or_eq_true]
    rcases hw with hw | hw
    · exact .inl (h.flagged i hm (.inl hw))
    · rcases raised_snoc hw with hw | ⟨m', ⟨⟩, hi⟩
      · exact .inl (h.flagged i hm (.inr hw))
      · exact .inr hi

theorem snoc (h : Flipped f n evs word state) (he : ∀ m, e ≠ .surroundings m) :
    Flipped f n (evs ++ [e]) word state where
  toggled := h.toggled
  flagged := by
    intro i hm hw
    apply h.flagged i hm
    apply hw.imp_right
    intro hr
    rcases raised_snoc hr with hr | ⟨m, hem, _⟩
    · exact hr
    · exact absurd hem (he m)

theorem write (h : Flipped f n evs word state) {current : r.RegValueType}
    (ha : Agrees current state) :
    Flipped f (n + 1) evs word (busWrite (w1cBehavior r) (flipWord f current) state) where
  toggled := by
    intro i hi hm
    rw [getLsbD_busWrite_normal _ _ hi hm, flipWord, getLsbD_maskW1c, hm, Bool.not_false,
      Bool.and_true, CInt.getLsbD_xorAssign, Region.getLsbD_mask, ha i hi hm, h.toggled i hi hm,
      Nat.bodd_succ]
    cases decide ((Region.field f).Covers i) <;> cases n.bodd <;> simp
  flagged := by
    intro i hm hw
    rw [getLsbD_busWrite_flag _ _ hm, flipWord, getLsbD_maskW1c, hm, h.flagged i hm hw]
    simp

end Flipped

/-- How far the flip under way has come after `n` finished ones. -/
inductive Flipping (f : Field r) (n : Nat) (evs : List (Event (BitVec r.bits) Unit (RegCmd r)))
    (word : BitVec r.bits) : FlipConfig r → Prop
  | idle (h : Flipped f n evs word state) : Flipping f n evs word ⟨state, none⟩
  | reading (h : Flipped f n evs word state) :
      Flipping f n evs word ⟨state, some ((), RegOps.flip f)⟩
  | writing (h : Flipped f n evs word state) (current : r.RegValueType)
      (ha : Agrees current state) :
      Flipping f n evs word ⟨state, some ((), regWrite (flipWord f current))⟩
  | done (h : Flipped f (n + 1) evs word state) :
      Flipping f n evs word ⟨state, some ((), .ret ())⟩

theorem finished_snoc (evs : List (Event E K C)) (e : Event E K C) :
    finished (evs ++ [e]) = finished evs + (isFinish e).toNat := by
  rw [finished, List.countP_append, List.countP_singleton]
  cases isFinish e <;> rfl

theorem Flipping.step (h : Flipping f (finished evs) evs word c) (hs : flipStep f c e c') :
    Flipping f (finished (evs ++ [e])) (evs ++ [e]) word c' := by
  rw [finished_snoc]
  cases hs with
  | surroundings state p m =>
    cases h with
    | idle hf => exact .idle (hf.setFlags m)
    | reading hf => exact .reading (hf.setFlags m)
    | writing hf current ha => exact .writing (hf.setFlags m) current (ha.setFlags m)
    | done hf => exact .done (hf.setFlags m)
  | start state k hk =>
    cases h with
    | idle hf => exact .reading (hf.snoc fun _ he => nomatch he)
  | command state k cmd next =>
    have hc : ∀ m : BitVec r.bits, Event.command k cmd ≠ .surroundings m :=
      fun m he => nomatch he
    cases h with
    | reading hf => exact .writing (hf.snoc hc) _ fun i _ _ => getLsbD_busRead state i
    | writing hf current ha => exact .done ((hf.write ha).snoc hc)
  | finish state k a =>
    cases h with
    | done hf => exact .idle (hf.snoc fun _ he => nomatch he)

theorem Flipping.run (hr : Run (flipStep f) ⟨word, none⟩ evs c) :
    Flipping f (finished evs) evs word c := by
  apply hr.inv (I := fun evs c => Flipping f (finished evs) evs word c)
  · exact .idle (.refl f word)
  · intro evs c e c' h hs
    exact h.step hs

theorem bodd_of_even {n : Nat} (h : Even n) : n.bodd = false := by
  have hm := Nat.mod_two_of_bodd n
  rw [Nat.even_iff.mp h] at hm
  cases hb : n.bodd with
  | false => rfl
  | true =>
    rw [hb] at hm
    cases hm

/-- A finished run of flips has toggled the field once for each, and lost no flag. -/
theorem flips_toggle (hr : Run (flipStep f) ⟨word, none⟩ evs ⟨word', none⟩) :
    Flipped f (finished evs) evs word word' := by
  cases Flipping.run hr with
  | idle hf => exact hf

theorem flips_restore (hr : Run (flipStep f) ⟨word, none⟩ evs ⟨word', none⟩)
    (he : Even (finished evs)) (hi : i < r.bits) (hm : r.w1cMask.getLsbD i = false) :
    word'.getLsbD i = word.getLsbD i := by
  rw [(flips_toggle hr).toggled i hi hm, bodd_of_even he, Bool.and_false, Bool.xor_false]

/-- A flip makes the bus accesses of a modify to the other bit, and an even number of flips restores
the bits outside the W1C mask while every flag that was or became set stays set. -/
theorem flip_modify_involution (f : Field r) (hw : f.bitWidth = 1) :
    (∀ (checkPolicy : Bool) {σ : Type} (h : RegHandler r σ) (s : σ),
      let v := f.complement (h .regRead s).1
      (RegOps.flip f).commands h s = (RegOps.modify checkPolicy [v]).commands h s ∧
        (RegOps.flip f).run h s = (RegOps.modify checkPolicy [v]).run h s) ∧
    ∀ (word : BitVec r.bits) (evs : List (Event (BitVec r.bits) Unit (RegCmd r)))
      (word' : BitVec r.bits), Run (flipStep f) ⟨word, none⟩ evs ⟨word', none⟩ →
        (Even (finished evs) → ∀ i < r.bits, r.w1cMask.getLsbD i = false →
          word'.getLsbD i = word.getLsbD i) ∧
        ∀ i, r.w1cMask.getLsbD i = true → word.getLsbD i = true ∨ Raised evs i →
          word'.getLsbD i = true := by
  constructor
  · intro checkPolicy σ h s
    exact flip_eq_modify hw checkPolicy h s
  · intro word evs word' hr
    exact ⟨fun he i hi hm => flips_restore hr he hi hm, (flips_toggle hr).flagged⟩

/-- Two flips of the enable bit, with the second flag raised inside the first of them. -/
theorem enable_flipped_twice : ∃ evs word',
    Run (flipStep enable) ⟨0x001#32, none⟩ evs ⟨word', none⟩ ∧ finished evs = 2 ∧ Raised evs 1 := by
  have hread : Run (flipStep enable) ⟨0x001#32, none⟩ _ _ :=
    .snoc (.snoc .nil (.start _ () trivial)) (.command _ _ _ _)
  have hfirst := Run.snoc (.snoc (.snoc hread (.surroundings _ _ 0x002#32)) (.command _ _ _ _))
    (.finish _ _ _)
  have hsecond := Run.snoc (.snoc (.snoc (.snoc hfirst (.start _ () trivial)) (.command _ _ _ _))
    (.command _ _ _ _)) (.finish _ _ _)
  exact ⟨_, _, hsecond, rfl, (raised_last _ (by decide)).append.append.append.append.append.append⟩

theorem flip_modify_involution_enable : ∃ evs word',
    Run (flipStep enable) ⟨0x001#32, none⟩ evs ⟨word', none⟩ ∧ finished evs = 2 ∧
      word'.getLsbD 8 = (0x001#32).getLsbD 8 ∧ word'.getLsbD 1 = true := by
  obtain ⟨evs, word', hrun, hn, hraised⟩ := enable_flipped_twice
  have h := (flip_modify_involution enable rfl).2 _ _ _ hrun
  exact ⟨evs, word', hrun, hn, h.1 (by rw [hn]; decide) 8 (by decide) (by decide),
    h.2 1 (by decide) (.inr hraised)⟩

end Umimmio
