import Umimmio.Hardware

namespace Umimmio
open Effects
set_option autoImplicit true

variable {r : Register}

/-- Disjoint fields of a register, the W1C ones among them covered by its mask. -/
structure FieldSet (r : Register) where
  fields : List (Field r)
  disjoint : fields.Pairwise fun f g => (Region.field f).Disjoint (.field g)
  w1c_inside : ∀ f ∈ fields, f.accessType.isW1C →
    ∀ i, (Region.field f).Covers i → r.w1cMask.getLsbD i = true

/-- The documented reaction of each bit to a bus write; bits of no field just store. -/
def FieldSet.behavior (S : FieldSet r) (i : Nat) : WriteBehavior :=
  match S.fields.find? fun f => (Region.field f).Covers i with
  | some f => f.accessType.writeBehavior
  | none => .normal

theorem find?_eq_of_disjoint {fields : List (Field r)}
    (hd : fields.Pairwise fun f g => (Region.field f).Disjoint (.field g)) (hf : f ∈ fields)
    (hc : (Region.field f).Covers i) :
    fields.find? (fun g => (Region.field g).Covers i) = some f := by
  induction fields with
  | nil => cases hf
  | cons g fields ih =>
    rw [List.pairwise_cons] at hd
    rcases List.mem_cons.mp hf with rfl | hf
    · simp only [List.find?_cons, hc, decide_true]
    · have hg : ¬ (Region.field g).Covers i := fun hg => hd.1 f hf i hg hc
      simp only [List.find?_cons, hg, decide_false, ih hd.2 hf]

theorem FieldSet.behavior_eq (S : FieldSet r) (hf : f ∈ S.fields)
    (hc : (Region.field f).Covers i) : S.behavior i = f.accessType.writeBehavior := by
  rw [behavior, find?_eq_of_disjoint S.disjoint hf hc]

/-- A register together with the flags the hardware raises right after the next bus read. -/
def racedHardware (behavior : Nat → WriteBehavior) : RegHandler r (BitVec r.bits × BitVec r.bits)
  | .regRead, (word, late) => (busRead word, (word ||| late, 0))
  | .regWrite w, (word, late) => ((), (busWrite behavior w word, late))
  | .onRangeError _, s => ((), s)

def FieldSet.after (S : FieldSet r) (checkPolicy : Bool) (op : Op r)
    (word late : BitVec r.bits) : BitVec r.bits :=
  ((op.prog checkPolicy).run (racedHardware S.behavior) (word, late)).2.1

def Field.Unnamed (f : Field r) (op : Op r) : Prop :=
  ∀ i, (Region.field f).Covers i → ¬ op.Names i

/-- Every field that the call does not name keeps its bits and the flags raised meanwhile. -/
def FieldSet.KeepsSiblings (S : FieldSet r) (checkPolicy : Bool) (op : Op r)
    (word late : BitVec r.bits) : Prop :=
  ∀ f ∈ S.fields, f.Unnamed op → ∀ i, (Region.field f).Covers i →
    (S.after checkPolicy op word late).getLsbD i = (word.getLsbD i || late.getLsbD i)

/-- Writing back the bit that was read is neutral for the behaviour. -/
def WriteBehavior.neutral : WriteBehavior → (masked stored late : Bool) → Bool
  | .normal, masked, stored, _ => !(stored && masked)
  | .oneToClear, _, _, _ => true
  | .oneToSet, _, _, _ => true
  | .oneToToggle, masked, stored, _ => !stored || masked
  | .zeroToClear, masked, stored, late => if stored then !masked else !late
  | .zeroToSet, _, stored, _ => stored
  | .zeroToToggle, masked, stored, _ => stored && !masked

def FieldSet.SiblingsNeutral (S : FieldSet r) (op : Op r) (word late : BitVec r.bits) : Prop :=
  ∀ f ∈ S.fields, f.Unnamed op → ∀ i, (Region.field f).Covers i →
    f.accessType.writeBehavior.neutral (r.w1cMask.getLsbD i) (word.getLsbD i) (late.getLsbD i) =
      true

theorem WriteBehavior.react_writeBack (b : WriteBehavior) (masked stored late : Bool)
    (hl : late = true → b = .zeroToClear) (hm : b = .oneToClear → masked = true) :
    b.react (stored || late) (stored && !masked) = (stored || late) ↔
      b.neutral masked stored late = true := by
  cases b <;> cases masked <;> cases stored <;> cases late <;> simp_all [react, neutral]

/-- A bit that the call does not name is written back as it was read, less the W1C mask. -/
theorem FieldSet.getLsbD_after (S : FieldSet r) (checkPolicy : Bool) {op : Op r}
    (hop : op.WritesBack) (word late : BitVec r.bits) (hi : i < r.bits) (hn : ¬ op.Names i) :
    (S.after checkPolicy op word late).getLsbD i =
      (S.behavior i).react (word.getLsbD i || late.getLsbD i)
        (word.getLsbD i && !r.w1cMask.getLsbD i) := by
  rw [after, hop.isRmw.run (fun _ _ => rfl)]
  simp only [racedHardware]
  rw [getLsbD_busWrite _ _ _ hi, getLsbD_rmwWord_of_not_names hop hn, getLsbD_busRead,
    BitVec.getLsbD_or]

/-- `modify` and `flip` preserve the fields they do not name exactly when the bits of those fields
are neutral under being written back. -/
theorem keepsSiblings_iff (S : FieldSet r) (checkPolicy : Bool) {op : Op r}
    (hop : op.WritesBack) (word late : BitVec r.bits)
    (hl : ∀ i, late.getLsbD i = true → S.behavior i = .zeroToClear) :
    S.KeepsSiblings checkPolicy op word late ↔ S.SiblingsNeutral op word late := by
  have hbit : ∀ f ∈ S.fields, f.Unnamed op → ∀ i, (Region.field f).Covers i →
      ((S.after checkPolicy op word late).getLsbD i = (word.getLsbD i || late.getLsbD i) ↔
        f.accessType.writeBehavior.neutral (r.w1cMask.getLsbD i) (word.getLsbD i)
          (late.getLsbD i) = true) := by
    intro f hf hu i hc
    have hb := S.behavior_eq hf hc
    rw [S.getLsbD_after checkPolicy hop word late hc.lt_bits (hu i hc), hb]
    apply WriteBehavior.react_writeBack
    · exact fun h => hb.symm.trans (hl i h)
    · exact fun h => S.w1c_inside f hf ((Access.isW1C_iff _).mpr h) i hc
  constructor
  · intro h f hf hu i hc
    exact (hbit f hf hu i hc).mp (h f hf hu i hc)
  · intro h f hf hu i hc
    exact (hbit f hf hu i hc).mpr (h f hf hu i hc)

def controlRegister : Register := .declare ({} : Device).toParent 0x10 .bits8

def controlEnable : Field controlRegister := .bit 0 (by decide)
def controlReady : Field controlRegister := .bit 4 (by decide) [.accessPolicy .z0s]

def controlFields : FieldSet controlRegister where
  fields := [controlEnable, controlReady]
  disjoint := by
    simp only [List.pairwise_cons, List.mem_singleton, forall_eq, List.not_mem_nil,
      IsEmpty.forall_iff, implies_true, List.Pairwise.nil, and_true]
    intro i h h'
    have h1 := h.2
    have h2 := h'.1
    simp only [Region.shift, Region.bitWidth, controlEnable, controlReady, Field.bit] at h1 h2
    omega
  w1c_inside := by
    intro f hf hw
    simp only [List.mem_cons, List.not_mem_nil, or_false] at hf
    rcases hf with rfl | rfl <;> exact absurd hw (by decide)

def setControlEnable : Op controlRegister := .modify [⟨.field controlEnable, .value 1⟩]

theorem setControlEnable_admitted : setControlEnable.Admitted .direct := by
  apply Op.admitted_modify_singleton <;> decide

theorem controlReady_unnamed : controlReady.Unnamed setControlEnable := by
  rintro i h ⟨v, hv, hc⟩
  obtain rfl := List.mem_singleton.mp hv
  have h1 := h.1
  have h2 := hc.2
  simp only [Region.shift, Region.bitWidth, controlEnable, controlReady, Field.bit] at h1 h2
  omega

/-- Setting the enable bit also sets the write-0-to-set flag, which the call does not name. -/
theorem keepsSiblings_fails_zeroToSet :
    setControlEnable.Admitted .direct ∧
      ¬ controlFields.KeepsSiblings true setControlEnable 0 0 := by
  have hkeeps : ¬ controlFields.KeepsSiblings true setControlEnable 0 0 := by
    intro h
    have h4 := h controlReady (by simp [controlFields]) controlReady_unnamed 4 (by decide)
    revert h4
    decide
  exact ⟨setControlEnable_admitted, hkeeps⟩

theorem keepsSiblings_iff_ready :
    controlFields.KeepsSiblings true setControlEnable 0x10#8 0 := by
  have hop : setControlEnable.WritesBack := trivial
  refine (keepsSiblings_iff controlFields true hop 0x10#8 0 ?_).mpr ?_
  · intro i h
    rw [BitVec.ofNat_eq_ofNat, BitVec.getLsbD_zero] at h
    cases h
  · intro f hf hu i hc
    simp only [controlFields, List.mem_cons, List.not_mem_nil, or_false] at hf
    rcases hf with rfl | rfl
    · exact absurd ⟨_, List.mem_singleton.mpr rfl, hc⟩ (hu i hc)
    · obtain rfl : i = 4 := Nat.le_antisymm (Nat.lt_succ_iff.mp hc.2) hc.1
      decide

end Umimmio
