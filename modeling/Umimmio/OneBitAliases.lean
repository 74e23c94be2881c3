import Umimmio.Region

namespace Umimmio
set_option autoImplicit true

variable {r : Register}

def Trait.isAccessPolicy : Trait → Bool
  | .accessPolicy _ => true
  | _ => false

def isNumeric (traits : List Trait) : Bool := traits.contains .numeric

def isW1cAccess : Access → Bool
  | .policy p => p.writeBehavior == .oneToClear
  | .inherit => false

def isW1tAccess : Access → Bool
  | .policy p => p.writeBehavior == .oneToToggle
  | .inherit => false

inductive OneBitBase
  | noOneBitAliases
  | oneBitAliases
  | oneBitW1CAliases
  | oneBitW1TAliases
  deriving DecidableEq, Repr

inductive OneBitAlias
  | set
  | reset
  | clear
  | isSet
  | pending
  | toggle
  deriving DecidableEq, Repr

/-- The constant of each alias that a base declares. -/
def OneBitBase.value? : OneBitBase → OneBitAlias → Option Int
  | .oneBitAliases, .set => some 1
  | .oneBitAliases, .reset => some 0
  | .oneBitW1CAliases, .clear => some 1
  | .oneBitW1CAliases, .isSet => some 1
  | .oneBitW1CAliases, .pending => some 1
  | .oneBitW1TAliases, .toggle => some 1
  | _, _ => none

def oneBitBase (bitWidth : Nat) (access : Access) : OneBitBase :=
  if bitWidth ≠ 1 then .noOneBitAliases
  else if isW1cAccess access then .oneBitW1CAliases
  else if isW1tAccess access then .oneBitW1TAliases
  else .oneBitAliases

namespace Field

/-- The base is chosen by the access among the traits, before the register's is inherited. -/
def base (f : Field r) : OneBitBase := oneBitBase f.bitWidth (extractAccess f.traits)

def aliasValue (f : Field r) (a : OneBitAlias) : Option (ValueArg r) :=
  (f.base.value? a).map fun e => ⟨.field f, .value e⟩

def Exposes (f : Field r) (a : OneBitAlias) : Prop := (f.aliasValue a).isSome = true

end Field

/-- The alias is one of a field with this write behaviour. -/
def OneBitAlias.Suits (b : WriteBehavior) : OneBitAlias → Prop
  | .set => b ≠ .oneToClear ∧ b ≠ .oneToToggle
  | .reset => b ≠ .oneToClear ∧ b ≠ .oneToToggle
  | .clear => b = .oneToClear
  | .isSet => b = .oneToClear
  | .pending => b = .oneToClear
  | .toggle => b = .oneToToggle

/-- The field exposes the aliases of its effective write behaviour and no others. -/
def Field.AliasesFollow (f : Field r) : Prop :=
  ∀ a : OneBitAlias, f.Exposes a ↔ a.Suits f.accessType.writeBehavior

/-- The access arguments around a register, from the inside out. -/
inductive Parent.DeclaredIn : Parent → List Access → Prop
  | device (d : Device) : DeclaredIn d.toParent [d.access]
  | block (b : Block) (h : DeclaredIn b.parent outer) : DeclaredIn b.toParent (b.access :: outer)

/-- The first access argument that is not `Inherit`. -/
def innermost : List Access → Access
  | [] => .inherit
  | a :: outer => a.resolve (innermost outer)

theorem Parent.DeclaredIn.accessType_eq {p : Parent} (h : p.DeclaredIn scopes) :
    p.accessType = innermost scopes := by
  induction h with
  | device d =>
    rw [Device.toParent, innermost, innermost]
    cases d.access with
    | policy p => rfl
    | inherit => rfl
  | block b _ ih => rw [Block.toParent, innermost, ih]

theorem extractAccess_eq_inherit_iff (traits : List Trait) :
    extractAccess traits = .inherit ↔ ¬ ∃ p, .accessPolicy p ∈ traits := by
  induction traits with
  | nil => simp [extractAccess]
  | cons t traits ih =>
    cases t with
    | accessPolicy p => simp [extractAccess]
    | numeric => simp [extractAccess, ih]
    | inherit => simp [extractAccess, ih]
    | other => simp [extractAccess, ih]

theorem extractAccess_cons {t : Trait} (ht : t.isAccessPolicy = false) (traits : List Trait) :
    extractAccess (t :: traits) = extractAccess traits := by
  cases t with
  | accessPolicy p => cases ht
  | numeric => rfl
  | inherit => rfl
  | other => rfl

theorem extractAccess_cons_congr (t : Trait) {traits traits' : List Trait}
    (h : extractAccess traits = extractAccess traits') :
    extractAccess (t :: traits) = extractAccess (t :: traits') := by
  cases t with
  | accessPolicy p => rfl
  | numeric => exact h
  | inherit => exact h
  | other => exact h

/-- With one access policy at most, the order of the traits does not matter. -/
theorem extractAccess_perm {traits traits' : List Trait} (h : traits.Perm traits')
    (hone : traits.countP Trait.isAccessPolicy ≤ 1) :
    extractAccess traits = extractAccess traits' := by
  induction h with
  | nil => rfl
  | cons t h ih =>
    apply extractAccess_cons_congr
    apply ih
    exact Nat.le_trans (List.sublist_cons_self t _).countP_le hone
  | swap t t' traits =>
    cases ht : t.isAccessPolicy with
    | false =>
      rw [extractAccess_cons ht (t' :: traits)]
      exact extractAccess_cons_congr t' (extractAccess_cons ht traits)
    | true =>
      cases ht' : t'.isAccessPolicy with
      | false =>
        rw [extractAccess_cons ht' (t :: traits)]
        exact extractAccess_cons_congr t (extractAccess_cons ht' traits).symm
      | true =>
        rw [List.countP_cons_of_pos ht', List.countP_cons_of_pos ht] at hone
        omega
  | trans h _ ih ih' =>
    rw [ih hone]
    apply ih'
    rw [← h.countP_eq]
    exact hone

theorem isNumeric_perm {traits traits' : List Trait} (h : traits.Perm traits') :
    isNumeric traits = isNumeric traits' := by
  rw [isNumeric, isNumeric, Bool.eq_iff_iff, List.contains_iff_mem, List.contains_iff_mem]
  exact h.mem_iff

theorem isW1cAccess_iff (access : Access) :
    isW1cAccess access = true ↔ access.writeBehavior = .oneToClear :=
  access.isW1C_iff

theorem isW1tAccess_iff (access : Access) :
    isW1tAccess access = true ↔ access.writeBehavior = .oneToToggle := by
  cases access with
  | policy p => exact beq_iff_eq
  | inherit => simp only [isW1tAccess, Access.writeBehavior, Bool.false_eq_true, reduceCtorEq]

/-- The base of a 1-bit field declares the aliases of the access that it is chosen by. -/
theorem oneBitBase_value?_isSome_iff (access : Access) (a : OneBitAlias) :
    ((oneBitBase 1 access).value? a).isSome = true ↔ a.Suits access.writeBehavior := by
  rw [oneBitBase, if_neg (not_not.mpr rfl)]
  by_cases hc : access.writeBehavior = .oneToClear
  · rw [if_pos ((isW1cAccess_iff access).mpr hc), hc]
    cases a <;> simp [OneBitBase.value?, OneBitAlias.Suits]
  · rw [if_neg fun h => hc ((isW1cAccess_iff access).mp h)]
    by_cases ht : access.writeBehavior = .oneToToggle
    · rw [if_pos ((isW1tAccess_iff access).mpr ht), ht]
      cases a <;> simp [OneBitBase.value?, OneBitAlias.Suits]
    · rw [if_neg fun h => ht ((isW1tAccess_iff access).mp h)]
      cases a <;> simp [OneBitBase.value?, OneBitAlias.Suits, hc, ht]

theorem OneBitAlias.suits_congr {b b' : WriteBehavior} (hb : b ≠ .oneToClear ∧ b ≠ .oneToToggle)
    (hb' : b' ≠ .oneToClear ∧ b' ≠ .oneToToggle) (a : OneBitAlias) : a.Suits b ↔ a.Suits b' := by
  cases a with
  | set => exact iff_of_true hb hb'
  | reset => exact iff_of_true hb hb'
  | clear => exact iff_of_false hb.1 hb'.1
  | isSet => exact iff_of_false hb.1 hb'.1
  | pending => exact iff_of_false hb.1 hb'.1
  | toggle => exact iff_of_false hb.2 hb'.2

namespace Field

variable {f : Field r}

theorem exposes_iff (hw : f.bitWidth = 1) (a : OneBitAlias) :
    f.Exposes a ↔ a.Suits (extractAccess f.traits).writeBehavior := by
  rw [Exposes, aliasValue, Option.isSome_map, base, hw]
  exact oneBitBase_value?_isSome_iff _ a

theorem aliasesFollow_of_policy (hw : f.bitWidth = 1) (h : ∃ p, .accessPolicy p ∈ f.traits) :
    f.AliasesFollow := by
  intro a
  rw [exposes_iff hw, accessType]
  cases he : extractAccess f.traits with
  | policy p => exact Iff.rfl
  | inherit => exact absurd h ((extractAccess_eq_inherit_iff _).mp he)

/-- A field that inherits its access exposes the aliases of normal writes. -/
theorem aliasesFollow_of_inherit (hw : f.bitWidth = 1)
    (h : ¬ ∃ p, .accessPolicy p ∈ f.traits) :
    f.AliasesFollow ↔
      r.accessType.writeBehavior ≠ .oneToClear ∧ r.accessType.writeBehavior ≠ .oneToToggle := by
  have he := (extractAccess_eq_inherit_iff f.traits).mpr h
  have hinherited : f.accessType = r.accessType := by
    rw [accessType, he]
    rfl
  have hnormal : Access.inherit.writeBehavior ≠ .oneToClear ∧
      Access.inherit.writeBehavior ≠ .oneToToggle := ⟨nofun, nofun⟩
  constructor
  · intro hf
    have hset := hf .set
    rw [exposes_iff hw, he, hinherited] at hset
    exact hset.mp hnormal
  · intro hb a
    rw [exposes_iff hw, he, hinherited]
    exact OneBitAlias.suits_congr hnormal hb a

end Field

/-- The order of the traits of a 1-bit field does not matter, and its aliases follow its effective
write behaviour exactly when it names its own policy or inherits neither ONE_TO_CLEAR nor
ONE_TO_TOGGLE. -/
theorem aliasesFollow_iff {scopes : List Access} (hr : r.parent.DeclaredIn scopes) (f : Field r)
    (hw : f.bitWidth = 1) (hone : f.traits.countP Trait.isAccessPolicy ≤ 1) :
    (∀ traits, f.traits.Perm traits →
      extractAccess f.traits = extractAccess traits ∧ isNumeric f.traits = isNumeric traits) ∧
    f.accessType = innermost (extractAccess f.traits :: r.access :: scopes) ∧
    (f.AliasesFollow ↔ (∃ p, .accessPolicy p ∈ f.traits) ∨
      (innermost (r.access :: scopes)).writeBehavior ≠ .oneToClear ∧
        (innermost (r.access :: scopes)).writeBehavior ≠ .oneToToggle) := by
  have hregister : r.accessType = innermost (r.access :: scopes) := by
    rw [Register.accessType, hr.accessType_eq, innermost]
  have hfield : f.accessType = innermost (extractAccess f.traits :: r.access :: scopes) := by
    rw [innermost, ← hregister]
    rfl
  have hfollow : f.AliasesFollow ↔ (∃ p, .accessPolicy p ∈ f.traits) ∨
      (innermost (r.access :: scopes)).writeBehavior ≠ .oneToClear ∧
        (innermost (r.access :: scopes)).writeBehavior ≠ .oneToToggle := by
    rw [← hregister]
    by_cases h : ∃ p, .accessPolicy p ∈ f.traits
    · exact iff_of_true (Field.aliasesFollow_of_policy hw h) (.inl h)
    · rw [Field.aliasesFollow_of_inherit hw h]
      exact (or_iff_right h).symm
  exact ⟨fun traits hp => ⟨extractAccess_perm hp hone, isNumeric_perm hp⟩, hfield, hfollow⟩

/-- A block whose registers are write-1-to-clear unless they say otherwise. -/
def flagBlock : Block where
  parent := ({} : Device).toParent
  baseAddr := 0x100
  access := .policy .w1c

theorem flagBlock_declared : flagBlock.toParent.DeclaredIn [.policy .w1c, .policy .rw] :=
  .block flagBlock (.device {})

def flagRegister : Register := .declare flagBlock.toParent 0x04 .bits32 .inherit

def flagReady : Field flagRegister := .bit 0 (by decide)

/-- A field that inherits W1C exposes `Set`. -/
theorem aliasesFollow_fails_inherited :
    flagReady.accessType.writeBehavior = .oneToClear ∧ flagReady.Exposes .set ∧
      ¬ flagReady.AliasesFollow := by
  have hfollow : ¬ flagReady.AliasesFollow := by
    intro h
    exact absurd rfl ((h .set).mp rfl).1
  exact ⟨rfl, rfl, hfollow⟩

def flagOverrun : Field flagRegister :=
  .bit 1 (by decide) [.numeric, .accessPolicy .w1c]

theorem aliasesFollow_iff_overrun : flagOverrun.AliasesFollow :=
  (aliasesFollow_iff flagBlock_declared flagOverrun rfl (by decide)).2.2.mpr
    (.inl ⟨.w1c, by decide⟩)

end Umimmio
