import Umimmio.Transport.Direct

namespace Umimmio
open Effects Bytes
set_option autoImplicit true

/-- The last field is the `static_assert` of the accesses by runtime index. -/
structure IndexedArray where
  parent : Parent
  baseOffset : Addr
  count : Nat
  entryWidth : Nat := 8
  stride : Nat := entryWidth / 8
  direct : TransportTag.direct ∈ parent.allowedTransportsType

namespace IndexedArray

variable {p : PointerWidth}

abbrev entryBits (A : IndexedArray) : Nat := uintFit A.entryWidth

abbrev EntryType (A : IndexedArray) : Type := BitVec A.entryBits

/-- Size of an entry in bytes. -/
def entrySize (A : IndexedArray) : Nat := A.entryBits / 8

def base (p : PointerWidth) (A : IndexedArray) : BitVec p.bits :=
  BitVec.ofNat _ A.parent.baseAddress + BitVec.ofNat _ A.baseOffset

def ptr (A : IndexedArray) (index : BitVec p.bits) : BitVec p.bits :=
  A.base p + index * BitVec.ofNat _ A.stride

def writeEntry (A : IndexedArray) (index : BitVec p.bits) (value : A.EntryType) :
    DirectProg p Unit := do
  if A.count ≤ index.toNat then
    DirectProg.onRangeError "IndexedArray: write index out of range"
    return
  DirectProg.volatileWrite (A.ptr index) value

def readEntry (A : IndexedArray) (index : BitVec p.bits) : DirectProg p A.EntryType := do
  if A.count ≤ index.toNat then
    DirectProg.onRangeError "IndexedArray: read index out of range"
    return 0
  DirectProg.volatileRead (A.ptr index) A.entryBits

inductive ArrayCall (p : PointerWidth) (A : IndexedArray)
  | writeEntry (index : BitVec p.bits) (value : A.EntryType)
  | readEntry (index : BitVec p.bits)

namespace ArrayCall

variable {A : IndexedArray}

def index : ArrayCall p A → BitVec p.bits
  | .writeEntry index _ => index
  | .readEntry index => index

def after (native : Endian) (m : Machine p) : ArrayCall p A → Machine p
  | .writeEntry index value => ((A.writeEntry index value).run (Machine.access native) m).2
  | .readEntry index => ((A.readEntry index).run (Machine.access native) m).2

/-- What the call does to an array of `count` values. -/
def update (entries : BitVec p.bits → A.EntryType) : ArrayCall p A → BitVec p.bits → A.EntryType
  | .writeEntry index value =>
    if index.toNat < A.count then Function.update entries index value else entries
  | .readEntry _ => entries

end ArrayCall

/-- What `read_entry` returns. -/
def entry (A : IndexedArray) (native : Endian) (m : Machine p) (index : BitVec p.bits) :
    A.EntryType :=
  ((A.readEntry index).run (Machine.access native) m).1

/-- After the calls the entries are those of an array, separate from each other, and a call with an
index out of range is rejected. -/
structure ActsAsArray (A : IndexedArray) (native : Endian) (m : Machine p)
    (calls : List (ArrayCall p A)) : Prop where
  reads : ∀ i, i.toNat < A.count →
    A.entry native (calls.foldl (ArrayCall.after native) m) i =
      calls.foldl ArrayCall.update (A.entry native m) i
  separate : ∀ i j (value : A.EntryType), i ≠ j → j.toNat < A.count →
    let m' := calls.foldl (ArrayCall.after native) m
    A.entry native ((ArrayCall.writeEntry i value).after native m') j = A.entry native m' j
  rejects : ∀ c : ArrayCall p A, A.count ≤ c.index.toNat →
    let m' := calls.foldl (ArrayCall.after native) m
    (c.after native m').mem = m'.mem ∧
      ∃ msg, (c.after native m').errors = m'.errors ++ [msg]

/-- No two entries share a byte. -/
def Apart (p : PointerWidth) (A : IndexedArray) : Prop :=
  ∀ i j : BitVec p.bits, i.toNat < A.count → j.toNat < A.count → i ≠ j →
    ∀ k < A.entrySize, ¬ Mem.InRange (A.ptr i) A.entrySize (A.ptr j + BitVec.ofNat _ k)

section Runs

variable (A : IndexedArray) (native : Endian) (m : Machine p) {index : BitVec p.bits}

theorem eight_dvd_entryBits : 8 ∣ A.entryBits := eight_dvd_uintFit A.entryWidth

theorem entrySize_pos : 0 < A.entrySize := by
  have h0 := uintFit_pos A.entryWidth
  have h8 := A.eight_dvd_entryBits
  rw [entrySize, entryBits] at *
  omega

theorem entrySize_le : A.entrySize ≤ 2 ^ p.bits := by
  have h64 := uintFit_le A.entryWidth
  have hp := p.two_pow_le
  rw [entrySize, entryBits]
  omega

theorem run_writeEntry (hi : index.toNat < A.count) (value : A.EntryType) :
    (A.writeEntry index value).run (Machine.access native) m =
      ((), { m with mem := m.mem.store (A.ptr index) (encode native value) }) := by
  rw [writeEntry, if_neg (Nat.not_le.mpr hi)]
  rfl

theorem run_writeEntry_rejected (hi : A.count ≤ index.toNat) (value : A.EntryType) :
    (A.writeEntry index value).run (Machine.access native) m =
      ((), { m with errors := m.errors ++ ["IndexedArray: write index out of range"] }) := by
  rw [writeEntry, if_pos hi]
  rfl

theorem run_readEntry (hi : index.toNat < A.count) :
    (A.readEntry index).run (Machine.access native) m =
      (decode A.entryBits native (m.mem.load (A.ptr index) A.entrySize), m) := by
  rw [readEntry, if_neg (Nat.not_le.mpr hi)]
  rfl

theorem entry_eq (hi : index.toNat < A.count) :
    A.entry native m index = decode A.entryBits native (m.mem.load (A.ptr index) A.entrySize) := by
  rw [entry, run_readEntry A native m hi]

theorem load_eq_of_entry_eq {m m' : Machine p} (hi : index.toNat < A.count)
    (h : A.entry native m index = A.entry native m' index) :
    m.mem.load (A.ptr index) A.entrySize = m'.mem.load (A.ptr index) A.entrySize := by
  rw [entry_eq A native m hi, entry_eq A native m' hi] at h
  have hload := congrArg (encode native) h
  have hlen : ∀ m : Machine p, (m.mem.load (A.ptr index) A.entrySize).length = A.entryBits / 8 :=
    fun m => Mem.length_load _ _ _
  rw [encode_decode A.eight_dvd_entryBits native (hlen m),
    encode_decode A.eight_dvd_entryBits native (hlen m')] at hload
  exact hload

theorem after_writeEntry (hi : index.toNat < A.count) (value : A.EntryType) :
    (ArrayCall.writeEntry index value).after native m =
      { m with mem := m.mem.store (A.ptr index) (encode native value) } :=
  congrArg Prod.snd (run_writeEntry A native m hi value)

theorem run_readEntry_rejected (hi : A.count ≤ index.toNat) :
    (A.readEntry index).run (Machine.access native) m =
      (0, { m with errors := m.errors ++ ["IndexedArray: read index out of range"] }) := by
  rw [readEntry, if_pos hi]
  rfl

theorem entry_writeEntry_self (hi : index.toNat < A.count) (value : A.EntryType) :
    A.entry native ((ArrayCall.writeEntry index value).after native m) index = value := by
  have hlen : (encode native value).length = A.entrySize := length_encode native value
  have hsize : (encode native value).length ≤ 2 ^ p.bits := hlen ▸ A.entrySize_le
  rw [after_writeEntry A native m hi, entry_eq A native _ hi, ← hlen, Mem.load_store _ _ hsize]
  exact decode_encode A.eight_dvd_entryBits native value

theorem entry_writeEntry_of_ne (hA : A.Apart p) {i j : BitVec p.bits} (hne : i ≠ j)
    (hj : j.toNat < A.count) (value : A.EntryType) :
    A.entry native ((ArrayCall.writeEntry i value).after native m) j = A.entry native m j := by
  rw [entry_eq A native _ hj, entry_eq A native m hj]
  by_cases hi : i.toNat < A.count
  · have hlen : (encode native value).length = A.entrySize := length_encode native value
    rw [after_writeEntry A native m hi, Mem.load_store_disjoint]
    intro k hk
    rw [hlen]
    exact hA i j hi hj hne k hk
  · rw [ArrayCall.after, run_writeEntry_rejected A native m (Nat.le_of_not_lt hi)]

theorem entry_readEntry (i j : BitVec p.bits) (hj : j.toNat < A.count) :
    A.entry native ((ArrayCall.readEntry i : ArrayCall p A).after native m) j =
      A.entry native m j := by
  rw [entry_eq A native _ hj, entry_eq A native m hj, ArrayCall.after]
  by_cases hi : i.toNat < A.count
  · rw [run_readEntry A native m hi]
  · rw [run_readEntry_rejected A native m (Nat.le_of_not_lt hi)]

/-- A call on entries that keep apart updates the array that they hold. -/
theorem entry_after (hA : A.Apart p) (c : ArrayCall p A) {j : BitVec p.bits}
    (hj : j.toNat < A.count) :
    A.entry native (c.after native m) j = c.update (A.entry native m) j := by
  cases c with
  | writeEntry i value =>
    rw [ArrayCall.update]
    by_cases he : i = j
    · subst he
      rw [if_pos hj, Function.update_self, entry_writeEntry_self A native m hj]
    · rw [entry_writeEntry_of_ne A native m hA he hj]
      split_ifs
      · rw [Function.update_of_ne (Ne.symm he)]
      · rfl
  | readEntry i => exact A.entry_readEntry native m i j hj

end Runs

theorem ArrayCall.update_congr {A : IndexedArray} {f g : BitVec p.bits → A.EntryType}
    {j : BitVec p.bits} (h : f j = g j) (c : ArrayCall p A) : c.update f j = c.update g j := by
  cases c with
  | writeEntry i value =>
    rw [update, update]
    split_ifs
    · by_cases he : j = i
      · rw [he, Function.update_self, Function.update_self]
      · rw [Function.update_of_ne he, Function.update_of_ne he, h]
    · exact h
  | readEntry i => exact h

theorem Apart.reads {A : IndexedArray} (hA : A.Apart p) (native : Endian)
    (calls : List (ArrayCall p A)) {j : BitVec p.bits} (hj : j.toNat < A.count) {m : Machine p}
    {f : BitVec p.bits → A.EntryType} (h : A.entry native m j = f j) :
    A.entry native (calls.foldl (ArrayCall.after native) m) j =
      calls.foldl ArrayCall.update f j := by
  induction calls generalizing m f with
  | nil => exact h
  | cons c calls ih =>
    apply ih
    rw [A.entry_after native m hA c hj]
    exact c.update_congr h

theorem rejected_after {A : IndexedArray} (native : Endian) (m : Machine p) (c : ArrayCall p A)
    (hc : A.count ≤ c.index.toNat) :
    (c.after native m).mem = m.mem ∧ ∃ msg, (c.after native m).errors = m.errors ++ [msg] := by
  cases c with
  | writeEntry i value =>
    have hi : A.count ≤ i.toNat := hc
    rw [ArrayCall.after, run_writeEntry_rejected A native m hi]
    exact ⟨rfl, _, rfl⟩
  | readEntry i =>
    have hi : A.count ≤ i.toNat := hc
    rw [ArrayCall.after, run_readEntry_rejected A native m hi]
    exact ⟨rfl, _, rfl⟩

theorem Apart.actsAsArray {A : IndexedArray} (hA : A.Apart p) (native : Endian) (m : Machine p)
    (calls : List (ArrayCall p A)) : A.ActsAsArray native m calls where
  reads _ hi := hA.reads native calls hi rfl
  separate _ _ value hne hj := A.entry_writeEntry_of_ne native _ hA hne hj value
  rejects c hc := rejected_after native _ c hc

/-- Two entries that share a byte: in a memory that differs there, writing one changes the other. -/
theorem apart_of_separate {A : IndexedArray} {native : Endian}
    (h : ∀ (m : Machine p) (i j : BitVec p.bits) (value : A.EntryType), i ≠ j →
      j.toNat < A.count →
        A.entry native ((ArrayCall.writeEntry i value).after native m) j = A.entry native m j) :
    A.Apart p := by
  intro i j hi hj hne k hk hin
  have hlen : (encode native (0 : A.EntryType)).length = A.entrySize := length_encode native 0
  obtain ⟨b, hb⟩ : ∃ b, b = (encode native (0 : A.EntryType)).getD
      (A.ptr j + BitVec.ofNat _ k - A.ptr i).toNat 0 := ⟨_, rfl⟩
  have hload := A.load_eq_of_entry_eq native hj (h { mem := fun _ => b + 1 } i j 0 hne hj)
  have hbyte := congrArg (fun bs => bs[k]?) hload
  simp only [A.after_writeEntry native _ hi, Mem.load, List.getElem?_map,
    List.getElem?_range hk, Option.map_some, Option.some.injEq] at hbyte
  rw [Mem.InRange, ← hlen] at hin
  rw [Mem.store, List.getD_eq_getElem _ _ hin] at hbyte
  rw [List.getD_eq_getElem _ _ hin, hbyte] at hb
  exact absurd hb (by bv_omega)

/-- The array ends inside the address space. -/
def Fits (p : PointerWidth) (A : IndexedArray) : Prop :=
  ∀ i < A.count,
    A.parent.baseAddress + A.baseOffset + i * A.stride + A.entrySize ≤ 2 ^ p.bits

theorem ptr_eq (A : IndexedArray) (index : BitVec p.bits) :
    A.ptr index =
      BitVec.ofNat _ (A.parent.baseAddress + A.baseOffset + index.toNat * A.stride) := by
  rw [BitVec.ofNat_add, BitVec.ofNat_add, BitVec.ofNat_mul, BitVec.ofNat_toNat,
    BitVec.setWidth_eq]
  rfl

theorem Fits.inRange_iff {A : IndexedArray} (hf : A.Fits p) {i j : BitVec p.bits}
    (hi : i.toNat < A.count) (hj : j.toNat < A.count) (hk : k < A.entrySize) :
    Mem.InRange (A.ptr i) A.entrySize (A.ptr j + BitVec.ofNat _ k) ↔
      i.toNat * A.stride ≤ j.toNat * A.stride + k ∧
        j.toNat * A.stride + k < i.toNat * A.stride + A.entrySize := by
  have hlt : A.parent.baseAddress + A.baseOffset + j.toNat * A.stride + k < 2 ^ p.bits :=
    Nat.lt_of_lt_of_le (Nat.add_lt_add_left hk _) (hf _ hj)
  rw [ptr_eq, ptr_eq, ← BitVec.ofNat_add, Mem.inRange_ofNat (hf _ hi) hlt]
  omega

/-- In an array that ends inside the address space the entries keep apart when the stride is at
least the size of the type that holds an entry. -/
theorem Fits.apart_iff {A : IndexedArray} (hf : A.Fits p) (hc : A.count ≤ 2 ^ p.bits) :
    A.Apart p ↔ A.count ≤ 1 ∨ A.entrySize ≤ A.stride := by
  constructor
  · intro hA
    by_cases hone : A.count ≤ 1
    · exact .inl hone
    · right
      have h0 : (BitVec.ofNat p.bits 0).toNat = 0 := rfl
      have h1 : (BitVec.ofNat p.bits 1).toNat = 1 := by
        rw [BitVec.toNat_ofNat, Nat.mod_eq_of_lt (by omega)]
      have hne : BitVec.ofNat p.bits 0 ≠ BitVec.ofNat p.bits 1 := by
        intro h
        rw [h, h1] at h0
        cases h0
      have hapart := hA _ _ (by omega) (by omega) hne 0 A.entrySize_pos
      rw [hf.inRange_iff (by omega) (by omega) A.entrySize_pos, h0, h1] at hapart
      omega
  · intro h i j hi hj hne k hk hin
    rw [hf.inRange_iff hi hj hk] at hin
    have hne' : i.toNat ≠ j.toNat := fun h => hne (BitVec.eq_of_toNat_eq h)
    have hs : A.entrySize ≤ A.stride := h.resolve_left (by omega)
    rcases Nat.lt_or_gt_of_ne hne' with hlt | hlt
    · have hmul := Nat.mul_le_mul_right A.stride (Nat.succ_le_of_lt hlt)
      rw [Nat.succ_mul] at hmul
      omega
    · have hmul := Nat.mul_le_mul_right A.stride (Nat.succ_le_of_lt hlt)
      rw [Nat.succ_mul] at hmul
      omega

/-- The runtime accesses make an array exactly when no two entries share a byte. -/
theorem actsAsArray_iff (p : PointerWidth) (A : IndexedArray) (native : Endian) :
    ((∀ (m : Machine p) (calls : List (ArrayCall p A)), A.ActsAsArray native m calls) ↔
      A.Apart p) ∧
    (A.Fits p → A.count ≤ 2 ^ p.bits →
      (A.Apart p ↔ A.count ≤ 1 ∨ A.entrySize ≤ A.stride)) := by
  constructor
  · constructor
    · intro h
      apply apart_of_separate
      intro m i j value hne hj
      exact (h m []).separate i j value hne hj
    · intro hA m calls
      exact hA.actsAsArray native m calls
  · intro hf hc
    exact hf.apart_iff hc

/-- 12-bit entries in 16-bit units, with the default stride of one byte. -/
def levels : IndexedArray where
  parent := ({ baseAddress := 0x40000000 } : Device).toParent
  baseOffset := 0x100
  count := 2
  entryWidth := 12
  direct := by decide

/-- Writing entry 0 changes entry 1. -/
theorem actsAsArray_fails_levels :
    ¬ levels.ActsAsArray .little ({ mem := fun _ => 0 } : Machine .bits32)
      [.writeEntry 1 0x123, .writeEntry 0 0xABC] := by
  intro h
  have h1 := h.reads 1 (by decide)
  revert h1
  decide

end IndexedArray

end Umimmio
