import Umimmio.Dispatch
import Umimmio.Wirings

namespace Umimmio
open Effects Bytes
set_option autoImplicit true

variable {p : PointerWidth}

section ForEach

variable {C : Type} {R : C → Type} {σ : Type}

/-- `(fn<Is>(), ...)` over an index sequence. -/
def foldComma (fn : Nat → Prog C R Unit) : List Nat → Prog C R Unit
  | [] => pure ()
  | I :: Is => do
    fn I
    foldComma fn Is

def forEachI (N : Nat) (fn : Nat → Prog C R Unit) : Prog C R Unit := foldComma fn (List.range N)

theorem run_foldComma (h : Handler C R σ) (fn : Nat → Prog C R Unit) (Is : List Nat) (s : σ) :
    (foldComma fn Is).run h s = ((), Is.foldl (fun s I => ((fn I).run h s).2) s) := by
  induction Is generalizing s with
  | nil => rfl
  | cons I Is ih => rw [foldComma, Prog.run_bind, ih, List.foldl_cons]

/-- What each call carries from its index to the next holds after all of them. -/
theorem forEachI_inv {h : Handler C R σ} {fn : Nat → Prog C R Unit} (Inv : Nat → σ → Prop)
    (h0 : Inv 0 s) (hstep : ∀ I < N, ∀ s, Inv I s → Inv (I + 1) ((fn I).run h s).2) :
    Inv N ((forEachI N fn).run h s).2 := by
  rw [forEachI, run_foldComma]
  induction N with
  | zero => exact h0
  | succ N ih =>
    rw [List.range_succ, List.foldl_append]
    exact hstep N (Nat.lt_succ_self N) _ (ih fun I hI => hstep I (Nat.lt_succ_of_lt hI))

end ForEach

structure RegisterArray where
  Template : Nat → Register
  size : Nat

namespace RegisterArray

def Element (A : RegisterArray) (I : Nat) : Register := A.Template I

/-- `io.write(Element<I>::value(x))` -/
def writeElement (A : RegisterArray) (checkPolicy : Bool) (T : Carrier) (x : BitVec T.bits)
    (I : Nat) : DirectProg p Unit :=
  (fun _ => ()) <$> DirectTransport.write checkPolicy
    [(⟨.register, .dynamicValue T x⟩ : ValueArg (A.Element I))]

/-- `io.read(Element<I>{}).bits()`, in the widest result type. -/
def readElement (A : RegisterArray) (I : Nat) : DirectProg p (BitVec 64) :=
  (fun x => x.1.setWidth 64) <$> DirectTransport.read (A.Element I)

/-- A use of the array: all elements in order, or the one at a run-time index. -/
inductive Call (p : PointerWidth)
  | forEachI (T : Carrier) (x : Nat → BitVec T.bits)
  | dispatch (idx : BitVec p.bits) (T : Carrier) (x : BitVec T.bits)
  | dispatchR (idx : BitVec p.bits) (defaultVal : BitVec 64)

variable (A : RegisterArray)

def prog (checkPolicy : Bool) : Call p → DirectProg p (Option (BitVec 64))
  | .forEachI T x =>
    (fun _ => none) <$> Umimmio.forEachI A.size fun I => A.writeElement checkPolicy T (x I) I
  | .dispatch idx T x =>
    (fun _ => none) <$> Umimmio.dispatch A.size idx (A.writeElement checkPolicy T x)
  | .dispatchR idx defaultVal =>
    some <$> Umimmio.dispatchR A.size idx A.readElement defaultVal

/-- What an element keeps of a value. -/
def kept (I : Nat) (x : BitVec w) : BitVec 64 := (x.setWidth (A.Element I).valueBits).setWidth 64

/-- The array that a user has in mind. -/
def result (entries : Nat → BitVec 64) : Call p → Option (BitVec 64)
  | .forEachI _ _ => none
  | .dispatch _ _ _ => none
  | .dispatchR idx defaultVal =>
    some (if idx.toNat < A.size then entries idx.toNat else defaultVal)

def update (entries : Nat → BitVec 64) : Call p → Nat → BitVec 64
  | .forEachI _ x => fun I => if I < A.size then A.kept I (x I) else entries I
  | .dispatch idx _ x =>
    if idx.toNat < A.size then Function.update entries idx.toNat (A.kept idx.toNat x) else entries
  | .dispatchR _ _ => entries

/-- The registers of a map that are elements, each at an address of its own. -/
structure Among (M : RegisterMap n) : Prop where
  mem : ∀ I < A.size, A.Element I ∈ M.regs
  apart : ∀ I < A.size, ∀ J < A.size, I ≠ J → (A.Element I).address ≠ (A.Element J).address

def entriesOf (store : Store) (I : Nat) : BitVec 64 := (store.word (A.Element I)).setWidth 64

/-- The store holds the entries, and outside the array what another one holds. -/
structure Holds (first store : Store) (entries : Nat → BitVec 64) : Prop where
  entries : ∀ I < A.size, A.entriesOf store I = entries I
  others : ∀ a, (∀ I < A.size, a ≠ (A.Element I).address) → store a = first a

variable {A} {M : RegisterMap p.bits} {native : Endian} {mem0 : Mem p.bits} {first store : Store}
  {entries : Nat → BitVec 64}

theorem kept_entriesOf (I : Nat) (x : BitVec w) :
    A.entriesOf (Function.update store (A.Element I).address (A.kept I x)) I = A.kept I x := by
  have hle : (A.Element I).valueBits ≤ 64 := uintFit_le (A.Element I).bits
  rw [entriesOf, Store.word, Function.update_self, kept, BitVec.setWidth_setWidth_of_le _ hle,
    BitVec.setWidth_eq]

theorem Holds.update {M : RegisterMap n} (hA : A.Among M) (h : A.Holds first store entries)
    (hI : I < A.size) (x : BitVec w) :
    A.Holds first (Function.update store (A.Element I).address (A.kept I x))
      (Function.update entries I (A.kept I x)) := by
  constructor
  · intro J hJ
    by_cases hne : J = I
    · subst hne
      rw [Function.update_self, kept_entriesOf]
    · rw [Function.update_of_ne hne, entriesOf, Store.word,
        Function.update_of_ne (hA.apart J hJ I hI hne)]
      exact h.entries J hJ
  · intro a ha
    rw [Function.update_of_ne (ha I hI)]
    exact h.others a ha

/-- The memory encodes a store that holds the entries. -/
def InMemory (A : RegisterArray) (M : RegisterMap p.bits) (native : Endian) (mem0 : Mem p.bits)
    (first : Store) (m : Machine p) (entries : Nat → BitVec 64) : Prop :=
  ∃ store, M.Encodes native mem0 store m.mem ∧ A.Holds first store entries

variable {m : Machine p}

theorem InMemory.writeElement (h : A.InMemory M native mem0 first m entries) (hA : A.Among M)
    (checkPolicy : Bool) (T : Carrier) (x : BitVec T.bits) (hI : I < A.size) :
    A.InMemory M native mem0 first
      ((A.writeElement checkPolicy T x I).run (Machine.access native) m).2
      (Function.update entries I (A.kept I x)) := by
  obtain ⟨store, hencodes, hholds⟩ := h
  have hq : ∀ msg s, (storeRegisters (.onRangeError msg : RegCmd (A.Element I)) s).2 = s :=
    fun _ _ => rfl
  have hrun := (DirectTransport.refines_run hencodes (hA.mem I hI)
    (RegOps.write checkPolicy [⟨.register, .dynamicValue T x⟩])).2
  rw [RegOps.run_write hq] at hrun
  refine ⟨_, ?_, hholds.update hA hI x⟩
  rw [RegisterArray.writeElement, Prog.run_map]
  exact hrun

theorem InMemory.readElement (h : A.InMemory M native mem0 first m entries) (hA : A.Among M)
    (hI : I < A.size) :
    (A.readElement I).run (Machine.access native) m = (entries I, m) := by
  obtain ⟨store, hencodes, hholds⟩ := h
  have hrun := (DirectTransport.refines_run hencodes (hA.mem I hI) (RegOps.read (A.Element I))).1
  rw [RegisterArray.readElement, Prog.run_map, ← hholds.entries I hI]
  exact congrArg (fun w => (BitVec.setWidth 64 w, m)) hrun

theorem InMemory.forEachI (h : A.InMemory M native mem0 first m entries) (hA : A.Among M)
    (checkPolicy : Bool) (T : Carrier) (x : Nat → BitVec T.bits) :
    A.InMemory M native mem0 first
      ((Umimmio.forEachI A.size fun I => A.writeElement checkPolicy T (x I) I).run
        (Machine.access native) m).2
      (fun I => if I < A.size then A.kept I (x I) else entries I) := by
  refine forEachI_inv (fun N m => A.InMemory M native mem0 first m
    fun I => if I < N then A.kept I (x I) else entries I) ?_ ?_
  · simpa only [Nat.not_lt_zero, if_false] using h
  · intro N hN m h
    have hnext := h.writeElement hA checkPolicy T (x N) hN
    have hentries : (Function.update (fun I => if I < N then A.kept I (x I) else entries I) N
        (A.kept N (x N))) = fun I => if I < N + 1 then A.kept I (x I) else entries I := by
      funext I
      by_cases hI : I = N
      · subst hI
        rw [Function.update_self, if_pos (Nat.lt_succ_self I)]
      · rw [Function.update_of_ne hI]
        have hiff : I < N + 1 ↔ I < N := by omega
        simp only [hiff]
    rwa [hentries] at hnext

theorem InMemory.prog (h : A.InMemory M native mem0 first m entries) (hA : A.Among M)
    (checkPolicy : Bool) (c : Call p) :
    ((A.prog checkPolicy c).run (Machine.access native) m).1 = A.result entries c ∧
      A.InMemory M native mem0 first ((A.prog checkPolicy c).run (Machine.access native) m).2
        (A.update entries c) := by
  cases c with
  | forEachI T x =>
    rw [RegisterArray.prog, Prog.run_map]
    exact ⟨rfl, h.forEachI hA checkPolicy T x⟩
  | dispatch idx T x =>
    rw [RegisterArray.prog, Prog.run_map, dispatch_eq, RegisterArray.update]
    refine ⟨rfl, ?_⟩
    by_cases hidx : idx.toNat < A.size
    · rw [if_pos hidx, if_pos hidx]
      exact h.writeElement hA checkPolicy T x hidx
    · rw [if_neg hidx, if_neg hidx]
      exact h
  | dispatchR idx defaultVal =>
    rw [RegisterArray.prog, Prog.run_map, dispatchR_eq, RegisterArray.result]
    by_cases hidx : idx.toNat < A.size
    · rw [if_pos hidx, if_pos hidx, h.readElement hA hidx]
      exact ⟨rfl, h⟩
    · rw [if_neg hidx, if_neg hidx]
      exact ⟨rfl, h⟩

/-- Registers of a template behave as an array: whatever is written to all of them by `for_each_i`
or to one by `dispatch`, `dispatch_r` reads back by a run-time index, and the other registers of the
map keep their words. -/
theorem acts_as_array (hA : A.Among M) (checkPolicy : Bool) (calls : List (Call p))
    (h : M.Encodes native mem0 store m.mem) :
    let onMemory := execute (fun c m => (A.prog checkPolicy c).run (Machine.access native) m)
      calls m
    let onArray := execute (fun c entries => (A.result entries c, A.update entries c)) calls
      (A.entriesOf store)
    onMemory.1 = onArray.1 ∧
      ∃ store', M.Encodes native mem0 store' onMemory.2.mem ∧ A.Holds store store' onArray.2 := by
  have h0 : A.InMemory M native mem0 store m (A.entriesOf store) :=
    ⟨store, h, fun _ _ => rfl, fun _ _ => rfl⟩
  exact execute_sim (R := A.InMemory M native mem0 store) calls
    (fun c _ m entries h => h.prog hA checkPolicy c) h0

def iser (I : Nat) : Register :=
  .declare ({ baseAddress := 0xE000E100 } : Device).toParent (4 * I) .bits32

theorem address_iser (I : Nat) : (iser I).address = 0xE000E100 + 4 * I := rfl

theorem valueSize_iser (I : Nat) : (iser I).valueSize = 4 := by
  have hbits : (iser I).valueBits = 32 := rfl
  rw [Register.valueSize, hbits]

def iserArray : RegisterArray := ⟨iser, 8⟩

def iserMap : RegisterMap PointerWidth.bits32.bits where
  regs := (List.range 8).map iser
  inside := by
    intro r hr
    obtain ⟨I, hI, rfl⟩ := List.mem_map.mp hr
    have hlt := List.mem_range.mp hI
    rw [address_iser, valueSize_iser, PointerWidth.bits]
    omega
  apart := by
    intro r hr q hq
    obtain ⟨I, hI, rfl⟩ := List.mem_map.mp hr
    obtain ⟨J, hJ, rfl⟩ := List.mem_map.mp hq
    rw [address_iser, address_iser, valueSize_iser, valueSize_iser]
    omega

theorem iserArray_among : iserArray.Among iserMap where
  mem := fun I hI => List.mem_map_of_mem (List.mem_range.mpr hI)
  apart := by
    intro I _ J _ hne
    change (iser I).address ≠ (iser J).address
    rw [address_iser, address_iser]
    omega

def iserCalls : List (Call .bits32) :=
  [.forEachI .uint32 fun I => BitVec.ofNat 32 (0x100 + I), .dispatch 3 .uint8 0xFF, .dispatchR 3 0,
    .dispatchR 5 0, .dispatchR 8 7]

theorem acts_as_array_iser :
    (execute (fun c m => (iserArray.prog true c).run (Machine.access .little) m) iserCalls
      { mem := fun _ => 0 }).1 = [none, none, some 0xFF, some 0x105, some 7] := by
  have h := (acts_as_array iserArray_among true iserCalls (m := { mem := fun _ => 0 })
    (iserMap.encodes_storeOf .little fun _ => 0)).1
  exact h.trans (by decide)

end RegisterArray

end Umimmio
