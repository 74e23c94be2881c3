import Umimmio.IndexedArray

namespace Umimmio
open Effects Bytes
set_option autoImplicit true

variable {p : PointerWidth}

/-- `(step<Is>() || ...)` over an index sequence: it stops at the first step that is true. -/
def foldOr (step : Nat → τ → DirectProg p (Bool × τ)) : List Nat → τ → DirectProg p (Bool × τ)
  | [], t => pure (false, t)
  | I :: Is, t => do
    let (hit, t) ← step I t
    if hit then pure (true, t) else foldOr step Is t

/-- `idx == I ? (result = fn<I>(), true) : false` -/
def dispatchStep (idx : BitVec p.bits) (fn : Nat → DirectProg p ρ) (I : Nat) (result : ρ) :
    DirectProg p (Bool × ρ) :=
  if idx.toNat = I then (fun x => (true, x)) <$> fn I else pure (false, result)

def dispatch (N : Nat) (idx : BitVec p.bits) (fn : Nat → DirectProg p Unit) :
    DirectProg p Unit := do
  if N ≤ idx.toNat then
    DirectProg.onRangeError "dispatch: index out of range"
    return
  let _ ← foldOr (dispatchStep idx fn) (List.range N) ()

def dispatchR (N : Nat) (idx : BitVec p.bits) (fn : Nat → DirectProg p ρ) (defaultVal : ρ) :
    DirectProg p ρ := do
  if N ≤ idx.toNat then
    DirectProg.onRangeError "dispatch_r: index out of range"
    return defaultVal
  let (_, result) ← foldOr (dispatchStep idx fn) (List.range N) defaultVal
  return result

/-- The fold runs the callable at the index and at no other. -/
theorem foldOr_dispatchStep (idx : BitVec p.bits) (fn : Nat → DirectProg p ρ) {Is : List Nat}
    (hmem : idx.toNat ∈ Is) (result : ρ) :
    foldOr (dispatchStep idx fn) Is result = (fun x => (true, x)) <$> fn idx.toNat := by
  induction Is with
  | nil => cases hmem
  | cons I Is ih =>
    rw [foldOr, dispatchStep]
    by_cases hI : idx.toNat = I
    · rw [if_pos hI, hI]
      simp only [map_eq_pure_bind, bind_assoc, pure_bind, if_true]
    · rw [if_neg hI, pure_bind]
      exact ih ((List.mem_cons.mp hmem).resolve_left hI)

theorem dispatch_eq (N : Nat) (idx : BitVec p.bits) (fn : Nat → DirectProg p Unit) :
    dispatch N idx fn =
      if idx.toNat < N then fn idx.toNat
      else DirectProg.onRangeError "dispatch: index out of range" := by
  rw [dispatch]
  by_cases hN : idx.toNat < N
  · rw [if_neg (Nat.not_le.mpr hN), if_pos hN, foldOr_dispatchStep idx fn (List.mem_range.mpr hN),
      map_eq_pure_bind, bind_assoc]
    exact bind_pure (fn idx.toNat)
  · rw [if_pos (Nat.le_of_not_lt hN), if_neg hN]
    rfl

theorem dispatchR_eq (N : Nat) (idx : BitVec p.bits) (fn : Nat → DirectProg p ρ)
    (defaultVal : ρ) :
    dispatchR N idx fn defaultVal =
      if idx.toNat < N then fn idx.toNat
      else (fun _ => defaultVal) <$> DirectProg.onRangeError "dispatch_r: index out of range" := by
  rw [dispatchR]
  by_cases hN : idx.toNat < N
  · rw [if_neg (Nat.not_le.mpr hN), if_pos hN, foldOr_dispatchStep idx fn (List.mem_range.mpr hN),
      map_eq_pure_bind, bind_assoc]
    exact bind_pure (fn idx.toNat)
  · rw [if_pos (Nat.le_of_not_lt hN), if_neg hN]
    rfl

namespace IndexedArray

/-- The width of the entries is one that a register can have. -/
def EntryCompiles (A : IndexedArray) : Prop := 0 < A.entryWidth ∧ A.entryWidth ≤ 64

def Entry (A : IndexedArray) (h : A.EntryCompiles) (N : Nat) : Register where
  parent := A.parent
  offset := A.baseOffset + N * A.stride
  bits := A.entryWidth
  w1c := 0
  bits_pos := h.1
  bits_le := h.2
  w1c_fits := .inr (show 0 < 2 ^ A.entryWidth from Nat.two_pow_pos _)

/-- `Entry<N>::value(x)` -/
def entryValue (A : IndexedArray) (h : A.EntryCompiles) (N : Nat) (x : BitVec (Carrier.bits T)) :
    ValueArg (A.Entry h N) :=
  ⟨.register, .dynamicValue T x⟩

/-- The address of an entry type is the pointer of the runtime access. -/
theorem address_Entry (A : IndexedArray) (h : A.EntryCompiles) (index : BitVec p.bits) :
    BitVec.ofNat p.bits (A.Entry h index.toNat).address = A.ptr index := by
  rw [ptr_eq, Register.address, Entry, Nat.add_assoc]

/-- `io.write(Entry<I>::value(x))` -/
def writeThrough (A : IndexedArray) (h : A.EntryCompiles) (checkPolicy : Bool)
    (x : BitVec (Carrier.bits T)) (I : Nat) : DirectProg p Unit :=
  (fun _ => ()) <$> DirectTransport.write checkPolicy [A.entryValue h I x]

/-- `io.read(Entry<I>{}).bits()` -/
def readThrough (A : IndexedArray) (h : A.EntryCompiles) (I : Nat) : DirectProg p A.EntryType :=
  Prod.fst <$> DirectTransport.read (A.Entry h I)

theorem writeThrough_eq (A : IndexedArray) (h : A.EntryCompiles) (checkPolicy : Bool)
    (x : BitVec (Carrier.bits T)) (index : BitVec p.bits) :
    A.writeThrough h checkPolicy x index.toNat =
      DirectProg.volatileWrite (A.ptr index) (x.setWidth A.entryBits) := by
  rw [← A.address_Entry h index]
  rfl

theorem readThrough_eq (A : IndexedArray) (h : A.EntryCompiles) (index : BitVec p.bits) :
    A.readThrough h index.toNat = DirectProg.volatileRead (A.ptr index) A.entryBits := by
  rw [← A.address_Entry h index]
  rfl

/-- What the runtime and the compile-time route did to a machine: the same to its memory, and one
range error with a text of its own in each when the index is out of range. -/
structure RoutesAgree (A : IndexedArray) (index : BitVec p.bits) (msg msg' : String)
    (m runtime compiled : Machine p) : Prop where
  mem : runtime.mem = compiled.mem
  runtime_errors : runtime.errors = m.errors ++ if index.toNat < A.count then [] else [msg]
  compiled_errors : compiled.errors = m.errors ++ if index.toNat < A.count then [] else [msg']

theorem RoutesAgree.accepted {A : IndexedArray} {index : BitVec p.bits}
    {m runtime compiled : Machine p} (hi : index.toNat < A.count)
    (hmem : runtime.mem = compiled.mem) (hr : runtime.errors = m.errors)
    (hc : compiled.errors = m.errors) : RoutesAgree A index msg msg' m runtime compiled where
  mem := hmem
  runtime_errors := by rw [if_pos hi, List.append_nil, hr]
  compiled_errors := by rw [if_pos hi, List.append_nil, hc]

theorem RoutesAgree.rejected {A : IndexedArray} {index : BitVec p.bits}
    {m runtime compiled : Machine p} (hi : ¬ index.toNat < A.count)
    (hmem : runtime.mem = compiled.mem) (hr : runtime.errors = m.errors ++ [msg])
    (hc : compiled.errors = m.errors ++ [msg']) :
    RoutesAgree A index msg msg' m runtime compiled where
  mem := hmem
  runtime_errors := by rw [if_neg hi, hr]
  compiled_errors := by rw [if_neg hi, hc]

theorem writes_agree (A : IndexedArray) (h : A.EntryCompiles) (native : Endian)
    (checkPolicy : Bool) (index : BitVec p.bits) (x : BitVec (Carrier.bits T)) (m : Machine p) :
    RoutesAgree A index "IndexedArray: write index out of range" "dispatch: index out of range" m
      ((A.writeEntry index (x.setWidth A.entryBits)).run (Machine.access native) m).2
      ((dispatch A.count index (A.writeThrough h checkPolicy x)).run
        (Machine.access native) m).2 := by
  rw [dispatch_eq]
  by_cases hi : index.toNat < A.count
  · rw [if_pos hi, writeThrough_eq, run_writeEntry A native m hi]
    exact .accepted hi rfl rfl rfl
  · rw [if_neg hi, run_writeEntry_rejected A native m (Nat.le_of_not_lt hi)]
    exact .rejected hi rfl rfl rfl

theorem reads_agree (A : IndexedArray) (h : A.EntryCompiles) (native : Endian)
    (index : BitVec p.bits) (m : Machine p) :
    let runtime := (A.readEntry index).run (Machine.access native) m
    let compiled := (dispatchR A.count index (A.readThrough h) 0).run (Machine.access native) m
    runtime.1 = compiled.1 ∧
      RoutesAgree A index "IndexedArray: read index out of range" "dispatch_r: index out of range" m
        runtime.2 compiled.2 := by
  intro runtime compiled
  by_cases hi : index.toNat < A.count
  · have hr : runtime = _ := run_readEntry A native m hi
    have hc : compiled = runtime := by
      simp only [compiled, dispatchR_eq, if_pos hi, readThrough_eq, hr]
      rfl
    rw [hc, hr]
    exact ⟨rfl, .accepted hi rfl rfl rfl⟩
  · have hr : runtime = _ := run_readEntry_rejected A native m (Nat.le_of_not_lt hi)
    have hc : compiled =
        (0, { m with errors := m.errors ++ ["dispatch_r: index out of range"] }) := by
      simp only [compiled, dispatchR_eq, if_neg hi]
      rfl
    rw [hc, hr]
    exact ⟨rfl, .rejected hi rfl rfl rfl⟩

/-- Both routes into an array do the same, but for the text of the range error, and a dispatch calls
its callable once, with the index, or never. -/
theorem routes_agree (A : IndexedArray) (h : A.EntryCompiles) (native : Endian)
    (checkPolicy : Bool) (index : BitVec p.bits) (m : Machine p) :
    (∀ (T : Carrier) (x : BitVec T.bits),
      RoutesAgree A index "IndexedArray: write index out of range" "dispatch: index out of range" m
        ((A.writeEntry index (x.setWidth A.entryBits)).run (Machine.access native) m).2
        ((dispatch A.count index (A.writeThrough h checkPolicy x)).run
          (Machine.access native) m).2) ∧
    (let runtime := (A.readEntry index).run (Machine.access native) m
      let compiled := (dispatchR A.count index (A.readThrough h) 0).run (Machine.access native) m
      runtime.1 = compiled.1 ∧
        RoutesAgree A index "IndexedArray: read index out of range"
          "dispatch_r: index out of range" m runtime.2 compiled.2) ∧
    (∀ fn : Nat → DirectProg p Unit, dispatch A.count index fn =
      if index.toNat < A.count then fn index.toNat
      else DirectProg.onRangeError "dispatch: index out of range") ∧
    ∀ {ρ : Type} (fn : Nat → DirectProg p ρ) (defaultVal : ρ),
      dispatchR A.count index fn defaultVal =
        if index.toNat < A.count then fn index.toNat
        else (fun _ => defaultVal) <$>
          DirectProg.onRangeError "dispatch_r: index out of range" :=
  ⟨fun _ x => A.writes_agree h native checkPolicy index x m, A.reads_agree h native index m,
    fun fn => dispatch_eq A.count index fn, fun fn d => dispatchR_eq A.count index fn d⟩

def priorities : IndexedArray where
  parent := ({ baseAddress := 0xE000E100 } : Device).toParent
  baseOffset := 0x300
  count := 240
  direct := by decide

theorem priorities_compiles : priorities.EntryCompiles := ⟨by decide, by decide⟩

/-- The two routes report an index out of range in different words. -/
theorem routes_agree_fails_message :
    ((priorities.writeEntry (p := .bits32) 240 7).run (Machine.access .little)
        { mem := fun _ => 0 }).2.errors ≠
      ((dispatch (p := .bits32) priorities.count 240
          (priorities.writeThrough priorities_compiles true (T := .uint8) 7)).run
        (Machine.access .little) { mem := fun _ => 0 }).2.errors := by
  decide

theorem routes_agree_write :
    ((dispatch (p := .bits32) priorities.count 5
        (priorities.writeThrough priorities_compiles true (T := .uint8) 7)).run
      (Machine.access .little) { mem := fun _ => 0 }).2.mem 0xE000E405 = 7 := by
  have h := (routes_agree (p := .bits32) priorities priorities_compiles .little true 5
    { mem := fun _ => 0 }).1 .uint8 7
  rw [← h.mem]
  decide

end IndexedArray

end Umimmio
