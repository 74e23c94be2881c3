import Mathlib.Logic.Function.Basic
import Umimmio.MemoryDevice
import Umimmio.PackWords
import Umimmio.Transport.Csr

namespace Umimmio
open Effects
set_option autoImplicit true

variable {r q : Register}

abbrev Cells := BitVec 32 → BitVec 32

/-- The CSRs behind an accessor that behaves as an array of cells, and what an error policy that
returns has been called with. -/
structure CsrFile where
  cells : Cells
  errors : List String := []

def CsrFile.access : Handler CsrCmd CsrCmd.Resp CsrFile
  | .csrRead number, m => (m.cells number, m)
  | .csrWrite number value, m => ((), { m with cells := Function.update m.cells number value })
  | .onRangeError msg, m => ((), { m with errors := m.errors ++ [msg] })

/-- Register accesses on the cells alone: reports of range errors are dropped. -/
def csrCells : RegHandler r Cells
  | .regRead, cells => ((cells r.csrNumber).setWidth r.valueBits, cells)
  | .regWrite value, cells => ((), Function.update cells r.csrNumber (value.setWidth 32))
  | .onRangeError _, cells => ((), cells)

namespace CsrTransport

def perform (checkPolicy : Bool) (op : Op r) (m : CsrFile) : OpResult × CsrFile :=
  let x := (run checkPolicy op).run CsrFile.access m
  (x.1.1, x.2)

/-- Register accesses as the transport performs them. -/
def registers : RegHandler r CsrFile := fun c m =>
  let x := (regOps c ()).run CsrFile.access m
  (x.1.1, x.2)

theorem perform_eq (checkPolicy : Bool) (op : Op r) (m : CsrFile) :
    perform checkPolicy op m = (op.prog checkPolicy).run registers m := by
  have hstep : ∀ (c : RegCmd r) (s : Unit × CsrFile) (m : CsrFile), s.2 = m →
      ((CsrFile.access.through regOps) c s).1 = (registers c m).1 ∧
        ((CsrFile.access.through regOps) c s).2.2 = (registers c m).2 := by
    rintro c s m rfl
    exact ⟨rfl, rfl⟩
  obtain ⟨hvalue, hstate⟩ := Prog.run_sim (Q := fun (s : Unit × CsrFile) m => s.2 = m) hstep
    (op.prog checkPolicy) (s := ((), m)) rfl
  rw [perform, run, Prog.run_translate]
  exact Prod.ext hvalue hstate

theorem registers_cells (c : RegCmd r) (m : CsrFile) :
    (registers c m).1 = (csrCells c m.cells).1 ∧
      (registers c m).2.cells = (csrCells c m.cells).2 := by
  cases c <;> exact ⟨rfl, rfl⟩

theorem perform_cells (checkPolicy : Bool) (op : Op r) (m : CsrFile) :
    (perform checkPolicy op m).1 = ((op.prog checkPolicy).run csrCells m.cells).1 ∧
      (perform checkPolicy op m).2.cells = ((op.prog checkPolicy).run csrCells m.cells).2 := by
  rw [perform_eq]
  refine Prog.run_sim (Q := fun (m : CsrFile) cells => m.cells = cells) (fun c m cells h => ?_)
    (op.prog checkPolicy) rfl
  subst h
  exact registers_cells c m

end CsrTransport

/-- The operations that treat a register as a plain word. -/
def Op.Plain : Op r → Prop
  | .clear _ => False
  | .readVariant _ _ => False
  | _ => True

/-- Registers of CSR devices, at pairwise distinct addresses. -/
structure CsrMap where
  regs : List Register
  allowed : ∀ r ∈ regs, .csr ∈ r.parent.allowedTransportsType
  distinct : ∀ r ∈ regs, ∀ q ∈ regs, r.address = q.address → r = q

theorem Op.result_of_unreadable {op : Op r} {tag : TransportTag} (ha : op.Admitted tag)
    (hp : op.Plain) (hn : ¬ r.accessType.canRead = true) (checkPolicy : Bool)
    {σ : Type} (h : RegHandler r σ) (s : σ) : ((op.prog checkPolicy).run h s).1 = .done := by
  cases op with
  | write values => rw [Op.prog, Prog.run_map]
  | modify values => rw [Op.prog, Prog.run_map]
  | flip f => rfl
  | reset => rfl
  | clear f => exact hp.elim
  | readVariant f variants => exact hp.elim
  | read => exact absurd ha.2 hn
  | readField f => exact absurd ha.2.2 hn
  | is v => exact absurd ha.2.2 hn

namespace CsrMap

variable {M : CsrMap} {cells : Cells} {store : Store}

def Allows (M : CsrMap) (a : TypedOp) : Prop :=
  a.reg ∈ M.regs ∧ a.op.Admitted .csr ∧ a.op.Plain ∧ a.op.InRange

/-- The words of a store that starts out as the cells. -/
def storeOf (cells : Cells) : Store := fun a => (cells (BitVec.ofNat 32 a)).setWidth 64

def performAll (checkPolicy : Bool) (ops : List TypedOp) (m : CsrFile) :
    List OpResult × CsrFile :=
  execute (fun (a : TypedOp) m => CsrTransport.perform checkPolicy a.op m) ops m

/-- Every sequence of operations returns what it returns on a store of the registers' words. -/
def RefinesStore (M : CsrMap) (checkPolicy : Bool) : Prop :=
  ∀ (cells : Cells) (ops : List TypedOp), (∀ a ∈ ops, M.Allows a) →
    (performAll checkPolicy ops { cells := cells }).1 =
      (FlatTransport.storeAll checkPolicy ops (storeOf cells)).1

/-- What is read back fits a cell, and no other register of the map has the same CSR number. -/
def Fits (M : CsrMap) : Prop :=
  ∀ q ∈ M.regs, q.accessType.canRead →
    q.bits ≤ 32 ∧ ∀ r ∈ M.regs, r.address ≠ q.address → r.address % 2 ^ 32 ≠ q.address % 2 ^ 32

/-- The cells hold the words of the registers that can be read. -/
def Agrees (M : CsrMap) (cells : Cells) (store : Store) : Prop :=
  ∀ q ∈ M.regs, q.accessType.canRead →
    (cells q.csrNumber).setWidth q.valueBits = store.word q

theorem csrNumber_eq_iff : r.csrNumber = q.csrNumber ↔ r.address % 2 ^ 32 = q.address % 2 ^ 32 := by
  rw [Register.csrNumber, Register.csrNumber, ← BitVec.toNat_inj, BitVec.toNat_ofNat,
    BitVec.toNat_ofNat]

theorem agrees_storeOf (M : CsrMap) (cells : Cells) :
    M.Agrees cells (storeOf cells) := by
  intro q hq hr
  rw [Store.word, storeOf, BitVec.setWidth_setWidth_of_le _ (uintFit_le q.bits)]
  rfl

theorem Fits.valueBits_le (hM : M.Fits) (hr : r ∈ M.regs) (hread : r.accessType.canRead) :
    r.valueBits ≤ 32 := by
  have hb := (hM r hr hread).1
  rw [Register.valueBits, uintFit]
  split_ifs <;> omega

theorem Fits.cells_frame (hM : M.Fits) (hr : r ∈ M.regs) (hq : q ∈ M.regs)
    (hread : q.accessType.canRead) (hne : q ≠ r) (value : BitVec 32) :
    Function.update cells r.csrNumber value q.csrNumber = cells q.csrNumber := by
  apply Function.update_of_ne
  intro he
  apply hne
  apply M.distinct q hq r hr
  by_contra ha
  exact (hM q hq hread).2 r hr (Ne.symm ha) (csrNumber_eq_iff.mp he).symm

theorem store_frame (hr : r ∈ M.regs) (hq : q ∈ M.regs) (hne : q ≠ r) (value : BitVec 64) :
    Store.word (Function.update store r.address value) q = store.word q := by
  rw [Store.word, Function.update_of_ne fun ha => hne (M.distinct q hq r hr ha)]
  rfl

theorem Agrees.write (h : M.Agrees cells store) (hM : M.Fits) (hr : r ∈ M.regs)
    (value : r.RegValueType) :
    M.Agrees (Function.update cells r.csrNumber (value.setWidth 32))
      (Function.update store r.address (value.setWidth 64)) := by
  intro q hq hread
  by_cases he : q = r
  · subst he
    rw [Store.word, Function.update_self, Function.update_self,
      BitVec.setWidth_setWidth_of_le _ (hM.valueBits_le hq hread),
      BitVec.setWidth_setWidth_of_le _ (uintFit_le q.bits)]
  · rw [hM.cells_frame hr hq hread he, store_frame hr hq he, h q hq hread]

theorem Agrees.lockstep (h : M.Agrees cells store) (hM : M.Fits) (hr : r ∈ M.regs)
    (hread : r.accessType.canRead) (c : RegCmd r) :
    (csrCells c cells).1 = (storeRegisters c store).1 ∧
      M.Agrees (csrCells c cells).2 (storeRegisters c store).2 := by
  cases c with
  | regRead => exact ⟨h r hr hread, h⟩
  | regWrite value => exact ⟨rfl, h.write hM hr value⟩
  | onRangeError msg => exact ⟨rfl, h⟩

/-- Accesses of a register that cannot be read leave the words of the others alone. -/
theorem Agrees.unreadable (h : M.Agrees cells store) (hM : M.Fits) (hr : r ∈ M.regs)
    (hn : ¬ r.accessType.canRead = true) (p : RegProg r α) :
    M.Agrees (p.run csrCells cells).2 (p.run storeRegisters store).2 := by
  have hne : ∀ q ∈ M.regs, q.accessType.canRead → q ≠ r := fun q _ hread he => hn (he ▸ hread)
  have hcells : M.Agrees (p.run csrCells cells).2 store := by
    apply Prog.run_inv (I := fun cells => M.Agrees cells store) ?_ p h
    intro c cells hc
    cases c with
    | regWrite value =>
      intro q hq hread
      exact (congrArg _ (hM.cells_frame hr hq hread (hne q hq hread) _)).trans (hc q hq hread)
    | _ => exact hc
  apply Prog.run_inv (I := fun store => M.Agrees (p.run csrCells cells).2 store) ?_ p hcells
  intro c store hc
  cases c with
  | regWrite value =>
    intro q hq hread
    exact (hc q hq hread).trans (store_frame hr hq (hne q hq hread) _).symm
  | _ => exact hc

theorem Agrees.perform {m : CsrFile} (h : M.Agrees m.cells store) (hM : M.Fits)
    (checkPolicy : Bool) {a : TypedOp} (ha : M.Allows a) :
    (CsrTransport.perform checkPolicy a.op m).1 =
        ((a.op.prog checkPolicy).run storeRegisters store).1 ∧
      M.Agrees (CsrTransport.perform checkPolicy a.op m).2.cells
        ((a.op.prog checkPolicy).run storeRegisters store).2 := by
  obtain ⟨hr, hadmitted, hplain, _⟩ := ha
  obtain ⟨hvalue, hcells⟩ := CsrTransport.perform_cells checkPolicy a.op m
  rw [hvalue, hcells]
  by_cases hread : a.reg.accessType.canRead = true
  · exact Prog.run_sim (Q := M.Agrees) (fun c cells store h => h.lockstep hM hr hread c) _ h
  · have hdone := fun {σ : Type} => Op.result_of_unreadable (σ := σ) hadmitted hplain hread
      checkPolicy
    exact ⟨(hdone _ _).trans (hdone _ _).symm, h.unreadable hM hr hread _⟩

theorem Fits.refinesStore (hM : M.Fits) (checkPolicy : Bool) : M.RefinesStore checkPolicy := by
  intro cells ops ho
  apply And.left
  apply execute_sim (R := fun (m : CsrFile) store => M.Agrees m.cells store) ops ?_
    (M.agrees_storeOf cells)
  intro a ha m store h
  exact h.perform hM checkPolicy (ho a ha)

theorem results_performAll (checkPolicy : Bool) (ops : List TypedOp) (m : CsrFile) :
    (performAll checkPolicy ops m).1 =
      (execute (fun (a : TypedOp) cells => (a.op.prog checkPolicy).run csrCells cells)
        ops m.cells).1 := by
  apply And.left
  apply execute_sim (R := fun (m : CsrFile) cells => m.cells = cells) ops ?_ rfl
  rintro a _ m cells rfl
  exact CsrTransport.perform_cells checkPolicy a.op m

def setBit (hi : i < r.bits) : List (FieldValue r) :=
  [⟨.bit i hi [.accessPolicy .rw], .value 1⟩]

theorem allows_setBit (hr : r ∈ M.regs) (hi : i < r.bits) :
    M.Allows ⟨.write (FieldValue.args (setBit hi))⟩ := by
  have hadmitted : (Op.write (FieldValue.args (setBit hi))).Admitted .csr :=
    Op.admitted_write_singleton (M.allowed r hr) rfl
  have hrange : ∀ v ∈ FieldValue.args (setBit hi), v.InRange := by
    intro v hv
    obtain rfl := List.mem_singleton.mp hv
    exact ⟨Int.one_nonneg, (by decide : (1 : Int) < 2 ^ 1)⟩
  exact ⟨hr, hadmitted, trivial, hrange⟩

theorem allows_read (hq : q ∈ M.regs) (hread : q.accessType.canRead = true) :
    M.Allows ⟨(.read : Op q)⟩ :=
  ⟨hq, ⟨M.allowed q hq, hread⟩, trivial, trivial⟩

theorem getLsbD_setBit (hi : i < r.bits) :
    (writeWord (FieldValue.args (setBit hi))).getLsbD i = true := by
  have hc : (⟨.bit i hi [.accessPolicy .rw], .value 1⟩ : FieldValue r).Covers i :=
    ⟨Nat.le_refl _, Nat.lt_succ_self _⟩
  rw [writeWord_args, setBit,
    packWord_named _ (List.pairwise_singleton _ _) (List.mem_singleton_self _) hc]
  exact congrArg (Int.testBit 1) (Nat.sub_self i)

/-- Setting a bit of one register and then reading another one shows the same in both. -/
theorem RefinesStore.readBack (h : M.RefinesStore checkPolicy) (hr : r ∈ M.regs)
    (hi : i < r.bits) (hq : q ∈ M.regs) (hread : q.accessType.canRead = true) (cells : Cells) :
    (Function.update cells r.csrNumber ((writeWord (FieldValue.args (setBit hi))).setWidth 32)
        q.csrNumber).setWidth q.valueBits =
      Store.word (Function.update (storeOf cells) r.address
        ((writeWord (FieldValue.args (setBit hi))).setWidth 64)) q := by
  have hresults := h cells [⟨.write (FieldValue.args (setBit hi))⟩, ⟨(.read : Op q)⟩] (by
    intro a ha
    rcases List.mem_cons.mp ha with rfl | ha
    · exact allows_setBit hr hi
    · obtain rfl := List.mem_singleton.mp ha
      exact allows_read hq hread)
  simp only [results_performAll, FlatTransport.storeAll, execute_cons, Op.prog, Prog.run_map,
    RegOps.run_write (h := csrCells) (fun _ _ => rfl),
    RegOps.run_write (h := storeRegisters) (fun _ _ => rfl), List.cons.injEq,
    OpResult.bits.injEq, heq_eq_eq, true_and] at hresults
  exact hresults.1

theorem RefinesStore.bits_le (h : M.RefinesStore checkPolicy) (hq : q ∈ M.regs)
    (hread : q.accessType.canRead = true) : q.bits ≤ 32 := by
  by_contra hb
  have hi : 32 < q.bits := Nat.lt_of_not_le hb
  have hv : 32 < q.valueBits := Nat.lt_of_lt_of_le hi q.bits_le_valueBits
  have hbit := congrArg (fun x => x.getLsbD 32) (h.readBack hq hi hq hread fun _ => 0)
  rw [Function.update_self, Store.word, Function.update_self,
    BitVec.setWidth_setWidth_of_le _ (uintFit_le q.bits), BitVec.setWidth_eq, getLsbD_setBit hi,
    BitVec.getLsbD_setWidth, BitVec.getLsbD_of_ge _ _ (Nat.le_refl 32), Bool.and_false] at hbit
  cases hbit

theorem RefinesStore.numbers_ne (h : M.RefinesStore checkPolicy) (hr : r ∈ M.regs)
    (hq : q ∈ M.regs) (hread : q.accessType.canRead = true) (hne : r.address ≠ q.address) :
    r.address % 2 ^ 32 ≠ q.address % 2 ^ 32 := by
  intro he
  have hv : 0 < q.valueBits := uintFit_pos q.bits
  have hbit := congrArg (fun x => x.getLsbD 0) (h.readBack hr r.bits_pos hq hread fun _ => 0)
  rw [csrNumber_eq_iff.mpr he, Function.update_self, Store.word, Function.update_of_ne hne.symm,
    BitVec.getLsbD_setWidth, BitVec.getLsbD_setWidth, getLsbD_setBit r.bits_pos,
    decide_eq_true hv, storeOf] at hbit
  simp at hbit

/-- Typed operations over CSRs return what they return on a register store, exactly when every
register that can be read fits a cell and shares its CSR number with no other one. -/
theorem refinesStore_iff (M : CsrMap) (checkPolicy : Bool) :
    M.RefinesStore checkPolicy ↔ M.Fits := by
  constructor
  · intro h q hq hread
    exact ⟨h.bits_le hq hread, fun r hr hne => h.numbers_ne hr hq hread hne⟩
  · intro h
    exact h.refinesStore checkPolicy

def cycleCounter : Register :=
  .declare ({ allowedTransports := [.csr] } : Device).toParent 0xB00 .bits64

def cycleMap : CsrMap where
  regs := [cycleCounter]
  allowed := by
    intro r hr
    obtain rfl := List.mem_singleton.mp hr
    decide
  distinct := by
    intro r hr q hq _
    rw [List.mem_singleton.mp hr, List.mem_singleton.mp hq]

/-- Bit 32 of a 64-bit register is lost when it is set and read back. -/
theorem refinesStore_fails_wide :
    cycleCounter.accessType = .policy .rw ∧ ¬ cycleMap.RefinesStore true := by
  have hstore : ¬ cycleMap.RefinesStore true := by
    intro h
    have hb : cycleCounter.bits ≤ 32 := h.bits_le (List.mem_singleton_self _) rfl
    revert hb
    decide
  exact ⟨rfl, hstore⟩

end CsrMap

end Umimmio
