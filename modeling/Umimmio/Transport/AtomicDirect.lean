import Umimmio.OpsWords

namespace Umimmio
open Effects
set_option autoImplicit true

variable {r : Register}

/-- What a write-only memory-mapped transport asks for; it has no `reg_read` to call. -/
inductive MmioCmd
  | volatileWrite (addr : Addr) (w : Nat) (value : BitVec w)
  | onRangeError (msg : String)
  | missingRegRead (w : Nat)

def MmioCmd.Resp : MmioCmd → Type
  | .volatileWrite _ _ _ => Unit
  | .onRangeError _ => Unit
  | .missingRegRead w => BitVec w

abbrev MmioProg := Prog MmioCmd MmioCmd.Resp

namespace AtomicDirect

def regWrite (aliasOffset : Addr) (value : r.RegValueType) : MmioProg Unit :=
  .call (.volatileWrite (r.address + aliasOffset) r.valueBits value) .ret

def regOps (aliasOffset : Addr) : (c : RegCmd r) → Unit → MmioProg (c.Resp × Unit)
  | .regRead, u => .call (.missingRegRead r.valueBits) fun x => .ret (x, u)
  | .regWrite value, u => regWrite aliasOffset value >>= fun x => .ret (x, u)
  | .onRangeError msg, u => .call (.onRangeError msg) fun x => .ret (x, u)

def write (aliasOffset : Addr) (checkPolicy : Bool) (values : List (ValueArg r)) :
    MmioProg (Unit × Unit) :=
  (RegOps.write checkPolicy values).translate (regOps aliasOffset) ()

end AtomicDirect

inductive Alias
  | set
  | clr
  | xor
  deriving DecidableEq, Repr

namespace Alias

def react : Alias → BitVec w → BitVec w → BitVec w
  | .set, word, written => word ||| written
  | .clr, word, written => word &&& ~~~written
  | .xor, word, written => word ^^^ written

/-- A register whose alias lies at the given offset; nothing else is mapped. -/
def bus (a : Alias) (r : Register) (aliasOffset : Addr) :
    Handler MmioCmd MmioCmd.Resp (BitVec r.bits)
  | .volatileWrite addr _ value, word =>
    ((), if addr = r.address + aliasOffset then a.react word (value.setWidth r.bits) else word)
  | .onRangeError _, word => ((), word)
  | .missingRegRead w, word => (0#w, word)

/-- Writing the reset value of a bit through the alias leaves the stored bit alone. -/
def neutral : Alias → (reset stored : Bool) → Bool
  | .set, reset, stored => !reset || stored
  | .clr, reset, stored => !reset || !stored
  | .xor, reset, _ => !reset

def afterWrite (a : Alias) (aliasOffset : Addr) (checkPolicy : Bool)
    (values : List (ValueArg r)) (word : BitVec r.bits) : BitVec r.bits :=
  ((AtomicDirect.write aliasOffset checkPolicy values).run (a.bus r aliasOffset) word).2

theorem afterWrite_eq (a : Alias) (aliasOffset : Addr) (checkPolicy : Bool)
    (values : List (ValueArg r)) (word : BitVec r.bits) :
    a.afterWrite aliasOffset checkPolicy values word =
      a.react word ((writeWord values).setWidth r.bits) := by
  rw [afterWrite, AtomicDirect.write, Prog.run_translate, RegOps.run_write fun _ _ => rfl]
  exact if_pos rfl

theorem react_keeps_iff (a : Alias) (word written : BitVec w) (hi : i < w) :
    (a.react word written).getLsbD i = word.getLsbD i ↔
      a.neutral (written.getLsbD i) (word.getLsbD i) = true := by
  cases a with
  | set =>
    simp only [react, neutral, BitVec.getLsbD_or]
    cases word.getLsbD i <;> cases written.getLsbD i <;> decide
  | clr =>
    simp only [react, neutral, BitVec.getLsbD_and, BitVec.getLsbD_not, decide_eq_true hi]
    cases word.getLsbD i <;> cases written.getLsbD i <;> decide
  | xor =>
    simp only [react, neutral, BitVec.getLsbD_xor]
    cases word.getLsbD i <;> cases written.getLsbD i <;> decide

/-- A write through an alias keeps the bits it does not name exactly when their reset value is
neutral for the alias. -/
theorem keepsUnnamed_iff (a : Alias) (aliasOffset : Addr) (checkPolicy : Bool)
    (values : List (ValueArg r)) (word : BitVec r.bits) :
    (∀ i < r.bits, ¬ Names values i →
      (a.afterWrite aliasOffset checkPolicy values word).getLsbD i = word.getLsbD i) ↔
    ∀ i < r.bits, ¬ Names values i →
      a.neutral (r.resetValue.getLsbD i) (word.getLsbD i) = true := by
  have hbit : ∀ i < r.bits, ¬ Names values i →
      ((a.afterWrite aliasOffset checkPolicy values word).getLsbD i = word.getLsbD i ↔
        a.neutral (r.resetValue.getLsbD i) (word.getLsbD i) = true) := by
    intro i hi hn
    rw [afterWrite_eq, react_keeps_iff a _ _ hi, BitVec.getLsbD_setWidth, decide_eq_true hi,
      Bool.true_and, getLsbD_writeWord_of_not_names hi hn]
  exact ⟨fun h i hi hn => (hbit i hi hn).mp (h i hi hn),
    fun h i hi hn => (hbit i hi hn).mpr (h i hi hn)⟩

def gpioOut : Register :=
  .declare ({ baseAddress := 0x40020000 } : Device).toParent 0x10 .bits32 (.policy .rw) 0x100

def pin5 : Field gpioOut := .bit 5 (by decide)

def setPin5 : List (ValueArg gpioOut) := [⟨.field pin5, .value 1⟩]

/-- Setting pin 5 through the SET alias also sets pin 8. -/
theorem keepsUnnamed_fails_reset :
    (Op.write setPin5).Admitted .direct ∧
      ¬ ∀ i < gpioOut.bits, ¬ Names setPin5 i →
        (Alias.set.afterWrite 0x2000 true setPin5 0#32).getLsbD i = (0#32).getLsbD i := by
  have hadmitted : (Op.write setPin5).Admitted .direct := by
    apply Op.admitted_write_singleton <;> decide
  refine ⟨hadmitted, ?_⟩
  intro h
  have h8 := h 8 (by decide) (by decide)
  revert h8
  decide

end Alias

end Umimmio
