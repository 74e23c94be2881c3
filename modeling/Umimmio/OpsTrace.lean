import Umimmio.Lib.Trace
import Umimmio.OpsWords

namespace Umimmio
open Effects
set_option autoImplicit true

variable {r : Register}

def RegCmd.written : RegCmd r → Option r.RegValueType
  | .regWrite value => some value
  | _ => none

def RegCmd.rangeError : RegCmd r → Option String
  | .onRangeError msg => some msg
  | _ => none

namespace RegOps

variable {σ : Type}

theorem commands_reportAll (msgs : List String) (h : RegHandler r σ) (s : σ) :
    (reportAll r msgs).commands h s = msgs.map .onRangeError := by
  induction msgs generalizing s with
  | nil => rfl
  | cons msg msgs ih => exact congrArg (List.cons _) (ih _)

theorem commands_write (checkPolicy : Bool) (values : List (ValueArg r)) (h : RegHandler r σ)
    (s : σ) :
    (write checkPolicy values).commands h s =
      (writeErrors checkPolicy values).map .onRangeError ++ [.regWrite (writeWord values)] := by
  rw [write_eq, Prog.commands_bind, commands_reportAll]
  rfl

theorem commands_modify (checkPolicy : Bool) (values : List (ValueArg r)) (h : RegHandler r σ)
    (s : σ) :
    (modify checkPolicy values).commands h s =
      .regRead :: (values.flatMap (·.rangeErrors checkPolicy)).map .onRangeError ++
        [.regWrite (maskW1c (packWord (h .regRead s).1 values))] := by
  rw [modify_eq, Prog.commands_bind, Prog.commands_bind, commands_reportAll]
  rfl

theorem commands_is (checkPolicy : Bool) (v : ValueArg r) (h : RegHandler r σ) (s : σ) :
    (is checkPolicy v).commands h s =
      (v.rangeErrors checkPolicy).map .onRangeError ++ [.regRead] := by
  rw [is_eq, Prog.commands_bind, checkValue_eq, commands_reportAll]
  rfl

def words (h : RegHandler r σ) (p : RegProg r α) (s : σ) : List r.RegValueType :=
  (p.commands h s).filterMap RegCmd.written

theorem written_rangeErrors (msgs : List String) :
    (msgs.map (.onRangeError : String → RegCmd r)).filterMap RegCmd.written = [] := by
  rw [List.filterMap_map]
  exact List.filterMap_eq_nil_iff.mpr fun _ _ => rfl

theorem words_write (checkPolicy : Bool) (values : List (ValueArg r)) (h : RegHandler r σ)
    (s : σ) : words h (write checkPolicy values) s = [writeWord values] := by
  rw [words, commands_write, List.filterMap_append, written_rangeErrors]
  rfl

theorem words_modify (checkPolicy : Bool) (values : List (ValueArg r)) (h : RegHandler r σ)
    (s : σ) :
    words h (modify checkPolicy values) s =
      [maskW1c (packWord (h .regRead s).1 values)] := by
  rw [words, commands_modify, List.filterMap_append, List.filterMap_cons_none rfl,
    written_rangeErrors]
  rfl

def rangeErrors (h : RegHandler r σ) (p : RegProg r α) (s : σ) : List String :=
  (p.commands h s).filterMap RegCmd.rangeError

@[simp] theorem rangeErrors_map (h : RegHandler r σ) (p : RegProg r α) (f : α → β) (s : σ) :
    rangeErrors h (f <$> p) s = rangeErrors h p s :=
  congrArg _ (Prog.commands_map h p f s)

theorem rangeError_onRangeError (msgs : List String) :
    (msgs.map (.onRangeError : String → RegCmd r)).filterMap RegCmd.rangeError = msgs := by
  rw [List.filterMap_map]
  exact List.filterMap_some

theorem rangeErrors_write (checkPolicy : Bool) (values : List (ValueArg r)) (h : RegHandler r σ)
    (s : σ) : rangeErrors h (write checkPolicy values) s = writeErrors checkPolicy values := by
  rw [rangeErrors, commands_write, List.filterMap_append, rangeError_onRangeError]
  exact List.append_nil _

theorem rangeErrors_modify (checkPolicy : Bool) (values : List (ValueArg r)) (h : RegHandler r σ)
    (s : σ) :
    rangeErrors h (modify checkPolicy values) s =
      values.flatMap (·.rangeErrors checkPolicy) := by
  rw [rangeErrors, commands_modify, List.filterMap_append, List.filterMap_cons_none rfl,
    rangeError_onRangeError]
  exact List.append_nil _

theorem rangeErrors_is (checkPolicy : Bool) (v : ValueArg r) (h : RegHandler r σ) (s : σ) :
    rangeErrors h (is checkPolicy v) s = v.rangeErrors checkPolicy := by
  rw [rangeErrors, commands_is, List.filterMap_append, rangeError_onRangeError]
  exact List.append_nil _

end RegOps

def RegCmd.InRange : RegCmd r → Prop
  | .onRangeError _ => False
  | _ => True

namespace Op

def rangeErrors (checkPolicy : Bool) : Op r → List String
  | .write values => RegOps.writeErrors checkPolicy values
  | .modify values => values.flatMap (·.rangeErrors checkPolicy)
  | .is v => v.rangeErrors checkPolicy
  | _ => []

/-- The range errors of an operation are those it reports on every run. -/
theorem rangeErrors_prog (op : Op r) (checkPolicy : Bool) (h : RegHandler r σ) (s : σ) :
    RegOps.rangeErrors h (op.prog checkPolicy) s = op.rangeErrors checkPolicy := by
  cases op with
  | write values => rw [prog, RegOps.rangeErrors_map, RegOps.rangeErrors_write, rangeErrors]
  | modify values => rw [prog, RegOps.rangeErrors_map, RegOps.rangeErrors_modify, rangeErrors]
  | is v => rw [prog, RegOps.rangeErrors_map, RegOps.rangeErrors_is, rangeErrors]
  | clear f =>
    rw [prog, RegOps.rangeErrors_map, RegOps.clear]
    split_ifs <;> rfl
  | _ => rfl

theorem rangeErrors_unchecked (op : Op r) : op.rangeErrors false = [] := by
  have hvalue : ∀ v : ValueArg r, v.rangeErrors false = [] :=
    fun v => if_neg fun h => Bool.false_ne_true h.1
  have hall : ∀ values : List (ValueArg r), values.flatMap (·.rangeErrors false) = [] :=
    fun values => List.flatMap_eq_nil_iff.mpr fun v _ => hvalue v
  cases op with
  | write values =>
    match values with
    | [] => rfl
    | [v] =>
      rw [rangeErrors, RegOps.writeErrors, hvalue, ite_self]
    | u :: v :: values => exact hall _
  | modify values => exact hall values
  | is v => exact hvalue v
  | _ => rfl

/-- The check policy matters only for what an operation reports. -/
theorem prog_congr {op : Op r} {checkPolicy checkPolicy' : Bool}
    (h : op.rangeErrors checkPolicy = op.rangeErrors checkPolicy') :
    op.prog checkPolicy = op.prog checkPolicy' := by
  cases op with
  | write values =>
    rw [rangeErrors, rangeErrors] at h
    rw [prog, prog, RegOps.write_eq, RegOps.write_eq, h]
  | modify values =>
    rw [rangeErrors, rangeErrors] at h
    rw [prog, prog, RegOps.modify_eq, RegOps.modify_eq, h]
  | is v =>
    rw [rangeErrors, rangeErrors] at h
    rw [prog, prog, RegOps.is_eq, RegOps.is_eq, RegOps.checkValue_eq, RegOps.checkValue_eq, h]
  | _ => rfl

theorem only_regRead (r : Register) : (regRead r).Only RegCmd.InRange :=
  .call trivial fun x => .ret x

theorem only_regWrite (value : r.RegValueType) : (regWrite value).Only RegCmd.InRange :=
  .call trivial fun x => .ret x

/-- An operation without range errors only accesses registers. -/
theorem only_of_rangeErrors {op : Op r} {checkPolicy : Bool}
    (h : op.rangeErrors checkPolicy = []) : (op.prog checkPolicy).Only RegCmd.InRange := by
  cases op with
  | write values =>
    rw [rangeErrors] at h
    rw [prog, RegOps.write_eq, h]
    exact (only_regWrite _).map _
  | read => exact (only_regRead r).map _
  | readField f => exact ((only_regRead r).bind fun _ => .ret _).map _
  | is v =>
    rw [rangeErrors] at h
    rw [prog, RegOps.is_eq, RegOps.checkValue_eq, h]
    exact ((only_regRead r).map _).map _
  | modify values =>
    rw [rangeErrors] at h
    rw [prog, RegOps.modify_eq, h]
    exact ((only_regRead r).bind fun _ => only_regWrite _).map _
  | flip f => exact ((only_regRead r).bind fun _ => only_regWrite _).map _
  | clear f =>
    refine Prog.Only.map _ ?_
    rw [RegOps.clear]
    split_ifs
    · exact only_regWrite _
    · exact (only_regRead r).bind fun _ => only_regWrite _
  | reset => exact (only_regWrite _).map _
  | readVariant f variants =>
    exact (((only_regRead r).bind fun _ => .ret _).bind fun _ => .ret _).map _

def InRange : Op r → Prop
  | .write values => ∀ v ∈ values, v.InRange
  | .modify values => ∀ v ∈ values, v.InRange
  | .is v => v.InRange
  | _ => True

theorem InRange.rangeErrors {op : Op r} (ho : op.InRange) (checkPolicy : Bool) :
    op.rangeErrors checkPolicy = [] := by
  cases op with
  | write values =>
    match values with
    | [] => rfl
    | [v] =>
      have hv := (ho v (List.mem_singleton_self v)).rangeErrors checkPolicy
      rw [Op.rangeErrors, RegOps.writeErrors, hv, ite_self]
    | u :: v :: values => exact ValueArg.rangeErrors_inRange checkPolicy ho
  | modify values => exact ValueArg.rangeErrors_inRange checkPolicy ho
  | is v => exact ValueArg.InRange.rangeErrors ho checkPolicy
  | _ => rfl

/-- An operation whose values are in range reports no range error. -/
theorem InRange.only {op : Op r} (ho : op.InRange) (checkPolicy : Bool) :
    (op.prog checkPolicy).Only RegCmd.InRange :=
  only_of_rangeErrors (ho.rangeErrors checkPolicy)

end Op

end Umimmio
