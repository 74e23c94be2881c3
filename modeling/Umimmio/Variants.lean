import Umimmio.OpsTrace

namespace Umimmio
open Effects
set_option autoImplicit true

variable {r : Register} {σ : Type}

/-- `is` of a named value of the field, on a word that was read. -/
def Field.is (f : Field r) (word : r.RegValueType) (e : Int) : Bool :=
  RegionValue.is word ⟨.field f, .value e⟩

namespace RegOps

end RegOps

end Umimmio
