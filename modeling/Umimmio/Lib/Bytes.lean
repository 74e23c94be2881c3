import Mathlib.Algebra.Group.Nat.Defs
import Mathlib.Data.List.GetD

namespace Bytes
set_option autoImplicit true

abbrev Byte := BitVec 8

inductive Endian
  | little
  | big
  deriving DecidableEq, Repr

def toLE (v : BitVec w) : List Byte :=
  (List.range (w / 8)).map fun k => v.extractLsb' (8 * k) 8

/-- The word whose bytes, least significant first, are given; missing ones read as zero. -/
def ofLE (w : Nat) : List Byte → BitVec w
  | [] => 0
  | b :: bs => b.setWidth w ||| (ofLE w bs <<< 8)

def encode : Endian → BitVec w → List Byte
  | .little, v => toLE v
  | .big, v => (toLE v).reverse

def decode (w : Nat) : Endian → List Byte → BitVec w
  | .little, bs => ofLE w bs
  | .big, bs => ofLE w bs.reverse

def byteswap (v : BitVec w) : BitVec w := ofLE w (toLE v).reverse

@[simp] theorem length_toLE (v : BitVec w) : (toLE v).length = w / 8 := by
  simp only [toLE, List.length_map, List.length_range]

@[simp] theorem length_encode (e : Endian) (v : BitVec w) : (encode e v).length = w / 8 := by
  cases e with
  | little => exact length_toLE v
  | big => rw [encode, List.length_reverse, length_toLE]

theorem getElem?_toLE (v : BitVec w) (hk : k < w / 8) :
    (toLE v)[k]? = some (v.extractLsb' (8 * k) 8) := by
  rw [toLE, List.getElem?_map, List.getElem?_range hk, Option.map_some]

/-- Which byte of an `n`-byte word, counted from the least significant, the encoding puts at `k`. -/
def Endian.position : Endian → (n k : Nat) → Nat
  | .little, _, k => k
  | .big, n, k => n - 1 - k

theorem getElem?_encode (e : Endian) (v : BitVec w) (hk : k < w / 8) :
    (encode e v)[k]? = some (v.extractLsb' (8 * e.position (w / 8) k) 8) := by
  cases e with
  | little => exact getElem?_toLE v hk
  | big =>
    have hlen := length_toLE v
    rw [encode, List.getElem?_reverse (by omega), hlen]
    exact getElem?_toLE v (by omega)

theorem getLsbD_ofLE (bs : List Byte) (hi : i < w) :
    (ofLE w bs).getLsbD i = (bs.getD (i / 8) 0).getLsbD (i % 8) := by
  induction bs generalizing i with
  | nil => simp only [ofLE, List.getD_nil, BitVec.ofNat_eq_ofNat, BitVec.getLsbD_zero]
  | cons b bs ih =>
    rw [ofLE, BitVec.getLsbD_or, BitVec.getLsbD_setWidth, BitVec.getLsbD_shiftLeft,
      decide_eq_true hi, Bool.true_and, Bool.true_and]
    by_cases hb : i < 8
    · rw [Nat.div_eq_of_lt hb, Nat.mod_eq_of_lt hb, List.getD_cons_zero, decide_eq_true hb,
        Bool.not_true, Bool.false_and, Bool.or_false]
    · have hd : i / 8 = (i - 8) / 8 + 1 := by omega
      rw [ih (by omega), hd, List.getD_cons_succ, BitVec.getLsbD_of_ge b i (Nat.le_of_not_lt hb),
        decide_eq_false hb, Bool.not_false, Bool.true_and, Bool.false_or,
        show (i - 8) % 8 = i % 8 by omega]

theorem ofLE_toLE (hw : 8 ∣ w) (v : BitVec w) : ofLE w (toLE v) = v := by
  apply BitVec.eq_of_getLsbD_eq
  intro i hi
  have hk : i / 8 < w / 8 := Nat.div_lt_div_of_lt_of_dvd hw hi
  have hm : i % 8 < 8 := Nat.mod_lt _ (by omega)
  rw [getLsbD_ofLE _ hi, List.getD_eq_getElem?_getD, getElem?_toLE v hk, Option.getD_some,
    BitVec.getLsbD_extractLsb', Nat.div_add_mod, decide_eq_true hm, Bool.true_and]

theorem toLE_ofLE (hw : 8 ∣ w) (hb : bs.length = w / 8) : toLE (ofLE w bs) = bs := by
  apply List.ext_getElem?
  intro k
  by_cases hk : k < w / 8
  · have hkb : k < bs.length := by omega
    rw [getElem?_toLE _ hk, List.getElem?_eq_getElem hkb]
    congr 1
    apply BitVec.eq_of_getLsbD_eq
    intro j hj
    have hi : 8 * k + j < w := by omega
    rw [BitVec.getLsbD_extractLsb', getLsbD_ofLE _ hi, show (8 * k + j) / 8 = k by omega,
      show (8 * k + j) % 8 = j by omega, List.getD_eq_getElem _ _ hkb, decide_eq_true hj,
      Bool.true_and]
  · rw [List.getElem?_eq_none (by rw [length_toLE]; omega), List.getElem?_eq_none (by omega)]

theorem toLE_byteswap (hw : 8 ∣ w) (v : BitVec w) : toLE (byteswap v) = (toLE v).reverse :=
  toLE_ofLE hw (by rw [List.length_reverse, length_toLE])

theorem encode_byteswap (hw : 8 ∣ w) (he : e ≠ e') (v : BitVec w) :
    encode e (byteswap v) = encode e' v := by
  cases e with
  | little =>
    cases e' with
    | little => exact absurd rfl he
    | big => exact toLE_byteswap hw v
  | big =>
    cases e' with
    | little => simp only [encode, toLE_byteswap hw, List.reverse_reverse]
    | big => exact absurd rfl he

theorem decode_encode (hw : 8 ∣ w) (e : Endian) (v : BitVec w) :
    decode w e (encode e v) = v := by
  cases e <;> simp only [encode, decode, List.reverse_reverse, ofLE_toLE hw]

theorem encode_decode (hw : 8 ∣ w) (e : Endian) (hb : bs.length = w / 8) :
    encode e (decode w e bs) = bs := by
  cases e with
  | little => exact toLE_ofLE hw hb
  | big =>
    rw [encode, decode, toLE_ofLE hw (by rw [List.length_reverse, hb]), List.reverse_reverse]

theorem byteswap_decode (hw : 8 ∣ w) (he : e ≠ e') (hb : bs.length = w / 8) :
    byteswap (decode w e bs) = decode w e' bs := by
  have hs := encode_byteswap hw he.symm (decode w e bs)
  rw [encode_decode hw e hb] at hs
  rw [← decode_encode hw e' (byteswap (decode w e bs)), hs]

theorem encode_byte (e : Endian) (v : Byte) : encode e v = [v] := by
  have h : toLE v = [v] := by
    rw [toLE, Nat.div_self (by decide), List.range_one, List.map_singleton, Nat.mul_zero,
      BitVec.extractLsb'_eq_self]
  cases e with
  | little => exact h
  | big => rw [encode, h, List.reverse_singleton]

theorem decode_byte {bs : List Byte} (hb : bs.length = 8 / 8) (e : Endian) :
    decode 8 e bs = bs.getD 0 0 := by
  obtain ⟨b, rfl⟩ := List.length_eq_one_iff.mp hb
  have h := decode_encode (Nat.dvd_refl 8) e b
  rw [encode_byte] at h
  exact h

/-- A byte memory whose addresses are `n` bits wide. -/
abbrev Mem (n : Nat) := BitVec n → Byte

namespace Mem

/-- The addresses a transfer of `len` bytes from `addr` touches, incrementing modulo `2 ^ n`. -/
def InRange (addr : BitVec n) (len : Nat) (a : BitVec n) : Prop :=
  (a - addr).toNat < len

instance (addr : BitVec n) (len : Nat) (a : BitVec n) : Decidable (InRange addr len a) :=
  inferInstanceAs (Decidable (_ < _))

theorem inRange_ofNat {A B len : Nat} (hA : A + len ≤ 2 ^ n) (hB : B < 2 ^ n) :
    InRange (BitVec.ofNat n A) len (BitVec.ofNat n B) ↔ A ≤ B ∧ B < A + len := by
  by_cases hlen : len = 0
  · subst hlen
    exact iff_of_false (Nat.not_lt_zero _) (by omega)
  · rw [InRange, BitVec.toNat_sub, BitVec.toNat_ofNat, BitVec.toNat_ofNat,
      Nat.mod_eq_of_lt (show A < 2 ^ n by omega), Nat.mod_eq_of_lt hB]
    by_cases hAB : A ≤ B
    · rw [show 2 ^ n - A + B = B - A + 2 ^ n by omega, Nat.add_mod_right,
        Nat.mod_eq_of_lt (show B - A < 2 ^ n by omega)]
      omega
    · rw [Nat.mod_eq_of_lt (show 2 ^ n - A + B < 2 ^ n by omega)]
      omega

def load (m : Mem n) (addr : BitVec n) (len : Nat) : List Byte :=
  (List.range len).map fun k => m (addr + BitVec.ofNat n k)

def store (m : Mem n) (addr : BitVec n) (bs : List Byte) : Mem n :=
  fun a => bs.getD (a - addr).toNat (m a)

@[simp] theorem length_load (m : Mem n) (addr : BitVec n) (len : Nat) :
    (m.load addr len).length = len := by
  simp only [load, List.length_map, List.length_range]

theorem store_of_not_inRange (m : Mem n) (h : ¬ InRange addr bs.length a) :
    m.store addr bs a = m a :=
  List.getD_eq_default _ _ (Nat.le_of_not_lt h)

theorem store_add (m : Mem n) (addr : BitVec n) (hk : k < bs.length) (hn : bs.length ≤ 2 ^ n) :
    m.store addr bs (addr + BitVec.ofNat n k) = bs[k] := by
  have he : (addr + BitVec.ofNat n k - addr).toNat = k := by
    rw [BitVec.add_comm, BitVec.add_sub_cancel, BitVec.toNat_ofNat,
      Nat.mod_eq_of_lt (Nat.lt_of_lt_of_le hk hn)]
  rw [store, he, List.getD_eq_getElem _ _ hk]

theorem load_store (m : Mem n) (addr : BitVec n) (hn : bs.length ≤ 2 ^ n) :
    (m.store addr bs).load addr bs.length = bs := by
  apply List.ext_getElem (length_load _ _ _)
  intro k _ hk
  simp only [load, List.getElem_map, List.getElem_range]
  exact store_add m addr hk hn

theorem load_congr {m m' : Mem n}
    (h : ∀ k < len, m (addr + BitVec.ofNat n k) = m' (addr + BitVec.ofNat n k)) :
    m.load addr len = m'.load addr len := by
  apply List.map_congr_left
  intro k hk
  exact h k (List.mem_range.mp hk)

theorem load_store_disjoint (m : Mem n)
    (h : ∀ k < len, ¬ InRange addr' bs.length (addr + BitVec.ofNat n k)) :
    (m.store addr' bs).load addr len = m.load addr len :=
  load_congr fun k hk => store_of_not_inRange m (h k hk)

theorem add_sub_add_left (base x y : BitVec n) : base + y - (base + x) = y - x := by
  rw [← BitVec.sub_sub, BitVec.add_comm, BitVec.add_sub_cancel]

theorem inRange_add_left (base x y : BitVec n) (len : Nat) :
    InRange (base + x) len (base + y) ↔ InRange x len y := by
  rw [InRange, InRange, add_sub_add_left]

theorem InRange.widen {base a : BitVec n} {o k len : Nat}
    (h : InRange (base + BitVec.ofNat n o) k a) (hk : o + k ≤ len) (hn : len ≤ 2 ^ n) :
    InRange base len a := by
  have hsplit : a - base = a - (base + BitVec.ofNat n o) + BitVec.ofNat n o := by
    rw [← BitVec.sub_sub, BitVec.sub_add_cancel]
  have hlt : (a - (base + BitVec.ofNat n o)).toNat < k := h
  rw [InRange, hsplit, BitVec.toNat_add, BitVec.toNat_ofNat, Nat.mod_eq_of_lt (show o < 2 ^ n by
    omega), Nat.mod_eq_of_lt (by omega)]
  omega

/-- A part of a loaded range is loaded by itself. -/
theorem load_slice (m : Mem n) (base : BitVec n) {o k len : Nat} (h : o + k ≤ len) :
    m.load (base + BitVec.ofNat n o) k = ((m.load base len).drop o).take k := by
  apply List.ext_getElem
  · rw [length_load, List.length_take, List.length_drop, length_load]
    omega
  · intro i _ _
    simp only [load, List.getElem_take, List.getElem_drop, List.getElem_map, List.getElem_range]
    rw [BitVec.add_assoc, ← BitVec.ofNat_add]

/-- A store inside a range replaces its part of the range. -/
theorem load_store_slice (m : Mem n) (base : BitVec n) {o len : Nat} {bs : List Byte}
    (hn : len ≤ 2 ^ n) (h : o + bs.length ≤ len) :
    (m.store (base + BitVec.ofNat n o) bs).load base len =
      (m.load base len).take o ++ bs ++ (m.load base len).drop (o + bs.length) := by
  have hlen : ((m.load base len).take o).length = o := by
    rw [List.length_take, length_load]
    omega
  apply List.ext_getElem
  · rw [length_load, List.length_append, List.length_append, hlen, List.length_drop, length_load]
    omega
  · intro i hi hi'
    rw [length_load] at hi
    have hrange : InRange (base + BitVec.ofNat n o) bs.length (base + BitVec.ofNat n i) ↔
        o ≤ i ∧ i < o + bs.length := by
      rw [inRange_add_left]
      exact inRange_ofNat (by omega) (by omega)
    have hload : ∀ (m' : Mem n) (h' : i < (m'.load base len).length),
        (m'.load base len)[i] = m' (base + BitVec.ofNat n i) := by
      intro m' h'
      simp only [load, List.getElem_map, List.getElem_range]
    have hsize : ((m.load base len).take o ++ bs).length = o + bs.length := by
      rw [List.length_append, hlen]
    have hold : i < (m.load base len).length := by rwa [length_load]
    rw [hload]
    by_cases ho : i < o
    · have hout : ¬ InRange (base + BitVec.ofNat n o) bs.length (base + BitVec.ofNat n i) :=
        fun hr => Nat.not_le_of_lt ho (hrange.mp hr).1
      rw [store_of_not_inRange _ hout, ← hload m hold, List.getElem_append_left (by omega),
        List.getElem_append_left (by omega), List.getElem_take]
    · by_cases hend : i < o + bs.length
      · have hsplit : base + BitVec.ofNat n i =
            base + BitVec.ofNat n o + BitVec.ofNat n (i - o) := by
          rw [BitVec.add_assoc, ← BitVec.ofNat_add, Nat.add_sub_cancel' (by omega)]
        have hb := store_add m (base + BitVec.ofNat n o) (show i - o < bs.length by omega)
          (by omega)
        rw [hsplit, hb, List.getElem_append_left (by omega), List.getElem_append_right (by omega)]
        simp only [hlen]
      · have hout : ¬ InRange (base + BitVec.ofNat n o) bs.length (base + BitVec.ofNat n i) :=
          fun hr => hend (hrange.mp hr).2
        rw [store_of_not_inRange _ hout, ← hload m hold, List.getElem_append_right (by omega),
          List.getElem_drop]
        congr 1
        omega

end Mem

end Bytes
