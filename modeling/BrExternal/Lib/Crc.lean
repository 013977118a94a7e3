import Mathlib.Data.List.GetD
import Mathlib.Data.Nat.Cast.Basic
import Mathlib.Logic.Function.Iterate

/-!
# Cyclic redundancy checks

The register of a reflected CRC moves down one place for every bit of the message, and the bit that
falls out feeds the polynomial back (`shift`). `shift` is linear in exclusive or, and injective when
the polynomial has its top coefficient. From the first comes the form that works a digit at a time
with a table (`table_step`), from the second that a burst of errors no wider than the register
changes the check (`feed_burst`).
-/

namespace Crc

variable {w : Nat} (poly : BitVec w)

/-- One place down, with feedback of the bit that falls out. -/
def shift (r : BitVec w) : BitVec w :=
  (r >>> 1) ^^^ (if r.getLsbD 0 then poly else 0#w)

/-- One bit of a message as a register. -/
def ofBit (b : Bool) : BitVec w := if b then 1#w else 0#w

/-- The register after the bits `bs`, first bit first. -/
def feed : BitVec w → List Bool → BitVec w
  | r, [] => r
  | r, b :: bs => feed (shift poly (r ^^^ ofBit b)) bs

/-- The bits `bs` as a register, first bit lowest. -/
def word : List Bool → BitVec w
  | [] => 0#w
  | b :: bs => ofBit b ^^^ (word bs <<< 1)

/-- The bits of a vector, lowest first. -/
def bitsOf {n : Nat} (d : BitVec n) : List Bool := (List.range n).map d.getLsbD

/-! ## Linearity -/

theorem shift_xor (a b : BitVec w) : shift poly (a ^^^ b) = shift poly a ^^^ shift poly b := by
  apply BitVec.eq_of_getLsbD_eq
  intro i _
  simp only [shift, BitVec.getLsbD_xor, BitVec.getLsbD_ushiftRight]
  cases a.getLsbD 0 <;> cases b.getLsbD 0 <;> cases a.getLsbD (1 + i) <;>
    cases b.getLsbD (1 + i) <;> cases poly.getLsbD i <;> simp_all

theorem iterate_shift_xor (k : Nat) (a b : BitVec w) :
    (shift poly)^[k] (a ^^^ b) = (shift poly)^[k] a ^^^ (shift poly)^[k] b := by
  induction k generalizing a b with
  | zero => rfl
  | succ k ih => rw [Function.iterate_succ_apply, shift_xor, ih]; rfl

theorem iterate_shift_of_low_clear (k : Nat) (r : BitVec w)
    (h : ∀ i < k, r.getLsbD i = false) : (shift poly)^[k] r = r >>> k := by
  induction k with
  | zero => simp
  | succ k ih =>
    have h0 : (r >>> k).getLsbD 0 = false := by simpa using h k (by omega)
    rw [Function.iterate_succ_apply', ih (fun i hi => h i (by omega))]
    simp [shift, h0, BitVec.shiftRight_add]

theorem low_xor_high (k : Nat) (r : BitVec w) :
    (r &&& BitVec.ofNat w (2 ^ k - 1)) ^^^ ((r >>> k) <<< k) = r := by
  apply BitVec.eq_of_getLsbD_eq
  intro i hi
  simp only [BitVec.getLsbD_xor, BitVec.getLsbD_and, BitVec.getLsbD_ofNat,
    Nat.testBit_two_pow_sub_one, BitVec.getLsbD_shiftLeft, BitVec.getLsbD_ushiftRight, hi]
  by_cases hk : i < k
  · simp [hk]
  · simp [hk, show k + (i - k) = i by omega]

/-- **A digit at a time.** `k` shifts are one move by `k` places and the table's entry for the
digit that falls out. -/
theorem table_step (k : Nat) (r : BitVec w) :
    (shift poly)^[k] r =
      (r >>> k) ^^^ (shift poly)^[k] (r &&& BitVec.ofNat w (2 ^ k - 1)) := by
  have hclear : ∀ i < k, ((r >>> k) <<< k).getLsbD i = false := by
    intro i hi
    simp [BitVec.getLsbD_shiftLeft, hi]
  have hback : (r >>> k) <<< k >>> k = r >>> k := by
    apply BitVec.eq_of_getLsbD_eq
    intro i hi
    simp only [BitVec.getLsbD_ushiftRight, BitVec.getLsbD_shiftLeft]
    by_cases hw : k + i < w
    · simp [hw]
    · simp [hw, BitVec.getLsbD_of_ge r (k + i) (by omega)]
  conv => lhs; rw [← low_xor_high k r]
  rw [iterate_shift_xor, iterate_shift_of_low_clear poly k _ hclear, hback, BitVec.xor_comm]

/-! ## Bits and words -/

theorem getLsbD_ofBit (b : Bool) (i : Nat) :
    (ofBit b : BitVec w).getLsbD i = (decide (i = 0) && decide (0 < w) && b) := by
  cases b with
  | false => simp [ofBit]
  | true => by_cases hi : i = 0 <;> simp [ofBit, BitVec.getLsbD_one, hi]

theorem getLsbD_word (bs : List Bool) (i : Nat) (hi : i < w) :
    (word bs : BitVec w).getLsbD i = bs.getD i false := by
  induction bs generalizing i with
  | nil => simp [word]
  | cons b bs ih =>
    rw [word, BitVec.getLsbD_xor, getLsbD_ofBit, BitVec.getLsbD_shiftLeft]
    cases i with
    | zero => simp [hi]
    | succ i => simp [hi, ih i (by omega)]

theorem word_inj {x y : List Bool} (hlen : x.length = y.length) (hw : x.length ≤ w)
    (h : (word x : BitVec w) = word y) : x = y := by
  apply List.ext_getElem hlen
  intro i hx hy
  have hi := congrArg (fun r : BitVec w => r.getLsbD i) h
  simp only [getLsbD_word _ i (by omega : i < w)] at hi
  rwa [List.getD_eq_getElem _ _ hx, List.getD_eq_getElem _ _ hy] at hi

theorem word_bitsOf {n : Nat} (d : BitVec n) : (word (bitsOf d) : BitVec w) = d.setWidth w := by
  apply BitVec.eq_of_getLsbD_eq
  intro i hi
  rw [getLsbD_word _ i hi, BitVec.getLsbD_setWidth]
  by_cases hn : i < n
  · simp [bitsOf, List.getD_eq_getElem?_getD, hn, hi]
  · simp [bitsOf, List.getD_eq_getElem?_getD, hn, BitVec.getLsbD_of_ge d i (by omega)]

theorem bitsOf_length {n : Nat} (d : BitVec n) : (bitsOf d).length = n := by
  simp [bitsOf]

theorem feed_append (r : BitVec w) (x y : List Bool) :
    feed poly r (x ++ y) = feed poly (feed poly r x) y := by
  induction x generalizing r with
  | nil => rfl
  | cons b x ih => exact ih _

/-- Up to a register's width of bits can be fed at once. -/
theorem feed_eq_iterate (r : BitVec w) (bs : List Bool) (hlen : bs.length ≤ w) :
    feed poly r bs = (shift poly)^[bs.length] (r ^^^ word bs) := by
  induction bs generalizing r with
  | nil => simp [feed, word]
  | cons b bs ih =>
    have hlen' : bs.length < w := hlen
    -- the tail of the word leaves the register's top bit free, so one shift brings it back
    have htop : (word bs : BitVec w).getLsbD (w - 1) = false := by
      rw [getLsbD_word _ _ (by omega), List.getD_eq_default _ _ (by omega)]
    have hback : shift poly ((word bs : BitVec w) <<< 1) = word bs := by
      have h1 := iterate_shift_of_low_clear poly 1 ((word bs : BitVec w) <<< 1)
        (by intro i hi; simp [BitVec.getLsbD_shiftLeft, hi])
      rw [Function.iterate_one] at h1
      rw [h1]
      apply BitVec.eq_of_getLsbD_eq
      intro i hi
      simp only [BitVec.getLsbD_ushiftRight, BitVec.getLsbD_shiftLeft]
      by_cases hw : 1 + i < w
      · simp [hw]
      · simp [show i = w - 1 by omega, htop]
    rw [feed, ih _ (by omega), List.length_cons, Function.iterate_succ_apply, word,
      ← BitVec.xor_assoc, shift_xor poly (r ^^^ ofBit b), hback]

/-! ## Bursts -/

section Burst

variable {poly}

theorem shift_injective (htop : poly.getLsbD (w - 1) = true) :
    Function.Injective (shift poly) := by
  intro a b h
  have bit : ∀ i, (shift poly a).getLsbD i = (shift poly b).getLsbD i := fun i => by rw [h]
  simp only [shift, BitVec.getLsbD_xor, BitVec.getLsbD_ushiftRight] at bit
  -- the top bit of the result is the bit that fell out
  have h0 : a.getLsbD 0 = b.getLsbD 0 := by
    have := bit (w - 1)
    rw [BitVec.getLsbD_of_ge a _ (by omega), BitVec.getLsbD_of_ge b _ (by omega)] at this
    cases ha : a.getLsbD 0 <;> cases hb : b.getLsbD 0 <;> simp_all
  apply BitVec.eq_of_getLsbD_eq
  intro i _
  cases i with
  | zero => exact h0
  | succ i =>
    have := bit i
    rw [h0] at this
    simpa [Nat.add_comm] using this

theorem feed_injective (htop : poly.getLsbD (w - 1) = true) (bs : List Bool) :
    Function.Injective (fun r => feed poly r bs) := by
  induction bs with
  | nil => exact fun _ _ h => h
  | cons b bs ih =>
    intro r s h
    exact (BitVec.xor_left_inj _).1 (shift_injective htop (ih h))

/-- **Bursts are seen.** Messages of one length that differ only inside a window no wider than
the register leave different registers. -/
theorem feed_burst (htop : poly.getLsbD (w - 1) = true) (r : BitVec w) (u v x y : List Bool)
    (hlen : x.length = y.length) (hw : x.length ≤ w) (hne : x ≠ y) :
    feed poly r (u ++ x ++ v) ≠ feed poly r (u ++ y ++ v) := by
  intro h
  rw [feed_append, feed_append, feed_append, feed_append] at h
  have hxy := feed_injective htop v h
  rw [feed_eq_iterate poly _ x hw, feed_eq_iterate poly _ y (hlen ▸ hw), hlen] at hxy
  have hword := (shift_injective htop).iterate y.length hxy
  exact hne (word_inj hlen hw ((BitVec.xor_right_inj _).1 hword))

end Burst

end Crc
