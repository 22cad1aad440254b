import Mathlib.Algebra.Field.ZMod
import Mathlib.Algebra.Polynomial.Div
import Mathlib.Algebra.Polynomial.FieldDivision
import Mathlib.Tactic.ComputeDegree
import Mathlib.Tactic.LinearCombination

/-!
# Cyclic redundancy checks

A string of bits is a polynomial over GF(2), its first bit the leading coefficient. A check divides it by a generator
and keeps the remainder in a register, bit by bit. Registers here are reflected: the least significant bit holds the
coefficient of the highest power.
-/

namespace Ferro

namespace Crc

open Polynomial

variable {w : Nat}

def coef (b : Bool) : ZMod 2 := b.toNat

theorem coef_xor (a b : Bool) : coef (a ^^ b) = coef a + coef b := by revert a b; decide

theorem coef_injective : Function.Injective coef := by decide

@[simp] theorem coef_false : coef false = 0 := rfl

@[simp] theorem coef_true : coef true = 1 := rfl

theorem coef_eq_one {b : Bool} : decide (coef b = 1) = b := by revert b; decide

/-! ## Strings of bits -/

/-- The bits of a word, least significant first. -/
def bits (r : BitVec w) : List Bool := List.ofFn fun i : Fin w => r.getLsbD i

/-- The polynomial of a string of bits. -/
noncomputable def message : List Bool → (ZMod 2)[X]
  | [] => 0
  | b :: bs => C (coef b) * X ^ bs.length + message bs

theorem bits_injective : Function.Injective (@bits w) := by
  intro r s h
  refine BitVec.eq_of_getLsbD_eq fun i hi => ?_
  exact congrFun (List.ofFn_injective h) ⟨i, hi⟩

@[simp] theorem length_bits (r : BitVec w) : (bits r).length = w := List.length_ofFn

theorem message_append (l m : List Bool) : message (l ++ m) = message l * X ^ m.length + message m := by
  induction l with
  | nil => simp [message]
  | cons b l ih =>
      rw [List.cons_append, message, message, ih, List.length_append, pow_add]
      ring

theorem coeff_message (l : List Bool) (k : Nat) : (message l).coeff k = coef (l.reverse[k]?.getD false) := by
  induction l with
  | nil => simp [message]
  | cons b l ih =>
      rw [message, coeff_add, coeff_C_mul_X_pow, ih, List.reverse_cons]
      rcases Nat.lt_trichotomy k l.length with h | rfl | h
      · rw [if_neg (by omega), List.getElem?_append_left (by simpa using h), zero_add]
      · simp
      · rw [if_neg (by omega), List.getElem?_eq_none (by simp; omega), List.getElem?_eq_none (by simp; omega)]
        simp

theorem message_injective {l m : List Bool} (hlen : l.length = m.length) (h : message l = message m) : l = m := by
  refine List.reverse_injective (List.ext_getElem (by simpa using hlen) fun k hk hk' => ?_)
  have hcoeff : coef (l.reverse[k]?.getD false) = coef (m.reverse[k]?.getD false) := by
    rw [← coeff_message, ← coeff_message, h]
  rw [List.getElem?_eq_getElem hk, List.getElem?_eq_getElem hk'] at hcoeff
  exact coef_injective hcoeff

/-! ## Registers -/

/-- The polynomial of a register. -/
noncomputable def poly (r : BitVec w) : (ZMod 2)[X] := message (bits r)

/-- The generator of which the register holds all but the leading term. -/
noncomputable def generator (g : BitVec w) : (ZMod 2)[X] := X ^ w + poly g

theorem coeff_poly (r : BitVec w) (k : Nat) : (poly r).coeff k = coef (r.getMsbD k) := by
  rw [poly, coeff_message]
  by_cases h : k < w
  · rw [List.getElem?_reverse (by simpa using h), length_bits, List.getElem?_eq_getElem (by simp; omega)]
    simp only [bits, List.getElem_ofFn, BitVec.getMsbD, h, decide_true, Bool.true_and, Option.getD_some]
  · rw [List.getElem?_eq_none (by simp; omega), BitVec.getMsbD_of_ge r k (by omega)]
    rfl

/-- A register has the coefficients of its polynomial as its bits, the highest power at its low end. -/
theorem getLsbD_eq_coeff (r : BitVec w) {i : Nat} (hi : i < w) :
    r.getLsbD i = decide ((poly r).coeff (w - 1 - i) = 1) := by
  have hbit : r.getMsbD (w - 1 - i) = r.getLsbD i := by
    rw [BitVec.getMsbD, decide_eq_true (by omega), Bool.true_and]
    congr 1
    omega
  rw [coeff_poly, hbit, coef_eq_one]

theorem poly_xor (r s : BitVec w) : poly (r ^^^ s) = poly r + poly s := by
  ext k
  rw [coeff_add, coeff_poly, coeff_poly, coeff_poly, BitVec.getMsbD_xor, coef_xor]

theorem poly_zero : poly (0#w) = 0 := by
  ext k
  rw [coeff_poly, BitVec.getMsbD_zero, coef_false, coeff_zero]

theorem poly_allOnes (w : Nat) : poly (BitVec.allOnes w) = ∑ i ∈ Finset.range w, X ^ i := by
  ext k
  rw [coeff_poly, BitVec.getMsbD_allOnes, finsetSum_coeff]
  by_cases h : k < w
  · simp [coeff_X_pow, h]
  · simp [coeff_X_pow, h]

theorem degree_poly_lt (r : BitVec w) : (poly r).degree < w := by
  rw [degree_lt_iff_coeff_zero]
  intro k hk
  rw [coeff_poly, BitVec.getMsbD_of_ge r k hk, coef_false]

theorem monic_generator (g : BitVec w) : (generator g).Monic := monic_X_pow_add (degree_poly_lt g)

theorem degree_generator (g : BitVec w) : (generator g).degree = w := by
  rw [generator, degree_add_eq_left_of_degree_lt (by rw [degree_X_pow]; exact degree_poly_lt g), degree_X_pow]

/-- A word at the low end of a register has the register's highest powers. -/
theorem poly_setWidth {v : Nat} (hv : v ≤ w) (b : BitVec v) : poly (b.setWidth w) = poly b * X ^ (w - v) := by
  ext k
  rw [coeff_poly, coeff_mul_X_pow', BitVec.getMsbD_setWidth]
  by_cases h : w - v ≤ k
  · have hk : k + v - w = k - (w - v) := by omega
    rw [decide_eq_true h, Bool.true_and, if_pos h, coeff_poly, hk]
  · rw [decide_eq_false h, Bool.false_and, if_neg h, coef_false]

/-! ## Shifting a register -/

/-- One shift: a bit that falls out of the register takes the generator with it. -/
def shift (g r : BitVec w) : BitVec w := (r >>> 1) ^^^ (if r.getLsbD 0 then g else 0)

theorem poly_ushiftRight (hw : 0 < w) (r : BitVec w) :
    poly (r >>> 1) + C (coef (r.getLsbD 0)) * X ^ w = X * poly r := by
  have hlow : r.getMsbD (w - 1) = r.getLsbD 0 := by
    rw [BitVec.getMsbD, decide_eq_true (by omega), Bool.true_and, Nat.sub_self]
  ext k
  rw [coeff_add, coeff_poly, coeff_C_mul_X_pow, BitVec.getMsbD_ushiftRight]
  cases k with
  | zero => simp [hw.ne]
  | succ k =>
      rw [coeff_X_mul, coeff_poly, Nat.add_sub_cancel]
      rcases Nat.lt_trichotomy (k + 1) w with h | h | h
      · simp [h, h.ne]
      · subst h
        simpa using congrArg coef hlow.symm
      · rw [BitVec.getMsbD_of_ge r k (by omega)]
        simp [h.ne', h.not_gt]

theorem poly_shift (hw : 0 < w) (g r : BitVec w) :
    poly (shift g r) + C (coef (r.getLsbD 0)) * generator g = X * poly r := by
  have hchar : poly g + poly g = 0 := CharTwo.add_self_eq_zero _
  rw [← poly_ushiftRight hw r, shift, poly_xor, generator]
  cases r.getLsbD 0
  · simp [poly_zero]
  · simp only [coef_true, if_true, C_1, one_mul]
    linear_combination hchar

/-- Shifts multiply by powers of `X`, up to multiples of the generator. -/
theorem exists_poly_iterate (hw : 0 < w) (g r : BitVec w) (n : Nat) :
    ∃ q, poly ((shift g)^[n] r) + q * generator g = X ^ n * poly r := by
  induction n generalizing r with
  | zero => exact ⟨0, by simp⟩
  | succ n ih =>
      obtain ⟨q, hq⟩ := ih (shift g r)
      refine ⟨q + X ^ n * C (coef (r.getLsbD 0)), ?_⟩
      rw [Function.iterate_succ_apply, pow_succ, mul_assoc, ← poly_shift hw g r]
      linear_combination hq

/-- A word is added to the low end of the register, and shifted through. -/
def feed {v : Nat} (g r : BitVec w) (b : BitVec v) : BitVec w := (shift g)^[v] (r ^^^ b.setWidth w)

variable {v : Nat}

theorem exists_poly_feed (hw : 0 < w) (hv : v ≤ w) (g r : BitVec w) (b : BitVec v) :
    ∃ q, poly (feed g r b) + q * generator g = X ^ v * poly r + poly b * X ^ w := by
  obtain ⟨q, hq⟩ := exists_poly_iterate hw g (r ^^^ b.setWidth w) v
  refine ⟨q, ?_⟩
  have hpow : (X : (ZMod 2)[X]) ^ w = X ^ v * X ^ (w - v) := by rw [← pow_add, Nat.add_sub_cancel' hv]
  rw [feed, hq, poly_xor, poly_setWidth hv, hpow]
  ring

theorem exists_poly_foldl (hw : 0 < w) (hv : v ≤ w) (g r : BitVec w) (data : List (BitVec v)) :
    ∃ q, poly (data.foldl (feed g) r) + q * generator g =
      message (data.flatMap bits) * X ^ w + X ^ (data.flatMap bits).length * poly r := by
  induction data generalizing r with
  | nil => exact ⟨0, by simp [message]⟩
  | cons b data ih =>
      obtain ⟨q, hq⟩ := ih (feed g r b)
      obtain ⟨q', hq'⟩ := exists_poly_feed hw hv g r b
      refine ⟨q + X ^ (data.flatMap bits).length * q', ?_⟩
      rw [List.foldl_cons, List.flatMap_cons, message_append, List.length_append, length_bits, pow_add, ← poly]
      linear_combination hq + X ^ (data.flatMap bits).length * hq'

/-- The register holds the remainder of the message, behind what was in it at first. -/
theorem poly_foldl (hw : 0 < w) (hv : v ≤ w) (g r : BitVec w) (data : List (BitVec v)) :
    poly (data.foldl (feed g) r) =
      (message (data.flatMap bits) * X ^ w + X ^ (data.flatMap bits).length * poly r) %ₘ generator g := by
  obtain ⟨q, hq⟩ := exists_poly_foldl hw hv g r data
  refine ((div_modByMonic_unique q _ (monic_generator g) ⟨?_, ?_⟩).2).symm
  · rw [← hq, mul_comm]
  · rw [degree_generator]
    exact degree_poly_lt _

/-! ## Bursts -/

/-- The strings are different, and only in `w` consecutive places. -/
structure Burst (w : Nat) (l m : List Bool) : Prop where
  length_eq : l.length = m.length
  ne : l ≠ m
  within : ∃ s, ∀ i, l[i]? ≠ m[i]? → s ≤ i ∧ i < s + w

/-- The difference is a power of `X` times a polynomial of degree below `w`. -/
theorem Burst.exists_sub {l m : List Bool} (h : Burst w l m) :
    ∃ (n : Nat) (e : (ZMod 2)[X]), e ≠ 0 ∧ e.degree < w ∧ message l - message m = X ^ n * e := by
  obtain ⟨s, hs⟩ := h.within
  have hcoeff : ∀ k, (message l - message m).coeff k ≠ 0 → l.length - s - w ≤ k ∧ k < l.length - s - w + w := by
    intro k hk
    rw [coeff_sub, coeff_message, coeff_message, sub_ne_zero] at hk
    have hlt : k < l.length := by
      by_contra hge
      exact hk (by rw [List.getElem?_eq_none (by simp; omega), List.getElem?_eq_none (by simp [← h.length_eq]; omega)])
    rw [List.getElem?_reverse hlt, List.getElem?_reverse (h.length_eq ▸ hlt), ← h.length_eq] at hk
    have := hs (l.length - 1 - k) fun he => hk (by rw [he])
    omega
  have hdvd : X ^ (l.length - s - w) ∣ message l - message m := by
    rw [X_pow_dvd_iff]
    intro k hk
    by_contra hne
    exact absurd (hcoeff k hne).1 (by omega)
  obtain ⟨e, he⟩ := hdvd
  refine ⟨l.length - s - w, e, ?_, ?_, he⟩
  · rintro rfl
    rw [mul_zero, sub_eq_zero] at he
    exact h.ne (message_injective h.length_eq he)
  · rw [degree_lt_iff_coeff_zero]
    intro k hk
    by_contra hne
    rw [← coeff_X_pow_mul e (l.length - s - w) k, ← he] at hne
    exact absurd (hcoeff _ hne).2 (by omega)

/-- A generator with a constant term divides no power of `X` times a polynomial of smaller degree. -/
theorem not_generator_dvd {g : BitVec w} (hg : (generator g).coeff 0 = 1) {e : (ZMod 2)[X]} (he : e ≠ 0)
    (hdeg : e.degree < w) (n : Nat) : ¬ generator g ∣ X ^ n * e := by
  intro hdvd
  have hcop : IsCoprime (generator g) (X ^ n) := by
    refine IsCoprime.pow_right ⟨1, -divX (generator g), ?_⟩
    have hdiv := divX_mul_X_add (generator g)
    rw [hg, C_1] at hdiv
    linear_combination -hdiv
  refine he (eq_zero_of_dvd_of_degree_lt (hcop.dvd_of_dvd_mul_left hdvd) ?_)
  rwa [degree_generator]

/-- Bursts change the remainder, whatever is in the register at first. -/
theorem Burst.modByMonic_ne {g : BitVec w} (hg : (generator g).coeff 0 = 1) {l m : List Bool} (h : Burst w l m)
    (p : (ZMod 2)[X]) : (message l * X ^ w + X ^ l.length * p) %ₘ generator g ≠
      (message m * X ^ w + X ^ m.length * p) %ₘ generator g := by
  intro heq
  obtain ⟨n, e, he, hdeg, hsub⟩ := h.exists_sub
  refine not_generator_dvd hg he hdeg (n + w) ?_
  rw [← modByMonic_eq_zero_iff_dvd (monic_generator g)]
  have hdiff : X ^ (n + w) * e = message l * X ^ w + X ^ l.length * p - (message m * X ^ w + X ^ m.length * p) := by
    rw [pow_add, h.length_eq]
    linear_combination -X ^ w * hsub
  rw [hdiff, sub_modByMonic, heq, sub_self]

end Crc

end Ferro
