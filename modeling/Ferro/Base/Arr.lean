import Mathlib.Algebra.Group.Nat.Defs
import Mathlib.Data.List.Basic
import Mathlib.Data.List.OfFn

/-!
# Fixed-size arrays and little-endian numbers

`Arr α n` is the array type `[α; n]`. Reading and overwriting a slice are total; an index past the end reads
the default and writes nothing, so the callers' bounds appear as hypotheses of the lemmas.
-/

namespace Ferro

/-- An array of exactly `n` elements. -/
structure Arr (α : Type) (n : Nat) where
  get : Fin n → α

abbrev Bytes (n : Nat) := Arr UInt8 n

namespace Arr

variable {α : Type} {n : Nat}

instance [DecidableEq α] : DecidableEq (Arr α n) := fun a b =>
  decidable_of_iff (∀ i, a.get i = b.get i)
    ⟨fun h => by cases a; cases b; congr; funext i; exact h i, fun h i => by rw [h]⟩

def fill (x : α) : Arr α n := ⟨fun _ => x⟩

def toList (a : Arr α n) : List α := List.ofFn a.get

/-- `a[off..off + len]`. -/
def slice (a : Arr α n) (off len : Nat) : List α := (a.toList.drop off).take len

/-- `a[off..off + src.len()].copy_from_slice(src)`. -/
def put (a : Arr α n) (off : Nat) (src : List α) : Arr α n :=
  ⟨fun i => if off ≤ i.val then (src[i.val - off]?).getD (a.get i) else a.get i⟩

variable [Inhabited α]

/-- `a[i]`. -/
def nth (a : Arr α n) (i : Nat) : α := if h : i < n then a.get ⟨i, h⟩ else default

/-- The array whose first elements are those of the list. -/
def ofList (l : List α) : Arr α n := ⟨fun i => (l[i.val]?).getD default⟩

theorem ext_nth {a b : Arr α n} (h : ∀ i < n, a.nth i = b.nth i) : a = b := by
  cases a; cases b
  congr
  funext i
  simpa [nth, i.isLt] using h i i.isLt

omit [Inhabited α] in
@[simp] theorem length_toList (a : Arr α n) : a.toList.length = n := by simp [toList]

theorem getElem?_toList (a : Arr α n) (i : Nat) : a.toList[i]? = if i < n then some (a.nth i) else none := by
  by_cases h : i < n
  · simp [toList, nth, h]
  · simp [toList, h]

omit [Inhabited α] in
@[simp] theorem length_slice (a : Arr α n) {off len : Nat} (h : off + len ≤ n) :
    (a.slice off len).length = len := by
  simp [slice]; omega

theorem getElem?_slice (a : Arr α n) {off len : Nat} (h : off + len ≤ n) (i : Nat) :
    (a.slice off len)[i]? = if i < len then some (a.nth (off + i)) else none := by
  simp only [slice, List.getElem?_take, List.getElem?_drop, getElem?_toList]
  split
  · rw [if_pos (by omega)]
  · rfl

theorem slice_congr {m : Nat} {a : Arr α n} {b : Arr α m} {off off' len : Nat} (ha : off + len ≤ n)
    (hb : off' + len ≤ m) (h : ∀ i < len, a.nth (off + i) = b.nth (off' + i)) :
    a.slice off len = b.slice off' len := by
  apply List.ext_getElem?
  intro i
  rw [getElem?_slice a ha, getElem?_slice b hb]
  split
  · rw [h i ‹_›]
  · rfl

/-! ## Overwriting a slice -/

theorem nth_put (a : Arr α n) {off i : Nat} (src : List α) (hi : i < n) :
    (a.put off src).nth i = if off ≤ i then (src[i - off]?).getD (a.nth i) else a.nth i := by
  simp [put, nth, hi]

theorem nth_put_of_not_mem (a : Arr α n) {off i : Nat} (src : List α) (h : i < off ∨ off + src.length ≤ i) :
    (a.put off src).nth i = a.nth i := by
  by_cases hi : i < n
  · rw [nth_put a src hi]
    split
    · rw [List.getElem?_eq_none (by omega)]; rfl
    · rfl
  · simp [nth, hi]

theorem nth_put_of_mem (a : Arr α n) {off i : Nat} (src : List α) (hi : i < n) (h : off ≤ i)
    (h' : i - off < src.length) : (a.put off src).nth i = src[i - off] := by
  rw [nth_put a src hi, if_pos h, List.getElem?_eq_getElem h']; rfl

theorem slice_put_same (a : Arr α n) (off : Nat) (src : List α) (h : off + src.length ≤ n) :
    (a.put off src).slice off src.length = src := by
  apply List.ext_getElem?
  intro i
  rw [getElem?_slice _ h]
  by_cases hi : i < src.length
  · rw [if_pos hi, nth_put_of_mem a src (by omega) (by omega) (by omega), List.getElem?_eq_getElem hi]
    simp
  · rw [if_neg hi, List.getElem?_eq_none (by omega)]

/-- A slice inside what was written. -/
theorem slice_put_inside (a : Arr α n) {off i len : Nat} {src : List α} (h : off + src.length ≤ n)
    (hi : i + len ≤ src.length) : (a.put off src).slice (off + i) len = (src.drop i).take len := by
  apply List.ext_getElem?
  intro j
  rw [getElem?_slice _ (by omega), List.getElem?_take, List.getElem?_drop]
  split
  · rw [nth_put_of_mem a src (by omega) (by omega) (by omega), List.getElem?_eq_getElem (by omega)]
    congr 2
    omega
  · rfl

theorem slice_put_disjoint (a : Arr α n) {off len off' : Nat} (src : List α) (h : off + len ≤ n)
    (hd : off + len ≤ off' ∨ off' + src.length ≤ off) :
    (a.put off' src).slice off len = a.slice off len := by
  refine slice_congr h h fun i hi => nth_put_of_not_mem a src ?_
  omega

theorem put_put (a : Arr α n) (off : Nat) {src src' : List α} (h : src.length = src'.length) :
    (a.put off src).put off src' = a.put off src' := by
  refine ext_nth fun i hi => ?_
  rw [nth_put _ _ hi, nth_put _ _ hi, nth_put _ _ hi]
  grind

omit [Inhabited α] in
@[simp] theorem put_nil (a : Arr α n) (off : Nat) : a.put off [] = a := by
  cases a; simp [put]

theorem put_cons (a : Arr α n) (off : Nat) (x : α) (src : List α) :
    a.put off (x :: src) = (a.put off [x]).put (off + 1) src := by
  apply ext_nth
  intro i hi
  rw [nth_put _ _ hi, nth_put _ _ hi, nth_put _ _ hi]
  by_cases h : off + 1 ≤ i
  · have hj : i - off = i - (off + 1) + 1 := by omega
    simp [h, hj, show off ≤ i by omega]
  · by_cases h' : off = i
    · subst h'; simp
    · simp [h, show ¬ off ≤ i by omega]

theorem put_append (a : Arr α n) (off : Nat) (src src' : List α) :
    a.put off (src ++ src') = (a.put off src).put (off + src.length) src' := by
  induction src generalizing a off with
  | nil => simp
  | cons x src ih =>
      rw [List.cons_append, put_cons, ih, put_cons a off x src, List.length_cons, Nat.add_assoc, Nat.add_comm 1]

theorem nth_ofList {l : List α} {i : Nat} (hi : i < n) : (ofList l : Arr α n).nth i = (l[i]?).getD default := by
  simp [ofList, nth, hi]

theorem toList_ofList {l : List α} (h : l.length = n) : (ofList l : Arr α n).toList = l := by
  apply List.ext_getElem?
  intro i
  rw [getElem?_toList]
  by_cases hi : i < n
  · rw [if_pos hi, nth_ofList hi, List.getElem?_eq_getElem (by omega)]; rfl
  · rw [if_neg hi, List.getElem?_eq_none (by omega)]

theorem toList_ofList_of_le {l : List α} (h : l.length ≤ n) :
    (ofList l : Arr α n).toList = l ++ List.replicate (n - l.length) default := by
  apply List.ext_getElem?
  intro i
  rw [getElem?_toList]
  by_cases hl : i < l.length
  · rw [if_pos (by omega), nth_ofList (by omega), List.getElem?_append_left hl, List.getElem?_eq_getElem hl]
    rfl
  · rw [List.getElem?_append_right (by omega), List.getElem?_replicate]
    by_cases hi : i < n
    · rw [if_pos hi, if_pos (by omega), nth_ofList hi, List.getElem?_eq_none (by omega)]
      rfl
    · rw [if_neg hi, if_neg (by omega)]

theorem slice_ofList {l : List α} (h : l.length = n) (off len : Nat) :
    (ofList l : Arr α n).slice off len = (l.drop off).take len := by
  rw [slice, toList_ofList h]

theorem ofList_toList (a : Arr α n) : ofList a.toList = a := by
  refine ext_nth fun i hi => ?_
  rw [nth_ofList hi, getElem?_toList, if_pos hi]; rfl

theorem nth_fill {x : α} {i : Nat} (hi : i < n) : (fill x : Arr α n).nth i = x := by
  simp [fill, nth, hi]

end Arr

theorem take_drop_middle {α : Type} {i k : Nat} (a b c : List α) (ha : a.length = i) (hb : b.length = k) :
    ((a ++ b ++ c).drop i).take k = b := by
  subst ha hb
  rw [List.append_assoc, List.drop_left, List.take_left]

/-- A list of pieces of the same length. -/
theorem take_drop_flatMap {α β : Type} {g : α → List β} {k : Nat} (l : List α) (hg : ∀ x, (g x).length = k) {i : Nat}
    (hi : i < l.length) : ((l.flatMap g).drop (i * k)).take k = g l[i] := by
  induction l generalizing i with
  | nil => cases hi
  | cons x l ih =>
      cases i with
      | zero => rw [Nat.zero_mul, List.drop_zero, List.flatMap_cons, List.take_left' (hg x), List.getElem_cons_zero]
      | succ i =>
          have hlen : (i + 1) * k = (g x).length + i * k := by rw [hg, Nat.add_mul, Nat.one_mul, Nat.add_comm]
          rw [List.flatMap_cons, hlen, List.drop_length_add_append, ih (Nat.lt_of_succ_lt_succ hi), List.getElem_cons_succ]

/-! ## Little-endian numbers -/

/-- The number whose little-endian bytes are given (`from_le_bytes`). -/
def leNat : List UInt8 → Nat
  | [] => 0
  | b :: bs => b.toNat + 256 * leNat bs

/-- The low `k` bytes of a number, least significant first (`to_le_bytes`). -/
def leBytes : Nat → Nat → List UInt8
  | 0, _ => []
  | k + 1, n => UInt8.ofNat n :: leBytes k (n / 256)

@[simp] theorem length_leBytes (k n : Nat) : (leBytes k n).length = k := by
  induction k generalizing n with
  | zero => rfl
  | succ k ih => simp [leBytes, ih]

theorem leNat_lt (bs : List UInt8) : leNat bs < 256 ^ bs.length := by
  induction bs with
  | nil => simp [leNat]
  | cons b bs ih =>
      have hb : b.toNat < 256 := b.toNat_lt
      simp only [leNat, List.length_cons, Nat.pow_succ]
      omega

theorem leNat_leBytes (k n : Nat) : leNat (leBytes k n) = n % 256 ^ k := by
  induction k generalizing n with
  | zero => simp [leBytes, leNat, Nat.mod_one]
  | succ k ih =>
      have hb : (UInt8.ofNat n).toNat = n % 256 := by simp
      rw [leBytes, leNat, ih, hb, Nat.pow_succ, Nat.mul_comm (256 ^ k) 256, Nat.mod_mul]

theorem leBytes_leNat (bs : List UInt8) : leBytes bs.length (leNat bs) = bs := by
  induction bs with
  | nil => rfl
  | cons b bs ih =>
      have hb : b.toNat < 256 := b.toNat_lt
      have hdiv : (b.toNat + 256 * leNat bs) / 256 = leNat bs := by omega
      have hlow : UInt8.ofNat (b.toNat + 256 * leNat bs) = b := by
        apply UInt8.toNat_inj.mp
        simp only [UInt8.toNat_ofNat']
        omega
      simp only [List.length_cons, leNat, leBytes, hdiv, ih, hlow]

theorem leNat_injective {l m : List UInt8} (hlen : l.length = m.length) (h : leNat l = leNat m) : l = m := by
  rw [← leBytes_leNat l, ← leBytes_leNat m, hlen, h]

end Ferro
