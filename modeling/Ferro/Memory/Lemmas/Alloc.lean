import Ferro.Memory.Model

/-!
# The page allocator

`u64` sums and products as numbers, and what an allocation grants.
-/

namespace Ferro

namespace Memory

variable {a a' : Allocator} {base count addr : UInt64} {image : Image}

theorem and_notMask (n : Nat) (h : n < 2 ^ 64) : n &&& 0xFFFFFFFFFFFFF000 = n / 4096 * 4096 := by
  have hmask : 0xFFFFFFFFFFFFF000 = (2 ^ 52 - 1) <<< 12 := by decide
  have hdiv : n / 4096 * 4096 = (n >>> 12) <<< 12 := by
    rw [Nat.shiftRight_eq_div_pow, Nat.shiftLeft_eq]
  rw [hmask, hdiv]
  apply Nat.eq_of_testBit_eq
  intro i
  simp only [Nat.testBit_and, Nat.testBit_shiftLeft, Nat.testBit_two_pow_sub_one, Nat.testBit_shiftRight]
  by_cases hi : 12 ≤ i
  · simp only [hi, decide_true, Bool.true_and, Nat.add_sub_cancel' hi]
    by_cases h64 : i - 12 < 52
    · simp [h64]
    · have : n.testBit i = false := Nat.testBit_lt_two_pow (h.trans_le (Nat.pow_le_pow_right (by decide) (by omega)))
      simp [this]
  · simp [hi]

theorem toNat_pageAlignUp (addr : UInt64) :
    (pageAlignUp addr).toNat = (addr.toNat + 4095) % 2 ^ 64 / 4096 * 4096 := by
  have hadd : (addr + pageSize - 1).toNat = (addr.toNat + 4095) % 2 ^ 64 := by
    have hlt := addr.toNat_lt
    simp only [pageSize, UInt64.toNat_sub, UInt64.toNat_add, UInt64.reduceToNat]
    omega
  rw [pageAlignUp, UInt64.toNat_and, hadd]
  exact and_notMask _ (Nat.mod_lt _ (by decide))

theorem pageAlignUp_eq (h : addr.toNat ≤ 0x3F000000) :
    (pageAlignUp addr).toNat = (addr.toNat + 4095) / 4096 * 4096 := by
  rw [toNat_pageAlignUp, Nat.mod_eq_of_lt (by omega)]

/-! ## The firmware image -/

/-- Where the allocator starts. -/
def firstPage (image : Image) : Nat := (pageAlignUp image.firmwareEnd).toNat

theorem firstPage_eq (image : Image) : firstPage image = (image.firmwareEnd.toNat + 4095) / 4096 * 4096 :=
  pageAlignUp_eq image.le_limit

theorem start_le_firstPage (image : Image) : 0x80000 ≤ firstPage image := by
  have h : 0x80000 ≤ image.firmwareEnd.toNat := image.start_le
  rw [firstPage_eq]
  omega

theorem firstPage_le (image : Image) : firstPage image ≤ 0x3F000000 := by
  have h : image.firmwareEnd.toNat ≤ 0x3F000000 := image.le_limit
  rw [firstPage_eq]
  omega

theorem dvd_firstPage (image : Image) : 4096 ∣ firstPage image := by
  rw [firstPage_eq]
  exact Nat.dvd_mul_left _ _

/-! ## Allocating pages -/

/-- The bump pointer after `count` more pages, in `u64` arithmetic. -/
def bumped (a : Allocator) (count : UInt64) : Nat := (a.nextFreePage.toNat + count.toNat * 4096) % 2 ^ 64

theorem toNat_new (a : Allocator) (count : UInt64) : (a.nextFreePage + count * pageSize).toNat = bumped a count := by
  simp [pageSize, bumped, UInt64.toNat_add, UInt64.toNat_mul]

theorem allocatePages_cases (a : Allocator) (count : UInt64) :
    (0x3F000000 < bumped a count ∧ allocatePages a count = none) ∨
      (bumped a count ≤ 0x3F000000 ∧ ∃ a', allocatePages a count = some (a.nextFreePage, a') ∧
        a'.nextFreePage.toNat = bumped a count ∧ a'.generation = a.generation + 1) := by
  have hnew := toNat_new a count
  by_cases h : ramLimit < a.nextFreePage + count * pageSize
  · have hlt : 0x3F000000 < (a.nextFreePage + count * pageSize).toNat := UInt64.lt_iff_toNat_lt.mp h
    exact Or.inl ⟨hnew ▸ hlt, if_pos h⟩
  · have hle : (a.nextFreePage + count * pageSize).toNat ≤ 0x3F000000 := Nat.le_of_not_lt fun hlt => h hlt
    exact Or.inr ⟨hnew ▸ hle, ⟨_, _⟩, if_neg h, hnew, rfl⟩

theorem allocatePages_eq_some (h : allocatePages a count = some (base, a')) :
    base = a.nextFreePage ∧ bumped a count ≤ 0x3F000000 ∧ a'.nextFreePage.toNat = bumped a count ∧
      a'.generation = a.generation + 1 := by
  rcases allocatePages_cases a count with ⟨_, hn⟩ | ⟨hle, a₁, hs, hnext, hgen⟩
  · rw [hn] at h; cases h
  · rw [hs] at h; cases h; exact ⟨rfl, hle, hnext, hgen⟩

/-- Without wrap-around the pages granted are those between the old and the new bump pointer. -/
theorem bumped_eq (h : a.nextFreePage.toNat + count.toNat * 4096 < 2 ^ 64) :
    bumped a count = a.nextFreePage.toNat + count.toNat * 4096 := Nat.mod_eq_of_lt h

end Memory

end Ferro
