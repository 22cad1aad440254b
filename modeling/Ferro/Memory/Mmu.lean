import Ferro.Base.Translation
import Ferro.Memory.Model

/-!
# The page tables (`mmu.rs`)

`init` fills a table of 2 MiB blocks for the first GiB and two entries of the table above it, and switches the MMU on.
-/

namespace Ferro

namespace Mmu

open Translation

/-- `BLOCK_2M`. -/
def block2m : UInt64 := 0x00200000

def mtNormal : UInt64 := 0

def mtDeviceNgnrne : UInt64 := 1

def descValidBlock : UInt64 := 0b01

def descValidTable : UInt64 := 0b11

/-- The access flag. -/
def af : UInt64 := (1 : UInt64) <<< 10

def uxn : UInt64 := (1 : UInt64) <<< 54

def pxn : UInt64 := (1 : UInt64) <<< 53

/-- `L1_TABLE` and `L2_TABLE`, two statics that the linker aligns. -/
structure Tables where
  l1 : UInt64
  l2 : UInt64
  l1_aligned : 4096 ∣ l1.toNat
  l2_aligned : 4096 ∣ l2.toNat
  distinct : l1 ≠ l2
  l1_lt : l1.toNat < 2 ^ 48
  l2_lt : l2.toNat < 2 ^ 48

def blockDesc (pa attrIdx shareability : UInt64) (executable : Bool) : UInt64 :=
  let d := descValidBlock
  let d := d ||| attrIdx <<< 2
  let d := d ||| shareability <<< 8
  let d := d ||| af
  let d := d ||| pa
  if executable then d else d ||| (uxn ||| pxn)

/-- The entry of `L2_TABLE`. -/
def l2Entry (i : Nat) : UInt64 :=
  let pa := UInt64.ofNat i * block2m
  if i < (ramLimit / block2m).toNat then
    blockDesc pa mtNormal 0b11 true
  else
    blockDesc pa mtDeviceNgnrne 0b10 false

/-- The tables in memory, by the address of each doubleword. -/
def fill (t : Tables) (mem : Nat → UInt64) : Nat → UInt64 :=
  let mem := (List.range 512).foldl (fun m i => Function.update m (t.l2.toNat + 8 * i) (l2Entry i)) mem
  let mem := Function.update mem (t.l1.toNat + 8 * 0) (descValidTable ||| t.l2)
  Function.update mem (t.l1.toNat + 8 * 1) (blockDesc localBase mtDeviceNgnrne 0b10 false)

def mair : UInt64 := ((0xFF : UInt64) <<< (8 * mtNormal)) ||| ((0x00 : UInt64) <<< (8 * mtDeviceNgnrne))

def tcr : UInt64 :=
  (25 : UInt64) ||| ((1 : UInt64) <<< 8) ||| ((1 : UInt64) <<< 10) ||| ((0b11 : UInt64) <<< 12) ||| ((0b00 : UInt64) <<< 14) |||
    ((1 : UInt64) <<< 23)

/-- `SCTLR_EL1`, with the MMU and the caches on. -/
def enabled (sctlr : UInt64) : UInt64 :=
  sctlr ||| ((1 : UInt64) <<< 0) ||| ((1 : UInt64) <<< 2) ||| ((1 : UInt64) <<< 12)

def regs (t : Tables) (sctlr : UInt64) : Regs where
  sctlr := (enabled sctlr).toNat
  mair := mair.toNat
  tcr := tcr.toNat
  ttbr0 := t.l1.toNat

/-- Translation after `init`, from memory and from what was in `SCTLR_EL1`. -/
def lookup (t : Tables) (mem : Nat → UInt64) (sctlr : UInt64) (va : Nat) : Except Fault Mapping :=
  Translation.translate (regs t sctlr) (fun a => (fill t mem a).toNat) va

/-! ## Descriptors -/

/-- The fields of a block descriptor do not overlap. -/
theorem toNat_blockDesc {pa attrIdx shareability : UInt64} {k : Nat} (ha : attrIdx.toNat < 8)
    (hs : shareability.toNat < 4) (hk : k < 2 ^ 27) (hpa : pa.toNat = k * 2 ^ 21) (executable : Bool) :
    (blockDesc pa attrIdx shareability executable).toNat =
      1 + attrIdx.toNat * 4 + shareability.toNat * 256 + 1024 + k * 2 ^ 21 +
        if executable then 0 else 3 * 2 ^ 53 := by
  have hattr : (attrIdx <<< 2).toNat = attrIdx.toNat * 4 := by
    have htwo : (2 : UInt64).toNat % 64 = 2 := rfl
    rw [UInt64.toNat_shiftLeft, Nat.shiftLeft_eq, htwo, Nat.mod_eq_of_lt (by omega)]
  have hshare : (shareability <<< 8).toNat = shareability.toNat * 256 := by
    have height : (8 : UInt64).toNat % 64 = 8 := rfl
    rw [UInt64.toNat_shiftLeft, Nat.shiftLeft_eq, height, Nat.mod_eq_of_lt (by omega)]
  have h₁ : 1 ||| attrIdx.toNat * 4 = 1 + attrIdx.toNat * 4 := by
    rw [Nat.or_comm, Nat.mul_comm, ← Nat.two_pow_add_eq_or_of_lt (i := 2) (by decide), Nat.add_comm]
  have h₂ : (1 + attrIdx.toNat * 4) ||| shareability.toNat * 256 =
      1 + attrIdx.toNat * 4 + shareability.toNat * 256 := by
    rw [Nat.or_comm, Nat.mul_comm _ 256, ← Nat.two_pow_add_eq_or_of_lt (i := 8) (by omega), Nat.add_comm]
  have h₃ : (1 + attrIdx.toNat * 4 + shareability.toNat * 256) ||| 1024 =
      1 + attrIdx.toNat * 4 + shareability.toNat * 256 + 1024 := by
    rw [Nat.or_comm, ← Nat.two_pow_add_eq_or_of_lt (i := 10) (b := 1 + attrIdx.toNat * 4 + shareability.toNat * 256)
      (by omega) 1, Nat.add_comm]
  have h₄ : (1 + attrIdx.toNat * 4 + shareability.toNat * 256 + 1024) ||| k * 2 ^ 21 =
      1 + attrIdx.toNat * 4 + shareability.toNat * 256 + 1024 + k * 2 ^ 21 := by
    rw [Nat.or_comm, Nat.mul_comm k, ← Nat.two_pow_add_eq_or_of_lt (i := 21) (by omega), Nat.add_comm]
  have hlow : (descValidBlock ||| attrIdx <<< 2 ||| shareability <<< 8 ||| af ||| pa).toNat =
      1 + attrIdx.toNat * 4 + shareability.toNat * 256 + 1024 + k * 2 ^ 21 := by
    have hone : descValidBlock.toNat = 1 := rfl
    have haf : af.toNat = 1024 := rfl
    rw [UInt64.toNat_or, UInt64.toNat_or, UInt64.toNat_or, UInt64.toNat_or, hattr, hshare, hone, haf, hpa, h₁, h₂, h₃, h₄]
  cases executable with
  | true =>
      rw [if_pos rfl, Nat.add_zero]
      exact hlow
  | false =>
      have hxn : (uxn ||| pxn).toNat = 2 ^ 53 * 3 := rfl
      show (descValidBlock ||| attrIdx <<< 2 ||| shareability <<< 8 ||| af ||| pa ||| (uxn ||| pxn)).toNat = _
      rw [UInt64.toNat_or, hlow, hxn, Nat.or_comm, ← Nat.two_pow_add_eq_or_of_lt (by omega)]
      simp only [Bool.false_eq_true, if_false]
      omega

theorem toNat_l2Entry {i : Nat} (hi : i < 512) : (l2Entry i).toNat =
    if i < 504 then 0x701 + i * 2 ^ 21 else 0x605 + i * 2 ^ 21 + 3 * 2 ^ 53 := by
  have hpa : (UInt64.ofNat i * block2m).toNat = i * 2 ^ 21 := by
    have hblock : block2m.toNat = 2 ^ 21 := rfl
    rw [UInt64.toNat_mul, UInt64.toNat_ofNat', hblock]
    omega
  have hfirst : (ramLimit / block2m).toNat = 504 := rfl
  have h0 : mtNormal.toNat = 0 := rfl
  have h1 : mtDeviceNgnrne.toNat = 1 := rfl
  have h2 : (0b10 : UInt64).toNat = 2 := rfl
  have h3 : (0b11 : UInt64).toNat = 3 := rfl
  simp only [l2Entry, hfirst]
  by_cases hlt : i < 504
  · rw [if_pos hlt, if_pos hlt, toNat_blockDesc (by decide) (by decide) (by omega) hpa, h0, h3, if_pos rfl]
    omega
  · rw [if_neg hlt, if_neg hlt, toNat_blockDesc (by decide) (by decide) (by omega) hpa, h1, h2,
      if_neg Bool.false_ne_true]

theorem toNat_local : (blockDesc localBase mtDeviceNgnrne 0b10 false).toNat = 0x605 + 2 ^ 30 + 3 * 2 ^ 53 := rfl

variable {t : Tables} {mem : Nat → UInt64} {sctlr : UInt64} {va : Nat}

theorem toNat_table (t : Tables) : (descValidTable ||| t.l2).toNat = t.l2.toNat + 3 := by
  obtain ⟨k, hk⟩ := t.l2_aligned
  have hthree : descValidTable.toNat = 3 := rfl
  have h4096 : t.l2.toNat = 2 ^ 12 * k := hk
  rw [UInt64.toNat_or, hthree, h4096, Nat.or_comm, ← Nat.two_pow_add_eq_or_of_lt (by decide)]

/-! ## The tables -/

/-- The two tables do not share an entry. -/
theorem Tables.ne (t : Tables) {i j : Nat} (hi : i < 512) (hj : j < 512) :
    t.l2.toNat + 8 * i ≠ t.l1.toNat + 8 * j := by
  obtain ⟨a, ha⟩ := t.l1_aligned
  obtain ⟨b, hb⟩ := t.l2_aligned
  intro h
  have hsame : a = b := by omega
  exact t.distinct (UInt64.toNat_inj.mp (by rw [ha, hb, hsame]))

theorem fill_l2 {i : Nat} (hi : i < 512) : fill t mem (t.l2.toNat + 8 * i) = l2Entry i := by
  rw [fill, Function.update_of_ne (t.ne hi (by decide)), Function.update_of_ne (t.ne hi (by decide))]
  exact (foldl_update_range mem (fun i => t.l2.toNat + 8 * i) l2Entry (fun i j h => by dsimp only at h; omega)
    512 0).1 i hi

theorem fill_l1_zero : fill t mem (t.l1.toNat + 8 * 0) = descValidTable ||| t.l2 := by
  rw [fill, Function.update_of_ne (by omega), Function.update_self]

theorem fill_l1_one : fill t mem (t.l1.toNat + 8 * 1) = blockDesc localBase mtDeviceNgnrne 0b10 false := by
  rw [fill, Function.update_self]

/-- The other entries of the first table stay as they are. -/
theorem fill_l1 {j : Nat} (hj : 2 ≤ j) (hj' : j < 512) : fill t mem (t.l1.toNat + 8 * j) = mem (t.l1.toNat + 8 * j) := by
  rw [fill, Function.update_of_ne (by omega), Function.update_of_ne (by omega)]
  exact (foldl_update_range mem (fun i => t.l2.toNat + 8 * i) l2Entry (fun i j h => by dsimp only at h; omega)
    512 _).2 fun i hi => (t.ne hi hj').symm

/-! ## The walk -/

/-- The first GiB: through the second table, to a block of 2 MiB. -/
theorem walk_low (h : va < 2 ^ 30) : walk (fun a => (fill t mem a).toNat) 2 t.l1.toNat va =
    some (va, (l2Entry (va / 2 ^ 21)).toNat) := by
  obtain ⟨k, hk⟩ := t.l2_aligned
  have hlt := t.l2_lt
  have hi : va / 2 ^ 21 < 512 := by omega
  have htop : entry 2 t.l1.toNat va = t.l1.toNat + 8 * 0 := by
    simp only [entry, span, bits]
    omega
  have hnext : bits (t.l2.toNat + 3) 12 36 * 2 ^ 12 = t.l2.toNat := by
    simp only [bits]
    omega
  have hlow : entry 1 t.l2.toNat va = t.l2.toNat + 8 * (va / 2 ^ 21) := by
    simp only [entry, span, bits]
    omega
  have hdesc := toNat_l2Entry hi
  have htable : bits (t.l2.toNat + 3) 0 2 = 3 := by
    simp only [bits]
    omega
  have hleaf : bits (l2Entry (va / 2 ^ 21)).toNat 0 2 = 1 ∧ output 1 (l2Entry (va / 2 ^ 21)).toNat va = va := by
    rw [hdesc]
    by_cases hram : va / 2 ^ 21 < 504
    · rw [if_pos hram]
      simp only [output, span, bits]
      omega
    · rw [if_neg hram]
      simp only [output, span, bits]
      omega
  rw [walk_table (d := t.l2.toNat + 3) (by rw [htop, fill_l1_zero, toNat_table]) htable, hnext,
    walk_block (by rw [hlow, fill_l2 hi]) hleaf.1 (by decide), hleaf.2]

/-- The second GiB: one block. -/
theorem walk_high (h : 2 ^ 30 ≤ va) (h' : va < 2 ^ 31) : walk (fun a => (fill t mem a).toNat) 2 t.l1.toNat va =
    some (va, (blockDesc localBase mtDeviceNgnrne 0b10 false).toNat) := by
  have htop : entry 2 t.l1.toNat va = t.l1.toNat + 8 * 1 := by
    simp only [entry, span, bits]
    omega
  have hblock : bits (blockDesc localBase mtDeviceNgnrne 0b10 false).toNat 0 2 = 1 := by
    rw [toNat_local]
    simp only [bits]
    omega
  have hout : output 2 (blockDesc localBase mtDeviceNgnrne 0b10 false).toNat va = va := by
    rw [toNat_local]
    simp only [output, span, bits]
    omega
  rw [walk_block (by rw [htop, fill_l1_one]) hblock (by decide), hout]

theorem walk_unmapped (hzero : ∀ i < 512, mem (t.l1.toNat + 8 * i) = 0) (h : 2 ^ 31 ≤ va) (h' : va < 2 ^ 39) :
    walk (fun a => (fill t mem a).toNat) 2 t.l1.toNat va = none := by
  have htop : entry 2 t.l1.toNat va = t.l1.toNat + 8 * (va / 2 ^ 30) := by
    simp only [entry, span, bits]
    omega
  refine walk_invalid (d := 0) ?_ rfl
  rw [htop, fill_l1 (by omega) (by omega), hzero _ (by omega)]
  rfl

/-! ## Translation -/

theorem bits_wxn (sctlr : UInt64) : bits (enabled sctlr).toNat 19 1 = bits sctlr.toNat 19 1 := by
  have hone (x : Nat) : bits x 19 1 = (x.testBit 19).toNat := (Nat.toNat_testBit x 19).symm
  have hset : (enabled sctlr).toNat = sctlr.toNat ||| 0x1 ||| 0x4 ||| 0x1000 := by
    rw [enabled, UInt64.toNat_or, UInt64.toNat_or, UInt64.toNat_or]
    rfl
  have h1 : Nat.testBit 0x1 19 = false := rfl
  have h4 : Nat.testBit 0x4 19 = false := rfl
  have h1000 : Nat.testBit 0x1000 19 = false := rfl
  rw [hone, hone, hset, Nat.testBit_or, Nat.testBit_or, Nat.testBit_or, h1, h4, h1000, Bool.or_false, Bool.or_false,
    Bool.or_false]

variable (t va) in
theorem mappingOf_ram (hwxn : bits sctlr.toNat 19 1 = 0) {i : Nat} (hi : i < 504) :
    bits (l2Entry i).toNat 10 1 = 1 ∧
      mappingOf (regs t sctlr) va (l2Entry i).toNat = ⟨va, 0xFF, 3, true, true⟩ := by
  have hattr : bits (0x701 + i * 2 ^ 21) 2 3 = 0 := by simp only [bits]; omega
  have hshare : bits (0x701 + i * 2 ^ 21) 8 2 = 3 := by simp only [bits]; omega
  have hwrite : bits (0x701 + i * 2 ^ 21) 7 1 = 0 := by simp only [bits]; omega
  have hpxn : bits (0x701 + i * 2 ^ 21) 53 1 = 0 := by simp only [bits]; omega
  have hmair : bits mair.toNat (8 * 0) 8 = 0xFF := by decide
  rw [toNat_l2Entry (by omega), if_pos hi]
  refine ⟨by simp only [bits]; omega, ?_⟩
  simp only [mappingOf, regs, bits_wxn, hwxn, hattr, hshare, hwrite, hpxn, hmair]
  rfl

variable (t va) in
theorem mappingOf_device {k : Nat} (hk : k < 2 ^ 10) (sctlr : UInt64) :
    bits (0x605 + k * 2 ^ 21 + 3 * 2 ^ 53) 10 1 = 1 ∧
      mappingOf (regs t sctlr) va (0x605 + k * 2 ^ 21 + 3 * 2 ^ 53) = ⟨va, 0x00, 2, true, false⟩ := by
  have hattr : bits (0x605 + k * 2 ^ 21 + 3 * 2 ^ 53) 2 3 = 1 := by simp only [bits]; omega
  have hshare : bits (0x605 + k * 2 ^ 21 + 3 * 2 ^ 53) 8 2 = 2 := by simp only [bits]; omega
  have hwrite : bits (0x605 + k * 2 ^ 21 + 3 * 2 ^ 53) 7 1 = 0 := by simp only [bits]; omega
  have hpxn : bits (0x605 + k * 2 ^ 21 + 3 * 2 ^ 53) 53 1 = 1 := by simp only [bits]; omega
  have hmair : bits mair.toNat (8 * 1) 8 = 0x00 := by decide
  refine ⟨by simp only [bits]; omega, ?_⟩
  simp only [mappingOf, regs, hattr, hshare, hwrite, hpxn, hmair]
  rfl

theorem translate_eq (t : Tables) (mem : Nat → UInt64) (sctlr : UInt64) (va : Nat) : lookup t mem sctlr va =
    if 2 ^ 39 ≤ va then .error .translation
    else resolve (regs t sctlr) (walk (fun a => (fill t mem a).toNat) 2 t.l1.toNat va) := by
  have hsize : 64 - bits tcr.toNat 0 6 = 39 := by decide
  have hlevel : (39 - 13) / 9 = 2 := rfl
  have hgranule : bits tcr.toNat 14 2 = 0 := by decide
  have hupper : bits tcr.toNat 23 1 = 1 := by decide
  have hbase : bits t.l1.toNat 12 36 * 2 ^ 12 = t.l1.toNat := by
    obtain ⟨k, hk⟩ := t.l1_aligned
    have hlt := t.l1_lt
    simp only [bits]
    omega
  have hregs : (regs t sctlr).tcr = tcr.toNat := rfl
  have httbr : (regs t sctlr).ttbr0 = t.l1.toNat := rfl
  simp only [lookup, Translation.translate, hregs, httbr, hsize, hlevel, hgranule, hupper, hbase, ne_eq, not_true, if_false,
    and_false, Nat.one_ne_zero]

/-- The tables map the memory below 2 GiB to itself: RAM as cached memory that can hold code, and what lies above it as
device memory that cannot. Nothing else is mapped. -/
theorem lookup_eq (hzero : ∀ i < 512, mem (t.l1.toNat + 8 * i) = 0) (hwxn : bits sctlr.toNat 19 1 = 0) (va : Nat) :
    lookup t mem sctlr va =
      if va < 0x3F000000 then .ok ⟨va, 0xFF, 3, true, true⟩
      else if va < 0x80000000 then .ok ⟨va, 0x00, 2, true, false⟩
      else .error .translation := by
  rw [translate_eq]
  by_cases hlow : va < 2 ^ 30
  · rw [if_neg (by omega), walk_low hlow]
    by_cases hram : va < 0x3F000000
    · obtain ⟨haf, hmap⟩ := mappingOf_ram t va hwxn (i := va / 2 ^ 21) (by omega)
      simp only [resolve, haf, hmap, if_true, hram]
    · obtain ⟨haf, hmap⟩ := mappingOf_device t va (k := va / 2 ^ 21) (by omega) sctlr
      have hdesc : (l2Entry (va / 2 ^ 21)).toNat = 0x605 + va / 2 ^ 21 * 2 ^ 21 + 3 * 2 ^ 53 := by
        rw [toNat_l2Entry (by omega), if_neg (by omega)]
      simp only [hdesc, resolve, haf, hmap, if_true, if_neg hram, if_pos (show va < 0x80000000 by omega)]
  by_cases hhigh : va < 2 ^ 31
  · obtain ⟨haf, hmap⟩ := mappingOf_device t va (k := 512) (by decide) sctlr
    have hdesc : (blockDesc localBase mtDeviceNgnrne 0b10 false).toNat = 0x605 + 512 * 2 ^ 21 + 3 * 2 ^ 53 := rfl
    rw [if_neg (by omega), walk_high (by omega) hhigh]
    simp only [hdesc, resolve, haf, hmap, if_true, if_neg (show ¬ va < 0x3F000000 by omega),
      if_pos (show va < 0x80000000 by omega)]
  · rw [if_neg (show ¬ va < 0x3F000000 by omega), if_neg (show ¬ va < 0x80000000 by omega)]
    by_cases hout : 2 ^ 39 ≤ va
    · rw [if_pos hout]
    · rw [if_neg hout, walk_unmapped hzero (by omega) (by omega)]
      rfl

end Mmu

end Ferro
