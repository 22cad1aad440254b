import Ferro.Fat32.Lemmas.Walks
import Ferro.Fat32.Mount
import Ferro.Fat32.Theorems

/-!
# The end of the partition

`find_free_cluster` looks at every entry of the FAT. The FAT takes whole sectors, so it can have entries behind that of
the last cluster of the partition.
-/

namespace Ferro

namespace Fat32

variable (fs : Fat32) (d d₀ : Disk) {c p : Nat}

/-! ## The first free entry -/

theorem run_findFreeFrom (n a : Nat) : ((fs.findFreeFrom n a).run d).1 = .ok c ↔
    a ≤ c ∧ c < a + n ∧ fs.fatAt d c = 0 ∧ ∀ b, a ≤ b → b < c → fs.fatAt d b ≠ 0 := by
  induction n generalizing a with
  | zero =>
      refine iff_of_false (by rintro ⟨⟩) ?_
      rintro ⟨h1, h2, _⟩
      omega
  | succ n ih =>
      rw [findFreeFrom, Prog.run_bind_ok (fs.run_fatEntry d a)]
      by_cases h0 : fs.fatAt d a = 0
      · rw [if_pos h0, Prog.run_pure, Except.ok.injEq]
        constructor
        · rintro rfl
          exact ⟨Nat.le_refl _, by omega, h0, fun b hb hlt => by omega⟩
        · rintro ⟨hac, _, _, hb⟩
          by_contra hne
          exact hb a (Nat.le_refl _) (by omega) h0
      · rw [if_neg h0, ih]
        constructor
        · rintro ⟨hac, hlt, hc, hb⟩
          refine ⟨by omega, by omega, hc, fun b hab hbc => ?_⟩
          rcases Nat.eq_or_lt_of_le hab with rfl | hab
          · exact h0
          · exact hb b hab hbc
        · rintro ⟨hac, hlt, hc, hb⟩
          have hne : a ≠ c := by rintro rfl; exact h0 hc
          exact ⟨by omega, by omega, hc, fun b hab hbc => hb b (by omega) hbc⟩

theorem run_findFreeCluster (start : Nat) : ((fs.findFreeCluster start).run d).1 = .ok c ↔
    max start 2 ≤ c ∧ c < fs.maxCluster ∧ fs.fatAt d c = 0 ∧ ∀ b, max start 2 ≤ b → b < c → fs.fatAt d b ≠ 0 := by
  rw [findFreeCluster, run_findFreeFrom]
  constructor
  · rintro ⟨h1, h2, h⟩
    exact ⟨h1, by omega, h⟩
  · rintro ⟨h1, h2, h⟩
    exact ⟨h1, by omega, h⟩

/-! ## What lies in the partition -/

/-- The number of sectors of the partition, as its boot sector declares it. -/
def totSec32 (boot : Sector) : Nat := leNat (boot.slice 32 4)

/-- The sectors of cluster `c` are sectors of the partition whose boot sector is block `p`. -/
def Inside (p : Nat) (boot : Sector) (c : Nat) : Prop :=
  (parsed p boot).clusterToLba c + (boot.nth 13).toNat ≤ p + totSec32 boot

/-- Whatever `find_free_cluster` returns on the card `d`, for the volume mounted from the card `d₀`, is in its partition. -/
def FindsInside (start : Nat) : Prop :=
  ∀ fs, (mount.run d₀).1 = .ok fs → ∀ c, ((fs.findFreeCluster start).run d).1 = .ok c →
    Inside fs.partitionStartLba.toNat (d₀ fs.partitionStartLba.toNat) c

/-- The volume is one of those that the card's partition entries lead to. -/
theorem findsInside_parsed (start : Nat) : FindsInside d d₀ start ↔ ∀ p, Accepts d₀ p →
    ∀ c, (((parsed p (d₀ p)).findFreeCluster start).run d).1 = .ok c → Inside p (d₀ p) c := by
  constructor
  · intro h p ha c hc
    have hin := h _ (mount_ok_iff.mpr ⟨p, ha, rfl⟩) c hc
    rwa [toNat_partitionStartLba_parsed ha.lt] at hin
  · intro h fs hfs c hc
    obtain ⟨p, ha, rfl⟩ := mount_ok_iff.mp hfs
    rw [toNat_partitionStartLba_parsed ha.lt]
    exact h p ha c hc

/-- A FAT entry for a cluster outside of the partition is zero only behind another zero entry. -/
theorem findsInside_iff (start : Nat) : FindsInside d d₀ start ↔ ∀ p, Accepts d₀ p →
    ∀ c, max start 2 ≤ c → c < (parsed p (d₀ p)).maxCluster → ¬ Inside p (d₀ p) c → (parsed p (d₀ p)).fatAt d c = 0 →
      ∃ b, max start 2 ≤ b ∧ b < c ∧ (parsed p (d₀ p)).fatAt d b = 0 := by
  rw [findsInside_parsed]
  refine forall₃_congr fun p _ c => ⟨fun h h1 h2 hout h0 => ?_, fun h hc => ?_⟩
  · by_contra hno
    exact hout (h ((run_findFreeCluster _ d start).mpr ⟨h1, h2, h0, fun b hb hlt hb0 => hno ⟨b, hb, hlt, hb0⟩⟩))
  · obtain ⟨h1, h2, h0, hfirst⟩ := (run_findFreeCluster _ d start).mp hc
    by_contra hout
    obtain ⟨b, hb, hlt, hb0⟩ := h h1 h2 hout h0
    exact hfirst b hb hlt hb0

theorem fatAt_zero (c : Nat) : fs.fatAt (fun _ => .fill 0) c = 0 := by
  have hzero : ∀ bs : List UInt8, (∀ b ∈ bs, b = 0) → leNat bs = 0 := by
    intro bs hbs
    rw [List.eq_replicate_of_mem hbs]
    induction bs.length with
    | zero => rfl
    | succ n ih => rw [List.replicate_succ, leNat, ih]; rfl
  rw [fatAt, hzero, Nat.zero_and]
  intro b hb
  have hfill : ((Arr.fill 0 : Sector)).toList = List.replicate 512 0 := List.ofFn_const 512 0
  rw [Arr.slice, hfill] at hb
  exact List.eq_of_mem_replicate (List.mem_of_mem_drop (List.mem_of_mem_take hb))

/-- The calls are safe with every content of the FAT exactly when the FAT has no entry for a cluster outside. -/
theorem findsInside_always_iff : (∀ d start, FindsInside d d₀ start) ↔
    ∀ p, Accepts d₀ p → ∀ c, 2 ≤ c → c < (parsed p (d₀ p)).maxCluster → Inside p (d₀ p) c := by
  simp only [findsInside_parsed]
  constructor
  · intro h p ha c h2 hlt
    -- on a card of zeros the scan stops where it starts
    have hmax : max c 2 = c := Nat.max_eq_left h2
    exact h (fun _ => .fill 0) c p ha c ((run_findFreeCluster _ _ c).mpr
      ⟨Nat.le_of_eq hmax, hlt, fatAt_zero _ c, fun b hb hbc => by omega⟩)
  · intro h d start p ha c hc
    obtain ⟨h1, h2, _, _⟩ := (run_findFreeCluster _ d start).mp hc
    exact h p ha c (le_trans (le_max_right _ _) h1) h2

/-! ## A full volume

The partition takes blocks 1 to 3: the boot sector, a FAT of one sector, and the root directory in cluster 2. -/

def fullBoot : Sector :=
  ((((((((Arr.fill 0 : Sector).put 11 [0x00, 0x02]).put 13 [1]).put 14 [1, 0]).put 16 [1]).put 32 [3, 0, 0, 0]).put 36
    [1, 0, 0, 0]).put 44 [2, 0, 0, 0]).put 510 [0x55, 0xAA]

/-- Block 4 is behind the partition. -/
def fullCard : Disk := fun lba =>
  if lba = 0 then mbrSector
  else if lba = 1 then fullBoot
  else if lba = 2 then (Arr.fill 0).put 8 [0xFF, 0xFF, 0xFF, 0x0F]
  else if lba = 4 then .fill 0xFF
  else .fill 0

def fullFs : Fat32 where
  partitionStartLba := 1
  sectorsPerCluster := 1
  reservedSectors := 1
  numFats := 1
  fatSizeSectors := 1
  rootCluster := 2

set_option maxRecDepth 8000 in
/-- A new file gets a cluster behind the partition, and `write_file` overwrites the block there. -/
theorem not_findsInside_fullCard : (mount.run fullCard).1 = .ok fullFs ∧ ((fullFs.findFreeCluster 2).run fullCard).1 = .ok 3 ∧
    ¬ FindsInside fullCard fullCard 2 ∧ ((fullFs.writeFile fileA []).run fullCard).1 = .ok () ∧
      ((fullFs.writeFile fileA []).run fullCard).2 4 = .fill 0 := by
  have hmount : (mount.run fullCard).1 = .ok fullFs := by rfl
  have hfind : ((fullFs.findFreeCluster 2).run fullCard).1 = .ok 3 := by rfl
  refine ⟨hmount, hfind, fun h => ?_, by decide +kernel, by decide +kernel⟩
  have hin := h _ hmount 3 hfind
  rw [Inside] at hin
  revert hin
  decide

end Fat32

end Ferro
