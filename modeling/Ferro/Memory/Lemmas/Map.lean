import Ferro.Base.Tiling
import Ferro.Memory.Lemmas.Alloc

/-!
# The regions of the memory map
-/

namespace Ferro

namespace EfiMemoryDescriptor

/-- The first address. -/
def start (d : EfiMemoryDescriptor) : Nat := d.physicalStart.toNat

/-- The first address behind. -/
def stop (d : EfiMemoryDescriptor) : Nat := d.physicalStart.toNat + d.numberOfPages.toNat * 4096

/-- The addresses described. -/
def range (d : EfiMemoryDescriptor) : Set Nat := Set.Ico d.start d.stop

end EfiMemoryDescriptor

namespace Memory

open EfiMemoryDescriptor

variable {image : Image} {bump fbBase fbSize x y : UInt64} {t : MemoryType} {d : EfiMemoryDescriptor}

/-- A boundary between regions. -/
def Aligned (x : UInt64) : Prop := 4096 ∣ x.toNat

instance (x : UInt64) : Decidable (Aligned x) := inferInstanceAs (Decidable (_ ∣ _))

theorem aligned_pageAlignUp (addr : UInt64) : Aligned (pageAlignUp addr) := by
  rw [Aligned, toNat_pageAlignUp]
  exact Nat.dvd_mul_left _ _

theorem stop_descriptor (hx : Aligned x) (hy : Aligned y) (h : x.toNat ≤ y.toNat) :
    (descriptor (x, y, t)).stop = y.toNat := by
  obtain ⟨j, hj⟩ := hx
  obtain ⟨k, hk⟩ := hy
  have hsub : (y - x).toNat = y.toNat - x.toNat := UInt64.toNat_sub_of_le _ _ h
  simp only [stop, descriptor, pageSize, UInt64.toNat_div, hsub, UInt64.reduceToNat]
  omega

theorem mem_region {r : UInt64 × UInt64 × MemoryType} (h : r ∈ region x y t) : r = (x, y, t) := by
  unfold region at h
  split at h
  · exact List.mem_singleton.mp h
  · cases h

theorem lt_of_mem_region {r : UInt64 × UInt64 × MemoryType} (h : r ∈ region x y t) : x.toNat < y.toNat := by
  unfold region at h
  split at h
  · assumption
  · cases h

theorem region_of_lt (h : x.toNat < y.toNat) : region x y t = [(x, y, t)] := if_pos h

theorem tiles_region (hx : Aligned x) (hy : Aligned y) (h : x.toNat ≤ y.toNat) :
    Tiles start stop x.toNat ((region x y t).map descriptor) y.toNat := by
  by_cases hlt : x.toNat < y.toNat
  · rw [region_of_lt hlt]
    have hstop := stop_descriptor (t := t) hx hy h
    exact ⟨rfl, hstop ▸ hlt, hstop⟩
  · have hr : region x y t = [] := if_neg hlt
    rw [hr]
    exact Nat.le_antisymm h (Nat.le_of_not_lt hlt)

/-- The framebuffer lies between the firmware and the end of RAM. -/
structure Placed (image : Image) (fbBase fbSize : UInt64) : Prop where
  aligned : Aligned fbBase
  above : firstPage image ≤ fbBase.toNat
  below : (fbBase.toNat + fbSize.toNat + 4095) / 4096 * 4096 ≤ 0x3F000000

/-- The page-rounded end of the framebuffer. -/
def fbEnd (fbBase fbSize : UInt64) : Nat := (fbBase.toNat + fbSize.toNat + 4095) / 4096 * 4096

theorem Placed.toNat_end (h : Placed image fbBase fbSize) :
    (pageAlignUp (fbBase + fbSize)).toNat = fbEnd fbBase fbSize := by
  have hb := h.below
  have hsum : (fbBase + fbSize).toNat = fbBase.toNat + fbSize.toNat := by
    rw [UInt64.toNat_add, Nat.mod_eq_of_lt (by omega)]
  rw [pageAlignUp_eq (by omega), hsum, fbEnd]

theorem Placed.le_end (h : Placed image fbBase fbSize) : fbBase.toNat ≤ fbEnd fbBase fbSize := by
  obtain ⟨k, hk⟩ := h.aligned
  rw [fbEnd]
  omega

theorem tiles_regions (hp : Placed image fbBase fbSize) (hb : Aligned bump) (hlo : firstPage image ≤ bump.toNat)
    (hfb : bump.toNat ≤ fbBase.toNat) :
    Tiles start stop 0 ((regions image bump fbBase fbSize).map descriptor) 0x80000000 := by
  have hend := hp.toNat_end
  have hle := hp.le_end
  have hlim : fbEnd fbBase fbSize ≤ 0x3F000000 := hp.below
  have hfw := aligned_pageAlignUp image.firmwareEnd
  have hfe := aligned_pageAlignUp (fbBase + fbSize)
  have hstart := start_le_firstPage image
  have h₁ := tiles_region (x := 0) (y := firmwareStart) (t := .conventionalMemory) (by decide) (by decide) (by decide)
  have h₂ := tiles_region (x := firmwareStart) (t := .bootServicesCode) (by decide) hfw hstart
  have h₃ := tiles_region (t := .bootServicesData) hfw hb hlo
  have h₄ := tiles_region (t := .conventionalMemory) hb hp.aligned hfb
  have h₅ := tiles_region (t := .memoryMappedIo) hp.aligned hfe (hend ▸ hle)
  have h₆ := tiles_region (y := ramLimit) (t := .conventionalMemory) hfe (by decide) (hend ▸ hlim)
  have h₇ := tiles_region (x := ramLimit) (y := localBase) (t := .memoryMappedIo) (by decide) (by decide) (by decide)
  have h₈ := tiles_region (x := localBase) (y := localBase + 0x40000000) (t := .memoryMappedIo) (by decide) (by decide)
    (by decide)
  simp only [regions, List.map_append]
  exact ((((((h₁.append h₂).append h₃).append h₄).append h₅).append h₆).append h₇).append h₈

theorem conventional_regions (hp : Placed image fbBase fbSize) (hb : Aligned bump)
    (hfb : bump.toNat ≤ fbBase.toNat) (hd : d ∈ (regions image bump fbBase fbSize).map descriptor)
    (hty : d.ty = .conventionalMemory) :
    d.range = Set.Ico 0 0x80000 ∨ d.range = Set.Ico bump.toNat fbBase.toNat ∨
      d.range = Set.Ico (fbEnd fbBase fbSize) 0x3F000000 := by
  obtain ⟨r, hr, rfl⟩ := List.mem_map.mp hd
  have hlim : fbEnd fbBase fbSize ≤ 0x3F000000 := hp.below
  simp only [regions, List.mem_append] at hr
  rcases hr with ((((((hr | hr) | hr) | hr) | hr) | hr) | hr) | hr <;> obtain rfl := mem_region hr
  · exact Or.inl rfl
  · cases hty
  · cases hty
  · exact Or.inr (Or.inl (congrArg (Set.Ico _) (stop_descriptor hb hp.aligned hfb)))
  · cases hty
  · right; right
    rw [range, stop_descriptor (aligned_pageAlignUp _) (by decide) (by rw [hp.toNat_end]; exact hlim)]
    exact congrArg (Set.Ico · _) hp.toNat_end
  · cases hty
  · cases hty

/-- A bump pointer in or behind the framebuffer makes two regions overlap. -/
theorem overlapping (hp : Placed image fbBase fbSize) (hb : Aligned bump) (hlim : bump.toNat ≤ 0x3F000000)
    (hfb : fbBase.toNat < bump.toNat) :
    ¬ ((regions image bump fbBase fbSize).map descriptor).Pairwise fun d d' => Disjoint d.range d'.range := by
  intro h
  have hend := hp.toNat_end
  have hdata : region (pageAlignUp image.firmwareEnd) bump .bootServicesData = [_] :=
    region_of_lt (hp.above.trans_lt hfb)
  have hin : fbBase.toNat ∈ (descriptor (pageAlignUp image.firmwareEnd, bump, .bootServicesData)).range := by
    refine ⟨hp.above, ?_⟩
    rw [stop_descriptor (aligned_pageAlignUp _) hb (hp.above.trans hfb.le)]
    exact hfb
  simp only [regions, hdata, List.map_append, List.map_cons, List.append_assoc, List.cons_append,
    List.nil_append, List.pairwise_append, List.pairwise_cons] at h
  have hlater := h.2.1.2.1.1
  by_cases hz : fbBase.toNat < fbEnd fbBase fbSize
  · have hfbr : region fbBase (pageAlignUp (fbBase + fbSize)) .memoryMappedIo = [_] := region_of_lt (hend ▸ hz)
    refine Set.disjoint_left.mp (hlater (descriptor (fbBase, pageAlignUp (fbBase + fbSize), .memoryMappedIo)) ?_)
      hin ⟨le_rfl, ?_⟩
    · simp [hfbr]
    · rw [stop_descriptor hp.aligned (aligned_pageAlignUp _) (by omega), hend]
      exact hz
  · have heq : (pageAlignUp (fbBase + fbSize)).toNat = fbBase.toNat := by have := hp.le_end; omega
    have hrest : region (pageAlignUp (fbBase + fbSize)) ramLimit .conventionalMemory = [_] :=
      region_of_lt (heq ▸ hfb.trans_le hlim)
    refine Set.disjoint_left.mp
      (hlater (descriptor (pageAlignUp (fbBase + fbSize), ramLimit, .conventionalMemory)) ?_) hin ⟨heq.le, ?_⟩
    · simp [hrest]
    · rw [stop_descriptor (aligned_pageAlignUp _) (by decide) (heq ▸ (hfb.trans_le hlim).le)]
      exact hfb.trans_le hlim

end Memory

end Ferro
