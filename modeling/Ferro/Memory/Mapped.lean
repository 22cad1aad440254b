import Ferro.Memory.Mmu
import Ferro.Memory.Theorems

/-!
# The memory map and the page tables

What the memory map calls memory is mapped as memory, at its own address. What it calls memory-mapped is the
framebuffer, which is RAM, or is mapped as a device.
-/

namespace Ferro

namespace Memory

open Mmu Translation EfiMemoryDescriptor

variable {image : Image} {handed : List (UInt64 × UInt64)} {a : Allocator} {fbBase fbSize : UInt64} {outLen : Nat}
  {map : List EfiMemoryDescriptor} {d : EfiMemoryDescriptor} {t : Tables} {mem : Nat → UInt64} {sctlr : UInt64}

theorem ty_descriptor {start stop : UInt64} {ty : MemoryType} (h : ty ≠ .memoryMappedIo) :
    (descriptor (start, stop, ty)).ty ≠ .memoryMappedIo :=
  h

/-- Where a region of the map can be. -/
theorem region_placed (hp : Placed image fbBase fbSize) (hb : Bounded image handed a)
    (hd : d ∈ (regions image a.nextFreePage fbBase fbSize).map descriptor) :
    (d.ty ≠ .memoryMappedIo ∧ d.stop ≤ 0x3F000000) ∨
      (d.ty = .memoryMappedIo ∧ d.range = Set.Ico fbBase.toNat (fbEnd fbBase fbSize)) ∨
      d.ty = .memoryMappedIo ∧ 0x3F000000 ≤ d.start ∧ d.stop ≤ 0x80000000 := by
  obtain ⟨r, hr, rfl⟩ := List.mem_map.mp hd
  have hend := hp.toNat_end
  have hle := hp.le_end
  have hlim : fbEnd fbBase fbSize ≤ 0x3F000000 := hp.below
  have hfirst := start_le_firstPage image
  have hlimit := firstPage_le image
  have hfw := aligned_pageAlignUp image.firmwareEnd
  have hfe := aligned_pageAlignUp (fbBase + fbSize)
  simp only [regions, List.mem_append] at hr
  rcases hr with ((((((hr | hr) | hr) | hr) | hr) | hr) | hr) | hr <;> have hlt := lt_of_mem_region hr <;>
    obtain rfl := mem_region hr
  · exact .inl ⟨ty_descriptor (by decide), by decide⟩
  · exact .inl ⟨ty_descriptor (by decide), (stop_descriptor (x := firmwareStart) (by decide) hfw hfirst).trans_le hlimit⟩
  · exact .inl ⟨ty_descriptor (by decide), (stop_descriptor hfw hb.aligned hb.above).trans_le hb.below⟩
  · refine .inl ⟨ty_descriptor (by decide), (stop_descriptor hb.aligned hp.aligned hlt.le).trans_le (by omega)⟩
  · refine .inr (.inl ⟨rfl, ?_⟩)
    rw [range, stop_descriptor hp.aligned hfe (by rw [hend]; exact hle), hend]
    rfl
  · exact .inl ⟨ty_descriptor (by decide), (stop_descriptor hfe (by decide) (by rw [hend]; exact hlim)).trans_le le_rfl⟩
  · exact .inr (.inr ⟨rfl, le_rfl, by decide⟩)
  · exact .inr (.inr ⟨rfl, by decide, by decide⟩)

theorem region_cover {rs : List (UInt64 × UInt64 × MemoryType)} {p : Nat} (x y : UInt64) (ty : MemoryType)
    (hsub : region x y ty ⊆ rs) (hx : Aligned x) (hy : Aligned y) (hle : x.toNat ≤ p) (hlt : p < y.toNat) :
    ∃ d ∈ rs.map descriptor, p ∈ d.range := by
  have hmem : (x, y, ty) ∈ region x y ty := by rw [region_of_lt (by omega)]; exact List.mem_singleton_self _
  refine ⟨descriptor (x, y, ty), List.mem_map.mpr ⟨_, hsub hmem, rfl⟩, hle, ?_⟩
  rwa [stop_descriptor hx hy (by omega)]

/-- The map leaves no gap, also when the bump pointer has passed the base of the framebuffer. -/
theorem regions_cover (hp : Placed image fbBase fbSize) (hb : Bounded image handed a) {p : Nat} (hlt : p < 0x80000000) :
    ∃ d ∈ (regions image a.nextFreePage fbBase fbSize).map descriptor, p ∈ d.range := by
  have hfw := aligned_pageAlignUp image.firmwareEnd
  have hfe := aligned_pageAlignUp (fbBase + fbSize)
  -- `p` lies in front of the first boundary behind it
  rcases Nat.lt_or_ge p firmwareStart.toNat with h0 | h0
  · exact region_cover 0 firmwareStart .conventionalMemory (fun r hr => by simp [regions, hr]) (by decide) (by decide)
      (Nat.zero_le p) h0
  rcases Nat.lt_or_ge p (pageAlignUp image.firmwareEnd).toNat with h1 | h1
  · exact region_cover firmwareStart _ .bootServicesCode (fun r hr => by simp [regions, hr]) (by decide) hfw h0 h1
  rcases Nat.lt_or_ge p a.nextFreePage.toNat with h2 | h2
  · exact region_cover _ a.nextFreePage .bootServicesData (fun r hr => by simp [regions, hr]) hfw hb.aligned h1 h2
  rcases Nat.lt_or_ge p fbBase.toNat with h3 | h3
  · exact region_cover a.nextFreePage fbBase .conventionalMemory (fun r hr => by simp [regions, hr]) hb.aligned
      hp.aligned h2 h3
  rcases Nat.lt_or_ge p (pageAlignUp (fbBase + fbSize)).toNat with h4 | h4
  · exact region_cover fbBase _ .memoryMappedIo (fun r hr => by simp [regions, hr]) hp.aligned hfe h3 h4
  rcases Nat.lt_or_ge p ramLimit.toNat with h5 | h5
  · exact region_cover _ ramLimit .conventionalMemory (fun r hr => by simp [regions, hr]) hfe (by decide) h4 h5
  rcases Nat.lt_or_ge p localBase.toNat with h6 | h6
  · exact region_cover ramLimit localBase .memoryMappedIo (fun r hr => by simp [regions, hr]) (by decide) (by decide) h5 h6
  · exact region_cover localBase (localBase + 0x40000000) .memoryMappedIo (fun r hr => by simp [regions, hr]) (by decide)
      (by decide) h6 hlt

end Memory

end Ferro
