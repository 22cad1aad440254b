import Ferro.Memory.Lemmas.Map

/-!
# The memory map is sound as long as the allocator stays below the framebuffer
-/

namespace Ferro

namespace Memory

variable {image : Image} {handed : List (UInt64 × UInt64)} {a : Allocator} {fbBase fbSize : UInt64} {outLen : Nat}
  {map : List EfiMemoryDescriptor}

/-- The allocator states reached by calls of `allocate_pages` that do not wrap around, with the base and the number of
pages of each call that succeeded. -/
inductive Reach (image : Image) : List (UInt64 × UInt64) → Allocator → Prop where
  | init : Reach image [] (Memory.init image)
  | alloc {handed a a' base count} (h : Reach image handed a)
      (hin : a.nextFreePage.toNat + count.toNat * 4096 < 2 ^ 64)
      (hs : allocatePages a count = some (base, a')) : Reach image ((base, count) :: handed) a'

/-- The addresses of the pages handed out by one call. -/
def pages (e : UInt64 × UInt64) : Set Nat := Set.Ico e.1.toNat (e.1.toNat + e.2.toNat * 4096)

/-- The descriptors describe every address below `0x80000000` once, in order, and neither a page handed out nor a
framebuffer page as free. -/
structure MapSound (handed : List (UInt64 × UInt64)) (fbBase fbSize : UInt64) (map : List EfiMemoryDescriptor) :
    Prop where
  sorted : map.Pairwise fun d d' => d.start < d'.start
  disjoint : map.Pairwise fun d d' => Disjoint d.range d'.range
  cover (p : Nat) : (∃ d ∈ map, p ∈ d.range) ↔ p ∈ Set.Ico 0 0x80000000
  handed : ∀ d ∈ map, d.ty = .conventionalMemory → ∀ e ∈ handed, Disjoint d.range (pages e)
  framebuffer : ∀ d ∈ map, d.ty = .conventionalMemory →
    Disjoint d.range (Set.Ico fbBase.toNat (fbEnd fbBase fbSize))

/-- The bump pointer is a page boundary behind everything handed out. -/
structure Bounded (image : Image) (handed : List (UInt64 × UInt64)) (a : Allocator) : Prop where
  aligned : Aligned a.nextFreePage
  above : firstPage image ≤ a.nextFreePage.toNat
  below : a.nextFreePage.toNat ≤ 0x3F000000
  inside : ∀ e ∈ handed, pages e ⊆ Set.Ico (firstPage image) a.nextFreePage.toNat

theorem Reach.bounded (h : Reach image handed a) : Bounded image handed a := by
  induction h with
  | init =>
      refine ⟨aligned_pageAlignUp _, le_rfl, firstPage_le image, fun e he => ?_⟩
      cases he
  | @alloc handed a a' base count h hin hs ih =>
      obtain ⟨rfl, hle, hnext, _⟩ := allocatePages_eq_some hs
      rw [bumped_eq hin] at hle hnext
      obtain ⟨k, hk⟩ := ih.aligned
      have habove := ih.above
      refine ⟨⟨k + count.toNat, by omega⟩, by omega, by omega, fun e he p hp => ?_⟩
      rcases List.mem_cons.mp he with rfl | he
      · exact ⟨habove.trans hp.1, hnext ▸ hp.2⟩
      · have hp := ih.inside e he hp
        exact ⟨hp.1, hp.2.trans_le (by omega)⟩

theorem mapSound (hb : Bounded image handed a) (hp : Placed image fbBase fbSize)
    (hfb : a.nextFreePage.toNat ≤ fbBase.toNat) :
    MapSound handed fbBase fbSize ((regions image a.nextFreePage fbBase fbSize).map descriptor) := by
  have ht := tiles_regions hp hb.aligned hb.above hfb
  have hstart := start_le_firstPage image
  have hend := hp.le_end
  have habove := hb.above
  refine ⟨ht.sorted, ht.disjoint, fun p => ht.cover, fun d hd hty e he => ?_, fun d hd hty => ?_⟩
  · refine Set.disjoint_left.mpr fun p hpd hpe => ?_
    have hin := hb.inside e he hpe
    rcases conventional_regions hp hb.aligned hfb hd hty with hr | hr | hr <;> rw [hr] at hpd <;>
      simp only [Set.mem_Ico] at hpd hin <;> omega
  · refine Set.disjoint_left.mpr fun p hpd hpf => ?_
    rcases conventional_regions hp hb.aligned hfb hd hty with hr | hr | hr <;> rw [hr] at hpd <;>
      simp only [Set.mem_Ico] at hpd hpf <;> omega

theorem getMemoryMap_eq (hm : getMemoryMap image a fbBase fbSize outLen = some map) :
    map = (regions image a.nextFreePage fbBase fbSize).map descriptor := by
  simp only [getMemoryMap] at hm
  split at hm
  · cases hm
  · exact (Option.some.inj hm).symm

/-- In every state that in-range allocations reach, the map is sound exactly while the bump pointer has not passed the
base of the framebuffer. -/
theorem getMemoryMap_sound_iff (h : Reach image handed a) (hp : Placed image fbBase fbSize)
    (hm : getMemoryMap image a fbBase fbSize outLen = some map) :
    MapSound handed fbBase fbSize map ↔ a.nextFreePage.toNat ≤ fbBase.toNat := by
  have hb := h.bounded
  rw [getMemoryMap_eq hm]
  constructor
  · intro hs
    by_contra hlt
    exact overlapping hp hb.aligned hb.below (Nat.lt_of_not_le hlt) hs.disjoint
  · intro hfb
    exact mapSound hb hp hfb

/-! ## A framebuffer right behind the firmware -/

/-- An image of one page. -/
def onePage : Image := ⟨0x81000, 0x80000, 0x80100, by decide, by decide⟩

theorem placed_onePage : Placed onePage 0x82000 0x1000 := ⟨by decide, by decide, by decide⟩

/-- One page is allocated, up to the framebuffer. -/
theorem getMemoryMap_sound_onePage : ∃ a map, Reach onePage [(0x81000, 1)] a ∧
    getMemoryMap onePage a 0x82000 0x1000 8 = some map ∧ MapSound [(0x81000, 1)] 0x82000 0x1000 map := by
  have h : Reach onePage [(0x81000, 1)] ⟨0x82000, 1⟩ := .alloc .init (by decide) (by decide)
  have hm : getMemoryMap onePage ⟨0x82000, 1⟩ 0x82000 0x1000 8 = some _ := rfl
  exact ⟨_, _, h, hm, (getMemoryMap_sound_iff h placed_onePage hm).mpr (by decide)⟩

/-- Two pages are allocated, and the second is the framebuffer. -/
theorem getMemoryMap_unsound_onePage : ∃ a map, Reach onePage [(0x81000, 2)] a ∧ Placed onePage 0x82000 0x1000 ∧
    getMemoryMap onePage a 0x82000 0x1000 8 = some map ∧ ¬ MapSound [(0x81000, 2)] 0x82000 0x1000 map := by
  have h : Reach onePage [(0x81000, 2)] ⟨0x83000, 1⟩ := .alloc .init (by decide) (by decide)
  refine ⟨_, _, h, placed_onePage, rfl, fun hs => ?_⟩
  exact overlapping placed_onePage (by decide) (by decide) (by decide) hs.disjoint

end Memory

end Ferro
