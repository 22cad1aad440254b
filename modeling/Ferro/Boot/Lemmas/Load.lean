import Ferro.Boot.Lemmas.Reloc

/-!
# Loading a PE file

What `load` can do, stage by stage, and what the headers bound.
-/

namespace Ferro

namespace Pe

variable {data : List UInt8} {a a' : Allocator} {m m' : Mem} {h : Headers} {base : UInt64} {p : LoadedPe}

/-- The fields of the headers are 32-bit numbers, the number of sections is a 16-bit number. -/
structure Headers.Bounded (h : Headers) : Prop where
  numberOfSections : h.numberOfSections < 2 ^ 16
  addressOfEntryPoint : h.addressOfEntryPoint.toNat < 2 ^ 32
  sizeOfImage : h.sizeOfImage.toNat < 2 ^ 32
  dirRva : h.baseRelocDir.1 < 2 ^ 32
  dirSize : h.baseRelocDir.2 < 2 ^ 32

theorem toNat_ofNat_lt {n : Nat} (hn : n < 256 ^ 4) : (UInt64.ofNat n).toNat < 2 ^ 32 := by
  rw [UInt64.toNat_ofNat']
  omega

theorem parseHeaders_bounded (hp : parseHeaders data = .ok h) : h.Bounded := by
  unfold parseHeaders at hp
  split at hp
  · cases hp
  obtain ⟨pe, _, hp⟩ := bind_eq_ok hp
  split at hp
  · cases hp
  obtain ⟨machine, _, hp⟩ := bind_eq_ok hp
  split at hp
  · cases hp
  obtain ⟨numberOfSections, hsections, hp⟩ := bind_eq_ok hp
  obtain ⟨sizeOfOptionalHeader, _, hp⟩ := bind_eq_ok hp
  obtain ⟨magic, _, hp⟩ := bind_eq_ok hp
  split at hp
  · cases hp
  obtain ⟨addressOfEntryPoint, hentry, hp⟩ := bind_eq_ok hp
  obtain ⟨imageBase, _, hp⟩ := bind_eq_ok hp
  obtain ⟨sizeOfImage, hsize, hp⟩ := bind_eq_ok hp
  obtain ⟨numberOfRvaAndSizes, _, hp⟩ := bind_eq_ok hp
  have hentry := toNat_ofNat_lt (ru_lt hentry)
  have hsize := toNat_ofNat_lt (ru_lt hsize)
  dsimp only at hp
  split at hp
  · obtain ⟨rva, hrva, hp⟩ := bind_eq_ok hp
    obtain ⟨size, hdir, hp⟩ := bind_eq_ok hp
    cases hp
    exact ⟨ru_lt hsections, hentry, hsize, ru_lt hrva, ru_lt hdir⟩
  · cases hp
    exact ⟨ru_lt hsections, hentry, hsize, Nat.two_pow_pos 32, Nat.two_pow_pos 32⟩

namespace Headers

theorem Bounded.pages_eq (hb : h.Bounded) : h.pages.toNat = (h.sizeOfImage.toNat + 4095) / 4096 := by
  have := hb.sizeOfImage
  rw [pages, UInt64.toNat_div, UInt64.toNat_add]
  simp only [UInt64.reduceToNat]
  omega

theorem Bounded.imageBytes_le (hb : h.Bounded) : h.imageBytes ≤ 2 ^ 32 := by
  have := hb.sizeOfImage
  rw [imageBytes, hb.pages_eq]
  omega

theorem Bounded.toNat_imageSize (hb : h.Bounded) : (h.pages * 0x1000).toNat = h.imageBytes := by
  have := hb.imageBytes_le
  rw [UInt64.toNat_mul, imageBytes] at *
  simp only [UInt64.reduceToNat]
  omega

end Headers

/-! ## The stages of `load` -/

/-- The image after its pages are cleared and its sections copied. -/
def copied (data : List UInt8) (h : Headers) (base : UInt64) (m : Mem) : Except PeError Unit × Mem :=
  copySections data h.sectionsOff base h.numberOfSections 0 (m.fill base (h.pages * 0x1000) 0)

/-- The last stage: the relocations, where the image is not at its `ImageBase`. -/
def relocated (h : Headers) (base : UInt64) (m : Mem) : Except PeError Unit × Mem :=
  if base - h.imageBase ≠ 0 ∧ 0 < h.baseRelocDir.2 then
    applyRelocations h.baseRelocDir.1 h.baseRelocDir.2 base (base - h.imageBase) m
  else
    (.ok (), m)

theorem load_eq (data : List UInt8) (a : Allocator) (m : Mem) :
    load data a m =
      match parseHeaders data with
      | .error e => (.error e, a, m)
      | .ok h =>
        match Memory.allocatePages a h.pages with
        | none => (.error .allocationFailed, a, m)
        | some (base, a) =>
          match copied data h base m with
          | (.error e, m) => (.error e, a, m)
          | (.ok (), m) =>
            match relocated h base m with
            | (.error e, m) => (.error e, a, m)
            | (.ok (), m) => (.ok ⟨base, h.pages * 0x1000, base + h.addressOfEntryPoint⟩, a, m) := by
  unfold load
  cases parseHeaders data with
  | error e => rfl
  | ok h =>
      dsimp only
      rw [Headers.pages]
      cases Memory.allocatePages a ((h.sizeOfImage + 0xFFF) / 0x1000) with
      | none => rfl
      | some p =>
          obtain ⟨base, a⟩ := p
          dsimp only [copied, Headers.pages]
          cases copySections data h.sectionsOff base h.numberOfSections 0
              (m.fill base ((h.sizeOfImage + 0xFFF) / 0x1000 * 0x1000) 0) with
          | mk r m =>
              cases r with
              | error e => rfl
              | ok u =>
                  dsimp only
                  cases hx : relocated h base m with
                  | mk r m =>
                      unfold relocated at hx
                      rw [hx]
                      cases r <;> rfl

theorem load_ok (hl : load data a m = (.ok p, a', m')) :
    ∃ h base m₁, parseHeaders data = .ok h ∧ Memory.allocatePages a h.pages = some (base, a') ∧
      copied data h base m = (.ok (), m₁) ∧ relocated h base m₁ = (.ok (), m') ∧
      p = ⟨base, h.pages * 0x1000, base + h.addressOfEntryPoint⟩ := by
  rw [load_eq] at hl
  cases hp : parseHeaders data with
  | error e => rw [hp] at hl; cases hl
  | ok h =>
      rw [hp] at hl
      dsimp only at hl
      cases ha : Memory.allocatePages a h.pages with
      | none => rw [ha] at hl; cases hl
      | some x =>
          obtain ⟨base, a₁⟩ := x
          rw [ha] at hl
          dsimp only at hl
          cases hc : copied data h base m with
          | mk r m₁ =>
              rw [hc] at hl
              cases r with
              | error e => cases hl
              | ok u =>
                  dsimp only at hl
                  cases hr : relocated h base m₁ with
                  | mk r m₂ =>
                      rw [hr] at hl
                      cases r <;> cases hl
                      exact ⟨h, base, m₁, rfl, ha, hc, hr, rfl⟩

/-! ## The linked image -/

/-- The byte of the section that covers an RVA, or zero. -/
def Headers.linked (h : Headers) (data : List UInt8) (r : Nat) : UInt8 :=
  match (h.sections data).find? fun s => s.Covers r with
  | some s => s.values.getD (r - s.start) 0
  | none => 0

/-- After the sections are copied the image is as it was linked. -/
theorem holds_copied (hb : h.Bounded) (hd : (h.sections data).Pairwise Patch.Apart) :
    Holds base h.imageBytes (copied data h base m).2 (h.linked data) := by
  intro r hr
  have hle := hb.imageBytes_le
  have hzero : (m.fill base (h.pages * 0x1000) 0).view base r = 0 := Mem.view_fill (hb.toNat_imageSize ▸ hr)
  rw [copied, view_copySections (by omega), Headers.linked]
  cases hf : (h.sections data).find? fun s => s.Covers r with
  | none =>
      have hno : ∀ s ∈ h.sections data, ¬ s.Covers r := fun s hs => by
        simpa using List.find?_eq_none.mp hf s hs
      exact (Patch.applyAll_of_not_covers hno).trans hzero
  | some s =>
      have hcov : s.Covers r := by simpa using List.find?_some hf
      exact Patch.applyAll_of_mem hd (List.mem_of_find?_eq_some hf) hcov 0

end Pe

end Ferro
