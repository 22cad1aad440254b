import Ferro.Base.Patch
import Ferro.Boot.Pe
import Ferro.Memory.Lemmas.Alloc
import Mathlib.Data.UInt

/-!
# The image in memory

The memory from the load base on, as a function of the RVA. Copying a section patches it.
-/

namespace Ferro

namespace Mem

variable {m : Mem} {base : UInt64} {bytes : List UInt8} {r t len : Nat}

/-- The memory from `base` on. -/
def view (m : Mem) (base : UInt64) : Nat → UInt8 := fun r => m (base + .ofNat r)

theorem view_sub (m : Mem) (base x : UInt64) : m.view base (x - base).toNat = m x := by
  rw [view, UInt64.ofNat_toNat, add_sub_cancel]

theorem toNat_ofNat_sub (hr : r < 2 ^ 64) (ht : t < 2 ^ 64) :
    (UInt64.ofNat r - UInt64.ofNat t).toNat = if t ≤ r then r - t else 2 ^ 64 + r - t := by
  rw [UInt64.toNat_sub, UInt64.toNat_ofNat', UInt64.toNat_ofNat', Nat.mod_eq_of_lt hr, Nat.mod_eq_of_lt ht]
  split <;> omega

theorem view_write (hr : r < 2 ^ 64) (ht : t + bytes.length ≤ 2 ^ 64) :
    (m.write (base + .ofNat t) bytes).view base r = Patch.apply (m.view base) ⟨t, bytes⟩ r := by
  have hsub : base + UInt64.ofNat r - (base + UInt64.ofNat t) = UInt64.ofNat r - UInt64.ofNat t := by
    rw [add_sub_add_left_eq_sub]
  have hdef : (m.write (base + .ofNat t) bytes).view base r =
      bytes.getD (UInt64.ofNat r - UInt64.ofNat t).toNat (m.view base r) := by
    rw [view, write, hsub, view]
  rw [hdef]
  by_cases hlen : bytes.length = 0
  · rw [List.length_eq_zero_iff.mp hlen]
    simp [Patch.apply]
  · rw [toNat_ofNat_sub hr (by omega), Patch.apply]
    split
    · rfl
    · rw [List.getD_eq_default _ _ (by omega)]

theorem view_fill {n : UInt64} {v : UInt8} (hr : r < n.toNat) : (m.fill base n v).view base r = v := by
  have hlt : UInt64.ofNat r < n := by
    have hn := n.toNat_lt
    rw [UInt64.lt_iff_toNat_lt, UInt64.toNat_ofNat', Nat.mod_eq_of_lt (by omega)]
    exact hr
  rw [view, fill, add_sub_cancel_left, if_pos hlt]

theorem readLe_view (m : Mem) (base : UInt64) (r len : Nat) :
    m.readLe (base + .ofNat r) len = wordAt (m.view base) r len := by
  simp [readLe, wordAt, view, add_assoc, UInt64.ofNat_add]

/-- The `len` bytes from `addr` on. -/
def slice (m : Mem) (addr : UInt64) (len : Nat) : List UInt8 := (List.range len).map fun i => m (addr + .ofNat i)

theorem slice_write (h : r + len ≤ bytes.length) (hl : bytes.length ≤ 2 ^ 64) :
    (m.write base bytes).slice (base + .ofNat r) len = (bytes.drop r).take len := by
  apply List.ext_getElem
  · simp [slice]; omega
  · intro i hi _
    have hi : i < len := by simpa [slice] using hi
    have hview : (m.write (base + .ofNat 0) bytes).view base (r + i) = Patch.apply (m.view base) ⟨0, bytes⟩ (r + i) :=
      view_write (by omega) (by omega)
    have hzero : base + .ofNat 0 = base := UInt64.add_zero base
    have hcov : Patch.Covers ⟨0, bytes⟩ (r + i) := ⟨Nat.zero_le _, by simp; omega⟩
    rw [hzero, Patch.apply_of_covers hcov 0, List.getD_eq_getElem _ _ (by simp; omega)] at hview
    simp only [slice, List.getElem_map, List.getElem_range, List.getElem_take, List.getElem_drop, UInt64.add_assoc,
      ← UInt64.ofNat_add]
    exact hview

end Mem

namespace Pe

variable {data : List UInt8} {m : Mem} {base : UInt64} {off n i s r : Nat}

/-! ## Numbers read from the file -/

theorem length_getBytes {len : Nat} {bs : List UInt8} (h : getBytes data off len = some bs) : bs.length = len := by
  unfold getBytes at h
  split at h
  · cases h
    rw [List.length_take, List.length_drop]
    omega
  · cases h

theorem ru_lt {len x : Nat} (h : ru len data off = .ok x) : x < 256 ^ len := by
  unfold ru at h
  split at h
  case h_1 bs hbs =>
    cases h
    have hlt := leNat_lt bs
    rwa [length_getBytes hbs] at hlt
  case h_2 => cases h

theorem bind_eq_ok {ε α β : Type} {x : Except ε α} {f : α → Except ε β} {b : β} (h : x >>= f = .ok b) :
    ∃ a, x = .ok a ∧ f a = .ok b := by
  cases x with
  | error e => cases h
  | ok a => exact ⟨a, rfl, h⟩

theorem sectionAt_lt {src : List UInt8} {va : UInt64} (h : sectionAt data s = .ok (src, va)) :
    va.toNat < 2 ^ 32 ∧ src.length < 2 ^ 32 := by
  obtain ⟨virtualSize, hsize, h⟩ := bind_eq_ok h
  obtain ⟨virtualAddress, hva, h⟩ := bind_eq_ok h
  obtain ⟨sizeOfRawData, _, h⟩ := bind_eq_ok h
  obtain ⟨pointerToRawData, _, h⟩ := bind_eq_ok h
  have hsize := ru_lt hsize
  have hva := ru_lt hva
  dsimp only at h
  split at h
  case h_1 bs hbs =>
    cases h
    have hlen := length_getBytes hbs
    rw [UInt64.toNat_ofNat']
    omega
  case h_2 => cases h

/-! ## Copying the sections -/

/-- The sections before the first one that cannot be read. -/
def readable (data : List UInt8) (sectionsOff : Nat) : (n i : Nat) → List (Patch UInt8)
  | 0, _ => []
  | n + 1, i =>
    match sectionAt data (sectionsOff + i * 40) with
    | .error _ => []
    | .ok (src, virtualAddress) => ⟨virtualAddress.toNat, src⟩ :: readable data sectionsOff n (i + 1)

theorem readable_lt {p : Patch UInt8} (hp : p ∈ readable data off n i) :
    p.start < 2 ^ 32 ∧ p.values.length < 2 ^ 32 := by
  induction n generalizing i with
  | zero => cases hp
  | succ n ih =>
      rw [readable] at hp
      cases hs : sectionAt data (off + i * 40) with
      | error e => rw [hs] at hp; cases hp
      | ok sec =>
          rw [hs] at hp
          rcases List.mem_cons.mp hp with rfl | hp
          · exact sectionAt_lt hs
          · exact ih hp

/-- Copying patches the memory with the sections that can be read. -/
theorem view_copySections (hr : r < 2 ^ 64) :
    (copySections data off base n i m).2.view base r = Patch.applyAll (m.view base) (readable data off n i) r := by
  induction n generalizing i m with
  | zero => rfl
  | succ n ih =>
      rw [copySections, readable]
      cases hs : sectionAt data (off + i * 40) with
      | error e => rfl
      | ok sec =>
          obtain ⟨src, va⟩ := sec
          obtain ⟨hva, hlen⟩ := sectionAt_lt hs
          have hwrite : (m.write (base + va) src).view base r = Patch.apply (m.view base) ⟨va.toNat, src⟩ r := by
            rw [← Mem.view_write hr (by omega), UInt64.ofNat_toNat]
          dsimp only
          rw [ih, Patch.applyAll_cons]
          exact Patch.applyAll_congr_at hwrite

theorem copySections_ok :
    (copySections data off base n i m).1 = .ok () ↔ ∀ j < n, ∃ sec, sectionAt data (off + (i + j) * 40) = .ok sec := by
  induction n generalizing i m with
  | zero => simp [copySections]
  | succ n ih =>
      rw [copySections]
      cases hs : sectionAt data (off + i * 40) with
      | error e =>
          simp only [reduceCtorEq, false_iff]
          intro h
          obtain ⟨sec, hsec⟩ := h 0 (Nat.succ_pos n)
          rw [Nat.add_zero, hs] at hsec
          cases hsec
      | ok sec =>
          dsimp only
          rw [ih]
          constructor
          · intro h j hj
            cases j with
            | zero => exact ⟨sec, hs⟩
            | succ j =>
                obtain ⟨sec, hsec⟩ := h j (Nat.lt_of_succ_lt_succ hj)
                exact ⟨sec, by rwa [← Nat.add_right_comm, Nat.add_assoc] at hsec⟩
          · intro h j hj
            obtain ⟨sec, hsec⟩ := h (j + 1) (Nat.succ_lt_succ hj)
            exact ⟨sec, by rwa [← Nat.add_right_comm, Nat.add_assoc]⟩

/-! ## The image -/

namespace Headers

def pages (h : Headers) : UInt64 := (h.sizeOfImage + 0xFFF) / 0x1000

/-- The bytes of the image: its pages. -/
def imageBytes (h : Headers) : Nat := h.pages.toNat * 4096

def sections (h : Headers) (data : List UInt8) : List (Patch UInt8) := readable data h.sectionsOff h.numberOfSections 0

end Headers

end Pe

end Ferro
