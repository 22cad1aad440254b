import Ferro.Fat32.Lemmas.Names
import Ferro.Files.Spec

/-!
# The open-file table

What holds of every slot, and what a slot is as a byte file.
-/

namespace Ferro

/-! ## Names -/

/-- An ASCII character of a path. -/
def PathByte (b : UInt8) : Prop := b ≠ 0 ∧ b < 128

/-- The characters of a path are its units up to the first zero. -/
theorem char16Loop_eq {path : Ptr16} {n i : Nat} {out raw : List UInt8} (h : char16Loop path n i out = some raw) :
    ∃ m, path (i + m) = 0 ∧ (∀ j < m, path (i + j) ≠ 0) ∧
      raw = out ++ (List.range m).map fun j => if path (i + j) < 128 then (path (i + j)).toUInt8 else 0x3F := by
  induction n generalizing i out with
  | zero =>
      rw [char16Loop] at h
      split at h
      · rename_i hc
        cases h
        exact ⟨0, hc, fun _ hj => absurd hj (Nat.not_lt_zero _), by simp⟩
      · cases h
  | succ n ih =>
      rw [char16Loop] at h
      split at h
      · rename_i hc
        cases h
        exact ⟨0, hc, fun _ hj => absurd hj (Nat.not_lt_zero _), by simp⟩
      · rename_i hc
        obtain ⟨m, hend, hne, hraw⟩ := ih h
        refine ⟨m + 1, by rw [← hend]; congr 1; omega, fun j hj => ?_, ?_⟩
        · cases j with
          | zero => exact hc
          | succ j => rw [← Nat.add_assoc, Nat.add_right_comm]; exact hne j (Nat.lt_of_succ_lt_succ hj)
        · rw [hraw, List.range_succ_eq_map, List.map_cons, List.map_map, List.append_assoc]
          simp only [Function.comp_def, Nat.add_zero, List.cons_append, List.nil_append, Nat.succ_eq_add_one,
            Nat.add_assoc, Nat.add_comm 1]

theorem toUInt8_of_lt {c : UInt16} (h : c < 128) : c.toUInt8.toNat = c.toNat := by
  have hlt : c.toNat < 128 := h
  rw [UInt16.toNat_toUInt8]
  omega

theorem char16PathToAscii_bytes {path : Ptr16} {raw : List UInt8} (h : char16PathToAscii path = some raw) :
    ∀ b ∈ raw, PathByte b := by
  obtain ⟨m, _, hne, rfl⟩ := char16Loop_eq h
  intro b hb
  obtain ⟨j, hj, rfl⟩ := List.mem_map.mp (List.nil_append _ ▸ hb)
  have hc := hne j (List.mem_range.mp hj)
  split
  · rename_i hlt
    refine ⟨fun h0 => hc (UInt16.toNat_inj.mp ?_), UInt8.lt_iff_toNat_lt.mpr ?_⟩
    · rw [← toUInt8_of_lt hlt, h0]; rfl
    · rw [toUInt8_of_lt hlt]; exact hlt
  · exact ⟨by decide, by decide⟩

theorem startOf_bytes (fs : Fat32) (dir : Nat) {raw : List UInt8} (h : ∀ b ∈ raw, PathByte b) :
    ∀ b ∈ (startOf fs dir raw).2, PathByte b := by
  intro b hb
  unfold startOf at hb
  split at hb
  · exact h b (List.mem_of_mem_tail hb)
  · exact h b hb

theorem splitDot_bytes {component : List UInt8} (hb : ∀ b ∈ component, PathByte b) :
    ∀ b ∈ (splitDot component).1, PathByte b := by
  intro b hin
  unfold splitDot at hin
  split at hin
  · exact hb b (List.mem_of_mem_take hin)
  · exact hb b hin

/-- The name of an ASCII component does not mark its entry as unused or deleted. -/
theorem to83_proper {component : List UInt8} {name : Name} (h : to83 component = some name)
    (hb : ∀ b ∈ component, PathByte b) : name.Proper := by
  obtain ⟨x, hx, hfirst⟩ := to83_first h
  obtain ⟨h0, h128⟩ := splitDot_bytes hb x hx
  have hne : x.toNat ≠ 0 := fun h => h0 (UInt8.toNat_inj.mp h)
  have hlt : x.toNat < 128 := h128
  have hup := toAsciiUppercase_toNat x
  refine ⟨fun h => ?_, fun h => ?_⟩
  · rw [← hfirst, h] at hup
    simp at hup
    split at hup <;> omega
  · rw [← hfirst, h] at hup
    simp at hup
    split at hup <;> omega

/-! ## One slot -/

namespace OpenFile

variable {f : OpenFile} {n : Nat} {data : List UInt8}

/-- The bytes of an open file. -/
def bytes (f : OpenFile) : List UInt8 := f.data.slice 0 f.len

/-- What holds of every slot. -/
structure Valid (f : OpenFile) : Prop where
  len_le : f.len ≤ 65536
  pos_le : f.pos ≤ 65536
  zeros : ∀ i < 65536, f.len ≤ i → f.data.nth i = 0
  proper : f.forWrite → f.name83.Proper

/-- A slot with a file just opened. -/
def fresh (name83 : Name) (buf : List UInt8) (forWrite : Bool) : OpenFile :=
  { emptyFile with inUse := true, name83, data := emptyFile.data.put 0 buf, len := buf.length, forWrite }

/-- A slot with a directory just opened. -/
def freshDir (dirCluster : Nat) (dirEntries : List (Name × Nat)) : OpenFile :=
  { emptyFile with inUse := true, dirCluster := some dirCluster, dirEntries }

theorem length_bytes (h : f.Valid) : f.bytes.length = f.len :=
  Arr.length_slice _ (by have := h.len_le; simpa [maxFileBytes] using this)

theorem valid_empty : emptyFile.Valid where
  len_le := Nat.zero_le _
  pos_le := Nat.zero_le _
  zeros _ hi _ := Arr.nth_fill hi
  proper h := by cases h

theorem valid_freshDir (dirCluster : Nat) (dirEntries : List (Name × Nat)) : (freshDir dirCluster dirEntries).Valid :=
  ⟨valid_empty.len_le, valid_empty.pos_le, valid_empty.zeros, valid_empty.proper⟩

theorem valid_fresh {name83 : Name} {buf : List UInt8} {forWrite : Bool} (hlen : buf.length ≤ 65536)
    (hp : forWrite → name83.Proper) : (fresh name83 buf forWrite).Valid where
  len_le := hlen
  pos_le := Nat.zero_le _
  zeros i hi hle := by
    have hle' : buf.length ≤ i := hle
    exact (Arr.nth_put_of_not_mem _ _ (Or.inr (by omega))).trans (Arr.nth_fill hi)
  proper := hp

theorem bytes_fresh {name83 : Name} {buf : List UInt8} {forWrite : Bool} (hlen : buf.length ≤ 65536) :
    (fresh name83 buf forWrite).bytes = buf :=
  Arr.slice_put_same _ 0 buf (by simpa [maxFileBytes] using hlen)

theorem slice_pos (h : f.Valid) (n : Nat) :
    f.data.slice f.pos (min (f.len - f.pos) n) = (f.bytes.drop f.pos).take n := by
  have hlen := h.len_le
  by_cases hp : f.pos ≤ f.len
  · rw [bytes, Arr.slice, Arr.slice, List.drop_zero, List.drop_take, List.take_take, Nat.min_comm]
  · have hb : f.bytes.drop f.pos = [] := List.drop_eq_nil_of_le (by rw [length_bytes h]; omega)
    have h0 : f.len - f.pos = 0 := by omega
    rw [hb, h0, Nat.zero_min, Arr.slice, List.take_zero, List.take_nil]

theorem valid_write (h : f.Valid) (hle : f.pos + data.length ≤ 65536) : Valid { f with
    data := f.data.put f.pos data
    pos := f.pos + data.length
    len := max f.len (f.pos + data.length)
    dirty := true } where
  len_le := Nat.max_le.mpr ⟨h.len_le, hle⟩
  pos_le := hle
  zeros i hi hlen := by
    have hmax : max f.len (f.pos + data.length) ≤ i := hlen
    have hlen' := Nat.max_le.mp hmax
    exact (Arr.nth_put_of_not_mem _ _ (Or.inr hlen'.2)).trans (h.zeros i hi hlen'.1)
  proper := h.proper

theorem bytes_write (h : f.Valid) (hle : f.pos + data.length ≤ 65536) :
    (f.data.put f.pos data).slice 0 (max f.len (f.pos + data.length)) = splice 0 f.bytes f.pos data :=
  Arr.slice_put_eq_splice h.len_le h.zeros hle

end OpenFile

end Ferro
