import Ferro.Base.Arr

/-!
# Words in memory

Lists of 32-bit words as little-endian bytes, and memory that is read word by word.
-/

namespace Ferro

namespace Words

def bytes (ws : List UInt32) : List UInt8 := ws.flatMap fun w => leBytes 4 w.toNat

/-- The word at `a`. -/
def read (mem : Nat → UInt8) (a : Nat) : UInt32 := UInt32.ofNat (leNat ((List.range 4).map fun i => mem (a + i)))

/-- `n` words from `a` on. -/
def readAll (mem : Nat → UInt8) (a n : Nat) : List UInt32 := (List.range n).map fun i => read mem (a + i * 4)

variable {mem : Nat → UInt8} {a : Nat} {ws : List UInt32}

@[simp] theorem length_bytes (ws : List UInt32) : (bytes ws).length = ws.length * 4 := by
  simp [bytes, List.length_flatMap]

theorem read_of_bytes {w : UInt32} (h : ∀ i < 4, (leBytes 4 w.toNat)[i]? = some (mem (a + i))) : read mem a = w := by
  have hbytes : (List.range 4).map (fun i => mem (a + i)) = leBytes 4 w.toNat := by
    refine List.ext_getElem (by simp) fun i hi _ => ?_
    have hi : i < 4 := by simpa using hi
    have hbyte := h i hi
    rw [List.getElem?_eq_getElem (by simpa using hi)] at hbyte
    simpa using (Option.some.inj hbyte).symm
  rw [read, hbytes, leNat_leBytes, Nat.mod_eq_of_lt (by have := w.toNat_lt; omega), UInt32.ofNat_toNat]

/-- A word of a list whose bytes are in memory. -/
theorem read_getElem (h : ∀ i v, (bytes ws)[i]? = some v → mem (a + i) = v) {i : Nat} (hi : i < ws.length) :
    read mem (a + i * 4) = ws[i] := by
  refine read_of_bytes fun j hj => ?_
  have hpiece := take_drop_flatMap (k := 4) ws (fun w : UInt32 => length_leBytes 4 w.toNat) hi
  have hbyte : (bytes ws)[i * 4 + j]? = (leBytes 4 ws[i].toNat)[j]? := by
    rw [← hpiece, List.getElem?_take_of_lt hj, List.getElem?_drop, bytes]
  have hlt : j < (leBytes 4 ws[i].toNat).length := by rw [length_leBytes]; exact hj
  rw [List.getElem?_eq_getElem hlt] at hbyte ⊢
  rw [← h _ _ hbyte, Nat.add_assoc]

theorem readAll_of_bytes (h : ∀ i v, (bytes ws)[i]? = some v → mem (a + i) = v) : readAll mem a ws.length = ws := by
  refine List.ext_getElem (by simp [readAll]) fun i hi hi' => ?_
  simp only [readAll, List.getElem_map, List.getElem_range]
  exact read_getElem h hi'

end Words

end Ferro

