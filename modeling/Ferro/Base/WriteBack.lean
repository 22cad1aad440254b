import Mathlib.Logic.Function.Basic

/-!
# Memory behind a write-back cache

The cache holds copies of lines of `size` bytes. A dirty copy is newer than memory. A device reads and writes memory
past the cache. To clean and invalidate a line is to write it back if it is dirty, and to drop it.
-/

namespace Ferro

/-- A line in the cache. The copy is given by address and only matters on the line. -/
structure CacheLine (β : Type) where
  dirty : Bool
  copy : Nat → β

/-- Memory, and the cache by line number. -/
structure WriteBack (β : Type) where
  ram : Nat → β
  line : Nat → Option (CacheLine β)

namespace WriteBack

variable {β : Type} (size : Nat)

/-- What the CPU reads. -/
def visible (m : WriteBack β) (a : Nat) : β :=
  match m.line (a / size) with
  | some l => l.copy a
  | none => m.ram a

/-- The CPU writes. -/
def store (m : WriteBack β) (a : Nat) (v : β) : WriteBack β :=
  { m with line := Function.update m.line (a / size) (some ⟨true, Function.update (m.visible size) a v⟩) }

/-- A device writes. -/
def deviceWrite (m : WriteBack β) (a : Nat) (vs : List β) : WriteBack β :=
  { m with ram := fun b => if b < a then m.ram b else (vs[b - a]?).getD (m.ram b) }

def cleanInvalidate (m : WriteBack β) (l : Nat) : WriteBack β :=
  match m.line l with
  | some ⟨true, copy⟩ => ⟨fun a => if a / size = l then copy a else m.ram a, Function.update m.line l none⟩
  | _ => { m with line := Function.update m.line l none }

/-- Cleans and invalidates `n` lines from `l` on. -/
def cleanInvalidateFrom (m : WriteBack β) : (n l : Nat) → WriteBack β
  | 0, _ => m
  | n + 1, l => cleanInvalidateFrom (m.cleanInvalidate size l) n (l + 1)

/-- What the CPU would read if the line were cleaned and invalidated. -/
def settled (m : WriteBack β) (a : Nat) : β :=
  match m.line (a / size) with
  | some ⟨true, copy⟩ => copy a
  | _ => m.ram a

variable {size} {m : WriteBack β} {a b l n : Nat} {vs : List β}

theorem settled_of_dirty {copy : Nat → β} (h : m.line (a / size) = some ⟨true, copy⟩) : m.settled size a = copy a := by
  rw [settled, h]

theorem settled_of_not_dirty (h : ∀ copy, m.line (a / size) ≠ some ⟨true, copy⟩) : m.settled size a = m.ram a := by
  rw [settled]
  split
  · next copy hline => exact absurd hline (h copy)
  · rfl

theorem visible_cleanInvalidate : (m.cleanInvalidate size l).visible size a =
    if a / size = l then m.settled size a else m.visible size a := by
  by_cases h : a / size = l
  · subst h
    rw [if_pos rfl, cleanInvalidate, settled]
    split <;> simp [visible]
  · rw [if_neg h, cleanInvalidate]
    split <;> simp [visible, h]

theorem settled_cleanInvalidate (h : a / size ≠ l) : (m.cleanInvalidate size l).settled size a = m.settled size a := by
  rw [cleanInvalidate]
  split <;> simp [settled, h]

theorem visible_cleanInvalidateFrom : (m.cleanInvalidateFrom size n l).visible size a =
    if l ≤ a / size ∧ a / size < l + n then m.settled size a else m.visible size a := by
  induction n generalizing m l with
  | zero => rw [cleanInvalidateFrom, if_neg (by omega)]
  | succ n ih =>
      rw [cleanInvalidateFrom, ih]
      by_cases hl : a / size = l
      · rw [if_neg (by omega), visible_cleanInvalidate, if_pos hl, if_pos (by omega)]
      · rw [settled_cleanInvalidate hl, visible_cleanInvalidate, if_neg hl]
        refine if_congr ?_ rfl rfl
        omega

@[simp] theorem line_deviceWrite : (m.deviceWrite b vs).line = m.line := rfl

theorem ram_deviceWrite_of_getElem? {i : Nat} {v : β} (h : vs[i]? = some v) : (m.deviceWrite b vs).ram (b + i) = v := by
  rw [deviceWrite]
  simp only [Nat.not_lt.mpr (Nat.le_add_right b i), if_false, Nat.add_sub_cancel_left, h, Option.getD_some]

theorem ram_deviceWrite_outside (h : a < b ∨ b + vs.length ≤ a) : (m.deviceWrite b vs).ram a = m.ram a := by
  rw [deviceWrite]
  rcases h with h | h
  · exact if_pos h
  · have hnone : vs[a - b]? = none := List.getElem?_eq_none (by omega)
    simp only [hnone, Option.getD_none, ite_self]

/-- The CPU's view outside of what a device writes. -/
theorem visible_deviceWrite_outside (h : a < b ∨ b + vs.length ≤ a) :
    (m.deviceWrite b vs).visible size a = m.visible size a := by
  rw [visible, visible, line_deviceWrite, ram_deviceWrite_outside h]

/-- A byte that a device writes is read once its line is settled, unless the line was dirty with another byte. -/
theorem settled_deviceWrite_iff {i : Nat} {v : β} (h : vs[i]? = some v) : (m.deviceWrite b vs).settled size (b + i) = v ↔
    ∀ copy, m.line ((b + i) / size) = some ⟨true, copy⟩ → copy (b + i) = v := by
  by_cases hd : ∃ copy, m.line ((b + i) / size) = some ⟨true, copy⟩
  · obtain ⟨copy, hline⟩ := hd
    rw [settled_of_dirty (by rwa [line_deviceWrite]), hline]
    exact ⟨fun hv _ heq => by cases heq; exact hv, fun hv => hv copy rfl⟩
  · have hclean : ∀ copy, (m.deviceWrite b vs).line ((b + i) / size) ≠ some ⟨true, copy⟩ :=
      fun copy hline => hd ⟨copy, hline⟩
    rw [settled_of_not_dirty hclean, ram_deviceWrite_of_getElem? h]
    exact iff_of_true rfl fun copy hline => absurd ⟨copy, hline⟩ hd

/-- Another byte of a settled line is read as before, unless the line was clean and not the same as memory. -/
theorem settled_deviceWrite_outside_iff (h : a < b ∨ b + vs.length ≤ a) :
    (m.deviceWrite b vs).settled size a = m.visible size a ↔
      ∀ copy, m.line (a / size) = some ⟨false, copy⟩ → copy a = m.ram a := by
  rw [settled, visible, line_deviceWrite, ram_deviceWrite_outside h]
  rcases hline : m.line (a / size) with _ | ⟨_ | _, copy⟩
  · simp
  · simpa using eq_comm
  · simp

end WriteBack

end Ferro
