import Ferro.Base.Weights
import Ferro.Variables.Lemmas.Saved

/-!
# Storage of the variables (`variables::storage_info`)

Storage is counted by the data of the variables; names and free slots do not count.
-/

namespace Ferro

namespace Variables

/-- Storage in all, storage left, and the most that a variable can have. -/
def storageInfo (vars : Store) : UInt64 × UInt64 × UInt64 :=
  let used := ((vars.toList.filter fun v => v.inUse).map fun v => v.dataLen).sum
  let total := UInt64.ofNat (maxVariables * maxDataLen)
  (total, total - UInt64.ofNat used, UInt64.ofNat maxDataLen)

def remaining (vars : Store) : UInt64 := (storageInfo vars).2.1

def size (value : Value) : Nat := value.2.length

/-- The bytes that the variables hold. -/
def used (vars : Store) : Nat := Slots.total Variable.entry size vars

variable {vars : Store} {s : CStr16} {guid : EfiGuid} {attributes : UInt32} {data : List UInt8}

theorem used_empty : used empty = 0 := by
  have hnone : ∀ v ∈ empty.toList, v.entry = none := by
    intro v hv
    obtain ⟨i, rfl⟩ := Arr.mem_toList.mp hv
    rfl
  rw [used, Slots.total, Slots.entries, List.filterMap_eq_nil_iff.mpr hnone]
  rfl

/-- What `storage_info` adds up. -/
theorem sum_dataLen (vs : List Variable) (h : ∀ v ∈ vs, v.inUse → v.Bounded) :
    ((vs.filter fun v => v.inUse).map fun v => v.dataLen).sum =
      ((vs.filterMap Variable.entry).map fun e => size e.2).sum := by
  induction vs with
  | nil => rfl
  | cons v vs ih =>
      have hrest := ih fun v hv => h v (List.mem_cons_of_mem _ hv)
      cases hu : v.inUse with
      | false =>
          have he : v.entry = none := by simp [Variable.entry, hu]
          rw [List.filter_cons_of_neg (by simp [hu]), List.filterMap_cons_none he, hrest]
      | true =>
          rw [List.filter_cons_of_pos (by simp [hu]), List.filterMap_cons_some (entry_of_inUse hu), List.map_cons,
            List.map_cons, List.sum_cons, List.sum_cons, hrest, size, length_data (h v List.mem_cons_self hu)]

/-- Each free slot leaves room for the largest variable. -/
theorem Valid.used_add_le (hv : Valid vars) :
    used vars + maxDataLen * (maxVariables - count vars) ≤ maxDataLen * maxVariables := by
  refine Slots.total_add_le fun e he => ?_
  obtain ⟨i, hi⟩ := Slots.mem_entries.mp he
  have hu := inUse_of_entry hi
  have hlen := (hv.bounded hu).dataLen_le
  rw [entry_of_inUse hu, Option.some_inj] at hi
  rw [← hi, size, length_data (hv.bounded hu)]
  exact hlen

/-- The subtraction does not wrap. -/
theorem Valid.storageInfo_eq (hv : Valid vars) :
    storageInfo vars = (16384, remaining vars, 512) ∧ (remaining vars).toNat + used vars = 16384 := by
  have hle := hv.used_add_le
  have hmax : maxDataLen * maxVariables = 16384 := rfl
  have hsum := sum_dataLen vars.toList fun v hmem hu => by
    obtain ⟨i, rfl⟩ := Arr.mem_toList.mp hmem
    exact hv.bounded hu
  have hused : ((vars.toList.filter fun v => v.inUse).map fun v => v.dataLen).sum = used vars := hsum
  have hleft : remaining vars = 16384 - UInt64.ofNat (used vars) := by
    rw [remaining, storageInfo, hused]
    rfl
  refine ⟨rfl, ?_⟩
  have hnat : (UInt64.ofNat (used vars)).toNat = used vars := by
    rw [UInt64.toNat_ofNat', Nat.mod_eq_of_lt (by omega)]
  have hbig : (16384 : UInt64).toNat = 16384 := rfl
  rw [hleft, UInt64.toNat_sub_of_le _ _ (by rw [UInt64.le_iff_toNat_le, hnat, hbig]; omega), hnat, hbig]
  omega

/-- What a successful call adds to one variable it takes from the storage. -/
theorem Valid.used_set (hv : Valid vars) (hok : (set vars s.mem guid attributes data).1 = .ok ()) :
    used (set vars s.mem guid attributes data).2 + Slots.weight size (toMap vars (s.units, guid)) =
      used vars + data.length := by
  have hvalid := (hv.set_eq (s := s) guid attributes data).1
  have h := hvalid.unique.total_update (w := size) hv.unique (hv.set_ok hok).2
  rw [used, used]
  cases data with
  | nil => exact h
  | cons b bs => exact h

/-- A failed call leaves it. -/
theorem Valid.used_set_error {e : VarError} (hv : Valid vars) (he : (set vars s.mem guid attributes data).1 = .error e) :
    used (set vars s.mem guid attributes data).2 = used vars := by
  have hvalid := (hv.set_eq (s := s) guid attributes data).1
  rcases hv.set_cases (s := s) guid attributes data with ⟨e', -, hmap⟩ | ⟨-, hok, -⟩
  · have hperm := hvalid.unique.entries_perm hv.unique.nodup_keys hmap
    exact (hperm.map fun e => size e.2).sum_eq
  · rw [hok] at he
    cases he

end Variables

end Ferro
