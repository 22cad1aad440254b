import Ferro.Base.Arr
import Mathlib.Data.Set.Card

/-!
# Maps in arrays of slots

A slot is unused or holds a key and a value. An array of slots in which no key occurs twice is a map of at most as
many keys as it has slots.
-/

namespace Ferro

namespace Arr

variable {α : Type} {n : Nat}

/-- The index of the first element that satisfies `p`. -/
def find? (a : Arr α n) (p : α → Bool) : Option (Fin n) := Fin.find? fun i => p (a.get i)

/-- `a[i] = x`. -/
def set (a : Arr α n) (i : Fin n) (x : α) : Arr α n := ⟨Function.update a.get i x⟩

theorem find?_eq_some {a : Arr α n} {p : α → Bool} {i : Fin n} (h : a.find? p = some i) : p (a.get i) :=
  (Fin.find?_eq_some_iff.mp h).1

theorem find?_eq_none {a : Arr α n} {p : α → Bool} : a.find? p = none ↔ ∀ i, p (a.get i) = false :=
  Fin.find?_eq_none_iff

@[simp] theorem get_set_self (a : Arr α n) (i : Fin n) (x : α) : (a.set i x).get i = x := by simp [set]

theorem get_set_of_ne (a : Arr α n) {i j : Fin n} (x : α) (h : j ≠ i) : (a.set i x).get j = a.get j := by
  simp [set, h]

theorem mem_toList {a : Arr α n} {x : α} : x ∈ a.toList ↔ ∃ i, a.get i = x := by
  simp [toList, List.mem_ofFn]

end Arr

namespace Slots

variable {α K V : Type} {n : Nat} (entry : α → Option (K × V))

/-- No two slots hold the same key. -/
def Unique (a : Arr α n) : Prop :=
  ∀ ⦃i j k v w⦄, entry (a.get i) = some (k, v) → entry (a.get j) = some (k, w) → i = j

/-- The keys and values in the order of the slots. -/
def entries (a : Arr α n) : List (K × V) := a.toList.filterMap entry

/-- The value of the first entry with the key. -/
def lookup [DecidableEq K] (es : List (K × V)) (k : K) : Option V := es.lookup k

/-- The slots as a map. -/
def toMap [DecidableEq K] (a : Arr α n) : K → Option V := lookup (entries entry a)

variable {entry} {a : Arr α n} {k : K}

theorem mem_entries {e : K × V} : e ∈ entries entry a ↔ ∃ i, entry (a.get i) = some e := by
  simp [entries, List.mem_filterMap, Arr.mem_toList]

theorem length_entries_le : (entries entry a).length ≤ n := by
  have h := List.length_filterMap_le entry a.toList
  rwa [Arr.length_toList] at h

theorem length_entries_eq : (entries entry a).length = n ↔ ∀ i, (entry (a.get i)).isSome := by
  have h := List.filterMap_length_eq_length (f := entry) (l := a.toList)
  rw [Arr.length_toList] at h
  rw [entries, h]
  constructor
  · intro h i; exact h _ (Arr.mem_toList.mpr ⟨i, rfl⟩)
  · intro h x hx; obtain ⟨i, rfl⟩ := Arr.mem_toList.mp hx; exact h i

theorem Unique.nodup_keys (hu : Unique entry a) : ((entries entry a).map Prod.fst).Nodup := by
  rw [entries, Arr.toList, List.map_filterMap, List.Nodup, List.pairwise_filterMap, List.pairwise_ofFn]
  intro i j hij k hk k' hk' he
  obtain ⟨⟨_, v⟩, hv, rfl⟩ := Option.map_eq_some_iff.mp hk
  obtain ⟨⟨_, w⟩, hw, rfl⟩ := Option.map_eq_some_iff.mp hk'
  dsimp only at he
  subst he
  exact absurd (hu hv hw) (Fin.ne_of_lt hij)

variable [DecidableEq K]

@[simp] theorem lookup_nil : lookup ([] : List (K × V)) k = none := rfl

@[simp] theorem lookup_cons {k' : K} {v : V} {es : List (K × V)} :
    lookup ((k', v) :: es) k = if k = k' then some v else lookup es k := by
  by_cases h : k = k'
  · subst h; simp [lookup]
  · have hb : (k == k') = false := by simpa using h
    simp [lookup, List.lookup_cons, hb, h]

theorem lookup_eq_none {es : List (K × V)} : lookup es k = none ↔ k ∉ es.map Prod.fst := by
  induction es with
  | nil => simp
  | cons e es ih =>
      obtain ⟨k', v⟩ := e
      rw [lookup_cons, List.map_cons, List.mem_cons]
      by_cases h : k = k'
      · simp [h]
      · rw [if_neg h, ih]; simp only [h, false_or]

theorem lookup_eq_some {es : List (K × V)} (hes : (es.map Prod.fst).Nodup) {v : V} :
    lookup es k = some v ↔ (k, v) ∈ es := by
  induction es with
  | nil => simp
  | cons e es ih =>
      obtain ⟨k', v'⟩ := e
      simp only [List.map_cons, List.nodup_cons] at hes
      by_cases h : k = k'
      · subst h
        have hnot : (k, v) ∉ es := fun hm => hes.1 (List.mem_map_of_mem hm)
        simp [hnot, eq_comm]
      · simp [h, ih hes.2]

theorem lookup_filter_ne {es : List (K × V)} {k' : K} (h : k ≠ k') :
    lookup (es.filter fun e => e.1 ≠ k') k = lookup es k := by
  induction es with
  | nil => rfl
  | cons e es ih =>
      obtain ⟨k₁, v⟩ := e
      by_cases hk : k₁ = k'
      · subst hk; simpa [h] using ih
      · simp only [ne_eq, hk, not_false_eq_true, decide_true, List.filter_cons_of_pos, lookup_cons, ← ih]

theorem toMap_eq_some (hu : Unique entry a) {v : V} :
    toMap entry a k = some v ↔ ∃ i, entry (a.get i) = some (k, v) := by
  rw [toMap, lookup_eq_some hu.nodup_keys, mem_entries]

theorem toMap_eq_none : toMap entry a k = none ↔ ∀ i v, entry (a.get i) ≠ some (k, v) := by
  rw [toMap, lookup_eq_none]
  constructor
  · intro h i v he
    exact h (List.mem_map_of_mem (mem_entries.mpr ⟨i, he⟩))
  · intro h hm
    obtain ⟨⟨_, v⟩, he, rfl⟩ := List.mem_map.mp hm
    obtain ⟨i, hi⟩ := mem_entries.mp he
    exact h i v hi

/-- Putting an entry for `k`, or none, into the only slot that can hold `k` changes the map at `k` alone. -/
theorem toMap_set (hu : Unique entry a) {i : Fin n} {x : α}
    (hold : ∀ {k' v}, entry (a.get i) = some (k', v) → k' = k)
    (honly : ∀ {j v}, entry (a.get j) = some (k, v) → j = i)
    (hnew : ∀ {k' v}, entry x = some (k', v) → k' = k) :
    Unique entry (a.set i x) ∧
      toMap entry (a.set i x) = Function.update (toMap entry a) k ((entry x).map Prod.snd) := by
  have hget : ∀ j k' v, entry ((a.set i x).get j) = some (k', v) ↔
      (j = i ∧ k' = k ∧ entry x = some (k, v)) ∨ (k' ≠ k ∧ entry (a.get j) = some (k', v)) := by
    intro j k' v
    by_cases hj : j = i
    · subst hj
      rw [Arr.get_set_self]
      constructor
      · intro h; have hk := hnew h; subst hk; exact Or.inl ⟨rfl, rfl, h⟩
      · rintro (⟨_, rfl, h⟩ | ⟨hne, h⟩)
        · exact h
        · exact absurd (hold h) hne
    · rw [Arr.get_set_of_ne _ _ hj]
      constructor
      · intro h; exact Or.inr ⟨fun hk => hj (honly (hk ▸ h)), h⟩
      · rintro (⟨h, _⟩ | ⟨_, h⟩)
        · exact absurd h hj
        · exact h
  have hu' : Unique entry (a.set i x) := by
    intro j j' k' v w hj hj'
    rcases (hget _ _ _).mp hj with ⟨rfl, rfl, _⟩ | ⟨hne, hj⟩
    · rcases (hget _ _ _).mp hj' with ⟨rfl, _⟩ | ⟨hne, _⟩
      · rfl
      · exact absurd rfl hne
    · rcases (hget _ _ _).mp hj' with ⟨_, rfl, _⟩ | ⟨_, hj'⟩
      · exact absurd rfl hne
      · exact hu hj hj'
  refine ⟨hu', funext fun k' => Option.ext fun v => ?_⟩
  rw [toMap_eq_some hu']
  by_cases hk : k' = k
  · subst hk
    have hx : entry x = some (k', v) ↔ ∃ k, entry x = some (k, v) :=
      ⟨fun h => ⟨_, h⟩, fun ⟨_, h⟩ => hnew h ▸ h⟩
    simp [hget, hx]
  · rw [Function.update_of_ne hk, toMap_eq_some hu]
    simp [hget, hk]

theorem keys_eq (a : Arr α n) : {k | (toMap entry a k).isSome} = {k | k ∈ (entries entry a).map Prod.fst} := by
  ext k
  rw [Set.mem_ofPred_eq, Set.mem_ofPred_eq, toMap, ← not_iff_not, Option.not_isSome_iff_eq_none, lookup_eq_none]

/-- There are as many keys as used slots. -/
theorem ncard_keys (hu : Unique entry a) :
    {k | (toMap entry a k).isSome}.ncard = (entries entry a).length := by
  have hset : {k | (toMap entry a k).isSome} = (((entries entry a).map Prod.fst).toFinset : Set K) := by
    rw [keys_eq]; ext k; simp
  rw [hset, Set.ncard_coe_finset, List.toFinset_card_of_nodup hu.nodup_keys, List.length_map]

/-- The entries of a map, in any order. -/
theorem Unique.entries_perm (hu : Unique entry a) {es : List (K × V)} (hes : (es.map Prod.fst).Nodup)
    (h : toMap entry a = lookup es) : (entries entry a).Perm es := by
  refine (List.perm_ext_iff_of_nodup hu.nodup_keys.of_map hes.of_map).mpr fun e => ?_
  rw [← lookup_eq_some hes, ← h, ← lookup_eq_some hu.nodup_keys]
  rfl

/-- The entries of a map with one value set: the new entry and the others. -/
theorem Unique.entries_perm_update {b : Arr α n} (hb : Unique entry b) (hu : Unique entry a) {v : V}
    (h : toMap entry b = Function.update (toMap entry a) k (some v)) :
    (entries entry b).Perm ((k, v) :: (entries entry a).filter fun e => e.1 ≠ k) := by
  refine hb.entries_perm ?_ (funext fun k' => ?_)
  · rw [List.map_cons, List.nodup_cons]
    refine ⟨by simp, hu.nodup_keys.sublist (List.filter_sublist.map _)⟩
  · rw [h, lookup_cons]
    by_cases hk : k' = k
    · rw [if_pos hk, hk, Function.update_self]
    · rw [if_neg hk, Function.update_of_ne hk, lookup_filter_ne hk, toMap]

end Slots

end Ferro
