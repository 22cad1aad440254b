import Mathlib.Data.List.Induction
import Mathlib.Data.List.Nodup
import Mathlib.Data.List.Perm.Basic

/-!
# Ordered association lists

A list of keys and values in which a new key goes to the end and a key that is there keeps its place. `Records` says
which list a history of such changes leaves, without the changes themselves.
-/

namespace Ferro

namespace Assoc

variable {K V : Type} [DecidableEq K]

abbrev keys (l : List (K × V)) : List K := l.map Prod.fst

/-- The key gets the value, where it is or at the end. -/
def put (l : List (K × V)) (k : K) (v : V) : List (K × V) :=
  if k ∈ keys l then l.map fun e => if e.1 = k then (k, v) else e else l ++ [(k, v)]

def delete (l : List (K × V)) (k : K) : List (K × V) := l.filter fun e => e.1 ≠ k

/-- The value of the last change of the key, if that was no deletion. -/
def latest (ops : List (K × Option V)) (k : K) : Option V :=
  ops.foldl (fun cur op => if op.1 = k then op.2 else cur) none

/-- The index of the change that put the key when it was absent, for a key that is there. -/
def since (ops : List (K × Option V)) (k : K) : Option Nat :=
  ops.zipIdx.foldl (fun cur op => if op.1.1 = k then op.1.2.map fun _ => cur.getD op.2 else cur) none

/-- The list has no key twice, the keys and values that the history leaves, and the keys in the order of their putting. -/
structure Records (ops : List (K × Option V)) (l : List (K × V)) : Prop where
  nodup : (keys l).Nodup
  mem (k : K) (v : V) : (k, v) ∈ l ↔ latest ops k = some v
  ordered : l.Pairwise fun e e' => ∃ m n, since ops e.1 = some m ∧ since ops e'.1 = some n ∧ m < n

variable {ops : List (K × Option V)} {l l' : List (K × V)} {k k' : K} {v : V} {n : Nat}

/-! ## Changes at an index -/

omit [DecidableEq K] in
theorem keys_not_mem_tail {e : K × V} (h : (keys (e :: l)).Nodup) (hk : e.1 = k) : k ∉ keys l := by
  rw [keys, List.map_cons, List.nodup_cons] at h
  exact hk ▸ h.1

omit [DecidableEq K] in
theorem ne_of_nodup {e e' : K × V} (h : (keys (e :: l)).Nodup) (he : e' ∈ l) (hk : e'.1 = k) : e.1 ≠ k := by
  intro hek
  exact keys_not_mem_tail h hek (List.mem_map.mpr ⟨e', he, hk⟩)

theorem eraseIdx_eq_delete {e : K × V} {i : Nat} (h : (keys l).Nodup) (hi : l[i]? = some e) (hk : e.1 = k) :
    l.eraseIdx i = delete l k := by
  induction l generalizing i with
  | nil => cases hi
  | cons e' l ih =>
      cases i with
      | zero =>
          cases hi
          have hno := keys_not_mem_tail h hk
          rw [List.eraseIdx_cons_zero, delete, List.filter_cons_of_neg (by simpa using hk), List.filter_eq_self.mpr]
          intro e' he'
          exact decide_eq_true fun heq => hno (List.mem_map.mpr ⟨e', he', heq⟩)
      | succ i =>
          rw [List.getElem?_cons_succ] at hi
          have hne := ne_of_nodup h (List.mem_of_getElem? hi) hk
          rw [List.eraseIdx_cons_succ, ih h.of_cons hi, delete, delete, List.filter_cons_of_pos (by simpa using hne)]

theorem set_eq_put {e : K × V} {i : Nat} (h : (keys l).Nodup) (hi : l[i]? = some e) (hk : e.1 = k) (v : V) :
    l.set i (k, v) = put l k v := by
  rw [put, if_pos (List.mem_map.mpr ⟨e, List.mem_of_getElem? hi, hk⟩)]
  induction l generalizing i with
  | nil => cases hi
  | cons e' l ih =>
      cases i with
      | zero =>
          cases hi
          have hno := keys_not_mem_tail h hk
          have hid : ∀ e' ∈ l, (if e'.1 = k then (k, v) else e') = id e' := fun e' he' =>
            if_neg fun heq => hno (List.mem_map.mpr ⟨e', he', heq⟩)
          rw [List.set_cons_zero, List.map_cons, if_pos hk, List.map_congr_left hid, List.map_id]
      | succ i =>
          rw [List.getElem?_cons_succ] at hi
          have hne := ne_of_nodup h (List.mem_of_getElem? hi) hk
          rw [List.set_cons_succ, ih h.of_cons hi, List.map_cons, if_neg hne]

theorem findIdx?_eq_some {i : Nat} (h : l.findIdx? (fun e => e.1 = k) = some i) : ∃ e, l[i]? = some e ∧ e.1 = k := by
  obtain ⟨hi, hk, _⟩ := List.findIdx?_eq_some_iff_getElem.mp h
  exact ⟨l[i], List.getElem?_eq_getElem hi, of_decide_eq_true hk⟩

theorem findIdx?_eq_none_iff : l.findIdx? (fun e => e.1 = k) = none ↔ k ∉ keys l := by
  rw [List.findIdx?_eq_none_iff, List.mem_map]
  constructor
  · rintro h ⟨e, he, hk⟩
    exact of_decide_eq_false (h e he) hk
  · intro h e he
    exact decide_eq_false fun hk => h ⟨e, he, hk⟩

/-! ## Histories -/

theorem latest_snoc (ops : List (K × Option V)) (k k' : K) (v : Option V) :
    latest (ops ++ [(k, v)]) k' = if k = k' then v else latest ops k' := by
  rw [latest, List.foldl_append]
  rfl

theorem since_snoc (ops : List (K × Option V)) (k k' : K) (v : Option V) : since (ops ++ [(k, v)]) k' =
    if k = k' then v.map fun _ => (since ops k').getD ops.length else since ops k' := by
  rw [since, List.zipIdx_append, List.foldl_append, Nat.zero_add]
  rfl

/-- Both are known for the keys that are there. -/
theorem isSome_since (ops : List (K × Option V)) (k : K) : (since ops k).isSome = (latest ops k).isSome := by
  induction ops using List.reverseRecOn with
  | nil => rfl
  | append_singleton ops op ih =>
      obtain ⟨k', v⟩ := op
      rw [since_snoc, latest_snoc]
      split
      · rw [Option.isSome_map]
      · exact ih

theorem since_lt (h : since ops k = some n) : n < ops.length := by
  induction ops using List.reverseRecOn generalizing n with
  | nil => cases h
  | append_singleton ops op ih =>
      obtain ⟨k', v⟩ := op
      rw [since_snoc] at h
      rw [List.length_append, List.length_singleton]
      split at h
      · obtain ⟨_, _, rfl⟩ := Option.map_eq_some_iff.mp h
        cases hold : since ops k with
        | none => exact Nat.lt_succ_self _
        | some m => exact Nat.lt_succ_of_lt (ih hold)
      · exact Nat.lt_succ_of_lt (ih h)

/-! ## Changes -/

theorem keys_put_of_mem (h : k ∈ keys l) (v : V) : keys (put l k v) = keys l := by
  rw [put, if_pos h, keys, List.map_map]
  refine List.map_congr_left fun e _ => ?_
  rw [Function.comp_apply]
  split
  · rename_i he
    exact he.symm
  · rfl

theorem Records.nil : Records ([] : List (K × Option V)) [] := by
  refine ⟨List.nodup_nil, fun k v => ?_, List.Pairwise.nil⟩
  simp [latest]

theorem Records.mem_keys (h : Records ops l) : k ∈ keys l ↔ (latest ops k).isSome := by
  rw [List.mem_map, Option.isSome_iff_exists]
  constructor
  · rintro ⟨⟨_, v⟩, hm, rfl⟩
    exact ⟨v, (h.mem _ v).mp hm⟩
  · rintro ⟨v, hv⟩
    exact ⟨(k, v), (h.mem k v).mpr hv, rfl⟩

theorem since_put_of_some (h : since ops k' = some n) (v : V) : since (ops ++ [(k, some v)]) k' = some n := by
  rw [since_snoc, h]
  split <;> rfl

theorem Records.since_eq (h : Records ops l) {e : K × V} (he : e ∈ l) : ∃ n, since ops e.1 = some n := by
  rw [← Option.isSome_iff_exists, isSome_since, ← h.mem_keys]
  exact List.mem_map_of_mem he

theorem Records.put_of_mem (h : Records ops l) (hk : k ∈ keys l) (v : V) :
    Records (ops ++ [(k, some v)]) (put l k v) := by
  constructor
  · rw [keys_put_of_mem hk]
    exact h.nodup
  · intro k' v'
    rw [put, if_pos hk, latest_snoc, List.mem_map]
    by_cases hkk : k = k'
    · subst hkk
      rw [if_pos rfl]
      constructor
      · rintro ⟨e, _, he⟩
        split at he
        · exact congrArg some (Prod.mk.inj he).2
        · rename_i hne
          exact absurd (congrArg Prod.fst he) hne
      · intro hv
        cases hv
        obtain ⟨e, he, hek⟩ := List.mem_map.mp hk
        exact ⟨e, he, if_pos hek⟩
    · rw [if_neg hkk, ← h.mem]
      constructor
      · rintro ⟨e, hm, he⟩
        split at he
        · exact absurd (Prod.mk.inj he).1 hkk
        · exact he ▸ hm
      · intro hm
        exact ⟨(k', v'), hm, if_neg fun he => hkk he.symm⟩
  · rw [put, if_pos hk, List.pairwise_map]
    have hkey : ∀ e : K × V, (if e.1 = k then (k, v) else e).1 = e.1 := by
      intro e
      split
      · rename_i he
        exact he.symm
      · rfl
    refine h.ordered.imp fun {e e'} hlt => ?_
    obtain ⟨m, n, hm, hn, hlt⟩ := hlt
    rw [hkey, hkey]
    exact ⟨m, n, since_put_of_some hm v, since_put_of_some hn v, hlt⟩

theorem Records.put_of_not_mem (h : Records ops l) (hk : k ∉ keys l) (v : V) :
    Records (ops ++ [(k, some v)]) (put l k v) := by
  have hnone : latest ops k = none := by rwa [h.mem_keys, Option.not_isSome_iff_eq_none] at hk
  rw [put, if_neg hk]
  constructor
  · rw [keys, List.map_append, List.nodup_append]
    refine ⟨h.nodup, List.nodup_singleton k, fun k' hk' k'' hk'' heq => hk ?_⟩
    rwa [heq, List.mem_singleton.mp hk''] at hk'
  · intro k' v'
    rw [latest_snoc, List.mem_append, List.mem_singleton, h.mem, Prod.mk.injEq]
    by_cases hkk : k = k'
    · subst hkk
      simp [hnone, eq_comm]
    · simp [hkk, Ne.symm hkk]
  · rw [List.pairwise_append]
    refine ⟨h.ordered.imp fun {e e'} hlt => ?_, List.pairwise_singleton _ _, fun e he e' he' => ?_⟩
    · obtain ⟨m, n, hm, hn, hlt⟩ := hlt
      exact ⟨m, n, since_put_of_some hm v, since_put_of_some hn v, hlt⟩
    · cases List.mem_singleton.mp he'
      obtain ⟨n, hn⟩ := h.since_eq he
      have hsince : since ops k = none := by
        rw [← Option.not_isSome_iff_eq_none, isSome_since, hnone]
        exact Bool.false_ne_true
      refine ⟨n, ops.length, since_put_of_some hn v, ?_, since_lt hn⟩
      rw [since_snoc, if_pos rfl, hsince]
      rfl

theorem Records.put (h : Records ops l) (k : K) (v : V) : Records (ops ++ [(k, some v)]) (put l k v) := by
  by_cases hk : k ∈ keys l
  · exact h.put_of_mem hk v
  · exact h.put_of_not_mem hk v

theorem Records.delete (h : Records ops l) (k : K) : Records (ops ++ [(k, none)]) (delete l k) := by
  constructor
  · exact h.nodup.sublist (List.filter_sublist.map _)
  · intro k' v
    rw [Assoc.delete, List.mem_filter, h.mem, latest_snoc]
    by_cases hkk : k = k'
    · simp [hkk]
    · simp [hkk, Ne.symm hkk]
  · rw [Assoc.delete, List.pairwise_filter]
    refine h.ordered.imp fun {e e'} hlt he he' => ?_
    obtain ⟨m, n, hm, hn, hlt⟩ := hlt
    have hne : ¬ k = e.1 := fun h => of_decide_eq_true he h.symm
    have hne' : ¬ k = e'.1 := fun h => of_decide_eq_true he' h.symm
    refine ⟨m, n, ?_, ?_, hlt⟩
    · rw [since_snoc, if_neg hne, hm]
    · rw [since_snoc, if_neg hne', hn]

/-- A history leaves one list only. -/
theorem Records.unique (h : Records ops l) (h' : Records ops l') : l = l' := by
  have hperm : l.Perm l' := by
    refine (List.perm_ext_iff_of_nodup h.nodup.of_map h'.nodup.of_map).mpr fun e => ?_
    rw [h.mem e.1 e.2, h'.mem e.1 e.2]
  refine hperm.eq_of_pairwise (fun e e' _ _ hlt hlt' => ?_) h.ordered h'.ordered
  obtain ⟨m, n, hm, hn, hlt⟩ := hlt
  obtain ⟨n', m', hn', hm', hlt'⟩ := hlt'
  cases hm.symm.trans hm'
  cases hn.symm.trans hn'
  omega

end Assoc

end Ferro
