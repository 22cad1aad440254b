import Ferro.Base.Slots
import Mathlib.Algebra.Order.BigOperators.Group.List
import Mathlib.Algebra.Order.Ring.Nat

/-!
# The weight of a map in slots

Each value has a weight. The total follows the map: setting a key takes the weight of the old value away and adds that of
the new one.
-/

namespace Ferro

namespace Slots

variable {α K V : Type} {n : Nat}

/-- The weight of all values. -/
def total (entry : α → Option (K × V)) (w : V → Nat) (a : Arr α n) : Nat :=
  ((entries entry a).map fun e => w e.2).sum

/-- The weight of the value of a key, if it has one. -/
def weight (w : V → Nat) (o : Option V) : Nat := o.elim 0 w

variable {entry : α → Option (K × V)} {w : V → Nat} {a b : Arr α n} {k : K}

/-- Each used slot weighs at most `m`, so that the rest is at least `m` for each free one. -/
theorem total_add_le {m : Nat} (h : ∀ e ∈ entries entry a, w e.2 ≤ m) :
    total entry w a + m * (n - (entries entry a).length) ≤ m * n := by
  have hle : total entry w a ≤ (entries entry a).length * m := by
    have hsum := List.sum_le_card_nsmul ((entries entry a).map fun e => w e.2) m fun x hx => by
      obtain ⟨e, he, rfl⟩ := List.mem_map.mp hx
      exact h e he
    simpa [total] using hsum
  have hlen : (entries entry a).length ≤ n := length_entries_le
  calc total entry w a + m * (n - (entries entry a).length)
      ≤ m * (entries entry a).length + m * (n - (entries entry a).length) := by
        rw [Nat.mul_comm] at hle
        exact Nat.add_le_add_right hle _
    _ = m * n := by rw [← Nat.mul_add, Nat.add_sub_cancel' hlen]

variable [DecidableEq K]

theorem sum_filter_ne {es : List (K × V)} (hes : (es.map Prod.fst).Nodup) (k : K) :
    ((es.filter fun e => e.1 ≠ k).map fun e => w e.2).sum + weight w (lookup es k) = (es.map fun e => w e.2).sum := by
  induction es with
  | nil => rfl
  | cons e es ih =>
      obtain ⟨k', v⟩ := e
      simp only [List.map_cons, List.nodup_cons] at hes
      have hrest := ih hes.2
      by_cases hk : k = k'
      · subst hk
        have hnone : lookup es k = none := lookup_eq_none.mpr hes.1
        rw [hnone] at hrest
        simp only [weight, Option.elim_none, Nat.add_zero] at hrest
        rw [List.filter_cons_of_neg (by simp), hrest, lookup_cons, if_pos rfl, List.map_cons, List.sum_cons]
        exact Nat.add_comm _ _
      · have hne : k' ≠ k := fun h => hk h.symm
        simp only [hne, ne_eq, not_false_eq_true, decide_true, List.filter_cons_of_pos, List.map_cons, List.sum_cons,
          lookup_cons, hk, if_false]
        rw [Nat.add_assoc, hrest]

/-- The total after one value is set or taken away. -/
theorem Unique.total_update (hb : Unique entry b) (ha : Unique entry a) {o : Option V}
    (h : toMap entry b = Function.update (toMap entry a) k o) :
    total entry w b + weight w (toMap entry a k) = total entry w a + weight w o := by
  have hrest := sum_filter_ne (w := w) ha.nodup_keys k
  cases o with
  | some v =>
      have hperm := hb.entries_perm_update ha h
      have hsum := (hperm.map fun e => w e.2).sum_eq
      rw [total, hsum, total, ← hrest]
      simp only [List.map_cons, List.sum_cons, weight, Option.elim_some, toMap]
      omega
  | none =>
      have hfilter : (((entries entry a).filter fun e => e.1 ≠ k).map Prod.fst).Nodup :=
        ha.nodup_keys.sublist (List.filter_sublist.map _)
      have hperm : (entries entry b).Perm ((entries entry a).filter fun e => e.1 ≠ k) := by
        refine hb.entries_perm hfilter (funext fun k' => ?_)
        by_cases hk : k' = k
        · have hnot : k ∉ ((entries entry a).filter fun e => e.1 ≠ k).map Prod.fst := by simp
          rw [h, hk, Function.update_self, lookup_eq_none.mpr hnot]
        · rw [h, Function.update_of_ne hk, lookup_filter_ne hk, toMap]
      have hsum := (hperm.map fun e => w e.2).sum_eq
      rw [total, hsum, total, ← hrest, toMap]
      rfl

/-- The weights of the keys, in any order. -/
theorem Unique.total_keys (ha : Unique entry a) {keys : List K} (hkeys : keys.Nodup)
    (h : ∀ k, k ∈ keys ↔ (toMap entry a k).isSome) :
    (keys.map fun k => weight w (toMap entry a k)).sum = total entry w a := by
  have hperm : keys.Perm ((entries entry a).map Prod.fst) := by
    refine (List.perm_ext_iff_of_nodup hkeys ha.nodup_keys).mpr fun k => ?_
    rw [h, toMap, ← not_iff_not, Option.not_isSome_iff_eq_none, lookup_eq_none]
  have hsum := (hperm.map fun k => weight w (toMap entry a k)).sum_eq
  rw [hsum, total, List.map_map]
  refine congrArg List.sum (List.map_congr_left fun e he => ?_)
  have hsome : toMap entry a e.1 = some e.2 := (lookup_eq_some ha.nodup_keys).mpr he
  simp only [Function.comp_apply, hsome, weight, Option.elim_some]

end Slots

end Ferro
