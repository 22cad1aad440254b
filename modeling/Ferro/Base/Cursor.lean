/-!
# Cursors

An enumeration by a cursor: each call gives an item and the cursor for the next call, or ends the enumeration.
-/

namespace Ferro

namespace Cursor

variable {σ α ε : Type}

/-- The items of at most `fuel` calls, and what ended the enumeration, if one of them did. -/
def collect (next : σ → Except ε (α × σ)) : (fuel : Nat) → σ → List α × Option ε
  | 0, _ => ([], none)
  | fuel + 1, c =>
    match next c with
    | .error e => ([], some e)
    | .ok (a, c') => (a :: (collect next fuel c').1, (collect next fuel c').2)

/-- The calls from the cursor on give the items, and then the end. -/
inductive Lists (next : σ → Except ε (α × σ)) (e : ε) : σ → List α → Prop where
  | stop {c} (h : next c = .error e) : Lists next e c []
  | item {c a c' l} (h : next c = .ok (a, c')) (t : Lists next e c' l) : Lists next e c (a :: l)

variable {next : σ → Except ε (α × σ)}

theorem Lists.collect {e : ε} {c : σ} {l : List α} (h : Lists next e c l) :
    Cursor.collect next (l.length + 1) c = (l, some e) := by
  induction h with
  | stop h => simp only [Cursor.collect, h]
  | item h _ ih => simp only [List.length_cons, Cursor.collect, h, ih]

theorem Lists.of_collect {e : ε} {fuel : Nat} {c : σ} {l : List α} (h : Cursor.collect next fuel c = (l, some e)) :
    Lists next e c l := by
  induction fuel generalizing c l with
  | zero => cases h
  | succ fuel ih =>
      rw [Cursor.collect] at h
      cases hn : next c with
      | error e' =>
          rw [hn] at h
          cases h
          exact .stop hn
      | ok r =>
          rw [hn] at h
          obtain ⟨rfl, hend⟩ := Prod.mk.inj h
          exact .item hn (ih (Prod.ext rfl hend))

/-- An enumeration does not end where an invariant gives every call an item and holds of the cursor behind it. -/
theorem not_lists {I : σ → Prop} (hI : ∀ c, I c → ∃ a c', next c = .ok (a, c') ∧ I c') {e : ε} {c : σ} {l : List α}
    (hc : I c) : ¬ Lists next e c l := by
  intro h
  induction h with
  | stop h =>
      obtain ⟨a, c', hn, _⟩ := hI _ hc
      rw [h] at hn
      cases hn
  | item h _ ih =>
      obtain ⟨a, c', hn, hc'⟩ := hI _ hc
      rw [h] at hn
      cases hn
      exact ih hc'

end Cursor

end Ferro
