import Ferro.Base.WriteBack
import Mathlib.Data.List.Range

/-!
# Coherence of a write-back cache

A coherent cache has no clean copy that differs from memory. By itself it may at any time fetch a line, or write a line
back and drop it: the CPU reads the same before and after. What has been cleaned, a device reads as the CPU does, until
the CPU writes again.
-/

namespace Ferro

namespace WriteBack

variable {β : Type} (size : Nat)

/-- At `a` a clean copy is the same as memory. -/
def CoherentAt (m : WriteBack β) (a : Nat) : Prop := ∀ copy, m.line (a / size) = some ⟨false, copy⟩ → copy a = m.ram a

def Coherent (m : WriteBack β) : Prop := ∀ a, CoherentAt size m a

/-- The line of `a` has nothing to write back. -/
def CleanAt (m : WriteBack β) (a : Nat) : Prop := ∀ copy, m.line (a / size) ≠ some ⟨true, copy⟩

/-- The cache reads a line that it does not hold. -/
def fetch (m : WriteBack β) (l : Nat) : WriteBack β :=
  match m.line l with
  | some _ => m
  | none => { m with line := Function.update m.line l (some ⟨false, m.ram⟩) }

/-- What the cache does by itself. -/
inductive Drift : WriteBack β → WriteBack β → Prop where
  | refl {m} : Drift m m
  | fetch {m m'} (h : Drift m m') (l : Nat) : Drift m (m'.fetch l)
  | evict {m m'} (h : Drift m m') (l : Nat) : Drift m (m'.cleanInvalidate size l)

/-- The CPU writes one after the other. -/
def storeAll (m : WriteBack β) (a : Nat) : List β → WriteBack β
  | [] => m
  | v :: vs => (m.store size a v).storeAll (a + 1) vs

/-- The CPU reads `n` from `a` on. -/
def load (m : WriteBack β) (a n : Nat) : List β := (List.range n).map fun i => m.visible size (a + i)

/-- Copies `n` from `src` to `dst`, which may overlap. -/
def memmove (m : WriteBack β) (dst src n : Nat) : WriteBack β := m.storeAll size dst (m.load size src n)

variable {size} {m m' : WriteBack β} {a b l n : Nat} {v : β} {vs : List β}

/-! ## Writing by the CPU -/

@[simp] theorem ram_store : (m.store size a v).ram = m.ram := rfl

theorem visible_store : (m.store size a v).visible size b = if b = a then v else m.visible size b := by
  by_cases hl : b / size = a / size
  · simp only [visible, store, hl, Function.update_self, Function.update_apply]
  · have hb : b ≠ a := fun h => hl (by rw [h])
    simp only [visible, store, Function.update_of_ne hl, if_neg hb]

@[simp] theorem ram_storeAll : (m.storeAll size a vs).ram = m.ram := by
  induction vs generalizing m a with
  | nil => rfl
  | cons v vs ih => rw [storeAll, ih, ram_store]

theorem visible_storeAll : (m.storeAll size a vs).visible size b =
    if b < a then m.visible size b else (vs[b - a]?).getD (m.visible size b) := by
  induction vs generalizing m a with
  | nil => simp [storeAll]
  | cons v vs ih =>
      rw [storeAll, ih, visible_store]
      rcases Nat.lt_trichotomy b a with hb | hb | hb
      · rw [if_pos (by omega), if_neg (by omega), if_pos hb]
      · rw [if_pos (by omega), if_pos hb, if_neg (by omega)]
        simp [hb]
      · obtain ⟨i, rfl⟩ : ∃ i, b = a + 1 + i := ⟨b - (a + 1), by omega⟩
        rw [if_neg (by omega), if_neg (by omega), if_neg (by omega)]
        simp only [show a + 1 + i - (a + 1) = i by omega, show a + 1 + i - a = i + 1 by omega,
          List.getElem?_cons_succ]

theorem visible_storeAll_outside (h : b < a ∨ a + vs.length ≤ b) :
    (m.storeAll size a vs).visible size b = m.visible size b := by
  rw [visible_storeAll]
  rcases h with h | h
  · exact if_pos h
  · rw [List.getElem?_eq_none (by omega), Option.getD_none, ite_self]

@[simp] theorem length_load : (m.load size a n).length = n := by simp [load]

theorem load_congr {m' : WriteBack β} (h : ∀ i < n, m'.visible size (b + i) = m.visible size (a + i)) :
    m'.load size b n = m.load size a n := by
  refine List.map_congr_left fun i hi => ?_
  exact h i (List.mem_range.mp hi)

/-- What was written is read. -/
theorem load_storeAll : (m.storeAll size a vs).load size a vs.length = vs := by
  refine List.ext_getElem (by simp) fun i hi hi' => ?_
  simp [load, visible_storeAll, hi']

theorem load_storeAll_outside (h : b + n ≤ a ∨ a + vs.length ≤ b) :
    (m.storeAll size a vs).load size b n = m.load size b n := by
  refine load_congr fun i hi => ?_
  exact visible_storeAll_outside (by omega)

theorem visible_memmove {dst src : Nat} : (m.memmove size dst src n).visible size b =
    if dst ≤ b ∧ b < dst + n then m.visible size (src + (b - dst)) else m.visible size b := by
  rw [memmove]
  by_cases h : dst ≤ b ∧ b < dst + n
  · rw [visible_storeAll, if_neg (by omega), if_pos h]
    simp [load, show b - dst < n by omega]
  · rw [visible_storeAll_outside (by rw [length_load]; omega), if_neg h]

/-! ## Coherence -/

theorem CoherentAt.settled (h : CoherentAt size m a) : m.settled size a = m.visible size a := by
  rw [WriteBack.settled, visible]
  rcases hline : m.line (a / size) with _ | ⟨_ | _, copy⟩
  · rfl
  · exact (h copy hline).symm
  · rfl

theorem CleanAt.settled (h : CleanAt size m a) : m.settled size a = m.ram a := settled_of_not_dirty h

theorem coherentAt_of_no_line (h : m.line (a / size) = none) : CoherentAt size m a := by
  intro copy hline
  rw [h] at hline
  cases hline

theorem cleanAt_of_no_line (h : m.line (a / size) = none) : CleanAt size m a := by
  intro copy hline
  rw [h] at hline
  cases hline

theorem Coherent.store (h : Coherent size m) (a : Nat) (v : β) : Coherent size (m.store size a v) := by
  intro b copy hline
  by_cases hl : b / size = a / size
  · simp [WriteBack.store, hl] at hline
  · simp only [WriteBack.store, Function.update_of_ne hl] at hline
    exact h b copy hline

theorem Coherent.storeAll (h : Coherent size m) (a : Nat) (vs : List β) : Coherent size (m.storeAll size a vs) := by
  induction vs generalizing m a with
  | nil => exact h
  | cons v vs ih => exact ih (h.store a v) (a + 1)

@[simp] theorem ram_fetch : (m.fetch l).ram = m.ram := by
  rw [WriteBack.fetch]
  split <;> rfl

theorem line_fetch : (m.fetch l).line b = if b = l then some ((m.line l).getD ⟨false, m.ram⟩) else m.line b := by
  rw [WriteBack.fetch]
  rcases hline : m.line l with _ | held
  · by_cases hb : b = l
    · simp [hb]
    · simp [hb]
  · by_cases hb : b = l
    · simp [hb, hline]
    · simp [hb]

theorem CoherentAt.fetch (h : CoherentAt size m a) (l : Nat) : CoherentAt size (m.fetch l) a := by
  intro copy hline
  rw [line_fetch] at hline
  rw [ram_fetch]
  split at hline
  · next hl =>
    rcases held : m.line l with _ | _
    · rw [held] at hline
      cases hline
      rfl
    · rw [held] at hline
      exact h copy (by rw [hl, held, ← hline, Option.getD_some])
  · exact h copy hline

theorem CleanAt.fetch (h : CleanAt size m a) (l : Nat) : CleanAt size (m.fetch l) a := by
  intro copy hline
  rw [line_fetch] at hline
  split at hline
  · next hl =>
    rcases held : m.line l with _ | _
    · rw [held] at hline
      cases hline
    · rw [held] at hline
      exact h copy (by rw [hl, held, ← hline, Option.getD_some])
  · exact h copy hline

theorem visible_fetch : (m.fetch l).visible size a = m.visible size a := by
  rw [visible, visible, line_fetch, ram_fetch]
  by_cases hl : a / size = l
  · rw [if_pos hl, hl]
    rcases m.line l with _ | _ <;> rfl
  · rw [if_neg hl]

theorem line_cleanInvalidate : (m.cleanInvalidate size l).line = Function.update m.line l none := by
  rw [cleanInvalidate]
  split <;> rfl

/-- Writing back settles the line in memory. -/
theorem ram_cleanInvalidate : (m.cleanInvalidate size l).ram a = if a / size = l then m.settled size a else m.ram a := by
  by_cases hl : a / size = l
  · subst hl
    rw [if_pos rfl, cleanInvalidate, settled]
    split <;> simp
  · rw [if_neg hl, cleanInvalidate]
    split <;> simp [hl]

theorem CoherentAt.cleanInvalidate (h : CoherentAt size m a) (l : Nat) :
    CoherentAt size (m.cleanInvalidate size l) a := by
  intro copy hline
  by_cases hl : a / size = l
  · simp [line_cleanInvalidate, hl] at hline
  · rw [line_cleanInvalidate, Function.update_of_ne hl] at hline
    rw [ram_cleanInvalidate, if_neg hl]
    exact h copy hline

theorem CleanAt.cleanInvalidate (h : CleanAt size m a) (l : Nat) : CleanAt size (m.cleanInvalidate size l) a := by
  intro copy hline
  by_cases hl : a / size = l
  · simp [line_cleanInvalidate, hl] at hline
  · rw [line_cleanInvalidate, Function.update_of_ne hl] at hline
    exact h copy hline

theorem CoherentAt.visible_cleanInvalidate (h : CoherentAt size m a) (l : Nat) :
    (m.cleanInvalidate size l).visible size a = m.visible size a := by
  rw [WriteBack.visible_cleanInvalidate, h.settled, ite_self]

theorem CoherentAt.cleanInvalidateFrom (h : CoherentAt size m a) (n l : Nat) :
    CoherentAt size (m.cleanInvalidateFrom size n l) a := by
  induction n generalizing m l with
  | zero => exact h
  | succ n ih => exact ih (h.cleanInvalidate l) (l + 1)

theorem Coherent.cleanInvalidateFrom (h : Coherent size m) (n l : Nat) :
    Coherent size (m.cleanInvalidateFrom size n l) := fun a => (h a).cleanInvalidateFrom n l

theorem Coherent.visible_cleanInvalidateFrom (h : Coherent size m) (n l : Nat) :
    (m.cleanInvalidateFrom size n l).visible size a = m.visible size a := by
  rw [WriteBack.visible_cleanInvalidateFrom, (h a).settled, ite_self]

/-- The lines that are cleaned and invalidated are no longer in the cache. -/
theorem line_cleanInvalidateFrom {k : Nat} : (m.cleanInvalidateFrom size n l).line k =
    if l ≤ k ∧ k < l + n then none else m.line k := by
  induction n generalizing m l with
  | zero => rw [WriteBack.cleanInvalidateFrom, if_neg (by omega)]
  | succ n ih =>
      rw [WriteBack.cleanInvalidateFrom, ih, line_cleanInvalidate]
      by_cases hk : k = l
      · simp [hk]
      · rw [Function.update_of_ne hk]
        exact if_congr (by omega) rfl rfl

/-! ## What a device reads -/

/-- At `a` a device reads what the CPU reads. -/
def Shown (size : Nat) (m : WriteBack β) (a : Nat) : Prop := m.ram a = m.visible size a

theorem shown_of_no_line (h : m.line (a / size) = none) : Shown size m a := by rw [Shown, visible, h]

theorem Shown.fetch (h : Shown size m a) (l : Nat) : Shown size (m.fetch l) a := by
  rw [Shown, ram_fetch, visible_fetch, h]

theorem Shown.evict (h : Shown size m a) (hc : CoherentAt size m a) (l : Nat) :
    Shown size (m.cleanInvalidate size l) a := by
  rw [Shown, ram_cleanInvalidate, hc.visible_cleanInvalidate, hc.settled, h, ite_self]

/-! ## Runs of the cache -/

theorem Drift.coherentAt (h : Drift size m m') (hc : CoherentAt size m a) : CoherentAt size m' a := by
  induction h with
  | refl => exact hc
  | fetch _ l ih => exact ih.fetch l
  | evict _ l ih => exact ih.cleanInvalidate l

theorem Drift.coherent (h : Drift size m m') (hc : Coherent size m) : Coherent size m' := fun a => h.coherentAt (hc a)

theorem Drift.visible (h : Drift size m m') (hc : CoherentAt size m a) : m'.visible size a = m.visible size a := by
  induction h with
  | refl => rfl
  | fetch _ l ih => rw [visible_fetch, ih]
  | evict h l ih => rw [(h.coherentAt hc).visible_cleanInvalidate, ih]

theorem Drift.shown (h : Drift size m m') (hc : CoherentAt size m a) (hs : Shown size m a) : Shown size m' a := by
  induction h with
  | refl => exact hs
  | fetch _ l ih => exact ih.fetch l
  | evict h l ih => exact ih.evict (h.coherentAt hc) l

/-- What need not be written back stays as it is in memory. -/
theorem Drift.clean (h : Drift size m m') (hc : CleanAt size m a) : CleanAt size m' a ∧ m'.ram a = m.ram a := by
  induction h with
  | refl => exact ⟨hc, rfl⟩
  | fetch _ l ih => exact ⟨ih.1.fetch l, by rw [ram_fetch, ih.2]⟩
  | evict _ l ih =>
      refine ⟨ih.1.cleanInvalidate l, ?_⟩
      rw [ram_cleanInvalidate, ih.1.settled, ih.2, ite_self]

/-! ## Buffers that a device reads and writes -/

/-- A buffer is handed to a device and taken back: its lines are cleaned and invalidated before the device runs and again
afterwards. The device reads what the CPU wrote, the CPU reads what the device wrote, and everything else stays. -/
theorem exchange {m₁ m₂ : WriteBack β} (b : Nat) (vs : List β) (hm : Coherent size m)
    (h₁ : Drift size (m.cleanInvalidateFrom size n l) m₁) (h₂ : Drift size (m₁.deviceWrite b vs) m₂)
    (hin : ∀ i < vs.length, l ≤ (b + i) / size ∧ (b + i) / size < l + n) :
    let m₃ := m₂.cleanInvalidateFrom size n l
    (∀ a, l ≤ a / size → a / size < l + n → m₁.ram a = m.visible size a) ∧
      (∀ i v, vs[i]? = some v → m₃.visible size (b + i) = v) ∧
      (∀ a, a < b ∨ b + vs.length ≤ a → m₃.visible size a = m.visible size a) ∧ Coherent size m₃ := by
  intro m₃
  have hgone {a : Nat} (ha : l ≤ a / size ∧ a / size < l + n) :
      (m.cleanInvalidateFrom size n l).line (a / size) = none := by rw [line_cleanInvalidateFrom, if_pos ha]
  have hsent {a : Nat} (ha : l ≤ a / size ∧ a / size < l + n) : CleanAt size m₁ a ∧ m₁.ram a = m.visible size a := by
    obtain ⟨hclean, hram⟩ := h₁.clean (cleanAt_of_no_line (hgone ha))
    refine ⟨hclean, ?_⟩
    rw [hram, shown_of_no_line (hgone ha), hm.visible_cleanInvalidateFrom]
  have hback {a : Nat} (ha : l ≤ a / size ∧ a / size < l + n) :
      m₃.visible size a = (m₁.deviceWrite b vs).ram a := by
    obtain ⟨hclean, hram⟩ := h₂.clean (a := a) (hsent ha).1
    rw [visible_cleanInvalidateFrom, if_pos ha, hclean.settled, hram]
  have hkept {a : Nat} (hout : a < b ∨ b + vs.length ≤ a) : CoherentAt size (m₁.deviceWrite b vs) a := by
    intro copy hline
    rw [ram_deviceWrite_outside hout]
    exact (h₁.coherent (hm.cleanInvalidateFrom n l)) a copy hline
  refine ⟨fun a hlo hhi => (hsent ⟨hlo, hhi⟩).2, fun i v hv => ?_, fun a hout => ?_, fun a => ?_⟩
  · rw [hback (hin i (List.getElem?_eq_some_iff.mp hv).1), ram_deviceWrite_of_getElem? hv]
  · by_cases ha : l ≤ a / size ∧ a / size < l + n
    · rw [hback ha, ram_deviceWrite_outside hout, (hsent ha).2]
    · rw [visible_cleanInvalidateFrom, if_neg ha, h₂.visible (hkept hout), visible_deviceWrite_outside hout,
        h₁.visible ((hm.cleanInvalidateFrom n l) a), hm.visible_cleanInvalidateFrom]
  · by_cases ha : l ≤ a / size ∧ a / size < l + n
    · exact coherentAt_of_no_line (by rw [line_cleanInvalidateFrom, if_pos ha])
    · have hout : a < b ∨ b + vs.length ≤ a := by
        by_contra hc
        exact ha (by simpa [show b + (a - b) = a by omega] using hin (a - b) (by omega))
      exact (h₂.coherentAt (hkept hout)).cleanInvalidateFrom n l

end WriteBack

end Ferro
