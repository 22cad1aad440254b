import Ferro.Boot.Lemmas.Steps

/-!
# Runs of boot services calls

The generation counts the allocations of a run, the flag is only ever set by `ExitBootServices`, and the framebuffer
region stays.
-/

namespace Ferro

namespace Boot

variable {image : Image} {s s' : Boot} {c : Call} {r : Reply} {k : UInt64} {x : Made} {log log' : List Made}

theorem Run.append : Run image s (log ++ log') s' ↔ ∃ t, Run image s log t ∧ Run image t log' s' := by
  induction log generalizing s with
  | nil => simp [Run]
  | cons m log ih => simp [Run, ih, and_assoc]

theorem Run.step (h : Run image s log s') (hx : x ∈ log) :
    x.before.step image x.call = some (x.reply, x.after) := by
  induction log generalizing s with
  | nil => cases hx
  | cons m log ih =>
      cases hx with
      | head => exact h.1 ▸ h.2.1
      | tail _ hx => exact ih h.2.2 hx

/-- An allocation was made: the generation is another. -/
def Made.allocates (x : Made) : Bool := x.after.alloc ≠ x.before.alloc

/-- The number of allocations in a run. -/
def allocations (log : List Made) : Nat := log.countP Made.allocates

/-! ## One call -/

theorem exitBootServices_core (h : s.step image (.exitBootServices k) = some (r, s')) :
    s'.alloc = s.alloc ∧ s'.fbBase = s.fbBase ∧ s'.fbSize = s.fbSize := by
  have hframe := (step_touches h).frame
  exact ⟨hframe.alloc (by simp [Call.touches]), hframe.framebuffer⟩

theorem step_alloc (h : s.step image c = some (r, s')) :
    s'.alloc = s.alloc ∨ ∃ count base, Memory.allocatePages s.alloc count = some (base, s'.alloc) := by
  by_cases hc : ∃ k, c = .exitBootServices k
  · obtain ⟨k, rfl⟩ := hc
    exact Or.inl (exitBootServices_core h).1
  · have halloc := congrArg Prod.fst (step_core h (not_exists.mp hc))
    simp only [core, grantedCore] at halloc
    cases ha : s.asked c with
    | none => exact Or.inl (by rw [halloc, ha]; rfl)
    | some count =>
        rw [ha] at halloc
        cases hg : Memory.allocatePages s.alloc count with
        | none => exact Or.inl (by rw [halloc]; simp [granted, hg])
        | some p => exact Or.inr ⟨count, p.1, by rw [halloc, hg]; simp [granted, hg]⟩

theorem step_framebuffer (h : s.step image c = some (r, s')) : s'.fbBase = s.fbBase ∧ s'.fbSize = s.fbSize :=
  (step_touches h).frame.framebuffer

theorem step_exited (h : s.step image c = some (r, s')) (hne : ∀ k, c ≠ .exitBootServices k) :
    s'.exited = s.exited := congrArg (fun t => t.2.1) (step_core h hne)

theorem toNat_generation_succ (g : UInt64) : (g + 1).toNat = (g.toNat + 1) % 2 ^ 64 := by
  rw [UInt64.toNat_add]
  rfl

theorem generation_ne (g : UInt64) : g + 1 ≠ g := by
  intro h
  have hg := congrArg UInt64.toNat h
  have hlt := g.toNat_lt
  rw [toNat_generation_succ] at hg
  omega

theorem step_generation (h : x.before.step image x.call = some (x.reply, x.after)) :
    x.after.alloc.generation.toNat = (x.before.alloc.generation.toNat + allocations [x]) % 2 ^ 64 := by
  have hlt := x.before.alloc.generation.toNat_lt
  rcases step_alloc h with hs | ⟨count, base, hs⟩
  · have hno : x.allocates = false := by simp [Made.allocates, hs]
    rw [hs, allocations, List.countP_singleton, hno]
    exact (Nat.mod_eq_of_lt hlt).symm
  · obtain ⟨_, _, _, hgen⟩ := Memory.allocatePages_eq_some hs
    have hyes : x.allocates = true := by
      simp only [Made.allocates, decide_eq_true_eq]
      intro he
      rw [he] at hgen
      exact generation_ne _ hgen.symm
    rw [hgen, allocations, List.countP_singleton, hyes]
    exact toNat_generation_succ _

/-! ## Whole runs -/

theorem Run.generation (h : Run image s log s') :
    s'.alloc.generation.toNat = (s.alloc.generation.toNat + allocations log) % 2 ^ 64 := by
  induction log generalizing s with
  | nil =>
      cases h
      exact (Nat.mod_eq_of_lt (UInt64.toNat_lt _)).symm
  | cons x log ih =>
      obtain ⟨rfl, hx, hlog⟩ := h
      have hsum : allocations (x :: log) = allocations [x] + allocations log := by
        simp only [allocations, ← List.countP_append, List.singleton_append]
      rw [ih hlog, step_generation hx, hsum]
      omega

theorem Run.alloc (h : Run image s log s') (hn : allocations log = 0) : s'.alloc = s.alloc := by
  induction log generalizing s with
  | nil => cases h; rfl
  | cons x log ih =>
      obtain ⟨rfl, _, hlog⟩ := h
      have hnone := List.countP_eq_zero.mp hn
      have hx : x.after.alloc = x.before.alloc := by simpa [Made.allocates] using hnone x List.mem_cons_self
      rw [ih hlog (List.countP_eq_zero.mpr fun y hy => hnone y (List.mem_cons_of_mem x hy)), hx]

theorem Run.framebuffer (h : Run image s log s') : s'.fbBase = s.fbBase ∧ s'.fbSize = s.fbSize := by
  induction log generalizing s with
  | nil => cases h; exact ⟨rfl, rfl⟩
  | cons x log ih =>
      obtain ⟨rfl, hx, hlog⟩ := h
      obtain ⟨hb, hz⟩ := step_framebuffer hx
      obtain ⟨hb', hz'⟩ := ih hlog
      exact ⟨hb'.trans hb, hz'.trans hz⟩

/-- The map is the same in two states of a run with the same allocator. -/
theorem currentMap_congr (image : Image) (ha : s'.alloc = s.alloc) (hf : s'.fbBase = s.fbBase ∧ s'.fbSize = s.fbSize) :
    s'.currentMap image = s.currentMap image := by
  rw [currentMap, currentMap, ha, hf.1, hf.2]

/-- No `ExitBootServices` in the log returned success. -/
def Refused (log : List Made) : Prop :=
  ∀ x ∈ log, ∀ k, x.call = .exitBootServices k → x.reply.status ≠ some .success

theorem Run.not_exited (h : Run image s log s') (hs : ¬ s.exited) (hr : Refused log) : ¬ s'.exited := by
  induction log generalizing s with
  | nil => cases h; exact hs
  | cons x log ih =>
      obtain ⟨rfl, hx, hlog⟩ := h
      refine ih hlog ?_ fun y hy => hr y (List.mem_cons_of_mem x hy)
      by_cases hc : ∃ k, x.call = .exitBootServices k
      · obtain ⟨k, hk⟩ := hc
        have hno := hr x List.mem_cons_self k hk
        rw [hk] at hx
        rcases exitBootServices_cases hx with ⟨hrep, _⟩ | ⟨_, _, _, heq⟩ | ⟨hrep, _⟩
        · exact absurd (by rw [hrep]; rfl) hno
        · rw [heq]; exact hs
        · exact absurd (by rw [hrep]; rfl) hno
      · rw [step_exited hx (not_exists.mp hc)]
        exact hs

theorem step_keeps_exited (h : s.step image c = some (r, s')) (hs : s.exited) : s'.exited := by
  by_cases hc : ∃ k, c = .exitBootServices k
  · obtain ⟨k, rfl⟩ := hc
    rcases exitBootServices_cases h with ⟨_, _, rfl⟩ | ⟨_, _, _, rfl⟩ | ⟨_, _, _, rfl⟩
    · exact hs
    · exact hs
    · rfl
  · rw [step_exited h (not_exists.mp hc)]
    exact hs

theorem Run.exited (h : Run image s log s') (hs : s.exited) (hx : x ∈ log) : x.before.exited := by
  induction log generalizing s with
  | nil => cases hx
  | cons y log ih =>
      obtain ⟨rfl, hy, hlog⟩ := h
      cases hx with
      | head => exact hs
      | tail _ hx => exact ih hlog (step_keeps_exited hy hs) hx

end Boot

end Ferro
