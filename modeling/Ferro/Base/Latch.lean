import Mathlib.Order.BooleanAlgebra.Basic

/-!
# Registers whose bits latch

A device sets bits of a register at any time. A set bit stays until software clears it, with a write in which it is
set. A trace has the accesses of software in order, each with what the device has set since the one before.
-/

namespace Ferro.Latch

variable {α : Type*}

inductive Op (α : Type*) where
  | read (v : α)
  | write (v : α)
  | other

structure Access (α : Type*) where
  raised : α
  op : Op α

def Access.IsRead (a : Access α) : Prop := ∃ v, a.op = .read v

variable [GeneralizedBooleanAlgebra α]

/-- The content of the register behind an access. -/
def Access.after (s : α) (a : Access α) : α :=
  match a.op with
  | .write v => (s ⊔ a.raised) \ v
  | _ => s ⊔ a.raised

/-- A read finds the content. -/
def Access.Reads (s : α) (a : Access α) : Prop := ∀ v, a.op = .read v → v = s ⊔ a.raised

/-- The trace takes the content from the first to the second. -/
inductive Runs : α → List (Access α) → α → Prop where
  | nil {s : α} : Runs s [] s
  | cons {s s' : α} {a : Access α} {l : List (Access α)} (h : a.Reads s) (hl : Runs (a.after s) l s') :
      Runs s (a :: l) s'

/-- No write clears a bit of the mask. -/
def Spares (m : α) (l : List (Access α)) : Prop := ∀ a ∈ l, ∀ v, a.op = .write v → Disjoint v m

/-- No read finds a bit of the mask. -/
def Clean (m : α) (l : List (Access α)) : Prop := ∀ a ∈ l, ∀ v, a.op = .read v → Disjoint v m

/-- The device sets no bit of the mask before a read. -/
def Quiet (m : α) (l : List (Access α)) : Prop :=
  ∀ before a after, l = before ++ a :: after → (∃ b ∈ a :: after, b.IsRead) → Disjoint a.raised m

variable {s s' s'' m v : α} {a : Access α} {l l' : List (Access α)}

theorem Runs.append (h : Runs s l s') (h' : Runs s' l' s'') : Runs s (l ++ l') s'' := by
  induction h with
  | nil => exact h'
  | cons hr _ ih => exact .cons hr (ih h')

theorem runs_append : Runs s (l ++ l') s'' ↔ ∃ s', Runs s l s' ∧ Runs s' l' s'' := by
  refine ⟨fun h => ?_, fun ⟨_, h, h'⟩ => h.append h'⟩
  induction l generalizing s with
  | nil => exact ⟨s, .nil, h⟩
  | cons a l ih =>
      cases h with
      | cons hr hl =>
          obtain ⟨s', h, h'⟩ := ih hl
          exact ⟨s', .cons hr h, h'⟩

theorem after_of_isRead (h : a.op = .read v) : a.after s = s ⊔ a.raised := by
  rw [Access.after, h]

/-- An access that clears no bit of the mask. -/
theorem disjoint_after (h : Spares m [a]) : Disjoint (a.after s) m ↔ Disjoint s m ∧ Disjoint a.raised m := by
  rw [← disjoint_sup_left, Access.after]
  cases hop : a.op with
  | write v =>
      have hv : Disjoint v m := h a (List.mem_singleton_self a) v hop
      constructor
      · intro hd
        have hsup : s ⊔ a.raised ≤ (s ⊔ a.raised) \ v ⊔ v := le_sdiff_sup
        exact (disjoint_sup_left.mpr ⟨hd, hv⟩).mono_left hsup
      · exact fun hd => hd.mono_left sdiff_le
  | read v => rfl
  | other => rfl

theorem spares_cons : Spares m (a :: l) ↔ Spares m [a] ∧ Spares m l := by
  simp [Spares]

/-- What a read does not find was not there before. -/
theorem Runs.disjoint_of_read (h : Runs s (l ++ a :: l') s') (hs : Spares m l) (ha : a.op = .read v)
    (hv : Disjoint v m) : Disjoint s m := by
  induction l generalizing s with
  | nil =>
      cases h with
      | cons hr _ =>
          rw [hr v ha] at hv
          exact (disjoint_sup_left.mp hv).1
  | cons b l ih =>
      obtain ⟨hb, hs⟩ := spares_cons.mp hs
      cases h with
      | cons _ hl => exact ((disjoint_after hb).mp (ih hl hs)).1

/-- What a read does not find no earlier one finds. -/
theorem Runs.clean_of_read (h : Runs s (l ++ a :: l') s') (hs : Spares m l) (ha : a.op = .read v)
    (hv : Disjoint v m) : Clean m l := by
  intro b hb w hw
  obtain ⟨l₁, l₂, rfl⟩ := List.append_of_mem hb
  rw [List.append_assoc, List.cons_append] at h
  obtain ⟨s₁, -, h₂⟩ := runs_append.mp h
  cases h₂ with
  | cons hr hl =>
      have hs₂ : Spares m l₂ := fun c hc => hs c (by simp [hc])
      rw [hr w hw, ← after_of_isRead hw]
      exact hl.disjoint_of_read hs₂ ha hv

theorem quiet_cons : Quiet m (a :: l) ↔ ((∃ b ∈ a :: l, b.IsRead) → Disjoint a.raised m) ∧ Quiet m l := by
  constructor
  · intro h
    exact ⟨h [] a l rfl, fun before b after hl => h (a :: before) b after (by rw [hl, List.cons_append])⟩
  · rintro ⟨ha, hl⟩ before b after hsplit hread
    cases before with
    | nil =>
        obtain ⟨rfl, rfl⟩ := List.cons.inj hsplit
        exact ha hread
    | cons c before => exact hl before b after (List.cons.inj hsplit).2 hread

theorem clean_cons : Clean m (a :: l) ↔ Clean m [a] ∧ Clean m l := by
  simp [Clean]

theorem clean_of_no_read (h : ¬ ∃ b ∈ l, b.IsRead) : Clean m l :=
  fun b hb v hv => absurd ⟨b, hb, v, hv⟩ h

theorem quiet_of_no_read (h : ¬ ∃ b ∈ l, b.IsRead) : Quiet m l := by
  rintro before a after rfl ⟨b, hb, hv⟩
  exact absurd ⟨b, List.mem_append_right before hb, hv⟩ h

/-- What is set before a read that does not find it is not of the mask. -/
theorem Runs.disjoint_raised (h : Runs s (a :: l) s') (hs : Spares m (a :: l)) (hclean : Clean m (a :: l))
    (hread : ∃ b ∈ a :: l, b.IsRead) : Disjoint a.raised m := by
  obtain ⟨ha, hs⟩ := spares_cons.mp hs
  obtain ⟨b, hb, v, hv⟩ := hread
  have hv' := hclean b hb v hv
  cases h with
  | cons hr hl =>
      rcases List.mem_cons.mp hb with rfl | hb
      · rw [hr v hv] at hv'
        exact (disjoint_sup_left.mp hv').2
      · obtain ⟨l₁, l₂, rfl⟩ := List.append_of_mem hb
        have hs₁ : Spares m l₁ := fun c hc => hs c (by simp [hc])
        exact ((disjoint_after ha).mp (hl.disjoint_of_read hs₁ hv hv')).2

/-- While nothing is cleared, the reads find no bit of the mask if and only if the device sets none before one. -/
theorem Runs.clean_iff_quiet (h : Runs s l s') (hs : Spares m l) (hd : Disjoint s m) : Clean m l ↔ Quiet m l := by
  induction h with
  | nil => simp [Clean, Quiet]
  | @cons s s' a l hr hl ih =>
      have ⟨ha, hs'⟩ := spares_cons.mp hs
      by_cases hread : ∃ b ∈ a :: l, b.IsRead
      · have htail (hraised : Disjoint a.raised m) : Clean m l ↔ Quiet m l :=
          ih hs' ((disjoint_after ha).mpr ⟨hd, hraised⟩)
        constructor
        · intro hclean
          have hraised := (Runs.cons hr hl).disjoint_raised hs hclean hread
          exact quiet_cons.mpr ⟨fun _ => hraised, (htail hraised).mp (clean_cons.mp hclean).2⟩
        · intro hquiet
          obtain ⟨hraised, hrest⟩ := quiet_cons.mp hquiet
          refine clean_cons.mpr ⟨fun b hb v hv => ?_, (htail (hraised hread)).mpr hrest⟩
          obtain rfl := List.mem_singleton.mp hb
          rw [hr v hv]
          exact disjoint_sup_left.mpr ⟨hd, hraised hread⟩
      · exact iff_of_true (clean_of_no_read hread) (quiet_of_no_read hread)

end Ferro.Latch
