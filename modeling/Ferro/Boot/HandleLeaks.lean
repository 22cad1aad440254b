import Ferro.Boot.Lemmas.Bindings
import Ferro.Boot.Theorems
import Mathlib.Data.Finset.Card

/-!
# Handles that leak

Every call that puts a handle in use installs a protocol on it. A handle that loses its last protocol stays in use, and
nothing takes it back.
-/

namespace Ferro

namespace ProtocolDb

variable {hs hs' : Handles} {i j : Fin maxHandles} {guid : EfiGuid} {handle existing interface : UInt64} {b : Bool}

/-- The entry has a protocol. -/
def Carries (h : HandleEntry) : Prop := ∃ j, h.protocols.get j ≠ none

/-- Every live handle carries a protocol, but for the one at `i`. -/
def OccupiedBut (i : Fin maxHandles) (hs : Handles) : Prop := ∀ j ≠ i, (hs.get j).inUse = true → Carries (hs.get j)

/-- Every live handle carries a protocol. -/
def Occupied (hs : Handles) : Prop := ∀ i, (hs.get i).inUse = true → Carries (hs.get i)

theorem occupied_empty : Occupied empty := by
  intro i hi
  cases hi

theorem Occupied.but (h : Occupied hs) (i : Fin maxHandles) : OccupiedBut i hs := fun j _ => h j

theorem OccupiedBut.occupied (h : OccupiedBut i hs) (hi : Carries (hs.get i)) : Occupied hs := by
  intro j hj
  by_cases hji : j = i
  · rw [hji]
    exact hi
  · exact h j hji hj

theorem OccupiedBut.set (h : OccupiedBut i hs) (entry : HandleEntry) : OccupiedBut i (hs.set i entry) := by
  intro j hj huse
  rw [Arr.get_set_of_ne _ _ hj] at huse ⊢
  exact h j hj huse

theorem inUse_set (protocols : Arr (Option ProtocolEntry) maxProtocolsPerHandle) (j : Fin maxHandles) :
    ((hs.set i { hs.get i with protocols }).get j).inUse = (hs.get j).inUse := by
  by_cases hj : j = i
  · rw [hj, Arr.get_set_self]
  · rw [Arr.get_set_of_ne _ _ hj]

/-! ## The operations -/

/-- After `install` the handle carries a protocol, also where it found no free slot. -/
theorem install_occupied (h : OccupiedBut i hs) (hins : install hs i guid interface = (b, hs')) : Occupied hs' := by
  unfold install at hins
  dsimp only at hins
  split at hins
  case h_1 k _ =>
    cases hins
    refine (h.set _).occupied ⟨k, ?_⟩
    rw [Arr.get_set_self]
    simp
  case h_2 hfull =>
    cases hins
    refine h.occupied ⟨⟨0, by decide⟩, fun hnone => ?_⟩
    have hfull := Arr.find?_eq_none.mp hfull ⟨0, by decide⟩
    rw [hnone] at hfull
    cases hfull

theorem install_inUse (hins : install hs i guid interface = (b, hs')) (j : Fin maxHandles) :
    (hs'.get j).inUse = (hs.get j).inUse := by
  unfold install at hins
  dsimp only at hins
  split at hins
  · cases hins
    exact inUse_set _ j
  · cases hins
    rfl

theorem uninstall_occupiedBut (h : Occupied hs) (hun : uninstall hs i guid = (b, hs')) : OccupiedBut i hs' := by
  unfold uninstall at hun
  dsimp only at hun
  split at hun
  · cases hun
    exact (h.but i).set _
  · cases hun
    exact h.but i

theorem uninstall_inUse (hun : uninstall hs i guid = (b, hs')) (j : Fin maxHandles) :
    (hs'.get j).inUse = (hs.get j).inUse := by
  unfold uninstall at hun
  dsimp only at hun
  split at hun
  · cases hun
    exact inUse_set _ j
  · cases hun
    rfl

theorem findOrCreateHandle_occupied {found : Option (Fin maxHandles)} (h : Occupied hs)
    (hf : findOrCreateHandle hs existing = some (found, hs')) :
    (found = none → Occupied hs') ∧ ∀ i, found = some i → OccupiedBut i hs' := by
  unfold findOrCreateHandle at hf
  split at hf
  · obtain ⟨r, _, hf⟩ := Option.map_eq_some_iff.mp hf
    cases hf
    exact ⟨fun _ => h, fun i _ => h.but i⟩
  · split at hf
    · cases hf
      refine ⟨nofun, fun i hi => ?_⟩
      cases hi
      exact (h.but _).set _
    · cases hf
      exact ⟨fun _ => h, nofun⟩

/-! ## Free handles -/

/-- The entries that `InstallProtocolInterface` can still put in use. -/
def freeHandles (hs : Handles) : Nat := (Finset.univ.filter fun i => (hs.get i).inUse = false).card

theorem freeHandles_congr (h : ∀ j, (hs'.get j).inUse = (hs.get j).inUse) : freeHandles hs' = freeHandles hs := by
  simp only [freeHandles, h]

theorem freeHandles_create (h : findOrCreateHandle hs 0 = some (some i, hs')) :
    freeHandles hs' + 1 = freeHandles hs := by
  simp only [findOrCreateHandle, handleToIndex, if_true] at h
  split at h
  case h_2 => cases h
  case h_1 k hk =>
    cases h
    have hfree : (hs.get i).inUse = false := by simpa using Arr.find?_eq_some hk
    have herase : (Finset.univ.filter fun j => ((hs.set i { emptyHandle with inUse := true }).get j).inUse = false) =
        (Finset.univ.filter fun j => (hs.get j).inUse = false).erase i := by
      ext j
      rw [Finset.mem_erase, Finset.mem_filter_univ, Finset.mem_filter_univ]
      by_cases hj : j = i
      · rw [hj, Arr.get_set_self]
        simp
      · rw [Arr.get_set_of_ne _ _ hj]
        simp [hj]
    rw [freeHandles, herase, freeHandles]
    exact Finset.card_erase_add_one ((Finset.mem_filter_univ i).mpr hfree)

theorem indexOf_handleForIndex (huse : (hs.get i).inUse = true) : indexOf hs (handleForIndex i) = some (some i) := by
  rw [indexOf, handleToIndex_handleForIndex]
  dsimp only
  rw [live_val, if_pos huse]

theorem holds_ne_none {slot : Option ProtocolEntry} (h : holds guid slot = true) : slot ≠ none := by
  rintro rfl
  cases h

/-- A handle is left without a protocol exactly if the slot that is cleared was its last. -/
theorem carries_clear {h : HandleEntry} {k : Fin maxProtocolsPerHandle} :
    Carries { h with protocols := h.protocols.set k none } ↔ ∃ m ≠ k, h.protocols.get m ≠ none := by
  constructor
  · rintro ⟨m, hm⟩
    have hmk : m ≠ k := by
      rintro rfl
      exact hm (Arr.get_set_self _ _ _)
    exact ⟨m, hmk, by rwa [Arr.get_set_of_ne _ _ hmk] at hm⟩
  · rintro ⟨m, hmk, hm⟩
    exact ⟨m, by rwa [Arr.get_set_of_ne _ _ hmk]⟩

end ProtocolDb

namespace Boot

open ProtocolDb

variable {image : Image} {s s₁ s₂ s' : Boot} {c : Call} {r : Reply} {log : List Made} {handle interface : UInt64}
  {guid : EfiGuid} {n : Nat}

/-! ## The calls -/

/-- The call uninstalls the only protocol of a live handle. -/
def TakesLast (hs : Handles) : Call → Prop
  | .uninstallProtocolInterface handle (some guid) => ∃ i, handle = handleForIndex i ∧ (hs.get i).inUse = true ∧
      ∃ j, holds guid ((hs.get i).protocols.get j) = true ∧ ∀ k ≠ j, (hs.get i).protocols.get k = none
  | _ => False

theorem installProtocolInterface_occupied {handle : Option UInt64} {protocol : Option EfiGuid} (ho : Occupied s.handles)
    (h : s.installProtocolInterface handle protocol interface = some (r, s')) : Occupied s'.handles := by
  cases installProtocolInterface_cases h with
  | null _ => exact ho
  | refused hfind => exact (findOrCreateHandle_occupied ho hfind).1 rfl
  | full hfind hins => exact install_occupied ((findOrCreateHandle_occupied ho hfind).2 _ rfl) hins
  | done hfind hins => exact install_occupied ((findOrCreateHandle_occupied ho hfind).2 _ rfl) hins

theorem reinstallProtocolInterface_occupied {protocol : Option EfiGuid} (ho : Occupied s.handles)
    (h : s.reinstallProtocolInterface handle protocol interface = some (r, s')) : Occupied s'.handles := by
  cases reinstallProtocolInterface_cases h with
  | null => exact ho
  | dead _ => exact ho
  | full _ hins => exact install_occupied (uninstall_occupiedBut ho rfl) hins
  | done _ hins => exact install_occupied (uninstall_occupiedBut ho rfl) hins

theorem loadImage_occupied {parent size : UInt64} {src : Option Ptr8} {out : OutPtr} (ho : Occupied s.handles)
    (h : s.loadImage image parent src size out = some (r, s')) : Occupied s'.handles := by
  cases loadImage_cases h with
  | declined _ _ => exact ho
  | rejected _ _ => exact ho
  | refused _ _ hfind => exact (findOrCreateHandle_occupied ho hfind).1 rfl
  | full _ _ hfind hins => exact install_occupied ((findOrCreateHandle_occupied ho hfind).2 _ rfl) hins
  | done _ _ hfind hins => exact install_occupied ((findOrCreateHandle_occupied ho hfind).2 _ rfl) hins

/-- A handle loses a GUID: it stays occupied unless that was its last. -/
theorem uninstall_occupied {hs : Handles} {i : Fin maxHandles} {b : Bool} (ho : Occupied s.handles)
    (huse : (s.handles.get i).inUse = true) (hun : uninstall s.handles i guid = (b, hs)) :
    Occupied hs ↔ ¬ TakesLast s.handles (.uninstallProtocolInterface (handleForIndex i) (some guid)) := by
  unfold uninstall at hun
  dsimp only at hun
  cases hk : (s.handles.get i).protocols.find? (holds guid) with
  | none =>
      rw [hk] at hun
      cases hun
      refine iff_of_true ho ?_
      rintro ⟨j, hj, _, k, hholds, _⟩
      cases handleForIndex_inj hj
      rw [Arr.find?_eq_none.mp hk k] at hholds
      cases hholds
  | some k =>
      rw [hk] at hun
      cases hun
      have hholds : holds guid ((s.handles.get i).protocols.get k) = true := Arr.find?_eq_some hk
      constructor
      · rintro hocc ⟨j, hj, _, m, _, hothers⟩
        cases handleForIndex_inj hj
        -- the slot that was found is the one that is left
        have hkm : k = m := by
          by_contra hne
          exact holds_ne_none hholds (hothers k hne)
        subst hkm
        have hi := hocc i
        rw [Arr.get_set_self] at hi
        obtain ⟨m, hmk, hm⟩ := carries_clear.mp (hi huse)
        exact hm (hothers m hmk)
      · intro hno
        refine ((ho.but i).set _).occupied ?_
        rw [Arr.get_set_self, carries_clear]
        by_contra hall
        refine hno ⟨i, rfl, huse, k, hholds, fun m hm => ?_⟩
        by_contra hne
        exact hall ⟨m, hm, hne⟩

theorem uninstallProtocolInterface_occupied {protocol : Option EfiGuid} (ho : Occupied s.handles)
    (h : s.uninstallProtocolInterface handle protocol = some (r, s')) :
    Occupied s'.handles ↔ ¬ TakesLast s.handles (.uninstallProtocolInterface handle protocol) := by
  cases uninstallProtocolInterface_cases h with
  | null => exact iff_of_true ho not_false
  | dead hfound =>
      refine iff_of_true ho ?_
      rintro ⟨i, rfl, huse, _⟩
      cases hfound.symm.trans (indexOf_handleForIndex huse)
  | absent hfound hun =>
      obtain ⟨rfl, huse⟩ := indexOf_eq_some hfound
      exact uninstall_occupied ho huse hun
  | done hfound hun =>
      obtain ⟨rfl, huse⟩ := indexOf_eq_some hfound
      exact uninstall_occupied ho huse hun

/-- One call keeps every live handle occupied, unless it takes the last protocol of one. -/
theorem step_occupied (ho : Occupied s.handles) (h : s.step image c = some (r, s')) :
    Occupied s'.handles ↔ ¬ TakesLast s.handles c := by
  cases hc : c.binds with
  | false =>
      rw [step_handles h hc]
      refine iff_of_true ho ?_
      cases c with
      | uninstallProtocolInterface handle protocol => cases hc
      | _ => exact not_false
  | true =>
      cases c with
      | installProtocolInterface handle protocol interface =>
          exact iff_of_true (installProtocolInterface_occupied ho h) not_false
      | reinstallProtocolInterface handle protocol interface =>
          exact iff_of_true (reinstallProtocolInterface_occupied ho h) not_false
      | loadImage parent src size out => exact iff_of_true (loadImage_occupied ho h) not_false
      | uninstallProtocolInterface handle protocol => exact uninstallProtocolInterface_occupied ho h
      | _ => cases hc

theorem Run.occupied (h : Run image s log s') (ho : Occupied s.handles) :
    (∀ x ∈ log, Occupied x.after.handles) ↔ ∀ x ∈ log, ¬ TakesLast x.before.handles x.call := by
  induction log generalizing s with
  | nil => simp
  | cons x log ih =>
      obtain ⟨rfl, hx, hlog⟩ := h
      rw [List.forall_mem_cons, List.forall_mem_cons, step_occupied ho hx]
      refine and_congr_right fun hno => ?_
      exact ih hlog ((step_occupied ho hx).mpr hno)

/-! ## A protocol installed on a new handle and uninstalled -/

/-- `n` times: a protocol is installed on a new handle and uninstalled, and both calls return success. -/
def Pairs (image : Image) (guid : EfiGuid) (interface : UInt64) : Nat → Boot → Boot → Prop
  | 0, s, s' => s = s'
  | n + 1, s, s' => ∃ handle s₁ s₂,
    s.step image (.installProtocolInterface (some 0) (some guid) interface) =
        some (.word .success (some handle), s₁) ∧
      s₁.step image (.uninstallProtocolInterface handle (some guid)) = some (.just .success, s₂) ∧
      Pairs image guid interface n s₂ s'

theorem installProtocolInterface_new {out : Option UInt64}
    (h : s.step image (.installProtocolInterface (some 0) (some guid) interface) = some (.word .success out, s')) :
    freeHandles s'.handles + 1 = freeHandles s.handles := by
  have h : s.installProtocolInterface (some 0) (some guid) interface = some (.word .success out, s') := h
  cases installProtocolInterface_cases h with
  | done hfind hins =>
      dsimp only
      rw [freeHandles_congr (install_inUse hins)]
      exact freeHandles_create hfind

theorem uninstallProtocolInterface_inUse {protocol : Option EfiGuid}
    (h : s.uninstallProtocolInterface handle protocol = some (r, s')) (i : Fin maxHandles) :
    (s'.handles.get i).inUse = (s.handles.get i).inUse := by
  cases uninstallProtocolInterface_cases h with
  | null => rfl
  | dead _ => rfl
  | absent _ hun => exact uninstall_inUse hun i
  | done _ hun => exact uninstall_inUse hun i

/-- Each pair takes one handle for good. -/
theorem Pairs.freeHandles (h : Pairs image guid interface n s s') :
    ProtocolDb.freeHandles s'.handles + n = ProtocolDb.freeHandles s.handles := by
  induction n generalizing s with
  | zero =>
      cases h
      rfl
  | succ n ih =>
      obtain ⟨handle, s₁, s₂, hins, hun, hrest⟩ := h
      have hnew := installProtocolInterface_new hins
      have hun : s₁.uninstallProtocolInterface handle (some guid) = some (.just .success, s₂) := hun
      have hsame := freeHandles_congr (uninstallProtocolInterface_inUse hun)
      have hrest := ih hrest
      omega

/-- In every run, every live handle carries a protocol in every state if and only if no call uninstalls the only protocol
of a live handle. Installing on a new handle and uninstalling again never gives the handle back. -/
theorem occupied_iff {fbBase fbSize : UInt64} {mem : Mem} (h : Run image (init image fbBase fbSize mem) log s) :
    ((∀ x ∈ log, Occupied x.after.handles) ↔ ∀ x ∈ log, ¬ TakesLast x.before.handles x.call) ∧
      ∀ guid interface n t t', Pairs image guid interface n t t' →
        ProtocolDb.freeHandles t'.handles + n = ProtocolDb.freeHandles t.handles :=
  ⟨h.occupied occupied_empty, fun _ _ _ _ _ hpairs => hpairs.freeHandles⟩

/-- Two protocols are installed on a handle, and the first is uninstalled. -/
def oneStays (s₂ s₃ : Boot) : List Made :=
  [⟨bare, .installProtocolInterface (some 0) (some loadedImageProtocolGuid) 0x1000, .word .success (some 1), withHandle⟩,
    ⟨withHandle, .installProtocolInterface (some 1) (some simpleTextOutputProtocolGuid) 0x2000, .word .success (some 1), s₂⟩,
    ⟨s₂, .uninstallProtocolInterface 1 (some loadedImageProtocolGuid), .just .success, s₃⟩]

theorem occupied_bare : ∃ s₂ s₃,
    Run Memory.onePage bare (oneStays s₂ s₃) s₃ ∧ ∀ x ∈ oneStays s₂ s₃, Occupied x.after.handles := by
  have hrun : ∃ s₂ s₃, Run Memory.onePage bare (oneStays s₂ s₃) s₃ ∧
      (s₂.handles.get ⟨0, by decide⟩).protocols.get ⟨1, by decide⟩ = some ⟨simpleTextOutputProtocolGuid, 0x2000⟩ :=
    ⟨_, _, ⟨rfl, rfl, rfl, rfl, rfl, rfl, rfl⟩, rfl⟩
  obtain ⟨s₂, s₃, hrun, hsecond⟩ := hrun
  refine ⟨s₂, s₃, hrun, (occupied_iff hrun).1.mpr ?_⟩
  simp only [oneStays, List.mem_cons, List.not_mem_nil, or_false, forall_eq_or_imp, forall_eq]
  refine ⟨id, id, ?_⟩
  rintro ⟨i, hi, -, j, hholds, hnone⟩
  cases handleForIndex_inj (i := ⟨0, by decide⟩) hi
  by_cases hj : (⟨1, by decide⟩ : Fin maxProtocolsPerHandle) = j
  · rw [← hj, hsecond] at hholds
    exact absurd hholds (by decide)
  · rw [hnone _ hj] at hsecond
    cases hsecond

/-- After one pair a live handle has no protocol, and 33 pairs are not possible. -/
theorem leaks_bare : ∃ s₂,
    Run Memory.onePage bare [⟨bare, .installProtocolInterface (some 0) (some loadedImageProtocolGuid) 0x1000,
        .word .success (some 1), withHandle⟩,
      ⟨withHandle, .uninstallProtocolInterface 1 (some loadedImageProtocolGuid), .just .success, s₂⟩] s₂ ∧
    ¬ Occupied s₂.handles ∧ ∀ s', ¬ Pairs Memory.onePage loadedImageProtocolGuid 0x1000 33 bare s' := by
  refine ⟨_, ⟨rfl, rfl, rfl, rfl, rfl⟩, fun hocc => ?_, fun s' hpairs => ?_⟩
  · obtain ⟨j, hj⟩ := hocc ⟨0, by decide⟩ rfl
    revert j
    decide
  · have hfree := hpairs.freeHandles
    have hall : ProtocolDb.freeHandles bare.handles = 32 := by decide
    omega

end Boot

end Ferro
