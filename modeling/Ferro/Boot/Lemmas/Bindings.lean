import Ferro.Boot.Lemmas.Database

/-!
# What a call binds

The calls that can change the protocol database, and the others, which leave it alone.
-/

namespace Ferro

/-- The calls that can change the protocol database. -/
def Call.binds : Call → Bool
  | .installProtocolInterface _ _ _ => true
  | .reinstallProtocolInterface _ _ _ => true
  | .uninstallProtocolInterface _ _ => true
  | .loadImage _ _ _ _ => true
  | _ => false

namespace Boot

variable {image : Image} {s s' : Boot} {c : Call} {r : Reply}

theorem step_handles (h : s.step image c = some (r, s')) (hc : c.binds = false) : s'.handles = s.handles := by
  refine (step_touches h).frame.handles ?_
  cases c with
  | installProtocolInterface handle protocol interface => cases hc
  | reinstallProtocolInterface handle protocol interface => cases hc
  | uninstallProtocolInterface handle protocol => cases hc
  | loadImage parent src size handle => cases hc
  | _ => simp [Call.touches]

/-! ## The calls that bind -/

/-- The handle, the GUID and what is bound there after a call that returned success. -/
def Made.rebinds (image : Image) (x : Made) : Option (UInt64 × EfiGuid × Option UInt64) :=
  match x.call, x.reply with
  | .installProtocolInterface _ (some guid) interface, .word .success (some handle) => some (handle, guid, some interface)
  | .reinstallProtocolInterface handle (some guid) interface, .word .success _ => some (handle, guid, some interface)
  | .uninstallProtocolInterface handle (some guid), .word .success _ => some (handle, guid, none)
  | .loadImage _ _ _ _, .word .success (some handle) =>
    some (handle, loadedImageProtocolGuid,
      some (image.loadedImageProtocols + .ofNat ((handle.toNat - 1) * loadedImageSize)))
  | _, _ => none

/-- The bindings after a call. -/
def Made.rebound (image : Image) (f : UInt64 → EfiGuid → Option UInt64) (x : Made) : UInt64 → EfiGuid → Option UInt64 :=
  match x.rebinds image with
  | some (handle, guid, v) => ProtocolDb.rebind f handle guid v
  | none => f

/-- The call installs a GUID on a handle that has it already and has room for another entry. -/
def Duplicates (s : Boot) : Call → Prop
  | .installProtocolInterface (some handle) (some guid) _ =>
    (ProtocolDb.bindings s.handles handle guid).isSome ∧
      ∃ i j, handle = ProtocolDb.handleForIndex i ∧ (s.handles.get i).protocols.get j = none
  | _ => False

theorem Made.rebound_of_failed {x : Made} {f : UInt64 → EfiGuid → Option UInt64}
    (hx : x.reply.status ≠ some .success) : x.rebound image f = f := by
  have hnone : x.rebinds image = none := by
    unfold Made.rebinds
    split
    case h_5 => rfl
    all_goals
      rename_i hr
      rw [hr] at hx
      exact absurd rfl hx
  rw [Made.rebound, hnone]

section

open ProtocolDb

variable {handle : UInt64} {protocol : Option EfiGuid} {interface : UInt64}

theorem install_full {hs : Handles} {i : Fin maxHandles} {guid : EfiGuid}
    (h : ∀ j, (hs.get i).protocols.get j ≠ none) : install hs i guid interface = (false, hs) := by
  have hnone : (hs.get i).protocols.find? Option.isNone = none :=
    Arr.find?_eq_none.mpr fun j => Option.isNone_eq_false_iff.mpr (Option.isSome_iff_ne_none.mpr (h j))
  unfold install
  dsimp only
  rw [hnone]

/-- A GUID that is there already is only installed again where no slot is free. -/
theorem no_room {i : Fin maxHandles} {guid : EfiGuid}
    (hd : ¬ s.Duplicates (.installProtocolInterface (some (handleForIndex i)) (some guid) interface))
    (hsome : bound s.handles i guid ≠ none) (j : Fin maxProtocolsPerHandle) :
    (s.handles.get i).protocols.get j ≠ none := by
  intro hj
  refine hd ⟨?_, i, j, rfl, hj⟩
  rw [bindings_index]
  exact Option.isSome_iff_ne_none.mpr hsome

/-- Finding or creating the handle and installing the interface on it. -/
theorem findOrCreate_install {existing : UInt64} {guid : EfiGuid} {hs hs' : Handles} {i : Fin maxHandles} {ok : Bool}
    (hu : Unique s.handles)
    (hd : ¬ s.Duplicates (.installProtocolInterface (some existing) (some guid) interface))
    (hfind : findOrCreateHandle s.handles existing = some (some i, hs)) (hins : install hs i guid interface = (ok, hs')) :
    Unique hs' ∧ bindings hs' =
      if ok then rebind (bindings s.handles) (handleForIndex i) guid (some interface) else bindings s.handles := by
  obtain ⟨hu₁, hb₁, hi⟩ := findOrCreateHandle_spec hu hfind
  obtain ⟨huse, hcase⟩ := hi i rfl
  by_cases hnone : bound hs i guid = none
  · obtain ⟨hu₂, hb₂⟩ := install_spec hu₁ huse hnone hins
    exact ⟨hu₂, by rw [hb₂, hb₁]⟩
  · rcases hcase with ⟨_, hnew⟩ | ⟨rfl, rfl⟩
    · exact absurd (hnew guid) hnone
    · rw [install_full (no_room hd hnone)] at hins
      cases hins
      exact ⟨hu, rfl⟩

theorem installProtocolInterface_rebound {handle : Option UInt64} (hu : Unique s.handles)
    (hd : ¬ s.Duplicates (.installProtocolInterface handle protocol interface))
    (h : s.installProtocolInterface handle protocol interface = some (r, s')) :
    Unique s'.handles ∧ bindings s'.handles =
      Made.rebound image (bindings s.handles) ⟨s, .installProtocolInterface handle protocol interface, r, s'⟩ := by
  cases installProtocolInterface_cases h with
  | null _ => exact ⟨hu, (Made.rebound_of_failed (by simp [Reply.status])).symm⟩
  | refused hfind =>
      obtain ⟨hu₁, hb₁, _⟩ := findOrCreateHandle_spec hu hfind
      exact ⟨hu₁, hb₁⟩
  | full hfind hins => exact findOrCreate_install hu hd hfind hins
  | done hfind hins => exact findOrCreate_install hu hd hfind hins

theorem uninstallProtocolInterface_rebound (hu : Unique s.handles)
    (h : s.uninstallProtocolInterface handle protocol = some (r, s')) :
    Unique s'.handles ∧ bindings s'.handles =
      Made.rebound image (bindings s.handles) ⟨s, .uninstallProtocolInterface handle protocol, r, s'⟩ := by
  cases uninstallProtocolInterface_cases h with
  | null => exact ⟨hu, rfl⟩
  | dead _ => exact ⟨hu, rfl⟩
  | absent hfound hun =>
      obtain ⟨rfl, huse⟩ := indexOf_eq_some hfound
      obtain ⟨hu₁, _, _, hb₁⟩ := uninstall_spec hu huse hun
      exact ⟨hu₁, hb₁⟩
  | done hfound hun =>
      obtain ⟨rfl, huse⟩ := indexOf_eq_some hfound
      obtain ⟨hu₁, _, _, hb₁⟩ := uninstall_spec hu huse hun
      exact ⟨hu₁, hb₁⟩

theorem install_uninstall {hs hs' : Handles} {i : Fin maxHandles} {guid : EfiGuid} (interface : UInt64)
    (h : uninstall hs i guid = (true, hs')) :
    (install hs' i guid interface).1 = true := by
  unfold uninstall at h
  dsimp only at h
  split at h
  case h_2 => cases h
  case h_1 k hk =>
    cases h
    unfold install
    dsimp only
    split
    · rfl
    · rename_i hnone
      have hfull := Arr.find?_eq_none.mp hnone k
      simp at hfull

theorem rebind_rebind (f : UInt64 → EfiGuid → Option UInt64) (guid : EfiGuid) (v w : Option UInt64) :
    rebind (rebind f handle guid v) handle guid w = rebind f handle guid w := by
  simp [rebind]

/-- Removing the interface if it is there and installing it again, for which the slot is free then. -/
theorem uninstall_install {guid : EfiGuid} {hs : Handles} {i : Fin maxHandles} {ok : Bool} (hu : Unique s.handles)
    (huse : (s.handles.get i).inUse = true) (hins : install (uninstall s.handles i guid).2 i guid interface = (ok, hs)) :
    Unique hs ∧ bindings hs =
      if ok then rebind (bindings s.handles) (handleForIndex i) guid (some interface) else bindings s.handles := by
  cases hun : uninstall s.handles i guid with
  | mk removed hs₁ =>
      obtain ⟨hu₁, huse₁, hnone, hb₁⟩ := uninstall_spec hu huse hun
      rw [hun] at hins
      obtain ⟨hu₂, hb₂⟩ := install_spec hu₁ ((huse₁ i).trans huse) hnone hins
      refine ⟨hu₂, hb₂.trans ?_⟩
      cases removed with
      | false => rw [hb₁]; rfl
      | true =>
          have hroom := install_uninstall interface hun
          rw [hins] at hroom
          obtain rfl : ok = true := hroom
          rw [hb₁]
          exact rebind_rebind _ _ _ _

theorem reinstallProtocolInterface_rebound (hu : Unique s.handles)
    (h : s.reinstallProtocolInterface handle protocol interface = some (r, s')) :
    Unique s'.handles ∧ bindings s'.handles =
      Made.rebound image (bindings s.handles) ⟨s, .reinstallProtocolInterface handle protocol interface, r, s'⟩ := by
  cases reinstallProtocolInterface_cases h with
  | null => exact ⟨hu, rfl⟩
  | dead _ => exact ⟨hu, rfl⟩
  | full hfound hins =>
      obtain ⟨rfl, huse⟩ := indexOf_eq_some hfound
      exact uninstall_install hu huse hins
  | done hfound hins =>
      obtain ⟨rfl, huse⟩ := indexOf_eq_some hfound
      exact uninstall_install hu huse hins

theorem loadImage_rebound {parent size : UInt64} {src : Option Ptr8} {out : OutPtr} (hu : Unique s.handles)
    (h : s.loadImage image parent src size out = some (r, s')) :
    Unique s'.handles ∧ bindings s'.handles =
      Made.rebound image (bindings s.handles) ⟨s, .loadImage parent src size out, r, s'⟩ := by
  have hnew {i : Fin maxHandles} {hs : Handles} (hcase : (0 = (0 : UInt64) ∧ ∀ guid, bound hs i guid = none) ∨
      (0 : UInt64) = handleForIndex i ∧ hs = s.handles) : bound hs i loadedImageProtocolGuid = none := by
    rcases hcase with ⟨_, hnew⟩ | ⟨h0, _⟩
    · exact hnew _
    · have h0 := congrArg UInt64.toNat h0
      rw [toNat_handleForIndex] at h0
      exact absurd h0 (by simp)
  cases loadImage_cases h with
  | declined hst _ => exact ⟨hu, (Made.rebound_of_failed (by simpa [Reply.status] using hst)).symm⟩
  | rejected _ _ => exact ⟨hu, rfl⟩
  | refused _ _ hfind =>
      obtain ⟨hu₁, hb₁, _⟩ := findOrCreateHandle_spec hu hfind
      exact ⟨hu₁, hb₁⟩
  | @full _ _ _ _ _ i _ _ hfind hins =>
      obtain ⟨hu₁, hb₁, hi⟩ := findOrCreateHandle_spec hu hfind
      obtain ⟨huse, hcase⟩ := hi i rfl
      obtain ⟨hu₂, hb₂⟩ := install_spec hu₁ huse (hnew hcase) hins
      exact ⟨hu₂, hb₂.trans hb₁⟩
  | @done _ _ _ _ _ i _ _ hfind hins =>
      obtain ⟨hu₁, hb₁, hi⟩ := findOrCreateHandle_spec hu hfind
      obtain ⟨huse, hcase⟩ := hi i rfl
      obtain ⟨hu₂, hb₂⟩ := install_spec hu₁ huse (hnew hcase) hins
      refine ⟨hu₂, hb₂.trans ?_⟩
      have hindex : (handleForIndex i).toNat - 1 = i.val := by rw [toNat_handleForIndex]; rfl
      rw [hb₁]
      simp only [Made.rebound, Made.rebinds, hindex]
      rfl

end

/-! ## Whole runs -/

/-- One call keeps the GUIDs of a handle apart and rebinds what it says. -/
theorem step_rebound {x : Made} (hu : ProtocolDb.Unique x.before.handles) (hd : ¬ x.before.Duplicates x.call)
    (h : x.before.step image x.call = some (x.reply, x.after)) :
    ProtocolDb.Unique x.after.handles ∧
      ProtocolDb.bindings x.after.handles = x.rebound image (ProtocolDb.bindings x.before.handles) := by
  obtain ⟨s, c, r, s'⟩ := x
  cases hc : c.binds with
  | false =>
      have hsame := step_handles h hc
      have hnone : Made.rebinds image ⟨s, c, r, s'⟩ = none := by
        unfold Made.rebinds
        cases c <;> first | rfl | cases hc
      dsimp only at hsame ⊢
      rw [hsame, Made.rebound, hnone]
      exact ⟨hu, rfl⟩
  | true =>
      cases c with
      | installProtocolInterface handle protocol interface => exact installProtocolInterface_rebound hu hd h
      | reinstallProtocolInterface handle protocol interface => exact reinstallProtocolInterface_rebound hu h
      | uninstallProtocolInterface handle protocol => exact uninstallProtocolInterface_rebound hu h
      | loadImage parent src size out => exact loadImage_rebound hu h
      | _ => cases hc

/-- The bindings after the calls of a log. -/
def replay (image : Image) (f : UInt64 → EfiGuid → Option UInt64) (log : List Made) : UInt64 → EfiGuid → Option UInt64 :=
  log.foldl (Made.rebound image) f

theorem Run.replay {log : List Made} (h : Run image s log s') (hu : ProtocolDb.Unique s.handles)
    (hd : ∀ x ∈ log, ¬ x.before.Duplicates x.call) :
    ProtocolDb.Unique s'.handles ∧
      ProtocolDb.bindings s'.handles = Boot.replay image (ProtocolDb.bindings s.handles) log := by
  induction log generalizing s with
  | nil =>
      cases h
      exact ⟨hu, rfl⟩
  | cons x log ih =>
      obtain ⟨rfl, hx, hlog⟩ := h
      obtain ⟨hux, hbx⟩ := step_rebound hu (hd x List.mem_cons_self) hx
      obtain ⟨hu', hb'⟩ := ih hlog hux fun y hy => hd y (List.mem_cons_of_mem _ hy)
      exact ⟨hu', by rw [hb', hbx]; rfl⟩

end Boot

end Ferro
