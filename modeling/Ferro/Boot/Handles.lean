import Ferro.Boot.Lemmas.Database
import Ferro.Boot.Theorems

/-!
# Handles

A handle is an opaque value that the application passes back. The table is indexed with it before it is known to be one,
and a handle stays in use when its last protocol is gone.
-/

namespace Ferro

/-- A status that reports an error, no success and no warning. -/
def EfiStatus.IsError : EfiStatus → Prop
  | .success => False
  | .warnDeleteFailure => False
  | _ => True

/-- The value passed as an `EFI_HANDLE`. -/
def Call.handle : Call → Option UInt64
  | .handleProtocol handle _ _ => some handle
  | .openProtocol handle _ _ => some handle
  | .installProtocolInterface handle _ _ => handle
  | .reinstallProtocolInterface handle _ _ => some handle
  | .uninstallProtocolInterface handle _ => some handle
  | .protocolsPerHandle handle _ _ => some handle
  | .startImage imageHandle => some imageHandle
  | .unloadImage imageHandle => some imageHandle
  | _ => none

/-- The call asks for a new handle. -/
def Call.AsksNew : Call → Prop
  | .installProtocolInterface handle _ _ => handle = some 0
  | _ => False

/-- The call is not refused before it looks the handle up. -/
def Call.LooksUp (s : Boot) : Call → Prop
  | .handleProtocol _ protocol interface => protocol.isSome ∧ interface
  | .openProtocol _ protocol interface => protocol.isSome ∧ interface
  | .installProtocolInterface _ protocol _ => protocol.isSome
  | .reinstallProtocolInterface _ protocol _ => protocol.isSome
  | .uninstallProtocolInterface _ protocol => protocol.isSome
  | .protocolsPerHandle _ protocolBuffer protocolBufferCount => protocolBuffer ∧ protocolBufferCount
  | .startImage _ => ¬ s.exited
  | .unloadImage _ => True
  | _ => False

namespace ProtocolDb

variable {hs : Handles} {handle : UInt64} {guid : EfiGuid}

/-- The handle of an entry in use. -/
def LiveHandle (hs : Handles) (handle : UInt64) : Prop := ∃ i, handle = handleForIndex i ∧ (hs.get i).inUse = true

/-! ## The accessors all look up an index -/

theorem handleProtocol_eq_indexOf (hs : Handles) (handle : UInt64) (guid : EfiGuid) : handleProtocol hs handle guid =
    (indexOf hs handle).map fun r => r.bind fun i => (hs.get i).interface? guid := by
  rw [handleProtocol, indexOf]
  cases handleToIndex handle <;> rfl

theorem protocolsOnHandle_eq_indexOf (hs : Handles) (handle : UInt64) : protocolsOnHandle hs handle =
    (indexOf hs handle).map fun r => r.map fun i =>
      (hs.get i).protocols.toList.filterMap fun slot => slot.map ProtocolEntry.guid := by
  rw [protocolsOnHandle, indexOf]
  cases handleToIndex handle <;> rfl

theorem findOrCreateHandle_eq_indexOf (hs : Handles) (hne : handle ≠ 0) :
    findOrCreateHandle hs handle = (indexOf hs handle).map (·, hs) := by
  rw [findOrCreateHandle, indexOf, handleToIndex, if_neg hne]

/-- The only values that are not safe to look up are those behind the table. -/
theorem indexOf_eq_none_iff : indexOf hs handle = none ↔ maxHandles < handle.toNat := by
  unfold indexOf handleToIndex
  by_cases h : handle = 0
  · subst h
    simp
  · have hpos : handle.toNat ≠ 0 := fun h0 => h (UInt64.toNat_inj.mp h0)
    rw [if_neg h]
    simp only [live, checked, Option.map_eq_none_iff, dite_eq_right_iff, reduceCtorEq, imp_false]
    omega

theorem indexOf_dead (h : ¬ LiveHandle hs handle) {r : Option (Fin maxHandles)} (hr : indexOf hs handle = some r) :
    r = none := by
  cases r with
  | none => rfl
  | some i => exact absurd ⟨i, indexOf_eq_some hr⟩ h

end ProtocolDb

namespace Boot

open ProtocolDb

variable {image : Image} {s : Boot} {c : Call} {handle : UInt64}

/-! ## Every handle value -/

/-- The call returns, and refuses a value that is not a live handle with an error and an unchanged database. -/
structure Handled (image : Image) (s : Boot) (c : Call) (handle : UInt64) : Prop where
  returns : ∃ r s', s.step image c = some (r, s')
  refuses (r : Reply) (s' : Boot) : s.step image c = some (r, s') → ¬ LiveHandle s.handles handle → ¬ c.AsksNew →
    (∃ st, r.status = some st ∧ st.IsError) ∧ s'.handles = s.handles

/-- What a call does with the result `found` of looking its handle up. -/
structure Uses (s : Boot) (found : Option (Option (Fin maxHandles))) (res : Option (Reply × Boot)) : Prop where
  panics : found = none → res = none
  refuses : found = some none → ∃ r st, res = some (r, s) ∧ r.status = some st ∧ st.IsError
  goesOn (i : Fin maxHandles) : found = some (some i) → res.isSome

/-- A call that goes on with what it found, and refuses a value for which nothing was. -/
theorem Uses.of_bind {found : Option (Option (Fin maxHandles))} {k : Option (Fin maxHandles) → Option (Reply × Boot)}
    {r : Reply} {st : EfiStatus} (hk : k none = some (r, s)) (hst : r.status = some st) (herr : st.IsError)
    (hgoes : ∀ i, (k (some i)).isSome) : Uses s found (found.bind k) := by
  constructor
  · intro hfound
    rw [hfound]
    rfl
  · intro hfound
    rw [hfound]
    exact ⟨r, st, hk, hst, herr⟩
  · intro i hfound
    rw [hfound]
    exact hgoes i

theorem handleProtocol_uses {guid : EfiGuid} : Uses s (indexOf s.handles handle)
    ((s.handleProtocol handle (some guid) true).map (·, s)) := by
  simp only [Boot.handleProtocol, handleProtocol_eq_indexOf, Option.bind_eq_bind, Option.bind_map, Option.map_bind]
  refine Uses.of_bind rfl rfl trivial fun i => ?_
  dsimp only [Function.comp_apply]
  split <;> rfl

theorem step_uses (hc : c.handle = some handle) (hl : c.LooksUp s) (hnew : ¬ c.AsksNew) :
    Uses s (indexOf s.handles handle) (s.step image c) := by
  cases c with
  | handleProtocol h protocol interface =>
      cases hc
      obtain ⟨hp, rfl⟩ := hl
      obtain ⟨guid, rfl⟩ := Option.isSome_iff_exists.mp hp
      exact handleProtocol_uses
  | openProtocol h protocol interface =>
      cases hc
      obtain ⟨hp, rfl⟩ := hl
      obtain ⟨guid, rfl⟩ := Option.isSome_iff_exists.mp hp
      exact handleProtocol_uses
  | installProtocolInterface h protocol interface =>
      cases hc
      obtain ⟨guid, rfl⟩ := Option.isSome_iff_exists.mp hl
      have hne : handle ≠ 0 := fun h0 => hnew (h0 ▸ rfl)
      simp only [step, installProtocolInterface, findOrCreateHandle_eq_indexOf _ hne, Option.bind_eq_bind,
        Option.bind_map]
      refine Uses.of_bind rfl rfl trivial fun i => ?_
      dsimp only [Function.comp_apply]
      split <;> rfl
  | reinstallProtocolInterface h protocol interface =>
      cases hc
      obtain ⟨guid, rfl⟩ := Option.isSome_iff_exists.mp hl
      simp only [step, reinstallProtocolInterface]
      refine Uses.of_bind rfl rfl trivial fun i => ?_
      dsimp only
      split <;> rfl
  | uninstallProtocolInterface h protocol =>
      cases hc
      obtain ⟨guid, rfl⟩ := Option.isSome_iff_exists.mp hl
      simp only [step, uninstallProtocolInterface]
      refine Uses.of_bind rfl rfl trivial fun i => ?_
      dsimp only
      split <;> rfl
  | protocolsPerHandle h buffer count =>
      cases hc
      obtain ⟨rfl, rfl⟩ := hl
      simp only [step, protocolsPerHandle, protocolsOnHandle_eq_indexOf, Bool.not_true, Bool.or_self, Bool.false_eq_true,
        if_false, Option.bind_eq_bind, Option.bind_map]
      refine Uses.of_bind rfl rfl trivial fun i => ?_
      dsimp only [Function.comp_apply]
      split
      · rfl
      · split
        · rfl
        · split <;> rfl
  | startImage h =>
      cases hc
      simp only [step, startImage, if_neg hl, Option.bind_eq_bind, Option.map_bind]
      refine Uses.of_bind rfl rfl trivial fun i => ?_
      dsimp only [Function.comp_apply]
      split <;> rfl
  | unloadImage h =>
      cases hc
      simp only [step, unloadImage, Option.bind_eq_bind, Option.map_bind]
      refine Uses.of_bind rfl rfl trivial fun i => ?_
      dsimp only [Function.comp_apply]
      split <;> rfl
  | _ => cases hc

/-- Null pointers, and `StartImage` after the exit. -/
theorem step_refused (hc : c.handle = some handle) (hl : ¬ c.LooksUp s) :
    ∃ r st, s.step image c = some (r, s) ∧ r.status = some st ∧ st.IsError := by
  have hrefused {protocol : Option EfiGuid} {interface : OutPtr} (hl : ¬ (protocol.isSome ∧ interface)) :
      (s.handleProtocol handle protocol interface).map (·, s) = some (.just .invalidParameter, s) := by
    cases protocol with
    | none => rfl
    | some guid =>
        cases interface with
        | false => rfl
        | true => exact absurd ⟨rfl, rfl⟩ hl
  cases c with
  | handleProtocol h protocol interface => cases hc; exact ⟨_, _, hrefused hl, rfl, trivial⟩
  | openProtocol h protocol interface => cases hc; exact ⟨_, _, hrefused hl, rfl, trivial⟩
  | installProtocolInterface h protocol interface =>
      cases hc
      cases protocol with
      | none => exact ⟨_, _, rfl, rfl, trivial⟩
      | some guid => exact absurd rfl hl
  | reinstallProtocolInterface h protocol interface =>
      cases protocol with
      | none => exact ⟨_, _, rfl, rfl, trivial⟩
      | some guid => exact absurd rfl hl
  | uninstallProtocolInterface h protocol =>
      cases protocol with
      | none => exact ⟨_, _, rfl, rfl, trivial⟩
      | some guid => exact absurd rfl hl
  | protocolsPerHandle h buffer count =>
      cases buffer with
      | false => exact ⟨_, _, rfl, rfl, trivial⟩
      | true =>
          cases count with
          | false => exact ⟨_, _, rfl, rfl, trivial⟩
          | true => exact absurd ⟨rfl, rfl⟩ hl
  | startImage h =>
      refine ⟨.just .unsupported, _, ?_, rfl, trivial⟩
      rw [step, startImage, if_pos (not_not.mp hl)]
      rfl
  | unloadImage h => exact absurd trivial hl
  | _ => cases hc

theorem step_asksNew (hnew : c.AsksNew) : (s.step image c).isSome := by
  cases c with
  | installProtocolInterface h protocol interface =>
      cases hnew
      cases protocol with
      | none => rfl
      | some guid =>
          obtain ⟨r, hs, hfind⟩ := findOrCreateHandle_zero s.handles
          simp only [step, installProtocolInterface, hfind, Option.bind_eq_bind, Option.bind_some]
          split
          · rfl
          · split <;> rfl
  | _ => cases hnew

/-- The eight services handle every value up to 32, and beyond that only the calls that they refuse for another reason. -/
theorem handled_iff (hc : c.handle = some handle) :
    Handled image s c handle ↔ handle.toNat ≤ maxHandles ∨ ¬ c.LooksUp s := by
  constructor
  · rintro ⟨⟨r, s', hstep⟩, _⟩
    by_contra hno
    rw [not_or, not_not, Nat.not_le] at hno
    have hnew : ¬ c.AsksNew := by
      intro hnew
      cases c with
      | installProtocolInterface h protocol interface =>
          cases hnew.symm.trans hc
          exact absurd hno.1 (by simp)
      | _ => cases hnew
    have hpanic : s.step image c = none := (step_uses hc hno.2 hnew).panics (indexOf_eq_none_iff.mpr hno.1)
    rw [hpanic] at hstep
    cases hstep
  · intro hok
    by_cases hl : c.LooksUp s
    · by_cases hnew : c.AsksNew
      · obtain ⟨⟨r, s'⟩, hstep⟩ := Option.isSome_iff_exists.mp (step_asksNew hnew)
        exact ⟨⟨r, s', hstep⟩, fun _ _ _ _ hnot => absurd hnew hnot⟩
      · have huses : Uses s (indexOf s.handles handle) (s.step image c) := step_uses hc hl hnew
        have hle : handle.toNat ≤ maxHandles := hok.resolve_right (not_not.mpr hl)
        cases hfound : indexOf s.handles handle with
        | none => exact absurd (indexOf_eq_none_iff.mp hfound) (Nat.not_lt.mpr hle)
        | some found =>
            constructor
            · cases found with
              | none =>
                  obtain ⟨r, _, hstep, _⟩ := huses.refuses hfound
                  exact ⟨r, s, hstep⟩
              | some i =>
                  obtain ⟨⟨r, s'⟩, hstep⟩ := Option.isSome_iff_exists.mp (huses.goesOn i hfound)
                  exact ⟨r, s', hstep⟩
            · intro r s' hstep hdead _
              cases indexOf_dead hdead hfound
              obtain ⟨r', st, hstep', hst, herr⟩ := huses.refuses hfound
              cases hstep.symm.trans hstep'
              exact ⟨⟨st, hst, herr⟩, rfl⟩
    · obtain ⟨r, st, hstep, hst, herr⟩ : ∃ r st, s.step image c = some (r, s) ∧ r.status = some st ∧ st.IsError :=
        step_refused hc hl
      refine ⟨⟨r, s, hstep⟩, fun r' s' hstep' _ _ => ?_⟩
      cases hstep.symm.trans hstep'
      exact ⟨⟨st, hst, herr⟩, rfl⟩

theorem handled_bare : Handled Memory.onePage bare (.unloadImage 32) 32 := (handled_iff rfl).mpr (.inl (by decide))

/-- The first value behind the table. -/
theorem not_handled_bare : bare.step Memory.onePage (.handleProtocol 33 (some loadedImageProtocolGuid) true) = none ∧
    ¬ Handled Memory.onePage bare (.handleProtocol 33 (some loadedImageProtocolGuid) true) 33 := by
  have hpanic : bare.step Memory.onePage (.handleProtocol 33 (some loadedImageProtocolGuid) true) = none := rfl
  refine ⟨hpanic, ?_⟩
  rintro ⟨⟨r, s', hstep⟩, _⟩
  cases hpanic.symm.trans hstep

end Boot

end Ferro
