import Ferro.Boot.Lemmas.Steps

/-!
# The protocol database as a map

Each handle has the map of its slots. `bindings` is what `HandleProtocol` finds for a handle and a GUID; without
repeated GUIDs every operation of the database rebinds one pair or none.
-/

namespace Ferro

namespace ProtocolDb

variable {hs hs' : Handles} {i j : Fin maxHandles} {guid : EfiGuid} {handle existing interface : UInt64} {b : Bool}

/-! ## One handle -/

/-- The GUID and the interface in a slot. -/
def slotEntry : Option ProtocolEntry → Option (EfiGuid × UInt64) := Option.map fun p => (p.guid, p.interface)

theorem holds_iff {slot : Option ProtocolEntry} : holds guid slot = true ↔ ∃ v, slotEntry slot = some (guid, v) := by
  cases slot with
  | none => simp [holds, slotEntry]
  | some p => simp [holds, slotEntry]

theorem find?_holds (slots : List (Option ProtocolEntry)) (guid : EfiGuid) :
    ((slots.find? (holds guid)).bind fun slot => slot.map ProtocolEntry.interface) =
      Slots.lookup (slots.filterMap slotEntry) guid := by
  induction slots with
  | nil => rfl
  | cons slot slots ih =>
      cases slot with
      | none => simpa [holds, slotEntry] using ih
      | some p =>
          have hentry : slotEntry (some p) = some (p.guid, p.interface) := rfl
          rw [List.filterMap_cons_some hentry, Slots.lookup_cons]
          by_cases h : guid = p.guid
          · simp [holds, h]
          · have hno : holds guid (some p) = false := by simpa [holds, eq_comm] using h
            rw [List.find?_cons_of_neg (by simpa using hno), if_neg h, ih]

theorem interface?_eq (h : HandleEntry) (guid : EfiGuid) : h.interface? guid = Slots.toMap slotEntry h.protocols guid :=
  find?_holds h.protocols.toList guid

/-- No handle has two entries for one GUID. -/
def Unique (hs : Handles) : Prop := ∀ i, Slots.Unique slotEntry (hs.get i).protocols

theorem slotsUnique_fill : Slots.Unique slotEntry (.fill none : Arr (Option ProtocolEntry) maxProtocolsPerHandle) := by
  intro i j k v w h
  cases h

theorem unique_empty : Unique empty := fun _ => slotsUnique_fill

/-! ## What `HandleProtocol` finds -/

/-- The interface for a GUID on a live handle. -/
def bound (hs : Handles) (i : Fin maxHandles) (guid : EfiGuid) : Option UInt64 :=
  if (hs.get i).inUse then (hs.get i).interface? guid else none

/-- The interfaces that `HandleProtocol` finds. -/
def bindings (hs : Handles) (handle : UInt64) (guid : EfiGuid) : Option UInt64 := (handleProtocol hs handle guid).getD none

theorem toNat_handleForIndex (i : Fin maxHandles) : (handleForIndex i).toNat = i + 1 := by
  have hi : i.val < 32 := i.isLt
  rw [handleForIndex, indexToHandle, UInt64.toNat_ofNat']
  omega

theorem handleForIndex_inj (h : handleForIndex i = handleForIndex j) : i = j := by
  have h := congrArg UInt64.toNat h
  rw [toNat_handleForIndex, toNat_handleForIndex] at h
  exact Fin.ext (by omega)

theorem handleToIndex_handleForIndex (i : Fin maxHandles) : handleToIndex (handleForIndex i) = some i.val := by
  have hi := toNat_handleForIndex i
  have hne : handleForIndex i ≠ 0 := by
    intro h
    rw [h] at hi
    exact absurd hi (by simp)
  rw [handleToIndex, if_neg hne, hi]
  rfl

theorem eq_handleForIndex {n : Nat} (h : handleToIndex handle = some n) (hn : n < maxHandles) :
    handle = handleForIndex ⟨n, hn⟩ := by
  unfold handleToIndex at h
  split at h
  · cases h
  · rename_i hne
    cases h
    have hpos : handle.toNat ≠ 0 := fun h0 => hne (UInt64.toNat_inj.mp h0)
    apply UInt64.toNat_inj.mp
    rw [toNat_handleForIndex]
    show handle.toNat = handle.toNat - 1 + 1
    omega

theorem live_val (hs : Handles) (i : Fin maxHandles) :
    live hs i.val = some (if (hs.get i).inUse then some i else none) := by
  simp [live, checked, i.isLt]

theorem handleProtocol_index (hs : Handles) (i : Fin maxHandles) (guid : EfiGuid) :
    handleProtocol hs (handleForIndex i) guid = some (bound hs i guid) := by
  rw [handleProtocol, handleToIndex_handleForIndex]
  dsimp only
  rw [live_val, bound]
  cases (hs.get i).inUse <;> rfl

theorem bindings_index (hs : Handles) (i : Fin maxHandles) (guid : EfiGuid) :
    bindings hs (handleForIndex i) guid = bound hs i guid := by
  rw [bindings, handleProtocol_index]
  rfl

/-- The other handles have nothing bound: a null handle and those behind the table. -/
theorem bindings_other (h : ∀ i, handle ≠ handleForIndex i) : bindings hs handle guid = none := by
  rw [bindings, handleProtocol]
  cases hn : handleToIndex handle with
  | none => rfl
  | some n =>
      have hno : ¬ n < maxHandles := fun hlt => h ⟨n, hlt⟩ (eq_handleForIndex hn hlt)
      simp [live, checked, hno]

theorem bindings_congr (h : ∀ i guid, bound hs' i guid = bound hs i guid) : bindings hs' = bindings hs := by
  funext handle guid
  by_cases hi : ∃ i, handle = handleForIndex i
  · obtain ⟨i, rfl⟩ := hi
    rw [bindings_index, bindings_index, h]
  · have hi : ∀ i, handle ≠ handleForIndex i := fun i he => hi ⟨i, he⟩
    rw [bindings_other hi, bindings_other hi]

/-- One pair bound to something else. -/
def rebind (f : UInt64 → EfiGuid → Option UInt64) (handle : UInt64) (guid : EfiGuid) (v : Option UInt64) :
    UInt64 → EfiGuid → Option UInt64 := Function.update f handle (Function.update (f handle) guid v)

theorem bindings_rebind {v : Option UInt64} (hother : ∀ j ≠ i, ∀ g, bound hs' j g = bound hs j g)
    (hi : bound hs' i = Function.update (bound hs i) guid v) :
    bindings hs' = rebind (bindings hs) (handleForIndex i) guid v := by
  funext handle g
  by_cases hex : ∃ j, handle = handleForIndex j
  · obtain ⟨j, rfl⟩ := hex
    rw [bindings_index]
    by_cases hj : j = i
    · subst hj
      have hb : bindings hs (handleForIndex j) = bound hs j := funext fun g => bindings_index hs j g
      rw [rebind, Function.update_self, hb, hi]
    · have hne : handleForIndex j ≠ handleForIndex i := fun h => hj (handleForIndex_inj h)
      rw [rebind, Function.update_of_ne hne, bindings_index, hother j hj]
  · have hex : ∀ j, handle ≠ handleForIndex j := fun j he => hex ⟨j, he⟩
    rw [rebind, Function.update_of_ne (hex i), bindings_other hex, bindings_other hex]

/-! ## The operations -/

/-- A slot of the handle at `i` is set, and the map of the handle changes at `guid` alone. -/
theorem set_slot {k : Fin maxProtocolsPerHandle} (slot : Option ProtocolEntry) (hu : Unique hs)
    (huse : (hs.get i).inUse = true)
    (hold : ∀ {g v}, slotEntry ((hs.get i).protocols.get k) = some (g, v) → g = guid)
    (honly : ∀ {k' v}, slotEntry ((hs.get i).protocols.get k') = some (guid, v) → k' = k)
    (hnew : ∀ {g v}, slotEntry slot = some (g, v) → g = guid)
    (he : hs' = hs.set i { hs.get i with protocols := (hs.get i).protocols.set k slot }) :
    Unique hs' ∧ bindings hs' = rebind (bindings hs) (handleForIndex i) guid ((slotEntry slot).map Prod.snd) := by
  subst he
  obtain ⟨hu', hmap⟩ := Slots.toMap_set (hu i) hold honly hnew
  constructor
  · intro j
    by_cases hj : j = i
    · rw [hj, Arr.get_set_self]
      exact hu'
    · rw [Arr.get_set_of_ne _ _ hj]
      exact hu j
  · apply bindings_rebind
    · intro j hj g
      rw [bound, Arr.get_set_of_ne _ _ hj, bound]
    · funext g
      rw [bound, Arr.get_set_self]
      dsimp only
      rw [if_pos huse, interface?_eq, hmap]
      congr 1
      funext g
      rw [bound, if_pos huse, interface?_eq]

theorem install_spec (hu : Unique hs) (huse : (hs.get i).inUse = true) (hnone : bound hs i guid = none)
    (h : install hs i guid interface = (b, hs')) :
    Unique hs' ∧ bindings hs' = if b then rebind (bindings hs) (handleForIndex i) guid (some interface) else bindings hs := by
  rw [bound, if_pos huse, interface?_eq, Slots.toMap_eq_none] at hnone
  unfold install at h
  dsimp only at h
  split at h
  case h_1 k hk =>
    cases h
    have hfree : (hs.get i).protocols.get k = none := Option.isNone_iff_eq_none.mp (Arr.find?_eq_some hk)
    apply set_slot (some ⟨guid, interface⟩) hu huse _ _ _ rfl
    · intro g v hv
      rw [hfree] at hv
      cases hv
    · intro k' v hv
      exact absurd hv (hnone k' v)
    · intro g v hv
      cases hv
      rfl
  case h_2 =>
    cases h
    exact ⟨hu, rfl⟩

theorem uninstall_spec (hu : Unique hs) (huse : (hs.get i).inUse = true) (h : uninstall hs i guid = (b, hs')) :
    Unique hs' ∧ (∀ j, (hs'.get j).inUse = (hs.get j).inUse) ∧ bound hs' i guid = none ∧
      bindings hs' = if b then rebind (bindings hs) (handleForIndex i) guid none else bindings hs := by
  unfold uninstall at h
  dsimp only at h
  split at h
  case h_1 k hk =>
    cases h
    obtain ⟨v, hv⟩ := holds_iff.mp (Arr.find?_eq_some hk)
    obtain ⟨hu', hb⟩ := set_slot none hu huse
      (fun {g w} hw => by rw [hv] at hw; cases hw; rfl) (fun {k' w} hw => hu i hw hv) (fun {g w} hw => by cases hw) rfl
    refine ⟨hu', fun j => ?_, ?_, hb⟩
    · by_cases hj : j = i
      · rw [hj, Arr.get_set_self]
      · rw [Arr.get_set_of_ne _ _ hj]
    · rw [← bindings_index, hb, rebind, Function.update_self, Function.update_self]
      rfl
  case h_2 hk =>
    cases h
    refine ⟨hu, fun _ => rfl, ?_, rfl⟩
    rw [bound, if_pos huse, interface?_eq, Slots.toMap_eq_none]
    intro k v hv
    have hno := Arr.find?_eq_none.mp hk k
    rw [holds_iff.mpr ⟨v, hv⟩] at hno
    cases hno

theorem findOrCreateHandle_spec {r : Option (Fin maxHandles)} (hu : Unique hs)
    (h : findOrCreateHandle hs existing = some (r, hs')) :
    Unique hs' ∧ bindings hs' = bindings hs ∧ ∀ i ∈ r, (hs'.get i).inUse = true ∧
      ((existing = 0 ∧ ∀ g, bound hs' i g = none) ∨ (existing = handleForIndex i ∧ hs' = hs)) := by
  unfold findOrCreateHandle at h
  cases hn : handleToIndex existing with
  | some n =>
      rw [hn] at h
      obtain ⟨r', hr', h⟩ := Option.map_eq_some_iff.mp h
      cases h
      refine ⟨hu, rfl, fun i hi => ?_⟩
      cases hi
      unfold live checked at hr'
      split at hr'
      case isTrue hlt =>
        simp only [Option.map_some, Option.some.injEq] at hr'
        split at hr'
        case isTrue huse =>
          cases hr'
          exact ⟨huse, Or.inr ⟨eq_handleForIndex hn hlt, rfl⟩⟩
        case isFalse => cases hr'
      case isFalse => cases hr'
  | none =>
      have hzero : existing = 0 := by
        unfold handleToIndex at hn
        split at hn
        · assumption
        · cases hn
      rw [hn] at h
      dsimp only at h
      split at h
      case h_2 =>
        cases h
        exact ⟨hu, rfl, fun i hi => by cases hi⟩
      case h_1 i hi =>
        cases h
        have hfree : (hs.get i).inUse = false := by simpa using Arr.find?_eq_some hi
        have hnew : ∀ g, bound (hs.set i { emptyHandle with inUse := true }) i g = none := fun g => by
          rw [bound, Arr.get_set_self, if_pos rfl, interface?_eq, Slots.toMap_eq_none]
          intro k v hv
          cases hv
        refine ⟨fun j => ?_, bindings_congr fun j g => ?_, fun j hj => ?_⟩
        · by_cases hj : j = i
          · rw [hj, Arr.get_set_self]
            exact slotsUnique_fill
          · rw [Arr.get_set_of_ne _ _ hj]
            exact hu j
        · by_cases hj : j = i
          · rw [hj, hnew, bound, hfree]
            rfl
          · rw [bound, Arr.get_set_of_ne _ _ hj, bound]
        · cases hj
          rw [Arr.get_set_self]
          exact ⟨rfl, Or.inl ⟨hzero, hnew⟩⟩

theorem indexOf_eq_some {handle : UInt64} (h : indexOf hs handle = some (some i)) :
    handle = handleForIndex i ∧ (hs.get i).inUse = true := by
  unfold indexOf at h
  split at h
  · cases h
  · rename_i n hn
    unfold live checked at h
    split at h
    case isTrue hlt =>
      simp only [Option.map_some, Option.some.injEq] at h
      split at h
      case isTrue huse =>
        cases h
        exact ⟨eq_handleForIndex hn hlt, huse⟩
      case isFalse => cases h
    case isFalse => cases h

end ProtocolDb

end Ferro
