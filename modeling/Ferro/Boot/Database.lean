import Ferro.Boot.Lemmas.Bindings
import Ferro.Boot.Lemmas.Image
import Ferro.Boot.Theorems
import Ferro.Variables.Lemmas.Saved

/-!
# The protocol database over whole runs
-/

namespace Ferro

/-- The reply of `HandleProtocol` and `LocateProtocol`. -/
def Reply.found : Option UInt64 → Reply
  | some interface => .word .success (some interface)
  | none => .just .notFound

namespace Boot

open ProtocolDb

variable {image : Image} {s₀ s s' : Boot} {r : Reply} {log : List Made} {handle : UInt64} {guid : EfiGuid}
  {i : Fin maxHandles}

/-! ## One interface for a handle and a GUID -/

theorem handleProtocol_eq (h : handle.toNat ≤ maxHandles) :
    s.handleProtocol handle (some guid) true = some (Reply.found (bindings s.handles handle guid)) := by
  have hfound : ∃ v, ProtocolDb.handleProtocol s.handles handle guid = some v := by
    unfold ProtocolDb.handleProtocol
    cases hn : handleToIndex handle with
    | none => exact ⟨none, rfl⟩
    | some n =>
        have hlt : n < maxHandles := by
          unfold handleToIndex at hn
          split at hn
          · cases hn
          · rename_i hne
            cases hn
            have hpos : handle.toNat ≠ 0 := fun h0 => hne (UInt64.toNat_inj.mp h0)
            omega
        simp [live, checked, hlt]
  obtain ⟨v, hv⟩ := hfound
  rw [bindings, hv, Option.getD_some, Boot.handleProtocol]
  simp only [hv, Option.bind_eq_bind, Option.bind_some]
  cases v <;> rfl

/-- In a run in which no GUID is installed on a handle that has it, no handle gets two entries for one GUID, and
`HandleProtocol` finds what the last call that bound the pair left there. -/
theorem handleProtocol_last (h : Run image s₀ log s) (hu : Unique s₀.handles)
    (hd : ∀ x ∈ log, ¬ x.before.Duplicates x.call) :
    Unique s.handles ∧ ∀ handle guid, handle.toNat ≤ maxHandles → s.handleProtocol handle (some guid) true =
      some (Reply.found (replay image (bindings s₀.handles) log handle guid)) := by
  obtain ⟨hu', hb⟩ := h.replay hu hd
  refine ⟨hu', fun handle guid hle => ?_⟩
  rw [handleProtocol_eq hle, hb]

theorem handleProtocol_last_bare :
    Run Memory.onePage bare [⟨bare, .installProtocolInterface (some 0) (some loadedImageProtocolGuid) 0x1000,
      .word .success (some 1), withHandle⟩] withHandle ∧
    withHandle.handleProtocol 1 (some loadedImageProtocolGuid) true = some (.word .success (some 0x1000)) := by
  have hrun : Run Memory.onePage bare [⟨bare, .installProtocolInterface (some 0) (some loadedImageProtocolGuid) 0x1000,
      .word .success (some 1), withHandle⟩] withHandle := ⟨rfl, rfl, rfl⟩
  refine ⟨hrun, ?_⟩
  rw [(handleProtocol_last hrun unique_empty ?_).2 1 loadedImageProtocolGuid (by decide)]
  · simp [replay, Made.rebound, Made.rebinds, rebind, Reply.found]
  · simp only [List.mem_singleton, forall_eq]
    rintro ⟨_, i, _, hi, _⟩
    have hi := congrArg UInt64.toNat hi
    rw [toNat_handleForIndex] at hi
    exact absurd hi (by simp)

/-- The same protocol is installed twice on one handle: `HandleProtocol` finds the first interface, and after
`UninstallProtocolInterface` returned success it finds the second. -/
theorem handleProtocol_twice : ∃ s₂ s₃,
    bare.step Memory.onePage (.installProtocolInterface (some 0) (some loadedImageProtocolGuid) 0x1000) =
      some (.word .success (some 1), withHandle) ∧
    withHandle.step Memory.onePage (.installProtocolInterface (some 1) (some loadedImageProtocolGuid) 0x2000) =
      some (.word .success (some 1), s₂) ∧
    ¬ Unique s₂.handles ∧
    s₂.handleProtocol 1 (some loadedImageProtocolGuid) true = some (.word .success (some 0x1000)) ∧
    s₂.step Memory.onePage (.uninstallProtocolInterface 1 (some loadedImageProtocolGuid)) = some (.just .success, s₃) ∧
    s₃.handleProtocol 1 (some loadedImageProtocolGuid) true = some (.word .success (some 0x2000)) := by
  refine ⟨_, _, rfl, rfl, ?_, rfl, rfl, rfl⟩
  intro hu
  have h01 : (⟨0, by decide⟩ : Fin maxProtocolsPerHandle) = ⟨1, by decide⟩ := hu ⟨0, by decide⟩
    (show slotEntry _ = some (loadedImageProtocolGuid, 0x1000) from rfl)
    (show slotEntry _ = some (loadedImageProtocolGuid, 0x2000) from rfl)
  exact absurd h01 (by decide)

/-! ## The lookups agree -/

/-- A live handle that has the GUID. -/
theorem bound_isSome (hs : Handles) (i : Fin maxHandles) (guid : EfiGuid) :
    (bound hs i guid).isSome = ((hs.get i).inUse && (hs.get i).protocols.toList.any (holds guid)) := by
  cases huse : (hs.get i).inUse with
  | false => simp [bound, huse]
  | true =>
      rw [bound, if_pos huse, HandleEntry.interface?, Bool.true_and]
      cases hf : (hs.get i).protocols.toList.find? (holds guid) with
      | none => exact (List.any_eq_false.mpr (List.find?_eq_none.mp hf)).symm
      | some slot =>
          have hslot := List.find?_some hf
          have hany : (hs.get i).protocols.toList.any (holds guid) = true :=
            List.any_eq_true.mpr ⟨slot, List.mem_of_find?_eq_some hf, hslot⟩
          cases slot with
          | none => cases hslot
          | some p => rw [hany]; rfl

theorem handlesWith_eq (hs : Handles) (guid : EfiGuid) :
    handlesWith hs guid = ((List.finRange maxHandles).filter fun i => (bound hs i guid).isSome).map handleForIndex := by
  simp only [handlesWith, bound_isSome]

theorem mem_handlesWith {hs : Handles} : handleForIndex i ∈ handlesWith hs guid ↔ (bound hs i guid).isSome := by
  rw [handlesWith_eq, List.mem_map]
  constructor
  · rintro ⟨j, hj, he⟩
    rw [← handleForIndex_inj he]
    exact (List.mem_filter.mp hj).2
  · intro h
    exact ⟨i, List.mem_filter.mpr ⟨List.mem_finRange i, h⟩, rfl⟩

theorem handlesWith_sorted (hs : Handles) (guid : EfiGuid) : (handlesWith hs guid).Pairwise (· < ·) := by
  rw [handlesWith_eq, List.pairwise_map]
  refine ((List.pairwise_lt_finRange _).filter _).imp fun {i j} hij => ?_
  rw [UInt64.lt_iff_toNat_lt, toNat_handleForIndex, toNat_handleForIndex]
  omega

theorem findSome?_eq_head? {α β : Type} (f : α → Option β) (l : List α) :
    l.findSome? f = (l.filter fun x => (f x).isSome).head?.bind f := by
  induction l with
  | nil => rfl
  | cons x l ih =>
      cases hx : f x with
      | none => simp [hx, ih]
      | some y => simp [hx]

/-- `LocateProtocol` finds what `HandleProtocol` finds on the first handle. -/
theorem locate_eq (hs : Handles) (guid : EfiGuid) :
    locate hs guid = (handlesWith hs guid).head?.bind fun handle => bindings hs handle guid := by
  have hlist : hs.toList = (List.finRange maxHandles).map hs.get := List.ofFn_eq_map
  rw [locate, hlist, List.findSome?_map, handlesWith_eq, List.head?_map]
  refine (findSome?_eq_head? (fun i => bound hs i guid) _).trans ?_
  cases ((List.finRange maxHandles).filter fun i => (bound hs i guid).isSome).head? with
  | none => rfl
  | some i => exact (bindings_index hs i guid).symm

/-- The GUIDs on a live handle. -/
theorem protocolsOnHandle_eq {hs : Handles} (huse : (hs.get i).inUse = true) :
    protocolsOnHandle hs (handleForIndex i) =
      some (some ((hs.get i).protocols.toList.filterMap fun slot => slot.map ProtocolEntry.guid)) := by
  rw [protocolsOnHandle, handleToIndex_handleForIndex]
  dsimp only
  rw [live_val, huse]
  rfl

theorem mem_protocols {hs : Handles} (huse : (hs.get i).inUse = true) :
    guid ∈ ((hs.get i).protocols.toList.filterMap fun slot => slot.map ProtocolEntry.guid) ↔
      (bound hs i guid).isSome := by
  rw [bound_isSome, huse, Bool.true_and, List.any_eq_true, List.mem_filterMap]
  constructor
  · rintro ⟨slot, hslot, h⟩
    obtain ⟨p, rfl, rfl⟩ := Option.map_eq_some_iff.mp h
    exact ⟨some p, hslot, by simp [holds]⟩
  · rintro ⟨slot, hslot, h⟩
    cases slot with
    | none => cases h
    | some p => exact ⟨some p, hslot, by simpa [holds] using h⟩

/-! ### Lists in memory -/

/-- The `count` handles from `base` on. -/
def handlesAt (m : Mem) (base : UInt64) (count : Nat) : List UInt64 :=
  (List.range count).map fun i => .ofNat (leNat (m.slice (base + .ofNat (i * 8)) 8))

/-- The GUIDs that the `count` pointers from `base` on point to. -/
def guidsAt (m : Mem) (base : UInt64) (count : Nat) : List EfiGuid :=
  (handlesAt m base count).map fun p => Variables.guidAt (m.slice p 16) 0

/-- A list of words that is written at `base`, before something else. -/
theorem handlesAt_write (m : Mem) (base : UInt64) {l : List UInt64} {rest : List UInt8}
    (hl : l.length * 8 + rest.length ≤ 2 ^ 64) :
    handlesAt (m.write base (l.flatMap (fun h => leBytes 8 h.toNat) ++ rest)) base l.length = l := by
  have hlen : (l.flatMap fun h => leBytes 8 h.toNat).length = l.length * 8 := by simp [List.length_flatMap]
  apply List.ext_getElem
  · simp [handlesAt]
  · intro i _ hi
    have hslice : (m.write base (l.flatMap (fun h => leBytes 8 h.toNat) ++ rest)).slice (base + .ofNat (i * 8)) 8 =
        leBytes 8 l[i].toNat := by
      rw [Mem.slice_write (by simp [hlen]; omega) (by simp [hlen]; omega), List.drop_append_of_le_length (by omega),
        List.take_append_of_le_length (by simp [hlen]; omega)]
      exact take_drop_flatMap l (fun h => length_leBytes 8 h.toNat) hi
    have hlt : l[i].toNat < 256 ^ 8 := UInt64.toNat_lt _
    simp only [handlesAt, List.getElem_map, List.getElem_range, hslice, leNat_leBytes]
    rw [Nat.mod_eq_of_lt hlt, UInt64.ofNat_toNat]

/-- A GUID in a list of GUIDs that is written behind the pointers. -/
theorem slice_guids (m : Mem) (base : UInt64) {guids : List EfiGuid} {ptrs : List UInt8} (hl : guids.length ≤ 2 ^ 32)
    (hp : ptrs.length = guids.length * 8) {i : Nat} (hi : i < guids.length) :
    (m.write base (ptrs ++ guids.flatMap guidBytes)).slice (base + .ofNat (guids.length * 8) + .ofNat (i * 16)) 16 =
      guidBytes guids[i] := by
  have hrest : (guids.flatMap guidBytes).length = guids.length * 16 := by simp [List.length_flatMap]
  have haddr : base + .ofNat (guids.length * 8) + .ofNat (i * 16) = base + .ofNat (guids.length * 8 + i * 16) := by
    rw [UInt64.ofNat_add, UInt64.add_assoc]
  rw [haddr, Mem.slice_write (by rw [List.length_append, hp, hrest]; omega)
    (by rw [List.length_append, hp, hrest]; omega), ← hp, List.drop_length_add_append]
  exact take_drop_flatMap guids Variables.length_guidBytes hi

/-- The pointers and the GUIDs as `ProtocolsPerHandle` writes them. -/
theorem guidsAt_write {m : Mem} {base : UInt64} {guids : List EfiGuid} (hl : guids.length ≤ 2 ^ 32) :
    guidsAt (m.write base (((List.range guids.length).flatMap fun i =>
        leBytes 8 (base + .ofNat (guids.length * 8) + .ofNat (i * 16)).toNat) ++ guids.flatMap guidBytes))
      base guids.length = guids := by
  have hptrs : ((List.range guids.length).flatMap fun i =>
        leBytes 8 (base + .ofNat (guids.length * 8) + .ofNat (i * 16)).toNat) =
      ((List.range guids.length).map fun i => base + .ofNat (guids.length * 8) + .ofNat (i * 16)).flatMap
        fun h => leBytes 8 h.toNat := by rw [List.flatMap_map]
  have hrest : (guids.flatMap guidBytes).length = guids.length * 16 := by simp [List.length_flatMap]
  have hfirst : ((List.range guids.length).flatMap fun i =>
      leBytes 8 (base + .ofNat (guids.length * 8) + .ofNat (i * 16)).toNat).length = guids.length * 8 := by
    simp [List.length_flatMap]
  have hread : handlesAt (m.write base (((List.range guids.length).flatMap fun i =>
        leBytes 8 (base + .ofNat (guids.length * 8) + .ofNat (i * 16)).toNat) ++ guids.flatMap guidBytes))
      base guids.length = (List.range guids.length).map fun i => base + .ofNat (guids.length * 8) + .ofNat (i * 16) := by
    have h := handlesAt_write m base (l := (List.range guids.length).map fun i =>
      base + .ofNat (guids.length * 8) + .ofNat (i * 16)) (show _ + (guids.flatMap guidBytes).length ≤ _ by
        rw [hrest, List.length_map, List.length_range]; omega)
    rwa [List.length_map, List.length_range, ← hptrs] at h
  rw [guidsAt, hread, List.map_map]
  apply List.ext_getElem
  · simp
  · intro i _ hi
    rw [List.getElem_map, List.getElem_range, Function.comp_apply, slice_guids m base hl hfirst hi]
    exact (Variables.guidAt_eq (List.append_nil _).symm).1

/-! ### The five lookups -/

/-- What the lookups say about a GUID when `LocateHandle` finds the handles `found`. -/
structure Lookups (s : Boot) (guid : EfiGuid) (found : List UInt64) : Prop where
  /-- The handles are in table order, which excludes repetitions. -/
  sorted : found.Pairwise (· < ·)
  fits : found.length ≤ maxHandles
  locateHandle : ∀ capacity : UInt64, s.locateHandle byProtocol (some guid) (some capacity) true =
    if found = [] then .handles .notFound none none
    else if capacity.toNat < found.length * 8 then .handles .bufferTooSmall (some (.ofNat (found.length * 8))) none
    else .handles .success (some (.ofNat (found.length * 8))) (some found)
  handleProtocol : ∀ handle i, indexOf s.handles handle = some (some i) →
    if handle ∈ found then ∃ v, s.handleProtocol handle (some guid) true = some (.word .success (some v))
    else s.handleProtocol handle (some guid) true = some (.just .notFound)
  /-- The list fails only where `HandleProtocol` finds something on the handle, and no page is left for it. -/
  protocolsPerHandle : ∀ handle i, indexOf s.handles handle = some (some i) →
    ∃ r s', s.protocolsPerHandle handle true true = some (r, s') ∧ (r = .buffer .outOfResources none none ∧
      (∃ g v, s.handleProtocol handle (some g) true = some (.word .success (some v))) ∧
        Memory.allocatePages s.alloc 1 = none ∨
      ∃ base count, r = .buffer .success (some base) (some count) ∧
        (guid ∈ guidsAt s'.mem base count.toNat ↔ handle ∈ found))
  /-- The list fails only when no page is left for it. -/
  locateHandleBuffer : ∃ r s', s.locateHandleBuffer byProtocol (some guid) true true = some (r, s') ∧
    if found = [] then r = .buffer .notFound none none
    else if Memory.allocatePages s.alloc 1 = none then r = .buffer .outOfResources none none
    else ∃ base count, r = .buffer .success (some base) (some count) ∧ handlesAt s'.mem base count.toNat = found
  locateProtocol : some (s.locateProtocol (some guid) true) =
    found.head?.elim (some (.just .notFound)) fun first => s.handleProtocol first (some guid) true

theorem toNat_ofNat_small {n : Nat} (h : n ≤ 2 ^ 32) : (UInt64.ofNat n).toNat = n := by
  rw [UInt64.toNat_ofNat', Nat.mod_eq_of_lt (by omega)]

theorem locateHandle_eq (capacity : UInt64) : s.locateHandle byProtocol (some guid) (some capacity) true =
    if handlesWith s.handles guid = [] then .handles .notFound none none
    else if capacity.toNat < (handlesWith s.handles guid).length * 8 then
      .handles .bufferTooSmall (some (.ofNat ((handlesWith s.handles guid).length * 8))) none
    else .handles .success (some (.ofNat ((handlesWith s.handles guid).length * 8))) (some (handlesWith s.handles guid)) := by
  have hle := length_handlesWith_le s.handles guid
  have hsmall : (UInt64.ofNat ((handlesWith s.handles guid).length * 8)).toNat = (handlesWith s.handles guid).length * 8 :=
    toNat_ofNat_small (by simp only [maxHandles] at hle; omega)
  simp only [Boot.locateHandle, List.length_eq_zero_iff, UInt64.lt_iff_toNat_lt, hsmall]
  simp

theorem locateHandleBuffer_found : ∃ r s', s.locateHandleBuffer byProtocol (some guid) true true = some (r, s') ∧
    if handlesWith s.handles guid = [] then r = .buffer .notFound none none
    else if Memory.allocatePages s.alloc 1 = none then r = .buffer .outOfResources none none
    else ∃ base count, r = .buffer .success (some base) (some count) ∧
      handlesAt s'.mem base count.toNat = handlesWith s.handles guid := by
  have hle := length_handlesWith_le s.handles guid
  have hsearch : s.searchHandles byProtocol (some guid) = .ok ((handlesWith s.handles guid).length,
      fillScratch (List.replicate maxHandles 0) (handlesWith s.handles guid)) := rfl
  unfold Boot.locateHandleBuffer
  rw [hsearch]
  simp only [Bool.not_true, Bool.or_self, Bool.false_eq_true, if_false, List.length_eq_zero_iff]
  by_cases hnil : handlesWith s.handles guid = []
  · simp [hnil]
  · have hpos := List.length_pos_iff.mpr hnil
    have hone : bufferPages ((handlesWith s.handles guid).length * 8) = 1 :=
      bufferPages_eq_one (by omega) (by simp only [maxHandles] at hle; omega)
    simp only [if_neg hnil, if_neg (Nat.not_lt.mpr hle), hone]
    cases Memory.allocatePages s.alloc 1 with
    | none => exact ⟨_, _, rfl, rfl⟩
    | some p =>
        obtain ⟨base, alloc⟩ := p
        refine ⟨_, _, rfl, ?_⟩
        rw [if_neg (Option.some_ne_none _)]
        refine ⟨base, _, rfl, ?_⟩
        have htake : (fillScratch (List.replicate maxHandles 0) (handlesWith s.handles guid)).take
            (handlesWith s.handles guid).length = handlesWith s.handles guid := by
          rw [fillScratch, List.take_left]
        have hread := handlesAt_write s.mem base (l := handlesWith s.handles guid)
          (show _ + ([] : List UInt8).length ≤ _ by simp only [maxHandles] at hle; simp; omega)
        rw [List.append_nil] at hread
        rw [toNat_ofNat_small (by simp only [maxHandles] at hle; omega), htake]
        exact hread

theorem toNat_handleForIndex_le (i : Fin maxHandles) : (handleForIndex i).toNat ≤ maxHandles := by
  rw [toNat_handleForIndex]
  exact i.isLt

theorem handleProtocol_index (s : Boot) (i : Fin maxHandles) (guid : EfiGuid) :
    s.handleProtocol (handleForIndex i) (some guid) true = some (Reply.found (bound s.handles i guid)) := by
  rw [handleProtocol_eq (toNat_handleForIndex_le i), bindings_index]

theorem protocolsPerHandle_found (huse : (s.handles.get i).inUse = true) :
    ∃ r s', s.protocolsPerHandle (handleForIndex i) true true = some (r, s') ∧ (r = .buffer .outOfResources none none ∧
      (∃ g v, s.handleProtocol (handleForIndex i) (some g) true = some (.word .success (some v))) ∧
        Memory.allocatePages s.alloc 1 = none ∨
      ∃ base count, r = .buffer .success (some base) (some count) ∧
        (guid ∈ guidsAt s'.mem base count.toNat ↔ handleForIndex i ∈ handlesWith s.handles guid)) := by
  have hle : ((s.handles.get i).protocols.toList.filterMap fun slot => slot.map ProtocolEntry.guid).length ≤ 8 :=
    (List.length_filterMap_le _ _).trans (Arr.length_toList _).le
  have hmem {g : EfiGuid} : g ∈ ((s.handles.get i).protocols.toList.filterMap fun slot => slot.map ProtocolEntry.guid) ↔
      (bound s.handles i g).isSome := mem_protocols huse
  unfold Boot.protocolsPerHandle
  rw [protocolsOnHandle_eq huse]
  simp only [Bool.not_true, Bool.or_self, Bool.false_eq_true, if_false, Option.bind_eq_bind, Option.bind_some]
  generalize ((s.handles.get i).protocols.toList.filterMap fun slot => slot.map ProtocolEntry.guid) = guids at hle hmem ⊢
  rw [mem_handlesWith, ← hmem]
  by_cases hnil : guids = []
  · rw [hnil]
    exact ⟨_, _, rfl, Or.inr ⟨0, 0, rfl, Iff.rfl⟩⟩
  · have hpos := List.length_pos_iff.mpr hnil
    have hone : bufferPages (guids.length * 8 + guids.length * 16) = 1 := bufferPages_eq_one (by omega) (by omega)
    simp only [if_neg (mt List.length_eq_zero_iff.mp hnil), hone]
    cases halloc : Memory.allocatePages s.alloc 1 with
    | none =>
        obtain ⟨g, hg⟩ := List.exists_mem_of_ne_nil _ hnil
        obtain ⟨v, hv⟩ := Option.isSome_iff_exists.mp (hmem.mp hg)
        refine ⟨_, _, rfl, Or.inl ⟨rfl, ⟨g, v, ?_⟩, rfl⟩⟩
        rw [handleProtocol_index, hv]
        rfl
    | some p =>
        obtain ⟨base, alloc⟩ := p
        refine ⟨_, _, rfl, Or.inr ⟨base, _, rfl, ?_⟩⟩
        rw [toNat_ofNat_small (by omega), guidsAt_write (by omega)]

/-- In every state the lookups agree on every GUID. -/
theorem lookups_agree (s : Boot) (guid : EfiGuid) : Lookups s guid (handlesWith s.handles guid) where
  sorted := handlesWith_sorted s.handles guid
  fits := length_handlesWith_le s.handles guid
  locateHandle := locateHandle_eq
  handleProtocol handle i hi := by
    obtain ⟨rfl, _⟩ := indexOf_eq_some hi
    rw [handleProtocol_index]
    simp only [mem_handlesWith]
    cases bound s.handles i guid with
    | none => rfl
    | some v => exact ⟨v, rfl⟩
  protocolsPerHandle handle i hi := by
    obtain ⟨rfl, huse⟩ := indexOf_eq_some hi
    exact protocolsPerHandle_found huse
  locateHandleBuffer := locateHandleBuffer_found
  locateProtocol := by
    have hreply : s.locateProtocol (some guid) true = Reply.found (locate s.handles guid) := by
      simp only [Boot.locateProtocol]
      cases locate s.handles guid <;> rfl
    rw [hreply, locate_eq]
    cases hfound : (handlesWith s.handles guid).head? with
    | none => rfl
    | some first =>
        have hfirst := List.mem_of_mem_head? hfound
        rw [handlesWith_eq] at hfirst
        obtain ⟨i, _, rfl⟩ := List.mem_map.mp hfirst
        exact (handleProtocol_eq (toNat_handleForIndex_le i)).symm

end Boot

end Ferro
