import Ferro.Boot.Database
import Ferro.Boot.HandleLeaks
import Ferro.Boot.Handles

/-!
# `LocateHandleBuffer` for all handles

The handles with a loaded image and those with a text output are written to the front of one array, the second over the
first, and counted together.
-/

namespace Ferro

namespace Boot

open ProtocolDb

variable {image : Image} {s : Boot} {guid other : EfiGuid} {protocol : Option EfiGuid} {loaded consoles : List UInt64}

/-- What the two scans leave of the array that is taken. -/
theorem take_fillScratch (h : loaded.length + consoles.length ≤ maxHandles) :
    (fillScratch (fillScratch (List.replicate maxHandles 0) loaded) consoles).take (loaded.length + consoles.length) =
      consoles ++ loaded.drop consoles.length ++ List.replicate (min loaded.length consoles.length) 0 := by
  simp only [maxHandles] at h ⊢
  rw [fillScratch, fillScratch, Nat.add_comm, List.take_length_add_append, List.drop_replicate, List.drop_append,
    List.drop_replicate, List.take_append, List.take_replicate, List.append_assoc]
  congr 1
  congr 1
  · exact List.take_of_length_le (by simp)
  · congr 1
    rw [List.length_drop]
    omega

/-- The handles with one of the two protocols: those of a loaded image, and those of a text output. -/
theorem searchHandles_all (s : Boot) (protocol : Option EfiGuid) : s.searchHandles allHandles protocol =
    .ok ((handlesWith s.handles loadedImageProtocolGuid).length +
        (handlesWith s.handles simpleTextOutputProtocolGuid).length,
      fillScratch (fillScratch (List.replicate maxHandles 0) (handlesWith s.handles loadedImageProtocolGuid))
        (handlesWith s.handles simpleTextOutputProtocolGuid)) := rfl

/-- `LocateHandleBuffer` returns success with the handles `buf`. -/
def Lists (image : Image) (s : Boot) (protocol : Option EfiGuid) (buf : List UInt64) : Prop :=
  ∃ base count s', s.step image (.locateHandleBuffer allHandles protocol true true) =
      some (.buffer .success (some base) (some count), s') ∧
    count.toNat = buf.length ∧ handlesAt s'.mem base count.toNat = buf

/-- The buffer of `LocateHandleBuffer`, if there is a page for it. -/
theorem lists_iff (hpage : (Memory.allocatePages s.alloc 1).isSome) (buf : List UInt64) : Lists image s protocol buf ↔
    let loaded := handlesWith s.handles loadedImageProtocolGuid
    let consoles := handlesWith s.handles simpleTextOutputProtocolGuid
    0 < loaded.length + consoles.length ∧ loaded.length + consoles.length ≤ maxHandles ∧
      buf = consoles ++ loaded.drop consoles.length ++ List.replicate (min loaded.length consoles.length) 0 := by
  have hloaded := length_handlesWith_le s.handles loadedImageProtocolGuid
  have hconsoles := length_handlesWith_le s.handles simpleTextOutputProtocolGuid
  rw [Lists]
  simp only [step, locateHandleBuffer, searchHandles_all, Bool.not_true, Bool.or_self, Bool.false_eq_true, if_false]
  have htake := @take_fillScratch (handlesWith s.handles loadedImageProtocolGuid)
    (handlesWith s.handles simpleTextOutputProtocolGuid)
  generalize handlesWith s.handles loadedImageProtocolGuid = loaded at hloaded htake ⊢
  generalize handlesWith s.handles simpleTextOutputProtocolGuid = consoles at hconsoles htake ⊢
  simp only [maxHandles] at hloaded hconsoles htake ⊢
  by_cases hzero : loaded.length + consoles.length = 0
  · rw [if_pos hzero]
    refine iff_of_false ?_ fun h => absurd h.1 (by omega)
    rintro ⟨base, count, s', h, _⟩
    cases h
  · obtain ⟨⟨base, alloc⟩, halloc⟩ := Option.isSome_iff_exists.mp hpage
    rw [if_neg hzero, bufferPages_eq_one (by omega) (by omega), halloc]
    dsimp only
    by_cases hmax : 32 < loaded.length + consoles.length
    · simp only [hmax, if_true]
      refine iff_of_false ?_ fun h => absurd h.2.1 (by omega)
      rintro ⟨base, count, s', h, _⟩
      cases h
    · have hle : loaded.length + consoles.length ≤ 32 := by omega
      have hcount := toNat_ofNat_small (show loaded.length + consoles.length ≤ 2 ^ 32 by omega)
      have hlen : (consoles ++ loaded.drop consoles.length ++
          List.replicate (min loaded.length consoles.length) 0).length = loaded.length + consoles.length := by
        simp only [List.length_append, List.length_drop, List.length_replicate]
        omega
      simp only [hmax, if_false, htake hle]
      have hread := fun m => @handlesAt_write m base _ [] (show (consoles ++ loaded.drop consoles.length ++
          List.replicate (min loaded.length consoles.length) 0).length * 8 + ([] : List UInt8).length ≤ 2 ^ 64 by
        rw [hlen, List.length_nil]
        omega)
      simp only [List.append_nil, hlen] at hread
      constructor
      · rintro ⟨base', count, s', h, _, rfl⟩
        cases h
        rw [hcount]
        exact ⟨by omega, hle, hread _⟩
      · rintro ⟨_, _, rfl⟩
        exact ⟨_, _, _, rfl, by rw [hcount, hlen], by rw [hcount]; exact hread _⟩

/-- The buffer lists the handles. -/
structure ListsAll (hs : Handles) (buf : List UInt64) : Prop where
  live : ∀ handle ∈ buf, handle ≠ 0 ∧ LiveHandle hs handle
  distinct : buf.Nodup
  complete (i : Fin maxHandles) : (hs.get i).inUse = true → Carries (hs.get i) → handleForIndex i ∈ buf

/-- The protocol `guid` is somewhere, on every live handle that carries any, and `other` is nowhere. -/
structure OnlyOn (hs : Handles) (guid other : EfiGuid) : Prop where
  some : ∃ i, (bound hs i guid).isSome
  every (i : Fin maxHandles) : (hs.get i).inUse = true → Carries (hs.get i) → (bound hs i guid).isSome
  other (i : Fin maxHandles) : bound hs i other = none

theorem handlesWith_eq_nil_iff {hs : Handles} : handlesWith hs guid = [] ↔ ∀ i, bound hs i guid = none := by
  rw [List.eq_nil_iff_forall_not_mem]
  constructor
  · intro h i
    exact Option.not_isSome_iff_eq_none.mp fun hi => h _ (mem_handlesWith.mpr hi)
  · intro h handle hmem
    rw [handlesWith_eq] at hmem
    obtain ⟨i, hi, rfl⟩ := List.mem_map.mp hmem
    have hsome := (List.mem_filter.mp hi).2
    rw [h i] at hsome
    cases hsome

/-- The handles with one protocol are all handles if every live handle that carries a protocol has it. -/
theorem listsAll_handlesWith {hs : Handles} : ListsAll hs (handlesWith hs guid) ↔
    ∀ i, (hs.get i).inUse = true → Carries (hs.get i) → (bound hs i guid).isSome := by
  constructor
  · intro h i huse hcarries
    exact mem_handlesWith.mp (h.complete i huse hcarries)
  · intro h
    constructor
    · intro handle hmem
      rw [handlesWith_eq] at hmem
      obtain ⟨i, hi, rfl⟩ := List.mem_map.mp hmem
      have hsome := (List.mem_filter.mp hi).2
      refine ⟨fun hzero => ?_, i, rfl, ?_⟩
      · have hzero := congrArg UInt64.toNat hzero
        rw [toNat_handleForIndex] at hzero
        exact absurd hzero (by simp)
      · rw [bound_isSome, Bool.and_eq_true] at hsome
        exact hsome.1
    · exact (handlesWith_sorted hs guid).imp fun hlt heq => by
        rw [heq, UInt64.lt_iff_toNat_lt] at hlt
        omega
    · intro i huse hcarries
      exact mem_handlesWith.mpr (h i huse hcarries)

theorem OnlyOn.iff_lists {hs : Handles} : OnlyOn hs guid other ↔
    handlesWith hs other = [] ∧ handlesWith hs guid ≠ [] ∧ ListsAll hs (handlesWith hs guid) := by
  rw [listsAll_handlesWith, ne_eq, handlesWith_eq_nil_iff, handlesWith_eq_nil_iff]
  constructor
  · rintro ⟨⟨i, hi⟩, hevery, hother⟩
    refine ⟨hother, fun hnone => ?_, hevery⟩
    rw [hnone i] at hi
    cases hi
  · rintro ⟨hother, hsome, hevery⟩
    obtain ⟨i, hi⟩ := not_forall.mp hsome
    exact ⟨⟨i, Option.isSome_iff_ne_none.mpr hi⟩, hevery, hother⟩

/-- If there is a page for the buffer, `LocateHandleBuffer` lists the handles if and only if one of the two protocols is
on every live handle that carries any, and the other on none. -/
theorem listsAll_iff (hpage : (Memory.allocatePages s.alloc 1).isSome) :
    (∃ buf, Lists image s protocol buf ∧ ListsAll s.handles buf) ↔
      OnlyOn s.handles loadedImageProtocolGuid simpleTextOutputProtocolGuid ∨
        OnlyOn s.handles simpleTextOutputProtocolGuid loadedImageProtocolGuid := by
  have hloaded := length_handlesWith_le s.handles loadedImageProtocolGuid
  have hconsoles := length_handlesWith_le s.handles simpleTextOutputProtocolGuid
  simp only [lists_iff hpage, OnlyOn.iff_lists]
  generalize handlesWith s.handles loadedImageProtocolGuid = loaded at hloaded ⊢
  generalize handlesWith s.handles simpleTextOutputProtocolGuid = consoles at hconsoles ⊢
  constructor
  · rintro ⟨buf, ⟨hpos, _, rfl⟩, hall⟩
    -- an entry that neither scan wrote is null
    have hmin : min loaded.length consoles.length = 0 := by
      by_contra hne
      have hmem : (0 : UInt64) ∈ consoles ++ loaded.drop consoles.length ++
          List.replicate (min loaded.length consoles.length) 0 :=
        List.mem_append_right _ (List.mem_replicate.mpr ⟨hne, rfl⟩)
      exact (hall.live 0 hmem).1 rfl
    rw [hmin, List.replicate_zero, List.append_nil] at hall
    rcases Nat.min_eq_zero_iff.mp hmin with hl | hc
    · cases List.length_eq_zero_iff.mp hl
      rw [List.drop_nil, List.append_nil] at hall
      exact .inr ⟨rfl, List.ne_nil_of_length_pos (by simpa using hpos), hall⟩
    · cases List.length_eq_zero_iff.mp hc
      rw [List.length_nil, List.drop_zero, List.nil_append] at hall
      exact .inl ⟨rfl, List.ne_nil_of_length_pos (by simpa using hpos), hall⟩
  · rintro (⟨rfl, hne, hall⟩ | ⟨rfl, hne, hall⟩)
    · exact ⟨loaded, ⟨by simpa using List.length_pos_iff.mpr hne, by simpa using hloaded, by simp⟩, hall⟩
    · exact ⟨consoles, ⟨by simpa using List.length_pos_iff.mpr hne, by simpa using hconsoles, by simp⟩, hall⟩

theorem inUse_oneHandle (i : Fin maxHandles) (h : (oneHandle.get i).inUse = true) : i = ⟨0, by decide⟩ := by
  revert i
  decide

theorem listsAll_withHandle : ∃ buf, Lists Memory.onePage withHandle none buf ∧ ListsAll withHandle.handles buf := by
  refine (listsAll_iff (by decide)).mpr (.inl ⟨⟨⟨0, by decide⟩, rfl⟩, fun i huse _ => ?_, fun i => ?_⟩)
  · cases inUse_oneHandle i huse
    rfl
  · revert i
    decide

/-- Handle 1 has a loaded image, handle 2 a text output. The buffer begins with handle 2, and its other entry is null. -/
theorem not_listsAll_bare : ∃ s,
    Run Memory.onePage bare [⟨bare, .installProtocolInterface (some 0) (some loadedImageProtocolGuid) 0x1000,
        .word .success (some 1), withHandle⟩,
      ⟨withHandle, .installProtocolInterface (some 0) (some simpleTextOutputProtocolGuid) 0x2000,
        .word .success (some 2), s⟩] s ∧
    Lists Memory.onePage s none [2, 0] ∧ ¬ ∃ buf, Lists Memory.onePage s none buf ∧ ListsAll s.handles buf := by
  refine ⟨_, ⟨rfl, rfl, rfl, rfl, rfl⟩, (lists_iff (by decide) _).mpr ?_, fun h => ?_⟩
  · decide
  · rcases (listsAll_iff (by decide)).mp h with h | h
    · exact absurd (h.other ⟨1, by decide⟩) (by decide)
    · exact absurd (h.other ⟨0, by decide⟩) (by decide)

end Boot

end Ferro
