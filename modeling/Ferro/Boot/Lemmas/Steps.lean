import Ferro.Boot.Lemmas.Effects
import Ferro.Memory.Lemmas.Alloc

/-!
# What a call does to the allocator

Of the statics only four decide the memory map and the handshake: the allocator, the flag, and the framebuffer region.
A call asks the allocator for pages or does not (`asked`), and that is all it does to them, `ExitBootServices` apart.
-/

namespace Ferro

namespace Boot

variable {image : Image} {s s' : Boot} {c : Call} {r : Reply} {k : UInt64}

/-- The statics that decide the memory map and the handshake. -/
def core (s : Boot) : Allocator × Bool × UInt64 × UInt64 := (s.alloc, s.exited, s.fbBase, s.fbSize)

/-- The pages a `LoadImage` of the data asks for. -/
def imagePages (data : List UInt8) : Option UInt64 :=
  match Pe.parseHeaders data with
  | .error _ => none
  | .ok h => some ((h.sizeOfImage + 0xFFF) / 0x1000)

/-- The pages a call asks the allocator for; `none` if it does not ask. -/
def asked (s : Boot) : Call → Option UInt64
  | .allocatePages pages memory => if s.exited || !memory then none else some pages
  | .allocatePool size buffer => if s.exited || !buffer then none else some (poolPages size)
  | .loadImage _ sourceBuffer sourceSize imageHandle =>
    if s.exited || sourceBuffer.isNone || !imageHandle || sourceSize = 0 then
      none
    else
      imagePages (rawParts sourceSize.toNat sourceBuffer)
  | .protocolsPerHandle handle protocolBuffer protocolBufferCount =>
    if !protocolBuffer || !protocolBufferCount then
      none
    else
      match ProtocolDb.protocolsOnHandle s.handles handle with
      | some (some guids) => if guids.length = 0 then none else some (bufferPages (guids.length * 8 + guids.length * 16))
      | _ => none
  | .locateHandleBuffer searchType protocol numHandles buffer =>
    if !numHandles || !buffer then
      none
    else
      match s.searchHandles searchType protocol with
      | .ok (count, _) => if count = 0 then none else some (bufferPages (count * 8))
      | .error _ => none
  | _ => none

/-- The allocator after a call asked for pages. -/
def granted (a : Allocator) : Option UInt64 → Allocator
  | none => a
  | some count => ((Memory.allocatePages a count).map Prod.snd).getD a

/-- The core after a call asked for pages. -/
def grantedCore (s : Boot) (pages : Option UInt64) : Allocator × Bool × UInt64 × UInt64 :=
  (granted s.alloc pages, s.exited, s.fbBase, s.fbSize)

theorem grantedCore_none : s.grantedCore none = s.core := rfl

/-! ## One call -/

theorem allocatePages_core (pages : UInt64) (memory : OutPtr) :
    (s.allocatePages pages memory).2.core = s.grantedCore (s.asked (.allocatePages pages memory)) := by
  rw [allocatePages, asked]
  cases he : s.exited with
  | true => simp [grantedCore, granted, core, he]
  | false =>
      cases memory with
      | false => simp [grantedCore, granted, core, he]
      | true => cases ha : Memory.allocatePages s.alloc pages <;> simp [grantedCore, granted, core, he, ha]

theorem allocatePool_core (size : UInt64) (buffer : OutPtr) :
    (s.allocatePool size buffer).2.core = s.grantedCore (s.asked (.allocatePool size buffer)) :=
  allocatePages_core (poolPages size) buffer

theorem load_alloc (data : List UInt8) (a : Allocator) (m : Mem) :
    (Pe.load data a m).2.1 = granted a (imagePages data) := by
  unfold Pe.load imagePages
  cases Pe.parseHeaders data with
  | error e => rfl
  | ok h =>
      dsimp only
      cases ha : Memory.allocatePages a ((h.sizeOfImage + 0xFFF) / 0x1000) with
      | none => simp [granted, ha]
      | some p =>
          simp only [granted, ha, Option.map_some, Option.getD_some]
          split
          · rfl
          · split <;> rfl

theorem findOrCreateHandle_zero (hs : Handles) : ∃ i hs', ProtocolDb.findOrCreateHandle hs 0 = some (i, hs') := by
  simp only [ProtocolDb.findOrCreateHandle, ProtocolDb.handleToIndex, if_pos]
  cases hs.find? fun h => !h.inUse <;> exact ⟨_, _, rfl⟩

theorem loadImage_core {parent : UInt64} {src : Option Ptr8} {size : UInt64} {handle : OutPtr}
    (h : s.loadImage image parent src size handle = some (r, s')) :
    s'.core = s.grantedCore (s.asked (.loadImage parent src size handle)) := by
  rw [asked]
  have hload := load_alloc (rawParts size.toNat src) s.alloc s.mem
  cases loadImage_cases h with
  | declined _ hno => rw [← declines, if_pos hno, grantedCore_none]
  | rejected hno hres =>
      rw [← declines, if_neg (by simp [hno]), grantedCore, ← hload, hres]
      rfl
  | refused hno hres _ =>
      rw [← declines, if_neg (by simp [hno]), grantedCore, ← hload, hres]
      rfl
  | full hno hres _ _ =>
      rw [← declines, if_neg (by simp [hno]), grantedCore, ← hload, hres]
      rfl
  | done hno hres _ _ =>
      rw [← declines, if_neg (by simp [hno]), grantedCore, ← hload, hres]
      rfl

theorem locateHandleBuffer_core {searchType : UInt32} {protocol : Option EfiGuid} {numHandles buffer : OutPtr}
    (h : s.locateHandleBuffer searchType protocol numHandles buffer = some (r, s')) :
    s'.core = s.grantedCore (s.asked (.locateHandleBuffer searchType protocol numHandles buffer)) := by
  unfold locateHandleBuffer at h
  rw [asked]
  split at h
  case isTrue hn => cases h; rw [if_pos hn]; rfl
  case isFalse hn =>
    rw [if_neg hn]
    cases hf : s.searchHandles searchType protocol with
    | error st => rw [hf] at h; cases h; rfl
    | ok p =>
        rw [hf] at h
        dsimp only at h ⊢
        split at h
        case isTrue hz => cases h; rw [if_pos hz]; rfl
        case isFalse hz =>
          rw [if_neg hz]
          cases ha : Memory.allocatePages s.alloc (bufferPages (p.1 * 8)) with
          | none => rw [ha] at h; cases h; simp [grantedCore, granted, ha, core]
          | some b =>
              rw [ha] at h
              dsimp only at h
              split at h
              · cases h
              · cases h; simp [grantedCore, granted, ha, core]

theorem protocolsPerHandle_core {handle : UInt64} {protocolBuffer protocolBufferCount : OutPtr}
    (h : s.protocolsPerHandle handle protocolBuffer protocolBufferCount = some (r, s')) :
    s'.core = s.grantedCore (s.asked (.protocolsPerHandle handle protocolBuffer protocolBufferCount)) := by
  unfold protocolsPerHandle at h
  rw [asked]
  split at h
  case isTrue hn => cases h; rw [if_pos hn]; rfl
  case isFalse hn =>
    rw [if_neg hn]
    cases hf : ProtocolDb.protocolsOnHandle s.handles handle with
    | none => rw [hf] at h; cases h
    | some p =>
        rw [hf] at h
        simp only [Option.bind_eq_bind, Option.bind_some] at h
        cases p with
        | none => cases h; rfl
        | some guids =>
            dsimp only at h ⊢
            split at h
            case isTrue hz => cases h; rw [if_pos hz]; rfl
            case isFalse hz =>
              rw [if_neg hz]
              cases ha : Memory.allocatePages s.alloc (bufferPages (guids.length * 8 + guids.length * 16)) with
              | none => rw [ha] at h; cases h; simp [grantedCore, granted, ha, core]
              | some b => rw [ha] at h; cases h; simp [grantedCore, granted, ha, core]

/-- The other calls leave the core. -/
theorem core_of_frame {t : Touch} (h : t.Frame s s') (ht : t ≠ .memory ∧ t ≠ .images ∧ t ≠ .flag) :
    s'.core = s.core := by
  rw [Boot.core, Boot.core, h.alloc ⟨ht.1, ht.2.1⟩, h.exited ht.2.2, h.framebuffer.1, h.framebuffer.2]

theorem step_core (h : s.step image c = some (r, s')) (hne : ∀ k, c ≠ .exitBootServices k) :
    s'.core = s.grantedCore (s.asked c) := by
  cases c with
  | allocatePages pages memory => rw [total_eq h]; exact allocatePages_core pages memory
  | allocatePool size buffer => rw [total_eq h]; exact allocatePool_core size buffer
  | loadImage parent src size handle => exact loadImage_core h
  | protocolsPerHandle handle buffer count => exact protocolsPerHandle_core h
  | locateHandleBuffer searchType protocol numHandles buffer => exact locateHandleBuffer_core h
  | exitBootServices k => exact absurd rfl (hne k)
  | copyMem destination source length => cases h; rfl
  | setMem buffer size value => cases h; rfl
  | _ => exact core_of_frame (step_touches h).frame (by simp [Call.touches])

theorem exitBootServices_cases (h : s.step image (.exitBootServices k) = some (r, s')) :
    (r = .just .success ∧ s.exited ∧ s' = s) ∨
      (r = .just .invalidParameter ∧ ¬ s.exited ∧ k ≠ s.alloc.generation ∧ s' = s) ∨
      (r = .just .success ∧ ¬ s.exited ∧ k = s.alloc.generation ∧ s' = { s with exited := true }) := by
  simp only [step, exitBootServices] at h
  split at h
  case isTrue he => cases h; exact Or.inl ⟨rfl, he, rfl⟩
  case isFalse he =>
    split at h
    case isTrue hk => cases h; exact Or.inr (Or.inl ⟨rfl, he, hk, rfl⟩)
    case isFalse hk => cases h; exact Or.inr (Or.inr ⟨rfl, he, not_not.mp hk, rfl⟩)

end Boot

end Ferro
