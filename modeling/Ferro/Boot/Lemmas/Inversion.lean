import Ferro.Boot.Model

/-!
# The calls that bind, by what they do

The calls on the protocol database return early in several places. Each is taken apart here once, with everything it
found on the way.
-/

namespace Ferro

namespace Boot

open ProtocolDb

variable {image : Image} {s s' : Boot} {r : Reply}

/-! ## The protocol services -/

/-- `InstallProtocolInterface`. -/
inductive Installing (s : Boot) (interface : UInt64) : Option UInt64 → Option EfiGuid → Reply → Boot → Prop where
  | null {handle : Option UInt64} {protocol : Option EfiGuid} (hnull : handle = none ∨ protocol = none) :
      Installing s interface handle protocol (.just .invalidParameter) s
  | refused {existing : UInt64} {guid : EfiGuid} {hs : Handles}
      (hfind : findOrCreateHandle s.handles existing = some (none, hs)) :
      Installing s interface (some existing) (some guid) (.just .outOfResources) { s with handles := hs }
  | full {existing : UInt64} {guid : EfiGuid} {hs hs' : Handles} {i : Fin maxHandles}
      (hfind : findOrCreateHandle s.handles existing = some (some i, hs))
      (hins : install hs i guid interface = (false, hs')) :
      Installing s interface (some existing) (some guid) (.just .outOfResources) { s with handles := hs' }
  | done {existing : UInt64} {guid : EfiGuid} {hs hs' : Handles} {i : Fin maxHandles}
      (hfind : findOrCreateHandle s.handles existing = some (some i, hs))
      (hins : install hs i guid interface = (true, hs')) :
      Installing s interface (some existing) (some guid) (.word .success (some (handleForIndex i)))
        { s with handles := hs' }

theorem installProtocolInterface_cases {handle : Option UInt64} {protocol : Option EfiGuid} {interface : UInt64}
    (h : s.installProtocolInterface handle protocol interface = some (r, s')) :
    Installing s interface handle protocol r s' := by
  cases handle with
  | none => cases h; exact .null (.inl rfl)
  | some existing =>
      cases protocol with
      | none => cases h; exact .null (.inr rfl)
      | some guid =>
          obtain ⟨⟨found, hs⟩, hfind, h⟩ := Option.bind_eq_some_iff.mp h
          cases found with
          | none => cases h; exact .refused hfind
          | some i =>
              dsimp only at h
              split at h
              · rename_i hins
                cases h
                exact .full hfind hins
              · rename_i hins
                cases h
                exact .done hfind hins

/-- `ReinstallProtocolInterface`. -/
inductive Reinstalling (s : Boot) (handle interface : UInt64) : Option EfiGuid → Reply → Boot → Prop where
  | null : Reinstalling s handle interface none (.just .invalidParameter) s
  | dead {guid : EfiGuid} (hfound : indexOf s.handles handle = some none) :
      Reinstalling s handle interface (some guid) (.just .invalidParameter) s
  | full {guid : EfiGuid} {i : Fin maxHandles} {hs : Handles} (hfound : indexOf s.handles handle = some (some i))
      (hins : install (uninstall s.handles i guid).2 i guid interface = (false, hs)) :
      Reinstalling s handle interface (some guid) (.just .outOfResources) { s with handles := hs }
  | done {guid : EfiGuid} {i : Fin maxHandles} {hs : Handles} (hfound : indexOf s.handles handle = some (some i))
      (hins : install (uninstall s.handles i guid).2 i guid interface = (true, hs)) :
      Reinstalling s handle interface (some guid) (.just .success) { s with handles := hs }

theorem reinstallProtocolInterface_cases {handle interface : UInt64} {protocol : Option EfiGuid}
    (h : s.reinstallProtocolInterface handle protocol interface = some (r, s')) :
    Reinstalling s handle interface protocol r s' := by
  cases protocol with
  | none => cases h; exact .null
  | some guid =>
      obtain ⟨found, hfound, h⟩ := Option.bind_eq_some_iff.mp h
      cases found with
      | none => cases h; exact .dead hfound
      | some i =>
          dsimp only at h
          split at h
          · rename_i hins
            cases h
            exact .full hfound hins
          · rename_i hins
            cases h
            exact .done hfound hins

/-- `UninstallProtocolInterface`. -/
inductive Uninstalling (s : Boot) (handle : UInt64) : Option EfiGuid → Reply → Boot → Prop where
  | null : Uninstalling s handle none (.just .invalidParameter) s
  | dead {guid : EfiGuid} (hfound : indexOf s.handles handle = some none) :
      Uninstalling s handle (some guid) (.just .invalidParameter) s
  | absent {guid : EfiGuid} {i : Fin maxHandles} {hs : Handles} (hfound : indexOf s.handles handle = some (some i))
      (hun : uninstall s.handles i guid = (false, hs)) :
      Uninstalling s handle (some guid) (.just .notFound) { s with handles := hs }
  | done {guid : EfiGuid} {i : Fin maxHandles} {hs : Handles} (hfound : indexOf s.handles handle = some (some i))
      (hun : uninstall s.handles i guid = (true, hs)) :
      Uninstalling s handle (some guid) (.just .success) { s with handles := hs }

theorem uninstallProtocolInterface_cases {handle : UInt64} {protocol : Option EfiGuid}
    (h : s.uninstallProtocolInterface handle protocol = some (r, s')) : Uninstalling s handle protocol r s' := by
  cases protocol with
  | none => cases h; exact .null
  | some guid =>
      obtain ⟨found, hfound, h⟩ := Option.bind_eq_some_iff.mp h
      cases found with
      | none => cases h; exact .dead hfound
      | some i =>
          dsimp only at h
          split at h
          · rename_i hun
            cases h
            exact .done hfound hun
          · rename_i hun
            cases h
            exact .absent hfound hun

/-! ## `LoadImage` -/

/-- The entry of a loaded image. -/
def imageEntry (image : Image) (parent : UInt64) (loaded : LoadedPe) : LoadedImage :=
  { emptyLoadedImage with
    parentHandle := parent
    systemTable := image.systemTable
    imageBase := loaded.imageBase
    imageSize := loaded.imageSize }

/-- `LoadImage` does not look at the data. -/
def declines (s : Boot) (src : Option Ptr8) (size : UInt64) (out : OutPtr) : Bool :=
  s.exited || src.isNone || !out || decide (size = 0)

/-- `LoadImage`. -/
inductive Loading (image : Image) (s : Boot) (parent : UInt64) (src : Option Ptr8) (size : UInt64) (out : OutPtr) :
    Reply → Boot → Prop where
  | declined {st : EfiStatus} (hst : st ≠ .success) (hno : s.declines src size out = true) :
      Loading image s parent src size out (.just st) s
  | rejected {e : PeError} {alloc : Allocator} {mem : Mem} (hno : s.declines src size out = false)
      (hload : Pe.load (rawParts size.toNat src) s.alloc s.mem = (.error e, alloc, mem)) :
      Loading image s parent src size out (.just .unsupported) { s with alloc, mem }
  | refused {loaded : LoadedPe} {alloc : Allocator} {mem : Mem} {hs : Handles} (hno : s.declines src size out = false)
      (hload : Pe.load (rawParts size.toNat src) s.alloc s.mem = (.ok loaded, alloc, mem))
      (hfind : findOrCreateHandle s.handles 0 = some (none, hs)) :
      Loading image s parent src size out (.just .outOfResources) { s with alloc, mem, handles := hs }
  | full {loaded : LoadedPe} {alloc : Allocator} {mem : Mem} {hs hs' : Handles} {i : Fin maxHandles}
      (hno : s.declines src size out = false)
      (hload : Pe.load (rawParts size.toNat src) s.alloc s.mem = (.ok loaded, alloc, mem))
      (hfind : findOrCreateHandle s.handles 0 = some (some i, hs))
      (hins : install hs i loadedImageProtocolGuid (image.loadedImageProtocols + .ofNat (i.val * loadedImageSize)) =
        (false, hs')) :
      Loading image s parent src size out (.just .outOfResources) { s with
        alloc, mem, handles := hs'
        loadedImages := s.loadedImages.set i (imageEntry image parent loaded)
        entryPoints := s.entryPoints.set i loaded.entryPoint }
  | done {loaded : LoadedPe} {alloc : Allocator} {mem : Mem} {hs hs' : Handles} {i : Fin maxHandles}
      (hno : s.declines src size out = false)
      (hload : Pe.load (rawParts size.toNat src) s.alloc s.mem = (.ok loaded, alloc, mem))
      (hfind : findOrCreateHandle s.handles 0 = some (some i, hs))
      (hins : install hs i loadedImageProtocolGuid (image.loadedImageProtocols + .ofNat (i.val * loadedImageSize)) =
        (true, hs')) :
      Loading image s parent src size out (.word .success (some (handleForIndex i))) { s with
        alloc, mem, handles := hs'
        loadedImages := s.loadedImages.set i (imageEntry image parent loaded)
        entryPoints := s.entryPoints.set i loaded.entryPoint }

theorem loadImage_cases {parent size : UInt64} {src : Option Ptr8} {out : OutPtr}
    (h : s.loadImage image parent src size out = some (r, s')) : Loading image s parent src size out r s' := by
  unfold loadImage at h
  split at h
  case isTrue he => cases h; exact .declined (by decide) (by simp [declines, he])
  case isFalse he =>
    cases src with
    | none => cases h; exact .declined (by decide) (by simp [declines])
    | some ptr =>
        dsimp only at h
        split at h
        case isTrue hn =>
          cases h
          refine .declined (by decide) ?_
          rw [declines, Bool.or_assoc, hn, Bool.or_true]
        case isFalse hn =>
          have hno : s.declines (some ptr) size out = false := by simp_all [declines]
          split at h
          case h_1 e alloc mem hload => cases h; exact .rejected hno hload
          case h_2 loaded alloc mem hload =>
            obtain ⟨⟨found, hs⟩, hfind, h⟩ := Option.bind_eq_some_iff.mp h
            cases found with
            | none => cases h; exact .refused hno hload hfind
            | some i =>
                dsimp only at h
                split at h
                · rename_i hins
                  cases h
                  exact .full hno hload hfind hins
                · rename_i hins
                  cases h
                  exact .done hno hload hfind hins

end Boot

end Ferro
