import Ferro.Boot.Lemmas.Inversion

/-!
# What a call can change

Each call touches one group of the statics and leaves the others. What a call does not do to a static follows from
`step_touches`, without a look at the call.
-/

namespace Ferro

/-- The groups of statics. -/
inductive Touch where
  | nothing
  | tpl
  | memory
  | events
  | handles
  | images
  | config
  | flag
  | count
  deriving DecidableEq

/-- Only the group changes from `s` to `s'`. Loading an image also takes pages and a handle. -/
def Touch.Changes (s s' : Boot) : Touch → Prop
  | nothing => s' = s
  | tpl => ∃ currentTpl, s' = { s with currentTpl }
  | memory => ∃ alloc mem, s' = { s with alloc, mem }
  | events => ∃ events, s' = { s with events }
  | handles => ∃ handles, s' = { s with handles }
  | images => ∃ alloc mem handles loadedImages entryPoints,
      s' = { s with alloc, mem, handles, loadedImages, entryPoints }
  | config => ∃ configTable, s' = { s with configTable }
  | flag => ∃ exited, s' = { s with exited }
  | count => ∃ monotonicCount, s' = { s with monotonicCount }

/-- What stays outside the group. -/
structure Touch.Frame (s s' : Boot) (t : Touch) : Prop where
  alloc : t ≠ .memory ∧ t ≠ .images → s'.alloc = s.alloc
  exited : t ≠ .flag → s'.exited = s.exited
  framebuffer : s'.fbBase = s.fbBase ∧ s'.fbSize = s.fbSize
  handles : t ≠ .handles ∧ t ≠ .images → s'.handles = s.handles
  events : t ≠ .events → s'.events = s.events
  configTable : t ≠ .config → s'.configTable = s.configTable

theorem Touch.Changes.frame {s s' : Boot} {t : Touch} (h : t.Changes s s') : t.Frame s s' := by
  have frame_self (t : Touch) : t.Frame s s :=
    ⟨fun _ => rfl, fun _ => rfl, ⟨rfl, rfl⟩, fun _ => rfl, fun _ => rfl, fun _ => rfl⟩
  cases t with
  | nothing => cases h; exact frame_self _
  | tpl => obtain ⟨_, rfl⟩ := h; exact { frame_self .tpl with }
  | count => obtain ⟨_, rfl⟩ := h; exact { frame_self .count with }
  | memory => obtain ⟨_, _, rfl⟩ := h; exact { frame_self .memory with alloc := fun hne => absurd rfl hne.1 }
  | images =>
      obtain ⟨_, _, _, _, _, rfl⟩ := h
      exact { frame_self .images with
        alloc := fun hne => absurd rfl hne.2
        handles := fun hne => absurd rfl hne.2 }
  | flag => obtain ⟨_, rfl⟩ := h; exact { frame_self .flag with exited := fun hne => absurd rfl hne }
  | handles => obtain ⟨_, rfl⟩ := h; exact { frame_self .handles with handles := fun hne => absurd rfl hne.1 }
  | events => obtain ⟨_, rfl⟩ := h; exact { frame_self .events with events := fun hne => absurd rfl hne }
  | config => obtain ⟨_, rfl⟩ := h; exact { frame_self .config with configTable := fun hne => absurd rfl hne }

def Call.touches : Call → Touch
  | .raiseTpl _ => .tpl
  | .restoreTpl _ => .tpl
  | .allocatePages _ _ => .memory
  | .allocatePool _ _ => .memory
  | .protocolsPerHandle _ _ _ => .memory
  | .locateHandleBuffer _ _ _ _ => .memory
  | .copyMem _ _ _ => .memory
  | .setMem _ _ _ => .memory
  | .createEvent _ _ _ _ => .events
  | .createEventEx _ _ _ _ => .events
  | .setTimer _ _ _ _ _ => .events
  | .waitForEvent _ _ _ _ => .events
  | .signalEvent _ => .events
  | .closeEvent _ => .events
  | .checkEvent _ _ => .events
  | .installProtocolInterface _ _ _ => .handles
  | .reinstallProtocolInterface _ _ _ => .handles
  | .uninstallProtocolInterface _ _ => .handles
  | .loadImage _ _ _ _ => .images
  | .installConfigurationTable _ _ => .config
  | .exitBootServices _ => .flag
  | .getNextMonotonicCount _ => .count
  | _ => .nothing

namespace Boot

variable {image : Image} {s s' : Boot} {c : Call} {r : Reply}

theorem allocatePages_changes (pages : UInt64) (memory : OutPtr) :
    Touch.memory.Changes s (s.allocatePages pages memory).2 := by
  unfold allocatePages
  split
  · exact ⟨_, _, rfl⟩
  · split
    · exact ⟨_, _, rfl⟩
    · split <;> exact ⟨_, _, rfl⟩

theorem createEvent_changes (eventType : UInt32) (notifyFunction : Option UInt64) (notifyContext : UInt64)
    (event : OutPtr) : Touch.events.Changes s (s.createEvent eventType notifyFunction notifyContext event).2 := by
  unfold createEvent
  split
  · exact ⟨_, rfl⟩
  · dsimp only
    split <;> exact ⟨_, rfl⟩

theorem waitForEvent_changes {readings : List Events.Reading} {numberOfEvents : UInt64} {event : Option (Nat → UInt64)}
    {index : OutPtr} (h : s.waitForEvent readings numberOfEvents event index = some (r, s')) :
    Touch.events.Changes s s' := by
  unfold waitForEvent at h
  split at h
  · cases h; exact ⟨_, rfl⟩
  · split at h
    · cases h; exact ⟨_, rfl⟩
    · split at h
      · cases h; exact ⟨_, rfl⟩
      · obtain ⟨⟨res, events⟩, _, h⟩ := Option.map_eq_some_iff.mp h
        cases res <;> cases h <;> exact ⟨_, rfl⟩

theorem installConfigurationTable_changes (guid : Option EfiGuid) (table : UInt64) :
    Touch.config.Changes s (s.installConfigurationTable guid table).2 := by
  unfold installConfigurationTable
  split
  · exact ⟨_, rfl⟩
  · split
    · split <;> exact ⟨_, rfl⟩
    · split
      · exact ⟨_, rfl⟩
      · split <;> exact ⟨_, rfl⟩

theorem exitBootServices_changes (mapKey : UInt64) : Touch.flag.Changes s (s.exitBootServices mapKey).2 := by
  unfold exitBootServices
  split
  · exact ⟨_, rfl⟩
  · split <;> exact ⟨_, rfl⟩

theorem installProtocolInterface_changes {handle : Option UInt64} {protocol : Option EfiGuid} {interface : UInt64}
    (h : s.installProtocolInterface handle protocol interface = some (r, s')) : Touch.handles.Changes s s' := by
  cases installProtocolInterface_cases h <;> exact ⟨_, rfl⟩

theorem reinstallProtocolInterface_changes {handle newInterface : UInt64} {protocol : Option EfiGuid}
    (h : s.reinstallProtocolInterface handle protocol newInterface = some (r, s')) : Touch.handles.Changes s s' := by
  cases reinstallProtocolInterface_cases h <;> exact ⟨_, rfl⟩

theorem uninstallProtocolInterface_changes {handle : UInt64} {protocol : Option EfiGuid}
    (h : s.uninstallProtocolInterface handle protocol = some (r, s')) : Touch.handles.Changes s s' := by
  cases uninstallProtocolInterface_cases h <;> exact ⟨_, rfl⟩

theorem locateHandleBuffer_changes {searchType : UInt32} {protocol : Option EfiGuid} {numHandles buffer : OutPtr}
    (h : s.locateHandleBuffer searchType protocol numHandles buffer = some (r, s')) : Touch.memory.Changes s s' := by
  unfold locateHandleBuffer at h
  split at h
  · cases h; exact ⟨_, _, rfl⟩
  · split at h
    · cases h; exact ⟨_, _, rfl⟩
    · split at h
      · cases h; exact ⟨_, _, rfl⟩
      · split at h
        · cases h; exact ⟨_, _, rfl⟩
        · split at h <;> cases h
          exact ⟨_, _, rfl⟩

theorem protocolsPerHandle_changes {handle : UInt64} {protocolBuffer protocolBufferCount : OutPtr}
    (h : s.protocolsPerHandle handle protocolBuffer protocolBufferCount = some (r, s')) :
    Touch.memory.Changes s s' := by
  unfold protocolsPerHandle at h
  split at h
  · cases h; exact ⟨_, _, rfl⟩
  · obtain ⟨guids, _, h⟩ := Option.bind_eq_some_iff.mp h
    cases guids with
    | none => cases h; exact ⟨_, _, rfl⟩
    | some guids =>
        dsimp only at h
        split at h
        · cases h; exact ⟨_, _, rfl⟩
        · split at h <;> cases h <;> exact ⟨_, _, rfl⟩

theorem loadImage_changes {parent : UInt64} {src : Option Ptr8} {size : UInt64} {handle : OutPtr}
    (h : s.loadImage image parent src size handle = some (r, s')) : Touch.images.Changes s s' := by
  cases loadImage_cases h <;> exact ⟨_, _, _, _, _, rfl⟩

theorem reads_eq {reply : Option Reply} (h : reply.map (·, s) = some (r, s')) : s' = s := by
  obtain ⟨_, _, h⟩ := Option.map_eq_some_iff.mp h
  cases h
  rfl

theorem total_eq {p : Reply × Boot} (h : some p = some (r, s')) : s' = p.2 := by
  cases h
  rfl

theorem step_touches (h : s.step image c = some (r, s')) : c.touches.Changes s s' := by
  cases c with
  | allocatePages pages memory => rw [total_eq h]; exact allocatePages_changes pages memory
  | allocatePool size buffer => rw [total_eq h]; exact allocatePages_changes (poolPages size) buffer
  | createEvent eventType fn ctx event => rw [total_eq h]; exact createEvent_changes eventType fn ctx event
  | createEventEx eventType fn ctx event => rw [total_eq h]; exact createEvent_changes eventType fn ctx event
  | installConfigurationTable guid table => rw [total_eq h]; exact installConfigurationTable_changes guid table
  | exitBootServices k => rw [total_eq h]; exact exitBootServices_changes k
  | getNextMonotonicCount count =>
      rw [total_eq h, getNextMonotonicCount]
      split <;> exact ⟨_, rfl⟩
  | waitForEvent readings n event index => exact waitForEvent_changes h
  | setTimer clock now event timerType triggerTime =>
      obtain ⟨⟨st, events⟩, _, h⟩ := Option.map_eq_some_iff.mp h
      cases h
      exact ⟨_, rfl⟩
  | installProtocolInterface handle protocol interface => exact installProtocolInterface_changes h
  | reinstallProtocolInterface handle protocol interface => exact reinstallProtocolInterface_changes h
  | uninstallProtocolInterface handle protocol => exact uninstallProtocolInterface_changes h
  | locateHandleBuffer searchType protocol numHandles buffer => exact locateHandleBuffer_changes h
  | protocolsPerHandle handle buffer count => exact protocolsPerHandle_changes h
  | loadImage parent src size handle => exact loadImage_changes h
  | handleProtocol handle protocol interface => exact reads_eq h
  | openProtocol handle protocol interface => exact reads_eq h
  | startImage handle => exact reads_eq h
  | unloadImage handle => exact reads_eq h
  | stall clock microseconds => exact reads_eq h
  | raiseTpl newTpl => cases h; exact ⟨_, rfl⟩
  | restoreTpl oldTpl => cases h; exact ⟨_, rfl⟩
  | signalEvent event => cases h; exact ⟨_, rfl⟩
  | closeEvent event => cases h; exact ⟨_, rfl⟩
  | checkEvent reading event => cases h; exact ⟨_, rfl⟩
  | copyMem destination source length => cases h; exact ⟨_, _, rfl⟩
  | setMem buffer size value => cases h; exact ⟨_, _, rfl⟩
  | _ => cases h; rfl

end Boot

end Ferro
