import Ferro.Persist.Lemmas.Merge
import Ferro.Services.Model

/-!
# Sessions on a well-formed volume

No action panics or hangs there, the volume stays well formed, and `FERRO.VAR` changes only when the store is saved.
-/

namespace Ferro

open Variables Persist

theorem Persist.Saved.returned {fs : Fat32} {vars : Store} {d d' : Disk} {r : Except PersistStop Nat}
    (h : Saved fs vars d d' r) : ∃ r', PersistStop.returned r = some r' := by
  cases h with
  | ok _ _ _ => exact ⟨_, rfl⟩
  | tooLarge _ _ => exact ⟨_, rfl⟩
  | noSpace _ _ _ => exact ⟨_, rfl⟩

namespace Session

variable {fs : Fat32} {s s' : Session} {key : Key} {a : Action} {name : CStr16} {guid : EfiGuid}
  {attributes : UInt32} {dataSize : Nat} {data : Option Ptr8}

/-- What holds between two actions. -/
structure Sound (fs : Fat32) (s : Session) : Prop where
  reachable : Reachable s.vars
  ready : Ready fs s.card
  context {fs'} : s.context = some fs' → fs' = fs

/-- A name of `settings.rs`. -/
def settingName (name : String) : CStr16 := ⟨nameUnits name, name.toList.length, by simp [nameUnits]⟩

/-- The call of `variables::set` that an action makes. -/
def setCall : Action → Option (CStr16 × EfiGuid × UInt32 × List UInt8)
  | .setVariable (some name) (some guid) attributes dataSize data =>
    if 0 < dataSize ∧ data.isNone then none else some (name, guid, attributes, rawParts dataSize data)
  | .setVerboseBoot v => some (settingName "VerboseBoot", ferroSettingsGuid, settingsAttr, [v.toUInt8])
  | .setTheme t => some (settingName "AccentTheme", ferroSettingsGuid, settingsAttr, [t.toByte])
  | .setUsbEnabled v => some (settingName "UsbHidEnabled", ferroSettingsGuid, settingsAttr, [v.toUInt8])
  | _ => none

/-- The action sets the key: its call has data and succeeds. -/
def Sets (s : Session) (key : Key) (a : Action) : Prop :=
  ∃ name guid attributes data, setCall a = some (name, guid, attributes, data) ∧ (name.units, guid) = key ∧
    data ≠ [] ∧ (set s.vars name.mem guid attributes data).1 = .ok ()

/-- Mounting the card gives `fs`, files are written as the callers of `write_file` promise, and raw blocks only
outside the volume. -/
def Clean (fs : Fat32) (s : Session) : Action → Prop
  | .bootFromSd fs' => fs' = fs
  | .saveVariablesToSd fs' => fs' = fs
  | .writeFile name data => fs.Callable (fs.volume s.card) name data
  | .blockWrite lba sector => fs.volume (Function.update s.card lba sector) = fs.volume s.card
  | _ => True

/-! ## What the actions do -/

theorem Sound.set (h : Sound fs s) (name : CStr16) (guid : EfiGuid) (attributes : UInt32) (data : List UInt8) :
    Sound fs { s with vars := (set s.vars name.mem guid attributes data).2 } :=
  ⟨h.reachable.set name guid attributes data, h.ready, h.context⟩

theorem Sound.save (h : Sound fs s) (ha : fs.Addressable) : ∃ r r' card,
    (save fs s.vars).run s.card = (r, card) ∧ PersistStop.returned r = some r' ∧ Ready fs card ∧
      FileAfter fs s.card card (imageOf s.vars) r := by
  obtain ⟨r, card, hrun, hwf, hsaved⟩ := run_save h.ready ha h.reachable.valid
  obtain ⟨r', hr'⟩ := hsaved.returned
  have hready : Ready fs card := ⟨hwf, hsaved.notSubdir h.ready.notSubdir⟩
  exact ⟨r, r', card, hrun, hr', hready, hsaved.fileAfter h.ready hready⟩

theorem Sound.autosave_eq (h : Sound fs s) (ha : fs.Addressable) (hctx : s.context = some fs) : ∃ r r' card,
    (Persist.save fs s.vars).run s.card = (r, card) ∧ s.autosave = some (r', { s with card }) ∧ Ready fs card ∧
      FileAfter fs s.card card (imageOf s.vars) r := by
  obtain ⟨r, r', card, hrun, hr', hready, hfile⟩ := h.save ha
  refine ⟨r, some r', card, hrun, ?_, hready, hfile⟩
  simp only [Session.autosave, hctx, hrun, hr', Option.map_some]

/-- The file holds the store, or is as it was. -/
def SavedOr (fs : Fat32) (s s' : Session) : Prop :=
  varFile fs s'.card = .ok (imageOf s'.vars) ∨ varFile fs s'.card = varFile fs s.card

theorem savedOr_of_fileAfter {r : Except PersistStop Nat} (h : FileAfter fs s.card s'.card (imageOf s'.vars) r) :
    SavedOr fs s s' := by
  cases h with
  | written _ hf => exact Or.inl hf
  | kept _ hf => exact Or.inr hf

theorem Sound.autosave (h : Sound fs s) (ha : fs.Addressable) : ∃ r s', s.autosave = some (r, s') ∧ Sound fs s' ∧
    s'.vars = s.vars ∧ SavedOr fs s s' := by
  cases hctx : s.context with
  | none => exact ⟨none, s, by simp only [Session.autosave, hctx], h, rfl, Or.inr rfl⟩
  | some fs' =>
      obtain rfl := h.context hctx
      obtain ⟨_, r, card, _, heq, hready, hfile⟩ := h.autosave_eq ha hctx
      exact ⟨r, _, heq, ⟨h.reachable, hready, h.context⟩, rfl, savedOr_of_fileAfter hfile⟩

/-- A call that returns success has set the variable, and was followed by a save if it is non-volatile. -/
theorem setVariable_success {mem : Ptr16}
    (h : s.setVariable (some mem) (some guid) attributes dataSize data = some (.success, s')) :
    (Variables.set s.vars mem guid attributes (rawParts dataSize data)).1 = .ok () ∧
      (attributes &&& nonVolatile ≠ 0 → ∃ r,
        ({ s with vars := (Variables.set s.vars mem guid attributes (rawParts dataSize data)).2 } : Session).autosave =
          some (r, s')) ∧
      (attributes &&& nonVolatile = 0 →
        s' = { s with vars := (Variables.set s.vars mem guid attributes (rawParts dataSize data)).2 }) := by
  unfold setVariable at h
  dsimp only at h
  split at h
  · cases h
  · cases hset : Variables.set s.vars mem guid attributes (rawParts dataSize data) with
    | mk r vars =>
        rw [hset] at h
        cases r with
        | error e => cases e <;> cases h
        | ok u =>
            dsimp only at h ⊢
            refine ⟨rfl, fun hnv => ?_, fun hnv => ?_⟩
            · rw [if_pos hnv] at h
              obtain ⟨⟨r, s₁⟩, hr, he⟩ := Option.map_eq_some_iff.mp h
              cases he
              exact ⟨r, hr⟩
            · rw [if_neg (not_not.mpr hnv)] at h
              cases h
              rfl

theorem bootFromSd_eq (hr : Ready fs s.card) : ∃ card,
    s.bootFromSd fs = some ⟨merged (varFile fs s.card) s.vars, some fs, card⟩ ∧ fs.volume card = fs.volume s.card := by
  obtain ⟨r, card, hrun, hv, hres⟩ := run_load hr s.vars
  refine ⟨card, ?_, hv⟩
  unfold bootFromSd
  rcases hres with ⟨n, rfl⟩ | ⟨⟨e, rfl⟩, hsame⟩
  · simp only [hrun, PersistStop.returned]
  · simp only [hrun, PersistStop.returned, hsame]

theorem reboot_eq {card : Disk} (hr : Ready fs card) : ∃ card',
    (boot card).bootFromSd fs = some ⟨merged (varFile fs card) empty, some fs, card'⟩ := by
  obtain ⟨card', h, _⟩ := bootFromSd_eq (s := boot card) hr
  exact ⟨card', h⟩

theorem Sound.setByte (h : Sound fs s) (ha : fs.Addressable) (name : String) (value : UInt8) : ∃ s',
    s.setByte name value = some s' ∧ Sound fs s' ∧
      s'.vars = (Variables.set s.vars (settingName name).mem ferroSettingsGuid settingsAttr [value]).2 ∧
      SavedOr fs s s' := by
  obtain ⟨r, s', heq, hs, hvars, hfile⟩ :=
    (h.set (settingName name) ferroSettingsGuid settingsAttr [value]).autosave ha
  refine ⟨s', ?_, hs, hvars, hfile⟩
  rw [Session.setByte, show nameUnits name = (settingName name).mem from rfl]
  simp only [heq, Option.map_some]

theorem Sound.setVariable (h : Sound fs s) (ha : fs.Addressable) (name : CStr16) (guid : EfiGuid)
    (attributes : UInt32) (hnull : ¬ (0 < dataSize ∧ data.isNone)) : ∃ st s',
    s.setVariable (some name.mem) (some guid) attributes dataSize data = some (st, s') ∧ Sound fs s' ∧
      s'.vars = (Variables.set s.vars name.mem guid attributes (rawParts dataSize data)).2 ∧ SavedOr fs s s' := by
  have hset := h.set name guid attributes (rawParts dataSize data)
  unfold Session.setVariable
  simp only [if_neg hnull]
  cases he : Variables.set s.vars name.mem guid attributes (rawParts dataSize data) with
  | mk r vars =>
      rw [he] at hset
      cases r with
      | error e => exact ⟨_, _, rfl, hset, rfl, Or.inr rfl⟩
      | ok u =>
          dsimp only
          by_cases hnv : attributes &&& nonVolatile ≠ 0
          · obtain ⟨r, s', heq, hs, hvars, hfile⟩ := hset.autosave ha
            rw [if_pos hnv, heq]
            exact ⟨_, s', rfl, hs, hvars, hfile⟩
          · rw [if_neg hnv]
            exact ⟨_, _, rfl, hset, rfl, Or.inr rfl⟩

theorem Sound.saveVariablesToSd (h : Sound fs s) (ha : fs.Addressable) : ∃ s',
    s.saveVariablesToSd fs = some s' ∧ Sound fs s' ∧ s'.vars = s.vars ∧ SavedOr fs s s' := by
  obtain ⟨r, r', card, hrun, hr', hready, hfile⟩ := h.save ha
  refine ⟨{ s with context := some fs, card }, ?_, ⟨h.reachable, hready, fun he => (Option.some.inj he).symm⟩, rfl, ?_⟩
  · simp only [Session.saveVariablesToSd, hrun, hr', Option.map_some]
  · exact savedOr_of_fileAfter hfile

theorem Sound.writeFile {file : Name} {bytes : List UInt8} (h : Sound fs s) (ha : fs.Addressable)
    (hc : fs.Callable (fs.volume s.card) file bytes) : ∃ s', s.writeFile file bytes = some s' ∧ Sound fs s' ∧
      s'.vars = s.vars ∧ (file ≠ varFileName → varFile fs s'.card = varFile fs s.card) := by
  cases hctx : s.context with
  | none => exact ⟨s, by simp only [Session.writeFile, hctx], h, rfl, fun _ => rfl⟩
  | some fs' =>
      obtain rfl := h.context hctx
      obtain ⟨r, card, hrun, _, hwf, hres⟩ := Fat32.run_writeFile h.ready.wellFormed ha hc
      refine ⟨{ s with card }, ?_, ⟨h.reachable, ⟨hwf, ?_⟩, h.context⟩, rfl, fun hne => ?_⟩
      · simp only [Session.writeFile, hctx, hrun]
        rcases hres with ⟨rfl, _⟩ | ⟨rfl, _⟩ <;> rfl
      · rcases hres with ⟨_, _, slot, m, hw⟩ | ⟨_, _, hpres⟩
        · exact hw.notSubdir h.ready.notSubdir
        · exact hpres.notSubdir h.ready.notSubdir
      · rcases hres with ⟨_, _, slot, m, hw⟩ | ⟨_, _, hpres⟩
        · exact hw.read_other h.ready.wellFormed hwf (Ne.symm hne)
        · exact hpres.read_eq h.ready.wellFormed hwf (fun _ _ => id) fun _ _ => id

/-! ## Runs -/

/-- The store after an action. -/
def nextVars (s : Session) (a : Action) : Store :=
  match setCall a with
  | some (name, guid, attributes, data) => (Variables.set s.vars name.mem guid attributes data).2
  | none =>
    match a with
    | .bootFromSd fs => merged (varFile fs s.card) s.vars
    | _ => s.vars

theorem autosave_vars {r : Option (Except PersistError Nat)} (h : s.autosave = some (r, s')) : s'.vars = s.vars := by
  unfold Session.autosave at h
  split at h
  · cases h
    rfl
  · obtain ⟨_, _, he⟩ := Option.map_eq_some_iff.mp h
    cases he
    rfl

theorem setByte_vars {name : String} {value : UInt8} (h : s.setByte name value = some s') : s'.vars =
    (Variables.set s.vars (settingName name).mem ferroSettingsGuid settingsAttr [value]).2 := by
  obtain ⟨⟨r, s₁⟩, hsave, rfl⟩ := Option.map_eq_some_iff.mp h
  exact autosave_vars hsave

theorem bootFromSd_vars (h : s.bootFromSd fs = some s') : s'.vars = merged (varFile fs s.card) s.vars := by
  have hload : (load fs s.vars).run s.card = _ := Prog.run_bind _ _ s.card
  rw [Prog.run_mapError] at hload
  rw [Session.bootFromSd, hload] at h
  rw [varFile]
  cases hread : ((fs.readFile varFileName maxBytes).run s.card).1 with
  | error e =>
      rw [hread] at h
      cases e <;> cases h
      rfl
  | ok buf =>
      rw [hread] at h
      dsimp only [Except.mapError] at h
      rw [merged]
      cases hdes : deserialize buf s.vars with
      | none => rw [hdes] at h; cases h; rfl
      | some r => rw [hdes] at h; cases h; rfl

theorem setVariable_vars {variableName : Option CStr16} {vendorGuid : Option EfiGuid} {st : EfiStatus}
    (h : s.setVariable (variableName.map CStr16.mem) vendorGuid attributes dataSize data = some (st, s')) :
    s'.vars = nextVars s (.setVariable variableName vendorGuid attributes dataSize data) := by
  cases variableName with
  | none => cases h; rfl
  | some name =>
      cases vendorGuid with
      | none => cases h; rfl
      | some guid =>
          simp only [Option.map_some, Session.setVariable] at h
          by_cases hnull : 0 < dataSize ∧ data.isNone
          · rw [if_pos hnull] at h
            cases h
            simp only [nextVars, setCall, if_pos hnull]
          · rw [if_neg hnull] at h
            simp only [nextVars, setCall, if_neg hnull]
            cases hset : Variables.set s.vars name.mem guid attributes (rawParts dataSize data) with
            | mk r vars =>
                rw [hset] at h
                cases r with
                | error e => cases h; rfl
                | ok u =>
                    dsimp only at h
                    split at h
                    · obtain ⟨⟨r, s₁⟩, hsave, he⟩ := Option.map_eq_some_iff.mp h
                      cases he
                      exact autosave_vars hsave
                    · cases h
                      rfl

/-- On any card, an action sets a variable, merges the file or leaves the store. -/
theorem step_vars (h : step s a = some s') : s'.vars = nextVars s a := by
  cases a with
  | setVariable variableName vendorGuid attributes dataSize data =>
      obtain ⟨⟨st, s₁⟩, hset, rfl⟩ := Option.map_eq_some_iff.mp h
      exact setVariable_vars hset
  | setVerboseBoot v => exact setByte_vars h
  | setTheme t => exact setByte_vars h
  | setUsbEnabled v => exact setByte_vars h
  | bootFromSd fs => exact bootFromSd_vars h
  | saveVariablesToSd fs =>
      obtain ⟨_, _, rfl⟩ := Option.map_eq_some_iff.mp h
      rfl
  | writeFile name data =>
      change s.writeFile name data = some s' at h
      unfold Session.writeFile at h
      split at h
      · cases h
        rfl
      · obtain ⟨_, _, rfl⟩ := Option.map_eq_some_iff.mp h
        rfl
  | blockWrite lba sector =>
      cases h
      unfold Session.blockWrite
      cases s.context <;> rfl

theorem Run.reachable {P : Session → Action → Prop} (h : Run P s s') (hs : Reachable s.vars) : Reachable s'.vars := by
  induction h with
  | start => exact hs
  | @action s₁ _ a _ _ hstep ih =>
      rw [step_vars hstep]
      unfold nextVars
      cases setCall a with
      | some call => exact ih.set _ _ _ _
      | none =>
          dsimp only
          split
          · exact reachable_merged _ ih
          · exact ih

/-- The action does not write `FERRO.VAR` as a file of its own. -/
def Spares (a : Action) : Prop := ∀ data, a ≠ .writeFile varFileName data

/-- An action returns, and leaves the file alone unless it saves the store. -/
theorem Sound.step (h : Sound fs s) (ha : fs.Addressable) (hc : Clean fs s a) : ∃ s', step s a = some s' ∧
    Sound fs s' ∧ s'.vars = nextVars s a ∧ (Spares a → SavedOr fs s s') := by
  cases a with
  | setVariable variableName vendorGuid attributes dataSize data =>
      cases variableName with
      | none => exact ⟨s, rfl, h, rfl, fun _ => Or.inr rfl⟩
      | some name =>
          cases vendorGuid with
          | none => exact ⟨s, rfl, h, rfl, fun _ => Or.inr rfl⟩
          | some guid =>
              by_cases hnull : 0 < dataSize ∧ data.isNone
              · refine ⟨s, ?_, h, by simp only [nextVars, setCall, if_pos hnull], fun _ => Or.inr rfl⟩
                simp only [Session.step, Option.map_some, Session.setVariable, if_pos hnull]
              · obtain ⟨st, s', heq, hs, hvars, hfile⟩ := h.setVariable ha name guid attributes hnull
                refine ⟨s', ?_, hs, ?_, fun _ => hfile⟩
                · simp only [Session.step, Option.map_some, heq]
                · simp only [nextVars, setCall, if_neg hnull, hvars]
  | setVerboseBoot v =>
      obtain ⟨s', heq, hs, hvars, hfile⟩ := h.setByte ha "VerboseBoot" v.toUInt8
      exact ⟨s', heq, hs, hvars, fun _ => hfile⟩
  | setTheme t =>
      obtain ⟨s', heq, hs, hvars, hfile⟩ := h.setByte ha "AccentTheme" t.toByte
      exact ⟨s', heq, hs, hvars, fun _ => hfile⟩
  | setUsbEnabled v =>
      obtain ⟨s', heq, hs, hvars, hfile⟩ := h.setByte ha "UsbHidEnabled" v.toUInt8
      exact ⟨s', heq, hs, hvars, fun _ => hfile⟩
  | bootFromSd fs' =>
      cases hc
      obtain ⟨card, heq, hv⟩ := bootFromSd_eq h.ready
      refine ⟨_, heq, ⟨reachable_merged _ h.reachable, h.ready.of_volume_eq hv, ?_⟩, rfl, fun _ => Or.inr ?_⟩
      · exact fun he => (Option.some.inj he).symm
      · exact varFile_of_volume_eq h.ready hv
  | saveVariablesToSd fs' =>
      cases hc
      obtain ⟨s', heq, hs, hvars, hfile⟩ := h.saveVariablesToSd ha
      exact ⟨s', heq, hs, hvars, fun _ => hfile⟩
  | writeFile file bytes =>
      obtain ⟨s', heq, hs, hvars, hfile⟩ := h.writeFile ha hc
      refine ⟨s', heq, hs, hvars, fun hspare => Or.inr (hfile ?_)⟩
      rintro rfl
      exact hspare bytes rfl
  | blockWrite lba sector =>
      refine ⟨_, rfl, ?_⟩
      unfold Session.blockWrite
      cases hctx : s.context with
      | none => exact ⟨h, rfl, fun _ => Or.inr rfl⟩
      | some fs' =>
          exact ⟨⟨h.reachable, h.ready.of_volume_eq hc, fun he => h.context (hctx.trans he)⟩, rfl,
            fun _ => Or.inr (varFile_of_volume_eq h.ready hc)⟩

theorem sound_boot {d : Disk} (hr : Ready fs d) : Sound fs (boot d) :=
  ⟨.empty, hr, fun h => by cases h⟩

theorem Run.sound {P : Session → Action → Prop} (h : Run P s s') (hp : ∀ s a, P s a → Clean fs s a)
    (hs : Sound fs s) (ha : fs.Addressable) : Sound fs s' := by
  induction h with
  | start => exact hs
  | action _ hpa hstep ih =>
      obtain ⟨s₂, heq, hsound, _⟩ := ih.step ha (hp _ _ hpa)
      rw [hstep] at heq
      cases heq
      exact hsound

/-! ## Deleted keys -/

/-- Neither the store nor the file has the key. -/
structure Gone (fs : Fat32) (key : Key) (s : Session) : Prop where
  store : toMap s.vars key = none
  file : Lacks (varFile fs s.card) key

theorem Gone.nextVars (hg : Gone fs key s) (h : Sound fs s) (hc : Clean fs s a) (hsets : ¬ Sets s key a) :
    toMap (nextVars s a) key = none := by
  unfold Session.nextVars
  cases hcall : setCall a with
  | some c =>
      obtain ⟨name, guid, attributes, data⟩ := c
      dsimp only
      rcases h.reachable.valid.set_cases (s := name) guid attributes data with ⟨_, _, hmap⟩ | ⟨_, hok, hmap⟩
      · rw [hmap]; exact hg.store
      · rw [hmap]
        by_cases hkey : (name.units, guid) = key
        · have hdel : data = [] := by
            by_contra hne
            exact hsets ⟨name, guid, attributes, data, hcall, hkey, hne, hok⟩
          rw [hkey, Function.update_self, if_pos hdel]
        · rw [Function.update_of_ne (Ne.symm hkey)]; exact hg.store
  | none =>
      dsimp only
      split
      · cases hc
        rw [hg.file.merged h.reachable.valid]; exact hg.store
      · exact hg.store

theorem Gone.step (hg : Gone fs key s) (h : Sound fs s) (ha : fs.Addressable) (hc : Clean fs s a)
    (hspare : Spares a) (hsets : ¬ Sets s key a) (hstep : step s a = some s') : Gone fs key s' := by
  obtain ⟨s₂, heq, hsound, hvars, hfile⟩ := h.step ha hc
  rw [hstep] at heq
  cases heq
  have hstore : toMap s'.vars key = none := by rw [hvars]; exact hg.nextVars h hc hsets
  refine ⟨hstore, ?_⟩
  rcases hfile hspare with he | he
  · rw [he]; exact lacks_image hsound.reachable.valid hstore
  · rw [he]; exact hg.file

end Session

end Ferro
