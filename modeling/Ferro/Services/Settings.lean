import Ferro.Services.Lemmas.Session

/-!
# The settings in memory (`settings.rs`)

The menu shows the settings of a cache. A setter sets the variable, saves, and changes the cache, whatever has become of
the variable; `init` reads the cache from the variables.
-/

namespace Ferro

open Variables Session

/-! ## The cache -/

structure Settings where
  verboseBoot : Bool
  theme : Theme
  usbEnabled : Bool

def Session.Theme.fromByte (b : UInt8) : Theme :=
  if b = 1 then .cyan
  else if b = 2 then .green
  else .amber

namespace Settings

def getBool (vars : Store) (name : String) (default : Bool) : Bool :=
  match Variables.get vars (nameUnits name) ferroSettingsGuid [0] with
  | (.ok (_, 1), data) => data.headD 0 ≠ 0
  | _ => default

def getByte (vars : Store) (name : String) (default : UInt8) : UInt8 :=
  match Variables.get vars (nameUnits name) ferroSettingsGuid [0] with
  | (.ok (_, 1), data) => data.headD 0
  | _ => default

def init (vars : Store) : Settings where
  verboseBoot := getBool vars "VerboseBoot" true
  theme := Theme.fromByte (getByte vars "AccentTheme" 0)
  usbEnabled := getBool vars "UsbHidEnabled" true

end Settings

/-- The firmware, and the cache. -/
structure Setup where
  session : Session
  settings : Settings

/-- The firmware after power-on. -/
def Setup.boot (card : Disk) : Setup := ⟨.boot card, Settings.init Variables.empty⟩

inductive SettingCall where
  | verboseBoot (v : Bool)
  | theme (t : Theme)
  | usbEnabled (v : Bool)

/-- A setter, as the menu calls it. -/
def Setup.step (p : Setup) : SettingCall → Option Setup
  | .verboseBoot v => (p.session.setVerboseBoot v).map fun session => ⟨session, { p.settings with verboseBoot := v }⟩
  | .theme t => (p.session.setTheme t).map fun session => ⟨session, { p.settings with theme := t }⟩
  | .usbEnabled v => (p.session.setUsbEnabled v).map fun session => ⟨session, { p.settings with usbEnabled := v }⟩

def Setup.run (p : Setup) (calls : List SettingCall) : Option Setup := calls.foldlM Setup.step p

/-! ## Settings one by one -/

inductive Setting where
  | verboseBoot
  | theme
  | usbEnabled
  deriving DecidableEq

namespace Setting

def name : Setting → String
  | .verboseBoot => "VerboseBoot"
  | .theme => "AccentTheme"
  | .usbEnabled => "UsbHidEnabled"

/-- The byte of a variable that is not there. -/
def default : Setting → UInt8
  | .verboseBoot => 1
  | .theme => 0
  | .usbEnabled => 1

def key (k : Setting) : Key := ((settingName k.name).units, ferroSettingsGuid)

/-- The setting is the same in both. -/
def Agree (a b : Settings) : Setting → Prop
  | .verboseBoot => a.verboseBoot = b.verboseBoot
  | .theme => a.theme = b.theme
  | .usbEnabled => a.usbEnabled = b.usbEnabled

end Setting

def SettingCall.setting : SettingCall → Setting
  | .verboseBoot _ => .verboseBoot
  | .theme _ => .theme
  | .usbEnabled _ => .usbEnabled

def SettingCall.value : SettingCall → UInt8
  | .verboseBoot v => v.toUInt8
  | .theme t => t.toByte
  | .usbEnabled v => v.toUInt8

/-- The setting's variable is there, or a slot is free for it. -/
def Room (vars : Store) (k : Setting) : Prop := toMap vars k.key ≠ none ∨ count vars < maxVariables

/-- The byte of the last call that sets the setting. -/
def lastValue (calls : List SettingCall) (k : Setting) : Option UInt8 :=
  ((calls.filter fun c => c.setting = k).getLast?).map SettingCall.value

/-- One of the calls that set the setting finds room. -/
def FindsRoom (p : Setup) (calls : List SettingCall) (k : Setting) : Prop :=
  ∃ before c after p₁, calls = before ++ c :: after ∧ c.setting = k ∧ p.run before = some p₁ ∧ Room p₁.session.vars k

/-- The byte that stands for the setting. -/
def Settings.value (s : Settings) : Setting → UInt8
  | .verboseBoot => s.verboseBoot.toUInt8
  | .theme => s.theme.toByte
  | .usbEnabled => s.usbEnabled.toUInt8

theorem Setting.agree_iff (a b : Settings) (k : Setting) : Agree a b k ↔ a.value k = b.value k := by
  obtain ⟨v, t, u⟩ := a
  obtain ⟨v', t', u'⟩ := b
  cases k with
  | verboseBoot => cases v <;> cases v' <;> simp [Agree, Settings.value] <;> decide
  | theme => cases t <;> cases t' <;> simp [Agree, Settings.value, Theme.toByte]
  | usbEnabled => cases u <;> cases u' <;> simp [Agree, Settings.value] <;> decide

/-! ## A call -/

variable {p p' : Setup} {c : SettingCall} {k : Setting} {calls : List SettingCall} {vars : Store}

theorem head?_units {s : CStr16} (h : s.mem 0 ≠ 0) : s.units[0]? = some (s.mem 0) := by
  have hpos : 0 < s.len := by
    refine Nat.pos_of_ne_zero fun hz => h ?_
    rw [← CStr16.mem_len (s := s), hz]
  rw [CStr16.getElem?_units, if_pos hpos]

theorem Setting.key_injective {k k' : Setting} (h : k.key = k'.key) : k = k' := by
  have hfirst : ∀ k : Setting, (settingName k.name).mem 0 ≠ 0 := by
    intro k
    cases k <;> decide
  have hunits : (settingName k.name).units[0]? = (settingName k'.name).units[0]? := by
    rw [(Prod.mk.inj h).1]
  rw [head?_units (hfirst k), head?_units (hfirst k'), Option.some_inj] at hunits
  revert hunits
  cases k <;> cases k' <;> decide

theorem length_units_le (k : Setting) : k.key.1.length ≤ maxNameUnits := by
  have hlen : (settingName k.name).len ≤ k.name.toList.length :=
    Nat.find_min' _ (by simp [settingName, nameUnits])
  have hname : k.name.toList.length ≤ maxNameUnits := by
    cases k <;> decide
  rw [Setting.key, CStr16.length_units]
  exact hlen.trans hname

/-- What a call does to the store and to the cache. -/
theorem Setup.step_eq (h : p.step c = some p') :
    p'.session.vars = (Variables.set p.session.vars (settingName c.setting.name).mem ferroSettingsGuid settingsAttr
        [c.value]).2 ∧
      ∀ k, p'.settings.value k = if c.setting = k then c.value else p.settings.value k := by
  cases c with
  | verboseBoot v =>
      obtain ⟨session, hset, rfl⟩ := Option.map_eq_some_iff.mp h
      exact ⟨Session.setByte_vars hset, fun k => by cases k <;> rfl⟩
  | theme t =>
      obtain ⟨session, hset, rfl⟩ := Option.map_eq_some_iff.mp h
      exact ⟨Session.setByte_vars hset, fun k => by cases k <;> rfl⟩
  | usbEnabled v =>
      obtain ⟨session, hset, rfl⟩ := Option.map_eq_some_iff.mp h
      exact ⟨Session.setByte_vars hset, fun k => by cases k <;> rfl⟩

/-- The variable is set if there is room for it, and else nothing changes. -/
theorem Setup.step_toMap (hr : Reachable p.session.vars) (h : p.step c = some p') :
    Reachable p'.session.vars ∧
      (Room p.session.vars c.setting → toMap p'.session.vars =
        Function.update (toMap p.session.vars) c.setting.key (some (settingsAttr, [c.value]))) ∧
      (¬ Room p.session.vars c.setting → toMap p'.session.vars = toMap p.session.vars) := by
  obtain ⟨hvars, -⟩ := Setup.step_eq h
  have hset := (hr.valid.set_eq (s := settingName c.setting.name) ferroSettingsGuid settingsAttr [c.value]).2
  have hreach := hr.set (settingName c.setting.name) ferroSettingsGuid settingsAttr [c.value]
  rw [← hvars] at hset hreach
  have hcard : (toMap p.session.vars).keys.ncard = count p.session.vars := Slots.ncard_keys hr.valid.unique
  have hle : count p.session.vars ≤ maxVariables := Slots.length_entries_le
  have hname : ¬ maxNameUnits < (settingName c.setting.name).units.length := Nat.not_lt.mpr (length_units_le c.setting)
  have hdata : ¬ maxDataLen < [c.value].length := by simp [maxDataLen]
  rw [VarMap.set, if_neg hname, if_neg (List.cons_ne_nil _ _)] at hset
  refine ⟨hreach, fun hroom => ?_, fun hroom => ?_⟩
  · rw [if_neg] at hset
    · exact (Prod.mk.inj hset).2.symm
    · rintro (hd | ⟨hnone, hfull⟩)
      · exact hdata hd
      · rcases hroom with hsome | hlt
        · exact hsome hnone
        · omega
  · obtain ⟨hnone, hfull⟩ := not_or.mp hroom
    rw [if_pos (Or.inr ⟨not_not.mp hnone, by omega⟩)] at hset
    exact (Prod.mk.inj hset).2.symm

/-! ## Reading the cache -/

theorem get_setting (hv : Valid vars) (k : Setting) :
    Variables.get vars (nameUnits k.name) ferroSettingsGuid [0] = (toMap vars).get k.key [0] :=
  hv.get_eq (s := settingName k.name) ferroSettingsGuid [0]

theorem getBool_of_get {name : String} {default : Bool} {a : UInt32} {b : UInt8}
    (h : Variables.get vars (nameUnits name) ferroSettingsGuid [0] = (.ok (a, 1), [b])) :
    Settings.getBool vars name default = decide (b ≠ 0) := by
  rw [Settings.getBool, h]
  rfl

theorem getByte_of_get {name : String} {default : UInt8} {a : UInt32} {b : UInt8}
    (h : Variables.get vars (nameUnits name) ferroSettingsGuid [0] = (.ok (a, 1), [b])) :
    Settings.getByte vars name default = b := by
  rw [Settings.getByte, h]
  rfl

theorem getBool_of_error {name : String} {default : Bool} {e : VarError} {data : List UInt8}
    (h : Variables.get vars (nameUnits name) ferroSettingsGuid [0] = (.error e, data)) :
    Settings.getBool vars name default = default := by
  rw [Settings.getBool, h]

theorem getByte_of_error {name : String} {default : UInt8} {e : VarError} {data : List UInt8}
    (h : Variables.get vars (nameUnits name) ferroSettingsGuid [0] = (.error e, data)) :
    Settings.getByte vars name default = default := by
  rw [Settings.getByte, h]

theorem value_init_of_some {a : UInt32} (hv : Valid vars) (h : toMap vars c.setting.key = some (a, [c.value])) :
    (Settings.init vars).value c.setting = c.value := by
  have hget : Variables.get vars (nameUnits c.setting.name) ferroSettingsGuid [0] = (.ok (a, 1), [c.value]) := by
    rw [get_setting hv, VarMap.get, if_neg (Nat.not_lt.mpr (length_units_le _)), h]
    rfl
  cases c with
  | verboseBoot v =>
      calc (Settings.getBool vars "VerboseBoot" true).toUInt8
        _ = (decide (v.toUInt8 ≠ 0)).toUInt8 := congrArg Bool.toUInt8 (getBool_of_get hget)
        _ = v.toUInt8 := by cases v <;> rfl
  | theme t =>
      calc (Theme.fromByte (Settings.getByte vars "AccentTheme" 0)).toByte
        _ = (Theme.fromByte t.toByte).toByte := congrArg (fun b => (Theme.fromByte b).toByte) (getByte_of_get hget)
        _ = t.toByte := by cases t <;> rfl
  | usbEnabled v =>
      calc (Settings.getBool vars "UsbHidEnabled" true).toUInt8
        _ = (decide (v.toUInt8 ≠ 0)).toUInt8 := congrArg Bool.toUInt8 (getBool_of_get hget)
        _ = v.toUInt8 := by cases v <;> rfl

theorem value_init_of_none (hv : Valid vars) (h : toMap vars k.key = none) :
    (Settings.init vars).value k = k.default := by
  have hget : Variables.get vars (nameUnits k.name) ferroSettingsGuid [0] = (.error .notFound, [0]) := by
    rw [get_setting hv, VarMap.get, if_neg (Nat.not_lt.mpr (length_units_le _)), h]
  cases k with
  | verboseBoot => exact congrArg Bool.toUInt8 (getBool_of_error hget)
  | theme => exact congrArg (fun b => (Theme.fromByte b).toByte) (getByte_of_error hget)
  | usbEnabled => exact congrArg Bool.toUInt8 (getBool_of_error hget)

/-! ## Runs -/

theorem Setup.run_snoc : p.run (calls ++ [c]) = some p' ↔ ∃ p₁, p.run calls = some p₁ ∧ p₁.step c = some p' := by
  simp [Setup.run, List.foldlM_append, Option.bind_eq_some_iff]

theorem lastValue_snoc : lastValue (calls ++ [c]) k = if c.setting = k then some c.value else lastValue calls k := by
  by_cases h : c.setting = k <;> simp [lastValue, h]

theorem lastValue_eq_some {v : UInt8} (h : lastValue calls k = some v) : ∃ c ∈ calls, c.setting = k ∧ c.value = v := by
  obtain ⟨c, hlast, hv⟩ := Option.map_eq_some_iff.mp h
  obtain ⟨hmem, hk⟩ := List.mem_filter.mp (List.mem_of_getLast? hlast)
  exact ⟨c, hmem, of_decide_eq_true hk, hv⟩

theorem isSome_lastValue (h : ∃ c ∈ calls, c.setting = k) : ∃ v, lastValue calls k = some v := by
  obtain ⟨c, hmem, hk⟩ := h
  have hne : (calls.filter fun c => c.setting = k) ≠ [] :=
    List.ne_nil_of_mem (List.mem_filter.mpr ⟨hmem, decide_eq_true hk⟩)
  exact ⟨_, by rw [lastValue, List.getLast?_eq_some_getLast hne]; rfl⟩

theorem findsRoom_snoc {p₁ : Setup} (hrun : p.run calls = some p₁) :
    FindsRoom p (calls ++ [c]) k ↔ FindsRoom p calls k ∨ (c.setting = k ∧ Room p₁.session.vars k) := by
  constructor
  · rintro ⟨before, c', after, p₂, hsplit, hk, hbefore, hroom⟩
    rcases List.eq_nil_or_concat after with rfl | ⟨after, last, rfl⟩
    · obtain ⟨rfl, hc⟩ := List.append_inj' hsplit rfl
      cases hc
      cases hrun.symm.trans hbefore
      exact .inr ⟨hk, hroom⟩
    · rw [List.concat_eq_append, ← List.cons_append, ← List.append_assoc] at hsplit
      obtain ⟨rfl, -⟩ := List.append_inj' hsplit rfl
      exact .inl ⟨before, c', after, p₂, rfl, hk, hbefore, hroom⟩
  · rintro (⟨before, c', after, p₂, rfl, hk, hbefore, hroom⟩ | ⟨hk, hroom⟩)
    · exact ⟨before, c', after ++ [c], p₂, by simp, hk, hbefore, hroom⟩
    · exact ⟨calls, c, [], p₁, rfl, hk, hrun, hroom⟩

theorem Setup.run_value (hrun : p.run calls = some p') :
    p'.settings.value k = (lastValue calls k).getD (p.settings.value k) := by
  induction calls using List.reverseRecOn generalizing p' with
  | nil => cases hrun; rfl
  | append_singleton calls c ih =>
      obtain ⟨p₁, hrun₁, hstep⟩ := Setup.run_snoc.mp hrun
      rw [(Setup.step_eq hstep).2 k, ih hrun₁, lastValue_snoc]
      split <;> rfl

/-- What a run leaves in the store: the last values of the settings that found room, and nothing of the others that were
set. -/
structure Stored (p : Setup) (calls : List SettingCall) (vars : Store) : Prop where
  reachable : Reachable vars
  found (k : Setting) : FindsRoom p calls k → toMap vars k.key = (lastValue calls k).map fun v => (settingsAttr, [v])
  lost (k : Setting) : ¬ FindsRoom p calls k → (lastValue calls k).isSome → toMap vars k.key = none

theorem FindsRoom.isSome_lastValue (h : FindsRoom p calls k) : (lastValue calls k).isSome := by
  obtain ⟨before, c, after, _, rfl, hk, -, -⟩ := h
  have hset : ∃ c' ∈ before ++ c :: after, c'.setting = k := ⟨c, by simp, hk⟩
  obtain ⟨v, hv⟩ := Ferro.isSome_lastValue hset
  rw [hv]
  rfl

/-- The step of the induction: a setting that has found room keeps it. -/
theorem Stored.snoc {p₁ : Setup} (hs : Stored p calls p₁.session.vars) (hrun : p.run calls = some p₁)
    (hstep : p₁.step c = some p') : Stored p (calls ++ [c]) p'.session.vars := by
  obtain ⟨hreach, hroom, hfull⟩ := Setup.step_toMap hs.reachable hstep
  have hother {k} (hk : c.setting ≠ k) : toMap p'.session.vars k.key = toMap p₁.session.vars k.key := by
    by_cases hr : Room p₁.session.vars c.setting
    · rw [hroom hr, Function.update_of_ne fun h => hk (Setting.key_injective h).symm]
    · rw [hfull hr]
  refine ⟨hreach, fun k h => ?_, fun k h hset => ?_⟩
  · rw [findsRoom_snoc hrun] at h
    by_cases hk : c.setting = k
    · have hr : Room p₁.session.vars c.setting := by
        rcases h with hf | ⟨-, hr⟩
        · refine Or.inl ?_
          obtain ⟨v, hv⟩ := Option.isSome_iff_exists.mp hf.isSome_lastValue
          rw [hk, hs.found _ hf, hv]
          exact Option.some_ne_none _
        · rwa [hk]
      rw [hroom hr, lastValue_snoc, if_pos hk, ← hk, Function.update_self]
      rfl
    · rw [hother hk, lastValue_snoc, if_neg hk]
      exact hs.found k (h.resolve_right fun h => hk h.1)
  · rw [findsRoom_snoc hrun, not_or] at h
    by_cases hk : c.setting = k
    · have hr : ¬ Room p₁.session.vars c.setting := fun hr => h.2 ⟨hk, hk ▸ hr⟩
      rw [hfull hr, ← hk]
      exact not_not.mp (not_or.mp hr).1
    · rw [lastValue_snoc, if_neg hk] at hset
      rw [hother hk]
      exact hs.lost k h.1 hset

theorem Setup.run_stored (hr : Reachable p.session.vars) (hrun : p.run calls = some p') :
    Stored p calls p'.session.vars := by
  induction calls using List.reverseRecOn generalizing p' with
  | nil =>
      cases hrun
      exact ⟨hr, fun k h => absurd h.isSome_lastValue (by simp [lastValue]), fun k _ h => absurd h (by simp [lastValue])⟩
  | append_singleton calls c ih =>
      obtain ⟨p₁, hrun₁, hstep⟩ := Setup.run_snoc.mp hrun
      exact (ih hrun₁).snoc hrun₁ hstep

/-- The settings shown after setters, against those that `init` reads back. -/
theorem shown_iff_stored (hr : Reachable p.session.vars) (hrun : p.run calls = some p') :
    (∀ k, (∃ c ∈ calls, c.setting = k) → Setting.Agree (Settings.init p'.session.vars) p'.settings k) ↔
      ∀ k v, lastValue calls k = some v → v = k.default ∨ FindsRoom p calls k := by
  have hs := Setup.run_stored hr hrun
  have hcase {k v} (hlast : lastValue calls k = some v) :
      Setting.Agree (Settings.init p'.session.vars) p'.settings k ↔ v = k.default ∨ FindsRoom p calls k := by
    rw [Setting.agree_iff, Setup.run_value hrun, hlast, Option.getD_some]
    by_cases hf : FindsRoom p calls k
    · obtain ⟨c, -, rfl, rfl⟩ := lastValue_eq_some hlast
      have hmap := hs.found _ hf
      rw [hlast] at hmap
      exact iff_of_true (value_init_of_some hs.reachable.valid hmap) (.inr hf)
    · rw [value_init_of_none hs.reachable.valid (hs.lost _ hf (by rw [hlast]; rfl))]
      exact ⟨fun h => .inl h.symm, fun h => (h.resolve_right hf).symm⟩
  constructor
  · intro h k v hlast
    obtain ⟨c, hmem, hk, -⟩ := lastValue_eq_some hlast
    exact (hcase hlast).mp (h k ⟨c, hmem, hk⟩)
  · intro h k hset
    obtain ⟨v, hlast⟩ := isSome_lastValue hset
    exact (hcase hlast).mpr (h k v hlast)

theorem shown_iff_stored_boot : ∃ p', (Setup.boot fun _ => .fill 0).run [.theme .cyan] = some p' ∧
    Setting.Agree (Settings.init p'.session.vars) p'.settings .theme := by
  obtain ⟨p', hrun⟩ : ∃ p', (Setup.boot fun _ => .fill 0).run [.theme .cyan] = some p' := ⟨_, rfl⟩
  refine ⟨p', hrun, (shown_iff_stored .empty hrun).mpr (fun k v hlast => .inr ?_) .theme ⟨.theme .cyan, by simp, rfl⟩⟩
  obtain ⟨c, hmem, hk, -⟩ := lastValue_eq_some hlast
  obtain rfl := List.mem_singleton.mp hmem
  exact ⟨[], .theme .cyan, [], _, rfl, hk, rfl, .inr (by decide +kernel)⟩

/-- A name of one unit, which is no setting's. -/
def unitName (n : Nat) : CStr16 := ⟨fun i => if i = 0 then .ofNat n else 0, 1, rfl⟩

/-- The store in which an application has set `n` variables of its own. -/
def crowd : Nat → Store
  | 0 => Variables.empty
  | n + 1 => (Variables.set (crowd n) (unitName (n + 1)).mem ⟨0, 0, 0, .fill 0⟩ settingsAttr [1]).2

theorem reachable_crowd : ∀ n, Reachable (crowd n)
  | 0 => .empty
  | n + 1 => (reachable_crowd n).set _ _ _ _

set_option maxRecDepth 100000 in
/-- When an application has filled the store, the menu shows the new theme, and the next boot the old one. -/
theorem theme_shown_not_stored : Reachable (crowd 32) ∧
    ∃ p', Setup.run ⟨⟨crowd 32, none, fun _ => .fill 0⟩, Settings.init (crowd 32)⟩ [.theme .cyan] = some p' ∧
      ¬ Setting.Agree (Settings.init p'.session.vars) p'.settings .theme := by
  refine ⟨reachable_crowd 32, _, rfl, ?_⟩
  rw [Setting.agree_iff]
  decide +kernel

end Ferro
