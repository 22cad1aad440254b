import Ferro.Persist.Theorems
import Ferro.Services.Lemmas.Session

/-!
# What survives a reboot, in any run
-/

namespace Ferro

namespace Session

open Variables Persist

variable {fs : Fat32} {d : Disk} {s s' s₁ s₂ : Session} {name : CStr16} {guid : EfiGuid} {attributes : UInt32}
  {dataSize : Nat} {data : Option Ptr8} {bytes : List UInt8}

/-- `GetVariable` with enough room returns the attributes and the data. -/
def Returns (vars : Store) (name : CStr16) (guid : EfiGuid) (attributes : UInt32) (bytes : List UInt8) : Prop :=
  ∀ attrs capacity ptr, bytes.length ≤ capacity →
    getVariable vars (some name.mem) (some guid) (some attrs) (some capacity) (some ptr) =
      (.success, some attributes, some bytes.length, some fun i => bytes.getD i (ptr i))

/-- After a reboot, `GetVariable` returns the attributes and the data. -/
def Survives (fs : Fat32) (card : Disk) (name : CStr16) (guid : EfiGuid) (attributes : UInt32)
    (bytes : List UInt8) : Prop :=
  ∃ s, (boot card).bootFromSd fs = some s ∧ Returns s.vars name guid attributes bytes

/-! ## `GetVariable` on the map in the store -/

theorem length_rawParts (len : Nat) (ptr : Ptr8) : (rawParts len (some ptr)).length = len := by simp [rawParts]

theorem getD_rawParts (len i : Nat) (ptr : Ptr8) : (rawParts len (some ptr)).getD i (ptr i) = ptr i := by
  by_cases h : i < len
  · simp [rawParts, h]
  · simp [rawParts, h]

theorem getD_append_drop (bytes : List UInt8) (len i : Nat) (ptr : Ptr8) :
    (bytes ++ (rawParts len (some ptr)).drop bytes.length).getD i (ptr i) = bytes.getD i (ptr i) := by
  by_cases h : i < bytes.length
  · simp [List.getElem?_append_left h, h]
  · have hi := getD_rawParts len i ptr
    rw [List.getD_eq_getElem?_getD] at hi
    simp only [List.getD_eq_getElem?_getD, List.getElem?_append_right (Nat.not_lt.mp h), List.getElem?_drop,
      Nat.add_sub_cancel' (Nat.not_lt.mp h), hi, List.getElem?_eq_none (Nat.not_lt.mp h), Option.getD_none]

variable {vars : Store}

theorem returns_of_toMap (hv : Valid vars) (hlen : name.units.length ≤ maxNameUnits)
    (hmap : toMap vars (name.units, guid) = some (attributes, bytes)) : Returns vars name guid attributes bytes := by
  intro attrs capacity ptr hle
  have hget : Variables.get vars name.mem guid (rawParts capacity (some ptr)) =
      (.ok (attributes, bytes.length), bytes ++ (rawParts capacity (some ptr)).drop bytes.length) := by
    rw [hv.get_eq]
    unfold VarMap.get
    simp only [hmap]
    rw [if_neg (Nat.not_lt.mpr hlen), if_neg (by rw [length_rawParts]; exact Nat.not_lt.mpr hle)]
  simp only [getVariable, hget, Option.map_some, getD_append_drop]

theorem notFound_of_toMap (hv : Valid vars) (hlen : name.units.length ≤ maxNameUnits)
    (hmap : toMap vars (name.units, guid) = none) (attrs : Option UInt32) (capacity : Nat) (data : Option Ptr8) :
    (getVariable vars (some name.mem) (some guid) attrs (some capacity) data).1 = .notFound := by
  have hget : Variables.get vars name.mem guid (rawParts capacity data) =
      (.error .notFound, rawParts capacity data) := by
    rw [hv.get_eq]
    unfold VarMap.get
    simp only [hmap]
    rw [if_neg (Nat.not_lt.mpr hlen)]
  simp only [getVariable, hget, getStatus]

/-! ## Set variables -/

theorem survives_iff {card : Disk} (hr : Ready fs card) : Survives fs card name guid attributes bytes ↔
    Returns (merged (varFile fs card) empty) name guid attributes bytes := by
  obtain ⟨_, hboot⟩ := reboot_eq hr
  constructor
  · rintro ⟨s, hs, h⟩
    rw [hboot] at hs
    cases hs
    exact h
  · intro h; exact ⟨_, hboot, h⟩

theorem rawParts_ne_nil {mem : Ptr16}
    (hset : s.setVariable (some mem) (some guid) attributes dataSize data = some (.success, s')) (hsize : 0 < dataSize) :
    rawParts dataSize data ≠ [] := by
  cases data with
  | none =>
      rw [setVariable, if_pos ⟨hsize, rfl⟩] at hset
      cases hset
  | some ptr => exact List.ne_nil_of_length_pos (by rw [length_rawParts]; exact hsize)

/-- A non-volatile variable that was set survives a reboot exactly if there was room to save it, or if what was
saved before holds it already. -/
theorem setVariable_survives_iff (hwf : fs.WellFormed (fs.volume d)) (ha : fs.Addressable)
    (hdir : fs.NotSubdir (fs.volume d) varFileName) (hrun : Run (Clean fs) (boot d) s) (hctx : s.context = some fs)
    (hnv : attributes &&& nonVolatile ≠ 0) (hsize : 0 < dataSize)
    (hset : s.setVariable (some name.mem) (some guid) attributes dataSize data = some (.success, s')) :
    Survives fs s'.card name guid attributes (rawParts dataSize data) ↔
      Savable fs s.card (imageWith s.vars (name.units, guid) (attributes, rawParts dataSize data)) ∨
        Survives fs s.card name guid attributes (rawParts dataSize data) := by
  have hs : Sound fs s := hrun.sound (fun _ _ => id) (sound_boot ⟨hwf, hdir⟩) ha
  obtain ⟨hok, hsave, _⟩ := setVariable_success hset
  have hne := rawParts_ne_nil hset hsize
  obtain ⟨r, hr⟩ := hsave hnv
  have hs' := hs.set name guid attributes (rawParts dataSize data)
  obtain ⟨_, r', card, _, heq, hready, hfile⟩ := hs'.autosave_eq ha hctx
  rw [hr] at heq
  cases heq
  have hlen := hs.reachable.valid.length_imageOf_set hne hok
  rw [survives_iff hready, survives_iff hs.ready, ← savable_congr hlen]
  cases hfile with
  | written h hf =>
      refine ⟨fun _ => Or.inl h, fun _ => ?_⟩
      obtain ⟨hname, hmap⟩ := hs.reachable.valid.set_ok hok
      refine returns_of_toMap (reachable_merged _ .empty).valid hname ?_
      rw [hf, merged_image hs'.reachable.valid, hmap, Function.update_self, if_neg hne]
  | kept h hf =>
      rw [hf]
      exact ⟨Or.inr, fun h' => h'.resolve_left h⟩

theorem varFile_small {card : Disk} (hv : Fat32.smallFs.volume card = Fat32.smallVolume) :
    varFile Fat32.smallFs card = .error (.err .notFound) := by
  obtain ⟨_, _, hr, _⟩ := Fat32.runs_readFile_absent (C := fun _ => True) maxBytes Fat32.wellFormed_small.1 trivial
    (Fat32.absent_small (by decide : varFileName ≠ Fat32.fileA)) card hv
  exact hr

/-- The session after booting from the small card. -/
theorem bootFromSd_small : ∃ card,
    (boot Fat32.smallCard).bootFromSd Fat32.smallFs = some ⟨empty, some Fat32.smallFs, card⟩ ∧
      Fat32.smallFs.volume card = Fat32.smallVolume := by
  obtain ⟨card, hboot, hv⟩ := bootFromSd_eq (s := boot Fat32.smallCard) ready_small
  have hcard : (boot Fat32.smallCard).card = Fat32.smallCard := rfl
  rw [hcard, varFile_small Fat32.volume_smallCard] at hboot
  rw [hcard, Fat32.volume_smallCard] at hv
  exact ⟨card, hboot, hv⟩

/-- Setting the first variable there. -/
theorem setVariable_small {card : Disk} (hv : Fat32.smallFs.volume card = Fat32.smallVolume)
    (hraw : rawParts dataSize data = bytes) (hne : bytes ≠ []) (hle : bytes.length ≤ maxDataLen)
    (hnull : ¬ (0 < dataSize ∧ data.isNone)) : ∃ r card',
    (⟨empty, some Fat32.smallFs, card⟩ : Session).setVariable (some nameA.mem) (some guid0) 7 dataSize data =
        some (.success, ⟨oneVar 7 bytes, some Fat32.smallFs, card'⟩) ∧
      (save Fat32.smallFs (oneVar 7 bytes)).run card = (r, card') ∧ Ready Fat32.smallFs card' ∧
      FileAfter Fat32.smallFs card card' (imageOf (oneVar 7 bytes)) r := by
  have hs : Sound Fat32.smallFs ⟨oneVar 7 bytes, some Fat32.smallFs, card⟩ :=
    ⟨reachable_oneVar, ready_small.of_volume_eq (hv.trans Fat32.volume_smallCard.symm),
      fun h => (Option.some.inj h).symm⟩
  obtain ⟨r, r', card', hsave, hauto, hready, hfile⟩ := hs.autosave_eq (by decide) rfl
  refine ⟨r, card', ?_, hsave, hready, hfile⟩
  have hset : Variables.set empty nameA.mem guid0 7 bytes = (.ok (), oneVar 7 bytes) :=
    Prod.ext (toMap_oneVar hne hle).1 rfl
  simp only [setVariable, if_neg hnull, hraw, hset, hauto, Option.map_some]
  rfl

theorem fits_of_volume_small {card : Disk} {image : List UInt8} (hv : Fat32.smallFs.volume card = Fat32.smallVolume) :
    Fat32.smallFs.Fits (Fat32.smallFs.volume card) varFileName image ↔ Fat32.smallFs.clustersNeeded image ≤ 1 := by
  rw [hv]
  exact Fat32.fits_small (by decide)

/-- A variable of one byte survives. -/
theorem setVariable_survives_small : ∃ s s', Run (Clean Fat32.smallFs) (boot Fat32.smallCard) s ∧
    s.setVariable (some nameA.mem) (some guid0) 7 1 (some fun _ => 1) = some (.success, s') ∧
    Survives Fat32.smallFs s'.card nameA guid0 7 [1] := by
  obtain ⟨card, hboot, hv⟩ := bootFromSd_small
  have hrun : Run (Clean Fat32.smallFs) (boot Fat32.smallCard) ⟨empty, some Fat32.smallFs, card⟩ :=
    .action (a := .bootFromSd _) .start rfl hboot
  have hraw : rawParts 1 (some fun _ => 1) = [1] := rfl
  obtain ⟨r, card', hset, _⟩ := setVariable_small hv hraw (by decide) (by decide) (by decide)
  refine ⟨_, _, hrun, hset, ?_⟩
  rw [← hraw]
  refine (setVariable_survives_iff ready_small.wellFormed (by decide) ready_small.notSubdir hrun rfl (by decide)
    (by decide) hset).mpr (Or.inl ?_)
  have himg : (imageOf (oneVar 7 [1])).length = 37 := length_imageOf_oneVar (by decide) (by decide)
  have hok : (Variables.set empty nameA.mem guid0 7 [1]).1 = .ok () := (toMap_oneVar (by decide) (by decide)).1
  have hlen := valid_empty.length_imageOf_set (List.cons_ne_nil 1 []) hok
  rw [hraw, ← savable_congr hlen]
  refine ⟨?_, (fits_of_volume_small hv).mpr ?_⟩
  · exact Nat.le_trans (Nat.le_of_eq himg) (by decide)
  · exact Nat.le_of_eq (clustersNeeded_small (Nat.le_trans (Nat.le_of_eq himg) (by decide)))

/-- A variable of 512 bytes, with 36 more in the file, takes two clusters. Only one is free, and the save that fails
is not reported. -/
theorem setVariable_lost_small : Fat32.smallFs.WellFormed (Fat32.smallFs.volume Fat32.smallCard) ∧ ∃ s s' s₃,
    Run (Clean Fat32.smallFs) (boot Fat32.smallCard) s ∧
    s.context = some Fat32.smallFs ∧
    s.setVariable (some nameA.mem) (some guid0) 7 512 (some fun _ => 0) = some (.success, s') ∧
    (boot s'.card).bootFromSd Fat32.smallFs = some s₃ ∧ ∀ attrs capacity out,
      (getVariable s₃.vars (some nameA.mem) (some guid0) attrs (some capacity) out).1 = .notFound := by
  obtain ⟨card, hboot, hv⟩ := bootFromSd_small
  obtain ⟨hne, hle⟩ := zeros512_bounds
  have hraw : rawParts 512 (some fun _ => 0) = zeros512 := by simp [rawParts, zeros512]
  have himg : (imageOf (oneVar 7 zeros512)).length = 548 := by
    rw [length_imageOf_oneVar hne hle, zeros512, List.length_replicate]
  obtain ⟨r, card', hset, _, hready, hfile⟩ := setVariable_small hv hraw hne hle (by decide)
  have hfile' : varFile Fat32.smallFs card' = .error (.err .notFound) := by
    cases hfile with
    | written h _ =>
        have hneed := (fits_of_volume_small hv).mp h.2
        have hcs : Fat32.smallFs.clusterSizeBytes = 512 := rfl
        rw [Fat32.clustersNeeded_eq Fat32.geometry_smallFs (by rw [himg]; decide), himg, hcs] at hneed
        omega
    | kept _ hf => rw [hf, varFile_small hv]
  obtain ⟨_, hreboot⟩ := reboot_eq hready
  have hvars : merged (varFile Fat32.smallFs card') empty = empty := by rw [hfile']; rfl
  have hnone : toMap (merged (varFile Fat32.smallFs card') empty) (nameA.units, guid0) = none := by
    rw [hvars, toMap_empty]
  have hvalid : Valid (merged (varFile Fat32.smallFs card') empty) := (reachable_merged _ .empty).valid
  have hname : nameA.units.length ≤ maxNameUnits := by rw [units_nameA]; decide
  refine ⟨ready_small.wellFormed, _, _, _, .action (a := .bootFromSd _) .start rfl hboot, rfl, hset, hreboot, ?_⟩
  dsimp only
  exact notFound_of_toMap hvalid hname hnone

/-! ## Deleted variables -/

/-- The actions after which a deleted key is still deleted. -/
def Quiet (fs : Fat32) (key : Key) (s : Session) (a : Action) : Prop := Clean fs s a ∧ Spares a ∧ ¬ Sets s key a

theorem Run.gone {key : Key} (h : Run (Quiet fs key) s s') (hg : Gone fs key s) (hs : Sound fs s)
    (ha : fs.Addressable) : Gone fs key s' := by
  induction h with
  | start => exact hg
  | action hrun hq hstep ih =>
      obtain ⟨hc, hspare, hsets⟩ := hq
      exact ih.step (hrun.sound (fun _ _ hq => hq.1) hs ha) ha hc hspare hsets hstep

/-- A deleted key stays deleted over reboots if the call that deleted it saved the store, or if the file had no
record of the key. -/
theorem setVariable_delete_stays (hwf : fs.WellFormed (fs.volume d)) (ha : fs.Addressable)
    (hdir : fs.NotSubdir (fs.volume d) varFileName) (hrun : Run (Clean fs) (boot d) s) (hctx : s.context = some fs)
    (hdel : s.setVariable (some name.mem) (some guid) attributes 0 data = some (.success, s₁))
    (hsave : attributes &&& nonVolatile ≠ 0 →
      ∃ n, ((save fs (Variables.set s.vars name.mem guid attributes []).2).run s.card).1 = .ok n)
    (hcond : attributes &&& nonVolatile ≠ 0 ∨ Lacks (varFile fs s.card) (name.units, guid))
    (hrun' : Run (Quiet fs (name.units, guid)) s₁ s₂) :
    ∃ s₃, (boot s₂.card).bootFromSd fs = some s₃ ∧ ∀ attrs capacity out,
      (getVariable s₃.vars (some name.mem) (some guid) attrs (some capacity) out).1 = .notFound := by
  have hs : Sound fs s := hrun.sound (fun _ _ => id) (sound_boot ⟨hwf, hdir⟩) ha
  have hempty : rawParts 0 data = [] := by cases data <;> rfl
  obtain ⟨hok, hnv, hvol⟩ := setVariable_success hdel
  rw [hempty] at hok hnv hvol
  have hs' := hs.set name guid attributes []
  obtain ⟨hname, hmap⟩ := hs.reachable.valid.set_ok hok
  have hnone : toMap (Variables.set s.vars name.mem guid attributes []).2 (name.units, guid) = none := by
    rw [hmap, Function.update_self, if_pos rfl]
  have hgone : Sound fs s₁ ∧ Gone fs (name.units, guid) s₁ := by
    by_cases hattr : attributes &&& nonVolatile = 0
    · rw [hvol hattr]
      exact ⟨hs', hnone, hcond.resolve_left (not_not.mpr hattr)⟩
    · obtain ⟨r, hr⟩ := hnv hattr
      obtain ⟨n, hn⟩ := hsave hattr
      obtain ⟨r', _, card, hsaved, heq, hready, hfile⟩ := hs'.autosave_eq ha hctx
      rw [hr] at heq
      cases heq
      rw [hsaved] at hn
      dsimp only at hn
      rw [hn] at hfile
      refine ⟨⟨hs'.reachable, hready, hs'.context⟩, hnone, ?_⟩
      cases hfile with
      | written _ hf => rw [hf]; exact lacks_image hs'.reachable.valid hnone
  have hs₂ : Sound fs s₂ := hrun'.sound (fun _ _ hq => hq.1) hgone.1 ha
  have hgone₂ := hrun'.gone hgone.2 hgone.1 ha
  obtain ⟨_, hboot⟩ := reboot_eq hs₂.ready
  refine ⟨_, hboot, notFound_of_toMap (reachable_merged _ .empty).valid hname ?_⟩
  rw [hgone₂.file.merged valid_empty, toMap_empty]

/-- The session after booting from the small card and setting a non-volatile variable, and the save this made. -/
theorem saved_small : ∃ card card' n,
    (boot Fat32.smallCard).bootFromSd Fat32.smallFs = some ⟨empty, some Fat32.smallFs, card⟩ ∧
    (⟨empty, some Fat32.smallFs, card⟩ : Session).setVariable (some nameA.mem) (some guid0) 7 1 (some fun _ => 1) =
      some (.success, ⟨oneVar 7 [1], some Fat32.smallFs, card'⟩) ∧
    (save Fat32.smallFs (oneVar 7 [1])).run card = (.ok n, card') ∧ Ready Fat32.smallFs card' ∧
    Saved Fat32.smallFs (oneVar 7 [1]) card card' (.ok n) := by
  obtain ⟨card, hboot, hv⟩ := bootFromSd_small
  have hready : Ready Fat32.smallFs card := ready_small.of_volume_eq (hv.trans Fat32.volume_smallCard.symm)
  have hraw : rawParts 1 (some fun _ => 1) = [1] := rfl
  have himg : (imageOf (oneVar 7 [1])).length = 37 := length_imageOf_oneVar (by decide) (by decide)
  obtain ⟨r, card', hset, hsave, hready', _⟩ := setVariable_small hv hraw (by decide) (by decide) (by decide)
  obtain ⟨r₁, d₁, hrun, _, hsaved⟩ := run_save hready (by decide)
    (reachable_oneVar : Reachable (oneVar 7 [1])).valid
  rw [hsave] at hrun
  cases hrun
  cases hsaved with
  | ok hlen hfits hw => exact ⟨card, card', _, hboot, hset, hsave, hready', .ok hlen hfits hw⟩
  | tooLarge hlen _ => simp only [maxBytes] at hlen; omega
  | noSpace _ hfits _ =>
      exact absurd ((fits_of_volume_small hv).mpr (Nat.le_of_eq (clustersNeeded_small (by omega)))) hfits

theorem set_delete_oneVar (attributes : UInt32) :
    (Variables.set (oneVar 7 [1]) nameA.mem guid0 attributes []).1 = .ok () := by
  have hv : Valid (oneVar 7 [1]) := reachable_oneVar.valid
  have hsome : toMap (oneVar 7 [1]) (nameA.units, guid0) ≠ none := by
    rw [(toMap_oneVar (by decide) (by decide)).2, Function.update_self]
    exact Option.some_ne_none _
  obtain ⟨_, he⟩ := hv.set_eq (s := nameA) guid0 attributes []
  have hlen : ¬ maxNameUnits < nameA.units.length := by rw [units_nameA]; decide
  rw [VarMap.set, if_neg hlen, if_pos rfl, if_neg hsome] at he
  exact (congrArg Prod.fst he).symm

/-- Deleting with attributes 0 does not touch the file, and the variable comes back. -/
theorem setVariable_delete_undone_small : ∃ s₀ s₁ s₂ s₃ n,
    (boot Fat32.smallCard).bootFromSd Fat32.smallFs = some s₀ ∧
    s₀.setVariable (some nameA.mem) (some guid0) 7 1 (some fun _ => 1) = some (.success, s₁) ∧
    (save Fat32.smallFs s₁.vars).run s₀.card = (.ok n, s₁.card) ∧
    s₁.setVariable (some nameA.mem) (some guid0) 0 0 none = some (.success, s₂) ∧
    (boot s₂.card).bootFromSd Fat32.smallFs = some s₃ ∧ Returns s₃.vars nameA guid0 7 [1] := by
  obtain ⟨card, card', n, hboot, hset, hsave, hready, hsaved⟩ := saved_small
  have hdel : (⟨oneVar 7 [1], some Fat32.smallFs, card'⟩ : Session).setVariable (some nameA.mem) (some guid0) 0 0 none =
      some (.success, ⟨(Variables.set (oneVar 7 [1]) nameA.mem guid0 0 []).2, some Fat32.smallFs, card'⟩) := by
    have he : Variables.set (oneVar 7 [1]) nameA.mem guid0 0 [] =
        (.ok (), (Variables.set (oneVar 7 [1]) nameA.mem guid0 0 []).2) := Prod.ext (set_delete_oneVar 0) rfl
    have hraw : rawParts 0 none = [] := rfl
    simp only [setVariable, hraw]
    rw [he]
    rfl
  obtain ⟨_, hreboot⟩ := reboot_eq hready
  refine ⟨_, _, _, _, n, hboot, hset, hsave, hdel, hreboot, ?_⟩
  dsimp only
  have hv : Valid (oneVar 7 [1]) := reachable_oneVar.valid
  have hfile : varFile Fat32.smallFs card' = .ok (imageOf (oneVar 7 [1])) := hsaved.reads hready.wellFormed
  refine returns_of_toMap (reachable_merged _ .empty).valid (by rw [units_nameA]; decide) ?_
  rw [hfile, merged_image hv, (toMap_oneVar (by decide) (by decide)).2, Function.update_self]

/-- The store without its only variable. -/
def noVar : Store := (Variables.set (oneVar 7 [1]) nameA.mem guid0 7 []).2

theorem imageOf_noVar : Valid noVar ∧ (imageOf noVar).length = 8 := by
  have hv : Valid (oneVar 7 [1]) := reachable_oneVar.valid
  obtain ⟨hv', _⟩ := hv.set_eq (s := nameA) guid0 7 []
  obtain ⟨_, hmap⟩ := hv.set_ok (set_delete_oneVar 7)
  rw [(toMap_oneVar (by decide) (by decide)).2, Function.update_idem, if_pos rfl] at hmap
  have hes : (Slots.entries Variable.entry noVar).Perm [] := by
    refine hv'.unique.entries_perm List.nodup_nil (hmap.trans (funext fun k => ?_))
    by_cases h : k = (nameA.units, guid0)
    · rw [h, Function.update_self]; rfl
    · rw [Function.update_of_ne h]; rfl
  refine ⟨hv', ?_⟩
  rw [imageOf, length_image, hes.eq_nil]
  rfl

theorem setVariable_delete_stays_small : ∃ s s₁ s₃,
    Run (Clean Fat32.smallFs) (boot Fat32.smallCard) s ∧ toMap s.vars (nameA.units, guid0) ≠ none ∧
    s.setVariable (some nameA.mem) (some guid0) 7 0 none = some (.success, s₁) ∧
    (boot s₁.card).bootFromSd Fat32.smallFs = some s₃ ∧ ∀ attrs capacity out,
      (getVariable s₃.vars (some nameA.mem) (some guid0) attrs (some capacity) out).1 = .notFound := by
  obtain ⟨card, card', n, hboot, hset, hsave, hready, hsaved⟩ := saved_small
  obtain ⟨hv, hlen⟩ := imageOf_noVar
  have hrun : Run (Clean Fat32.smallFs) (boot Fat32.smallCard)
      ⟨oneVar 7 [1], some Fat32.smallFs, card'⟩ :=
    .action (a := .setVariable (some nameA) (some guid0) 7 1 (some fun _ => 1))
      (.action (a := .bootFromSd _) .start rfl hboot) trivial (by simp only [step, Option.map_some, hset])
  -- the file keeps its cluster, which is enough
  have hfits : Fat32.smallFs.Fits (Fat32.smallFs.volume card') varFileName (imageOf noVar) := by
    cases hsaved with
    | ok _ _ hw =>
        intro R own _ hcl
        obtain rfl := hcl.unique hready.wellFormed (Or.inl ⟨_, hw.node, hw.owns⟩)
        have himg : (imageOf (oneVar 7 [1])).length = 37 := length_imageOf_oneVar (by decide) (by decide)
        rw [hw.length, clustersNeeded_small (by omega), clustersNeeded_small (by omega)]
        exact Nat.le_add_right 1 _
  have hs : Sound Fat32.smallFs ⟨oneVar 7 [1], some Fat32.smallFs, card'⟩ :=
    ⟨reachable_oneVar, hready, fun h => (Option.some.inj h).symm⟩
  obtain ⟨r, r', card₁, hsave', hauto, _, hfile⟩ := (hs.set nameA guid0 7 []).autosave_eq (by decide) rfl
  have hdel : (⟨oneVar 7 [1], some Fat32.smallFs, card'⟩ : Session).setVariable (some nameA.mem) (some guid0) 7 0 none =
      some (.success, ⟨noVar, some Fat32.smallFs, card₁⟩) := by
    have he : Variables.set (oneVar 7 [1]) nameA.mem guid0 7 [] = (.ok (), noVar) := Prod.ext (set_delete_oneVar 7) rfl
    have hraw : rawParts 0 none = [] := rfl
    rw [he] at hauto
    simp only [setVariable, hraw]
    rw [he]
    simp only [hauto]
    rfl
  have hok : ∃ n, ((save Fat32.smallFs noVar).run card').1 = .ok n := by
    cases hfile with
    | written _ _ => exact ⟨_, congrArg Prod.fst hsave'⟩
    | kept h _ => exact absurd ⟨by rw [← noVar, hlen]; decide, hfits⟩ h
  obtain ⟨s₃, hreboot, hnone⟩ := setVariable_delete_stays ready_small.wellFormed (by decide) ready_small.notSubdir hrun rfl
    hdel (fun _ => hok) (Or.inl (by decide)) .start
  refine ⟨_, _, s₃, hrun, ?_, hdel, hreboot, hnone⟩
  rw [(toMap_oneVar (by decide) (by decide)).2, Function.update_self]
  exact Option.some_ne_none _

end Session

end Ferro
