import Ferro.Fat32.Theorems
import Ferro.Persist.Lemmas.Cut
import Ferro.Variables.SavedForm

/-!
# What survives a reboot
-/

namespace Ferro

namespace Persist

open Variables

variable {fs : Fat32} {d d' : Disk}

/-! ## Stores with one variable -/

/-- The store after one `set`. -/
def oneVar (attributes : UInt32) (data : List UInt8) : Store := (set empty nameA.mem guid0 attributes data).2

variable {attributes : UInt32} {data : List UInt8}

theorem reachable_oneVar : Reachable (oneVar attributes data) := Reachable.empty.set nameA guid0 attributes data

theorem storable_nameA (hne : data ≠ []) (hle : data.length ≤ maxDataLen) :
    Storable ((nameA.units, guid0), (attributes, data)) :=
  ⟨by simp [units_nameA, maxNameUnits], CStr16.zero_not_mem_units, hne, hle⟩

theorem toMap_oneVar (hne : data ≠ []) (hle : data.length ≤ maxDataLen) :
    (set empty nameA.mem guid0 attributes data).1 = .ok () ∧
      toMap (oneVar attributes data) = Function.update (fun _ => none) (nameA.units, guid0) (some (attributes, data)) := by
  obtain ⟨_, he⟩ := valid_empty.set_eq (s := nameA) guid0 attributes data
  rw [VarMap.set_storable (storable_nameA hne hle) fun _ => by rw [keys_empty, Set.ncard_empty]; decide,
    toMap_empty] at he
  obtain ⟨hok, hmap⟩ := Prod.mk.inj he
  exact ⟨hok.symm, hmap.symm⟩

theorem entries_oneVar (hne : data ≠ []) (hle : data.length ≤ maxDataLen) :
    Slots.entries Variable.entry (oneVar attributes data) = [((nameA.units, guid0), (attributes, data))] := by
  refine List.perm_singleton.mp (reachable_oneVar.valid.unique.entries_perm (by simp) ?_)
  funext k
  rw [show Slots.toMap Variable.entry (oneVar attributes data) = _ from (toMap_oneVar hne hle).2]
  by_cases h : k = (nameA.units, guid0) <;> simp [h]

theorem imageOf_oneVar (attributes : UInt32) (hne : data ≠ []) (hle : data.length ≤ maxDataLen) :
    ∃ pre, pre.length = 36 ∧ imageOf (oneVar attributes data) = pre ++ data := by
  rw [imageOf, entries_oneVar hne hle]
  refine ⟨magic ++ leBytes 4 1 ++ (leBytes 2 nameA.units.length ++
    nameA.units.flatMap (fun unit => leBytes 2 unit.toNat) ++ guidBytes guid0 ++ leBytes 4 attributes.toNat ++
    leBytes 4 data.length), ?_, ?_⟩
  · simp [magic, units_nameA]
  · simp [image, record]

theorem length_imageOf_oneVar (hne : data ≠ []) (hle : data.length ≤ maxDataLen) :
    (imageOf (oneVar attributes data)).length = 36 + data.length := by
  obtain ⟨pre, hpre, h⟩ := imageOf_oneVar attributes hne hle
  rw [h, List.length_append, hpre]

theorem ready_small : Ready Fat32.smallFs Fat32.smallCard := by
  constructor <;> rw [Fat32.volume_smallCard]
  · exact Fat32.wellFormed_small.1
  · exact (Fat32.callable_small varFileName [] (by decide) (by decide)).notSubdir

theorem clustersNeeded_small {bytes : List UInt8} (h : bytes.length ≤ 512) :
    Fat32.smallFs.clustersNeeded bytes = 1 := by
  have hcs : Fat32.smallFs.clusterSizeBytes = 512 := rfl
  rw [Fat32.clustersNeeded_eq Fat32.geometry_smallFs (by omega), hcs]
  omega

/-- A store with one small variable fits on the small volume. -/
theorem save_small (attributes : UInt32) (hne : data ≠ []) (hle : data.length ≤ 476) : ∃ n d',
    (save Fat32.smallFs (oneVar attributes data)).run Fat32.smallCard = (.ok n, d') ∧
      Fat32.smallFs.WellFormed (Fat32.smallFs.volume d') ∧
      Saved Fat32.smallFs (oneVar attributes data) Fat32.smallCard d' (.ok n) := by
  have hlen : (imageOf (oneVar attributes data)).length = 36 + data.length :=
    length_imageOf_oneVar hne (by simp only [maxDataLen]; omega)
  obtain ⟨r, d', hrun, hwf', hsaved⟩ := run_save ready_small (by decide)
    (reachable_oneVar : Reachable (oneVar attributes data)).valid
  cases hsaved with
  | ok hl hfits hw => exact ⟨_, d', hrun, hwf', .ok hl hfits hw⟩
  | tooLarge hl _ => simp only [maxBytes] at hl; omega
  | noSpace _ hfits _ =>
      refine absurd ?_ hfits
      rw [Fat32.volume_smallCard, Fat32.fits_small (by decide), clustersNeeded_small (by omega)]

/-! ## Save and load -/

/-- What was saved is loaded back over what the store holds then. -/
theorem save_load {saved vars : Store} {n : Nat} (hwf : fs.WellFormed (fs.volume d)) (ha : fs.Addressable)
    (hdir : fs.NotSubdir (fs.volume d) varFileName) (hs : Reachable saved) (hv : Reachable vars)
    (hroom : ((toMap vars).keys ∪ (toMap saved).keys).ncard ≤ maxVariables)
    (hsave : (save fs saved).run d = (.ok n, d')) :
    ∃ vars', ((load fs vars).run d').1 = .ok (count saved, vars') ∧
      toMap vars' = (toMap vars).override (toMap saved) := by
  obtain ⟨r, d₁, hrun, hwf', hsaved⟩ := run_save ⟨hwf, hdir⟩ ha hs.valid
  rw [hsave] at hrun
  cases hrun
  exact (hsaved.reads hwf').load hs.valid hv.valid hroom

/-- One variable is saved and loaded over a store that has the same key and another. -/
theorem save_load_small : ∃ n d' vars',
    (save Fat32.smallFs (oneVar 7 [1])).run Fat32.smallCard = (.ok n, d') ∧
      ((load Fat32.smallFs storeAB).run d').1 = .ok (count (oneVar 7 [1]), vars') ∧
      toMap vars' ([0x41], guid0) = some (7, [1]) ∧ toMap vars' ([0x42], guid0) = some (7, [3]) := by
  obtain ⟨n, d', hrun, _⟩ := save_small 7 (List.cons_ne_nil 1 []) (by decide)
  have hone : toMap (oneVar 7 [1]) = _ := (toMap_oneVar (List.cons_ne_nil 1 []) (by decide)).2
  rw [units_nameA] at hone
  have hroom : ((toMap storeAB).keys ∪ (toMap (oneVar 7 [1])).keys).ncard ≤ maxVariables := by
    refine room_storeAB fun k hk => .inl ?_
    have hk : (toMap (oneVar 7 [1]) k).isSome := hk
    by_contra hne
    rw [hone, Function.update_of_ne hne] at hk
    cases hk
  obtain ⟨vars', hload, hmap⟩ := save_load ready_small.wellFormed (by decide) ready_small.notSubdir reachable_oneVar
    reachable_storeAB hroom hrun
  rw [toMap_storeAB, hone] at hmap
  refine ⟨n, d', vars', hrun, hload, ?_, ?_⟩ <;> rw [hmap] <;> rfl

def zeros512 : List UInt8 := List.replicate 512 0

theorem zeros512_bounds : zeros512 ≠ [] ∧ zeros512.length ≤ maxDataLen := by
  have h : zeros512.length = 512 := List.length_replicate
  exact ⟨List.ne_nil_of_length_pos (by omega), Nat.le_of_eq h⟩

/-- Without the bound on the cluster numbers, a saved store can be lost. -/
theorem save_load_hugeCard : Fat32.hugeFs.WellFormed (Fat32.hugeFs.volume Fat32.hugeCard) ∧
    Fat32.hugeFs.NotSubdir (Fat32.hugeFs.volume Fat32.hugeCard) varFileName ∧ Reachable (oneVar 7 zeros512) ∧
    ((toMap empty).keys ∪ (toMap (oneVar 7 zeros512)).keys).ncard ≤ maxVariables ∧
    ∃ n d', (save Fat32.hugeFs (oneVar 7 zeros512)).run Fat32.hugeCard = (.ok n, d') ∧
      ((load Fat32.hugeFs empty).run d').1 = .error (.err (.fat32 .notFound)) := by
  obtain ⟨hne, hle⟩ := zeros512_bounds
  obtain ⟨pre, hpre, himg⟩ := imageOf_oneVar 7 hne hle
  have hlen : (imageOf (oneVar 7 zeros512)).length = 548 := by
    rw [himg, List.length_append, hpre, zeros512, List.length_replicate]
  have h512 : (imageOf (oneVar 7 zeros512))[512]? = some 0 := by
    rw [himg, List.getElem?_append_right (by omega), hpre, zeros512, List.getElem?_replicate]
    rfl
  obtain ⟨d', hrun, _, hread⟩ := Fat32.huge_write (by decide : varFileName ≠ Fat32.fileB) (by omega) h512
  have hmap := Prog.run_mapError PersistStop.ofStop
    (Fat32.hugeFs.writeFile varFileName (imageOf (oneVar 7 zeros512))) Fat32.hugeCard
  rw [hrun] at hmap
  have hsave : (save Fat32.hugeFs (oneVar 7 zeros512)).run Fat32.hugeCard =
      (.ok (imageOf (oneVar 7 zeros512)).length, d') := by
    rw [save_eq reachable_oneVar.valid, if_pos (by rw [hlen]; decide)]
    exact Prog.run_bind_ok hmap
  rw [Fat32.volume_hugeCard]
  exact ⟨Fat32.wellFormed_huge.1, Fat32.notSubdir_huge varFileName, reachable_oneVar,
    reachable_oneVar.valid.room_empty, _, d', hsave, load_of_error empty (hread varFileName maxBytes)⟩

/-! ## Power loss -/

/-- If power is lost during a `save` that does not shorten the file's chain, a later `load` finds the new store, or
the file of the old one with the first sectors of the new one over it. It finds one of the two stores if the new one
takes one sector and is not longer than the old one. -/
theorem save_crash {saved vars : Store} (hwf : fs.WellFormed (fs.volume d)) (ha : fs.Addressable)
    (hdir : fs.NotSubdir (fs.volume d) varFileName) (hs : Reachable saved) (hv : Reachable vars)
    (h : HoldsSave fs (fs.volume d) saved)
    (hns : fs.clustersNeeded (imageOf saved) ≤ fs.clustersNeeded (imageOf vars)) (n : Nat) :
    ((∃ vars', ((load fs empty).run ((save fs vars).crash n d)).1 = .ok (count vars, vars') ∧
        toMap vars' = toMap vars) ∨
      ∃ j, ((load fs empty).run ((save fs vars).crash n d)).1 =
        loaded ((Fat32.overlay (imageOf vars) j (imageOf saved)).take (imageOf saved).length)) ∧
    ((imageOf vars).length ≤ 512 → (imageOf vars).length ≤ (imageOf saved).length →
      ∃ k vars', ((load fs empty).run ((save fs vars).crash n d)).1 = .ok (k, vars') ∧
        (toMap vars' = toMap saved ∨ toMap vars' = toMap vars)) := by
  have hnew := loaded_saved hv.valid []
  have hold := loaded_saved hs.valid []
  rw [List.append_nil] at hnew hold
  rcases h.crash ⟨hwf, hdir⟩ ha hv.valid hns n with hload | ⟨j, hload⟩
  · rw [hload]
    obtain ⟨vars', hl, hmap⟩ := hnew
    exact ⟨Or.inl ⟨vars', hl, hmap⟩, fun _ _ => ⟨_, vars', hl, Or.inr hmap⟩⟩
  · refine ⟨Or.inr ⟨j, hload⟩, fun hone hle => ?_⟩
    rw [hload]
    cases j with
    | zero =>
        obtain ⟨vars', hl, hmap⟩ := hold
        rw [Fat32.overlay, List.take_length]
        exact ⟨_, vars', hl, Or.inl hmap⟩
    | succ j =>
        -- the new image is in place, and what is left of the old one stands behind it
        have htake : ((Fat32.overlay (imageOf vars) (j + 1) (imageOf saved)).take (imageOf saved).length).take
            (imageOf vars).length = imageOf vars := by
          rw [List.take_take, Nat.min_eq_left hle,
            Fat32.overlay_one (imageOf_ne_nil vars) hone j (Nat.le_refl _), List.take_length]
        obtain ⟨vars', hl, hmap⟩ := loaded_saved hv.valid
          (((Fat32.overlay (imageOf vars) (j + 1) (imageOf saved)).take (imageOf saved).length).drop
            (imageOf vars).length)
        nth_rewrite 1 [← htake] at hl
        rw [List.take_append_drop] at hl
        exact ⟨_, vars', hl, Or.inr hmap⟩

theorem save_crash_small : ∃ d, HoldsSave Fat32.smallFs (Fat32.smallFs.volume d) (oneVar 7 [1, 2]) ∧
    ∀ n, ∃ k vars', ((load Fat32.smallFs empty).run ((save Fat32.smallFs (oneVar 7 [1])).crash n d)).1 = .ok (k, vars') ∧
      (toMap vars' = toMap (oneVar 7 [1, 2]) ∨ toMap vars' = toMap (oneVar 7 [1])) := by
  obtain ⟨m, d, _, hwf, hsaved⟩ := save_small 7 (List.cons_ne_nil 1 [2]) (by decide)
  have hA : (imageOf (oneVar 7 [1, 2])).length = 38 := length_imageOf_oneVar (by decide) (by decide)
  have hB : (imageOf (oneVar 7 [1])).length = 37 := length_imageOf_oneVar (by decide) (by decide)
  refine ⟨d, hsaved.holdsSave, fun n => ?_⟩
  refine (save_crash hwf (by decide) (hsaved.notSubdir ready_small.notSubdir) reachable_oneVar reachable_oneVar
    hsaved.holdsSave ?_ n).2 (by omega) (by omega)
  rw [clustersNeeded_small (by omega), clustersNeeded_small (by omega)]

theorem loaded_cut : loaded ((imageOf (oneVar 7 [1, 2])).take 37) = .ok (0, empty) := by
  rw [imageOf, entries_oneVar (by decide) (by decide), units_nameA]
  rfl

theorem toMap_oneVar_ne (hne : data ≠ []) (hle : data.length ≤ maxDataLen) :
    toMap empty ≠ toMap (oneVar attributes data) := by
  intro h
  have hkey := congrFun h (nameA.units, guid0)
  rw [toMap_empty, (toMap_oneVar hne hle).2, Function.update_self] at hkey
  cases hkey

/-- Power lost between the data of a longer store and its entry loses both stores. -/
theorem save_crash_loses_small : ∃ d, Fat32.smallFs.WellFormed (Fat32.smallFs.volume d) ∧
    Fat32.smallFs.NotSubdir (Fat32.smallFs.volume d) varFileName ∧
    HoldsSave Fat32.smallFs (Fat32.smallFs.volume d) (oneVar 7 [1]) ∧
    ∃ n, ((load Fat32.smallFs empty).run ((save Fat32.smallFs (oneVar 7 [1, 2])).crash n d)).1 = .ok (0, empty) ∧
      toMap empty ≠ toMap (oneVar 7 [1]) ∧ toMap empty ≠ toMap (oneVar 7 [1, 2]) := by
  obtain ⟨m, d, _, hwf, hsaved⟩ := save_small 7 (List.cons_ne_nil 1 []) (by decide)
  have hA : (imageOf (oneVar 7 [1])).length = 37 := length_imageOf_oneVar (by decide) (by decide)
  have hB : (imageOf (oneVar 7 [1, 2])).length = 38 := length_imageOf_oneVar (by decide) (by decide)
  have hdir := hsaved.notSubdir ready_small.notSubdir
  obtain ⟨slot, own, hf, hown, hlen⟩ := hsaved.holdsSave
  have hneed : Fat32.smallFs.clustersNeeded (imageOf (oneVar 7 [1, 2])) = 1 := clustersNeeded_small (by omega)
  rw [clustersNeeded_small (by omega)] at hown
  have hroom : Fat32.smallFs.Room (Fat32.smallFs.volume d) own
      (Fat32.smallFs.clustersNeeded (imageOf (oneVar 7 [1, 2]))) := by
    rw [Fat32.Room, hneed, hown]; omega
  have hle : (imageOf (oneVar 7 [1, 2])).length ≤ maxBytes := by rw [hB]; decide
  have hready : Ready Fat32.smallFs d := ⟨hwf, hdir⟩
  have hc : Fat32.smallFs.Callable (Fat32.smallFs.volume d) varFileName (imageOf (oneVar 7 [1, 2])) :=
    hready.callable hle
  obtain ⟨x, hpass, hread⟩ := hf.passes_read hwf (by decide) (imageOf_ne_nil _) hc (by rw [hown, hneed]) hroom hlen
  obtain ⟨n, hn⟩ := passes_save reachable_oneVar.valid hle hpass d rfl
  have hspc : Fat32.smallFs.sectorsPerCluster.toNat = 1 := rfl
  have hbytes := hread _ hn
  rw [hneed, hspc, hA, Fat32.overlay_one (imageOf_ne_nil _) (by omega) 0 (by omega)] at hbytes
  exact ⟨d, hwf, hdir, hsaved.holdsSave, n, (loaded_of_read hbytes).trans loaded_cut,
    toMap_oneVar_ne (by decide) (by decide), toMap_oneVar_ne (by decide) (by decide)⟩

end Persist

end Ferro
