import Ferro.Fat32.Lemmas.Card
import Ferro.Fat32.Lemmas.Contents
import Ferro.Fat32.Lemmas.Subdirs

/-!
# What the driver guarantees

`write_file` and `read_file` together are a map from names to bytes; a call keeps the volume well formed, and no
failure during it reaches another file.
-/

namespace Ferro

namespace Fat32

variable {fs : Fat32} {d : Disk} {name : Name} {data : List UInt8}

/-! ## Names to bytes -/

/-- A sequence of `write_file` calls on a working card: the results and the card afterwards. -/
def writeFiles (fs : Fat32) : List (Name × List UInt8) → Disk → List (Except Stop Unit) × Disk
  | [], d => ([], d)
  | (name, data) :: calls, d =>
    let (r, d') := (fs.writeFile name data).run d
    let (rs, d'') := writeFiles fs calls d'
    (r :: rs, d'')

/-- The data of the last call on `name` that returned `Ok`. -/
def lastWritten (name : Name) : List (Name × List UInt8) → List (Except Stop Unit) → Option (List UInt8)
  | (name', data) :: calls, r :: rs =>
    (lastWritten name calls rs).or (if name' = name ∧ r.isOk then some data else none)
  | _, _ => none

/-- On `d'`, `read_file` with a large enough buffer returns the given data, or else what it returns on `d`. -/
def ReadsBack (fs : Fat32) (d d' : Disk) (name : Name) : Option (List UInt8) → Prop
  | some data => ∀ outLen, data.length ≤ outLen → ((fs.readFile name outLen).run d').1 = .ok data
  | none => ∀ outLen, ((fs.readFile name outLen).run d').1 = ((fs.readFile name outLen).run d).1

/-- After any calls, a file holds the data of the last successful call on its name, and reads as before them if
there was none. -/
theorem writeFiles_refines (hwf : fs.WellFormed (fs.volume d)) (ha : fs.Addressable)
    (calls : List (Name × List UInt8)) (hcalls : ∀ call ∈ calls, fs.Callable (fs.volume d) call.1 call.2) :
    (∀ r ∈ (fs.writeFiles calls d).1, r = .ok () ∨ r = .error (.err .noSpace)) ∧
      ∀ name, fs.ReadsBack d (fs.writeFiles calls d).2 name (lastWritten name calls (fs.writeFiles calls d).1) := by
  induction calls generalizing d with
  | nil => exact ⟨by simp [writeFiles], fun _ _ => rfl⟩
  | cons call calls ih =>
      obtain ⟨name', data'⟩ := call
      have hc := hcalls _ List.mem_cons_self
      obtain ⟨r, d', hrun, _, hwf', hr⟩ := run_writeFile hwf ha hc
      have hsubdir : ∀ x, fs.NotSubdir (fs.volume d) x → fs.NotSubdir (fs.volume d') x := by
        rcases hr with ⟨_, _, _, _, hw⟩ | ⟨_, _, hpres⟩
        · exact fun x => hw.notSubdir
        · exact fun x => hpres.notSubdir
      obtain ⟨hres, hread⟩ := ih hwf' fun call hmem =>
        have h := hcalls call (List.mem_cons_of_mem _ hmem)
        ⟨h.proper, hsubdir _ h.notSubdir, h.length⟩
      simp only [writeFiles, hrun]
      refine ⟨fun x hx => ?_, fun name => ?_⟩
      · rcases List.mem_cons.mp hx with rfl | hx
        · exact hr.imp (fun h => h.1) fun h => h.1
        · exact hres x hx
      · have hrest := hread name
        rw [lastWritten]
        -- a later successful call decides, else this one
        cases hlast : lastWritten name calls (fs.writeFiles calls d').1 with
        | some data => rw [hlast] at hrest; exact hrest
        | none =>
            rw [hlast] at hrest
            rw [Option.none_or]
            rcases hr with ⟨rfl, _, slot, m, hw⟩ | ⟨rfl, _, hpres⟩
            · by_cases hname : name' = name
              · subst hname
                rw [if_pos ⟨rfl, rfl⟩]
                intro outLen hout
                rw [hrest outLen, hw.read_eq hwf' hc.length hout]
              · rw [if_neg fun h => hname h.1]
                intro outLen
                rw [hrest outLen, hw.read_other hwf hwf' (Ne.symm hname)]
            · rw [if_neg fun h => by cases h.2]
              intro outLen
              rw [hrest outLen, hpres.read_eq hwf hwf' (fun _ _ h => h) fun _ _ h => h]

/-! ## A small volume -/

def fileA : Name := .ofList (0x41 :: List.replicate 10 0x20)

def fileB : Name := .ofList (0x42 :: List.replicate 10 0x20)

def smallFs : Fat32 where
  partitionStartLba := 0
  sectorsPerCluster := 1
  reservedSectors := 1
  numFats := 2
  fatSizeSectors := 1
  rootCluster := 2

theorem geometry_smallFs : smallFs.Geometry := by constructor <;> decide

/-- `A` is a file of 600 bytes in clusters 3 and 4, and only cluster 5 is free. -/
def smallVolume : Volume := smallFs.single [3, 4, 5] fileA [3, 4] 600

def smallCard : Disk := smallFs.card smallVolume

theorem volume_smallCard : smallFs.volume smallCard = smallVolume :=
  volume_card geometry_smallFs (holds_single geometry_smallFs (by decide) (by decide))

theorem chainAt_smallFile : smallFs.ChainAt (smallFs.allocated (smallFs.blank [3, 4, 5]) [3, 4]) 3 [3, 4] :=
  chainAt_allocated (by decide) (by decide) (by decide)

theorem wellFormed_small : smallFs.WellFormed smallVolume ∧ smallFs.Node smallVolume [fileA] ⟨2, 0, 0⟩ ∧
    smallVolume.entry ⟨2, 0, 0⟩ = newEntry fileA 3 600 ∧ smallFs.Owns smallVolume ⟨2, 0, 0⟩ [3, 4] ∧
    ∀ path loc, smallFs.Node smallVolume path loc → loc = ⟨2, 0, 0⟩ :=
  wellFormed_single geometry_smallFs (by decide) (by decide) _ (by decide) (by decide) chainAt_smallFile

theorem chainAt_small : smallFs.ChainAt smallVolume smallFs.rootCluster.toNat [2] :=
  chainAt_single (by decide) (by decide) _ _ (by decide)

theorem absent_small {name : Name} (hne : name ≠ fileA) (loc : Loc) : ¬ smallFs.Node smallVolume [name] loc := by
  obtain ⟨_, _, he, _, honly⟩ := wellFormed_small
  intro h
  have hname := ((node_singleton chainAt_small).mp h).2
  rw [honly _ _ h, he, newEntry.name_eq] at hname
  exact hne hname.symm

theorem callable_small (name : Name) (data : List UInt8) (hname : name.Proper) (hlen : data.length < 2 ^ 32) :
    smallFs.Callable smallVolume name data := by
  obtain ⟨_, _, he, _, honly⟩ := wellFormed_small
  refine ⟨hname, fun loc h => ?_, hlen⟩
  rw [honly _ _ h, he, newEntry.isDir_eq]
  exact Bool.false_ne_true

theorem wellFormed_smallCard : smallFs.WellFormed (smallFs.volume smallCard) := by
  rw [volume_smallCard]
  exact wellFormed_small.1

theorem notSubdir_smallCard (name : Name) (hname : name.Proper) :
    smallFs.NotSubdir (smallFs.volume smallCard) name := by
  rw [volume_smallCard]
  exact (callable_small name [] hname (by decide)).notSubdir

theorem writeFiles_refines_small :
    (∀ r ∈ (smallFs.writeFiles [(fileB, [1, 2, 3]), (fileA, [])] smallCard).1,
      r = .ok () ∨ r = .error (.err .noSpace)) ∧
      ∀ name, smallFs.ReadsBack smallCard (smallFs.writeFiles [(fileB, [1, 2, 3]), (fileA, [])] smallCard).2 name
        (lastWritten name [(fileB, [1, 2, 3]), (fileA, [])]
          (smallFs.writeFiles [(fileB, [1, 2, 3]), (fileA, [])] smallCard).1) := by
  refine writeFiles_refines wellFormed_smallCard (by decide) _ ?_
  rw [volume_smallCard]
  intro call hcall
  simp only [List.mem_cons, List.not_mem_nil, or_false] at hcall
  rcases hcall with rfl | rfl
  · exact callable_small _ _ (by decide) (by decide)
  · exact callable_small _ _ (by decide) (by decide)

/-! ## A volume with an empty subdirectory -/

/-- `A` is an empty subdirectory in cluster 3, and clusters 4 and 5 are free. -/
def dirVolume : Volume := smallFs.subdir [3, 4, 5] fileA [3]

def dirCard : Disk := smallFs.card dirVolume

theorem volume_dirCard : smallFs.volume dirCard = dirVolume :=
  volume_card geometry_smallFs (holds_subdir geometry_smallFs (by decide) (by decide))

theorem chainAt_dirA : smallFs.ChainAt (smallFs.allocated (smallFs.blank [3, 4, 5]) [3]) 3 [3] :=
  chainAt_allocated (by decide) (by decide) (by decide)

theorem wellFormed_dir : smallFs.WellFormed dirVolume ∧ smallFs.Node dirVolume [fileA] ⟨2, 0, 0⟩ :=
  wellFormed_subdir geometry_smallFs (by decide) (by decide) (by decide) (by decide) chainAt_dirA

theorem entry_dir : dirVolume.entry ⟨2, 0, 0⟩ = dirEntry fileA 3 := subdir_entry

theorem chainAt_dir : smallFs.ChainAt dirVolume smallFs.rootCluster.toNat [2] :=
  chainAt_subdir (by decide) (by decide) (by decide)

theorem owns_dir : smallFs.Owns dirVolume ⟨2, 0, 0⟩ [3] := Or.inr (owns_subdir geometry_smallFs chainAt_dirA)

theorem lookup_dir : smallFs.lookup dirVolume [2] fileA = some ⟨2, 0, 0⟩ :=
  (lookup_node wellFormed_dir.1 chainAt_dir).mpr wellFormed_dir.2

theorem not_below_dir {path : List Name} {loc : Loc} (hn : smallFs.Node dirVolume path loc) : ¬ Below name path := by
  have hslot : loc = ⟨2, 0, 0⟩ := node_subdir chainAt_dirA hn
  subst hslot
  rw [wellFormed_dir.1.path_unique wellFormed_dir.2 hn]
  exact not_below_singleton

/-- Without data, the subdirectory is not written to. -/
theorem overwritten_dir (j : Nat) : smallFs.overwritten dirVolume [3] [] j = dirVolume := by
  have hend : dirVolume.fat 3 = endOfChain := (mark_fat_self 3 : (smallFs.mark (smallFs.blank [3, 4, 5]) 3).fat 3 = _)
  rw [overwritten, clustersNeeded_nil geometry_smallFs, Volume.fill_nil_data, fitted_of_le (by decide)]
  refine Volume.ext ?_ rfl
  change Function.update dirVolume.fat 3 endOfChain = _
  rw [← hend, Function.update_eq_self]

/-! ## A volume with cluster numbers of 29 bits

FAT links have 28 bits, so a cluster from `2 ^ 28` on cannot be linked to: a link to cluster `2 ^ 28 + 2` is a link
to cluster 2, here the root directory. -/

def hugeFs : Fat32 where
  partitionStartLba := 0
  sectorsPerCluster := 1
  reservedSectors := 1
  numFats := 1
  fatSizeSectors := 0x200001
  rootCluster := 2

theorem geometry_hugeFs : hugeFs.Geometry := by constructor <;> decide

/-- `B` is a file of five bytes in cluster 4, and only clusters `2 ^ 28 + 1` and `2 ^ 28 + 2` are free. -/
def hugeVolume : Volume := hugeFs.single [4, 2 ^ 28 + 1, 2 ^ 28 + 2] fileB [4] 5

def hugeCard : Disk := hugeFs.card hugeVolume

theorem volume_hugeCard : hugeFs.volume hugeCard = hugeVolume :=
  volume_card geometry_hugeFs (holds_single geometry_hugeFs (by decide) (by decide))

theorem chainAt_hugeFile : hugeFs.ChainAt (hugeFs.allocated (hugeFs.blank [4, 2 ^ 28 + 1, 2 ^ 28 + 2]) [4]) 4 [4] :=
  ⟨.last (Volume.next_eq_none (by rw [allocated, linkAll, mark_fat_self])), by decide⟩

theorem wellFormed_huge : hugeFs.WellFormed hugeVolume ∧ hugeFs.Node hugeVolume [fileB] ⟨2, 0, 0⟩ ∧
    hugeVolume.entry ⟨2, 0, 0⟩ = newEntry fileB 4 5 ∧ hugeFs.Owns hugeVolume ⟨2, 0, 0⟩ [4] ∧
    ∀ path loc, hugeFs.Node hugeVolume path loc → loc = ⟨2, 0, 0⟩ :=
  wellFormed_single geometry_hugeFs (by decide) (by decide) _ (by decide) (by decide) chainAt_hugeFile

theorem chainAt_huge : hugeFs.ChainAt hugeVolume hugeFs.rootCluster.toNat [2] :=
  chainAt_single (by decide) (by decide) _ _ (by decide)

theorem freeList_huge : hugeFs.freeList hugeVolume = [2 ^ 28 + 1, 2 ^ 28 + 2] := by
  refine freeList_single (by decide) (by decide) (fun c => ?_) chainAt_hugeFile
  simp only [List.mem_cons, List.not_mem_nil, or_false]
  omega

theorem target_huge {name : Name} (hne : name ≠ fileB) : hugeFs.Target hugeVolume [2] name [] ⟨2, 0, 1⟩ :=
  target_single geometry_hugeFs (by decide) (by decide) (by decide) (by decide) chainAt_hugeFile hne

theorem chainAt_hugeFitted : hugeFs.ChainAt (hugeFs.fitted hugeVolume [] 2)
    ((hugeFs.fittedChain hugeVolume [] 2).headD 0) [2 ^ 28 + 1, 2] := by
  have hchain : hugeFs.fittedChain hugeVolume [] 2 = [2 ^ 28 + 1, 2 ^ 28 + 2] := by
    rw [fittedChain, spare, freeList_huge]; rfl
  have hlink : (hugeFs.allocated hugeVolume [2 ^ 28 + 1, 2 ^ 28 + 2]).fat (2 ^ 28 + 1) = 2 := Volume.setFat_fat_self _ _
  have hroot : endOfChain ≤ (hugeFs.allocated hugeVolume [2 ^ 28 + 1, 2 ^ 28 + 2]).fat 2 := by
    rw [(agreeOff_allocated hugeFs _ 2 (by decide)).1]
    exact Volume.end_of_next_none chainAt_huge.chain.next_getLast
  rw [hchain, fitted_nil (by decide), freeList_huge]
  exact ⟨.cons (Volume.next_eq_some.mpr ⟨hlink, by decide⟩) (.last (Volume.next_eq_none hroot)), by decide⟩

/-- The second sector of the data lands in the root directory. -/
theorem isEnd_hugeWritten {name : Name} {data : List UInt8} (h0 : data[512]? = some 0) :
    ((hugeFs.written hugeVolume [] [2 ^ 28 + 1, 2] ⟨2, 0, 1⟩ name data).entry ⟨2, 0, 0⟩).isEnd := by
  obtain ⟨h512, _⟩ := List.getElem?_eq_some_iff.mp h0
  have hne : data ≠ [] := by rintro rfl; cases h0
  have hne' : data.drop 512 ≠ [] := by
    intro h
    have := congrArg List.length h
    simp only [List.length_drop, List.length_nil] at this
    omega
  have hsec : hugeFs.sectors [2 ^ 28 + 1, 2] = [(2 ^ 28 + 1, 0), (2, 0)] := rfl
  rw [written, Volume.entry_setEntry (by decide) (by decide) (by simp), if_neg (by decide), hsec, Volume.fill,
    if_neg hne, Volume.fill, if_neg hne', Volume.fill, Volume.entry, Volume.setData_data_self]
  have hbyte : ((dataSector (data.drop 512) 0).entry 0).nth 0 = 0 := by
    rw [nth_entry _ (by decide) (by decide), dataSector, Arr.nth_put _ _ (by decide)]
    simp [sectorSize, h0]
  simp [DirEntry.isEnd, hbyte]

/-- Writing two clusters to another file overwrites the root directory; a zero byte there ends it. -/
theorem huge_write {name : Name} {data : List UInt8} (hne : name ≠ fileB) (hlen : data.length < 1024)
    (h0 : data[512]? = some 0) :
    ∃ d', (hugeFs.writeFile name data).run hugeCard = (.ok (), d') ∧
      (∀ path loc, ¬ hugeFs.Node (hugeFs.volume d') path loc) ∧
      ∀ name' outLen, ((hugeFs.readFile name' outLen).run d').1 = .error (.err .notFound) := by
  obtain ⟨h512, _⟩ := List.getElem?_eq_some_iff.mp h0
  have hneed : hugeFs.clustersNeeded data = 2 := by
    have hcs : hugeFs.clusterSizeBytes = 512 := rfl
    rw [clustersNeeded_eq geometry_hugeFs (by omega), hcs]
    omega
  have hroom : hugeFs.Room hugeVolume [] (hugeFs.clustersNeeded data) := by
    rw [Room, freeList_huge, hneed]; decide
  have hlen' : data.length < 2 ^ 32 := by omega
  have hspc : hugeFs.sectorsPerCluster.toNat = 1 := rfl
  have hfit : data.length ≤ 512 * (hugeFs.sectorsPerCluster.toNat * [2 ^ 28 + 1, 2].length) := by
    simp only [hspc, List.length_cons, List.length_nil]; omega
  have hrun := runs_writeFile_place (C := fun _ => True) wellFormed_huge.1 chainAt_huge
    (.here (target_huge hne)) hlen' (fun _ => ⟨by rw [hneed]; exact chainAt_hugeFitted, hfit⟩)
    (fun _ _ => trivial) (fun _ _ => trivial) (fun _ _ => trivial) (fun _ => trivial)
  rw [result, if_pos hroom, if_pos hroom] at hrun
  obtain ⟨_, _, _, hv⟩ := hrun hugeCard volume_hugeCard
  have hR : hugeFs.ChainAt (hugeFs.volume ((hugeFs.writeFile name data).run hugeCard).2)
      hugeFs.rootCluster.toNat [2] := by
    rw [hv]
    refine chainAt_huge.congr fun c hc => ?_
    rw [List.mem_singleton.mp hc, written, Volume.setEntry, Volume.setData_fat, Volume.fill_fat, hneed,
      fitted_nil (by decide), freeList_huge]
    exact (agreeOff_allocated hugeFs _ 2 (by decide)).1
  have hlive : hugeFs.liveSlots (hugeFs.volume ((hugeFs.writeFile name data).run hugeCard).2) [2] = [] := by
    obtain ⟨locs, hlocs⟩ := slots_singleton geometry_hugeFs 2
    rw [hv, liveSlots, hlocs, live_cons, if_pos (isEnd_hugeWritten h0)]
  refine ⟨_, hrun.run_eq volume_hugeCard, fun path loc hn => ?_, fun name' outLen => ?_⟩
  · induction hn with
    | root hl h => rw [hl.unique hR, hlive] at h; cases h
    | sub _ _ _ _ _ ih => exact ih
  · have hnone : hugeFs.lookup (hugeFs.volume ((hugeFs.writeFile name data).run hugeCard).2) [2] name' = none := by
      rw [lookup, hlive]; rfl
    have hread := runs_readFile_none (C := fun _ => True) geometry_hugeFs trivial outLen hR hnone
    exact (hread _ rfl).2.2.1

def zeros513 : List UInt8 := List.replicate 513 0

theorem notSubdir_huge (name : Name) : hugeFs.NotSubdir hugeVolume name := by
  intro loc h
  obtain ⟨_, _, he, _, honly⟩ := wellFormed_huge
  rw [honly _ _ h, he, newEntry.isDir_eq]
  exact Bool.false_ne_true

theorem callable_huge : hugeFs.Callable hugeVolume fileA zeros513 :=
  ⟨by decide, notSubdir_huge fileA, by rw [zeros513, List.length_replicate]; decide⟩

theorem huge_zeros513 : ∃ d', (hugeFs.writeFile fileA zeros513).run hugeCard = (.ok (), d') ∧
    (∀ path loc, ¬ hugeFs.Node (hugeFs.volume d') path loc) ∧
    ∀ name' outLen, ((hugeFs.readFile name' outLen).run d').1 = .error (.err .notFound) :=
  huge_write (by decide) (by rw [zeros513, List.length_replicate]; decide)
    (by rw [zeros513, List.getElem?_replicate]; rfl)

/-- Without the bound on the cluster numbers, a write to `A` makes `B` unreadable. -/
theorem writeFiles_hugeCard : hugeFs.WellFormed (hugeFs.volume hugeCard) ∧
    hugeFs.Callable (hugeFs.volume hugeCard) fileA zeros513 ∧
    (hugeFs.writeFiles [(fileA, zeros513)] hugeCard).1 = [.ok ()] ∧
    lastWritten fileB [(fileA, zeros513)] [.ok ()] = none ∧
    (∃ bytes, ((hugeFs.readFile fileB 512).run hugeCard).1 = .ok bytes) ∧
    ((hugeFs.readFile fileB 512).run (hugeFs.writeFiles [(fileA, zeros513)] hugeCard).2).1 =
      .error (.err .notFound) := by
  obtain ⟨hwf, hn, _, ho, _⟩ := wellFormed_huge
  obtain ⟨d', hrun, _, hread⟩ := huge_zeros513
  have hB := (runs_readFile (C := fun _ => True) 512 hwf trivial hn ho hugeCard volume_hugeCard).2.2.1
  have hwrite : hugeFs.writeFiles [(fileA, zeros513)] hugeCard = ([.ok ()], d') := by
    rw [writeFiles, hrun]; rfl
  rw [volume_hugeCard, hwrite]
  exact ⟨hwf, callable_huge, rfl, by decide, ⟨_, hB⟩, hread fileB 512⟩

/-! ## The FAT -/

/-- A call keeps the FAT copies equal, the top bits of their entries and the volume well formed; the written file
has as many clusters as its data needs, and every other chain is the same list of clusters. -/
theorem writeFile_keeps_structure (hwf : fs.WellFormed (fs.volume d)) (ha : fs.Addressable)
    (hc : fs.Callable (fs.volume d) name data) :
    ∃ r d', (fs.writeFile name data).run d = (r, d') ∧ (r = .ok () ∨ r = .error (.err .noSpace)) ∧
      (fs.CopiesAgree d → fs.CopiesAgree d') ∧
      (∀ k < fs.numFats.toNat, ∀ c < fs.clusters, fs.rawEntry d' k c / 2 ^ 28 = fs.rawEntry d k c / 2 ^ 28) ∧
      fs.WellFormed (fs.volume d') ∧
      (r = .ok () → ∃ slot l, fs.Node (fs.volume d') [name] slot ∧ fs.Owns (fs.volume d') slot l ∧
        l.length = max ((data.length + fs.clusterSizeBytes - 1) / fs.clusterSizeBytes) 1) ∧
      ∀ path loc l, path ≠ [name] → fs.Node (fs.volume d) path loc → fs.Owns (fs.volume d) loc l →
        fs.Node (fs.volume d') path loc ∧ fs.Owns (fs.volume d') loc l := by
  obtain ⟨r, d', hrun, hmir, hwf', hr⟩ := run_writeFile hwf ha hc
  refine ⟨r, d', hrun, hr.imp (fun h => h.1) fun h => h.1, hmir.2, hmir.1, hwf', ?_, ?_⟩
  · rintro rfl
    rcases hr with ⟨_, _, slot, m, hw⟩ | ⟨h, _⟩
    · exact ⟨slot, m, hw.node, hw.owns, by rw [hw.length, clustersNeeded_eq hwf.geometry hc.length]⟩
    · cases h
  · intro path loc l hpath hn ho
    rcases hr with ⟨_, _, slot, m, hw⟩ | ⟨_, _, hpres⟩
    · have hs := hw.other hn hpath
      exact ⟨(hw.preserves.node hs).mpr hn, hw.preserves.owns hs hn ho⟩
    · exact ⟨(hpres.node not_false).mpr hn, hpres.owns not_false hn ho⟩

theorem writeFile_keeps_structure_small :
    ∃ r d', (smallFs.writeFile fileB [1, 2, 3]).run smallCard = (r, d') ∧
      (r = .ok () ∨ r = .error (.err .noSpace)) ∧ (smallFs.CopiesAgree smallCard → smallFs.CopiesAgree d') ∧
      (∀ k < smallFs.numFats.toNat, ∀ c < smallFs.clusters,
        smallFs.rawEntry d' k c / 2 ^ 28 = smallFs.rawEntry smallCard k c / 2 ^ 28) ∧
      smallFs.WellFormed (smallFs.volume d') ∧
      (r = .ok () → ∃ slot l, smallFs.Node (smallFs.volume d') [fileB] slot ∧
        smallFs.Owns (smallFs.volume d') slot l ∧
        l.length = max (([1, 2, 3].length + smallFs.clusterSizeBytes - 1) / smallFs.clusterSizeBytes) 1) ∧
      ∀ path loc l, path ≠ [fileB] → smallFs.Node (smallFs.volume smallCard) path loc →
        smallFs.Owns (smallFs.volume smallCard) loc l →
        smallFs.Node (smallFs.volume d') path loc ∧ smallFs.Owns (smallFs.volume d') loc l :=
  writeFile_keeps_structure wellFormed_smallCard (by decide)
    (by rw [volume_smallCard]; exact callable_small _ _ (by decide) (by decide))

/-- Without the bound on the cluster numbers, a write to `A` removes `B`. -/
theorem writeFile_hugeCard : hugeFs.WellFormed (hugeFs.volume hugeCard) ∧ hugeFs.CopiesAgree hugeCard ∧
    hugeFs.Callable (hugeFs.volume hugeCard) fileA zeros513 ∧
    hugeFs.Node (hugeFs.volume hugeCard) [fileB] ⟨2, 0, 0⟩ ∧
    ∃ d', (hugeFs.writeFile fileA zeros513).run hugeCard = (.ok (), d') ∧
      ¬ hugeFs.Node (hugeFs.volume d') [fileB] ⟨2, 0, 0⟩ := by
  obtain ⟨d', hrun, hnode, _⟩ := huge_zeros513
  rw [volume_hugeCard]
  exact ⟨wellFormed_huge.1, copiesAgree_card, callable_huge, wellFormed_huge.2.1, d', hrun, hnode _ _⟩

/-! ## Failing blocks -/

/-- The card as a call leaves it when the block operations chosen by `faults` fail. -/
def faultyWrite (fs : Fat32) (faults : Nat → Option SdError) (name : Name) (data : List UInt8) (d : Disk) : Disk :=
  ((fs.writeFile name data).runFaults (fun i => (faults i).map fun e => .err (.sd e)) 0 d).2.2

/-- Whichever block operations fail during a call, every other file and subdirectory keeps its entry, its chain and
its contents. -/
theorem faultyWrite_isolated (hwf : fs.WellFormed (fs.volume d)) (ha : fs.Addressable)
    (hc : fs.Callable (fs.volume d) name data) (faults : Nat → Option SdError) {path : List Name} {loc : Loc}
    {l : List Nat} (hpath : path ≠ [name]) (hn : fs.Node (fs.volume d) path loc)
    (ho : fs.Owns (fs.volume d) loc l) :
    fs.Node (fs.volume (fs.faultyWrite faults name data d)) path loc ∧
      (fs.volume (fs.faultyWrite faults name data d)).entry loc = (fs.volume d).entry loc ∧
      fs.Owns (fs.volume (fs.faultyWrite faults name data d)) loc l ∧
      fs.content (fs.volume (fs.faultyWrite faults name data d)) l = fs.content (fs.volume d) l := by
  obtain ⟨T, hpres, hT⟩ := runFaults_preserves hwf ha hc (fun i => (faults i).map fun e => .err (.sd e)) 0
  have hloc := hT path loc hpath hn
  exact ⟨(hpres.node hloc).mpr hn, hpres.entry hloc hn, hpres.owns hloc hn ho,
    content_congr fun c hcl s => hpres.data hloc hn ho hcl⟩

theorem faultyWrite_isolated_small :
    smallFs.content (smallFs.volume (smallFs.faultyWrite (fun i => if i = 9 then some .timeout else none) fileB
      [1, 2, 3] smallCard)) [3, 4] = smallFs.content (smallFs.volume smallCard) [3, 4] :=
  (faultyWrite_isolated wellFormed_smallCard
    (by decide) (by rw [volume_smallCard]; exact callable_small _ _ (by decide) (by decide)) _ (by decide)
    (by rw [volume_smallCard]; exact wellFormed_small.2.1 : smallFs.Node _ [fileA] ⟨2, 0, 0⟩)
    (by rw [volume_smallCard]; exact wellFormed_small.2.2.2.1)).2.2.2

/-- Without the bound on the cluster numbers, a write to `A` removes `B` even if nothing fails. -/
theorem faultyWrite_hugeCard : hugeFs.WellFormed (hugeFs.volume hugeCard) ∧
    hugeFs.Callable (hugeFs.volume hugeCard) fileA zeros513 ∧
    hugeFs.Node (hugeFs.volume hugeCard) [fileB] ⟨2, 0, 0⟩ ∧
    ¬ hugeFs.Node (hugeFs.volume (hugeFs.faultyWrite (fun _ => none) fileA zeros513 hugeCard)) [fileB] ⟨2, 0, 0⟩ := by
  obtain ⟨d', hrun, hnode, _⟩ := huge_zeros513
  have hd : hugeFs.faultyWrite (fun _ => none) fileA zeros513 hugeCard = d' := by
    have hnone := (hugeFs.writeFile fileA zeros513).runFaults_of_none
      (fun i => ((fun _ => none : Nat → Option SdError) i).map fun e => .err (.sd e)) (fun _ => rfl) 0 hugeCard
    rw [faultyWrite, hnone, hrun]
  rw [hd, volume_hugeCard]
  exact ⟨wellFormed_huge.1, callable_huge, wellFormed_huge.2.1, hnode _ _⟩

/-! ## Power loss -/

/-- No power loss during a call can leave a reachable cluster linking to a free one, exactly when the call shortens no
chain and no subdirectory that it overwrites comes to list what leads to a free cluster. -/
theorem crash_noDangling_iff (hwf : fs.WellFormed (fs.volume d)) (ha : fs.Addressable) (hname : name.Proper)
    (hlen : data.length < 2 ^ 32) :
    (∀ n, fs.NoDangling (fs.volume ((fs.writeFile name data).crash n d))) ↔
      (∀ l, fs.Clusters (fs.volume d) name l → l.length ≤ fs.clustersNeeded data) ∧
        fs.ListsNoFree (fs.volume d) name data := by
  obtain ⟨R, hR⟩ := hwf.root
  constructor
  · intro hsafe
    have hshort : ∀ l, fs.Clusters (fs.volume d) name l → l.length ≤ fs.clustersNeeded data := by
      rintro l (⟨loc, hn, ho⟩ | ⟨_, rfl⟩)
      · by_contra hlt
        have hlookup := (lookup_node hwf hR).mpr hn
        obtain ⟨n, hcrash⟩ := passes_writeFile hwf hR hlookup ho data hlen (Nat.lt_of_not_le hlt) d rfl
        refine dangling_setFat hwf hR hn ho (one_le_clustersNeeded hwf.geometry hlen) (Nat.lt_of_not_le hlt) ?_
        rw [← hcrash]
        exact hsafe n
      · exact Nat.zero_le _
    refine ⟨hshort, fun slot own hn ho hroom j => ?_⟩
    have ht : fs.Target (fs.volume d) R name own slot := .found ((lookup_node hwf hR).mpr hn) ho
    obtain ⟨n, hcrash⟩ := passes_writing hwf hR ha ht hlen hroom j d rfl
    have hj : fs.NoDangling (fs.overwritten (fs.volume d) own data j) := by
      have hn := hsafe n
      rwa [hcrash] at hn
    exact ((hn.rootSlot hwf hR hname).noDangling_overwritten hwf ha ho hlen hroom
      (hshort own (Or.inl ⟨slot, hn, ho⟩)) j).mp hj
  · rintro ⟨hshort, hlists⟩ n
    rcases place_or_stuck hwf hR name with ⟨base, R', own, slot, hp⟩ | hs
    · have hcut := (runs_writeFile hwf hR ha hp hlen d rfl).1 n
      have hle := hshort own (hp.clusters hwf hR)
      rcases hp.found_or_absent hwf hR hname with ⟨rfl, h, ho⟩ | habsent
      · rcases h.cut hwf ha ho hlen hle hcut with hwf' | ⟨hroom, j, hj⟩
        · exact hwf'.noDangling
        · rw [hj]
          exact (h.noDangling_overwritten hwf ha ho hlen hroom hle j).mpr (hlists slot own h.node ho hroom j)
      · exact (hcut.wellFormed hwf hR ha hp (notSubdir_of_absent habsent) hname hlen hle).noDangling
    · have hsame := (runs_writeFile_stuck (C := (· = fs.volume d)) hwf hR hs data rfl d rfl).1 n
      rw [hsame]
      exact hwf.noDangling

/-- A new file, and no data in the place of the empty subdirectory. -/
theorem crash_noDangling_iff_small :
    (∀ n, smallFs.NoDangling (smallFs.volume ((smallFs.writeFile fileB []).crash n smallCard))) ∧
      ∀ n, smallFs.NoDangling (smallFs.volume ((smallFs.writeFile fileA []).crash n dirCard)) := by
  obtain ⟨hwf, hn⟩ := wellFormed_dir
  rw [← volume_dirCard] at hwf
  constructor
  · refine (crash_noDangling_iff wellFormed_smallCard (by decide) (by decide) (by decide)).mpr ⟨?_,
      listsNoFree_of_notSubdir wellFormed_smallCard (by decide) (by decide) (notSubdir_smallCard fileB (by decide))⟩
    rw [volume_smallCard]
    rintro l (⟨loc, hloc, _⟩ | ⟨_, rfl⟩)
    · exact absurd hloc (absent_small (by decide) loc)
    · exact Nat.zero_le _
  · refine (crash_noDangling_iff hwf (by decide) (by decide) (by decide)).mpr ?_
    rw [volume_dirCard]
    refine ⟨fun l hl => ?_, fun slot own hslot ho _ j path loc hb hnode => ?_⟩
    · rw [hl.unique wellFormed_dir.1 (Or.inl ⟨_, hn, owns_dir⟩), clustersNeeded_nil geometry_smallFs]
      decide
    · rw [wellFormed_dir.1.root_unique hslot hn] at ho
      rw [ho.unique owns_dir, overwritten_dir] at hnode
      exact absurd hb (not_below_dir hnode)

/-- Cutting `A` to one cluster can leave it leading to a free cluster. -/
theorem crash_dangling_small : smallFs.WellFormed (smallFs.volume smallCard) ∧
    smallFs.Callable (smallFs.volume smallCard) fileA [] ∧
    ∃ n, ¬ smallFs.NoDangling (smallFs.volume ((smallFs.writeFile fileA []).crash n smallCard)) := by
  obtain ⟨hwf, hn, _, ho, _⟩ := wellFormed_small
  have hlookup := (lookup_node hwf chainAt_small).mpr hn
  obtain ⟨n, hcrash⟩ := passes_writeFile hwf chainAt_small hlookup ho [] (by decide)
    (by rw [clustersNeeded_nil geometry_smallFs]; decide) smallCard volume_smallCard
  rw [volume_smallCard]
  refine ⟨hwf, callable_small _ _ (by decide) (by decide), n, ?_⟩
  rw [hcrash]
  exact dangling_setFat hwf chainAt_small hn ho (by rw [clustersNeeded_nil geometry_smallFs])
    (by rw [clustersNeeded_nil geometry_smallFs]; decide)

/-! ## Lost clusters -/

/-- A call neither loses clusters nor finds lost ones, and one that fails leaves the free clusters free, apart from
one linked into the root. -/
def KeepsClusters (fs : Fat32) (v v' : Volume) (r : Except Stop Unit) : Prop :=
  fs.lost v' = fs.lost v ∧ (r = .error (.err .noSpace) → ∀ R R', fs.ChainAt v fs.rootCluster.toNat R →
    fs.ChainAt v' fs.rootCluster.toNat R' →
    (fs.freeList v').length + R'.length = (fs.freeList v).length + R.length)

/-- A call keeps the clusters exactly when the data fits and nothing below a subdirectory of the name has clusters, or
when it does not fit and no cluster is free for the file. -/
theorem run_keepsClusters_iff (name : Name) (data : List UInt8) (hwf : fs.WellFormed (fs.volume d))
    (ha : fs.Addressable) (hname : name.Proper) (hlen : data.length < 2 ^ 32) :
    ∃ r d', (fs.writeFile name data).run d = (r, d') ∧ (fs.KeepsClusters (fs.volume d) (fs.volume d') r ↔
      fs.Fits (fs.volume d) name data ∧ fs.Hollow (fs.volume d) name ∨ ¬ fs.Fits (fs.volume d) name data ∧
        ∀ R, fs.ChainAt (fs.volume d) fs.rootCluster.toNat R → fs.avail (fs.volume d) R name = 0) := by
  obtain ⟨R, hR⟩ := hwf.root
  rcases place_or_stuck hwf hR name with ⟨base, R', own, slot, hp⟩ | hs
  · have hrun := runs_writeFile hwf hR ha hp hlen
    obtain ⟨_, _, _, hv⟩ := hrun d rfl
    refine ⟨_, _, hrun.run_eq rfl, ?_⟩
    rw [hv, ← hp.room_iff hwf hR ha]
    by_cases hroom : fs.Room base own (fs.clustersNeeded data)
    · have hlost := hp.lost_outcome_iff hwf hR ha hname hlen hroom
      have hres : fs.result base own data ≠ .error (.err .noSpace) := by rw [result, if_pos hroom]; simp
      rw [KeepsClusters, hlost]
      simp only [hroom, hres, true_and, not_true_eq_false, false_and, or_false, false_imp_iff, and_true]
    · obtain ⟨hwfb, hRb, _⟩ := hp.preserves hwf hR ha
      have hlost := hp.lost_stopped hwf hR ha hroom
      have hempty : fs.freeList base = [] ↔ fs.avail (fs.volume d) R name = 0 := by
        rw [← hp.free_base hwf hR ha, List.length_eq_zero_iff]
      refine ⟨fun hkeep => Or.inr ⟨hroom, fun R₁ hR₁ => ?_⟩, fun hcond => ?_⟩
      · rw [hR₁.unique hR, ← hempty]
        refine List.eq_nil_iff_forall_not_mem.mpr fun c hc => ?_
        -- a cluster that was free is lost afterwards, but was not before
        have hnew : c ∈ fs.lost (fs.outcome base own slot name data) := by rw [hlost]; exact Or.inr hc
        rw [hkeep.1, ← hp.lost_base hwf hR ha, mem_lost hwfb hRb] at hnew
        exact hnew.2.1 (mem_freeList.mp hc).2
      · have hnil : fs.freeList base = [] := hempty.mpr ((hcond.resolve_left fun h => hroom h.1).2 R hR)
        have hout : fs.outcome base own slot name data = base := by rw [outcome, if_neg hroom, hnil]; rfl
        refine ⟨by rw [hout, hp.lost_base hwf hR ha], fun _ R₁ R₂ hR₁ hR₂ => ?_⟩
        rw [hout] at hR₂ ⊢
        rw [hR₁.unique hR, hR₂.unique hRb]
        exact hp.length_root hR ha
  · have hrun := runs_writeFile_stuck (C := fun _ => True) hwf hR hs data trivial
    obtain ⟨_, _, _, hv⟩ := hrun d rfl
    refine ⟨_, _, hrun.run_eq rfl, ?_⟩
    rw [hv]
    refine iff_of_true ⟨rfl, fun _ R₁ R₂ hR₁ hR₂ => by rw [hR₁.unique hR₂]⟩
      (Or.inr ⟨hs.not_fits hwf hR hlen, fun R₁ hR₁ => ?_⟩)
    rw [hR₁.unique hR]
    exact hs.avail_eq

theorem freeList_small : smallFs.freeList smallVolume = [5] := by
  refine freeList_single (by decide) (by decide) (fun c => ?_) chainAt_smallFile
  simp only [List.mem_cons, List.not_mem_nil, or_false]
  omega

theorem place_small {name : Name} (hne : name ≠ fileA) :
    smallFs.Place smallVolume [2] name smallVolume [2] [] ⟨2, 0, 1⟩ :=
  .here (target_single geometry_smallFs (by decide) (by decide) (by decide) (by decide) chainAt_smallFile hne)

theorem fits_small {name : Name} {data : List UInt8} (hne : name ≠ fileA) :
    smallFs.Fits smallVolume name data ↔ smallFs.clustersNeeded data ≤ 1 := by
  rw [← (place_small hne).room_iff wellFormed_small.1 chainAt_small (by decide), Room, freeList_small]
  rfl

/-- The empty subdirectory has nothing to lose. -/
theorem run_keepsClusters_dir : ∃ r d', (smallFs.writeFile fileA []).run dirCard = (r, d') ∧
    smallFs.KeepsClusters (smallFs.volume dirCard) (smallFs.volume d') r := by
  obtain ⟨hwf, hn⟩ := wellFormed_dir
  rw [← volume_dirCard] at hwf
  obtain ⟨r, d', hrun, hkeep⟩ := run_keepsClusters_iff fileA [] hwf (by decide) (by decide) (by decide)
  refine ⟨r, d', hrun, hkeep.mpr (Or.inl ?_)⟩
  rw [volume_dirCard]
  refine ⟨fun R own hR hcl => ?_, fun path loc l hb hnode _ => absurd hb (not_below_dir hnode)⟩
  rw [hcl.unique wellFormed_dir.1 (Or.inl ⟨_, hn, owns_dir⟩), clustersNeeded_nil geometry_smallFs]
  exact Nat.le_add_right 1 _

/-- A file of two clusters does not fit, and the one cluster that was free is lost. -/
theorem run_loses_small : smallFs.WellFormed (smallFs.volume smallCard) ∧
    smallFs.Callable (smallFs.volume smallCard) fileB zeros513 ∧
    ∃ d', (smallFs.writeFile fileB zeros513).run smallCard = (.error (.err .noSpace), d') ∧
      5 ∈ smallFs.lost (smallFs.volume d') ∧ 5 ∉ smallFs.lost (smallFs.volume smallCard) := by
  have hwf := wellFormed_small.1
  have hlen : zeros513.length < 2 ^ 32 := by rw [zeros513, List.length_replicate]; decide
  have hroom : ¬ smallFs.Room smallVolume [] (smallFs.clustersNeeded zeros513) := by
    have hcs : smallFs.clusterSizeBytes = 512 := rfl
    rw [Room, freeList_small, clustersNeeded_eq geometry_smallFs hlen, zeros513, List.length_replicate, hcs]
    decide
  have hp := place_small (show fileB ≠ fileA by decide)
  have hrun := runs_writeFile hwf chainAt_small (by decide) hp hlen
  obtain ⟨_, _, _, hv⟩ := hrun smallCard volume_smallCard
  have hres := hrun.run_eq volume_smallCard
  rw [result, if_neg hroom] at hres
  rw [volume_smallCard]
  refine ⟨hwf, callable_small _ _ (by decide) hlen, _, hres, ?_, ?_⟩
  · rw [hv, hp.lost_stopped hwf chainAt_small (by decide) hroom, freeList_small]
    exact Or.inr List.mem_cons_self
  · rw [mem_lost hwf chainAt_small]
    exact fun h => h.2.1 (mem_freeList.mp (by rw [freeList_small]; exact List.mem_cons_self)).2

end Fat32

end Ferro
