import Ferro.Fat32.Lemmas.Creation
import Ferro.Files.Theorems

/-!
# When `Open` fails

An `Open` that fails leaves the table of open files as it was. It can still have created a file, or have given a cluster
to the root directory.
-/

namespace Ferro

namespace Files

open Fat32 (fileA fileB smallFs smallCard volume_smallCard wellFormed_small)

variable {fs : Fat32} {s s' t : Files} {faults : Faults} {this : Nat} {path : Ptr16} {p : List UInt8} {mode : UInt64}
  {name : Name} {R : List Nat}

/-- An error status comes with the blocks of the card and the slots of the table as they were. -/
def NoEffect (s : Files) (reply : Option (Reply × Files)) : Prop :=
  ∀ status t, reply = some (.just status, t) → status ≠ .success → t.card = s.card ∧ t.files = s.files

/-- An `Open` with `EFI_FILE_MODE_CREATE` finds no file of that name, and then creates one although no slot is free, or
gives the last free cluster to a full root directory and has none for the file. -/
def CreatesInVain (fs : Fat32) (s : Files) (p : List UInt8) (mode : UInt64) : Prop :=
  mode &&& efiFileModeCreate ≠ 0 ∧ ∃ name R, to83OrNone p = some name ∧
    (∀ loc, ¬ fs.Node (fs.volume s.card) [name] loc) ∧ fs.ChainAt (fs.volume s.card) fs.rootCluster.toNat R ∧
    (((∀ k, (s.files.get k).inUse) ∧ fs.Fits (fs.volume s.card) name []) ∨
      (fs.RootFull (fs.volume s.card) R name ∧ (fs.freeList (fs.volume s.card)).length = 1))

theorem noEffect_just (s : Files) (status : EfiStatus) : NoEffect s (some (.just status, s)) := by
  intro _ _ he _
  cases he
  exact ⟨rfl, rfl⟩

theorem noEffect_opened (s : Files) (n : Nat) (t : Files) : NoEffect s (some (.opened n, t)) := by
  intro _ _ he
  cases he

theorem noEffect_card {card : Disk} {status : EfiStatus} (h : status ≠ .success) :
    NoEffect s (some (.just status, { s with card := card })) ↔ card = s.card :=
  ⟨fun hn => (hn _ _ rfl h).1, fun hc _ _ he _ => by cases he; exact ⟨hc, rfl⟩⟩

theorem Opened.noEffect {w : Bool} {r : Reply} (h : s.Opened w r s') : NoEffect s (some (r, s')) := by
  cases h with
  | refused _ => exact noEffect_just s _
  | new _ _ _ => exact noEffect_opened s _ _

/-- The slots are as they were whatever blocks fail. -/
theorem fileOpen_files {newHandle : OutPtr} {fileName : Option Ptr16} {status : EfiStatus}
    (h : s.step faults (.fileOpen this newHandle fileName mode) = some (.just status, t)) : t.files = s.files := by
  rw [step] at h
  generalize hr : Reply.just status = r at h
  rcases fileOpen_cases h with ⟨_, _, _, _, _, _, hopen⟩ | ⟨_, hopen⟩
  · cases hopen with
    | refused _ => rfl
    | found _ _ _ _ => cases hr
    | created _ _ _ _ => cases hr
  · cases hopen with
    | refused _ => rfl
    | new _ _ _ => cases hr

/-- A new file in the table, after a write to the card. -/
theorem noEffect_newFile {card : Disk} (buf : List UInt8) (forWrite : Bool) :
    NoEffect s (some (newFile { s with card := card } name buf forWrite)) ↔
      ((∀ k, (s.files.get k).inUse) → card = s.card) := by
  rcases newFile_cases (s := { s with card := card }) name buf forWrite with ⟨hall, hn⟩ | ⟨k, hk, hn⟩
  · rw [hn, noEffect_card (by decide)]
    exact ⟨fun h _ => h, fun h => h hall⟩
  · rw [hn]
    refine iff_of_true (noEffect_opened s _ _) fun hall => ?_
    have hused : (s.files.get k).inUse = false := hk
    rw [hall k] at hused
    cases hused

theorem createsInVain_iff (hR : fs.ChainAt (fs.volume s.card) fs.rootCluster.toNat R) (hname : to83OrNone p = some name)
    (hno : ∀ loc, ¬ fs.Node (fs.volume s.card) [name] loc) (hmode : mode &&& efiFileModeCreate ≠ 0) :
    CreatesInVain fs s p mode ↔ ((∀ k, (s.files.get k).inUse) ∧ fs.Fits (fs.volume s.card) name []) ∨
      (fs.RootFull (fs.volume s.card) R name ∧ (fs.freeList (fs.volume s.card)).length = 1) := by
  constructor
  · rintro ⟨_, name', R', hname', _, hR', h⟩
    cases hname.symm.trans hname'
    rwa [hR'.unique hR] at h
  · exact fun h => ⟨hmode, name, R, hname, hno, hR, h⟩

section

variable (hf : ∀ i, faults i = none) (hwf : fs.WellFormed (fs.volume s.card)) (ha : fs.Addressable)

include hf hwf ha

theorem openRootFile_noEffect_iff (hb : ∀ b ∈ p, PathByte b) :
    NoEffect s (s.openRootFile faults fs p mode) ↔ ¬ CreatesInVain fs s p mode := by
  obtain ⟨R, hR⟩ := hwf.root
  unfold openRootFile
  cases hname : to83OrNone p with
  | none =>
      refine iff_of_true (noEffect_just s _) ?_
      rintro ⟨_, name, _, h, _⟩
      cases hname.symm.trans h
  | some name =>
      simp only [exec_working hf, (fs.readOnly_readFile name maxFileBytes).run s.card]
      by_cases hno : ∀ loc, ¬ fs.Node (fs.volume s.card) [name] loc
      · have hread := (Fat32.runs_readFile_absent (C := fun _ => True) maxFileBytes hwf trivial hno s.card rfl).2.2.1
        simp only [hread, Stop.returned, Option.map_some, Option.bind_eq_bind, Option.bind_some]
        by_cases hmode : mode &&& efiFileModeCreate ≠ 0
        · have hwrite := Fat32.run_writeFile_absent hwf ha hR (to83_proper hname hb) hno
          rw [if_pos hmode]
          generalize (fs.writeFile name []).run s.card = res at hwrite ⊢
          obtain ⟨x, card⟩ := res
          have hvain : CreatesInVain fs s p mode ↔ ((∀ k, (s.files.get k).inUse) ∧ fs.Fits (fs.volume s.card) name []) ∨
              (fs.RootFull (fs.volume s.card) R name ∧ (fs.freeList (fs.volume s.card)).length = 1) :=
            createsInVain_iff hR hname hno hmode
          rw [hvain]
          rcases hwrite with ⟨rfl, hfits, hne⟩ | ⟨rfl, hfits, hiff⟩
          · -- the file is there, so there was a cluster for it
            refine (noEffect_newFile _ _).trans ⟨fun h hor => ?_, fun h hall => absurd (.inl ⟨hall, hfits⟩) h⟩
            rcases hor with ⟨hall, _⟩ | ⟨hfull, hone⟩
            · exact hne (h hall)
            · have hroom := hfits R [] hR (.inr ⟨hno, rfl⟩)
              rw [Fat32.avail, if_pos hfull, hone, Fat32.clustersNeeded_nil hwf.geometry] at hroom
              exact absurd hroom (by decide)
          · refine (noEffect_card (by decide)).trans (hiff.trans (not_congr ⟨.inr, fun h => ?_⟩))
            rcases h with ⟨_, h⟩ | h
            · exact absurd h hfits
            · exact h
        · rw [if_neg hmode]
          exact iff_of_true (noEffect_just s _) fun h => hmode h.1
      · obtain ⟨loc, hn⟩ : ∃ loc, fs.Node (fs.volume s.card) [name] loc := by
          by_contra h
          exact hno (not_exists.mp h)
        obtain ⟨l, ho⟩ := hwf.chains hn
        have hread := (Fat32.runs_readFile (C := fun _ => True) maxFileBytes hwf trivial hn ho s.card rfl).2.2.1
        simp only [hread, Stop.returned, Option.map_some, Option.bind_eq_bind, Option.bind_some]
        refine iff_of_true ((noEffect_newFile _ _).mpr fun _ => rfl) ?_
        rintro ⟨_, name', _, hname', habs, _⟩
        cases hname.symm.trans hname'
        exact habs loc hn

end

/-- With working I/O, an `Open` that fails has no effect unless it creates in vain. -/
theorem noEffect_iff (hf : ∀ i, faults i = none)
    (hvol : ∀ fs, s.context = some fs → fs.WellFormed (fs.volume s.card) ∧ fs.Addressable) (this : Nat)
    (newHandle : OutPtr) (fileName : Option Ptr16) (mode : UInt64) :
    NoEffect s (s.step faults (.fileOpen this newHandle fileName mode)) ↔
      ∀ path fs p, newHandle = true → fileName = some path → s.rootPath this path = some (fs, p) →
        ¬ CreatesInVain fs s p mode := by
  rcases s.rootPath_cases this newHandle fileName with ⟨path, fs, p, rfl, rfl, hroot⟩ | hno
  · obtain ⟨_, _, _, _, _, hctx, _⟩ := rootPath_eq_some.mp hroot
    obtain ⟨hwf, ha⟩ := hvol fs hctx
    rw [step, fileOpen_root hroot, openRootFile_noEffect_iff hf hwf ha (rootPath_bytes hroot)]
    constructor
    · intro h path' fs' p' _ hpath hroot'
      cases hpath
      cases hroot.symm.trans hroot'
      exact h
    · exact fun h => h path fs p rfl rfl hroot
  · refine iff_of_true (fun status t he hne => ?_) fun path fs p hnew hpath hq => ?_
    · exact Opened.noEffect (opened_fileOpen hno he) status t rfl hne
    · rw [hno path hnew hpath] at hq
      cases hq

/-- The path `B`. -/
def pathB : Ptr16 := fun i => if i = 0 then 0x42 else 0

/-- Without `EFI_FILE_MODE_CREATE` no file is made. -/
theorem openRootFile_absent (hf : ∀ i, faults i = none) (hwf : fs.WellFormed (fs.volume s.card))
    (hname : to83OrNone p = some name) (hno : ∀ loc, ¬ fs.Node (fs.volume s.card) [name] loc)
    (hmode : mode &&& efiFileModeCreate = 0) : s.openRootFile faults fs p mode = some (.just .notFound, s) := by
  have hread := (Fat32.runs_readFile_absent (C := fun _ => True) maxFileBytes hwf trivial hno s.card rfl).2.2.1
  rw [openRootFile, hname]
  simp only [exec_working hf, (fs.readOnly_readFile name maxFileBytes).run s.card, hread, Stop.returned, Option.map_some,
    Option.bind_eq_bind, Option.bind_some]
  exact if_neg (not_not.mpr hmode)

/-- `Open` of the path `B`, which is not on the card, for reading. -/
theorem noEffect_small : ∃ this s t, Rooted smallFs smallCard this s ∧
    s.step noFaults (.fileOpen this true (some pathB) 1) = some (.just .notFound, t) ∧
      t.card = s.card ∧ t.files = s.files := by
  obtain ⟨hwf, _⟩ := wellFormed_small
  have hno : ∀ loc, ¬ smallFs.Node _ [fileB] loc := Fat32.absent_small (by decide)
  rw [← volume_smallCard] at hwf hno
  obtain ⟨this, s, h⟩ := exists_rooted hwf
  rw [← h.card] at hwf hno
  obtain ⟨parent, dir, raw, hparent, hdir, hctx, _, hraw, hstart, _⟩ := rootPath_eq_some.mp h.root
  cases hraw
  obtain rfl : dir = smallFs.rootCluster.toNat := congrArg Prod.fst hstart
  have hroot : s.rootPath this pathB = some (smallFs, [0x42]) :=
    rootPath_eq_some.mpr ⟨parent, _, [0x42], hparent, hdir, hctx, rfl, rfl, rfl, rfl⟩
  have hstep : s.step noFaults (.fileOpen this true (some pathB) 1) = some (.just .notFound, s) :=
    (fileOpen_root hroot).trans (openRootFile_absent noFaults_none hwf (by decide) hno (by decide))
  have hvol : ∀ fs, s.context = some fs → fs.WellFormed (fs.volume s.card) ∧ fs.Addressable := fun fs hfs => by
    cases hctx.symm.trans hfs
    exact ⟨hwf, by decide⟩
  have hno := (noEffect_iff noFaults_none hvol this true (some pathB) 1).mpr fun _ _ _ _ _ _ hvain =>
    absurd hvain.1 (by decide)
  exact ⟨this, s, s, h, hstep, hno _ _ hstep (by decide)⟩

/-! ## A full table -/

/-- A state of a run in which every slot is a handle of the root directory. -/
structure FullOfRoots (fs : Fat32) (card : Disk) (s : Files) : Prop where
  reachable : Reachable s
  context : s.context = some fs
  card : s.card = card
  inUse (k : Fin maxOpenFiles) : (s.files.get k).inUse
  root (k : Fin maxOpenFiles) : (s.files.get k).dirCluster = some fs.rootCluster.toNat

/-- `OpenVolume` is called until the table is full. -/
theorem exists_fullOfRoots {card : Disk} (hwf : fs.WellFormed (fs.volume card)) : ∃ s, FullOfRoots fs card s := by
  have hfill : ∀ n s, Reachable s → s.context = some fs → s.card = card →
      (∀ k, (s.files.get k).inUse → (s.files.get k).dirCluster = some fs.rootCluster.toNat) →
      (Finset.univ.filter fun k => (s.files.get k).inUse = false).card = n → ∃ s, FullOfRoots fs card s := by
    intro n
    induction n with
    | zero =>
        intro s hr hctx hcard hdir hn
        have hused : ∀ k, (s.files.get k).inUse := fun k => by
          have hk := Finset.filter_eq_empty_iff.mp (Finset.card_eq_zero.mp hn) (Finset.mem_univ k)
          simpa using hk
        exact ⟨s, hr, hctx, hcard, hused, fun k => hdir k (hused k)⟩
    | succ n ih =>
        intro s hr hctx hcard hdir hn
        obtain ⟨k, hk⟩ : (Finset.univ.filter fun k => (s.files.get k).inUse = false).Nonempty :=
          Finset.card_pos.mp (by omega)
        obtain ⟨k, entries, hfree, hstep⟩ := openVolume_opened (s := s) noFaults_none hctx
          (by rw [hcard]; exact hwf) ⟨k, (Finset.mem_filter.mp hk).2⟩
        refine ih _ (hr.step hstep) hctx hcard (fun j hj => ?_) ?_
        · by_cases hjk : j = k
          · rw [hjk, setFile_get_self]
            rfl
          · rw [setFile_get_of_ne hjk] at hj ⊢
            exact hdir j hj
        · have herase : (Finset.univ.filter fun j =>
              ((s.setFile k (.freshDir fs.rootCluster.toNat entries)).files.get j).inUse = false) =
              (Finset.univ.filter fun j => (s.files.get j).inUse = false).erase k := by
            ext j
            simp only [Finset.mem_filter, Finset.mem_univ, true_and, Finset.mem_erase]
            by_cases hjk : j = k
            · rw [hjk, setFile_get_self]
              exact iff_of_false (fun h => by cases h) fun h => h.1 rfl
            · rw [setFile_get_of_ne hjk]
              exact ⟨fun h => ⟨hjk, h⟩, fun h => h.2⟩
          rw [herase, Finset.card_erase_of_mem (Finset.mem_filter.mpr ⟨Finset.mem_univ k, hfree⟩), hn]
          rfl
  exact hfill _ (init (some fs) card) (.init _ _) rfl rfl (fun k hk => by cases hk) rfl

/-- The file `B` is created although there is no slot for it. -/
theorem not_noEffect_full : ∃ s status t, FullOfRoots smallFs smallCard s ∧ smallFs.WellFormed (smallFs.volume s.card) ∧
    s.step noFaults (.fileOpen 0 true (some pathB) efiFileModeCreate) = some (.just status, t) ∧ status ≠ .success ∧
    t.card ≠ s.card ∧ ¬ NoEffect s (s.step noFaults (.fileOpen 0 true (some pathB) efiFileModeCreate)) := by
  obtain ⟨hwf, _⟩ := wellFormed_small
  have hno : ∀ loc, ¬ smallFs.Node _ [fileB] loc := Fat32.absent_small (by decide)
  have hfits : smallFs.Fits _ fileB [] := (Fat32.fits_small (by decide)).mpr (by decide)
  have hR := Fat32.chainAt_small
  rw [← volume_smallCard] at hwf hno hfits hR
  obtain ⟨s, h⟩ := exists_fullOfRoots hwf
  rw [← h.card] at hwf hno hfits hR
  have hroot : s.rootPath 0 pathB = some (smallFs, [0x42]) :=
    rootPath_eq_some.mpr ⟨⟨0, by decide⟩, _, [0x42], thisToIndex_eq_some.mpr ⟨rfl, h.inUse _⟩, h.root _, h.context, rfl,
      rfl, rfl, rfl⟩
  have hvain : CreatesInVain smallFs s [0x42] efiFileModeCreate :=
    ⟨by decide, fileB, _, by decide, hno, hR, .inl ⟨h.inUse, hfits⟩⟩
  have hnot : ¬ NoEffect s (s.step noFaults (.fileOpen 0 true (some pathB) efiFileModeCreate)) := by
    rw [step, fileOpen_root hroot, openRootFile_noEffect_iff noFaults_none hwf
      (by decide) (rootPath_bytes hroot)]
    exact not_not.mpr hvain
  obtain ⟨status, t, hstep, hne, hcard⟩ : ∃ status t, s.step noFaults (.fileOpen 0 true (some pathB) efiFileModeCreate) =
      some (.just status, t) ∧ status ≠ .success ∧ t.card ≠ s.card := by
    simp only [NoEffect, not_forall] at hnot
    obtain ⟨status, t, hstep, hne, h⟩ := hnot
    exact ⟨status, t, hstep, hne, fun hc => h ⟨hc, fileOpen_files hstep⟩⟩
  exact ⟨s, status, t, h, hwf, hstep, hne, hcard, hnot⟩

end Files

end Ferro
