import Ferro.Files.Theorems
import Ferro.Files.Lemmas.Subdirs

/-!
# Subdirectories and the file protocol

Which calls leave the subdirectories alone, and when an `Open` under the root agrees with `resolve_from`.
-/

namespace Ferro

namespace Files

open Fat32 (fileA fileB smallFs smallCard smallVolume volume_smallCard wellFormed_smallCard notSubdir_smallCard
  geometry_smallFs dirVolume dirCard volume_dirCard chainAt_dirA wellFormed_dir entry_dir chainAt_dir owns_dir lookup_dir)

variable {fs : Fat32} {s s' : Files} {log : List Made} {this : Nat} {path : Ptr16} {p : List UInt8} {mode : UInt64}
  {name : Name}

/-! ## Subdirectories survive -/

/-- In a run of orderly calls, every subdirectory and everything in it is still there afterwards, with the same entry,
and reads back the same. Blocks may fail in the last call. -/
theorem subdirs_survive (hreach : Reachable s) (hctx : s.context = some fs) (hwf : fs.WellFormed (fs.volume s.card))
    (ha : fs.Addressable) (hrun : Run s log s') (ho : ∀ m ∈ log, Orderly fs m)
    (hq : ∀ m ∈ log.dropLast, ∀ w, m.request = some w → w.Quiet m.faults m.before.card) :
    ∀ path loc, Sheltered fs (fs.volume s.card) path loc →
      let e := (fs.volume s.card).entry loc
      fs.Node (fs.volume s'.card) path loc ∧ (fs.volume s'.card).entry loc = e ∧
      ∀ outLen, ((fs.readFrom e.firstCluster e.size outLen).run s'.card).1 =
        ((fs.readFrom e.firstCluster e.size outLen).run s.card).1 := by
  intro path loc h
  have hs := hrun.survives ha ⟨hctx, hreach.valid, hwf⟩ ho hq h
  obtain ⟨l, hl⟩ := hwf.chains h.1
  exact ⟨hs.node, hs.entry, hs.read hwf.geometry hl⟩

theorem writeFile_of_run {name : Name} {data : List UInt8} {x : Except Stop Unit} {d : Disk} {r : Except Fat32Error Unit}
    (hctx : s.context = some fs) (hrun : (fs.writeFile name data).run s.card = (x, d)) (hr : Stop.returned x = some r) :
    s.step noFaults (.writeFile name data) = some (.wrote (some r), { s with card := d }) := by
  simp only [step, writeFile, hctx, exec_working noFaults_none, hrun, hr]
  rfl

theorem notSubdir_dirB : smallFs.NotSubdir dirVolume fileB := by
  intro loc h
  have hslot : loc = ⟨2, 0, 0⟩ := Fat32.node_subdir chainAt_dirA h
  have hname := ((Fat32.node_singleton chainAt_dir).mp h).2
  rw [hslot, entry_dir, Fat32.dirEntry.name_eq] at hname
  exact absurd hname (by decide)

theorem subdirs_survive_small : ∃ r s', (init (some smallFs) dirCard).step noFaults (.writeFile fileB []) =
      some (.wrote (some r), s') ∧ smallFs.Node (smallFs.volume s'.card) [fileA] ⟨2, 0, 0⟩ ∧
    (smallFs.volume s'.card).entry ⟨2, 0, 0⟩ = Fat32.dirEntry fileA 3 := by
  obtain ⟨hwf, hn⟩ := wellFormed_dir
  have hdir := notSubdir_dirB
  have he := entry_dir
  rw [← volume_dirCard] at hwf hn hdir he
  have hover := Fat32.run_overwrites hwf (by decide) ⟨by decide, hdir, (by decide : ([] : List UInt8).length < 2 ^ 32)⟩
  generalize hrun : (smallFs.writeFile fileB []).run dirCard = x at hover
  obtain ⟨x, d⟩ := x
  obtain ⟨r, hr⟩ : ∃ r, Stop.returned x = some r := by
    rcases hover.result with rfl | rfl <;> exact ⟨_, rfl⟩
  have hstep := writeFile_of_run (s := init (some smallFs) dirCard) rfl hrun hr
  have hlog : Run (init (some smallFs) dirCard) [⟨_, noFaults, .writeFile fileB [], _, _⟩] _ := ⟨rfl, hstep, rfl⟩
  have hA : Sheltered smallFs (smallFs.volume dirCard) [fileA] ⟨2, 0, 0⟩ :=
    ⟨hn, Or.inl (by rw [he]; exact Fat32.dirEntry.isDir_eq fileA 3)⟩
  have hsurv := subdirs_survive (.init (some smallFs) dirCard) rfl hwf (by decide) hlog ?_ (fun m hm => by cases hm) _ _ hA
  · exact ⟨r, _, hstep, hsurv.1, hsurv.2.1.trans he⟩
  · intro m hm
    rw [List.mem_singleton.mp hm]
    refine ⟨fun hw => ?_, fun hcall => ?_⟩
    · cases hw; exact hdir
    · cases hcall; decide

/-- A `write_file` under the name of the subdirectory turns it into a file. -/
theorem writeFile_removes_dir : smallFs.WellFormed (smallFs.volume dirCard) ∧
    smallFs.Node (smallFs.volume dirCard) [fileA] ⟨2, 0, 0⟩ ∧ ((smallFs.volume dirCard).entry ⟨2, 0, 0⟩).isDir ∧
    ∃ s', (init (some smallFs) dirCard).step noFaults (.writeFile fileA []) = some (.wrote (some (.ok ())), s') ∧
      ∀ loc, smallFs.Node (smallFs.volume s'.card) [fileA] loc → ¬ ((smallFs.volume s'.card).entry loc).isDir := by
  obtain ⟨hwf, hn⟩ := wellFormed_dir
  have hneed : smallFs.clustersNeeded [] = 1 := by decide
  have hroom : smallFs.Room dirVolume [3] (smallFs.clustersNeeded []) := by
    rw [Fat32.Room, hneed]
    exact Nat.le_add_right 1 _
  have hrun := Fat32.runs_writeFile hwf chainAt_dir (by decide) (.here (.found lookup_dir owns_dir))
    (by decide : ([] : List UInt8).length < 2 ^ 32)
  rw [Fat32.result, if_pos hroom, Fat32.outcome, if_pos hroom, Fat32.written] at hrun
  have hrun' := hrun.run_eq volume_dirCard
  obtain ⟨_, _, _, hv⟩ := hrun dirCard volume_dirCard
  generalize ((smallFs.writeFile fileA []).run dirCard).2 = d at hv hrun'
  have hag : dirVolume.AgreeOff _ ((smallFs.fitted dirVolume [3] (smallFs.clustersNeeded [])).fill
    (smallFs.sectors (smallFs.fittedChain dirVolume [3] (smallFs.clustersNeeded []))) []) :=
    Fat32.agreeOff_filled [] (Nat.le_of_eq hneed.symm)
  generalize ((smallFs.fitted dirVolume [3] (smallFs.clustersNeeded [])).fill _ []) = w at hag hv
  have h2 : ¬ (2 ∈ [3] ∨ 2 ∈ smallFs.freeList dirVolume) := by
    rintro (h | h)
    · exact absurd h (by decide)
    · exact chainAt_dir.fat_ne_zero List.mem_cons_self (Fat32.mem_freeList.mp h).2
  refine ⟨by rw [volume_dirCard]; exact hwf, by rw [volume_dirCard]; exact hn, ?_, _,
    writeFile_of_run rfl hrun' rfl, fun loc hloc => ?_⟩
  · rw [volume_dirCard, entry_dir]; exact Fat32.dirEntry.isDir_eq fileA 3
  · dsimp only at hloc ⊢
    have hR : smallFs.ChainAt (smallFs.volume d) smallFs.rootCluster.toNat [2] :=
      chainAt_dir.congr fun c hc => by rw [List.mem_singleton.mp hc, hv]; exact (hag 2 h2).1
    obtain ⟨hs, hlive⟩ := Fat32.mem_live ((Fat32.node_singleton hR).mp hloc).1
    obtain ⟨hc, hsec, hi⟩ := Fat32.mem_slots.mp hs
    rw [hv, Volume.entry_setEntry (by decide) hi (by simp)] at hlive ⊢
    by_cases hslot : loc = ⟨2, 0, 0⟩
    · have hfile :
          (newEntry fileA ((smallFs.fittedChain dirVolume [3] (smallFs.clustersNeeded [])).headD 0) 0).isDir = false :=
        newEntry.isDir_eq _ _ _
      rw [if_pos hslot]
      exact Bool.eq_false_iff.mp hfile
    · -- every other slot of the root is unused
      rw [if_neg hslot, Fat32.entry_congr ((hag loc.cluster (by rw [List.mem_singleton.mp hc]; exact h2)).2 _)] at hlive
      exact absurd (Fat32.isEnd_subdir chainAt_dirA.chain.nodup hsec hi hslot) (Fat32.DirEntry.not_isEnd_of_isLive hlive)

/-! ## The branch for the root -/

/-- The reply of an `Open` of `p` under the root is what `resolve_from` says: no handle if it fails, a handle of the
directory that it reports, or else one of the file that it reports, with its first 65536 bytes. -/
def Agrees (fs : Fat32) (s : Files) (p : List UInt8) (reply : Option (Reply × Files)) : Prop :=
  match ((fs.resolveFrom fs.rootCluster.toNat p).run s.card).1 with
  | .error _ => ∃ status s', reply = some (.just status, s') ∧ status ≠ .success
  | .ok (firstCluster, size, isDir) => ∃ (k : Fin maxOpenFiles) (s' : Files), reply = some (.opened k, s') ∧
      if isDir then
        let dirCluster := if firstCluster = 0 then fs.rootCluster.toNat else firstCluster
        (s'.files.get k).dirCluster = some dirCluster ∧
          ((fs.listDir dirCluster maxDirEntries).run s.card).1 = .ok (s'.files.get k).dirEntries
      else
        (s'.files.get k).dirCluster = none ∧
          ((fs.readFrom firstCluster size maxFileBytes).run s.card).1 = .ok (s'.files.get k).bytes

theorem create_of_readOnly (h : mode &&& (efiFileModeWrite ||| efiFileModeCreate) = 0) :
    mode &&& efiFileModeCreate = 0 := by
  have hcreate : (efiFileModeWrite ||| efiFileModeCreate) &&& efiFileModeCreate = efiFileModeCreate := by decide
  rw [← hcreate, ← UInt64.and_assoc, h, UInt64.zero_and]

theorem agrees_notFound {e : Stop} (hresolve : ((fs.resolveFrom fs.rootCluster.toNat p).run s.card).1 = .error e) :
    Agrees fs s p (some (.just .notFound, s)) := by
  rw [Agrees, hresolve]
  exact ⟨.notFound, s, rfl, by decide⟩

/-- A file handle is what `resolve_from` says unless that is a directory. -/
theorem agrees_file {loc : Loc} {l : List Nat} {k : Fin maxOpenFiles} (hg : fs.Geometry)
    (ho : fs.Owns (fs.volume s.card) loc l)
    (hresolve : ((fs.resolveFrom fs.rootCluster.toNat p).run s.card).1 = .ok (((fs.volume s.card).entry loc).firstCluster,
      ((fs.volume s.card).entry loc).size, ((fs.volume s.card).entry loc).isDir)) (forWrite : Bool) :
    Agrees fs s p (some (.opened k, s.setFile k (.fresh name (((fs.content (fs.volume s.card) l).take
      ((fs.volume s.card).entry loc).size).take 65536) forWrite))) ↔ ¬ ((fs.volume s.card).entry loc).isDir := by
  rw [Agrees, hresolve]
  dsimp only
  constructor
  · rintro ⟨k', s', he, h⟩ hdir
    obtain ⟨hk, rfl⟩ := Prod.mk.inj (Option.some.inj he)
    obtain rfl := Fin.ext (Reply.opened.inj hk)
    rw [if_pos hdir, setFile_get_self] at h
    cases h.1
  · intro hdir
    refine ⟨k, _, rfl, ?_⟩
    rw [if_neg hdir, setFile_get_self, OpenFile.bytes_fresh (List.length_take_le _ _)]
    refine ⟨rfl, ?_⟩
    rw [(Fat32.runs_readFrom (C := fun _ => True) hg trivial maxFileBytes ho s.card rfl).2.2.1, Fat32.fileBytes,
      List.take_take, Nat.min_comm]
    rfl

/-- An `Open` under the root for reading only agrees with `resolve_from` if and only if the path is not the name of a
subdirectory. -/
theorem open_agrees_iff (hroot : s.rootPath this path = some (fs, p)) (hwf : fs.WellFormed (fs.volume s.card))
    (hfree : ∃ k, (s.files.get k).inUse = false) (hmode : mode &&& (efiFileModeWrite ||| efiFileModeCreate) = 0) :
    Agrees fs s p (s.step noFaults (.fileOpen this true (some path) mode)) ↔
      ∀ name, to83OrNone p = some name → fs.NotSubdir (fs.volume s.card) name := by
  have hf : ∀ i, noFaults i = none := noFaults_none
  have hcreate := create_of_readOnly hmode
  obtain ⟨R, hR⟩ := hwf.root
  have hslash : (0x5C : UInt8) ∉ p := by
    obtain ⟨_, _, _, _, _, _, _, _, _, hp⟩ := rootPath_eq_some.mp hroot
    simpa using hp
  have hresolve := Fat32.run_resolveFrom hwf (rootPath_ne_nil hroot) hslash hR
  cases hname : to83OrNone p with
  | none =>
      have hname' : to83 p = none := hname
      rw [hname'] at hresolve
      rw [fileOpen_absent hf hroot (fun _ h => by rw [hname] at h; cases h) hcreate]
      exact iff_of_true (agrees_notFound hresolve) fun _ h => by cases h
  | some name =>
      have hname' : to83 p = some name := hname
      rw [hname'] at hresolve
      dsimp only at hresolve
      cases hlook : fs.lookup (fs.volume s.card) R name with
      | none =>
          have hno := (Fat32.lookup_absent hR).mp hlook
          have hread := (Fat32.runs_readFile_absent (C := fun _ => True) maxFileBytes hwf trivial hno s.card rfl).2.2.1
          rw [hlook] at hresolve
          rw [fileOpen_absent hf hroot (fun _ h => by rw [hname] at h; cases h; exact hread) hcreate]
          exact iff_of_true (agrees_notFound hresolve) fun _ h loc hn => by cases h; exact absurd hn (hno loc)
      | some loc =>
          have hn : fs.Node (fs.volume s.card) [name] loc := (Fat32.lookup_node hwf hR).mp hlook
          obtain ⟨l, ho⟩ := hwf.chains hn
          obtain ⟨k, _, hopen⟩ := fileOpen_found hf hfree hroot hname (Fat32.contents_of_node hwf hn ho) mode
          rw [hlook] at hresolve
          rw [hopen, agrees_file hwf.geometry ho hresolve]
          constructor
          · intro hdir _ h loc' hn'
            cases h
            rw [hwf.root_unique hn' hn]
            exact hdir
          · intro h
            exact h name rfl loc hn

theorem open_agrees_small : ∃ this s, Rooted smallFs smallCard this s ∧
    Agrees smallFs s [0x41] (s.step noFaults (.fileOpen this true (some pathA) 1)) := by
  have hwf := wellFormed_smallCard
  have hdir := notSubdir_smallCard fileA (by decide)
  obtain ⟨this, s, h⟩ := exists_rooted hwf
  refine ⟨this, s, h, ?_⟩
  rw [← h.card] at hwf hdir
  have hmode : (1 : UInt64) &&& (efiFileModeWrite ||| efiFileModeCreate) = 0 := by decide
  have hiff := open_agrees_iff h.root hwf h.exists_free hmode
  rw [hiff]
  intro name hname
  cases to83_pathA.symm.trans hname
  exact hdir

/-- The subdirectory `A` is opened as an empty file. -/
theorem open_disagrees_dir : ∃ (this : Nat) (s s' : Files) (k : Fin maxOpenFiles), Rooted smallFs dirCard this s ∧
    smallFs.WellFormed (smallFs.volume s.card) ∧
    ((smallFs.resolveFrom smallFs.rootCluster.toNat [0x41]).run s.card).1 = .ok (3, 0, true) ∧
    s.step noFaults (.fileOpen this true (some pathA) 1) = some (.opened k, s') ∧
    (s'.files.get k).dirCluster = none ∧
    ¬ Agrees smallFs s [0x41] (s.step noFaults (.fileOpen this true (some pathA) 1)) := by
  obtain ⟨hwf, hn⟩ := wellFormed_dir
  have hR := chainAt_dir
  have ho := owns_dir
  have hlook := lookup_dir
  have he := entry_dir
  rw [← volume_dirCard] at hwf hn hR ho hlook he
  obtain ⟨this, s, h⟩ := exists_rooted hwf
  rw [← h.card] at hwf hn hR ho hlook he
  have hresolve := Fat32.run_resolveFrom hwf (rootPath_ne_nil h.root) (by decide) hR
  have hname : to83 [0x41] = some fileA := to83_pathA
  rw [hname] at hresolve
  dsimp only at hresolve
  rw [hlook] at hresolve
  dsimp only at hresolve
  obtain ⟨k, _, hopen⟩ := fileOpen_found noFaults_none h.exists_free h.root to83_pathA
    (Fat32.contents_of_node hwf hn ho) 1
  refine ⟨this, s, _, k, h, hwf, ?_, hopen, by rw [setFile_get_self]; rfl, ?_⟩
  · rw [hresolve, he, Fat32.dirEntry.firstCluster_eq fileA (by decide), Fat32.dirEntry.size_eq,
      Fat32.dirEntry.isDir_eq fileA 3]
  · rw [hopen, agrees_file hwf.geometry ho hresolve, he]
    exact fun h => h (Fat32.dirEntry.isDir_eq fileA 3)

end Files

end Ferro
