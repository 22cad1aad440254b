import Ferro.Files.FailedOpen

/-!
# When blocks fail during `Open`

`Open` with `EFI_FILE_MODE_CREATE` takes every error of `read_file` for a file that is not there, and creates it. If the
file is there and a block has failed, what is in it is lost.
-/

namespace Ferro

namespace Files

open Fat32 (fileA smallFs smallCard smallVolume volume_smallCard wellFormed_smallCard)

variable {fs : Fat32} {s s' : Files} {faults : Faults} {this : Nat} {newHandle : OutPtr} {fileName : Option Ptr16}
  {path : Ptr16} {p : List UInt8} {mode : UInt64} {name : Name} {r : Reply}

/-- The call is an `Open` with `EFI_FILE_MODE_CREATE` of a name under the root that is not absent and not the name of an
empty file, and there is a cluster for an empty file in its place. -/
structure Endangers (fs : Fat32) (s : Files) (this : Nat) (newHandle : OutPtr) (fileName : Option Ptr16) (mode : UInt64)
    (name : Name) : Prop where
  path : ∃ path p, newHandle = true ∧ fileName = some path ∧ s.rootPath this path = some (fs, p) ∧
    to83OrNone p = some name
  create : mode &&& efiFileModeCreate ≠ 0
  present : ∃ loc, fs.Node (fs.volume s.card) [name] loc
  notEmpty : ¬ fs.HasFile s.card [name] []
  fits : fs.Fits (fs.volume s.card) name []

/-- No block operation of the `read_file` fails. -/
def ReadsQuietly (fs : Fat32) (s : Files) (faults : Faults) (name : Name) : Prop :=
  ∀ j < (fs.readFile name maxFileBytes).ops s.card, faults j = none

theorem stop_eq_none {i : Nat} : faults.stop i = none ↔ faults i = none := by
  rw [Faults.stop, Option.map_eq_none_iff]

/-- A file is created only after `read_file` has failed. -/
theorem createWrite_eq_some {w : Write} (h : s.createWrite faults fs p mode = some w) :
    ∃ name e, to83OrNone p = some name ∧ mode &&& efiFileModeCreate ≠ 0 ∧ w = ⟨fs, name, [], w.start⟩ ∧
      ((fs.readFile name maxFileBytes).runFaults faults.stop 0 s.card).1 = .error e := by
  unfold createWrite at h
  obtain ⟨name, hname, h⟩ := Option.bind_eq_some_iff.mp h
  obtain ⟨⟨x, i, t⟩, hx, h⟩ := Option.bind_eq_some_iff.mp h
  cases x with
  | ok buf => cases h
  | error e =>
      dsimp only at h
      split at h
      · rename_i hmode
        cases h
        obtain ⟨z, hz, hrun, _⟩ := exec_eq_some hx
        obtain rfl := Stop.returned_error.mp hz
        exact ⟨name, _, hname, hmode, rfl, congrArg Prod.fst hrun⟩
      · cases h

/-- And it is, if a block operation of `read_file` has failed. -/
theorem createWrite_of_fault (h : s.openRootFile faults fs p mode = some (r, s')) (hname : to83OrNone p = some name)
    (hmode : mode &&& efiFileModeCreate ≠ 0) (hfault : ¬ ReadsQuietly fs s faults name) :
    ∃ i, s.createWrite faults fs p mode = some ⟨fs, name, [], i⟩ := by
  unfold openRootFile at h
  rw [hname] at h
  obtain ⟨⟨x, i, t⟩, hx, _⟩ := Option.bind_eq_some_iff.mp h
  cases x with
  | ok buf =>
      obtain ⟨z, hz, hrun, _⟩ := exec_eq_some hx
      obtain rfl := Stop.returned_ok.mp hz
      refine absurd (fun j hj => ?_) hfault
      have hquiet := Prog.ops_of_runFaults_ok (congrArg Prod.fst hrun) j hj
      rw [Nat.zero_add] at hquiet
      exact stop_eq_none.mp hquiet
  | error e =>
      refine ⟨i, ?_⟩
      simp only [createWrite, hname, hx, Option.bind_eq_bind, Option.bind_some]
      exact if_pos hmode

theorem fileOpen_request {w : Write} (h : s.request faults (.fileOpen this newHandle fileName mode) = some w) :
    ∃ path fs p, newHandle = true ∧ fileName = some path ∧ s.rootPath this path = some (fs, p) ∧
      s.createWrite faults fs p mode = some w := by
  cases newHandle with
  | false => cases h
  | true =>
      cases fileName with
      | none => cases h
      | some path =>
          obtain ⟨⟨fs, p⟩, hroot, h⟩ := Option.bind_eq_some_iff.mp h
          exact ⟨path, fs, p, rfl, rfl, hroot, h⟩

section

variable (hctx : s.context = some fs) (hwf : fs.WellFormed (fs.volume s.card)) (ha : fs.Addressable)
  (h : s.step faults (.fileOpen this newHandle fileName mode) = some (r, s'))

include hctx hwf ha h

/-- Whatever blocks fail, no file is lost if `read_file` finds the file or the call does not endanger it. -/
theorem onlyAdds_of_quiet
    (hquiet : ∀ name, Endangers fs s this newHandle fileName mode name → ReadsQuietly fs s faults name) :
    fs.OnlyAdds (mode &&& efiFileModeCreate ≠ 0) s.card s'.card := by
  rw [step] at h
  have hcard := (fileOpen_moved h).1
  cases hreq : s.request faults (.fileOpen this newHandle fileName mode) with
  | none =>
      rw [hreq] at hcard
      rw [hcard]
      exact .refl _ _
  | some w =>
      obtain ⟨path, fs', p, hnew, hpath, hroot, hw⟩ := fileOpen_request hreq
      obtain ⟨_, _, _, _, _, hctx', _⟩ := rootPath_eq_some.mp hroot
      cases hctx.symm.trans hctx'
      obtain ⟨name, e, hname, hmode, he, hread⟩ := createWrite_eq_some hw
      have hproper := to83_proper hname (rootPath_bytes hroot)
      rw [hreq, he] at hcard
      rw [hcard]
      refine Fat32.runFaults_onlyAdds hwf ha hproper ?_ faults.stop w.start
      by_cases hno : ∀ loc, ¬ fs.Node (fs.volume s.card) [name] loc
      · exact .inl ⟨hmode, hno⟩
      · obtain ⟨loc, hn⟩ := not_forall_not.mp hno
        refine .inr (or_iff_not_imp_left.mpr fun hempty hfits => ?_)
        have hq := hquiet name ⟨⟨path, p, hnew, hpath, hroot, hname⟩, hmode, ⟨loc, hn⟩, hempty, hfits⟩
        obtain ⟨l, ho⟩ := hwf.chains hn
        have hok := (Fat32.runs_readFile (C := fun _ => True) maxFileBytes hwf trivial hn ho s.card rfl).2.2.1
        rw [Prog.runFaults_eq_run fun j hj => by rw [Nat.zero_add]; exact stop_eq_none.mpr (hq j hj)] at hread
        exact absurd (hok.symm.trans hread) (by simp)

omit hctx in
/-- If no block fails in the `write_file`, the file is lost in every other case. -/
theorem quiet_of_onlyAdds
    (hw : ∀ w, s.request faults (.fileOpen this newHandle fileName mode) = some w → w.Quiet faults s.card)
    (hadds : fs.OnlyAdds (mode &&& efiFileModeCreate ≠ 0) s.card s'.card)
    (hdanger : Endangers fs s this newHandle fileName mode name) : ReadsQuietly fs s faults name := by
  by_contra hfault
  rw [step] at h
  have hcard := (fileOpen_moved h).1
  obtain ⟨path, p, rfl, rfl, hroot, hname⟩ := hdanger.path
  have hopen := h
  rw [fileOpen_root hroot] at hopen
  obtain ⟨i, hcreate⟩ := createWrite_of_fault hopen hname hdanger.create hfault
  have hreq : s.request faults (.fileOpen this true (some path) mode) = some ⟨fs, name, [], i⟩ := by
    simp only [request, hroot, Option.bind_eq_bind, Option.bind_some]
    exact hcreate
  have hrun : s'.card = ((fs.writeFile name []).run s.card).2 := by
    rw [hcard, hreq, cardAfter, Write.run, Prog.runFaults_eq_run fun j hj => stop_eq_none.mpr (hw _ hreq j hj)]
  have hfile := Fat32.run_hasFile hwf ha (to83_proper hname (rootPath_bytes hroot)) hdanger.fits
  rw [← hrun] at hfile
  rcases hadds.added hfile with hwas | ⟨_, _, hno⟩
  · exact hdanger.notEmpty hwas
  · obtain ⟨loc, hn⟩ := hdanger.present
    exact hno loc hn

/-- `Open` only adds an empty file if every `read_file` of an endangered file meets no failing block, whatever other
blocks fail. If the `write_file` meets none, that condition is needed too. -/
theorem open_onlyAdds_iff :
    ((∀ name, Endangers fs s this newHandle fileName mode name → ReadsQuietly fs s faults name) →
      fs.OnlyAdds (mode &&& efiFileModeCreate ≠ 0) s.card s'.card) ∧
    ((∀ w, s.request faults (.fileOpen this newHandle fileName mode) = some w → w.Quiet faults s.card) →
      fs.OnlyAdds (mode &&& efiFileModeCreate ≠ 0) s.card s'.card →
        ∀ name, Endangers fs s this newHandle fileName mode name → ReadsQuietly fs s faults name) :=
  ⟨onlyAdds_of_quiet hctx hwf ha h, fun hw hadds _ => quiet_of_onlyAdds hwf ha h hw hadds⟩

end

/-! ## The small card -/

theorem open_onlyAdds_small : ∃ this s r s', Rooted smallFs smallCard this s ∧
    s.step noFaults (.fileOpen this true (some pathA) efiFileModeCreate) = some (r, s') ∧
    smallFs.OnlyAdds (efiFileModeCreate &&& efiFileModeCreate ≠ 0) s.card s'.card := by
  have hwf := wellFormed_smallCard
  obtain ⟨this, s, h⟩ := exists_rooted hwf
  have hc := contents_small
  rw [← h.card] at hwf hc
  obtain ⟨_, _, _, _, _, hctx, _⟩ := rootPath_eq_some.mp h.root
  obtain ⟨k, _, hopen⟩ := fileOpen_found noFaults_none h.exists_free h.root to83_pathA hc
    efiFileModeCreate
  exact ⟨this, s, _, _, h, hopen, (open_onlyAdds_iff hctx hwf (by decide) hopen).1 fun _ _ _ _ => rfl⟩

/-- Only the first block operation fails. -/
def firstFails : Faults := fun i => if i = 0 then some .timeout else none

theorem runFaults_readFile_firstFails (name : Name) (d : Disk) :
    (smallFs.readFile name maxFileBytes).runFaults firstFails.stop 0 d = (.error (.err (.sd .timeout)), 1, d) := by
  obtain ⟨m, hm⟩ : ∃ m, loopLimit = m + 1 := ⟨2 ^ 32 - 1, by decide⟩
  rw [Fat32.readFile, Fat32.findInDir, hm, Fat32.findLoop]
  rfl

/-- The first block read of `Open` fails, and the file `A` of 600 bytes is empty afterwards. -/
theorem open_loses_small : ∃ (this : Nat) (s s' : Files) (k : Fin maxOpenFiles), Rooted smallFs smallCard this s ∧
    smallFs.HasFile s.card [fileA] (List.replicate 600 0) ∧
    s.step firstFails (.fileOpen this true (some pathA) efiFileModeCreate) = some (.opened k, s') ∧
    smallFs.HasFile s'.card [fileA] [] ∧ ¬ smallFs.HasFile s'.card [fileA] (List.replicate 600 0) ∧
    ¬ smallFs.OnlyAdds (efiFileModeCreate &&& efiFileModeCreate ≠ 0) s.card s'.card := by
  have hwf := wellFormed_smallCard
  have hdir := Fat32.notSubdir_smallCard fileA (by decide)
  have hfits : smallFs.Fits smallVolume fileA [] := fits_smallA.mpr (by decide)
  rw [← volume_smallCard] at hfits
  obtain ⟨this, s, h⟩ := exists_rooted hwf
  have hc := contents_small
  rw [← h.card] at hwf hc hdir hfits
  have hold := hc.hasFile hwf hdir
  have hcall : smallFs.Callable (smallFs.volume s.card) fileA [] := ⟨by decide, hdir, by decide⟩
  have hover := Fat32.run_overwrites hwf (by decide) hcall
  have hnew := Fat32.run_hasFile hwf (by decide) (by decide) hfits
  have hquiet : ∀ j < (smallFs.writeFile fileA []).ops s.card, firstFails (1 + j) = none := fun j _ => by
    rw [Nat.add_comm]
    rfl
  have hwrite := exec_quiet hquiet
  generalize (smallFs.writeFile fileA []).run s.card = res at hover hnew hwrite
  obtain ⟨x, card⟩ := res
  obtain rfl : x = .ok () := hover.ok_iff.mpr hfits
  obtain ⟨k, _, hfile⟩ := newFile_of_free (s := { s with card := card }) h.exists_free fileA [] false
  have hread : s.exec firstFails 0 (smallFs.readFile fileA maxFileBytes) = some (.error (.sd .timeout), 1, s) := by
    unfold exec
    rw [runFaults_readFile_firstFails]
    rfl
  have hopen : s.step firstFails (.fileOpen this true (some pathA) efiFileModeCreate) =
      some (.opened k, setFile { s with card := card } k (.fresh fileA [] false)) := by
    rw [step, fileOpen_root h.root]
    simp only [openRootFile, to83_pathA, hread, Option.bind_eq_bind, Option.bind_some]
    rw [if_pos (by decide), hwrite]
    exact congrArg some hfile
  have hlost : ¬ smallFs.HasFile card [fileA] (List.replicate 600 0) := fun h =>
    absurd (congrArg List.length (h.unique hover.wellFormed hnew)) (by rw [List.length_replicate]; decide)
  exact ⟨this, s, _, k, h, hold, hopen, hnew, hlost, fun hadds => hlost (hadds.kept hold)⟩

end Files

end Ferro
