import Ferro.Fat32.Lemmas.Read
import Ferro.Files.Lemmas.Slots

/-!
# What a call does

To the table: a call changes at most the slot it is made on, and an open may take a slot that is not in use. To the
card: a call makes at most one `write_file` (`request`), and apart from it only reads.
-/

namespace Ferro

theorem Stop.returned_ok {α : Type} {x : Except Stop α} {a : α} : Stop.returned x = some (.ok a) ↔ x = .ok a := by
  cases x with
  | ok b => simp [Stop.returned]
  | error e => cases e <;> simp [Stop.returned]

theorem Stop.returned_error {α : Type} {x : Except Stop α} {e : Fat32Error} :
    Stop.returned x = some (.error e) ↔ x = .error (.err e) := by
  cases x with
  | ok b => simp [Stop.returned]
  | error e => cases e <;> simp [Stop.returned]

namespace Files

variable {s s' : Files} {faults : Faults} {c : Call} {r : Reply} {i j this dir : Nat} {k slot : Fin maxOpenFiles}
  {f g : OpenFile} {fs : Fat32} {path : Ptr16} {p : List UInt8} {mode : UInt64} {name : Name} {buf : List UInt8}

/-! ## Card code -/

theorem exec_eq_some {α : Type} {p : CardM α} {r : Except Fat32Error α} (h : s.exec faults i p = some (r, j, s')) :
    ∃ x, Stop.returned x = some r ∧ p.runFaults faults.stop i s.card = (x, j, s'.card) ∧
      s' = { s with card := s'.card } := by
  unfold exec at h
  generalize p.runFaults faults.stop i s.card = res at h
  obtain ⟨x, i', card⟩ := res
  obtain ⟨r', hr, he⟩ := Option.map_eq_some_iff.mp h
  cases he
  exact ⟨x, hr, rfl, rfl⟩

theorem exec_readOnly {α : Type} {p : CardM α} {r : Except Fat32Error α} (hp : p.ReadOnly)
    (h : s.exec faults i p = some (r, j, s')) : s' = s := by
  obtain ⟨x, _, hrun, hs⟩ := exec_eq_some h
  have hcard : s'.card = s.card := by rw [← hp.runFaults i s.card, hrun]
  rw [hs, hcard]

/-! ## Slots -/

@[simp] theorem setFile_get_self : (s.setFile k f).files.get k = f := Arr.get_set_self _ _ _

theorem setFile_get_of_ne (h : k ≠ slot) : (s.setFile slot f).files.get k = s.files.get k := Arr.get_set_of_ne _ _ h

theorem eq_slot (hfree : (s.files.get k).inUse = false) (hu : ((s.setFile slot f).files.get k).inUse) : k = slot := by
  by_contra hne
  rw [setFile_get_of_ne hne, hfree] at hu
  cases hu

theorem setFile_setFile : (s.setFile k f).setFile k g = s.setFile k g := by
  simp [setFile, Arr.set]

theorem setFile_get : s.setFile k (s.files.get k) = s := by
  simp [setFile, Arr.set]

theorem thisToIndex_eq_some : s.thisToIndex this = some k ↔ this = k ∧ (s.files.get k).inUse := by
  unfold thisToIndex
  constructor
  · intro h
    split at h
    · split at h
      · cases h; exact ⟨rfl, ‹_›⟩
      · cases h
    · cases h
  · rintro ⟨rfl, hu⟩
    rw [dif_pos k.isLt, if_pos hu]

theorem allocSlot_cases : ((∀ k, (s.files.get k).inUse) ∧ s.allocSlot = none) ∨
    ∃ slot, (s.files.get slot).inUse = false ∧
      s.allocSlot = some (slot, s.setFile slot { emptyFile with inUse := true }) := by
  unfold allocSlot
  cases h : s.files.find? fun f => !f.inUse with
  | none => exact Or.inl ⟨fun k => by simpa using Arr.find?_eq_none.mp h k, rfl⟩
  | some slot => exact Or.inr ⟨slot, by simpa using Arr.find?_eq_some h, rfl⟩

/-- What an open does to the table: nothing, or a slot that is not in use gets a file or directory. -/
inductive Opened (s : Files) (forWrite : Bool) : Reply → Files → Prop where
  | refused {status : EfiStatus} (h : status ≠ .success) : Opened s forWrite (.just status) s
  | new {slot : Fin maxOpenFiles} {f : OpenFile} (hfree : (s.files.get slot).inUse = false) (hv : f.Valid)
      (hw : f.forWrite = forWrite) : Opened s forWrite (.opened slot) (s.setFile slot f)

theorem newFile_cases (name : Name) (buf : List UInt8) (forWrite : Bool) :
    ((∀ k, (s.files.get k).inUse) ∧ s.newFile name buf forWrite = (.just .outOfResources, s)) ∨
      ∃ slot, (s.files.get slot).inUse = false ∧
        s.newFile name buf forWrite = (.opened slot, s.setFile slot (.fresh name buf forWrite)) := by
  unfold newFile
  rcases s.allocSlot_cases with ⟨hall, hn⟩ | ⟨slot, hfree, ha⟩
  · exact Or.inl ⟨hall, by rw [hn]⟩
  · refine Or.inr ⟨slot, hfree, ?_⟩
    simp only [ha, setFile_get_self, setFile_setFile]
    rfl

theorem opened_newFile {forWrite : Bool} (hlen : buf.length ≤ 65536) (hp : forWrite → name.Proper)
    (h : s.newFile name buf forWrite = (r, s')) : s.Opened forWrite r s' := by
  rcases s.newFile_cases name buf forWrite with ⟨_, hn⟩ | ⟨slot, hfree, hn⟩
  · rw [hn] at h; cases h; exact .refused (by decide)
  · rw [hn] at h; cases h; exact .new hfree (OpenFile.valid_fresh hlen hp) rfl

theorem opened_openedDir (h : s.openedDir faults i fs dir = some (r, s')) : s.Opened false r s' := by
  unfold openedDir openDir at h
  rcases s.allocSlot_cases with ⟨_, hn⟩ | ⟨slot, hfree, ha⟩
  · rw [hn] at h
    cases h
    exact .refused (by decide)
  · rw [ha] at h
    dsimp only at h
    obtain ⟨x, hx, h⟩ := Option.bind_eq_some_iff.mp h
    obtain ⟨⟨l, j, t⟩, hl, hx⟩ := Option.bind_eq_some_iff.mp hx
    have ht := exec_readOnly (fs.readOnly_listDir _ _) hl
    subst ht
    cases hx
    simp only [setFile_get_self, setFile_setFile] at h
    cases h
    exact .new hfree (OpenFile.valid_freshDir dir _) rfl

/-! ## Opening -/

theorem Opened.card {forWrite : Bool} (h : s.Opened forWrite r s') : s'.card = s.card := by cases h <;> rfl

theorem rootPath_eq_some : s.rootPath this path = some (fs, p) ↔ ∃ parent dir raw, s.thisToIndex this = some parent ∧
    (s.files.get parent).dirCluster = some dir ∧ s.context = some fs ∧ isRootPath path = false ∧
    char16PathToAscii path = some raw ∧ startOf fs dir raw = (fs.rootCluster.toNat, p) ∧ p.contains 0x5C = false := by
  unfold rootPath
  constructor
  · intro h
    obtain ⟨parent, hparent, h⟩ := Option.bind_eq_some_iff.mp h
    obtain ⟨dir, hdir, h⟩ := Option.bind_eq_some_iff.mp h
    obtain ⟨fs', hfs, h⟩ := Option.bind_eq_some_iff.mp h
    split at h
    · cases h
    · rename_i hroot
      obtain ⟨raw, hraw, h⟩ := Option.bind_eq_some_iff.mp h
      dsimp only at h
      split at h
      · rename_i hone
        cases h
        simp only [Bool.and_eq_true, Bool.not_eq_true', decide_eq_true_eq] at hone
        exact ⟨parent, dir, raw, hparent, hdir, hfs, by simpa using hroot, hraw, Prod.ext hone.2 rfl, hone.1⟩
      · cases h
  · rintro ⟨parent, dir, raw, hparent, hdir, hfs, hroot, hraw, hstart, hone⟩
    simp only [hparent, hdir, hfs, hroot, hraw, Option.bind_eq_bind, Option.bind_some, Bool.false_eq_true, if_false,
      hstart, hone, Bool.not_false, decide_true, Bool.and_self, if_true]

/-- The branch for a single component under the root. -/
theorem fileOpen_root (h : s.rootPath this path = some (fs, p)) :
    s.fileOpen faults this true (some path) mode = s.openRootFile faults fs p mode := by
  obtain ⟨parent, dir, raw, hparent, hdir, hfs, hroot, hraw, hstart, hone⟩ := rootPath_eq_some.mp h
  simp only [fileOpen, hparent, hdir, hfs, hroot, hraw, hstart, hone, Bool.not_true, Bool.not_false, Bool.false_eq_true,
    if_false, decide_true, Bool.and_self, if_true]

theorem rootPath_bytes (h : s.rootPath this path = some (fs, p)) : ∀ b ∈ p, PathByte b := by
  obtain ⟨_, dir, raw, _, _, _, _, hraw, hstart, _⟩ := rootPath_eq_some.mp h
  have hb := startOf_bytes fs dir (char16PathToAscii_bytes hraw)
  rwa [hstart] at hb

theorem opened_openPath {start : Nat} (h : s.openPath faults fs start p mode = some (r, s')) : s.Opened false r s' := by
  unfold openPath at h
  split at h
  · cases h; exact .refused (by decide)
  · obtain ⟨⟨x, i, t⟩, hx, h⟩ := Option.bind_eq_some_iff.mp h
    obtain rfl := exec_readOnly (fs.readOnly_resolveFrom _ _) hx
    cases x with
    | error e => cases h; exact .refused (by decide)
    | ok found =>
        obtain ⟨first, size, isDir⟩ := found
        dsimp only at h
        split at h
        · exact opened_openedDir h
        · obtain ⟨⟨y, j, t'⟩, hy, h⟩ := Option.bind_eq_some_iff.mp h
          obtain rfl := exec_readOnly (fs.readOnly_readFrom _ _ _) hy
          cases y with
          | error e => cases h; exact .refused (by decide)
          | ok buf =>
              obtain ⟨z, hz, hrun, _⟩ := exec_eq_some hy
              obtain rfl := Stop.returned_ok.mp hz
              have hlen : buf.length ≤ 65536 := (fs.returns_readFrom first size _).runFaults (congrArg Prod.fst hrun)
              exact opened_newFile hlen (by simp) (Option.some.inj h)

theorem opened_fileOpen {newHandle : OutPtr} {fileName : Option Ptr16}
    (hno : ∀ path, newHandle = true → fileName = some path → s.rootPath this path = none)
    (h : s.fileOpen faults this newHandle fileName mode = some (r, s')) : s.Opened false r s' := by
  unfold fileOpen at h
  cases fileName with
  | none => cases h; exact .refused (by decide)
  | some path =>
      cases newHandle with
      | false => cases h; exact .refused (by decide)
      | true =>
          have hnone := hno path rfl rfl
          simp only [Bool.not_true, Bool.false_eq_true, if_false] at h
          cases hparent : s.thisToIndex this with
          | none => rw [hparent] at h; cases h; exact .refused (by decide)
          | some parent =>
              rw [hparent] at h
              cases hdir : (s.files.get parent).dirCluster with
              | none => simp only [hdir] at h; cases h; exact .refused (by decide)
              | some dir =>
                  simp only [hdir] at h
                  cases hfs : s.context with
                  | none => rw [hfs] at h; cases h; exact .refused (by decide)
                  | some fs =>
                      rw [hfs] at h
                      dsimp only at h
                      split at h
                      · exact opened_openedDir h
                      · rename_i hroot
                        cases hraw : char16PathToAscii path with
                        | none => rw [hraw] at h; cases h; exact .refused (by decide)
                        | some raw =>
                            rw [hraw] at h
                            dsimp only at h
                            split at h
                            · rename_i hone
                              simp only [Bool.and_eq_true, Bool.not_eq_true', decide_eq_true_eq] at hone
                              have hsome := rootPath_eq_some.mpr ⟨parent, dir, raw, hparent, hdir, hfs,
                                by simpa using hroot, hraw, Prod.ext hone.2 rfl, hone.1⟩
                              rw [hnone] at hsome
                              cases hsome
                            · exact opened_openPath h

/-- The card after a call that makes the given `write_file`, or none. -/
def cardAfter (s : Files) (faults : Faults) : Option Write → Disk
  | none => s.card
  | some w => (w.run faults s.card).2.2

/-- What the branch for a single component under the root does: it refuses, or finds the file, or makes it. -/
inductive OpenedRoot (s : Files) (faults : Faults) (fs : Fat32) (p : List UInt8) (mode : UInt64) :
    Reply → Files → Prop where
  | refused {status : EfiStatus} (h : status ≠ .success) : OpenedRoot s faults fs p mode (.just status)
      { s with card := s.cardAfter faults (s.createWrite faults fs p mode) }
  | found {name : Name} {buf : List UInt8} {i : Nat} {slot : Fin maxOpenFiles} (hname : to83OrNone p = some name)
      (hread : (fs.readFile name maxFileBytes).runFaults faults.stop 0 s.card = (.ok buf, i, s.card))
      (hno : s.createWrite faults fs p mode = none) (hfree : (s.files.get slot).inUse = false) :
      OpenedRoot s faults fs p mode (.opened slot) (s.setFile slot (.fresh name buf (mode &&& efiFileModeWrite ≠ 0)))
  | created {name : Name} {i : Nat} {slot : Fin maxOpenFiles} (hname : to83OrNone p = some name)
      (hw : s.createWrite faults fs p mode = some ⟨fs, name, [], i⟩)
      (hok : (Write.run ⟨fs, name, [], i⟩ faults s.card).1 = .ok ()) (hfree : (s.files.get slot).inUse = false) :
      OpenedRoot s faults fs p mode (.opened slot) (setFile { s with card := s.cardAfter faults (some ⟨fs, name, [], i⟩) }
        slot (.fresh name [] (mode &&& efiFileModeWrite ≠ 0)))

theorem openedRoot (h : s.openRootFile faults fs p mode = some (r, s')) : OpenedRoot s faults fs p mode r s' := by
  have hrefused : s.createWrite faults fs p mode = none → ∀ {status : EfiStatus}, status ≠ .success →
      OpenedRoot s faults fs p mode (.just status) s := by
    intro hno status hne
    have hr : OpenedRoot s faults fs p mode (.just status) _ := .refused hne
    rwa [hno] at hr
  unfold openRootFile at h
  cases hname : to83OrNone p with
  | none =>
      rw [hname] at h
      cases h
      exact hrefused (by rw [createWrite, hname]; rfl) (by decide)
  | some name =>
      rw [hname] at h
      obtain ⟨⟨x, i, t⟩, hx, h⟩ := Option.bind_eq_some_iff.mp h
      obtain rfl := exec_readOnly (fs.readOnly_readFile _ _) hx
      cases x with
      | ok buf =>
          have hcreate : t.createWrite faults fs p mode = none := by
            simp only [createWrite, hname, Option.bind_eq_bind, Option.bind_some, hx]
          obtain ⟨z, hz, hrun, _⟩ := exec_eq_some hx
          obtain rfl := Stop.returned_ok.mp hz
          rcases t.newFile_cases name buf (mode &&& efiFileModeWrite ≠ 0) with ⟨_, hn⟩ | ⟨slot, hfree, hn⟩
          · cases (Option.some.inj h).symm.trans hn
            exact hrefused hcreate (by decide)
          · cases (Option.some.inj h).symm.trans hn
            exact .found hname hrun hcreate hfree
      | error e =>
          have hcreate : t.createWrite faults fs p mode =
              if mode &&& efiFileModeCreate ≠ 0 then some ⟨fs, name, [], i⟩ else none := by
            simp only [createWrite, hname, Option.bind_eq_bind, Option.bind_some, hx]
          dsimp only at h
          split at h
          · rename_i hmode
            rw [if_pos hmode] at hcreate
            obtain ⟨⟨y, j, t'⟩, hy, h⟩ := Option.bind_eq_some_iff.mp h
            obtain ⟨z, hz, hrun, hs⟩ := exec_eq_some hy
            have hcard : t'.card = t.cardAfter faults (some ⟨fs, name, [], i⟩) := by
              simp only [cardAfter, Write.run, hrun]
            have hs' : t' = { t with card := t.cardAfter faults (t.createWrite faults fs p mode) } := by
              rw [hs, hcard, hcreate]
            cases y with
            | error e =>
                cases h
                rw [hs']
                exact .refused (by decide)
            | ok u =>
                obtain rfl := Stop.returned_ok.mp hz
                rcases t'.newFile_cases name [] (mode &&& efiFileModeWrite ≠ 0) with ⟨_, hn⟩ | ⟨slot, hfree, hn⟩
                · cases (Option.some.inj h).symm.trans hn
                  rw [hs']
                  exact .refused (by decide)
                · cases (Option.some.inj h).symm.trans hn
                  rw [hs', hcreate]
                  rw [hs'] at hfree
                  exact .created hname hcreate (congrArg Prod.fst hrun) hfree
          · rename_i hmode
            cases h
            rw [if_neg hmode] at hcreate
            exact hrefused hcreate (by decide)

/-- A call of `file_open` is for a single component under the root, or not. -/
theorem rootPath_cases (s : Files) (this : Nat) (newHandle : OutPtr) (fileName : Option Ptr16) :
    (∃ path fs p, newHandle = true ∧ fileName = some path ∧ s.rootPath this path = some (fs, p)) ∨
      ∀ path, newHandle = true → fileName = some path → s.rootPath this path = none := by
  by_cases hroot : ∃ path fs p, newHandle = true ∧ fileName = some path ∧ s.rootPath this path = some (fs, p)
  · exact .inl hroot
  · refine .inr fun path hnew hpath => ?_
    cases hq : s.rootPath this path with
    | none => rfl
    | some q => exact absurd ⟨path, q.1, q.2, hnew, hpath, hq⟩ hroot

theorem fileOpen_cases {newHandle : OutPtr} {fileName : Option Ptr16}
    (h : s.fileOpen faults this newHandle fileName mode = some (r, s')) :
    (∃ path fs p, newHandle = true ∧ fileName = some path ∧ s.rootPath this path = some (fs, p) ∧
      OpenedRoot s faults fs p mode r s') ∨
      ((∀ path, newHandle = true → fileName = some path → s.rootPath this path = none) ∧ s.Opened false r s') := by
  rcases s.rootPath_cases this newHandle fileName with ⟨path, fs, p, rfl, rfl, hroot⟩ | hno
  · rw [fileOpen_root hroot] at h
    exact .inl ⟨path, fs, p, rfl, rfl, hroot, openedRoot h⟩
  · exact .inr ⟨hno, opened_fileOpen hno h⟩

theorem request_fileOpen_none {newHandle : OutPtr} {fileName : Option Ptr16}
    (hno : ∀ path, newHandle = true → fileName = some path → s.rootPath this path = none) :
    s.request faults (.fileOpen this newHandle fileName mode) = none := by
  cases newHandle with
  | false => rfl
  | true =>
      cases fileName with
      | none => rfl
      | some path =>
          simp only [request, hno path rfl rfl]
          rfl

/-! ## Flushing -/

/-- The slot after a flush. -/
def flushed (f : OpenFile) : OpenFile := { f with dirty := f.dirty && !f.forWrite }

theorem flushed_of_dirty (hd : (f.forWrite && f.dirty) = true) : flushed f = { f with dirty := false } := by
  rw [Bool.and_eq_true] at hd
  rw [flushed, hd.1, Bool.not_true, Bool.and_false]

theorem flushed_of_clean (hd : (f.forWrite && f.dirty) = false) : flushed f = f := by
  obtain ⟨_, _, _, _, _, _, dirty, forWrite, _, _⟩ := f
  cases forWrite with
  | false => simp [flushed]
  | true => cases hd; rfl

theorem flushWrite_eq (hk : s.thisToIndex this = some k) : s.flushWrite this =
    if (s.files.get k).forWrite && (s.files.get k).dirty then
      s.context.map fun fs => ⟨fs, (s.files.get k).name83, (s.files.get k).bytes, 0⟩
    else none := by
  unfold flushWrite
  simp only [hk, Option.bind_eq_bind, Option.bind_some]
  cases s.context with
  | none => split <;> rfl
  | some fs => rfl

theorem flushIfDirty_eq (hk : s.thisToIndex this = some k) (h : s.flushIfDirty faults k = some s') :
    s' = setFile { s with card := s.cardAfter faults (s.flushWrite this) } k (flushed (s.files.get k)) := by
  rw [flushWrite_eq hk]
  unfold flushIfDirty at h
  cases hd : (s.files.get k).forWrite && (s.files.get k).dirty with
  | false =>
      simp only [hd] at h
      cases h
      rw [flushed_of_clean hd]
      exact setFile_get.symm
  | true =>
      simp only [hd, if_true] at h ⊢
      rw [flushed_of_dirty hd]
      obtain ⟨files, context, card⟩ := s
      cases context with
      | none => cases h; rfl
      | some fs =>
          obtain ⟨⟨x, j, t⟩, hx, h⟩ := Option.bind_eq_some_iff.mp h
          obtain ⟨y, _, hrun, ht⟩ := exec_eq_some hx
          have hcard : cardAfter ⟨files, some fs, card⟩ faults
              (some ⟨fs, (files.get k).name83, (files.get k).bytes, 0⟩) = t.card := by
            simp only [cardAfter, Write.run]
            exact congrArg (fun x => x.2.2) hrun
          cases h
          simp only [Option.map_some, hcard]
          rw [← ht]

theorem flushWrite_none (hk : s.thisToIndex this = none) : s.flushWrite this = none := by
  unfold flushWrite
  rw [hk]
  rfl

theorem fileFlush_eq (hk : s.thisToIndex this = some k) (h : s.fileFlush faults this = some (r, s')) :
    r = .just .success ∧
      s' = setFile { s with card := s.cardAfter faults (s.flushWrite this) } k (flushed (s.files.get k)) := by
  unfold fileFlush at h
  rw [hk] at h
  obtain ⟨t, ht, h⟩ := Option.bind_eq_some_iff.mp h
  cases h
  exact ⟨rfl, flushIfDirty_eq hk ht⟩

theorem fileClose_eq (hk : s.thisToIndex this = some k) (h : s.fileClose faults this = some (r, s')) :
    r = .just .success ∧ s' = setFile { s with card := s.cardAfter faults (s.flushWrite this) } k
      { flushed (s.files.get k) with inUse := false } := by
  unfold fileClose at h
  rw [hk] at h
  obtain ⟨t, ht, h⟩ := Option.bind_eq_some_iff.mp h
  cases h
  rw [flushIfDirty_eq hk ht, setFile_get_self, setFile_setFile]
  exact ⟨rfl, rfl⟩

/-! ## Any call -/

/-- What a call does to the slot it is made on. A handle for writing is clean afterwards only if it was before or
has been flushed. -/
structure Edits (c : Call) (k : Fin maxOpenFiles) (f f' : OpenFile) : Prop where
  valid : f.Valid → f'.Valid
  clean : f'.inUse → f'.forWrite → f'.dirty = false → f.inUse ∧ f.forWrite ∧ f'.name83 = f.name83 ∧
    f'.bytes = f.bytes ∧ (f.dirty → c = .fileFlush k)

/-- What a call does to the table: nothing, or it changes the slot it is made on, or it takes a slot that is not in
use. -/
inductive Moved (s : Files) (c : Call) : Files → Prop where
  | same : Moved s c s
  | taken {slot : Fin maxOpenFiles} {f : OpenFile} (hfree : (s.files.get slot).inUse = false) (hv : f.Valid)
      (hw : f.forWrite → ∃ this path mode q, c = .fileOpen this true (some path) mode ∧
        mode &&& efiFileModeWrite ≠ 0 ∧ s.rootPath this path = some q) : Moved s c (s.setFile slot f)
  | edited {k : Fin maxOpenFiles} {f : OpenFile} (hk : c.this = some k.val) (he : Edits c k (s.files.get k) f) :
      Moved s c (s.setFile k f)

/-- Another position. -/
theorem edits_move {n j : Nat} (hv : f.Valid → OpenFile.Valid { f with pos := n, dirIndex := j }) :
    Edits c k f { f with pos := n, dirIndex := j } :=
  ⟨hv, fun hu hw hd => ⟨hu, hw, rfl, rfl, fun h => Bool.noConfusion (hd.symm.trans h)⟩⟩

theorem Opened.moved (h : s.Opened false r s') : s.Moved c s' := by
  cases h with
  | refused _ => exact .same
  | new hfree hv hw => exact .taken hfree hv fun h => Bool.noConfusion (hw.symm.trans h)

theorem Moved.card (h : s.Moved c s') : s'.card = s.card := by cases h <;> rfl

theorem Moved.context (h : s.Moved c s') : s'.context = s.context := by cases h <;> rfl

theorem Moved.still (h : s.Moved c s') : s'.card = s.card ∧ Moved { s with card := s'.card } c s' :=
  ⟨h.card, by rw [h.card]; exact h⟩

theorem OpenedRoot.moved (hroot : s.rootPath this path = some (fs, p)) (h : OpenedRoot s faults fs p mode r s') :
    s'.card = s.cardAfter faults (s.createWrite faults fs p mode) ∧
      Moved { s with card := s'.card } (.fileOpen this true (some path) mode) s' := by
  have hp := rootPath_bytes hroot
  have hmode : ∀ {name : Name} {buf : List UInt8}, (OpenFile.fresh name buf (mode &&& efiFileModeWrite ≠ 0)).forWrite →
      ∃ this' path' mode' q, Call.fileOpen this true (some path) mode = .fileOpen this' true (some path') mode' ∧
        mode' &&& efiFileModeWrite ≠ 0 ∧ rootPath { s with card := s'.card } this' path' = some q :=
    fun hw => ⟨this, path, mode, _, rfl, of_decide_eq_true hw, hroot⟩
  cases h with
  | refused _ => exact ⟨rfl, .same⟩
  | @found name buf i slot hname hread hno hfree =>
      have hlen : buf.length ≤ 65536 := (fs.returns_readFile name _).runFaults (congrArg Prod.fst hread)
      rw [hno]
      exact ⟨rfl, .taken hfree (OpenFile.valid_fresh hlen fun _ => to83_proper hname hp) hmode⟩
  | created hname hw _ hfree =>
      rw [hw]
      exact ⟨rfl, .taken hfree (OpenFile.valid_fresh (Nat.zero_le _) fun _ => to83_proper hname hp) hmode⟩

theorem fileOpen_moved {newHandle : OutPtr} {fileName : Option Ptr16}
    (h : s.fileOpen faults this newHandle fileName mode = some (r, s')) :
    s'.card = s.cardAfter faults (s.request faults (.fileOpen this newHandle fileName mode)) ∧
      Moved { s with card := s'.card } (.fileOpen this newHandle fileName mode) s' := by
  rcases fileOpen_cases h with ⟨path, fs, p, rfl, rfl, hroot, hopen⟩ | ⟨hno, hopen⟩
  · simp only [request, hroot]
    exact hopen.moved hroot
  · rw [request_fileOpen_none hno]
    exact hopen.moved.still

theorem fileClose_moved (hc : c.this = some this) (h : s.fileClose faults this = some (r, s')) :
    s'.card = s.cardAfter faults (s.flushWrite this) ∧ Moved { s with card := s'.card } c s' := by
  cases hk : s.thisToIndex this with
  | none =>
      unfold fileClose at h
      rw [hk] at h
      cases h
      rw [flushWrite_none hk]
      exact ⟨rfl, .same⟩
  | some k =>
      obtain ⟨_, rfl⟩ := fileClose_eq hk h
      have hv : (s.files.get k).Valid → OpenFile.Valid { flushed (s.files.get k) with inUse := false } :=
        fun hv => ⟨hv.len_le, hv.pos_le, hv.zeros, hv.proper⟩
      exact ⟨rfl, .edited (by rw [hc, (thisToIndex_eq_some.mp hk).1]) ⟨hv, fun hu => by cases hu⟩⟩

theorem fileFlush_moved (h : s.fileFlush faults this = some (r, s')) :
    s'.card = s.cardAfter faults (s.flushWrite this) ∧ Moved { s with card := s'.card } (.fileFlush this) s' := by
  cases hk : s.thisToIndex this with
  | none =>
      unfold fileFlush at h
      rw [hk] at h
      cases h
      rw [flushWrite_none hk]
      exact ⟨rfl, .same⟩
  | some k =>
      obtain ⟨_, rfl⟩ := fileFlush_eq hk h
      obtain ⟨rfl, _⟩ := thisToIndex_eq_some.mp hk
      exact ⟨rfl, .edited rfl ⟨fun hv => ⟨hv.len_le, hv.pos_le, hv.zeros, hv.proper⟩,
        fun hu hw _ => ⟨hu, hw, rfl, rfl, fun _ => rfl⟩⟩⟩

theorem readDir_moved (hc : c.this = some k.val) (n : UInt64) : Moved s c (s.readDir k n).2 := by
  unfold readDir
  dsimp only
  split
  · exact .same
  · split
    · exact .edited hc (edits_move fun hv => ⟨hv.len_le, hv.pos_le, hv.zeros, hv.proper⟩)
    · exact .same

theorem fileRead_moved (hc : c.this = some this) (size : Option UInt64) (buffer : OutPtr) :
    Moved s c (s.fileRead this size buffer).2 := by
  unfold fileRead
  split
  · split
    · exact .same
    · rename_i k hk
      have hc' : c.this = some k.val := by rw [hc, (thisToIndex_eq_some.mp hk).1]
      dsimp only
      split
      · exact readDir_moved hc' _
      · refine .edited hc' (edits_move fun hv => ⟨hv.len_le, ?_, hv.zeros, hv.proper⟩)
        have := hv.len_le
        have := hv.pos_le
        dsimp only
        omega
  · exact .same

theorem length_rawParts (n : Nat) (ptr : Ptr8) : (rawParts n (some ptr)).length = n := by
  simp [rawParts]

theorem pos_add_of_le {pos n : Nat} (hpos : pos ≤ 65536) (hn : n < 2 ^ 64) (hle : (pos + n) % 2 ^ 64 ≤ 65536)
    (hge : pos ≤ (pos + n) % 2 ^ 64) : (pos + n) % 2 ^ 64 = pos + n := by
  omega

theorem fileWrite_moved (hc : c.this = some this) {size : Option UInt64} {buffer : Option Ptr8}
    (h : s.fileWrite this size buffer = some (r, s')) : Moved s c s' := by
  unfold fileWrite at h
  split at h
  · rename_i n ptr
    split at h
    · cases h; exact .same
    · rename_i k hk
      have hc' : c.this = some k.val := by rw [hc, (thisToIndex_eq_some.mp hk).1]
      dsimp only at h
      split at h
      · cases h; exact .same
      · split at h
        · cases h; exact .same
        · split at h
          · cases h; exact .same
          · split at h
            · cases h
            · rename_i hle hge
              cases h
              refine .edited hc' ⟨fun hv => ?_, fun _ _ hd => by cases hd⟩
              have he := pos_add_of_le hv.pos_le n.toNat_lt (Nat.le_of_not_lt hle) (Nat.le_of_not_lt hge)
              have hlen := length_rawParts n.toNat ptr
              have hend : (s.files.get k).pos + (rawParts n.toNat (some ptr)).length ≤ 65536 := by
                rw [hlen, ← he]
                exact Nat.le_of_not_lt hle
              have hw := OpenFile.valid_write hv hend
              rw [he]
              rw [hlen] at hw
              exact hw
  · cases h; exact .same

theorem fileSetPosition_moved (hc : c.this = some this) (position : UInt64) :
    Moved s c (s.fileSetPosition this position).2 := by
  unfold fileSetPosition
  split
  · exact .same
  · rename_i k hk
    have hc' : c.this = some k.val := by rw [hc, (thisToIndex_eq_some.mp hk).1]
    dsimp only
    split
    · split
      · exact .edited hc' (edits_move fun hv => ⟨hv.len_le, hv.pos_le, hv.zeros, hv.proper⟩)
      · exact .same
    · split
      · exact .edited hc' (edits_move fun hv => ⟨hv.len_le, hv.len_le, hv.zeros, hv.proper⟩)
      · split
        · exact .same
        · rename_i hle
          exact .edited hc' (edits_move fun hv => ⟨hv.len_le, Nat.le_of_not_lt hle, hv.zeros, hv.proper⟩)

theorem step_moved (h : s.step faults c = some (r, s')) :
    s'.card = s.cardAfter faults (s.request faults c) ∧ Moved { s with card := s'.card } c s' := by
  cases c with
  | openVolume root =>
      have hopen : s.Opened false r s' := by
        simp only [step, openVolume] at h
        split at h
        · cases h; exact .refused (by decide)
        · split at h
          · cases h; exact .refused (by decide)
          · exact opened_openedDir h
      exact ⟨hopen.card, by rw [hopen.card]; exact hopen.moved⟩
  | fileOpen this newHandle fileName mode => exact fileOpen_moved h
  | fileClose this => exact fileClose_moved rfl h
  | fileDelete this =>
      obtain ⟨⟨r', t⟩, ht, h⟩ := Option.bind_eq_some_iff.mp h
      cases h
      exact fileClose_moved rfl ht
  | fileRead this size buffer =>
      have hm : Moved s (.fileRead this size buffer) (s.fileRead this size buffer).2 := fileRead_moved rfl size buffer
      rw [Option.some.inj h] at hm
      exact hm.still
  | fileWrite this size buffer => exact (fileWrite_moved rfl h).still
  | fileGetPosition this position => cases h; exact ⟨rfl, .same⟩
  | fileSetPosition this position =>
      have hm : Moved s (.fileSetPosition this position) (s.fileSetPosition this position).2 :=
        fileSetPosition_moved rfl position
      rw [Option.some.inj h] at hm
      exact hm.still
  | fileGetInfo this guid size buffer =>
      obtain ⟨_, _, h⟩ := Option.map_eq_some_iff.mp h
      cases h
      exact ⟨rfl, .same⟩
  | fileSetInfo this => cases h; exact ⟨rfl, .same⟩
  | fileFlush this => exact fileFlush_moved h
  | writeFile name data =>
      simp only [step, writeFile] at h
      rcases Option.eq_none_or_eq_some s.context with hc | ⟨fs, hc⟩
      · rw [hc] at h
        cases h
        exact ⟨by simp only [request, hc, Option.map_none, cardAfter], .same⟩
      · rw [hc] at h
        obtain ⟨⟨x, j, t⟩, hx, h⟩ := Option.bind_eq_some_iff.mp h
        obtain ⟨y, _, hrun, ht⟩ := exec_eq_some hx
        cases h
        refine ⟨by simp only [request, hc, Option.map_some, cardAfter, Write.run, hrun], ?_⟩
        rw [← ht]
        exact .same

/-! ## Consequences -/

theorem step_card (h : s.step faults c = some (r, s')) : s'.card = s.cardAfter faults (s.request faults c) :=
  (step_moved h).1

theorem step_context (h : s.step faults c = some (r, s')) : s'.context = s.context := (step_moved h).2.context

/-- A slot in use is left alone by the calls that are not made on it. -/
theorem step_slot (h : s.step faults c = some (r, s')) (hu : (s.files.get k).inUse) (hc : c.this ≠ some k.val) :
    s'.files.get k = s.files.get k := by
  have hm := (step_moved h).2
  generalize s'.card = card at hm
  cases hm with
  | same => rfl
  | @taken slot f hfree hv hw =>
      refine setFile_get_of_ne ?_
      rintro rfl
      rw [show (s.files.get k).inUse = false from hfree] at hu
      cases hu
  | @edited slot f hk he =>
      refine setFile_get_of_ne ?_
      rintro rfl
      exact hc hk

theorem step_valid (h : s.step faults c = some (r, s')) (hv : ∀ k, (s.files.get k).Valid) (k : Fin maxOpenFiles) :
    (s'.files.get k).Valid := by
  have hset : ∀ (t : Files) (slot : Fin maxOpenFiles) (f : OpenFile), (∀ k, (t.files.get k).Valid) → f.Valid →
      ((t.setFile slot f).files.get k).Valid := by
    intro t slot f ht hf
    by_cases hks : k = slot
    · subst hks; rw [setFile_get_self]; exact hf
    · rw [setFile_get_of_ne hks]; exact ht k
  have hm := (step_moved h).2
  generalize s'.card = card at hm
  cases hm with
  | same => exact hv k
  | taken _ hf _ => exact hset _ _ _ hv hf
  | edited _ he => exact hset _ _ _ hv (he.valid (hv _))

end Files

end Ferro
