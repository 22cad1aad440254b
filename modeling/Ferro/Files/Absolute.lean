import Ferro.Fat32.Paths
import Ferro.Files.Directories

/-!
# Absolute paths

A path that begins with `\` starts from the root, whichever directory handle it is opened with. The path `\` alone is
taken for the directory of the handle, and a single component under the root for a file.
-/

namespace Ferro

namespace Files

open DirEntry

variable {fs : Fat32} {s s' : Files} {faults : Faults} {this this' dir dir' i : Nat} {path : Ptr16} {mode : UInt64}
  {p raw : List UInt8} {R : List Nat}

/-! ## Two states alike -/

/-- The states have the same volume and the same free slots. -/
structure Alike (s s' : Files) : Prop where
  context : s.context = s'.context
  card : s.card = s'.card
  inUse : ∀ k, (s.files.get k).inUse = (s'.files.get k).inUse

/-- The calls end alike: neither returns, or with the same reply and card, and the same file or directory in the new
slot. -/
inductive SameOpen : Option (Reply × Files) → Option (Reply × Files) → Prop where
  | never : SameOpen none none
  | refused {status : EfiStatus} {t t' : Files} (hcard : t.card = t'.card) :
    SameOpen (some (.just status, t)) (some (.just status, t'))
  | opened {k : Fin maxOpenFiles} {t t' : Files} (hslot : t.files.get k = t'.files.get k) (hcard : t.card = t'.card) :
    SameOpen (some (.opened k, t)) (some (.opened k, t'))

theorem SameOpen.slot {r r' : Option (Reply × Files)} {k k' : Fin maxOpenFiles} {t t' : Files} (h : SameOpen r r')
    (hr : r = some (.opened k, t)) (hr' : r' = some (.opened k', t')) : t.files.get k = t'.files.get k' := by
  cases h with
  | never => cases hr
  | refused => cases hr
  | opened hslot =>
      obtain ⟨hk, rfl⟩ := Prod.mk.inj (Option.some.inj hr)
      obtain ⟨hk', rfl⟩ := Prod.mk.inj (Option.some.inj hr')
      obtain rfl := Fin.ext (Reply.opened.inj hk)
      obtain rfl := Fin.ext (Reply.opened.inj hk')
      exact hslot

theorem Alike.exec (h : Alike s s') {α : Type} (faults : Faults) (i : Nat) (prog : CardM α) :
    (s.exec faults i prog = none ∧ s'.exec faults i prog = none) ∨
      ∃ r j t t', s.exec faults i prog = some (r, j, t) ∧ s'.exec faults i prog = some (r, j, t') ∧ Alike t t' := by
  unfold Files.exec
  rw [← h.card]
  generalize prog.runFaults faults.stop i s.card = res
  obtain ⟨x, j, card⟩ := res
  dsimp only
  cases Stop.returned x with
  | none => exact .inl ⟨rfl, rfl⟩
  | some r => exact .inr ⟨r, j, _, _, rfl, rfl, h.context, rfl, h.inUse⟩

theorem Alike.setFile (h : Alike s s') (k : Fin maxOpenFiles) (f : OpenFile) :
    Alike (s.setFile k f) (s'.setFile k f) := by
  refine ⟨h.context, h.card, fun j => ?_⟩
  by_cases hj : j = k
  · rw [hj, setFile_get_self, setFile_get_self]
  · rw [setFile_get_of_ne hj, setFile_get_of_ne hj]
    exact h.inUse j

theorem Alike.allocSlot (h : Alike s s') : (s.allocSlot = none ∧ s'.allocSlot = none) ∨
    ∃ k, s.allocSlot = some (k, s.setFile k { emptyFile with inUse := true }) ∧
      s'.allocSlot = some (k, s'.setFile k { emptyFile with inUse := true }) := by
  have hfind : (s.files.find? fun f => !f.inUse) = s'.files.find? fun f => !f.inUse := by
    simp only [Arr.find?, h.inUse]
  unfold Files.allocSlot
  rw [← hfind]
  cases s.files.find? fun f => !f.inUse with
  | none => exact .inl ⟨rfl, rfl⟩
  | some k => exact .inr ⟨k, rfl, rfl⟩

theorem Alike.newFile (h : Alike s s') (name : Name) (buf : List UInt8) (forWrite : Bool) :
    SameOpen (some (s.newFile name buf forWrite)) (some (s'.newFile name buf forWrite)) := by
  unfold Files.newFile
  rcases h.allocSlot with ⟨hs, hs'⟩ | ⟨k, hs, hs'⟩
  · rw [hs, hs']
    exact .refused h.card
  · rw [hs, hs']
    simp only [setFile_get_self]
    exact .opened (by rw [setFile_get_self, setFile_get_self]) h.card

theorem Alike.openedDir (h : Alike s s') (faults : Faults) (i : Nat) (fs : Fat32) (dir : Nat) :
    SameOpen (s.openedDir faults i fs dir) (s'.openedDir faults i fs dir) := by
  unfold Files.openedDir openDir
  rcases h.allocSlot with ⟨hs, hs'⟩ | ⟨k, hs, hs'⟩
  · rw [hs, hs']
    exact .refused h.card
  · rw [hs, hs']
    dsimp only
    rcases (h.setFile k { emptyFile with inUse := true }).exec faults i (fs.listDir dir maxDirEntries) with
      ⟨he, he'⟩ | ⟨r, j, t, t', he, he', ht⟩
    · rw [he, he']
      exact .never
    · rw [he, he']
      obtain rfl := exec_readOnly (fs.readOnly_listDir _ _) he
      obtain rfl := exec_readOnly (fs.readOnly_listDir _ _) he'
      simp only [Option.bind_eq_bind, Option.bind_some, setFile_get_self]
      exact .opened (by rw [setFile_get_self, setFile_get_self]) h.card

theorem Alike.openRootFile (h : Alike s s') (faults : Faults) (fs : Fat32) (p : List UInt8) (mode : UInt64) :
    SameOpen (s.openRootFile faults fs p mode) (s'.openRootFile faults fs p mode) := by
  unfold Files.openRootFile
  cases to83OrNone p with
  | none => exact .refused h.card
  | some name =>
      dsimp only
      rcases h.exec faults 0 (fs.readFile name maxFileBytes) with ⟨he, he'⟩ | ⟨r, j, t, t', he, he', ht⟩
      · rw [he, he']
        exact .never
      · rw [he, he']
        simp only [Option.bind_eq_bind, Option.bind_some]
        cases r with
        | ok buf => exact ht.newFile name buf _
        | error e =>
            dsimp only
            by_cases hcreate : mode &&& efiFileModeCreate ≠ 0
            · rw [if_pos hcreate, if_pos hcreate]
              rcases ht.exec faults j (fs.writeFile name []) with ⟨hw, hw'⟩ | ⟨r, j, u, u', hw, hw', hu⟩
              · rw [hw, hw']
                exact .never
              · rw [hw, hw']
                simp only [Option.bind_some]
                cases r with
                | ok x => exact hu.newFile name [] _
                | error e => exact .refused hu.card
            · rw [if_neg hcreate, if_neg hcreate]
              exact .refused ht.card

theorem Alike.openPath (h : Alike s s') (faults : Faults) (fs : Fat32) (start : Nat) (p : List UInt8) (mode : UInt64) :
    SameOpen (s.openPath faults fs start p mode) (s'.openPath faults fs start p mode) := by
  unfold Files.openPath
  split
  · exact .refused h.card
  · rcases h.exec faults 0 (fs.resolveFrom start p) with ⟨he, he'⟩ | ⟨r, j, t, t', he, he', ht⟩
    · rw [he, he']
      exact .never
    · rw [he, he']
      simp only [Option.bind_eq_bind, Option.bind_some]
      cases r with
      | error e => exact .refused ht.card
      | ok found =>
          obtain ⟨first, size, isDir⟩ := found
          dsimp only
          cases isDir with
          | true => exact ht.openedDir faults j fs _
          | false =>
              simp only [Bool.false_eq_true, if_false]
              rcases ht.exec faults j (fs.readFrom first size maxFileBytes) with ⟨hr, hr'⟩ | ⟨r, j, u, u', hr, hr', hu⟩
              · rw [hr, hr']
                exact .never
              · rw [hr, hr']
                simp only [Option.bind_some]
                cases r with
                | error e => exact .refused hu.card
                | ok buf => exact hu.newFile _ buf false

/-! ## What a path leads to -/

/-- The handle is of the directory or the file that the path leads to from the root, or of a new file if it leads
nowhere. -/
def Reaches (fs : Fat32) (card : Disk) (raw : List UInt8) (f : OpenFile) : Prop :=
  match ((fs.resolveFrom fs.rootCluster.toNat raw).run card).1 with
  | .ok (first, size, isDir) =>
    if isDir then
      let dir := if first = 0 then fs.rootCluster.toNat else first
      f.dirCluster = some dir ∧ ((fs.listDir dir maxDirEntries).run card).1 = .ok f.dirEntries
    else
      f.dirCluster = none ∧ ((fs.readFrom first size maxFileBytes).run card).1 = .ok f.bytes
  | .error _ => f.dirCluster = none ∧ f.bytes = []

/-- The handle is of a directory of the volume: a chain of clusters that ends. -/
structure DirHandle (fs : Fat32) (s : Files) (this dir : Nat) : Prop where
  slot : ∃ k, s.thisToIndex this = some k ∧ (s.files.get k).dirCluster = some dir
  chain : ∃ l, Chain (fs.nextAt s.card) dir l

theorem resolveFrom_slash (start : Nat) (p : List UInt8) :
    fs.resolveFrom start (0x5C :: p) = fs.resolveFrom start p := by
  have hcomp := Fat32.components_append [] p
  rw [Fat32.resolveFrom, Fat32.resolveFrom, ← List.nil_append (0x5C :: p), hcomp]
  rfl

/-- An absolute path, as characters. -/
theorem char16_absolute (habs : path 0 = 0x5C) (h : char16PathToAscii path = some raw) :
    ∃ p, raw = 0x5C :: p ∧ (p = [] ↔ path 1 = 0) := by
  obtain ⟨m, hend, hne, rfl⟩ := char16Loop_eq h
  simp only [Nat.zero_add] at hend hne
  cases m with
  | zero => rw [habs] at hend; cases hend
  | succ m =>
      refine ⟨_, by rw [List.nil_append, List.range_succ_eq_map, List.map_cons, Nat.zero_add, habs]; rfl, ?_⟩
      rw [List.map_map, List.map_eq_nil_iff, List.range_eq_nil]
      constructor
      · rintro rfl
        exact hend
      · intro h1
        by_contra hm
        exact hne 1 (by omega) h1

theorem fileOpen_absolute (h : DirHandle fs s this dir) (hctx : s.context = some fs) (habs : path 0 = 0x5C) :
    s.fileOpen faults this true (some path) mode =
      if path 1 = 0 then s.openedDir faults 0 fs dir
      else match char16PathToAscii path with
        | none => some (.just .notFound, s)
        | some raw =>
          if 0x5C ∈ raw.tail then s.openPath faults fs fs.rootCluster.toNat raw.tail mode
          else s.openRootFile faults fs raw.tail mode := by
  obtain ⟨k, hk, hdir⟩ := h.slot
  have hroot : isRootPath path = decide (path 1 = 0) := by
    rw [isRootPath, habs]
    simp
  simp only [fileOpen, hk, hdir, hctx, hroot, Bool.not_true, Bool.false_eq_true, if_false, decide_eq_true_eq]
  split
  · rfl
  · cases hraw : char16PathToAscii path with
    | none => rfl
    | some raw =>
        obtain ⟨p, rfl, _⟩ := char16_absolute habs hraw
        dsimp only
        rw [startOf, List.head?_cons, if_pos rfl, List.tail_cons]
        by_cases hslash : (0x5C : UInt8) ∈ p
        · simp [hslash]
        · simp [hslash]

/-! ## What is opened -/

/-- A directory with an entry has clusters of at least one sector, and then every read returns. -/
theorem readFrom_entry {name : Name} {entry : DirEntry}
    (hentry : (live (fs.dirEntries s.card R)).find? (·.name = name) = some entry) :
    ∃ buf, ((fs.readFrom entry.firstCluster entry.size maxFileBytes).run s.card).1 = .ok buf := by
  have hspc : 1 ≤ fs.sectorsPerCluster.toNat := by
    by_contra hzero
    have h0 : fs.sectorsPerCluster.toNat = 0 := by omega
    have hnil : fs.dirEntries s.card R = [] := by
      refine List.flatMap_eq_nil_iff.mpr fun c _ => ?_
      rw [Fat32.entriesIn, h0, List.range'_zero, List.flatMap_nil]
    rw [hnil] at hentry
    cases hentry
  have hsize : entry.size < 2 ^ 32 := by
    have := leNat_lt (entry.slice 28 4)
    rw [Arr.length_slice _ (by decide)] at this
    exact this.trans_eq (by decide)
  rcases fs.readFrom_cases s.card entry.firstCluster entry.size maxFileBytes with hang | hok
  · exact absurd hang (fs.readFrom_visits s.card hspc entry.firstCluster entry.size maxFileBytes hsize).1
  · exact hok

section

variable (hR : Chain (fs.nextAt s.card) fs.rootCluster.toNat R)

include hR

/-- What is read under a name of the root directory. -/
theorem run_readFile_root (name : Name) : ((fs.readFile name maxFileBytes).run s.card).1 =
    match (live (fs.dirEntries s.card R)).find? (·.name = name) with
    | some entry => ((fs.readFrom entry.firstCluster entry.size maxFileBytes).run s.card).1
    | none => .error (.err .notFound) := by
  have hfind := fs.run_findInDir_chain s.card hR name
  rw [Fat32.readFile]
  cases hentry : (live (fs.dirEntries s.card R)).find? (·.name = name) with
  | some entry =>
      rw [hentry] at hfind
      rw [Prog.run_bind_ok hfind]
  | none =>
      rw [hentry] at hfind
      rw [Prog.run_bind_error hfind]

theorem run_resolveFrom_root (hne : p ≠ []) (hslash : (0x5C : UInt8) ∉ p) :
    ((fs.resolveFrom fs.rootCluster.toNat (0x5C :: p)).run s.card).1 = match to83 p with
      | none => .error (.err .notFound)
      | some name => match (live (fs.dirEntries s.card R)).find? (·.name = name) with
        | some entry => .ok (entry.firstCluster, entry.size, entry.isDir)
        | none => .error (.err .notFound) := by
  rw [resolveFrom_slash, Fat32.resolveFrom, Fat32.components_singleton hne hslash, Fat32.resolveLoop]
  cases to83 p with
  | none => rfl
  | some name =>
      have hfind := fs.run_findInDir_chain s.card hR name
      dsimp only
      cases hentry : (live (fs.dirEntries s.card R)).find? (·.name = name) with
      | some entry =>
          rw [hentry] at hfind
          rw [Prog.run_bind_ok hfind]
          rfl
      | none =>
          rw [hentry] at hfind
          rw [Prog.run_bind_error hfind]

end

section

variable (hf : ∀ i, faults i = none)

include hf

theorem exec_ok {α : Type} {prog : CardM α} {a : α} {j : Nat} {t : Files}
    (h : s.exec faults i prog = some (.ok a, j, t)) :
    (prog.run s.card).1 = .ok a := by
  rw [exec_working hf] at h
  obtain ⟨x, hx, he⟩ := Option.map_eq_some_iff.mp h
  cases he
  exact Stop.returned_ok.mp hx

theorem exec_error {α : Type} {prog : CardM α} {e : Fat32Error} {j : Nat} {t : Files}
    (h : s.exec faults i prog = some (.error e, j, t)) : (prog.run s.card).1 = .error (.err e) := by
  rw [exec_working hf] at h
  obtain ⟨x, hx, he⟩ := Option.map_eq_some_iff.mp h
  cases he
  exact Stop.returned_error.mp hx

theorem runFaults_fst {α : Type} (prog : CardM α) (i : Nat) (d : Disk) :
    (prog.runFaults faults.stop i d).1 = (prog.run d).1 := by
  have heq : prog.runFaults faults.stop i d = _ := Prog.runFaults_eq_run fun j _ => by rw [Faults.stop, hf]; rfl
  rw [heq]

theorem reaches_openedDir {k : Fin maxOpenFiles} {t : Files} (h : s.openedDir faults i fs dir = some (.opened k, t)) :
    ∃ entries, t.files.get k = .freshDir dir entries ∧ ((fs.listDir dir maxDirEntries).run s.card).1 = .ok entries := by
  unfold openedDir openDir at h
  rcases s.allocSlot_cases with ⟨_, hn⟩ | ⟨slot, _, ha⟩
  · rw [hn] at h
    cases h
  · rw [ha] at h
    dsimp only at h
    obtain ⟨x, hx, h⟩ := Option.bind_eq_some_iff.mp h
    obtain ⟨⟨r, j, u⟩, hl, hx⟩ := Option.bind_eq_some_iff.mp hx
    have hu := exec_readOnly (fs.readOnly_listDir _ _) hl
    cases r with
    | error e =>
        have herror := exec_error hf hl
        change ((fs.listDir dir maxDirEntries).run s.card).1 = _ at herror
        rcases fs.listDir_cases s.card dir maxDirEntries with hang | ⟨out, hout⟩
        · rw [herror] at hang
          cases hang
        · rw [herror] at hout
          cases hout
    | ok entries =>
        have hlist := exec_ok hf hl
        cases hx
        obtain ⟨hk, rfl⟩ := Prod.mk.inj (Option.some.inj h)
        obtain rfl := Fin.ext (Reply.opened.inj hk)
        refine ⟨entries, ?_, hlist⟩
        rw [setFile_get_self, hu, setFile_get_self]
        rfl

theorem reaches_openPath {k : Fin maxOpenFiles} {t : Files}
    (h : s.openPath faults fs fs.rootCluster.toNat p mode = some (.opened k, t)) :
    Reaches fs s.card (0x5C :: p) (t.files.get k) := by
  unfold openPath at h
  rw [Reaches, resolveFrom_slash]
  split at h
  · cases h
  · obtain ⟨⟨x, j, u⟩, hx, h⟩ := Option.bind_eq_some_iff.mp h
    have hu := exec_readOnly (fs.readOnly_resolveFrom _ _) hx
    cases x with
    | error e => cases h
    | ok found =>
        obtain ⟨first, size, isDir⟩ := found
        rw [exec_ok hf hx]
        dsimp only at h ⊢
        rw [hu] at h
        cases isDir with
        | true =>
            obtain ⟨entries, hslot, hlist⟩ := reaches_openedDir hf h
            rw [if_pos rfl, hslot]
            exact ⟨rfl, hlist⟩
        | false =>
            rw [if_neg Bool.false_ne_true] at h ⊢
            obtain ⟨⟨y, j, u⟩, hy, h⟩ := Option.bind_eq_some_iff.mp h
            have hu := exec_readOnly (fs.readOnly_readFrom _ _ _) hy
            cases y with
            | error e => cases h
            | ok buf =>
                have hread := exec_ok hf hy
                obtain ⟨z, hz, hrun, _⟩ := exec_eq_some hy
                obtain rfl := Stop.returned_ok.mp hz
                have hlen : buf.length ≤ 65536 := (fs.returns_readFrom first size _).runFaults (congrArg Prod.fst hrun)
                rcases u.newFile_cases (lastComponent p) buf false with ⟨_, hn⟩ | ⟨slot, _, hn⟩
                · cases (Option.some.inj h).symm.trans hn
                · obtain ⟨hk, rfl⟩ := Prod.mk.inj ((Option.some.inj h).symm.trans hn)
                  obtain rfl := Fin.ext (Reply.opened.inj hk)
                  rw [setFile_get_self, OpenFile.bytes_fresh hlen]
                  exact ⟨rfl, hread⟩

variable (hR : Chain (fs.nextAt s.card) fs.rootCluster.toNat R)

include hR

/-- A file is created only if its name is absent. -/
theorem createWrite_absent {name : Name} {w : Write} (hname : to83OrNone p = some name)
    (hw : s.createWrite faults fs p mode = some w) :
    (live (fs.dirEntries s.card R)).find? (·.name = name) = none := by
  simp only [createWrite, hname, Option.bind_eq_bind, Option.bind_some] at hw
  obtain ⟨⟨x, j, u⟩, hx, hw⟩ := Option.bind_eq_some_iff.mp hw
  cases x with
  | ok buf => cases hw
  | error e =>
      have hrun := exec_error hf hx
      rw [run_readFile_root hR] at hrun
      cases hentry : (live (fs.dirEntries s.card R)).find? (·.name = name) with
      | none => rfl
      | some entry =>
          rw [hentry] at hrun
          obtain ⟨buf, hbuf⟩ := readFrom_entry hentry
          exact absurd (hbuf.symm.trans hrun) (by simp)

/-- The branch for a single component opens what the path leads to, unless that is a directory. -/
theorem reaches_openRootFile_iff {k : Fin maxOpenFiles} {t : Files} (hne : p ≠ []) (hslash : (0x5C : UInt8) ∉ p)
    (h : s.openRootFile faults fs p mode = some (.opened k, t)) : Reaches fs s.card (0x5C :: p) (t.files.get k) ↔
      ∀ name entry, to83 p = some name → (live (fs.dirEntries s.card R)).find? (·.name = name) = some entry →
        ¬ entry.isDir := by
  have hresolve := run_resolveFrom_root hR hne hslash
  generalize hr : Reply.opened k.val = r at h
  cases openedRoot h with
  | refused => cases hr
  | @found name buf i slot hname hread hno hfree =>
      obtain rfl := Fin.ext (Reply.opened.inj hr)
      have hname' : to83 p = some name := hname
      have hlen : buf.length ≤ 65536 := (fs.returns_readFile name _).runFaults (congrArg Prod.fst hread)
      have hrun : ((fs.readFile name maxFileBytes).run s.card).1 = .ok buf := by
        rw [← runFaults_fst hf _ 0 s.card, hread]
      rw [run_readFile_root hR] at hrun
      rw [hname'] at hresolve
      dsimp only at hresolve
      cases hentry : (live (fs.dirEntries s.card R)).find? (·.name = name) with
      | none => rw [hentry] at hrun; cases hrun
      | some entry =>
          rw [hentry] at hrun hresolve
          rw [Reaches, hresolve, setFile_get_self, OpenFile.bytes_fresh hlen]
          dsimp only
          by_cases hdir : entry.isDir = true
          · rw [if_pos hdir]
            refine iff_of_false (fun h => by cases h.1) fun h => ?_
            exact h name entry hname' hentry hdir
          · rw [if_neg hdir]
            refine iff_of_true ⟨rfl, hrun⟩ fun name₁ entry₁ hname₁ hentry₁ => ?_
            cases hname'.symm.trans hname₁
            cases hentry.symm.trans hentry₁
            exact hdir
  | @created name i slot hname hw hok hfree =>
      obtain rfl := Fin.ext (Reply.opened.inj hr)
      have hname' : to83 p = some name := hname
      have hentry := createWrite_absent hf hR hname hw
      rw [hname'] at hresolve
      dsimp only at hresolve
      rw [hentry] at hresolve
      rw [Reaches, hresolve, setFile_get_self, OpenFile.bytes_fresh (Nat.zero_le _)]
      refine iff_of_true ⟨rfl, rfl⟩ fun name₁ entry₁ hname₁ hentry₁ => ?_
      cases hname'.symm.trans hname₁
      cases hentry.symm.trans hentry₁

end

/-- The calls end alike, and what they open is what the path leads to from the root. -/
structure OpensAbsolute (fs : Fat32) (card : Disk) (path : Ptr16) (r r' : Option (Reply × Files)) : Prop where
  same : SameOpen r r'
  reaches (k : Fin maxOpenFiles) (t : Files) : r = some (.opened k, t) →
    ∃ raw, char16PathToAscii path = some raw ∧ Reaches fs card raw (t.files.get k)

/-- The path is a single component under the root, and names a subdirectory. -/
def NamesRootDir (fs : Fat32) (card : Disk) (R : List Nat) (path : Ptr16) : Prop :=
  ∃ p name entry, char16PathToAscii path = some (0x5C :: p) ∧ 0x5C ∉ p ∧ to83 p = some name ∧
    (live (fs.dirEntries card R)).find? (·.name = name) = some entry ∧ entry.isDir

theorem Opened.free {w : Bool} {n : Nat} {t : Files} (h : s.Opened w (.opened n) t) :
    ∃ j, (s.files.get j).inUse = false := by
  generalize hr : Reply.opened n = r at h
  cases h with
  | refused => cases hr
  | new hfree => exact ⟨_, hfree⟩

theorem OpenedRoot.free {n : Nat} {t : Files} (h : OpenedRoot s faults fs p mode (.opened n) t) :
    ∃ j, (s.files.get j).inUse = false := by
  generalize hr : Reply.opened n = r at h
  cases h with
  | refused => cases hr
  | found _ _ _ hfree => exact ⟨_, hfree⟩
  | created _ _ _ hfree => exact ⟨_, hfree⟩

theorem fileOpen_free {newHandle : OutPtr} {fileName : Option Ptr16} {n : Nat} {t : Files}
    (h : s.fileOpen faults this newHandle fileName mode = some (.opened n, t)) :
    ∃ j, (s.files.get j).inUse = false := by
  rcases fileOpen_cases h with ⟨_, _, _, _, _, _, hopen⟩ | ⟨_, hopen⟩
  · exact hopen.free
  · exact hopen.free

/-- The two calls end alike if they take the same branches. -/
theorem sameOpen_absolute (hsame : Alike s s') (hctx : s.context = some fs) (h : DirHandle fs s this dir)
    (h' : DirHandle fs s' this' dir') (habs : path 0 = 0x5C) (hdir : path 1 = 0 → dir = dir') :
    SameOpen (s.step faults (.fileOpen this true (some path) mode))
      (s'.step faults (.fileOpen this' true (some path) mode)) := by
  rw [step, step, fileOpen_absolute h hctx habs, fileOpen_absolute h' (hsame.context ▸ hctx) habs]
  by_cases h1 : path 1 = 0
  · rw [if_pos h1, if_pos h1, hdir h1]
    exact hsame.openedDir faults 0 fs dir'
  · rw [if_neg h1, if_neg h1]
    cases char16PathToAscii path with
    | none => exact .refused hsame.card
    | some raw =>
        dsimp only
        split
        · exact hsame.openPath faults fs _ _ mode
        · exact hsame.openRootFile faults fs _ mode

theorem run_resolveFrom_nil (start : Nat) (d : Disk) :
    ((fs.resolveFrom start [0x5C]).run d).1 = .ok (start, 0, true) := by
  rw [resolveFrom_slash]
  rfl

theorem char16_root (habs : path 0 = 0x5C) (h1 : path 1 = 0) : char16PathToAscii path = some [0x5C] := by
  rw [char16PathToAscii, char16Loop, char16Loop, habs, h1]
  rfl

/-- A name of the root directory is opened as a file. -/
theorem openRootFile_found {name : Name} {entry : DirEntry} (hf : ∀ i, faults i = none)
    (hR : Chain (fs.nextAt s.card) fs.rootCluster.toNat R) (hname : to83 p = some name)
    (hentry : (live (fs.dirEntries s.card R)).find? (·.name = name) = some entry)
    (hfree : ∃ k, (s.files.get k).inUse = false) (mode : UInt64) :
    ∃ (k : Fin maxOpenFiles) (t : Files), s.openRootFile faults fs p mode = some (.opened k, t) := by
  have hname' : to83OrNone p = some name := hname
  obtain ⟨buf, hbuf⟩ := readFrom_entry hentry
  have hread : ((fs.readFile name maxFileBytes).run s.card).1 = .ok buf := by
    rw [run_readFile_root hR, hentry]
    exact hbuf
  obtain ⟨k, _, hnew⟩ := newFile_of_free hfree name buf (mode &&& efiFileModeWrite ≠ 0)
  refine ⟨k, s.setFile k (.fresh name buf (mode &&& efiFileModeWrite ≠ 0)), ?_⟩
  simp only [openRootFile, hname', exec_of_readOnly hf (fs.readOnly_readFile _ _) hread 0, Option.bind_eq_bind,
    Option.bind_some]
  exact congrArg some hnew

theorem openedDir_full (hfull : ∀ k, (s.files.get k).inUse) (i : Nat) (fs : Fat32) (dir : Nat) :
    s.openedDir faults i fs dir = some (.just .outOfResources, s) := by
  rcases s.allocSlot_cases with ⟨_, hn⟩ | ⟨k, hk, _⟩
  · unfold openedDir openDir
    rw [hn]
    rfl
  · rw [hfull k] at hk
    cases hk

/-- The path `\` opens the directory of the handle. -/
theorem step_slash (hf : ∀ i, faults i = none) (hctx : s.context = some fs) (h : DirHandle fs s this dir)
    (habs : path 0 = 0x5C) (h1 : path 1 = 0) (hfree : ∃ k, (s.files.get k).inUse = false) (mode : UInt64) :
    ∃ k entries, s.step faults (.fileOpen this true (some path) mode) =
      some (.opened k, s.setFile k (.freshDir dir entries)) := by
  obtain ⟨l, hl⟩ := h.chain
  obtain ⟨k, _, hopen⟩ := openDir_of_chain (i := 0) hf hl hfree
  refine ⟨k, (listing (fs.dirEntries s.card l)).take maxDirEntries, ?_⟩
  rw [step, fileOpen_absolute h hctx habs, if_pos h1, openedDir, hopen]
  rfl

section

variable (hf : ∀ i, faults i = none) (hsame : Alike s s') (hctx : s.context = some fs) (h : DirHandle fs s this dir)
  (h' : DirHandle fs s' this' dir') (habs : path 0 = 0x5C)

include hf hsame hctx h h' habs

theorem opensAbsolute_root (hfree : ∃ k, (s.files.get k).inUse = false) (h1 : path 1 = 0) :
    OpensAbsolute fs s.card path (s.step faults (.fileOpen this true (some path) mode))
      (s'.step faults (.fileOpen this' true (some path) mode)) ↔
      dir = fs.rootCluster.toNat ∧ dir' = fs.rootCluster.toNat := by
  have hfree' : ∃ k, (s'.files.get k).inUse = false := by
    obtain ⟨k, hk⟩ := hfree
    exact ⟨k, (hsame.inUse k).symm.trans hk⟩
  obtain ⟨k, entries, hr⟩ := step_slash hf hctx h habs h1 hfree mode
  obtain ⟨k', entries', hr'⟩ := step_slash hf (hsame.context ▸ hctx) h' habs h1 hfree' mode
  constructor
  · intro ho
    have hslot := ho.same.slot hr hr'
    obtain ⟨raw, hraw, hreach⟩ := ho.reaches k _ hr
    obtain rfl := Option.some.inj ((char16_root habs h1).symm.trans hraw)
    rw [setFile_get_self, setFile_get_self] at hslot
    rw [Reaches, run_resolveFrom_nil, setFile_get_self] at hreach
    simp only [if_true, ite_self] at hreach
    have hdir : dir = fs.rootCluster.toNat := Option.some.inj hreach.1
    have hdirs : dir = dir' := Option.some.inj (congrArg OpenFile.dirCluster hslot)
    exact ⟨hdir, hdirs ▸ hdir⟩
  · rintro ⟨rfl, rfl⟩
    refine ⟨sameOpen_absolute hsame hctx h h' habs fun _ => rfl, fun j t hj => ⟨_, char16_root habs h1, ?_⟩⟩
    rw [step, fileOpen_absolute h hctx habs, if_pos h1] at hj
    obtain ⟨entries, hslot, hlist⟩ := reaches_openedDir hf hj
    rw [Reaches, run_resolveFrom_nil, hslot]
    simp only [if_true, ite_self]
    exact ⟨rfl, hlist⟩

/-- Every other path opens what it leads to, unless it is a single component that names a subdirectory. -/
theorem opensAbsolute_path (hR : Chain (fs.nextAt s.card) fs.rootCluster.toNat R)
    (hfree : ∃ k, (s.files.get k).inUse = false) (h1 : path 1 ≠ 0) :
    OpensAbsolute fs s.card path (s.step faults (.fileOpen this true (some path) mode))
      (s'.step faults (.fileOpen this' true (some path) mode)) ↔ ¬ NamesRootDir fs s.card R path := by
  constructor
  · rintro ho ⟨p, name, entry, hraw, hslash, hname, hentry, hdir⟩
    have hne : p ≠ [] := by
      obtain ⟨q, hq, hnil⟩ := char16_absolute habs hraw
      cases hq
      exact fun hp => h1 (hnil.mp hp)
    have hopen : s.step faults (.fileOpen this true (some path) mode) = s.openRootFile faults fs p mode := by
      rw [step, fileOpen_absolute h hctx habs, if_neg h1, hraw]
      exact if_neg hslash
    obtain ⟨k, t, hr⟩ := openRootFile_found hf hR hname hentry hfree mode
    obtain ⟨raw, hraw', hreach⟩ := ho.reaches k t (hopen.trans hr)
    cases hraw.symm.trans hraw'
    exact (reaches_openRootFile_iff hf hR hne hslash hr).mp hreach name entry hname hentry hdir
  · intro hnot
    refine ⟨sameOpen_absolute hsame hctx h h' habs fun h0 => absurd h0 h1, fun k t hr => ?_⟩
    rw [step, fileOpen_absolute h hctx habs, if_neg h1] at hr
    cases hraw : char16PathToAscii path with
    | none => rw [hraw] at hr; cases hr
    | some raw =>
        obtain ⟨p, rfl, hnil⟩ := char16_absolute habs hraw
        rw [hraw] at hr
        refine ⟨_, rfl, ?_⟩
        by_cases hslash : (0x5C : UInt8) ∈ p
        · exact reaches_openPath hf ((if_pos hslash).symm.trans hr)
        · refine (reaches_openRootFile_iff hf hR (fun hp => h1 (hnil.mp hp)) hslash
            ((if_neg hslash).symm.trans hr)).mpr ?_
          exact fun name entry hname hentry hdir => hnot ⟨p, name, entry, hraw, hslash, hname, hentry, hdir⟩

/-- The calls end alike with what the path leads to if and only if there is no free slot, or the path is not `\` through
a handle of a subdirectory and does not name a subdirectory of the root. -/
theorem opensAbsolute_iff (hR : Chain (fs.nextAt s.card) fs.rootCluster.toNat R) :
    OpensAbsolute fs s.card path (s.step faults (.fileOpen this true (some path) mode))
      (s'.step faults (.fileOpen this' true (some path) mode)) ↔
      (∀ k, (s.files.get k).inUse) ∨
        ((path 1 = 0 → dir = fs.rootCluster.toNat ∧ dir' = fs.rootCluster.toNat) ∧ ¬ NamesRootDir fs s.card R path) := by
  by_cases hfull : ∀ k, (s.files.get k).inUse
  · refine iff_of_true ⟨?_, fun k t hr => ?_⟩ (.inl hfull)
    · by_cases h1 : path 1 = 0
      · have hfull' : ∀ k, (s'.files.get k).inUse := fun k => hsame.inUse k ▸ hfull k
        rw [step, step, fileOpen_absolute h hctx habs, fileOpen_absolute h' (hsame.context ▸ hctx) habs, if_pos h1,
          if_pos h1, openedDir_full hfull, openedDir_full hfull']
        exact .refused hsame.card
      · exact sameOpen_absolute hsame hctx h h' habs fun h0 => absurd h0 h1
    · obtain ⟨j, hj⟩ := fileOpen_free (show s.fileOpen faults this true (some path) mode = _ from hr)
      rw [hfull j] at hj
      cases hj
  · have hfree : ∃ k, (s.files.get k).inUse = false := by
      obtain ⟨k, hk⟩ := not_forall.mp hfull
      exact ⟨k, Bool.eq_false_iff.mpr hk⟩
    rw [or_iff_right hfull]
    by_cases h1 : path 1 = 0
    · rw [opensAbsolute_root hf hsame hctx h h' habs hfree h1]
      have hnot : ¬ NamesRootDir fs s.card R path := by
        rintro ⟨p, name, entry, hraw, _, hname, _⟩
        cases hraw.symm.trans (char16_root habs h1)
        cases hname
      exact ⟨fun hd => ⟨fun _ => hd, hnot⟩, fun hd => hd.1 h1⟩
    · rw [opensAbsolute_path hf hsame hctx h h' habs hR hfree h1]
      exact ⟨fun hd => ⟨fun h0 => absurd h0 h1, hd⟩, fun hd => hd.2⟩

end

/-! ## Handles of the root and of a subdirectory -/

open Fat32 (fileA smallFs geometry_smallFs dirVolume dirCard volume_dirCard chainAt_dirA wellFormed_dir entry_dir
  chainAt_dir lookup_dir)

/-- The path `\`. -/
def pathSlash : Ptr16 := fun i => if i = 0 then 0x5C else 0

/-- The path `A\`. -/
def pathDirA : Ptr16 := fun i => if i = 0 then 0x41 else if i = 1 then 0x5C else 0

/-- The path `\A\`. -/
def pathSlashA : Ptr16 := fun i => if i = 0 then 0x5C else pathDirA (i - 1)

/-- Two handles on `dirCard`, of the root and of the subdirectory `A`. -/
structure TwoDirs (this this' : Nat) (s : Files) : Prop where
  reachable : Reachable s
  wellFormed : smallFs.WellFormed (smallFs.volume s.card)
  context : s.context = some smallFs
  root : DirHandle smallFs s this 2
  sub : DirHandle smallFs s this' 3
  free : ∃ k, (s.files.get k).inUse = false

theorem resolve_dirA : ((smallFs.resolveFrom 2 [0x41, 0x5C]).run dirCard).1 = .ok (3, 0, true) := by
  obtain ⟨hwf, _⟩ := wellFormed_dir
  have hR := chainAt_dir
  have hlook := lookup_dir
  have he := entry_dir
  rw [← volume_dirCard] at hwf hR hlook he
  have hrun := Fat32.run_resolveFrom (p := [0x41]) hwf (by decide) (by decide) hR
  have hname : to83 [0x41] = some fileA := to83_pathA
  rw [hname] at hrun
  dsimp only at hrun
  rw [hlook] at hrun
  dsimp only at hrun
  rw [he, Fat32.dirEntry.firstCluster_eq fileA (by decide), Fat32.dirEntry.size_eq,
    Fat32.dirEntry.isDir_eq fileA 3] at hrun
  exact hrun

/-- `Open` of `A\` through a handle of the root. -/
theorem exists_open_dirA {parent : Fin maxOpenFiles} (hA : Chain (smallFs.nextAt s.card) 3 [3])
    (hparent : s.thisToIndex parent = some parent) (hdir : (s.files.get parent).dirCluster = some 2)
    (hctx : s.context = some smallFs) (hfree : ∃ k, (s.files.get k).inUse = false)
    (hresolve : ((smallFs.resolveFrom 2 [0x41, 0x5C]).run s.card).1 = .ok (3, 0, true)) :
    ∃ (k : Fin maxOpenFiles) (entries : List (Name × Nat)), (s.files.get k).inUse = false ∧
      s.step noFaults (.fileOpen parent true (some pathDirA) 1) =
        some (.opened k, s.setFile k (.freshDir 3 entries)) := by
  obtain ⟨k, hk, hopen⟩ := openDir_of_chain (i := 0 + (smallFs.resolveFrom 2 [0x41, 0x5C]).ops s.card) noFaults_none hA
    hfree
  have hpath : char16PathToAscii pathDirA = some [0x41, 0x5C] := by rfl
  have hexec := exec_of_readOnly noFaults_none (smallFs.readOnly_resolveFrom _ _) hresolve 0
  have hopened : s.fileOpen noFaults parent true (some pathDirA) 1 =
      s.openPath noFaults smallFs 2 [0x41, 0x5C] 1 := by
    simp only [fileOpen, hparent, hdir, hctx, hpath]
    rfl
  refine ⟨k, (listing (smallFs.dirEntries s.card [3])).take maxDirEntries, hk, ?_⟩
  rw [step, hopened, openPath, if_neg (by decide), hexec]
  simp only [Option.bind_eq_bind, Option.bind_some, if_true, if_neg (show ¬ (3 : Nat) = 0 by decide), openedDir, hopen]
  rfl

theorem exists_twoDirs : ∃ this this' s, TwoDirs this this' s := by
  obtain ⟨hwf, _⟩ := wellFormed_dir
  have hR := chainAt_dir
  have hA : smallFs.ChainAt dirVolume 3 [3] := by
    have hsub : smallFs.ChainAt dirVolume (dirVolume.entry ⟨2, 0, 0⟩).firstCluster [3] :=
      Fat32.owns_subdir geometry_smallFs chainAt_dirA
    rwa [entry_dir, Fat32.dirEntry.firstCluster_eq fileA (by decide)] at hsub
  rw [← volume_dirCard] at hwf hR hA
  obtain ⟨this, s, h⟩ := exists_rooted hwf
  rw [← h.card] at hwf hR hA
  obtain ⟨parent, dir, raw, hparent, hdir, hctx, _, hraw, hstart, _⟩ := rootPath_eq_some.mp h.root
  obtain ⟨rfl, hused⟩ := thisToIndex_eq_some.mp hparent
  have hraw' : char16PathToAscii pathA = some [0x41] := by rfl
  cases hraw'.symm.trans hraw
  obtain rfl : dir = 2 := (Prod.mk.inj hstart).1
  obtain ⟨k, entries, hk, hstep⟩ := exists_open_dirA (hA.chain_nextAt s.card hwf.geometry) hparent hdir hctx
    h.exists_free (by rw [h.card]; exact resolve_dirA)
  have hne : parent ≠ k := by
    rintro rfl
    rw [hk] at hused
    cases hused
  have hfree : ∃ j, ((s.setFile k (.freshDir 3 entries)).files.get j).inUse = false := by
    obtain ⟨j, hj, hjk⟩ : ∃ j : Fin maxOpenFiles, j ≠ parent ∧ j ≠ k := by
      have hall : ∀ a b : Fin maxOpenFiles, ∃ j, j ≠ a ∧ j ≠ b := by decide
      exact hall parent k
    exact ⟨j, by rw [setFile_get_of_ne hjk]; exact h.free fun hv => hj (Fin.ext hv)⟩
  refine ⟨parent, k, _, h.reachable.step hstep, hwf, hctx, ⟨⟨parent, ?_, ?_⟩, [2], ?_⟩, ⟨⟨k, ?_, ?_⟩, [3], ?_⟩, hfree⟩
  · exact thisToIndex_eq_some.mpr ⟨rfl, by rw [setFile_get_of_ne hne]; exact hused⟩
  · rw [setFile_get_of_ne hne]
    exact hdir
  · exact hR.chain_nextAt s.card hwf.geometry
  · exact thisToIndex_eq_some.mpr ⟨rfl, by rw [setFile_get_self]; rfl⟩
  · rw [setFile_get_self]
    rfl
  · exact hA.chain_nextAt s.card hwf.geometry

theorem opensAbsolute_twoDirs : ∃ this this' s, TwoDirs this this' s ∧ OpensAbsolute smallFs s.card pathSlashA
    (s.step noFaults (.fileOpen this true (some pathSlashA) 1))
    (s.step noFaults (.fileOpen this' true (some pathSlashA) 1)) := by
  obtain ⟨this, this', s, h⟩ := exists_twoDirs
  refine ⟨this, this', s, h, ?_⟩
  obtain ⟨l, hl⟩ := h.root.chain
  refine (opensAbsolute_iff noFaults_none ⟨rfl, rfl, fun _ => rfl⟩ h.context h.root h.sub
    rfl hl).mpr (.inr ⟨fun h1 => absurd h1 (by decide), ?_⟩)
  rintro ⟨p, _, _, hraw, hslash, _⟩
  have hpath : char16PathToAscii pathSlashA = some [0x5C, 0x41, 0x5C] := by rfl
  cases hpath.symm.trans hraw
  exact hslash (by decide)

/-- The path `\` through a handle of the subdirectory opens the subdirectory. -/
theorem not_opensAbsolute_twoDirs : ∃ (this this' : Nat) (s : Files) (k k' : Fin maxOpenFiles) (t t' : Files),
    TwoDirs this this' s ∧
    s.step noFaults (.fileOpen this true (some pathSlash) 1) = some (.opened k, t) ∧
    s.step noFaults (.fileOpen this' true (some pathSlash) 1) = some (.opened k', t') ∧
    (t.files.get k).dirCluster = some 2 ∧ (t'.files.get k').dirCluster = some 3 ∧
    ¬ OpensAbsolute smallFs s.card pathSlash (s.step noFaults (.fileOpen this true (some pathSlash) 1))
      (s.step noFaults (.fileOpen this' true (some pathSlash) 1)) := by
  obtain ⟨this, this', s, h⟩ := exists_twoDirs
  have hf : ∀ i, noFaults i = none := noFaults_none
  have hpath : pathSlash 0 = 0x5C := rfl
  obtain ⟨k, entries, hr⟩ := step_slash hf h.context h.root hpath rfl h.free 1
  obtain ⟨k', entries', hr'⟩ := step_slash hf h.context h.sub hpath rfl h.free 1
  refine ⟨this, this', s, k, k', _, _, h, hr, hr', by rw [setFile_get_self]; rfl, by rw [setFile_get_self]; rfl,
    fun ho => ?_⟩
  have hslot := ho.same.slot hr hr'
  rw [setFile_get_self, setFile_get_self] at hslot
  have hdirs : some 2 = some 3 := congrArg OpenFile.dirCluster hslot
  exact absurd hdirs (by decide)

end Files

end Ferro
