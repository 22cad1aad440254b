import Ferro.Fat32.Lemmas.Calls

/-!
# The contents of a file

What `read_file` returns for a name at every buffer size, and what a `write_file` call does to it, whichever blocks
fail.
-/

namespace Ferro

namespace Fat32

variable {fs : Fat32} {d d' : Disk} {name name' : Name} {data c c' : List UInt8} {loc : Loc} {l : List Nat}

/-- The root file `name` has the contents `c`. -/
def Contents (fs : Fat32) (d : Disk) (name : Name) (c : List UInt8) : Prop :=
  ∀ outLen, ((fs.readFile name outLen).run d).1 = .ok (c.take outLen)

theorem Contents.unique (h : fs.Contents d name c) (h' : fs.Contents d name c') : c = c' := by
  have he := (h (max c.length c'.length)).symm.trans (h' (max c.length c'.length))
  have htake := Except.ok.inj he
  rwa [List.take_of_length_le (Nat.le_max_left _ _), List.take_of_length_le (Nat.le_max_right _ _)] at htake

theorem contents_of_node (hwf : fs.WellFormed (fs.volume d)) (hn : fs.Node (fs.volume d) [name] loc)
    (ho : fs.Owns (fs.volume d) loc l) :
    fs.Contents d name ((fs.content (fs.volume d) l).take ((fs.volume d).entry loc).size) := by
  intro outLen
  rw [(runs_readFile (C := fun _ => True) outLen hwf trivial hn ho d rfl).2.2.1, fileBytes, List.take_take, Nat.min_comm]

theorem contents_or_notFound (name : Name) (hwf : fs.WellFormed (fs.volume d)) :
    (∃ c, fs.Contents d name c) ∨ ∀ outLen, ((fs.readFile name outLen).run d).1 = .error (.err .notFound) := by
  by_cases hn : ∃ loc, fs.Node (fs.volume d) [name] loc
  · obtain ⟨loc, hn⟩ := hn
    obtain ⟨l, ho⟩ := hwf.chains hn
    exact Or.inl ⟨_, contents_of_node hwf hn ho⟩
  · refine Or.inr fun outLen => ?_
    exact (runs_readFile_absent (C := fun _ => True) outLen hwf trivial (not_exists.mp hn) d rfl).2.2.1

theorem exists_contents {faults : Nat → Option Stop} {i j outLen : Nat} {buf : List UInt8}
    (hwf : fs.WellFormed (fs.volume d)) (h : (fs.readFile name outLen).runFaults faults i d = (.ok buf, j, d')) :
    ∃ c, fs.Contents d name c ∧ buf = c.take outLen := by
  have hok : ((fs.readFile name outLen).runFaults faults i d).1 = .ok buf := congrArg Prod.fst h
  rw [Prog.runFaults_eq_run (Prog.ops_of_runFaults_ok hok)] at hok
  dsimp only at hok
  rcases contents_or_notFound name hwf with ⟨c, hc⟩ | hno
  · rw [hc outLen] at hok
    exact ⟨c, hc, (Except.ok.inj hok).symm⟩
  · rw [hno outLen] at hok
    cases hok

theorem Contents.exists_node (hwf : fs.WellFormed (fs.volume d)) (h : fs.Contents d name c) :
    ∃ loc, fs.Node (fs.volume d) [name] loc := by
  by_contra hn
  have hr := (runs_readFile_absent (C := fun _ => True) 0 hwf trivial (not_exists.mp hn) d rfl).2.2.1
  rw [h 0] at hr
  cases hr

/-- A file that is not empty has room for as many bytes as it has. -/
theorem Contents.fits (hwf : fs.WellFormed (fs.volume d)) (h : fs.Contents d name c) (hpos : 0 < c.length)
    (hle : data.length ≤ c.length) (hlen : data.length < 2 ^ 32) : fs.Fits (fs.volume d) name data := by
  obtain ⟨loc, hn⟩ := h.exists_node hwf
  obtain ⟨own, ho⟩ := hwf.chains hn
  have hspc := hwf.geometry.spc_pos
  have hcs : fs.clusterSizeBytes = 512 * fs.sectorsPerCluster.toNat := by
    rw [clusterSizeBytes, sectorSize, Nat.mul_comm]
  have hcap : c.length ≤ fs.clusterSizeBytes * own.length := by
    have hall : (fs.content (fs.volume d) own).length = 512 * (fs.sectors own).length := Volume.length_bytes _
    rw [h.unique (contents_of_node hwf hn ho), List.length_take, hall, length_sectors, hcs, Nat.mul_assoc]
    exact Nat.min_le_right _ _
  have hown : 0 < own.length := by
    refine Nat.pos_of_ne_zero fun h0 => ?_
    rw [h0, Nat.mul_zero] at hcap
    exact absurd hpos (Nat.not_lt.mpr hcap)
  have hneed : fs.clustersNeeded data ≤ own.length := by
    rw [clustersNeeded_eq hwf.geometry hlen]
    refine Nat.max_le.mpr ⟨Nat.le_of_lt_succ ?_, hown⟩
    rw [Nat.div_lt_iff_lt_mul (by omega), Nat.succ_mul, Nat.mul_comm]
    omega
  intro R own' _ hcl
  rw [hcl.unique hwf (Or.inl ⟨loc, hn, ho⟩)]
  exact Nat.le_add_right_of_le hneed

theorem Wrote.contents {v : Volume} {slot : Loc} {m : List Nat} (hwf : fs.WellFormed (fs.volume d'))
    (hlen : data.length < 2 ^ 32) (h : fs.Wrote v (fs.volume d') name data slot m) : fs.Contents d' name data := by
  have hc := contents_of_node hwf h.node h.owns
  rwa [h.entry, newEntry.size_eq, Nat.mod_eq_of_lt hlen, h.content] at hc

/-! ## A write on a working card -/

/-- What a `write_file` call does to the contents of the files. -/
structure Overwrites (fs : Fat32) (d : Disk) (name : Name) (data : List UInt8) (r : Except Stop Unit) (d' : Disk) :
    Prop where
  wellFormed : fs.WellFormed (fs.volume d')
  result : r = .ok () ∨ r = .error (.err .noSpace)
  ok_iff : r = .ok () ↔ fs.Fits (fs.volume d) name data
  written : r = .ok () → fs.Contents d' name data
  other {name' : Name} {c : List UInt8} : name' ≠ name ∨ r ≠ .ok () → fs.Contents d name' c → fs.Contents d' name' c
  notSubdir {name' : Name} : fs.NotSubdir (fs.volume d) name' → fs.NotSubdir (fs.volume d') name'

theorem run_overwrites (hwf : fs.WellFormed (fs.volume d)) (ha : fs.Addressable)
    (hc : fs.Callable (fs.volume d) name data) :
    fs.Overwrites d name data ((fs.writeFile name data).run d).1 ((fs.writeFile name data).run d).2 := by
  obtain ⟨r, d', hrun, _, hwf', hr⟩ := run_writeFile hwf ha hc
  rw [hrun]
  rcases hr with ⟨rfl, hfits, slot, m, hw⟩ | ⟨rfl, hfits, hpres⟩
  · refine ⟨hwf', Or.inl rfl, iff_of_true rfl hfits, fun _ => hw.contents hwf' hc.length, ?_, hw.notSubdir⟩
    intro name' c hne h outLen
    rw [hw.read_other hwf hwf' (hne.resolve_right fun h => h rfl)]
    exact h outLen
  · refine ⟨hwf', Or.inr rfl, iff_of_false (fun h => by cases h) hfits, (fun h => by cases h), ?_, hpres.notSubdir⟩
    intro name' c _ h outLen
    rw [hpres.read_eq hwf hwf' (fun _ _ h => h) fun _ _ h => h]
    exact h outLen

/-! ## Failing blocks -/

/-- Whatever blocks fail, a call leaves every file and subdirectory but the written one as it was. -/
theorem runFaults_preserves (hwf : fs.WellFormed (fs.volume d)) (ha : fs.Addressable)
    (hc : fs.Callable (fs.volume d) name data) (faults : Nat → Option Stop) (i : Nat) :
    ∃ T, fs.Preserves (fs.volume d) (fs.volume ((fs.writeFile name data).runFaults faults i d).2.2) T ∧
      ∀ path loc, path ≠ [name] → fs.Node (fs.volume d) path loc → ¬ T loc := by
  obtain ⟨n, hcrash⟩ := Prog.exists_crash_eq_runFaults faults (fs.writeFile name data) i d
  rw [← hcrash]
  obtain ⟨R, hR⟩ := hwf.root
  rcases place_or_stuck hwf hR name with ⟨base, R', own, slot, hp⟩ | hs
  · have hcut := (runs_writeFile hwf hR ha hp hc.length d rfl).1 n
    exact ⟨_, hcut.preserves hwf hR ha hp hc.notSubdir hc.proper hc.length,
      fun path loc hpath hn => hp.ne_slot hwf hR ha hn hpath⟩
  · have hsame := (runs_writeFile_stuck (C := (· = fs.volume d)) hwf hR hs data rfl d rfl).1 n
    rw [hsame]
    exact ⟨fun _ => False, .refl _ _, fun _ _ _ _ h => h⟩

/-! ## What a change leaves alone -/

/-- The file or subdirectory is still there, with its entry, its clusters and its bytes. -/
structure Survives (fs : Fat32) (v w : Volume) (path : List Name) (loc : Loc) : Prop where
  node : fs.Node w path loc
  entry : w.entry loc = v.entry loc
  owns {l : List Nat} : fs.Owns v loc l → fs.Owns w loc l ∧ fs.content w l = fs.content v l

section Survives

variable {u v w : Volume} {path : List Name} {T : Loc → Prop}

theorem Preserves.survives (h : fs.Preserves v w T) (hT : ¬ T loc) (hn : fs.Node v path loc) :
    fs.Survives v w path loc :=
  ⟨(h.node hT).mpr hn, h.entry hT hn,
    fun ho => ⟨h.owns hT hn ho, content_congr fun _ hc _ => h.data hT hn ho hc⟩⟩

theorem Survives.refl (hn : fs.Node v path loc) : fs.Survives v v path loc := ⟨hn, rfl, fun ho => ⟨ho, rfl⟩⟩

theorem Survives.trans (h : fs.Survives u v path loc) (h' : fs.Survives v w path loc) : fs.Survives u w path loc :=
  ⟨h'.node, h'.entry.trans h.entry,
    fun ho => ⟨(h'.owns (h.owns ho).1).1, (h'.owns (h.owns ho).1).2.trans (h.owns ho).2⟩⟩

theorem Survives.read (hg : fs.Geometry) (h : fs.Survives (fs.volume d) (fs.volume d') path loc)
    (ho : fs.Owns (fs.volume d) loc l) (outLen : Nat) :
    let e := (fs.volume d).entry loc
    ((fs.readFrom e.firstCluster e.size outLen).run d').1 = ((fs.readFrom e.firstCluster e.size outLen).run d).1 := by
  obtain ⟨ho', hc⟩ := h.owns ho
  have hr := runs_readFrom (C := fun _ => True) hg trivial outLen ho d rfl
  have hr' := runs_readFrom (C := fun _ => True) hg trivial outLen ho' d' rfl
  rw [h.entry] at hr'
  dsimp only
  rw [hr.2.2.1, hr'.2.2.1, fileBytes, fileBytes, hc]

end Survives

end Fat32

end Ferro
