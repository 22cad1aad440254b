import Ferro.Fat32.Lemmas.Contents
import Ferro.Fat32.Lemmas.Read

/-!
# Creating an empty file

What `write_file` does without data: on a working card with a name that is not in the root directory, down to the blocks
of the card, and to the files of the volume whichever blocks fail.
-/

namespace Ferro

namespace Fat32

variable {fs : Fat32} {v w base : Volume} {R R' own : List Nat} {slot loc : Loc} {path : List Name} {name : Name}
  {data c c' : List UInt8} {d d' : Disk} {T : Loc → Prop} {create : Prop}

/-- No block is written when there is no free cluster. -/
theorem run_allocateChain_none (hg : fs.Geometry) (hfree : fs.freeList (fs.volume d) = []) {n : Nat} (hn : 1 ≤ n) :
    (fs.allocateChain n).run d = (.error (.err .noSpace), d) := by
  obtain ⟨n, rfl⟩ : ∃ m, n = m + 1 := ⟨n - 1, by omega⟩
  have hfind := (runs_findFreeCluster (C := fun _ => True) hg trivial 2 (Nat.le_refl 2) d rfl).2.2.1
  have hnone : fs.freeFrom (fs.volume d) 2 = [] := hfree
  rw [hnone] at hfind
  rw [allocateChain, allocateLoop, Prog.run_bind_error (Prod.ext hfind ((fs.readOnly_findFreeCluster 2).run d))]

theorem run_writeFile_noSpace (hwf : fs.WellFormed (fs.volume d)) (hR : fs.ChainAt (fs.volume d) fs.rootCluster.toNat R)
    (h : fs.lookup (fs.volume d) R name = none) (hfree : fs.freeList (fs.volume d) = []) (hlen : data.length < 2 ^ 32) :
    (fs.writeFile name data).run d = (.error (.err .noSpace), d) := by
  have hg := hwf.geometry
  obtain ⟨c, _, hsearch⟩ := runs_search (C := fun _ => True) hwf hR trivial name
  have hrun : (fs.searchLoop name loopLimit fs.rootCluster.toNat {}).run d = (_, d) :=
    Prod.ext (hsearch d rfl).2.2.1 ((fs.readOnly_searchLoop name _ _ _).run d)
  have hfound : (fs.searched (fs.volume d) R name).found = none := by
    rw [searched, h]
    rfl
  rw [writeFile, if_neg (clusterSizeBytes_ne_zero hg), Prog.run_bind_ok hrun]
  dsimp only
  rw [extendRoot]
  split
  · exact Prog.run_bind_error (Prog.run_bind_error (run_allocateChain_none hg hfree (Nat.le_refl 1)))
  · rw [Prog.run_bind_ok (Prog.run_pure _ d), hfound]
    exact Prog.run_bind_error (run_allocateChain_none hg hfree (one_le_clustersNeeded hg hlen))

theorem callable_nil (hp : name.Proper) (hno : ∀ loc, ¬ fs.Node (fs.volume d) [name] loc) :
    fs.Callable (fs.volume d) name [] :=
  ⟨hp, fun loc hn => absurd hn (hno loc), by decide⟩

/-- A call that fails has changed the card only if it has given the last free cluster to the root directory. -/
theorem run_writeFile_absent (hwf : fs.WellFormed (fs.volume d)) (ha : fs.Addressable)
    (hR : fs.ChainAt (fs.volume d) fs.rootCluster.toNat R) (hp : name.Proper)
    (hno : ∀ loc, ¬ fs.Node (fs.volume d) [name] loc) :
    (((fs.writeFile name []).run d).1 = .ok () ∧ fs.Fits (fs.volume d) name [] ∧ ((fs.writeFile name []).run d).2 ≠ d) ∨
    (((fs.writeFile name []).run d).1 = .error (.err .noSpace) ∧ ¬ fs.Fits (fs.volume d) name [] ∧
      (((fs.writeFile name []).run d).2 = d ↔
        ¬ (fs.RootFull (fs.volume d) R name ∧ (fs.freeList (fs.volume d)).length = 1))) := by
  have hc := callable_nil hp hno
  obtain ⟨r, d', hrun, _, _, ⟨rfl, hfits, slot, m, hw⟩ | ⟨rfl, hfits, _⟩⟩ := run_writeFile hwf ha hc
  · rw [hrun]
    exact .inl ⟨rfl, hfits, fun he => hno slot (he ▸ hw.node)⟩
  · rw [hrun]
    refine .inr ⟨rfl, hfits, ?_⟩
    have hlook := (lookup_absent hR).mpr hno
    by_cases hfree : fs.freeList (fs.volume d) = []
    · rw [run_writeFile_noSpace hwf hR hlook hfree hc.length] at hrun
      cases hrun
      refine iff_of_true rfl fun h => ?_
      rw [hfree] at h
      cases h.2
    · rcases place_or_stuck hwf hR name with ⟨base, R', own, slot, hpl⟩ | hs
      · have hroom : ¬ fs.Room base own (fs.clustersNeeded []) := fun h => hfits ((hpl.room_iff hwf hR ha).mp h)
        have hv := (runs_writeFile hwf hR ha hpl hc.length d rfl).2.2.2
        rw [hrun, outcome, if_neg hroom] at hv
        rw [Room, clustersNeeded_nil hwf.geometry] at hroom
        cases hpl with
        | here ht =>
            cases ht with
            | found h => cases hlook.symm.trans h
            | free _ _ => exact absurd (List.length_eq_zero_iff.mp (by simpa using hroom)) hfree
        | @extend n t _ hs hf =>
            -- the one free cluster is now a cluster of the root directory
            have hbase := freeList_extended ha hR hf
            have ht : t = [] := List.length_eq_zero_iff.mp (by rw [hbase] at hroom; simpa using hroom)
            rw [hbase, ht, allocated] at hv
            rw [ht] at hf hbase
            have hfull : fs.RootFull (fs.volume d) R name :=
              ⟨hno, fun loc hloc => by simpa using List.find?_eq_none.mp hs loc hloc⟩
            refine iff_of_false (fun he => ?_) (not_not.mpr ⟨hfull, congrArg List.length hf⟩)
            rw [← hv, he, hf] at hbase
            cases hbase
      · exact absurd hs.2.2 hfree

/-! ## Files and what they read as -/

/-- The entry is that of a file, which reads as `c`. -/
def FileOf (fs : Fat32) (d : Disk) (loc : Loc) (c : List UInt8) : Prop :=
  ¬ ((fs.volume d).entry loc).isDir ∧ ∀ outLen,
    ((fs.readFrom ((fs.volume d).entry loc).firstCluster ((fs.volume d).entry loc).size outLen).run d).1 =
      .ok (c.take outLen)

/-- There is a file at the path, which reads as `c`. -/
def HasFile (fs : Fat32) (d : Disk) (path : List Name) (c : List UInt8) : Prop :=
  ∃ loc, fs.Node (fs.volume d) path loc ∧ fs.FileOf d loc c

/-- Every file of `d` is in `d'` with the same contents, and every other file of `d'` is empty, has a name that was
absent, and is there because of `create`. -/
structure OnlyAdds (fs : Fat32) (create : Prop) (d d' : Disk) : Prop where
  kept {path : List Name} {c : List UInt8} : fs.HasFile d path c → fs.HasFile d' path c
  added {path : List Name} {c : List UInt8} : fs.HasFile d' path c →
    fs.HasFile d path c ∨ (create ∧ c = [] ∧ ∀ loc, ¬ fs.Node (fs.volume d) path loc)

theorem OnlyAdds.refl (create : Prop) (d : Disk) : fs.OnlyAdds create d d := ⟨id, .inl⟩

theorem FileOf.unique (h : fs.FileOf d loc c) (h' : fs.FileOf d loc c') : c = c' := by
  have he := (h.2 (max c.length c'.length)).symm.trans (h'.2 (max c.length c'.length))
  have htake := Except.ok.inj he
  rwa [List.take_of_length_le (Nat.le_max_left _ _), List.take_of_length_le (Nat.le_max_right _ _)] at htake

/-- The files under the root are those that `read_file` finds. -/
theorem Contents.hasFile (hwf : fs.WellFormed (fs.volume d)) (hdir : fs.NotSubdir (fs.volume d) name)
    (h : fs.Contents d name c) : fs.HasFile d [name] c := by
  obtain ⟨loc, hn⟩ := h.exists_node hwf
  obtain ⟨l, ho⟩ := hwf.chains hn
  refine ⟨loc, hn, hdir loc hn, fun outLen => ?_⟩
  rw [(runs_readFrom (C := fun _ => True) hwf.geometry trivial outLen ho d rfl).2.2.1, ← h outLen,
    (runs_readFile (C := fun _ => True) outLen hwf trivial hn ho d rfl).2.2.1]

theorem HasFile.unique (hwf : fs.WellFormed (fs.volume d)) (h : fs.HasFile d [name] c) (h' : fs.HasFile d [name] c') :
    c = c' := by
  obtain ⟨loc, hn, hfile⟩ := h
  obtain ⟨loc', hn', hfile'⟩ := h'
  obtain rfl := hwf.root_unique hn hn'
  exact hfile.unique hfile'

theorem run_readFrom_nil (first size outLen : Nat) (h : first = 0 ∨ size = 0) (d : Disk) :
    ((fs.readFrom first size outLen).run d).1 = .ok [] := by
  rw [readFrom]
  split
  · rfl
  · rename_i hfirst
    rw [h.resolve_left hfirst, Nat.zero_min]
    rfl

/-- A file reads as empty if and only if its size or its first cluster is 0. -/
theorem fileOf_nil_iff {l : List Nat} (hg : fs.Geometry) (ho : fs.Owns (fs.volume d) loc l) :
    fs.FileOf d loc [] ↔ ¬ ((fs.volume d).entry loc).isDir ∧
      (((fs.volume d).entry loc).firstCluster = 0 ∨ ((fs.volume d).entry loc).size = 0) := by
  refine and_congr_right fun _ => ⟨fun h => ?_, fun h outLen => ?_⟩
  · refine or_iff_not_imp_left.mpr fun hfirst => ?_
    have hlen : l ≠ [] := by
      rcases ho with ⟨h0, _⟩ | hc
      · exact absurd h0 hfirst
      · exact hc.chain.ne_nil
    have hread := (runs_readFrom (C := fun _ => True) hg trivial 1 ho d rfl).2.2.1
    have hnil := congrArg List.length (Except.ok.inj (hread.symm.trans (h 1)))
    have hpos : 1 ≤ (fs.content (fs.volume d) l).length := by
      have hall : (fs.content (fs.volume d) l).length = 512 * (fs.sectors l).length := Volume.length_bytes _
      have hspc := hg.spc_pos
      have hl := List.length_pos_iff.mpr hlen
      have := Nat.mul_le_mul hspc hl
      rw [hall, length_sectors]
      omega
    rw [fileBytes, List.length_take, List.take_nil, List.length_nil] at hnil
    omega
  · rw [run_readFrom_nil _ _ _ h, List.take_nil]

/-- Outside the slots in `T`, files read as before. -/
theorem Preserves.fileOf_iff (hwf : fs.WellFormed (fs.volume d)) (h : fs.Preserves (fs.volume d) (fs.volume d') T)
    (hT : ¬ T loc) (hn : fs.Node (fs.volume d) path loc) : fs.FileOf d' loc c ↔ fs.FileOf d loc c := by
  obtain ⟨l, ho⟩ := hwf.chains hn
  have hs := h.survives hT hn
  have hread := hs.read hwf.geometry ho
  dsimp only at hread
  rw [FileOf, FileOf, hs.entry]
  simp only [hread]

theorem onlyAdds_of_preserves (hwf : fs.WellFormed (fs.volume d))
    (h : fs.Preserves (fs.volume d) (fs.volume d') fun _ => False) (create : Prop) : fs.OnlyAdds create d d' where
  kept := by
    rintro path c ⟨loc, hn, hfile⟩
    exact ⟨loc, (h.node not_false).mpr hn, (h.fileOf_iff hwf not_false hn).mpr hfile⟩
  added := by
    rintro path c ⟨loc, hn, hfile⟩
    have hnv := (h.node not_false).mp hn
    exact .inl ⟨loc, hnv, (h.fileOf_iff hwf not_false hnv).mp hfile⟩

/-- One slot is touched. Afterwards it holds an empty file `name`, and before it held an empty file `name` too or
there was nothing of that name. -/
theorem onlyAdds_of_slot (hwf : fs.WellFormed (fs.volume d)) (h : fs.Preserves (fs.volume d) (fs.volume d') (· = slot))
    (hold : ∀ path, fs.Node (fs.volume d) path slot → path = [name] ∧ fs.FileOf d slot [])
    (hnew : ∀ path, fs.Node (fs.volume d') path slot → path = [name])
    (hn : fs.Node (fs.volume d') [name] slot) (hfile : fs.FileOf d' slot [])
    (hwas : fs.HasFile d [name] [] ∨ (create ∧ ∀ loc, ¬ fs.Node (fs.volume d) [name] loc)) :
    fs.OnlyAdds create d d' where
  kept := by
    rintro path c ⟨loc, hnv, hc⟩
    by_cases hs : loc = slot
    · rw [hs] at hnv hc
      obtain ⟨rfl, hnil⟩ := hold path hnv
      rw [hc.unique hnil]
      exact ⟨slot, hn, hfile⟩
    · exact ⟨loc, (h.node hs).mpr hnv, (h.fileOf_iff hwf hs hnv).mpr hc⟩
  added := by
    rintro path c ⟨loc, hnw, hc⟩
    by_cases hs : loc = slot
    · rw [hs] at hnw hc
      obtain rfl := hnew path hnw
      obtain rfl := hc.unique hfile
      exact hwas.imp_right fun ⟨hcreate, hno⟩ => ⟨hcreate, rfl, hno⟩
    · have hnv := (h.node hs).mp hnw
      exact .inl ⟨loc, hnv, (h.fileOf_iff hwf hs hnv).mp hc⟩

/-! ## At every cut -/

/-- Until the entry is written, only free clusters have changed, or those of the file too. -/
theorem Cut.agreeOff (h1 : 1 ≤ fs.clustersNeeded data) (h : fs.Cut v base own slot name data w) :
    v.AgreeOff (· ∈ fs.freeList v) w ∨ base.AgreeOff (fun c => c ∈ own ∨ c ∈ fs.freeList base) w ∨
      (fs.Room base own (fs.clustersNeeded data) ∧ w = fs.outcome base own slot name data) := by
  cases h with
  | growing h => exact .inl h
  | fitting h => exact .inr (.inl (h.agreeOff h1))
  | writing _ j => exact .inr (.inl (agreeOff_overwritten h1 j))
  | done hroom => exact .inr (.inr ⟨hroom, by rw [outcome, if_pos hroom]⟩)

/-- The new entry is that of an empty file. -/
theorem fileOf_new {first : Nat} (h : (fs.volume d).entry slot = newEntry name first 0) : fs.FileOf d slot [] := by
  rw [FileOf, h, newEntry.isDir_eq, newEntry.size_eq, Nat.zero_mod]
  exact ⟨Bool.false_ne_true, fun outLen => by rw [run_readFrom_nil _ _ _ (.inr rfl), List.take_nil]⟩

section

variable (hwf : fs.WellFormed (fs.volume d)) (ha : fs.Addressable)

include hwf ha

/-- Once the entry is written, there is one more empty file or still the same one. -/
theorem Place.onlyAdds (hR : fs.ChainAt (fs.volume d) fs.rootCluster.toNat R)
    (hp : fs.Place (fs.volume d) R name base R' own slot) (hc : fs.Callable (fs.volume d) name [])
    (hroom : fs.Room base own (fs.clustersNeeded [])) (hd' : fs.volume d' = fs.outcome base own slot name [])
    (hwas : fs.HasFile d [name] [] ∨ (create ∧ ∀ loc, ¬ fs.Node (fs.volume d) [name] loc)) : fs.OnlyAdds create d d' := by
  obtain ⟨hwfw, hw⟩ := hp.wrote hwf hR ha hc hroom
  obtain ⟨hwfb, hRb, hpres⟩ := hp.preserves hwf hR ha
  rw [← hd'] at hwfw hw
  obtain ⟨R₁, hR₁⟩ := hwfw.root
  have hslot := (mem_live ((node_singleton hR₁).mp hw.node).1).1
  have hpath : ∀ path, fs.Node (fs.volume d') path slot → path = [name] := fun path hn => by
    rw [path_of_root_slot hwfw hR₁ hslot hn, hw.entry, newEntry.name_eq]
  refine onlyAdds_of_slot hwf hw.preserves (fun path hn => ?_) hpath hw.node (fileOf_new hw.entry) hwas
  have hpathv : path = [name] := by
    by_contra hne
    exact hw.other hn hne rfl
  subst hpathv
  refine ⟨rfl, ?_⟩
  rcases hwas with ⟨loc, hn', hfile⟩ | ⟨_, hno⟩
  · obtain rfl := hw.old hn'
    exact hfile
  · exact absurd hn (hno slot)

omit ha in
/-- Until then the file at the slot still is empty. -/
theorem Target.onlyAdds (hR : fs.ChainAt (fs.volume d) fs.rootCluster.toNat R)
    (ht : fs.Target (fs.volume d) R name own slot) (hn : fs.Node (fs.volume d) [name] slot) (hfile : fs.FileOf d slot [])
    (hw : (fs.volume d).AgreeOff (fun c => c ∈ own ∨ c ∈ fs.freeList (fs.volume d)) (fs.volume d')) :
    fs.OnlyAdds create d d' := by
  have hdir : fs.NotSubdir (fs.volume d) name := fun loc hloc => by
    rw [ht.old hwf hR hloc]
    exact hfile.1
  have hpriv := ht.private hwf hR hdir
  have hk := ht.keeps_old hwf hR hdir hw
  have hmem := ht.slot_mem hwf hR
  have hentry := agreeOff_root hR hpriv.root hw hmem
  have hname := ((node_singleton hR).mp hn).2
  have hlive : fs.liveSlots (fs.volume d') R = fs.liveSlots (fs.volume d) R :=
    live_congr fun _ h => agreeOff_root hR hpriv.root hw h
  have hn' : fs.Node (fs.volume d') [name] slot := by
    rw [node_singleton hk.root, hlive, hentry]
    exact (node_singleton hR).mp hn
  have hempty : fs.FileOf d' slot [] := by
    obtain ⟨l, ho⟩ := hwf.chains hn
    obtain ⟨hfileDir, hnil⟩ := (fileOf_nil_iff hwf.geometry ho).mp hfile
    rw [FileOf, hentry]
    exact ⟨hfileDir, fun outLen => by rw [run_readFrom_nil _ _ _ hnil, List.take_nil]⟩
  refine onlyAdds_of_slot hwf (hk.preserves hwf hR hpriv) (fun path h => ?_) (fun path h => ?_) hn' hempty
    (.inl ⟨slot, hn, hfile⟩)
  · rw [path_of_root_slot hwf hR hmem h, hname]
    exact ⟨rfl, hfile⟩
  · rw [hk.path_of_root_slot hwf hR hpriv hmem h, hentry, hname]

/-- Whatever blocks fail, `write_file` without data only adds an empty file, if the name is absent, or that of an empty
file, or there is no cluster for it. -/
theorem runFaults_onlyAdds (hname : name.Proper)
    (h : (create ∧ ∀ loc, ¬ fs.Node (fs.volume d) [name] loc) ∨ fs.HasFile d [name] [] ∨ ¬ fs.Fits (fs.volume d) name [])
    (faults : Nat → Option Stop) (i : Nat) : fs.OnlyAdds create d ((fs.writeFile name []).runFaults faults i d).2.2 := by
  obtain ⟨n, hcrash⟩ := Prog.exists_crash_eq_runFaults faults (fs.writeFile name []) i d
  rw [← hcrash]
  obtain ⟨R, hR⟩ := hwf.root
  rcases place_or_stuck hwf hR name with ⟨base, R', own, slot, hp⟩ | hs
  · have hcut := (runs_writeFile hwf hR ha hp (show ([] : List UInt8).length < 2 ^ 32 by decide) d rfl).1 n
    generalize hd' : (fs.writeFile name []).crash n d = d' at hcut
    have hwritten : fs.Room base own (fs.clustersNeeded []) → fs.volume d' = fs.outcome base own slot name [] →
        fs.OnlyAdds create d d' := by
      intro hroom hv
      have hfits := (hp.room_iff hwf hR ha).mp hroom
      rcases h with ⟨hcreate, hno⟩ | ⟨loc, hn, hfile⟩ | hnot
      · exact hp.onlyAdds hwf ha hR (callable_nil hname hno) hroom hv (.inr ⟨hcreate, hno⟩)
      · have hdir : fs.NotSubdir (fs.volume d) name := fun loc' hn' => by
          rw [hwf.root_unique hn' hn]
          exact hfile.1
        exact hp.onlyAdds hwf ha hR ⟨hname, hdir, by decide⟩ hroom hv (.inl ⟨loc, hn, hfile⟩)
      · exact absurd hfits hnot
    have h1 : 1 ≤ fs.clustersNeeded [] := Nat.le_of_eq (clustersNeeded_nil hwf.geometry).symm
    rcases hcut.agreeOff h1 with hw | hw | ⟨hroom, hv⟩
    · exact onlyAdds_of_preserves hwf (preserves_of_free hwf hw).2 create
    · by_cases hown : own = []
      · -- a file without clusters, so only free ones have changed
        obtain ⟨hwfb, _, hpres⟩ := hp.preserves hwf hR ha
        subst hown
        have hw' := hw.mono fun c hc => hc.resolve_left List.not_mem_nil
        exact onlyAdds_of_preserves hwf (hpres.trans (preserves_of_free hwfb hw').2) create
      · obtain ⟨loc, hn, hfile⟩ : fs.HasFile d [name] [] := by
          rcases h with ⟨_, hno⟩ | hempty | hnot
          · rcases hp.clusters hwf hR with ⟨loc, hn, _⟩ | ⟨_, hnil⟩
            · exact absurd hn (hno loc)
            · exact absurd hnil hown
          · exact hempty
          · refine absurd ((hp.room_iff hwf hR ha).mp ?_) hnot
            have hlen := List.length_pos_iff.mpr hown
            rw [Room, clustersNeeded_nil hwf.geometry]
            omega
        cases hp with
        | extend _ _ _ => exact absurd rfl hown
        | here ht =>
            obtain rfl := ht.old hwf hR hn
            exact ht.onlyAdds hwf hR hn hfile hw
    · exact hwritten hroom hv
  · have hsame := (runs_writeFile_stuck (C := (· = fs.volume d)) hwf hR hs [] rfl d rfl).1 n
    refine onlyAdds_of_preserves hwf ?_ create
    rw [hsame]
    exact .refl _ _

/-- On a working card, the name leads to an empty file afterwards, whatever it was. -/
theorem run_hasFile (hname : name.Proper) (hfits : fs.Fits (fs.volume d) name []) :
    fs.HasFile ((fs.writeFile name []).run d).2 [name] [] := by
  have hlen : ([] : List UInt8).length < 2 ^ 32 := by decide
  have h1 : 1 ≤ fs.clustersNeeded [] := Nat.le_of_eq (clustersNeeded_nil hwf.geometry).symm
  obtain ⟨R, hR⟩ := hwf.root
  rcases place_or_stuck hwf hR name with ⟨base, R', own, slot, hp⟩ | hs
  · have hroom := (hp.room_iff hwf hR ha).mpr hfits
    obtain ⟨hwfb, hRb, _⟩ := hp.preserves hwf hR ha
    have hv := (runs_writeFile hwf hR ha hp hlen d rfl).2.2.2
    rw [outcome, if_pos hroom, written] at hv
    obtain ⟨hn, he⟩ := (hp.target hwf hR).node_new hwfb hRb (agreeOff_filled [] h1)
      ((fs.fittedChain base own (fs.clustersNeeded [])).headD 0) 0 hname
    rw [List.length_nil] at hv
    rw [← hv] at hn he
    exact ⟨slot, hn, fileOf_new he⟩
  · have hneed := hfits R [] hR (hs.clusters hR)
    rw [hs.avail_eq, clustersNeeded_nil hwf.geometry] at hneed
    exact absurd hneed (by decide)

end

end Fat32

end Ferro
