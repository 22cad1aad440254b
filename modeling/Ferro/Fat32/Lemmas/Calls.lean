import Ferro.Fat32.Lemmas.Reach

/-!
# Whole calls

What a `write_file` call on a working card does to a well-formed volume, and what `read_file` returns on one.
-/

namespace Ferro

namespace Fat32

variable {fs : Fat32} {C : Volume → Prop} {v w base : Volume} {R R' own m l : List Nat} {slot loc : Loc}
  {name : Name} {data : List UInt8} {outLen : Nat} {T : Loc → Prop} {d : Disk}

/-- What the callers of `write_file` promise. -/
structure Callable (fs : Fat32) (v : Volume) (name : Name) (data : List UInt8) : Prop where
  proper : name.Proper
  notSubdir : fs.NotSubdir v name
  length : data.length < 2 ^ 32

/-- The clusters of the root file `name`, none if there is no such file. -/
def Clusters (fs : Fat32) (v : Volume) (name : Name) (l : List Nat) : Prop :=
  (∃ loc, fs.Node v [name] loc ∧ fs.Owns v loc l) ∨ ((∀ loc, ¬ fs.Node v [name] loc) ∧ l = [])

/-- An entry for `name` needs another root cluster. -/
def RootFull (fs : Fat32) (v : Volume) (R : List Nat) (name : Name) : Prop :=
  (∀ loc, ¬ fs.Node v [name] loc) ∧ ∀ loc ∈ fs.slots R, ¬ (v.entry loc).isFree

open Classical in
/-- The clusters that are free for the file once the root has room for its entry. -/
noncomputable def avail (fs : Fat32) (v : Volume) (R : List Nat) (name : Name) : Nat :=
  (fs.freeList v).length - if fs.RootFull v R name then 1 else 0

/-- The file's own clusters and the free ones are enough for `data`. -/
def Fits (fs : Fat32) (v : Volume) (name : Name) (data : List UInt8) : Prop :=
  ∀ R own, fs.ChainAt v fs.rootCluster.toNat R → fs.Clusters v name own →
    fs.clustersNeeded data ≤ own.length + fs.avail v R name

theorem fits_congr {data' : List UInt8} (h : data.length = data'.length) :
    fs.Fits v name data ↔ fs.Fits v name data' := by
  simp only [Fits, clustersNeeded, h]

/-! ## The place and the room -/

theorem Place.clusters (hwf : fs.WellFormed v) (hR : fs.ChainAt v fs.rootCluster.toNat R)
    (hp : fs.Place v R name base R' own slot) : fs.Clusters v name own := by
  cases hp with
  | here ht =>
      cases ht with
      | found h ho => exact Or.inl ⟨slot, (lookup_node hwf hR).mp h, ho⟩
      | free h _ => exact Or.inr ⟨(lookup_absent hR).mp h, rfl⟩
  | extend h _ _ => exact Or.inr ⟨(lookup_absent hR).mp h, rfl⟩

theorem Clusters.unique (hwf : fs.WellFormed v) (h : fs.Clusters v name l) (h' : fs.Clusters v name m) : l = m := by
  rcases h with ⟨loc, hn, ho⟩ | ⟨hn, rfl⟩
  · rcases h' with ⟨loc', hn', ho'⟩ | ⟨hn', _⟩
    · obtain rfl := hwf.root_unique hn hn'
      exact ho.unique ho'
    · exact absurd hn (hn' loc)
  · rcases h' with ⟨loc', hn', _⟩ | ⟨_, rfl⟩
    · exact absurd hn' (hn loc')
    · rfl

theorem Place.free_base (hwf : fs.WellFormed v) (hR : fs.ChainAt v fs.rootCluster.toNat R) (ha : fs.Addressable)
    (hp : fs.Place v R name base R' own slot) : (fs.freeList base).length = fs.avail v R name := by
  have hcl := hp.clusters hwf hR
  cases hp with
  | here ht =>
      have hfull : ¬ fs.RootFull v R name := by
        rintro ⟨hn, hs⟩
        cases ht with
        | found h _ => exact hn slot ((lookup_node hwf hR).mp h)
        | free _ hf => exact hs slot (List.mem_of_find?_eq_some hf) (by simpa using List.find?_some hf)
      rw [avail, if_neg hfull, Nat.sub_zero]
  | @extend n t h hs hf =>
      have hfull : fs.RootFull v R name :=
        ⟨(lookup_absent hR).mp h, fun loc hloc => by simpa using List.find?_eq_none.mp hs loc hloc⟩
      rw [avail, if_pos hfull, freeList_extended ha hR hf, hf]
      rfl

theorem Place.room_iff (hwf : fs.WellFormed v) (hR : fs.ChainAt v fs.rootCluster.toNat R) (ha : fs.Addressable)
    (hp : fs.Place v R name base R' own slot) :
    fs.Room base own (fs.clustersNeeded data) ↔ fs.Fits v name data := by
  have hcl := hp.clusters hwf hR
  rw [Room, hp.free_base hwf hR ha]
  constructor
  · intro h R₁ own₁ hR₁ hcl₁
    rw [hR₁.unique hR, hcl₁.unique hwf hcl]
    exact h
  · intro h; exact h R own hR hcl

theorem Stuck.avail_eq (hs : fs.Stuck v R name) : fs.avail v R name = 0 := by
  rw [avail, hs.2.2, List.length_nil, Nat.zero_sub]

theorem Stuck.clusters (hR : fs.ChainAt v fs.rootCluster.toNat R) (hs : fs.Stuck v R name) :
    fs.Clusters v name [] :=
  Or.inr ⟨(lookup_absent hR).mp hs.1, rfl⟩

theorem Stuck.not_fits (hwf : fs.WellFormed v) (hR : fs.ChainAt v fs.rootCluster.toNat R) (hs : fs.Stuck v R name)
    (hlen : data.length < 2 ^ 32) : ¬ fs.Fits v name data := by
  intro h
  have h1 := one_le_clustersNeeded hwf.geometry hlen
  have hfit := h R [] hR (hs.clusters hR)
  rw [hs.avail_eq, List.length_nil] at hfit
  omega

/-! ## `write_file` -/

/-- `w` is `v` with the root file `name` holding `data` in the clusters `m`. -/
structure Wrote (fs : Fat32) (v w : Volume) (name : Name) (data : List UInt8) (slot : Loc) (m : List Nat) :
    Prop where
  preserves : fs.Preserves v w (· = slot)
  node : fs.Node w [name] slot
  entry : w.entry slot = newEntry name (m.headD 0) data.length
  owns : fs.Owns w slot m
  length : m.length = fs.clustersNeeded data
  content : (fs.content w m).take data.length = data
  old {loc : Loc} : fs.Node v [name] loc → loc = slot
  other {path : List Name} {loc : Loc} : fs.Node v path loc → path ≠ [name] → loc ≠ slot

theorem Target.old (hwf : fs.WellFormed v) (hR : fs.ChainAt v fs.rootCluster.toNat R)
    (ht : fs.Target v R name own slot) (hn : fs.Node v [name] loc) : loc = slot := by
  cases ht with
  | found h _ => exact hwf.root_unique hn ((lookup_node hwf hR).mp h)
  | free h _ => exact absurd hn ((lookup_absent hR).mp h loc)

theorem Place.ne_slot (hwf : fs.WellFormed v) (hR : fs.ChainAt v fs.rootCluster.toNat R) (ha : fs.Addressable)
    (hp : fs.Place v R name base R' own slot) {path : List Name} (hn : fs.Node v path loc) (hne : path ≠ [name]) :
    loc ≠ slot := by
  obtain ⟨hwfb, hRb, hpres⟩ := hp.preserves hwf hR ha
  exact (hp.target hwf hR).ne_slot hwfb hRb ((hpres.node not_false).mpr hn) hne

theorem Place.wrote (hwf : fs.WellFormed v) (hR : fs.ChainAt v fs.rootCluster.toNat R) (ha : fs.Addressable)
    (hp : fs.Place v R name base R' own slot) (hc : fs.Callable v name data)
    (hroom : fs.Room base own (fs.clustersNeeded data)) :
    fs.WellFormed (fs.outcome base own slot name data) ∧
      fs.Wrote v (fs.outcome base own slot name data) name data slot
        (fs.fittedChain base own (fs.clustersNeeded data)) := by
  obtain ⟨hwfb, hRb, hpres⟩ := hp.preserves hwf hR ha
  obtain ⟨_, _, rfl, rfl, hwfw, hn, he, ho, hbytes⟩ := hp.written hwf hR ha hc.notSubdir hc.proper hc.length hroom
  have hcut : fs.Cut v base own slot name data (fs.outcome base own slot name data) := by
    rw [outcome, if_pos hroom]; exact .done hroom
  refine ⟨hwfw, hcut.preserves hwf hR ha hp hc.notSubdir hc.proper hc.length, hn, he, ho,
    hroom.length_fittedChain, hbytes, fun hn' => ?_, hp.ne_slot hwf hR ha⟩
  exact (hp.target hwf hR).old hwfb hRb ((hpres.node not_false).mpr hn')

theorem Place.lost_written (hwf : fs.WellFormed v) (hR : fs.ChainAt v fs.rootCluster.toNat R) (ha : fs.Addressable)
    (hp : fs.Place v R name base R' own slot) (hc : fs.Callable v name data)
    (hroom : fs.Room base own (fs.clustersNeeded data)) :
    fs.lost (fs.outcome base own slot name data) = fs.lost v := by
  obtain ⟨hwfb, hRb, hpres⟩ := hp.preserves hwf hR ha
  have ht := hp.target hwf hR
  have hdirb := hpres.notSubdir hc.notSubdir
  have h1 := one_le_clustersNeeded hwf.geometry hc.length
  obtain ⟨hwfw, hw⟩ := hp.wrote hwf hR ha hc hroom
  have hk := ht.keeps_new hwfb hRb hdirb (agreeOff_filled data h1)
    ((fs.fittedChain base own (fs.clustersNeeded data)).headD 0) data.length hc.proper
  have hout : fs.outcome base own slot name data = fs.written base own
      (fs.fittedChain base own (fs.clustersNeeded data)) slot name data := if_pos hroom
  rw [hout] at hwfw hw ⊢
  rw [← hp.lost_base hwf hR ha]
  exact ht.lost_written hwfb hRb h1 hwfw hk.root (hk.preserves hwfb hRb (ht.private hwfb hRb hdirb))
    (Volume.fill_fat _ _) hw.node hw.owns

theorem Place.lost_stopped (hwf : fs.WellFormed v) (hR : fs.ChainAt v fs.rootCluster.toNat R) (ha : fs.Addressable)
    (hp : fs.Place v R name base R' own slot) (hroom : ¬ fs.Room base own (fs.clustersNeeded data)) :
    fs.lost (fs.outcome base own slot name data) = fs.lost v ∪ {c | c ∈ fs.freeList base} := by
  obtain ⟨hwfb, _, _⟩ := hp.preserves hwf hR ha
  rw [outcome, if_neg hroom, lost_allocated hwfb ha, hp.lost_base hwf hR ha]

theorem Place.length_root (hR : fs.ChainAt v fs.rootCluster.toNat R) (ha : fs.Addressable)
    (hp : fs.Place v R name base R' own slot) :
    (fs.freeList base).length + R'.length = (fs.freeList v).length + R.length := by
  cases hp with
  | here _ => rfl
  | extend _ _ hf =>
      simp only [freeList_extended ha hR hf, hf, List.length_append, List.length_cons, List.length_nil]
      omega

theorem run_writeFile (hwf : fs.WellFormed (fs.volume d)) (ha : fs.Addressable)
    (hc : fs.Callable (fs.volume d) name data) :
    ∃ r d', (fs.writeFile name data).run d = (r, d') ∧ fs.Mirrors d d' ∧ fs.WellFormed (fs.volume d') ∧
      ((r = .ok () ∧ fs.Fits (fs.volume d) name data ∧
          ∃ slot m, fs.Wrote (fs.volume d) (fs.volume d') name data slot m) ∨
        (r = .error (.err .noSpace) ∧ ¬ fs.Fits (fs.volume d) name data ∧
          fs.Preserves (fs.volume d) (fs.volume d') fun _ => False)) := by
  obtain ⟨R, hR⟩ := hwf.root
  rcases place_or_stuck hwf hR name with ⟨base, R', own, slot, hp⟩ | hs
  · have hrun := runs_writeFile hwf hR ha hp hc.length
    obtain ⟨_, hmir, _, hv⟩ := hrun d rfl
    refine ⟨_, _, hrun.run_eq rfl, hmir, ?_⟩
    rw [hv]
    by_cases hroom : fs.Room base own (fs.clustersNeeded data)
    · obtain ⟨hwfw, hw⟩ := hp.wrote hwf hR ha hc hroom
      refine ⟨hwfw, Or.inl ⟨by rw [result, if_pos hroom], (hp.room_iff hwf hR ha).mp hroom, slot, _, hw⟩⟩
    · obtain ⟨hwfw, hpres⟩ := hp.stopped hwf hR ha hroom
      refine ⟨hwfw, Or.inr ⟨by rw [result, if_neg hroom], fun h => hroom ((hp.room_iff hwf hR ha).mpr h), hpres⟩⟩
  · have hrun := runs_writeFile_stuck (C := fun _ => True) hwf hR hs data trivial
    obtain ⟨_, hmir, _, hv⟩ := hrun d rfl
    refine ⟨_, _, hrun.run_eq rfl, hmir, ?_⟩
    rw [hv]
    exact ⟨hwf, Or.inr ⟨rfl, hs.not_fits hwf hR hc.length, .refl _ _⟩⟩

/-! ## `read_file` -/

theorem runs_readFile (outLen : Nat) (hwf : fs.WellFormed v) (hC : C v) (hn : fs.Node v [name] loc) (ho : fs.Owns v loc l) :
    fs.Runs C (fs.readFile name outLen) v (.ok (fs.fileBytes v (v.entry loc) l outLen)) v := by
  obtain ⟨R, hR⟩ := hwf.root
  exact runs_readFile_some hwf.geometry hC outLen hR ((lookup_node hwf hR).mpr hn) ho

theorem runs_readFile_absent (outLen : Nat) (hwf : fs.WellFormed v) (hC : C v) (hn : ∀ loc, ¬ fs.Node v [name] loc) :
    fs.Runs C (fs.readFile name outLen) v (.error (.err .notFound)) v := by
  obtain ⟨R, hR⟩ := hwf.root
  exact runs_readFile_none hwf.geometry hC outLen hR ((lookup_absent hR).mpr hn)

theorem run_readFile (name : Name) (outLen : Nat) (hwf : fs.WellFormed (fs.volume d)) :
    fs.volume ((fs.readFile name outLen).run d).2 = fs.volume d ∧
      ((∃ buf, ((fs.readFile name outLen).run d).1 = .ok buf) ∨
        ((fs.readFile name outLen).run d).1 = .error (.err .notFound)) := by
  by_cases hn : ∃ loc, fs.Node (fs.volume d) [name] loc
  · obtain ⟨loc, hn⟩ := hn
    obtain ⟨l, ho⟩ := hwf.chains hn
    obtain ⟨_, _, hr, hv⟩ := runs_readFile (C := fun _ => True) outLen hwf trivial hn ho d rfl
    exact ⟨hv, Or.inl ⟨_, hr⟩⟩
  · obtain ⟨_, _, hr, hv⟩ := runs_readFile_absent (C := fun _ => True) outLen hwf trivial (not_exists.mp hn) d rfl
    exact ⟨hv, Or.inr hr⟩

theorem content_congr (h : ∀ c ∈ l, ∀ s, w.data (c, s) = v.data (c, s)) : fs.content w l = fs.content v l :=
  Volume.bytes_congr fun p hp => h p.1 (mem_sectors.mp hp).1 p.2

theorem Preserves.read_eq {d' : Disk} (hwf : fs.WellFormed (fs.volume d)) (hwf' : fs.WellFormed (fs.volume d'))
    (hpres : fs.Preserves (fs.volume d) (fs.volume d') T) (hv : ∀ loc, fs.Node (fs.volume d) [name] loc → ¬ T loc)
    (hw : ∀ loc, fs.Node (fs.volume d') [name] loc → ¬ T loc) :
    ((fs.readFile name outLen).run d').1 = ((fs.readFile name outLen).run d).1 := by
  by_cases hn : ∃ loc, fs.Node (fs.volume d) [name] loc
  · obtain ⟨loc, hn⟩ := hn
    have hT := hv loc hn
    obtain ⟨l, ho⟩ := hwf.chains hn
    have hr := runs_readFile (C := fun _ => True) outLen hwf trivial hn ho
    have hr' := runs_readFile (C := fun _ => True) outLen hwf' trivial ((hpres.node hT).mpr hn)
      (hpres.owns hT hn ho)
    rw [(hr d rfl).2.2.1, (hr' d' rfl).2.2.1, hpres.entry hT hn, fileBytes, fileBytes,
      content_congr fun c hc s => hpres.data hT hn ho hc]
  · have hn' : ∀ loc, ¬ fs.Node (fs.volume d') [name] loc := fun loc h =>
      hn ⟨loc, (hpres.node (hw loc h)).mp h⟩
    have hr := runs_readFile_absent (C := fun _ => True) outLen hwf trivial (not_exists.mp hn)
    have hr' := runs_readFile_absent (C := fun _ => True) outLen hwf' trivial hn'
    rw [(hr d rfl).2.2.1, (hr' d' rfl).2.2.1]

theorem Wrote.read_eq {d' : Disk} (hwf : fs.WellFormed (fs.volume d')) (hlen : data.length < 2 ^ 32)
    (h : fs.Wrote v (fs.volume d') name data slot m) (hout : data.length ≤ outLen) :
    ((fs.readFile name outLen).run d').1 = .ok data := by
  have hr := runs_readFile (C := fun _ => True) outLen hwf trivial h.node h.owns
  rw [(hr d' rfl).2.2.1, fileBytes, h.entry, newEntry.size_eq, Nat.mod_eq_of_lt hlen, Nat.min_eq_left hout,
    h.content]

theorem Wrote.read_other {d' : Disk} {name' : Name} (hwf : fs.WellFormed (fs.volume d))
    (hwf' : fs.WellFormed (fs.volume d')) (h : fs.Wrote (fs.volume d) (fs.volume d') name data slot m)
    (hne : name' ≠ name) :
    ((fs.readFile name' outLen).run d').1 = ((fs.readFile name' outLen).run d).1 := by
  have hpath : [name'] ≠ [name] := fun he => hne (List.cons.inj he).1
  refine h.preserves.read_eq hwf hwf' (fun loc hn => h.other hn hpath) fun loc hn hs => ?_
  obtain ⟨R, hR⟩ := hwf'.root
  subst hs
  exact hne (((node_singleton hR).mp hn).2.symm.trans ((node_singleton hR).mp h.node).2)

theorem Wrote.notSubdir {name' : Name} (h : fs.Wrote v w name data slot m) (hdir : fs.NotSubdir v name') :
    fs.NotSubdir w name' := by
  intro loc hn
  by_cases hs : loc = slot
  · rw [hs, h.entry, newEntry.isDir_eq]
    exact Bool.false_ne_true
  · have hnv := (h.preserves.node hs).mp hn
    rw [h.preserves.entry hs hnv]
    exact hdir loc hnv

end Fat32

end Ferro
