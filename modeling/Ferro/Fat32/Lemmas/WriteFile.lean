import Ferro.Fat32.Lemmas.Fit

/-!
# `write_file`, as an operation on the volume

Where the entry goes, what the volume is afterwards, and every volume a power loss on the way can leave.
-/

namespace Ferro

namespace Fat32

variable {fs : Fat32} {C : Volume → Prop} {v w base : Volume} {R R' own m : List Nat} {slot : Loc} {name : Name}
  {data : List UInt8}

/-! ## The search -/

theorem lookup_eq_some (hwf : fs.WellFormed v) (hR : fs.ChainAt v fs.rootCluster.toNat R) {loc : Loc} :
    fs.lookup v R name = some loc ↔ loc ∈ fs.liveSlots v R ∧ (v.entry loc).name = name := by
  constructor
  · intro h
    exact ⟨List.mem_of_find?_eq_some h, by simpa using List.find?_some h⟩
  · rintro ⟨hmem, hn⟩
    cases hl : fs.lookup v R name with
    | none => exact absurd hn (by simpa using List.find?_eq_none.mp hl loc hmem)
    | some x =>
        have hx : (v.entry x).name = name := by simpa using List.find?_some hl
        rw [hwf.names hR (List.mem_of_find?_eq_some hl) hmem (hx.trans hn.symm)]

theorem lookup_eq_none {loc : Loc} (h : fs.lookup v R name = none) (hloc : loc ∈ fs.liveSlots v R) :
    (v.entry loc).name ≠ name := by
  simpa using List.find?_eq_none.mp h loc hloc

theorem lookup_node (hwf : fs.WellFormed v) (hR : fs.ChainAt v fs.rootCluster.toNat R) {loc : Loc} :
    fs.lookup v R name = some loc ↔ fs.Node v [name] loc :=
  (lookup_eq_some hwf hR).trans (node_singleton hR).symm

theorem lookup_absent (hR : fs.ChainAt v fs.rootCluster.toNat R) :
    fs.lookup v R name = none ↔ ∀ loc, ¬ fs.Node v [name] loc := by
  constructor
  · exact fun h loc hn => lookup_eq_none h ((node_singleton hR).mp hn).1 ((node_singleton hR).mp hn).2
  · intro hno
    cases h : fs.lookup v R name with
    | none => rfl
    | some loc =>
        have hname : (v.entry loc).name = name := by simpa using List.find?_some h
        exact absurd ((node_singleton hR).mpr ⟨List.mem_of_find?_eq_some h, hname⟩) (hno loc)

theorem WellFormed.root_unique (hwf : fs.WellFormed v) {loc loc' : Loc} (h : fs.Node v [name] loc)
    (h' : fs.Node v [name] loc') : loc = loc' := by
  obtain ⟨R, hR⟩ := hwf.root
  exact Option.some.inj (((lookup_node hwf hR).mpr h).symm.trans ((lookup_node hwf hR).mpr h'))

/-- Names are unique, so the last match of `write_file`'s search is the first one. -/
theorem getLast?_filter_name (hwf : fs.WellFormed v) (hR : fs.ChainAt v fs.rootCluster.toNat R) (name : Name) :
    ((fs.liveSlots v R).filter fun loc => (v.entry loc).name = name).getLast? = fs.lookup v R name := by
  cases h : ((fs.liveSlots v R).filter fun loc => (v.entry loc).name = name).getLast? with
  | some loc =>
      have hmem := List.mem_filter.mp (List.mem_of_getLast? h)
      exact ((lookup_eq_some hwf hR).mpr ⟨hmem.1, by simpa using hmem.2⟩).symm
  | none =>
      rw [List.getLast?_eq_none_iff, List.filter_eq_nil_iff] at h
      exact (List.find?_eq_none.mpr h).symm

/-- What the search of the root directory sees. -/
def searched (fs : Fat32) (v : Volume) (R : List Nat) (name : Name) : Search where
  found := (fs.lookup v R name).map (fs.foundAt v)
  freeSlot := ((fs.slots R).find? fun loc => (v.entry loc).isFree).map fs.slotPos

theorem runs_search (hwf : fs.WellFormed v) (hR : fs.ChainAt v fs.rootCluster.toNat R) (hC : C v) (name : Name) :
    ∃ c, (((fs.slots R).any fun loc => (v.entry loc).isEnd) = false → c = R.getLastD 0) ∧
      fs.Runs C (fs.searchLoop name loopLimit fs.rootCluster.toNat {}) v
        (.ok (fs.searched v R name, c, !(fs.slots R).any fun loc => (v.entry loc).isEnd)) v := by
  obtain ⟨c, hc, hrun⟩ := runs_searchLoop hwf.geometry hC name R _ loopLimit {} hR
    (Nat.le_of_lt (length_le_loopLimit hwf.geometry hR))
  rw [scanLocs_eq] at hc hrun
  refine ⟨c, hc, ?_⟩
  have hl := getLast?_filter_name hwf hR name
  rw [liveSlots] at hl
  simpa only [searched, hl, Option.or_none, Option.none_or] using hrun

/-! ## Where the entry goes -/

/-- The entry of `name` goes to `slot` of the root directory `R`, and the file has the clusters `own`. -/
inductive Target (fs : Fat32) (v : Volume) (R : List Nat) (name : Name) : List Nat → Loc → Prop where
  | found {slot : Loc} {own : List Nat} (h : fs.lookup v R name = some slot) (ho : fs.Owns v slot own) :
      Target fs v R name own slot
  | free {slot : Loc} (h : fs.lookup v R name = none)
      (hs : ((fs.slots R).find? fun loc => (v.entry loc).isFree) = some slot) : Target fs v R name [] slot

/-- The place for the entry, where a full root directory `R` gets another cluster first, which turns `v` into
`base` and `R` into `R'`. -/
inductive Place (fs : Fat32) (v : Volume) (R : List Nat) (name : Name) :
    Volume → List Nat → List Nat → Loc → Prop where
  | here {own : List Nat} {slot : Loc} (ht : fs.Target v R name own slot) : Place fs v R name v R own slot
  | extend {n : Nat} {t : List Nat} (h : fs.lookup v R name = none)
      (hs : ((fs.slots R).find? fun loc => (v.entry loc).isFree) = none) (hf : fs.freeList v = n :: t) :
      Place fs v R name (fs.extended v R [n]) (R ++ [n]) [] ⟨n, 0, 0⟩

/-- The root directory is full and no cluster is free. -/
def Stuck (fs : Fat32) (v : Volume) (R : List Nat) (name : Name) : Prop :=
  fs.lookup v R name = none ∧ ((fs.slots R).find? fun loc => (v.entry loc).isFree) = none ∧ fs.freeList v = []

theorem place_or_stuck (hwf : fs.WellFormed v) (hR : fs.ChainAt v fs.rootCluster.toNat R) (name : Name) :
    (∃ base R' own slot, fs.Place v R name base R' own slot) ∨ fs.Stuck v R name := by
  cases h : fs.lookup v R name with
  | some slot =>
      obtain ⟨hl, rfl⟩ := (lookup_eq_some hwf hR).mp h
      obtain ⟨own, ho⟩ := hwf.chains (.root hR hl)
      exact Or.inl ⟨_, _, _, _, .here (.found h ho)⟩
  | none =>
      cases hs : (fs.slots R).find? fun loc => (v.entry loc).isFree with
      | some slot => exact Or.inl ⟨_, _, _, _, .here (.free h hs)⟩
      | none =>
          cases hf : fs.freeList v with
          | nil => exact Or.inr ⟨h, hs, hf⟩
          | cons n t => exact Or.inl ⟨_, _, _, _, .extend h hs hf⟩

/-- Where there is no reusable slot, no slot ends the directory. -/
theorem any_isEnd_of_find?_none {locs : List Loc} (h : (locs.find? fun loc => (v.entry loc).isFree) = none) :
    (locs.any fun loc => (v.entry loc).isEnd) = false := by
  rw [List.any_eq_false]
  intro loc hloc hend
  refine List.find?_eq_none.mp h loc hloc ?_
  simp only [DirEntry.isEnd] at hend
  simp only [DirEntry.isFree, hend, Bool.true_or]

/-! ## The result -/

theorem clustersNeeded_eq (hg : fs.Geometry) (hlen : data.length < 2 ^ 32) : fs.clustersNeeded data =
    max ((data.length + fs.clusterSizeBytes - 1) / fs.clusterSizeBytes) 1 := by
  have hspc := hg.spc_pos
  have hcs : 512 ≤ fs.clusterSizeBytes := by simp only [clusterSizeBytes, sectorSize]; omega
  refine wrap32_of_lt (Nat.max_lt.mpr ⟨?_, by decide⟩)
  refine Nat.lt_of_le_of_lt ?_ hlen
  cases data.length with
  | zero => rw [Nat.div_eq_of_lt (by omega)]
  | succ k =>
      refine Nat.div_le_of_le_mul ?_
      have h := Nat.mul_le_mul_right k (show 1 ≤ fs.clusterSizeBytes by omega)
      rw [Nat.mul_succ]
      omega

theorem one_le_clustersNeeded (hg : fs.Geometry) (hlen : data.length < 2 ^ 32) : 1 ≤ fs.clustersNeeded data := by
  rw [clustersNeeded_eq hg hlen]; exact Nat.le_max_right _ _

theorem length_le_clustersNeeded (hg : fs.Geometry) (hlen : data.length < 2 ^ 32) :
    data.length ≤ 512 * (fs.sectorsPerCluster.toNat * fs.clustersNeeded data) := by
  have hspc := hg.spc_pos
  rw [clustersNeeded_eq hg hlen]
  have hcs : fs.clusterSizeBytes = 512 * fs.sectorsPerCluster.toNat := by
    rw [clusterSizeBytes, sectorSize, Nat.mul_comm]
  rw [← Nat.mul_assoc, ← hcs]
  have hpos : 0 < fs.clusterSizeBytes := by omega
  have hdiv := Nat.lt_mul_div_succ (data.length + fs.clusterSizeBytes - 1) hpos
  have hmax := Nat.mul_le_mul_left fs.clusterSizeBytes (Nat.le_max_left
    ((data.length + fs.clusterSizeBytes - 1) / fs.clusterSizeBytes) 1)
  rw [Nat.mul_add, Nat.mul_one] at hdiv
  omega

theorem clustersNeeded_lt (data : List UInt8) : fs.clustersNeeded data < 2 ^ 32 := Nat.mod_lt _ (by decide)

/-- The volume after a successful `write_file` to a slot, when the clusters of the file end up as the chain `m`. -/
def written (fs : Fat32) (v : Volume) (own m : List Nat) (slot : Loc) (name : Name) (data : List UInt8) : Volume :=
  ((fs.fitted v own (fs.clustersNeeded data)).fill (fs.sectors m) data).setEntry slot
    (entryBytes name (m.headD 0) data.length)

/-- What a `write_file` call leaves when it ends. -/
def outcome (fs : Fat32) (v : Volume) (own : List Nat) (slot : Loc) (name : Name) (data : List UInt8) : Volume :=
  if fs.Room v own (fs.clustersNeeded data) then
    fs.written v own (fs.fittedChain v own (fs.clustersNeeded data)) slot name data
  else fs.allocated v (fs.freeList v)

def result (fs : Fat32) (v : Volume) (own : List Nat) (data : List UInt8) : Except Stop Unit :=
  if fs.Room v own (fs.clustersNeeded data) then .ok () else .error (.err .noSpace)

theorem FitCut.start {needed : Nat} : fs.FitCut v own needed v := by
  by_cases hle : needed ≤ own.length
  · have : fs.FitCut v own needed _ := .freeing hle 0
    rwa [List.take_zero, freeAll] at this
  · exact .taking (by omega) (.refl _ v)

/-- The part of `write_file` behind the search and the extension of the root. -/
theorem runs_fillFile (hg : fs.Geometry) {found : Option (Nat × Nat × Nat)} {freeSlot : Option (Nat × Nat)}
    (hlen : data.length < 2 ^ 32)
    (hown : (own = [] ∧ ∀ f ∈ found, f.2.2 = 0) ∨ ∃ f, found = some f ∧ fs.ChainAt v f.2.2 own)
    (hslot : (found.map fun f => (f.1, f.2.1)).or freeSlot = some (fs.slotPos slot))
    (hsec : fs.HasSector (slot.cluster, slot.sector))
    (hm : fs.Room v own (fs.clustersNeeded data) →
      fs.ChainAt (fs.fitted v own (fs.clustersNeeded data))
        ((fs.fittedChain v own (fs.clustersNeeded data)).headD 0) m ∧
      data.length ≤ 512 * (fs.sectorsPerCluster.toNat * m.length))
    (hfit : ∀ w, fs.FitCut v own (fs.clustersNeeded data) w → C w)
    (hwrite : fs.Room v own (fs.clustersNeeded data) → ∀ j,
      C ((fs.fitted v own (fs.clustersNeeded data)).fill ((fs.sectors m).take j) data))
    (hdone : fs.Room v own (fs.clustersNeeded data) → C (fs.written v own m slot name data)) :
    fs.Runs C (do
      let firstCluster ← fs.fitChain found (fs.clustersNeeded data)
      fs.writeLoop data (data.length + 1) firstCluster 0
      match (found.map fun f => (f.1, f.2.1)).or freeSlot with
      | some slot => writeEntry name slot firstCluster data.length
      | none => .fail .panic) v (fs.result v own data)
      (if fs.Room v own (fs.clustersNeeded data) then fs.written v own m slot name data
        else fs.allocated v (fs.freeList v)) := by
  have hchain := runs_fitChain (C := C) hg (one_le_clustersNeeded hg hlen) (clustersNeeded_lt data) hown hfit
  rw [hslot, result]
  by_cases hroom : fs.Room v own (fs.clustersNeeded data)
  · simp only [hroom, if_true] at hchain ⊢
    obtain ⟨hch, hcap⟩ := hm hroom
    have hhead : (fs.fittedChain v own (fs.clustersNeeded data)).headD 0 = m.headD 0 := by
      obtain ⟨t, ht⟩ := hch.chain.eq_cons
      rw [ht, List.headD_cons]
    have hlast := hwrite hroom (fs.sectors m).length
    rw [List.take_length] at hlast
    have hloop := runs_writeLoop (C := C) hg data m _ (data.length + 1) 0 _ hch (Nat.zero_le _) (by omega) (by omega)
      (by simpa using hwrite hroom)
    rw [List.drop_zero] at hloop
    refine .bind hchain (.bind hloop ?_)
    rw [hhead]
    exact runs_writeEntry hg hsec hlast (hdone hroom)
  · simp only [hroom, if_false] at hchain ⊢
    exact .bind_error hchain

theorem clusterSizeBytes_ne_zero (hg : fs.Geometry) : fs.clusterSizeBytes ≠ 0 := by
  have := hg.spc_pos
  simp only [clusterSizeBytes, sectorSize]
  omega

theorem clustersNeeded_nil (hg : fs.Geometry) : fs.clustersNeeded [] = 1 := by
  have hspc := hg.spc_pos
  have hcs : 0 < fs.clusterSizeBytes := Nat.pos_of_ne_zero (clusterSizeBytes_ne_zero hg)
  rw [clustersNeeded_eq hg (by decide), List.length_nil, Nat.div_eq_of_lt (by omega)]
  rfl

theorem Target.slot_mem (hwf : fs.WellFormed v) (hR : fs.ChainAt v fs.rootCluster.toNat R)
    (ht : fs.Target v R name own slot) : slot ∈ fs.slots R := by
  cases ht with
  | found h _ => exact (mem_live ((lookup_eq_some hwf hR).mp h).1).1
  | free _ hs => exact List.mem_of_find?_eq_some hs

theorem Place.hasSector (hwf : fs.WellFormed v) (hR : fs.ChainAt v fs.rootCluster.toNat R)
    (hp : fs.Place v R name base R' own slot) : fs.HasSector (slot.cluster, slot.sector) := by
  cases hp with
  | here ht =>
      have hsl := mem_slots.mp (ht.slot_mem hwf hR)
      exact ⟨hR.inRange _ hsl.1, hsl.2.1⟩
  | @extend n t _ _ hf =>
      have hn : n ∈ fs.freeList v := by rw [hf]; exact List.mem_cons_self
      exact ⟨(mem_freeList.mp hn).1, hwf.geometry.spc_pos⟩

theorem Place.own_found (hp : fs.Place v R name base R' own slot) :
    (own = [] ∧ ∀ f ∈ (fs.searched v R name).found, f.2.2 = 0) ∨
      ∃ f, (fs.searched v R name).found = some f ∧ fs.ChainAt base f.2.2 own := by
  cases hp with
  | here ht =>
      cases ht with
      | found h ho =>
          simp only [searched, h, Option.map_some]
          rcases ho with ⟨h0, rfl⟩ | ho
          · exact Or.inl ⟨rfl, by rintro f ⟨⟩; exact h0⟩
          · exact Or.inr ⟨_, rfl, ho⟩
      | free h _ => exact Or.inl ⟨rfl, by simp [searched, h]⟩
  | extend h _ _ => exact Or.inl ⟨rfl, by simp [searched, h]⟩

/-- Behind the search, a full root directory is extended, and then there is a slot. -/
theorem runs_extendRoot (hwf : fs.WellFormed v) (hR : fs.ChainAt v fs.rootCluster.toNat R)
    (hp : fs.Place v R name base R' own slot) {c : Nat}
    (hc : ((fs.slots R).any fun loc => (v.entry loc).isEnd) = false → c = R.getLastD 0)
    (hgrow : ∀ w, v.AgreeOff (· ∈ fs.freeList v) w → C w) (hbase : C base) :
    ∃ freeSlot, fs.Runs C (fs.extendRoot (fs.searched v R name) c
        (!(fs.slots R).any fun loc => (v.entry loc).isEnd)) v (.ok freeSlot) base ∧
      ((fs.searched v R name).found.map fun f => (f.1, f.2.1)).or freeSlot = some (fs.slotPos slot) := by
  have hg := hwf.geometry
  cases hp with
  | here ht =>
      refine ⟨(fs.searched v R name).freeSlot, ?_, ?_⟩
      · rw [extendRoot, if_neg (by cases ht <;> simp [searched, *])]
        exact .pure hbase
      · cases ht with
        | found h _ => simp only [searched, h, Option.map_some, Option.some_or, foundAt]
        | free h hs => simp only [searched, h, hs, Option.map_none, Option.map_some, Option.none_or]
  | @extend n t h hs hf =>
      have hn : n ∈ fs.freeList v := by rw [hf]; exact List.mem_cons_self
      have hnr := (mem_freeList.mp hn).1
      have hend := any_isEnd_of_find?_none hs
      have hlast : R.getLastD 0 ∈ R := by
        rw [List.getLastD_eq_getLast?, List.getLast?_eq_some_getLast hR.chain.ne_nil, Option.getD_some]
        exact List.getLast_mem _
      have hal := runs_allocateChain (C := C) hg (n := 1) (Nat.le_refl 1) hgrow
      rw [hf, if_pos (by simp), List.take_succ_cons, List.take_zero, List.headD_cons] at hal
      have hset := runs_setFatEntry (C := C) (v := fs.allocated v [n]) (x := n) hg (hR.inRange _ hlast).2
        (hgrow _ ((agreeOff_allocated fs _).mono fun x hx => by rw [List.mem_singleton.mp hx]; exact hn)) hbase
      refine ⟨some (fs.clusterToLba n, 0), ?_, ?_⟩
      · rw [extendRoot, if_pos (by simp [searched, h, hs, hend]), hc hend]
        exact .bind hal (.bind hset (.pure hbase))
      · simp only [searched, h, Option.map_none, Option.none_or, slotPos, hg.clusterToLba_eq hnr, dataLba,
          Nat.add_zero, Nat.zero_mul]

/-- `write_file` to a place, up to the chain that the fitted clusters form. -/
theorem runs_writeFile_place (hwf : fs.WellFormed v) (hR : fs.ChainAt v fs.rootCluster.toNat R)
    (hp : fs.Place v R name base R' own slot) (hlen : data.length < 2 ^ 32)
    (hm : fs.Room base own (fs.clustersNeeded data) →
      fs.ChainAt (fs.fitted base own (fs.clustersNeeded data))
        ((fs.fittedChain base own (fs.clustersNeeded data)).headD 0) m ∧
      data.length ≤ 512 * (fs.sectorsPerCluster.toNat * m.length))
    (hgrow : ∀ w, v.AgreeOff (· ∈ fs.freeList v) w → C w)
    (hfit : ∀ w, fs.FitCut base own (fs.clustersNeeded data) w → C w)
    (hwrite : fs.Room base own (fs.clustersNeeded data) → ∀ j,
      C ((fs.fitted base own (fs.clustersNeeded data)).fill ((fs.sectors m).take j) data))
    (hdone : fs.Room base own (fs.clustersNeeded data) → C (fs.written base own m slot name data)) :
    fs.Runs C (fs.writeFile name data) v (fs.result base own data)
      (if fs.Room base own (fs.clustersNeeded data) then fs.written base own m slot name data
        else fs.allocated base (fs.freeList base)) := by
  have hg := hwf.geometry
  obtain ⟨c, hc, hsearch⟩ := runs_search hwf hR (hgrow v (.refl _ v)) name
  obtain ⟨freeSlot, hext, hslot⟩ := runs_extendRoot hwf hR hp hc hgrow (hfit _ .start)
  rw [writeFile, if_neg (clusterSizeBytes_ne_zero hg)]
  exact .bind hsearch (.bind hext (runs_fillFile hg hlen hp.own_found hslot (hp.hasSector hwf hR) hm hfit hwrite
    hdone))

theorem runs_writeFile_stuck (hwf : fs.WellFormed v) (hR : fs.ChainAt v fs.rootCluster.toNat R)
    (hs : fs.Stuck v R name) (data : List UInt8) (hC : C v) :
    fs.Runs C (fs.writeFile name data) v (.error (.err .noSpace)) v := by
  have hg := hwf.geometry
  obtain ⟨h, hs, hf⟩ := hs
  obtain ⟨c, hc, hsearch⟩ := runs_search hwf hR hC name
  have hend := any_isEnd_of_find?_none hs
  rw [writeFile, if_neg (clusterSizeBytes_ne_zero hg)]
  refine .bind hsearch (.bind_error ?_)
  have hal := runs_allocateChain (C := C) (v := v) hg (n := 1) (Nat.le_refl 1) (fun w hw => by
    -- nothing is free, so nothing changes
    have : w = v := by
      refine Volume.ext (funext fun c => ?_) (funext fun p => ?_)
      · exact (hw c (by rw [hf]; exact List.not_mem_nil)).1
      · exact (hw p.1 (by rw [hf]; exact List.not_mem_nil)).2 p.2
    rw [this]; exact hC)
  rw [hf, if_neg (by simp), List.take_nil, allocated] at hal
  rw [extendRoot, if_pos (by simp [searched, h, hs, hend])]
  exact .bind_error hal

end Fat32

end Ferro
