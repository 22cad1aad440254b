import Ferro.Fat32.Lemmas.Calls
import Mathlib.Data.List.Sort

/-!
# Cards that hold a given volume

Every volume that fits a geometry is on some card. `blank` and `single` are formatted volumes, without a file and
with one.
-/

namespace Ferro

theorem getElem?_leBytes (k n i : Nat) :
    (leBytes k n)[i]? = if i < k then some (UInt8.ofNat (n / 256 ^ i)) else none := by
  induction k generalizing n i with
  | zero => simp [leBytes]
  | succ k ih =>
      cases i with
      | zero => simp [leBytes]
      | succ i =>
          rw [leBytes, List.getElem?_cons_succ, ih, Nat.div_div_eq_div_mul, Nat.pow_succ, Nat.mul_comm 256]
          simp only [Nat.add_lt_add_iff_right]

namespace Fat32

variable {fs : Fat32} {v : Volume} {l : List Nat} {name : Name} {len : Nat}

/-- The entries and sectors fit their places. -/
structure Holds (fs : Fat32) (v : Volume) : Prop where
  fat_lt (c) : v.fat c < 2 ^ 28
  fat_out (c) : fs.clusters ≤ c → v.fat c = 0
  data_out (p) : ¬ fs.HasSector p → v.data p = Arr.fill 0

/-- The card with the volume on it; all FAT copies are the same and the top bits of their entries are zero. -/
def card (fs : Fat32) (v : Volume) : Disk := fun lba =>
  if lba < fs.dataStart then
    ⟨fun i => UInt8.ofNat (v.fat ((lba - fs.fatStart) % fs.fatSizeSectors.toNat * 128 + i.val / 4) /
      256 ^ (i.val % 4))⟩
  else
    v.data ((lba - fs.dataStart) / fs.sectorsPerCluster.toNat + 2,
      (lba - fs.dataStart) % fs.sectorsPerCluster.toNat)

theorem rawEntry_card (hv : fs.Holds v) (hg : fs.Geometry) {c : Nat} (hc : c < fs.clusters) :
    fs.rawEntry (fs.card v) 0 c = v.fat c := by
  have hlba : fs.fatLba 0 c < fs.dataStart := fatLba_lt_dataStart hg.fats_pos hc
  have hsec := sector_lt hc
  have hsl : (fs.card v (fs.fatLba 0 c)).slice (c % 128 * 4) 4 = leBytes 4 (v.fat c) := by
    apply List.ext_getElem?
    intro i
    rw [Arr.getElem?_slice _ (by omega), getElem?_leBytes]
    by_cases hi : i < 4
    · have hidx : (fs.fatLba 0 c - fs.fatStart) % fs.fatSizeSectors.toNat * 128 + (c % 128 * 4 + i) / 4 = c := by
        have hoff : fs.fatLba 0 c - fs.fatStart = c / 128 := by simp only [fatLba]; omega
        rw [hoff, Nat.mod_eq_of_lt hsec]
        omega
      have hmod : (c % 128 * 4 + i) % 4 = i := by omega
      rw [if_pos hi, if_pos hi, card, if_pos hlba]
      simp only [Arr.nth, dif_pos (show c % 128 * 4 + i < 512 by omega), hidx, hmod]
    · rw [if_neg hi, if_neg hi]
  have := hv.fat_lt c
  rw [rawEntry, hsl, leNat_leBytes]
  exact Nat.mod_eq_of_lt (by omega)

theorem card_dataLba (hg : fs.Geometry) {p : Nat × Nat} (hp : fs.HasSector p) :
    fs.card v (fs.dataLba p) = v.data p := by
  obtain ⟨c, s⟩ := p
  obtain ⟨⟨h2, _⟩, hs⟩ := hp
  dsimp only at h2 hs
  have hle := fs.dataStart_le_dataLba (c, s)
  have hoff : fs.dataLba (c, s) - fs.dataStart = fs.sectorsPerCluster.toNat * (c - 2) + s := by
    simp only [dataLba, Nat.mul_comm (c - 2)]; omega
  have hspc := hg.spc_pos
  rw [card, if_neg (by omega), hoff, Nat.mul_add_div hspc, Nat.div_eq_of_lt hs, Nat.mul_add_mod,
    Nat.mod_eq_of_lt hs, Nat.add_zero, Nat.sub_add_cancel h2]

theorem volume_card (hg : fs.Geometry) (hv : fs.Holds v) : fs.volume (fs.card v) = v := by
  refine Volume.ext (funext fun c => ?_) (funext fun p => ?_)
  · simp only [volume]
    split
    · rw [rawEntry_card hv hg ‹_›, Nat.mod_eq_of_lt (hv.fat_lt c)]
    · exact (hv.fat_out c (by omega)).symm
  · simp only [volume]
    split
    · exact card_dataLba hg ‹_›
    · exact (hv.data_out p ‹_›).symm

theorem copiesAgree_card : fs.CopiesAgree (fs.card v) := by
  intro k hk j hj
  have hcopy : k * fs.fatSizeSectors.toNat + fs.fatSizeSectors.toNat ≤
      fs.numFats.toNat * fs.fatSizeSectors.toNat := copy_le hk
  have hlt : fs.fatStart + k * fs.fatSizeSectors.toNat + j < fs.dataStart := by
    simp only [dataStart] at hcopy ⊢; omega
  have hlt' : fs.fatStart + j < fs.dataStart := by omega
  have hoff : fs.fatStart + k * fs.fatSizeSectors.toNat + j - fs.fatStart = j + fs.fatSizeSectors.toNat * k := by
    rw [Nat.mul_comm]; omega
  have hoff' : fs.fatStart + j - fs.fatStart = j := by omega
  rw [card, if_pos hlt, card, if_pos hlt', hoff, hoff', Nat.add_mul_mod_self_left]

theorem Holds.setFat (hv : fs.Holds v) {c x : Nat} (hc : c < fs.clusters) (hx : x < 2 ^ 28) :
    fs.Holds (v.setFat c x) := by
  refine ⟨fun c' => ?_, fun c' hc' => ?_, hv.data_out⟩
  · by_cases h : c' = c
    · subst h; rw [Volume.setFat_fat_self]; exact hx
    · rw [Volume.setFat_fat_of_ne _ h]; exact hv.fat_lt c'
  · rw [Volume.setFat_fat_of_ne _ (by omega)]; exact hv.fat_out c' hc'

theorem Holds.setData (hv : fs.Holds v) {p : Nat × Nat} (hp : fs.HasSector p) (sector : Sector) :
    fs.Holds (v.setData p sector) := by
  refine ⟨hv.fat_lt, hv.fat_out, fun q hq => ?_⟩
  rw [Volume.setData_data_of_ne _ (by rintro rfl; exact hq hp)]
  exact hv.data_out q hq

theorem Holds.mark (hv : fs.Holds v) {c : Nat} (hc : fs.InRange c) : fs.Holds (fs.mark v c) := by
  have h := hv.setFat (x := endOfChain) hc.2 (by decide)
  refine ⟨h.fat_lt, h.fat_out, fun p hp => ?_⟩
  simp only [Fat32.mark, zeroed]
  split
  · rfl
  · exact h.data_out p hp

theorem Holds.allocated (hv : fs.Holds v) (hl : ∀ c ∈ l, fs.InRange c) : fs.Holds (fs.allocated v l) := by
  have hlink : ∀ (cs : List Nat) (prev : Nat) (v : Volume), fs.Holds v → fs.InRange prev →
      (∀ c ∈ cs, fs.InRange c) → fs.Holds (fs.linkAll prev cs v) := by
    intro cs
    induction cs with
    | nil => intro _ _ hv _ _; exact hv
    | cons c cs ih =>
        intro prev v hv hp hcs
        have hc := hcs c List.mem_cons_self
        exact ih c _ ((hv.mark hc).setFat hp.2 (Nat.mod_lt _ (by decide))) hc
          fun x hx => hcs x (List.mem_cons_of_mem _ hx)
  cases l with
  | nil => exact hv
  | cons c cs =>
      have hc := hl c List.mem_cons_self
      exact hlink cs c _ (hv.mark hc) hc fun x hx => hl x (List.mem_cons_of_mem _ hx)

theorem freeList_eq (hl : l.Pairwise (· < ·)) (h : ∀ c, c ∈ l ↔ fs.InRange c ∧ v.fat c = 0) : fs.freeList v = l :=
  List.Pairwise.eq_of_mem_iff (sorted_freeFrom 2) hl fun c => by rw [mem_freeList, h]

/-! ## An empty volume -/

/-- A volume with an empty root directory, whose clusters are free or marked as in use. -/
def blank (fs : Fat32) (free : List Nat) : Volume where
  fat c := if c < fs.clusters ∧ c ∉ free then endOfChain else 0
  data _ := Arr.fill 0

variable {free : List Nat}

theorem holds_blank : fs.Holds (fs.blank free) := by
  refine ⟨fun c => ?_, fun c hc => ?_, fun _ _ => rfl⟩
  · simp only [blank]; split <;> decide
  · simp only [blank]; rw [if_neg (by omega)]

theorem blank_fat_zero {c : Nat} (hc : c < fs.clusters) : (fs.blank free).fat c = 0 ↔ c ∈ free := by
  simp only [blank, hc, true_and]
  split
  · rename_i h; simp [h, endOfChain]
  · rename_i h; simpa using h

theorem chainAt_blank {c : Nat} (hc : fs.InRange c) (hf : c ∉ free) : fs.ChainAt (fs.blank free) c [c] := by
  refine ⟨.last (Volume.next_eq_none ?_), fun x hx => by rw [List.mem_singleton.mp hx]; exact hc⟩
  simp only [blank]
  rw [if_pos ⟨hc.2, hf⟩]

theorem isEnd_blank {loc : Loc} (hi : loc.index < 16) : ((fs.blank free).entry loc).isEnd := isEnd_of_zero hi rfl

variable (hg : fs.Geometry) (hroot : fs.InRange fs.rootCluster.toNat) (hfree : fs.rootCluster.toNat ∉ free)

theorem no_node_blank {path : List Name} {loc : Loc} : ¬ fs.Node (fs.blank free) path loc := by
  intro h
  induction h with
  | root hl h =>
      obtain ⟨hs, hlive⟩ := mem_live h
      exact not_isLive_of_isFree (isFree_of_isEnd (isEnd_blank (mem_slots.mp hs).2.2)) hlive
  | sub _ _ _ _ _ ih => exact ih

include hg hroot hfree in
theorem wellFormed_blank : fs.WellFormed (fs.blank free) where
  geometry := hg
  root := ⟨_, chainAt_blank hroot hfree⟩
  chains h := absurd h no_node_blank
  disjoint h := absurd h no_node_blank
  root_disjoint _ h := absurd h no_node_blank
  names _ h := absurd (mem_live h).2
    (not_isLive_of_isFree (isFree_of_isEnd (isEnd_blank (mem_slots.mp (mem_live h).1).2.2)))
  ended _ := (List.pairwise_of_forall_mem_list fun _ _ _ hb _ => isEnd_blank (mem_slots.mp hb).2.2)

/-! ## A volume with one file -/

/-- The blank volume with one file of `len` zero bytes in the clusters `l`. -/
def single (fs : Fat32) (free : List Nat) (name : Name) (l : List Nat) (len : Nat) : Volume :=
  (fs.allocated (fs.blank free) l).setEntry ⟨fs.rootCluster.toNat, 0, 0⟩ (entryBytes name (l.headD 0) len)

include hg hroot in
theorem holds_single (hl : ∀ c ∈ l, fs.InRange c) : fs.Holds (fs.single free name l len) :=
  (holds_blank.allocated hl).setData (p := (fs.rootCluster.toNat, 0)) ⟨hroot, hg.spc_pos⟩ _

include hg hroot hfree in
theorem wellFormed_single (len : Nat) (hname : name.Proper) (hl : ∀ c ∈ l, c ∈ free ∧ fs.InRange c)
    (hch : fs.ChainAt (fs.allocated (fs.blank free) l) (l.headD 0) l) :
    fs.WellFormed (fs.single free name l len) ∧
      fs.Node (fs.single free name l len) [name] ⟨fs.rootCluster.toNat, 0, 0⟩ ∧
      (fs.single free name l len).entry ⟨fs.rootCluster.toNat, 0, 0⟩ = newEntry name (l.headD 0) len ∧
      fs.Owns (fs.single free name l len) ⟨fs.rootCluster.toNat, 0, 0⟩ l ∧
      ∀ path loc, fs.Node (fs.single free name l len) path loc → loc = ⟨fs.rootCluster.toNat, 0, 0⟩ := by
  have hwf := wellFormed_blank hg hroot hfree
  have hR := chainAt_blank hroot hfree
  have hno : ∀ loc, ¬ fs.Node (fs.blank free) [name] loc := fun _ => no_node_blank
  have hlf : ∀ c ∈ l, c ∈ fs.freeList (fs.blank free) := fun c hc =>
    mem_freeList.mpr ⟨(hl c hc).2, (blank_fat_zero (hl c hc).2.2).mpr (hl c hc).1⟩
  obtain ⟨locs, hlocs⟩ := slots_singleton hg fs.rootCluster.toNat
  have ht : fs.Target (fs.blank free) [fs.rootCluster.toNat] name [] ⟨fs.rootCluster.toNat, 0, 0⟩ := by
    refine .free ((lookup_absent hR).mpr hno) ?_
    · rw [hlocs, List.find?_cons, isFree_of_isEnd (isEnd_blank (Nat.zero_lt_succ 15))]
  have hdir : fs.NotSubdir (fs.blank free) name := fun loc h => absurd h (hno loc)
  have hw : (fs.blank free).AgreeOff (fun c => c ∈ [] ∨ c ∈ fs.freeList (fs.blank free))
      (fs.allocated (fs.blank free) l) := (agreeOff_allocated fs l).mono fun c hc => Or.inr (hlf c hc)
  obtain ⟨hwfw, hn, he, ho⟩ := ht.wellFormed_new hwf hR hdir hw len hname hch fun c hc => Or.inr (hlf c hc)
  refine ⟨hwfw, hn, he, ho, fun path loc h => ?_⟩
  by_contra hne
  have hpres := (ht.keeps_new hwf hR hdir hw (l.headD 0) len hname).preserves hwf hR
    (ht.private hwf hR hdir)
  exact no_node_blank ((hpres.node hne).mp h)

include hfree in
theorem content_single (hn : l.Nodup) (hl : ∀ c ∈ l, c ∈ free) (name : Name) (len : Nat) :
    fs.content (fs.single free name l len) l = List.replicate (512 * (fs.sectors l).length) 0 := by
  have hzero : ∀ p ∈ fs.sectors l, (fs.single free name l len).data p = Arr.fill 0 := by
    rintro ⟨c, s⟩ hp
    obtain ⟨hc, hs⟩ := mem_sectors.mp hp
    have hne : (c, s) ≠ (fs.rootCluster.toNat, 0) := by
      intro he
      rw [(Prod.mk.inj he).1] at hc
      exact hfree (hl _ hc)
    exact (Volume.setData_data_of_ne _ hne).trans (allocated_data hn hc hs)
  rw [content]
  generalize fs.sectors l = ps at hzero
  induction ps with
  | nil => rfl
  | cons p ps ih =>
      have hfill : ((Arr.fill 0 : Sector)).toList = List.replicate 512 0 := List.ofFn_const 512 0
      rw [List.flatMap_cons, hzero p List.mem_cons_self, ih fun q hq => hzero q (List.mem_cons_of_mem _ hq), hfill,
        List.replicate_append_replicate, List.length_cons, Nat.mul_succ, Nat.add_comm]

include hroot hfree in
theorem chainAt_single (name : Name) (len : Nat) (hl : ∀ c ∈ l, c ∈ free) :
    fs.ChainAt (fs.single free name l len) fs.rootCluster.toNat [fs.rootCluster.toNat] := by
  refine (chainAt_blank hroot hfree).congr fun c hc => ?_
  rw [List.mem_singleton.mp hc]
  exact (agreeOff_allocated fs l _ fun h => hfree (hl _ h)).1

include hg hroot hfree in
/-- The entry of another file goes to the second slot of the root. -/
theorem target_single {name' : Name} (hname : name.Proper) (hl : ∀ c ∈ l, c ∈ free ∧ fs.InRange c)
    (hch : fs.ChainAt (fs.allocated (fs.blank free) l) (l.headD 0) l) (hne : name' ≠ name) :
    fs.Target (fs.single free name l len) [fs.rootCluster.toNat] name' [] ⟨fs.rootCluster.toNat, 0, 1⟩ := by
  obtain ⟨hwf, _, he, _, honly⟩ := wellFormed_single hg hroot hfree len hname hl hch
  have hR := chainAt_single hroot hfree name len fun c hc => (hl c hc).1
  refine .free ?_ ?_
  · cases h : fs.lookup (fs.single free name l len) [fs.rootCluster.toNat] name' with
    | none => rfl
    | some loc =>
        obtain ⟨hlive, hn⟩ := (lookup_eq_some hwf hR).mp h
        rw [honly _ _ (.root hR hlive), he, newEntry.name_eq] at hn
        exact absurd hn.symm hne
  · have h0 : ((fs.single free name l len).entry ⟨fs.rootCluster.toNat, 0, 0⟩).isFree = false := by
      rw [he]
      simp [DirEntry.isFree, newEntry.nth_zero, hname.1, hname.2]
    have h1 : ((fs.single free name l len).entry ⟨fs.rootCluster.toNat, 0, 1⟩).isFree = true := by
      rw [single, Volume.entry_setEntry (Nat.zero_lt_succ 15) (Nat.succ_lt_succ (Nat.zero_lt_succ 14)) (by simp),
        if_neg (by simp)]
      refine isFree_of_isEnd (isEnd_of_zero (Nat.succ_lt_succ (Nat.zero_lt_succ 14)) ?_)
      exact (agreeOff_allocated fs l _ fun h => hfree (hl _ h).1).2 0
    obtain ⟨locs, hlocs⟩ := slots_singleton hg fs.rootCluster.toNat
    rw [hlocs, List.find?_cons, h0, List.find?_cons, h1]

theorem freeList_single {rest : List Nat} (hrest : rest.Pairwise (· < ·)) (hr : ∀ c ∈ rest, fs.InRange c)
    (hmem : ∀ c, c ∈ rest ↔ c ∈ free ∧ c ∉ l)
    (hch : fs.ChainAt (fs.allocated (fs.blank free) l) (l.headD 0) l) :
    fs.freeList (fs.single free name l len) = rest := by
  refine freeList_eq hrest fun c => ?_
  by_cases hl : c ∈ l
  · refine iff_of_false (fun h => ((hmem c).mp h).2 hl) fun h => hch.fat_ne_zero hl h.2
  · have hfat : (fs.single free name l len).fat c = (fs.blank free).fat c := (agreeOff_allocated fs l c hl).1
    rw [hmem, hfat]
    constructor
    · rintro ⟨hf, _⟩
      have hcr := hr c ((hmem c).mpr ⟨hf, hl⟩)
      exact ⟨hcr, (blank_fat_zero hcr.2).mpr hf⟩
    · rintro ⟨hcr, h0⟩
      exact ⟨(blank_fat_zero hcr.2).mp h0, hl⟩

/-! ## A volume with one subdirectory -/

/-- The entry of a subdirectory. -/
def dirEntry (name : Name) (first : Nat) : DirEntry := (newEntry name first 0).put 11 [attrDirectory]

theorem dirEntry.slice_eq (name : Name) (first : Nat) {off n : Nat} (h : off + n ≤ 11 ∨ 12 ≤ off) (hn : off + n ≤ 32) :
    (dirEntry name first).slice off n = (newEntry name first 0).slice off n :=
  Arr.slice_put_disjoint _ _ hn h

theorem dirEntry.name_eq (name : Name) (first : Nat) : (dirEntry name first).name = name := by
  rw [DirEntry.name, dirEntry.slice_eq _ _ (by decide) (by decide)]
  exact newEntry.name_eq name first 0

theorem dirEntry.nth_zero (name : Name) (first : Nat) : (dirEntry name first).nth 0 = name.nth 0 := by
  rw [dirEntry, Arr.nth_put_of_not_mem _ _ (by decide), newEntry.nth_zero]

theorem dirEntry.attr_eq (name : Name) (first : Nat) : (dirEntry name first).attr = attrDirectory := by
  rw [DirEntry.attr, dirEntry, Arr.nth_put _ _ (by decide)]
  rfl

theorem dirEntry.firstCluster_eq (name : Name) {first : Nat} (h : first < 2 ^ 32) :
    (dirEntry name first).firstCluster = first := by
  rw [DirEntry.firstCluster, dirEntry.slice_eq _ _ (by decide) (by decide),
    dirEntry.slice_eq _ _ (by decide) (by decide)]
  exact newEntry.firstCluster_eq name first 0 h

theorem dirEntry.size_eq (name : Name) (first : Nat) : (dirEntry name first).size = 0 := by
  rw [DirEntry.size, dirEntry.slice_eq _ _ (by decide) (by decide)]
  exact newEntry.size_eq name first 0

theorem dirEntry.isDir_eq (name : Name) (first : Nat) : (dirEntry name first).isDir := by
  rw [DirEntry.isDir, dirEntry.attr_eq]
  decide

theorem dirEntry.isLive_eq (first : Nat) (hname : name.Proper) : (dirEntry name first).isLive := by
  have hskip : (dirEntry name first).skipped = false := by rw [DirEntry.skipped, dirEntry.attr_eq]; decide
  simp [DirEntry.isLive, DirEntry.isFree, hskip, dirEntry.nth_zero, hname.1, hname.2]

/-- The blank volume with one empty subdirectory in the clusters `l`. -/
def subdir (fs : Fat32) (free : List Nat) (name : Name) (l : List Nat) : Volume :=
  (fs.allocated (fs.blank free) l).setEntry ⟨fs.rootCluster.toNat, 0, 0⟩ (dirEntry name (l.headD 0)).toList

include hg hroot in
theorem holds_subdir (hl : ∀ c ∈ l, fs.InRange c) : fs.Holds (fs.subdir free name l) :=
  (holds_blank.allocated hl).setData (p := (fs.rootCluster.toNat, 0)) ⟨hroot, hg.spc_pos⟩ _

theorem subdir_entry : (fs.subdir free name l).entry ⟨fs.rootCluster.toNat, 0, 0⟩ = dirEntry name (l.headD 0) := by
  rw [subdir, Volume.entry_setEntry (Nat.zero_lt_succ 15) (Nat.zero_lt_succ 15) (Arr.length_toList _), if_pos rfl,
    Arr.ofList_toList]

theorem isEnd_subdir (hn : l.Nodup) {loc : Loc} (hs : loc.sector < fs.sectorsPerCluster.toNat) (hi : loc.index < 16)
    (hne : loc ≠ ⟨fs.rootCluster.toNat, 0, 0⟩) : ((fs.subdir free name l).entry loc).isEnd := by
  rw [subdir, Volume.entry_setEntry (Nat.zero_lt_succ 15) hi (Arr.length_toList _), if_neg hne]
  refine isEnd_of_zero hi ?_
  by_cases hc : loc.cluster ∈ l
  · exact allocated_data hn hc hs
  · exact (agreeOff_allocated fs l _ hc).2 _

section Subdir

variable (hname : name.Proper) (hl : ∀ c ∈ l, c ∈ free ∧ fs.InRange c)
  (hch : fs.ChainAt (fs.allocated (fs.blank free) l) (l.headD 0) l)

include hroot hfree hl in
theorem chainAt_subdir : fs.ChainAt (fs.subdir free name l) fs.rootCluster.toNat [fs.rootCluster.toNat] :=
  (chainAt_blank hroot hfree).congr fun c hc => by
    rw [List.mem_singleton.mp hc]
    exact (agreeOff_allocated fs l _ fun h => hfree (hl _ h).1).1

include hg hch in
theorem owns_subdir : fs.ChainAt (fs.subdir free name l)
    ((fs.subdir free name l).entry ⟨fs.rootCluster.toNat, 0, 0⟩).firstCluster l := by
  have hlt := (hch.inRange _ hch.chain.head_mem).2
  have := hg.clusters_lt
  rw [subdir_entry, dirEntry.firstCluster_eq _ (by omega)]
  exact hch.congr fun _ _ => rfl

include hch in
theorem node_subdir {path : List Name} {loc : Loc} (h : fs.Node (fs.subdir free name l) path loc) :
    loc = ⟨fs.rootCluster.toNat, 0, 0⟩ := by
  by_contra hne
  have hend : ∀ {m : List Nat}, loc ∈ fs.liveSlots (fs.subdir free name l) m → False := by
    intro m hlive
    obtain ⟨hs, hlive⟩ := mem_live hlive
    obtain ⟨_, hsec, hi⟩ := mem_slots.mp hs
    exact DirEntry.not_isEnd_of_isLive hlive (isEnd_subdir hch.chain.nodup hsec hi hne)
  cases h with
  | root _ h => exact hend h
  | sub _ _ _ h _ => exact hend h

include hg hroot hfree hname hl hch in
theorem wellFormed_subdir : fs.WellFormed (fs.subdir free name l) ∧
    fs.Node (fs.subdir free name l) [name] ⟨fs.rootCluster.toNat, 0, 0⟩ := by
  have hR : fs.ChainAt (fs.subdir free name l) fs.rootCluster.toNat _ := chainAt_subdir hroot hfree hl
  have hown : fs.ChainAt (fs.subdir free name l) _ l := owns_subdir hg hch
  have hnode {path : List Name} {loc : Loc} (h : fs.Node (fs.subdir free name l) path loc) := node_subdir hch h
  obtain ⟨locs, hlocs⟩ := slots_singleton hg fs.rootCluster.toNat
  have hended : (fs.slots [fs.rootCluster.toNat]).Pairwise fun a b =>
      ((fs.subdir free name l).entry a).isEnd → ((fs.subdir free name l).entry b).isEnd := by
    have hnd : (fs.slots [fs.rootCluster.toNat]).Nodup := nodup_slots hR.chain.nodup
    rw [hlocs, List.nodup_cons] at hnd
    have hrest : ∀ loc ∈ (⟨fs.rootCluster.toNat, 0, 1⟩ : Loc) :: locs, ((fs.subdir free name l).entry loc).isEnd := by
      intro loc hloc
      obtain ⟨_, hsec, hi⟩ := mem_slots.mp (by rw [hlocs]; exact List.mem_cons_of_mem _ hloc : loc ∈ fs.slots _)
      refine isEnd_subdir hch.chain.nodup hsec hi ?_
      rintro rfl
      exact hnd.1 hloc
    rw [hlocs]
    exact List.pairwise_cons.mpr ⟨fun b hb _ => hrest b hb,
      List.pairwise_of_forall_mem_list fun _ _ b hb _ => hrest b hb⟩
  have hfirst : fs.Node (fs.subdir free name l) [name] ⟨fs.rootCluster.toNat, 0, 0⟩ := by
    refine (node_singleton hR).mpr ⟨(mem_liveSlots hended).mpr ⟨by rw [hlocs]; exact List.mem_cons_self, ?_⟩, ?_⟩
    · rw [subdir_entry]; exact dirEntry.isLive_eq _ hname
    · rw [subdir_entry, dirEntry.name_eq]
  refine ⟨⟨hg, ⟨_, hR⟩, fun h => ?_, fun h h' hne => absurd ((hnode h).trans (hnode h').symm) hne, ?_, ?_, ?_⟩, hfirst⟩
  · rw [hnode h]
    exact ⟨l, Or.inr hown⟩
  · intro R path loc m hR' h ho
    rw [hR'.unique hR]
    rw [hnode h] at ho
    rw [ho.unique (Or.inr hown)]
    exact List.singleton_disjoint.mpr fun h => hfree (hl _ h).1
  · intro R loc loc' hR' h h' _
    exact (hnode (.root hR' h)).trans (hnode (.root hR' h')).symm
  · intro R hR'
    rw [hR'.unique hR]
    exact hended

end Subdir

end Fat32

end Ferro
