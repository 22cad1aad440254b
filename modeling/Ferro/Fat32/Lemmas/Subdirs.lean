import Ferro.Fat32.Lemmas.Overwrite

/-!
# A subdirectory of the file's name

`write_file` does not look at the directory bit of the entry that it finds. What it does outside the subdirectory is what
it does to a file in the same clusters.
-/

namespace Ferro

theorem DirEntry.firstCluster_lt (entry : DirEntry) : entry.firstCluster < 2 ^ 32 := by
  have hhi := leNat_lt (entry.slice 20 2)
  have hlo := leNat_lt (entry.slice 26 2)
  rw [Arr.length_slice _ (by decide)] at hhi hlo
  refine Nat.or_lt_two_pow ?_ (hlo.trans (by decide))
  rw [Nat.shiftLeft_eq]
  omega

theorem Volume.setEntry_setEntry (v : Volume) (loc : Loc) {src src' : List UInt8} (h : src.length = src'.length) :
    (v.setEntry loc src).setEntry loc src' = v.setEntry loc src' := by
  rw [setEntry, setEntry, setData_data_self, Arr.put_put _ _ h, setEntry]
  simp only [setData, Function.update_idem]

/-- The volume with an empty file, in the same clusters, in the place of what is at the slot. -/
def Volume.asFile (v : Volume) (slot : Loc) : Volume :=
  v.setEntry slot (entryBytes (v.entry slot).name (v.entry slot).firstCluster 0)

/-- The path leads through the root entry of that name. -/
def Below (name : Name) (path : List Name) : Prop := ∃ rest, rest ≠ [] ∧ path = name :: rest

namespace Volume

variable {v w : Volume} {slot loc : Loc}

@[simp] theorem asFile_fat : (v.asFile slot).fat = v.fat := rfl

theorem asFile_data {p : Nat × Nat} (h : p ≠ (slot.cluster, slot.sector)) : (v.asFile slot).data p = v.data p :=
  setData_data_of_ne _ h

theorem entry_asFile (hs : slot.index < 16) (hi : loc.index < 16) : (v.asFile slot).entry loc =
    if loc = slot then newEntry (v.entry slot).name (v.entry slot).firstCluster 0 else v.entry loc :=
  entry_setEntry hs hi (length_entryBytes _ _ _)

theorem name_asFile (hs : slot.index < 16) (hi : loc.index < 16) :
    ((v.asFile slot).entry loc).name = (v.entry loc).name := by
  rw [entry_asFile hs hi]
  split
  · next h => rw [newEntry.name_eq, h]
  · rfl

theorem firstCluster_asFile (hs : slot.index < 16) (hi : loc.index < 16) :
    ((v.asFile slot).entry loc).firstCluster = (v.entry loc).firstCluster := by
  rw [entry_asFile hs hi]
  split
  · next h => rw [newEntry.firstCluster_eq _ _ _ (DirEntry.firstCluster_lt _), h]
  · rfl

theorem asFile_setEntry (v : Volume) (slot : Loc) {src : List UInt8} (h : src.length = 32) :
    (v.asFile slot).setEntry slot src = v.setEntry slot src :=
  v.setEntry_setEntry slot (by rw [length_entryBytes, h])

theorem AgreeOff.asFile {S : Nat → Prop} (h : v.AgreeOff S w) (slot : Loc) :
    (v.asFile slot).AgreeOff S (w.asFile slot) := by
  refine fun c hc => ⟨(h c hc).1, fun s => ?_⟩
  by_cases hs : (c, s) = (slot.cluster, slot.sector)
  · obtain ⟨rfl, rfl⟩ := Prod.mk.inj hs
    have hdata := (h _ hc).2 slot.sector
    have hentry : w.entry slot = v.entry slot := by rw [Volume.entry, Volume.entry, hdata]
    simp only [Volume.asFile, Volume.setEntry, setData_data_self, hdata, hentry]
  · rw [asFile_data hs, asFile_data hs, (h c hc).2]

end Volume

namespace Fat32

variable {fs : Fat32} {v w base : Volume} {R R' own l : List Nat} {slot loc : Loc} {name : Name} {path : List Name}
  {data : List UInt8} {needed c : Nat}

/-- Nothing below a subdirectory of that name has clusters. -/
def Hollow (fs : Fat32) (v : Volume) (name : Name) : Prop :=
  ∀ path loc l, Below name path → fs.Node v path loc → fs.Owns v loc l → l = []

/-! ## The tree outside the subdirectory -/

/-- The only slot of the root directory `R` that lists the name. -/
structure RootSlot (fs : Fat32) (v : Volume) (R : List Nat) (name : Name) (slot : Loc) : Prop where
  root : fs.ChainAt v fs.rootCluster.toNat R
  mem : slot ∈ fs.liveSlots v R
  named : (v.entry slot).name = name
  only {loc : Loc} : loc ∈ fs.liveSlots v R → (v.entry loc).name = name → loc = slot
  proper : name.Proper

theorem Node.index_lt (hn : fs.Node v path loc) : loc.index < 16 := by
  cases hn with
  | root _ h => exact (mem_slots.mp (mem_live h).1).2.2
  | sub _ _ _ h _ => exact (mem_slots.mp (mem_live h).1).2.2

theorem not_below_singleton {x : Name} : ¬ Below name [x] :=
  fun ⟨_, hrest, he⟩ => hrest (List.cons.inj he).2.symm

/-- What is below a name is listed under it, or further below. -/
theorem below_snoc {x : Name} (hne : path ≠ []) (h : Below name (path ++ [x])) : path = [name] ∨ Below name path := by
  obtain ⟨rest, _, he⟩ := h
  cases path with
  | nil => exact absurd rfl hne
  | cons y path =>
      obtain ⟨rfl, -⟩ := List.cons.inj he
      by_cases hnil : path = []
      · subst hnil
        exact Or.inl rfl
      · exact Or.inr ⟨path, hnil, rfl⟩

theorem ne_cons_of_not_below_snoc {x : Name} (h : ¬ Below name (path ++ [x])) (rest : List Name) :
    path ≠ name :: rest := by
  rintro rfl
  exact h ⟨rest ++ [x], by simp, rfl⟩

/-- What is below a name is in a subdirectory of that name. -/
theorem Node.subdir_of_below (hn : fs.Node v path loc) :
    Below name path → ∃ dir, fs.Node v [name] dir ∧ (v.entry dir).isDir := by
  induction hn with
  | root _ _ => exact fun hb => absurd hb not_below_singleton
  | @sub path dir _ _ hd hdir _ _ _ ih =>
      intro hb
      rcases below_snoc hd.path_ne_nil hb with rfl | hb
      · exact ⟨dir, hd, hdir⟩
      · exact ih hb

theorem WellFormed.path_unique (hwf : fs.WellFormed v) {path' : List Name} (hn : fs.Node v path loc)
    (hn' : fs.Node v path' loc) : path' = path := by
  induction hn generalizing path' with
  | root hl hloc => exact path_of_root_slot hwf hl (mem_live hloc).1 hn'
  | @sub path dir l loc hd _ hl hloc _ ih =>
      have hc := (mem_slots.mp (mem_live hloc).1).1
      cases hn' with
      | root hl' hloc' =>
          exact absurd hc (hwf.root_disjoint hl' hd (Or.inr hl) (mem_slots.mp (mem_live hloc').1).1)
      | @sub path' dir' l' _ hd' _ hl' hloc' _ =>
          -- the two directories share the cluster of the slot
          have hdir : dir = dir' := by
            by_contra hne
            exact hwf.disjoint hd hd' hne (Or.inr hl) (Or.inr hl') hc (mem_slots.mp (mem_live hloc').1).1
          subst hdir
          rw [ih hd']

namespace RootSlot

variable (h : fs.RootSlot v R name slot)

include h

theorem mem_slots : slot ∈ fs.slots R := (mem_live h.mem).1

theorem index_lt : slot.index < 16 := (Fat32.mem_slots.mp h.mem_slots).2.2

theorem flags_asFile (hi : loc.index < 16) : ((v.asFile slot).entry loc).isEnd = (v.entry loc).isEnd ∧
    ((v.asFile slot).entry loc).isLive = (v.entry loc).isLive := by
  rw [Volume.entry_asFile h.index_lt hi, h.named]
  split
  · next he =>
    subst he
    have hlive := (mem_live h.mem).2
    rw [newEntry.isEnd_eq h.proper, newEntry.isLive_eq h.proper, hlive]
    exact ⟨(Bool.eq_false_iff.mpr (DirEntry.not_isEnd_of_isLive hlive)).symm, rfl⟩
  · exact ⟨rfl, rfl⟩

theorem liveSlots_root : fs.liveSlots (v.asFile slot) R = fs.liveSlots v R :=
  live_congr_flags fun _ hloc => h.flags_asFile (Fat32.mem_slots.mp hloc).2.2

theorem root_asFile : fs.ChainAt (v.asFile slot) fs.rootCluster.toNat R := h.root.congr fun _ _ => rfl

theorem liveSlots_sub (hdis : R.Disjoint l) : fs.liveSlots (v.asFile slot) l = fs.liveSlots v l := by
  refine liveSlots_congr fun c hc s => Volume.asFile_data ?_
  rintro he
  cases he
  exact hdis (Fat32.mem_slots.mp h.mem_slots).1 hc

theorem ne_of_mem_sub (hdis : R.Disjoint l) (hloc : loc ∈ fs.liveSlots v l) : loc ≠ slot := by
  rintro rfl
  exact hdis (Fat32.mem_slots.mp h.mem_slots).1 (Fat32.mem_slots.mp (mem_live hloc).1).1

theorem entry_of_ne (hi : loc.index < 16) (hne : loc ≠ slot) : (v.asFile slot).entry loc = v.entry loc := by
  rw [Volume.entry_asFile h.index_lt hi, if_neg hne]

section

variable (hdis : ∀ {path dir l}, fs.Node v path dir → fs.Node (v.asFile slot) path dir →
  fs.ChainAt v (v.entry dir).firstCluster l → R.Disjoint l)

include hdis

/-- What is not in the subdirectory is still there. -/
theorem node_asFile_of (hn : fs.Node v path loc) :
    ¬ Below name path → fs.Node (v.asFile slot) path loc ∧ (loc = slot → path = [name]) := by
  induction hn with
  | @root l loc hl hloc =>
      intro _
      rw [hl.unique h.root] at hloc
      have hi := (Fat32.mem_slots.mp (mem_live hloc).1).2.2
      refine ⟨?_, by rintro rfl; rw [h.named]⟩
      rw [← Volume.name_asFile h.index_lt hi]
      exact .root h.root_asFile (by rwa [h.liveSlots_root])
  | @sub path dir l loc hd hdir hl hloc hdot ih =>
      intro hb
      have hne := ne_cons_of_not_below_snoc hb
      obtain ⟨hd', hslot⟩ := ih fun ⟨rest, _, he⟩ => hne rest he
      have hde := h.entry_of_ne hd.index_lt fun he => hne [] (hslot he)
      have hR := hdis hd hd' hl
      have hls := h.ne_of_mem_sub hR hloc
      have he := h.entry_of_ne (Fat32.mem_slots.mp (mem_live hloc).1).2.2 hls
      refine ⟨?_, fun h => absurd h hls⟩
      rw [← he]
      refine .sub hd' (by rwa [hde]) (by rw [hde]; exact hl.congr fun _ _ => rfl) ?_ (by rwa [he])
      rwa [h.liveSlots_sub hR]

/-- A file has nothing below it. -/
theorem node_of_asFile (hn : fs.Node (v.asFile slot) path loc) : fs.Node v path loc ∧ ¬ Below name path := by
  induction hn with
  | @root l loc hl hloc =>
      rw [hl.unique h.root_asFile, h.liveSlots_root] at hloc
      rw [Volume.name_asFile h.index_lt (Fat32.mem_slots.mp (mem_live hloc).1).2.2]
      exact ⟨.root h.root hloc, not_below_singleton⟩
  | @sub path dir l loc hd hdir hl hloc hdot ih =>
      obtain ⟨hdv, hb⟩ := ih
      have hds : dir ≠ slot := by
        rintro rfl
        rw [Volume.entry_asFile h.index_lt h.index_lt, if_pos rfl, newEntry.isDir_eq] at hdir
        cases hdir
      have hde := h.entry_of_ne hd.index_lt hds
      rw [hde] at hdir hl
      have hl : fs.ChainAt v (v.entry dir).firstCluster l := hl.congr fun _ _ => rfl
      have hR := hdis hdv hd hl
      rw [h.liveSlots_sub hR] at hloc
      have hls := h.ne_of_mem_sub hR hloc
      rw [h.entry_of_ne (Fat32.mem_slots.mp (mem_live hloc).1).2.2 hls] at hdot ⊢
      refine ⟨.sub hdv hdir hl hloc hdot, fun hbelow => ?_⟩
      rcases below_snoc hd.path_ne_nil hbelow with rfl | hbelow
      · obtain ⟨hmem, hname⟩ := (node_singleton h.root).mp hdv
        exact hds (h.only hmem hname)
      · exact hb hbelow

theorem node_asFile_iff : fs.Node (v.asFile slot) path loc ↔ fs.Node v path loc ∧ ¬ Below name path :=
  ⟨h.node_of_asFile hdis, fun hn => (h.node_asFile_of hdis hn.1 hn.2).1⟩

end

omit h in
theorem owns_asFile (hs : slot.index < 16) (hi : loc.index < 16) :
    fs.Owns (v.asFile slot) loc l ↔ fs.Owns v loc l := by
  rw [Owns, Owns, Volume.firstCluster_asFile hs hi]
  exact or_congr_right ⟨fun h => h.congr fun _ _ => rfl, fun h => h.congr fun _ _ => rfl⟩

theorem node_asFile_of_wellFormed (hwf : fs.WellFormed v) :
    fs.Node (v.asFile slot) path loc ↔ fs.Node v path loc ∧ ¬ Below name path :=
  h.node_asFile_iff fun hd _ hl => hwf.root_disjoint h.root hd (Or.inr hl)

theorem node_asFile (hwf : fs.WellFormed (v.asFile slot)) :
    fs.Node (v.asFile slot) path loc ↔ fs.Node v path loc ∧ ¬ Below name path :=
  h.node_asFile_iff fun hd hd' hl =>
    hwf.root_disjoint h.root_asFile hd' ((owns_asFile h.index_lt hd.index_lt).mpr (Or.inr hl))

theorem wellFormed_asFile (hwf : fs.WellFormed v) : fs.WellFormed (v.asFile slot) := by
  have hnode : ∀ {path loc l}, fs.Node (v.asFile slot) path loc → fs.Owns (v.asFile slot) loc l →
      fs.Node v path loc ∧ fs.Owns v loc l := fun hn ho =>
    ⟨((h.node_asFile_of_wellFormed hwf).mp hn).1, (owns_asFile h.index_lt hn.index_lt).mp ho⟩
  refine ⟨hwf.geometry, ⟨R, h.root_asFile⟩, fun hn => ?_, fun hn hn' hne ho ho' => ?_, fun hR hn ho => ?_,
    fun {R'} a b hR ha hb hab => ?_, fun {R'} hR => ?_⟩
  · obtain ⟨l, hl⟩ := hwf.chains ((h.node_asFile_of_wellFormed hwf).mp hn).1
    exact ⟨l, (owns_asFile h.index_lt hn.index_lt).mpr hl⟩
  · exact hwf.disjoint (hnode hn ho).1 (hnode hn' ho').1 hne (hnode hn ho).2 (hnode hn' ho').2
  · rw [hR.unique h.root_asFile]
    exact hwf.root_disjoint h.root (hnode hn ho).1 (hnode hn ho).2
  · rw [hR.unique h.root_asFile, h.liveSlots_root] at ha hb
    rw [Volume.name_asFile h.index_lt (Fat32.mem_slots.mp (mem_live ha).1).2.2,
      Volume.name_asFile h.index_lt (Fat32.mem_slots.mp (mem_live hb).1).2.2] at hab
    exact hwf.names h.root ha hb hab
  · rw [hR.unique h.root_asFile]
    refine (hwf.ended h.root).imp_of_mem fun {a b} ha hb hend => ?_
    rw [(h.flags_asFile (Fat32.mem_slots.mp ha).2.2).1, (h.flags_asFile (Fat32.mem_slots.mp hb).2.2).1]
    exact hend

/-- There is no subdirectory of that name any more. -/
theorem notSubdir_asFile : fs.NotSubdir (v.asFile slot) name := by
  intro loc hn
  obtain ⟨hmem, hname⟩ := (node_singleton h.root_asFile).mp hn
  rw [h.liveSlots_root] at hmem
  rw [Volume.name_asFile h.index_lt hn.index_lt] at hname
  rw [h.only hmem hname, Volume.entry_asFile h.index_lt h.index_lt, if_pos rfl, newEntry.isDir_eq]
  exact Bool.false_ne_true

theorem node : fs.Node v [name] slot := (node_singleton h.root).mpr ⟨h.mem, h.named⟩

theorem target (hwf : fs.WellFormed v) (ho : fs.Owns v slot own) : fs.Target (v.asFile slot) R name own slot := by
  have hn : fs.Node (v.asFile slot) [name] slot :=
    (h.node_asFile_of_wellFormed hwf).mpr ⟨h.node, not_below_singleton⟩
  exact .found ((lookup_node (h.wellFormed_asFile hwf) h.root_asFile).mpr hn)
    ((owns_asFile h.index_lt h.index_lt).mpr ho)

theorem agree (hdis : R.Disjoint own) (hw : v.AgreeOff (fun c => c ∈ own ∨ c ∈ fs.freeList v) w) :
    fs.RootSlot w R name slot := by
  have hentry : ∀ {loc}, loc ∈ fs.slots R → w.entry loc = v.entry loc := agreeOff_root h.root hdis hw
  have hlive : fs.liveSlots w R = fs.liveSlots v R := live_congr fun _ => hentry
  refine ⟨h.root.congr fun c hc => (agreeOff_used hw (h.root.fat_ne_zero hc) fun ho => hdis hc ho).1, ?_, ?_,
    fun {loc} hloc hname => ?_, h.proper⟩
  · rw [hlive]; exact h.mem
  · rw [hentry h.mem_slots]; exact h.named
  · rw [hlive] at hloc
    rw [hentry (mem_live hloc).1] at hname
    exact h.only hloc hname

/-! ## Reachable clusters -/

/-- What is reachable is so without the subdirectory, or from an entry in it. -/
theorem reachable_iff (hwf : fs.WellFormed (v.asFile slot)) :
    fs.Reachable v c ↔ fs.Reachable (v.asFile slot) c ∨ ∃ path loc, Below name path ∧ fs.Node v path loc ∧
      (v.entry loc).firstCluster ≠ 0 ∧ Relation.ReflTransGen (fs.Links v) (v.entry loc).firstCluster c := by
  constructor
  · rintro ⟨a, rfl | ⟨path, loc, hn, rfl, h0⟩, hr⟩
    · exact Or.inl ⟨_, Or.inl rfl, hr⟩
    · by_cases hb : Below name path
      · exact Or.inr ⟨path, loc, hb, hn, h0, hr⟩
      · have hfirst := Volume.firstCluster_asFile (v := v) h.index_lt hn.index_lt
        exact Or.inl ⟨_, Or.inr ⟨path, loc, (h.node_asFile hwf).mpr ⟨hn, hb⟩, hfirst.symm, h0⟩, hr⟩
  · rintro (⟨a, rfl | ⟨path, loc, hn, rfl, h0⟩, hr⟩ | ⟨path, loc, _, hn, h0, hr⟩)
    · exact ⟨_, Or.inl rfl, hr⟩
    · rw [Volume.firstCluster_asFile h.index_lt hn.index_lt] at h0 hr
      exact ⟨_, Or.inr ⟨path, loc, ((h.node_asFile hwf).mp hn).1, rfl, h0⟩, hr⟩
    · exact ⟨_, Or.inr ⟨path, loc, hn, rfl, h0⟩, hr⟩

theorem noDangling_iff (hwf : fs.WellFormed (v.asFile slot)) :
    fs.NoDangling v ↔ ∀ path loc, Below name path → fs.Node v path loc → (v.entry loc).firstCluster ≠ 0 →
      ∀ b, Relation.TransGen (fs.Links v) (v.entry loc).firstCluster b → v.fat b ≠ 0 := by
  constructor
  · intro hnd path loc hb hn h0 b hr
    obtain ⟨a, hra, hab⟩ := Relation.TransGen.tail'_iff.mp hr
    exact hnd a b ((h.reachable_iff hwf).mpr (Or.inr ⟨path, loc, hb, hn, h0, hra⟩)) hab
  · intro hsub a b hr hab
    rcases (h.reachable_iff hwf).mp hr with hr | ⟨path, loc, hb, hn, h0, hr⟩
    · exact hwf.noDangling a b hr hab
    · exact hsub path loc hb hn h0 b (.tail' hr hab)

/-! ## Lost clusters -/

theorem used_asFile_iff (hwf : fs.WellFormed v) : fs.Used (v.asFile slot) R c ↔
    c ∈ R ∨ ∃ path loc l, ¬ Below name path ∧ fs.Node v path loc ∧ fs.Owns v loc l ∧ c ∈ l := by
  refine or_congr_right ⟨?_, ?_⟩
  · rintro ⟨path, loc, l, hn, ho, hc⟩
    obtain ⟨hnv, hb⟩ := (h.node_asFile_of_wellFormed hwf).mp hn
    exact ⟨path, loc, l, hb, hnv, (owns_asFile h.index_lt hn.index_lt).mp ho, hc⟩
  · rintro ⟨path, loc, l, hb, hn, ho, hc⟩
    exact ⟨path, loc, l, (h.node_asFile_of_wellFormed hwf).mpr ⟨hn, hb⟩, (owns_asFile h.index_lt hn.index_lt).mpr ho, hc⟩

/-- Taking the subdirectory for a file loses the clusters of what is below it. -/
theorem lost_asFile_iff (hwf : fs.WellFormed v) : fs.lost (v.asFile slot) = fs.lost v ↔ fs.Hollow v name := by
  have hmem {c : Nat} : c ∈ fs.lost (v.asFile slot) ↔ fs.InRange c ∧ v.fat c ≠ 0 ∧ ¬ fs.Used (v.asFile slot) R c :=
    mem_lost (h.wellFormed_asFile hwf) h.root_asFile
  constructor
  · intro heq path loc l hb hn ho
    refine List.eq_nil_iff_forall_not_mem.mpr fun c hc => ?_
    have hnot : c ∉ fs.lost v := fun hl => ((mem_lost hwf h.root).mp hl).2.2 (Or.inr ⟨path, loc, l, hn, ho, hc⟩)
    rw [← heq, hmem] at hnot
    have hused : fs.Used (v.asFile slot) R c := by
      by_contra hu
      exact hnot ⟨(ho.chainAt hc).inRange c hc, ho.fat_ne_zero hc, hu⟩
    rcases (h.used_asFile_iff hwf).mp hused with hR | ⟨path', loc', l', hb', hn', ho', hc'⟩
    · exact hwf.root_disjoint h.root hn ho hR hc
    · by_cases hloc : loc' = loc
      · subst hloc
        rw [hwf.path_unique hn hn'] at hb'
        exact hb' hb
      · exact hwf.disjoint hn' hn hloc ho' ho hc' hc
  · intro hhollow
    ext c
    rw [hmem, mem_lost hwf h.root, h.used_asFile_iff hwf]
    refine and_congr_right fun _ => and_congr_right fun _ => not_congr (or_congr_right ⟨?_, ?_⟩)
    · exact fun ⟨path, loc, l, _, hn⟩ => ⟨path, loc, l, hn⟩
    · rintro ⟨path, loc, l, hn, ho, hc⟩
      refine ⟨path, loc, l, fun hb => ?_, hn, ho, hc⟩
      rw [hhollow path loc l hb hn ho] at hc
      cases hc

end RootSlot

theorem Node.rootSlot (hwf : fs.WellFormed v) (hR : fs.ChainAt v fs.rootCluster.toNat R) (hname : name.Proper)
    (hn : fs.Node v [name] slot) : fs.RootSlot v R name slot := by
  obtain ⟨hmem, hnamed⟩ := (node_singleton hR).mp hn
  exact ⟨hR, hmem, hnamed, fun hloc hn' => hwf.names hR hloc hmem (hn'.trans hnamed.symm), hname⟩

/-! ## Overwriting the subdirectory -/

/-- By the FAT before the call, the cluster leads to a free one that the call does not take. -/
def LeadsToFree (fs : Fat32) (v : Volume) (taken : List Nat) (c : Nat) : Prop :=
  ∃ b, Relation.TransGen (fs.Links v) c b ∧ v.fat b = 0 ∧ b ∉ taken

/-- However many sectors of the data are written over a subdirectory of that name, nothing that it then lists leads to
a cluster that stays free. -/
def ListsNoFree (fs : Fat32) (v : Volume) (name : Name) (data : List UInt8) : Prop :=
  ∀ slot own, fs.Node v [name] slot → fs.Owns v slot own → fs.Room v own (fs.clustersNeeded data) →
    ∀ j path loc, Below name path → fs.Node (fs.overwritten v own data j) path loc →
      ((fs.overwritten v own data j).entry loc).firstCluster ≠ 0 →
      ¬ fs.LeadsToFree v (fs.spare v own (fs.clustersNeeded data)) ((fs.overwritten v own data j).entry loc).firstCluster

/-- Fitting a chain changes no walk to a free cluster, as such a walk does not enter the chain. -/
theorem leadsToFree_iff (ha : fs.Addressable) {first : Nat} (hown : own = [] ∨ fs.ChainAt v first own)
    (h1 : 1 ≤ needed) (hle : own.length ≤ needed) (hroom : fs.Room v own needed)
    (hfat : w.fat = (fs.fitted v own needed).fat) :
    (∃ b, Relation.TransGen (fs.Links w) c b ∧ w.fat b = 0) ↔ fs.LeadsToFree v (fs.spare v own needed) c := by
  have hch := chainAt_fitted ha hown h1 hroom
  rw [fittedChain, List.take_of_length_le hle] at hch
  have hch := hch.congr fun c _ => show w.fat c = _ by rw [hfat]
  have hsame {x : Nat} (hx : x ∉ own ++ fs.spare v own needed) : w.fat x = v.fat x := by
    rw [hfat, (agreeOff_spare h1 hle x fun h => hx (List.mem_append.mpr h)).1]
  have hlinks {x y : Nat} (hx : x ∉ own ++ fs.spare v own needed) : fs.Links w x y ↔ fs.Links v x y := by
    rw [Links, Links, Volume.next_congr (hsame hx)]
  constructor
  · rintro ⟨b, hr, h0⟩
    have hb : b ∉ own ++ fs.spare v own needed := fun h => hch.fat_ne_zero h h0
    have hv := (transGen_outside (fun _ _ hl hx => hch.chain.next_mem hx hl.1) (fun _ _ hx => (hlinks hx).mp) hr hb).2
    exact ⟨b, hv, by rw [← hsame hb, h0], fun h => hb (List.mem_append_right _ h)⟩
  · rintro ⟨b, hr, h0, hs⟩
    have hb : b ∉ own ++ fs.spare v own needed := by
      intro h
      rcases List.mem_append.mp h with h | h
      · exact (hown.resolve_left (List.ne_nil_of_mem h)).fat_ne_zero h h0
      · exact hs h
    -- before the call the file's chain is closed, and nothing follows a free cluster
    have hclosed (x y : Nat) (hl : fs.Links v x y) (hx : x ∈ own ++ fs.spare v own needed) :
        y ∈ own ++ fs.spare v own needed := by
      rcases List.mem_append.mp hx with hx | hx
      · exact List.mem_append_left _ ((hown.resolve_left (List.ne_nil_of_mem hx)).chain.next_mem hx hl.1)
      · have hy := (Volume.next_eq_some.mp hl.1).1
        rw [(mem_freeList.mp (mem_spare hx)).2] at hy
        rw [← hy] at hl
        exact absurd hl.2 not_inRange_zero
    have hw := (transGen_outside hclosed (fun _ _ hx => (hlinks hx).mpr) hr hb).2
    exact ⟨b, hw, by rw [hsame hb, h0]⟩

section Overwrite

variable (hwf : fs.WellFormed v) (ha : fs.Addressable) (h : fs.RootSlot v R name slot) (ho : fs.Owns v slot own)
  (hlen : data.length < 2 ^ 32) (hroom : fs.Room v own (fs.clustersNeeded data))

include hwf ha h ho hlen hroom

/-- Apart from what the subdirectory lists, the volume is well formed. -/
theorem RootSlot.wellFormed_overwritten (j : Nat) : fs.WellFormed ((fs.overwritten v own data j).asFile slot) := by
  have h1 := one_le_clustersNeeded hwf.geometry hlen
  have hw : v.AgreeOff (fun c => c ∈ own ∨ c ∈ fs.freeList v) (fs.overwritten v own data j) :=
    agreeOff_overwritten h1 j
  have hfat : (fs.overwritten v own data j).fat = (fs.fitted (v.asFile slot) own (fs.clustersNeeded data)).fat :=
    overwritten_fat.trans (fitted_fat_congr Volume.asFile_fat).symm
  exact (h.target hwf ho).wellFormed_fitted (h.wellFormed_asFile hwf) h.root_asFile ha h.notSubdir_asFile h1 hroom
    (hw.asFile slot) hfat

theorem RootSlot.noDangling_overwritten (hle : own.length ≤ fs.clustersNeeded data) (j : Nat) :
    fs.NoDangling (fs.overwritten v own data j) ↔ ∀ path loc, Below name path →
      fs.Node (fs.overwritten v own data j) path loc →
      ((fs.overwritten v own data j).entry loc).firstCluster ≠ 0 →
      ¬ fs.LeadsToFree v (fs.spare v own (fs.clustersNeeded data))
        ((fs.overwritten v own data j).entry loc).firstCluster := by
  have h1 := one_le_clustersNeeded hwf.geometry hlen
  have hw : fs.RootSlot (fs.overwritten v own data j) R name slot :=
    h.agree (hwf.root_disjoint h.root h.node ho) (agreeOff_overwritten h1 j)
  rw [hw.noDangling_iff (h.wellFormed_overwritten hwf ha ho hlen hroom j)]
  refine forall₅_congr fun path loc _ _ _ => ?_
  rw [← leadsToFree_iff ha (ho.imp_left And.right) h1 hle hroom overwritten_fat]
  exact ⟨fun hno ⟨b, hr, h0⟩ => hno b hr h0, fun hno b hr h0 => hno ⟨b, hr, h0⟩⟩

/-- The written file takes the place of the subdirectory, and what is below it is lost. -/
theorem RootSlot.lost_written : fs.WellFormed (fs.outcome v own slot name data) ∧
    fs.lost (fs.outcome v own slot name data) = fs.lost (v.asFile slot) := by
  have h1 := one_le_clustersNeeded hwf.geometry hlen
  have hwf' := h.wellFormed_asFile hwf
  have ht := h.target hwf ho
  have hdir := h.notSubdir_asFile
  have hfilled : v.AgreeOff (fun c => c ∈ own ∨ c ∈ fs.freeList v) ((fs.fitted v own (fs.clustersNeeded data)).fill
    (fs.sectors (fs.fittedChain v own (fs.clustersNeeded data))) data) := agreeOff_filled data h1
  have hw := hfilled.asFile slot
  have hch := chainAt_fitted ha (ho.imp_left And.right) h1 hroom
  obtain ⟨hwfw, hn, _, how⟩ := ht.wellFormed_new hwf' h.root_asFile hdir hw data.length h.proper
    (hch.congr fun c _ => by rw [Volume.asFile_fat, Volume.fill_fat]) fun c => mem_fittedChain
  have hk := ht.keeps_new hwf' h.root_asFile hdir hw
    ((fs.fittedChain v own (fs.clustersNeeded data)).headD 0) data.length h.proper
  have hpres := hk.preserves hwf' h.root_asFile (ht.private hwf' h.root_asFile hdir)
  rw [Volume.asFile_setEntry _ _ (length_entryBytes _ _ _)] at hwfw hn how hk hpres
  rw [outcome, if_pos hroom, written]
  refine ⟨hwfw, ht.lost_written hwf' h.root_asFile h1 hwfw hk.root hpres ?_ hn how⟩
  exact (Volume.fill_fat _ _).trans (fitted_fat_congr Volume.asFile_fat).symm

end Overwrite

/-- At every cut of a call that frees nothing, the volume is well formed or some of the data is in the subdirectory. -/
theorem RootSlot.cut (hwf : fs.WellFormed v) (ha : fs.Addressable) (h : fs.RootSlot v R name slot)
    (ho : fs.Owns v slot own) (hlen : data.length < 2 ^ 32) (hle : own.length ≤ fs.clustersNeeded data)
    (hcut : fs.Cut v v own slot name data w) :
    fs.WellFormed w ∨ fs.Room v own (fs.clustersNeeded data) ∧ ∃ j, w = fs.overwritten v own data j := by
  cases hcut with
  | growing h => exact Or.inl (preserves_of_free hwf h).1
  | fitting hfit =>
      cases hfit with
      | taking _ h => exact Or.inl (preserves_of_free hwf h).1
      | freeing hge j =>
          rw [show fs.clustersNeeded data = own.length by omega, List.drop_length, List.take_nil]
          exact Or.inl hwf
      | done hroom => exact Or.inr ⟨hroom, 0, rfl⟩
  | writing hroom j => exact Or.inr ⟨hroom, j, rfl⟩
  | done hroom =>
      have hw := (h.lost_written hwf ha ho hlen hroom).1
      rw [outcome, if_pos hroom] at hw
      exact Or.inl hw

/-! ## Names without a subdirectory -/

theorem hollow_of_notSubdir (hdir : fs.NotSubdir v name) : fs.Hollow v name := by
  intro path loc l hb hn _
  obtain ⟨dir, hn', hd⟩ := hn.subdir_of_below hb
  exact absurd hd (hdir dir hn')

theorem listsNoFree_of_notSubdir (hwf : fs.WellFormed v) (hname : name.Proper) (hlen : data.length < 2 ^ 32)
    (hdir : fs.NotSubdir v name) : fs.ListsNoFree v name data := by
  intro slot own hn ho _ j path loc hb hnw _
  obtain ⟨R, hR⟩ := hwf.root
  have h := hn.rootSlot hwf hR hname
  have hdis := hwf.root_disjoint hR hn ho
  have hagree : v.AgreeOff (fun c => c ∈ own ∨ c ∈ fs.freeList v) (fs.overwritten v own data j) :=
    agreeOff_overwritten (one_le_clustersNeeded hwf.geometry hlen) j
  have hw := h.agree hdis hagree
  obtain ⟨dir, hn', hd⟩ := hnw.subdir_of_below hb
  obtain ⟨hmem, hnamed⟩ := (node_singleton hw.root).mp hn'
  rw [hw.only hmem hnamed, agreeOff_root hR hdis hagree h.mem_slots] at hd
  exact absurd hd (hdir slot hn)

/-! ## The place of the entry -/

theorem Place.found_or_absent (hwf : fs.WellFormed v) (hR : fs.ChainAt v fs.rootCluster.toNat R) (hname : name.Proper)
    (hp : fs.Place v R name base R' own slot) :
    (base = v ∧ fs.RootSlot v R name slot ∧ fs.Owns v slot own) ∨ ∀ loc, ¬ fs.Node v [name] loc := by
  cases hp with
  | here ht =>
      cases ht with
      | found h ho => exact Or.inl ⟨rfl, ((lookup_node hwf hR).mp h).rootSlot hwf hR hname, ho⟩
      | free h _ => exact Or.inr ((lookup_absent hR).mp h)
  | extend h _ _ => exact Or.inr ((lookup_absent hR).mp h)

theorem notSubdir_of_absent (habsent : ∀ loc, ¬ fs.Node v [name] loc) : fs.NotSubdir v name :=
  fun loc hn => absurd hn (habsent loc)

/-- A successful call loses the clusters below a subdirectory of the name, and no others. -/
theorem Place.lost_outcome_iff (hwf : fs.WellFormed v) (hR : fs.ChainAt v fs.rootCluster.toNat R) (ha : fs.Addressable)
    (hp : fs.Place v R name base R' own slot) (hname : name.Proper) (hlen : data.length < 2 ^ 32)
    (hroom : fs.Room base own (fs.clustersNeeded data)) :
    fs.lost (fs.outcome base own slot name data) = fs.lost v ↔ fs.Hollow v name := by
  rcases hp.found_or_absent hwf hR hname with ⟨rfl, h, ho⟩ | habsent
  · rw [(h.lost_written hwf ha ho hlen hroom).2, h.lost_asFile_iff hwf]
  · have hdir := notSubdir_of_absent habsent
    exact iff_of_true (hp.lost_written hwf hR ha ⟨hname, hdir, hlen⟩ hroom) (hollow_of_notSubdir hdir)

end Fat32

end Ferro
