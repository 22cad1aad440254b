import Ferro.Fat32.Lemmas.Data
import Ferro.Fat32.Lemmas.Entries
import Mathlib.Data.List.Perm.Subperm

/-!
# Directories

The two directory walks of the driver as functions of the slots of a chain, and the entry `write_file` stores.
-/

namespace Ferro

/-! ## The stored entry -/

/-- The entry `write_file` stores. -/
def newEntry (name : Name) (firstCluster len : Nat) : DirEntry := .ofList (entryBytes name firstCluster len)

@[simp] theorem length_entryBytes (name : Name) (firstCluster len : Nat) :
    (entryBytes name firstCluster len).length = 32 := by simp [entryBytes]

namespace newEntry

variable (name : Name) (first len : Nat)

theorem name_eq : (newEntry name first len).name = name := by
  have h : (newEntry name first len).slice 0 11 = name.toList := by
    rw [newEntry, Arr.slice_ofList (by simp)]
    simp only [entryBytes, List.append_assoc, List.drop_zero]
    rw [List.take_append_of_le_length (by simp), List.take_of_length_le (by simp)]
  rw [DirEntry.name, h, Arr.ofList_toList]

theorem nth_zero : (newEntry name first len).nth 0 = name.nth 0 := by
  have h : (newEntry name first len).name.nth 0 = name.nth 0 := by rw [name_eq]
  rw [← h, DirEntry.name, Arr.nth_ofList (by decide), Arr.getElem?_slice _ (by decide), if_pos (by decide)]
  rfl

theorem attr_eq : (newEntry name first len).attr = attrArchive := by
  rw [DirEntry.attr, newEntry, Arr.nth_ofList (by decide)]
  simp only [entryBytes, List.append_assoc]
  rw [List.getElem?_append_right (by simp)]
  simp

theorem skipped_eq : (newEntry name first len).skipped = false := by
  rw [DirEntry.skipped, attr_eq]; decide

theorem isDir_eq : (newEntry name first len).isDir = false := by
  rw [DirEntry.isDir, attr_eq]; decide

theorem size_eq : (newEntry name first len).size = len % 2 ^ 32 := by
  have h : (newEntry name first len).slice 28 4 = leBytes 4 len := by
    rw [newEntry, Arr.slice_ofList (by simp), entryBytes, ← List.append_nil (_ ++ leBytes 4 len)]
    exact take_drop_middle _ _ _ (by simp) (by simp)
  rw [DirEntry.size, h, leNat_leBytes, show 256 ^ 4 = 2 ^ 32 from rfl]

theorem firstCluster_eq (h : first < 2 ^ 32) : (newEntry name first len).firstCluster = first := by
  have hhi : (newEntry name first len).slice 20 2 = leBytes 2 ((first >>> 16) &&& 0xFFFF) := by
    rw [newEntry, Arr.slice_ofList (by simp), entryBytes, List.append_assoc, List.append_assoc]
    exact take_drop_middle _ _ _ (by simp) (by simp)
  have hlo : (newEntry name first len).slice 26 2 = leBytes 2 (first &&& 0xFFFF) := by
    rw [newEntry, Arr.slice_ofList (by simp), entryBytes]
    exact take_drop_middle _ _ _ (by simp) (by simp)
  rw [DirEntry.firstCluster, hhi, hlo, leNat_leBytes, leNat_leBytes,
    show (0xFFFF : Nat) = 2 ^ 16 - 1 from rfl, Nat.and_two_pow_sub_one_eq_mod, Nat.and_two_pow_sub_one_eq_mod,
    Nat.shiftRight_eq_div_pow, ← Nat.shiftLeft_add_eq_or_of_lt (by omega), Nat.shiftLeft_eq]
  omega

end newEntry

/-! ## Slots -/

/-- The volume after a directory slot has been overwritten. -/
def Volume.setEntry (v : Volume) (loc : Loc) (src : List UInt8) : Volume :=
  v.setData (loc.cluster, loc.sector) ((v.data (loc.cluster, loc.sector)).put (loc.index * 32) src)

theorem Arr.entry_put (sector : Sector) {i j : Nat} {src : List UInt8} (hi : i < 16) (hj : j < 16)
    (hs : src.length = 32) : (sector.put (i * 32) src).entry j = if j = i then .ofList src else sector.entry j := by
  by_cases h : j = i
  · subst h
    have hp := Arr.slice_put_same sector (j * 32) src (by omega)
    rw [hs] at hp
    rw [if_pos rfl, Arr.entry, hp]
  · rw [if_neg h, Arr.entry, Arr.slice_put_disjoint _ _ (by omega) (by omega), Arr.entry]

theorem Volume.entry_setEntry {v : Volume} {loc loc' : Loc} {src : List UInt8} (hi : loc.index < 16)
    (hj : loc'.index < 16) (hs : src.length = 32) :
    (v.setEntry loc src).entry loc' = if loc' = loc then .ofList src else v.entry loc' := by
  obtain ⟨c, s, i⟩ := loc
  obtain ⟨c', s', j⟩ := loc'
  by_cases hp : (c', s') = (c, s)
  · obtain ⟨rfl, rfl⟩ := Prod.mk.inj hp
    simp only [Volume.entry, Volume.setEntry, Volume.setData_data_self, Loc.mk.injEq, true_and]
    exact Arr.entry_put _ hi hj hs
  · have hne : (⟨c', s', j⟩ : Loc) ≠ ⟨c, s, i⟩ := by
      intro he; cases he; exact hp rfl
    rw [if_neg hne, Volume.entry, Volume.setEntry, Volume.setData_data_of_ne _ hp]
    rfl

namespace Fat32

variable {fs : Fat32} {C : Volume → Prop} {v w : Volume}

theorem mem_slots {l : List Nat} {loc : Loc} :
    loc ∈ fs.slots l ↔ loc.cluster ∈ l ∧ loc.sector < fs.sectorsPerCluster.toNat ∧ loc.index < 16 := by
  obtain ⟨c, s, i⟩ := loc
  simp only [slots, List.mem_flatMap, List.mem_map, List.mem_range, Loc.mk.injEq, Prod.exists, mem_sectors]
  constructor
  · rintro ⟨_, _, ⟨hc, hs⟩, _, hi, rfl, rfl, rfl⟩; exact ⟨hc, hs, hi⟩
  · rintro ⟨hc, hs, hi⟩; exact ⟨_, _, ⟨hc, hs⟩, _, hi, rfl, rfl, rfl⟩

theorem slots_append (l m : List Nat) : fs.slots (l ++ m) = fs.slots l ++ fs.slots m := by
  rw [slots, sectors_append, List.flatMap_append]; rfl

theorem nodup_slots {l : List Nat} (h : l.Nodup) : (fs.slots l).Nodup := by
  refine List.nodup_flatMap.mpr ⟨fun p _ => ?_, ?_⟩
  · exact List.nodup_range.map fun _ _ he => by cases he; rfl
  · refine (nodup_sectors h).imp fun {p q} hpq => ?_
    intro loc hp hq
    obtain ⟨_, _, rfl⟩ := List.mem_map.mp hp
    obtain ⟨_, _, he⟩ := List.mem_map.mp hq
    exact hpq (Prod.ext (congrArg Loc.cluster he).symm (congrArg Loc.sector he).symm)

/-- Sector number and byte offset of a slot, as the driver keeps them. -/
def slotPos (fs : Fat32) (loc : Loc) : Nat × Nat := (fs.dataLba (loc.cluster, loc.sector), loc.index * 32)

theorem runs_writeEntry (hg : fs.Geometry) {name : Name} {loc : Loc} {first len : Nat}
    (hp : fs.HasSector (loc.cluster, loc.sector)) (hC : C v)
    (hC' : C (v.setEntry loc (entryBytes name first len))) :
    fs.Runs C (writeEntry name (fs.slotPos loc) first len) v (.ok ())
      (v.setEntry loc (entryBytes name first len)) :=
  .bind (runs_readBlock hC fun _ hd => volume_data hp hd) (runs_writeLba hg hp hC hC')

/-! ## Walking a directory -/

theorem live_cons (loc : Loc) (locs : List Loc) : v.live (loc :: locs) =
    if (v.entry loc).isEnd then [] else if (v.entry loc).isLive then loc :: v.live locs else v.live locs := by
  simp only [Volume.live, List.takeWhile_cons]
  cases (v.entry loc).isEnd
  · simp only [Bool.not_false, if_true, List.filter_cons]; rfl
  · simp

theorem live_append (locs locs' : List Loc) : v.live (locs ++ locs') =
    if locs.any fun loc => (v.entry loc).isEnd then v.live locs else v.live locs ++ v.live locs' := by
  induction locs with
  | nil => simp [Volume.live]
  | cons loc locs ih =>
      rw [List.cons_append, live_cons, live_cons, List.any_cons, ih]
      cases (v.entry loc).isEnd
      · cases (v.entry loc).isLive
        · simp
        · simp only [Bool.false_or, Bool.false_eq_true, if_false, if_true]
          split <;> rfl
      · simp

theorem mem_live {locs : List Loc} {loc : Loc} (h : loc ∈ v.live locs) : loc ∈ locs ∧ (v.entry loc).isLive := by
  have hf := List.mem_filter.mp h
  exact ⟨(List.takeWhile_sublist _).mem hf.1, hf.2⟩

/-- `write_file`'s scan, slot by slot. -/
def scanLocs (fs : Fat32) (v : Volume) (name : Name) : List Loc → Search → Search × Bool
  | [], st => (st, false)
  | loc :: locs, st =>
    if (v.entry loc).nth 0 = 0x00 then
      (st.noteFree (fs.slotPos loc).1 (fs.slotPos loc).2, true)
    else if (v.entry loc).nth 0 = 0xE5 then
      scanLocs fs v name locs (st.noteFree (fs.slotPos loc).1 (fs.slotPos loc).2)
    else if (v.entry loc).skipped then
      scanLocs fs v name locs st
    else if (v.entry loc).name = name then
      scanLocs fs v name locs
        { st with found := some ((fs.slotPos loc).1, (fs.slotPos loc).2, (v.entry loc).firstCluster) }
    else
      scanLocs fs v name locs st

theorem scanEntries_eq (name : Name) (c s : Nat) (is : List Nat) (st : Search) :
    scanEntries name (fs.dataLba (c, s)) (v.data (c, s)) is st =
      fs.scanLocs v name (is.map fun i => ⟨c, s, i⟩) st := by
  induction is generalizing st with
  | nil => rfl
  | cons i is ih =>
      simp only [scanEntries, List.map_cons, scanLocs, ih]
      rfl

theorem scanLocs_append (name : Name) (locs locs' : List Loc) (st : Search) :
    fs.scanLocs v name (locs ++ locs') st =
      if (fs.scanLocs v name locs st).2 then ((fs.scanLocs v name locs st).1, true)
      else fs.scanLocs v name locs' (fs.scanLocs v name locs st).1 := by
  induction locs generalizing st with
  | nil => simp [scanLocs]
  | cons loc locs ih =>
      simp only [List.cons_append, scanLocs]
      split
      · rfl
      · split
        · exact ih _
        · split
          · exact ih _
          · split <;> exact ih _

/-- What a scan keeps of a matching slot. -/
def foundAt (fs : Fat32) (v : Volume) (loc : Loc) : Nat × Nat × Nat :=
  ((fs.slotPos loc).1, (fs.slotPos loc).2, (v.entry loc).firstCluster)

theorem noteFree_eq (st : Search) (lba off : Nat) :
    st.noteFree lba off = { st with freeSlot := st.freeSlot.or (some (lba, off)) } := by
  obtain ⟨f, s⟩ := st
  cases s <;> rfl

theorem scanLocs_eq (name : Name) (locs : List Loc) (st : Search) : fs.scanLocs v name locs st =
    ({ found := (((v.live locs).filter fun loc => (v.entry loc).name = name).getLast?.map (fs.foundAt v)).or st.found,
       freeSlot := st.freeSlot.or ((locs.find? fun loc => (v.entry loc).isFree).map fs.slotPos) },
     locs.any fun loc => (v.entry loc).isEnd) := by
  induction locs generalizing st with
  | nil => simp [scanLocs, Volume.live]
  | cons loc locs ih =>
      rw [live_cons, List.find?_cons, List.any_cons, scanLocs]
      by_cases h0 : (v.entry loc).nth 0 = 0x00
      · simp [h0, DirEntry.isEnd, DirEntry.isFree, noteFree_eq]
      · have hend : (v.entry loc).isEnd = false := by simp [DirEntry.isEnd, h0]
        by_cases h5 : (v.entry loc).nth 0 = 0xE5
        · have hfree : (v.entry loc).isFree = true := by simp [DirEntry.isFree, h5]
          simp [h5, ih, hend, hfree, DirEntry.isLive, noteFree_eq]
        · have hfree : (v.entry loc).isFree = false := by simp [DirEntry.isFree, h0, h5]
          cases hsk : (v.entry loc).skipped with
          | true => simp [h0, h5, hsk, ih, hend, hfree, DirEntry.isLive]
          | false =>
              by_cases hn : (v.entry loc).name = name
              · simp only [h0, h5, hn, ih, hend, hfree, DirEntry.isLive, hsk, if_false, if_true, Bool.not_false,
                  Bool.and_self, Bool.false_eq_true, Bool.false_or, List.filter_cons, decide_true]
                generalize (v.live locs).filter _ = m
                cases m with
                | nil => simp [foundAt]
                | cons x xs => simp [List.getLast?_cons]
              · simp [h0, h5, hn, ih, hend, hfree, DirEntry.isLive, hsk]

/-! ## `write_file`'s search -/

theorem runs_searchCluster (hg : fs.Geometry) {c : Nat} (hc : fs.InRange c) (hC : C v) (name : Name) :
    (n s : Nat) → (st : Search) → s + n ≤ fs.sectorsPerCluster.toNat →
    fs.Runs C (searchCluster name (fs.clusterToLba c) n s st) v
      (.ok (fs.scanLocs v name (((List.range' s n).map fun i => (c, i)).flatMap
        fun p => (List.range 16).map fun i => ⟨p.1, p.2, i⟩) st)) v
  | 0, s, st, _ => .pure hC
  | n + 1, s, st, hs => by
      rw [searchCluster]
      refine .bind (runs_readData hg ⟨hc, by omega⟩ hC) ?_
      rw [hg.sectorLba_eq ⟨hc, by omega⟩, scanEntries_eq, List.range'_succ, List.map_cons, List.flatMap_cons,
        scanLocs_append]
      generalize fs.scanLocs v name ((List.range 16).map fun i => ⟨c, s, i⟩) st = r
      obtain ⟨st', stop⟩ := r
      cases stop with
      | true => exact .pure hC
      | false => exact runs_searchCluster hg hc hC name n (s + 1) st' (by omega)

theorem slots_cons (c : Nat) (cs : List Nat) : fs.slots (c :: cs) =
    (((List.range' 0 fs.sectorsPerCluster.toNat).map fun i => (c, i)).flatMap
      fun p => (List.range 16).map fun i => ⟨p.1, p.2, i⟩) ++ fs.slots cs := by
  rw [slots, sectors_cons, List.flatMap_append]; rfl

/-- The search over a chain: what its slots show, and its last cluster if none of them ends the directory. -/
theorem runs_searchLoop (hg : fs.Geometry) (hC : C v) (name : Name) : (l : List Nat) → (a fuel : Nat) →
    (st : Search) → fs.ChainAt v a l → l.length ≤ fuel →
    ∃ c, ((fs.scanLocs v name (fs.slots l) st).2 = false → c = l.getLastD 0) ∧
      fs.Runs C (fs.searchLoop name fuel a st) v
        (.ok ((fs.scanLocs v name (fs.slots l) st).1, c, !(fs.scanLocs v name (fs.slots l) st).2)) v
  | [], _, _, _, h, _ => absurd rfl h.chain.ne_nil
  | c :: cs, a, 0, _, _, hf => by simp at hf
  | c :: cs, a, fuel + 1, st, h, hf => by
      obtain ⟨rfl, hcr, hlink⟩ := h.uncons
      have hcl := runs_searchCluster hg hcr hC name fs.sectorsPerCluster.toNat 0 st (by omega)
      rw [slots_cons, scanLocs_append]
      generalize fs.scanLocs v name _ st = r at hcl ⊢
      obtain ⟨st', stop⟩ := r
      cases stop with
      | true => exact ⟨c, by simp, .bind hcl (.pure hC)⟩
      | false =>
          rcases hlink with ⟨rfl, hend⟩ | ⟨hlt, hrest⟩
          · refine ⟨c, fun _ => rfl, .bind hcl (.bind (runs_fatEntry hg hcr.2 hC) ?_)⟩
            rw [if_pos hend]
            exact .pure hC
          · obtain ⟨z, hz, hrun⟩ := runs_searchLoop hg hC name cs (v.fat c) fuel st' hrest (by simp at hf; omega)
            refine ⟨z, fun hstop => ?_, .bind hcl (.bind (runs_fatEntry hg hcr.2 hC) ?_)⟩
            · obtain ⟨y, ys, rfl⟩ := List.exists_cons_of_ne_nil hrest.chain.ne_nil
              rw [hz hstop]; rfl
            · rw [if_neg (by omega)]
              exact hrun

/-! ## `find_in_dir` and `read_file` -/

/-- The slot `find_in_dir` stops at. -/
def lookup (fs : Fat32) (v : Volume) (l : List Nat) (name : Name) : Option Loc :=
  (fs.liveSlots v l).find? fun loc => (v.entry loc).name = name

def findLocs (v : Volume) (name : Name) (locs : List Loc) : Option (Option DirEntry) :=
  match (v.live locs).find? fun loc => (v.entry loc).name = name with
  | some loc => some (some (v.entry loc))
  | none => if locs.any fun loc => (v.entry loc).isEnd then some none else none

theorem live_map (locs : List Loc) : DirEntry.live (locs.map v.entry) = (v.live locs).map v.entry := by
  rw [DirEntry.live, List.takeWhile_map, List.filter_map]
  rfl

theorem findLocs_eq (name : Name) (locs : List Loc) : findLocs v name locs = DirEntry.find name (locs.map v.entry) := by
  rw [findLocs, DirEntry.find, live_map, List.find?_map, DirEntry.ended, List.any_map]
  simp only [Function.comp_def]
  cases (v.live locs).find? fun loc => (v.entry loc).name = name <;> rfl

theorem findEntry_eq (name : Name) (c s : Nat) (is : List Nat) :
    findEntry name (v.data (c, s)) is = findLocs v name (is.map fun i => ⟨c, s, i⟩) := by
  rw [DirEntry.findEntry_eq, findLocs_eq, List.map_map]
  rfl

theorem findLocs_nil (name : Name) : findLocs v name [] = none := rfl

theorem findLocs_append (name : Name) (locs locs' : List Loc) :
    findLocs v name (locs ++ locs') = (findLocs v name locs).or (findLocs v name locs') := by
  simp only [findLocs_eq, List.map_append, DirEntry.find_append]

theorem runs_findInCluster (hg : fs.Geometry) {c : Nat} (hc : fs.InRange c) (hC : C v) (name : Name) (n s : Nat)
    (hs : s + n ≤ fs.sectorsPerCluster.toNat) :
    fs.Runs C (findInCluster name (fs.clusterToLba c) n s) v
      (.ok (findLocs v name (((List.range' s n).map fun i => (c, i)).flatMap
        fun p => (List.range 16).map fun i => ⟨p.1, p.2, i⟩))) v := by
  induction n generalizing s with
  | zero =>
      rw [List.range'_zero, List.map_nil, List.flatMap_nil, findLocs_nil]
      exact .pure hC
  | succ n ih =>
      have hrest := ih (s + 1) (by omega)
      rw [findInCluster, List.range'_succ, List.map_cons, List.flatMap_cons, findLocs_append]
      refine .bind (runs_readData hg ⟨hc, by omega⟩ hC) ?_
      simp only [findEntry_eq]
      generalize findLocs v name ((List.range 16).map fun i => ⟨c, s, i⟩) = r
      cases r with
      | some r => rw [Option.some_or]; exact .pure hC
      | none => rw [Option.none_or]; exact hrest

theorem runs_findLoop (hg : fs.Geometry) (hC : C v) (name : Name) : (l : List Nat) → (a fuel : Nat) →
    fs.ChainAt v a l → l.length ≤ fuel →
    fs.Runs C (fs.findLoop name fuel a) v
      (match findLocs v name (fs.slots l) with
        | some (some e) => .ok (e.firstCluster, e.size, e.isDir)
        | _ => .error (.err .notFound)) v
  | [], _, _, h, _ => absurd rfl h.chain.ne_nil
  | c :: cs, a, 0, _, hf => by simp at hf
  | c :: cs, a, fuel + 1, h, hf => by
      obtain ⟨rfl, hcr, hlink⟩ := h.uncons
      have hcl := runs_findInCluster hg hcr hC name fs.sectorsPerCluster.toNat 0 (by omega)
      rw [slots_cons, findLocs_append]
      refine .bind hcl ?_
      cases findLocs v name _ with
      | some r =>
          rw [Option.some_or]
          cases r with
          | some e => exact .pure hC
          | none => exact .fail hC
      | none =>
          rw [Option.none_or]
          refine .bind (runs_fatEntry hg hcr.2 hC) ?_
          rcases hlink with ⟨rfl, hend⟩ | ⟨hlt, hrest⟩
          · rw [if_pos hend]
            exact .fail hC
          · rw [if_neg (by omega)]
            exact runs_findLoop hg hC name cs (v.fat c) fuel hrest (by simp at hf; omega)

theorem runs_findInDir (hg : fs.Geometry) (hC : C v) (name : Name) {a : Nat} {l : List Nat}
    (h : fs.ChainAt v a l) (hl : l.length ≤ loopLimit) :
    fs.Runs C (fs.findInDir a name) v
      (match fs.lookup v l name with
        | some loc => .ok ((v.entry loc).firstCluster, (v.entry loc).size, (v.entry loc).isDir)
        | none => .error (.err .notFound)) v := by
  have hrun := runs_findLoop hg hC name l a loopLimit h hl
  have hr : (match findLocs v name (fs.slots l) with
        | some (some e) => Except.ok (e.firstCluster, e.size, e.isDir)
        | _ => Except.error (Stop.err .notFound)) =
      match fs.lookup v l name with
        | some loc => .ok ((v.entry loc).firstCluster, (v.entry loc).size, (v.entry loc).isDir)
        | none => .error (.err .notFound) := by
    simp only [findLocs, lookup, liveSlots]
    cases (v.live (fs.slots l)).find? fun loc => (v.entry loc).name = name with
    | some loc => rfl
    | none =>
        dsimp only
        split
        · rename_i h; split at h <;> cases h
        · rfl
  rwa [hr] at hrun

theorem length_le_clusters {a : Nat} {l : List Nat} (h : fs.ChainAt v a l) : l.length ≤ fs.clusters := by
  have hsub : l ⊆ List.range fs.clusters := fun c hc => List.mem_range.mpr (h.inRange c hc).2
  have := (List.subperm_of_subset h.chain.nodup hsub).length_le
  rwa [List.length_range] at this

theorem length_le_loopLimit (hg : fs.Geometry) {a : Nat} {l : List Nat} (h : fs.ChainAt v a l) :
    l.length < loopLimit :=
  Nat.lt_of_le_of_lt (length_le_clusters h) hg.clusters_lt

/-- What `read_file` returns for the file at a slot whose chain is `l`. -/
def fileBytes (fs : Fat32) (v : Volume) (e : DirEntry) (l : List Nat) (outLen : Nat) : List UInt8 :=
  (fs.content v l).take (min e.size outLen)

theorem runs_readFile_none (hg : fs.Geometry) (hC : C v) {name : Name} (outLen : Nat) {l : List Nat}
    (h : fs.ChainAt v fs.rootCluster.toNat l) (hn : fs.lookup v l name = none) :
    fs.Runs C (fs.readFile name outLen) v (.error (.err .notFound)) v := by
  have hf := runs_findInDir hg hC name h (Nat.le_of_lt (length_le_loopLimit hg h))
  rw [hn] at hf
  exact .bind_error hf

theorem runs_readFrom (hg : fs.Geometry) (hC : C v) (outLen : Nat) {m : List Nat} {e : DirEntry}
    (hm : e.firstCluster = 0 ∧ m = [] ∨ fs.ChainAt v e.firstCluster m) :
    fs.Runs C (fs.readFrom e.firstCluster e.size outLen) v (.ok (fs.fileBytes v e m outLen)) v := by
  rw [readFrom]
  rcases hm with ⟨h0, rfl⟩ | hm
  · rw [if_pos h0]
    simp only [fileBytes, content, sectors, List.flatMap_nil, List.take_nil]
    exact .pure hC
  · have hne : e.firstCluster ≠ 0 := by
      have := (hm.inRange _ hm.chain.head_mem).1; omega
    have hr := runs_readLoop hg hC (min e.size outLen) m _ loopLimit [] hm
      (Nat.le_of_lt (length_le_loopLimit hg hm)) (Nat.zero_le _)
    rw [List.nil_append, List.length_nil, Nat.sub_zero] at hr
    rw [if_neg hne, fileBytes]
    exact hr

theorem runs_readFile_some (hg : fs.Geometry) (hC : C v) {name : Name} (outLen : Nat) {l m : List Nat} {loc : Loc}
    (h : fs.ChainAt v fs.rootCluster.toNat l) (hn : fs.lookup v l name = some loc)
    (hm : (v.entry loc).firstCluster = 0 ∧ m = [] ∨ fs.ChainAt v (v.entry loc).firstCluster m) :
    fs.Runs C (fs.readFile name outLen) v (.ok (fs.fileBytes v (v.entry loc) m outLen)) v := by
  have hf := runs_findInDir hg hC name h (Nat.le_of_lt (length_le_loopLimit hg h))
  rw [hn] at hf
  exact .bind hf (runs_readFrom hg hC outLen hm)

end Fat32

end Ferro
