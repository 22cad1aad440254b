import Ferro.Fat32.Lemmas.Entries
import Ferro.Fat32.Lemmas.Walks
import Ferro.Fat32.Theorems

/-!
# Listing and lookup on any card

Along a chain of links that ends, `list_dir` and `find_in_dir` skip the same entries and stop at the same one.
-/

namespace Ferro

open DirEntry

namespace Fat32

variable (fs : Fat32) (d : Disk) {cap : Nat} {out : List (Name × Nat)} {name : Name} {l : List Nat} {a : Nat}

/-- The entries in the `n` sectors from `lba + s` on. -/
def entriesIn (lba s n : Nat) : List DirEntry :=
  (List.range' s n).flatMap fun s => (List.range 16).map (d (wrap32 (lba + s))).entry

/-- The entries in the clusters of a chain, in order. -/
def dirEntries (l : List Nat) : List DirEntry :=
  l.flatMap fun c => entriesIn d (fs.clusterToLba c) 0 fs.sectorsPerCluster.toNat

theorem run_listCluster_eq (lba n s : Nat) (h : out.length ≤ cap) :
    (listCluster cap lba n s out).run d = (.ok (listAll cap (entriesIn d lba s n) out), d) := by
  induction n generalizing s out with
  | zero => rw [entriesIn, List.range'_zero, List.flatMap_nil, listAll_nil h]; rfl
  | succ n ih =>
      rw [listCluster, run_readBlock_bind, DirEntry.listEntries_eq _ _ h, entriesIn, List.range'_succ, List.flatMap_cons,
        listAll_append]
      have hle := @length_listAll_le ((List.range 16).map (d (wrap32 (lba + s))).entry) cap out
      generalize listAll cap ((List.range 16).map (d (wrap32 (lba + s))).entry) out = r at hle ⊢
      obtain ⟨out', stop⟩ := r
      cases stop with
      | true => rfl
      | false => exact ih (s + 1) hle

theorem lookupIn_eq (lba n s : Nat) : lookupIn d name lba s n = find name (entriesIn d lba s n) := by
  induction n generalizing s with
  | zero => rfl
  | succ n ih =>
      have hcons : entriesIn d lba s (n + 1) =
          (List.range 16).map (d (wrap32 (lba + s))).entry ++ entriesIn d lba (s + 1) n := by
        rw [entriesIn, List.range'_succ, List.flatMap_cons, ← entriesIn]
      rw [hcons, find_append, lookupIn, List.range'_succ, List.findSome?_cons, DirEntry.findEntry_eq, ← lookupIn, ih]
      cases find name ((List.range 16).map (d (wrap32 (lba + s))).entry) with
      | none => rfl
      | some r => rfl

theorem run_listLoop_chain (h : Chain (fs.nextAt d) a l) (fuel : Nat) (hfuel : l.length ≤ fuel)
    (hout : out.length ≤ cap) :
    ((fs.listLoop cap fuel a out).run d).1 = .ok (listAll cap (fs.dirEntries d l) out).1 := by
  induction h generalizing fuel out with
  | @last c hn =>
      obtain ⟨fuel, rfl⟩ := Nat.exists_eq_add_of_le' hfuel
      have hcl := run_listCluster_eq d (fs.clusterToLba c) fs.sectorsPerCluster.toNat 0 hout
      rw [List.length_singleton, listLoop, Prog.run_bind_ok hcl, dirEntries, List.flatMap_singleton]
      generalize listAll cap _ out = r
      obtain ⟨out', stop⟩ := r
      cases stop with
      | true => rfl
      | false =>
          dsimp only
          rw [if_neg Bool.false_ne_true, run_follow, hn]
          rfl
  | @cons c b l hn _ ih =>
      obtain ⟨fuel, rfl⟩ := Nat.exists_eq_add_of_le' hfuel
      have hcl := run_listCluster_eq d (fs.clusterToLba c) fs.sectorsPerCluster.toNat 0 hout
      rw [List.length_cons, ← Nat.add_assoc, listLoop, Prog.run_bind_ok hcl, dirEntries, List.flatMap_cons,
        listAll_append, ← dirEntries]
      have hle := @length_listAll_le (entriesIn d (fs.clusterToLba c) 0 fs.sectorsPerCluster.toNat) cap out
      generalize listAll cap (entriesIn d (fs.clusterToLba c) 0 fs.sectorsPerCluster.toNat) out = r at hle ⊢
      obtain ⟨out', stop⟩ := r
      cases stop with
      | true => rfl
      | false =>
          dsimp only
          rw [if_neg Bool.false_ne_true, if_neg Bool.false_ne_true, run_follow, hn]
          exact ih _ (by omega) hle

theorem run_findLoop_chain (h : Chain (fs.nextAt d) a l) (name : Name) (fuel : Nat) (hfuel : l.length ≤ fuel) :
    ((fs.findLoop name fuel a).run d).1 = match find name (fs.dirEntries d l) with
      | some (some entry) => .ok (entry.firstCluster, entry.size, entry.isDir)
      | _ => .error (.err .notFound) := by
  induction h generalizing fuel with
  | @last c hn =>
      obtain ⟨fuel, rfl⟩ := Nat.exists_eq_add_of_le' hfuel
      have hcl := run_findInCluster d name (fs.clusterToLba c) fs.sectorsPerCluster.toNat 0
      rw [List.length_singleton, findLoop, Prog.run_bind_ok hcl, lookupIn_eq, dirEntries, List.flatMap_singleton]
      cases find name (entriesIn d (fs.clusterToLba c) 0 fs.sectorsPerCluster.toNat) with
      | some found => cases found <;> rfl
      | none =>
          dsimp only
          rw [run_follow, hn]
          rfl
  | @cons c b l hn _ ih =>
      obtain ⟨fuel, rfl⟩ := Nat.exists_eq_add_of_le' hfuel
      have hcl := run_findInCluster d name (fs.clusterToLba c) fs.sectorsPerCluster.toNat 0
      rw [List.length_cons, ← Nat.add_assoc, findLoop, Prog.run_bind_ok hcl, lookupIn_eq, dirEntries,
        List.flatMap_cons, find_append,
        ← dirEntries]
      cases find name (entriesIn d (fs.clusterToLba c) 0 fs.sectorsPerCluster.toNat) with
      | some found => cases found <;> rfl
      | none =>
          dsimp only
          rw [run_follow, hn, Option.none_or]
          exact ih _ (by omega)

/-- A chain has no more clusters than there are links, and its first one. -/
theorem length_le_loopLimit_of_chain (h : Chain (fs.nextAt d) a l) : l.length ≤ loopLimit := by
  obtain ⟨t, rfl⟩ := h.eq_cons
  have hsub : t.toFinset ⊆ Finset.range (2 ^ 28) := by
    intro c hc
    obtain ⟨i, hi, rfl⟩ := List.getElem_of_mem (List.mem_toFinset.mp hc)
    have hnext := h.next_getElem (i := i) (by rw [List.length_cons]; omega)
    rw [List.getElem_cons_succ] at hnext
    exact fs.mem_range_of_nextAt d hnext
  have hcard := Finset.card_le_card hsub
  rw [List.toFinset_card_of_nodup (List.nodup_cons.mp h.nodup).2] at hcard
  have hlt := targets_lt
  rw [List.length_cons]
  omega

/-- What the entries behind the first live one with a name are does not matter to a lookup. -/
theorem lookup_listing (es : List DirEntry) (name : Name) :
    (listing es).lookup name = ((live es).find? (·.name = name)).map (·.size) := by
  rw [listing]
  induction live es with
  | nil => rfl
  | cons entry es ih =>
      rw [List.map_cons, List.lookup_cons, List.find?_cons, ih]
      by_cases hn : entry.name = name
      · rw [decide_eq_true hn, beq_iff_eq.mpr hn.symm]
        rfl
      · rw [decide_eq_false hn, beq_eq_false_iff_ne.mpr (Ne.symm hn)]

theorem run_listDir_chain (h : Chain (fs.nextAt d) a l) (cap : Nat) :
    (fs.listDir a cap).run d = (.ok ((listing (fs.dirEntries d l)).take cap), d) := by
  refine Prod.ext ?_ ((fs.readOnly_listDir a cap).run d)
  rw [listDir, fs.run_listLoop_chain d h loopLimit (fs.length_le_loopLimit_of_chain d h) (Nat.zero_le _), listAll,
    List.nil_append]

theorem run_findInDir_chain (h : Chain (fs.nextAt d) a l) (name : Name) :
    (fs.findInDir a name).run d = (match (live (fs.dirEntries d l)).find? (·.name = name) with
      | some entry => .ok (entry.firstCluster, entry.size, entry.isDir)
      | none => .error (.err .notFound), d) := by
  refine Prod.ext ?_ ((fs.readOnly_findInDir a name).run d)
  rw [findInDir, fs.run_findLoop_chain d h name loopLimit (fs.length_le_loopLimit_of_chain d h), find]
  cases (live (fs.dirEntries d l)).find? (·.name = name) with
  | some entry => rfl
  | none =>
      cases ended (fs.dirEntries d l) with
      | true => rfl
      | false => rfl

/-- `list_dir` returns the live entries before the end of the directory, and `find_in_dir` finds the first listed
entry with the name. -/
theorem listing_agrees (h : Chain (fs.nextAt d) a l) :
    (∀ cap, (listing (fs.dirEntries d l)).length ≤ cap →
      (fs.listDir a cap).run d = (.ok (listing (fs.dirEntries d l)), d)) ∧
    ∀ name,
      ((∃ r, (fs.findInDir a name).run d = (.ok r, d)) ↔ name ∈ (listing (fs.dirEntries d l)).map Prod.fst) ∧
      ∀ r, (fs.findInDir a name).run d = (.ok r, d) → (listing (fs.dirEntries d l)).lookup name = some r.2.1 := by
  refine ⟨fun cap hcap => ?_, fun name => ?_⟩
  · rw [fs.run_listDir_chain d h cap, List.take_of_length_le hcap]
  · rw [fs.run_findInDir_chain d h name, lookup_listing, listing, List.map_map]
    cases hfind : (live (fs.dirEntries d l)).find? (·.name = name) with
    | some entry =>
        have hmem := List.mem_of_find?_eq_some hfind
        have hname := List.find?_some hfind
        refine ⟨⟨fun _ => List.mem_map.mpr ⟨entry, hmem, of_decide_eq_true hname⟩, fun _ => ⟨_, rfl⟩⟩, fun r hr => ?_⟩
        cases hr
        rfl
    | none =>
        refine ⟨⟨by rintro ⟨r, ⟨⟩⟩, fun hmem => ?_⟩, by rintro r ⟨⟩⟩
        obtain ⟨entry, hentry, hname⟩ := List.mem_map.mp hmem
        exact absurd (decide_eq_true hname) (List.find?_eq_none.mp hfind entry hentry)

/-- A chain of the volume is a chain of the card. -/
theorem ChainAt.chain_nextAt {fs : Fat32} (h : fs.ChainAt (fs.volume d) a l) (hg : fs.Geometry) :
    Chain (fs.nextAt d) a l := by
  refine h.chain.congr fun c hc => ?_
  rw [nextAt, Volume.next, hg.noOverflow.fatAt_eq d (h.inRange c hc).2]

/-- A root directory of one cluster, with a deleted entry before that of a file of 600 bytes. -/
def listedCard : Disk := fun lba =>
  if lba = 1 then (Arr.fill 0).put 8 [0xFF, 0xFF, 0xFF, 0x0F]
  else if lba = 3 then ((Arr.fill 0).put 0 [0xE5]).put 32 (entryBytes fileA 3 600)
  else .fill 0

set_option maxRecDepth 8000 in
theorem listing_agrees_listedCard : Chain (smallFs.nextAt listedCard) 2 [2] ∧
    (smallFs.listDir 2 16).run listedCard = (.ok [(fileA, 600)], listedCard) ∧
      ∃ r, (smallFs.findInDir 2 fileA).run listedCard = (.ok r, listedCard) := by
  have hend : smallFs.nextAt listedCard 2 = none := by rfl
  have hlisting : listing (smallFs.dirEntries listedCard [2]) = [(fileA, 600)] := by rfl
  obtain ⟨hlist, hfind⟩ := smallFs.listing_agrees listedCard (.last hend)
  rw [hlisting] at hlist hfind
  exact ⟨.last hend, hlist 16 (by decide), (hfind fileA).1.mpr List.mem_cons_self⟩

end Fat32

end Ferro
