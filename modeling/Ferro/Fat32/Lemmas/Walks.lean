import Ferro.Base.Walk
import Ferro.Fat32.Lemmas.Layout
import Ferro.Fat32.Lemmas.Read

/-!
# Walks on an arbitrary card

Nothing is assumed of the card: links and directory sectors are what the blocks say, at the addresses that the
driver computes. Each loop of the driver over a cluster chain is a `Walk`.
-/

namespace Ferro

namespace Fat32

open Relation

variable (fs : Fat32) (d : Disk)

/-! ## What is on the card -/

/-- The link of cluster `c`, as `fat_entry` reads it. -/
def fatAt (c : Nat) : Nat :=
  leNat ((d (wrap32 (fs.partitionStartLba.toNat + fs.reservedSectors.toNat + wrap32 (c * 4) / sectorSize))).slice
    (wrap32 (c * 4) % sectorSize) 4) &&& 0x0FFFFFFF

/-- The cluster after `c`, or `none` at an end-of-chain mark. -/
def nextAt (c : Nat) : Option Nat := if endOfChain ≤ fs.fatAt d c then none else some (fs.fatAt d c)

/-- A `0x00` entry in one of the `n` sectors from `lba + s` on. -/
def endsIn (lba s n : Nat) : Bool :=
  (List.range' s n).any fun s => (List.range 16).any fun i => ((d (wrap32 (lba + s))).entry i).isEnd

/-- What a search for a name comes upon in the `n` sectors from `lba + s` on: the entry, or the directory's end. -/
def lookupIn (name : Name) (lba s n : Nat) : Option (Option DirEntry) :=
  (List.range' s n).findSome? fun s => findEntry name (d (wrap32 (lba + s))) (List.range 16)

def endsAt (c : Nat) : Bool := endsIn d (fs.clusterToLba c) 0 fs.sectorsPerCluster.toNat

def lookupAt (name : Name) (c : Nat) : Option (Option DirEntry) :=
  lookupIn d name (fs.clusterToLba c) 0 fs.sectorsPerCluster.toNat

/-- The link that a listing, or the search of `write_file`, takes out of a directory cluster. -/
def dirLink (c : Nat) : Option Nat := if fs.endsAt d c then none else fs.nextAt d c

/-- The link that `find_in_dir` takes out of a directory cluster. -/
def findLink (name : Name) (c : Nat) : Option Nat := if (fs.lookupAt d name c).isSome then none else fs.nextAt d c

theorem run_fatEntry (c : Nat) : (fs.fatEntry c).run d = (.ok (fs.fatAt d c), d) := rfl

theorem NoOverflow.fatAt_eq {fs : Fat32} (hg : fs.NoOverflow) (d : Disk) {c : Nat} (hc : c < fs.clusters) :
    fs.fatAt d c = (fs.volume d).fat c := by
  obtain ⟨_, _, hrun, _⟩ := within_fatEntry (S := fun _ => False) (C := fun _ => True) hg hc trivial d rfl
  exact Except.ok.inj hrun

theorem mem_range_of_nextAt {a b : Nat} (h : fs.nextAt d a = some b) : b ∈ Finset.range (2 ^ 28) := by
  rw [nextAt, Option.ite_none_left_eq_some, Option.some_inj] at h
  rw [Finset.mem_range, ← h.2]
  exact Nat.lt_of_le_of_lt Nat.and_le_right (by decide)

theorem targets_lt : (Finset.range (2 ^ 28)).card + 1 < loopLimit := by
  rw [Finset.card_range, loopLimit]
  decide

/-! ## One cluster -/

theorem listEntries_snd (cap : Nat) (sector : Sector) (is : List Nat) (out : List (Name × Nat)) :
    (listEntries cap sector is out).2 = is.any fun i => (sector.entry i).isEnd := by
  induction is generalizing out with
  | nil => rfl
  | cons i is ih =>
      rw [List.any_cons, listEntries]
      by_cases hend : (sector.entry i).nth 0 = 0x00
      · simp [hend, DirEntry.isEnd]
      · have : (sector.entry i).isEnd = false := decide_eq_false hend
        rw [this, Bool.false_or, if_neg hend]
        split
        · exact ih out
        · split
          · exact ih _
          · exact ih out

theorem scanEntries_snd (name : Name) (secLba : Nat) (sector : Sector) (is : List Nat) (st : Search) :
    (scanEntries name secLba sector is st).2 = is.any fun i => (sector.entry i).isEnd := by
  induction is generalizing st with
  | nil => rfl
  | cons i is ih =>
      rw [List.any_cons, scanEntries]
      by_cases hend : (sector.entry i).nth 0 = 0x00
      · simp [hend, DirEntry.isEnd]
      · have : (sector.entry i).isEnd = false := decide_eq_false hend
        rw [this, Bool.false_or, if_neg hend]
        split
        · exact ih _
        · split
          · exact ih st
          · split
            · exact ih _
            · exact ih st

theorem endsIn_succ (lba s n : Nat) : endsIn d lba s (n + 1) =
    (((List.range 16).any fun i => ((d (wrap32 (lba + s))).entry i).isEnd) || endsIn d lba (s + 1) n) := by
  rw [endsIn, List.range'_succ, List.any_cons]
  rfl

theorem run_listCluster (cap lba n s : Nat) (out : List (Name × Nat)) :
    ∃ out', (listCluster cap lba n s out).run d = (.ok (out', endsIn d lba s n), d) := by
  induction n generalizing s out with
  | zero => exact ⟨out, rfl⟩
  | succ n ih =>
      rw [endsIn_succ, ← listEntries_snd cap _ _ out, listCluster, run_readBlock_bind]
      obtain ⟨out', stop⟩ := listEntries cap (d (wrap32 (lba + s))) (List.range 16) out
      cases stop with
      | true => exact ⟨out', rfl⟩
      | false => exact ih (s + 1) out'

theorem run_searchCluster (name : Name) (lba n s : Nat) (st : Search) :
    ∃ st', (searchCluster name lba n s st).run d = (.ok (st', endsIn d lba s n), d) := by
  induction n generalizing s st with
  | zero => exact ⟨st, rfl⟩
  | succ n ih =>
      rw [endsIn_succ, ← scanEntries_snd name (wrap32 (lba + s)) _ _ st, searchCluster, run_readBlock_bind]
      obtain ⟨st', stop⟩ := scanEntries name (wrap32 (lba + s)) (d (wrap32 (lba + s))) (List.range 16) st
      cases stop with
      | true => exact ⟨st', rfl⟩
      | false => exact ih (s + 1) st'

theorem run_findInCluster (name : Name) (lba n s : Nat) :
    (findInCluster name lba n s).run d = (.ok (lookupIn d name lba s n), d) := by
  induction n generalizing s with
  | zero => rfl
  | succ n ih =>
      rw [findInCluster, run_readBlock_bind, lookupIn, List.range'_succ, List.findSome?_cons]
      cases findEntry name (d (wrap32 (lba + s))) (List.range 16) with
      | some r => rfl
      | none => exact ih (s + 1)

theorem run_readCluster {toRead : Nat} (lba n s : Nat) {out : List UInt8} (h : out.length ≤ toRead) :
    ∃ out', (readCluster toRead lba n s out).run d = (.ok out', d) ∧
      out'.length = min toRead (out.length + n * sectorSize) := by
  induction n generalizing s out with
  | zero => exact ⟨out, rfl, by omega⟩
  | succ n ih =>
      rw [readCluster]
      split
      · exact ⟨out, rfl, by omega⟩
      · rename_i hlt
        have hlen : ((d (wrap32 (lba + s))).slice 0 (min (toRead - out.length) sectorSize)).length =
            min (toRead - out.length) sectorSize :=
          Arr.length_slice _ (by rw [sectorSize]; omega)
        obtain ⟨out', hrun, hout⟩ := @ih (s + 1)
          (out ++ (d (wrap32 (lba + s))).slice 0 (min (toRead - out.length) sectorSize))
          (by rw [List.length_append, hlen]; omega)
        refine ⟨out', hrun, ?_⟩
        rw [hout, List.length_append, hlen, Nat.succ_mul]
        omega

/-! ## The loops as walks

The result of a walk is that of the call: a value, or an error of the driver. -/

def listWalk (cap : Nat) : Walk Nat (List (Name × Nat)) (Except Stop (List (Name × Nat))) where
  visit c out :=
    match ((listCluster cap (fs.clusterToLba c) fs.sectorsPerCluster.toNat 0 out).run d).1 with
    | .ok (out, stop) => if stop then .inl (.ok out) else .inr out
    | .error e => .inl (.error e)
  next := fs.nextAt d
  finish _ out := .ok out

def searchWalk (name : Name) : Walk Nat Search (Except Stop (Search × Nat × Bool)) where
  visit c st :=
    match ((searchCluster name (fs.clusterToLba c) fs.sectorsPerCluster.toNat 0 st).run d).1 with
    | .ok (st, stop) => if stop then .inl (.ok (st, c, false)) else .inr st
    | .error e => .inl (.error e)
  next := fs.nextAt d
  finish c st := .ok (st, c, true)

def findWalk (name : Name) : Walk Nat Unit (Except Stop (Nat × Nat × Bool)) where
  visit c _ :=
    match fs.lookupAt d name c with
    | some (some entry) => .inl (.ok (entry.firstCluster, entry.size, entry.isDir))
    | some none => .inl (.error (.err .notFound))
    | none => .inr ()
  next := fs.nextAt d
  finish _ _ := .error (.err .notFound)

/-- The loop of `read_from`, entered with bytes still to read. -/
def readWalk (toRead : Nat) : Walk Nat (List UInt8) (Except Stop (List UInt8)) where
  visit c out :=
    if toRead ≤ out.length then
      .inl (.ok out)
    else
      match ((readCluster toRead (fs.clusterToLba c) fs.sectorsPerCluster.toNat 0 out).run d).1 with
      | .ok out => if toRead ≤ out.length then .inl (.ok out) else .inr out
      | .error e => .inl (.error e)
  next := fs.nextAt d
  finish _ out := .ok out

theorem run_follow {ρ : Type} (c : Nat) (done : CardM ρ) (go : Nat → CardM ρ) :
    (fs.fatEntry c >>= fun next => if endOfChain ≤ next then done else go next).run d =
      match fs.nextAt d c with
      | none => done.run d
      | some b => (go b).run d := by
  rw [Prog.run_bind_ok (fs.run_fatEntry d c), nextAt]
  split
  · rfl
  · rfl

theorem run_listLoop (cap fuel c : Nat) (out : List (Name × Nat)) :
    ((fs.listLoop cap fuel c out).run d).1 = ((fs.listWalk d cap).run fuel c out).2.getD (.error .hang) := by
  refine Walk.eq_getD_run (f := fun fuel c out => ((fs.listLoop cap fuel c out).run d).1) (fun _ _ => rfl)
    (fun fuel c out => ?_) fuel c out
  obtain ⟨out', h⟩ := run_listCluster d cap (fs.clusterToLba c) fs.sectorsPerCluster.toNat 0 out
  dsimp only [listWalk]
  rw [listLoop, Prog.run_bind_ok h, h]
  dsimp only
  cases endsIn d (fs.clusterToLba c) 0 fs.sectorsPerCluster.toNat with
  | true => rfl
  | false =>
      rw [if_neg Bool.false_ne_true, if_neg Bool.false_ne_true, run_follow]
      cases fs.nextAt d c with
      | none => rfl
      | some b => rfl

theorem run_searchLoop (name : Name) (fuel c : Nat) (st : Search) :
    ((fs.searchLoop name fuel c st).run d).1 = ((fs.searchWalk d name).run fuel c st).2.getD (.error .hang) := by
  refine Walk.eq_getD_run (f := fun fuel c st => ((fs.searchLoop name fuel c st).run d).1) (fun _ _ => rfl)
    (fun fuel c st => ?_) fuel c st
  obtain ⟨st', h⟩ := run_searchCluster d name (fs.clusterToLba c) fs.sectorsPerCluster.toNat 0 st
  dsimp only [searchWalk]
  rw [searchLoop, Prog.run_bind_ok h, h]
  dsimp only
  cases endsIn d (fs.clusterToLba c) 0 fs.sectorsPerCluster.toNat with
  | true => rfl
  | false =>
      rw [if_neg Bool.false_ne_true, if_neg Bool.false_ne_true, run_follow]
      cases fs.nextAt d c with
      | none => rfl
      | some b => rfl

theorem run_findLoop (name : Name) (fuel c : Nat) :
    ((fs.findLoop name fuel c).run d).1 = ((fs.findWalk d name).run fuel c ()).2.getD (.error .hang) := by
  refine Walk.eq_getD_run (f := fun fuel c _ => ((fs.findLoop name fuel c).run d).1) (fun _ _ => rfl)
    (fun fuel c _ => ?_) fuel c ()
  dsimp only [findWalk, lookupAt]
  rw [findLoop, Prog.run_bind_ok (run_findInCluster d name _ _ _)]
  cases lookupIn d name (fs.clusterToLba c) 0 fs.sectorsPerCluster.toNat with
  | some found => cases found with
    | some entry => rfl
    | none => rfl
  | none =>
      dsimp only
      rw [run_follow]
      cases fs.nextAt d c with
      | none => rfl
      | some b => rfl

theorem run_readLoop (toRead fuel c : Nat) (out : List UInt8) :
    ((fs.readLoop toRead fuel c out).run d).1 = ((fs.readWalk d toRead).run fuel c out).2.getD (.error .hang) := by
  refine Walk.eq_getD_run (f := fun fuel c out => ((fs.readLoop toRead fuel c out).run d).1) (fun _ _ => rfl)
    (fun fuel c out => ?_) fuel c out
  dsimp only [readWalk]
  rw [readLoop]
  by_cases hlt : out.length < toRead
  · obtain ⟨out', h, _⟩ :=
      run_readCluster d (fs.clusterToLba c) fs.sectorsPerCluster.toNat 0 (Nat.le_of_lt hlt)
    rw [if_pos hlt, if_neg (by omega), Prog.run_bind_ok h, h]
    dsimp only
    by_cases hle : toRead ≤ out'.length
    · rw [if_pos hle, if_pos hle]
      rfl
    · rw [if_neg hle, if_neg hle, run_follow]
      cases fs.nextAt d c with
      | none => rfl
      | some b => rfl
  · rw [if_neg hlt, if_pos (by omega)]
    rfl

/-! ## Where the walks return -/

theorem listWalk_visit (cap c : Nat) (out : List (Name × Nat)) :
    ∃ out', (fs.listWalk d cap).visit c out = if fs.endsAt d c then .inl (.ok out') else .inr out' := by
  obtain ⟨out', h⟩ := run_listCluster d cap (fs.clusterToLba c) fs.sectorsPerCluster.toNat 0 out
  refine ⟨out', ?_⟩
  dsimp only [listWalk, endsAt]
  rw [h]
  rfl

theorem searchWalk_visit (name : Name) (c : Nat) (st : Search) :
    ∃ st', (fs.searchWalk d name).visit c st = if fs.endsAt d c then .inl (.ok (st', c, false)) else .inr st' := by
  obtain ⟨st', h⟩ := run_searchCluster d name (fs.clusterToLba c) fs.sectorsPerCluster.toNat 0 st
  refine ⟨st', ?_⟩
  dsimp only [searchWalk, endsAt]
  rw [h]
  rfl

theorem isLeft_findWalk (name : Name) (c : Nat) (u : Unit) :
    ((fs.findWalk d name).visit c u).isLeft = (fs.lookupAt d name c).isSome := by
  dsimp only [findWalk]
  cases fs.lookupAt d name c with
  | none => rfl
  | some found => cases found <;> rfl

/-- The walk does not hang and stays in `P` exactly when its links are straight. -/
theorem walk_iff {σ ρ : Type} {w : Walk Nat σ (Except Stop ρ)} {stops : Nat → Bool} (hw : w.next = fs.nextAt d)
    (hs : ∀ c st, (w.visit c st).isLeft = stops c) (hl : ∀ c st r, w.visit c st = .inl r → r ≠ .error .hang)
    (hend : ∀ c st, w.finish c st ≠ .error .hang) {P : Nat → Prop} (c : Nat) (st : σ) :
    ((w.run loopLimit c st).2.getD (.error .hang) ≠ .error .hang ∧ ∀ x ∈ (w.run loopLimit c st).1, P x) ↔
      Straight (w.link stops) P c := by
  rw [Walk.getD_run_ne_iff hl hend]
  refine Walk.returns_iff hs (fun x y hxy => ?_) targets_lt c st
  rw [hw] at hxy
  exact fs.mem_range_of_nextAt d hxy

variable {P : Nat → Prop}

theorem dirWalk_iff {σ ρ : Type} {w : Walk Nat σ (Except Stop ρ)} (hw : w.next = fs.nextAt d)
    (hv : ∀ c st, ∃ r st', w.visit c st = if fs.endsAt d c then .inl (.ok r) else .inr st')
    (hend : ∀ c st, w.finish c st ≠ .error .hang) (c : Nat) (st : σ) :
    ((w.run loopLimit c st).2.getD (.error .hang) ≠ .error .hang ∧ ∀ x ∈ (w.run loopLimit c st).1, P x) ↔
      Straight (fs.dirLink d) P c := by
  have hlink : w.link (fs.endsAt d) = fs.dirLink d := by
    funext c
    rw [Walk.link, hw, dirLink]
  rw [← hlink]
  refine fs.walk_iff d hw (fun c st => ?_) (fun c st r hr => ?_) hend c st
  · obtain ⟨r, st', h⟩ := hv c st
    rw [h]
    cases fs.endsAt d c <;> rfl
  · obtain ⟨r', st', h⟩ := hv c st
    rw [h] at hr
    split at hr
    · cases hr; simp
    · cases hr

theorem listDir_iff (c cap : Nat) :
    (((fs.listDir c cap).run d).1 ≠ .error .hang ∧ ∀ x ∈ ((fs.listWalk d cap).run loopLimit c []).1, P x) ↔
      Straight (fs.dirLink d) P c := by
  rw [listDir, run_listLoop]
  refine fs.dirWalk_iff d (w := fs.listWalk d cap) rfl (fun c out => ?_) (fun _ _ h => by cases h) c []
  obtain ⟨out', h⟩ := fs.listWalk_visit d cap c out
  exact ⟨out', out', h⟩

theorem search_iff (name : Name) (c : Nat) :
    (((fs.searchLoop name loopLimit c {}).run d).1 ≠ .error .hang ∧
      ∀ x ∈ ((fs.searchWalk d name).run loopLimit c {}).1, P x) ↔ Straight (fs.dirLink d) P c := by
  rw [run_searchLoop]
  refine fs.dirWalk_iff d (w := fs.searchWalk d name) rfl (fun c st => ?_) (fun _ _ h => by cases h) c {}
  obtain ⟨st', h⟩ := fs.searchWalk_visit d name c st
  exact ⟨(st', c, false), st', h⟩

theorem findWalk_ne_hang {name : Name} {c : Nat} {u : Unit} {r : Except Stop (Nat × Nat × Bool)}
    (h : (fs.findWalk d name).visit c u = .inl r) : r ≠ .error .hang := by
  dsimp only [findWalk] at h
  split at h
  · cases h; simp
  · cases h; simp
  · cases h

theorem findInDir_iff (c : Nat) (name : Name) :
    (((fs.findInDir c name).run d).1 ≠ .error .hang ∧ ∀ x ∈ ((fs.findWalk d name).run loopLimit c ()).1, P x) ↔
      Straight (fs.findLink d name) P c := by
  rw [findInDir, run_findLoop]
  exact fs.walk_iff d rfl (fs.isLeft_findWalk d name) (fun _ _ _ => fs.findWalk_ne_hang d) (fun _ _ h => by cases h) c ()

/-! ## `read_from` -/

/-- The clusters that `read_from` visits; it does not enter the loop without a first cluster or with nothing to read. -/
def readVisited (first toRead : Nat) : List Nat :=
  if first = 0 ∨ toRead = 0 then [] else ((fs.readWalk d toRead).run loopLimit first []).1

theorem readWalk_inl {toRead c : Nat} {out : List UInt8} {r : Except Stop (List UInt8)}
    (h : (fs.readWalk d toRead).visit c out = .inl r) :
    r ≠ .error .hang ∧ toRead ≤ out.length + fs.clusterSizeBytes := by
  dsimp only [readWalk] at h
  split at h
  · cases h
    exact ⟨by simp, by omega⟩
  · obtain ⟨out', hrun, hlen⟩ :=
      run_readCluster d (fs.clusterToLba c) fs.sectorsPerCluster.toNat 0 (by omega : out.length ≤ toRead)
    rw [hrun] at h
    dsimp only at h
    split at h
    · cases h
      refine ⟨by simp, ?_⟩
      rw [clusterSizeBytes]
      omega
    · cases h

theorem readWalk_inr {toRead c : Nat} {out out' : List UInt8} (h : (fs.readWalk d toRead).visit c out = .inr out') :
    out'.length = out.length + fs.clusterSizeBytes ∧ out'.length < toRead := by
  dsimp only [readWalk] at h
  split at h
  · cases h
  · obtain ⟨out'', hrun, hlen⟩ :=
      run_readCluster d (fs.clusterToLba c) fs.sectorsPerCluster.toNat 0 (by omega : out.length ≤ toRead)
    rw [hrun] at h
    dsimp only at h
    split at h
    · cases h
    · cases h
      rw [clusterSizeBytes]
      omega

/-- On any card `read_from` returns, and visits the clusters that the links lead to while bytes are missing. -/
theorem readFrom_visits (hspc : 1 ≤ fs.sectorsPerCluster.toNat) (first fileSize outLen : Nat) (hsize : fileSize < 2 ^ 32) :
    ((fs.readFrom first fileSize outLen).run d).1 ≠ .error .hang ∧
      ∀ c, c ∈ fs.readVisited d first (min fileSize outLen) ↔
        first ≠ 0 ∧ ∃ i, i * fs.clusterSizeBytes < min fileSize outLen ∧ follow (fs.nextAt d) i first = some c := by
  have hsizes : 0 < fs.clusterSizeBytes := by rw [clusterSizeBytes, sectorSize]; omega
  rw [readFrom, readVisited]
  by_cases hfirst : first = 0
  · rw [if_pos hfirst, if_pos (.inl hfirst)]
    exact ⟨by simp, fun c => by simp [hfirst]⟩
  · rw [if_neg hfirst, run_readLoop]
    by_cases hzero : min fileSize outLen = 0
    · have hnothing : ((fs.readWalk d 0).run loopLimit first []).2 = some (.ok []) := rfl
      rw [if_pos (.inr hzero), hzero, hnothing]
      exact ⟨by simp, fun c => by simp⟩
    · rw [if_neg (not_or.mpr ⟨hfirst, hzero⟩)]
      obtain ⟨hret, hmem⟩ := Walk.mem_run_budget (w := fs.readWalk d (min fileSize outLen)) List.length hsizes
        (fun _ _ _ h => (fs.readWalk_inl d h).2) (fun _ _ _ h => fs.readWalk_inr d h) loopLimit first []
        (by rw [List.length_nil]; omega) (by rw [List.length_nil, loopLimit]; omega)
      refine ⟨?_, fun c => ?_⟩
      · exact (Walk.getD_run_ne_iff (fun c out r h => (fs.readWalk_inl d h).1) (fun _ _ h => by cases h) _ _ _).mpr hret
      · rw [hmem c, List.length_nil]
        simp only [Nat.zero_add, ne_eq, hfirst, not_false_eq_true, true_and]
        rfl

/-! ## Errors

Where no block fails, the loops over a chain return a value or never return. -/

theorem listDir_cases (c cap : Nat) :
    ((fs.listDir c cap).run d).1 = .error .hang ∨ ∃ out, ((fs.listDir c cap).run d).1 = .ok out := by
  rw [listDir, run_listLoop]
  cases h : ((fs.listWalk d cap).run loopLimit c []).2 with
  | none => exact .inl rfl
  | some r =>
      have hok : ∃ out, r = .ok out := by
        refine Walk.run_eq_some (Q := fun r => ∃ out, r = .ok out) (fun c out r hr => ?_) (fun _ out => ⟨out, rfl⟩) h
        obtain ⟨out', hv⟩ := fs.listWalk_visit d cap c out
        rw [hv] at hr
        split at hr
        · cases hr
          exact ⟨out', rfl⟩
        · cases hr
      exact .inr hok

theorem readFrom_cases (first fileSize outLen : Nat) :
    ((fs.readFrom first fileSize outLen).run d).1 = .error .hang ∨
      ∃ out, ((fs.readFrom first fileSize outLen).run d).1 = .ok out := by
  rw [readFrom]
  split
  · exact .inr ⟨[], rfl⟩
  · rw [run_readLoop]
    cases h : ((fs.readWalk d (min fileSize outLen)).run loopLimit first []).2 with
    | none => exact .inl rfl
    | some r =>
        have hok : ∃ out, r = .ok out := by
          refine Walk.run_eq_some (Q := fun r => ∃ out, r = .ok out) (fun c out r hr => ?_) (fun _ out => ⟨out, rfl⟩) h
          dsimp only [readWalk] at hr
          split at hr
          · cases hr
            exact ⟨out, rfl⟩
          · obtain ⟨out', hrun, _⟩ := run_readCluster d (fs.clusterToLba c) fs.sectorsPerCluster.toNat 0
              (by omega : out.length ≤ min fileSize outLen)
            rw [hrun] at hr
            dsimp only at hr
            split at hr
            · cases hr
              exact ⟨out', rfl⟩
            · cases hr
        exact .inr hok

/-! ## `resolve_from` -/

/-- The directory in which the walk of `resolve_from` goes on behind an entry. -/
def descend (dir : Nat) (first : Nat) (isDir : Bool) : Nat :=
  if isDir then (if first = 0 then fs.rootCluster.toNat else first) else dir

/-- The clusters that the walk of `resolve_from` visits, component by component. -/
def resolveVisited : List (List UInt8) → Nat → List Nat
  | [], _ => []
  | component :: rest, dir =>
    match to83 component with
    | none => []
    | some name =>
      ((fs.findWalk d name).run loopLimit dir ()).1 ++
        match ((fs.findInDir dir name).run d).1 with
        | .ok (first, _, isDir) => resolveVisited rest (fs.descend dir first isDir)
        | .error _ => []

/-- Each component is searched for in a straight directory, from the one that the entry before it leads to. -/
def PathStraight (P : Nat → Prop) : List (List UInt8) → Nat → Prop
  | [], _ => True
  | component :: rest, dir =>
    ∀ name, to83 component = some name → Straight (fs.findLink d name) P dir ∧
      ∀ c entry, ReflTransGen (fun x y => fs.findLink d name x = some y) dir c →
        fs.lookupAt d name c = some (some entry) →
          PathStraight P rest (fs.descend dir entry.firstCluster entry.isDir)

theorem findInDir_ok {dir : Nat} {name : Name} {r : Nat × Nat × Bool} (h : ((fs.findInDir dir name).run d).1 = .ok r) :
    ∃ c entry, ReflTransGen (fun x y => fs.findLink d name x = some y) dir c ∧
      fs.lookupAt d name c = some (some entry) ∧ r = (entry.firstCluster, entry.size, entry.isDir) := by
  rw [findInDir, run_findLoop] at h
  cases hrun : ((fs.findWalk d name).run loopLimit dir ()).2 with
  | none => rw [hrun] at h; cases h
  | some r' =>
      rw [hrun] at h
      cases h
      obtain ⟨c, _, hc, hv | hf⟩ := Walk.exists_of_run (fs.isLeft_findWalk d name) hrun
      · dsimp only [findWalk] at hv
        split at hv
        next entry hentry =>
          cases hv
          exact ⟨c, entry, hc, hentry, rfl⟩
        · cases hv
        · cases hv
      · cases hf

theorem findInDir_of_lookup {dir c : Nat} {name : Name} {entry : DirEntry}
    (hret : ((fs.findInDir dir name).run d).1 ≠ .error .hang)
    (hc : ReflTransGen (fun x y => fs.findLink d name x = some y) dir c)
    (hentry : fs.lookupAt d name c = some (some entry)) :
    ((fs.findInDir dir name).run d).1 = .ok (entry.firstCluster, entry.size, entry.isDir) := by
  rw [findInDir, run_findLoop] at hret ⊢
  have hsome := (Walk.getD_run_ne_iff (fun _ _ _ => fs.findWalk_ne_hang d) (fun _ _ h => by cases h) _ _ _).mp hret
  rw [Walk.run_of_stop (fs.isLeft_findWalk d name) hsome hc fun _ => by dsimp only [findWalk]; rw [hentry]]
  rfl

theorem resolveLoop_iff (cs : List (List UInt8)) (dir : Nat) (result : Nat × Nat × Bool) :
    (((fs.resolveLoop cs dir result).run d).1 ≠ .error .hang ∧ ∀ c ∈ fs.resolveVisited d cs dir, P c) ↔
      fs.PathStraight d P cs dir := by
  induction cs generalizing dir result with
  | nil => simp [resolveLoop, resolveVisited, PathStraight]
  | cons component rest ih =>
      rw [resolveLoop, resolveVisited, PathStraight]
      cases hname : to83 component with
      | none => simp
      | some name =>
          simp only [Option.some_inj, forall_eq', List.forall_mem_append]
          rw [← fs.findInDir_iff d dir name]
          have hro := (fs.readOnly_findInDir dir name).run d
          cases hfind : ((fs.findInDir dir name).run d).1 with
          | error e =>
              have hrun : (fs.findInDir dir name).run d = (.error e, d) := Prod.ext hfind hro
              rw [Prog.run_bind_error hrun]
              constructor
              · rintro ⟨hne, hvisited, -⟩
                refine ⟨⟨fun h => hne (by cases h; rfl), hvisited⟩, fun c entry hc hentry => ?_⟩
                have hfound := fs.findInDir_of_lookup d (by rw [hfind]; exact fun h => hne (by cases h; rfl)) hc hentry
                rw [hfind] at hfound
                cases hfound
              · rintro ⟨⟨hne, hvisited⟩, -⟩
                exact ⟨fun h => hne (by cases h; rfl), hvisited, by simp⟩
          | ok r =>
              have hrun : (fs.findInDir dir name).run d = (.ok r, d) := Prod.ext hfind hro
              rw [Prog.run_bind_ok hrun]
              obtain ⟨c, entry, hc, hentry, rfl⟩ := fs.findInDir_ok d hfind
              have hrest := ih (fs.descend dir entry.firstCluster entry.isDir)
                (entry.firstCluster, entry.size, entry.isDir)
              constructor
              · rintro ⟨hne, hvisited, hmore⟩
                refine ⟨⟨by simp, hvisited⟩, fun c' entry' hc' hentry' => ?_⟩
                have hfound := fs.findInDir_of_lookup d (by rw [hfind]; simp) hc' hentry'
                rw [hfind] at hfound
                injection hfound with heq
                injection heq with hfirst heq
                injection heq with _ hdir
                rw [← hfirst, ← hdir]
                exact hrest.mp ⟨hne, hmore⟩
              · rintro ⟨⟨_, hvisited⟩, hstraight⟩
                obtain ⟨hne, hmore⟩ := hrest.mpr (hstraight c entry hc hentry)
                exact ⟨hne, hvisited, hmore⟩

end Fat32

end Ferro
