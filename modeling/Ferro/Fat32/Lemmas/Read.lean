import Ferro.Fat32.Model

/-!
# Code that only reads

Searching, listing and reading write no block, and `read_from` returns no more bytes than its buffer holds.
-/

namespace Ferro

namespace Fat32

open Prog

variable (fs : Fat32)

theorem run_readBlock_bind {α : Type} (lba : Nat) (f : Sector → CardM α) (d : Disk) :
    (readBlock lba >>= f).run d = (f (d lba)).run d := rfl

theorem readOnly_readBlock (lba : Nat) : (readBlock lba).ReadOnly := fun _ => trivial

theorem readOnly_fatEntry (cluster : Nat) : (fs.fatEntry cluster).ReadOnly :=
  (readOnly_readBlock _).bind fun _ => trivial

/-! ## Searching -/

theorem readOnly_searchCluster (name : Name) (lba n s : Nat) (st : Search) :
    (searchCluster name lba n s st).ReadOnly := by
  induction n generalizing s st with
  | zero => trivial
  | succ n ih =>
      rw [searchCluster]
      generalize List.range 16 = is
      refine (readOnly_readBlock _).bind fun sector => ?_
      dsimp only
      split
      · trivial
      · exact ih (s + 1) _

theorem readOnly_searchLoop (name : Name) (fuel dirCluster : Nat) (st : Search) :
    (fs.searchLoop name fuel dirCluster st).ReadOnly := by
  induction fuel generalizing dirCluster st with
  | zero => trivial
  | succ fuel ih =>
      refine (readOnly_searchCluster name _ _ _ _).bind fun r => ?_
      dsimp only
      split
      · trivial
      · refine (fs.readOnly_fatEntry dirCluster).bind fun next => ?_
        split
        · trivial
        · exact ih next _

theorem readOnly_findFreeFrom (n cluster : Nat) : (fs.findFreeFrom n cluster).ReadOnly := by
  induction n generalizing cluster with
  | zero => trivial
  | succ n ih =>
      refine (fs.readOnly_fatEntry cluster).bind fun next => ?_
      split
      · trivial
      · exact ih (cluster + 1)

theorem readOnly_findFreeCluster (start : Nat) : (fs.findFreeCluster start).ReadOnly := fs.readOnly_findFreeFrom _ _

theorem readOnly_findInCluster (name : Name) (lba n s : Nat) : (findInCluster name lba n s).ReadOnly := by
  induction n generalizing s with
  | zero => trivial
  | succ n ih =>
      rw [findInCluster]
      generalize List.range 16 = is
      refine (readOnly_readBlock _).bind fun sector => ?_
      dsimp only
      split
      · trivial
      · exact ih (s + 1)

theorem readOnly_findLoop (name : Name) (fuel cluster : Nat) : (fs.findLoop name fuel cluster).ReadOnly := by
  induction fuel generalizing cluster with
  | zero => trivial
  | succ fuel ih =>
      refine (readOnly_findInCluster name _ _ _).bind fun r => ?_
      split
      · trivial
      · trivial
      · refine (fs.readOnly_fatEntry cluster).bind fun next => ?_
        split
        · trivial
        · exact ih next

theorem readOnly_findInDir (dirCluster : Nat) (name : Name) : (fs.findInDir dirCluster name).ReadOnly :=
  fs.readOnly_findLoop name loopLimit dirCluster

theorem readOnly_resolveLoop (cs : List (List UInt8)) (dirCluster : Nat) (result : Nat × Nat × Bool) :
    (fs.resolveLoop cs dirCluster result).ReadOnly := by
  induction cs generalizing dirCluster result with
  | nil => trivial
  | cons c cs ih =>
      rw [resolveLoop]
      split
      · trivial
      · exact (fs.readOnly_findInDir dirCluster _).bind fun _ => ih _ _

theorem readOnly_resolveFrom (startCluster : Nat) (path : List UInt8) : (fs.resolveFrom startCluster path).ReadOnly :=
  fs.readOnly_resolveLoop _ _ _

/-! ## Listing -/

theorem readOnly_listCluster (cap lba n s : Nat) (out : List (Name × Nat)) :
    (listCluster cap lba n s out).ReadOnly := by
  induction n generalizing s out with
  | zero => trivial
  | succ n ih =>
      rw [listCluster]
      generalize List.range 16 = is
      refine (readOnly_readBlock _).bind fun sector => ?_
      dsimp only
      split
      · trivial
      · exact ih (s + 1) _

theorem readOnly_listLoop (cap fuel cluster : Nat) (out : List (Name × Nat)) :
    (fs.listLoop cap fuel cluster out).ReadOnly := by
  induction fuel generalizing cluster out with
  | zero => trivial
  | succ fuel ih =>
      refine (readOnly_listCluster cap _ _ _ _).bind fun (out, stop) => ?_
      dsimp only
      split
      · trivial
      · refine (fs.readOnly_fatEntry cluster).bind fun next => ?_
        split
        · trivial
        · exact ih next _

theorem readOnly_listDir (dirCluster cap : Nat) : (fs.listDir dirCluster cap).ReadOnly :=
  fs.readOnly_listLoop cap loopLimit dirCluster []

/-! ## Reading -/

theorem readOnly_readCluster (toRead lba n s : Nat) (out : List UInt8) : (readCluster toRead lba n s out).ReadOnly := by
  induction n generalizing s out with
  | zero => trivial
  | succ n ih =>
      rw [readCluster]
      split
      · trivial
      · exact (readOnly_readBlock _).bind fun _ => ih (s + 1) _

theorem readOnly_readLoop (toRead fuel cluster : Nat) (out : List UInt8) :
    (fs.readLoop toRead fuel cluster out).ReadOnly := by
  induction fuel generalizing cluster out with
  | zero => trivial
  | succ fuel ih =>
      rw [readLoop]
      split
      · refine (readOnly_readCluster toRead _ _ _ _).bind fun out => ?_
        split
        · trivial
        · refine (fs.readOnly_fatEntry cluster).bind fun next => ?_
          split
          · trivial
          · exact ih next out
      · trivial

theorem readOnly_readFrom (firstCluster fileSize outLen : Nat) :
    (fs.readFrom firstCluster fileSize outLen).ReadOnly := by
  rw [readFrom]
  split
  · trivial
  · exact fs.readOnly_readLoop _ _ _ _

theorem readOnly_readFile (name : Name) (outLen : Nat) : (fs.readFile name outLen).ReadOnly :=
  (fs.readOnly_findInDir _ name).bind fun _ => fs.readOnly_readFrom _ _ outLen

theorem returns_readCluster {toRead : Nat} (lba n s : Nat) {out : List UInt8} (h : out.length ≤ toRead) :
    (readCluster toRead lba n s out).Returns fun out => out.length ≤ toRead := by
  induction n generalizing s out with
  | zero => exact h
  | succ n ih =>
      rw [readCluster]
      split
      · exact h
      · intro sector
        refine ih (s + 1) ?_
        have hle : (sector.slice 0 (min (toRead - out.length) sectorSize)).length ≤ toRead - out.length := by
          rw [Arr.slice, List.length_take]
          omega
        rw [List.length_append]
        omega

theorem returns_readLoop {toRead : Nat} (fuel cluster : Nat) {out : List UInt8} (h : out.length ≤ toRead) :
    (fs.readLoop toRead fuel cluster out).Returns fun out => out.length ≤ toRead := by
  induction fuel generalizing cluster out with
  | zero => trivial
  | succ fuel ih =>
      rw [readLoop]
      split
      · refine (returns_readCluster _ _ _ h).bind fun out hout => ?_
        split
        · exact hout
        · intro sector
          change Returns _ (if _ then _ else _)
          split
          · exact hout
          · exact ih _ hout
      · exact h

theorem returns_readFrom (firstCluster fileSize outLen : Nat) :
    (fs.readFrom firstCluster fileSize outLen).Returns fun out => out.length ≤ outLen := by
  rw [readFrom]
  split
  · exact Nat.zero_le _
  · refine (fs.returns_readLoop loopLimit firstCluster (Nat.zero_le _)).mono fun out hout => ?_
    exact hout.trans (Nat.min_le_right _ _)

theorem returns_readFile (name : Name) (outLen : Nat) :
    (fs.readFile name outLen).Returns fun out => out.length ≤ outLen :=
  (returns_true _).bind fun _ _ => fs.returns_readFrom _ _ outLen

end Fat32

end Ferro
