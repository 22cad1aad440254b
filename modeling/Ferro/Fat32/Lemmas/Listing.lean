import Ferro.Fat32.Lemmas.Calls

/-!
# `list_dir` and `resolve_from`

A listing of a directory chain is the names and sizes of its live entries, up to the length of the listing. A path of
one component is looked up in its start directory.
-/

namespace Ferro

namespace Fat32

variable {fs : Fat32} {v : Volume} {C : Volume → Prop} {cap : Nat} {out : List (Name × Nat)}

/-- The live entries among the given slots, as `list_dir` lists them. -/
def listed (v : Volume) (locs : List Loc) : List (Name × Nat) :=
  (v.live locs).map fun loc => ((v.entry loc).name, (v.entry loc).size)

/-- What `list_dir` has listed after the given slots, and whether one of them ends the directory. -/
def listLocs (v : Volume) (cap : Nat) (locs : List Loc) (out : List (Name × Nat)) : List (Name × Nat) × Bool :=
  ((out ++ listed v locs).take cap, locs.any fun loc => (v.entry loc).isEnd)

theorem listLocs_nil (h : out.length ≤ cap) : listLocs v cap [] out = (out, false) := by
  have hnil : listed v [] = [] := rfl
  rw [listLocs, hnil, List.append_nil, List.take_of_length_le h, List.any_nil]

theorem length_listLocs_le (v : Volume) (cap : Nat) (locs : List Loc) (out : List (Name × Nat)) :
    (listLocs v cap locs out).1.length ≤ cap := by
  simp only [listLocs, List.length_take]
  exact Nat.min_le_left _ _

theorem listLocs_eq (v : Volume) (cap : Nat) (locs : List Loc) (out : List (Name × Nat)) :
    listLocs v cap locs out = DirEntry.listAll cap (locs.map v.entry) out := by
  rw [listLocs, DirEntry.listAll, DirEntry.listing, live_map, List.map_map, DirEntry.ended, List.any_map]
  rfl

theorem listLocs_append (locs locs' : List Loc) : listLocs v cap (locs ++ locs') out =
    if (listLocs v cap locs out).2 then ((listLocs v cap locs out).1, true)
    else listLocs v cap locs' (listLocs v cap locs out).1 := by
  simp only [listLocs_eq, List.map_append, DirEntry.listAll_append]

theorem listEntries_eq (cap c s : Nat) (is : List Nat) (h : out.length ≤ cap) :
    listEntries cap (v.data (c, s)) is out = listLocs v cap (is.map fun i => ⟨c, s, i⟩) out := by
  rw [DirEntry.listEntries_eq _ _ h, listLocs_eq, List.map_map]
  rfl

theorem runs_listCluster (hg : fs.Geometry) {c : Nat} (hc : fs.InRange c) (hC : C v) (n s : Nat)
    (hs : s + n ≤ fs.sectorsPerCluster.toNat) (hout : out.length ≤ cap) :
    fs.Runs C (listCluster cap (fs.clusterToLba c) n s out) v
      (.ok (listLocs v cap (((List.range' s n).map fun i => (c, i)).flatMap
        fun p => (List.range 16).map fun i => ⟨p.1, p.2, i⟩) out)) v := by
  induction n generalizing s out with
  | zero =>
      rw [List.range'_zero, List.map_nil, List.flatMap_nil, listLocs_nil hout]
      exact .pure hC
  | succ n ih =>
      rw [listCluster, List.range'_succ, List.map_cons, List.flatMap_cons, listLocs_append]
      refine .bind (runs_readData hg ⟨hc, by omega⟩ hC) ?_
      rw [listEntries_eq cap c s _ hout]
      have hle := length_listLocs_le v cap ((List.range 16).map fun i => ⟨c, s, i⟩) out
      generalize listLocs v cap ((List.range 16).map fun i => ⟨c, s, i⟩) out = r at hle ⊢
      obtain ⟨out', stop⟩ := r
      cases stop with
      | true => exact .pure hC
      | false => exact ih (s + 1) (by omega) hle

theorem runs_listLoop (hg : fs.Geometry) (hC : C v) : (l : List Nat) → (a fuel : Nat) → (out : List (Name × Nat)) →
    out.length ≤ cap → fs.ChainAt v a l → l.length ≤ fuel →
    fs.Runs C (fs.listLoop cap fuel a out) v (.ok (listLocs v cap (fs.slots l) out).1) v
  | [], _, _, _, _, h, _ => absurd rfl h.chain.ne_nil
  | c :: cs, a, 0, _, _, _, hf => by simp at hf
  | c :: cs, a, fuel + 1, out, hout, h, hf => by
      obtain ⟨rfl, hcr, hlink⟩ := h.uncons
      have hcl := runs_listCluster hg hcr hC fs.sectorsPerCluster.toNat 0 (by omega) hout
      rw [slots_cons, listLocs_append]
      have hle := length_listLocs_le v cap (((List.range' 0 fs.sectorsPerCluster.toNat).map fun i => (c, i)).flatMap
        fun p => (List.range 16).map fun i => ⟨p.1, p.2, i⟩) out
      refine .bind hcl ?_
      generalize listLocs v cap _ out = r at hle ⊢
      obtain ⟨out', stop⟩ := r
      cases stop with
      | true => exact .pure hC
      | false =>
          refine .bind (runs_fatEntry hg hcr.2 hC) ?_
          rcases hlink with ⟨rfl, hend⟩ | ⟨hlt, hrest⟩
          · rw [if_pos hend]
            have hnil : fs.slots [] = [] := rfl
            rw [hnil, listLocs_nil hle]
            exact .pure hC
          · rw [if_neg (by omega)]
            exact runs_listLoop hg hC cs (v.fat c) fuel out' hle hrest (by simp at hf; omega)

theorem runs_listDir (hg : fs.Geometry) (hC : C v) {a : Nat} {l : List Nat} (h : fs.ChainAt v a l) :
    fs.Runs C (fs.listDir a cap) v (.ok ((listed v (fs.slots l)).take cap)) v :=
  runs_listLoop hg hC l a loopLimit [] (Nat.zero_le _) h (Nat.le_of_lt (length_le_loopLimit hg h))

/-! ## Paths of one component -/

theorem components_singleton {p : List UInt8} (hne : p ≠ []) (hslash : (0x5C : UInt8) ∉ p) : components p = [p] := by
  have hsplit : p.splitOn 0x5C = [p] := List.splitOn_eq_singleton hslash
  rw [components, hsplit]
  simp [hne]

/-- What `resolve_from` returns for a single component under the root. -/
theorem run_resolveFrom {d : Disk} {p : List UInt8} (hwf : fs.WellFormed (fs.volume d)) (hne : p ≠ [])
    (hslash : (0x5C : UInt8) ∉ p) {R : List Nat} (hR : fs.ChainAt (fs.volume d) fs.rootCluster.toNat R) :
    ((fs.resolveFrom fs.rootCluster.toNat p).run d).1 = match to83 p with
      | none => .error (.err .notFound)
      | some name => match fs.lookup (fs.volume d) R name with
        | none => .error (.err .notFound)
        | some loc => .ok (((fs.volume d).entry loc).firstCluster, ((fs.volume d).entry loc).size,
            ((fs.volume d).entry loc).isDir) := by
  rw [resolveFrom, components_singleton hne hslash, resolveLoop]
  cases to83 p with
  | none => rfl
  | some name =>
      have hfind := runs_findInDir (C := fun _ => True) hwf.geometry trivial name hR
        (Nat.le_of_lt (length_le_loopLimit hwf.geometry hR))
      dsimp only
      cases hlook : fs.lookup (fs.volume d) R name with
      | none =>
          rw [hlook] at hfind
          exact (Prog.Runs.bind_error hfind d rfl).2.2.1
      | some loc =>
          rw [hlook] at hfind
          exact (Prog.Runs.bind hfind (.pure trivial) d rfl).2.2.1

end Fat32

end Ferro
