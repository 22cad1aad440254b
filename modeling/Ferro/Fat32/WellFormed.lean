import Ferro.Fat32.Volume

/-!
# Well-formed volumes

The directory tree of a volume, and what the driver relies on in it.
-/

namespace Ferro

/-- The names of the two entries by which a subdirectory names itself and its parent. -/
def dotNames : List Name :=
  [.ofList (0x2E :: List.replicate 10 0x20), .ofList (0x2E :: 0x2E :: List.replicate 9 0x20)]

def DirEntry.isDot (entry : DirEntry) : Bool := entry.isDir && decide (entry.name ∈ dotNames)

/-- A name that does not mark its entry as unused or deleted. The callers' names, of bytes 1 to 127, are proper. -/
def Name.Proper (name : Name) : Prop := name.nth 0 ≠ 0x00 ∧ name.nth 0 ≠ 0xE5

instance (name : Name) : Decidable name.Proper := inferInstanceAs (Decidable (_ ∧ _))

namespace Fat32

variable (fs : Fat32) (v : Volume)

/-- A file or subdirectory: its path from the root and the slot of its entry. -/
inductive Node : List Name → Loc → Prop where
  | root {l loc} (hl : fs.ChainAt v fs.rootCluster.toNat l) (h : loc ∈ fs.liveSlots v l) :
      Node [(v.entry loc).name] loc
  | sub {path dir l loc} (hd : Node path dir) (hdir : (v.entry dir).isDir)
      (hl : fs.ChainAt v (v.entry dir).firstCluster l) (h : loc ∈ fs.liveSlots v l)
      (hdot : ¬ (v.entry loc).isDot) : Node (path ++ [(v.entry loc).name]) loc

/-- The clusters of the file or subdirectory at a slot: none, or a chain. -/
def Owns (loc : Loc) (l : List Nat) : Prop :=
  ((v.entry loc).firstCluster = 0 ∧ l = []) ∨ fs.ChainAt v (v.entry loc).firstCluster l

/-- The root and every file and subdirectory have chains, no two of them share a cluster, the names in the root
are unique, and nothing in the root stands behind its end. -/
structure WellFormed : Prop where
  geometry : fs.Geometry
  root : ∃ l, fs.ChainAt v fs.rootCluster.toNat l
  chains {path loc} : fs.Node v path loc → ∃ l, fs.Owns v loc l
  disjoint {path path' loc loc' l l'} : fs.Node v path loc → fs.Node v path' loc' → loc ≠ loc' →
    fs.Owns v loc l → fs.Owns v loc' l' → l.Disjoint l'
  root_disjoint {R path loc l} : fs.ChainAt v fs.rootCluster.toNat R → fs.Node v path loc →
    fs.Owns v loc l → R.Disjoint l
  names {R loc loc'} : fs.ChainAt v fs.rootCluster.toNat R → loc ∈ fs.liveSlots v R →
    loc' ∈ fs.liveSlots v R → (v.entry loc).name = (v.entry loc').name → loc = loc'
  ended {R} : fs.ChainAt v fs.rootCluster.toNat R →
    (fs.slots R).Pairwise fun a b => (v.entry a).isEnd → (v.entry b).isEnd

/-- No subdirectory of the root has the name. -/
def NotSubdir (name : Name) : Prop := ∀ loc, fs.Node v [name] loc → ¬ (v.entry loc).isDir

/-! ## Reachable clusters -/

/-- Cluster `a` links to cluster `b`. -/
def Links (a b : Nat) : Prop := v.next a = some b ∧ fs.InRange b

/-- The first clusters of the root and of the files and subdirectories. -/
def Start (c : Nat) : Prop :=
  c = fs.rootCluster.toNat ∨ ∃ path loc, fs.Node v path loc ∧ c = (v.entry loc).firstCluster ∧ c ≠ 0

/-- Following the FAT from the root or a directory entry leads to the cluster. -/
def Reachable (c : Nat) : Prop := ∃ a, fs.Start v a ∧ Relation.ReflTransGen (fs.Links v) a c

/-- No reachable cluster links to a free one. -/
def NoDangling : Prop := ∀ a b, fs.Reachable v a → fs.Links v a b → v.fat b ≠ 0

/-- The allocated clusters that nothing leads to. -/
def lost : Set Nat := {c | fs.InRange c ∧ v.fat c ≠ 0 ∧ ¬ fs.Reachable v c}

end Fat32

end Ferro
