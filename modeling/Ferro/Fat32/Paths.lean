import Ferro.Fat32.Lemmas.Names
import Ferro.Fat32.Lemmas.Walks
import Ferro.Fat32.Theorems

/-!
# Resolving a path in two parts

`resolve_from` looks a component up in the directory that the component before it names. Behind a plain file it stays
where that was found, and goes on.
-/

namespace Ferro

/-- The separator starts a component, and ends the one before it. -/
theorem Fat32.components_append (p q : List UInt8) : components (p ++ 0x5C :: q) = components p ++ components q := by
  rw [components, List.splitOn_append_cons_self, List.filter_append]
  rfl

namespace Fat32

variable (fs : Fat32) (v : Volume)

/-- The first clusters of the root and of the subdirectories. -/
def IsDirCluster (c : Nat) : Prop :=
  c = fs.rootCluster.toNat ∨ ∃ path loc, fs.Node v path loc ∧ (v.entry loc).isDir ∧ c = (v.entry loc).firstCluster ∧ c ≠ 0

/-- A component names an entry of the directory with first cluster `a`. -/
def Names (a : Nat) (c : List UInt8) (loc : Loc) : Prop :=
  ∃ name l, to83 c = some name ∧ fs.ChainAt v a l ∧ fs.lookup v l name = some loc

/-- The directory in which the walk goes on behind an entry of the directory `a`. -/
def behind (a : Nat) (loc : Loc) : Nat := fs.descend a (v.entry loc).firstCluster (v.entry loc).isDir

/-- The components name entries one after the other: behind a subdirectory in it, and behind a plain file in the
directory of the file. The last one is the entry `loc` of the directory `b`. -/
inductive Trail : (a : Nat) → (cs : List (List UInt8)) → (b : Nat) → (loc : Loc) → Prop where
  | last {a c loc} (h : fs.Names v a c loc) : Trail a [c] a loc
  | step {a c loc cs b loc'} (h : fs.Names v a c loc) (t : Trail (fs.behind v a loc) cs b loc') : Trail a (c :: cs) b loc'

variable {fs v} {a b b' s : Nat} {c p q : List UInt8} {cs cs' : List (List UInt8)} {loc loc' : Loc} {d : Disk}

theorem Names.unique (h : fs.Names v a c loc) (h' : fs.Names v a c loc') : loc = loc' := by
  obtain ⟨name, l, hname, hl, hlook⟩ := h
  obtain ⟨name', l', hname', hl', hlook'⟩ := h'
  obtain rfl := Option.some.inj (hname.symm.trans hname')
  obtain rfl := hl.unique hl'
  exact Option.some.inj (hlook.symm.trans hlook')

theorem Trail.unique (h : fs.Trail v a cs b loc) (h' : fs.Trail v a cs b' loc') : b = b' ∧ loc = loc' := by
  induction h with
  | last h =>
      cases h' with
      | last h' => exact ⟨rfl, h.unique h'⟩
      | step _ t => cases t
  | step h t ih =>
      cases h' with
      | last h' => cases t
      | step h' t' =>
          obtain rfl := h.unique h'
          exact ih t'

theorem trail_append_iff (hcs : cs ≠ []) (hcs' : cs' ≠ []) : fs.Trail v a (cs ++ cs') b' loc' ↔
    ∃ b loc, fs.Trail v a cs b loc ∧ fs.Trail v (fs.behind v b loc) cs' b' loc' := by
  constructor
  · intro h
    induction cs generalizing a with
    | nil => exact absurd rfl hcs
    | cons c cs ih =>
        rw [List.cons_append] at h
        generalize htail : cs ++ cs' = tail at h
        cases h with
        | last h => exact absurd (List.append_eq_nil_iff.mp htail).2 hcs'
        | @step _ _ loc _ _ _ h t =>
            subst htail
            cases cs with
            | nil => exact ⟨a, loc, .last h, t⟩
            | cons c' cs =>
                obtain ⟨b, loc'', hb, hrest⟩ := ih (List.cons_ne_nil _ _) t
                exact ⟨b, loc'', .step h hb, hrest⟩
  · rintro ⟨b, loc, h, h'⟩
    clear hcs
    induction h with
    | last h => exact .step h h'
    | step h _ ih => exact .step h (ih h')

/-! ## On a well-formed volume -/

theorem IsDirCluster.chain (hwf : fs.WellFormed v) (ha : fs.IsDirCluster v a) : ∃ l, fs.ChainAt v a l := by
  rcases ha with rfl | ⟨path, loc, hn, _, rfl, h0⟩
  · exact hwf.root
  · obtain ⟨l, ho⟩ := hwf.chains hn
    rcases ho with ⟨hzero, _⟩ | hl
    · exact absurd hzero h0
    · exact ⟨l, hl⟩

/-- What a component names is a file or subdirectory, as it is never one of the two dot entries. -/
theorem Names.node (ha : fs.IsDirCluster v a) (h : fs.Names v a c loc) : ∃ path, fs.Node v path loc := by
  obtain ⟨name, l, hname, hl, hlook⟩ := h
  have hmem := List.mem_of_find?_eq_some hlook
  have heq : (v.entry loc).name = name :=
    of_decide_eq_true (List.find?_some (p := fun loc => decide ((v.entry loc).name = name)) hlook)
  rcases ha with rfl | ⟨path, dir, hn, hdir, rfl, _⟩
  · exact ⟨_, .root hl hmem⟩
  · refine ⟨_, .sub hn hdir hl hmem fun hdot => ?_⟩
    rw [DirEntry.isDot, Bool.and_eq_true, heq] at hdot
    exact to83_notMem_dotNames hname (of_decide_eq_true hdot.2)

theorem IsDirCluster.behind (ha : fs.IsDirCluster v a) (h : fs.Names v a c loc) :
    fs.IsDirCluster v (fs.behind v a loc) := by
  obtain ⟨path, hn⟩ := h.node ha
  rw [Fat32.behind, descend]
  by_cases hdir : (v.entry loc).isDir = true
  · rw [if_pos hdir]
    split
    · exact .inl rfl
    · exact .inr ⟨path, loc, hn, hdir, rfl, ‹_›⟩
  · rwa [if_neg hdir]

/-- What `resolve_from` returns for an entry. -/
def found (v : Volume) (loc : Loc) : Nat × Nat × Bool :=
  ((v.entry loc).firstCluster, (v.entry loc).size, (v.entry loc).isDir)

theorem findInDir_cases (hwf : fs.WellFormed (fs.volume d)) (ha : fs.IsDirCluster (fs.volume d) a) {name : Name}
    (hname : to83 c = some name) :
    (∃ loc, fs.Names (fs.volume d) a c loc ∧ (fs.findInDir a name).run d = (.ok (found (fs.volume d) loc), d)) ∨
      (∀ loc, ¬ fs.Names (fs.volume d) a c loc) ∧ (fs.findInDir a name).run d = (.error (.err .notFound), d) := by
  obtain ⟨l, hl⟩ := ha.chain hwf
  have hro := (fs.readOnly_findInDir a name).run d
  obtain ⟨_, _, hr, _⟩ := runs_findInDir (C := fun _ => True) hwf.geometry trivial name hl
    (Nat.le_of_lt (length_le_loopLimit hwf.geometry hl)) d rfl
  cases hlook : fs.lookup (fs.volume d) l name with
  | some loc =>
      rw [hlook] at hr
      exact .inl ⟨loc, ⟨name, l, hname, hl, hlook⟩, Prod.ext hr hro⟩
  | none =>
      rw [hlook] at hr
      refine .inr ⟨?_, Prod.ext hr hro⟩
      rintro loc ⟨name', l', hname', hl', hlook'⟩
      obtain rfl := Option.some.inj (hname.symm.trans hname')
      obtain rfl := hl.unique hl'
      rw [hlook] at hlook'
      cases hlook'

/-- The walk returns the last entry of its trail, and `NotFound` if there is none. -/
theorem resolveLoop_cases (hwf : fs.WellFormed (fs.volume d)) (ha : fs.IsDirCluster (fs.volume d) a) (hcs : cs ≠ [])
    (result : Nat × Nat × Bool) :
    (∃ b loc, fs.Trail (fs.volume d) a cs b loc ∧
        ((fs.resolveLoop cs a result).run d).1 = .ok (found (fs.volume d) loc)) ∨
      (∀ b loc, ¬ fs.Trail (fs.volume d) a cs b loc) ∧
        ((fs.resolveLoop cs a result).run d).1 = .error (.err .notFound) := by
  induction cs generalizing a result with
  | nil => exact absurd rfl hcs
  | cons c cs ih =>
      rw [resolveLoop]
      cases hname : to83 c with
      | none =>
          refine .inr ⟨fun b loc h => ?_, rfl⟩
          cases h with
          | last h => obtain ⟨name, _, h, _⟩ := h; rw [hname] at h; cases h
          | step h _ => obtain ⟨name, _, h, _⟩ := h; rw [hname] at h; cases h
      | some name =>
          rcases findInDir_cases hwf ha hname with ⟨loc, hloc, hrun⟩ | ⟨hnone, hrun⟩
          · dsimp only
            rw [Prog.run_bind_ok hrun]
            cases cs with
            | nil => exact .inl ⟨a, loc, .last hloc, rfl⟩
            | cons c' cs =>
                rcases ih (ha.behind hloc) (List.cons_ne_nil _ _) (found (fs.volume d) loc) with
                  ⟨b, loc', ht, hr⟩ | ⟨hno, hr⟩
                · exact .inl ⟨b, loc', .step hloc ht, hr⟩
                · refine .inr ⟨fun b loc' h => ?_, hr⟩
                  cases h with
                  | step h t =>
                      obtain rfl := hloc.unique h
                      exact hno b loc' t
          · dsimp only
            rw [Prog.run_bind_error hrun]
            refine .inr ⟨fun b loc h => ?_, rfl⟩
            cases h with
            | last h => exact hnone _ h
            | step h _ => exact hnone _ h

theorem resolveLoop_of_trail (hwf : fs.WellFormed (fs.volume d)) (ha : fs.IsDirCluster (fs.volume d) a)
    (h : fs.Trail (fs.volume d) a cs b loc) (result : Nat × Nat × Bool) :
    ((fs.resolveLoop cs a result).run d).1 = .ok (found (fs.volume d) loc) := by
  have hcs : cs ≠ [] := by rintro rfl; cases h
  rcases resolveLoop_cases hwf ha hcs result with ⟨b', loc', h', hr⟩ | ⟨hnone, _⟩
  · rw [hr, (h.unique h').2]
  · exact absurd h (hnone b loc)

theorem resolveLoop_of_no_trail (hwf : fs.WellFormed (fs.volume d)) (ha : fs.IsDirCluster (fs.volume d) a)
    (hcs : cs ≠ [])
    (h : ¬ ∃ b loc, fs.Trail (fs.volume d) a cs b loc) (result : Nat × Nat × Bool) :
    ((fs.resolveLoop cs a result).run d).1 = .error (.err .notFound) := by
  rcases resolveLoop_cases hwf ha hcs result with ⟨b, loc, ht, _⟩ | ⟨_, hr⟩
  · exact absurd ⟨b, loc, ht⟩ h
  · exact hr

/-! ## Two parts of a path -/

/-- What the path `p`, a separator and `q` lead to: what `q` leads to from the directory at `p`. -/
def composed (fs : Fat32) (d : Disk) (s : Nat) (p q : List UInt8) : Except Stop (Nat × Nat × Bool) :=
  match ((fs.resolveFrom s p).run d).1 with
  | .error _ => .error (.err .notFound)
  | .ok (first, size, isDir) =>
    if components q = [] then .ok (first, size, isDir)
    else if isDir then ((fs.resolveFrom (if first = 0 then fs.rootCluster.toNat else first) q).run d).1
    else .error (.err .notFound)

/-- The path `p` ends in a plain file, and the components of `q` name entries from the directory of that file on. -/
def Strays (fs : Fat32) (v : Volume) (s : Nat) (p q : List UInt8) : Prop :=
  ∃ b loc, fs.Trail v s (components p) b loc ∧ ¬ (v.entry loc).isDir ∧ ∃ b' loc', fs.Trail v b (components q) b' loc'

theorem IsDirCluster.of_trail (ha : fs.IsDirCluster v a) (h : fs.Trail v a cs b loc) :
    fs.IsDirCluster v (fs.behind v b loc) := by
  induction h with
  | last h => exact ha.behind h
  | step h _ ih => exact ih (ha.behind h)

/-- Behind the entry at the first part, the walk is that of the second part. -/
theorem resolveLoop_append (hwf : fs.WellFormed (fs.volume d)) (ha : fs.IsDirCluster (fs.volume d) a)
    (h : fs.Trail (fs.volume d) a cs b loc) (hcs' : cs' ≠ []) (result result' : Nat × Nat × Bool) :
    ((fs.resolveLoop (cs ++ cs') a result).run d).1 =
      ((fs.resolveLoop cs' (fs.behind (fs.volume d) b loc) result').run d).1 := by
  have hcs : cs ≠ [] := by rintro rfl; cases h
  have hb := ha.of_trail h
  by_cases hrest : ∃ b' loc', fs.Trail (fs.volume d) (fs.behind (fs.volume d) b loc) cs' b' loc'
  · obtain ⟨b', loc', ht⟩ := hrest
    have hwhole := (trail_append_iff hcs hcs').mpr ⟨b, loc, h, ht⟩
    rw [resolveLoop_of_trail hwf ha hwhole, resolveLoop_of_trail hwf hb ht]
  · have hwhole : ¬ ∃ b' loc', fs.Trail (fs.volume d) a (cs ++ cs') b' loc' := by
      rintro ⟨b', loc', ht⟩
      obtain ⟨b₁, loc₁, h₁, ht⟩ := (trail_append_iff hcs hcs').mp ht
      obtain ⟨rfl, rfl⟩ := h.unique h₁
      exact hrest ⟨b', loc', ht⟩
    rw [resolveLoop_of_no_trail hwf ha (fun h => hcs (List.append_eq_nil_iff.mp h).1) hwhole,
      resolveLoop_of_no_trail hwf hb hcs' hrest]

/-- Resolving goes by the parts of a path, except where it strays. -/
theorem resolve_append_iff (hwf : fs.WellFormed (fs.volume d)) (hs : fs.IsDirCluster (fs.volume d) s)
    (hp : components p ≠ []) (q : List UInt8) :
    ((fs.resolveFrom s (p ++ 0x5C :: q)).run d).1 = fs.composed d s p q ↔ ¬ fs.Strays (fs.volume d) s p q := by
  rw [composed, resolveFrom, resolveFrom, components_append]
  by_cases ht : ∃ b loc, fs.Trail (fs.volume d) s (components p) b loc
  · obtain ⟨b, loc, ht⟩ := ht
    rw [resolveLoop_of_trail hwf hs ht]
    dsimp only [found]
    by_cases hq : components q = []
    · rw [if_pos hq, hq, List.append_nil, resolveLoop_of_trail hwf hs ht]
      refine iff_of_true rfl ?_
      rintro ⟨_, _, _, _, _, _, hrest⟩
      rw [hq] at hrest
      cases hrest
    · rw [if_neg hq, resolveLoop_append hwf hs ht hq (s, 0, true) (fs.behind (fs.volume d) b loc, 0, true), behind, descend]
      by_cases hdir : ((fs.volume d).entry loc).isDir = true
      · rw [if_pos hdir, if_pos hdir, resolveFrom]
        refine iff_of_true rfl ?_
        rintro ⟨b₁, loc₁, h₁, hfile, _⟩
        rw [(h₁.unique ht).2] at hfile
        exact hfile hdir
      · -- The walk goes on in the directory of the plain file.
        have hb := hs.of_trail ht
        rw [behind, descend, if_neg hdir] at hb
        rw [if_neg hdir, if_neg hdir]
        by_cases hrest : ∃ b' loc', fs.Trail (fs.volume d) b (components q) b' loc'
        · obtain ⟨b', loc', hrest⟩ := hrest
          rw [resolveLoop_of_trail hwf hb hrest]
          exact iff_of_false (by rintro ⟨⟩) (not_not.mpr ⟨b, loc, ht, hdir, b', loc', hrest⟩)
        · rw [resolveLoop_of_no_trail hwf hb hq hrest]
          refine iff_of_true rfl ?_
          rintro ⟨b₁, loc₁, h₁, _, hrest₁⟩
          rw [(h₁.unique ht).1] at hrest₁
          exact hrest hrest₁
  · rw [resolveLoop_of_no_trail hwf hs hp ht]
    have hwhole : ¬ ∃ b loc, fs.Trail (fs.volume d) s (components p ++ components q) b loc := by
      rintro ⟨b, loc, h⟩
      by_cases hq : components q = []
      · rw [hq, List.append_nil] at h
        exact ht ⟨b, loc, h⟩
      · obtain ⟨b', loc', h', _⟩ := (trail_append_iff hp hq).mp h
        exact ht ⟨b', loc', h'⟩
    rw [resolveLoop_of_no_trail hwf hs (fun h => hp (List.append_eq_nil_iff.mp h).1) hwhole]
    refine iff_of_true rfl ?_
    rintro ⟨b, loc, h, _⟩
    exact ht ⟨b, loc, h⟩

/-! ## The small volume

Its root directory holds the file `A` and nothing else. -/

theorem isDirCluster_small : smallFs.IsDirCluster (smallFs.volume smallCard) 2 := .inl rfl

theorem resolve_append_small :
    ((smallFs.resolveFrom 2 ([0x42] ++ 0x5C :: [0x41])).run smallCard).1 = smallFs.composed smallCard 2 [0x42] [0x41] := by
  refine (resolve_append_iff wellFormed_smallCard isDirCluster_small (by decide) _).mpr ?_
  rintro ⟨b, loc, ht, _⟩
  cases ht with
  | last h =>
      obtain ⟨name, l, hname, hl, hlook⟩ := h
      have hB : name = fileB := Option.some.inj (hname.symm.trans (by decide))
      rw [volume_smallCard] at hl hlook
      have hnode := (lookup_node wellFormed_small.1 hl).mp hlook
      exact absent_small (by rw [hB]; decide) loc hnode
  | step _ t => cases t

/-- `A\A` leads to the file `A`. -/
theorem not_resolve_append_small :
    ((smallFs.resolveFrom 2 ([0x41] ++ 0x5C :: [0x41])).run smallCard).1 ≠
      smallFs.composed smallCard 2 [0x41] [0x41] := by
  obtain ⟨hwf, hn, he, _, _⟩ := wellFormed_small
  have hnames : smallFs.Names (smallFs.volume smallCard) 2 [0x41] ⟨2, 0, 0⟩ := by
    rw [volume_smallCard]
    exact ⟨fileA, [2], by decide, chainAt_small, (lookup_node hwf chainAt_small).mpr hn⟩
  have hfile : ((smallFs.volume smallCard).entry ⟨2, 0, 0⟩).isDir = false := by
    rw [volume_smallCard, he, newEntry.isDir_eq]
  have hpath : components [0x41] = [[0x41]] := by decide
  have htrail : smallFs.Trail (smallFs.volume smallCard) 2 (components [0x41]) 2 ⟨2, 0, 0⟩ := by
    rw [hpath]
    exact .last hnames
  have hbehind : smallFs.behind (smallFs.volume smallCard) 2 ⟨2, 0, 0⟩ = 2 := by
    rw [behind, descend, hfile]
    rfl
  have hcomposed : smallFs.composed smallCard 2 [0x41] [0x41] = .error (.err .notFound) := by
    rw [composed, resolveFrom, resolveLoop_of_trail wellFormed_smallCard isDirCluster_small htrail]
    dsimp only [found]
    rw [if_neg (by decide), hfile]
    rfl
  rw [hcomposed, resolveFrom, components_append,
    resolveLoop_append wellFormed_smallCard isDirCluster_small htrail (by decide) _ (2, 0, true),
    hbehind, resolveLoop_of_trail wellFormed_smallCard isDirCluster_small htrail]
  rintro ⟨⟩

end Fat32

end Ferro
