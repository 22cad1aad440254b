import Ferro.Fat32.Lemmas.Dir
import Ferro.Fat32.WellFormed

/-!
# The directory tree under change

A change that leaves the clusters in use alone, apart from those of one root file, keeps every other file and
subdirectory: its slot, its entry, its chain and its data.
-/

namespace Ferro

/-- Taking while a predicate holds is filtering by it when it never comes back. -/
theorem takeWhile_eq_filter {α : Type} {p : α → Bool} {l : List α} (h : l.Pairwise fun a b => p b → p a) :
    l.takeWhile p = l.filter p := by
  induction l with
  | nil => rfl
  | cons a l ih =>
      obtain ⟨ha, hl⟩ := List.pairwise_cons.mp h
      cases hp : p a with
      | true => rw [List.takeWhile_cons_of_pos hp, List.filter_cons_of_pos hp, ih hl]
      | false =>
          rw [List.takeWhile_cons_of_neg (by simp [hp]), List.filter_cons_of_neg (by simp [hp]), eq_comm,
            List.filter_eq_nil_iff]
          intro b hb hpb
          rw [ha b hb hpb] at hp
          cases hp

namespace Fat32

variable {fs : Fat32} {v w u : Volume} {R R' own l l' : List Nat} {loc : Loc} {path : List Name}
  {T : Loc → Prop} {name : Name}

/-! ## Chains -/

theorem not_inRange_zero : ¬ fs.InRange 0 := fun h => absurd h.1 (by decide)

theorem ChainAt.fat_ne_zero {a c : Nat} (h : fs.ChainAt v a l) (hc : c ∈ l) : v.fat c ≠ 0 := by
  intro h0
  have hnext : v.next c = some 0 := Volume.next_eq_some.mpr ⟨h0, by decide⟩
  exact not_inRange_zero (h.inRange 0 (h.chain.next_mem hc hnext))

theorem ChainAt.unique {a : Nat} (h : fs.ChainAt v a l) (h' : fs.ChainAt v a l') : l = l' :=
  h.chain.unique h'.chain

theorem ChainAt.not_zero (h : fs.ChainAt v 0 l) : False := not_inRange_zero (h.inRange 0 h.chain.head_mem)

theorem Owns.unique (h : fs.Owns v loc l) (h' : fs.Owns v loc l') : l = l' := by
  rcases h with ⟨h0, rfl⟩ | h
  · rcases h' with ⟨_, rfl⟩ | h'
    · rfl
    · rw [h0] at h'; exact h'.not_zero.elim
  · rcases h' with ⟨h0, rfl⟩ | h'
    · rw [h0] at h; exact h.not_zero.elim
    · exact h.unique h'

theorem Owns.chainAt (h : fs.Owns v loc l) {a : Nat} (ha : a ∈ l) : fs.ChainAt v (v.entry loc).firstCluster l := by
  rcases h with ⟨_, rfl⟩ | h
  · cases ha
  · exact h

theorem Owns.fat_ne_zero (h : fs.Owns v loc l) {c : Nat} (hc : c ∈ l) : v.fat c ≠ 0 :=
  (h.chainAt hc).fat_ne_zero hc

theorem Owns.congr (h : fs.Owns v loc l) (he : w.entry loc = v.entry loc) (hf : ∀ c ∈ l, w.fat c = v.fat c) :
    fs.Owns w loc l := by
  rcases h with ⟨h0, rfl⟩ | h
  · exact Or.inl ⟨by rw [he, h0], rfl⟩
  · exact Or.inr (by rw [he]; exact h.congr hf)

/-! ## Live slots -/

theorem DirEntry.not_isEnd_of_isLive {e : DirEntry} (h : e.isLive) : ¬ e.isEnd := by
  simp only [DirEntry.isLive, DirEntry.isFree, Bool.and_eq_true, Bool.not_eq_true', Bool.or_eq_false_iff] at h
  simp only [DirEntry.isEnd, h.1.1]
  decide

theorem mem_liveSlots (hend : (fs.slots l).Pairwise fun a b => (v.entry a).isEnd → (v.entry b).isEnd) :
    loc ∈ fs.liveSlots v l ↔ loc ∈ fs.slots l ∧ (v.entry loc).isLive := by
  refine ⟨fun h => mem_live h, fun ⟨hs, hl⟩ => ?_⟩
  have hpair : (fs.slots l).Pairwise fun a b => !(v.entry b).isEnd → !(v.entry a).isEnd := by
    refine hend.imp fun {a b} h => ?_
    cases ha : (v.entry a).isEnd with
    | true => rw [h ha]; exact id
    | false => exact fun _ => rfl
  rw [liveSlots, Volume.live, takeWhile_eq_filter hpair]
  have := DirEntry.not_isEnd_of_isLive hl
  exact List.mem_filter.mpr ⟨List.mem_filter.mpr ⟨hs, by simpa using this⟩, hl⟩

/-- What is listed depends on which entries are live, and which end the directory. -/
theorem live_congr_flags {locs : List Loc} (h : ∀ loc ∈ locs, (w.entry loc).isEnd = (v.entry loc).isEnd ∧
    (w.entry loc).isLive = (v.entry loc).isLive) : w.live locs = v.live locs := by
  induction locs with
  | nil => simp only [Volume.live, List.takeWhile_nil, List.filter_nil]
  | cons loc locs ih =>
      obtain ⟨hend, hlive⟩ := h loc List.mem_cons_self
      rw [live_cons, live_cons, hend, hlive, ih fun x hx => h x (List.mem_cons_of_mem _ hx)]

theorem live_congr {locs : List Loc} (h : ∀ loc ∈ locs, w.entry loc = v.entry loc) : w.live locs = v.live locs :=
  live_congr_flags fun loc hloc => by rw [h loc hloc]; exact ⟨rfl, rfl⟩

theorem entry_congr (h : w.data (loc.cluster, loc.sector) = v.data (loc.cluster, loc.sector)) :
    w.entry loc = v.entry loc := by
  rw [Volume.entry, Volume.entry, h]

theorem liveSlots_congr (h : ∀ c ∈ l, ∀ s, w.data (c, s) = v.data (c, s)) : fs.liveSlots w l = fs.liveSlots v l :=
  live_congr fun _ hloc => entry_congr (h _ (mem_slots.mp hloc).1 _)

theorem Node.isLive (h : fs.Node v path loc) : (v.entry loc).isLive := by
  cases h with
  | root _ h => exact (mem_live h).2
  | sub _ _ _ h _ => exact (mem_live h).2

theorem Node.path_ne_nil (h : fs.Node v path loc) : path ≠ [] := by
  cases h <;> simp

theorem node_singleton (hR : fs.ChainAt v fs.rootCluster.toNat R) :
    fs.Node v [name] loc ↔ loc ∈ fs.liveSlots v R ∧ (v.entry loc).name = name := by
  constructor
  · intro h
    generalize hp : [name] = path at h
    cases h with
    | root hl h =>
        cases hp
        rw [hR.unique hl]
        exact ⟨h, rfl⟩
    | @sub path dir _ _ hd _ _ _ _ =>
        have hlen := congrArg List.length hp
        simp only [List.length_singleton, List.length_append] at hlen
        exact absurd (List.length_eq_zero_iff.mp (by omega)) hd.path_ne_nil
  · rintro ⟨h, rfl⟩
    exact .root hR h

/-! ## Changes that keep the tree -/

/-- From `v` to `w`, the root chain goes from `R` to `R'`, and apart from the slots in `T` and the clusters in
`own` the root has the same entries and the clusters in use are the same. -/
structure Keeps (fs : Fat32) (v w : Volume) (R R' own : List Nat) (T : Loc → Prop) : Prop where
  root : fs.ChainAt w fs.rootCluster.toNat R'
  fresh {c : Nat} : c ∈ R' → c ∈ R ∨ v.fat c = 0
  fat {c : Nat} : v.fat c ≠ 0 → c ∉ R → c ∉ own → w.fat c = v.fat c
  data {c s : Nat} : v.fat c ≠ 0 → c ∉ R → c ∉ own → w.data (c, s) = v.data (c, s)
  live {loc : Loc} : ¬ T loc → (loc ∈ fs.liveSlots w R' ↔ loc ∈ fs.liveSlots v R)
  entry {loc : Loc} : ¬ T loc → loc ∈ fs.liveSlots v R → w.entry loc = v.entry loc
  file {loc : Loc} : T loc → (w.entry loc).isLive → ¬ (w.entry loc).isDir

/-- The slots in `T` hold no subdirectory, and the clusters in `own` are nobody else's. -/
structure Private (fs : Fat32) (v : Volume) (R own : List Nat) (T : Loc → Prop) : Prop where
  root : R.Disjoint own
  other {path : List Name} {loc : Loc} {l : List Nat} : fs.Node v path loc → ¬ T loc → fs.Owns v loc l →
    l.Disjoint own
  file {loc : Loc} : T loc → (v.entry loc).isLive → ¬ (v.entry loc).isDir

/-- Outside the slots in `T`, `w` has the files and subdirectories of `v`, with their entries, chains and data. -/
structure Preserves (fs : Fat32) (v w : Volume) (T : Loc → Prop) : Prop where
  node {path : List Name} {loc : Loc} : ¬ T loc → (fs.Node w path loc ↔ fs.Node v path loc)
  entry {path : List Name} {loc : Loc} : ¬ T loc → fs.Node v path loc → w.entry loc = v.entry loc
  owns {path : List Name} {loc : Loc} {l : List Nat} : ¬ T loc → fs.Node v path loc → fs.Owns v loc l →
    fs.Owns w loc l
  data {path : List Name} {loc : Loc} {l : List Nat} {c s : Nat} : ¬ T loc → fs.Node v path loc →
    fs.Owns v loc l → c ∈ l → w.data (c, s) = v.data (c, s)

theorem Preserves.refl (v : Volume) (T : Loc → Prop) : fs.Preserves v v T :=
  ⟨fun _ => Iff.rfl, fun _ _ => rfl, fun _ _ h => h, fun _ _ _ _ => rfl⟩

theorem Preserves.trans (h : fs.Preserves v w T) (h' : fs.Preserves w u T) : fs.Preserves v u T where
  node ht := (h'.node ht).trans (h.node ht)
  entry ht hn := (h'.entry ht ((h.node ht).mpr hn)).trans (h.entry ht hn)
  owns ht hn ho := h'.owns ht ((h.node ht).mpr hn) (h.owns ht hn ho)
  data ht hn ho hc := (h'.data ht ((h.node ht).mpr hn) (h.owns ht hn ho) hc).trans (h.data ht hn ho hc)

theorem Preserves.mono {T' : Loc → Prop} (h : fs.Preserves v w T) (ht : ∀ loc, T loc → T' loc) :
    fs.Preserves v w T' where
  node hn := h.node fun h => hn (ht _ h)
  entry hn := h.entry fun h => hn (ht _ h)
  owns hn := h.owns fun h => hn (ht _ h)
  data hn := h.data fun h => hn (ht _ h)

section Keeps

variable (hwf : fs.WellFormed v) (hR : fs.ChainAt v fs.rootCluster.toNat R) (hp : fs.Private v R own T)
  (hk : fs.Keeps v w R R' own T)

include hwf hR hp hk

theorem Keeps.same (hT : ¬ T loc) (hn : fs.Node v path loc) (ho : fs.Owns v loc l) {c : Nat} (hc : c ∈ l) :
    w.fat c = v.fat c ∧ ∀ s, w.data (c, s) = v.data (c, s) := by
  have h0 := ho.fat_ne_zero hc
  have hcR : c ∉ R := fun h => hwf.root_disjoint hR hn ho h hc
  have hco : c ∉ own := fun h => hp.other hn hT ho hc h
  exact ⟨hk.fat h0 hcR hco, fun s => hk.data h0 hcR hco⟩

/-- What is listed in a subdirectory that is not touched is as before. -/
theorem Keeps.sub_entry {dir : Loc} (hT : ¬ T dir) (hn : fs.Node v path dir) (ho : fs.Owns v dir l)
    (h : loc ∈ fs.liveSlots v l) : w.entry loc = v.entry loc :=
  entry_congr ((hk.same hwf hR hp hT hn ho (mem_slots.mp (mem_live h).1).1).2 _)

theorem Keeps.entry_eq (hT : ¬ T loc) (hn : fs.Node v path loc) : w.entry loc = v.entry loc := by
  cases hn with
  | root hl h => rw [hl.unique hR] at h; exact hk.entry hT h
  | @sub path dir _ _ hd hdir hl h _ =>
      have hTd : ¬ T dir := fun ht => hp.file ht hd.isLive hdir
      exact hk.sub_entry hwf hR hp hTd hd (Or.inr hl) h

theorem Keeps.owns (hT : ¬ T loc) (hn : fs.Node v path loc) (ho : fs.Owns v loc l) : fs.Owns w loc l :=
  ho.congr (hk.entry_eq hwf hR hp hT hn) fun _ hc => (hk.same hwf hR hp hT hn ho hc).1

theorem Keeps.node_of (hn : fs.Node v path loc) : ¬ T loc → fs.Node w path loc := by
  induction hn with
  | @root l loc hl h =>
      intro hT
      rw [hl.unique hR] at h
      rw [← hk.entry hT h]
      exact .root hk.root ((hk.live hT).mpr h)
  | @sub path dir l loc hd hdir hl h hdot ih =>
      intro hT
      have hTd : ¬ T dir := fun ht => hp.file ht hd.isLive hdir
      have hde := hk.entry_eq hwf hR hp hTd hd
      have he := hk.sub_entry hwf hR hp hTd hd (Or.inr hl) h
      have hlive : fs.liveSlots w l = fs.liveSlots v l :=
        liveSlots_congr fun c hc => (hk.same hwf hR hp hTd hd (Or.inr hl) hc).2
      rw [← he]
      refine .sub (ih hTd) (by rw [hde]; exact hdir) ?_ (by rw [hlive]; exact h) (by rw [he]; exact hdot)
      rw [hde]
      exact hl.congr fun c hc => (hk.same hwf hR hp hTd hd (Or.inr hl) hc).1

theorem Keeps.of_node (hn : fs.Node w path loc) : ¬ T loc → fs.Node v path loc := by
  induction hn with
  | @root l loc hl h =>
      intro hT
      rw [hl.unique hk.root] at h
      have h' := (hk.live hT).mp h
      rw [hk.entry hT h']
      exact .root hR h'
  | @sub path dir l loc hd hdir hl h hdot ih =>
      intro hT
      have hTd : ¬ T dir := fun ht => hk.file ht hd.isLive hdir
      have hdv := ih hTd
      have hde := hk.entry_eq hwf hR hp hTd hdv
      obtain ⟨m, hm⟩ := hwf.chains hdv
      -- the subdirectory has the same chain before and after
      obtain rfl : m = l := (hk.owns hwf hR hp hTd hdv hm).unique (Or.inr hl)
      have hmv : fs.ChainAt v (v.entry dir).firstCluster m := hm.chainAt (hl.chain.head_mem)
      have hlive : fs.liveSlots w m = fs.liveSlots v m :=
        liveSlots_congr fun c hc => (hk.same hwf hR hp hTd hdv hm hc).2
      rw [hlive] at h
      have he := hk.sub_entry hwf hR hp hTd hdv hm h
      rw [he] at hdot ⊢
      exact .sub hdv (by rw [← hde]; exact hdir) hmv h hdot

/-- A slot of the root directory stays one. -/
theorem Keeps.path_of_root_slot (hs : loc ∈ fs.slots R) (hn : fs.Node w path loc) : path = [(w.entry loc).name] := by
  cases hn with
  | root _ _ => rfl
  | @sub path dir l _ hd hdir hl h _ =>
      have hTd : ¬ T dir := fun ht => hk.file ht hd.isLive hdir
      have hdv := hk.of_node hwf hR hp hd hTd
      obtain ⟨m, hm⟩ := hwf.chains hdv
      obtain rfl : m = l := (hk.owns hwf hR hp hTd hdv hm).unique (Or.inr hl)
      exact absurd (mem_slots.mp (mem_live h).1).1 (hwf.root_disjoint hR hdv hm (mem_slots.mp hs).1)

theorem Keeps.preserves : fs.Preserves v w T where
  node hT := ⟨fun h => hk.of_node hwf hR hp h hT, fun h => hk.node_of hwf hR hp h hT⟩
  entry hT hn := hk.entry_eq hwf hR hp hT hn
  owns hT hn ho := hk.owns hwf hR hp hT hn ho
  data hT hn ho hc := (hk.same hwf hR hp hT hn ho hc).2 _

/-- The result is well formed if the root is, and if the file at a touched slot has clusters that were its own or
free. -/
theorem Keeps.wellFormed (hone : ∀ {a b}, T a → T b → a = b)
    (hown : ∀ {path loc}, T loc → fs.Node w path loc →
      ∃ l, fs.Owns w loc l ∧ ∀ c ∈ l, c ∉ R' ∧ (c ∈ own ∨ v.fat c = 0))
    (hnames : ∀ {a b}, a ∈ fs.liveSlots w R' → b ∈ fs.liveSlots w R' →
      (w.entry a).name = (w.entry b).name → a = b)
    (hend : (fs.slots R').Pairwise fun a b => (w.entry a).isEnd → (w.entry b).isEnd) : fs.WellFormed w := by
  have hpres := hk.preserves hwf hR hp
  -- a file that is not touched owns the clusters it owned before
  have hold : ∀ {path loc l}, ¬ T loc → fs.Node w path loc → fs.Owns w loc l →
      fs.Node v path loc ∧ fs.Owns v loc l := by
    intro path loc l hT hn ho
    have hnv := (hpres.node hT).mp hn
    obtain ⟨m, hm⟩ := hwf.chains hnv
    obtain rfl := (hpres.owns hT hnv hm).unique ho
    exact ⟨hnv, hm⟩
  have hmixed : ∀ {path path' loc loc' l l'}, fs.Node w path loc → fs.Node w path' loc' → ¬ T loc → T loc' →
      fs.Owns w loc l → fs.Owns w loc' l' → l.Disjoint l' := by
    intro path path' loc loc' l l' hn hn' hT hT' ho ho' c hc hc'
    obtain ⟨hnv, hov⟩ := hold hT hn ho
    obtain ⟨m, hm, hfrom⟩ := hown hT' hn'
    obtain rfl := hm.unique ho'
    rcases (hfrom c hc').2 with h | h
    · exact hp.other hnv hT hov hc h
    · exact hov.fat_ne_zero hc h
  refine ⟨hwf.geometry, ⟨R', hk.root⟩, ?_, ?_, ?_, ?_, ?_⟩
  · intro path loc hn
    by_cases hT : T loc
    · obtain ⟨l, hl, _⟩ := hown hT hn; exact ⟨l, hl⟩
    · have hnv := (hpres.node hT).mp hn
      obtain ⟨l, hl⟩ := hwf.chains hnv
      exact ⟨l, hpres.owns hT hnv hl⟩
  · intro path path' loc loc' l l' hn hn' hne ho ho'
    by_cases hT : T loc
    · have hT' : ¬ T loc' := fun h => hne (hone hT h)
      exact List.disjoint_left.mpr fun c hc hc' => hmixed hn' hn hT' hT ho' ho hc' hc
    · by_cases hT' : T loc'
      · exact hmixed hn hn' hT hT' ho ho'
      · obtain ⟨hnv, hov⟩ := hold hT hn ho
        obtain ⟨hnv', hov'⟩ := hold hT' hn' ho'
        exact hwf.disjoint hnv hnv' hne hov hov'
  · intro R₁ path loc l hR₁ hn ho c hcR hc
    rw [hR₁.unique hk.root] at hcR
    by_cases hT : T loc
    · obtain ⟨m, hm, hfrom⟩ := hown hT hn
      obtain rfl := hm.unique ho
      exact (hfrom c hc).1 hcR
    · obtain ⟨hnv, hov⟩ := hold hT hn ho
      rcases hk.fresh hcR with h | h
      · exact hwf.root_disjoint hR hnv hov h hc
      · exact hov.fat_ne_zero hc h
  · intro R₁ a b hR₁ ha hb
    rw [hR₁.unique hk.root] at ha hb
    exact hnames ha hb
  · intro R₁ hR₁
    rw [hR₁.unique hk.root]
    exact hend

end Keeps

end Fat32

end Ferro
