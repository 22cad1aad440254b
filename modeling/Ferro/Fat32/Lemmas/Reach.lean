import Ferro.Fat32.Lemmas.Crash

/-!
# Reachable, dangling and lost clusters
-/

namespace Ferro

namespace Fat32

variable {fs : Fat32} {v w base : Volume} {R R' own m l : List Nat} {slot loc : Loc} {name : Name}
  {data : List UInt8} {needed : Nat}

/-! ## Reachability in a well-formed volume -/

theorem ChainAt.reach_iff {a c : Nat} (h : fs.ChainAt v a l) :
    Relation.ReflTransGen (fs.Links v) a c ↔ c ∈ l := h.chain.reach_iff h.inRange

/-- The clusters of the root and of the files and subdirectories. -/
def Used (fs : Fat32) (v : Volume) (R : List Nat) (c : Nat) : Prop :=
  c ∈ R ∨ ∃ path loc l, fs.Node v path loc ∧ fs.Owns v loc l ∧ c ∈ l

theorem reachable_iff (hwf : fs.WellFormed v) (hR : fs.ChainAt v fs.rootCluster.toNat R) {c : Nat} :
    fs.Reachable v c ↔ fs.Used v R c := by
  constructor
  · rintro ⟨a, rfl | ⟨path, loc, hn, rfl, h0⟩, hr⟩
    · exact Or.inl (hR.reach_iff.mp hr)
    · obtain ⟨l, hl⟩ := hwf.chains hn
      refine Or.inr ⟨path, loc, l, hn, hl, ?_⟩
      rcases hl with ⟨h, _⟩ | hl
      · exact absurd h h0
      · exact hl.reach_iff.mp hr
  · rintro (hc | ⟨path, loc, l, hn, hl, hc⟩)
    · exact ⟨_, Or.inl rfl, hR.reach_iff.mpr hc⟩
    · have hch := hl.chainAt hc
      have h0 : (v.entry loc).firstCluster ≠ 0 := fun h => by rw [h] at hch; exact hch.not_zero
      exact ⟨_, Or.inr ⟨path, loc, hn, rfl, h0⟩, hch.reach_iff.mpr hc⟩

theorem WellFormed.noDangling (hwf : fs.WellFormed v) : fs.NoDangling v := by
  intro a b hr hl
  obtain ⟨R, hR⟩ := hwf.root
  rcases (reachable_iff hwf hR).mp hr with ha | ⟨path, loc, l, _, ho, ha⟩
  · exact hR.fat_ne_zero (hR.chain.next_mem ha hl.1)
  · have hch := ho.chainAt ha
    exact hch.fat_ne_zero (hch.chain.next_mem ha hl.1)

/-! ## Cuts of a call that frees nothing -/

theorem Target.owns (ht : fs.Target v R name own slot) (hn : fs.Node v [name] slot) : fs.Owns v slot own := by
  cases ht with
  | found _ ho => exact ho
  | free _ hs => exact absurd hn.isLive (not_isLive_of_isFree (by simpa using List.find?_some hs))

section Fitted

variable (hwf : fs.WellFormed v) (hR : fs.ChainAt v fs.rootCluster.toNat R) (ha : fs.Addressable)
  (ht : fs.Target v R name own slot) (hdir : fs.NotSubdir v name) (h1 : 1 ≤ needed) (hroom : fs.Room v own needed)
  (hw : v.AgreeOff (fun c => c ∈ own ∨ c ∈ fs.freeList v) w) (hfat : w.fat = (fs.fitted v own needed).fat)

include hwf hR ht hdir hw in
theorem Target.entry_fitted : w.entry slot = v.entry slot :=
  agreeOff_root hR (ht.private hwf hR hdir).root hw (ht.slot_mem hwf hR)

include hwf hR ha ht hdir h1 hroom hw hfat

theorem Target.owns_fitted (hown : fs.ChainAt v (v.entry slot).firstCluster own) :
    fs.Owns w slot (fs.fittedChain v own needed) := by
  have hch := chainAt_fitted ha (Or.inr hown) h1 hroom
  rw [headD_fittedChain hown h1] at hch
  refine Or.inr ?_
  rw [ht.entry_fitted hwf hR hdir hw]
  exact hch.congr fun c _ => by rw [hfat]

/-- With the old entry and the fitted chain, the volume is well formed. -/
theorem Target.wellFormed_fitted : fs.WellFormed w := by
  rcases ht.chain_own with rfl | hown
  · refine ht.wellFormed_old (m := []) hwf hR hdir hw (fun hn => Or.inl ⟨?_, rfl⟩) (by simp)
    rcases ht.owns hn with ⟨h0, _⟩ | h
    · rw [ht.entry_fitted hwf hR hdir hw, h0]
    · exact absurd rfl h.chain.ne_nil
  · exact ht.wellFormed_old hwf hR hdir hw (fun _ => ht.owns_fitted hwf hR ha hdir h1 hroom hw hfat hown)
      fun c => mem_fittedChain

end Fitted

theorem FitCut.wellFormed (hwf : fs.WellFormed v) (hR : fs.ChainAt v fs.rootCluster.toNat R) (ha : fs.Addressable)
    (ht : fs.Target v R name own slot) (hdir : fs.NotSubdir v name) (h1 : 1 ≤ needed) (hns : own.length ≤ needed)
    (h : fs.FitCut v own needed w) : fs.WellFormed w := by
  cases h with
  | taking _ h => exact (preserves_of_free hwf h).1
  | freeing hle j =>
      obtain rfl : needed = own.length := by omega
      rw [List.drop_length, List.take_nil, freeAll]
      exact hwf
  | done hroom => exact ht.wellFormed_fitted hwf hR ha hdir h1 hroom (agreeOff_fitted h1) rfl

theorem Cut.wellFormed (hwf : fs.WellFormed v) (hR : fs.ChainAt v fs.rootCluster.toNat R) (ha : fs.Addressable)
    (hp : fs.Place v R name base R' own slot) (hdir : fs.NotSubdir v name) (hname : name.Proper)
    (hlen : data.length < 2 ^ 32) (hns : own.length ≤ fs.clustersNeeded data)
    (h : fs.Cut v base own slot name data w) : fs.WellFormed w := by
  obtain ⟨hwfb, hRb, hpres⟩ := hp.preserves hwf hR ha
  have ht := hp.target hwf hR
  have hdirb := hpres.notSubdir hdir
  have h1 := one_le_clustersNeeded hwf.geometry hlen
  cases h with
  | growing h => exact (preserves_of_free hwf h).1
  | fitting h => exact h.wellFormed hwfb hRb ha ht hdirb h1 hns
  | writing hroom j =>
      exact ht.wellFormed_fitted hwfb hRb ha hdirb h1 hroom (agreeOff_overwritten h1 j) overwritten_fat
  | done hroom =>
      obtain ⟨w, _, hw, _, hwfw, _⟩ := hp.written hwf hR ha hdir hname hlen hroom
      rw [outcome, if_pos hroom] at hw
      rw [← hw]
      exact hwfw

/-! ## A call that frees clusters -/

/-- Resizing to fewer clusters frees the first one that is too many while the chain still leads to it. -/
theorem passes_resizeLoop (hg : fs.Geometry) (first : Nat) (hn : needed < 2 ^ 32) : (m : List Nat) →
    (a fuel count : Nat) → fs.ChainAt v a m → count ≤ needed → (hlt : needed - count + 1 < m.length) →
    m.length ≤ fuel → Prog.Passes fs.volume (fs.resizeLoop first needed fuel a count) v
      (v.setFat m[needed - count + 1] 0)
  | [], _, _, _, h, _, _, _ => absurd rfl h.chain.ne_nil
  | c :: cs, a, 0, _, _, _, _, hf => by simp at hf
  | c :: cs, a, fuel + 1, count, h, hle, hlt, hf => by
      obtain ⟨rfl, hcr, hlink⟩ := h.uncons
      have hread := runs_fatEntry (C := fun _ => True) (v := v) hg hcr.2 trivial
      rw [resizeLoop]
      rcases hlink with ⟨rfl, _⟩ | ⟨hlt', hrest⟩
      · simp at hlt
      · have hbr := hrest.inRange _ hrest.chain.head_mem
        have hb2 := hbr.1
        by_cases hc : count = needed
        · subst hc
          rw [if_pos rfl]
          refine .right hread ?_
          rw [if_pos ⟨hb2, by omega⟩]
          refine .left ?_
          have hset := runs_setFatEntry (C := fun _ => True) (v := v) (x := 0) hg hbr.2 trivial trivial
          have hread' := runs_fatEntry (C := fun _ => True) (v := v) hg hbr.2 trivial
          obtain ⟨y, ys, rfl⟩ := List.exists_cons_of_ne_nil hrest.chain.ne_nil
          obtain ⟨rfl, _, _⟩ := hrest.uncons
          simp only [freeChainFrom, loopLimit, Nat.sub_self, Nat.zero_add, List.getElem_cons_succ,
            List.getElem_cons_zero]
          rw [show 2 ^ 32 = (2 ^ 32 - 1) + 1 from rfl, freeLoop, if_pos ⟨hb2, by omega⟩]
          exact .right hread' (.left hset.passes)
        · rw [if_neg hc]
          refine .right hread ?_
          have hsub : needed - count = needed - (count + 1) + 1 := by omega
          rw [if_neg (by omega), wrap32_of_lt (by omega)]
          simp only [hsub, List.getElem_cons_succ, List.length_cons] at hlt ⊢
          exact passes_resizeLoop hg first hn cs _ fuel (count + 1) hrest (by omega) (by omega)
            (by simp at hf; omega)

theorem passes_writeFile (hwf : fs.WellFormed v) (hR : fs.ChainAt v fs.rootCluster.toNat R)
    (h : fs.lookup v R name = some slot) (ho : fs.Owns v slot own) (data : List UInt8) (hlen : data.length < 2 ^ 32)
    (hlt : fs.clustersNeeded data < own.length) :
    Prog.Passes fs.volume (fs.writeFile name data) v (v.setFat own[fs.clustersNeeded data] 0) := by
  have hg := hwf.geometry
  have h1 := one_le_clustersNeeded hg hlen
  have hch := ho.chainAt (List.getElem_mem hlt)
  have h2 := (hch.inRange _ hch.chain.head_mem).1
  obtain ⟨c, hc, hsearch⟩ := runs_search (C := fun _ => True) hwf hR trivial name
  obtain ⟨freeSlot, hext, _⟩ := runs_extendRoot (C := fun _ => True) hwf hR (.here (.found h ho)) hc
    (fun _ _ => trivial) trivial
  have hloop := passes_resizeLoop hg (v.entry slot).firstCluster (clustersNeeded_lt data) own _ loopLimit 1
    hch h1 (by omega) (Nat.le_of_lt (length_le_loopLimit hg hch))
  simp only [Nat.sub_add_cancel h1] at hloop
  rw [writeFile, if_neg (clusterSizeBytes_ne_zero hg)]
  refine .right hsearch (.right hext (.left ?_))
  simp only [searched, h, Option.map_some, fitChain, foundAt, h2, if_true]
  exact hloop

theorem dangling_setFat (hwf : fs.WellFormed v) (hR : fs.ChainAt v fs.rootCluster.toNat R)
    (hn : fs.Node v [name] slot) (ho : fs.Owns v slot own) (h1 : 1 ≤ needed) (hlt : needed < own.length) :
    ¬ fs.NoDangling (v.setFat own[needed] 0) := by
  obtain ⟨k, rfl⟩ : ∃ k, needed = k + 1 := ⟨needed - 1, by omega⟩
  have hmem : own[k + 1] ∈ own := List.getElem_mem hlt
  have hch := ho.chainAt hmem
  have hnd := hch.chain.nodup
  have hroot : fs.ChainAt (v.setFat own[k + 1] 0) fs.rootCluster.toNat R :=
    hR.congr fun c hc => Volume.setFat_fat_of_ne _ (by
      rintro rfl
      exact hwf.root_disjoint hR hn ho hc hmem)
  have hn' : fs.Node (v.setFat own[k + 1] 0) [name] slot :=
    (node_singleton hroot).mpr ((node_singleton hR).mp hn)
  have hbefore : ∀ i, (hi : i < own.length) → i < k + 1 → (v.setFat own[k + 1] 0).next own[i] = v.next own[i] := by
    intro i hi hik
    refine Volume.next_congr (Volume.setFat_fat_of_ne _ fun he => ?_)
    have := (List.Nodup.getElem_inj_iff hnd).mp he
    omega
  have hreach : fs.Reachable (v.setFat own[k + 1] 0) own[k] := by
    refine ⟨_, Or.inr ⟨[name], slot, hn', rfl, fun h0 => ?_⟩, hch.chain.reach_getElem hch.inRange (by omega) ?_⟩
    · have h0' : (v.entry slot).firstCluster = 0 := h0
      rw [h0'] at hch
      exact hch.not_zero
    · intro x hx
      obtain ⟨i, hi, rfl⟩ := List.mem_take_iff_getElem.mp hx
      exact hbefore i (by omega) (by omega)
  have hlink : fs.Links (v.setFat own[k + 1] 0) own[k] own[k + 1] :=
    ⟨by rw [hbefore k (by omega) (by omega)]; exact hch.chain.next_getElem hlt, hch.inRange _ hmem⟩
  intro hnd'
  exact hnd' _ _ hreach hlink (Volume.setFat_fat_self _ _)

/-! ## Lost clusters -/

theorem mem_lost (hwf : fs.WellFormed v) (hR : fs.ChainAt v fs.rootCluster.toNat R) {c : Nat} :
    c ∈ fs.lost v ↔ fs.InRange c ∧ v.fat c ≠ 0 ∧ ¬ fs.Used v R c := by
  rw [lost, Set.mem_ofPred_eq, reachable_iff hwf hR]

/-- Clusters that fitting a chain does not keep or take are free afterwards. -/
theorem fitted_fat_zero (h1 : 1 ≤ needed) (hown : ∀ c ∈ own, v.fat c ≠ 0) (hnd : own.Nodup) {c : Nat}
    (hc : c ∈ own ∨ c ∈ fs.freeList v) (hm : c ∉ fs.fittedChain v own needed) :
    (fs.fitted v own needed).fat c = 0 := by
  by_cases hle : needed ≤ own.length
  · rw [fittedChain_of_le hle] at hm
    rw [fitted_of_le hle]
    rcases hc with hc | hc
    · have hd : c ∈ own.drop needed := by
        rw [← List.take_append_drop needed own] at hc
        exact (List.mem_append.mp hc).resolve_left hm
      have hne : c ≠ own.getD (needed - 1) 0 := by
        rintro rfl
        rw [List.getD_eq_getElem _ _ (by omega)] at hm
        exact hm (List.mem_take_iff_getElem.mpr ⟨needed - 1, by omega, rfl⟩)
      rw [truncated, Volume.setFat_fat_of_ne _ hne, freeAll_fat hd]
    · rw [(agreeOff_truncated h1 hle c fun h => hown c h (mem_freeList.mp hc).2).1, (mem_freeList.mp hc).2]
  · have hspare : c ∉ fs.spare v own needed := fun h => hm (List.mem_append_right _ h)
    have hfree : c ∈ fs.freeList v := hc.resolve_left fun h =>
      hm (List.mem_append_left _ (by rw [List.take_of_length_le (by omega)]; exact h))
    have h0 := (mem_freeList.mp hfree).2
    by_cases hne : own = []
    · subst hne
      simp only [spare, List.length_nil, Nat.sub_zero] at hspare
      rw [fitted_nil h1, (agreeOff_allocated fs _ c hspare).1, h0]
    · rw [fitted_of_lt (by omega) hne, (agreeOff_extended hne c fun h => ?_).1, h0]
      exact h.elim (fun h => hown c h h0) hspare

theorem Target.nodup_own (ht : fs.Target v R name own slot) : own.Nodup ∧ ∀ c ∈ own, v.fat c ≠ 0 := by
  rcases ht.chain_own with rfl | h
  · exact ⟨List.nodup_nil, by simp⟩
  · exact ⟨h.chain.nodup, fun c => h.fat_ne_zero⟩

theorem Target.used_own (hwf : fs.WellFormed v) (hR : fs.ChainAt v fs.rootCluster.toNat R)
    (ht : fs.Target v R name own slot) {c : Nat} (hc : c ∈ own) : fs.Used v R c := by
  cases ht with
  | found h ho =>
      exact Or.inr ⟨_, slot, own, (lookup_node hwf hR).mp h, ho, hc⟩
  | free _ _ => cases hc

theorem Target.lost_written (hwf : fs.WellFormed v) (hR : fs.ChainAt v fs.rootCluster.toNat R)
    (ht : fs.Target v R name own slot) (h1 : 1 ≤ needed) (hwfw : fs.WellFormed w)
    (hRw : fs.ChainAt w fs.rootCluster.toNat R) (hpres : fs.Preserves v w (· = slot))
    (hfat : w.fat = (fs.fitted v own needed).fat) (hn : fs.Node w [name] slot)
    (ho : fs.Owns w slot (fs.fittedChain v own needed)) : fs.lost w = fs.lost v := by
  obtain ⟨hnd, hnz⟩ := ht.nodup_own
  have hused : ∀ c ∈ fs.fittedChain v own needed, fs.Used w R c := fun c hc => Or.inr ⟨_, _, _, hn, ho, hc⟩
  ext c
  rw [mem_lost hwfw hRw, mem_lost hwf hR]
  constructor
  · rintro ⟨hr, h0, hu⟩
    have hm : c ∉ fs.fittedChain v own needed := fun h => hu (hused c h)
    have hv0 : v.fat c ≠ 0 := by
      by_contra hz
      rw [hfat] at h0
      exact h0 (fitted_fat_zero h1 hnz hnd (Or.inr (mem_freeList.mpr ⟨hr, hz⟩)) hm)
    refine ⟨hr, hv0, ?_⟩
    rintro (hc | ⟨path, loc, l, hnv, hov, hc⟩)
    · exact hu (Or.inl hc)
    · by_cases hs : loc = slot
      · subst hs
        -- the old clusters of the file are kept or freed
        have hco : c ∈ own := by
          cases ht with
          | found _ ho' => rw [ho'.unique hov]; exact hc
          | free _ hs => exact absurd hnv.isLive (not_isLive_of_isFree (by simpa using List.find?_some hs))
        rw [hfat] at h0
        exact h0 (fitted_fat_zero h1 hnz hnd (Or.inl hco) hm)
      · exact hu (Or.inr ⟨path, loc, l, (hpres.node hs).mpr hnv, hpres.owns hs hnv hov, hc⟩)
  · rintro ⟨hr, h0, hu⟩
    have hco : c ∉ own := fun h => hu (ht.used_own hwf hR h)
    have hcf : c ∉ fs.freeList v := fun h => h0 (mem_freeList.mp h).2
    refine ⟨hr, ?_, ?_⟩
    · rw [hfat, (agreeOff_fitted h1 c fun h => h.elim hco hcf).1]
      exact h0
    · rintro (hc | ⟨path, loc, l, hnw, how, hc⟩)
      · exact hu (Or.inl hc)
      · by_cases hs : loc = slot
        · subst hs
          rw [how.unique ho] at hc
          exact (mem_fittedChain hc).elim hco hcf
        · have hnv := (hpres.node hs).mp hnw
          obtain ⟨l', hl'⟩ := hwf.chains hnv
          rw [how.unique (hpres.owns hs hnv hl')] at hc
          exact hu (Or.inr ⟨path, loc, l', hnv, hl', hc⟩)

/-- Under a change that preserves the whole tree, the clusters in use differ by those of the root. -/
theorem Preserves.used_iff (hwf : fs.WellFormed v) (hpres : fs.Preserves v w fun _ => False) {c : Nat} :
    fs.Used w R' c ↔ c ∈ R' ∨ ∃ path loc l, fs.Node v path loc ∧ fs.Owns v loc l ∧ c ∈ l := by
  have hT : ¬ False := not_false
  constructor
  · rintro (hc | ⟨path, loc, l, hn, ho, hc⟩)
    · exact Or.inl hc
    · have hnv := (hpres.node hT).mp hn
      obtain ⟨l', hl'⟩ := hwf.chains hnv
      rw [ho.unique (hpres.owns hT hnv hl')] at hc
      exact Or.inr ⟨path, loc, l', hnv, hl', hc⟩
  · rintro (hc | ⟨path, loc, l, hn, ho, hc⟩)
    · exact Or.inl hc
    · exact Or.inr ⟨path, loc, l, (hpres.node hT).mpr hn, hpres.owns hT hn ho, hc⟩

theorem allocated_fat_ne_zero (ha : fs.Addressable) {c : Nat} (hc : c ∈ fs.freeList v) :
    (fs.allocated v (fs.freeList v)).fat c ≠ 0 := by
  obtain ⟨x, xs, hx⟩ := List.exists_cons_of_ne_nil (List.ne_nil_of_mem hc)
  have hnd : (fs.freeList v).Nodup := nodup_freeFrom 2
  have hr : ∀ y ∈ fs.freeList v, fs.InRange y := fun y hy => (mem_freeList.mp hy).1
  rw [hx] at hnd hr hc ⊢
  exact (chainAt_allocated ha hnd hr).fat_ne_zero hc

/-- Taking all free clusters without linking them anywhere loses them. -/
theorem lost_allocated (hwf : fs.WellFormed v) (ha : fs.Addressable) :
    fs.lost (fs.allocated v (fs.freeList v)) = fs.lost v ∪ {c | c ∈ fs.freeList v} := by
  obtain ⟨R, hR⟩ := hwf.root
  obtain ⟨hwfw, hpres⟩ := preserves_of_free hwf (agreeOff_allocated fs (fs.freeList v))
  have hRw : fs.ChainAt (fs.allocated v (fs.freeList v)) fs.rootCluster.toNat R := hR.congr fun c hc =>
    (agreeOff_allocated fs _ c fun h => hR.fat_ne_zero hc (mem_freeList.mp h).2).1
  ext c
  rw [Set.mem_union, Set.mem_ofPred_eq, mem_lost hwfw hRw, mem_lost hwf hR, hpres.used_iff hwf]
  change _ ∧ _ ∧ ¬ fs.Used v R c ↔ _
  by_cases hc : c ∈ fs.freeList v
  · have hu : ¬ fs.Used v R c := by
      rintro (h | ⟨_, _, _, _, ho, h⟩)
      · exact hR.fat_ne_zero h (mem_freeList.mp hc).2
      · exact ho.fat_ne_zero h (mem_freeList.mp hc).2
    simp only [hc, or_true, iff_true]
    exact ⟨(mem_freeList.mp hc).1, allocated_fat_ne_zero ha hc, hu⟩
  · rw [(agreeOff_allocated fs _ c hc).1]
    simp only [hc, or_false]

/-! ## The root's new cluster -/

theorem extended_fat_zero_iff (ha : fs.Addressable) (hR : fs.ChainAt v fs.rootCluster.toNat R) {n c : Nat}
    (hn : n ∈ fs.freeList v) : (fs.extended v R [n]).fat c = 0 ↔ v.fat c = 0 ∧ c ≠ n := by
  have hch : fs.ChainAt (fs.extended v R [n]) fs.rootCluster.toNat (R ++ [n]) :=
    chainAt_extended ha hR (List.cons_ne_nil _ _) (List.nodup_singleton n)
      fun c hc => by rw [List.mem_singleton.mp hc]; exact hn
  by_cases hc : c ∈ R ++ [n]
  · refine iff_of_false (hch.fat_ne_zero hc) fun ⟨h0, hne⟩ => ?_
    rcases List.mem_append.mp hc with h | h
    · exact hR.fat_ne_zero h h0
    · exact hne (List.mem_singleton.mp h)
  · have hne : c ≠ n := by rintro rfl; simp at hc
    rw [(agreeOff_extended hR.chain.ne_nil c fun h => hc (List.mem_append.mpr h)).1]
    simp [hne]

theorem freeList_extended (ha : fs.Addressable) (hR : fs.ChainAt v fs.rootCluster.toNat R) {n : Nat} {t : List Nat}
    (hf : fs.freeList v = n :: t) : fs.freeList (fs.extended v R [n]) = t := by
  have hn : n ∈ fs.freeList v := by rw [hf]; exact List.mem_cons_self
  have hnd : (n :: t).Nodup := by rw [← hf]; exact nodup_freeFrom 2
  have hfilter : fs.freeList (fs.extended v R [n]) = (fs.freeList v).filter fun c => c ≠ n := by
    simp only [freeList, freeFrom, List.filter_filter, ← Bool.decide_and]
    refine List.filter_congr fun c _ => ?_
    rw [decide_eq_decide, extended_fat_zero_iff ha hR hn, and_comm]
  rw [hfilter, hf, List.filter_cons_of_neg (by simp), List.filter_eq_self]
  rintro c hc
  rw [decide_eq_true_iff]
  rintro rfl
  exact (List.nodup_cons.mp hnd).1 hc

theorem Place.lost_base (hwf : fs.WellFormed v) (hR : fs.ChainAt v fs.rootCluster.toNat R) (ha : fs.Addressable)
    (hp : fs.Place v R name base R' own slot) : fs.lost base = fs.lost v := by
  obtain ⟨hwfb, hRb, hpres⟩ := hp.preserves hwf hR ha
  cases hp with
  | here _ => rfl
  | @extend n t _ _ hf =>
      have hn : n ∈ fs.freeList v := by rw [hf]; exact List.mem_cons_self
      ext c
      have hused : fs.Used (fs.extended v R [n]) (R ++ [n]) c ↔ c = n ∨ fs.Used v R c := by
        rw [hpres.used_iff hwf, List.mem_append, List.mem_singleton, Used, or_comm (a := c ∈ R), or_assoc]
      have hfat := extended_fat_zero_iff (c := c) ha hR hn
      rw [mem_lost hwfb hRb, mem_lost hwf hR, hused, ne_eq, hfat]
      have hn0 := (mem_freeList.mp hn).2
      constructor
      · rintro ⟨hr, h0, hu⟩
        exact ⟨hr, fun h => h0 ⟨h, fun he => hu (Or.inl he)⟩, fun h => hu (Or.inr h)⟩
      · rintro ⟨hr, h0, hu⟩
        refine ⟨hr, fun h => h0 h.1, ?_⟩
        rintro (rfl | h)
        · exact h0 hn0
        · exact hu h

end Fat32

end Ferro
