import Ferro.Fat32.Lemmas.Update

/-!
# Every cut of `write_file`

The volumes that a `write_file` call passes through, and what each of them keeps of the one it started from.
-/

namespace Ferro

namespace Fat32

variable {fs : Fat32} {v w base : Volume} {R R' own m : List Nat} {slot loc : Loc} {name : Name}
  {data : List UInt8} {needed : Nat}

/-! ## The place, once the root has room -/

theorem slots_singleton (hg : fs.Geometry) (n : Nat) : ∃ locs, fs.slots [n] = ⟨n, 0, 0⟩ :: ⟨n, 0, 1⟩ :: locs := by
  obtain ⟨k, hk⟩ : ∃ k, fs.sectorsPerCluster.toNat = k + 1 := ⟨_, (Nat.succ_pred_eq_of_pos hg.spc_pos).symm⟩
  simp only [slots, sectors, hk, List.flatMap_cons, List.flatMap_nil, List.range_succ_eq_map, List.map_cons,
    List.append_nil, List.cons_append]
  exact ⟨_, rfl⟩

theorem Place.target (hwf : fs.WellFormed v) (hR : fs.ChainAt v fs.rootCluster.toNat R)
    (hp : fs.Place v R name base R' own slot) : fs.Target base R' name own slot := by
  cases hp with
  | here ht => exact ht
  | @extend n t h hs hf =>
      have hn : n ∈ fs.freeList v := by rw [hf]; exact List.mem_cons_self
      refine .free ?_ ?_
      · rw [lookup, extended_live hR hn hs, List.find?_eq_none]
        intro loc hloc
        rw [extended_entry hR hn (mem_live hloc).1]
        simpa using lookup_eq_none h hloc
      · obtain ⟨locs, hlocs⟩ := slots_singleton hwf.geometry n
        have hfirst : ((fs.extended v R [n]).entry ⟨n, 0, 0⟩).isFree :=
          isFree_of_isEnd (extended_isEnd (by rw [hlocs]; exact List.mem_cons_self))
        have hold : ((fs.slots R).find? fun loc => ((fs.extended v R [n]).entry loc).isFree) = none := by
          rw [List.find?_eq_none] at hs ⊢
          intro loc hloc
          rw [extended_entry hR hn hloc]
          exact hs loc hloc
        rw [slots_append, List.find?_append, hold, hlocs, List.find?_cons, hfirst]
        rfl

theorem Place.preserves (hwf : fs.WellFormed v) (hR : fs.ChainAt v fs.rootCluster.toNat R) (ha : fs.Addressable)
    (hp : fs.Place v R name base R' own slot) :
    fs.WellFormed base ∧ fs.ChainAt base fs.rootCluster.toNat R' ∧ fs.Preserves v base fun _ => False := by
  cases hp with
  | here _ => exact ⟨hwf, hR, .refl v _⟩
  | @extend n t _ hs hf =>
      have hn : n ∈ fs.freeList v := by rw [hf]; exact List.mem_cons_self
      obtain ⟨hwf', hpres⟩ := preserves_extended hwf hR hn hs ha
      exact ⟨hwf', (keeps_extended hR hn hs ha).root, hpres⟩

theorem Preserves.notSubdir (h : fs.Preserves v w fun _ => False) (hdir : fs.NotSubdir v name) :
    fs.NotSubdir w name := by
  intro loc hn
  have hn' := (h.node (fun h => h)).mp hn
  rw [h.entry (fun h => h) hn']
  exact hdir loc hn'

theorem Target.chain_own (ht : fs.Target v R name own slot) :
    own = [] ∨ fs.ChainAt v (v.entry slot).firstCluster own := by
  cases ht with
  | found _ ho => exact ho.imp_left fun h => h.2
  | free _ _ => exact Or.inl rfl

/-! ## The cuts -/

/-- The volume when the clusters are fitted to the data and its first `j` sectors are written. -/
def overwritten (fs : Fat32) (v : Volume) (own : List Nat) (data : List UInt8) (j : Nat) : Volume :=
  (fs.fitted v own (fs.clustersNeeded data)).fill
    ((fs.sectors (fs.fittedChain v own (fs.clustersNeeded data))).take j) data

@[simp] theorem overwritten_fat {j : Nat} :
    (fs.overwritten v own data j).fat = (fs.fitted v own (fs.clustersNeeded data)).fat := Volume.fill_fat _ _

/-- The volumes a power loss during `write_file` can leave. -/
inductive Cut (fs : Fat32) (v base : Volume) (own : List Nat) (slot : Loc) (name : Name) (data : List UInt8) :
    Volume → Prop where
  | growing {w : Volume} (h : v.AgreeOff (· ∈ fs.freeList v) w) : Cut fs v base own slot name data w
  | fitting {w : Volume} (h : fs.FitCut base own (fs.clustersNeeded data) w) : Cut fs v base own slot name data w
  | writing (hroom : fs.Room base own (fs.clustersNeeded data)) (j : Nat) :
      Cut fs v base own slot name data (fs.overwritten base own data j)
  | done (hroom : fs.Room base own (fs.clustersNeeded data)) : Cut fs v base own slot name data
      (fs.written base own (fs.fittedChain base own (fs.clustersNeeded data)) slot name data)

theorem runs_writeFile (hwf : fs.WellFormed v) (hR : fs.ChainAt v fs.rootCluster.toNat R) (ha : fs.Addressable)
    (hp : fs.Place v R name base R' own slot) (hlen : data.length < 2 ^ 32) :
    fs.Runs (fs.Cut v base own slot name data) (fs.writeFile name data) v (fs.result base own data)
      (fs.outcome base own slot name data) := by
  have hg := hwf.geometry
  refine runs_writeFile_place hwf hR hp hlen (fun hroom => ⟨?_, ?_⟩) (fun _ => .growing) (fun _ => .fitting)
    .writing .done
  · exact chainAt_fitted ha (hp.target hwf hR).chain_own (one_le_clustersNeeded hg hlen) hroom
  · rw [hroom.length_fittedChain]
    exact length_le_clustersNeeded hg hlen

theorem agreeOff_fill {S : Nat → Prop} {ps : List (Nat × Nat)} (hw : v.AgreeOff S w) (h : ∀ p ∈ ps, S p.1) :
    v.AgreeOff S (w.fill ps data) := by
  intro c hc
  obtain ⟨hf, hd⟩ := hw c hc
  refine ⟨by rw [Volume.fill_fat, hf], fun s => ?_⟩
  rw [Volume.fill_data_of_not_mem fun hp => hc (h _ hp), hd]

theorem FitCut.agreeOff (h1 : 1 ≤ needed) (h : fs.FitCut v own needed w) :
    v.AgreeOff (fun c => c ∈ own ∨ c ∈ fs.freeList v) w := by
  cases h with
  | taking _ h => exact h.mono fun _ => Or.inr
  | freeing _ j => exact agreeOff_freeAll _ v fun c hc => Or.inl (List.mem_of_mem_drop (List.mem_of_mem_take hc))
  | done _ => exact agreeOff_fitted h1

theorem agreeOff_overwritten (h1 : 1 ≤ fs.clustersNeeded data) (j : Nat) :
    v.AgreeOff (fun c => c ∈ own ∨ c ∈ fs.freeList v) (fs.overwritten v own data j) :=
  agreeOff_fill (agreeOff_fitted h1) fun _ hp =>
    mem_fittedChain (mem_sectors.mp (List.mem_of_mem_take hp)).1

theorem agreeOff_filled (data : List UInt8) (h1 : 1 ≤ needed) : v.AgreeOff (fun c => c ∈ own ∨ c ∈ fs.freeList v)
    ((fs.fitted v own needed).fill (fs.sectors (fs.fittedChain v own needed)) data) :=
  agreeOff_fill (agreeOff_fitted h1) fun _ hp => mem_fittedChain (mem_sectors.mp hp).1

section Place

variable (hwf : fs.WellFormed v) (hR : fs.ChainAt v fs.rootCluster.toNat R) (ha : fs.Addressable)
  (hp : fs.Place v R name base R' own slot) (hdir : fs.NotSubdir v name) (hname : name.Proper)
  (hlen : data.length < 2 ^ 32)

include hwf hR ha hp hdir hname hlen

/-- At every cut, every other file and subdirectory is as it was. -/
theorem Cut.preserves (h : fs.Cut v base own slot name data w) : fs.Preserves v w (· = slot) := by
  obtain ⟨hwfb, hRb, hpres⟩ := hp.preserves hwf hR ha
  have ht := hp.target hwf hR
  have hdirb := hpres.notSubdir hdir
  have hpriv := ht.private hwfb hRb hdirb
  have h1 := one_le_clustersNeeded hwf.geometry hlen
  have hto : fs.Preserves v base (· = slot) := hpres.mono fun _ h => h.elim
  cases h with
  | growing h => exact (preserves_of_free hwf h).2.mono fun _ h => h.elim
  | fitting h => exact hto.trans ((ht.keeps_old hwfb hRb hdirb (h.agreeOff h1)).preserves hwfb hRb hpriv)
  | writing _ j =>
      exact hto.trans ((ht.keeps_old hwfb hRb hdirb (agreeOff_overwritten h1 j)).preserves hwfb hRb hpriv)
  | done _ =>
      exact hto.trans ((ht.keeps_new hwfb hRb hdirb (agreeOff_filled data h1) _ _ hname).preserves hwfb hRb hpriv)

theorem Place.written (hroom : fs.Room base own (fs.clustersNeeded data)) :
    ∃ w m, w = fs.outcome base own slot name data ∧ m = fs.fittedChain base own (fs.clustersNeeded data) ∧
      fs.WellFormed w ∧ fs.Node w [name] slot ∧ w.entry slot = newEntry name (m.headD 0) data.length ∧
      fs.Owns w slot m ∧ (fs.content w m).take data.length = data := by
  obtain ⟨hwfb, hRb, hpres⟩ := hp.preserves hwf hR ha
  have ht := hp.target hwf hR
  have hdirb := hpres.notSubdir hdir
  have h1 := one_le_clustersNeeded hwf.geometry hlen
  have hch := chainAt_fitted ha ht.chain_own h1 hroom
  obtain ⟨hwfw, hn, he, ho⟩ := ht.wellFormed_new hwfb hRb hdirb (agreeOff_filled data h1) data.length
    hname (hch.congr fun c _ => by rw [Volume.fill_fat]) fun c => mem_fittedChain
  refine ⟨_, _, (if_pos hroom).symm, rfl, hwfw, hn, he, ho, ?_⟩
  -- the entry is written to a root cluster, which the file's clusters are not
  have hslot := (mem_slots.mp (ht.slot_mem hwfb hRb)).1
  have hdis : slot.cluster ∉ fs.fittedChain base own (fs.clustersNeeded data) := by
    intro hc
    rcases mem_fittedChain hc with h | h
    · exact (ht.private hwfb hRb hdirb).root hslot h
    · exact hRb.fat_ne_zero hslot (mem_freeList.mp h).2
  have hfit : data.length ≤ 512 * (fs.sectors (fs.fittedChain base own (fs.clustersNeeded data))).length := by
    rw [length_sectors, hroom.length_fittedChain]
    exact length_le_clustersNeeded hwf.geometry hlen
  refine Eq.trans (congrArg (List.take data.length) (Volume.bytes_congr fun p hp => ?_))
    (take_bytes_fill (v := fs.fitted base own (fs.clustersNeeded data)) (nodup_sectors hch.chain.nodup) hfit)
  refine Volume.setData_data_of_ne _ ?_
  rintro rfl
  exact hdis (mem_sectors.mp hp).1

omit hdir hname hlen in
theorem Place.stopped (hroom : ¬ fs.Room base own (fs.clustersNeeded data)) :
    fs.WellFormed (fs.outcome base own slot name data) ∧
      fs.Preserves v (fs.outcome base own slot name data) fun _ => False := by
  obtain ⟨hwfb, _, hpres⟩ := hp.preserves hwf hR ha
  obtain ⟨hwfw, hpres'⟩ := preserves_of_free hwfb (agreeOff_allocated fs (fs.freeList base))
  rw [outcome, if_neg hroom]
  exact ⟨hwfw, hpres.trans hpres'⟩

end Place

end Fat32

end Ferro
