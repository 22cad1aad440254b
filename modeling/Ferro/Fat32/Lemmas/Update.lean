import Ferro.Fat32.Lemmas.WriteFile

/-!
# Well-formedness under `write_file`

Every volume that `write_file` ends with, or passes through, against the volume it started from.
-/

namespace Ferro

namespace Fat32

variable {fs : Fat32} {v w base : Volume} {R R' own m : List Nat} {slot loc : Loc} {name : Name}
  {data : List UInt8} {T : Loc → Prop} {first len : Nat}

/-! ## Changes to free clusters and to the file's own -/

theorem agreeOff_used (hw : v.AgreeOff (fun c => c ∈ own ∨ c ∈ fs.freeList v) w) {c : Nat} (h0 : v.fat c ≠ 0)
    (hc : c ∉ own) : w.fat c = v.fat c ∧ ∀ s, w.data (c, s) = v.data (c, s) :=
  hw c fun h => h.elim hc fun hf => h0 (mem_freeList.mp hf).2

theorem agreeOff_root (hR : fs.ChainAt v fs.rootCluster.toNat R) (hdis : R.Disjoint own)
    (hw : v.AgreeOff (fun c => c ∈ own ∨ c ∈ fs.freeList v) w) (hloc : loc ∈ fs.slots R) :
    w.entry loc = v.entry loc := by
  have hc := (mem_slots.mp hloc).1
  exact entry_congr ((agreeOff_used hw (hR.fat_ne_zero hc) fun h => hdis hc h).2 _)

theorem keeps_of_agreeOff (hR : fs.ChainAt v fs.rootCluster.toNat R) (hp : fs.Private v R own T)
    (hT : ∀ loc, T loc → loc ∈ fs.slots R)
    (hw : v.AgreeOff (fun c => c ∈ own ∨ c ∈ fs.freeList v) w) : fs.Keeps v w R R own T where
  root := hR.congr fun c hc => (agreeOff_used hw (hR.fat_ne_zero hc) fun h => hp.root hc h).1
  fresh := Or.inl
  fat h0 _ hc := (agreeOff_used hw h0 hc).1
  data h0 _ hc := (agreeOff_used hw h0 hc).2 _
  live _ := by rw [liveSlots, live_congr fun _ h => agreeOff_root hR hp.root hw h]; rfl
  entry _ h := agreeOff_root hR hp.root hw (mem_live h).1
  file hloc := by rw [agreeOff_root hR hp.root hw (hT _ hloc)]; exact hp.file hloc

theorem private_nil : fs.Private v R [] fun _ => False where
  root := List.disjoint_nil_right R
  other _ _ _ := List.disjoint_nil_right _
  file h := h.elim

theorem preserves_of_free (hwf : fs.WellFormed v) (hw : v.AgreeOff (· ∈ fs.freeList v) w) :
    fs.WellFormed w ∧ fs.Preserves v w fun _ => False := by
  obtain ⟨R, hR⟩ := hwf.root
  have hw' : v.AgreeOff (fun c => c ∈ [] ∨ c ∈ fs.freeList v) w := hw.mono fun _ => Or.inr
  have hdis : R.Disjoint [] := List.disjoint_nil_right R
  have hk : fs.Keeps v w R R [] fun _ => False := keeps_of_agreeOff hR private_nil (fun _ h => h.elim) hw'
  have hlive : fs.liveSlots w R = fs.liveSlots v R := live_congr fun _ h => agreeOff_root hR hdis hw' h
  refine ⟨hk.wellFormed hwf hR private_nil (fun h => h.elim) (fun h => h.elim) ?_ ?_, hk.preserves hwf hR private_nil⟩
  · intro a b ha hb
    rw [hlive] at ha hb
    rw [agreeOff_root hR hdis hw' (mem_live ha).1, agreeOff_root hR hdis hw' (mem_live hb).1]
    exact hwf.names hR ha hb
  · refine (hwf.ended hR).imp_of_mem fun {a b} ha hb h => ?_
    rwa [agreeOff_root hR hdis hw' ha, agreeOff_root hR hdis hw' hb]

/-! ## Extending the root directory -/

theorem extended_entry (hR : fs.ChainAt v fs.rootCluster.toNat R) {n : Nat} (hn : n ∈ fs.freeList v)
    (hloc : loc ∈ fs.slots R) : (fs.extended v R [n]).entry loc = v.entry loc := by
  have hc := (mem_slots.mp hloc).1
  have hne : loc.cluster ∉ [n] := by
    intro h
    rw [List.mem_singleton.mp h] at hc
    exact hR.fat_ne_zero hc (mem_freeList.mp hn).2
  exact entry_congr ((agreeOff_allocated fs [n] _ hne).2 _)

theorem nth_entry (sector : Sector) {i j : Nat} (hi : i < 16) (hj : j < 32) :
    (sector.entry i).nth j = sector.nth (i * 32 + j) := by
  rw [Arr.entry, Arr.nth_ofList hj, Arr.getElem?_slice sector (by omega), if_pos hj]
  rfl

theorem isEnd_of_zero (hi : loc.index < 16) (h : v.data (loc.cluster, loc.sector) = Arr.fill 0) :
    (v.entry loc).isEnd := by
  have h0 : (v.entry loc).nth 0 = 0 := by
    rw [Volume.entry, h, nth_entry _ hi (by decide), Arr.nth_fill (by omega)]
  simp [DirEntry.isEnd, h0]

theorem isFree_of_isEnd {e : DirEntry} (h : e.isEnd) : e.isFree := by
  simp only [DirEntry.isEnd] at h
  simp only [DirEntry.isFree, h, Bool.true_or]

theorem not_isLive_of_isFree {e : DirEntry} (h : e.isFree) : ¬ e.isLive := by
  simp [DirEntry.isLive, h]

section Extend

variable (hwf : fs.WellFormed v) (hR : fs.ChainAt v fs.rootCluster.toNat R) {n : Nat} (hn : n ∈ fs.freeList v)
  (hfull : ((fs.slots R).find? fun loc => (v.entry loc).isFree) = none)

theorem extended_isEnd (hloc : loc ∈ fs.slots [n]) : ((fs.extended v R [n]).entry loc).isEnd := by
  obtain ⟨hc, hs, hi⟩ := mem_slots.mp hloc
  exact isEnd_of_zero hi (allocated_data (List.nodup_singleton n) hc hs)

include hR hn hfull

theorem extended_live : fs.liveSlots (fs.extended v R [n]) (R ++ [n]) = fs.liveSlots v R := by
  have hold : (fs.extended v R [n]).live (fs.slots R) = v.live (fs.slots R) :=
    live_congr fun _ h => extended_entry hR hn h
  have hany : ((fs.slots R).any fun loc => ((fs.extended v R [n]).entry loc).isEnd) = false := by
    have := any_isEnd_of_find?_none hfull
    rw [List.any_eq_false] at this ⊢
    intro loc hloc
    rw [extended_entry hR hn hloc]
    exact this loc hloc
  have hnew : (fs.extended v R [n]).live (fs.slots [n]) = [] := by
    refine List.eq_nil_iff_forall_not_mem.mpr fun loc h => ?_
    obtain ⟨hs, hl⟩ := mem_live h
    exact not_isLive_of_isFree (isFree_of_isEnd (extended_isEnd hs)) hl
  rw [liveSlots, slots_append, live_append, hany, hold, hnew, List.append_nil]
  rfl

theorem keeps_extended (ha : fs.Addressable) :
    fs.Keeps v (fs.extended v R [n]) R (R ++ [n]) [] fun _ => False where
  root := chainAt_extended ha hR (List.cons_ne_nil _ _) (List.nodup_singleton n)
    fun c hc => by rw [List.mem_singleton.mp hc]; exact hn
  fresh hc := (List.mem_append.mp hc).imp_right fun h => by
    rw [List.mem_singleton.mp h]; exact (mem_freeList.mp hn).2
  fat h0 hcR _ := (agreeOff_extended hR.chain.ne_nil _ fun h => h.elim hcR fun h => h0 (by
    rw [List.mem_singleton.mp h]; exact (mem_freeList.mp hn).2)).1
  data h0 hcR _ := (agreeOff_extended hR.chain.ne_nil _ fun h => h.elim hcR fun h => h0 (by
    rw [List.mem_singleton.mp h]; exact (mem_freeList.mp hn).2)).2 _
  live _ := by rw [extended_live hR hn hfull]
  entry _ h := extended_entry hR hn (mem_live h).1
  file h := h.elim

include hwf

theorem preserves_extended (ha : fs.Addressable) :
    fs.WellFormed (fs.extended v R [n]) ∧ fs.Preserves v (fs.extended v R [n]) fun _ => False := by
  have hk := keeps_extended hR hn hfull ha
  refine ⟨hk.wellFormed hwf hR private_nil (fun h => h.elim) (fun h => h.elim) ?_ ?_,
    hk.preserves hwf hR private_nil⟩
  · intro a b ha hb
    rw [extended_live hR hn hfull] at ha hb
    rw [extended_entry hR hn (mem_live ha).1, extended_entry hR hn (mem_live hb).1]
    exact hwf.names hR ha hb
  · rw [slots_append, List.pairwise_append]
    refine ⟨?_, ?_, fun a _ b hb _ => extended_isEnd hb⟩
    · refine (hwf.ended hR).imp_of_mem fun {a b} ha hb h => ?_
      rwa [extended_entry hR hn ha, extended_entry hR hn hb]
    · exact List.pairwise_of_forall_mem_list fun a _ b hb _ => extended_isEnd hb

end Extend

/-! ## Writing the entry -/

section Target

variable (hwf : fs.WellFormed v) (hR : fs.ChainAt v fs.rootCluster.toNat R) (ht : fs.Target v R name own slot)

include hwf hR

theorem path_of_root_slot {path : List Name} (hs : loc ∈ fs.slots R) (hn : fs.Node v path loc) :
    path = [(v.entry loc).name] := by
  cases hn with
  | root _ _ => rfl
  | sub hd _ hl h _ =>
      have hc := (mem_slots.mp (mem_live h).1).1
      exact absurd hc fun hc => hwf.root_disjoint hR hd (Or.inr hl) (mem_slots.mp hs).1 hc

include ht

theorem Target.root_disjoint : R.Disjoint own := by
  cases ht with
  | found h ho => exact hwf.root_disjoint hR ((lookup_node hwf hR).mp h) ho
  | free _ _ => exact List.disjoint_nil_right R

theorem Target.private (hdir : fs.NotSubdir v name) : fs.Private v R own (· = slot) := by
  have hroot := ht.root_disjoint hwf hR
  cases ht with
  | @found slot own h ho =>
      have hn : fs.Node v [name] slot := (lookup_node hwf hR).mp h
      refine ⟨hroot, fun hn' hne ho' => hwf.disjoint hn' hn hne ho' ho, ?_⟩
      rintro loc rfl _
      exact hdir _ hn
  | @free slot h hs =>
      refine ⟨hroot, fun _ _ _ => List.disjoint_nil_right _, ?_⟩
      rintro loc rfl hl
      exact absurd hl (not_isLive_of_isFree (by simpa using List.find?_some hs))

theorem Target.ne_slot {path : List Name} (hn : fs.Node v path loc) (hne : path ≠ [name]) : loc ≠ slot := by
  rintro rfl
  have hpath := path_of_root_slot hwf hR (ht.slot_mem hwf hR) hn
  cases ht with
  | found h _ => rw [((lookup_eq_some hwf hR).mp h).2] at hpath; exact hne hpath
  | free _ hs => exact absurd hn.isLive (not_isLive_of_isFree (by simpa using List.find?_some hs))

theorem Target.entry_setEntry (hdis : R.Disjoint own) (hw : v.AgreeOff (fun c => c ∈ own ∨ c ∈ fs.freeList v) w)
    (hloc : loc ∈ fs.slots R) : (w.setEntry slot (entryBytes name first len)).entry loc =
      if loc = slot then newEntry name first len else v.entry loc := by
  have hs := (mem_slots.mp (ht.slot_mem hwf hR)).2.2
  rw [Volume.entry_setEntry hs (mem_slots.mp hloc).2.2 (length_entryBytes name first len),
    agreeOff_root hR hdis hw hloc]
  rfl

end Target

theorem newEntry.isEnd_eq (hp : name.Proper) : (newEntry name first len).isEnd = false := by
  simp [DirEntry.isEnd, newEntry.nth_zero, hp.1]

theorem newEntry.isLive_eq (hp : name.Proper) : (newEntry name first len).isLive := by
  simp [DirEntry.isLive, DirEntry.isFree, newEntry.nth_zero, newEntry.skipped_eq, hp.1, hp.2]

/-- The new entry does not stand behind the end of the directory. -/
theorem Target.ended (hwf : fs.WellFormed v) (hR : fs.ChainAt v fs.rootCluster.toNat R)
    (ht : fs.Target v R name own slot) {e : Loc → DirEntry} (hs : (e slot).isEnd = false)
    (he : ∀ loc ∈ fs.slots R, loc ≠ slot → e loc = v.entry loc) :
    (fs.slots R).Pairwise fun a b => (e a).isEnd → (e b).isEnd := by
  have hv : ∀ a ∈ fs.slots R, (e a).isEnd → (v.entry a).isEnd := by
    intro a ha hend
    have hne : a ≠ slot := by rintro rfl; rw [hs] at hend; cases hend
    rwa [← he a ha hne]
  cases ht with
  | @found slot own h _ =>
      have hlive := (mem_live ((lookup_eq_some hwf hR).mp h).1).2
      refine (hwf.ended hR).imp_of_mem fun {a b} ha hb hab hend => ?_
      have hbe := hab (hv a ha hend)
      have hne : b ≠ slot := by rintro rfl; exact DirEntry.not_isEnd_of_isLive hlive hbe
      rwa [he b hb hne]
  | @free slot _ hfind =>
      obtain ⟨_, as, bs, hsplit, has⟩ := List.find?_eq_some_iff_append.mp hfind
      have hend := hwf.ended hR
      have hnd : (fs.slots R).Nodup := nodup_slots hR.chain.nodup
      rw [hsplit] at hv he hend hnd ⊢
      -- before the slot nothing ends the directory, behind it everything is as it was
      have hbefore : ∀ a ∈ as, ¬ (e a).isEnd := fun a ha hae => by
        have := isFree_of_isEnd (hv a (List.mem_append_left _ ha) hae)
        simpa [this] using has a ha
      rw [List.pairwise_append, List.pairwise_cons] at hend ⊢
      refine ⟨?_, ⟨fun b _ hae => absurd hae (by simp [hs]), ?_⟩, fun a ha b _ hae => absurd hae (hbefore a ha)⟩
      · exact List.pairwise_of_forall_mem_list fun a ha b _ hae => absurd hae (hbefore a ha)
      · refine hend.2.1.2.imp_of_mem fun {a b} ha hb hab hae => ?_
        have hmem : ∀ x ∈ bs, x ∈ as ++ slot :: bs := fun x hx => by simp [hx]
        have hne : b ≠ slot := by
          rintro rfl
          exact (List.nodup_cons.mp (List.nodup_append.mp hnd).2.1).1 hb
        rw [he b (hmem b hb) hne]
        exact hab (hv a (hmem a ha) hae)

/-- With the new entry, the name leads to the slot. -/
theorem Target.node_new (hwf : fs.WellFormed v) (hR : fs.ChainAt v fs.rootCluster.toNat R)
    (ht : fs.Target v R name own slot) (hw : v.AgreeOff (fun c => c ∈ own ∨ c ∈ fs.freeList v) w) (first len : Nat)
    (hp : name.Proper) :
    fs.Node (w.setEntry slot (entryBytes name first len)) [name] slot ∧
      (w.setEntry slot (entryBytes name first len)).entry slot = newEntry name first len := by
  have hdis := ht.root_disjoint hwf hR
  have hmem := ht.slot_mem hwf hR
  have hentry : ∀ loc ∈ fs.slots R, (w.setEntry slot (entryBytes name first len)).entry loc =
      if loc = slot then newEntry name first len else v.entry loc :=
    fun loc hloc => ht.entry_setEntry hwf hR hdis hw hloc
  have hslot : (w.setEntry slot (entryBytes name first len)).entry slot = newEntry name first len := by
    rw [hentry slot hmem, if_pos rfl]
  have hend := ht.ended hwf hR (e := (w.setEntry slot (entryBytes name first len)).entry)
    (by rw [hslot]; exact newEntry.isEnd_eq hp)
    (fun loc hloc hne => by rw [hentry loc hloc, if_neg hne])
  have hroot : fs.ChainAt (w.setEntry slot (entryBytes name first len)) fs.rootCluster.toNat R :=
    hR.congr fun c hc => (agreeOff_used hw (hR.fat_ne_zero hc) fun h => hdis hc h).1
  refine ⟨(node_singleton hroot).mpr ⟨?_, by rw [hslot, newEntry.name_eq]⟩, hslot⟩
  rw [mem_liveSlots hend, hslot]
  exact ⟨hmem, newEntry.isLive_eq hp⟩

section Target

variable (hwf : fs.WellFormed v) (hR : fs.ChainAt v fs.rootCluster.toNat R) (ht : fs.Target v R name own slot)
  (hdir : fs.NotSubdir v name) (hw : v.AgreeOff (fun c => c ∈ own ∨ c ∈ fs.freeList v) w)

include hwf hR ht hdir hw

theorem Target.keeps_old : fs.Keeps v w R R own (· = slot) :=
  keeps_of_agreeOff hR (ht.private hwf hR hdir) (by rintro loc rfl; exact ht.slot_mem hwf hR) hw

theorem Target.keeps_new (first len : Nat) (hp : name.Proper) :
    fs.Keeps v (w.setEntry slot (entryBytes name first len)) R R own (· = slot) := by
  have hold := ht.keeps_old hwf hR hdir hw
  have hmem := ht.slot_mem hwf hR
  have hdis := (ht.private hwf hR hdir).root
  have hentry : ∀ loc ∈ fs.slots R, (w.setEntry slot (entryBytes name first len)).entry loc =
      if loc = slot then newEntry name first len else v.entry loc :=
    fun loc hloc => ht.entry_setEntry hwf hR hdis hw hloc
  have hend := ht.ended hwf hR (e := (w.setEntry slot (entryBytes name first len)).entry)
    (by rw [hentry slot hmem, if_pos rfl]; exact newEntry.isEnd_eq hp)
    (fun loc hloc hne => by rw [hentry loc hloc, if_neg hne])
  refine ⟨hold.root.congr fun _ _ => rfl, hold.fresh, hold.fat, fun {c s} h0 hcR hco => ?_, fun {loc} hne => ?_,
    fun {loc} hne h => ?_,
    fun {loc} he _ => ?_⟩
  · have hne : (c, s) ≠ (slot.cluster, slot.sector) := by
      rintro he; cases he; exact hcR (mem_slots.mp hmem).1
    rw [Volume.setEntry, Volume.setData_data_of_ne _ hne]
    exact hold.data h0 hcR hco
  · rw [mem_liveSlots hend, mem_liveSlots (hwf.ended hR)]
    refine and_congr_right fun hs => ?_
    rw [hentry loc hs, if_neg hne]
  · rw [hentry loc (mem_live h).1, if_neg hne]
  · subst he
    rw [hentry loc hmem, if_pos rfl, newEntry.isDir_eq]
    exact Bool.false_ne_true

/-- With the old entry, the volume is well formed if the file's clusters still form a chain. -/
theorem Target.wellFormed_old (hm : fs.Node v [name] slot → fs.Owns w slot m)
    (hfrom : ∀ c ∈ m, c ∈ own ∨ c ∈ fs.freeList v) : fs.WellFormed w := by
  have hpriv := ht.private hwf hR hdir
  have hk := ht.keeps_old hwf hR hdir hw
  have hlive : fs.liveSlots w R = fs.liveSlots v R := live_congr fun _ h => agreeOff_root hR hpriv.root hw h
  refine hk.wellFormed hwf hR hpriv (by rintro a b rfl rfl; rfl) ?_ ?_ ?_
  · rintro path loc rfl hn
    have hpath : fs.Node v [name] loc := by
      have hs := ht.slot_mem hwf hR
      have hlv : loc ∈ fs.liveSlots v R := by
        refine (mem_liveSlots (hwf.ended hR)).mpr ⟨hs, ?_⟩
        rw [← agreeOff_root hR hpriv.root hw hs]
        exact hn.isLive
      refine (node_singleton hR).mpr ⟨hlv, ?_⟩
      cases ht with
      | found h _ => exact ((lookup_eq_some hwf hR).mp h).2
      | free _ hs => exact absurd (mem_live hlv).2 (not_isLive_of_isFree (by simpa using List.find?_some hs))
    refine ⟨m, hm hpath, fun c hc => ⟨fun hcR => ?_, (hfrom c hc).imp_right fun h => (mem_freeList.mp h).2⟩⟩
    rcases hfrom c hc with h | h
    · exact hpriv.root hcR h
    · exact hR.fat_ne_zero hcR (mem_freeList.mp h).2
  · intro a b ha hb
    rw [hlive] at ha hb
    rw [agreeOff_root hR hpriv.root hw (mem_live ha).1, agreeOff_root hR hpriv.root hw (mem_live hb).1]
    exact hwf.names hR ha hb
  · refine (hwf.ended hR).imp_of_mem fun {a b} ha hb h => ?_
    rwa [agreeOff_root hR hpriv.root hw ha, agreeOff_root hR hpriv.root hw hb]

/-- With the new entry, the volume is well formed if the file's clusters form a chain. -/
theorem Target.wellFormed_new (len : Nat) (hp : name.Proper) (hm : fs.ChainAt w first m)
    (hfrom : ∀ c ∈ m, c ∈ own ∨ c ∈ fs.freeList v) :
    fs.WellFormed (w.setEntry slot (entryBytes name first len)) ∧
      fs.Node (w.setEntry slot (entryBytes name first len)) [name] slot ∧
      (w.setEntry slot (entryBytes name first len)).entry slot = newEntry name first len ∧
      fs.Owns (w.setEntry slot (entryBytes name first len)) slot m := by
  have hpriv := ht.private hwf hR hdir
  have hk := ht.keeps_new hwf hR hdir hw first len hp
  have hmem := ht.slot_mem hwf hR
  have hentry : ∀ loc ∈ fs.slots R, (w.setEntry slot (entryBytes name first len)).entry loc =
      if loc = slot then newEntry name first len else v.entry loc :=
    fun loc hloc => ht.entry_setEntry hwf hR hpriv.root hw hloc
  obtain ⟨hnode, hslot⟩ := ht.node_new hwf hR hw first len hp
  have hend := ht.ended hwf hR (e := (w.setEntry slot (entryBytes name first len)).entry)
    (by rw [hslot]; exact newEntry.isEnd_eq hp)
    (fun loc hloc hne => by rw [hentry loc hloc, if_neg hne])
  have hfirst : first < 2 ^ 32 :=
    Nat.lt_trans (hm.inRange _ hm.chain.head_mem).2 hwf.geometry.clusters_lt
  have hown : fs.Owns (w.setEntry slot (entryBytes name first len)) slot m := by
    refine Or.inr ?_
    rw [hslot, newEntry.firstCluster_eq _ _ _ hfirst]
    exact hm.congr fun _ _ => rfl
  -- no other live entry of the root has the name
  have hother : ∀ loc, loc ≠ slot → loc ∈ fs.liveSlots v R → (v.entry loc).name ≠ name := by
    intro loc hne hl hname
    cases ht with
    | found h _ =>
        have hf := (lookup_eq_some hwf hR).mp h
        exact hne (hwf.names hR hl hf.1 (hname.trans hf.2.symm))
    | free h _ => exact lookup_eq_none h hl hname
  refine ⟨hk.wellFormed hwf hR hpriv (by rintro a b rfl rfl; rfl) ?_ ?_ hend, hnode, hslot,
    hown⟩
  · rintro path loc rfl _
    refine ⟨m, hown, fun c hc => ⟨fun hcR => ?_, (hfrom c hc).imp_right fun h => (mem_freeList.mp h).2⟩⟩
    rcases hfrom c hc with h | h
    · exact hpriv.root hcR h
    · exact hR.fat_ne_zero hcR (mem_freeList.mp h).2
  · intro a b ha hb hab
    rw [hentry a (mem_live ha).1, hentry b (mem_live hb).1] at hab
    by_cases hsa : a = slot
    · by_cases hsb : b = slot
      · rw [hsa, hsb]
      · rw [if_pos hsa, if_neg hsb, newEntry.name_eq] at hab
        exact absurd hab.symm (hother b hsb ((hk.live hsb).mp hb))
    · by_cases hsb : b = slot
      · rw [if_neg hsa, if_pos hsb, newEntry.name_eq] at hab
        exact absurd hab (hother a hsa ((hk.live hsa).mp ha))
      · rw [if_neg hsa, if_neg hsb] at hab
        exact hwf.names hR ((hk.live hsa).mp ha) ((hk.live hsb).mp hb) hab

end Target

end Fat32

end Ferro
