import Ferro.Fat32.Lemmas.Calls

/-!
# Overwriting a file

What a file reads as when power is lost while `write_file` overwrites it without shortening its chain.
-/

namespace Ferro

namespace Fat32

variable {fs : Fat32} {v w : Volume} {R own : List Nat} {slot : Loc} {name : Name} {data old : List UInt8}
  {d : Disk}

/-- The bytes `old` once the first `j` sectors of `data` are written over them. -/
def overlay (data : List UInt8) : (j : Nat) → (old : List UInt8) → List UInt8
  | 0, old => old
  | j + 1, old => if data = [] then old else (dataSector data 0).toList ++ overlay (data.drop 512) j (old.drop 512)

theorem take_overlay (data : List UInt8) (j k : Nat) (old : List UInt8) :
    (overlay data j (old.take k)).take k = (overlay data j old).take k := by
  induction j generalizing data k old with
  | zero => rw [overlay, overlay, List.take_take, Nat.min_self]
  | succ j ih =>
      unfold overlay
      split
      · rw [List.take_take, Nat.min_self]
      · rw [List.take_append, List.take_append, List.drop_take, Arr.length_toList, ih]

theorem length_le_overlay (data : List UInt8) (j : Nat) (old : List UInt8) :
    old.length ≤ (overlay data j old).length := by
  induction j generalizing data old with
  | zero => exact Nat.le_refl _
  | succ j ih =>
      unfold overlay
      split
      · exact Nat.le_refl _
      · have := ih (data.drop 512) (old.drop 512)
        simp only [List.length_append, Arr.length_toList, List.length_drop] at this ⊢
        omega

/-- Data of at most one sector is in place after the first one. -/
theorem overlay_one (hne : data ≠ []) (hlen : data.length ≤ 512) (j : Nat) {k : Nat} (hk : k ≤ data.length)
    (old : List UInt8) : (overlay data (j + 1) old).take k = data.take k := by
  have hsec := take_toList_dataSector data
  rw [List.take_of_length_le hlen] at hsec
  rw [overlay, if_neg hne, List.take_append_of_le_length (by simp; omega)]
  conv_rhs => rw [← hsec, List.take_take, Nat.min_eq_left hk]

theorem bytes_fill (ps : List (Nat × Nat)) (hn : ps.Nodup) (v : Volume) (data : List UInt8) (j : Nat) :
    (v.fill (ps.take j) data).bytes ps = overlay data (min j ps.length) (v.bytes ps) := by
  induction ps generalizing v data j with
  | nil => simp [Volume.bytes, overlay]
  | cons p ps ih =>
      obtain ⟨hp, hps⟩ := List.nodup_cons.mp hn
      cases j with
      | zero => simp [Volume.fill, overlay]
      | succ j =>
          rw [List.take_succ_cons, List.length_cons, Nat.succ_min_succ, overlay, Volume.fill]
          split
          · rfl
          · have hsame : (v.setData p (dataSector data 0)).bytes ps = v.bytes ps :=
              Volume.bytes_congr fun q hq => Volume.setData_data_of_ne _ (by rintro rfl; exact hp hq)
            rw [Volume.bytes_cons, Volume.bytes_cons, Volume.fill_data_of_not_mem fun h => hp (List.mem_of_mem_take h),
              Volume.setData_data_self, ih hps, hsame, List.drop_left' (Arr.length_toList _)]

/-- The file at `slot` holds exactly the bytes `old`. -/
structure FileAt (fs : Fat32) (v : Volume) (name : Name) (old : List UInt8) (slot : Loc) (own : List Nat) : Prop where
  node : fs.Node v [name] slot
  owns : fs.Owns v slot own
  size : (v.entry slot).size = old.length
  content : (fs.content v own).take old.length = old

theorem FileAt.read (hwf : fs.WellFormed (fs.volume d)) (h : fs.FileAt (fs.volume d) name old slot own) {outLen : Nat}
    (hout : old.length ≤ outLen) : ((fs.readFile name outLen).run d).1 = .ok old := by
  have hr := runs_readFile (C := fun _ => True) outLen hwf trivial h.node h.owns
  rw [(hr d rfl).2.2.1, fileBytes, h.size, Nat.min_eq_left hout, h.content]

/-- What changes in free clusters only leaves every file as it is. -/
theorem FileAt.of_free (hwf : fs.WellFormed v) (h : fs.FileAt v name old slot own)
    (hw : v.AgreeOff (· ∈ fs.freeList v) w) : fs.FileAt w name old slot own := by
  obtain ⟨_, hpres⟩ := preserves_of_free hwf hw
  refine ⟨(hpres.node not_false).mpr h.node, hpres.owns not_false h.node h.owns, ?_, ?_⟩
  · rw [hpres.entry not_false h.node]; exact h.size
  · rw [content_congr fun c hc s => hpres.data not_false h.node h.owns hc]; exact h.content

section Overwrite

variable (hwf : fs.WellFormed v) (hR : fs.ChainAt v fs.rootCluster.toNat R) (ha : fs.Addressable)
  (hf : fs.FileAt v name old slot own) (hne : old ≠ []) (hc : fs.Callable v name data)
  (hns : own.length ≤ fs.clustersNeeded data)

include hwf hR hf in
theorem FileAt.target : fs.Target v R name own slot :=
  .found ((lookup_node hwf hR).mpr hf.node) hf.owns

include hf hne in
theorem FileAt.chainAt : fs.ChainAt v (v.entry slot).firstCluster own := by
  rcases hf.owns with ⟨_, rfl⟩ | h
  · have := hf.content
    simp only [Fat32.content, sectors, List.flatMap_nil, List.take_nil] at this
    exact absurd this.symm hne
  · exact h

include hf hne hns in
theorem FileAt.content_fitted : (fs.content (fs.fitted v own (fs.clustersNeeded data))
    (fs.fittedChain v own (fs.clustersNeeded data))).take old.length = old := by
  have hch := hf.chainAt hne
  have hsame : fs.content (fs.fitted v own (fs.clustersNeeded data)) own = fs.content v own :=
    content_congr fun c hc s => fitted_data (fun h => hch.fat_ne_zero hc (mem_freeList.mp h).2) s
  have hlen := congrArg List.length hf.content
  rw [List.length_take] at hlen
  rw [fittedChain, List.take_of_length_le hns, Fat32.content, sectors_append, List.flatMap_append,
    List.take_append_of_le_length]
  · exact (congrArg (List.take old.length) hsame).trans hf.content
  · change old.length ≤ (fs.content _ own).length
    rw [hsame]; omega

include hwf hR ha hf hne hc hns

/-- While the data is written, the file has its old size, and the data is in its first sectors. -/
theorem FileAt.writing (hroom : fs.Room v own (fs.clustersNeeded data)) (j : Nat) :
    fs.FileAt (fs.overwritten v own data j) name
      ((overlay data (min j (fs.sectors (fs.fittedChain v own (fs.clustersNeeded data))).length) old).take old.length)
      slot (fs.fittedChain v own (fs.clustersNeeded data)) := by
  have ht := hf.target hwf hR
  have hch := hf.chainAt hne
  have h1 := one_le_clustersNeeded hwf.geometry hc.length
  have hw : v.AgreeOff (fun c => c ∈ own ∨ c ∈ fs.freeList v) (fs.overwritten v own data j) :=
    agreeOff_overwritten h1 j
  have hfit := chainAt_fitted ha (Or.inr hch) h1 hroom
  have hroot := (ht.keeps_old hwf hR hc.notSubdir hw).root
  have hentry := ht.entry_fitted hwf hR hc.notSubdir hw
  have hlive : fs.liveSlots _ R = fs.liveSlots v R :=
    live_congr fun _ h => agreeOff_root hR (ht.private hwf hR hc.notSubdir).root hw h
  have hlen : ∀ j', ((overlay data j' old).take old.length).length = old.length := fun j' => by
    rw [List.length_take]; exact Nat.min_eq_left (length_le_overlay _ _ _)
  refine ⟨(node_singleton hroot).mpr ?_, ht.owns_fitted hwf hR ha hc.notSubdir h1 hroom hw
    overwritten_fat hch, ?_, ?_⟩
  · rw [hlive, hentry]; exact (node_singleton hR).mp hf.node
  · rw [hentry, hlen]; exact hf.size
  · have hbytes := bytes_fill (fs.sectors _) (nodup_sectors hfit.chain.nodup)
      (fs.fitted v own (fs.clustersNeeded data)) data j
    rw [hlen]
    refine (congrArg (List.take old.length) hbytes).trans ?_
    rw [← take_overlay]
    exact congrArg (fun l => (overlay data _ l).take old.length) (hf.content_fitted hne hns)

/-- At every cut, the file holds the new data, or it has its old size and the new data in its first sectors. -/
theorem FileAt.cut (hcut : fs.Cut v v own slot name data w) : fs.WellFormed w ∧ ∃ slot' own',
    fs.FileAt w name data slot' own' ∨ ∃ j, fs.FileAt w name ((overlay data j old).take old.length) slot' own' := by
  have ht := hf.target hwf hR
  have hold : fs.FileAt w name old slot own → ∃ slot' own', fs.FileAt w name data slot' own' ∨
      ∃ j, fs.FileAt w name ((overlay data j old).take old.length) slot' own' := fun h =>
    ⟨slot, own, Or.inr ⟨0, by rwa [overlay, List.take_length]⟩⟩
  refine ⟨hcut.wellFormed hwf hR ha (.here ht) hc.notSubdir hc.proper hc.length hns, ?_⟩
  cases hcut with
  | growing h => exact hold (hf.of_free hwf h)
  | fitting h =>
      cases h with
      | taking _ h => exact hold (hf.of_free hwf h)
      | freeing hle j =>
          rw [show fs.clustersNeeded data = own.length by omega, List.drop_length, List.take_nil] at hold ⊢
          exact hold hf
      | done hroom =>
          exact ⟨slot, _, Or.inr ⟨_, hf.writing hwf hR ha hne hc hns hroom 0⟩⟩
  | writing hroom j => exact ⟨slot, _, Or.inr ⟨_, hf.writing hwf hR ha hne hc hns hroom j⟩⟩
  | done hroom =>
      obtain ⟨_, _, rfl, rfl, _, hn, he, ho, hbytes⟩ := (Place.here ht).written hwf hR ha hc.notSubdir hc.proper
        hc.length hroom
      rw [outcome, if_pos hroom] at hn he ho hbytes
      refine ⟨slot, _, Or.inl ⟨hn, ho, ?_, hbytes⟩⟩
      rw [he, newEntry.size_eq, Nat.mod_eq_of_lt hc.length]

end Overwrite

/-- Power can be lost behind each sector of the data. -/
theorem passes_writing (hwf : fs.WellFormed v) (hR : fs.ChainAt v fs.rootCluster.toNat R) (ha : fs.Addressable)
    (ht : fs.Target v R name own slot) (hlen : data.length < 2 ^ 32)
    (hroom : fs.Room v own (fs.clustersNeeded data)) (j : Nat) :
    Prog.Passes fs.volume (fs.writeFile name data) v (fs.overwritten v own data j) := by
  have hg := hwf.geometry
  have h1 := one_le_clustersNeeded hg hlen
  have hp : fs.Place v R name v R own slot := .here ht
  have hfit := chainAt_fitted ha ht.chain_own h1 hroom
  have hcap : data.length ≤ 512 * (fs.sectorsPerCluster.toNat *
      (fs.fittedChain v own (fs.clustersNeeded data)).length) := by
    rw [hroom.length_fittedChain]; exact length_le_clustersNeeded hg hlen
  obtain ⟨c, hc, hsearch⟩ := runs_search (C := fun _ => True) hwf hR trivial name
  obtain ⟨freeSlot, hext, _⟩ := runs_extendRoot (C := fun _ => True) hwf hR hp hc (fun _ _ => trivial) trivial
  have hchain := runs_fitChain (C := fun _ => True) hg h1 (clustersNeeded_lt data) hp.own_found fun _ _ => trivial
  simp only [hroom, if_true] at hchain
  have hloop := passes_writeLoop hg data _ _ (data.length + 1) 0 j _ hfit (Nat.zero_le _) (by omega) (by omega)
  rw [List.drop_zero] at hloop
  rw [writeFile, if_neg (clusterSizeBytes_ne_zero hg)]
  exact .right hsearch (.right hext (.right hchain (.left hloop)))

/-- What the file reads as when all data is written and the entry is not. -/
theorem FileAt.passes_read {outLen : Nat} (hwf : fs.WellFormed v) (ha : fs.Addressable)
    (hf : fs.FileAt v name old slot own) (hne : old ≠ []) (hc : fs.Callable v name data)
    (hns : own.length ≤ fs.clustersNeeded data) (hroom : fs.Room v own (fs.clustersNeeded data))
    (hold : old.length ≤ outLen) : ∃ x, Prog.Passes fs.volume (fs.writeFile name data) v x ∧
      ∀ d', fs.volume d' = x → ((fs.readFile name outLen).run d').1 =
        .ok ((overlay data (fs.sectorsPerCluster.toNat * fs.clustersNeeded data) old).take old.length) := by
  obtain ⟨R, hR⟩ := hwf.root
  refine ⟨_, passes_writing hwf hR ha (hf.target hwf hR) hc.length hroom
    (fs.sectors (fs.fittedChain v own (fs.clustersNeeded data))).length, ?_⟩
  intro d' hd'
  have hcut : fs.Cut v v own slot name data _ :=
    .writing hroom (fs.sectors (fs.fittedChain v own (fs.clustersNeeded data))).length
  have hwf' := (hf.cut hwf hR ha hne hc hns hcut).1
  have hf' := hf.writing hwf hR ha hne hc hns hroom (fs.sectors (fs.fittedChain v own (fs.clustersNeeded data))).length
  rw [← hd'] at hwf' hf'
  rw [Nat.min_self, length_sectors, hroom.length_fittedChain] at hf'
  exact hf'.read hwf' (by rw [List.length_take]; omega)

theorem FileAt.crash_read {outLen : Nat} (hwf : fs.WellFormed (fs.volume d)) (ha : fs.Addressable)
    (hf : fs.FileAt (fs.volume d) name old slot own) (hne : old ≠ []) (hc : fs.Callable (fs.volume d) name data)
    (hns : own.length ≤ fs.clustersNeeded data) (hold : old.length ≤ outLen) (hdata : data.length ≤ outLen) (n : Nat) :
    ((fs.readFile name outLen).run ((fs.writeFile name data).crash n d)).1 = .ok data ∨
      ∃ j, ((fs.readFile name outLen).run ((fs.writeFile name data).crash n d)).1 =
        .ok ((overlay data j old).take old.length) := by
  obtain ⟨R, hR⟩ := hwf.root
  have hcut := (runs_writeFile hwf hR ha (.here (hf.target hwf hR)) hc.length d rfl).1 n
  obtain ⟨hwf', slot', own', h⟩ := hf.cut hwf hR ha hne hc hns hcut
  rcases h with h | ⟨j, h⟩
  · exact Or.inl (h.read hwf' hdata)
  · exact Or.inr ⟨j, h.read hwf' (by rw [List.length_take]; omega)⟩

end Fat32

end Ferro
