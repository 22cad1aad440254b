import Ferro.Fat32.Theorems

/-!
# Chains of an exact length

`allocate_chain` takes the lowest free clusters, and `resize_chain` cuts a chain or takes the lowest free clusters behind
it. Neither looks at how large a cluster number is, and a link has 28 bits: the chain is the one that the clusters were
taken for exactly if every cluster behind another one is below `END_OF_CHAIN`.
-/

namespace Ferro

namespace Fat32

variable {fs : Fat32} {v : Volume} {d : Disk} {first : Nat} {l : List Nat}

theorem ChainAt.lt_endOfChain (h : fs.ChainAt v first l) {c : Nat} (hc : c ∈ l.tail) : c < endOfChain := by
  obtain ⟨y, hy⟩ := h.chain.exists_next hc
  exact (Volume.next_eq_some.mp hy).2

/-! ## Allocating -/

theorem chainAt_taken_iff {n : Nat} (hn : 1 ≤ n) (hroom : n ≤ (fs.freeList v).length) :
    fs.ChainAt (fs.allocated v ((fs.freeList v).take n)) ((fs.freeList v).headD 0) ((fs.freeList v).take n) ↔
      ∀ c ∈ ((fs.freeList v).take n).tail, c < endOfChain := by
  refine ⟨fun h c hc => h.lt_endOfChain hc, fun hlink => ?_⟩
  have hnodup : ((fs.freeList v).take n).Nodup := (nodup_freeFrom 2).sublist (List.take_sublist n _)
  have hr : ∀ c ∈ (fs.freeList v).take n, fs.InRange c := fun c hc => (mem_freeList.mp (List.mem_of_mem_take hc)).1
  obtain ⟨n, rfl⟩ : ∃ m, n = m + 1 := ⟨n - 1, by omega⟩
  cases hfree : fs.freeList v with
  | nil => rw [hfree] at hroom; simp at hroom
  | cons c cs =>
      rw [hfree, List.take_succ_cons] at hlink hnodup hr
      exact chainAt_allocated_of hlink hnodup hr

/-- What `allocate_chain` leaves on the card. -/
theorem run_allocateChain (hg : fs.NoOverflow) (d : Disk) {n : Nat} (hn : 1 ≤ n) :
    ∃ d', (fs.allocateChain n).run d =
        (if n ≤ (fs.freeList (fs.volume d)).length then .ok ((fs.freeList (fs.volume d)).headD 0)
          else .error (.err .noSpace), d') ∧
      fs.volume d' = fs.allocated (fs.volume d) ((fs.freeList (fs.volume d)).take n) ∧
      fs.Stores (· ∈ (fs.freeList (fs.volume d)).take n) d d' := by
  have hrun := within_allocateChain (v := fs.volume d) (C := fun _ => True) hg hn (fun _ hc => hc) fun _ _ => trivial
  obtain ⟨_, hstores, _, hv⟩ := hrun d rfl
  exact ⟨_, hrun.run_eq rfl, hv, hstores⟩

/-- The call succeeds exactly if there are enough free clusters; then the lowest of them are zeroed and linked in
increasing order, and nothing else on the card changes. -/
theorem allocateChain_exact (hg : fs.NoOverflow) (d : Disk) {count : UInt32} (hn : 1 ≤ count.toNat) :
    ∃ d', (fs.allocateChain count.toNat).run d =
        (if count.toNat ≤ (fs.freeList (fs.volume d)).length then .ok ((fs.freeList (fs.volume d)).headD 0)
          else .error (.err .noSpace), d') ∧
      (count.toNat ≤ (fs.freeList (fs.volume d)).length →
        (fs.ChainAt (fs.volume d') ((fs.freeList (fs.volume d)).headD 0) ((fs.freeList (fs.volume d)).take count.toNat) ↔
          ∀ c ∈ ((fs.freeList (fs.volume d)).take count.toNat).tail, c < endOfChain) ∧
        (∀ c ∈ (fs.freeList (fs.volume d)).take count.toNat, ∀ s < fs.sectorsPerCluster.toNat,
          (fs.volume d').data (c, s) = Arr.fill 0) ∧
        fs.Stores (· ∈ (fs.freeList (fs.volume d)).take count.toNat) d d') := by
  obtain ⟨d', hrun, hv, hstores⟩ := run_allocateChain hg d hn
  refine ⟨d', hrun, fun hroom => ⟨?_, fun c hc s hs => ?_, hstores⟩⟩
  · rw [hv]
    exact chainAt_taken_iff hn hroom
  · rw [hv]
    exact allocated_data ((nodup_freeFrom 2).sublist (List.take_sublist _ _)) hc hs

theorem allocateChain_exact_small :
    ∃ d', (smallFs.allocateChain 1).run smallCard = (.ok 5, d') ∧ smallFs.ChainAt (smallFs.volume d') 5 [5] ∧
      (smallFs.volume d').data (5, 0) = Arr.fill 0 ∧ smallFs.Stores (· ∈ [5]) smallCard d' := by
  have hfree : smallFs.freeList (smallFs.volume smallCard) = [5] := by rw [volume_smallCard, freeList_small]
  have hcount : 1 ≤ (1 : UInt32).toNat := by decide
  obtain ⟨d', hrun, h⟩ := allocateChain_exact geometry_smallFs.noOverflow smallCard hcount
  rw [hfree] at hrun h
  obtain ⟨hchain, hdata, hstores⟩ := h (by decide)
  exact ⟨d', hrun, hchain.mpr (by simp), hdata 5 (by simp) 0 (by decide), hstores⟩

theorem freeList_hugeCard : hugeFs.freeList (hugeFs.volume hugeCard) = [2 ^ 28 + 1, 2 ^ 28 + 2] := by
  rw [volume_hugeCard, freeList_huge]

/-- Two clusters are free, but a link to the second one leads to cluster 2. -/
theorem allocateChain_hugeCard :
    hugeFs.NoOverflow ∧ hugeFs.freeList (hugeFs.volume hugeCard) = [2 ^ 28 + 1, 2 ^ 28 + 2] ∧
      ∃ d', (hugeFs.allocateChain 2).run hugeCard = (.ok (2 ^ 28 + 1), d') ∧
        ¬ hugeFs.ChainAt (hugeFs.volume d') (2 ^ 28 + 1) [2 ^ 28 + 1, 2 ^ 28 + 2] := by
  obtain ⟨d', hrun, _⟩ := run_allocateChain geometry_hugeFs.noOverflow hugeCard (n := 2) (by decide)
  rw [freeList_hugeCard] at hrun
  refine ⟨geometry_hugeFs.noOverflow, freeList_hugeCard, d', hrun, fun h => ?_⟩
  have hlt := h.lt_endOfChain (c := 2 ^ 28 + 2) (by simp)
  exact absurd hlt (by decide)

/-! ## Resizing -/

variable {old : List Nat} {needed : Nat}

theorem chainAt_fitted_iff (h : fs.ChainAt v first old) (h1 : 1 ≤ needed) (hroom : fs.Room v old needed) :
    fs.ChainAt (fs.fitted v old needed) first (fs.fittedChain v old needed) ↔
      ∀ c ∈ fs.spare v old needed, c < endOfChain := by
  by_cases hle : needed ≤ old.length
  · have hspare : fs.spare v old needed = [] := by rw [spare, Nat.sub_eq_zero_of_le hle, List.take_zero]
    rw [fitted_of_le hle, fittedChain_of_le hle, hspare]
    exact iff_of_true (chainAt_truncated h h1 hle) (by simp)
  · rw [fitted_of_lt (by omega) h.chain.ne_nil, fittedChain, List.take_of_length_le (by omega)]
    have hne : fs.spare v old needed ≠ [] := by
      intro he
      have hlen := congrArg List.length he
      rw [Room] at hroom
      simp only [spare, List.length_take, List.length_nil] at hlen
      omega
    refine ⟨fun hch c hc => hch.lt_endOfChain ?_, fun hlink => ?_⟩
    · rw [List.tail_append_of_ne_nil h.chain.ne_nil]
      exact List.mem_append_right _ hc
    · exact chainAt_extended_of hlink h hne nodup_spare fun c hc => mem_spare hc

/-- What `resize_chain` leaves on the card. -/
theorem run_resizeChain (hg : fs.NoOverflow) (d : Disk) (h : fs.ChainAt (fs.volume d) first old) (h1 : 1 ≤ needed)
    (hn : needed < 2 ^ 32) :
    ∃ d', (fs.resizeChain first needed).run d =
        (if fs.Room (fs.volume d) old needed then .ok first else .error (.err .noSpace), d') ∧
      fs.volume d' = (if fs.Room (fs.volume d) old needed then fs.fitted (fs.volume d) old needed
        else fs.allocated (fs.volume d) (fs.spare (fs.volume d) old needed)) ∧
      fs.Stores (fun c => c ∈ old ∨ c ∈ fs.spare (fs.volume d) old needed) d d' := by
  have hlen : old.length < loopLimit := Nat.lt_of_le_of_lt (length_le_clusters h) hg.clusters_lt
  by_cases hle : needed ≤ old.length
  · have hroom : fs.Room (fs.volume d) old needed := by rw [Room]; omega
    have hsub : needed - 1 + 1 = needed := by omega
    have hrun := within_resizeLoop_shrink (S := fun c => c ∈ old ∨ c ∈ fs.spare (fs.volume d) old needed)
      (C := fun _ => True) hg first hn old first loopLimit 1 (fun c hc => Or.inl hc) h h1 (by omega)
      (Nat.le_of_lt hlen) (Nat.le_of_lt hlen) (fun _ => trivial) trivial
    rw [hsub] at hrun
    obtain ⟨_, hstores, _, hv⟩ := hrun d rfl
    rw [if_pos hroom, if_pos hroom, fitted_of_le hle]
    exact ⟨_, hrun.run_eq rfl, hv, hstores⟩
  · have hiff : needed - old.length ≤ (fs.freeList (fs.volume d)).length ↔ fs.Room (fs.volume d) old needed := by
      rw [Room]
      omega
    have hrun := within_resizeLoop_grow (C := fun _ => True) hg first hn old first loopLimit 1 (needed - old.length)
      (fun c hc => Or.inl hc) (fun c hc => Or.inr hc) h (by omega) (by omega) (Nat.le_of_lt hlen) (fun _ _ => trivial)
      fun _ => trivial
    simp only [hiff] at hrun
    obtain ⟨_, hstores, _, hv⟩ := hrun d rfl
    rw [fitted_of_lt (by omega) h.chain.ne_nil]
    exact ⟨_, hrun.run_eq rfl, hv, hstores⟩

/-- The chain keeps its first clusters; those cut off are free, and those behind the old chain were. Without enough free
clusters the call fails and the old chain stays. -/
theorem resizeChain_exact (hg : fs.NoOverflow) (d : Disk) {first needed : UInt32}
    (h : fs.ChainAt (fs.volume d) first.toNat old) (h1 : 1 ≤ needed.toNat) :
    ∃ d', (fs.resizeChain first.toNat needed.toNat).run d =
        (if needed.toNat - old.length ≤ (fs.freeList (fs.volume d)).length then .ok first.toNat
          else .error (.err .noSpace), d') ∧
      (needed.toNat - old.length ≤ (fs.freeList (fs.volume d)).length →
        (fs.fittedChain (fs.volume d) old needed.toNat).length = needed.toNat ∧
        (fs.ChainAt (fs.volume d') first.toNat (fs.fittedChain (fs.volume d) old needed.toNat) ↔
          ∀ c ∈ fs.spare (fs.volume d) old needed.toNat, c < endOfChain) ∧
        (∀ c ∈ old.drop needed.toNat, (fs.volume d').fat c = 0) ∧
        fs.Stores (fun c => c ∈ old ∨ c ∈ fs.spare (fs.volume d) old needed.toNat) d d') ∧
      ((fs.freeList (fs.volume d)).length < needed.toNat - old.length → fs.ChainAt (fs.volume d') first.toNat old) := by
  obtain ⟨d', hrun, hv, hstores⟩ := run_resizeChain hg d h h1 needed.toNat_lt
  have hiff : needed.toNat - old.length ≤ (fs.freeList (fs.volume d)).length ↔
      fs.Room (fs.volume d) old needed.toNat := by
    rw [Room]
    omega
  refine ⟨d', ?_, fun hle => ?_, fun hlt => ?_⟩
  · simp only [hiff]
    exact hrun
  · have hroom := hiff.mp hle
    rw [if_pos hroom] at hv
    refine ⟨hroom.length_fittedChain, ?_, fun c hc => ?_, hstores⟩
    · rw [hv]
      exact chainAt_fitted_iff h h1 hroom
    · have hdis := List.disjoint_take_drop h.chain.nodup (Nat.le_refl needed.toNat)
      have hold := List.mem_of_mem_drop hc
      rw [hv]
      refine fitted_fat_zero h1 (fun c hc => h.fat_ne_zero hc) h.chain.nodup (Or.inl hold) fun hm => ?_
      rcases List.mem_append.mp hm with hm | hm
      · exact hdis hm hc
      · exact h.fat_ne_zero hold (mem_freeList.mp (mem_spare hm)).2
  · have hroom : ¬ fs.Room (fs.volume d) old needed.toNat := fun hr => by have := hiff.mpr hr; omega
    rw [hv, if_neg hroom]
    refine h.congr fun c hc => (agreeOff_allocated fs _ c fun hs => ?_).1
    exact h.fat_ne_zero hc (mem_freeList.mp (mem_spare hs)).2

theorem chainAt_smallCard : smallFs.ChainAt (smallFs.volume smallCard) 3 [3, 4] := by
  obtain ⟨_, _, _, ⟨_, hnil⟩ | hchain, _⟩ := wellFormed_small
  · cases hnil
  · rw [volume_smallCard]
    rwa [← hchain.uncons.1] at hchain

/-- The file of two clusters is cut to one. -/
theorem resizeChain_exact_small :
    ∃ d', (smallFs.resizeChain 3 1).run smallCard = (.ok 3, d') ∧ smallFs.ChainAt (smallFs.volume d') 3 [3] ∧
      (smallFs.volume d').fat 4 = 0 ∧ smallFs.Stores (fun c => c ∈ [3, 4] ∨ c ∈ []) smallCard d' := by
  have hneeded : 1 ≤ (1 : UInt32).toNat := by decide
  have hchain : smallFs.ChainAt (smallFs.volume smallCard) (3 : UInt32).toNat [3, 4] := chainAt_smallCard
  obtain ⟨d', hrun, h, _⟩ := resizeChain_exact geometry_smallFs.noOverflow smallCard hchain hneeded
  have hroom : (1 : UInt32).toNat - [3, 4].length ≤ (smallFs.freeList (smallFs.volume smallCard)).length :=
    Nat.zero_le _
  obtain ⟨_, hiff, hfat, hstores⟩ := h hroom
  have hspare : smallFs.spare (smallFs.volume smallCard) [3, 4] (1 : UInt32).toNat = [] := List.take_zero
  rw [fittedChain_of_le (by decide), hspare] at hiff
  rw [hspare] at hstores
  rw [if_pos hroom] at hrun
  exact ⟨d', hrun, hiff.mpr (by simp), hfat 4 (by decide), hstores⟩

theorem chainAt_hugeCard : hugeFs.ChainAt (hugeFs.volume hugeCard) 4 [4] := by
  obtain ⟨_, _, _, ⟨_, hnil⟩ | hchain, _⟩ := wellFormed_huge
  · cases hnil
  · rw [volume_hugeCard]
    rwa [← hchain.uncons.1] at hchain

/-- The file of one cluster gets a second one, and its link leads to cluster 1. -/
theorem resizeChain_hugeCard :
    hugeFs.NoOverflow ∧ hugeFs.ChainAt (hugeFs.volume hugeCard) 4 [4] ∧
      hugeFs.freeList (hugeFs.volume hugeCard) = [2 ^ 28 + 1, 2 ^ 28 + 2] ∧
      ∃ d', (hugeFs.resizeChain 4 2).run hugeCard = (.ok 4, d') ∧ ∀ l, ¬ hugeFs.ChainAt (hugeFs.volume d') 4 l := by
  have h1 : 1 ≤ 2 := by decide
  obtain ⟨d', hrun, hv, _⟩ := run_resizeChain geometry_hugeFs.noOverflow hugeCard chainAt_hugeCard h1 (by decide)
  have hroom : hugeFs.Room (hugeFs.volume hugeCard) [4] 2 := by
    rw [Room, freeList_hugeCard]
    decide
  have hfat : (hugeFs.volume d').fat 4 = 1 := by
    rw [hv, if_pos hroom, fitted_of_lt (by decide) (by simp), spare, freeList_hugeCard]
    exact Volume.setFat_fat_self _ _
  rw [if_pos hroom] at hrun
  refine ⟨geometry_hugeFs.noOverflow, chainAt_hugeCard, freeList_hugeCard, d', hrun, fun l h => ?_⟩
  obtain ⟨c, cs, rfl⟩ := List.exists_cons_of_ne_nil h.chain.ne_nil
  obtain ⟨rfl, _, ⟨_, hend⟩ | ⟨_, hrest⟩⟩ := h.uncons
  · rw [hfat] at hend
    exact absurd hend (by decide)
  · rw [hfat] at hrest
    exact absurd (hrest.inRange 1 hrest.chain.head_mem).1 (by decide)

end Fat32

end Ferro
