import Ferro.Base.Drain
import Ferro.Fat32.Lemmas.Walks
import Ferro.Fat32.Theorems

/-!
# Freeing on any FAT

`free_chain_from` follows the links that it finds, and clears the entry of each cluster that it leaves. On any card a
cleared entry is one link less, so the loop ends. Where the links are in range, it frees the clusters of the walk along
the links as they were at first.
-/

namespace Ferro

namespace Fat32

variable {fs : Fat32} {d d' d'' : Disk} {c : Nat}

/-- The cluster that the loop of `free_chain_from` goes on with, if any. -/
def freeNext (x : Nat) : Option Nat := if 2 ≤ x ∧ x < endOfChain then some x else none

theorem freeNext_eq_some {x y : Nat} : freeNext x = some y ↔ x = y ∧ 2 ≤ y ∧ y < endOfChain := by
  rw [freeNext, Option.ite_none_right_eq_some, Option.some_inj]
  constructor
  · rintro ⟨h, rfl⟩
    exact ⟨rfl, h⟩
  · rintro ⟨rfl, h⟩
    exact ⟨h, rfl⟩

/-! ## An entry is cleared, wherever on the card it is -/

/-- No link is set: each one is as before, or is zero. -/
def Clears (fs : Fat32) (d d' : Disk) : Prop := ∀ b, fs.fatAt d' b = 0 ∨ fs.fatAt d' b = fs.fatAt d b

theorem Clears.trans (h : fs.Clears d d') (h' : fs.Clears d' d'') : fs.Clears d d'' := by
  intro b
  rcases h' b with he | he
  · exact Or.inl he
  · rw [he]
    exact h b

theorem Clears.zero (h : fs.Clears d d') (hc : fs.fatAt d c = 0) : fs.fatAt d' c = 0 :=
  (h c).elim id fun he => he.trans hc

/-- The byte offset of an entry in its block. -/
theorem entryOffset (c : Nat) : ∃ i < 128, wrap32 (c * 4) % sectorSize = i * 4 := by
  refine ⟨c % 128, Nat.mod_lt _ (by decide), ?_⟩
  simp only [wrap32, sectorSize]
  omega

theorem fatAt_update (b lba off : Nat) (hoff : ∃ i < 128, off = i * 4) :
    fs.fatAt (Function.update d lba (putFat off 0 (d lba))) b = 0 ∨
      fs.fatAt (Function.update d lba (putFat off 0 (d lba))) b = fs.fatAt d b := by
  obtain ⟨i, hi, rfl⟩ := hoff
  obtain ⟨j, hj, hb⟩ := entryOffset b
  simp only [fatAt, hb]
  generalize wrap32 (fs.partitionStartLba.toNat + fs.reservedSectors.toNat + wrap32 (b * 4) / sectorSize) = addr
  by_cases haddr : addr = lba
  · subst haddr
    rw [Function.update_self]
    by_cases hij : j = i
    · subst hij
      left
      rw [leNat_putFat (by omega), and_low28]
      omega
    · right
      rw [slice_putFat (by omega) (by omega)]
  · right
    rw [Function.update_of_ne haddr]

theorem fatAt_update_self (lba : Nat) (hlba : lba = wrap32 (fs.partitionStartLba.toNat + fs.reservedSectors.toNat +
    wrap32 (c * 4) / sectorSize)) :
    fs.fatAt (Function.update d lba (putFat (wrap32 (c * 4) % sectorSize) 0 (d lba))) c = 0 := by
  subst hlba
  obtain ⟨i, hi, hoff⟩ := entryOffset c
  rw [fatAt, Function.update_self, hoff, leNat_putFat (by omega), and_low28]
  omega

theorem run_clearCopy (fs : Fat32) (d : Disk) (c k : Nat) :
    ∃ d', (fs.setFatCopy c 0 k).run d = (.ok (), d') ∧ fs.Clears d d' ∧ (k = 0 → fs.fatAt d' c = 0) := by
  refine ⟨_, rfl, fun b => fatAt_update b _ _ (entryOffset c), ?_⟩
  rintro rfl
  refine fatAt_update_self _ ?_
  rw [Nat.zero_mul, Nat.add_zero]

theorem run_clearCopies (fs : Fat32) (c n : Nat) (d : Disk) (k : Nat) :
    ∃ d', (Prog.forRange (fs.setFatCopy c 0) k n).run d = (.ok (), d') ∧ fs.Clears d d' ∧
      (k = 0 → 1 ≤ n → fs.fatAt d' c = 0) := by
  induction n generalizing d k with
  | zero => exact ⟨d, rfl, fun _ => Or.inr rfl, fun _ h => by omega⟩
  | succ n ih =>
      obtain ⟨d₁, hrun, hclears, hzero⟩ := fs.run_clearCopy d c k
      obtain ⟨d₂, hrest, hclears', _⟩ := ih d₁ (k + 1)
      exact ⟨d₂, (Prog.run_bind_ok hrun).trans hrest, hclears.trans hclears', fun hk _ => hclears'.zero (hzero hk)⟩

theorem run_clearEntry (hpos : 1 ≤ fs.numFats.toNat) (d : Disk) (c : Nat) :
    (fs.setFatEntry c 0).run d = (.ok (), ((fs.setFatEntry c 0).run d).2) ∧
      fs.Clears d ((fs.setFatEntry c 0).run d).2 ∧ fs.fatAt ((fs.setFatEntry c 0).run d).2 c = 0 := by
  obtain ⟨d', hrun, hclears, hzero⟩ := run_clearCopies fs c fs.numFats.toNat d 0
  rw [setFatEntry, hrun]
  exact ⟨rfl, hclears, hzero rfl hpos⟩

/-! ## The loop -/

/-- The loop of `free_chain_from` on the links of a card. -/
def drain (fs : Fat32) (hpos : 1 ≤ fs.numFats.toNat) : Drain Disk Nat where
  link d c := freeNext (fs.fatAt d c)
  clear d c := ((fs.setFatEntry c 0).run d).2
  link_clear_self d c := by rw [(run_clearEntry hpos d c).2.2]; rfl
  link_clear d c b := ((run_clearEntry hpos d c).2.1 b).imp (fun h => by rw [h]; rfl) fun h => by rw [h]

variable {hpos : 1 ≤ fs.numFats.toNat}

theorem run_freeLoop {fuel : Nat} (h : (fs.drain hpos).run fuel d (freeNext c) = some d') :
    (fs.freeLoop fuel c).run d = (.ok (), d') := by
  induction fuel generalizing d c with
  | zero => cases h
  | succ fuel ih =>
      rw [freeLoop]
      by_cases hc : 2 ≤ c ∧ c < endOfChain
      · rw [freeNext, if_pos hc] at h
        rw [if_pos hc, Prog.run_bind_ok (fs.run_fatEntry d c), Prog.run_bind_ok (run_clearEntry hpos d c).1]
        exact ih h
      · rw [freeNext, if_neg hc] at h
        cases h
        rw [if_neg hc]
        rfl

theorem freeNext_lt {x y : Nat} (h : freeNext x = some y) : y ∈ Finset.range endOfChain :=
  Finset.mem_range.mpr (freeNext_eq_some.mp h).2.2

/-- Each link leads below `END_OF_CHAIN`, so the loop ends well within `loopLimit`. -/
theorem run_freeChainFrom (hpos : 1 ≤ fs.numFats.toNat) (d : Disk) (c : Nat) :
    ∃ d', (fs.drain hpos).run loopLimit d (freeNext c) = some d' ∧ (fs.freeChainFrom c).run d = (.ok (), d') := by
  have hfuel : (Finset.range endOfChain).card + 2 ≤ loopLimit := by
    rw [Finset.card_range]
    decide
  have hsome : ((fs.drain hpos).run loopLimit d (freeNext c)).isSome :=
    Drain.isSome_run_of_card (fun _ _ _ h => freeNext_lt h) hfuel fun _ h => freeNext_lt h
  obtain ⟨d', h⟩ := Option.isSome_iff_exists.mp hsome
  exact ⟨d', h, run_freeLoop h⟩

/-! ## Where the links are in range -/

theorem drain_clear_eq (hg : fs.NoOverflow) (d : Disk) (hc : c < fs.clusters) :
    (fs.drain hpos).clear d c = fs.setCopies d c 0 fs.numFats.toNat :=
  congrArg Prod.snd (run_setFatEntry hg d hc 0).1

theorem volume_drain_clear (hg : fs.NoOverflow) (d : Disk) (hc : c < fs.clusters) :
    fs.volume ((fs.drain hpos).clear d c) = (fs.volume d).setFat c 0 := by
  rw [drain_clear_eq hg d hc, volume_setCopies hc (Nat.le_refl _), if_neg (Nat.ne_of_gt hpos), Nat.zero_mod]

theorem separate_drain (hg : fs.NoOverflow) : (fs.drain hpos).Separate (· < fs.clusters) := by
  intro d c b hc hb hne
  have hlink : ∀ d, (fs.drain hpos).link d b = freeNext ((fs.volume d).fat b) := fun d =>
    congrArg freeNext (hg.fatAt_eq d hb)
  rw [hlink, hlink, volume_drain_clear hg d hc, Volume.setFat_fat_of_ne _ hne]

theorem foldl_clear (hpos : 1 ≤ fs.numFats.toNat) (hg : fs.NoOverflow) {S : Nat → Prop} {m : List Nat}
    (hm : ∀ c ∈ m, S c ∧ c < fs.clusters) (d : Disk) : fs.Stores S d (m.foldl (fs.drain hpos).clear d) ∧
      fs.volume (m.foldl (fs.drain hpos).clear d) = freeAll (fs.volume d) m := by
  induction m generalizing d with
  | nil => exact ⟨Stores.refl d, rfl⟩
  | cons c m ih =>
      obtain ⟨hS, hc⟩ := hm c List.mem_cons_self
      obtain ⟨hstores, hv⟩ := ih (fun x hx => hm x (List.mem_cons_of_mem _ hx)) ((fs.drain hpos).clear d c)
      have hfirst : fs.Stores S d ((fs.drain hpos).clear d c) := by
        rw [drain_clear_eq hg d hc]
        exact stores_setCopies d hS hc
      refine ⟨hfirst.trans hstores, ?_⟩
      rw [List.foldl_cons, hv, volume_drain_clear hg d hc, freeAll]

/-- The clusters of `l` are freed: only their entries change, and no data does. -/
theorem run_freeChainFrom_tour (hg : fs.NoOverflow) (d : Disk) {l : List Nat}
    (t : Tour (fun a => freeNext ((fs.volume d).fat a)) [] (freeNext c) l) (hl : ∀ a ∈ l, a < fs.clusters) :
    ∃ d', (fs.freeChainFrom c).run d = (.ok (), d') ∧ (∀ a ∈ l, (fs.volume d').fat a = 0) ∧
      (fs.volume d').data = (fs.volume d).data ∧ fs.Stores (· ∈ l) d d' := by
  obtain ⟨d', hrun, hprog⟩ := run_freeChainFrom hg.fats_pos d c
  have t' : Tour ((fs.drain hg.fats_pos).link d) [] (freeNext c) l :=
    t.congr fun a ha => congrArg freeNext (hg.fatAt_eq d (hl a ha))
  obtain ⟨m, rfl, hlm, hml⟩ := (separate_drain hg).exists_foldl t' hrun ⟨by simp, fun _ _ _ => rfl⟩ hl
  have hm : ∀ a ∈ m, a ∈ l ∧ a < fs.clusters := by
    intro a ha
    have hal := (hml a ha).resolve_left List.not_mem_nil
    exact ⟨hal, hl a hal⟩
  obtain ⟨hstores, hv⟩ := foldl_clear hg.fats_pos hg hm d
  refine ⟨_, hprog, fun a ha => ?_, ?_, hstores⟩
  · rw [hv]
    exact freeAll_fat (hlm a ha)
  · rw [hv, freeAll_data]

/-- The call always returns, unless a block operation fails. The walk along the links, up to one below 2, an
end-of-chain mark or one that leads back, is finite; if it stays in the FAT, its clusters are freed and nothing else
changes. -/
theorem freeChainFrom_exact (hg : fs.NoOverflow) (d : Disk) (cluster : UInt32) :
    (∀ (faults : Nat → Option SdError) (i : Nat),
      ((fs.freeChainFrom cluster.toNat).runFaults (fun j => (faults j).map fun e => .err (.sd e)) i d).1 = .ok () ∨
      ∃ e, ((fs.freeChainFrom cluster.toNat).runFaults (fun j => (faults j).map fun e => .err (.sd e)) i d).1 =
        .error (.err (.sd e))) ∧
      (∃! l, Tour (fun a => freeNext ((fs.volume d).fat a)) [] (freeNext cluster.toNat) l) ∧
      ∃ d', (fs.freeChainFrom cluster.toNat).run d = (.ok (), d') ∧
        ∀ l, Tour (fun a => freeNext ((fs.volume d).fat a)) [] (freeNext cluster.toNat) l → (∀ a ∈ l, a < fs.clusters) →
          (∀ a ∈ l, (fs.volume d').fat a = 0) ∧ (fs.volume d').data = (fs.volume d).data ∧
            fs.Stores (· ∈ l) d d' := by
  obtain ⟨d', _, hrun⟩ := run_freeChainFrom hg.fats_pos d cluster.toNat
  refine ⟨fun faults i => ?_, ?_, d', hrun, fun l t hl => ?_⟩
  · rcases Prog.runFaults_fst _ (fs.freeChainFrom cluster.toNat) i d with h | ⟨j, e, hf, h⟩
    · exact Or.inl (h.trans (by rw [hrun]))
    · obtain ⟨e, _, rfl⟩ := Option.map_eq_some_iff.mp hf
      exact Or.inr ⟨e, h⟩
  · have hfinite : ∃ l, Tour (fun a => freeNext ((fs.volume d).fat a)) [] (freeNext cluster.toNat) l :=
      Tour.exists_of_finite (fun _ _ h => freeNext_lt h) fun _ h => freeNext_lt h
    obtain ⟨l, t⟩ := hfinite
    exact ⟨l, t, fun l' t' => t'.unique t⟩
  · obtain ⟨d'', hrun', h⟩ := run_freeChainFrom_tour hg d t hl
    rw [hrun] at hrun'
    cases hrun'
    exact h

/-- The file's second cluster leads back to its first. -/
def cyclicVolume : Volume := smallVolume.setFat 4 3

theorem volume_cyclic : smallFs.volume (smallFs.card cyclicVolume) = cyclicVolume :=
  volume_card geometry_smallFs
    ((holds_single geometry_smallFs (by decide) (by decide)).setFat (by decide) (by decide))

theorem tour_cyclic : Tour (fun a => freeNext (cyclicVolume.fat a)) [] (freeNext 3) [3, 4] := by
  have h3 : cyclicVolume.fat 3 = 4 := by decide
  have h4 : cyclicVolume.fat 4 = 3 := by decide
  refine .visit (by decide) ?_
  rw [h3]
  refine .visit (by decide) ?_
  rw [h4]
  exact .back (by decide)

/-- Freeing the cycle ends, and frees both clusters. -/
theorem freeChainFrom_exact_cyclic :
    ∃ d', (smallFs.freeChainFrom 3).run (smallFs.card cyclicVolume) = (.ok (), d') ∧
      (∀ a ∈ [3, 4], (smallFs.volume d').fat a = 0) ∧ (smallFs.volume d').data = cyclicVolume.data ∧
      smallFs.Stores (· ∈ [3, 4]) (smallFs.card cyclicVolume) d' := by
  obtain ⟨_, _, d', hrun, h⟩ := freeChainFrom_exact geometry_smallFs.noOverflow (smallFs.card cyclicVolume) 3
  rw [volume_cyclic] at h
  exact ⟨d', hrun, h [3, 4] tour_cyclic (by decide)⟩

end Fat32

end Ferro
