import Ferro.Block.Model
import Ferro.Boot.Handles

/-!
# Blocks that are transferred

A transfer reaches the block it was given as long as the argument of no command wraps around. Nothing compares a request
with the last block that the media reports.
-/

namespace Ferro

namespace Card

variable (card : Card)

/-- The number of blocks that an argument can be about. -/
def reach : Nat := if card.blockAddressed then 2 ^ 32 else 2 ^ 23

/-- The block that the command for sector `i` of a request is about. -/
def target (lba : UInt64) (i : Nat) : Nat := card.blockAt (card.address (lba.toUInt32 + .ofNat i))

theorem reach_pos : 0 < card.reach := by
  unfold reach
  split <;> decide

theorem toNat_step (lba : UInt64) (i : Nat) : (lba.toUInt32 + UInt32.ofNat i).toNat = (lba.toNat + i) % 2 ^ 32 := by
  rw [UInt32.toNat_add, UInt64.toNat_toUInt32, UInt32.toNat_ofNat', ← Nat.add_mod]

/-- Every command is about a block of the card, whichever request it belongs to. -/
theorem target_eq (lba : UInt64) (i : Nat) : card.target lba i = (lba.toNat + i) % card.reach := by
  unfold target blockAt address reach
  split
  · exact toNat_step lba i
  · have hscale : (512 : UInt32).toNat = 512 := rfl
    rw [UInt32.toNat_mul, toNat_step, hscale]
    omega

theorem target_of_le {lba : UInt64} {i n : Nat} (hi : i < n) (h : lba.toNat + n ≤ card.reach) :
    card.target lba i = lba.toNat + i := by
  rw [target_eq, Nat.mod_eq_of_lt (by omega)]

end Card

namespace Block

variable {card : Card} {faults : Faults} {lba : UInt64} {data out out' : Ptr8} {m m' : Medium} {n i : Nat}

/-! ## The loops -/

theorem readLoop_succ (hf : faults i = none) : readLoop card faults lba (n + 1) i m out =
    readLoop card faults lba n (i + 1) { m with commands := m.commands + 1 }
      (putSector out i (m.content (card.target lba i))) := by
  simp only [readLoop, Card.readBlock, hf]
  rfl

theorem writeLoop_succ (hf : faults i = none) : writeLoop card faults lba data (n + 1) i m =
    writeLoop card faults lba data n (i + 1)
      ⟨Function.update m.content (card.target lba i) (sectorAt data i), m.commands + 1⟩ := by
  simp only [writeLoop, Card.writeBlock, hf]
  rfl

/-- A loop that succeeds met no fault. -/
theorem readLoop_fault (h : readLoop card faults lba (n + 1) i m out = (.success, out', m')) : faults i = none := by
  cases hf : faults i with
  | none => rfl
  | some e =>
      simp only [readLoop, Card.readBlock, hf] at h
      cases h

theorem writeLoop_fault (h : writeLoop card faults lba data (n + 1) i m = (.success, m')) : faults i = none := by
  cases hf : faults i with
  | none => rfl
  | some e =>
      simp only [writeLoop, Card.writeBlock, hf] at h
      cases h

theorem sectorAt_putSector_self (out : Ptr8) (i : Nat) (sector : Sector) :
    sectorAt (putSector out i sector) i = sector := by
  apply Arr.ext_nth
  intro j hj
  have hin : i * sectorSize ≤ i * sectorSize + j ∧ i * sectorSize + j < (i + 1) * sectorSize := by
    simp only [sectorSize]
    omega
  rw [Arr.nth, dif_pos hj, sectorAt]
  dsimp only
  rw [putSector, if_pos hin, Nat.add_sub_cancel_left]

theorem sectorAt_putSector_of_ne {k : Nat} (out : Ptr8) (sector : Sector) (hk : k ≠ i) :
    sectorAt (putSector out i sector) k = sectorAt out k := by
  unfold sectorAt
  congr 1
  funext j
  refine if_neg ?_
  have hj := j.isLt
  simp only [sectorSize]
  omega

/-- What the read loop leaves in the buffer: the blocks of its commands. -/
theorem readLoop_sectors (h : readLoop card faults lba n i m out = (.success, out', m')) (k : Nat) :
    sectorAt out' k = if i ≤ k ∧ k < i + n then m.content (card.target lba k) else sectorAt out k := by
  induction n generalizing i m out with
  | zero =>
      cases h
      rw [if_neg (by omega)]
  | succ n ih =>
      have hf := readLoop_fault h
      rw [readLoop_succ hf] at h
      rw [ih h]
      by_cases hk : k = i
      · subst hk
        rw [if_neg (by omega), if_pos (by omega), sectorAt_putSector_self]
      · rw [sectorAt_putSector_of_ne _ _ hk]
        by_cases hin : i + 1 ≤ k ∧ k < i + 1 + n
        · rw [if_pos hin, if_pos (by omega)]
        · rw [if_neg hin, if_neg (by omega)]

/-- What the write loop leaves on the card, if no command is about another block than its own. -/
theorem writeLoop_content (h : writeLoop card faults lba data n i m = (.success, m'))
    (hreach : lba.toNat + (i + n) ≤ card.reach) (s : Nat) : m'.content s =
      if lba.toNat + i ≤ s ∧ s < lba.toNat + (i + n) then sectorAt data (s - lba.toNat) else m.content s := by
  induction n generalizing i m with
  | zero =>
      cases h
      rw [if_neg (by omega)]
  | succ n ih =>
      have hf := writeLoop_fault h
      have htarget : card.target lba i = lba.toNat + i := card.target_of_le (n := i + 1) (by omega) (by omega)
      rw [writeLoop_succ hf, htarget] at h
      rw [ih h (by omega)]
      by_cases hs : s = lba.toNat + i
      · subst hs
        rw [if_neg (by omega), if_pos (by omega), Nat.add_sub_cancel_left]
        exact Function.update_self _ _ _
      · have hother : Function.update m.content (lba.toNat + i) (sectorAt data i) s = m.content s :=
          Function.update_of_ne hs _ _
        dsimp only
        rw [hother]
        by_cases hin : lba.toNat + (i + 1) ≤ s ∧ s < lba.toNat + (i + 1 + n)
        · rw [if_pos hin, if_pos (by omega)]
        · rw [if_neg hin, if_neg (by omega)]

/-- With working commands the read loop succeeds, whatever it is asked for. -/
theorem readLoop_ok (card : Card) (lba : UInt64) (n i : Nat) (m : Medium) (out : Ptr8) :
    ∃ out' m', readLoop card (fun _ => none) lba n i m out = (.success, out', m') := by
  induction n generalizing i m out with
  | zero => exact ⟨_, _, rfl⟩
  | succ n ih =>
      rw [readLoop_succ rfl]
      exact ih _ _ _

/-! ## Requests -/

/-- A request for `n` blocks at `lba` is about these blocks, and is refused if they are not all on the media. -/
structure Exact (card : Card) (lba : UInt64) (n : Nat) : Prop where
  writes (faults : Faults) (m m' : Medium) (data : Ptr8)
    (h : blockWrite (some card) faults m lba (.ofNat (n * sectorSize)) (some data) = (.success, m')) (s : Nat) :
    m'.content s = if lba.toNat ≤ s ∧ s < lba.toNat + n then sectorAt data (s - lba.toNat) else m.content s
  reads (faults : Faults) (m m' : Medium) (out : Ptr8) (buffer : Option Ptr8)
    (h : blockRead (some card) faults m lba (.ofNat (n * sectorSize)) (some out) = (.success, buffer, m')) :
    ∃ out', buffer = some out' ∧ ∀ i < n, sectorAt out' i = m.content (lba.toNat + i)
  refuses (hn : 0 < n) (hbeyond : lastBlock.toNat < lba.toNat + n - 1) (faults : Faults) (m : Medium) (buffer : Ptr8) :
    (∃ st, st.IsError ∧
      blockWrite (some card) faults m lba (.ofNat (n * sectorSize)) (some buffer) = (st, m)) ∧
    ∃ st, st.IsError ∧
      blockRead (some card) faults m lba (.ofNat (n * sectorSize)) (some buffer) = (st, some buffer, m)

theorem toNat_size (hn : n * sectorSize < 2 ^ 64) : (UInt64.ofNat (n * sectorSize)).toNat = n * sectorSize :=
  UInt64.toNat_ofNat_of_lt hn

theorem blockWrite_eq (hn : n * sectorSize < 2 ^ 64) :
    blockWrite (some card) faults m lba (.ofNat (n * sectorSize)) (some data) =
      writeLoop card faults lba data n 0 m := by
  have hmod : ¬ n * sectorSize % sectorSize ≠ 0 := not_not.mpr (Nat.mul_mod_left n sectorSize)
  simp only [blockWrite, toNat_size hn, if_neg hmod, Nat.mul_div_cancel n (show 0 < sectorSize by decide)]

theorem blockRead_eq (hn : n * sectorSize < 2 ^ 64) :
    blockRead (some card) faults m lba (.ofNat (n * sectorSize)) (some out) =
      let r := readLoop card faults lba n 0 m out
      (r.1, some r.2.1, r.2.2) := by
  have hmod : ¬ n * sectorSize % sectorSize ≠ 0 := not_not.mpr (Nat.mul_mod_left n sectorSize)
  simp only [blockRead, toNat_size hn, if_neg hmod, Nat.mul_div_cancel n (show 0 < sectorSize by decide)]

theorem Exact.of_le (hn : n * sectorSize < 2 ^ 64)
    (h : n = 0 ∨ lba.toNat + n ≤ lastBlock.toNat + 1 ∧ lba.toNat + n ≤ card.reach) : Exact card lba n := by
  constructor
  · intro faults m m' data hw s
    rw [blockWrite_eq hn] at hw
    rcases h with rfl | ⟨_, hreach⟩
    · cases hw
      rw [if_neg (by omega)]
    · have hc := writeLoop_content hw (by rwa [Nat.zero_add]) s
      rwa [Nat.add_zero, Nat.zero_add] at hc
  · intro faults m m' out buffer hr
    rw [blockRead_eq hn] at hr
    cases hloop : readLoop card faults lba n 0 m out with
    | mk st r =>
        obtain ⟨out', m''⟩ := r
        rw [hloop] at hr
        cases hr
        refine ⟨out', rfl, fun i hi => ?_⟩
        rw [readLoop_sectors hloop, if_pos (by omega)]
        rcases h with rfl | ⟨_, hreach⟩
        · omega
        · rw [card.target_of_le hi hreach]
  · intro hpos hbeyond
    omega

/-- A card on which one block differs from the others. -/
def marked (t : Nat) : Medium := ⟨fun s => if s = t then .fill 1 else .fill 0, 0⟩

theorem Exact.le_reach (hn : n * sectorSize < 2 ^ 64) (hpos : 0 < n) (h : Exact card lba n) :
    lba.toNat + n ≤ card.reach := by
  by_contra hlt
  -- the last sector of the request comes from another block
  let t := card.target lba (n - 1)
  have hne : lba.toNat + (n - 1) ≠ t := by
    have ht : t < card.reach := by
      rw [show t = (lba.toNat + (n - 1)) % card.reach from card.target_eq lba (n - 1)]
      exact Nat.mod_lt _ card.reach_pos
    omega
  obtain ⟨out', m', hloop⟩ := readLoop_ok card lba n 0 (marked t) (fun _ => 0)
  have hsectors := readLoop_sectors hloop (n - 1)
  rw [if_pos (by omega)] at hsectors
  obtain ⟨out'', hout, hreads⟩ := h.reads (fun _ => none) (marked t) m' (fun _ => 0) (some out')
    (by rw [blockRead_eq hn, hloop])
  cases hout
  have hread := hreads (n - 1) (by omega)
  rw [hsectors, marked] at hread
  simp only [if_neg hne] at hread
  rw [if_pos rfl] at hread
  exact absurd (congrArg (fun b : Sector => b.nth 0) hread) (by decide)

theorem Exact.le_lastBlock (hn : n * sectorSize < 2 ^ 64) (hpos : 0 < n) (h : Exact card lba n) :
    lba.toNat + n ≤ lastBlock.toNat + 1 := by
  by_contra hlt
  obtain ⟨out', m', hloop⟩ := readLoop_ok card lba n 0 (marked 0) (fun _ => 0)
  obtain ⟨_, st, herr, hread⟩ := h.refuses hpos (by omega) (fun _ => none) (marked 0) (fun _ => 0)
  rw [blockRead_eq hn, hloop] at hread
  cases hread
  exact herr

/-- For every request, block I/O is exact if and only if the request is empty, or ends on the media that is reported and
within the blocks that the card's arguments can be about. -/
theorem exact_iff (hn : n * sectorSize < 2 ^ 64) : Exact card lba n ↔
    n = 0 ∨ lba.toNat + n ≤ lastBlock.toNat + 1 ∧ lba.toNat + n ≤ card.reach := by
  constructor
  · intro h
    rcases Nat.eq_zero_or_pos n with hzero | hpos
    · exact .inl hzero
    · exact .inr ⟨h.le_lastBlock hn hpos, h.le_reach hn hpos⟩
  · exact Exact.of_le hn

theorem exact_partitionTable : Exact ⟨false⟩ 0 1 := (exact_iff (by decide)).mpr (.inr ⟨by decide, by decide⟩)

/-- A write to block `2 ^ 32` succeeds, and is to the partition table. -/
theorem not_exact_alias :
    blockWrite (some ⟨true⟩) (fun _ => none) (marked 0) 0x100000000 512 (some fun _ => 2) =
      (.success, ⟨Function.update (marked 0).content 0 (.fill 2), 1⟩) ∧
    ¬ Exact ⟨true⟩ 0x100000000 1 := by
  have hwrite : blockWrite (some ⟨true⟩) (fun _ => none) (marked 0) 0x100000000 512 (some fun _ => 2) =
      (.success, ⟨Function.update (marked 0).content 0 (.fill 2), 1⟩) := rfl
  refine ⟨hwrite, fun h => ?_⟩
  have hsame := h.writes _ _ _ _ hwrite 0
  rw [if_neg (by decide)] at hsame
  exact absurd (congrArg (fun b : Sector => b.nth 0) hsame) (by decide)

end Block

end Ferro
