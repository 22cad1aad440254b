import Ferro.Boot.Lemmas.Image

/-!
# Base relocations

The relocation table of an image as it was linked, and what `apply_relocations` makes of an image in memory whose
table is tiled by blocks: it adds `delta` to the word at each target, and nothing else changes. The table is read out
of the memory that is being patched; no target meets it, so that it is read as it was linked.
-/

namespace Ferro

namespace Pe

variable {L f : Nat → UInt8} {m : Mem} {base delta : UInt64} {N start stop p page t : Nat} {done ts rest : List Nat}

/-! ## The table -/

/-- Entry number `i` of the block at `p`. -/
def entryAt (f : Nat → UInt8) (p i : Nat) : Nat := wordAt f (p + 8 + i * 2) 2

def blockSize (f : Nat → UInt8) (p : Nat) : Nat := wordAt f (p + 4) 4

/-- `IMAGE_REL_BASED_DIR64` entries have a target. -/
def target? (page entry : Nat) : Option Nat := if entry / 0x1000 = 10 then some (page + entry % 0x1000) else none

/-- The targets of the `n` entries from number `i` on. -/
def entryTargets (f : Nat → UInt8) (p page i n : Nat) : List Nat :=
  (List.range' i n).filterMap fun j => target? page (entryAt f p j)

/-- The entries of the block at `p`. -/
def entryCount (f : Nat → UInt8) (p : Nat) : Nat := (blockSize f p - 8) / 2

/-- The bytes from `p` to `stop` are blocks, whose entries are `IMAGE_REL_BASED_ABSOLUTE` or `IMAGE_REL_BASED_DIR64`
and have the targets `ts`. -/
inductive Tiled (f : Nat → UInt8) (stop : Nat) : (p : Nat) → (ts : List Nat) → Prop where
  | nil : Tiled f stop stop []
  | block {p : Nat} {ts : List Nat} (hsize : 8 ≤ blockSize f p) (hstop : p + blockSize f p ≤ stop)
      (hkind : ∀ i < entryCount f p, entryAt f p i / 0x1000 = 0 ∨ entryAt f p i / 0x1000 = 10)
      (h : Tiled f stop (p + blockSize f p) ts) :
      Tiled f stop p (entryTargets f p (wordAt f p 4) 0 (entryCount f p) ++ ts)

/-- The words at the targets lie in the image; they meet neither each other nor the table. -/
structure Targets (N start stop : Nat) (ts : List Nat) : Prop where
  inside : ∀ t ∈ ts, t + 8 ≤ N
  apart : ts.Pairwise fun t u => t + 8 ≤ u ∨ u + 8 ≤ t
  table : ∀ t ∈ ts, t + 8 ≤ start ∨ stop ≤ t

/-- The word at a target plus `delta`. -/
def fixup (delta : UInt64) (f : Nat → UInt8) (t : Nat) : Patch UInt8 := ⟨t, leBytes 8 (wordAt f t 8 + delta.toNat)⟩

theorem covers_fixup {r : Nat} : (fixup delta f t).Covers r ↔ t ≤ r ∧ r < t + 8 := by
  simp [Patch.Covers, fixup]

/-- The linked image with the words at the targets `done` patched. -/
def patched (delta : UInt64) (L : Nat → UInt8) (done : List Nat) : Nat → UInt8 :=
  Patch.applyAll L (done.map (fixup delta L))

theorem patched_append :
    patched delta L (done ++ ts) = Patch.applyAll (patched delta L done) (ts.map (fixup delta L)) := by
  rw [patched, List.map_append, Patch.applyAll_append, patched]

theorem patched_of_apart {r : Nat} (h : ∀ t ∈ done, ¬ (t ≤ r ∧ r < t + 8)) : patched delta L done r = L r := by
  apply Patch.applyAll_of_not_covers
  intro q hq
  obtain ⟨t, ht, rfl⟩ := List.mem_map.mp hq
  rw [covers_fixup]
  exact h t ht

theorem wordAt_patched {r len : Nat} (h : ∀ t ∈ done, t + 8 ≤ r ∨ r + len ≤ t) :
    wordAt (patched delta L done) r len = wordAt L r len := by
  apply wordAt_congr
  intro i hi
  apply patched_of_apart
  intro t ht
  have := h t ht
  omega

theorem wordAt_target (hts : Targets N start stop done) (ht : t ∈ done) :
    wordAt (patched delta L done) t 8 = (wordAt L t 8 + delta.toNat) % 2 ^ 64 := by
  refine wordAt_leBytes fun i hi => ?_
  have hpair : (done.map (fixup delta L)).Pairwise Patch.Apart := by
    rw [List.pairwise_map]
    refine hts.apart.imp fun h r hr hr' => ?_
    rw [covers_fixup] at hr hr'
    omega
  have hcov : (fixup delta L t).Covers (t + i) := covers_fixup.mpr (by omega)
  rw [patched, Patch.applyAll_of_mem hpair (List.mem_map_of_mem ht) hcov 0]
  simp [fixup]

/-! ## One entry -/

/-- The image at `base`, of `N` bytes, holds what `f` says. -/
def Holds (base : UInt64) (N : Nat) (m : Mem) (f : Nat → UInt8) : Prop := ∀ r < N, m.view base r = f r

theorem Holds.wordAt_eq (h : Holds base N m f) {r len : Nat} (hr : r + len ≤ N) :
    wordAt (m.view base) r len = wordAt f r len := by
  apply wordAt_congr
  intro i hi
  exact h _ (by omega)

theorem entryAddr_eq (base : UInt64) (p i : Nat) :
    base + .ofNat p + 8 + .ofNat (i * 2) = base + .ofNat (p + 8 + i * 2) := by
  simp only [UInt64.ofNat_add, ← UInt64.add_assoc]
  rfl

theorem targetAddr_eq (base : UInt64) (page off : Nat) :
    base + .ofNat page + .ofNat off = base + .ofNat (page + off) := by
  rw [UInt64.ofNat_add, UInt64.add_assoc]

theorem leBytes_mod (k n : Nat) : leBytes k (n % 256 ^ k) = leBytes k n := by
  have h := leBytes_leNat (leBytes k n)
  rwa [leNat_leBytes, length_leBytes] at h

theorem relocated_eq (m : Mem) (base delta : UInt64) (t : Nat) :
    leBytes 8 ((.ofNat (m.readLe (base + .ofNat t) 8) : UInt64) + delta).toNat = (fixup delta (m.view base) t).values := by
  have hlt : wordAt (m.view base) t 8 < 2 ^ 64 := wordAt_lt
  rw [Mem.readLe_view, UInt64.toNat_add, UInt64.toNat_ofNat', Nat.mod_eq_of_lt hlt, fixup]
  exact leBytes_mod 8 _

theorem Holds.patch (h : Holds base N m (patched delta L done)) (hN : N ≤ 2 ^ 64)
    (hts : Targets N start stop (done ++ [t])) :
    Holds base N (m.write (base + .ofNat t) (fixup delta (m.view base) t).values) (patched delta L (done ++ [t])) := by
  have ht : t + 8 ≤ N := hts.inside t (by simp)
  have hapart : ∀ u ∈ done, u + 8 ≤ t ∨ t + 8 ≤ u := fun u hu =>
    (List.pairwise_append.mp hts.apart).2.2 u hu t (List.mem_singleton_self t)
  have hword : wordAt (m.view base) t 8 = wordAt L t 8 := by rw [h.wordAt_eq ht, wordAt_patched hapart]
  have hfix : fixup delta (m.view base) t = fixup delta L t := by rw [fixup, hword, fixup]
  intro r hr
  have hlen : (fixup delta L t).values.length = 8 := length_leBytes _ _
  rw [hfix, Mem.view_write (by omega) (by omega), patched_append]
  exact Patch.apply_congr_at (h r hr)

/-! ## The entries of a block -/

theorem Holds.table (h : Holds base N m (patched delta L done)) (hts : Targets N start stop (done ++ ts)) (hstop : stop ≤ N)
    {r len : Nat} (hr : start ≤ r) (hr' : r + len ≤ stop) : m.readLe (base + .ofNat r) len = wordAt L r len := by
  rw [Mem.readLe_view, h.wordAt_eq (hr'.trans hstop)]
  apply wordAt_patched
  intro t ht
  have := hts.table t (List.mem_append_left _ ht)
  omega

theorem relocEntries_tiled {i n : Nat} (hN : N ≤ 2 ^ 64) (hp : start ≤ p) (hn : p + 8 + (i + n) * 2 ≤ stop) (hstop : stop ≤ N)
    (hkind : ∀ j, i ≤ j → j < i + n → entryAt L p j / 0x1000 = 0 ∨ entryAt L p j / 0x1000 = 10)
    (hts : Targets N start stop (done ++ (entryTargets L p page i n ++ rest)))
    (h : Holds base N m (patched delta L done)) :
    ∃ m', relocEntries base delta (base + .ofNat p) (.ofNat page) n i m = (.ok (), m') ∧
      Holds base N m' (patched delta L (done ++ entryTargets L p page i n)) := by
  induction n generalizing i m done with
  | zero =>
      refine ⟨m, rfl, ?_⟩
      simpa [entryTargets] using h
  | succ n ih =>
      have hentry : m.readLe (base + .ofNat p + 8 + .ofNat (i * 2)) 2 = entryAt L p i := by
        rw [entryAddr_eq]
        exact h.table hts hstop (by omega) (by omega)
      have hrest : ∀ j, i + 1 ≤ j → j < i + 1 + n → entryAt L p j / 0x1000 = 0 ∨ entryAt L p j / 0x1000 = 10 :=
        fun j hj hj' => hkind j (by omega) (by omega)
      have hsplit : entryTargets L p page i (n + 1) =
          (target? page (entryAt L p i)).toList ++ entryTargets L p page (i + 1) n := by
        rw [entryTargets, List.range'_succ, List.filterMap_cons]
        cases target? page (entryAt L p i) <;> rfl
      rw [relocEntries, hentry]
      rw [hsplit] at hts ⊢
      rcases hkind i (le_refl i) (by omega) with hk | hk
      · -- a padding entry
        have hnone : target? page (entryAt L p i) = none := if_neg (by omega)
        rw [hnone] at hts ⊢
        rw [if_pos hk]
        exact ih (by omega) hrest hts h
      · have hsome : target? page (entryAt L p i) = some (page + entryAt L p i % 0x1000) := if_pos hk
        rw [hsome] at hts ⊢
        rw [if_neg (by omega), if_pos hk]
        dsimp only
        rw [targetAddr_eq, relocated_eq]
        have hpre : Targets N start stop (done ++ [page + entryAt L p i % 0x1000]) := by
          have hsub : (done ++ [page + entryAt L p i % 0x1000]).Sublist
              (done ++ ((some (page + entryAt L p i % 0x1000)).toList ++ entryTargets L p page (i + 1) n ++ rest)) := by
            simp
          exact ⟨fun t ht => hts.inside t (hsub.mem ht), hts.apart.sublist hsub, fun t ht => hts.table t (hsub.mem ht)⟩
        have hts' : Targets N start stop (done ++ [page + entryAt L p i % 0x1000] ++
            (entryTargets L p page (i + 1) n ++ rest)) := by simpa [List.append_assoc] using hts
        obtain ⟨m', hrun, hm'⟩ := ih (by omega) hrest hts' (h.patch hN hpre)
        exact ⟨m', hrun, by simpa [List.append_assoc] using hm'⟩

/-! ## The blocks -/

theorem blockAddr_lt {base : UInt64} {p stop : Nat} (hb : base.toNat + stop < 2 ^ 64) (hp : p ≤ stop) :
    base + .ofNat p < base + .ofNat stop ↔ p < stop := by
  rw [UInt64.lt_iff_toNat_lt, UInt64.toNat_add, UInt64.toNat_add, UInt64.toNat_ofNat', UInt64.toNat_ofNat',
    Nat.mod_eq_of_lt (a := p) (by omega), Nat.mod_eq_of_lt (a := stop) (by omega), Nat.mod_eq_of_lt (by omega),
    Nat.mod_eq_of_lt hb]
  omega

theorem Tiled.le (h : Tiled f stop p ts) : p ≤ stop := by
  cases h with
  | nil => exact le_refl _
  | block hsize hstop => omega

theorem relocBlocks_tiled {fuel : Nat} (ht : Tiled L stop p ts) (hN : N ≤ 2 ^ 64) (hb : base.toNat + stop < 2 ^ 64)
    (hp : start ≤ p) (hstop : stop ≤ N) (hfuel : stop - p ≤ 8 * fuel) (hts : Targets N start stop (done ++ ts))
    (h : Holds base N m (patched delta L done)) :
    ∃ m', relocBlocks base delta (base + .ofNat stop) fuel (base + .ofNat p) m = (.ok (), m') ∧
      Holds base N m' (patched delta L (done ++ ts)) := by
  induction ht generalizing done m fuel with
  | nil =>
      refine ⟨m, ?_, by simpa using h⟩
      cases fuel with
      | zero => rfl
      | succ fuel => rw [relocBlocks, if_neg (UInt64.lt_irrefl _)]
  | @block p ts hsize hend hkind htail ih =>
      have hle := htail.le
      cases fuel with
      | zero => omega
      | succ fuel =>
          have hpage : m.readLe (base + .ofNat p) 4 = wordAt L p 4 := h.table hts hstop hp (by omega)
          have hblock : m.readLe (base + .ofNat p + 4) 4 = blockSize L p := by
            have haddr : base + .ofNat p + 4 = base + .ofNat (p + 4) := targetAddr_eq base p 4
            rw [haddr]
            exact h.table hts hstop (by omega) (by omega)
          have hcount : (blockSize L p - 8) / 2 = entryCount L p := rfl
          rw [relocBlocks, if_pos ((blockAddr_lt hb (by omega)).mpr (by omega))]
          dsimp only
          rw [hpage, hblock, if_neg (by omega), hcount]
          obtain ⟨m₁, hrun, hm₁⟩ := relocEntries_tiled hN hp (i := 0) (n := entryCount L p)
            (by have : entryCount L p * 2 ≤ blockSize L p - 8 := Nat.div_mul_le_self _ 2
                omega) hstop (fun j _ hj => hkind j (by omega)) hts h
          rw [hrun]
          dsimp only
          rw [targetAddr_eq]
          have hts' : Targets N start stop (done ++ entryTargets L p (wordAt L p 4) 0 (entryCount L p) ++ ts) := by
            simpa [List.append_assoc] using hts
          have hfuel' : stop - (p + blockSize L p) ≤ 8 * fuel := by omega
          obtain ⟨m', hrun', hm'⟩ := ih (by omega) hfuel' hts' hm₁
          exact ⟨m', hrun', by simpa [List.append_assoc] using hm'⟩

/-- Every target gets its linked value plus `delta`; the rest of the image keeps its bytes. -/
theorem applyRelocations_tiled {dirRva dirSize : Nat} (ht : Tiled L (dirRva + dirSize) dirRva ts) (hN : N ≤ 2 ^ 64)
    (hb : base.toNat + (dirRva + dirSize) < 2 ^ 64) (hstop : dirRva + dirSize ≤ N)
    (hts : Targets N dirRva (dirRva + dirSize) ts) (h : Holds base N m L) :
    ∃ m', applyRelocations dirRva dirSize base delta m = (.ok (), m') ∧ Holds base N m' (patched delta L ts) := by
  unfold applyRelocations
  dsimp only
  rw [targetAddr_eq]
  have hts' : Targets N dirRva (dirRva + dirSize) ([] ++ ts) := hts
  exact relocBlocks_tiled ht hN hb (le_refl _) hstop (by omega) hts' h

end Pe

end Ferro
