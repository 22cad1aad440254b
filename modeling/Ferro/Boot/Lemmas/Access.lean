import Ferro.Boot.Lemmas.Load

/-!
# The memory accesses of the relocation pass

`apply_relocations` with a list of its accesses, and the tables whose walk stays inside the directory and the image. The
pass may patch a part of the table that it has not read yet, so that a table is described as the walk meets it.
-/

namespace Ferro

namespace Pe

/-- A read of the table, or a word that is read and written back. -/
inductive Access where
  | table (addr : UInt64) (len : Nat)
  | word (addr : UInt64)
  deriving DecidableEq

/-- `relocEntries` with its accesses. -/
def entriesTrace (loadBase delta blockAddr pageRva : UInt64) :
    (n i : Nat) → Mem → List Access × Except PeError Unit × Mem
  | 0, _, m => ([], .ok (), m)
  | n + 1, i, m =>
    let entryAddr := blockAddr + 8 + .ofNat (i * 2)
    let entry := m.readLe entryAddr 2
    let relocType := entry / 0x1000
    let offset := entry % 0x1000
    if relocType = 0 then
      let (tr, r) := entriesTrace loadBase delta blockAddr pageRva n (i + 1) m
      (.table entryAddr 2 :: tr, r)
    else if relocType = 10 then
      let target := loadBase + pageRva + .ofNat offset
      let value : UInt64 := .ofNat (m.readLe target 8)
      let (tr, r) := entriesTrace loadBase delta blockAddr pageRva n (i + 1)
        (m.write target (leBytes 8 (value + delta).toNat))
      (.table entryAddr 2 :: .word target :: tr, r)
    else
      ([.table entryAddr 2], .error (.unsupportedRelocation relocType), m)

/-- `relocBlocks` with its accesses. -/
def blocksTrace (loadBase delta dirEnd : UInt64) : (fuel : Nat) → (blockAddr : UInt64) → Mem →
    List Access × Except PeError Unit × Mem
  | 0, _, m => ([], .ok (), m)
  | fuel + 1, blockAddr, m =>
    if blockAddr < dirEnd then
      let header := [.table blockAddr 4, .table (blockAddr + 4) 4]
      let pageRva : UInt64 := .ofNat (m.readLe blockAddr 4)
      let blockSize := m.readLe (blockAddr + 4) 4
      if blockSize < 8 then
        (header, .ok (), m)
      else
        match entriesTrace loadBase delta blockAddr pageRva ((blockSize - 8) / 2) 0 m with
        | (tr, .error e, m) => (header ++ tr, .error e, m)
        | (tr, .ok (), m) =>
          let (tr', r) := blocksTrace loadBase delta dirEnd fuel (blockAddr + .ofNat blockSize) m
          (header ++ tr ++ tr', r)
    else
      ([], .ok (), m)

/-- `applyRelocations` with its accesses. -/
def relocationTrace (dirRva dirSize : Nat) (loadBase delta : UInt64) (m : Mem) : List Access × Except PeError Unit × Mem :=
  let blockAddr := loadBase + .ofNat dirRva
  blocksTrace loadBase delta (blockAddr + .ofNat dirSize) (dirSize / 8 + 1) blockAddr m

/-! ## Tables whose walk stays inside -/

/-- Of the entries of the block at `p`, from number `i` on, each one that is reached ends at `lim` or before, and each
word to relocate ends at `N` or before. The bytes after the entries are `some g`, or `none` if an entry of another type
ends the walk. -/
inductive EntriesFit (delta : UInt64) (N lim p page : Nat) :
    (n i : Nat) → (f : Nat → UInt8) → Option (Nat → UInt8) → Prop where
  | nil {i f} : EntriesFit delta N lim p page 0 i f (some f)
  | unsupported {n i f} (hin : p + 8 + i * 2 + 2 ≤ lim) (h0 : entryAt f p i / 0x1000 ≠ 0)
      (h10 : entryAt f p i / 0x1000 ≠ 10) : EntriesFit delta N lim p page (n + 1) i f none
  | absolute {n i f g} (hin : p + 8 + i * 2 + 2 ≤ lim) (h0 : entryAt f p i / 0x1000 = 0)
      (h : EntriesFit delta N lim p page n (i + 1) f g) : EntriesFit delta N lim p page (n + 1) i f g
  | dir64 {n i f g} (hin : p + 8 + i * 2 + 2 ≤ lim) (h10 : entryAt f p i / 0x1000 = 10)
      (hword : page + entryAt f p i % 0x1000 + 8 ≤ N)
      (h : EntriesFit delta N lim p page n (i + 1)
        (Patch.apply f (fixup delta f (page + entryAt f p i % 0x1000))) g) :
      EntriesFit delta N lim p page (n + 1) i f g

/-- The blocks from `p` on: each header that is reached ends at `lim` or before, and its entries fit. -/
inductive Fits (delta : UInt64) (N stop lim : Nat) : (p : Nat) → (f : Nat → UInt8) → Prop where
  | past {p f} (hp : stop ≤ p) : Fits delta N stop lim p f
  | short {p f} (hp : p < stop) (hin : p + 8 ≤ lim) (hsize : blockSize f p < 8) : Fits delta N stop lim p f
  | rejected {p f} (hp : p < stop) (hin : p + 8 ≤ lim) (hsize : 8 ≤ blockSize f p)
      (he : EntriesFit delta N lim p (wordAt f p 4) (entryCount f p) 0 f none) : Fits delta N stop lim p f
  | block {p f g} (hp : p < stop) (hin : p + 8 ≤ lim) (hsize : 8 ≤ blockSize f p)
      (he : EntriesFit delta N lim p (wordAt f p 4) (entryCount f p) 0 f (some g))
      (h : Fits delta N stop lim (p + blockSize f p) g) : Fits delta N stop lim p f

variable {base delta blockAddr pageRva dirEnd : UInt64} {n i fuel p page stop lim N t : Nat} {m : Mem}
  {f : Nat → UInt8}

/-! ## Without the accesses -/

theorem entriesTrace_snd : (entriesTrace base delta blockAddr pageRva n i m).2 =
    relocEntries base delta blockAddr pageRva n i m := by
  induction n generalizing i m with
  | zero => rfl
  | succ n ih =>
      rw [entriesTrace, relocEntries]
      dsimp only
      split
      · exact ih
      · split
        · exact ih
        · rfl

theorem blocksTrace_snd : (blocksTrace base delta dirEnd fuel blockAddr m).2 =
    relocBlocks base delta dirEnd fuel blockAddr m := by
  induction fuel generalizing blockAddr m with
  | zero => rfl
  | succ fuel ih =>
      rw [blocksTrace, relocBlocks]
      dsimp only
      split
      · split
        · rfl
        · rw [← entriesTrace_snd]
          cases entriesTrace base delta blockAddr (.ofNat (m.readLe blockAddr 4))
            ((m.readLe (blockAddr + 4) 4 - 8) / 2) 0 m with
          | mk tr x =>
              obtain ⟨r, m⟩ := x
              cases r with
              | error e => rfl
              | ok u => exact ih
      · rfl

/-- The trace belongs to the code. -/
theorem relocationTrace_snd (dirRva dirSize : Nat) (base delta : UInt64) (m : Mem) :
    (relocationTrace dirRva dirSize base delta m).2 = applyRelocations dirRva dirSize base delta m := blocksTrace_snd

/-! ## Accesses inside -/

/-- Reads of the table lie in the directory from `start` to `stop` and in the image, words in the image. -/
def Access.Inside (base : UInt64) (start stop N : Nat) : Access → Prop
  | .table addr len => base.toNat + start ≤ addr.toNat ∧ addr.toNat + len ≤ base.toNat + stop ∧
      addr.toNat + len ≤ base.toNat + N
  | .word addr => base.toNat ≤ addr.toNat ∧ addr.toNat + 8 ≤ base.toNat + N

theorem toNat_rva {r : Nat} (h : base.toNat + r < 2 ^ 64) : (base + .ofNat r).toNat = base.toNat + r := by
  rw [UInt64.toNat_add, UInt64.toNat_ofNat', Nat.mod_eq_of_lt (a := r) (by omega), Nat.mod_eq_of_lt h]

theorem inside_table {start r len : Nat} (h : base.toNat + r < 2 ^ 64) :
    Access.Inside base start stop N (.table (base + .ofNat r) len) ↔ start ≤ r ∧ r + len ≤ min stop N := by
  rw [Access.Inside, toNat_rva h]
  omega

theorem inside_word {start : Nat} (h : base.toNat + t < 2 ^ 64) :
    Access.Inside base start stop N (.word (base + .ofNat t)) ↔ t + 8 ≤ N := by
  rw [Access.Inside, toNat_rva h]
  omega

/-- The memory from `base` on holds what `f` says. -/
def Agrees (base : UInt64) (m : Mem) (f : Nat → UInt8) : Prop := Holds base (2 ^ 64) m f

theorem Agrees.patch (h : Agrees base m f) (ht : t + 8 ≤ 2 ^ 64) :
    Agrees base (m.write (base + .ofNat t) (fixup delta (m.view base) t).values) (Patch.apply f (fixup delta f t)) := by
  have hfix : fixup delta (m.view base) t = fixup delta f t := by rw [fixup, h.wordAt_eq ht, fixup]
  have hlen : (fixup delta f t).values.length = 8 := length_leBytes _ _
  intro r hr
  rw [hfix, Mem.view_write hr (by omega)]
  exact Patch.apply_congr_at (h r hr)

theorem Agrees.entry (h : Agrees base m f) (hi : p + 8 + i * 2 + 2 ≤ 2 ^ 64) :
    m.readLe (base + .ofNat p + 8 + .ofNat (i * 2)) 2 = entryAt f p i := by
  rw [entryAddr_eq, Mem.readLe_view, h.wordAt_eq hi, entryAt]

/-- What the entries leave, as `EntriesFit` says it. -/
def Outcome (base : UInt64) (r : Except PeError Unit × Mem) : Option (Nat → UInt8) → Prop
  | none => ∃ e, r.1 = .error e
  | some g => r.1 = .ok () ∧ Agrees base r.2 g

theorem EntriesFit.outcome {g : Option (Nat → UInt8)} (h : EntriesFit delta N lim p page n i f g) (hlim : lim ≤ 2 ^ 64)
    (hN : N ≤ 2 ^ 64) (hm : Agrees base m f) :
    Outcome base (relocEntries base delta (base + .ofNat p) (.ofNat page) n i m) g := by
  induction h generalizing m with
  | nil => exact ⟨rfl, hm⟩
  | unsupported hin h0 h10 =>
      rw [relocEntries, hm.entry (by omega)]
      dsimp only
      rw [if_neg h0, if_neg h10]
      exact ⟨_, rfl⟩
  | absolute hin h0 _ ih =>
      rw [relocEntries, hm.entry (by omega)]
      dsimp only
      rw [if_pos h0]
      exact ih hm
  | dir64 hin h10 hword _ ih =>
      rw [relocEntries, hm.entry (by omega)]
      dsimp only
      rw [if_neg (by omega), if_pos h10, targetAddr_eq, relocated_eq]
      exact ih (hm.patch (by omega))

theorem entriesTrace_inside {start : Nat} (hp : start ≤ p) (hb : base.toNat + (p + 8 + (i + n) * 2) < 2 ^ 63)
    (hpage : page < 2 ^ 32) (hm : Agrees base m f) :
    (∀ x ∈ (entriesTrace base delta (base + .ofNat p) (.ofNat page) n i m).1, x.Inside base start stop N) ↔
      ∃ g, EntriesFit delta N (min stop N) p page n i f g := by
  induction n generalizing i m f with
  | zero =>
      simp only [entriesTrace, List.not_mem_nil, false_implies, implies_true, true_iff]
      exact ⟨some f, .nil⟩
  | succ n ih =>
      have htable : Access.Inside base start stop N (.table (base + .ofNat p + 8 + .ofNat (i * 2)) 2) ↔
          p + 8 + i * 2 + 2 ≤ min stop N := by
        rw [entryAddr_eq, inside_table (by omega)]
        omega
      rw [entriesTrace, hm.entry (by omega)]
      dsimp only
      by_cases h0 : entryAt f p i / 0x1000 = 0
      · rw [if_pos h0, List.forall_mem_cons, htable, ih (by omega) hm]
        constructor
        · rintro ⟨hin, g, h⟩
          exact ⟨g, .absolute hin h0 h⟩
        · rintro ⟨g, h⟩
          cases h with
          | unsupported hin h0' => exact absurd h0 h0'
          | absolute hin _ h => exact ⟨hin, g, h⟩
          | dir64 hin h10 => omega
      · rw [if_neg h0]
        by_cases h10 : entryAt f p i / 0x1000 = 10
        · have hoff : entryAt f p i % 0x1000 < 0x1000 := Nat.mod_lt _ (by decide)
          rw [if_pos h10, targetAddr_eq, relocated_eq]
          rw [List.forall_mem_cons, List.forall_mem_cons, htable, inside_word (by omega), ih (by omega) (hm.patch (by omega))]
          constructor
          · rintro ⟨hin, hword, g, h⟩
            exact ⟨g, .dir64 hin h10 hword h⟩
          · rintro ⟨g, h⟩
            cases h with
            | unsupported hin _ h10' => exact absurd h10 h10'
            | absolute hin h0' => exact absurd h0' h0
            | dir64 hin _ hword h => exact ⟨hin, hword, g, h⟩
        · rw [if_neg h10, List.forall_mem_singleton, htable]
          constructor
          · intro hin
            exact ⟨none, .unsupported hin h0 h10⟩
          · rintro ⟨g, h⟩
            cases h with
            | unsupported hin => exact hin
            | absolute hin => exact hin
            | dir64 hin => exact hin

theorem fits_iff (hp : p < stop) : Fits delta N stop lim p f ↔ p + 8 ≤ lim ∧
    (8 ≤ blockSize f p → ∃ g, EntriesFit delta N lim p (wordAt f p 4) (entryCount f p) 0 f g ∧
      ∀ g' ∈ g, Fits delta N stop lim (p + blockSize f p) g') := by
  constructor
  · intro h
    cases h with
    | past h => omega
    | short _ hin hsize => exact ⟨hin, fun h => by omega⟩
    | rejected _ hin _ hg => exact ⟨hin, fun _ => ⟨none, hg, by simp⟩⟩
    | block _ hin _ hg h => exact ⟨hin, fun _ => ⟨_, hg, by simpa using h⟩⟩
  · rintro ⟨hin, h⟩
    by_cases hsize : 8 ≤ blockSize f p
    · obtain ⟨g, hg, hrest⟩ := h hsize
      cases g with
      | none => exact .rejected hp hin hsize hg
      | some g => exact .block hp hin hsize hg (hrest g rfl)
    · exact .short hp hin (by omega)

theorem Agrees.blockSize (hm : Agrees base m f) (hp : p + 8 ≤ 2 ^ 64) :
    m.readLe (base + .ofNat p + 4) 4 = Pe.blockSize f p := by
  have haddr : base + .ofNat p + 4 = base + .ofNat (p + 4) := targetAddr_eq base p 4
  rw [haddr, Mem.readLe_view, hm.wordAt_eq (by omega), Pe.blockSize]

theorem inside_header {start : Nat} (hp : start ≤ p) (hb : base.toNat + p + 8 ≤ 2 ^ 64) :
    (∀ x ∈ [Access.table (base + .ofNat p) 4, .table (base + .ofNat p + 4) 4], x.Inside base start stop N) ↔
      p + 8 ≤ min stop N := by
  have haddr : base + .ofNat p + 4 = base + .ofNat (p + 4) := targetAddr_eq base p 4
  rw [List.forall_mem_cons, List.forall_mem_singleton, haddr, inside_table (by omega), inside_table (by omega)]
  omega

/-- After entries that end in an error nothing more is asked of the walk. -/
theorem Outcome.exists_failed {E : Option (Nat → UInt8) → Prop} {Q : (Nat → UInt8) → Prop} {e : PeError} {m' : Mem}
    (hout : ∀ g, E g → Outcome base (.error e, m') g) : (∃ g, E g) ↔ ∃ g, E g ∧ ∀ g' ∈ g, Q g' := by
  constructor
  · rintro ⟨g, hg⟩
    refine ⟨g, hg, ?_⟩
    cases g with
    | none => simp
    | some g => exact absurd (hout _ hg).1 (by simp)
  · rintro ⟨g, hg, _⟩
    exact ⟨g, hg⟩

/-- After entries that all fit the rest of the walk decides. -/
theorem Outcome.exists_done {E : Option (Nat → UInt8) → Prop} {P : Prop} {Q : (Nat → UInt8) → Prop} {m' : Mem}
    (hout : ∀ g, E g → Outcome base (.ok (), m') g) (hrest : ∀ g, Agrees base m' g → (P ↔ Q g)) :
    ((∃ g, E g) ∧ P) ↔ ∃ g, E g ∧ ∀ g' ∈ g, Q g' := by
  constructor
  · rintro ⟨⟨g, hg⟩, hP⟩
    refine ⟨g, hg, ?_⟩
    rintro g' rfl
    exact (hrest g' (hout _ hg).2).mp hP
  · rintro ⟨g, hg, hQ⟩
    cases g with
    | none =>
        obtain ⟨e, he⟩ := hout _ hg
        cases he
    | some g => exact ⟨⟨_, hg⟩, (hrest g (hout _ hg).2).mpr (hQ g rfl)⟩

/-- The walk from the block at `p` on. A block has at least 8 bytes, so that the fuel suffices. -/
theorem blocksTrace_inside {start : Nat} (hp : start ≤ p) (hb : base.toNat ≤ 2 ^ 32) (hstop : stop ≤ 2 ^ 33) (hN : N ≤ 2 ^ 64)
    (hfuel : stop ≤ p + 8 * fuel) (hp' : p ≤ 2 ^ 34) (hm : Agrees base m f) :
    (∀ x ∈ (blocksTrace base delta (base + .ofNat stop) fuel (base + .ofNat p) m).1, x.Inside base start stop N) ↔
      Fits delta N stop (min stop N) p f := by
  induction fuel generalizing p m f with
  | zero =>
      simp only [blocksTrace, List.not_mem_nil, false_implies, implies_true, true_iff]
      exact .past (by omega)
  | succ fuel ih =>
      have hlt : base + .ofNat p < base + .ofNat stop ↔ p < stop := by
        rw [UInt64.lt_iff_toNat_lt, toNat_rva (by omega), toNat_rva (by omega)]
        omega
      rw [blocksTrace]
      by_cases hpast : p < stop
      · have hpage_lt : wordAt f p 4 < 2 ^ 32 := wordAt_lt
        have hsize_lt : blockSize f p < 2 ^ 32 := wordAt_lt
        have hcount : (blockSize f p - 8) / 2 = entryCount f p := rfl
        have hcount_le : entryCount f p * 2 ≤ blockSize f p := by rw [entryCount]; omega
        have hpage : m.readLe (base + .ofNat p) 4 = wordAt f p 4 := by rw [Mem.readLe_view, hm.wordAt_eq (by omega)]
        have hheader : (∀ x ∈ [Access.table (base + .ofNat p) 4, .table (base + .ofNat p + 4) 4],
            x.Inside base start stop N) ↔ p + 8 ≤ min stop N := inside_header hp (by omega)
        rw [if_pos (hlt.mpr hpast), fits_iff hpast]
        dsimp only
        rw [hpage, hm.blockSize (by omega), hcount]
        split
        case isTrue hshort =>
          rw [hheader]
          exact ⟨fun hin => ⟨hin, fun h => by omega⟩, And.left⟩
        case isFalse hlong =>
          have hentries : (∀ x ∈ (entriesTrace base delta (base + .ofNat p) (.ofNat (wordAt f p 4)) (entryCount f p) 0 m).1,
              x.Inside base start stop N) ↔ ∃ g, EntriesFit delta N (min stop N) p (wordAt f p 4) (entryCount f p) 0 f g :=
            entriesTrace_inside hp (by omega) hpage_lt hm
          -- what the entries leave, if they fit
          have hout : ∀ g, EntriesFit delta N (min stop N) p (wordAt f p 4) (entryCount f p) 0 f g →
              Outcome base (entriesTrace base delta (base + .ofNat p) (.ofNat (wordAt f p 4)) (entryCount f p) 0 m).2 g :=
            fun g hg => entriesTrace_snd ▸ hg.outcome (by omega) hN hm
          generalize entriesTrace base delta (base + .ofNat p) (.ofNat (wordAt f p 4)) (entryCount f p) 0 m = x at hentries hout
          obtain ⟨tr, r, m'⟩ := x
          cases r with
          | error e =>
              dsimp only
              rw [List.forall_mem_append, hheader, hentries, Outcome.exists_failed hout]
              exact and_congr_right fun _ => ⟨fun h _ => h, fun h => h (by omega)⟩
          | ok u =>
              have hrest : ∀ g, Agrees base m' g →
                  ((∀ x ∈ (blocksTrace base delta (base + .ofNat stop) fuel (base + .ofNat (p + blockSize f p)) m').1,
                    x.Inside base start stop N) ↔ Fits delta N stop (min stop N) (p + blockSize f p) g) :=
                fun g hg => ih (by omega) (by omega) (by omega) hg
              dsimp only
              rw [List.forall_mem_append, List.forall_mem_append, hheader, hentries, targetAddr_eq, and_assoc,
                Outcome.exists_done hout hrest]
              exact and_congr_right fun _ => ⟨fun h _ => h, fun h => h (by omega)⟩
      · rw [if_neg fun h => hpast (hlt.mp h)]
        simp only [List.not_mem_nil, false_implies, implies_true, true_iff]
        exact .past (by omega)

end Pe

end Ferro
