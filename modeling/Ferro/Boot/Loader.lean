import Ferro.Boot.Lemmas.Access
import Ferro.Boot.Theorems

/-!
# The loader
-/

namespace Ferro

namespace Pe

/-- A PE32+ file whose sections lie in the file and, apart from each other, in the image, and whose relocation directory
lies in the image and is tiled by blocks. -/
structure PeFile (data : List UInt8) where
  headers : Headers
  /-- The RVAs of the words to relocate. -/
  targets : List Nat
  parsed : parseHeaders data = .ok headers
  readable : ∀ i < headers.numberOfSections, ∃ sec, sectionAt data (headers.sectionsOff + i * 40) = .ok sec
  inside : ∀ s ∈ headers.sections data, s.start + s.values.length ≤ headers.imageBytes
  apart : (headers.sections data).Pairwise Patch.Apart
  directory : headers.baseRelocDir.1 + headers.baseRelocDir.2 ≤ headers.imageBytes
  tiled : Tiled (headers.linked data) (headers.baseRelocDir.1 + headers.baseRelocDir.2) headers.baseRelocDir.1 targets
  words : Targets headers.imageBytes headers.baseRelocDir.1 (headers.baseRelocDir.1 + headers.baseRelocDir.2) targets

/-- The image `v` is the linked image, moved by `delta`. -/
structure Moved (L : Nat → UInt8) (N : Nat) (ts : List Nat) (delta : UInt64) (v : Nat → UInt8) : Prop where
  target : ∀ t ∈ ts, wordAt v t 8 = (wordAt L t 8 + delta.toNat) % 2 ^ 64
  other : ∀ r < N, (∀ t ∈ ts, ¬ (t ≤ r ∧ r < t + 8)) → v r = L r

variable {data : List UInt8} {a a' : Allocator} {m m' : Mem} {p : LoadedPe} {base delta : UInt64}

theorem Holds.moved {L : Nat → UInt8} {N start stop : Nat} {ts : List Nat} (hts : Targets N start stop ts)
    (h : Holds base N m (patched delta L ts)) : Moved L N ts delta (m.view base) where
  target t ht := by rw [h.wordAt_eq (hts.inside t ht), wordAt_target hts ht]
  other r hr hno := by rw [h r hr, patched_of_apart hno]

theorem Holds.moved_zero {L : Nat → UInt8} {N start stop : Nat} {ts : List Nat} (hts : Targets N start stop ts)
    (h : Holds base N m L) : Moved L N ts 0 (m.view base) where
  target t ht := by
    have hlt : wordAt L t 8 < 2 ^ 64 := wordAt_lt
    rw [h.wordAt_eq (hts.inside t ht), UInt64.toNat_zero, Nat.add_zero, Nat.mod_eq_of_lt hlt]
  other r hr _ := h r hr

/-- Two images of one file. -/
theorem Moved.trans {L v w : Nat → UInt8} {N : Nat} {ts : List Nat} {d e : UInt64} (h : Moved L N ts d v)
    (h' : Moved L N ts e w) : Moved v N ts (e - d) w where
  target t ht := by
    have hd := d.toNat_lt
    have he := e.toNat_lt
    rw [h.target t ht, h'.target t ht, UInt64.toNat_sub]
    omega
  other r hr hno := by rw [h.other r hr hno, h'.other r hr hno]

theorem Tiled.eq_nil {f : Nat → UInt8} {p : Nat} {ts : List Nat} (h : Tiled f p p ts) : ts = [] := by
  cases h with
  | nil => rfl
  | block hsize hstop => omega

namespace PeFile

variable (f : PeFile data)

def linked : Nat → UInt8 := f.headers.linked data

theorem bounded : f.headers.Bounded := parseHeaders_bounded f.parsed

/-- The relocation pass succeeds and moves the image. -/
theorem relocated_moved (hbase : base ≤ ramLimit) (h : Holds base f.headers.imageBytes m f.linked) :
    ∃ m', relocated f.headers base m = (.ok (), m') ∧
      Moved f.linked f.headers.imageBytes f.targets (base - f.headers.imageBase) (m'.view base) := by
  have hb := f.bounded
  have hle := hb.imageBytes_le
  have hbase : base.toNat ≤ 0x3F000000 := hbase
  have hdir := f.directory
  unfold relocated
  split
  · obtain ⟨m', hrun, hm'⟩ := applyRelocations_tiled f.tiled (by omega) (by omega) f.directory f.words h
    exact ⟨m', hrun, hm'.moved f.words⟩
  · rename_i hno
    refine ⟨m, rfl, ?_⟩
    by_cases hz : base - f.headers.imageBase = 0
    · rw [hz]
      exact h.moved_zero f.words
    · -- an empty directory has no targets
      have hsize : f.headers.baseRelocDir.2 = 0 := by simpa [hz] using hno
      have htiled := f.tiled
      rw [hsize, Nat.add_zero] at htiled
      rw [htiled.eq_nil]
      exact ⟨fun _ ht => (List.not_mem_nil ht).elim, fun r hr _ => h r hr⟩

/-- A load that gets its pages succeeds, and the image is moved to where they are. -/
theorem load_moved (ha : a.nextFreePage ≤ ramLimit) (hp : Memory.allocatePages a f.headers.pages = some (base, a')) :
    ∃ m', load data a m = (.ok ⟨base, f.headers.pages * 0x1000, base + f.headers.addressOfEntryPoint⟩, a', m') ∧
      Moved f.linked f.headers.imageBytes f.targets (base - f.headers.imageBase) (m'.view base) := by
  have hbase : base = a.nextFreePage := (Memory.allocatePages_eq_some hp).1
  have hcopied : copied data f.headers base m = (.ok (), (copied data f.headers base m).2) := by
    apply Prod.ext
    · apply copySections_ok.mpr
      simpa using f.readable
    · rfl
  obtain ⟨m', hrel, hmoved⟩ := f.relocated_moved (hbase ▸ ha) (m := (copied data f.headers base m).2)
    (holds_copied f.bounded f.apart)
  refine ⟨m', ?_, hmoved⟩
  rw [load_eq, f.parsed]
  dsimp only
  rw [hp]
  dsimp only
  rw [hcopied]
  dsimp only
  rw [hrel]

theorem load_ok_moved (ha : a.nextFreePage ≤ ramLimit) (h : load data a m = (.ok p, a', m')) :
    Moved f.linked f.headers.imageBytes f.targets (p.imageBase - f.headers.imageBase) (m'.view p.imageBase) ∧
      p.entryPoint = p.imageBase + f.headers.addressOfEntryPoint := by
  obtain ⟨hd, base, _, hparsed, hpages, _, _, rfl⟩ := load_ok h
  have hd : f.headers = hd := by
    rw [f.parsed] at hparsed
    cases hparsed
    rfl
  subst hd
  obtain ⟨m₁, hload, hmoved⟩ := f.load_moved (m := m) ha hpages
  rw [h] at hload
  cases hload
  exact ⟨hmoved, rfl⟩

end PeFile

/-- What a load leaves in the image: each target is moved by the distance between the load base and `ImageBase`, every
other byte is as linked. Two loads differ at the targets only, by the distance between their bases. -/
theorem load_relocates (f : PeFile data) (ha : a.nextFreePage ≤ ramLimit) (h : load data a m = (.ok p, a', m')) :
    Moved f.linked f.headers.imageBytes f.targets (p.imageBase - f.headers.imageBase) (m'.view p.imageBase) ∧
      p.entryPoint = p.imageBase + f.headers.addressOfEntryPoint ∧
      ∀ b b' n n' q, b.nextFreePage ≤ ramLimit → load data b n = (.ok q, b', n') →
        Moved (m'.view p.imageBase) f.headers.imageBytes f.targets (q.imageBase - p.imageBase) (n'.view q.imageBase) := by
  obtain ⟨hmoved, hentry⟩ := f.load_ok_moved ha h
  refine ⟨hmoved, hentry, fun b b' n n' q hb hq => ?_⟩
  obtain ⟨hmoved', _⟩ := f.load_ok_moved hb hq
  have hdelta : q.imageBase - f.headers.imageBase - (p.imageBase - f.headers.imageBase) = q.imageBase - p.imageBase :=
    sub_sub_sub_cancel_right _ _ _
  rw [← hdelta]
  exact hmoved.trans hmoved'

/-! ### A file with one pointer -/

/-- A pointer to itself at the start of the section, and the relocation table for it. -/
def pointerSection : List UInt8 :=
  leBytes 8 0x400100 ++ leBytes 4 0x100 ++ leBytes 4 12 ++ leBytes 2 0xA000 ++ leBytes 2 0

/-- A file with one section, linked for an image of one page at 0x400000. -/
def pointerFile (virtualAddress pointerToRawData : Nat) : List UInt8 :=
  [0x4D, 0x5A] ++ List.replicate 58 0 ++ leBytes 4 0x40 ++
  [0x50, 0x45, 0, 0] ++ leBytes 2 0xAA64 ++ leBytes 2 1 ++ List.replicate 12 0 ++ leBytes 2 160 ++ leBytes 2 0 ++
  leBytes 2 0x20B ++ List.replicate 14 0 ++ leBytes 4 0x104 ++ List.replicate 4 0 ++ leBytes 8 0x400000 ++
  List.replicate 24 0 ++ leBytes 4 0x1000 ++ List.replicate 48 0 ++ leBytes 4 6 ++ List.replicate 40 0 ++
  leBytes 4 0x108 ++ leBytes 4 12 ++
  List.replicate 8 0 ++ leBytes 4 20 ++ leBytes 4 virtualAddress ++ leBytes 4 20 ++ leBytes 4 pointerToRawData ++
  List.replicate 16 0 ++ pointerSection

set_option maxRecDepth 8000 in
theorem length_pointerFile (virtualAddress pointerToRawData : Nat) :
    (pointerFile virtualAddress pointerToRawData).length = 308 := rfl

def pointerHeaders : Headers := ⟨1, 248, 0x104, 0x400000, 0x1000, (0x108, 12)⟩

set_option maxRecDepth 8000 in
theorem parseHeaders_pointerFile : parseHeaders (pointerFile 0x100 288) = .ok pointerHeaders := rfl

set_option maxRecDepth 8000 in
theorem sectionAt_pointerFile : sectionAt (pointerFile 0x100 288) 248 = .ok (pointerSection, 0x100) := rfl

theorem sections_pointerFile : pointerHeaders.sections (pointerFile 0x100 288) = [⟨0x100, pointerSection⟩] := by
  simp [Headers.sections, pointerHeaders, Pe.readable, sectionAt_pointerFile]

theorem linked_pointerFile : pointerHeaders.linked (pointerFile 0x100 288) =
    fun r => if 0x100 ≤ r ∧ r < 0x114 then pointerSection.getD (r - 0x100) 0 else 0 := by
  funext r
  rw [Headers.linked, sections_pointerFile]
  by_cases hr : 0x100 ≤ r ∧ r < 0x114
  · have hc : Patch.Covers ⟨0x100, pointerSection⟩ r := hr
    simp [hc, hr]
  · have hc : ¬ Patch.Covers ⟨0x100, pointerSection⟩ r := hr
    simp [hc, hr]

/-- The file is well formed. -/
def pointerPe : PeFile (pointerFile 0x100 288) where
  headers := pointerHeaders
  targets := [0x100]
  parsed := parseHeaders_pointerFile
  readable i hi := by
    obtain rfl : i = 0 := Nat.lt_one_iff.mp hi
    exact ⟨_, sectionAt_pointerFile⟩
  inside := by
    rw [sections_pointerFile]
    decide
  apart := by
    rw [sections_pointerFile]
    exact List.pairwise_singleton _ _
  directory := by decide
  tiled := by
    rw [linked_pointerFile]
    exact .block (by decide) (by decide) (by decide) .nil
  words := ⟨by decide, by decide, by decide⟩

/-- At 0x81000 the pointer points to itself again. -/
theorem load_relocates_pointer : ∃ p a' m', load (pointerFile 0x100 288) ⟨0x81000, 0⟩ (fun _ => 0) = (.ok p, a', m') ∧
    p.entryPoint = 0x81104 ∧ wordAt (m'.view 0x81000) 0x100 8 = 0x81100 := by
  obtain ⟨m', h, _⟩ := pointerPe.load_moved (a := ⟨0x81000, 0⟩) (m := fun _ => 0) (by decide)
    (show Memory.allocatePages _ _ = some (0x81000, ⟨0x82000, 1⟩) by decide)
  obtain ⟨hmoved, hentry, _⟩ := load_relocates pointerPe (by decide) h
  refine ⟨_, _, m', h, rfl, ?_⟩
  rw [hmoved.target 0x100 (by decide), PeFile.linked, pointerPe, linked_pointerFile]
  decide

/-! ## Where the sections go -/

/-- The headers of the file, and the base that the allocator gives its image. -/
def Placed (data : List UInt8) (a : Allocator) (h : Headers) (base : UInt64) : Prop :=
  parseHeaders data = .ok h ∧ ∃ a', Memory.allocatePages a h.pages = some (base, a')

/-- Copying the sections changes no byte outside the pages of the image, and an image that is loaded has its entry point
in them. -/
structure StaysInside (data : List UInt8) (a : Allocator) : Prop where
  sections : ∀ h base, Placed data a h base → ∀ m x, (x.toNat < base.toNat ∨ base.toNat + h.imageBytes ≤ x.toNat) →
    (copySections data h.sectionsOff base h.numberOfSections 0 m).2 x = m x
  entry : ∀ m p a' m', load data a m = (.ok p, a', m') →
    p.imageBase.toNat ≤ p.entryPoint.toNat ∧ p.entryPoint.toNat < p.imageBase.toNat + p.imageSize.toNat

/-- Every section that is reached is empty or lies in the pages of the image, and so does `AddressOfEntryPoint`, unless
a section or a relocation is refused. -/
structure Confined (data : List UInt8) (a : Allocator) : Prop where
  sections : ∀ h base, Placed data a h base → ∀ s ∈ h.sections data,
    s.values = [] ∨ s.start + s.values.length ≤ h.imageBytes
  entry : ∀ h base m m₁ m₂, Placed data a h base → copied data h base m = (.ok (), m₁) →
    relocated h base m₁ = (.ok (), m₂) → h.addressOfEntryPoint.toNat < h.imageBytes

variable {h : Headers}

theorem Placed.base_le (hp : Placed data a h base) (ha : a.nextFreePage ≤ ramLimit) : base.toNat ≤ 0x3F000000 := by
  obtain ⟨_, a', hp⟩ := hp
  rw [(Memory.allocatePages_eq_some hp).1]
  exact ha

theorem Placed.bounded (hp : Placed data a h base) : h.Bounded := parseHeaders_bounded hp.1

/-- An address outside the pages, as an RVA. -/
theorem le_toNat_sub {base x : UInt64} {n : Nat} (hn : base.toNat + n ≤ 2 ^ 64) :
    n ≤ (x - base).toNat ↔ x.toNat < base.toNat ∨ base.toNat + n ≤ x.toNat := by
  have hx := x.toNat_lt
  have hb := base.toNat_lt
  rw [UInt64.toNat_sub]
  omega

theorem copySections_inside (hp : Placed data a h base) (ha : a.nextFreePage ≤ ramLimit) :
    (∀ m x, (x.toNat < base.toNat ∨ base.toNat + h.imageBytes ≤ x.toNat) →
        (copySections data h.sectionsOff base h.numberOfSections 0 m).2 x = m x) ↔
      ∀ s ∈ h.sections data, s.values = [] ∨ s.start + s.values.length ≤ h.imageBytes := by
  have hbase := hp.base_le ha
  have hbytes := hp.bounded.imageBytes_le
  constructor
  · intro hsame s hs
    by_contra hno
    rw [not_or, ← List.length_eq_zero_iff] at hno
    obtain ⟨hstart, hlen⟩ := readable_lt hs
    -- the last byte of the section is outside; what it held before does not matter
    have hcov : s.Covers (s.start + s.values.length - 1) := by simp only [Patch.Covers]; omega
    have hout : ∀ v : UInt8, Patch.applyAll (Mem.view (fun _ => v) base) (h.sections data)
        (s.start + s.values.length - 1) = v := fun v => by
      rw [Headers.sections, ← view_copySections (by omega)]
      exact hsame (fun _ => v) _ ((le_toNat_sub (by omega)).mp (by
        rw [add_sub_cancel_left, UInt64.toNat_ofNat']
        omega))
    have h01 : (0 : UInt8) = 1 := (hout 0).symm.trans ((Patch.applyAll_of_covers hs hcov).trans (hout 1))
    cases h01
  · intro hin m x hx
    have hview : (copySections data h.sectionsOff base h.numberOfSections 0 m).2 x =
        Patch.applyAll (m.view base) (h.sections data) (x - base).toNat :=
      (Mem.view_sub _ base x).symm.trans (view_copySections (UInt64.toNat_lt _))
    rw [hview, ← Mem.view_sub m base x]
    apply Patch.applyAll_of_not_covers
    intro s hs hcov
    have hr := (le_toNat_sub (by omega)).mpr hx
    simp only [Patch.Covers] at hcov
    rcases hin s hs with he | he
    · rw [he, List.length_nil] at hcov
      omega
    · omega

theorem entry_inside (hp : Placed data a h base) (ha : a.nextFreePage ≤ ramLimit) :
    (base.toNat ≤ (base + h.addressOfEntryPoint).toNat ∧
        (base + h.addressOfEntryPoint).toNat < base.toNat + (h.pages * 0x1000).toNat) ↔
      h.addressOfEntryPoint.toNat < h.imageBytes := by
  have hbase := hp.base_le ha
  have hentry := hp.bounded.addressOfEntryPoint
  rw [hp.bounded.toNat_imageSize, UInt64.toNat_add]
  omega

/-- Exactly when loading stays inside the image. -/
theorem staysInside_iff (ha : a.nextFreePage ≤ ramLimit) : StaysInside data a ↔ Confined data a := by
  constructor
  · intro hs
    refine ⟨fun h base hp => (copySections_inside hp ha).mp (hs.sections h base hp), fun h base m m₁ m₂ hp hc hr => ?_⟩
    obtain ⟨a', hpages⟩ := hp.2
    have hload : load data a m = (.ok ⟨base, h.pages * 0x1000, base + h.addressOfEntryPoint⟩, a', m₂) := by
      rw [load_eq, hp.1]
      dsimp only
      rw [hpages]
      dsimp only
      rw [hc]
      dsimp only
      rw [hr]
    exact (entry_inside hp ha).mp (hs.entry m _ _ _ hload)
  · intro hc
    refine ⟨fun h base hp => (copySections_inside hp ha).mpr (hc.sections h base hp), fun m p a' m' hload => ?_⟩
    obtain ⟨h, base, m₁, hparsed, hpages, hcopied, hrel, rfl⟩ := load_ok hload
    have hp : Placed data a h base := ⟨hparsed, a', hpages⟩
    exact (entry_inside hp ha).mpr (hc.entry h base m m₁ m' hp hcopied hrel)

/-- The file with one pointer stays inside. -/
theorem staysInside_pointer : StaysInside (pointerFile 0x100 288) ⟨0x81000, 0⟩ := by
  have hheaders : ∀ h base, Placed (pointerFile 0x100 288) ⟨0x81000, 0⟩ h base → h = pointerHeaders := by
    intro h base hp
    have hparsed := hp.1
    rw [parseHeaders_pointerFile] at hparsed
    cases hparsed
    rfl
  refine (staysInside_iff (by decide)).mpr ⟨fun h base hp => ?_, fun h base m m₁ m₂ hp _ _ => ?_⟩
  · rw [hheaders h base hp, sections_pointerFile]
    decide
  · rw [hheaders h base hp]
    decide

set_option maxRecDepth 8000 in
theorem parseHeaders_outside : parseHeaders (pointerFile 0x2000 288) = .ok pointerHeaders := rfl

set_option maxRecDepth 8000 in
theorem sectionAt_outside : sectionAt (pointerFile 0x2000 288) 248 = .ok (pointerSection, 0x2000) := rfl

/-- The same file with its section at 0x2000: an image of one page, and bytes written two pages behind its base. -/
theorem not_staysInside_outside : ¬ StaysInside (pointerFile 0x2000 288) ⟨0x81000, 0⟩ := by
  intro hs
  have hp : Placed (pointerFile 0x2000 288) ⟨0x81000, 0⟩ pointerHeaders 0x81000 :=
    ⟨parseHeaders_outside, ⟨0x82000, 1⟩, by decide⟩
  have hsec : pointerHeaders.sections (pointerFile 0x2000 288) = [⟨0x2000, pointerSection⟩] := by
    simp [Headers.sections, pointerHeaders, Pe.readable, sectionAt_outside]
  have hall := (copySections_inside hp (by decide)).mp (hs.sections _ _ hp)
  rw [hsec] at hall
  exact absurd hall (by decide)

/-! ## Where the relocation pass reads and writes -/

/-- Exactly when the pass reads the table inside the directory and the image only, and patches words of the image only:
every block header, entry and target that it reaches fits, in the table as it is when the pass gets there. -/
theorem relocationTrace_inside_iff {dirRva dirSize N : Nat} (hbase : base ≤ ramLimit) (hrva : dirRva < 2 ^ 32)
    (hsize : dirSize < 2 ^ 32) (hN : N ≤ 2 ^ 32) :
    (relocationTrace dirRva dirSize base delta m).2 = applyRelocations dirRva dirSize base delta m ∧
      ((∀ x ∈ (relocationTrace dirRva dirSize base delta m).1, x.Inside base dirRva (dirRva + dirSize) N) ↔
        Fits delta N (dirRva + dirSize) (min (dirRva + dirSize) N) dirRva (m.view base)) := by
  have hbase : base.toNat ≤ 0x3F000000 := hbase
  refine ⟨relocationTrace_snd dirRva dirSize base delta m, ?_⟩
  unfold relocationTrace
  dsimp only
  rw [targetAddr_eq]
  exact blocksTrace_inside (le_refl _) (by omega) (by omega) (by omega) (by omega) (by omega) fun _ _ => rfl

/-- One block at the base, with the page and one `IMAGE_REL_BASED_DIR64` entry. -/
def oneBlock (pageRva : Nat) : Mem :=
  Mem.write (fun _ => 0) 0x81000 (leBytes 4 pageRva ++ leBytes 4 10 ++ leBytes 2 0xA000)

theorem relocationTrace_inside_oneBlock : .word 0x81100 ∈ (relocationTrace 0 10 0x81000 5 (oneBlock 0x100)).1 ∧
    ∀ x ∈ (relocationTrace 0 10 0x81000 5 (oneBlock 0x100)).1, x.Inside 0x81000 0 10 0x1000 := by
  refine ⟨by decide, (relocationTrace_inside_iff (by decide) (by decide) (by decide) (by decide)).2.mpr ?_⟩
  exact .block (by decide) (by decide) (by decide) (.dir64 (by decide) (by decide) (by decide) .nil) (.past (by decide))

/-- The page is behind the image of one page: the word at 0x83000 is patched. -/
theorem relocationTrace_outside :
    ¬ ∀ x ∈ (relocationTrace 0 10 0x81000 5 (oneBlock 0x2000)).1, x.Inside 0x81000 0 10 0x1000 := by
  intro h
  have hword := h (.word 0x83000) (by decide)
  exact absurd hword.2 (by decide)

end Pe

/-! ## A load that fails -/

namespace Boot

variable {image : Image} {s s' : Boot} {r : Reply} {parent size : UInt64} {src : Option Ptr8} {handle : OutPtr}

/-- A new handle has room for a protocol. -/
theorem install_new {hs hs' : Handles} {i : Fin maxHandles} (guid : EfiGuid) (interface : UInt64)
    (h : ProtocolDb.findOrCreateHandle hs 0 = some (some i, hs')) :
    (ProtocolDb.install hs' i guid interface).1 = true := by
  simp only [ProtocolDb.findOrCreateHandle, ProtocolDb.handleToIndex, if_pos] at h
  split at h
  case h_1 j _ =>
    cases h
    simp only [ProtocolDb.install, Arr.get_set_self]
    split
    · rfl
    · rename_i hnone
      have h0 := Arr.find?_eq_none.mp hnone ⟨0, by decide⟩
      cases h0
  case h_2 => cases h

theorem findOrCreateHandle_none {hs hs' : Handles} (h : ProtocolDb.findOrCreateHandle hs 0 = some (none, hs')) :
    hs' = hs := by
  simp only [ProtocolDb.findOrCreateHandle, ProtocolDb.handleToIndex, if_pos] at h
  split at h
  · cases h
  · cases h
    rfl

/-- What a `LoadImage` can do to the tables: nothing, if it does not succeed. -/
theorem loadImage_tables (h : s.loadImage image parent src size handle = some (r, s')) (hr : r.status ≠ some .success) :
    s'.handles = s.handles ∧ s'.loadedImages = s.loadedImages ∧ s'.entryPoints = s.entryPoints := by
  cases loadImage_cases h with
  | declined _ _ => exact ⟨rfl, rfl, rfl⟩
  | rejected _ _ => exact ⟨rfl, rfl, rfl⟩
  | refused _ _ hfind => exact ⟨findOrCreateHandle_none hfind, rfl, rfl⟩
  | @full _ _ _ _ _ i _ _ hfind hins =>
      have hnew := install_new loadedImageProtocolGuid (image.loadedImageProtocols + .ofNat (i.val * loadedImageSize)) hfind
      rw [hins] at hnew
      cases hnew
  | done _ _ _ _ => exact absurd rfl hr

/-- A `LoadImage` that fails leaves the handle database and the image tables as they were. The allocator is as it was
where no pages were granted; pages that were granted are not taken back. -/
theorem loadImage_failed (h : s.step image (.loadImage parent src size handle) = some (r, s'))
    (hr : r.status ≠ some .success) :
    s'.handles = s.handles ∧ s'.loadedImages = s.loadedImages ∧ s'.entryPoints = s.entryPoints ∧
      ((s.asked (.loadImage parent src size handle)).bind (Memory.allocatePages s.alloc) = none → s'.alloc = s.alloc) ∧
      ∀ pages base a, s.asked (.loadImage parent src size handle) = some pages →
        Memory.allocatePages s.alloc pages = some (base, a) →
        s'.alloc = ⟨s.alloc.nextFreePage + pages * pageSize, s.alloc.generation + 1⟩ := by
  obtain ⟨hhandles, himages, hentries⟩ := loadImage_tables h hr
  have hcore := congrArg Prod.fst (loadImage_core h)
  dsimp only [core, grantedCore] at hcore
  refine ⟨hhandles, himages, hentries, fun hnone => ?_, fun pages base a hasked hpages => ?_⟩
  · rw [hcore]
    cases hasked : s.asked (.loadImage parent src size handle) with
    | none => rfl
    | some pages =>
        rw [hasked, Option.bind_some] at hnone
        rw [granted, hnone]
        rfl
  · rw [hcore, hasked, granted, hpages]
    unfold Memory.allocatePages at hpages
    dsimp only at hpages
    split at hpages
    · cases hpages
    · cases hpages
      rfl

/-! ### A file whose section is not there -/

set_option maxRecDepth 8000 in
theorem parseHeaders_truncated : Pe.parseHeaders (Pe.pointerFile 0x100 400) = .ok Pe.pointerHeaders := rfl

set_option maxRecDepth 8000 in
theorem sectionAt_truncated : Pe.sectionAt (Pe.pointerFile 0x100 400) 248 = .error .truncated := rfl

theorem rawParts_getD (l : List UInt8) : rawParts l.length (some fun i => l.getD i 0) = l := by
  show (List.range l.length).map (fun i => l.getD i 0) = l
  apply List.ext_getElem
  · simp
  · intro i _ hi
    rw [List.getElem_map, List.getElem_range, List.getD_eq_getElem _ _ hi]

/-- The buffer that holds the file. -/
def truncatedFile : Ptr8 := fun i => (Pe.pointerFile 0x100 400).getD i 0

theorem loadImage_truncated_eq : ∃ mem, bare.step Memory.onePage (.loadImage 0 (some truncatedFile) 308 true) =
    some (.just .unsupported, { bare with alloc := ⟨0x82000, 1⟩, mem }) := by
  have hdata : rawParts (308 : UInt64).toNat (some truncatedFile) = Pe.pointerFile 0x100 400 := by
    have h := rawParts_getD (Pe.pointerFile 0x100 400)
    rwa [Pe.length_pointerFile] at h
  have hpages : Memory.allocatePages bare.alloc Pe.pointerHeaders.pages = some (0x81000, ⟨0x82000, 1⟩) := by decide
  have hcopied : Pe.copied (Pe.pointerFile 0x100 400) Pe.pointerHeaders 0x81000 bare.mem =
      (.error .truncated, bare.mem.fill 0x81000 0x1000 0) := by
    simp only [Pe.copied, Pe.pointerHeaders, Pe.copySections, Nat.zero_mul, Nat.add_zero, sectionAt_truncated]
    rfl
  have hload : Pe.load (Pe.pointerFile 0x100 400) bare.alloc bare.mem =
      (.error .truncated, ⟨0x82000, 1⟩, bare.mem.fill 0x81000 0x1000 0) := by
    rw [Pe.load_eq, parseHeaders_truncated]
    dsimp only
    rw [hpages]
    dsimp only
    rw [hcopied]
  refine ⟨bare.mem.fill 0x81000 0x1000 0, ?_⟩
  simp only [step, loadImage]
  rw [hdata, hload]
  rfl

/-- The load fails, and the bump pointer and the generation are not what they were. -/
theorem loadImage_truncated : ∃ s', bare.step Memory.onePage (.loadImage 0 (some truncatedFile) 308 true) =
    some (.just .unsupported, s') ∧ s'.alloc.nextFreePage ≠ bare.alloc.nextFreePage ∧
      s'.alloc.generation ≠ bare.alloc.generation := by
  obtain ⟨mem, h⟩ := loadImage_truncated_eq
  have hnext : (0x82000 : UInt64) ≠ bare.alloc.nextFreePage := by decide
  have hgen : (1 : UInt64) ≠ bare.alloc.generation := by decide
  exact ⟨_, h, hnext, hgen⟩

theorem loadImage_failed_truncated : ∃ s', bare.step Memory.onePage (.loadImage 0 (some truncatedFile) 308 true) =
    some (.just .unsupported, s') ∧ s'.handles = bare.handles ∧ s'.loadedImages = bare.loadedImages ∧
      s'.entryPoints = bare.entryPoints := by
  obtain ⟨mem, h⟩ := loadImage_truncated_eq
  obtain ⟨hhandles, himages, hentries, _⟩ := loadImage_failed h (by simp [Reply.status])
  exact ⟨_, h, hhandles, himages, hentries⟩

end Boot

end Ferro
