import Ferro.Fat32.Theorems
import Ferro.Files.Lemmas.Sharing
import Ferro.Files.Lemmas.Sync

/-!
# What the file protocol guarantees

A handle for writing is a byte file, and a close or a flush writes it back.
-/

namespace Ferro

namespace Files

open Fat32 (fileA smallFs smallCard smallVolume volume_smallCard wellFormed_small wellFormed_smallCard
  notSubdir_smallCard callable_small hugeFs geometry_hugeFs zeros513)

variable {fs : Fat32} {s s₁ s₂ s₃ s₄ : Files} {this new : Nat} {path : Ptr16} {p c : List UInt8} {name : Name}
  {mode : UInt64} {log : List Made}

theorem sound_of_rootPath (hreach : Reachable s) (hroot : s.rootPath this path = some (fs, p))
    (hwf : fs.WellFormed (fs.volume s.card)) : Sound fs s := by
  obtain ⟨_, _, _, _, _, hctx, _⟩ := rootPath_eq_some.mp hroot
  exact ⟨hctx, hreach.valid, hwf⟩

/-! ## Handles are byte files -/

section Handle

variable (hreach : Reachable s) (hroot : s.rootPath this path = some (fs, p))
  (hwf : fs.WellFormed (fs.volume s.card)) (ha : fs.Addressable) (hname : to83OrNone p = some name)
  (hdir : fs.NotSubdir (fs.volume s.card) name) (hc : fs.Contents s.card name c)
  (hmode : mode &&& efiFileModeWrite ≠ 0)
  (hopen : s.step noFaults (.fileOpen this true (some path) mode) = some (.opened new, s₁))

include hreach hroot hwf ha hname hdir hc hmode hopen

/-- The handle of a file that exists. -/
theorem opened_handle : ∃ k, new = k.val ∧ (s.files.get k).inUse = false ∧ s₁.Handle k name ⟨c.take 65536, 0⟩ ∧
    s₁.card = s.card ∧ Sound fs s₁ := by
  obtain ⟨k, c', hk, hfree, hget, hc', hcard, hs₁, _⟩ :=
    open_handle (sound_of_rootPath hreach hroot hwf) ha hroot hname hdir hmode (fun _ => rfl) hopen
  have hcard := hcard c hc
  rw [hcard] at hc'
  obtain rfl := hc'.unique hc
  refine ⟨k, hk, hfree, ?_, hcard, hs₁⟩
  rw [Handle, hget]
  exact ⟨rfl, rfl, rfl, rfl, OpenFile.bytes_fresh (List.length_take_le _ _), rfl⟩

/-- A file opened for writing is a byte file that starts as the file on the card: every call on the handle returns and
answers as the byte file does, no call changes a slot it is not made on, and after a close the card has the bytes of
the byte file if the last write to the card has succeeded. -/
theorem handle_refines (hlen : c.length ≤ 65536) (hrun : Run s₁ log s₂) (hwork : ∀ m ∈ log, m.Working)
    (huse : ∀ m ∈ log, (m.call.this = some new ∧ m.call.plain) ∨ (m.call.this ≠ some new ∧ Aside fs name m)) :
    ∃ k b, new = k.val ∧ Refines new ⟨c, 0⟩ log b ∧ s₂.Handle k name b ∧
      (∀ call, call.this = some new → call.plain → call.Sized → (s₂.step noFaults call).isSome) ∧
      (∀ m ∈ log, ∀ j, (m.before.files.get j).inUse → m.call.this ≠ some j.val →
        m.after.files.get j = m.before.files.get j) ∧
      ∃ s₃, s₂.step noFaults (.fileClose new) = some (.just .success, s₃) ∧
        (LastOk new (log ++ [⟨s₂, noFaults, .fileClose new, .just .success, s₃⟩]) → fs.Contents s₃.card name b.bytes) := by
  obtain ⟨k, rfl, _, hh, hcard, hs₁⟩ := opened_handle hreach hroot hwf ha hname hdir hc hmode hopen
  rw [← hcard] at hc hdir
  rw [List.take_of_length_le hlen] at hh
  obtain ⟨b, c', href, hh₂, hs₂, hdir₂, hc', hsync⟩ := hrun.synced ha hs₁ hdir hh (fun _ => hc) hwork huse hc
  obtain ⟨s₃, hclose⟩ := fileClose_returns (fun _ => rfl) hs₂ ha hdir₂ hh₂
  refine ⟨k, b, rfl, href, hh₂, fun call hk hplain hsize => ?_, fun m hm j hu hj => ?_, s₃, hclose, fun hlast => ?_⟩
  · exact Handle.returns (fun _ => rfl) hs₂ ha hdir₂ hh₂ hk hplain hsize
  · exact step_slot (hrun.step_of_mem hm) hu hj
  · have hwb : WritesBack k ⟨s₂, noFaults, .fileClose k, .just .success, s₃⟩ := Or.inr rfl
    exact WritesBack.contents hwb hs₂ hh₂ ha hdir₂ hclose hc' hsync hlast

end Handle

/-! ### The file `A` -/

/-- The path `A`. -/
def pathA : Ptr16 := fun i => if i = 0 then 0x41 else 0

theorem to83_pathA : to83OrNone [0x41] = some fileA := by decide

/-- After `OpenVolume` of the card at power-on. -/
structure Rooted (fs : Fat32) (card : Disk) (this : Nat) (s : Files) : Prop where
  start : (init (some fs) card).step noFaults (.openVolume true) = some (.opened this, s)
  card : s.card = card
  root : s.rootPath this pathA = some (fs, [0x41])
  readOnly (j : Fin maxOpenFiles) : (s.files.get j).forWrite = false
  free {j : Fin maxOpenFiles} : j.val ≠ this → (s.files.get j).inUse = false

theorem Rooted.reachable {card : Disk} (h : Rooted fs card this s) : Reachable s := (Reachable.init _ _).step h.start

theorem exists_rooted {card : Disk} (hwf : fs.WellFormed (fs.volume card)) : ∃ this s, Rooted fs card this s := by
  obtain ⟨k, dirEntries, _, hstep⟩ := openVolume_opened (s := init (some fs) card) noFaults_none
    rfl hwf ⟨⟨0, by decide⟩, rfl⟩
  refine ⟨k, _, hstep, rfl, rootPath_eq_some.mpr ⟨k, fs.rootCluster.toNat, [0x41], ?_, ?_, rfl, rfl, rfl, rfl, rfl⟩, ?_, ?_⟩
  · exact thisToIndex_eq_some.mpr ⟨rfl, by rw [setFile_get_self]; rfl⟩
  · rw [setFile_get_self]; rfl
  · intro j
    by_cases hj : j = k
    · rw [hj, setFile_get_self]; rfl
    · rw [setFile_get_of_ne hj]; rfl
  · intro j hj
    rw [setFile_get_of_ne fun h => hj (congrArg Fin.val h)]
    rfl

theorem Rooted.exists_free {card : Disk} (h : Rooted fs card this s) : ∃ j, (s.files.get j).inUse = false := by
  by_cases h0 : this = 0
  · exact ⟨⟨1, by decide⟩, h.free fun h => absurd (h.trans h0) (by decide)⟩
  · exact ⟨⟨0, by decide⟩, h.free fun h => h0 h.symm⟩

/-- The file `A` with the contents `c`, opened for writing. -/
structure OpenedA (fs : Fat32) (card : Disk) (c : List UInt8) (this : Nat) (s : Files) (k : Fin maxOpenFiles) : Prop
    extends Rooted fs card this s where
  slot : k.val ≠ this
  opened : s.step noFaults (.fileOpen this true (some pathA) efiFileModeWrite) =
    some (.opened k, s.setFile k (.fresh fileA c true))
  handle : (s.setFile k (.fresh fileA c true)).Handle k fileA ⟨c, 0⟩

theorem exists_openedA {card : Disk} (hwf : fs.WellFormed (fs.volume card)) (hc : fs.Contents card fileA c) :
    ∃ this s k, OpenedA fs card (c.take 65536) this s k := by
  obtain ⟨this, s, h⟩ := exists_rooted hwf
  rw [← h.card] at hc
  obtain ⟨k, hk, hopen⟩ := fileOpen_found (fun _ => rfl) h.exists_free h.root to83_pathA hc efiFileModeWrite
  have hbytes : (OpenFile.fresh fileA (c.take 65536) true).bytes = c.take 65536 :=
    OpenFile.bytes_fresh (List.length_take_le _ _)
  refine ⟨this, s, k, h, ?_, hopen, handle_setFile ⟨rfl, rfl, rfl, rfl, hbytes, rfl⟩⟩
  rintro rfl
  obtain ⟨_, _, _, hthis, _⟩ := rootPath_eq_some.mp h.root
  obtain ⟨he, hu⟩ := thisToIndex_eq_some.mp hthis
  rw [← Fin.ext he, hk] at hu
  cases hu

theorem OpenedA.holds {card : Disk} {k : Fin maxOpenFiles} (h : OpenedA fs card c this s k)
    (hwf : fs.WellFormed (fs.volume card)) : Holds fs card fileA ⟨c, 0⟩ k (s.setFile k (.fresh fileA c true)) := by
  rw [← h.card] at hwf
  obtain ⟨_, _, _, _, _, hctx, _⟩ := rootPath_eq_some.mp h.root
  exact ⟨⟨hctx, (h.reachable.step h.opened).valid, hwf⟩, h.card, h.handle⟩

/-- A first write to `A`. -/
theorem OpenedA.writes {card : Disk} {k : Fin maxOpenFiles} (h : OpenedA fs card c this s k)
    (hwf : fs.WellFormed (fs.volume card)) {n : UInt64} (hn : n.toNat ≤ 65536) (ptr : Ptr8) :
    ∃ s₂, (s.setFile k (.fresh fileA c true)).step noFaults (.fileWrite k (some n) (some ptr)) =
      some (.just .success, s₂) ∧ Holds fs card fileA ⟨splice 0 c 0 (rawParts n.toNat (some ptr)), n.toNat⟩ k s₂ ∧
      (s₂.files.get k).dirty ∧ ∀ j, (s₂.files.get j).forWrite → j = k := by
  obtain ⟨f, hf, hd, hh⟩ := (h.holds hwf).write noFaults (n := n) (by rw [Nat.zero_add]; exact hn) ptr
  rw [setFile_setFile] at hf hh
  rw [Nat.zero_add] at hh
  refine ⟨_, hf, hh, by rw [setFile_get_self]; exact hd, fun j hw => ?_⟩
  by_contra hj
  rw [setFile_get_of_ne hj, h.readOnly j] at hw
  cases hw

theorem contents_small : smallFs.Contents smallCard fileA (List.replicate 600 0) := by
  obtain ⟨hwf, hn, he, ho, _⟩ := wellFormed_small
  rw [← volume_smallCard] at hwf hn ho
  have hc := Fat32.contents_of_node hwf hn ho
  rwa [volume_smallCard, he, newEntry.size_eq, smallVolume, Fat32.content_single (by decide) (by decide) (by decide),
    List.take_replicate] at hc

theorem handle_refines_small : ∃ (this : Nat) (s s₁ s₂ : Files) (k : Fin maxOpenFiles), s.card = smallCard ∧
    s.step noFaults (.fileOpen this true (some pathA) efiFileModeWrite) = some (.opened k, s₁) ∧
    s₁.step noFaults (.fileWrite k (some 1) (some fun _ => 7)) = some (.just .success, s₂) ∧
    ∃ k' : Fin maxOpenFiles, k.val = k'.val ∧ s₂.Handle k' fileA ⟨splice 0 (List.replicate 600 0) 0 [7], 1⟩ := by
  have hwf := wellFormed_smallCard
  have hdir := notSubdir_smallCard fileA (by decide)
  have hc := contents_small
  have hlen : (List.replicate 600 (0 : UInt8)).length ≤ 65536 := by rw [List.length_replicate]; decide
  generalize List.replicate 600 (0 : UInt8) = c at hc hlen ⊢
  obtain ⟨this, s, k, h⟩ := exists_openedA hwf hc
  rw [List.take_of_length_le hlen] at h
  obtain ⟨s₂, hwrite, _⟩ := h.writes hwf (show (1 : UInt64).toNat ≤ 65536 by decide) fun _ => 7
  rw [← h.card] at hwf hdir hc
  have hrun : Run (s.setFile k (.fresh fileA c true))
    [⟨_, noFaults, .fileWrite k (some 1) (some fun _ => 7), .just .success, _⟩] _ := ⟨rfl, hwrite, rfl⟩
  obtain ⟨k', b, hk, href, hh', _⟩ := handle_refines h.reachable h.root hwf (by decide) to83_pathA hdir hc (by decide)
    h.opened hlen hrun (fun m hm => by rw [List.mem_singleton.mp hm]; exact fun _ => rfl)
    (fun m hm => by rw [List.mem_singleton.mp hm]; exact Or.inl ⟨rfl, rfl⟩)
  refine ⟨this, s, _, _, k, h.card, h.opened, hwrite, k', hk, ?_⟩
  simp only [Refines, Call.this, if_true] at href
  obtain ⟨b₁, hb, rfl⟩ := href
  cases hb
  exact hh'

/-! ### A file behind cluster `2 ^ 28` -/

/-- `A` is a file of five bytes in cluster `2 ^ 28 + 1`, and only cluster `2 ^ 28 + 2` is free. -/
def highVolume : Volume := hugeFs.single [2 ^ 28 + 1, 2 ^ 28 + 2] fileA [2 ^ 28 + 1] 5

def highCard : Disk := hugeFs.card highVolume

theorem volume_highCard : hugeFs.volume highCard = highVolume :=
  Fat32.volume_card geometry_hugeFs (Fat32.holds_single geometry_hugeFs (by decide) (by decide))

theorem chainAt_highFile : hugeFs.ChainAt (hugeFs.allocated (hugeFs.blank [2 ^ 28 + 1, 2 ^ 28 + 2]) [2 ^ 28 + 1])
    (2 ^ 28 + 1) [2 ^ 28 + 1] :=
  ⟨.last (Volume.next_eq_none (by rw [Fat32.allocated, Fat32.linkAll, Fat32.mark_fat_self])), by decide⟩

theorem wellFormed_high : hugeFs.WellFormed highVolume ∧ hugeFs.Node highVolume [fileA] ⟨2, 0, 0⟩ ∧
    highVolume.entry ⟨2, 0, 0⟩ = newEntry fileA (2 ^ 28 + 1) 5 ∧ hugeFs.Owns highVolume ⟨2, 0, 0⟩ [2 ^ 28 + 1] ∧
    ∀ path loc, hugeFs.Node highVolume path loc → loc = ⟨2, 0, 0⟩ :=
  Fat32.wellFormed_single geometry_hugeFs (by decide) (by decide) _ (by decide) (by decide) chainAt_highFile

theorem chainAt_high : hugeFs.ChainAt highVolume hugeFs.rootCluster.toNat [2] :=
  Fat32.chainAt_single (by decide) (by decide) _ _ (by decide)

theorem freeList_high : hugeFs.freeList highVolume = [2 ^ 28 + 2] := by
  refine Fat32.freeList_single (by decide) (by decide) (fun c => ?_) chainAt_highFile
  simp only [List.mem_cons, List.not_mem_nil, or_false]
  omega

/-- The link to cluster `2 ^ 28 + 2` leads to the root directory. -/
theorem chainAt_highFitted : hugeFs.ChainAt (hugeFs.fitted highVolume [2 ^ 28 + 1] 2) (2 ^ 28 + 1) [2 ^ 28 + 1, 2] := by
  have hfit : hugeFs.fitted highVolume [2 ^ 28 + 1] 2 = hugeFs.extended highVolume [2 ^ 28 + 1] [2 ^ 28 + 2] := by
    rw [Fat32.fitted_of_lt (by decide) (by decide), Fat32.spare, freeList_high]
    rfl
  have hlink : (hugeFs.extended highVolume [2 ^ 28 + 1] [2 ^ 28 + 2]).fat (2 ^ 28 + 1) = 2 := Volume.setFat_fat_self _ _
  have hroot : endOfChain ≤ (hugeFs.extended highVolume [2 ^ 28 + 1] [2 ^ 28 + 2]).fat 2 := by
    rw [(Fat32.agreeOff_extended (by decide) 2 (by decide)).1]
    exact Volume.end_of_next_none chainAt_high.chain.next_getLast
  rw [hfit]
  exact ⟨.cons (Volume.next_eq_some.mpr ⟨hlink, by decide⟩) (.last (Volume.next_eq_none hroot)), by decide⟩

/-- The second sector of `A` is the root directory, which begins with the name of `A`. -/
theorem high_write : ∃ d', (hugeFs.writeFile fileA zeros513).run highCard = (.ok (), d') ∧
    ¬ hugeFs.Contents d' fileA zeros513 := by
  have hlen : zeros513.length = 513 := List.length_replicate
  have hneed : hugeFs.clustersNeeded zeros513 = 2 := by
    have hcs : hugeFs.clusterSizeBytes = 512 := rfl
    rw [Fat32.clustersNeeded_eq geometry_hugeFs (by omega), hcs, hlen]
    decide
  obtain ⟨hwf, hn, he, ho, _⟩ := wellFormed_high
  have hlookup := (Fat32.lookup_node hwf chainAt_high).mpr hn
  have hroom : hugeFs.Room highVolume [2 ^ 28 + 1] (hugeFs.clustersNeeded zeros513) := by
    rw [Fat32.Room, freeList_high, hneed]; decide
  have hrun := Fat32.runs_writeFile_place (C := fun _ => True) (m := [2 ^ 28 + 1, 2]) hwf chainAt_high
    (.here (.found hlookup ho)) (show zeros513.length < 2 ^ 32 by omega)
    (fun _ => ⟨by rw [hneed]; exact chainAt_highFitted, by rw [hlen]; decide⟩)
    (fun _ _ => trivial) (fun _ _ => trivial) (fun _ _ => trivial) (fun _ => trivial)
  rw [Fat32.result, if_pos hroom, if_pos hroom] at hrun
  obtain ⟨_, _, _, hv⟩ := hrun highCard volume_highCard
  refine ⟨_, hrun.run_eq volume_highCard, fun hcont => ?_⟩
  generalize hu : hugeFs.written highVolume [2 ^ 28 + 1] [2 ^ 28 + 1, 2] ⟨2, 0, 0⟩ fileA zeros513 = u at hv
  have hfat : ∀ c, u.fat c = (hugeFs.fitted highVolume [2 ^ 28 + 1] 2).fat c := fun c => by
    rw [← hu, Fat32.written, Volume.setEntry, Volume.setData_fat, Volume.fill_fat, hneed]
  have hentry : u.entry ⟨2, 0, 0⟩ = newEntry fileA (2 ^ 28 + 1) 513 := by
    rw [← hu, Fat32.written, Volume.entry_setEntry (by decide) (by decide) (by simp), if_pos rfl, hlen]
    rfl
  have hR : hugeFs.ChainAt u hugeFs.rootCluster.toNat [2] := by
    refine ⟨.last (Volume.next_eq_none ?_), by decide⟩
    rw [hfat]
    exact Volume.end_of_next_none chainAt_highFitted.chain.next_getLast
  have hlook : hugeFs.lookup u [2] fileA = some ⟨2, 0, 0⟩ := by
    obtain ⟨locs, hlocs⟩ := Fat32.slots_singleton geometry_hugeFs 2
    rw [Fat32.lookup, Fat32.liveSlots, hlocs, Fat32.live_cons, hentry, Fat32.newEntry.isEnd_eq (by decide),
      if_neg Bool.false_ne_true, if_pos (Fat32.newEntry.isLive_eq (by decide)), List.find?_cons, hentry, newEntry.name_eq]
    rfl
  have hfirst : (u.entry ⟨2, 0, 0⟩).firstCluster = 2 ^ 28 + 1 := by
    rw [hentry, newEntry.firstCluster_eq _ _ _ (by decide)]
  have hchain : hugeFs.ChainAt u (u.entry ⟨2, 0, 0⟩).firstCluster [2 ^ 28 + 1, 2] := by
    rw [hfirst]
    exact chainAt_highFitted.congr fun c _ => hfat c
  have hread := (Fat32.runs_readFile_some (C := fun _ => True) geometry_hugeFs trivial 513 hR hlook (Or.inr hchain) _ hv).2.2.1
  rw [hcont 513] at hread
  have hbyte := congrArg (fun l => l[512]?) (Except.ok.inj hread)
  have hzero : (zeros513.take 513)[512]? = some 0 := by rw [zeros513, List.take_replicate, List.getElem?_replicate]; rfl
  have hsec : hugeFs.sectors [2 ^ 28 + 1, 2] = [(2 ^ 28 + 1, 0), (2, 0)] := rfl
  have hname : (u.data (2, 0)).nth 0 = 0x41 := by
    have hnth := Fat32.nth_entry (u.data (2, 0)) (show 0 < 16 by decide) (show 0 < 32 by decide)
    rw [Nat.zero_mul, Nat.zero_add] at hnth
    rw [← hnth]
    exact (congrArg (fun e => Arr.nth e 0) hentry).trans ((newEntry.nth_zero _ _ _).trans (by decide))
  simp only [hzero, Fat32.fileBytes, hentry, newEntry.size_eq, Fat32.content, hsec, List.flatMap_cons, List.flatMap_nil] at hbyte
  rw [List.getElem?_take_of_lt (by decide), List.getElem?_append_right (by rw [Arr.length_toList]), Arr.length_toList,
    List.append_nil, Arr.getElem?_toList, Nat.sub_self, if_pos (by decide), hname] at hbyte
  exact absurd (Option.some.inj hbyte) (by decide)

theorem contents_high : hugeFs.Contents highCard fileA (List.replicate 5 0) := by
  obtain ⟨hwf, hn, he, ho, _⟩ := wellFormed_high
  rw [← volume_highCard] at hwf hn ho
  have hc := Fat32.contents_of_node hwf hn ho
  rwa [volume_highCard, he, newEntry.size_eq, highVolume, Fat32.content_single (by decide) (by decide) (by decide),
    List.take_replicate] at hc

theorem rawParts_zeros (n : Nat) : rawParts n (some fun _ => 0) = List.replicate n 0 := by
  simp [rawParts, List.map_const']

/-- Without the bound on the cluster numbers, `A` does not read back after a close although the write has succeeded. -/
theorem handle_refines_high : ∃ (this : Nat) (s s₁ s₂ s₃ : Files) (k : Fin maxOpenFiles), Reachable s ∧
    hugeFs.WellFormed (hugeFs.volume s.card) ∧ s.rootPath this pathA = some (hugeFs, [0x41]) ∧
    hugeFs.Contents s.card fileA (List.replicate 5 0) ∧ hugeFs.NotSubdir (hugeFs.volume s.card) fileA ∧
    s.step noFaults (.fileOpen this true (some pathA) efiFileModeWrite) = some (.opened k, s₁) ∧
    s₁.step noFaults (.fileWrite k (some 513) (some fun _ => 0)) = some (.just .success, s₂) ∧
    s₂.step noFaults (.fileClose k) = some (.just .success, s₃) ∧
    Made.result ⟨s₂, noFaults, .fileClose k, .just .success, s₃⟩ = some (.ok ()) ∧
    s₂.Handle k fileA ⟨zeros513, 513⟩ ∧ ¬ hugeFs.Contents s₃.card fileA zeros513 := by
  obtain ⟨hwf, _, he, _, honly⟩ := wellFormed_high
  have hdir : hugeFs.NotSubdir highVolume fileA := fun loc h => by
    rw [honly _ _ h, he, newEntry.isDir_eq]; exact Bool.false_ne_true
  obtain ⟨d', hrun, hbad⟩ := high_write
  rw [← volume_highCard] at hwf hdir
  have hlen : (List.replicate 5 (0 : UInt8)).length ≤ 65536 := by decide
  obtain ⟨this, s, k, h⟩ := exists_openedA hwf contents_high
  rw [List.take_of_length_le hlen] at h
  obtain ⟨s₂, hwrite, hh, hd, honly⟩ := h.writes hwf (show (513 : UInt64).toNat ≤ 65536 by decide) fun _ => 0
  have hzeros : rawParts (513 : UInt64).toNat (some fun _ => 0) = zeros513 := rawParts_zeros 513
  rw [hzeros, splice_zero_of_le (by rw [zeros513, List.length_replicate, List.length_replicate]; decide)] at hh
  obtain ⟨s₃, hclose, hcard₃, hres⟩ := Handle.closes (fun _ => rfl) hh.sound.context hh.handle hd
    (by rw [hh.card]; exact hrun) (Stop.returned_ok.mpr rfl)
  refine ⟨this, s, _, s₂, s₃, k, h.reachable, by rw [h.card]; exact hwf, h.root, by rw [h.card]; exact contents_high,
    by rw [h.card]; exact hdir, h.opened, hwrite, hclose, hres, hh.handle, by rw [hcard₃]; exact hbad⟩

/-! ## Flush and close tell the truth -/

/-- In a run of careful calls from power-on, every flush and close tells the truth. -/
theorem flush_truthful {card : Disk} (hwf : fs.WellFormed (fs.volume card)) (ha : fs.Addressable)
    (hrun : Run (init (some fs) card) log s) (hcare : ∀ m ∈ log, Careful fs m) : ∀ m ∈ log, Truthful fs m :=
  hrun.truthful ha ⟨rfl, fun _ => OpenFile.valid_empty, hwf⟩ (fun _ hu => by cases hu) hcare

theorem fits_smallA {data : List UInt8} : smallFs.Fits smallVolume fileA data ↔ smallFs.clustersNeeded data ≤ 3 := by
  obtain ⟨hwf, hn, _, ho, _⟩ := wellFormed_small
  have hlookup := (Fat32.lookup_node hwf Fat32.chainAt_small).mpr hn
  have hp : smallFs.Place smallVolume [2] fileA smallVolume [2] [3, 4] ⟨2, 0, 0⟩ := .here (.found hlookup ho)
  rw [← hp.room_iff hwf Fat32.chainAt_small (by decide), Fat32.Room, Fat32.freeList_small]
  rfl

theorem OpenedA.careful {card : Disk} {k : Fin maxOpenFiles} (h : OpenedA fs card c this s k)
    (hc : fs.Contents card fileA c) (hlen : c.length ≤ 65536) : Careful fs ⟨s, noFaults,
      .fileOpen this true (some pathA) efiFileModeWrite, .opened k, s.setFile k (.fresh fileA c true)⟩ := by
  rw [← h.card] at hc
  refine .of_none ?_ (fun _ _ he => by cases he) fun _ _ _ _ _ _ he hroot hname hc' => ?_
  · simp only [Made.request, request, h.root, Option.bind_eq_bind, Option.bind_some]
    exact createWrite_of_contents (fun _ => rfl) to83_pathA hc
  · cases he
    cases h.root.symm.trans hroot
    cases to83_pathA.symm.trans hname
    rw [hc'.unique hc]
    exact hlen

theorem Holds.careful {card : Disk} {b : ByteFile} {k : Fin maxOpenFiles} (h : Holds fs card name b k s)
    (hd : (s.files.get k).dirty) (honly : ∀ j, (s.files.get j).forWrite → j = k)
    (hdir : fs.NotSubdir (fs.volume card) name) (hfits : fs.Fits (fs.volume card) name b.bytes) :
    Careful fs ⟨s, noFaults, .fileFlush k, .just .success, s₁⟩ := by
  rw [← h.card] at hdir hfits
  have hreq : Made.request ⟨s, noFaults, .fileFlush k, .just .success, s₁⟩ = some ⟨fs, name, b.bytes, 0⟩ :=
    (h.handle.flushWrite h.sound.context).trans (if_pos hd)
  refine ⟨⟨fun hw => ?_, fun he => by cases he⟩, fun _ _ _ => rfl, fun _ hw => ?_, fun {j w} hw _ hwr _ => ?_,
    fun he => by cases he⟩
  · cases hreq.symm.trans hw
    exact hdir
  · cases hreq.symm.trans hw
    exact hfits
  · rw [honly j hwr]
    exact hd

theorem flush_truthful_small : ∃ (this : Nat) (s s₂ s₃ : Files) (k : Fin maxOpenFiles),
    OpenedA smallFs smallCard (List.replicate 600 0) this s k ∧
    (s.setFile k (.fresh fileA (List.replicate 600 0) true)).step noFaults (.fileWrite k (some 1) (some fun _ => 7)) =
      some (.just .success, s₂) ∧
    s₂.step noFaults (.fileFlush k) = some (.just .success, s₃) ∧
    Truthful smallFs ⟨s₂, noFaults, .fileFlush k, .just .success, s₃⟩ := by
  have hwf := wellFormed_smallCard
  have hc := contents_small
  have h600 : (List.replicate 600 (0 : UInt8)).length = 600 := List.length_replicate
  generalize List.replicate 600 (0 : UInt8) = c at hc h600 ⊢
  have hlen : (splice 0 c 0 [7]).length = 600 := by rw [length_splice, h600]; rfl
  have hcall := callable_small fileA (splice 0 c 0 [7]) (by decide) (by omega)
  have hfits : smallFs.Fits smallVolume fileA (splice 0 c 0 [7]) := by
    rw [fits_smallA, Fat32.clustersNeeded_eq Fat32.geometry_smallFs (by omega), hlen]
    decide
  rw [← volume_smallCard] at hcall hfits
  obtain ⟨this, s, k, h⟩ := exists_openedA hwf hc
  rw [List.take_of_length_le (by omega)] at h
  obtain ⟨s₂, hwrite, hh, hd, honly⟩ := h.writes hwf (show (1 : UInt64).toNat ≤ 65536 by decide) fun _ => 7
  have hparts : rawParts (1 : UInt64).toNat (some fun _ => 7) = [7] := rfl
  rw [hparts] at hh
  have hover := Fat32.run_overwrites hwf (by decide) hcall
  obtain ⟨s₃, hflush, _, _, _⟩ := Handle.flushes noFaults_none hh.sound.context hh.handle hd
    (by rw [hh.card]) (Stop.returned_ok.mpr (hover.ok_iff.mpr hfits))
  refine ⟨this, s, s₂, s₃, k, h, hwrite, hflush, ?_⟩
  have hrun : Run (init (some smallFs) smallCard) [⟨_, noFaults, .openVolume true, .opened this, s⟩,
      ⟨s, noFaults, .fileOpen this true (some pathA) efiFileModeWrite, .opened k, s.setFile k (.fresh fileA c true)⟩,
      ⟨_, noFaults, .fileWrite k (some 1) (some fun _ => 7), .just .success, s₂⟩,
      ⟨s₂, noFaults, .fileFlush k, .just .success, s₃⟩] s₃ :=
    ⟨rfl, h.start, rfl, h.opened, rfl, hwrite, rfl, hflush, rfl⟩
  refine flush_truthful hwf (by decide) hrun (fun m hm => ?_) _ (.tail _ (.tail _ (.tail _ (.head _))))
  simp only [List.mem_cons, List.not_mem_nil, or_false] at hm
  rcases hm with rfl | rfl | rfl | rfl
  · exact .of_none rfl (fun _ _ he => by cases he) fun _ _ _ _ _ _ he => by cases he
  · exact h.careful hc (by omega)
  · exact .of_none rfl (fun _ _ he => by cases he) fun _ _ _ _ _ _ he => by cases he
  · exact hh.careful hd honly hcall.notSubdir hfits

theorem not_fits_smallA {data : List UInt8} (hlen : data.length = 1600) : ¬ smallFs.Fits smallVolume fileA data := by
  rw [fits_smallA, Fat32.clustersNeeded_eq Fat32.geometry_smallFs (by omega), hlen]
  decide

/-- The volume has no room for the 1600 bytes that are written to `A`: the flush returns success, the handle is clean,
and `A` is as it was. -/
theorem flush_untruthful_small : ∃ (this : Nat) (s s₂ s₃ : Files) (k : Fin maxOpenFiles),
    OpenedA smallFs smallCard (List.replicate 600 0) this s k ∧
    (s.setFile k (.fresh fileA (List.replicate 600 0) true)).step noFaults
      (.fileWrite k (some 1600) (some fun _ => 0)) = some (.just .success, s₂) ∧
    s₂.Handle k fileA ⟨List.replicate 1600 0, 1600⟩ ∧
    s₂.step noFaults (.fileFlush k) = some (.just .success, s₃) ∧
    Made.result ⟨s₂, noFaults, .fileFlush k, .just .success, s₃⟩ = some (.error (.err .noSpace)) ∧
    (s₃.files.get k).dirty = false ∧ smallFs.Contents s₃.card fileA (List.replicate 600 0) ∧
    ¬ Truthful smallFs ⟨s₂, noFaults, .fileFlush k, .just .success, s₃⟩ := by
  have hwf := wellFormed_smallCard
  have hc := contents_small
  have h600 : (List.replicate 600 (0 : UInt8)).length = 600 := List.length_replicate
  have hlen : (List.replicate 1600 (0 : UInt8)).length = 1600 := List.length_replicate
  have hn : (1600 : UInt64).toNat = 1600 := rfl
  have hzeros := rawParts_zeros 1600
  generalize List.replicate 600 (0 : UInt8) = c at hc h600 ⊢
  generalize List.replicate 1600 (0 : UInt8) = data at hlen hzeros ⊢
  have hcall := callable_small fileA data (by decide) (by omega)
  have hfits := not_fits_smallA hlen
  rw [← volume_smallCard] at hcall hfits
  obtain ⟨this, s, k, h⟩ := exists_openedA hwf hc
  rw [List.take_of_length_le (by omega)] at h
  obtain ⟨s₂, hwrite, hh, hd, honly⟩ := h.writes hwf (show (1600 : UInt64).toNat ≤ 65536 by decide) fun _ => 0
  rw [hn, hzeros, splice_zero_of_le (by omega)] at hh
  have hover := Fat32.run_overwrites hwf (by decide) hcall
  generalize hrun : (smallFs.writeFile fileA data).run smallCard = x at hover
  obtain ⟨r, d'⟩ := x
  obtain rfl := hover.result.resolve_left fun h => hfits (hover.ok_iff.mp h)
  rw [← hh.card] at hrun
  obtain ⟨s₃, hflush, rfl, hclean, hres⟩ := Handle.flushes noFaults_none hh.sound.context
    hh.handle hd hrun rfl
  have hsame : smallFs.Contents s₃.card fileA c := hover.other (Or.inr fun h => by cases h) hc
  refine ⟨this, s, s₂, s₃, k, h, hwrite, hh.handle, hflush, hres, hclean, hsame, fun ht => ?_⟩
  have hdirty := (ht k (Or.inl rfl) hh.handle.inUse hh.handle.forWrite).2 _ hres
  dsimp only at hdirty
  rw [hclean] at hdirty
  cases hdirty

/-! ## Editing a file -/

section Edit

variable {pos n : UInt64} {ptr : Ptr8} (hreach : Reachable s) (hroot : s.rootPath this path = some (fs, p))
  (hwf : fs.WellFormed (fs.volume s.card)) (ha : fs.Addressable) (hname : to83OrNone p = some name)
  (hdir : fs.NotSubdir (fs.volume s.card) name) (hc : fs.Contents s.card name c)
  (hmode : mode &&& efiFileModeWrite ≠ 0)
  (hopen : s.step noFaults (.fileOpen this true (some path) mode) = some (.opened new, s₁))
  (hn : pos.toNat + n.toNat ≤ 65536)
  (hset : s₁.step noFaults (.fileSetPosition new pos) = some (.just .success, s₂))
  (hwrite : s₂.step noFaults (.fileWrite new (some n) (some ptr)) = some (.just .success, s₃))
  (hclose : s₃.step noFaults (.fileClose new) = some (.just .success, s₄))

include hreach hroot hwf ha hname hdir hc hmode hopen hn hset hwrite hclose

/-- The close writes the first 65536 bytes of the file back, edited. -/
theorem edit_overwrites : ∃ r, fs.Overwrites s.card name
    (splice 0 (c.take 65536) pos.toNat (rawParts n.toNat (some ptr))) r s₄.card := by
  obtain ⟨k, rfl, _, hh, hcard₁, hs₁⟩ := opened_handle hreach hroot hwf ha hname hdir hc hmode hopen
  have hh₁ : Holds fs s.card name ⟨c.take 65536, 0⟩ k s₁ := ⟨hs₁, hcard₁, hh⟩
  obtain ⟨f, hf, hh₂⟩ := hh₁.seek noFaults (ByteFile.seek_of_le _ (show pos.toNat ≤ 65536 by omega))
  cases hf.symm.trans hset
  obtain ⟨f', hf', hd, hh₃⟩ := hh₂.write noFaults hn ptr
  cases hf'.symm.trans hwrite
  exact (hh₃.closed ha (fun _ => rfl) (by rw [setFile_get_self]; exact hd) hdir hclose).2

/-- An edit leaves the rest of the file alone if and only if the file has at most 65536 bytes and the volume has room
for it, or the edit does not change it. -/
theorem edit_preserves_iff : fs.Contents s₄.card name (splice 0 c pos.toNat (rawParts n.toNat (some ptr))) ↔
    c.length ≤ 65536 ∧ (fs.Fits (fs.volume s.card) name (splice 0 c pos.toNat (rawParts n.toNat (some ptr))) ∨
      splice 0 c pos.toNat (rawParts n.toNat (some ptr)) = c) := by
  obtain ⟨r, hover⟩ := edit_overwrites hreach hroot hwf ha hname hdir hc hmode hopen hn hset hwrite hclose
  have hlen := length_rawParts n.toNat ptr
  generalize rawParts n.toNat (some ptr) = d at hover hlen ⊢
  by_cases hle : c.length ≤ 65536
  · rw [List.take_of_length_le hle] at hover
    constructor
    · intro h
      refine ⟨hle, ?_⟩
      by_cases hfits : fs.Fits (fs.volume s.card) name (splice 0 c pos.toNat d)
      · exact Or.inl hfits
      · have hsame := hover.other (Or.inr fun hr => hfits (hover.ok_iff.mp hr)) hc
        exact Or.inr (h.unique hsame)
    · rintro ⟨_, hfits | hsame⟩
      · exact hover.written (hover.ok_iff.mpr hfits)
      · by_cases hr : r = .ok ()
        · exact hover.written hr
        · rw [hsame]
          exact hover.other (Or.inr hr) hc
  · -- the file has room for its first 65536 bytes, and is cut to them
    refine iff_of_false (fun h => ?_) fun h => hle h.1
    have htake : (c.take 65536).length = 65536 := by rw [List.length_take]; omega
    have hcut : (splice 0 (c.take 65536) pos.toNat d).length = 65536 := by rw [length_splice, htake, hlen]; omega
    have hfits : fs.Fits (fs.volume s.card) name (splice 0 (c.take 65536) pos.toNat d) :=
      hc.fits hwf (by omega) (by omega) (by omega)
    have heq := congrArg List.length (h.unique (hover.written (hover.ok_iff.mpr hfits)))
    rw [hcut, length_splice] at heq
    omega

end Edit

/-- A seek and a write to `A`. -/
theorem OpenedA.edits {card : Disk} {k : Fin maxOpenFiles} (h : OpenedA fs card c this s k)
    (hwf : fs.WellFormed (fs.volume card)) {pos n : UInt64} (hn : pos.toNat + n.toNat ≤ 65536) (ptr : Ptr8) :
    ∃ s₂ s₃, (s.setFile k (.fresh fileA c true)).step noFaults (.fileSetPosition k pos) = some (.just .success, s₂) ∧
      s₂.step noFaults (.fileWrite k (some n) (some ptr)) = some (.just .success, s₃) ∧
      Holds fs card fileA ⟨splice 0 c pos.toNat (rawParts n.toNat (some ptr)), pos.toNat + n.toNat⟩ k s₃ ∧
      (s₃.files.get k).dirty := by
  obtain ⟨f, hf, hh⟩ := (h.holds hwf).seek noFaults (ByteFile.seek_of_le _ (show pos.toNat ≤ 65536 by omega))
  obtain ⟨f', hf', hd, hh'⟩ := hh.write noFaults hn ptr
  exact ⟨_, _, hf, hf', hh', by rw [setFile_get_self]; exact hd⟩

theorem edit_preserves_small : ∃ (this : Nat) (s s₁ s₂ s₃ s₄ : Files) (k : Fin maxOpenFiles), s.card = smallCard ∧
    s.step noFaults (.fileOpen this true (some pathA) efiFileModeWrite) = some (.opened k, s₁) ∧
    s₁.step noFaults (.fileSetPosition k 1) = some (.just .success, s₂) ∧
    s₂.step noFaults (.fileWrite k (some 1) (some fun _ => 7)) = some (.just .success, s₃) ∧
    s₃.step noFaults (.fileClose k) = some (.just .success, s₄) ∧
    smallFs.Contents s₄.card fileA (splice 0 (List.replicate 600 0) 1 [7]) := by
  have hwf := wellFormed_smallCard
  have hdir := notSubdir_smallCard fileA (by decide)
  have hc := contents_small
  have h600 : (List.replicate 600 (0 : UInt8)).length = 600 := List.length_replicate
  generalize List.replicate 600 (0 : UInt8) = c at hc h600 ⊢
  have hfits : smallFs.Fits (smallFs.volume smallCard) fileA (splice 0 c 1 [7]) := by
    refine hc.fits hwf ?_ ?_ ?_
    · omega
    · rw [length_splice, h600]; decide
    · rw [length_splice, h600]; decide
  obtain ⟨this, s, k, h⟩ := exists_openedA hwf hc
  rw [List.take_of_length_le (by omega)] at h
  obtain ⟨s₂, s₃, hset, hwrite, hh, hd⟩ := h.edits hwf (show (1 : UInt64).toNat + (1 : UInt64).toNat ≤ 65536 by decide)
    fun _ => 7
  have hparts : rawParts (1 : UInt64).toNat (some fun _ => 7) = [7] := rfl
  rw [hparts] at hh
  obtain ⟨s₄, hclose, _⟩ := hh.close (by decide) (fun _ => rfl) hd hdir hfits
  refine ⟨this, s, _, s₂, s₃, s₄, k, h.card, h.opened, hset, hwrite, hclose, ?_⟩
  rw [← h.card] at hwf hdir hc hfits
  exact (edit_preserves_iff h.reachable h.root hwf (by decide) to83_pathA hdir hc (by decide) h.opened (by decide) hset
    hwrite hclose).mpr ⟨by omega, Or.inl hfits⟩

/-! ### A large file -/

def largeFs : Fat32 := { smallFs with sectorsPerCluster := 128 }

theorem geometry_largeFs : largeFs.Geometry := by constructor <;> decide

/-- `A` is a file of 65537 bytes in clusters 3 and 4. -/
def largeVolume : Volume := largeFs.single [3, 4] fileA [3, 4] 65537

def largeCard : Disk := largeFs.card largeVolume

theorem volume_largeCard : largeFs.volume largeCard = largeVolume :=
  Fat32.volume_card geometry_largeFs (Fat32.holds_single geometry_largeFs (by decide) (by decide))

theorem chainAt_largeFile : largeFs.ChainAt (largeFs.allocated (largeFs.blank [3, 4]) [3, 4]) 3 [3, 4] :=
  Fat32.chainAt_allocated (by decide) (by decide) (by decide)

theorem wellFormed_large : largeFs.WellFormed largeVolume ∧ largeFs.Node largeVolume [fileA] ⟨2, 0, 0⟩ ∧
    largeVolume.entry ⟨2, 0, 0⟩ = newEntry fileA 3 65537 ∧ largeFs.Owns largeVolume ⟨2, 0, 0⟩ [3, 4] ∧
    ∀ path loc, largeFs.Node largeVolume path loc → loc = ⟨2, 0, 0⟩ :=
  Fat32.wellFormed_single geometry_largeFs (by decide) (by decide) _ (by decide) (by decide) chainAt_largeFile

theorem contents_large : ∃ c, c.length = 65537 ∧ largeFs.Contents largeCard fileA c := by
  obtain ⟨hwf, hn, he, ho, _⟩ := wellFormed_large
  rw [← volume_largeCard] at hwf hn ho
  refine ⟨_, ?_, Fat32.contents_of_node hwf hn ho⟩
  have hall : (largeFs.content (largeFs.volume largeCard) [3, 4]).length = 512 * (largeFs.sectors [3, 4]).length :=
    Volume.length_bytes _
  rw [List.length_take, hall, Fat32.length_sectors, volume_largeCard, he, newEntry.size_eq]
  decide

/-- A file of 65537 bytes loses its last byte, wherever it is edited. -/
theorem edit_cuts_large : ∃ (this : Nat) (s s₁ s₂ s₃ s₄ : Files) (k : Fin maxOpenFiles) (c : List UInt8),
    Reachable s ∧ largeFs.WellFormed (largeFs.volume s.card) ∧ s.rootPath this pathA = some (largeFs, [0x41]) ∧
    largeFs.NotSubdir (largeFs.volume s.card) fileA ∧ largeFs.Contents s.card fileA c ∧ c.length = 65537 ∧
    s.step noFaults (.fileOpen this true (some pathA) efiFileModeWrite) = some (.opened k, s₁) ∧
    s₁.step noFaults (.fileSetPosition k 1) = some (.just .success, s₂) ∧
    s₂.step noFaults (.fileWrite k (some 1) (some fun _ => 7)) = some (.just .success, s₃) ∧
    s₃.step noFaults (.fileClose k) = some (.just .success, s₄) ∧
    largeFs.Contents s₄.card fileA (splice 0 (c.take 65536) 1 [7]) ∧
    ¬ largeFs.Contents s₄.card fileA (splice 0 c 1 [7]) := by
  obtain ⟨hwf, _, he, _, honly⟩ := wellFormed_large
  have hdir : largeFs.NotSubdir largeVolume fileA := fun loc h => by
    rw [honly _ _ h, he, newEntry.isDir_eq]; exact Bool.false_ne_true
  obtain ⟨c, hlen, hc⟩ := contents_large
  have htake : (c.take 65536).length = 65536 := by rw [List.length_take, hlen]; decide
  rw [← volume_largeCard] at hwf hdir
  have hfits : largeFs.Fits (largeFs.volume largeCard) fileA (splice 0 (c.take 65536) 1 [7]) := by
    refine hc.fits hwf ?_ ?_ ?_
    · omega
    · rw [length_splice, htake, hlen]; decide
    · rw [length_splice, htake]; decide
  obtain ⟨this, s, k, h⟩ := exists_openedA hwf hc
  obtain ⟨s₂, s₃, hset, hwrite, hh, hd⟩ := h.edits hwf (show (1 : UInt64).toNat + (1 : UInt64).toNat ≤ 65536 by decide)
    fun _ => 7
  have hparts : rawParts (1 : UInt64).toNat (some fun _ => 7) = [7] := rfl
  rw [hparts] at hh
  obtain ⟨s₄, hclose, hc₄, _⟩ := hh.close (by decide) (fun _ => rfl) hd hdir hfits
  rw [← h.card] at hwf hdir hc
  refine ⟨this, s, _, s₂, s₃, s₄, k, c, h.reachable, hwf, h.root, hdir, hc, hlen, h.opened, hset, hwrite, hclose, hc₄,
    fun hbad => ?_⟩
  have heq := congrArg List.length (hbad.unique hc₄)
  dsimp only at heq
  rw [length_splice, length_splice, htake, hlen] at heq
  exact absurd heq (by decide)

/-! ## Two handles on one file -/

/-- A file that is opened while the handle `k` for writing is open on it. On a working card, once both are closed, the
file is what was last written back with success, and each handle writes back its own byte file as a whole: what `k`
holds, and the file at the time of the second open, each with the calls made on that handle only. -/
theorem last_save_wins {k : Fin maxOpenFiles} {b : ByteFile} (hreach : Reachable s)
    (hroot : s.rootPath this path = some (fs, p)) (hwf : fs.WellFormed (fs.volume s.card)) (ha : fs.Addressable)
    (hname : to83OrNone p = some name) (hdir : fs.NotSubdir (fs.volume s.card) name) (hc : fs.Contents s.card name c)
    (hlen : c.length ≤ 65536) (hmode : mode &&& efiFileModeWrite ≠ 0) (hh : s.Handle k name b)
    (hopen : s.step noFaults (.fileOpen this true (some path) mode) = some (.opened new, s₁)) (hrun : Run s₁ log s₂)
    (hwork : ∀ m ∈ log, m.Working) (hfirst : UntilClose k (log.map Made.call))
    (hsecond : UntilClose new (log.map Made.call))
    (hother : ∀ m ∈ log, m.call.this ≠ some k.val → m.call.this ≠ some new → Aside fs name m) :
    fs.Contents s₂.card name (lastSaved name log c) ∧ ∃ k', new = k'.val ∧ k' ≠ k ∧
      ∀ pre m post, log = pre ++ m :: post → ((m.saved name).isSome → WritesBack k m ∨ WritesBack k' m) ∧
        WritesOwn fs name k b pre m ∧ WritesOwn fs name k' ⟨c, 0⟩ pre m := by
  obtain ⟨k', rfl, hfree, hh', hcard, hs₁⟩ := opened_handle hreach hroot hwf ha hname hdir hc hmode hopen
  rw [List.take_of_length_le hlen] at hh'
  rw [← hcard] at hc hdir
  have hh₁ : s₁.Handle k name b := hh.other hopen fun h => hh.ne_parent hroot (Option.some.inj h)
  have hpolite : ∀ m ∈ log, Polite fs name m := by
    intro m hm
    obtain ⟨pre, post, rfl⟩ := List.append_of_mem hm
    by_cases hk : m.call.this = some k.val
    · exact UntilClose.polite hs₁ hh₁ hrun hfirst hk
    · by_cases hk' : m.call.this = some k'.val
      · exact UntilClose.polite hs₁ hh' hrun hsecond hk'
      · exact (hother m hm hk hk').polite
  refine ⟨(hrun.contents ha hs₁ hdir hwork hpolite hc).2.2, k', rfl, ?_, ?_⟩
  · rintro rfl
    rw [hh.inUse] at hfree
    cases hfree
  · rintro pre m post rfl
    refine ⟨fun hsave => ?_, UntilClose.writesOwn hs₁ hh₁ hrun hfirst, UntilClose.writesOwn hs₁ hh' hrun hsecond⟩
    by_cases hk : m.call.this = some k.val
    · exact Or.inl (UntilClose.writesBack hs₁ hh₁ hrun hfirst hk hsave)
    · by_cases hk' : m.call.this = some k'.val
      · exact Or.inr (UntilClose.writesBack hs₁ hh' hrun hsecond hk' hsave)
      · rw [(hother m (List.mem_append_right _ List.mem_cons_self) hk hk').saved] at hsave
        cases hsave

/-- The first handle writes the first byte and is closed, then the second one writes the second byte and is closed. -/
def overlap (k k' : Fin maxOpenFiles) : List Call :=
  [.fileWrite k (some 1) (some fun _ => 7), .fileClose k, .fileSetPosition k' 1,
    .fileWrite k' (some 1) (some fun _ => 7), .fileClose k']

/-- Both handles have the file `A` of the card open, with contents `c`, before `overlap` is run. -/
structure Overlaps (fs : Fat32) (card : Disk) (c : List UInt8) (this : Nat) (s : Files) (k k' : Fin maxOpenFiles)
    (s₁ : Files) (log : List Made) (s₂ : Files) : Prop where
  reachable : Reachable s
  card : s.card = card
  root : s.rootPath this pathA = some (fs, [0x41])
  handle : s.Handle k fileA ⟨c, 0⟩
  opened : s.step noFaults (.fileOpen this true (some pathA) efiFileModeWrite) = some (.opened k', s₁)
  ne : k' ≠ k
  run : Run s₁ log s₂
  calls : log.map Made.call = overlap k k'
  working {m : Made} : m ∈ log → m.faults = noFaults ∧ m.reply = .just .success
  last : fs.Contents s₂.card fileA (splice 0 c 1 [7])

theorem OpenedA.exists_third {card : Disk} {k : Fin maxOpenFiles} (h : OpenedA fs card c this s k) :
    ∃ j, ((s.setFile k (.fresh fileA c true)).files.get j).inUse = false := by
  have hall : ∀ a k : Fin maxOpenFiles, ∃ j, j ≠ a ∧ j ≠ k := by decide
  obtain ⟨a, _, _, hthis, _⟩ := rootPath_eq_some.mp h.root
  obtain ⟨rfl, _⟩ := thisToIndex_eq_some.mp hthis
  obtain ⟨j, hj, hjk⟩ := hall a k
  exact ⟨j, by rw [setFile_get_of_ne hjk]; exact h.toRooted.free fun he => hj (Fin.ext he)⟩

theorem OpenedA.again {card : Disk} {k : Fin maxOpenFiles} (h : OpenedA fs card c this s k) :
    (s.setFile k (.fresh fileA c true)).rootPath this pathA = some (fs, [0x41]) := by
  obtain ⟨a, dir, raw, hthis, hdir, hrest⟩ := rootPath_eq_some.mp h.root
  obtain ⟨rfl, hu⟩ := thisToIndex_eq_some.mp hthis
  have hget := setFile_get_of_ne (s := s) (f := .fresh fileA c true) fun he => h.slot (congrArg Fin.val he.symm)
  exact rootPath_eq_some.mpr ⟨a, dir, raw, thisToIndex_eq_some.mpr ⟨rfl, by rw [hget]; exact hu⟩, by rw [hget]; exact hdir,
    hrest⟩

theorem exists_overlaps {card : Disk} (hwf : fs.WellFormed (fs.volume card)) (ha : fs.Addressable)
    (hdir : fs.NotSubdir (fs.volume card) fileA) (hc : fs.Contents card fileA c) (hlen : c.length ≤ 65536)
    (h2 : 2 ≤ c.length) : ∃ this s k k' s₁ log s₂, Overlaps fs card c this s k k' s₁ log s₂ := by
  have hf : ∀ i, noFaults i = none := noFaults_none
  have hpos : 0 < c.length := Nat.zero_lt_of_lt h2
  have hlen' : ∀ p < c.length, (splice 0 c p (rawParts (1 : UInt64).toNat (some fun _ => 7))).length = c.length := by
    intro p hp
    rw [length_splice, length_rawParts]
    exact Nat.max_eq_left hp
  obtain ⟨this, s, k, h⟩ := exists_openedA hwf hc
  rw [List.take_of_length_le hlen] at h
  have hreach := h.reachable.step h.opened
  have hroot := h.again
  have hfree := h.exists_third
  have hh := h.holds hwf
  generalize s.setFile k (.fresh fileA c true) = t at hreach hroot hfree hh
  have hct : fs.Contents t.card fileA c := by rw [hh.card]; exact hc
  -- the second open
  obtain ⟨k', hk', hopen⟩ := fileOpen_found hf hfree hroot to83_pathA hct efiFileModeWrite
  rw [List.take_of_length_le hlen] at hopen
  have hreq : t.request noFaults (.fileOpen this true (some pathA) efiFileModeWrite) = none := by
    simp only [request, hroot, Option.bind_eq_bind, Option.bind_some]
    exact createWrite_of_contents hf to83_pathA hct
  have hkk : k' ≠ k := by
    rintro rfl
    rw [hh.handle.inUse] at hk'
    cases hk'
  have hh₁ := hh.other hopen hreq fun he => hh.handle.ne_parent hroot (Option.some.inj he)
  have hh₁' : Holds fs card fileA ⟨c, 0⟩ k' _ :=
    ⟨hh₁.sound, hh₁.card, handle_setFile ⟨rfl, rfl, rfl, rfl, OpenFile.bytes_fresh hlen, rfl⟩⟩
  -- the first handle
  obtain ⟨t₂, s₃, hwrite, hclose, hc₃, hs₃, hdir₃⟩ := hh₁.writeClose (n := 1) ha hf hdir hc hpos
    (show 0 + (1 : UInt64).toNat ≤ 65536 by decide) (hlen' 0 hpos) hlen
  have hh₂ := hh₁'.other hwrite rfl fun he => hkk (Fin.ext (Option.some.inj he).symm)
  have hh₃ : Holds fs s₃.card fileA ⟨c, 0⟩ k' s₃ :=
    ⟨hs₃, rfl, hh₂.handle.other hclose fun he => hkk (Fin.ext (Option.some.inj he).symm)⟩
  -- the second handle
  obtain ⟨f, hseek, hh₄⟩ := hh₃.seek noFaults (ByteFile.seek_of_le _ (show (1 : UInt64).toNat ≤ 65536 by decide))
  have hlen₃ := hlen' 0 hpos
  obtain ⟨t₅, s₆, hwrite', hclose', hc₆, _⟩ := hh₄.writeClose (n := 1) ha hf hdir₃ hc₃ (Nat.lt_of_lt_of_eq hpos hlen₃.symm)
    (show (1 : UInt64).toNat + (1 : UInt64).toNat ≤ 65536 by decide) ((hlen' 1 h2).trans hlen₃.symm)
    (Nat.le_trans (Nat.le_of_eq hlen₃) hlen)
  refine ⟨this, t, k, k', _, [⟨_, noFaults, .fileWrite k (some 1) (some fun _ => 7), .just .success, t₂⟩,
    ⟨t₂, noFaults, .fileClose k, .just .success, s₃⟩, ⟨s₃, noFaults, .fileSetPosition k' 1, .just .success, _⟩,
    ⟨_, noFaults, .fileWrite k' (some 1) (some fun _ => 7), .just .success, t₅⟩,
    ⟨t₅, noFaults, .fileClose k', .just .success, s₆⟩], s₆, hreach, hh.card, hroot, hh.handle, hopen, hkk,
    ⟨rfl, hwrite, rfl, hclose, rfl, hseek, rfl, hwrite', rfl, hclose', rfl⟩, rfl, fun hm => ?_, hc₆⟩
  simp only [List.mem_cons, List.not_mem_nil, or_false] at hm
  rcases hm with rfl | rfl | rfl | rfl | rfl <;> exact ⟨rfl, rfl⟩

theorem last_save_wins_small : ∃ this s k k' s₁ log s₂,
    Overlaps smallFs smallCard (List.replicate 600 0) this s k k' s₁ log s₂ ∧
    smallFs.Contents s₂.card fileA (lastSaved fileA log (List.replicate 600 0)) := by
  have hwf := wellFormed_smallCard
  have hdir := notSubdir_smallCard fileA (by decide)
  have hc := contents_small
  have h600 : (List.replicate 600 (0 : UInt8)).length = 600 := List.length_replicate
  generalize List.replicate 600 (0 : UInt8) = c at hc h600 ⊢
  obtain ⟨this, s, k, k', s₁, log, s₂, h⟩ := exists_overlaps hwf (by decide) hdir hc (by omega) (by omega)
  refine ⟨this, s, k, k', s₁, log, s₂, h, ?_⟩
  rw [← h.card] at hwf hdir hc
  have hkk : k'.val ≠ k.val := fun he => h.ne (Fin.ext he)
  refine (last_save_wins h.reachable h.root hwf (by decide) to83_pathA hdir hc (by omega) (by decide) h.handle h.opened
    h.run (fun m hm i => by rw [(h.working hm).1]; rfl) ?_ ?_ fun m hm hk hk' => ?_).1
  · rw [h.calls]
    simp [UntilClose, overlap, Call.this, Call.plain, hkk]
  · rw [h.calls]
    simp [UntilClose, overlap, Call.this, Call.plain, hkk.symm]
  · have hcall := List.mem_map_of_mem (f := Made.call) hm
    rw [h.calls] at hcall
    simp only [overlap, List.mem_cons, List.not_mem_nil, or_false] at hcall
    rcases hcall with he | he | he | he | he <;> rw [he] at hk hk' <;> first | exact absurd rfl hk | exact absurd rfl hk'

/-- The byte that the first handle has written is lost. -/
theorem overlap_loses_small : ∃ this s k k' s₁ log s₂ c',
    Overlaps smallFs smallCard (List.replicate 600 0) this s k k' s₁ log s₂ ∧ smallFs.Contents s₂.card fileA c' ∧
      c'[1]? = some 7 ∧ c'[0]? ≠ some 7 := by
  have hwf := wellFormed_smallCard
  have hdir := notSubdir_smallCard fileA (by decide)
  have hc := contents_small
  have h600 : (List.replicate 600 (0 : UInt8)).length = 600 := List.length_replicate
  have h0 : (List.replicate 600 (0 : UInt8))[0]? = some 0 := by rw [List.getElem?_replicate]; rfl
  generalize List.replicate 600 (0 : UInt8) = c at hc h600 h0 ⊢
  obtain ⟨this, s, k, k', s₁, log, s₂, h⟩ := exists_overlaps hwf (by decide) hdir hc (by omega) (by omega)
  refine ⟨this, s, k, k', s₁, log, s₂, _, h, h.last, ?_, ?_⟩
  · rw [getElem?_splice, if_neg (by decide), if_pos (by decide)]
    rfl
  · rw [getElem?_splice, if_pos (by decide), if_pos (by omega), h0]
    decide

end Files

end Ferro
