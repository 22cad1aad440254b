import Ferro.Fat32.Lemmas.Listing
import Ferro.Fat32.Listing
import Ferro.Files.Lemmas.Runs

/-!
# Calls on a working card

What `OpenVolume`, the branch of `Open` for a single component under the root, and the calls on a handle return when no
block fails.
-/

namespace Ferro

namespace Files

variable {fs : Fat32} {s s' : Files} {faults : Faults} {this : Nat} {path : Ptr16} {p : List UInt8} {mode : UInt64}
  {name : Name} {c : List UInt8}

/-- The path behind the leading `\` is not empty: that is the path of the root itself. -/
theorem rootPath_ne_nil (h : s.rootPath this path = some (fs, p)) : p ≠ [] := by
  obtain ⟨_, dir, raw, _, _, _, hroot, hraw, hstart, _⟩ := rootPath_eq_some.mp h
  obtain ⟨m, hend, hne, hraw⟩ := char16Loop_eq hraw
  simp only [Nat.zero_add, List.nil_append] at hend hne hraw
  simp only [isRootPath, Bool.or_eq_false_iff, Bool.and_eq_false_iff, decide_eq_false_iff_not] at hroot
  obtain ⟨⟨h0, h1⟩, _⟩ := hroot
  rintro rfl
  cases m with
  | zero => exact h0 hend
  | succ m =>
      rw [List.range_succ_eq_map, List.map_cons, List.map_map] at hraw
      generalize hx : (if path 0 < 128 then (path 0).toUInt8 else 0x3F) = x at hraw
      rw [startOf, hraw, List.head?_cons, List.tail_cons] at hstart
      split at hstart
      · rename_i hslash
        cases m with
        | zero =>
            refine h1.elim (fun h => h ?_) fun h => h hend
            rw [Option.some.inj hslash] at hx
            split at hx
            · rename_i hlt
              exact UInt16.toNat_inj.mp (by rw [← toUInt8_of_lt hlt, hx]; rfl)
            · cases hx
        | succ m => rw [List.range_succ_eq_map] at hstart; cases (Prod.mk.inj hstart).2
      · cases (Prod.mk.inj hstart).2

theorem newFile_of_free (hfree : ∃ k, (s.files.get k).inUse = false) (name : Name) (buf : List UInt8) (forWrite : Bool) :
    ∃ k, (s.files.get k).inUse = false ∧
      s.newFile name buf forWrite = (.opened k, s.setFile k (.fresh name buf forWrite)) := by
  rcases s.newFile_cases name buf forWrite with ⟨hall, _⟩ | h
  · obtain ⟨k, hk⟩ := hfree
    rw [hall k] at hk
    cases hk
  · exact h

theorem fileOpen_found (hf : ∀ i, faults i = none) (hfree : ∃ k, (s.files.get k).inUse = false)
    (hroot : s.rootPath this path = some (fs, p)) (hname : to83OrNone p = some name)
    (hc : fs.Contents s.card name c) (mode : UInt64) :
    ∃ k, (s.files.get k).inUse = false ∧ s.step faults (.fileOpen this true (some path) mode) =
      some (.opened k, s.setFile k (.fresh name (c.take 65536) (mode &&& efiFileModeWrite ≠ 0))) := by
  obtain ⟨k, hk, hnew⟩ := newFile_of_free hfree name (c.take 65536) (mode &&& efiFileModeWrite ≠ 0)
  refine ⟨k, hk, ?_⟩
  rw [step, fileOpen_root hroot]
  simp only [openRootFile, hname, exec_readFile hf, hc maxFileBytes, Stop.returned, Option.map_some, Option.bind_eq_bind,
    Option.bind_some]
  exact congrArg some hnew

theorem fileOpen_absent (hf : ∀ i, faults i = none) (hroot : s.rootPath this path = some (fs, p))
    (hno : ∀ name, to83OrNone p = some name → ((fs.readFile name maxFileBytes).run s.card).1 = .error (.err .notFound))
    (hmode : mode &&& efiFileModeCreate = 0) :
    s.step faults (.fileOpen this true (some path) mode) = some (.just .notFound, s) := by
  rw [step, fileOpen_root hroot, openRootFile]
  cases hname : to83OrNone p with
  | none => rfl
  | some name =>
      simp only [exec_readFile hf, hno name hname, Stop.returned, Option.map_some, Option.bind_eq_bind, Option.bind_some]
      rw [if_neg (not_not.mpr hmode)]
      rfl

/-- The handle of a directory on a working card, in a slot that is not in use. -/
theorem openDir_of_chain {i dir : Nat} {l : List Nat} (hf : ∀ i, faults i = none) (hc : Chain (fs.nextAt s.card) dir l)
    (hfree : ∃ k, (s.files.get k).inUse = false) : ∃ k, (s.files.get k).inUse = false ∧
      s.openDir faults i fs dir = some (some k, s.setFile k (.freshDir dir
        ((DirEntry.listing (fs.dirEntries s.card l)).take maxDirEntries))) := by
  rcases s.allocSlot_cases with ⟨hall, _⟩ | ⟨k, hk, ha⟩
  · obtain ⟨k, hk⟩ := hfree
    rw [hall k] at hk
    cases hk
  · have hrun : ((fs.listDir dir maxDirEntries).run s.card).1 = .ok _ :=
      congrArg Prod.fst (fs.run_listDir_chain s.card hc maxDirEntries)
    have hexec := exec_of_readOnly (s := s.setFile k { emptyFile with inUse := true }) hf
      (fs.readOnly_listDir dir maxDirEntries) hrun i
    refine ⟨k, hk, ?_⟩
    simp only [openDir, ha, hexec, Option.bind_eq_bind, Option.bind_some, setFile_get_self, setFile_setFile]
    rfl

theorem openVolume_opened (hf : ∀ i, faults i = none) (hctx : s.context = some fs)
    (hwf : fs.WellFormed (fs.volume s.card)) (hfree : ∃ k, (s.files.get k).inUse = false) :
    ∃ k dirEntries, (s.files.get k).inUse = false ∧ s.step faults (.openVolume true) =
      some (.opened k, s.setFile k (.freshDir fs.rootCluster.toNat dirEntries)) := by
  obtain ⟨R, hR⟩ := hwf.root
  have hlist : ((fs.listDir fs.rootCluster.toNat maxDirEntries).run s.card).1 = _ :=
    (Fat32.runs_listDir (C := fun _ => True) hwf.geometry trivial hR s.card rfl).2.2.1
  rcases s.allocSlot_cases with ⟨hall, _⟩ | ⟨k, hk, halloc⟩
  · obtain ⟨k, hk⟩ := hfree
    rw [hall k] at hk
    cases hk
  · refine ⟨k, (Fat32.listed (fs.volume s.card) (fs.slots R)).take maxDirEntries, hk, ?_⟩
    have hexec := exec_of_readOnly (s := s.setFile k { emptyFile with inUse := true }) hf
      (fs.readOnly_listDir fs.rootCluster.toNat maxDirEntries) hlist 0
    simp only [step, openVolume, hctx, openedDir, openDir, halloc, hexec, Option.bind_eq_bind, Option.bind_some,
      setFile_get_self, setFile_setFile, Bool.not_true, Bool.false_eq_true, if_false]
    rfl

/-! ## Using a handle -/

/-- The handle holds the byte file `b`, and the card is `card`. -/
structure Holds (fs : Fat32) (card : Disk) (name : Name) (b : ByteFile) (k : Fin maxOpenFiles) (s : Files) : Prop where
  sound : Sound fs s
  card : s.card = card
  handle : s.Handle k name b

namespace Holds

variable {card : Disk} {b b' : ByteFile} {k j : Fin maxOpenFiles} {call : Call} {r : Reply}
  (h : Holds fs card name b k s)

include h

theorem other (hstep : s.step faults call = some (r, s')) (hreq : s.request faults call = none)
    (hne : call.this ≠ some k.val) : Holds fs card name b k s' := by
  obtain ⟨hs, hcard⟩ := h.sound.step_none hstep hreq
  exact ⟨hs, hcard.trans h.card, h.handle.other hstep hne⟩

theorem seek (faults : Faults) {position : UInt64} (hb : b.seek position = some b') :
    ∃ f, s.step faults (.fileSetPosition k position) = some (.just .success, s.setFile k f) ∧
      Holds fs card name b' k (s.setFile k f) := by
  obtain ⟨heq, hbytes⟩ := h.handle.fileSetPosition_eq (h.sound.valid k) hb
  have hstep : s.step faults (.fileSetPosition k position) = some (.just .success, _) := congrArg some heq
  obtain ⟨hs, hcard⟩ := h.sound.step_none hstep rfl
  refine ⟨_, hstep, hs, hcard.trans h.card, handle_setFile ?_⟩
  have hrep : (s.files.get k).Represents name b := h.handle
  exact ⟨hrep.inUse, hrep.file, hrep.forWrite, hrep.name, by rw [hbytes]; exact hrep.bytes, rfl⟩

theorem write (faults : Faults) {n : UInt64} (hle : b.pos + n.toNat ≤ 65536) (ptr : Ptr8) :
    ∃ f, s.step faults (.fileWrite k (some n) (some ptr)) = some (.just .success, s.setFile k f) ∧ f.dirty ∧
      Holds fs card name ⟨splice 0 b.bytes b.pos (rawParts n.toNat (some ptr)), b.pos + n.toNat⟩ k (s.setFile k f) := by
  obtain ⟨f, heq, hd, hrep⟩ := h.handle.fileWrite_eq (h.sound.valid k) hle ptr
  have hstep : s.step faults (.fileWrite k (some n) (some ptr)) = some (.just .success, _) := heq
  obtain ⟨hs, hcard⟩ := h.sound.step_none hstep rfl
  exact ⟨f, hstep, hd, hs, hcard.trans h.card, handle_setFile hrep⟩

section Close

variable (ha : fs.Addressable) (hf : ∀ i, faults i = none) (hd : (s.files.get k).dirty)
  (hdir : fs.NotSubdir (fs.volume card) name)

include ha hf hd hdir

theorem closed (hclose : s.step faults (.fileClose k) = some (r, s')) :
    Sound fs s' ∧ ∃ x, fs.Overwrites card name b.bytes x s'.card := by
  have hback : WritesBack k ⟨s, faults, .fileClose k, r, s'⟩ := Or.inr rfl
  have hreq := hback.request h.sound.context h.handle
  rw [if_pos hd] at hreq
  have ho := (hback.polite h.sound.context h.handle).orderly (by rw [h.card]; exact hdir)
  have hover := ho.overwrites h.sound ha hclose hreq fun _ _ => hf _
  rw [h.card] at hover
  exact ⟨ho.sound h.sound ha hclose fun _ _ _ _ => hf _, _, hover⟩

theorem close (hfits : fs.Fits (fs.volume card) name b.bytes) :
    ∃ s', s.step faults (.fileClose k) = some (.just .success, s') ∧ fs.Contents s'.card name b.bytes ∧ Sound fs s' ∧
      fs.NotSubdir (fs.volume s'.card) name := by
  obtain ⟨s', hclose⟩ := fileClose_returns hf h.sound ha (by rw [h.card]; exact hdir) h.handle
  obtain ⟨hs', x, hover⟩ := h.closed ha hf hd hdir hclose
  exact ⟨s', hclose, hover.written (hover.ok_iff.mpr hfits), hs', hover.notSubdir hdir⟩

end Close

theorem writeClose {n : UInt64} {ptr : Ptr8} (ha : fs.Addressable) (hf : ∀ i, faults i = none)
    (hdir : fs.NotSubdir (fs.volume card) name) (hc : fs.Contents card name c) (hpos : 0 < c.length)
    (hle : b.pos + n.toNat ≤ 65536) (hlen : (splice 0 b.bytes b.pos (rawParts n.toNat (some ptr))).length = c.length)
    (hbig : c.length ≤ 65536) : ∃ t s', s.step faults (.fileWrite k (some n) (some ptr)) = some (.just .success, t) ∧
      t.step faults (.fileClose k) = some (.just .success, s') ∧
      fs.Contents s'.card name (splice 0 b.bytes b.pos (rawParts n.toNat (some ptr))) ∧ Sound fs s' ∧
      fs.NotSubdir (fs.volume s'.card) name := by
  have hwf := h.sound.wellFormed
  rw [h.card] at hwf
  have hfits := hc.fits hwf hpos (Nat.le_of_eq hlen) (by omega)
  obtain ⟨f, hwrite, hd, hh⟩ := h.write faults hle ptr
  obtain ⟨s', hclose, hs'⟩ := hh.close ha hf (by rw [setFile_get_self]; exact hd) hdir hfits
  exact ⟨_, s', hwrite, hclose, hs'⟩

end Holds

end Files

end Ferro
