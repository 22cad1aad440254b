import Ferro.Files.Lemmas.Steps

/-!
# A file handle is a byte file

Each call on a handle opened for writing answers as the byte file that the handle holds, and the calls on other
handles leave it alone.
-/

namespace Ferro

/-- The slot is a file opened for writing under `name`, and holds `b`. -/
structure OpenFile.Represents (f : OpenFile) (name : Name) (b : ByteFile) : Prop where
  inUse : f.inUse
  file : f.dirCluster = none
  forWrite : f.forWrite
  name : f.name83 = name
  bytes : f.bytes = b.bytes
  pos : f.pos = b.pos

theorem ByteFile.seek_of_le (b : ByteFile) {position : UInt64} (h : position.toNat ≤ 65536) :
    b.seek position = some ⟨b.bytes, position.toNat⟩ := by
  have hmax : (0xFFFFFFFFFFFFFFFF : UInt64).toNat = 2 ^ 64 - 1 := rfl
  have hend : position ≠ 0xFFFFFFFFFFFFFFFF := by rintro rfl; omega
  rw [seek, if_neg hend, if_neg (Nat.not_lt.mpr h)]

namespace Files

variable {s s' : Files} {faults : Faults} {c : Call} {r : Reply} {k : Fin maxOpenFiles} {name : Name} {b : ByteFile}
  {f : OpenFile}

/-- The handle is a file opened for writing under `name`, and holds `b`. -/
def Handle (s : Files) (k : Fin maxOpenFiles) (name : Name) (b : ByteFile) : Prop := (s.files.get k).Represents name b

theorem handle_setFile (h : f.Represents name b) : (s.setFile k f).Handle k name b := by
  rw [Handle, setFile_get_self]
  exact h

theorem Handle.index (h : s.Handle k name b) : s.thisToIndex k = some k := thisToIndex_eq_some.mpr ⟨rfl, h.inUse⟩

theorem Handle.other (hh : s.Handle k name b) (h : s.step faults c = some (r, s')) (hc : c.this ≠ some k.val) :
    s'.Handle k name b := by
  rw [Handle, step_slot h hh.inUse hc]
  exact hh

theorem Handle.flushWrite (hh : s.Handle k name b) {fs : Fat32} (hfs : s.context = some fs) :
    s.flushWrite k = if (s.files.get k).dirty then some ⟨fs, name, b.bytes, 0⟩ else none := by
  rw [flushWrite_eq hh.index, hfs, hh.forWrite, hh.name, hh.bytes]
  rfl

/-- What a call of a byte file does on the code's side. If the handle is clean afterwards, its bytes have not
changed, and it was clean before or has just been flushed. -/
structure Answers (s : Files) (k : Fin maxOpenFiles) (name : Name) (b : ByteFile) (c : Call) (r : Reply) (s' : Files)
    (b' : ByteFile) : Prop where
  reply : b.step c = some (r, b')
  handle : s'.Handle k name b'
  clean : (s'.files.get k).dirty = false →
    b'.bytes = b.bytes ∧ ((s.files.get k).dirty = false ∨ c = .fileFlush k)

theorem Handle.same (hh : s.Handle k name b) (hr : b.step c = some (r, b)) : s.Answers k name b c r s b :=
  ⟨hr, hh, fun hd => ⟨rfl, Or.inl hd⟩⟩

theorem Handle.fileRead (hh : s.Handle k name b) (hv : (s.files.get k).Valid) {size : Option UInt64} {buffer : OutPtr}
    (h : s.fileRead k size buffer = (r, s')) : ∃ b', s.Answers k name b (.fileRead k size buffer) r s' b' := by
  unfold Files.fileRead at h
  cases size with
  | none => cases buffer <;> (cases h; exact ⟨b, hh.same rfl⟩)
  | some n =>
      cases buffer with
      | false => cases h; exact ⟨b, hh.same rfl⟩
      | true =>
          simp only [hh.index, hh.file, Option.isSome_none, Bool.false_eq_true, if_false] at h
          have hout := OpenFile.slice_pos hv n.toNat
          have hlen : min ((s.files.get k).len - (s.files.get k).pos) n.toNat =
              ((b.bytes.drop b.pos).take n.toNat).length := by
            rw [List.length_take, List.length_drop, ← hh.bytes, OpenFile.length_bytes hv, hh.pos, Nat.min_comm]
          rw [hout, hlen, hh.bytes, hh.pos] at h
          cases h
          refine ⟨(b.read n.toNat).2, rfl, handle_setFile ?_, fun hd => ⟨rfl, Or.inl ?_⟩⟩
          · exact ⟨hh.inUse, rfl, hh.forWrite, hh.name, hh.bytes, rfl⟩
          · rwa [setFile_get_self] at hd

theorem Handle.fileWrite_eq (hh : s.Handle k name b) (hv : (s.files.get k).Valid) {n : UInt64}
    (hle : b.pos + n.toNat ≤ 65536) (ptr : Ptr8) :
    ∃ f, s.fileWrite k (some n) (some ptr) = some (.just .success, s.setFile k f) ∧ f.dirty ∧
      f.Represents name ⟨splice 0 b.bytes b.pos (rawParts n.toNat (some ptr)), b.pos + n.toNat⟩ := by
  have hlen := length_rawParts n.toNat ptr
  have he : ((s.files.get k).pos + n.toNat) % 2 ^ 64 = b.pos + n.toNat := by
    rw [hh.pos]
    exact Nat.mod_eq_of_lt (by omega)
  have hbytes := OpenFile.bytes_write hv (by rw [hlen, hh.pos]; exact hle)
  rw [hlen, hh.pos, hh.bytes] at hbytes
  refine ⟨{ s.files.get k with
    data := (s.files.get k).data.put (s.files.get k).pos (rawParts n.toNat (some ptr))
    pos := b.pos + n.toNat
    len := max (s.files.get k).len (b.pos + n.toNat)
    dirty := true }, ?_, rfl, hh.inUse, hh.file, hh.forWrite, hh.name, ?_, rfl⟩
  · simp only [Files.fileWrite, hh.index, hh.file, hh.forWrite, Option.isSome_none, Bool.false_eq_true, if_false,
      Bool.not_true, he, maxFileBytes, if_neg (Nat.not_lt.mpr hle)]
    rw [if_neg (by rw [hh.pos]; omega)]
  · rw [← hbytes, ← hh.pos]
    rfl

theorem Handle.fileWrite (hh : s.Handle k name b) (hv : (s.files.get k).Valid) {size : Option UInt64}
    {buffer : Option Ptr8} (h : s.fileWrite k size buffer = some (r, s')) :
    ∃ b', s.Answers k name b (.fileWrite k size buffer) r s' b' := by
  cases size with
  | none => cases buffer <;> (cases h; exact ⟨b, hh.same rfl⟩)
  | some n =>
      cases buffer with
      | none => cases h; exact ⟨b, hh.same rfl⟩
      | some ptr =>
          have hlen := length_rawParts n.toNat ptr
          by_cases hle : b.pos + n.toNat ≤ 65536
          · obtain ⟨f, hf, hd, hrep⟩ := hh.fileWrite_eq hv hle ptr
            rw [hf] at h
            cases h
            refine ⟨_, ?_, handle_setFile hrep, fun hd' => ?_⟩
            · simp only [ByteFile.step, ByteFile.write, hlen]
              rw [if_neg (by omega)]
            · rw [setFile_get_self, hd] at hd'
              cases hd'
          · -- the sum is too large, or it wraps around and the call does not return
            have hpos := hv.pos_le
            have hn := n.toNat_lt
            rw [hh.pos] at hpos
            simp only [Files.fileWrite, hh.index, hh.file, hh.forWrite, Option.isSome_none, Bool.false_eq_true, if_false,
              Bool.not_true, hh.pos, maxFileBytes] at h
            split at h
            · cases h
              refine ⟨b, hh.same ?_⟩
              simp only [ByteFile.step, ByteFile.write, hlen]
              rw [if_pos (by omega)]
            · rename_i hbig
              rw [if_pos (by omega)] at h
              cases h

theorem Handle.fileSetPosition_eq (hh : s.Handle k name b) (hv : (s.files.get k).Valid) {position : UInt64} {b' : ByteFile}
    (hb : b.seek position = some b') : s.fileSetPosition k position =
      (.just .success, s.setFile k { s.files.get k with pos := b'.pos }) ∧ b'.bytes = b.bytes := by
  have hlen : b.bytes.length = (s.files.get k).len := by rw [← hh.bytes, OpenFile.length_bytes hv]
  simp only [Files.fileSetPosition, hh.index, hh.file, Option.isSome_none, Bool.false_eq_true, if_false, maxFileBytes]
  unfold ByteFile.seek at hb
  split at hb
  · rename_i hend
    cases hb
    rw [if_pos hend, hlen]
    exact ⟨rfl, rfl⟩
  · rename_i hend
    split at hb
    · cases hb
    · rename_i hle
      cases hb
      rw [if_neg hend, if_neg hle]
      exact ⟨rfl, rfl⟩

theorem Handle.fileSetPosition (hh : s.Handle k name b) (hv : (s.files.get k).Valid) {position : UInt64}
    (h : s.fileSetPosition k position = (r, s')) : ∃ b', s.Answers k name b (.fileSetPosition k position) r s' b' := by
  cases hb : b.seek position with
  | some b' =>
      obtain ⟨heq, hbytes⟩ := hh.fileSetPosition_eq hv hb
      rw [heq] at h
      cases h
      refine ⟨b', by simp only [ByteFile.step, hb], handle_setFile ?_, fun hd => ⟨hbytes, Or.inl ?_⟩⟩
      · exact ⟨hh.inUse, hh.file, hh.forWrite, hh.name, by rw [hbytes]; exact hh.bytes, rfl⟩
      · rwa [setFile_get_self] at hd
  | none =>
      simp only [Files.fileSetPosition, hh.index, hh.file, Option.isSome_none, Bool.false_eq_true, if_false,
        maxFileBytes] at h
      refine ⟨b, ?_⟩
      have hstep : b.step (.fileSetPosition k position) = some (.just .invalidParameter, b) := by
        simp only [ByteFile.step, hb]
      unfold ByteFile.seek at hb
      split at hb
      · cases hb
      · rename_i hend
        split at hb
        · rename_i hbig
          rw [if_neg hend, if_pos hbig] at h
          cases h
          exact hh.same hstep
        · cases hb

theorem Handle.call (hh : s.Handle k name b) (hv : (s.files.get k).Valid) (h : s.step faults c = some (r, s'))
    (hc : c.this = some k.val) (hp : c.plain) : ∃ b', s.Answers k name b c r s' b' := by
  cases c with
  | fileRead this size buffer => cases hc; exact hh.fileRead hv (Option.some.inj h)
  | fileWrite this size buffer => cases hc; exact hh.fileWrite hv h
  | fileGetPosition this position =>
      cases hc
      simp only [step, Files.fileGetPosition, hh.index, hh.pos] at h
      cases position <;> (cases h; exact ⟨b, hh.same rfl⟩)
  | fileSetPosition this position => cases hc; exact hh.fileSetPosition hv (Option.some.inj h)
  | fileFlush this =>
      cases hc
      obtain ⟨rfl, rfl⟩ := fileFlush_eq hh.index h
      exact ⟨b, rfl, handle_setFile ⟨hh.inUse, hh.file, hh.forWrite, hh.name, hh.bytes, hh.pos⟩,
        fun _ => ⟨rfl, Or.inr rfl⟩⟩
  | openVolume root => cases hp
  | fileOpen this newHandle fileName mode => cases hp
  | fileClose this => cases hp
  | fileDelete this => cases hp
  | fileGetInfo this guid size buffer => cases hp
  | fileSetInfo this => cases hp
  | writeFile name data => cases hp

end Files

end Ferro
