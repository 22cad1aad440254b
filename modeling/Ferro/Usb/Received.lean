import Ferro.Usb.Transfer

/-!
# What the CPU reads of an IN transaction

The lines of the received bytes are cleaned and invalidated after the controller has written them. A line that was dirty
before is written back over them.
-/

namespace Ferro

namespace Cache

variable {line addr len a : Nat} {m : Memory}

theorem lineSize_pos (ctr : UInt64) : 0 < lineSize ctr := by
  rw [lineSize, Nat.shiftLeft_eq]
  exact Nat.mul_pos (by decide) (Nat.two_pow_pos _)

/-- The line of the address is one of those that the range covers. -/
def Covers (line addr len a : Nat) : Prop := ∃ i, i < len ∧ (addr + i) / line = a / line

theorem covers_iff (hline : 0 < line) (hlen : 0 < len) :
    Covers line addr len a ↔ addr / line ≤ a / line ∧ a / line ≤ (addr + len - 1) / line := by
  constructor
  · rintro ⟨i, hi, heq⟩
    rw [← heq]
    exact ⟨Nat.div_le_div_right (by omega), Nat.div_le_div_right (by omega)⟩
  · rintro ⟨hlo, hhi⟩
    by_cases hfirst : a / line = addr / line
    · exact ⟨0, hlen, by rw [hfirst, Nat.add_zero]⟩
    · have hstart : addr ≤ a / line * line := by
        have hlt : addr < (addr / line + 1) * line := Nat.lt_mul_of_div_lt (by omega) hline
        have hle : (addr / line + 1) * line ≤ a / line * line := Nat.mul_le_mul_right line (by omega)
        omega
      have hend : a / line * line ≤ addr + len - 1 := (Nat.le_div_iff_mul_le hline).mp hhi
      refine ⟨a / line * line - addr, by omega, ?_⟩
      rw [Nat.add_sub_cancel' hstart, Nat.mul_div_cancel _ hline]

theorem visible_cleanAndInvalidateRange (hline : 0 < line) (hlen : 0 < len) [Decidable (Covers line addr len a)] :
    (cleanAndInvalidateRange line m addr len).visible line a =
      if Covers line addr len a then m.settled line a else m.visible line a := by
  have hcount : ((addr + len + line - 1) / line * line - addr / line * line) / line =
      (addr + len - 1) / line + 1 - addr / line := by
    have hlast : (addr + len + line - 1) / line = (addr + len - 1) / line + 1 := by
      rw [← Nat.add_div_right _ hline]
      congr 1
      omega
    rw [← Nat.sub_mul, Nat.mul_div_cancel _ hline, hlast]
  have hle : addr / line ≤ (addr + len - 1) / line := Nat.div_le_div_right (by omega)
  rw [cleanAndInvalidateRange, WriteBack.visible_cleanInvalidateFrom, hcount, Nat.mul_div_cancel _ hline]
  refine if_congr ?_ rfl rfl
  rw [covers_iff hline hlen]
  omega

end Cache

namespace Usb

open Cache

variable {line : Nat} {m m' : Memory} {buf : Buffer} {n : Nat}

/-- The first `n` bytes of the buffer are read as they were written to memory, and the bytes outside as before. -/
structure Received (line : Nat) (m m' : Memory) (buf : Buffer) (written : List UInt8) (n : Nat) : Prop where
  inside : ∀ i < n, written[i]? = some (m'.visible line (buf.addr + i))
  outside : ∀ a, a < buf.addr ∨ buf.addr + buf.len ≤ a → m'.visible line a = m.visible line a

/-- No dirty line holds anything else for a byte that is written, and no clean line that is dropped differs from memory
outside of the buffer. -/
structure Settled (line : Nat) (m : Memory) (buf : Buffer) (written : List UInt8) : Prop where
  dirty : ∀ i v copy, written[i]? = some v → m.line ((buf.addr + i) / line) = some ⟨true, copy⟩ → copy (buf.addr + i) = v
  clean : ∀ a copy, a < buf.addr ∨ buf.addr + buf.len ≤ a → Covers line buf.addr written.length a →
    m.line (a / line) = some ⟨false, copy⟩ → copy a = m.ram a

theorem received_iff {written : List UInt8} (hline : 0 < line) (hlen : written.length ≤ buf.len)
    (hpos : 0 < written.length) :
    Received line m (cleanAndInvalidateRange line (m.deviceWrite buf.addr written) buf.addr written.length) buf written
      written.length ↔ Settled line m buf written := by
  classical
  have hin (i : Nat) (hi : i < written.length) :
      (cleanAndInvalidateRange line (m.deviceWrite buf.addr written) buf.addr written.length).visible line
        (buf.addr + i) = (m.deviceWrite buf.addr written).settled line (buf.addr + i) := by
    rw [visible_cleanAndInvalidateRange hline hpos, if_pos ⟨i, hi, rfl⟩]
  constructor
  · rintro ⟨hinside, houtside⟩
    refine ⟨fun i v copy hv => ?_, fun a copy ha hcov => ?_⟩
    · have hi : i < written.length := (List.getElem?_eq_some_iff.mp hv).1
      refine (WriteBack.settled_deviceWrite_iff hv).mp ?_ copy
      rw [← hin i hi]
      exact Option.some.inj ((hinside i hi).symm.trans hv)
    · have hvis := houtside a ha
      rw [visible_cleanAndInvalidateRange hline hpos, if_pos hcov] at hvis
      exact (WriteBack.settled_deviceWrite_outside_iff (by omega)).mp hvis copy
  · rintro ⟨hdirty, hclean⟩
    refine ⟨fun i hi => ?_, fun a ha => ?_⟩
    · have hv : written[i]? = some written[i] := List.getElem?_eq_getElem hi
      rw [hin i hi, (WriteBack.settled_deviceWrite_iff hv).mpr fun copy => hdirty i _ copy hv, hv]
    · rw [visible_cleanAndInvalidateRange hline hpos]
      split
      · next hcov =>
        exact (WriteBack.settled_deviceWrite_outside_iff (by omega)).mpr fun copy => hclean a copy ha hcov
      · exact WriteBack.visible_deviceWrite_outside (by omega)

/-! ## The registers -/

variable {dev : Device} {epNum epType pid : UInt32} {epDirIn : Bool} {channel : Channel}

theorem hcdma_eq (h : channelFor dev epNum epType epDirIn pid buf = some channel) : channel.hcdma.toNat = buf.addr := by
  rw [channelFor] at h
  split at h
  · cases h
  · cases h
    have hram := buf.inRam
    exact Nat.mod_eq_of_lt (by unfold ramEnd at hram; omega)

/-- The lowest field of `HCTSIZ`. -/
theorem toNat_sizeField (a b c : UInt32) :
    (((a &&& (0x7FFFF : UInt32)) ||| (b <<< 19) ||| (c <<< 29)) &&& 0x7FFFF).toNat = a.toNat % 2 ^ 19 := by
  refine Nat.eq_of_testBit_eq fun i => ?_
  have hmask : (0x7FFFF : UInt32).toNat = 2 ^ 19 - 1 := rfl
  have h19 : (19 : UInt32).toNat = 19 := rfl
  have h29 : (29 : UInt32).toNat = 29 := rfl
  simp only [UInt32.toNat_and, UInt32.toNat_or, UInt32.toNat_shiftLeft, hmask, h19, h29, Nat.testBit_and,
    Nat.testBit_or, Nat.testBit_two_pow_sub_one, Nat.testBit_mod_two_pow, Nat.testBit_shiftLeft]
  by_cases hi : i < 19
  · simp [hi, Nat.not_le.mpr hi, show ¬ 29 ≤ i by omega]
  · simp [hi]

theorem xferSize_eq (h : channelFor dev epNum epType epDirIn pid buf = some channel) :
    channel.xferSize = buf.len % 2 ^ 19 := by
  rw [channelFor] at h
  split at h
  · cases h
  · cases h
    have hram := buf.inRam
    have hlen : buf.len.toUInt32.toNat = buf.len := Nat.mod_eq_of_lt (by unfold ramEnd at hram; omega)
    rw [Channel.xferSize, toNat_sizeField, hlen]

variable {usb : Controller}

/-- A transaction that succeeds returns the bytes that moved, and drops the lines of those that came in. -/
theorem transact_eq (hc : channelFor dev epNum epType true pid buf = some channel)
    (h : transact usb line m dev epNum epType true pid buf = some (.ok n, m')) :
    n = buf.len - channel.remaining true (usb channel m.ram) ∧
      m' = if 0 < n then cleanAndInvalidateRange line (m.deviceWrite buf.addr (channel.written true (usb channel m.ram)))
          buf.addr n
        else m.deviceWrite buf.addr (channel.written true (usb channel m.ram)) := by
  rw [transact, hc] at h
  simp only [if_true, true_and, hcdma_eq hc] at h
  split at h
  · cases h
  · split at h
    · cases h
    · split at h
      · cases h
      · split at h
        · cases h
        · split at h <;> next hpos =>
            cases h
            simp [hpos]

/-- What an IN transaction delivers, against what was in the cache before. -/
theorem transact_received_iff {ctr : UInt64} (hc : channelFor dev epNum epType true pid buf = some channel)
    (h : transact usb (lineSize ctr) m dev epNum epType true pid buf = some (.ok n, m')) :
    Received (lineSize ctr) m m' buf (channel.written true (usb channel m.ram)) n ↔
      buf.len < 2 ^ 19 ∧ Settled (lineSize ctr) m buf (channel.written true (usb channel m.ram)) := by
  obtain ⟨hn, hm'⟩ := transact_eq hc h
  have hsize := xferSize_eq hc
  rw [Channel.remaining, if_pos rfl, hsize] at hn
  have hle : (channel.written true (usb channel m.ram)).length ≤ buf.len % 2 ^ 19 := by
    rw [← hsize, Channel.written, if_pos rfl]
    exact List.length_take_le _ _
  generalize channel.written true (usb channel m.ram) = written at *
  have hmod : buf.len % 2 ^ 19 ≤ buf.len := Nat.mod_le _ _
  by_cases hlen : buf.len < 2 ^ 19
  · obtain rfl : n = written.length := by
      rw [Nat.mod_eq_of_lt hlen] at hn hle
      omega
    rw [hm', and_iff_right hlen]
    split
    · next hpos => exact received_iff (lineSize_pos ctr) (by omega) hpos
    · next hpos =>
      obtain rfl : written = [] := List.length_eq_zero_iff.mp (by omega)
      refine iff_of_true ⟨by simp, fun a ha => ?_⟩ ⟨by simp, fun a copy _ hcov => ?_⟩
      · exact WriteBack.visible_deviceWrite_outside (by rw [List.length_nil]; omega)
      · obtain ⟨i, hi, -⟩ := hcov
        exact absurd hi (Nat.not_lt_zero i)
  · refine iff_of_false (fun hrec => ?_) fun hs => hlen hs.1
    have hlt : buf.len % 2 ^ 19 < buf.len := (Nat.mod_lt _ (by decide)).trans_le (Nat.not_lt.mp hlen)
    have hbyte := hrec.inside written.length (by omega)
    rw [List.getElem?_eq_none (Nat.le_refl _)] at hbyte
    cases hbyte

/-- A keyboard on which the key a has gone down. -/
def pressed : Controller := fun _ _ => ⟨[0, 0, 4, 0, 0, 0, 0, 0], 0, some 2⟩

def keyboard : Device := ⟨2, 8, true⟩

def report : Buffer := ⟨0x1000, 8, by decide⟩

/-- Memory with nothing in the cache. -/
def cold : Memory := ⟨fun _ => 0xFF, fun _ => none⟩

/-- `let mut report = [0u8; 8]`. -/
def zeroed : Memory := (List.range 8).foldl (fun m i => m.store (lineSize 0x40000) (report.addr + i) 0) cold

theorem transact_received_iff_cold : ∃ channel m', channelFor keyboard 1 3 true 2 report = some channel ∧
    transact pressed (lineSize 0x40000) cold keyboard 1 3 true 2 report = some (.ok 8, m') ∧
      Received (lineSize 0x40000) cold m' report (channel.written true (pressed channel cold.ram)) 8 := by
  obtain ⟨channel, hc⟩ : ∃ channel, channelFor keyboard 1 3 true 2 report = some channel := ⟨_, rfl⟩
  obtain ⟨m', h⟩ : ∃ m', transact pressed (lineSize 0x40000) cold keyboard 1 3 true 2 report = some (.ok 8, m') :=
    ⟨_, rfl⟩
  refine ⟨channel, m', hc, h, (transact_received_iff hc h).mpr ⟨by decide, fun i v copy _ hline => ?_, ?_⟩⟩
  · cases hline
  · intro a copy _ _ hline
    cases hline

/-- The zeros of the fresh buffer are written back over the report. -/
theorem report_overwritten : ∃ channel m', channelFor keyboard 1 3 true 2 report = some channel ∧
    transact pressed (lineSize 0x40000) zeroed keyboard 1 3 true 2 report = some (.ok 8, m') ∧
      ¬ Received (lineSize 0x40000) zeroed m' report (channel.written true (pressed channel zeroed.ram)) 8 := by
  refine ⟨_, _, rfl, rfl, fun h => ?_⟩
  exact absurd (h.inside 2 (by decide)) (by decide +kernel)

end Usb

end Ferro
