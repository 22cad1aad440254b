import Ferro.Display.Mailbox
import Ferro.Display.Runs

/-!
# The framebuffer comes from the GPU

The GPU gets the message that the CPU wrote and the CPU reads the answer, whatever the cache does in the meantime.
-/

namespace Ferro

namespace Mailbox

open WriteBack

variable {line addr len : Nat} {gpu : Gpu line} {m m' : Memory} {channel : UInt32}

/-- The alias and the channel do not touch the bits of an aligned address. -/
theorem messageAddr_request (haligned : 16 ∣ addr) (hlt : addr < 2 ^ 30) (channel : UInt32) :
    messageAddr (request addr channel) = addr := by
  have htoNat : addr.toUInt32.toNat = addr := UInt32.toNat_ofNat_of_lt' (by rw [UInt32.size]; omega)
  have hmask : (~~~(0xF : UInt32)).toNat = 0xFFFFFFF0 := rfl
  have halias : gpuUncachedAlias.toNat = 0xC0000000 := rfl
  have hchannel : (0xF : UInt32).toNat = 0xF := rfl
  have hreal : (0x3FFFFFF0 : UInt32).toNat = 0x3FFFFFF0 := rfl
  rw [messageAddr, request]
  simp only [UInt32.toNat_and, UInt32.toNat_or, htoNat, hmask, halias, hchannel, hreal]
  obtain ⟨k, rfl⟩ := haligned
  refine Nat.eq_of_testBit_eq fun i => ?_
  have hlow : (16 * k).testBit i = (decide (4 ≤ i) && k.testBit (i - 4)) := Nat.testBit_two_pow_mul (i := 4) (a := k)
  have hhigh : 30 ≤ i → (16 * k).testBit i = false := fun hi =>
    Nat.testBit_lt_two_pow (Nat.lt_of_lt_of_le hlt (Nat.pow_le_pow_right (by decide) hi))
  simp only [Nat.testBit_and, Nat.testBit_or]
  by_cases h30 : 30 ≤ i
  · have hout : Nat.testBit 0x3FFFFFF0 i = false :=
      Nat.testBit_lt_two_pow (Nat.lt_of_lt_of_le (by decide) (Nat.pow_le_pow_right (by decide) h30))
    rw [hhigh h30, hout, Bool.and_false]
  · have hi : i < 30 := by omega
    have hmask : ∀ i < 30, Nat.testBit 0xFFFFFFF0 i = decide (4 ≤ i) := by decide
    have halias : ∀ i < 30, Nat.testBit 0xC0000000 i = false := by decide
    have hchannel : ∀ i < 30, Nat.testBit 0xF i = !decide (4 ≤ i) := by decide
    have hreal : ∀ i < 30, Nat.testBit 0x3FFFFFF0 i = decide (4 ≤ i) := by decide
    rw [hlow, hmask i hi, halias i hi, hchannel i hi, hreal i hi]
    cases decide (4 ≤ i) <;> simp

/-- What a call does to memory. -/
structure CallSpec (gpu : Gpu line) (m : Memory) (addr len : Nat) (written : List UInt8) (m' : Memory) : Prop where
  inside : ∀ i v, written[i]? = some v → m'.visible line (addr + i) = v
  outside : ∀ a, a < addr ∨ addr + written.length ≤ a → m'.visible line a = m.visible line a
  coherent : Coherent line m'

/-- The GPU reads the message that the CPU wrote; if it sends the word back, its answer is read by the CPU, and the rest
of memory stays. -/
theorem call_spec (gpu : Gpu line) (hline : 0 < line) (hm : Coherent line m) (len : Nat) (channel : UInt32)
    (haligned : 16 ∣ addr) (hlt : addr < 2 ^ 30) :
    ∃ ram : Nat → UInt8, (∀ a, addr ≤ a → a < addr + len * 4 → ram a = m.visible line a) ∧
      ∀ written, gpu.reply (request addr channel) ram = written → written.length ≤ len * 4 →
        request addr channel ∈ gpu.sent (request addr channel) →
        ∃ m', call gpu m addr len channel =
            some (decide (Words.read (m'.visible line) (addr + 1 * 4) = 0x80000000), m') ∧
          CallSpec gpu m addr len written m' := by
  let m₁ := gpu.before (Cache.cleanAndInvalidateRange line m addr (len * 4))
  let m₂ (written : List UInt8) := gpu.behind (m₁.deviceWrite addr written)
  have hexchange (written : List UInt8) (hlen : written.length ≤ len * 4) :=
    exchange addr written hm (gpu.before_drift (Cache.cleanAndInvalidateRange line m addr (len * 4)))
      (gpu.behind_drift (m₁.deviceWrite addr written)) fun i hi => Cache.mem_lines hline (by omega) (by omega)
  refine ⟨m₁.ram, fun a hlo hhi => ?_, fun written hreply hlen hsent => ?_⟩
  · obtain ⟨hfirst, hlast⟩ := Cache.mem_lines hline hlo hhi
    exact (hexchange [] (Nat.zero_le _)).1 a hfirst hlast
  · obtain ⟨-, hinside, houtside, hcoherent⟩ := hexchange written hlen
    refine ⟨Cache.cleanAndInvalidateRange line (m₂ written) addr (len * 4), ?_, hinside, houtside, hcoherent⟩
    rw [call, if_pos hsent, messageAddr_request haligned hlt, hreply]

end Mailbox

namespace Display

namespace Framebuffer

open Mailbox WriteBack Tags

/-- What `init` asks for. -/
def tags (width height depth : UInt32) : List Tag :=
  [⟨tagSetPhysWh, [width, height]⟩, ⟨tagSetVirtWh, [width, height]⟩, ⟨tagSetDepth, [depth]⟩,
    ⟨tagSetPixelOrder, [pixelOrderRgb]⟩, ⟨tagAllocateBuffer, [4096, 0]⟩, ⟨tagGetPitch, [0]⟩]

/-- The GPU answers the message at `msg` tag by tag, and sends its address back. -/
structure Serves {line : Nat} (gpu : Gpu line) (msg : Nat) (answer : Tag → List UInt32) : Prop where
  reply : ∀ ram, gpu.reply (request msg channelProperty) ram =
    Words.bytes (respond answer (Words.readAll ram msg ((Words.read ram msg).toNat / 4)))
  sent : request msg channelProperty ∈ gpu.sent (request msg channelProperty)
  sizes : ∀ t, (answer t).length = t.values.length

variable {line msg : Nat} {gpu : Gpu line} {m : Memory} {answer : Tag → List UInt32} {width height depth : UInt32}

theorem tags_ok : ∀ t ∈ tags width height depth, t.Ok := by
  intro t ht
  simp only [tags, List.mem_cons, List.not_mem_nil, or_false] at ht
  rcases ht with rfl | rfl | rfl | rfl | rfl | rfl <;>
    exact ⟨by dsimp only; decide, by simp only [List.length_cons, List.length_nil]; decide⟩

/-- The words that are pushed, with their size in front. -/
theorem message_eq : message 0 Tag.size (tags width height depth) = 120 :: (pushed width height depth).tail := rfl

/-- What the GPU finds. -/
theorem visible_message (m : Memory) {i : Nat} {v : UInt8}
    (hv : (Words.bytes (message 0 Tag.size (tags width height depth)))[i]? = some v) :
    ((m.storeAll line msg (Words.bytes (pushed width height depth))).storeAll line msg
      (leBytes 4 ((pushed width height depth).length * 4))).visible line (msg + i) = v := by
  have hsize : (pushed width height depth).length * 4 = 120 := rfl
  have hcons (w : UInt32) (ws : List UInt32) : Words.bytes (w :: ws) = leBytes 4 w.toNat ++ Words.bytes ws := rfl
  have hpushed : pushed width height depth = 0 :: (pushed width height depth).tail := rfl
  rw [message_eq, hcons] at hv
  rw [visible_storeAll, if_neg (by omega), visible_storeAll, if_neg (by omega), Nat.add_sub_cancel_left, hsize, hpushed,
    hcons]
  by_cases hi : i < 4
  · rw [List.getElem?_append_left (by simpa using hi)] at hv
    have h120 : leBytes 4 (120 : UInt32).toNat = leBytes 4 120 := rfl
    rw [← h120, hv, Option.getD_some]
  · rw [List.getElem?_append_right (by simpa using hi), length_leBytes] at hv
    rw [List.getElem?_append_right (by simpa using hi), length_leBytes, hv,
      List.getElem?_eq_none (by rw [length_leBytes]; omega), Option.getD_none, Option.getD_some]

/-- The framebuffer is the one that the GPU allocates, at the address behind the alias, unless a number of the answer is
zero; besides the message nothing in memory changes, whatever the cache does. -/
theorem init_allocates (hline : 0 < line) (hm : Coherent line m) (haligned : 16 ∣ msg) (hlt : msg < 2 ^ 30)
    (hserves : Serves gpu msg answer) (width height depth : UInt32) :
    ∃ base size pitch m', answer ⟨tagAllocateBuffer, [4096, 0]⟩ = [base, size] ∧ answer ⟨tagGetPitch, [0]⟩ = [pitch] ∧
      init gpu m msg width height depth =
        some (if base &&& gpuAliasMask = 0 ∨ size = 0 ∨ pitch = 0 then none
          else some ⟨⟨width, height⟩, (base &&& gpuAliasMask).toNat, pitch, depth⟩, m') ∧
      (∀ a, a < msg ∨ msg + 120 ≤ a → m'.visible line a = m.visible line a) ∧ Coherent line m' := by
  obtain ⟨base, size, halloc⟩ := List.length_eq_two.mp (hserves.sizes ⟨tagAllocateBuffer, [4096, 0]⟩)
  obtain ⟨pitch, hpitch⟩ := List.length_eq_one_iff.mp (hserves.sizes ⟨tagGetPitch, [0]⟩)
  obtain ⟨p₁, p₂, hphys⟩ := List.length_eq_two.mp (hserves.sizes ⟨tagSetPhysWh, [width, height]⟩)
  obtain ⟨v₁, v₂, hvirt⟩ := List.length_eq_two.mp (hserves.sizes ⟨tagSetVirtWh, [width, height]⟩)
  obtain ⟨d, hdepth⟩ := List.length_eq_one_iff.mp (hserves.sizes ⟨tagSetDepth, [depth]⟩)
  obtain ⟨o, horder⟩ := List.length_eq_one_iff.mp (hserves.sizes ⟨tagSetPixelOrder, [pixelOrderRgb]⟩)
  let words := message 0 Tag.size (tags width height depth)
  let m₁ := (m.storeAll line msg (Words.bytes (pushed width height depth))).storeAll line msg
    (leBytes 4 ((pushed width height depth).length * 4))
  -- the answer, word by word
  have hanswer : respond answer words = [120, success, tagSetPhysWh, 8, success ||| 8, p₁, p₂, tagSetVirtWh, 8,
      success ||| 8, v₁, v₂, tagSetDepth, 4, success ||| 4, d, tagSetPixelOrder, 4, success ||| 4, o, tagAllocateBuffer, 8,
      success ||| 8, base, size, tagGetPitch, 4, success ||| 4, pitch, 0] := by
    have hparse : parse words = some (tags width height depth) := parse_message tags_ok (by simp [length_body, tags])
    rw [respond, hparse]
    simp only [tags, List.map_cons, List.map_nil, halloc, hpitch, hphys, hvirt, hdepth, horder]
    rfl
  have hm₁ : Coherent line m₁ := (hm.storeAll _ _).storeAll _ _
  obtain ⟨ram, hram, hcall⟩ := call_spec gpu hline hm₁ 30 channelProperty haligned hlt
  have hread (i : Nat) (v : UInt8) (hv : (Words.bytes words)[i]? = some v) : ram (msg + i) = v := by
    have hi : i < 120 := by simpa [words, message_eq, pushed, pushedSizes] using (List.getElem?_eq_some_iff.mp hv).1
    rw [hram _ (by omega) (by omega)]
    exact visible_message m hv
  have hsize : Words.read ram msg = 120 := Words.read_getElem hread (i := 0) (Nat.succ_pos _)
  have hwords : Words.readAll ram msg 30 = words := Words.readAll_of_bytes hread
  have hreply := hserves.reply ram
  rw [hsize, show (120 : UInt32).toNat / 4 = 30 from rfl, hwords, hanswer] at hreply
  obtain ⟨m', hdone, hspec⟩ := hcall _ hreply (by simp) hserves.sent
  have hword {i : Nat} (hi : i < 30) := Words.read_getElem hspec.inside (i := i) hi
  refine ⟨base, size, pitch, m', halloc, hpitch, ?_, fun a ha => ?_, hspec.coherent⟩
  · have hok : decide (Words.read (m'.visible line) (msg + 1 * 4) = 0x80000000) = true :=
      decide_eq_true (hword (by decide))
    rw [hok] at hdone
    have hbase : Words.read (m'.visible line) (msg + allocResp width height depth * 4) = base := hword (i := 23) (by decide)
    have hlen : Words.read (m'.visible line) (msg + (allocResp width height depth + 1) * 4) = size :=
      hword (i := 24) (by decide)
    have hrow : Words.read (m'.visible line) (msg + pitchResp width height depth * 4) = pitch := hword (i := 28) (by decide)
    have hlength : (pushed width height depth).length = 30 := rfl
    simp only [m₁, ← hlength] at hdone
    simp only [init, hdone, hbase, hlen, hrow]
    split <;> rfl
  · rw [hspec.outside a (by simpa using ha)]
    have hlength : ((pushed width height depth).length) = 30 := rfl
    rw [visible_storeAll_outside (by rw [length_leBytes]; omega),
      visible_storeAll_outside (by rw [Words.length_bytes, hlength]; omega)]

/-- A buffer of 600 rows of 3200 bytes. -/
def someAnswer (t : Tag) : List UInt32 :=
  if t = ⟨tagAllocateBuffer, [4096, 0]⟩ then [0xFC100000, 0x1D4C00]
  else if t = ⟨tagGetPitch, [0]⟩ then [3200]
  else t.values

/-- A GPU that sends another word first, and a cache that fetches the line of the message back. -/
def someGpu : Gpu 64 where
  reply _ ram := Words.bytes (respond someAnswer (Words.readAll ram 0x90000 ((Words.read ram 0x90000).toNat / 4)))
  sent word := [7, word]
  before m := m.fetch 0x2400
  behind m := m.fetch 0x2400
  before_drift _ := .fetch .refl _
  behind_drift _ := .fetch .refl _

theorem init_allocates_svga : ∃ m', init someGpu ⟨fun _ => 0, fun _ => none⟩ 0x90000 800 600 32 =
    some (some ⟨⟨800, 600⟩, 0x3C100000, 3200, 32⟩, m') := by
  have hserves : Serves someGpu 0x90000 someAnswer := by
    refine ⟨fun _ => rfl, List.mem_cons_of_mem _ List.mem_cons_self, fun t => ?_⟩
    rw [someAnswer]
    split
    · next h => rw [h]; rfl
    · split
      · next h => rw [h]; rfl
      · rfl
  obtain ⟨base, size, pitch, m', halloc, hpitch, hinit, -⟩ := init_allocates (m := ⟨fun _ => 0, fun _ => none⟩)
    (by decide) (fun _ _ h => by cases h) (by decide) (by decide) hserves 800 600 32
  obtain ⟨rfl, rfl⟩ : 0xFC100000 = base ∧ 0x1D4C00 = size := by simpa [someAnswer] using halloc
  obtain rfl : 3200 = pitch := by simpa [someAnswer, tagGetPitch, tagAllocateBuffer] using hpitch
  refine ⟨m', hinit.trans ?_⟩
  rw [if_neg (by decide)]
  rfl

end Framebuffer

end Display

end Ferro
