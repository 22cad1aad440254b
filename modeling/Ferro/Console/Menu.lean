import Ferro.Base.Transducer
import Ferro.Console.Input

/-!
# The menu's input (`ui.rs`, `hid::keycode_to_menu_bytes`)

`poll_menu_key` decodes the bytes of the UART and, when none is there, the bytes that stand for a key of the keyboard.
Both go through the same `InputState`.
-/

namespace Ferro

namespace Menu

open Console (Keyboard Transfer pollNewKeys)

inductive Key where
  | up
  | down
  | left
  | right
  | enter
  | back
  deriving DecidableEq

/-! ## Decoding -/

/-- The last byte of `ESC [ x`. -/
def arrowKey (b : UInt8) : Option Key :=
  if b = 0x41 then some .up
  else if b = 0x42 then some .down
  else if b = 0x43 then some .right
  else if b = 0x44 then some .left
  else none

/-- A byte outside an escape sequence. -/
def plainKey (b : UInt8) : Option Key :=
  if b = 0x6B ∨ b = 0x4B then some .up
  else if b = 0x6A ∨ b = 0x4A then some .down
  else if b = 0x68 ∨ b = 0x48 then some .left
  else if b = 0x6C ∨ b = 0x4C then some .right
  else if b = 0x0D ∨ b = 0x0A then some .enter
  else if b = 0x08 ∨ b = 0x7F ∨ b = 0x71 ∨ b = 0x51 then some .back
  else none

/-- The key that a byte completes, and `input.esc` behind it. -/
def decodeByte (b esc : UInt8) : Option Key × UInt8 :=
  if esc = 0 ∧ b = 0x1B then
    (none, 1)
  else if esc = 1 ∧ b = 0x5B then
    (none, 2)
  else if esc = 2 then
    (arrowKey b, 0)
  else
    (plainKey b, 0)

def keycodeToMenuBytes (code : UInt8) : List UInt8 :=
  if code = 0x0D then [0x6A]
  else if code = 0x0E then [0x6B]
  else if code = 0x28 then [0x0D]
  else if code = 0x51 then [0x1B, 0x5B, 0x42]
  else if code = 0x52 then [0x1B, 0x5B, 0x41]
  else if code = 0x50 then [0x1B, 0x5B, 0x44]
  else if code = 0x4F then [0x1B, 0x5B, 0x43]
  else if code = 0x29 then [0x08]
  else if code = 0x2A then [0x7F]
  else []

/-- The bytes of a code, up to the first that completes a key. -/
def decodeBytes : List UInt8 → UInt8 → Option Key × UInt8
  | [], esc => (none, esc)
  | b :: bs, esc =>
    match decodeByte b esc with
    | (some k, esc) => (some k, esc)
    | (none, esc) => decodeBytes bs esc

/-- The codes of a poll, up to the first that completes a key. -/
def decodeCodes : List UInt8 → UInt8 → Option Key × UInt8
  | [], esc => (none, esc)
  | code :: codes, esc =>
    if code = 0 then
      decodeCodes codes esc
    else
      match decodeBytes (keycodeToMenuBytes code) esc with
      | (some k, esc) => (some k, esc)
      | (none, esc) => decodeCodes codes esc

/-! ## Polling -/

/-- `InputState`, and what the UART and the keyboard hold. -/
structure Input where
  esc : UInt8
  uart : List UInt8
  keyboard : Option Keyboard

def pollMenuKey (inp : Input) : Option Key × Input :=
  match inp.uart with
  | b :: uart => ((decodeByte b inp.esc).1, { inp with esc := (decodeByte b inp.esc).2, uart })
  | [] =>
    match inp.keyboard with
    | none => (none, inp)
    | some kbd =>
      match pollNewKeys kbd with
      | (none, kbd) => (none, { inp with keyboard := some kbd })
      | (some keys, kbd) =>
        ((decodeCodes keys.toList inp.esc).1,
          { inp with esc := (decodeCodes keys.toList inp.esc).2, keyboard := some kbd })

/-! ## Runs -/

inductive Event where
  /-- A byte arrives on the UART. -/
  | byte (b : UInt8)
  /-- What a further transfer of the keyboard brings. -/
  | transfer (transfer : Transfer)
  | poll

/-- What a poll takes: a byte of the UART, or the codes that `poll_new_keys` returns. -/
inductive Taken where
  | byte (b : UInt8)
  | codes (codes : List UInt8)
  deriving DecidableEq

def taken (inp : Input) : Taken :=
  match inp.uart with
  | b :: _ => .byte b
  | [] =>
    match inp.keyboard with
    | none => .codes []
    | some kbd => .codes (((pollNewKeys kbd).1.map fun keys => keys.toList.filter (· ≠ 0)).getD [])

/-- A poll: `input.esc` before it, what it takes and what it returns. -/
structure Poll where
  esc : UInt8
  taken : Taken
  key : Option Key
  deriving DecidableEq

/-- What an event leaves. -/
def advance (inp : Input) : Event → Input
  | .byte b => { inp with uart := inp.uart ++ [b] }
  | .transfer transfer =>
    { inp with keyboard := inp.keyboard.map fun kbd => { kbd with pending := kbd.pending ++ [transfer] } }
  | .poll => (pollMenuKey inp).2

/-- The polls of a run. -/
def polls : List Event → Input → List Poll
  | [], _ => []
  | .poll :: events, inp => ⟨inp.esc, taken inp, (pollMenuKey inp).1⟩ :: polls events (advance inp .poll)
  | .byte b :: events, inp => polls events (advance inp (.byte b))
  | .transfer transfer :: events, inp => polls events (advance inp (.transfer transfer))

/-! ## The UART on its own -/

def Taken.uart : Taken → Option UInt8
  | .byte b => some b
  | .codes _ => none

/-- `decode_byte` for a stream of bytes. -/
def decoder : Transducer UInt8 UInt8 Key := ⟨fun esc b => ((decodeByte b esc).1.toList, (decodeByte b esc).2)⟩

/-- The bytes of the UART among what the polls take. -/
def uartBytes (log : List Poll) : List UInt8 := log.filterMap fun poll => poll.taken.uart

/-- The keys of the polls that take a byte of the UART. -/
def uartKeys (log : List Poll) : List Key :=
  log.filterMap fun poll => match poll.taken with
    | .byte _ => poll.key
    | .codes _ => none

/-- The menu can act on the code. -/
def Mapped (code : UInt8) : Prop := keycodeToMenuBytes code ≠ []

/-- A key of the keyboard is the one that its own bytes decode to, and the keys of the UART are those of its bytes. -/
structure Apart (esc : UInt8) (log : List Poll) : Prop where
  keyboard : ∀ poll ∈ log, ∀ code, poll.taken = .codes [code] → Mapped code →
    poll.key = (decodeBytes (keycodeToMenuBytes code) 0).1
  uart : uartKeys log = (decoder.run esc (uartBytes log)).1

/-! ## A poll -/

/-- A code stands for nothing, for one byte, or for an arrow. -/
theorem keycodeToMenuBytes_cases (code : UInt8) :
    keycodeToMenuBytes code = [] ∨ (∃ b ∈ [0x6A, 0x6B, 0x0D, 0x08, 0x7F], keycodeToMenuBytes code = [b]) ∨
      ∃ b ∈ [0x41, 0x42, 0x43, 0x44], keycodeToMenuBytes code = [0x1B, 0x5B, b] := by
  by_cases h : code ∈ [0x0D, 0x0E, 0x28, 0x51, 0x52, 0x50, 0x4F, 0x29, 0x2A]
  · simp only [List.mem_cons, List.not_mem_nil, or_false] at h
    rcases h with rfl | rfl | rfl | rfl | rfl | rfl | rfl | rfl | rfl <;> decide
  · simp only [List.mem_cons, List.not_mem_nil, or_false, not_or] at h
    exact .inl (by simp [keycodeToMenuBytes, h])

/-- From the idle state the bytes of a code decode to a key, and leave the idle state. -/
theorem decodeBytes_idle {code : UInt8} (h : Mapped code) :
    ∃ k, decodeBytes (keycodeToMenuBytes code) 0 = (some k, 0) := by
  have hbyte : ∀ b ∈ [0x6A, 0x6B, 0x0D, 0x08, 0x7F], (decodeBytes [b] 0).1.isSome ∧ (decodeBytes [b] 0).2 = 0 := by
    simp only [List.forall_mem_cons, List.not_mem_nil, false_imp_iff, implies_true, and_true]
    decide
  have harrow : ∀ b ∈ [0x41, 0x42, 0x43, 0x44],
      (decodeBytes [0x1B, 0x5B, b] 0).1.isSome ∧ (decodeBytes [0x1B, 0x5B, b] 0).2 = 0 := by
    simp only [List.forall_mem_cons, List.not_mem_nil, false_imp_iff, implies_true, and_true]
    decide
  have hkey : (decodeBytes (keycodeToMenuBytes code) 0).1.isSome ∧ (decodeBytes (keycodeToMenuBytes code) 0).2 = 0 := by
    rcases keycodeToMenuBytes_cases code with hb | ⟨b, hb, he⟩ | ⟨b, hb, he⟩
    · exact absurd hb h
    · rw [he]; exact hbyte b hb
    · rw [he]; exact harrow b hb
  obtain ⟨k, hk⟩ := Option.isSome_iff_exists.mp hkey.1
  exact ⟨k, Prod.ext hk hkey.2⟩

theorem decodeCodes_idle (codes : List UInt8) : (decodeCodes codes 0).2 = 0 := by
  induction codes with
  | nil => rfl
  | cons code codes ih =>
      rw [decodeCodes]
      split
      · exact ih
      · by_cases h : keycodeToMenuBytes code = []
        · simpa [h, decodeBytes] using ih
        · obtain ⟨k, hk⟩ := decodeBytes_idle h
          simp [hk]

theorem decodeCodes_unmapped {codes : List UInt8} (h : ∀ code ∈ codes, ¬ Mapped code) (esc : UInt8) :
    decodeCodes codes esc = (none, esc) := by
  induction codes with
  | nil => rfl
  | cons code codes ih =>
      have hcode : keycodeToMenuBytes code = [] := by simpa [Mapped] using h code List.mem_cons_self
      have hcodes := ih fun c hc => h c (List.mem_cons_of_mem _ hc)
      simp [decodeCodes, hcode, decodeBytes, hcodes]

theorem decodeCodes_singleton {code : UInt8} (h : Mapped code) (esc : UInt8) :
    decodeCodes [code] esc = decodeBytes (keycodeToMenuBytes code) esc := by
  have hne : code ≠ 0 := by rintro rfl; exact h rfl
  rcases hb : decodeBytes (keycodeToMenuBytes code) esc with ⟨_ | k, esc'⟩ <;> simp [decodeCodes, hne, hb]

/-- The zeros of `poll_new_keys` are skipped. -/
theorem decodeCodes_filter (codes : List UInt8) (esc : UInt8) :
    decodeCodes (codes.filter (· ≠ 0)) esc = decodeCodes codes esc := by
  induction codes generalizing esc with
  | nil => rfl
  | cons code codes ih =>
      by_cases h : code = 0
      · simpa [decodeCodes, h] using ih esc
      · rcases hb : decodeBytes (keycodeToMenuBytes code) esc with ⟨_ | k, esc'⟩
        · simpa [decodeCodes, h, hb] using ih esc'
        · simp [decodeCodes, h, hb]

theorem pollMenuKey_byte {inp : Input} {b : UInt8} (h : taken inp = .byte b) :
    (pollMenuKey inp).1 = (decodeByte b inp.esc).1 ∧ (pollMenuKey inp).2.esc = (decodeByte b inp.esc).2 := by
  rw [taken] at h
  cases hu : inp.uart with
  | cons c uart =>
      rw [hu] at h
      cases h
      simp [pollMenuKey, hu]
  | nil =>
      rw [hu] at h
      cases hk : inp.keyboard <;> rw [hk] at h <;> cases h

theorem pollMenuKey_codes {inp : Input} {codes : List UInt8} (h : taken inp = .codes codes) :
    (pollMenuKey inp).1 = (decodeCodes codes inp.esc).1 ∧ (pollMenuKey inp).2.esc = (decodeCodes codes inp.esc).2 := by
  rw [taken] at h
  cases hu : inp.uart with
  | cons c uart => rw [hu] at h; cases h
  | nil =>
      rw [hu] at h
      cases hk : inp.keyboard with
      | none =>
          rw [hk] at h
          cases h
          simp [pollMenuKey, hu, hk, decodeCodes]
      | some kbd =>
          rw [hk] at h
          rcases hp : pollNewKeys kbd with ⟨_ | keys, kbd'⟩
          · simp only [hp, Option.map_none, Option.getD_none] at h
            cases h
            simp [pollMenuKey, hu, hk, hp, decodeCodes]
          · simp only [hp, Option.map_some, Option.getD_some] at h
            cases h
            rw [decodeCodes_filter]
            simp [pollMenuKey, hu, hk, hp]

/-! ## Runs -/

/-- The keys of the keyboard that the menu can act on are taken while no escape sequence of the UART is open. -/
def PressedIdle (poll : Poll) : Prop :=
  ∀ codes, poll.taken = .codes codes → (∃ code ∈ codes, Mapped code) → poll.esc = 0

theorem decodeCodes_esc {codes : List UInt8} {esc : UInt8} (h : (∃ code ∈ codes, Mapped code) → esc = 0) :
    (decodeCodes codes esc).2 = esc := by
  by_cases hm : ∃ code ∈ codes, Mapped code
  · rw [h hm, decodeCodes_idle]
  · rw [decodeCodes_unmapped fun code hc hcode => hm ⟨code, hc, hcode⟩]

theorem uartKeys_byte (esc b : UInt8) (key : Option Key) (log : List Poll) :
    uartKeys (⟨esc, .byte b, key⟩ :: log) = key.toList ++ uartKeys log := by
  cases key <;> rfl

theorem uartBytes_byte (esc b : UInt8) (key : Option Key) (log : List Poll) :
    uartBytes (⟨esc, .byte b, key⟩ :: log) = b :: uartBytes log := rfl

/-- One poll in front of a run. -/
theorem Apart.cons {inp : Input} {log : List Poll}
    (hidle : PressedIdle ⟨inp.esc, taken inp, (pollMenuKey inp).1⟩) (h : Apart (pollMenuKey inp).2.esc log) :
    Apart inp.esc (⟨inp.esc, taken inp, (pollMenuKey inp).1⟩ :: log) := by
  cases htaken : taken inp with
  | byte b =>
      obtain ⟨hkey, hesc⟩ := pollMenuKey_byte htaken
      refine ⟨?_, ?_⟩
      · intro poll hp code hc hm
        rcases List.mem_cons.mp hp with rfl | hp
        · cases hc
        · exact h.keyboard poll hp code hc hm
      · have huart := h.uart
        rw [hesc] at huart
        rw [uartKeys_byte, uartBytes_byte, Transducer.run_cons, hkey, huart]
        rfl
  | codes codes =>
      obtain ⟨hkey, hesc⟩ := pollMenuKey_codes htaken
      rw [htaken] at hidle
      rw [hesc, decodeCodes_esc (hidle codes rfl)] at h
      refine ⟨?_, ?_⟩
      · intro poll hp code hc hm
        rcases List.mem_cons.mp hp with rfl | hp
        · cases hc
          have hzero : inp.esc = 0 := hidle _ rfl ⟨code, List.mem_singleton_self code, hm⟩
          rw [← decodeCodes_singleton hm, ← hzero]
          exact hkey
        · exact h.keyboard poll hp code hc hm
      · exact h.uart

/-- The sources do not interfere in a run that takes the keys of the keyboard only between the escape sequences of the
UART. -/
theorem apart_of_pressedIdle {events : List Event} {inp : Input} (h : ∀ poll ∈ polls events inp, PressedIdle poll) :
    Apart inp.esc (polls events inp) := by
  induction events generalizing inp with
  | nil => exact ⟨by simp [polls], rfl⟩
  | cons event events ih =>
      cases event with
      | byte b => exact ih h
      | transfer transfer => exact ih h
      | poll =>
          rw [polls] at h ⊢
          exact Apart.cons (h _ List.mem_cons_self) (ih fun poll hp => h poll (List.mem_cons_of_mem _ hp))

/-- A keyboard that has reported nothing. -/
def idleInput : Input := ⟨0, [], some ⟨.fill 0, []⟩⟩

/-- The down arrow. -/
def downReport : Transfer := .report (.ofList [0, 0, 0x51, 0, 0, 0, 0, 0])

theorem apart_of_pressedIdle_run :
    Apart 0 (polls [.byte 0x1B, .poll, .byte 0x5B, .poll, .byte 0x41, .poll, .transfer downReport, .poll] idleInput) := by
  have hesc : ∀ poll ∈ polls [.byte 0x1B, .poll, .byte 0x5B, .poll, .byte 0x41, .poll, .transfer downReport, .poll]
      idleInput, poll.taken.uart = none → poll.esc = 0 := by decide
  exact apart_of_pressedIdle fun poll hp codes hc _ => hesc poll hp (by rw [hc]; rfl)

/-- An ESC of the UART in front of the arrow's bytes: they decode to no key. -/
theorem arrow_behind_escape_lost :
    ¬ Apart 0 (polls [.byte 0x1B, .poll, .transfer downReport, .poll] idleInput) := by
  intro h
  exact absurd (h.keyboard ⟨1, .codes [0x51], none⟩ (by decide) 0x51 rfl (List.cons_ne_nil _ _)) (by decide)

/-- A key of the keyboard inside an escape sequence is lost, or changes what bytes of the UART behind it decode to. -/
theorem press_disturbs {esc code : UInt8} (hesc : esc = 1 ∨ esc = 2) (hm : Mapped code) :
    (decodeBytes (keycodeToMenuBytes code) esc).1 ≠ (decodeBytes (keycodeToMenuBytes code) 0).1 ∨
      ∃ bs, (decoder.run (decodeBytes (keycodeToMenuBytes code) esc).2 bs).1 ≠ (decoder.run esc bs).1 := by
  have hbyte : ∀ b ∈ [0x6A, 0x6B, 0x0D, 0x08, 0x7F],
      (decoder.run (decodeBytes [b] 1).2 [0x5B, 0x41]).1 ≠ (decoder.run 1 [0x5B, 0x41]).1 ∧
        (decodeBytes [b] 2).1 ≠ (decodeBytes [b] 0).1 := by
    simp only [List.forall_mem_cons, List.not_mem_nil, false_imp_iff, implies_true, and_true]
    decide
  have harrow : ∀ b ∈ [0x41, 0x42, 0x43, 0x44],
      (decodeBytes [0x1B, 0x5B, b] 1).1 ≠ (decodeBytes [0x1B, 0x5B, b] 0).1 ∧
        (decodeBytes [0x1B, 0x5B, b] 2).1 ≠ (decodeBytes [0x1B, 0x5B, b] 0).1 := by
    simp only [List.forall_mem_cons, List.not_mem_nil, false_imp_iff, implies_true, and_true]
    decide
  rcases keycodeToMenuBytes_cases code with hb | ⟨b, hb, he⟩ | ⟨b, hb, he⟩
  · exact absurd hb hm
  · rw [he]
    rcases hesc with rfl | rfl
    -- the key is the right one, but the ESC in front of `[ A` is gone
    · exact .inr ⟨_, (hbyte b hb).1⟩
    · exact .inl (hbyte b hb).2
  · rw [he]
    rcases hesc with rfl | rfl
    · exact .inl (harrow b hb).1
    · exact .inl (harrow b hb).2

end Menu

end Ferro
