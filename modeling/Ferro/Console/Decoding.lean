import Ferro.Base.Transducer
import Ferro.Console.Input

/-!
# The grammar of the UART's keys

`tokenize` cuts a stream into the tokens that a terminal sends. `uart_byte_to_key` decodes the stream byte by byte; it
takes the byte behind an ESC with the Escape key, where the grammar takes it on its own.
-/

namespace Ferro

namespace Console

/-- ESC. -/
def escByte : UInt8 := 0x1B

/-- `[`. -/
def bracket : UInt8 := 0x5B

/-! ## Tokens -/

inductive Token where
  /-- `ESC [` and a final byte. -/
  | sequence (final : UInt8)
  /-- An ESC whose next byte is not `[`. -/
  | escape
  | byte (b : UInt8)
  deriving DecidableEq

def Token.key : Token → Option InputKey
  | .sequence final => arrowKey final
  | .escape => some ⟨scanEsc, 0⟩
  | .byte b => plainKey b

/-- The tokens of a stream, and the bytes at its end that begin one. -/
def tokenize : List UInt8 → List Token × List UInt8
  | [] => ([], [])
  | [b] => if b = escByte then ([], [b]) else ([.byte b], [])
  | b :: c :: cs =>
    if b = escByte then
      if c = bracket then
        match cs with
        | [] => ([], [b, c])
        | d :: ds => (.sequence d :: (tokenize ds).1, (tokenize ds).2)
      else
        (.escape :: (tokenize (c :: cs)).1, (tokenize (c :: cs)).2)
    else
      (.byte b :: (tokenize (c :: cs)).1, (tokenize (c :: cs)).2)

/-- The keys of a stream. -/
def grammarKeys (bs : List UInt8) : List InputKey := (tokenize bs).1.filterMap Token.key

/-! ## Machines -/

/-- `uart_byte_to_key`, with `ANSI.esc` for its state. -/
def ansi : Transducer UInt8 UInt8 InputKey := ⟨fun esc b => ((uartByteToKey esc b).1.toList, (uartByteToKey esc b).2)⟩

/-- The keys that `uart_byte_to_key` returns for the bytes of a stream. -/
def uartKeys (bs : List UInt8) : List InputKey := (ansi.run 0 bs).1

/-- A byte on its own. -/
def startStep (b : UInt8) : List InputKey × UInt8 := if b = escByte then ([], 1) else ((plainKey b).toList, 0)

/-- The grammar, byte by byte. -/
def grammar : Transducer UInt8 UInt8 InputKey := ⟨fun esc b =>
  if esc = 1 then
    if b = bracket then ([], 2) else (⟨scanEsc, 0⟩ :: (startStep b).1, (startStep b).2)
  else if esc = 2 then
    ((arrowKey b).toList, 0)
  else
    startStep b⟩

/-- What the machine remembers of the bytes that begin a token. -/
def pendingState (pending : List UInt8) : UInt8 := UInt8.ofNat pending.length

@[simp] theorem grammar_step_zero (b : UInt8) : grammar.step 0 b = startStep b := rfl

@[simp] theorem grammar_step_bracket : grammar.step 1 bracket = ([], 2) := rfl

theorem grammar_step_escape {b : UInt8} (h : b ≠ bracket) :
    grammar.step 1 b = (⟨scanEsc, 0⟩ :: (startStep b).1, (startStep b).2) := by
  simp [grammar, h]

@[simp] theorem grammar_step_two (b : UInt8) : grammar.step 2 b = ((arrowKey b).toList, 0) := rfl

@[simp] theorem startStep_escByte : startStep escByte = ([], 1) := rfl

theorem startStep_byte {b : UInt8} (h : b ≠ escByte) : startStep b = ((plainKey b).toList, 0) := by
  simp [startStep, h]

theorem filterMap_key_cons (tk : Token) (ts : List Token) :
    (tk :: ts).filterMap Token.key = tk.key.toList ++ ts.filterMap Token.key := by
  cases h : tk.key <;> simp [h]

/-- Behind an ESC and a byte other than `[` the machine is where the byte on its own leads. -/
theorem grammar_run_escape {c : UInt8} (h : c ≠ bracket) (cs : List UInt8) :
    grammar.run 1 (c :: cs) = (⟨scanEsc, 0⟩ :: (grammar.run 0 (c :: cs)).1, (grammar.run 0 (c :: cs)).2) := by
  simp [Transducer.run_cons, grammar_step_escape h]

/-- The machine emits the keys of the tokens, and remembers the bytes of the token that is begun. -/
theorem grammar_run (bs : List UInt8) : grammar.run 0 bs = (grammarKeys bs, pendingState (tokenize bs).2) := by
  unfold grammarKeys
  fun_induction tokenize bs with
  | case1 => rfl
  | case2 => rfl
  | case3 b hb => simp [Transducer.run_cons, startStep_byte hb, filterMap_key_cons, Token.key, pendingState]
  | case4 => rfl
  | case5 d ds ih => simp [Transducer.run_cons, ih, filterMap_key_cons, Token.key]
  | case6 c cs hc ih =>
      rw [Transducer.run_cons, grammar_step_zero, startStep_escByte, grammar_run_escape hc, ih]
      simp [Token.key]
  | case7 b c cs hb ih =>
      rw [Transducer.run_cons, grammar_step_zero, startStep_byte hb, ih]
      simp [filterMap_key_cons, Token.key]

/-! ## Agreement -/

/-- A byte that `uart_byte_to_key` may take with an ESC: it is no key on its own, and no ESC that begins a token. -/
def Droppable (esc b : UInt8) (rest : List UInt8) : Prop :=
  esc = 1 → b ≠ bracket → plainKey b = none ∧ (b = escByte → rest = [])

theorem ansi_step_zero (b : UInt8) : ansi.step 0 b = startStep b := by
  by_cases h : b = escByte
  · subst h; rfl
  · have h' : b ≠ 0x1B := h
    simp [ansi, uartByteToKey, startStep_byte h, h']

theorem ansi_step_bracket : ansi.step 1 bracket = ([], 2) := rfl

theorem ansi_step_escape {b : UInt8} (h : b ≠ bracket) : ansi.step 1 b = ([⟨scanEsc, 0⟩], 0) := by
  have h' : b ≠ 0x5B := h
  simp [ansi, uartByteToKey, h']

theorem ansi_step_two (b : UInt8) : ansi.step 2 b = ((arrowKey b).toList, 0) := rfl

/-- Where the decoder has lost an ESC that the grammar remembers, the next byte shows it. -/
theorem agree_lost_iff (bs : List UInt8) : ansi.Agree grammar 0 1 bs ↔ bs = [] := by
  cases bs with
  | nil => simp [Transducer.agree_nil]
  | cons b bs =>
      simp only [reduceCtorEq, iff_false, Transducer.agree_cons, not_and]
      intro he
      by_cases hb : b = bracket
      · subst hb; exact absurd he (by decide)
      · rw [ansi_step_zero, grammar_step_escape hb] at he
        exact absurd (congrArg List.length he) (by simp)

theorem agree_iff {s : UInt8} (hs : s = 0 ∨ s = 1 ∨ s = 2) (bs : List UInt8) :
    ansi.Agree grammar s s bs ↔ grammar.Along Droppable s bs := by
  induction bs generalizing s with
  | nil => simp [Transducer.agree_nil, Transducer.along_nil]
  | cons b bs ih =>
      rw [Transducer.agree_cons, Transducer.along_cons]
      rcases hs with rfl | rfl | rfl
      · rw [ansi_step_zero, grammar_step_zero]
        by_cases hb : b = escByte
        · subst hb; simp [ih, Droppable]
        · simp [startStep_byte hb, ih, Droppable]
      · by_cases hb : b = bracket
        · subst hb; simp [ansi_step_bracket, ih, Droppable]
        · rw [ansi_step_escape hb, grammar_step_escape hb]
          by_cases he : b = escByte
          · subst he
            simp only [agree_lost_iff, Droppable, hb, true_and, startStep_escByte, ne_eq, not_false_eq_true, forall_const]
            constructor
            · rintro rfl
              exact ⟨⟨rfl, rfl⟩, Transducer.along_nil 1⟩
            · rintro ⟨⟨_, h⟩, _⟩
              exact h
          · simp [startStep_byte he, ih, Droppable, hb, he]
      · rw [ansi_step_two, grammar_step_two]
        simp [ih, Droppable]

/-! ## Streams -/

theorem tokenize_pending (bs : List UInt8) :
    (tokenize bs).2 = [] ∨ (tokenize bs).2 = [escByte] ∨ (tokenize bs).2 = [escByte, bracket] := by
  fun_induction tokenize bs <;> simp_all

theorem pendingState_eq_one_iff (bs : List UInt8) :
    pendingState (tokenize bs).2 = 1 ↔ (tokenize bs).2 = [escByte] := by
  rcases tokenize_pending bs with h | h | h <;> rw [h] <;> decide

/-- The decoder returns the keys of the grammar, byte by byte, unless a byte that it takes with an ESC is a key on its
own or an ESC that begins the next token. -/
theorem uartKeys_eq_grammarKeys_iff (bs : List UInt8) :
    (∀ p, p <+: bs → uartKeys p = grammarKeys p) ↔
      ∀ p b rest, bs = p ++ b :: rest → (tokenize p).2 = [escByte] → b ≠ bracket →
        plainKey b = none ∧ (b = escByte → rest = []) := by
  have hkeys : ∀ p, grammarKeys p = (grammar.run 0 p).1 := fun p => by rw [grammar_run]
  have hstate : ∀ p, (grammar.run 0 p).2 = 1 ↔ (tokenize p).2 = [escByte] := fun p => by
    rw [grammar_run]
    exact pendingState_eq_one_iff p
  calc (∀ p, p <+: bs → uartKeys p = grammarKeys p) ↔ ansi.Agree grammar 0 0 bs := by
        simp [uartKeys, hkeys, Transducer.Agree]
    _ ↔ grammar.Along Droppable 0 bs := agree_iff (.inl rfl) bs
    _ ↔ _ := by simp [Transducer.Along, Droppable, hstate]

/-- `ESC ESC [ A`: the second ESC is lost, and with it the arrow. -/
theorem uartKeys_lose_arrow : ¬ ∀ bs, uartKeys bs = grammarKeys bs := by
  intro h
  exact absurd (h [0x1B, 0x1B, 0x5B, 0x41]) (by decide)

end Console

end Ferro
