import Ferro.Base.Transducer
import Ferro.Console.Readiness

/-!
# Keys pressed and keys delivered

`poll_new_keys` returns all the codes that are new in a report and keeps the report as the previous one. Of these
`poll_key_raw` returns the first that is a key; the others are new in no later report.
-/

namespace Ferro

namespace Console

/-! ## Presses -/

/-- The keys of a report that the previous one does not have, in the report's order. -/
def pressed (prevReport report : Bytes 8) : List InputKey :=
  ((report.slice 2 6).filter fun code => !(prevReport.slice 2 6).contains code).filterMap hidCodeToKey

/-- The keyboard, transfer by transfer: the state is the previous report. -/
def presses : Transducer (Bytes 8) Transfer InputKey := ⟨fun prevReport transfer =>
  match transfer with
  | .report report => (pressed prevReport report, report)
  | .nak => ([], prevReport)
  | .failed => ([], prevReport)⟩

/-- The keys pressed in a sequence of transfers. -/
def pressedKeys (kbd : Keyboard) : List InputKey := (presses.run kbd.prevReport kbd.pending).1

/-- The previous report behind some transfers. -/
def lastReport (prevReport : Bytes 8) (transfers : List Transfer) : Bytes 8 := (presses.run prevReport transfers).2

/-- The keys that a number of calls of `ReadKeyStroke` return. -/
def readKeyStrokes : Nat → Input → List InputKey
  | 0, _ => []
  | n + 1, inp => (readKeyStroke true inp).1.2.toList ++ readKeyStrokes n (readKeyStroke true inp).2

theorem readKeyStrokes_eq (n : Nat) (inp : Input) : readKeyStrokes n inp = pollKeys n inp := by
  induction n generalizing inp with
  | zero => rfl
  | succ n ih =>
      rw [readKeyStrokes, pollKeys_succ, readKeyStroke]
      rcases hpoll : pollKeyRaw inp with ⟨_ | k, inp'⟩ <;> simp [ih]

/-! ## Polls -/

theorem hidCodeToKey_zero : hidCodeToKey 0 = none := by decide

/-- The new codes are the keys pressed, and codes that are no keys. -/
theorem filterMap_newCodes (prevReport report : Bytes 8) :
    (newCodes prevReport report).filterMap hidCodeToKey = pressed prevReport report := by
  rw [newCodes, pressed, List.filterMap_filter, List.filterMap_filter]
  refine List.filterMap_congr fun code _ => ?_
  by_cases h : code = 0
  · simp [h, hidCodeToKey_zero]
  · simp [h]

theorem firstKey_eq_head? (codes : List UInt8) : firstKey codes = (codes.filterMap hidCodeToKey).head? := by
  rw [List.head?_filterMap, firstKey]
  congr 1
  funext code
  by_cases h : code = 0
  · simp [h, hidCodeToKey_zero]
  · simp [h]

/-- The zeros behind the codes are no keys. -/
theorem filterMap_ofList {codes : List UInt8} (h : codes.length ≤ 6) :
    (Arr.ofList codes : Bytes 6).toList.filterMap hidCodeToKey = codes.filterMap hidCodeToKey := by
  have hzero : hidCodeToKey default = none := by decide
  simp [Arr.toList_ofList_of_le h, List.filterMap_append, hzero]

/-- The keyboard as it is polled. -/
def polls : Transducer (Bytes 8) Transfer InputKey := ⟨fun prevReport transfer =>
  ((presses.step prevReport transfer).1.take 1, (presses.step prevReport transfer).2)⟩

/-- A poll returns the first key of the next transfer. -/
theorem pollKeyRaw_keyboard (esc : UInt8) (prevReport : Bytes 8) (transfer : Transfer) (pending : List Transfer) :
    (pollKeyRaw ⟨esc, [], some ⟨prevReport, transfer :: pending⟩⟩).1.toList = (polls.step prevReport transfer).1 ∧
      (pollKeyRaw ⟨esc, [], some ⟨prevReport, transfer :: pending⟩⟩).2 =
        ⟨esc, [], some ⟨(polls.step prevReport transfer).2, pending⟩⟩ := by
  cases transfer with
  | nak => exact ⟨rfl, rfl⟩
  | failed => exact ⟨rfl, rfl⟩
  | report report =>
      refine ⟨?_, rfl⟩
      have hcodes : (pollKeyRaw ⟨esc, [], some ⟨prevReport, .report report :: pending⟩⟩).1 =
          firstKey (Arr.ofList (newCodes prevReport report) : Bytes 6).toList := rfl
      rw [hcodes, firstKey_eq_head?, filterMap_ofList (length_newCodes_le _ _), filterMap_newCodes]
      simp [polls, presses, List.take_one]

theorem keys_keyboard (esc : UInt8) (kbd : Keyboard) :
    Input.keys ⟨esc, [], some kbd⟩ = (polls.run kbd.prevReport kbd.pending).1 := by
  obtain ⟨prevReport, pending⟩ := kbd
  induction pending generalizing prevReport with
  | nil => rfl
  | cons transfer pending ih =>
      obtain ⟨hkey, hrest⟩ := pollKeyRaw_keyboard esc prevReport transfer pending
      rw [keys_eq, hkey, hrest, ih]
      rfl

/-! ## Delivery -/

theorem polls_run_eq_iff (prevReport : Bytes 8) (transfers : List Transfer) :
    (polls.run prevReport transfers).1 = (presses.run prevReport transfers).1 ↔
      presses.Along (fun prev transfer _ => (polls.step prev transfer).1 = (presses.step prev transfer).1)
        prevReport transfers :=
  Transducer.run_eq_iff_along (t := polls) (u := presses) (fun _ _ => rfl) fun _ _ => List.take_sublist _ _

/-- Every key pressed is read, once and in order, iff each report brings at most one. -/
theorem readKeyStrokes_eq_pressedKeys_iff (esc : UInt8) (kbd : Keyboard) :
    (∃ N, ∀ n, N ≤ n → readKeyStrokes n ⟨esc, [], some kbd⟩ = pressedKeys kbd) ↔
      ∀ before report rest, kbd.pending = before ++ .report report :: rest →
        (pressed (lastReport kbd.prevReport before) report).length ≤ 1 := by
  have hall : ∀ n, kbd.pending.length ≤ n →
      readKeyStrokes n ⟨esc, [], some kbd⟩ = (polls.run kbd.prevReport kbd.pending).1 := by
    intro n hn
    rw [readKeyStrokes_eq, ← keys_keyboard esc, Input.keys]
    refine pollKeys_eq_of_le ?_ (Nat.le_refl _)
    simpa [Input.size, Keyboard.size] using hn
  calc (∃ N, ∀ n, N ≤ n → readKeyStrokes n ⟨esc, [], some kbd⟩ = pressedKeys kbd)
      ↔ (polls.run kbd.prevReport kbd.pending).1 = pressedKeys kbd := by
        constructor
        · rintro ⟨N, h⟩
          rw [← hall (max N kbd.pending.length) (Nat.le_max_right _ _)]
          exact h _ (Nat.le_max_left _ _)
        · intro h
          exact ⟨kbd.pending.length, fun n hn => (hall n hn).trans h⟩
    _ ↔ presses.Along (fun prev transfer _ => (polls.step prev transfer).1 = (presses.step prev transfer).1)
          kbd.prevReport kbd.pending :=
        polls_run_eq_iff kbd.prevReport kbd.pending
    _ ↔ _ := by
        simp only [Transducer.Along, polls, List.take_eq_self_iff]
        constructor
        · intro h before report rest he
          exact h before _ rest he
        · intro h before transfer rest he
          cases transfer with
          | report report => exact h before report rest he
          | nak => exact Nat.zero_le _
          | failed => exact Nat.zero_le _

/-- Two keys that go down in one report: the second is never read. -/
theorem readKeyStrokes_lose_key :
    ¬ ∃ N, ∀ n, N ≤ n → readKeyStrokes n ⟨0, [], some ⟨.fill 0, [.report (.ofList [0, 0, 4, 5, 0, 0, 0, 0])]⟩⟩ =
      pressedKeys ⟨.fill 0, [.report (.ofList [0, 0, 4, 5, 0, 0, 0, 0])]⟩ := by
  rintro ⟨N, h⟩
  have h := h (max N 1) (Nat.le_max_left N 1)
  rw [readKeyStrokes_eq, pollKeys_eq_of_le (m := 1) (Nat.le_max_right N 1) (by decide)] at h
  exact absurd h (by decide)

end Console

end Ferro
