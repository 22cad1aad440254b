import Ferro.Console.Input

/-!
# Testing for a key

`CheckEvent` and `WaitForEvent` find out whether a key is there by polling for one, and a poll takes the key with it.
`Input.keys` is what can be read from the pending input; a test that reports the `WaitForKey` event takes the first
key off it.
-/

namespace Ferro

namespace Console

/-! ## The keys in the pending input -/

def Keyboard.size (kbd : Keyboard) : Nat := kbd.pending.length

/-- The number of bytes and transfers pending. -/
def Input.size (inp : Input) : Nat := inp.uart.length + (inp.keyboard.map Keyboard.size).getD 0

/-- The keys that `n` polls return. -/
def pollKeys : Nat → Input → List InputKey
  | 0, _ => []
  | n + 1, inp =>
    match pollKeyRaw inp with
    | (some k, inp) => k :: pollKeys n inp
    | (none, inp) => pollKeys n inp

/-- The keys that `ReadKeyStroke` returns, call after call, until nothing is pending. -/
def Input.keys (inp : Input) : List InputKey := pollKeys inp.size inp

theorem pollUart_size (inp : Input) :
    (inp.uart = [] ∧ pollUart inp = (none, inp)) ∨
      ((pollUart inp).2.size + 1 = inp.size ∧ (pollUart inp).2.keyboard = inp.keyboard) := by
  rw [pollUart]
  cases h : inp.uart with
  | nil => exact .inl ⟨rfl, rfl⟩
  | cons b uart =>
      refine .inr ⟨?_, rfl⟩
      simp only [Input.size, h, List.length_cons]
      omega

theorem size_pollNewKeys (kbd : Keyboard) :
    (kbd.pending = [] ∧ pollNewKeys kbd = (some (.fill 0), kbd)) ∨ (pollNewKeys kbd).2.size + 1 = kbd.size := by
  rw [pollNewKeys]
  cases h : kbd.pending with
  | nil => exact .inl ⟨rfl, rfl⟩
  | cons transfer pending =>
      refine .inr ?_
      have hsize : kbd.size = pending.length + 1 := by rw [Keyboard.size, h]; rfl
      rw [hsize]
      cases transfer <;> rfl

theorem firstKey_fill : firstKey (Arr.fill 0 : Bytes 6).toList = none := by decide

theorem pollKeyboard_size (inp : Input) :
    (pollKeyboard inp = (none, inp) ∧ (inp.keyboard.map Keyboard.size).getD 0 = 0) ∨
      (pollKeyboard inp).2.size + 1 = inp.size := by
  rw [pollKeyboard]
  cases hk : inp.keyboard with
  | none => exact .inl ⟨rfl, rfl⟩
  | some kbd =>
      rcases size_pollNewKeys kbd with ⟨hp, he⟩ | hs
      · refine .inl ⟨?_, ?_⟩
        · dsimp only
          rw [he]
          dsimp only
          rw [firstKey_fill, ← hk]
        · rw [Option.map_some, Option.getD_some, Keyboard.size, hp]
          rfl
      · refine .inr ?_
        dsimp only
        rcases hnew : pollNewKeys kbd with ⟨keys, kbd'⟩
        rw [hnew] at hs
        dsimp only at hs
        cases keys with
        | none => simp only [Input.size, hk, Option.map_some, Option.getD_some]; omega
        | some keys => simp only [Input.size, hk, Option.map_some, Option.getD_some]; omega

/-- A poll takes something, unless nothing is pending. -/
theorem pollKeyRaw_size (inp : Input) :
    (inp.size = 0 ∧ pollKeyRaw inp = (none, inp)) ∨ (pollKeyRaw inp).2.size < inp.size := by
  rw [pollKeyRaw]
  rcases pollUart_size inp with ⟨hu, he⟩ | ⟨hs, _⟩
  · rw [he]
    rcases pollKeyboard_size inp with ⟨hp, hz⟩ | hk
    · refine .inl ⟨?_, hp⟩
      rw [Input.size, hu, hz]
      rfl
    · exact .inr (by dsimp only; omega)
  · refine .inr ?_
    rcases huart : pollUart inp with ⟨key, inp'⟩
    rw [huart] at hs
    cases key with
    | some k => dsimp only at hs ⊢; omega
    | none =>
        dsimp only at hs ⊢
        rcases pollKeyboard_size inp' with ⟨hp, _⟩ | hk
        · rw [hp]; dsimp only; omega
        · omega

theorem pollKeys_succ (n : Nat) (inp : Input) :
    pollKeys (n + 1) inp = (pollKeyRaw inp).1.toList ++ pollKeys n (pollKeyRaw inp).2 := by
  rw [pollKeys]
  rcases pollKeyRaw inp with ⟨_ | k, inp'⟩
  · rfl
  · rfl

theorem pollKeys_of_size_eq_zero {inp : Input} (h : inp.size = 0) (n : Nat) : pollKeys n inp = [] := by
  induction n with
  | zero => rfl
  | succ n ih =>
      rcases pollKeyRaw_size inp with ⟨_, he⟩ | hlt
      · rw [pollKeys_succ, he]
        exact ih
      · omega

/-- More polls than there is input return no more keys. -/
theorem pollKeys_eq_of_le {n m : Nat} {inp : Input} (hn : inp.size ≤ n) (hm : inp.size ≤ m) :
    pollKeys n inp = pollKeys m inp := by
  induction n generalizing m inp with
  | zero => exact (pollKeys_of_size_eq_zero (by omega) m).symm
  | succ n ih =>
      rcases pollKeyRaw_size inp with ⟨hz, _⟩ | hlt
      · rw [pollKeys_of_size_eq_zero hz, pollKeys_of_size_eq_zero hz]
      · cases m with
        | zero => omega
        | succ m => rw [pollKeys_succ, pollKeys_succ, @ih m _ (by omega) (by omega)]

/-- A poll takes the first of the keys, if it returns one. -/
theorem keys_eq (inp : Input) : inp.keys = (pollKeyRaw inp).1.toList ++ (pollKeyRaw inp).2.keys := by
  have hle : (pollKeyRaw inp).2.size ≤ inp.size := by
    rcases pollKeyRaw_size inp with ⟨_, he⟩ | hlt
    · rw [he]
    · omega
  rw [Input.keys, pollKeys_eq_of_le (Nat.le_refl _) (Nat.le_succ _), pollKeys_succ, Input.keys,
    pollKeys_eq_of_le hle (Nat.le_refl _)]

/-- Neither the first byte pending completes a key, nor is there one among the new codes of the first report. -/
structure NoKey (inp : Input) : Prop where
  uart : ∀ b ∈ inp.uart.head?, (uartByteToKey inp.esc b).1 = none
  keyboard : ∀ kbd ∈ inp.keyboard, ∀ report, kbd.pending.head? = some (.report report) →
    ∀ code ∈ newCodes kbd.prevReport report, hidCodeToKey code = none

theorem firstKey_eq_none_iff {codes : List UInt8} :
    firstKey codes = none ↔ ∀ code ∈ codes, code ≠ 0 → hidCodeToKey code = none := by
  rw [firstKey, List.findSome?_eq_none_iff]
  refine forall₂_congr fun code _ => ?_
  by_cases h : code = 0
  · simp [h]
  · simp [h]

/-- The zeros behind the codes in the array of `poll_new_keys` are no keys. -/
theorem firstKey_ofList {codes : List UInt8} (h : codes.length ≤ 6) :
    firstKey (Arr.ofList codes : Bytes 6).toList = none ↔ firstKey codes = none := by
  rw [firstKey_eq_none_iff, firstKey_eq_none_iff]
  constructor
  · intro hall code hc
    obtain ⟨i, hi, rfl⟩ := List.getElem_of_mem hc
    refine hall _ (List.mem_iff_getElem?.mpr ⟨i, ?_⟩)
    rw [Arr.getElem?_toList, if_pos (by omega), Arr.nth_ofList (by omega), List.getElem?_eq_getElem hi]
    rfl
  · intro hall code hc hne
    obtain ⟨i, hi⟩ := List.mem_iff_getElem?.mp hc
    rw [Arr.getElem?_toList, Option.ite_none_right_eq_some] at hi
    rw [Arr.nth_ofList hi.1, Option.some_inj] at hi
    cases hget : codes[i]? with
    | none =>
        rw [hget] at hi
        exact absurd hi.2.symm hne
    | some x =>
        rw [hget] at hi
        cases hi.2
        exact hall _ (List.mem_of_getElem? hget) hne

theorem ne_zero_of_mem_newCodes {prevReport report : Bytes 8} {code : UInt8} (h : code ∈ newCodes prevReport report) :
    code ≠ 0 := by
  rw [newCodes, List.mem_filter, Bool.and_eq_true] at h
  exact of_decide_eq_true h.2.1

theorem length_newCodes_le (prevReport report : Bytes 8) : (newCodes prevReport report).length ≤ 6 := by
  refine (List.length_filter_le _ _).trans ?_
  rw [Arr.length_slice _ (by decide)]

theorem pollKeyboard_eq_none_iff (inp : Input) : (pollKeyboard inp).1 = none ↔
    ∀ kbd ∈ inp.keyboard, ∀ report, kbd.pending.head? = some (.report report) →
      ∀ code ∈ newCodes kbd.prevReport report, hidCodeToKey code = none := by
  rw [pollKeyboard]
  cases inp.keyboard with
  | none => simp
  | some kbd =>
      simp only [Option.mem_some_iff, forall_eq', pollNewKeys]
      cases kbd.pending with
      | nil => simp [firstKey_fill]
      | cons transfer pending =>
          cases transfer with
          | nak => simp [firstKey_fill]
          | failed => simp
          | report report =>
              simp only [List.head?_cons, Option.some.injEq, Transfer.report.injEq, forall_eq']
              rw [firstKey_ofList (length_newCodes_le _ _), firstKey_eq_none_iff]
              exact forall₂_congr fun code hc => ⟨fun h => h (ne_zero_of_mem_newCodes hc), fun h _ => h⟩

theorem pollKeyRaw_eq_none_iff (inp : Input) : (pollKeyRaw inp).1 = none ↔ NoKey inp := by
  rw [pollKeyRaw]
  have huart : (pollUart inp).1 = none ↔ ∀ b ∈ inp.uart.head?, (uartByteToKey inp.esc b).1 = none := by
    rw [pollUart]
    cases inp.uart <;> simp
  have hkbd : (pollUart inp).2.keyboard = inp.keyboard := by
    rcases pollUart_size inp with ⟨_, he⟩ | ⟨_, he⟩
    · rw [he]
    · exact he
  rcases hpoll : pollUart inp with ⟨_ | k, inp'⟩
  · rw [hpoll] at huart hkbd
    dsimp only at hkbd ⊢
    rw [pollKeyboard_eq_none_iff, hkbd]
    exact ⟨fun h => ⟨huart.mp rfl, h⟩, fun h => h.keyboard⟩
  · rw [hpoll] at huart
    constructor
    · intro h; cases h
    · intro h; exact huart.mpr h.uart

/-! ## The tests -/

variable {t t' : Events.Table} {i : Fin maxEvents} {inp inp' : Input}

theorem kind_conditionMet (r : Events.Reading) (t : Events.Table) (i j : Fin maxEvents) :
    ((Events.conditionMet r t i).2.get j).kind = (t.get j).kind := by
  rw [Events.conditionMet]
  split
  · rfl
  · split
    · rfl
    · split
      · by_cases hj : j = i
        · subst hj
          rw [Arr.get_set_self]
        · rw [Arr.get_set_of_ne _ _ hj]
      · rfl
  · rfl

theorem conditionMet_consoleIn (hkind : (t.get i).kind = .consoleIn) (r : Events.Reading) :
    Events.conditionMet r t i = (r.key, t) := by
  simp only [Events.conditionMet, hkind]

theorem sense_consoleIn (hkind : (t.get i).kind = .consoleIn) (inp : Input) :
    sense t i inp = ((pollKeyRaw inp).1.isSome, (pollKeyRaw inp).2) := by
  simp only [sense, hkind]
  rfl

/-- A test of a `ConsoleIn` event that succeeds has taken a key, and no other test takes one. -/
theorem keys_sense (ticks : UInt64) (t : Events.Table) (i : Fin maxEvents) (inp : Input) :
    match Events.conditionMet ⟨ticks, (sense t i inp).1⟩ t i with
    | (true, _) => (t.get i).kind = .consoleIn → ∃ k, inp.keys = k :: (sense t i inp).2.keys
    | (false, _) => (sense t i inp).2.keys = inp.keys := by
  by_cases hkind : (t.get i).kind = .consoleIn
  · rw [conditionMet_consoleIn hkind, sense_consoleIn hkind, keys_eq inp]
    cases hk : (pollKeyRaw inp).1 with
    | some k => exact fun _ => ⟨k, rfl⟩
    | none => rfl
  · have hsense : (sense t i inp).2 = inp := by
      rw [sense]
      split
      · contradiction
      · rfl
      · rfl
    rw [hsense]
    split
    · exact fun h => absurd h hkind
    · rfl

theorem waitLoop_keys {events : List (Nat × Fin maxEvents)} {ticks : List UInt64} {todo : List (Nat × Fin maxEvents)}
    {idx : Nat} (hsub : ∀ p ∈ todo, p ∈ events) (h : waitLoop events ticks todo t inp = some (idx, t', inp')) :
    ∃ i, (idx, i) ∈ events ∧ ((t.get i).kind = .consoleIn → ∃ k, inp.keys = k :: inp'.keys) := by
  induction ticks generalizing todo t inp with
  | nil => cases h
  | cons tick ticks ih =>
      have hmem : ∀ p ∈ (if todo.isEmpty then events else todo), p ∈ events := by
        split
        · exact fun _ hp => hp
        · exact hsub
      rw [waitLoop] at h
      cases hnext : (if todo.isEmpty then events else todo) with
      | nil => rw [hnext] at h; cases h
      | cons p rest =>
          obtain ⟨idx', i⟩ := p
          rw [hnext] at h hmem
          have htest := keys_sense tick t i inp
          have hk := fun j => kind_conditionMet ⟨tick, (sense t i inp).1⟩ t i j
          dsimp only at h
          rcases hmet : Events.conditionMet ⟨tick, (sense t i inp).1⟩ t i with ⟨_ | _, t₁⟩
          · rw [hmet] at h htest hk
            obtain ⟨j, hj, hkeys⟩ := ih (fun p hp => hmem p (List.mem_cons_of_mem _ hp)) h
            refine ⟨j, hj, fun hkind => ?_⟩
            rw [← htest]
            exact hkeys ((hk j).trans hkind)
          · rw [hmet] at h htest
            cases h
            exact ⟨i, hmem _ List.mem_cons_self, htest⟩

theorem exists_readings_waitLoop {events : List (Nat × Fin maxEvents)} {ticks : List UInt64}
    {todo : List (Nat × Fin maxEvents)} {idx : Nat} (h : waitLoop events ticks todo t inp = some (idx, t', inp')) :
    ∃ readings, Events.waitLoop events readings todo t = some (idx, t') := by
  induction ticks generalizing todo t inp with
  | nil => cases h
  | cons tick ticks ih =>
      rw [waitLoop] at h
      cases hnext : (if todo.isEmpty then events else todo) with
      | nil => rw [hnext] at h; cases h
      | cons p rest =>
          rw [hnext] at h
          dsimp only at h
          rcases hmet : Events.conditionMet ⟨tick, (sense t p.2 inp).1⟩ t p.2 with ⟨_ | _, t₁⟩
          · rw [hmet] at h
            obtain ⟨readings, hr⟩ := ih h
            refine ⟨⟨tick, (sense t p.2 inp).1⟩ :: readings, ?_⟩
            rw [Events.waitLoop, hnext]
            dsimp only
            rw [hmet]
            exact hr
          · rw [hmet] at h
            cases h
            refine ⟨[⟨tick, (sense t p.2 inp).1⟩], ?_⟩
            rw [Events.waitLoop, hnext]
            dsimp only
            rw [hmet]

theorem eventToIndex_of_mapM {events : List UInt64} {is : List (Fin maxEvents)} {idx : Nat} {e : UInt64}
    (h : events.mapM Events.eventToIndex = some is) (hi : is[idx]? = some i) (he : events[idx]? = some e) :
    Events.eventToIndex e = some i := by
  induction events generalizing is idx with
  | nil => cases he
  | cons x xs ih =>
      rw [List.mapM_cons, Option.bind_eq_bind, Option.bind_eq_some_iff] at h
      obtain ⟨y, hy, h⟩ := h
      rw [Option.bind_eq_bind, Option.bind_eq_some_iff] at h
      obtain ⟨ys, hys, h⟩ := h
      cases h
      cases idx with
      | zero => cases hi; cases he; exact hy
      | succ idx => exact ih hys hi he

/-- A wait that reports a `ConsoleIn` event has taken a key. -/
theorem wait_keys {ticks : List UInt64} {events : List UInt64} {idx : Nat} {e : UInt64}
    (h : wait ticks t inp events = some (.ok idx, t', inp')) (he : events[idx]? = some e)
    (hi : Events.eventToIndex e = some i) (hkind : (t.get i).kind = .consoleIn) : ∃ k, inp.keys = k :: inp'.keys := by
  rw [wait] at h
  split at h
  · cases h
  · split at h
    · cases h
    · rename_i is his
      obtain ⟨⟨idx', t₁, inp₁⟩, hloop, heq⟩ := Option.map_eq_some_iff.mp h
      cases heq
      obtain ⟨j, hj, hkeys⟩ := waitLoop_keys (by simp) hloop
      obtain ⟨m, hm⟩ := List.mem_iff_getElem?.mp hj
      obtain ⟨hrange, hidx⟩ := List.getElem?_zip_eq_some.mp hm
      have hlt : m < is.length := (List.getElem?_eq_some_iff.mp hidx).1
      rw [List.getElem?_range hlt] at hrange
      cases hrange
      have := eventToIndex_of_mapM his hidx he
      rw [hi] at this
      cases this
      exact hkeys hkind

/-- A wait on the console is one of `Events.wait`, with readings that the console gave. -/
theorem exists_readings_wait {ticks : List UInt64} {events : List UInt64} {r : Except EfiStatus Nat}
    (h : wait ticks t inp events = some (r, t', inp')) : ∃ readings, Events.wait readings t events = some (r, t') := by
  rw [wait] at h
  by_cases hempty : events.isEmpty
  · rw [if_pos hempty] at h
    cases h
    exact ⟨[], by rw [Events.wait, if_pos hempty]⟩
  · rw [if_neg hempty] at h
    cases his : events.mapM Events.eventToIndex with
    | none =>
        rw [his] at h
        cases h
        exact ⟨[], by rw [Events.wait, if_neg hempty, his]⟩
    | some is =>
        rw [his] at h
        obtain ⟨⟨idx, t₁, inp₁⟩, hloop, heq⟩ := Option.map_eq_some_iff.mp h
        cases heq
        obtain ⟨readings, hr⟩ := exists_readings_waitLoop hloop
        exact ⟨readings, by rw [Events.wait, if_neg hempty, his]; dsimp only; rw [hr]; rfl⟩

/-- A wait for a `ConsoleIn` event alone ends once its tests reach a key. -/
theorem waitLoop_of_keys (hkind : (t.get i).kind = .consoleIn) {n : Nat} (h : pollKeys n inp ≠ []) :
    ∃ inp', waitLoop [(0, i)] (List.replicate n 0) [] t inp = some (0, t, inp') := by
  induction n generalizing inp with
  | zero => exact absurd rfl h
  | succ n ih =>
      rw [pollKeys_succ] at h
      rw [List.replicate_succ, waitLoop]
      simp only [List.isEmpty_nil, if_true, sense_consoleIn hkind, conditionMet_consoleIn hkind]
      cases hpoll : (pollKeyRaw inp).1 with
      | some k =>
          refine ⟨(pollKeyRaw inp).2, ?_⟩
          simp [Events.consume, hkind]
      | none =>
          rw [hpoll] at h
          exact ih h

/-- The token of a live `ConsoleIn` event, as `console::init` creates it. -/
structure WaitForKey (t : Events.Table) (e : UInt64) : Prop where
  live : ∃ i, Events.eventToIndex e = some i ∧ (t.get i).inUse = true ∧ (t.get i).kind = .consoleIn

/-- The next `ReadKeyStroke` returns the first key that was pending, and all of them can still be read. -/
def Undisturbed (before after : Input) : Prop :=
  (readKeyStroke true after).1 = (.success, before.keys.head?) ∧ after.keys = before.keys

theorem not_undisturbed (h : ∃ k, inp.keys = k :: inp'.keys) : ¬ Undisturbed inp inp' := by
  obtain ⟨k, hk⟩ := h
  rintro ⟨_, he⟩
  rw [hk] at he
  exact absurd (congrArg List.length he) (by simp)

theorem check_eq {e : UInt64} (h : WaitForKey t e) (ticks : UInt64) (inp : Input) :
    check ticks t inp e =
      (if (pollKeyRaw inp).1.isSome then .success else .notReady, t, (pollKeyRaw inp).2) := by
  obtain ⟨i, hi, huse, hkind⟩ := h.live
  simp only [check, hi, huse, if_true, sense_consoleIn hkind, Events.check, conditionMet_consoleIn hkind]
  cases (pollKeyRaw inp).1 with
  | none => rfl
  | some k => simp [Events.consume, hkind]

/-- Testing for a key leaves the keys alone only where there is none to find: for `CheckEvent`, none that one poll
returns; for `WaitForEvent`, which polls on, none at all. -/
theorem undisturbed_iff {e : UInt64} (h : WaitForKey t e) (inp : Input) :
    (∀ ticks, (∀ t' inp', check ticks t inp e = (.success, t', inp') → Undisturbed inp inp') ↔ NoKey inp) ∧
      ((∀ ticks events idx t' inp', wait ticks t inp events = some (.ok idx, t', inp') → events[idx]? = some e →
        Undisturbed inp inp') ↔ inp.keys = []) := by
  obtain ⟨i, hi, _, hkind⟩ := h.live
  refine ⟨fun ticks => ?_, ?_, ?_⟩
  · rw [← pollKeyRaw_eq_none_iff, check_eq h]
    cases hpoll : (pollKeyRaw inp).1 with
    | none => simp
    | some k =>
        simp only [Option.isSome_some, if_true, Prod.mk.injEq, true_and, reduceCtorEq, iff_false]
        intro hall
        refine not_undisturbed ⟨k, ?_⟩ (hall t _ ⟨rfl, rfl⟩)
        rw [keys_eq, hpoll]
        rfl
  · intro hall
    by_contra hne
    obtain ⟨inp', hloop⟩ := waitLoop_of_keys hkind hne
    have hwait : wait (List.replicate inp.size 0) t inp [e] = some (.ok 0, t, inp') := by
      simp [wait, hi, hloop]
    exact not_undisturbed (wait_keys hwait rfl hi hkind) (hall _ _ _ _ _ hwait rfl)
  · intro hnil ticks events idx t' inp' hwait he
    obtain ⟨k, hk⟩ := wait_keys hwait he hi hkind
    rw [hnil] at hk
    cases hk

/-! ## One key -/

/-- The event table with one `ConsoleIn` event, whose token is 1. -/
def keyTable : Events.Table := (Events.create Events.empty .consoleIn none 0).2

theorem waitForKey_keyTable : WaitForKey keyTable 1 := ⟨⟨⟨0, by decide⟩, by decide, by decide, by decide⟩⟩

/-- The first byte of an arrow key has arrived. -/
def escInput : Input := ⟨0, [0x1B], none⟩

theorem undisturbed_escInput : WaitForKey keyTable 1 ∧ NoKey escInput ∧
    ∀ t' inp', check 0 keyTable escInput 1 = (.success, t', inp') → Undisturbed escInput inp' := by
  have hno : NoKey escInput := (pollKeyRaw_eq_none_iff escInput).mp (by decide)
  exact ⟨waitForKey_keyTable, hno, ((undisturbed_iff waitForKey_keyTable escInput).1 0).mpr hno⟩

/-- The letter `a` has arrived. -/
def letterInput : Input := ⟨0, [0x61], none⟩

/-- `CheckEvent` reports the key, and `ReadKeyStroke` does not find it any more. -/
theorem check_letterInput :
    (check 0 keyTable letterInput 1).1 = .success ∧ letterInput.keys = [⟨0, 0x61⟩] ∧
      (readKeyStroke true (check 0 keyTable letterInput 1).2.2).1 = (.notReady, none) ∧
      ¬ Undisturbed letterInput (check 0 keyTable letterInput 1).2.2 := by
  have hread : (readKeyStroke true (check 0 keyTable letterInput 1).2.2).1 = (.notReady, none) := by decide
  refine ⟨by decide, by decide, hread, fun h => ?_⟩
  rw [Undisturbed, hread] at h
  exact absurd h.1 (by decide)

end Console

end Ferro
