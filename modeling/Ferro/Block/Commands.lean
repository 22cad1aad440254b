import Ferro.Block.Protocol

/-!
# Commands and transfers keep to the protocol

Whatever the controller answers, and also when a command or a transfer fails.
-/

namespace Ferro.Sd

open Monitor (Guards)

variable {c : Controller} {before : List HostOp} {α : Type} {reg : Reg} {v : UInt32} {P E : Line → Bus → Prop}
  {fuel : Nat} {timeoutTicks deadline : UInt64}

/-! ## One access -/

theorem guards_read {Q : UInt32 → Line → Bus → Prop}
    (h : ∀ l b, P l b → ∀ raised v, (reg = .intStatus → v = b.status ||| raised) →
      ∃ l', l.access (.read reg v) = some l' ∧ Q v l' ⟨b.status ||| raised, b.trace ++ [⟨raised, .read reg v⟩]⟩) :
    (busMonitor before).Guards P (read c reg) Q E := by
  refine Guards.step (fun b => .access ⟨c.raised b.trace,
    .read reg (if reg = .intStatus then b.status ||| c.raised b.trace else c.value b.trace reg)⟩) (fun b => ?_) fun l b hl =>
    h l b hl _ _ fun hreg => if_pos hreg
  simp [busMonitor]

/-- A register that says nothing. -/
theorem guards_unread {P : Line → Prop} (h : ∀ l v, Line.access l (.read reg v) = some l) :
    (busMonitor before).Guards (fun l _ => P l) (read c reg) (fun _ l _ => P l) E :=
  guards_read fun l _ hl _ v _ => ⟨l, h l v, hl⟩

theorem guards_write {Q : Line → Prop} (h : ∀ l b, P l b → ∃ l', l.access (.write reg v) = some l' ∧ Q l') :
    (busMonitor before).Guards P (write c reg v) (fun _ l _ => Q l) E := by
  refine Guards.step (fun b => .access ⟨c.raised b.trace, .write reg v⟩) (fun b => ?_) h
  simp [busMonitor]

theorem guards_ticks {Q : Line → Bus → Prop}
    (h : ∀ l b, P l b → ∀ raised n, Q l ⟨b.status ||| raised, b.trace ++ [⟨raised, .ticks n⟩]⟩) :
    (busMonitor before).Guards P (ticks c) (fun _ => Q) E := by
  refine Guards.step (fun b => .access ⟨c.raised b.trace, .ticks (c.ticks b.trace)⟩) (fun b => ?_) fun l b hl =>
    ⟨l, rfl, h l b hl _ _⟩
  simp [busMonitor]

/-! ## Waits -/

/-- A wait that reads a register. While its condition holds, one property is kept, and with it the wait may end in
an error; the other one holds when the wait is over. -/
theorem guards_waitWhile {p : UInt32 → Bool} {Q : Line → Bus → Prop} (hE : ∀ l b, P l b → E l b)
    (hread : ∀ l b, P l b → ∀ raised v, (reg = .intStatus → v = b.status ||| raised) →
      ∃ l', l.access (.read reg v) = some l' ∧
        if p v = true then P l' ⟨b.status ||| raised, b.trace ++ [⟨raised, .read reg v⟩]⟩
        else Q l' ⟨b.status ||| raised, b.trace ++ [⟨raised, .read reg v⟩]⟩)
    (hticks : ∀ l b, P l b → ∀ raised n, P l ⟨b.status ||| raised, b.trace ++ [⟨raised, .ticks n⟩]⟩) :
    (busMonitor before).Guards P (waitWhile c fuel timeoutTicks do return p (← read c reg)) (fun _ => Q) E := by
  have hloop (deadline : UInt64) : (busMonitor before).Guards P
      (waitLoop c deadline (do return p (← read c reg)) fuel) (fun _ => Q) E := by
    induction fuel with
    | zero => exact .stuck
    | succ fuel ih =>
        have hcond : (busMonitor before).Guards P (do return p (← read c reg))
            (fun again l b => if again = true then P l b else Q l b) E :=
          (guards_read hread).bind fun v => .pure fun l b h => h
        refine hcond.bind fun again => .ite (fun hagain => ?_) fun hagain => .pure fun l b h => ?_
        · subst hagain
          refine (guards_ticks (Q := P) fun l b h => hticks l b h).bind fun n => .ite (fun _ => ?_) fun _ => ih
          exact .throw hE
        · rwa [if_neg hagain] at h
  exact (guards_ticks hticks).bind fun n => hloop _

/-! ## Commands -/

variable {index : UInt8} {resp : RespType} {data : DataDir} {arg : UInt32} {phase : Phase} {hz : Nat} {size : UInt32}
  {f : UInt32 → Phase} {r : Request} {l : Line}

/-- What `send_command` writes to issue a command. -/
def commandWord (index : UInt8) (resp : RespType) (data : DataDir) : UInt32 :=
  let respBits : UInt32 := match resp with
    | .none => 0b00
    | .r2 => 0b01
    | .r1 => 0b10
  let transferMode : UInt32 := match data with
    | .none => 0
    | .read => ((1 : UInt32) <<< 1) ||| ((1 : UInt32) <<< 4)
    | .write => (1 : UInt32) <<< 1
  ((index.toUInt32 <<< 24) ||| (respBits <<< 16) ||| (if data ≠ .none then (1 : UInt32) <<< 21 else 0)) ||| transferMode

/-- Between the commands. -/
structure Line.Settled (phase : Phase) (hz : Nat) (size : UInt32) (l : Line) : Prop where
  enabled : l.enabled = 0xFFFFFFFF
  clock : l.clock.Within l.mhz hz
  size : l.size = size
  phase : l.phase = phase

/-- The words of a block, if there is one, are to come. -/
structure Line.Block (data : DataDir) (l : Line) : Prop where
  dir : l.dir = data
  left : l.left = if data = .none then 0 else 128

/-- A command is on the way. -/
structure Line.Issued (phase : Phase) (hz : Nat) (size : UInt32) (r : Request) (l : Line) : Prop extends
    l.Settled phase hz size, l.Block r.data where
  pending : l.pending = some r

theorem Line.Settled.issue (h : l.Settled phase hz size) (hfree : l.free = true) (hcleared : l.cleared = true)
    (hserve : phase.serve (.decode v l.arg) = some f) (hhz : hz ≤ phase.limit)
    (hsize : (Request.decode v l.arg).data ≠ .none → size = blockSize) :
    ∃ l', l.access (.write .transferCmd v) = some l' ∧ l'.Issued phase hz size (.decode v l.arg) := by
  have hclock : l.clock.Within l.mhz l.phase.limit := by
    rw [h.phase]
    have hclock := h.clock
    cases hc : l.clock <;> rw [hc] at hclock <;> try exact hclock
    exact Nat.le_trans hclock (Nat.mul_le_mul_right _ hhz)
  refine ⟨_, if_pos ⟨h.enabled, hfree, hcleared, hclock, ?_, ?_⟩, ⟨⟨h.enabled, h.clock, h.size, h.phase⟩, ⟨rfl, rfl⟩, rfl⟩⟩
  · rw [h.size]
    exact hsize
  · rw [h.phase, hserve]
    rfl

theorem Line.Settled.observe (h : l.Settled phase hz size) (v : UInt32) : (l.observe v).Settled phase hz size := by
  rw [Line.observe]
  split
  · exact ⟨h.enabled, h.clock, h.size, h.phase⟩
  · exact h

theorem Line.Block.observe (h : l.Block data) (v : UInt32) : (l.observe v).Block data := by
  rw [Line.observe]
  split
  · exact ⟨h.dir, h.left⟩
  · exact h

theorem Line.Issued.observe (h : l.Issued phase hz size r) (v : UInt32) : (l.observe v).Issued phase hz size r where
  toSettled := h.toSettled.observe v
  toBlock := h.toBlock.observe v
  pending := by
    rw [Line.observe]
    split <;> exact h.pending

theorem Line.Issued.answer (h : l.Issued phase hz size r) (hcomplete : l.complete = true)
    (hserve : phase.serve r = some f) (v : UInt32) :
    ∃ l', l.access (.read .resp0 v) = some l' ∧ l'.Settled (f v) hz size ∧ l'.Block r.data := by
  have hpending : l.pending.bind l.phase.serve = some f := by rw [h.pending, h.phase, Option.bind_some, hserve]
  refine ⟨{ l with phase := f v, pending := none }, ?_, ⟨h.enabled, h.clock, h.size, rfl⟩, ⟨h.dir, h.left⟩⟩
  simp only [Line.access, Line.answer, hpending, hcomplete, if_true]

theorem observe_complete (l : Line) (herr : v &&& intErrorMask = 0) (hv : v &&& intCmdComplete ≠ 0) :
    (l.observe v).complete = true := by
  simp [Line.observe, herr, hv]

theorem observe_ready (l : Line) (herr : v &&& intErrorMask = 0) (hv : v &&& bufferReady l.dir ≠ 0) :
    (l.observe v).ready = true := by
  simp [Line.observe, herr, hv]

/-- The bits of the status stay set until the second read. -/
theorem bit_of_latched {status raised bit : UInt32} (h : status &&& (bit ||| intErrorMask) ≠ 0)
    (herr : (status ||| raised) &&& intErrorMask = 0) : (status ||| raised) &&& bit ≠ 0 := by
  simp only [ne_eq, ← disjoint_bits, bits_or, Set.disjoint_union_left, Set.disjoint_union_right] at h herr ⊢
  exact fun hbit => h ⟨hbit.1, herr.1⟩

theorem guards_free : (busMonitor before).Guards (fun l _ => l.Settled phase hz size)
    (waitWhile c fuel timeoutTicks do
      return (← read c .presentState) &&& (presentCmdInhibit ||| presentDatInhibit) ≠ 0)
    (fun _ l _ => l.Settled phase hz size ∧ l.free = true) fun l _ => l.Settled phase hz size := by
  refine guards_waitWhile (fun _ _ h => h) (fun l b h raised v _ => ⟨_, rfl, ?_⟩) fun l b h raised n => h
  by_cases hv : v &&& (presentCmdInhibit ||| presentDatInhibit) = 0
  · rw [if_pos hv, if_neg (by simp [hv])]
    exact ⟨⟨h.enabled, h.clock, h.size, h.phase⟩, rfl⟩
  · rw [if_neg hv, if_pos (by simp [hv])]
    exact h

/-- Until a status is read with the bit, or with an error. -/
theorem guards_latched {P : Line → Prop} {bit : UInt32} (hE : ∀ l b, P l → E l b)
    (hobserve : ∀ l v, P l → P (l.observe v)) :
    (busMonitor before).Guards (fun l _ => P l)
      (waitWhile c fuel timeoutTicks do return (← read c .intStatus) &&& (bit ||| intErrorMask) = 0)
      (fun _ l b => P l ∧ b.status &&& (bit ||| intErrorMask) ≠ 0) E := by
  refine guards_waitWhile hE (fun l b h raised v hv => ⟨_, rfl, ?_⟩) fun l b h raised n => h
  obtain rfl := hv rfl
  split
  · exact hobserve l _ h
  · next hbit => exact ⟨hobserve l _ h, fun h0 => hbit (decide_eq_true h0)⟩

/-- The status behind that wait: with no error in it, the bit is set. -/
theorem guards_status {P : Line → Prop} {bit : UInt32} (hobserve : ∀ l v, P l → P (l.observe v)) :
    (busMonitor before).Guards (fun l b => P l ∧ b.status &&& (bit ||| intErrorMask) ≠ 0) (read c .intStatus)
      (fun v l _ => P l ∧ (v &&& intErrorMask = 0 → ∃ l₀, P l₀ ∧ l = l₀.observe v ∧ v &&& bit ≠ 0)) E := by
  refine guards_read fun l b h raised v hv => ⟨_, rfl, hobserve l v h.1, fun herr => ⟨l, h.1, rfl, ?_⟩⟩
  obtain rfl := hv rfl
  exact bit_of_latched h.2 herr

theorem access_acknowledge (l : Line) (hv : v ≠ 0xFFFFFFFF) : l.access (.write .intStatus v) = some l :=
  congrArg some (if_neg hv)

theorem guards_sendCommand (hserve : phase.serve (.decode (commandWord index resp data) arg) = some f)
    (hhz : hz ≤ phase.limit) (hsize : (Request.decode (commandWord index resp data) arg).data ≠ .none → size = blockSize) :
    (busMonitor before).Guards (fun l _ => l.Settled phase hz size) (sendCommand c fuel index arg resp data)
      (fun r l _ => l.Settled (f (r.getD 0 0)) hz size ∧ l.Block (Request.decode (commandWord index resp data) arg).data)
      fun l _ => l.Settled phase hz size := by
  refine guards_free.bind fun _ => ?_
  -- the registers of the command
  refine Guards.bind (Q := fun _ l _ => l.Settled phase hz size ∧ l.free = true ∧ l.cleared = true)
    (guards_write fun l _ h => ⟨_, rfl, ⟨h.1.enabled, h.1.clock, h.1.size, h.1.phase⟩, h.2, rfl⟩) fun _ => ?_
  refine Guards.bind (Q := fun _ l _ => l.Settled phase hz size ∧ l.free = true ∧ l.cleared = true ∧ l.arg = arg)
    (guards_write fun l _ h => ⟨_, rfl, ⟨h.1.enabled, h.1.clock, h.1.size, h.1.phase⟩, h.2.1, h.2.2, rfl⟩) fun _ => ?_
  refine Guards.bind (Q := fun _ l _ => l.Issued phase hz size (.decode (commandWord index resp data) arg))
    (guards_write fun l _ h => ?_) fun _ => ?_
  · obtain ⟨h, hfree, hcleared, rfl⟩ := h
    exact h.issue hfree hcleared hserve hhz hsize
  -- the wait for the response
  refine (guards_latched (fun l _ h => h.toSettled) fun l v h => h.observe v).bind fun _ => ?_
  refine (guards_status fun l v h => h.observe v).bind fun status => .ite (fun _ => ?_) fun hstatus => ?_
  · refine Guards.bind (Q := fun _ l _ => l.Settled phase hz size)
      (guards_write fun l _ h => ⟨_, rfl, ⟨h.1.enabled, h.1.clock, h.1.size, h.1.phase⟩⟩) fun _ => ?_
    exact Guards.bind (Q := fun _ _ _ => False) (.throw fun _ _ h => h) fun _ => .of_not fun _ _ h => h
  -- the response
  refine Guards.bind (Q := fun _ l _ => l.Issued phase hz size (.decode (commandWord index resp data) arg) ∧
    l.complete = true) (guards_write fun l _ h => ?_) fun _ => ?_
  · obtain ⟨l₀, -, rfl, hbit⟩ := h.2 (not_not.mp hstatus)
    exact ⟨_, access_acknowledge _ (by decide), h.1, observe_complete l₀ (not_not.mp hstatus) hbit⟩
  refine Guards.bind (Q := fun r0 l _ => l.Settled (f r0) hz size ∧
    l.Block (Request.decode (commandWord index resp data) arg).data) (guards_read fun l b h raised v _ => ?_) fun r0 => ?_
  · exact h.1.answer h.2 hserve v
  refine (guards_unread fun l v => rfl).bind fun r1 => ?_
  refine (guards_unread fun l v => rfl).bind fun r2 => ?_
  exact (guards_unread fun l v => rfl).bind fun r3 => .pure fun l b h => h

/-! ## Transfers -/

/-- The controller is ready for the words, of which `n` are left. -/
structure Line.Ready (data : DataDir) (n : Nat) (l : Line) : Prop where
  dir : l.dir = data
  ready : l.ready = true
  left : l.left = n

variable {n i : Nat} {out : Sector}

theorem Line.Ready.word (hs : l.Settled phase hz size) (h : l.Ready data (n + 1)) :
    ∃ l', l.word data = some l' ∧ l'.Settled phase hz size ∧ l'.Ready data n := by
  have hpos : 0 < l.left := by rw [h.left]; exact Nat.succ_pos n
  refine ⟨{ l with left := l.left - 1 }, if_pos ⟨h.dir, h.ready, hpos⟩, ⟨hs.enabled, hs.clock, hs.size, hs.phase⟩,
    h.dir, h.ready, ?_⟩
  rw [h.left]
  rfl

theorem guards_readWords : (busMonitor before).Guards (fun l _ => l.Settled phase hz size ∧ l.Ready .read n)
    (readWords c n i out) (fun _ l _ => l.Settled phase hz size) E := by
  induction n generalizing i out with
  | zero => exact .pure fun l b h => h.1
  | succ n ih =>
      refine Guards.bind (Q := fun _ l _ => l.Settled phase hz size ∧ l.Ready .read n) ?_ fun word => ih
      exact guards_read fun l b h raised v _ => h.2.word h.1

theorem guards_writeWords {block : Sector} :
    (busMonitor before).Guards (fun l _ => l.Settled phase hz size ∧ l.Ready .write n)
      (writeWords c block n i) (fun _ l _ => l.Settled phase hz size) E := by
  induction n generalizing i with
  | zero => exact .pure fun l b h => h.1
  | succ n ih =>
      refine Guards.bind (Q := fun _ l _ => l.Settled phase hz size ∧ l.Ready .write n) ?_ fun _ => ih
      exact guards_write fun l _ h => h.2.word h.1

theorem guards_transfer {words : Driver α} (hdata : data ≠ .none)
    (hserve : phase.serve (.decode (commandWord index .r1 data) arg) = some fun _ => phase)
    (hdir : (Request.decode (commandWord index .r1 data) arg).data = data) (hhz : hz ≤ phase.limit)
    (hwords : (busMonitor before).Guards (fun l _ => l.Settled phase hz blockSize ∧ l.Ready data 128) words
      (fun _ l _ => l.Settled phase hz blockSize) fun l _ => l.Settled phase hz blockSize) :
    (busMonitor before).Guards (fun l _ => l.Settled phase hz size)
      (transfer c fuel index arg data (bufferReady data) words) (fun _ l _ => l.Settled phase hz blockSize)
      fun l _ => l.Settled phase hz blockSize := by
  refine Guards.bind (Q := fun _ l _ => l.Settled phase hz blockSize)
    (guards_write fun l _ h => ⟨_, rfl, h.enabled, h.clock, rfl, h.phase⟩) fun _ => ?_
  refine (guards_sendCommand hserve hhz fun _ => rfl).bind fun resp => ?_
  rw [hdir]
  refine (guards_latched (fun l _ h => h.1) fun l v h => ⟨h.1.observe v, h.2.observe v⟩).bind fun _ => ?_
  refine (guards_status fun l v h => ⟨h.1.observe v, h.2.observe v⟩).bind fun status => .ite (fun _ => ?_) fun hstatus => ?_
  · refine Guards.bind (Q := fun _ l _ => l.Settled phase hz blockSize)
      (guards_write fun l _ h => ⟨_, rfl, ⟨h.1.1.enabled, h.1.1.clock, h.1.1.size, h.1.1.phase⟩⟩) fun _ => ?_
    exact Guards.bind (Q := fun _ _ _ => False) (.throw fun _ _ h => h) fun _ => .of_not fun _ _ h => h
  refine Guards.bind (Q := fun _ l _ => l.Settled phase hz blockSize ∧ l.Ready data 128)
    (guards_write fun l _ h => ?_) fun _ => ?_
  · obtain ⟨l₀, h₀, rfl, hbit⟩ := h.2 (not_not.mp hstatus)
    refine ⟨_, access_acknowledge _ ?_, h.1.1, h.1.2.dir, ?_, ?_⟩
    · cases data <;> decide
    · exact observe_ready l₀ (not_not.mp hstatus) (by rwa [h₀.2.dir])
    · rw [h.1.2.left, if_neg hdata]
  refine hwords.bind fun out => ?_
  refine (guards_latched (fun l _ h => h) fun l v h => h.observe v).bind fun _ => ?_
  exact Guards.bind (Q := fun _ l _ => l.Settled phase hz blockSize)
    (guards_write fun l _ h => ⟨l, access_acknowledge l (by decide), h.1⟩) fun _ => .pure fun l b h => h

/-- An older card is only given the first byte of a block. -/
theorem address_mod (card : Card) (lba : UInt32) : card.blockAddressed = true ∨ (card.address lba).toNat % 512 = 0 := by
  by_cases hblocks : card.blockAddressed = true
  · exact .inl hblocks
  · refine .inr ?_
    have h512 : (512 : UInt32).toNat = 512 := rfl
    rw [Card.address, if_neg hblocks, UInt32.toNat_mul, h512]
    omega

theorem serve_transfer {rca : UInt32} {blocks : Bool}
    (hr : r = ⟨17, 0b10, .read, r.arg⟩ ∨ r = ⟨24, 0b10, .write, r.arg⟩) (harg : blocks = true ∨ r.arg.toNat % 512 = 0) :
    (Phase.transfer rca blocks).serve r = some fun _ => .transfer rca blocks := by
  have hne : r ≠ ⟨0, 0b00, .none, 0⟩ := by
    rintro rfl
    simp at hr
  exact (if_neg hne).trans (if_pos ⟨hr, harg⟩)

theorem guards_readBlock {card : Card} {rca lba : UInt32} (hhz : hz ≤ 25000000) :
    (busMonitor before).Guards (fun l _ => l.Settled (.transfer rca card.blockAddressed) hz size)
      (readBlock c fuel card lba out) (fun _ l _ => l.Settled (.transfer rca card.blockAddressed) hz blockSize)
      fun l _ => l.Settled (.transfer rca card.blockAddressed) hz blockSize :=
  guards_transfer (by decide) (serve_transfer (.inl rfl) (address_mod card lba)) rfl hhz guards_readWords

theorem guards_writeBlock {card : Card} {rca lba : UInt32} {block : Sector} (hhz : hz ≤ 25000000) :
    (busMonitor before).Guards (fun l _ => l.Settled (.transfer rca card.blockAddressed) hz size)
      (writeBlock c fuel card lba block) (fun _ l _ => l.Settled (.transfer rca card.blockAddressed) hz blockSize)
      fun l _ => l.Settled (.transfer rca card.blockAddressed) hz blockSize :=
  guards_transfer (by decide) (serve_transfer (.inr rfl) (address_mod card lba)) rfl hhz guards_writeWords

end Ferro.Sd
