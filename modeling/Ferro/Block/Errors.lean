import Ferro.Base.Latch
import Ferro.Block.Controller
import Mathlib.Data.List.TakeWhile
import Mathlib.Data.Set.Lattice
import Mathlib.Order.CompletePartialOrder

/-!
# Errors in a transfer

An error bit that a status check finds is reported. The last wait of a transfer ends on an error bit too, but no check
follows it.
-/

namespace Ferro.Sd

open Traced (Leaves)

/-! ## The status as a latching register -/

/-- The places of the bits that are set. -/
def bits (v : UInt32) : Set Nat := {i | v.toBitVec.getLsbD i}

theorem bits_or (a b : UInt32) : bits (a ||| b) = bits a ∪ bits b := by
  ext i
  simp [bits]

theorem bits_clear (a b : UInt32) : bits (a &&& ~~~b) = bits a \ bits b := by
  ext i
  simp only [bits, Set.mem_ofPred_eq, Set.mem_sdiff, UInt32.toBitVec_and, UInt32.toBitVec_not, BitVec.getLsbD_and,
    BitVec.getLsbD_not, Bool.and_eq_true, decide_eq_true_eq, Bool.not_eq_true', Bool.not_eq_true]
  exact ⟨fun h => ⟨h.1, h.2.2⟩, fun h => ⟨h.1, BitVec.lt_of_getLsbD h.1, h.2⟩⟩

theorem disjoint_bits {a b : UInt32} : Disjoint (bits a) (bits b) ↔ a &&& b = 0 := by
  rw [Set.disjoint_left, ← UInt32.toBitVec_inj, UInt32.toBitVec_and]
  constructor
  · intro h
    refine BitVec.eq_of_getLsbD_eq fun i hi => ?_
    have hi' := @h i
    simp only [bits, Set.mem_ofPred_eq, Bool.not_eq_true] at hi'
    rw [BitVec.getLsbD_and]
    cases ha : a.toBitVec.getLsbD i with
    | false => simp
    | true => simp [hi' ha]
  · intro h i ha hb
    have hand : (a.toBitVec &&& b.toBitVec).getLsbD i = true := by
      rw [BitVec.getLsbD_and, Bool.and_eq_true]
      exact ⟨ha, hb⟩
    rw [h] at hand
    simp at hand

/-- What an access does to the interrupt status. -/
def Access.status (a : Access) : Latch.Access (Set Nat) where
  raised := bits a.raised
  op := match a.op with
    | .read .intStatus v => .read (bits v)
    | .write .intStatus v => .write (bits v)
    | _ => .other

/-- The accesses between two states of the bus. -/
def busTracing : Tracing Bus Access where
  Leads b l b' := b'.trace = b.trace ++ l ∧ Latch.Runs (bits b.status) (l.map Access.status) (bits b'.status)
  nil b := ⟨(List.append_nil _).symm, .nil⟩
  append := by
    rintro b b' b'' l l' ⟨htrace, hruns⟩ ⟨htrace', hruns'⟩
    exact ⟨by rw [htrace', htrace, List.append_assoc], by rw [List.map_append]; exact hruns.append hruns'⟩

variable {c : Controller} {reg : Reg} {fuel : Nat} {α : Type} {ready : UInt32} {l : List Access}

theorem leads_single {b : Bus} {raised : UInt32} {op : Op} {status : UInt32}
    (hread : ∀ v, op = .read .intStatus v → v = b.status ||| raised)
    (hstatus : bits status = (Access.status ⟨raised, op⟩).after (bits b.status)) :
    busTracing.Leads b [⟨raised, op⟩] ⟨status, b.trace ++ [⟨raised, op⟩]⟩ := by
  refine ⟨rfl, ?_⟩
  rw [hstatus]
  refine .cons (fun w hw => ?_) .nil
  cases op with
  | read r v =>
      cases r with
      | intStatus =>
          obtain rfl : bits v = w := Latch.Op.read.inj hw
          rw [hread v rfl, bits_or]
          rfl
      | _ => cases hw
  | write r v => cases r <;> cases hw
  | ticks n => cases hw

theorem leaves_read : Leaves busTracing (read c reg) fun r l => ∃ v, r = .ok v ∧ ∃ raised, l = [⟨raised, .read reg v⟩] := by
  intro b r b' h
  rw [read, Traced.runs_step] at h
  cases h
  refine ⟨_, leads_single (fun v hv => ?_) ?_, _, rfl, _, rfl⟩
  · obtain ⟨rfl, rfl⟩ := Op.read.inj hv
    rw [if_pos rfl]
  · rw [bits_or]
    cases reg <;> rfl

theorem leaves_write {v : UInt32} :
    Leaves busTracing (write c reg v) fun r l => ∃ u, r = .ok u ∧ ∃ raised, l = [⟨raised, .write reg v⟩] := by
  intro b r b' h
  rw [write, Traced.runs_step] at h
  cases h
  refine ⟨_, leads_single (fun v hv => by cases hv) ?_, _, rfl, _, rfl⟩
  by_cases hreg : reg = .intStatus
  · subst hreg
    rw [if_pos rfl, bits_clear, bits_or]
    rfl
  · rw [if_neg hreg, bits_or]
    cases reg <;> first | rfl | exact absurd rfl hreg

theorem leaves_ticks : Leaves busTracing (ticks c) fun r l => ∃ n, r = .ok n ∧ ∃ raised, l = [⟨raised, .ticks n⟩] := by
  intro b r b' h
  rw [ticks, Traced.runs_step] at h
  cases h
  refine ⟨_, leads_single (fun v hv => by cases hv) ?_, _, rfl, _, rfl⟩
  rw [bits_or]
  rfl

/-! ## The phases of a transfer -/

/-- The condition of a wait reads a register once. -/
def Polls (cond : Driver Bool) (reg : Reg) (p : UInt32 → Bool) : Prop :=
  Leaves busTracing cond fun r l => ∃ again, r = .ok again ∧ ∃ raised v, again = p v ∧ l = [⟨raised, .read reg v⟩]

theorem polls_read {p : UInt32 → Bool} : Polls (do return p (← read c reg)) reg p := by
  refine leaves_read.seq fun v l h => ?_
  obtain ⟨raised, rfl⟩ := h
  exact .pure ⟨p v, rfl, raised, v, rfl, rfl⟩

/-- A wait writes nothing, and one that times out finds its condition at every read. -/
structure Waited (reg : Reg) (p : UInt32 → Bool) (r : Except SdError Unit) (l : List Access) : Prop where
  reads : ∀ a ∈ l, ∀ reg v, a.op ≠ .write reg v
  timeout : ∀ e, r = .error e → ∀ a ∈ l, ∀ v, a.op = .read reg v → p v

variable {p : UInt32 → Bool} {cond : Driver Bool}

theorem leaves_waitLoop {deadline : UInt64} (hcond : Polls cond reg p) :
    Leaves busTracing (waitLoop c deadline cond fuel) (Waited reg p) := by
  induction fuel with
  | zero => exact .stuck
  | succ fuel ih =>
      refine hcond.seq fun again l h => ?_
      obtain ⟨raised, v, rfl, rfl⟩ := h
      refine .ite (fun hp => ?_) fun hp => .pure ⟨by simp, fun e he => by cases he⟩
      refine leaves_ticks.seq fun n l h => ?_
      obtain ⟨raised', rfl⟩ := h
      refine .ite (fun _ => .throw ⟨by simp, by simp [hp]⟩) fun _ => ih.mono fun r l h => ⟨?_, fun e hr => ?_⟩
      · simpa using h.reads
      · simpa [hp] using h.timeout e hr

theorem leaves_waitWhile {timeoutTicks : UInt64} (hcond : Polls cond reg p) :
    Leaves busTracing (waitWhile c fuel timeoutTicks cond) (Waited reg p) := by
  refine leaves_ticks.seq fun n l h => ?_
  obtain ⟨raised, rfl⟩ := h
  exact (leaves_waitLoop hcond).mono fun r l h => ⟨by simpa using h.reads, fun e hr => by simpa using h.timeout e hr⟩

/-- The status bits that a part of a transfer clears. -/
def Clears (vs : List UInt32) (l : List Access) : Prop := ∀ a ∈ l, ∀ v, a.op = .write .intStatus v → v ∈ vs

/-- No access issues a command. -/
def NoCommand (l : List Access) : Prop := ∀ a ∈ l, ∀ v, a.op ≠ .write .transferCmd v

@[simp] theorem clears_append {vs : List UInt32} {l l' : List Access} :
    Clears vs (l ++ l') ↔ Clears vs l ∧ Clears vs l' := by
  simp only [Clears, List.forall_mem_append]

@[simp] theorem clears_cons {vs : List UInt32} {a : Access} :
    Clears vs (a :: l) ↔ (∀ v, a.op = .write .intStatus v → v ∈ vs) ∧ Clears vs l := by
  simp only [Clears, List.forall_mem_cons]

@[simp] theorem clears_nil {vs : List UInt32} : Clears vs [] := by
  simp [Clears]

theorem Clears.mono {vs vs' : List UInt32} (h : Clears vs l) (hvs : vs ⊆ vs') : Clears vs' l :=
  fun a ha v hv => hvs (h a ha v hv)

@[simp] theorem noCommand_append {l l' : List Access} : NoCommand (l ++ l') ↔ NoCommand l ∧ NoCommand l' := by
  simp only [NoCommand, List.forall_mem_append]

/-- What `send_command` leaves. -/
structure Commanded (r : Except SdError (List UInt32)) (l : List Access) : Prop where
  clears : Clears [0xFFFFFFFF, intCmdComplete] l
  issues : (∃ a, r = .ok a) → ∃ before command waiting, l = before ++ command :: waiting ∧ NoCommand before ∧
    (∃ v, command.op = .write .transferCmd v) ∧ Clears [intCmdComplete] waiting

theorem Waited.clears {r : Except SdError Unit} (h : Waited reg p r l) (vs : List UInt32) : Clears vs l :=
  fun a ha v hv => absurd hv (h.reads a ha _ v)

theorem Waited.noCommand {r : Except SdError Unit} (h : Waited reg p r l) : NoCommand l :=
  fun a ha v => h.reads a ha _ v

theorem leaves_sendCommand {index : UInt8} {arg : UInt32} {resp : RespType} {data : DataDir} :
    Leaves busTracing (sendCommand c fuel index arg resp data) Commanded := by
  refine (leaves_waitWhile polls_read).bind (fun e l h => ⟨h.clears _, fun ⟨_, h⟩ => by cases h⟩) fun _ l₁ h₁ => ?_
  refine leaves_write.seq fun _ l h => ?_
  obtain ⟨raised₁, rfl⟩ := h
  refine leaves_write.seq fun _ l h => ?_
  obtain ⟨raised₂, rfl⟩ := h
  refine leaves_write.seq fun _ l h => ?_
  obtain ⟨raised₃, rfl⟩ := h
  refine Leaves.mono (P := fun r l => Clears [0xFFFFFFFF, intCmdComplete] l ∧
    ((∃ a, r = .ok a) → Clears [intCmdComplete] l)) ?_ fun r l h => ⟨?_, fun hr => ?_⟩
  · refine (leaves_waitWhile polls_read).bind (fun e l h => ⟨h.clears _, fun ⟨_, h⟩ => by cases h⟩) fun _ l₂ h₂ => ?_
    refine leaves_read.seq fun status l h => ?_
    obtain ⟨raised₄, rfl⟩ := h
    refine .ite (fun _ => ?_) fun _ => ?_
    · refine leaves_write.seq fun _ l h => ?_
      obtain ⟨raised₅, rfl⟩ := h
      refine .throw ⟨?_, fun ⟨_, h⟩ => by cases h⟩
      simp [h₂.clears]
    · refine leaves_write.seq fun _ l h => ?_
      obtain ⟨raised₅, rfl⟩ := h
      refine leaves_read.seq fun _ l h => ?_
      obtain ⟨raised₆, rfl⟩ := h
      refine leaves_read.seq fun _ l h => ?_
      obtain ⟨raised₇, rfl⟩ := h
      refine leaves_read.seq fun _ l h => ?_
      obtain ⟨raised₈, rfl⟩ := h
      refine leaves_read.seq fun _ l h => ?_
      obtain ⟨raised₉, rfl⟩ := h
      exact .pure ⟨by simp [h₂.clears], fun _ => by simp [h₂.clears]⟩
  · simp [h₁.clears, h.1]
  · refine ⟨l₁ ++ [⟨raised₁, .write .intStatus 0xFFFFFFFF⟩, ⟨raised₂, .write .arg1 arg⟩], _, l, by simp; rfl, ?_, ⟨_, rfl⟩,
      h.2 hr⟩
    intro a ha v hv
    rcases List.mem_append.mp ha with ha | ha
    · exact h₁.noCommand a ha v hv
    · simp only [List.mem_cons, List.not_mem_nil, or_false] at ha
      rcases ha with rfl | rfl <;> cases hv

theorem and_eq_zero_of_or {v a b : UInt32} (h : v &&& (a ||| b) = 0) : v &&& b = 0 := by
  rw [← disjoint_bits, bits_or] at h
  exact disjoint_bits.mp (Set.disjoint_union_right.mp h).2

theorem Clears.ne {vs : List UInt32} (h : Clears vs l) (hready : ready ∉ vs) : ∀ a ∈ l, a.op ≠ .write .intStatus ready :=
  fun a ha hop => hready (h a ha ready hop)

/-- The words of the block only go through the buffer. -/
def OnlyBuffer (l : List Access) : Prop := ∀ a ∈ l, ∃ v, a.op = .read .buffer v ∨ a.op = .write .buffer v

/-- What a transfer leaves: either it stops before it acknowledges the buffer's bit, or its trace has a check that finds
no error right before that. -/
inductive Transferred (ready : UInt32) : Except SdError α → List Access → Prop where
  | stopped {e : SdError} {l : List Access} (hl : Clears [0xFFFFFFFF, intCmdComplete] l) : Transferred ready (.error e) l
  | acknowledged {r : Except SdError α} {before waiting rest : List Access} {command check : Access} {raised v : UInt32}
      (hbefore : NoCommand before) (hclears : Clears [0xFFFFFFFF, intCmdComplete] before)
      (hcommand : ∃ v, command.op = .write .transferCmd v) (hwaiting : Clears [intCmdComplete] waiting)
      (hcheck : check.op = .read .intStatus v) (hv : v &&& intErrorMask = 0)
      (hrest : Clears [intTransferComplete] rest) (hclean : ∀ e, r = .error e → Clean rest) :
      Transferred ready r (before ++ command :: (waiting ++ check :: ⟨raised, .write .intStatus ready⟩ :: rest))

theorem OnlyBuffer.clears (h : OnlyBuffer l) (vs : List UInt32) : Clears vs l := by
  intro a ha v hv
  obtain ⟨w, hop | hop⟩ := h a ha <;> simp [hop] at hv

theorem leaves_transfer {words : Driver α} {index : UInt8} {addr : UInt32} {data : DataDir}
    (hwords : Leaves busTracing words fun r l => ∃ a, r = .ok a ∧ OnlyBuffer l) :
    Leaves busTracing (transfer c fuel index addr data ready words) (Transferred ready) := by
  refine leaves_write.seq fun _ l₀ h => ?_
  have hfirst : NoCommand l₀ ∧ Clears [0xFFFFFFFF, intCmdComplete] l₀ := by
    obtain ⟨_, rfl⟩ := h
    simp [NoCommand]
  refine leaves_sendCommand.bind (fun e l h => .stopped (by simp [hfirst, h.clears])) fun resp l₁ h₁ => ?_
  obtain ⟨before, command, waiting, rfl, hbefore, hcommand, hwaiting⟩ := h₁.issues ⟨resp, rfl⟩
  have hclears := clears_append.mpr ⟨hfirst.2, h₁.clears⟩
  refine (leaves_waitWhile polls_read).bind (fun e l h => .stopped ?_) fun _ l₂ h₂ => ?_
  · simpa [h.clears] using hclears
  refine leaves_read.seq fun status l h => ?_
  obtain ⟨raised₁, rfl⟩ := h
  refine .ite (fun _ => ?_) fun hstatus => ?_
  · refine leaves_write.seq fun _ l h => ?_
    obtain ⟨raised₂, rfl⟩ := h
    refine .throw (.stopped ?_)
    simpa [h₂.clears] using hclears
  · refine leaves_write.seq fun _ l h => ?_
    obtain ⟨raised₂, rfl⟩ := h
    refine hwords.seq fun out l₃ h₃ => ?_
    have hall {r : Except SdError α} {rest : List Access} (hrest : Clears [intTransferComplete] rest)
        (hclean : ∀ e, r = .error e → Clean rest) : Transferred ready r (l₀ ++ before ++ command :: (waiting ++ l₂ ++
          ⟨raised₁, .read .intStatus status⟩ :: ⟨raised₂, .write .intStatus ready⟩ :: rest)) := by
      refine .acknowledged ?_ ?_ hcommand ?_ rfl (not_not.mp hstatus) hrest hclean
      · exact noCommand_append.mpr ⟨hfirst.1, hbefore⟩
      · exact clears_append.mpr ⟨hfirst.2, (clears_append.mp h₁.clears).1⟩
      · exact clears_append.mpr ⟨hwaiting, h₂.clears _⟩
    refine (leaves_waitWhile polls_read).bind (fun e l h => ?_) fun _ l₄ h₄ => ?_
    · have hclean : Clean (l₃ ++ l) := by
        intro a ha v hv
        rcases List.mem_append.mp ha with ha | ha
        · obtain ⟨w, hop | hop⟩ := h₃ a ha <;> simp [hop] at hv
        · have hpolled : v &&& (intTransferComplete ||| intErrorMask) = 0 := of_decide_eq_true (h.timeout e rfl a ha v hv)
          exact and_eq_zero_of_or hpolled
      simpa using hall (r := .error e) (clears_append.mpr ⟨h₃.clears _, h.clears _⟩) fun _ _ => hclean
    · refine leaves_write.seq fun _ l h => ?_
      obtain ⟨raised₃, rfl⟩ := h
      refine .pure ?_
      have hrest : Clears [intTransferComplete] (l₃ ++ (l₄ ++ [⟨raised₃, .write .intStatus intTransferComplete⟩])) := by
        simp [h₃.clears, h₄.clears]
      simpa using hall (r := .ok out) hrest fun e he => by cases he

/-! ## The status that a transfer reads -/

theorem status_read_iff {a : Access} {s : Set Nat} :
    a.status.op = .read s ↔ ∃ v, a.op = .read .intStatus v ∧ bits v = s := by
  obtain ⟨raised, op⟩ := a
  rcases op with ⟨reg, v⟩ | ⟨reg, v⟩ | n
  · cases reg <;> simp [Access.status]
  · cases reg <;> simp [Access.status]
  · simp [Access.status]

theorem status_write_iff {a : Access} {s : Set Nat} :
    a.status.op = .write s ↔ ∃ v, a.op = .write .intStatus v ∧ bits v = s := by
  obtain ⟨raised, op⟩ := a
  rcases op with ⟨reg, v⟩ | ⟨reg, v⟩ | n
  · cases reg <;> simp [Access.status]
  · cases reg <;> simp [Access.status]
  · simp [Access.status]

theorem clean_iff : Clean l ↔ Latch.Clean (bits intErrorMask) (l.map Access.status) := by
  simp only [Clean, Latch.Clean, List.forall_mem_map]
  refine forall₂_congr fun a _ => ⟨fun h s hs => ?_, fun h v hv => ?_⟩
  · obtain ⟨v, hv, rfl⟩ := status_read_iff.mp hs
    exact disjoint_bits.mpr (h v hv)
  · exact disjoint_bits.mp (h _ (status_read_iff.mpr ⟨v, hv, rfl⟩))

theorem isRead_iff {a : Access} : a.status.IsRead ↔ ∃ v, a.op = .read .intStatus v := by
  simp only [Latch.Access.IsRead, status_read_iff]
  exact ⟨fun ⟨_, v, hv, _⟩ => ⟨v, hv⟩, fun ⟨v, hv⟩ => ⟨_, v, hv, rfl⟩⟩

theorem quiet_iff : Quiet l ↔ Latch.Quiet (bits intErrorMask) (l.map Access.status) := by
  constructor
  · intro h before a after hsplit hread
    obtain ⟨l₁, l₂, rfl, -, hl₂⟩ := List.map_eq_append_iff.mp hsplit
    obtain ⟨x, l₃, rfl, rfl, rfl⟩ := List.map_eq_cons_iff.mp hl₂
    obtain ⟨y, hy, hread⟩ := hread
    rw [← List.map_cons] at hy
    obtain ⟨z, hz, rfl⟩ := List.mem_map.mp hy
    exact disjoint_bits.mpr (h l₁ x l₃ rfl ⟨z, hz, isRead_iff.mp hread⟩)
  · rintro h before a after rfl ⟨b, hb, hread⟩
    refine disjoint_bits.mp (h (before.map Access.status) a.status (after.map Access.status) (by simp) ?_)
    exact ⟨b.status, by rw [← List.map_cons]; exact List.mem_map_of_mem hb, isRead_iff.mpr hread⟩

theorem Clears.spares {vs : List UInt32} (h : Clears vs l) (hvs : ∀ v ∈ vs, v &&& intErrorMask = 0) :
    Latch.Spares (bits intErrorMask) (l.map Access.status) := by
  intro a ha s hs
  obtain ⟨x, hx, rfl⟩ := List.mem_map.mp ha
  obtain ⟨v, hv, rfl⟩ := status_write_iff.mp hs
  exact disjoint_bits.mpr (hvs v (h x hx v hv))

theorem afterCommand_eq {before rest : List Access} {command : Access} (hbefore : NoCommand before)
    (hcommand : ∃ v, command.op = .write .transferCmd v) : afterCommand (before ++ command :: rest) = rest := by
  obtain ⟨v, hv⟩ := hcommand
  rw [afterCommand, List.dropWhile_append_of_pos, List.dropWhile_cons_of_neg, List.tail_cons]
  · simp [hv]
  · intro a ha
    have hne := hbefore a ha
    split <;> simp_all

theorem fromReady_eq {before rest : List Access} {raised : UInt32} (hbefore : ∀ a ∈ before, a.op ≠ .write .intStatus ready) :
    fromReady ready (before ++ ⟨raised, .write .intStatus ready⟩ :: rest) = ⟨raised, .write .intStatus ready⟩ :: rest := by
  rw [fromReady, List.dropWhile_append_of_pos fun a ha => decide_eq_true (hbefore a ha),
    List.dropWhile_cons_of_neg (by simp)]

theorem fromReady_eq_nil (h : ∀ a ∈ l, a.op ≠ .write .intStatus ready) : fromReady ready l = [] :=
  List.dropWhile_eq_nil_iff.mpr fun a ha => decide_eq_true (h a ha)

theorem clean_append {l l' : List Access} : Clean (l ++ l') ↔ Clean l ∧ Clean l' := by
  simp only [Clean, List.forall_mem_append]

theorem clean_cons {a : Access} : Clean (a :: l) ↔ (∀ v, a.op = .read .intStatus v → v &&& intErrorMask = 0) ∧ Clean l := by
  simp only [Clean, List.forall_mem_cons]

/-- A check that finds no error says the same of the wait before it, and behind it the status is read without an error as
long as the controller sets none. -/
theorem clean_of_check {front waiting tail : List Access} {check : Access} {v : UInt32} {vs : List UInt32}
    {b b' : Bus} (hleads : busTracing.Leads b (front ++ (waiting ++ check :: tail)) b')
    (hwaiting : Clears [intCmdComplete] waiting) (hcheck : check.op = .read .intStatus v) (hv : v &&& intErrorMask = 0)
    (htail : Clears vs tail) (hvs : ∀ v ∈ vs, v &&& intErrorMask = 0) :
    Clean (waiting ++ [check]) ∧ (Clean tail ↔ Quiet tail) := by
  have hread : check.status.op = .read (bits v) := status_read_iff.mpr ⟨v, hcheck, rfl⟩
  have hdisj : Disjoint (bits v) (bits intErrorMask) := disjoint_bits.mpr hv
  have hruns := hleads.2
  rw [List.map_append, List.map_append, List.map_cons] at hruns
  obtain ⟨s₁, -, hruns₁⟩ := Latch.runs_append.mp hruns
  have hwait : Clean waiting :=
    clean_iff.mpr (hruns₁.clean_of_read (hwaiting.spares (by simp; decide)) hread hdisj)
  constructor
  · rw [clean_append, clean_cons]
    refine ⟨hwait, fun w hw => ?_, by simp [Clean]⟩
    rw [hcheck] at hw
    rwa [← (Op.read.inj hw).2]
  · obtain ⟨s₂, -, hruns₂⟩ := Latch.runs_append.mp hruns₁
    cases hruns₂ with
    | cons hr hl =>
        rw [clean_iff, quiet_iff]
        refine hl.clean_iff_quiet (htail.spares hvs) ?_
        rwa [Latch.after_of_isRead hread, ← hr _ hread]

theorem Transferred.clean_iff_quiet {r : Except SdError α} {b b' : Bus} (h : Transferred ready r l)
    (hleads : busTracing.Leads b l b') (hready : ready ∉ [0xFFFFFFFF, intCmdComplete])
    (herr : ready &&& intErrorMask = 0) :
    ((∃ a, r = .ok a) → Clean (afterCommand l)) ↔ Quiet (fromReady ready l) := by
  cases h with
  | stopped hl =>
      rw [fromReady_eq_nil (hl.ne hready)]
      exact iff_of_true (fun ⟨_, h⟩ => by cases h) (by simp [Quiet])
  | @acknowledged _ before waiting rest command check raised v hbefore hclears hcommand hwaiting hcheck hv hrest hclean =>
      have hback : ∀ a ∈ before ++ command :: (waiting ++ [check]), a.op ≠ .write .intStatus ready := by
        obtain ⟨w, hw⟩ := hcommand
        have hwaiting' := hwaiting.ne (List.not_mem_of_not_mem_cons hready)
        have hbefore' := hclears.ne hready
        simp only [List.forall_mem_append, List.forall_mem_cons]
        exact ⟨hbefore', by simp [hw], hwaiting', by simp [hcheck], by simp⟩
      have hfrom : fromReady ready (before ++ command :: (waiting ++ check :: ⟨raised, .write .intStatus ready⟩ :: rest)) =
          ⟨raised, .write .intStatus ready⟩ :: rest := by
        simpa using @fromReady_eq ready _ rest raised hback
      have htail : Clears [ready, intTransferComplete] (⟨raised, .write .intStatus ready⟩ :: rest) := by
        rw [clears_cons]
        exact ⟨by simp, hrest.mono (by simp)⟩
      rw [List.append_cons] at hleads
      obtain ⟨hchecked, hiff⟩ := clean_of_check hleads hwaiting hcheck hv htail (by simp [herr]; decide)
      rw [afterCommand_eq hbefore hcommand, hfrom, ← hiff, List.append_cons, clean_append]
      refine ⟨fun h => ?_, fun h _ => ⟨hchecked, h⟩⟩
      cases r with
      | ok a => exact (h ⟨a, rfl⟩).2
      | error e => exact clean_cons.mpr ⟨by simp, hclean e rfl⟩

/-! ## The two transfers -/

theorem leaves_readWords (n i : Nat) (out : Sector) :
    Leaves busTracing (readWords c n i out) fun r l => ∃ a, r = .ok a ∧ OnlyBuffer l := by
  induction n generalizing i out with
  | zero => exact .pure ⟨out, rfl, by simp [OnlyBuffer]⟩
  | succ n ih =>
      refine leaves_read.seq fun word l h => ?_
      obtain ⟨raised, rfl⟩ := h
      refine (ih (i + 1) _).mono fun r l h => ?_
      obtain ⟨a, hr, hl⟩ := h
      exact ⟨a, hr, List.forall_mem_cons.mpr ⟨⟨word, .inl rfl⟩, hl⟩⟩

theorem leaves_writeWords (data : Sector) (n i : Nat) :
    Leaves busTracing (writeWords c data n i) fun r l => ∃ a, r = .ok a ∧ OnlyBuffer l := by
  induction n generalizing i with
  | zero => exact .pure ⟨(), rfl, by simp [OnlyBuffer]⟩
  | succ n ih =>
      refine leaves_write.seq fun _ l h => ?_
      obtain ⟨raised, rfl⟩ := h
      refine (ih (i + 1)).mono fun r l h => ?_
      obtain ⟨a, hr, hl⟩ := h
      exact ⟨a, hr, List.forall_mem_cons.mpr ⟨⟨_, .inr rfl⟩, hl⟩⟩

theorem transfer_clean_iff {words : Driver α} {index : UInt8} {addr : UInt32} {data : DataDir} {status : UInt32}
    {r : Except SdError α} {bus : Bus} (hwords : Leaves busTracing words fun r l => ∃ a, r = .ok a ∧ OnlyBuffer l)
    (hready : ready ∉ [0xFFFFFFFF, intCmdComplete]) (herr : ready &&& intErrorMask = 0)
    (h : (transfer c fuel index addr data ready words).runs ⟨status, []⟩ = some (r, bus)) :
    ((∃ a, r = .ok a) → Clean (afterCommand bus.trace)) ↔ Quiet (fromReady ready bus.trace) := by
  obtain ⟨l, hleads, htransferred⟩ := leaves_transfer hwords h
  obtain rfl : bus.trace = l := hleads.1
  exact htransferred.clean_iff_quiet hleads hready herr

/-- A transfer that succeeds has read no error if and only if the controller sets none from the acknowledgement of the
buffer's bit on, as far as the driver still reads the status. -/
theorem blocks_clean_iff_quiet (c : Controller) (fuel : Nat) (card : Card) (lba status : UInt32) (block : Sector) :
    (∀ r bus, (readBlock c fuel card lba block).runs ⟨status, []⟩ = some (r, bus) →
      (((∃ out, r = .ok out) → Clean (afterCommand bus.trace)) ↔ Quiet (fromReady intBufferReadReady bus.trace))) ∧
    ∀ r bus, (writeBlock c fuel card lba block).runs ⟨status, []⟩ = some (r, bus) →
      ((r = .ok () → Clean (afterCommand bus.trace)) ↔ Quiet (fromReady intBufferWriteReady bus.trace)) := by
  refine ⟨fun r bus h => ?_, fun r bus h => ?_⟩
  · exact transfer_clean_iff (leaves_readWords _ _ _) (by decide) (by decide) h
  · rw [← transfer_clean_iff (leaves_writeWords _ _ _) (by decide) (by decide) h]
    exact ⟨fun hok ⟨_, hr⟩ => hok hr, fun hok hr => hok ⟨(), hr⟩⟩

/-- A controller that answers at once, with the given bits of the status once the buffer's bit is acknowledged. -/
def answering (last : UInt32) : Controller where
  raised trace :=
    match trace.getLast?.map Access.op with
    | some (.write .transferCmd _) => intCmdComplete
    | some (.write .intStatus v) =>
      if v = intCmdComplete then intBufferReadReady ||| intBufferWriteReady
      else if v = intBufferReadReady ∨ v = intBufferWriteReady then last
      else 0
    | _ => 0
  value _ _ := 0
  ticks _ := 0

theorem blocks_clean_iff_quiet_answering :
    (∃ r bus, (readBlock (answering intTransferComplete) 1 ⟨true⟩ 5 (.fill 0)).runs ⟨0, []⟩ = some (r, bus) ∧
      (((∃ out, r = .ok out) → Clean (afterCommand bus.trace)) ↔ Quiet (fromReady intBufferReadReady bus.trace))) ∧
    ∃ r bus, (writeBlock (answering intTransferComplete) 1 ⟨true⟩ 5 (.fill 0)).runs ⟨0, []⟩ = some (r, bus) ∧
      ((r = .ok () → Clean (afterCommand bus.trace)) ↔ Quiet (fromReady intBufferWriteReady bus.trace)) := by
  obtain ⟨⟨r, bus⟩, hread⟩ := Option.isSome_iff_exists.mp (by decide +kernel :
    ((readBlock (answering intTransferComplete) 1 ⟨true⟩ 5 (.fill 0)).runs ⟨0, []⟩).isSome)
  obtain ⟨⟨r', bus'⟩, hwrite⟩ := Option.isSome_iff_exists.mp (by decide +kernel :
    ((writeBlock (answering intTransferComplete) 1 ⟨true⟩ 5 (.fill 0)).runs ⟨0, []⟩).isSome)
  exact ⟨⟨r, bus, hread, (blocks_clean_iff_quiet _ _ _ _ _ _).1 r bus hread⟩,
    ⟨r', bus', hwrite, (blocks_clean_iff_quiet _ _ _ _ _ _).2 r' bus' hwrite⟩⟩

/-- A data CRC error that comes with the end of the transfer. -/
theorem read_succeeds_on_error : ∃ out bus,
    (readBlock (answering 0x00200002) 1 ⟨true⟩ 5 (.fill 0)).runs ⟨0, []⟩ = some (.ok out, bus) ∧
      ¬ Clean (afterCommand bus.trace) := by
  have hrun : ((readBlock (answering 0x00200002) 1 ⟨true⟩ 5 (.fill 0)).runs ⟨0, []⟩).any (fun p =>
      p.1.isOk && (afterCommand p.2.trace).any fun a => a.op = .read .intStatus 0x00200012) = true := by
    decide +kernel
  obtain ⟨⟨r, bus⟩, heq, hp⟩ := (Option.any_eq_true _ _).mp hrun
  obtain ⟨hok, hany⟩ := Bool.and_eq_true_iff.mp hp
  obtain ⟨a, ha, hop⟩ := List.any_eq_true.mp hany
  cases r with
  | ok out =>
      refine ⟨out, bus, heq, fun hclean => ?_⟩
      exact absurd (hclean a ha _ (of_decide_eq_true hop)) (by decide)
  | error e => cases hok

end Ferro.Sd
