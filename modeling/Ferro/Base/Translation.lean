import Mathlib.Algebra.Order.Ring.Nat
import Mathlib.Data.List.Basic
import Mathlib.Logic.Function.Basic

/-!
# Address translation

Stage 1 of the EL1 translation of ARMv8-A, with granules of 4 KiB: a radix tree of tables of 512 descriptors. A block
descriptor maps 1 GiB at level 1 and 2 MiB at level 2. Numbers are natural numbers; memory is read by doubleword.
-/

namespace Ferro

namespace Translation

/-- The `n` bits of `d` from bit `lo` on. -/
def bits (d lo n : Nat) : Nat := d / 2 ^ lo % 2 ^ n

/-- The bits of an address that an entry with `n` levels below it leaves open. -/
def span (n : Nat) : Nat := 12 + 9 * n

/-- The address of the descriptor for `va` in a table with `n` levels below it. -/
def entry (n table va : Nat) : Nat := table + 8 * bits va (span n) 9

/-- The address that a descriptor with `n` levels below it maps to. -/
def output (n d va : Nat) : Nat := bits d (span n) (48 - span n) * 2 ^ span n + va % 2 ^ span n

/-- Walks down from a table with `n` levels below it, to the output address and the descriptor there. -/
def walk (mem : Nat → Nat) : (n table va : Nat) → Option (Nat × Nat)
  | 0, table, va =>
    let d := mem (entry 0 table va)
    if bits d 0 2 = 3 then some (output 0 d va, d) else none
  | n + 1, table, va =>
    let d := mem (entry (n + 1) table va)
    if bits d 0 2 = 3 then walk mem n (bits d 12 36 * 2 ^ 12) va
    else if bits d 0 2 = 1 ∧ n + 1 ≤ 2 then some (output (n + 1) d va, d)
    else none

/-- The system registers that a translation reads. -/
structure Regs where
  sctlr : Nat
  mair : Nat
  tcr : Nat
  ttbr0 : Nat

inductive Fault where
  | translation
  | accessFlag
  /-- Another granule, or the upper range of addresses. -/
  | notDescribed
  deriving DecidableEq

/-- Where an address is, and how it can be accessed at EL1. -/
structure Mapping where
  pa : Nat
  /-- The attribute of `MAIR_EL1`. -/
  memory : Nat
  shareability : Nat
  writable : Bool
  executable : Bool
  deriving DecidableEq

def mappingOf (r : Regs) (pa d : Nat) : Mapping :=
  let writable := decide (bits d 7 1 = 0)
  { pa
    memory := bits r.mair (8 * bits d 2 3) 8
    shareability := bits d 8 2
    writable
    -- PXN, and WXN for what can be written
    executable := decide (bits d 53 1 = 0) && !(decide (bits r.sctlr 19 1 = 1) && writable) }

/-- What the walk ends with. -/
def resolve (r : Regs) : Option (Nat × Nat) → Except Fault Mapping
  | none => .error .translation
  | some (pa, d) => if bits d 10 1 = 1 then .ok (mappingOf r pa d) else .error .accessFlag

def translate (r : Regs) (mem : Nat → Nat) (va : Nat) : Except Fault Mapping :=
  let inputBits := 64 - bits r.tcr 0 6
  if bits r.tcr 14 2 ≠ 0 then
    .error .notDescribed
  else if 2 ^ inputBits ≤ va then
    if 2 ^ 64 - 2 ^ inputBits ≤ va ∧ bits r.tcr 23 1 = 0 then .error .notDescribed else .error .translation
  else
    resolve r (walk mem ((inputBits - 13) / 9) (bits r.ttbr0 12 36 * 2 ^ 12) va)

variable {mem : Nat → Nat} {n d table va : Nat}

theorem walk_table (h : mem (entry (n + 1) table va) = d) (hd : bits d 0 2 = 3) :
    walk mem (n + 1) table va = walk mem n (bits d 12 36 * 2 ^ 12) va := by
  simp only [walk, h, hd, if_true]

theorem walk_block (h : mem (entry (n + 1) table va) = d) (hd : bits d 0 2 = 1) (hn : n + 1 ≤ 2) :
    walk mem (n + 1) table va = some (output (n + 1) d va, d) := by
  simp only [walk, h, hd, hn, and_self, if_true]
  rfl

theorem walk_invalid (h : mem (entry (n + 1) table va) = d) (hd : bits d 0 1 = 0) : walk mem (n + 1) table va = none := by
  have h3 : bits d 0 2 ≠ 3 := by simp only [bits] at hd ⊢; omega
  have h1 : bits d 0 2 ≠ 1 := by simp only [bits] at hd ⊢; omega
  simp only [walk, h, h3, h1, if_false, false_and]

/-! ## Filling a table -/

/-- Entries that are written one after the other, each at its place. -/
theorem foldl_update_range {α : Type} (mem : Nat → α) (place : Nat → Nat) (v : Nat → α) (hinj : Function.Injective place)
    (n a : Nat) : (∀ i < n, ((List.range n).foldl (fun m i => Function.update m (place i) (v i)) mem) (place i) = v i) ∧
      ((∀ i < n, a ≠ place i) → ((List.range n).foldl (fun m i => Function.update m (place i) (v i)) mem) a = mem a) := by
  induction n with
  | zero => exact ⟨fun i hi => absurd hi (Nat.not_lt_zero i), fun _ => rfl⟩
  | succ n ih =>
      rw [List.range_succ, List.foldl_append]
      refine ⟨fun i hi => ?_, fun ha => ?_⟩
      · rcases Nat.lt_succ_iff_lt_or_eq.mp hi with hlt | rfl
        · rw [List.foldl_cons, List.foldl_nil, Function.update_of_ne (hinj.ne (by omega)), ih.1 i hlt]
        · rw [List.foldl_cons, List.foldl_nil, Function.update_self]
      · rw [List.foldl_cons, List.foldl_nil, Function.update_of_ne (ha n (Nat.lt_succ_self n))]
        exact ih.2 fun i hi => ha i (by omega)

end Translation

end Ferro
