import Mathlib.Logic.Function.Basic
import Mathlib.Order.Defs.Unbundled

/-!
# Programs over a block device

A program reads and writes whole blocks of a device and ends with a value or an error. It has three meanings:
`run`, where every operation succeeds; `runFaults`, where an oracle fails chosen operations and a failed
operation ends the program; and `crash n`, the device when power is lost after `n` writes.
-/

namespace Ferro

/-- A program over a device with addresses `A` and blocks `B`, ending with an `α` or an error `E`. -/
inductive Prog (A B E α : Type) where
  | ret (a : α)
  | fail (e : E)
  | read (addr : A) (k : B → Prog A B E α)
  | write (addr : A) (b : B) (k : Prog A B E α)

namespace Prog

variable {A B E α β : Type}

def bind : Prog A B E α → (α → Prog A B E β) → Prog A B E β
  | ret a, f => f a
  | fail e, _ => fail e
  | read addr k, f => read addr fun b => bind (k b) f
  | write addr b k, f => write addr b (bind k f)

instance : Monad (Prog A B E) where
  pure := ret
  bind := bind

/-- `for i in i..i + n { f(i) }`. -/
def forRange (f : Nat → Prog A B E Unit) : (i n : Nat) → Prog A B E Unit
  | _, 0 => pure ()
  | i, n + 1 => do
    f i
    forRange f (i + 1) n

/-- The program with its errors converted (`?` through a `From` conversion). -/
def mapError {E' : Type} (f : E → E') : Prog A B E α → Prog A B E' α
  | ret a => ret a
  | fail e => fail (f e)
  | read addr k => read addr fun b => mapError f (k b)
  | write addr b k => write addr b (mapError f k)

variable [DecidableEq A]

/-- The result and the device afterwards when every operation succeeds. -/
def run : Prog A B E α → (A → B) → Except E α × (A → B)
  | ret a, d => (.ok a, d)
  | fail e, d => (.error e, d)
  | read addr k, d => run (k (d addr)) d
  | write addr b k, d => run k (Function.update d addr b)

/-- The device when the first `n` writes take effect and no later one does. -/
def crash : Nat → Prog A B E α → (A → B) → (A → B)
  | _, ret _, d => d
  | _, fail _, d => d
  | n, read addr k, d => crash n (k (d addr)) d
  | 0, write _ _ _, d => d
  | n + 1, write addr b k, d => crash n k (Function.update d addr b)

/-- The run in which operation number `i` fails with `e` when `faults i = some e`. A failed write leaves its
block unchanged, and a failed operation ends the program. The counter of operations is returned as well. -/
def runFaults (faults : Nat → Option E) : Prog A B E α → Nat → (A → B) → Except E α × Nat × (A → B)
  | ret a, i, d => (.ok a, i, d)
  | fail e, i, d => (.error e, i, d)
  | read addr k, i, d =>
    match faults i with
    | some e => (.error e, i + 1, d)
    | none => runFaults faults (k (d addr)) (i + 1) d
  | write addr b k, i, d =>
    match faults i with
    | some e => (.error e, i + 1, d)
    | none => runFaults faults k (i + 1) (Function.update d addr b)

@[simp] theorem run_pure (a : α) (d : A → B) : (pure a : Prog A B E α).run d = (.ok a, d) := rfl

@[simp] theorem run_fail (e : E) (d : A → B) : (fail e : Prog A B E α).run d = (.error e, d) := rfl

theorem run_bind (p : Prog A B E α) (f : α → Prog A B E β) (d : A → B) :
    (p >>= f).run d = match p.run d with
      | (.ok a, d') => (f a).run d'
      | (.error e, d') => (.error e, d') := by
  change (p.bind f).run d = _
  induction p generalizing d with
  | ret a => rfl
  | fail e => rfl
  | read addr k ih => exact ih (d addr) d
  | write addr b k ih => exact ih _

theorem run_bind_ok {p : Prog A B E α} {f : α → Prog A B E β} {d d' : A → B} {a : α}
    (h : p.run d = (.ok a, d')) : (p >>= f).run d = (f a).run d' := by
  rw [run_bind, h]

theorem run_bind_error {p : Prog A B E α} {f : α → Prog A B E β} {d d' : A → B} {e : E}
    (h : p.run d = (.error e, d')) : (p >>= f).run d = (.error e, d') := by
  rw [run_bind, h]

theorem run_mapError {E' : Type} (f : E → E') (p : Prog A B E α) (d : A → B) :
    (p.mapError f).run d = ((p.run d).1.mapError f, (p.run d).2) := by
  induction p generalizing d with
  | ret a => rfl
  | fail e => rfl
  | read addr k ih => exact ih (d addr) d
  | write addr b k ih => exact ih _

/-! ## Where power can be lost -/

@[simp] theorem crash_pure (n : Nat) (a : α) (d : A → B) : (pure a : Prog A B E α).crash n d = d := by
  cases n <;> rfl

@[simp] theorem crash_fail (n : Nat) (e : E) (d : A → B) : (fail e : Prog A B E α).crash n d = d := by
  cases n <;> rfl

@[simp] theorem crash_zero (p : Prog A B E α) (d : A → B) : p.crash 0 d = d := by
  induction p generalizing d with
  | ret a => rfl
  | fail e => rfl
  | read addr k ih => exact ih (d addr) d
  | write addr b k ih => rfl

theorem crash_mapError {E' : Type} (f : E → E') (p : Prog A B E α) (n : Nat) (d : A → B) :
    (p.mapError f).crash n d = p.crash n d := by
  induction p generalizing n d with
  | ret a => rfl
  | fail e => rfl
  | read addr k ih => exact ih (d addr) n d
  | write addr b k ih =>
      cases n with
      | zero => rfl
      | succ n => exact ih n _

/-- The cuts of a sequence are the cuts of its first part and those of the second after the first is done. -/
theorem crash_bind_iff {C : (A → B) → Prop} (p : Prog A B E α) (f : α → Prog A B E β) (d : A → B) :
    (∀ n, C ((p >>= f).crash n d)) ↔
      (∀ n, C (p.crash n d)) ∧ ∀ a d', p.run d = (.ok a, d') → ∀ n, C ((f a).crash n d') := by
  change (∀ n, C ((p.bind f).crash n d)) ↔ _
  induction p generalizing d with
  | ret a =>
      constructor
      · intro h
        refine ⟨fun n => ?_, fun a' d' he n => ?_⟩
        · simpa [crash] using h 0
        · cases he; exact h n
      · intro h n; exact h.2 a d rfl n
  | fail e => exact ⟨fun h => ⟨h, fun _ _ he => by cases he⟩, fun h => h.1⟩
  | read addr k ih => exact ih (d addr) d
  | write addr b k ih =>
      have hw := ih (Function.update d addr b)
      constructor
      · intro h
        have hk := hw.mp fun n => h (n + 1)
        refine ⟨fun n => ?_, hk.2⟩
        cases n with
        | zero => exact h 0
        | succ n => exact hk.1 n
      · intro h n
        cases n with
        | zero => exact h.1 0
        | succ n => exact hw.mpr ⟨fun n => h.1 (n + 1), h.2⟩ n

theorem exists_crash_eq_run (p : Prog A B E α) (d : A → B) : ∃ n, p.crash n d = (p.run d).2 := by
  induction p generalizing d with
  | ret a => exact ⟨0, rfl⟩
  | fail e => exact ⟨0, rfl⟩
  | read addr k ih => exact ih (d addr) d
  | write addr b k ih =>
      obtain ⟨n, hn⟩ := ih (Function.update d addr b)
      exact ⟨n + 1, hn⟩

theorem runFaults_of_none (p : Prog A B E α) (faults : Nat → Option E) (hf : ∀ i, faults i = none) (i : Nat)
    (d : A → B) : (p.runFaults faults i d).2.2 = (p.run d).2 := by
  induction p generalizing i d with
  | ret a => rfl
  | fail e => rfl
  | read addr k ih => rw [runFaults, hf]; exact ih (d addr) (i + 1) d
  | write addr b k ih => rw [runFaults, hf]; exact ih (i + 1) _

/-- Whatever operations fail, the device is left as some power loss would leave it. -/
theorem exists_crash_eq_runFaults (faults : Nat → Option E) (p : Prog A B E α) (i : Nat) (d : A → B) :
    ∃ n, p.crash n d = (p.runFaults faults i d).2.2 := by
  induction p generalizing i d with
  | ret a => exact ⟨0, rfl⟩
  | fail e => exact ⟨0, rfl⟩
  | read addr k ih =>
      simp only [runFaults]
      cases faults i with
      | some e => exact ⟨0, crash_zero _ _⟩
      | none => exact ih (d addr) (i + 1) d
  | write addr b k ih =>
      simp only [runFaults]
      cases faults i with
      | some e => exact ⟨0, rfl⟩
      | none =>
          obtain ⟨n, hn⟩ := ih (i + 1) (Function.update d addr b)
          exact ⟨n + 1, hn⟩

/-- Failing operations leave the result, or one of them is the result. -/
theorem runFaults_fst (faults : Nat → Option E) (p : Prog A B E α) (i : Nat) (d : A → B) :
    (p.runFaults faults i d).1 = (p.run d).1 ∨ ∃ j e, faults j = some e ∧ (p.runFaults faults i d).1 = .error e := by
  induction p generalizing i d with
  | ret a => exact .inl rfl
  | fail e => exact .inl rfl
  | read addr k ih =>
      rw [runFaults]
      cases hf : faults i with
      | some e => exact .inr ⟨i, e, hf, rfl⟩
      | none => exact ih (d addr) (i + 1) d
  | write addr b k ih =>
      rw [runFaults]
      cases hf : faults i with
      | some e => exact .inr ⟨i, e, hf, rfl⟩
      | none => exact ih (i + 1) (Function.update d addr b)

/-! ## Runs with and without failures -/

/-- The number of operations in the run where every one succeeds. -/
def ops : Prog A B E α → (A → B) → Nat
  | ret _, _ => 0
  | fail _, _ => 0
  | read addr k, d => ops (k (d addr)) d + 1
  | write addr b k, d => ops k (Function.update d addr b) + 1

variable {faults : Nat → Option E} {Q : α → Prop}

/-- If no operation of the run fails, it is the run where every one succeeds. -/
theorem runFaults_eq_run {p : Prog A B E α} {i : Nat} {d : A → B} (h : ∀ j < p.ops d, faults (i + j) = none) :
    p.runFaults faults i d = ((p.run d).1, i + p.ops d, (p.run d).2) := by
  induction p generalizing i d with
  | ret a => rfl
  | fail e => rfl
  | read addr k ih =>
      have h0 : faults i = none := h 0 (Nat.succ_pos _)
      have hk : ∀ j < (k (d addr)).ops d, faults (i + 1 + j) = none := by
        intro j hj
        rw [Nat.add_right_comm]
        exact h (j + 1) (Nat.succ_lt_succ hj)
      rw [runFaults, h0]
      refine (ih (d addr) hk).trans ?_
      rw [run, ops, Nat.add_right_comm, Nat.add_assoc]
  | write addr b k ih =>
      have h0 : faults i = none := h 0 (Nat.succ_pos _)
      have hk : ∀ j < k.ops (Function.update d addr b), faults (i + 1 + j) = none := by
        intro j hj
        rw [Nat.add_right_comm]
        exact h (j + 1) (Nat.succ_lt_succ hj)
      rw [runFaults, h0]
      refine (ih hk).trans ?_
      rw [run, ops, Nat.add_right_comm, Nat.add_assoc]

/-- A run that returns met no failure. -/
theorem ops_of_runFaults_ok {p : Prog A B E α} {i : Nat} {d : A → B} {a : α}
    (h : (p.runFaults faults i d).1 = .ok a) : ∀ j < p.ops d, faults (i + j) = none := by
  induction p generalizing i d with
  | ret a => intro j hj; cases hj
  | fail e => intro j hj; cases hj
  | read addr k ih =>
      rw [runFaults] at h
      cases hf : faults i with
      | some e => rw [hf] at h; cases h
      | none =>
          rw [hf] at h
          intro j hj
          cases j with
          | zero => exact hf
          | succ j =>
              have hj' := ih (d addr) h j (Nat.lt_of_succ_lt_succ hj)
              rwa [Nat.add_right_comm] at hj'
  | write addr b k ih =>
      rw [runFaults] at h
      cases hf : faults i with
      | some e => rw [hf] at h; cases h
      | none =>
          rw [hf] at h
          intro j hj
          cases j with
          | zero => exact hf
          | succ j =>
              have hj' := ih h j (Nat.lt_of_succ_lt_succ hj)
              rwa [Nat.add_right_comm] at hj'

/-- The program writes nothing. -/
def ReadOnly : Prog A B E α → Prop
  | ret _ => True
  | fail _ => True
  | read _ k => ∀ b, ReadOnly (k b)
  | write _ _ _ => False

/-- Every value that the program can return meets `Q`. -/
def Returns (Q : α → Prop) : Prog A B E α → Prop
  | ret a => Q a
  | fail _ => True
  | read _ k => ∀ b, Returns Q (k b)
  | write _ _ k => Returns Q k

omit [DecidableEq A] in
theorem ReadOnly.bind {p : Prog A B E α} {f : α → Prog A B E β} (hp : p.ReadOnly) (hf : ∀ a, (f a).ReadOnly) :
    (p >>= f).ReadOnly := by
  change (p.bind f).ReadOnly
  induction p with
  | ret a => exact hf a
  | fail e => trivial
  | read addr k ih => exact fun b => ih b (hp b)
  | write addr b k ih => exact hp.elim

theorem ReadOnly.runFaults {p : Prog A B E α} (hp : p.ReadOnly) (i : Nat) (d : A → B) :
    (p.runFaults faults i d).2.2 = d := by
  induction p generalizing i with
  | ret a => rfl
  | fail e => rfl
  | read addr k ih =>
      rw [Prog.runFaults]
      cases faults i with
      | some e => rfl
      | none => exact ih (d addr) (hp (d addr)) (i + 1)
  | write addr b k ih => exact hp.elim

theorem ReadOnly.run {p : Prog A B E α} (hp : p.ReadOnly) (d : A → B) : (p.run d).2 = d := by
  rw [← runFaults_of_none p (fun _ => none) (fun _ => rfl) 0 d]
  exact hp.runFaults 0 d

omit [DecidableEq A] in
theorem Returns.mono {P : α → Prop} {p : Prog A B E α} (hp : p.Returns P) (h : ∀ a, P a → Q a) : p.Returns Q := by
  induction p with
  | ret a => exact h a hp
  | fail e => trivial
  | read addr k ih => exact fun b => ih b (hp b)
  | write addr b k ih => exact ih hp

omit [DecidableEq A] in
theorem returns_true (p : Prog A B E α) : p.Returns fun _ => True := by
  induction p with
  | ret a => trivial
  | fail e => trivial
  | read addr k ih => exact ih
  | write addr b k ih => exact ih

omit [DecidableEq A] in
theorem Returns.bind {P : α → Prop} {Q : β → Prop} {p : Prog A B E α} {f : α → Prog A B E β} (hp : p.Returns P)
    (hf : ∀ a, P a → (f a).Returns Q) : (p >>= f).Returns Q := by
  change (p.bind f).Returns Q
  induction p with
  | ret a => exact hf a hp
  | fail e => trivial
  | read addr k ih => exact fun b => ih b (hp b)
  | write addr b k ih => exact ih hp

theorem Returns.runFaults {p : Prog A B E α} (hp : p.Returns Q) {i : Nat} {d : A → B} {a : α}
    (h : (p.runFaults faults i d).1 = .ok a) : Q a := by
  induction p generalizing i d with
  | ret a => cases h; exact hp
  | fail e => cases h
  | read addr k ih =>
      rw [Prog.runFaults] at h
      cases hf : faults i with
      | some e => rw [hf] at h; cases h
      | none => rw [hf] at h; exact ih (d addr) (hp (d addr)) h
  | write addr b k ih =>
      rw [Prog.runFaults] at h
      cases hf : faults i with
      | some e => rw [hf] at h; cases h
      | none => rw [hf] at h; exact ih hp h

/-! ## Running on an abstraction of the device

`abs` abstracts the device, `R` is a preorder that every completed step of the program keeps, and `C` is what
must hold of the abstraction at every cut. -/

section Runs

variable {V : Type} (abs : (A → B) → V) (R : (A → B) → (A → B) → Prop) (C : V → Prop)

/-- From every device that abstracts to `v`, the program ends with `r` on a device that abstracts to `v'`,
related to the first by `R`, and `C` holds wherever power is lost. -/
def Runs (p : Prog A B E α) (v : V) (r : Except E α) (v' : V) : Prop :=
  ∀ d, abs d = v →
    (∀ n, C (abs (p.crash n d))) ∧ R d (p.run d).2 ∧ (p.run d).1 = r ∧ abs (p.run d).2 = v'

variable {abs R C} {v v₁ v₂ : V} {p : Prog A B E α} {f : α → Prog A B E β}

theorem Runs.run_eq {r : Except E α} {d : A → B} (h : Runs abs R C p v r v₁) (hd : abs d = v) :
    p.run d = (r, (p.run d).2) := Prod.ext (h d hd).2.2.1 rfl

theorem Runs.mono {R' : (A → B) → (A → B) → Prop} {r : Except E α} (h : Runs abs R C p v r v₁)
    (hR : ∀ d d', R d d' → R' d d') : Runs abs R' C p v r v₁ := by
  intro d hd
  obtain ⟨hc, hd', hr⟩ := h d hd
  exact ⟨hc, hR _ _ hd', hr⟩

variable [IsPreorder (A → B) R]

theorem Runs.pure {a : α} (h : C v) : Runs abs R C (Pure.pure a : Prog A B E α) v (.ok a) v := by
  intro d hd
  exact ⟨fun n => by rw [crash_pure, hd]; exact h, refl_of R d, rfl, hd⟩

theorem Runs.fail {e : E} (h : C v) : Runs abs R C (Prog.fail e : Prog A B E α) v (.error e) v := by
  intro d hd
  exact ⟨fun n => by rw [crash_fail, hd]; exact h, refl_of R d, rfl, hd⟩

theorem Runs.bind {a : α} {r : Except E β} (hp : Runs abs R C p v (.ok a) v₁)
    (hf : Runs abs R C (f a) v₁ r v₂) : Runs abs R C (p >>= f) v r v₂ := by
  intro d hd
  obtain ⟨hc, hR, hr, hv⟩ := hp d hd
  obtain ⟨hc', hR', hr', hv'⟩ := hf _ hv
  have hrun : p.run d = (.ok a, (p.run d).2) := Prod.ext hr rfl
  rw [run_bind_ok hrun]
  refine ⟨(crash_bind_iff (C := fun x => C (abs x)) p f d).mpr ⟨hc, ?_⟩, trans_of R hR hR', hr', hv'⟩
  intro a' d' he n
  rw [hrun] at he
  cases he
  exact hc' n

omit [IsPreorder (A → B) R] in
theorem Runs.bind_error {e : E} (hp : Runs abs R C p v (.error e) v₁) :
    Runs abs R C (p >>= f) v (.error e) v₁ := by
  intro d hd
  obtain ⟨hc, hR, hr, hv⟩ := hp d hd
  have hrun : p.run d = (.error e, (p.run d).2) := Prod.ext hr rfl
  rw [run_bind_error hrun]
  refine ⟨(crash_bind_iff (C := fun x => C (abs x)) p f d).mpr ⟨hc, ?_⟩, hR, rfl, hv⟩
  intro a' d' he n
  rw [hrun] at he
  cases he

/-- A counted loop whose body takes the `j`-th abstract state to the next. -/
theorem Runs.forRange {f : Nat → Prog A B E Unit} {s : Nat → V} {i n : Nat} (hC : ∀ j ≤ n, C (s j))
    (hf : ∀ j < n, Runs abs R C (f (i + j)) (s j) (.ok ()) (s (j + 1))) :
    Runs abs R C (forRange f i n) (s 0) (.ok ()) (s n) := by
  induction n generalizing i s with
  | zero => exact Runs.pure (hC 0 (Nat.le_refl 0))
  | succ n ih =>
      refine Runs.bind (hf 0 (by omega)) (ih (s := fun j => s (j + 1)) (fun j hj => hC _ (by omega)) ?_)
      intro j hj
      have h := hf (j + 1) (by omega)
      rwa [show i + (j + 1) = i + 1 + j by omega] at h

end Runs

/-! ## Passing through a state -/

section Passes

variable {V : Type} (abs : (A → B) → V)

/-- From every device that abstracts to `v`, some power loss leaves a device that abstracts to `x`. -/
def Passes (p : Prog A B E α) (v x : V) : Prop := ∀ d, abs d = v → ∃ n, abs (p.crash n d) = x

variable {abs} {R : (A → B) → (A → B) → Prop} {C : V → Prop} {v v₁ x : V} {p : Prog A B E α}
  {f : α → Prog A B E β}

theorem Runs.passes {r : Except E α} (h : Runs abs R C p v r v₁) : Passes abs p v v₁ := by
  intro d hd
  obtain ⟨n, hn⟩ := exists_crash_eq_run p d
  exact ⟨n, by rw [hn]; exact (h d hd).2.2.2⟩

theorem Passes.start (p : Prog A B E α) (v : V) : Passes abs p v v :=
  fun d hd => ⟨0, by rw [crash_zero]; exact hd⟩

theorem Passes.left (h : Passes abs p v x) : Passes abs (p >>= f) v x := by
  intro d hd
  by_contra hne
  obtain ⟨n, hn⟩ := h d hd
  exact ((crash_bind_iff (C := fun d => abs d ≠ x) p f d).mp (not_exists.mp hne)).1 n hn

theorem Passes.right {a : α} (hp : Runs abs R C p v (.ok a) v₁) (h : Passes abs (f a) v₁ x) :
    Passes abs (p >>= f) v x := by
  intro d hd
  by_contra hne
  obtain ⟨n, hn⟩ := h _ (hp d hd).2.2.2
  exact ((crash_bind_iff (C := fun d => abs d ≠ x) p f d).mp (not_exists.mp hne)).2 a _ (hp.run_eq hd) n hn

end Passes

end Prog

end Ferro
