import Ferro.Fat32.Lemmas.Layout
import Mathlib.Data.List.Range

/-!
# Allocating, freeing and resizing chains

Each FAT routine of the driver as an operation on the volume, with what holds of the volume at every cut.
-/

namespace Ferro

namespace Volume

variable {v : Volume}

@[simp] theorem setFat_data (c x : Nat) : (v.setFat c x).data = v.data := rfl

@[simp] theorem setFat_fat_self (c x : Nat) : (v.setFat c x).fat c = x := by simp [setFat]

theorem setFat_fat_of_ne {c c' : Nat} (x : Nat) (h : c' ≠ c) : (v.setFat c x).fat c' = v.fat c' := by
  simp [setFat, h]

@[simp] theorem setData_fat (p : Nat × Nat) (sector : Sector) : (v.setData p sector).fat = v.fat := rfl

@[simp] theorem setData_data_self (p : Nat × Nat) (sector : Sector) : (v.setData p sector).data p = sector := by
  simp [setData]

theorem setData_data_of_ne {p q : Nat × Nat} (sector : Sector) (h : q ≠ p) :
    (v.setData p sector).data q = v.data q := by
  simp [setData, h]

end Volume

/-- `w` differs from `v` only in the FAT entries and data of the clusters in `S`. -/
def Volume.AgreeOff (S : Nat → Prop) (v w : Volume) : Prop :=
  ∀ c, ¬ S c → w.fat c = v.fat c ∧ ∀ s, w.data (c, s) = v.data (c, s)

namespace Volume.AgreeOff

variable {S : Nat → Prop} {v w u : Volume}

theorem refl (S : Nat → Prop) (v : Volume) : AgreeOff S v v := fun _ _ => ⟨rfl, fun _ => rfl⟩

theorem trans (h : AgreeOff S v w) (h' : AgreeOff S w u) : AgreeOff S v u := fun c hc =>
  ⟨(h' c hc).1.trans (h c hc).1, fun s => ((h' c hc).2 s).trans ((h c hc).2 s)⟩

theorem mono {T : Nat → Prop} (h : AgreeOff S v w) (hST : ∀ c, S c → T c) : AgreeOff T v w := fun c hc =>
  h c fun hs => hc (hST c hs)

theorem setFat {c x : Nat} (hc : S c) (h : AgreeOff S v w) : AgreeOff S v (w.setFat c x) := by
  intro c' hc'
  have hne : c' ≠ c := by rintro rfl; exact hc' hc
  obtain ⟨hf, hd⟩ := h c' hc'
  exact ⟨by rw [setFat_fat_of_ne x hne]; exact hf, hd⟩

end Volume.AgreeOff

namespace Volume

variable {v w : Volume}

theorem next_congr {c : Nat} (h : w.fat c = v.fat c) : w.next c = v.next c := by
  simp only [next, h]

theorem next_eq_none {c : Nat} (h : endOfChain ≤ v.fat c) : v.next c = none := by
  simp [next, h]

theorem next_eq_some {c n : Nat} : v.next c = some n ↔ v.fat c = n ∧ n < endOfChain := by
  simp only [next]
  split
  · simp only [reduceCtorEq, false_iff]
    rintro ⟨rfl, h⟩
    omega
  · simp only [Option.some.injEq]
    constructor
    · rintro rfl; exact ⟨rfl, by omega⟩
    · exact fun h => h.1

theorem end_of_next_none {c : Nat} (h : v.next c = none) : endOfChain ≤ v.fat c := by
  simp only [next] at h
  split at h
  · assumption
  · cases h

end Volume

namespace Fat32

variable {fs : Fat32} {S : Nat → Prop} {C : Volume → Prop} {v w : Volume}

/-! ## Free clusters -/

theorem mem_freeFrom {start c : Nat} : c ∈ fs.freeFrom v start ↔ start ≤ c ∧ c < fs.clusters ∧ v.fat c = 0 := by
  simp only [freeFrom, List.mem_filter, List.mem_range'_1, decide_eq_true_eq]
  omega

theorem mem_freeList {c : Nat} : c ∈ fs.freeList v ↔ fs.InRange c ∧ v.fat c = 0 := by
  rw [freeList, mem_freeFrom, InRange, and_assoc]

theorem freeFrom_of_lt {start : Nat} (h : start < fs.clusters) :
    fs.freeFrom v start =
      if v.fat start = 0 then start :: fs.freeFrom v (start + 1) else fs.freeFrom v (start + 1) := by
  rw [freeFrom, show fs.clusters - start = fs.clusters - (start + 1) + 1 by omega, List.range'_succ,
    List.filter_cons]
  simp [freeFrom]

theorem freeFrom_of_le {start : Nat} (h : fs.clusters ≤ start) : fs.freeFrom v start = [] := by
  simp [freeFrom, Nat.sub_eq_zero_of_le h]

theorem freeFrom_congr {start : Nat} (h : ∀ c, start ≤ c → w.fat c = v.fat c) :
    fs.freeFrom w start = fs.freeFrom v start := by
  refine List.filter_congr fun c hc => ?_
  rw [h c (List.mem_range'_1.mp hc).1]

theorem sorted_freeFrom (start : Nat) : (fs.freeFrom v start).Pairwise (· < ·) :=
  List.Pairwise.filter _ List.pairwise_lt_range'

theorem nodup_freeFrom (start : Nat) : (fs.freeFrom v start).Nodup :=
  (sorted_freeFrom start).imp Nat.ne_of_lt

/-- Behind its first element the list of free clusters starts again. -/
theorem freeFrom_tail {c : Nat} {cs : List Nat} : (n start : Nat) → n = fs.clusters - start →
    fs.freeFrom v start = c :: cs → fs.freeFrom v (c + 1) = cs
  | 0, start, hn, h => by rw [freeFrom_of_le (by omega)] at h; cases h
  | n + 1, start, hn, h => by
      rw [freeFrom_of_lt (by omega)] at h
      split at h
      · obtain ⟨rfl, rfl⟩ := List.cons.inj h
        rfl
      · exact freeFrom_tail n (start + 1) (by omega) h

theorem within_findFreeFrom (hg : fs.NoOverflow) (hC : C v) : (n c : Nat) → n = fs.clusters - c →
    fs.Within S C (fs.findFreeFrom n c) v
      (match fs.freeFrom v c with | [] => .error (.err .noSpace) | x :: _ => .ok x) v
  | 0, c, hn => by
      rw [freeFrom_of_le (by omega)]
      exact .fail hC
  | n + 1, c, hn => by
      refine .bind (within_fatEntry hg (by omega) hC) ?_
      rw [freeFrom_of_lt (by omega)]
      by_cases h : v.fat c = 0
      · simp only [h, if_true]
        exact .pure hC
      · simp only [h, if_false]
        exact within_findFreeFrom hg hC n (c + 1) (by omega)

theorem within_findFreeCluster (hg : fs.NoOverflow) (hC : C v) (start : Nat) (h2 : 2 ≤ start) :
    fs.Within S C (fs.findFreeCluster start) v
      (match fs.freeFrom v start with | [] => .error (.err .noSpace) | x :: _ => .ok x) v := by
  rw [findFreeCluster, hg.maxCluster_eq, Nat.max_eq_left h2]
  exact within_findFreeFrom hg hC _ _ rfl

theorem runs_findFreeCluster (hg : fs.Geometry) (hC : C v) (start : Nat) (h2 : 2 ≤ start) :
    fs.Runs C (fs.findFreeCluster start) v
      (match fs.freeFrom v start with | [] => .error (.err .noSpace) | x :: _ => .ok x) v :=
  (within_findFreeCluster (S := fun _ => False) hg.noOverflow hC start h2).runs

/-! ## Allocating a chain -/

/-- The volume after the first `n` sectors of a cluster have been zeroed. -/
def zeroed (v : Volume) (c n : Nat) : Volume :=
  { v with data := fun p => if p.1 = c ∧ p.2 < n then Arr.fill 0 else v.data p }

/-- Takes a cluster: an end-of-chain mark and zero data. -/
def mark (fs : Fat32) (v : Volume) (c : Nat) : Volume :=
  zeroed (v.setFat c endOfChain) c fs.sectorsPerCluster.toNat

/-- Takes the clusters of the list in turn, linking each one behind the one before it. -/
def linkAll (fs : Fat32) : Nat → List Nat → Volume → Volume
  | _, [], v => v
  | prev, c :: cs, v => linkAll fs c cs ((fs.mark v c).setFat prev (c % 2 ^ 28))

/-- The volume after the clusters of the list have been made into a chain. -/
def allocated (fs : Fat32) (v : Volume) : List Nat → Volume
  | [] => v
  | c :: cs => fs.linkAll c cs (fs.mark v c)

theorem zeroed_zero (c : Nat) : zeroed v c 0 = v := by
  cases v; simp [zeroed]

theorem zeroed_succ (c n : Nat) : (zeroed v c n).setData (c, n) (Arr.fill 0) = zeroed v c (n + 1) := by
  simp only [zeroed, Volume.setData, Volume.mk.injEq, true_and]
  funext p
  obtain ⟨a, s⟩ := p
  by_cases h : (a, s) = (c, n)
  · obtain ⟨rfl, rfl⟩ := Prod.mk.inj h
    simp
  · rw [Function.update_of_ne h]
    have hne : ¬ (a = c ∧ s = n) := fun he => h (by rw [he.1, he.2])
    have hiff : (a = c ∧ s < n) ↔ (a = c ∧ s < n + 1) := by omega
    simp only [hiff]

theorem agreeOff_zeroed {S : Nat → Prop} {c : Nat} (hc : S c) (n : Nat) (h : v.AgreeOff S w) :
    v.AgreeOff S (zeroed w c n) := by
  intro c' hc'
  refine ⟨(h c' hc').1, fun s => ?_⟩
  have hne : ¬ (c' = c ∧ s < n) := by rintro ⟨rfl, _⟩; exact hc' hc
  simp only [zeroed, hne, if_false]
  exact (h c' hc').2 s

theorem agreeOff_mark {S : Nat → Prop} {c : Nat} (hc : S c) (h : v.AgreeOff S w) : v.AgreeOff S (fs.mark w c) :=
  agreeOff_zeroed hc _ (h.setFat hc)

@[simp] theorem mark_fat_self (c : Nat) : (fs.mark v c).fat c = endOfChain := by simp [mark, zeroed]

theorem mark_fat_of_ne {c c' : Nat} (h : c' ≠ c) : (fs.mark v c).fat c' = v.fat c' := by
  simp only [mark, zeroed, v.setFat_fat_of_ne _ h]

theorem within_zeroCluster (hg : fs.NoOverflow) {c : Nat} (hS : S c) (hc : fs.InRange c) (hC : ∀ n, C (zeroed v c n)) :
    fs.Within S C (fs.zeroCluster c) v (.ok ()) (zeroed v c fs.sectorsPerCluster.toNat) := by
  have h : fs.Within S C (fs.zeroCluster c) (zeroed v c 0) (.ok ()) (zeroed v c fs.sectorsPerCluster.toNat) := by
    refine .forRange (s := zeroed v c) (fun j _ => hC j) fun j hj => ?_
    rw [Nat.zero_add, ← zeroed_succ]
    exact within_writeData hg hS ⟨hc, hj⟩ (hC j) (by rw [zeroed_succ]; exact hC (j + 1))
  rwa [zeroed_zero] at h

theorem within_mark (hg : fs.NoOverflow) {T : Nat → Prop} {c : Nat} (hc : fs.InRange c) (hS : S c) (hT : T c)
    (hC : ∀ w, v.AgreeOff T w → C w) {α : Type} {p : CardM α} {r : Except Stop α}
    (hp : fs.Within S C p (fs.mark v c) r w) :
    fs.Within S C (do fs.setFatEntry c endOfChain; fs.zeroCluster c; p) v r w := by
  have hset := within_setFatEntry hg (x := endOfChain) hS hc.2 (hC v (.refl T v))
    (hC _ ((Volume.AgreeOff.refl T v).setFat hT))
  refine .bind hset (.bind (within_zeroCluster hg hS hc fun n => ?_) hp)
  exact hC _ (agreeOff_zeroed hT n ((Volume.AgreeOff.refl T v).setFat hT))

/-- The loop behind its first round. It stores to `S`; `T` holds the clusters that `C` lets the allocation touch. -/
theorem within_allocateLoop (hg : fs.NoOverflow) {T : Nat → Prop} (first : Nat) (hf : first ≠ 0) :
    (n prev start : Nat) → (v : Volume) → (∀ w, v.AgreeOff T w → C w) →
    (∀ c ∈ (fs.freeFrom v start).take n, S c ∧ T c) → S prev ∧ T prev → prev < start → 2 ≤ start → prev < fs.clusters →
    fs.Within S C (fs.allocateLoop n first prev start) v
      (if n ≤ (fs.freeFrom v start).length then .ok first else .error (.err .noSpace))
      (fs.linkAll prev ((fs.freeFrom v start).take n) v)
  | 0, prev, start, v, hC, _, _, _, _, _ => by
      simp only [Nat.zero_le, if_true, List.take_zero]
      exact .pure (hC v (.refl T v))
  | n + 1, prev, start, v, hC, hS, hp, hps, h2, hpc => by
      have hfind := within_findFreeCluster (S := S) (C := C) hg (hC v (.refl T v)) start h2
      cases hfree : fs.freeFrom v start with
      | nil =>
          rw [hfree] at hfind
          simp only [List.length_nil, List.take_nil]
          exact .bind_error hfind
      | cons c cs =>
          rw [hfree] at hfind hS
          rw [List.take_succ_cons] at hS
          have hcm : c ∈ fs.freeFrom v start := by rw [hfree]; exact List.mem_cons_self
          have hcr := mem_freeFrom.mp hcm
          have hwrap : wrap32 (c + 1) = c + 1 := wrap32_of_lt (by have := hg.clusters_lt; omega)
          have hSc := hS c List.mem_cons_self
          have hagree : v.AgreeOff T ((fs.mark v c).setFat prev (c % 2 ^ 28)) :=
            (agreeOff_mark hSc.2 (.refl T v)).setFat hp.2
          have htail : fs.freeFrom ((fs.mark v c).setFat prev (c % 2 ^ 28)) (c + 1) = cs := by
            rw [← freeFrom_tail _ start rfl hfree]
            refine freeFrom_congr fun x hx => ?_
            rw [Volume.setFat_fat_of_ne _ (by omega), mark_fat_of_ne (by omega)]
          have ih := within_allocateLoop hg first hf n c (c + 1) ((fs.mark v c).setFat prev (c % 2 ^ 28))
            (fun w hw => hC w (hagree.trans hw))
            (fun x hx => hS x (by rw [htail] at hx; exact List.mem_cons_of_mem _ hx))
            hSc (by omega) (by omega) hcr.2.1
          rw [htail] at ih
          refine .bind hfind (within_mark hg ⟨by omega, hcr.2.1⟩ hSc.1 hSc.2 hC ?_)
          rw [if_neg hf, hwrap]
          refine .bind (within_setFatEntry hg (x := c) hp.1 hpc (hC _ (agreeOff_mark hSc.2 (.refl T v))) (hC _ hagree)) ?_
          simpa only [List.length_cons, Nat.succ_le_succ_iff, List.take_succ_cons, linkAll] using ih

theorem within_allocateChain (hg : fs.NoOverflow) {n : Nat} (hn : 1 ≤ n) (hS : ∀ c ∈ (fs.freeList v).take n, S c)
    (hC : ∀ w, v.AgreeOff (· ∈ fs.freeList v) w → C w) :
    fs.Within S C (fs.allocateChain n) v
      (if n ≤ (fs.freeList v).length then .ok ((fs.freeList v).headD 0) else .error (.err .noSpace))
      (fs.allocated v ((fs.freeList v).take n)) := by
  obtain ⟨n, rfl⟩ : ∃ m, n = m + 1 := ⟨n - 1, by omega⟩
  have hfind := within_findFreeCluster (S := S) (C := C) hg (hC v (.refl _ v)) 2 (Nat.le_refl 2)
  rw [allocateChain, allocateLoop]
  cases hfree : fs.freeFrom v 2 with
  | nil =>
      rw [hfree] at hfind
      simp only [freeList, hfree, List.length_nil, List.take_nil]
      exact .bind_error hfind
  | cons c cs =>
      rw [hfree] at hfind
      rw [freeList, hfree, List.take_succ_cons] at hS
      have hcm : c ∈ fs.freeList v := by rw [freeList, hfree]; exact List.mem_cons_self
      obtain ⟨hcr, hc0⟩ := mem_freeList.mp hcm
      have hSc := hS c List.mem_cons_self
      have hwrap : wrap32 (c + 1) = c + 1 := wrap32_of_lt (by have := hg.clusters_lt; have := hcr.2; omega)
      have hagree : v.AgreeOff (· ∈ fs.freeList v) (fs.mark v c) := agreeOff_mark hcm (.refl _ v)
      have htail : fs.freeFrom (fs.mark v c) (c + 1) = cs := by
        rw [← freeFrom_tail _ 2 rfl hfree]
        exact freeFrom_congr fun x hx => mark_fat_of_ne (by omega)
      have hmem : ∀ x ∈ cs, x ∈ fs.freeList v := by
        intro x hx
        rw [freeList, hfree]
        exact List.mem_cons_of_mem _ hx
      have h2 := hcr.1
      have ih := within_allocateLoop hg (S := S) (C := C) (T := (· ∈ fs.freeList v)) c (by omega) n c (c + 1)
        (fs.mark v c) (fun w hw => hC w (hagree.trans hw))
        (fun x hx => by
          rw [htail] at hx
          exact ⟨hS x (List.mem_cons_of_mem _ hx), hmem x (List.mem_of_mem_take hx)⟩)
        ⟨hSc, hcm⟩ (by omega) (by omega) hcr.2
      rw [htail] at ih
      refine .bind hfind (within_mark hg hcr hSc hcm hC ?_)
      rw [if_pos rfl, hwrap]
      simpa only [freeList, hfree, List.length_cons, Nat.succ_le_succ_iff, List.take_succ_cons, allocated,
        List.headD_cons] using ih

theorem runs_allocateChain (hg : fs.Geometry) {n : Nat} (hn : 1 ≤ n)
    (hC : ∀ w, v.AgreeOff (· ∈ fs.freeList v) w → C w) :
    fs.Runs C (fs.allocateChain n) v
      (if n ≤ (fs.freeList v).length then .ok ((fs.freeList v).headD 0) else .error (.err .noSpace))
      (fs.allocated v ((fs.freeList v).take n)) :=
  (within_allocateChain (S := fun _ => True) hg.noOverflow hn (fun _ _ => trivial) hC).runs

/-! ## What an allocated chain looks like -/

theorem agreeOff_linkAll {S : Nat → Prop} : (cs : List Nat) → (prev : Nat) → (v : Volume) → S prev →
    (∀ c ∈ cs, S c) → v.AgreeOff S (fs.linkAll prev cs v)
  | [], _, v, _, _ => .refl S v
  | c :: cs, prev, v, hp, hcs => by
      have hc := hcs c List.mem_cons_self
      exact ((agreeOff_mark hc (.refl S v)).setFat hp).trans
        (agreeOff_linkAll cs c _ hc fun x hx => hcs x (List.mem_cons_of_mem _ hx))

theorem agreeOff_allocated (fs : Fat32) (l : List Nat) : v.AgreeOff (· ∈ l) (fs.allocated v l) := by
  cases l with
  | nil => exact .refl _ v
  | cons c cs =>
      exact (agreeOff_mark List.mem_cons_self (.refl _ v)).trans
        (agreeOff_linkAll cs c _ List.mem_cons_self fun x hx => List.mem_cons_of_mem _ hx)

theorem linkAll_data_of_not_mem {cs : List Nat} {prev : Nat} {c : Nat} (hc : c ∉ cs) (s : Nat) :
    (fs.linkAll prev cs v).data (c, s) = v.data (c, s) := by
  induction cs generalizing prev v with
  | nil => rfl
  | cons x xs ih =>
      rw [linkAll, ih fun h => hc (List.mem_cons_of_mem _ h)]
      have hne : c ≠ x := by rintro rfl; exact hc List.mem_cons_self
      simp [mark, zeroed, hne]

theorem allocated_data {l : List Nat} (hn : l.Nodup) {c s : Nat} (hc : c ∈ l)
    (hs : s < fs.sectorsPerCluster.toNat) : (fs.allocated v l).data (c, s) = Arr.fill 0 := by
  have hlink : ∀ (cs : List Nat) (prev : Nat) (v : Volume), (prev :: cs).Nodup →
      v.data (prev, s) = Arr.fill 0 → ∀ c ∈ prev :: cs, (fs.linkAll prev cs v).data (c, s) = Arr.fill 0 := by
    intro cs
    induction cs with
    | nil => intro prev v _ h c hc; rw [List.mem_singleton] at hc; subst hc; exact h
    | cons x xs ih =>
        intro prev v hn h c hc
        rcases List.mem_cons.mp hc with rfl | hc
        · rw [linkAll_data_of_not_mem (List.nodup_cons.mp hn).1, h]
        · rw [linkAll]
          exact ih x _ (List.nodup_cons.mp hn).2 (by simp [mark, zeroed, hs]) c hc
  cases l with
  | nil => cases hc
  | cons x xs => exact hlink xs x _ hn (by simp [mark, zeroed, hs]) c hc

theorem chain_linkAll : (cs : List Nat) → (prev : Nat) → (v : Volume) →
    (prev :: cs).Nodup → (∀ c ∈ cs, c < endOfChain) → endOfChain ≤ v.fat prev →
    Chain (fs.linkAll prev cs v).next prev (prev :: cs)
  | [], prev, v, _, _, hp => .last (Volume.next_eq_none hp)
  | c :: cs, prev, v, hn, hr, _ => by
      have hpc : prev ∉ c :: cs := (List.nodup_cons.mp hn).1
      have hcp : c ≠ prev := by rintro rfl; exact hpc List.mem_cons_self
      have hlt := hr c List.mem_cons_self
      have hc28 : c % 2 ^ 28 = c := Nat.mod_eq_of_lt (by simp only [endOfChain] at hlt; omega)
      have hprev : (fs.linkAll c cs ((fs.mark v c).setFat prev (c % 2 ^ 28))).fat prev = c := by
        rw [(agreeOff_linkAll (S := (· ∈ c :: cs)) cs c _ List.mem_cons_self
          (fun x hx => List.mem_cons_of_mem _ hx) prev hpc).1, Volume.setFat_fat_self, hc28]
      refine .cons (Volume.next_eq_some.mpr ⟨hprev, hlt⟩)
        (chain_linkAll cs c _ (List.nodup_cons.mp hn).2 (fun x hx => hr x (List.mem_cons_of_mem _ hx)) ?_)
      rw [Volume.setFat_fat_of_ne _ hcp, mark_fat_self]

/-- Every cluster but the first must be one that a link can lead to. -/
theorem chainAt_allocated_of {c : Nat} {cs : List Nat} (hlink : ∀ x ∈ cs, x < endOfChain) (hn : (c :: cs).Nodup)
    (hr : ∀ x ∈ c :: cs, fs.InRange x) : fs.ChainAt (fs.allocated v (c :: cs)) c (c :: cs) := by
  refine ⟨chain_linkAll cs c _ hn hlink ?_, hr⟩
  rw [mark_fat_self]

theorem chainAt_allocated (ha : fs.Addressable) {c : Nat} {cs : List Nat} (hn : (c :: cs).Nodup)
    (hr : ∀ x ∈ c :: cs, fs.InRange x) : fs.ChainAt (fs.allocated v (c :: cs)) c (c :: cs) :=
  chainAt_allocated_of (fun x hx => Nat.lt_of_lt_of_le (hr x (List.mem_cons_of_mem _ hx)).2 ha) hn hr

/-! ## Freeing and resizing a chain -/

def freeAll (v : Volume) : List Nat → Volume
  | [] => v
  | c :: cs => freeAll (v.setFat c 0) cs

theorem agreeOff_freeAll {S : Nat → Prop} (l : List Nat) (v : Volume) (h : ∀ c ∈ l, S c) :
    v.AgreeOff S (freeAll v l) := by
  induction l generalizing v with
  | nil => exact .refl S v
  | cons c cs ih =>
      exact ((Volume.AgreeOff.refl S v).setFat (h c List.mem_cons_self)).trans
        (ih _ fun x hx => h x (List.mem_cons_of_mem _ hx))

@[simp] theorem freeAll_data (l : List Nat) (v : Volume) : (freeAll v l).data = v.data := by
  induction l generalizing v with
  | nil => rfl
  | cons c cs ih => rw [freeAll, ih, Volume.setFat_data]

theorem freeAll_fat {l : List Nat} {c : Nat} (hc : c ∈ l) : (freeAll v l).fat c = 0 := by
  induction l generalizing v with
  | nil => cases hc
  | cons x xs ih =>
      by_cases hx : c ∈ xs
      · exact ih hx
      · obtain rfl : c = x := (List.mem_cons.mp hc).resolve_right hx
        rw [freeAll, (agreeOff_freeAll (S := (· ∈ xs)) xs _ (fun _ h => h) c hx).1, Volume.setFat_fat_self]

theorem ChainAt.congr {a : Nat} {l : List Nat} (h : fs.ChainAt v a l) (he : ∀ c ∈ l, w.fat c = v.fat c) :
    fs.ChainAt w a l :=
  ⟨h.chain.congr fun c hc => Volume.next_congr (he c hc), h.inRange⟩

/-- The FAT entry of the first cluster ends the chain, or leads to the rest of it. -/
theorem ChainAt.uncons {a c : Nat} {cs : List Nat} (h : fs.ChainAt v a (c :: cs)) : c = a ∧ fs.InRange c ∧
    ((cs = [] ∧ endOfChain ≤ v.fat c) ∨ (v.fat c < endOfChain ∧ fs.ChainAt v (v.fat c) cs)) := by
  obtain ⟨t, ht⟩ := h.chain.eq_cons
  obtain ⟨rfl, rfl⟩ := List.cons.inj ht
  refine ⟨rfl, h.inRange c List.mem_cons_self, ?_⟩
  cases h.chain with
  | last hn => exact .inl ⟨rfl, Volume.end_of_next_none hn⟩
  | cons hs t =>
      obtain ⟨hb, hlt⟩ := Volume.next_eq_some.mp hs
      rw [hb]
      exact .inr ⟨hlt, t, fun x hx => h.inRange x (List.mem_cons_of_mem _ hx)⟩

theorem within_freeLoop (hg : fs.NoOverflow) : (l : List Nat) → (a fuel : Nat) → (v : Volume) → (∀ c ∈ l, S c) →
    fs.ChainAt v a l → a < endOfChain → l.length < fuel → (∀ j, C (freeAll v (l.take j))) →
    fs.Within S C (fs.freeLoop fuel a) v (.ok ()) (freeAll v l)
  | [], _, _, _, _, h, _, _, _ => absurd rfl h.chain.ne_nil
  | c :: cs, a, 0, _, _, _, _, hf, _ => by omega
  | c :: cs, a, fuel + 1, v, hS, h, ha, hf, hC => by
      obtain ⟨rfl, hcr, hlink⟩ := h.uncons
      have hcond : 2 ≤ c ∧ c < endOfChain := ⟨hcr.1, ha⟩
      have h0 : C v := by simpa [freeAll] using hC 0
      have h1 : C (v.setFat c 0) := by simpa [freeAll] using hC 1
      rw [freeLoop, if_pos hcond]
      have hset := within_setFatEntry hg (hS c List.mem_cons_self) hcr.2 h0 (x := 0) (by simpa using h1)
      refine .bind (within_fatEntry hg hcr.2 h0) (.bind hset ?_)
      rcases hlink with ⟨rfl, hend⟩ | ⟨hlt, hrest⟩
      · cases fuel with
        | zero => simp at hf
        | succ fuel =>
            rw [freeLoop, if_neg (by omega)]
            exact .pure (by simpa using h1)
      · have hnm := (List.nodup_cons.mp h.chain.nodup).1
        have hrest' : fs.ChainAt (v.setFat c 0) (v.fat c) cs :=
          hrest.congr fun x hx => Volume.setFat_fat_of_ne _ (by rintro rfl; exact hnm hx)
        refine within_freeLoop hg cs _ fuel _ (fun x hx => hS x (List.mem_cons_of_mem _ hx)) hrest' (by omega)
          (by simp at hf; omega) fun j => ?_
        simpa [freeAll] using hC (j + 1)

/-- The volume after the chain `l` has been cut to its first `n` clusters. -/
def truncated (v : Volume) (l : List Nat) (n : Nat) : Volume :=
  (freeAll v (l.drop n)).setFat (l.getD (n - 1) 0) endOfChain

/-- The volume after the clusters of `extra` have been made into a chain and linked behind `l`. -/
def extended (fs : Fat32) (v : Volume) (l extra : List Nat) : Volume :=
  (fs.allocated v extra).setFat (l.getLastD 0) (extra.headD 0 % 2 ^ 28)

theorem within_resizeLoop_shrink (hg : fs.NoOverflow) (first : Nat) {needed : Nat} (hn : needed < 2 ^ 32) :
    (m : List Nat) → (a fuel count : Nat) → (∀ c ∈ m, S c) → fs.ChainAt v a m → count ≤ needed →
    needed < count + m.length → m.length ≤ fuel → m.length ≤ loopLimit →
    (∀ j, C (freeAll v ((m.drop (needed - count + 1)).take j))) → C (truncated v m (needed - count + 1)) →
    fs.Within S C (fs.resizeLoop first needed fuel a count) v (.ok first) (truncated v m (needed - count + 1))
  | [], _, _, _, _, h, _, _, _, _, _, _ => absurd rfl h.chain.ne_nil
  | c :: cs, a, 0, _, _, _, _, _, hf, _, _, _ => by simp at hf
  | c :: cs, a, fuel + 1, count, hS, h, hle, hlt, hf, hl, hC, hC' => by
      have hSc := hS c List.mem_cons_self
      have hScs : ∀ x ∈ cs, S x := fun x hx => hS x (List.mem_cons_of_mem _ hx)
      obtain ⟨rfl, hcr, hlink⟩ := h.uncons
      have h0 : C v := by simpa [freeAll] using hC 0
      rw [resizeLoop]
      by_cases hc : count = needed
      · subst hc
        rw [if_pos rfl]
        simp only [Nat.sub_self, Nat.zero_add, truncated, List.drop_one, List.tail_cons, List.getD_cons_zero]
          at hC hC' ⊢
        refine .bind (within_fatEntry hg hcr.2 h0) ?_
        have hfreed : C (freeAll v cs) := by simpa using hC cs.length
        have hset := within_setFatEntry (C := C) (v := freeAll v cs) (x := endOfChain) hg hSc hcr.2 hfreed hC'
        rcases hlink with ⟨rfl, hend⟩ | ⟨hlt', hrest⟩
        · rw [if_neg (by omega)]
          exact .bind hset (.pure hC')
        · have hb2 := (hrest.inRange _ hrest.chain.head_mem).1
          rw [if_pos ⟨hb2, by omega⟩]
          refine .bind (within_freeLoop hg cs _ _ v hScs hrest (by omega) (by simp at hl; omega) hC) ?_
          exact .bind hset (.pure hC')
      · have hsub : needed - count + 1 = (needed - (count + 1) + 1) + 1 := by omega
        rcases hlink with ⟨rfl, _⟩ | ⟨hlt', hrest⟩
        · simp at hlt; omega
        · have hb2 := (hrest.inRange _ hrest.chain.head_mem).1
          have htr : truncated v (c :: cs) (needed - count + 1) = truncated v cs (needed - (count + 1) + 1) := by
            simp only [truncated, hsub, List.drop_succ_cons, Nat.add_sub_cancel]
            rw [← Nat.add_sub_cancel (needed - (count + 1)) 1, Nat.add_sub_cancel, List.getD_cons_succ]
          rw [if_neg hc]
          refine .bind (within_fatEntry hg hcr.2 h0) ?_
          rw [if_neg (by omega), wrap32_of_lt (by omega), htr]
          refine within_resizeLoop_shrink hg first hn cs _ fuel (count + 1) hScs hrest (by omega)
            (by simp at hlt; omega) (by simp at hf; omega) (by simp at hl; omega) ?_ (by rw [← htr]; exact hC')
          intro j
          have := hC j
          rwa [hsub, List.drop_succ_cons] at this

theorem runs_resizeLoop_shrink (hg : fs.Geometry) (first : Nat) {needed : Nat} (hn : needed < 2 ^ 32) (m : List Nat)
    (a fuel count : Nat) (h : fs.ChainAt v a m) (hle : count ≤ needed) (hlt : needed < count + m.length)
    (hf : m.length ≤ fuel) (hl : m.length ≤ loopLimit)
    (hC : ∀ j, C (freeAll v ((m.drop (needed - count + 1)).take j))) (hC' : C (truncated v m (needed - count + 1))) :
    fs.Runs C (fs.resizeLoop first needed fuel a count) v (.ok first) (truncated v m (needed - count + 1)) :=
  (within_resizeLoop_shrink (S := fun _ => True) hg.noOverflow first hn m a fuel count (fun _ _ => trivial) h hle hlt hf
    hl hC hC').runs

theorem within_resizeLoop_grow (hg : fs.NoOverflow) (first : Nat) {needed : Nat} (hn : needed < 2 ^ 32) :
    (m : List Nat) → (a fuel count n : Nat) → (∀ c ∈ m, S c) → (∀ c ∈ (fs.freeList v).take n, S c) →
    fs.ChainAt v a m → needed = count + m.length - 1 + n → 1 ≤ n → m.length ≤ fuel →
    (∀ w, v.AgreeOff (· ∈ fs.freeList v) w → C w) →
    (n ≤ (fs.freeList v).length → C (fs.extended v m ((fs.freeList v).take n))) →
    fs.Within S C (fs.resizeLoop first needed fuel a count) v
      (if n ≤ (fs.freeList v).length then .ok first else .error (.err .noSpace))
      (if n ≤ (fs.freeList v).length then fs.extended v m ((fs.freeList v).take n)
        else fs.allocated v ((fs.freeList v).take n))
  | [], _, _, _, _, _, _, h, _, _, _, _, _ => absurd rfl h.chain.ne_nil
  | c :: cs, a, 0, _, _, _, _, _, _, _, hf, _, _ => by simp at hf
  | c :: cs, a, fuel + 1, count, n, hS, hx, h, hneed, hn1, hf, hC, hC' => by
      have hSc := hS c List.mem_cons_self
      obtain ⟨rfl, hcr, hlink⟩ := h.uncons
      have h0 : C v := hC v (.refl _ v)
      simp only [List.length_cons] at hneed hf
      rw [resizeLoop, if_neg (by omega)]
      refine .bind (within_fatEntry hg hcr.2 h0) ?_
      rcases hlink with ⟨rfl, hend⟩ | ⟨hlt', hrest⟩
      · have hcount : wrap32 (needed + 2 ^ 32 - count) = n := by
          simp only [List.length_nil] at hneed
          simp only [wrap32]; omega
        rw [if_pos (Or.inr hend), hcount]
        have halloc := within_allocateChain (C := C) hg hn1 hx hC
        by_cases hsp : n ≤ (fs.freeList v).length
        · simp only [hsp, if_true] at halloc ⊢
          have hhead : (fs.freeList v).headD 0 = ((fs.freeList v).take n).headD 0 := by
            obtain ⟨k, rfl⟩ : ∃ k, n = k + 1 := ⟨n - 1, by omega⟩
            cases fs.freeList v <;> rfl
          have hext : fs.extended v [c] ((fs.freeList v).take n) =
              (fs.allocated v ((fs.freeList v).take n)).setFat c ((fs.freeList v).headD 0 % 2 ^ 28) := by
            rw [hhead]; rfl
          rw [hext]
          refine .bind halloc (.bind (within_setFatEntry hg hSc hcr.2 ?_ (by rw [← hext]; exact hC' hsp)) (.pure ?_))
          · exact hC _ ((agreeOff_allocated fs _).mono fun x hx => List.mem_of_mem_take hx)
          · rw [← hext]; exact hC' hsp
        · simp only [hsp, if_false] at halloc ⊢
          exact .bind_error halloc
      · have hb2 := (hrest.inRange _ hrest.chain.head_mem).1
        have hlen := hrest.chain.length_pos
        have hext : ∀ l, fs.extended v (c :: cs) l = fs.extended v cs l := by
          intro l
          simp only [extended]
          obtain ⟨y, ys, rfl⟩ := List.exists_cons_of_ne_nil hrest.chain.ne_nil
          rfl
        simp only [hext] at hC' ⊢
        rw [if_neg (by omega), wrap32_of_lt (by omega)]
        exact within_resizeLoop_grow hg first hn cs _ fuel (count + 1) n (fun x h => hS x (List.mem_cons_of_mem _ h)) hx
          hrest (by omega) hn1 (by omega) hC hC'

theorem runs_resizeLoop_grow (hg : fs.Geometry) (first : Nat) {needed : Nat} (hn : needed < 2 ^ 32) (m : List Nat)
    (a fuel count n : Nat) (h : fs.ChainAt v a m) (hneed : needed = count + m.length - 1 + n) (hn1 : 1 ≤ n)
    (hf : m.length ≤ fuel) (hC : ∀ w, v.AgreeOff (· ∈ fs.freeList v) w → C w)
    (hC' : n ≤ (fs.freeList v).length → C (fs.extended v m ((fs.freeList v).take n))) :
    fs.Runs C (fs.resizeLoop first needed fuel a count) v
      (if n ≤ (fs.freeList v).length then .ok first else .error (.err .noSpace))
      (if n ≤ (fs.freeList v).length then fs.extended v m ((fs.freeList v).take n)
        else fs.allocated v ((fs.freeList v).take n)) :=
  (within_resizeLoop_grow (S := fun _ => True) hg.noOverflow first hn m a fuel count n (fun _ _ => trivial)
    (fun _ _ => trivial) h hneed hn1 hf hC hC').runs

end Fat32

end Ferro
