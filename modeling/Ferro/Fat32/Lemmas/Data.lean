import Ferro.Fat32.Lemmas.Alloc

/-!
# File contents

Writing fills the sectors of a chain in order; reading concatenates them.
-/

namespace Ferro

/-- The volume after `data` has been written to the given sectors, as far as it goes. -/
def Volume.fill (v : Volume) : List (Nat × Nat) → List UInt8 → Volume
  | [], _ => v
  | p :: ps, data => if data = [] then v else Volume.fill (v.setData p (Fat32.dataSector data 0)) ps (data.drop 512)

/-- The bytes of the given sectors. -/
def Volume.bytes (v : Volume) (ps : List (Nat × Nat)) : List UInt8 := ps.flatMap fun p => (v.data p).toList

namespace Volume

variable {v w : Volume}

@[simp] theorem fill_nil_data (ps : List (Nat × Nat)) : v.fill ps [] = v := by
  cases ps <;> simp [fill]

@[simp] theorem fill_fat (ps : List (Nat × Nat)) (data : List UInt8) : (v.fill ps data).fat = v.fat := by
  induction ps generalizing v data with
  | nil => rfl
  | cons p ps ih =>
      rw [fill]
      split
      · rfl
      · rw [ih, setData_fat]

theorem fill_append (ps qs : List (Nat × Nat)) (data : List UInt8) :
    v.fill (ps ++ qs) data = (v.fill ps data).fill qs (data.drop (512 * ps.length)) := by
  induction ps generalizing v data with
  | nil => simp [fill]
  | cons p ps ih =>
      by_cases hd : data = []
      · subst hd; simp
      · rw [List.cons_append, fill, if_neg hd, ih, fill, if_neg hd, List.drop_drop, List.length_cons,
          Nat.mul_add, Nat.mul_one, Nat.add_comm]

theorem fill_data_of_not_mem {ps : List (Nat × Nat)} {data : List UInt8} {q : Nat × Nat} (h : q ∉ ps) :
    (v.fill ps data).data q = v.data q := by
  induction ps generalizing v data with
  | nil => rfl
  | cons p ps ih =>
      have hne : q ≠ p := by rintro rfl; exact h List.mem_cons_self
      have hrest : ((v.setData p (Fat32.dataSector data 0)).fill ps (data.drop 512)).data q = _ :=
        ih fun hq => h (List.mem_cons_of_mem _ hq)
      rw [fill]
      split
      · rfl
      · exact hrest.trans (setData_data_of_ne _ hne)

theorem bytes_congr {ps : List (Nat × Nat)} (h : ∀ p ∈ ps, w.data p = v.data p) : w.bytes ps = v.bytes ps := by
  induction ps with
  | nil => simp only [bytes, List.flatMap_nil]
  | cons p ps ih =>
      simp only [bytes, List.flatMap_cons] at ih ⊢
      rw [h p List.mem_cons_self, ih fun q hq => h q (List.mem_cons_of_mem _ hq)]

@[simp] theorem length_bytes (ps : List (Nat × Nat)) : (v.bytes ps).length = 512 * ps.length := by
  induction ps with
  | nil => rfl
  | cons p ps ih =>
      simp only [bytes, List.flatMap_cons, List.length_append, Arr.length_toList, List.length_cons] at ih ⊢
      omega

theorem bytes_cons (p : Nat × Nat) (ps : List (Nat × Nat)) :
    v.bytes (p :: ps) = (v.data p).toList ++ v.bytes ps := List.flatMap_cons

theorem bytes_append (ps qs : List (Nat × Nat)) : v.bytes (ps ++ qs) = v.bytes ps ++ v.bytes qs :=
  List.flatMap_append

end Volume

namespace Fat32

variable {fs : Fat32} {C : Volume → Prop} {v w : Volume}

/-! ## Data sectors -/

theorem dataSector_drop (data : List UInt8) (n : Nat) : dataSector data n = dataSector (data.drop n) 0 := rfl

theorem take_toList_dataSector (data : List UInt8) :
    (dataSector data 0).toList.take (data.take 512).length = data.take 512 := by
  have h := Arr.slice_put_same (Arr.fill 0 : Sector) 0 (data.take 512) (by simp)
  rw [Arr.slice, List.drop_zero] at h
  exact h

theorem take_bytes_fill {ps : List (Nat × Nat)} {data : List UInt8} (hn : ps.Nodup)
    (hl : data.length ≤ 512 * ps.length) : ((v.fill ps data).bytes ps).take data.length = data := by
  induction ps generalizing v data with
  | nil => simp only [List.length_nil, Nat.mul_zero, Nat.le_zero] at hl; simp [List.length_eq_zero_iff.mp hl]
  | cons p ps ih =>
      by_cases hd : data = []
      · subst hd; rfl
      · have hp := (List.nodup_cons.mp hn).1
        have hlen : (data.drop 512).length ≤ 512 * ps.length := by simp at hl ⊢; omega
        have hrest := ih (v := v.setData p (dataSector data 0)) (List.nodup_cons.mp hn).2 hlen
        have hsec := take_toList_dataSector data
        rw [Volume.fill, if_neg hd, Volume.bytes_cons, Volume.fill_data_of_not_mem hp, Volume.setData_data_self]
        by_cases hlen : data.length ≤ 512
        · rw [List.take_append_of_le_length (by simpa using hlen)]
          rwa [List.take_of_length_le hlen] at hsec
        · rw [List.length_take, Nat.min_eq_left (by omega), List.take_of_length_le (by simp)] at hsec
          have hsplit : data.length = (dataSector data 0).toList.length + (data.drop 512).length := by
            simp; omega
          rw [hsplit, List.take_length_add_append, hrest, hsec, List.take_append_drop]

/-! ## Writing -/

/-- What is left to write is filled from the next sector on. -/
theorem fill_cons {data : List UInt8} {written : Nat} (hlt : written < data.length) (p : Nat × Nat)
    (ps : List (Nat × Nat)) : v.fill (p :: ps) (data.drop written) =
      (v.setData p (dataSector data written)).fill ps
        (data.drop (written + min (data.length - written) sectorSize)) := by
  have hne : data.drop written ≠ [] := by simp; omega
  have hmin : data.drop (written + 512) = data.drop (written + min (data.length - written) sectorSize) := by
    simp only [sectorSize]
    by_cases h : 512 ≤ data.length - written
    · rw [Nat.min_eq_right h]
    · rw [Nat.min_eq_left (by omega), List.drop_eq_nil_of_le (by omega), List.drop_eq_nil_of_le (by omega)]
  rw [Volume.fill, if_neg hne, List.drop_drop, ← dataSector_drop, hmin]

theorem runs_writeCluster (hg : fs.Geometry) {c : Nat} (hc : fs.InRange c) (data : List UInt8) :
    (n s written : Nat) → (v : Volume) → s + n ≤ fs.sectorsPerCluster.toNat → written ≤ data.length →
    (∀ j, C (v.fill (((List.range' s n).map fun i => (c, i)).take j) (data.drop written))) →
    fs.Runs C (writeCluster data (fs.clusterToLba c) n s written) v
      (.ok (min data.length (written + 512 * n)))
      (v.fill ((List.range' s n).map fun i => (c, i)) (data.drop written))
  | 0, s, written, v, _, hw, hC => by
      rw [Nat.mul_zero, Nat.add_zero, Nat.min_eq_right hw]
      exact .pure (by simpa [Volume.fill] using hC 0)
  | n + 1, s, written, v, hs, hw, hC => by
      have h0 : C v := by simpa [Volume.fill] using hC 0
      rw [writeCluster]
      by_cases hend : data.length ≤ written
      · rw [if_pos hend, List.drop_eq_nil_of_le hend, Volume.fill_nil_data, Nat.min_eq_left (by omega),
          show data.length = written by omega]
        exact .pure h0
      · have hlt : written < data.length := by omega
        have h1 : C (v.setData (c, s) (dataSector data written)) := by
          have := hC 1
          simpa [List.range'_succ, fill_cons hlt, Volume.fill] using this
        rw [if_neg hend]
        have ih := runs_writeCluster hg hc data n (s + 1) (written + min (data.length - written) sectorSize)
          (v.setData (c, s) (dataSector data written)) (by omega) (by omega) (by
            intro j
            have := hC (j + 1)
            rwa [List.range'_succ, List.map_cons, List.take_succ_cons, fill_cons hlt] at this)
        have hsum : min data.length (written + min (data.length - written) sectorSize + 512 * n) =
            min data.length (written + 512 * (n + 1)) := by
          simp only [sectorSize]; omega
        rw [hsum] at ih
        rw [List.range'_succ, List.map_cons, fill_cons hlt]
        exact .bind (runs_writeData hg ⟨hc, by omega⟩ h0 h1) ih

theorem sectors_cons (c : Nat) (cs : List Nat) : fs.sectors (c :: cs) =
    ((List.range' 0 fs.sectorsPerCluster.toNat).map fun i => (c, i)) ++ fs.sectors cs := by
  rw [sectors, List.flatMap_cons, List.range_eq_range', sectors, List.range_eq_range']

theorem sectors_append (l m : List Nat) : fs.sectors (l ++ m) = fs.sectors l ++ fs.sectors m :=
  List.flatMap_append

@[simp] theorem length_sectors (l : List Nat) :
    (fs.sectors l).length = fs.sectorsPerCluster.toNat * l.length := by
  induction l with
  | nil => rfl
  | cons c cs ih =>
      rw [sectors_cons, List.length_append, ih, List.length_map, List.length_range', List.length_cons,
        Nat.mul_add, Nat.mul_one, Nat.add_comm]

theorem mem_sectors {l : List Nat} {p : Nat × Nat} :
    p ∈ fs.sectors l ↔ p.1 ∈ l ∧ p.2 < fs.sectorsPerCluster.toNat := by
  obtain ⟨a, b⟩ := p
  simp only [sectors, List.mem_flatMap, List.mem_map, List.mem_range, Prod.mk.injEq]
  constructor
  · rintro ⟨c, hc, s, hs, rfl, rfl⟩; exact ⟨hc, hs⟩
  · rintro ⟨hc, hs⟩; exact ⟨a, hc, b, hs, rfl, rfl⟩

theorem nodup_sectors {l : List Nat} (h : l.Nodup) : (fs.sectors l).Nodup := by
  refine List.nodup_flatMap.mpr ⟨fun c _ => ?_, ?_⟩
  · exact List.nodup_range.map fun _ _ he => (Prod.mk.inj he).2
  · refine h.imp fun {a b} hab => ?_
    intro p hp hq
    obtain ⟨_, _, rfl⟩ := List.mem_map.mp hp
    obtain ⟨_, _, he⟩ := List.mem_map.mp hq
    exact hab (Prod.mk.inj he).1.symm

theorem runs_writeLoop (hg : fs.Geometry) (data : List UInt8) : (l : List Nat) → (a fuel written : Nat) →
    (v : Volume) → fs.ChainAt v a l → written ≤ data.length →
    data.length - written ≤ 512 * (fs.sectorsPerCluster.toNat * l.length) → data.length - written < fuel →
    (∀ j, C (v.fill ((fs.sectors l).take j) (data.drop written))) →
    fs.Runs C (fs.writeLoop data fuel a written) v (.ok ()) (v.fill (fs.sectors l) (data.drop written))
  | [], _, _, _, _, h, _, _, _, _ => absurd rfl h.chain.ne_nil
  | c :: cs, a, 0, _, _, _, _, _, hf, _ => by omega
  | c :: cs, a, fuel + 1, written, v, h, hw, hfit, hf, hC => by
      obtain ⟨rfl, hcr, hlink⟩ := h.uncons
      have hspc := hg.spc_pos
      have h0 : C v := by simpa [Volume.fill] using hC 0
      rw [writeLoop]
      by_cases hlt : written < data.length
      · have hcl := runs_writeCluster (C := C) hg hcr data fs.sectorsPerCluster.toNat 0 written v (by omega) hw (by
          intro j
          have := hC (min j fs.sectorsPerCluster.toNat)
          rw [sectors_cons, List.take_append_of_le_length (by simp), ← List.take_take,
            List.take_of_length_le (i := fs.sectorsPerCluster.toNat)] at this
          · exact this
          · simp)
        have hlast := hC fs.sectorsPerCluster.toNat
        rw [sectors_cons, List.take_append_of_le_length (by simp), List.take_of_length_le (by simp)] at hlast
        rw [if_pos hlt]
        refine .bind hcl ?_
        rw [sectors_cons, Volume.fill_append, List.length_map, List.length_range', List.drop_drop]
        by_cases hdone : data.length ≤ written + 512 * fs.sectorsPerCluster.toNat
        · rw [if_pos (by omega), List.drop_eq_nil_of_le hdone, Volume.fill_nil_data]
          exact .pure hlast
        · rw [if_neg (by omega), Nat.min_eq_right (by omega)]
          rcases hlink with ⟨rfl, _⟩ | ⟨_, hrest⟩
          · simp at hfit; omega
          · refine .bind (runs_fatEntry hg hcr.2 hlast) ?_
            rw [Volume.fill_fat]
            refine runs_writeLoop hg data cs _ fuel _ _ (hrest.congr fun x _ => by rw [Volume.fill_fat])
              (by omega) (by simp only [List.length_cons, Nat.mul_add, Nat.mul_one] at hfit; omega) (by omega) ?_
            intro j
            have := hC (fs.sectorsPerCluster.toNat + j)
            rw [sectors_cons, List.take_append, List.take_of_length_le (by simp), List.length_map,
              List.length_range', Nat.add_sub_cancel_left, Volume.fill_append, List.length_map,
              List.length_range', List.drop_drop] at this
            exact this
      · rw [if_neg hlt, List.drop_eq_nil_of_le (by omega), Volume.fill_nil_data]
        exact .pure h0

/-! ### Each sector on the way -/

theorem passes_writeCluster (hg : fs.Geometry) {c : Nat} (hc : fs.InRange c) (data : List UInt8) :
    (n s written j : Nat) → (v : Volume) → s + n ≤ fs.sectorsPerCluster.toNat → written ≤ data.length →
    Prog.Passes fs.volume (writeCluster data (fs.clusterToLba c) n s written) v
      (v.fill (((List.range' s n).map fun i => (c, i)).take j) (data.drop written))
  | _, _, _, 0, _, _, _ => .start _ _
  | 0, _, _, _ + 1, _, _, _ => .start _ _
  | n + 1, s, written, j + 1, v, hs, hw => by
      rw [writeCluster]
      by_cases hend : data.length ≤ written
      · rw [List.drop_eq_nil_of_le hend, Volume.fill_nil_data]
        exact .start _ _
      · have ih := passes_writeCluster hg hc data n (s + 1) (written + min (data.length - written) sectorSize) j
          (v.setData (c, s) (dataSector data written)) (by omega) (by omega)
        rw [if_neg hend, List.range'_succ, List.map_cons, List.take_succ_cons, fill_cons (by omega)]
        exact .right (runs_writeData (C := fun _ => True) hg ⟨hc, by omega⟩ trivial trivial) ih

theorem passes_writeLoop (hg : fs.Geometry) (data : List UInt8) : (l : List Nat) → (a fuel written j : Nat) →
    (v : Volume) → fs.ChainAt v a l → written ≤ data.length →
    data.length - written ≤ 512 * (fs.sectorsPerCluster.toNat * l.length) → data.length - written < fuel →
    Prog.Passes fs.volume (fs.writeLoop data fuel a written) v (v.fill ((fs.sectors l).take j) (data.drop written))
  | [], _, _, _, _, _, h, _, _, _ => absurd rfl h.chain.ne_nil
  | c :: cs, a, 0, _, _, _, _, _, _, hf => by omega
  | c :: cs, a, fuel + 1, written, j, v, h, hw, hfit, hf => by
      obtain ⟨rfl, hcr, hlink⟩ := h.uncons
      have hspc := hg.spc_pos
      rw [writeLoop]
      by_cases hlt : written < data.length
      · have hcl := passes_writeCluster hg hcr data fs.sectorsPerCluster.toNat 0 written j v (by omega) hw
        rw [if_pos hlt, sectors_cons, List.take_append, Volume.fill_append, List.length_take, List.length_map,
          List.length_range', List.drop_drop]
        -- the sector lies in this cluster, or all data does, or it lies behind the cluster
        by_cases hj : j ≤ fs.sectorsPerCluster.toNat
        · rw [Nat.sub_eq_zero_of_le hj, List.take_zero, Volume.fill]
          exact .left hcl
        · rw [List.take_of_length_le (by simp; omega)] at hcl ⊢
          rw [Nat.min_eq_right (by omega)]
          by_cases hdone : data.length ≤ written + 512 * fs.sectorsPerCluster.toNat
          · rw [List.drop_eq_nil_of_le hdone, Volume.fill_nil_data]
            exact .left hcl
          · have hrun := runs_writeCluster (C := fun _ => True) hg hcr data fs.sectorsPerCluster.toNat 0 written v
              (by omega) hw fun _ => trivial
            refine .right hrun ?_
            rw [if_neg (by omega), Nat.min_eq_right (by omega)]
            rcases hlink with ⟨rfl, _⟩ | ⟨_, hrest⟩
            · simp at hfit; omega
            · refine .right (runs_fatEntry (C := fun _ => True) hg hcr.2 trivial) ?_
              rw [Volume.fill_fat]
              exact passes_writeLoop hg data cs _ fuel _ _ _ (hrest.congr fun x _ => by rw [Volume.fill_fat])
                (by omega) (by simp only [List.length_cons, Nat.mul_add, Nat.mul_one] at hfit; omega) (by omega)
      · rw [List.drop_eq_nil_of_le (by omega), Volume.fill_nil_data]
        exact .start _ _

/-! ## Reading -/

theorem slice_zero (sector : Sector) (k : Nat) : sector.slice 0 k = sector.toList.take k := by
  rw [Arr.slice, List.drop_zero]

theorem runs_readCluster (hg : fs.Geometry) {c : Nat} (hc : fs.InRange c) (hC : C v) (toRead : Nat) :
    (n s : Nat) → (out : List UInt8) → s + n ≤ fs.sectorsPerCluster.toNat → out.length ≤ toRead →
    fs.Runs C (readCluster toRead (fs.clusterToLba c) n s out) v
      (.ok (out ++ (v.bytes ((List.range' s n).map fun i => (c, i))).take (toRead - out.length))) v
  | 0, s, out, _, _ => by
      simp only [List.range'_zero, List.map_nil, Volume.bytes, List.flatMap_nil, List.take_nil, List.append_nil]
      exact .pure hC
  | n + 1, s, out, hs, ho => by
      rw [readCluster]
      by_cases hend : toRead ≤ out.length
      · rw [if_pos hend, Nat.sub_eq_zero_of_le hend, List.take_zero, List.append_nil]
        exact .pure hC
      · rw [if_neg hend]
        refine .bind (runs_readData hg ⟨hc, by omega⟩ hC) ?_
        have ih := runs_readCluster hg hc hC toRead n (s + 1)
          (out ++ (v.data (c, s)).toList.take (min (toRead - out.length) sectorSize)) (by omega)
          (by simp [sectorSize]; omega)
        rw [slice_zero, List.range'_succ, List.map_cons, Volume.bytes_cons, List.take_append]
        have hmin : (v.data (c, s)).toList.take (min (toRead - out.length) sectorSize) =
            (v.data (c, s)).toList.take (toRead - out.length) := by
          by_cases h : toRead - out.length ≤ 512
          · rw [sectorSize, Nat.min_eq_left h]
          · rw [sectorSize, Nat.min_eq_right (by omega), List.take_of_length_le (by simp),
              List.take_of_length_le (by simp; omega)]
        rw [hmin] at ih ⊢
        have hsub : toRead - (out ++ (v.data (c, s)).toList.take (toRead - out.length)).length =
            toRead - out.length - (v.data (c, s)).toList.length := by
          simp; omega
        rw [hsub, List.append_assoc] at ih
        exact ih

theorem runs_readLoop (hg : fs.Geometry) (hC : C v) (toRead : Nat) : (l : List Nat) → (a fuel : Nat) →
    (out : List UInt8) → fs.ChainAt v a l → l.length ≤ fuel → out.length ≤ toRead →
    fs.Runs C (fs.readLoop toRead fuel a out) v (.ok (out ++ (fs.content v l).take (toRead - out.length))) v
  | [], _, _, _, h, _, _ => absurd rfl h.chain.ne_nil
  | c :: cs, a, 0, _, _, hf, _ => by simp at hf
  | c :: cs, a, fuel + 1, out, h, hf, ho => by
      obtain ⟨rfl, hcr, hlink⟩ := h.uncons
      rw [readLoop]
      by_cases hlt : out.length < toRead
      · have hcl := runs_readCluster hg hcr hC toRead fs.sectorsPerCluster.toNat 0 out (by omega) ho
        have hcont : fs.content v (c :: cs) =
            v.bytes ((List.range' 0 fs.sectorsPerCluster.toNat).map fun i => (c, i)) ++ fs.content v cs := by
          rw [content, sectors_cons]; exact Volume.bytes_append _ _
        rw [if_pos hlt, hcont, List.take_append]
        refine .bind hcl ?_
        generalize hb : v.bytes ((List.range' 0 fs.sectorsPerCluster.toNat).map fun i => (c, i)) = bs
        by_cases hdone : toRead ≤ (out ++ bs.take (toRead - out.length)).length
        · have : toRead - out.length - bs.length = 0 := by simp at hdone; omega
          rw [if_pos hdone, this, List.take_zero, List.append_nil]
          exact .pure hC
        · have hle : bs.length ≤ toRead - out.length := by simp at hdone; omega
          rw [if_neg hdone]
          refine .bind (runs_fatEntry hg hcr.2 hC) ?_
          rw [List.take_of_length_le hle]
          rcases hlink with ⟨rfl, hend⟩ | ⟨hlt', hrest⟩
          · rw [if_pos hend]
            simp only [content, sectors, List.flatMap_nil, List.take_nil, List.append_nil]
            exact .pure hC
          · rw [if_neg (by omega)]
            have ih := runs_readLoop hg hC toRead cs (v.fat c) fuel (out ++ bs) hrest (by simp at hf; omega)
              (by simp; omega)
            have hsub : toRead - (out ++ bs).length = toRead - out.length - bs.length := by simp; omega
            rw [hsub, List.append_assoc] at ih
            exact ih
      · rw [if_neg hlt, Nat.sub_eq_zero_of_le (by omega), List.take_zero, List.append_nil]
        exact .pure hC

end Fat32

end Ferro
