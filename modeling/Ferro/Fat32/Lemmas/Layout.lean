import Ferro.Fat32.Volume
import Mathlib.Data.Nat.Bitwise

/-!
# Block operations as operations on the volume

Under `Geometry` no arithmetic wraps, FAT and data sectors do not overlap, and each primitive of the driver is an
operation on the abstract volume.
-/

namespace Ferro

/-! ## Arithmetic -/

theorem mul_add_inj {n a b i j : Nat} (ha : a < n) (hb : b < n) (h : i * n + a = j * n + b) : i = j ∧ a = b := by
  have hi := congrArg (· / n) h
  have hr := congrArg (· % n) h
  have hn : 0 < n := by omega
  simp only [Nat.mul_comm i n, Nat.mul_comm j n, Nat.mul_add_div hn, Nat.mul_add_mod,
    Nat.div_eq_of_lt ha, Nat.div_eq_of_lt hb, Nat.mod_eq_of_lt ha, Nat.mod_eq_of_lt hb, Nat.add_zero] at hi hr
  exact ⟨hi, hr⟩

theorem and_low28 (x : Nat) : x &&& 0x0FFFFFFF = x % 2 ^ 28 := Nat.and_two_pow_sub_one_eq_mod x 28

theorem and_high4 {x : Nat} (h : x < 2 ^ 32) : x &&& 0xF0000000 = 2 ^ 28 * (x / 2 ^ 28) := by
  apply Nat.eq_of_testBit_eq
  intro i
  rw [show (0xF0000000 : Nat) = (2 ^ 4 - 1) <<< 28 from rfl, Nat.testBit_and, Nat.testBit_shiftLeft,
    Nat.testBit_two_pow_sub_one, Nat.testBit_two_pow_mul, Nat.testBit_div_two_pow]
  by_cases hi : 28 ≤ i
  · by_cases hj : i < 32
    · simp only [hi, decide_true, Bool.true_and, show i - 28 < 4 by omega, Bool.and_true]
      rw [Nat.sub_add_cancel hi]
    · rw [Nat.testBit_lt_two_pow (Nat.lt_of_lt_of_le h (Nat.pow_le_pow_right (by decide) (by omega)))]
      simp only [hi, decide_true, Bool.true_and, Bool.false_and]
      rw [Nat.sub_add_cancel hi,
        Nat.testBit_lt_two_pow (Nat.lt_of_lt_of_le h (Nat.pow_le_pow_right (by decide) (by omega)))]
  · simp [hi]

theorem newVal_eq {x old : Nat} (h : old < 2 ^ 32) :
    (x &&& 0x0FFFFFFF) ||| (old &&& 0xF0000000) = 2 ^ 28 * (old / 2 ^ 28) + x % 2 ^ 28 := by
  rw [and_low28, and_high4 h, Nat.or_comm, Nat.two_pow_add_eq_or_of_lt (Nat.mod_lt _ (by decide))]

theorem wrap32_of_lt {n : Nat} (h : n < 2 ^ 32) : wrap32 n = n := Nat.mod_eq_of_lt h

namespace Fat32

variable {fs : Fat32} {C : Volume → Prop} {v : Volume}

/-! ## The card's layout -/

theorem Geometry.noOverflow (hg : fs.Geometry) : fs.NoOverflow := ⟨hg.fats_pos, hg.sectors_fit, hg.offsets_fit⟩

theorem NoOverflow.clusters_lt (hg : fs.NoOverflow) : fs.clusters < 2 ^ 32 := by
  have := hg.offsets_fit; omega

theorem Geometry.clusters_lt (hg : fs.Geometry) : fs.clusters < 2 ^ 32 := hg.noOverflow.clusters_lt

theorem NoOverflow.maxCluster_eq (hg : fs.NoOverflow) : fs.maxCluster = fs.clusters := by
  have := hg.clusters_lt
  have he : fs.fatSizeSectors.toNat * sectorSize / 4 = fs.clusters := by
    simp only [sectorSize, clusters]; omega
  rw [maxCluster, he, wrap32_of_lt this]

theorem NoOverflow.dataLba_lt (hg : fs.NoOverflow) {p : Nat × Nat} (hp : fs.HasSector p) :
    fs.dataLba p < 2 ^ 32 := by
  obtain ⟨⟨h2, hc⟩, hs⟩ := hp
  have hfit := hg.sectors_fit
  have hle : (p.1 - 2) * fs.sectorsPerCluster.toNat + fs.sectorsPerCluster.toNat ≤
      (fs.clusters - 2) * fs.sectorsPerCluster.toNat := by
    rw [← Nat.succ_mul]
    exact Nat.mul_le_mul_right _ (by omega)
  simp only [dataLba]
  omega

theorem NoOverflow.clusterToLba_eq (hg : fs.NoOverflow) {c : Nat} (hp : fs.HasSector (c, 0)) :
    fs.clusterToLba c = fs.dataLba (c, 0) := by
  have hlt := hg.dataLba_lt hp
  have hclt := hg.clusters_lt
  have h2 := hp.1.1
  have hc' := hp.1.2
  simp only [dataLba, dataStart, fatStart, Nat.add_zero] at hlt h2 hc' ⊢
  have hw : wrap32 (c + 2 ^ 32 - 2) = c - 2 := by
    simp only [wrap32]; omega
  have hfirst : fs.firstDataSector = fs.dataStart := wrap32_of_lt (by omega)
  rw [clusterToLba, hfirst, hw, dataStart, fatStart, wrap32_of_lt (by omega)]

theorem Geometry.clusterToLba_eq (hg : fs.Geometry) {c : Nat} (hc : fs.InRange c) :
    fs.clusterToLba c = fs.dataLba (c, 0) :=
  hg.noOverflow.clusterToLba_eq ⟨hc, hg.spc_pos⟩

theorem NoOverflow.sectorLba_eq (hg : fs.NoOverflow) {c s : Nat} (hp : fs.HasSector (c, s)) :
    wrap32 (fs.clusterToLba c + s) = fs.dataLba (c, s) := by
  have hlt := hg.dataLba_lt hp
  rw [hg.clusterToLba_eq ⟨hp.1, Nat.zero_lt_of_lt hp.2⟩]
  simp only [dataLba, Nat.add_zero] at hlt ⊢
  exact wrap32_of_lt hlt

theorem Geometry.sectorLba_eq (hg : fs.Geometry) {c s : Nat} (hp : fs.HasSector (c, s)) :
    wrap32 (fs.clusterToLba c + s) = fs.dataLba (c, s) := hg.noOverflow.sectorLba_eq hp

theorem dataLba_inj {p q : Nat × Nat} (hp : fs.HasSector p) (hq : fs.HasSector q)
    (h : fs.dataLba p = fs.dataLba q) : p = q := by
  obtain ⟨⟨hp2, _⟩, hps⟩ := hp
  obtain ⟨⟨hq2, _⟩, hqs⟩ := hq
  have he := mul_add_inj hps hqs (i := p.1 - 2) (j := q.1 - 2) (by simp only [dataLba] at h; omega)
  exact Prod.ext (by omega) he.2

theorem sector_lt {c : Nat} (hc : c < fs.clusters) : c / 128 < fs.fatSizeSectors.toNat :=
  Nat.div_lt_of_lt_mul (by rw [Nat.mul_comm]; exact hc)

theorem copy_le {k : Nat} (hk : k < fs.numFats.toNat) :
    k * fs.fatSizeSectors.toNat + fs.fatSizeSectors.toNat ≤ fs.numFats.toNat * fs.fatSizeSectors.toNat := by
  rw [← Nat.succ_mul]
  exact Nat.mul_le_mul_right _ hk

theorem fatLba_lt_dataStart {k c : Nat} (hk : k < fs.numFats.toNat) (hc : c < fs.clusters) :
    fs.fatLba k c < fs.dataStart := by
  have h1 := sector_lt hc
  have h2 := copy_le hk
  simp only [fatLba, dataStart]
  omega

theorem fatLba_inj {k k' c c' : Nat} (hc : c < fs.clusters) (hc' : c' < fs.clusters)
    (h : fs.fatLba k c = fs.fatLba k' c') : k = k' ∧ c / 128 = c' / 128 :=
  mul_add_inj (sector_lt hc) (sector_lt hc') (by simp only [fatLba] at h; omega)

theorem dataStart_le_dataLba (p : Nat × Nat) : fs.dataStart ≤ fs.dataLba p := by
  simp only [dataLba]; omega

/-- The address computed from a cluster number is that of its entry in copy `k`. -/
theorem NoOverflow.fatSector_eq (hg : fs.NoOverflow) {k c : Nat} (hk : k < fs.numFats.toNat) (hc : c < fs.clusters) :
    wrap32 (fs.partitionStartLba.toNat + fs.reservedSectors.toNat + k * fs.fatSizeSectors.toNat +
      wrap32 (c * 4) / sectorSize) = fs.fatLba k c ∧ wrap32 (c * 4) % sectorSize = c % 128 * 4 := by
  have ho := hg.offsets_fit
  have hlt := fatLba_lt_dataStart hk hc
  have hfit := hg.sectors_fit
  rw [wrap32_of_lt (n := c * 4) (by omega)]
  have hdiv : c * 4 / sectorSize = c / 128 := by simp only [sectorSize]; omega
  have hmod : c * 4 % sectorSize = c % 128 * 4 := by simp only [sectorSize]; omega
  rw [hdiv, hmod]
  refine ⟨?_, rfl⟩
  simp only [fatLba, fatStart] at hlt ⊢
  exact wrap32_of_lt (by omega)

/-! ## What is stored -/

theorem volume_fat {d : Disk} {c : Nat} (hc : c < fs.clusters) : (fs.volume d).fat c = fs.rawEntry d 0 c % 2 ^ 28 :=
  if_pos hc

namespace Stores

variable {S : Nat → Prop} {d d' d'' : Disk}

theorem top_eq (h : fs.Stores S d d') {k c : Nat} (hk : k < fs.numFats.toNat) (hc : c < fs.clusters) :
    fs.rawEntry d' k c / 2 ^ 28 = fs.rawEntry d k c / 2 ^ 28 := by
  rcases h.entry c hc with he | ⟨_, he⟩
  · rw [he k hk]
  · rw [he k hk, volume_fat hc, Nat.mul_add_div (by decide), Nat.div_eq_of_lt (Nat.mod_lt _ (by decide)), Nat.add_zero]

theorem refl (d : Disk) : fs.Stores S d d := ⟨fun _ _ => .inl fun _ _ => rfl, fun _ _ _ => rfl⟩

theorem trans (h : fs.Stores S d d') (h' : fs.Stores S d' d'') : fs.Stores S d d'' := by
  refine ⟨fun c hc => ?_, fun lba hf hd => (h'.block lba hf hd).trans (h.block lba hf hd)⟩
  rcases h'.entry c hc with he' | ⟨hS, he'⟩
  · rcases h.entry c hc with he | ⟨hS, he⟩
    · exact .inl fun k hk => (he' k hk).trans (he k hk)
    · refine .inr ⟨hS, fun k hk => ?_⟩
      rw [he' k hk, he k hk, volume_fat hc, volume_fat hc, he' 0 (Nat.zero_lt_of_lt hk)]
  · exact .inr ⟨hS, fun k hk => by rw [he' k hk, h.top_eq hk hc]⟩

instance : IsPreorder Disk (fs.Stores S) where
  refl := refl
  trans _ _ _ := trans

/-- A FAT sector is its 128 entries. -/
theorem fatSector_ext {k k' j : Nat}
    (h : ∀ i < 128, fs.rawEntry d k (j * 128 + i) = fs.rawEntry d' k' (j * 128 + i)) :
    d (fs.fatStart + k * fs.fatSizeSectors.toNat + j) = d' (fs.fatStart + k' * fs.fatSizeSectors.toNat + j) := by
  have hlba : ∀ k, ∀ i < 128, fs.fatLba k (j * 128 + i) = fs.fatStart + k * fs.fatSizeSectors.toNat + j := by
    intro k i hi
    rw [fatLba]
    omega
  refine Arr.ext_nth fun n hn => ?_
  have hi : n / 4 < 128 := by omega
  have hoff : (j * 128 + n / 4) % 128 * 4 = n / 4 * 4 := by omega
  have hraw := h (n / 4) hi
  rw [rawEntry, rawEntry, hlba k _ hi, hlba k' _ hi, hoff] at hraw
  have hslice := leNat_injective (by rw [Arr.length_slice _ (by omega), Arr.length_slice _ (by omega)]) hraw
  have hbyte := congrArg (·[n % 4]?) hslice
  rw [Arr.getElem?_slice _ (by omega), Arr.getElem?_slice _ (by omega), if_pos (Nat.mod_lt _ (by decide)),
    if_pos (Nat.mod_lt _ (by decide)), Nat.div_add_mod'] at hbyte
  exact Option.some.inj hbyte

theorem mirrors (h : fs.Stores S d d') : fs.Mirrors d d' := by
  refine ⟨fun k hk c hc => h.top_eq hk hc, fun ha k hk j hj => ?_⟩
  have h0 : fs.fatStart + j = fs.fatStart + 0 * fs.fatSizeSectors.toNat + j := by rw [Nat.zero_mul, Nat.add_zero]
  have hcopies : ∀ c, c / 128 = j → fs.rawEntry d k c = fs.rawEntry d 0 c := by
    rintro c rfl
    have := ha k hk _ hj
    rw [rawEntry, rawEntry, fatLba, fatLba, this, Nat.zero_mul, Nat.add_zero]
  rw [h0]
  refine fatSector_ext fun i hi => ?_
  have hc : j * 128 + i < fs.clusters := by rw [clusters]; omega
  have hcopy := hcopies (j * 128 + i) (by omega)
  rcases h.entry _ hc with he | ⟨_, he⟩
  · rw [he k hk, he 0 (Nat.zero_lt_of_lt hk), hcopy]
  · rw [he k hk, he 0 (Nat.zero_lt_of_lt hk), hcopy]

end Stores

theorem Within.runs {α : Type} {S : Nat → Prop} {p : CardM α} {r : Except Stop α} {v' : Volume}
    (h : fs.Within S C p v r v') : fs.Runs C p v r v' :=
  h.mono fun _ _ => Stores.mirrors

/-! ## Reading -/

variable {S : Nat → Prop}

theorem runs_readBlock {C : Volume → Prop} {v : Volume} {lba : Nat} {sector : Sector} (hC : C v)
    (h : ∀ d, fs.volume d = v → d lba = sector) : fs.Runs C (readBlock lba) v (.ok sector) v := by
  intro d hd
  refine ⟨fun n => ?_, refl_of fs.Mirrors d, ?_, hd⟩
  · cases n <;> (show C (fs.volume d); rw [hd]; exact hC)
  · show Except.ok (d lba) = _
    rw [h d hd]

theorem volume_data {d : Disk} {p : Nat × Nat} (hp : fs.HasSector p) (hd : fs.volume d = v) :
    d (fs.dataLba p) = v.data p := by
  rw [← hd]; simp [volume, hp]

theorem runs_readData (hg : fs.Geometry) {c s : Nat} (hp : fs.HasSector (c, s)) (hC : C v) :
    fs.Runs C (readBlock (wrap32 (fs.clusterToLba c + s))) v (.ok (v.data (c, s))) v := by
  rw [hg.sectorLba_eq hp]
  exact runs_readBlock hC fun d hd => volume_data hp hd

theorem within_fatEntry (hg : fs.NoOverflow) {c : Nat} (hc : c < fs.clusters) (hC : C v) :
    fs.Within S C (fs.fatEntry c) v (.ok (v.fat c)) v := by
  intro d hd
  have he := hg.fatSector_eq hg.fats_pos hc
  have hrun : (fs.fatEntry c).run d = (.ok (v.fat c), d) := by
    show (Except.ok _, d) = _
    rw [Nat.zero_mul, Nat.add_zero] at he
    rw [he.1, he.2, and_low28, ← hd]
    simp [volume, hc, rawEntry]
  refine ⟨fun n => ?_, ?_, by rw [hrun], by rw [hrun, hd]⟩
  · cases n <;> (show C (fs.volume d); rw [hd]; exact hC)
  · rw [hrun]; exact Stores.refl d

theorem runs_fatEntry (hg : fs.Geometry) {c : Nat} (hc : c < fs.clusters) (hC : C v) :
    fs.Runs C (fs.fatEntry c) v (.ok (v.fat c)) v :=
  (within_fatEntry (S := fun _ => False) hg.noOverflow hc hC).runs

/-! ## Writing a data sector -/

theorem rawEntry_update_data {k c : Nat} (hk : k < fs.numFats.toNat) (hc : c < fs.clusters) (d : Disk)
    (p : Nat × Nat) (sector : Sector) :
    fs.rawEntry (Function.update d (fs.dataLba p) sector) k c = fs.rawEntry d k c := by
  have h1 := fatLba_lt_dataStart hk hc
  have h2 := fs.dataStart_le_dataLba p
  rw [rawEntry, Function.update_of_ne (by omega), rawEntry]

theorem volume_update_data (hpos : 1 ≤ fs.numFats.toNat) {p : Nat × Nat} (hp : fs.HasSector p) (d : Disk)
    (sector : Sector) : fs.volume (Function.update d (fs.dataLba p) sector) = (fs.volume d).setData p sector := by
  ext1
  · funext c
    simp only [volume, Volume.setData]
    split
    · rw [rawEntry_update_data hpos ‹_›]
    · rfl
  · funext q
    simp only [volume, Volume.setData]
    by_cases hqp : q = p
    · subst hqp; simp [hp]
    · rw [Function.update_of_ne hqp]
      split
      · rw [Function.update_of_ne fun he => hqp (dataLba_inj ‹_› hp he)]
      · rfl

theorem stores_update_data (d : Disk) {p : Nat × Nat} (hS : S p.1) (hp : fs.HasSector p) (sector : Sector) :
    fs.Stores S d (Function.update d (fs.dataLba p) sector) := by
  refine ⟨fun c hc => .inl fun k hk => rawEntry_update_data hk hc d p sector, fun lba _ hd => ?_⟩
  exact Function.update_of_ne (hd p hS hp) _ _

theorem within_writeLba (hpos : 1 ≤ fs.numFats.toNat) {p : Nat × Nat} (hS : S p.1) (hp : fs.HasSector p)
    {sector : Sector} (hC : C v) (hC' : C (v.setData p sector)) :
    fs.Within S C (writeBlock (fs.dataLba p) sector) v (.ok ()) (v.setData p sector) := by
  intro d hd
  have hv : fs.volume (Function.update d (fs.dataLba p) sector) = v.setData p sector := by
    rw [volume_update_data hpos hp, hd]
  refine ⟨fun n => ?_, stores_update_data d hS hp sector, rfl, hv⟩
  cases n with
  | zero => show C (fs.volume d); rw [hd]; exact hC
  | succ n =>
      show C (fs.volume (Prog.crash n (pure () : CardM Unit) (Function.update d (fs.dataLba p) sector)))
      rw [Prog.crash_pure, hv]; exact hC'

theorem within_writeData (hg : fs.NoOverflow) {c s : Nat} (hS : S c) (hp : fs.HasSector (c, s)) {sector : Sector}
    (hC : C v) (hC' : C (v.setData (c, s) sector)) :
    fs.Within S C (writeBlock (wrap32 (fs.clusterToLba c + s)) sector) v (.ok ()) (v.setData (c, s) sector) := by
  rw [hg.sectorLba_eq hp]
  exact within_writeLba hg.fats_pos hS hp hC hC'

theorem runs_writeLba (hg : fs.Geometry) {p : Nat × Nat} (hp : fs.HasSector p) {sector : Sector} (hC : C v)
    (hC' : C (v.setData p sector)) :
    fs.Runs C (writeBlock (fs.dataLba p) sector) v (.ok ()) (v.setData p sector) :=
  (within_writeLba (S := fun _ => True) hg.fats_pos trivial hp hC hC').runs

theorem runs_writeData (hg : fs.Geometry) {c s : Nat} (hp : fs.HasSector (c, s)) {sector : Sector} (hC : C v)
    (hC' : C (v.setData (c, s) sector)) :
    fs.Runs C (writeBlock (wrap32 (fs.clusterToLba c + s)) sector) v (.ok ()) (v.setData (c, s) sector) :=
  (within_writeData (S := fun _ => True) hg.noOverflow trivial hp hC hC').runs

/-! ## Writing a FAT entry -/

/-- The FAT sector after an entry is stored at byte `off`. -/
def putFat (off x : Nat) (sector : Sector) : Sector :=
  sector.put off (leBytes 4 ((x &&& 0x0FFFFFFF) ||| (leNat (sector.slice off 4) &&& 0xF0000000)))

theorem leNat_putFat {off : Nat} (h : off + 4 ≤ 512) (x : Nat) (sector : Sector) :
    leNat ((putFat off x sector).slice off 4) = 2 ^ 28 * (leNat (sector.slice off 4) / 2 ^ 28) + x % 2 ^ 28 := by
  have hold := leNat_lt (sector.slice off 4)
  have hs := Arr.slice_put_same sector off
    (leBytes 4 ((x &&& 0x0FFFFFFF) ||| (leNat (sector.slice off 4) &&& 0xF0000000))) (by simp; omega)
  rw [Arr.length_slice _ h] at hold
  rw [length_leBytes] at hs
  rw [putFat, hs, leNat_leBytes, newVal_eq hold, Nat.mod_eq_of_lt]
  omega

theorem slice_putFat {off off' : Nat} (h : off' + 4 ≤ 512) (hd : off' + 4 ≤ off ∨ off + 4 ≤ off') (x : Nat)
    (sector : Sector) : (putFat off x sector).slice off' 4 = sector.slice off' 4 :=
  Arr.slice_put_disjoint _ _ h (by simpa using hd)

/-- The card after the entry of `c` has been stored in the first `n` copies. -/
def setCopies (fs : Fat32) (d : Disk) (c x : Nat) : Nat → Disk
  | 0 => d
  | n + 1 => Function.update (setCopies fs d c x n) (fs.fatLba n c)
      (putFat (c % 128 * 4) x (setCopies fs d c x n (fs.fatLba n c)))

theorem setCopies_of_ne {d : Disk} {c x lba : Nat} : (n : Nat) → (∀ k < n, lba ≠ fs.fatLba k c) →
    fs.setCopies d c x n lba = d lba
  | 0, _ => rfl
  | n + 1, h => by
      rw [setCopies, Function.update_of_ne (h n (by omega))]
      exact setCopies_of_ne n fun k hk => h k (by omega)

theorem setCopies_of_lt {d : Disk} {c x k : Nat} (hc : c < fs.clusters) : (n : Nat) → k < n →
    fs.setCopies d c x n (fs.fatLba k c) = putFat (c % 128 * 4) x (d (fs.fatLba k c))
  | 0, h => by omega
  | n + 1, h => by
      by_cases hk : k = n
      · subst hk
        rw [setCopies, Function.update_self, setCopies_of_ne k fun j hj he => ?_]
        have := (fatLba_inj hc hc he).1
        omega
      · rw [setCopies, Function.update_of_ne fun he => hk (fatLba_inj hc hc he).1]
        exact setCopies_of_lt hc n (by omega)

theorem rawEntry_setCopies {d : Disk} {c x k c' n : Nat} (hc : c < fs.clusters) (hc' : c' < fs.clusters) :
    fs.rawEntry (fs.setCopies d c x n) k c' =
      if k < n ∧ c' = c then 2 ^ 28 * (fs.rawEntry d k c / 2 ^ 28) + x % 2 ^ 28 else fs.rawEntry d k c' := by
  by_cases hk : k < n ∧ c' / 128 = c / 128
  · have hl : fs.fatLba k c' = fs.fatLba k c := by simp only [fatLba, hk.2]
    rw [rawEntry, hl, setCopies_of_lt hc n hk.1]
    by_cases he : c' = c
    · subst he
      rw [if_pos ⟨hk.1, rfl⟩, leNat_putFat (by omega)]
      rfl
    · rw [if_neg fun h => he h.2, slice_putFat (by omega) (by omega), rawEntry, hl]
  · rw [if_neg fun h => hk ⟨h.1, by rw [h.2]⟩, rawEntry, setCopies_of_ne, rawEntry]
    intro j hj he
    obtain ⟨hkj, hs⟩ := fatLba_inj hc' hc he
    exact hk ⟨by omega, hs⟩

theorem volume_setCopies {d : Disk} {c x n : Nat} (hc : c < fs.clusters) (hn : n ≤ fs.numFats.toNat) :
    fs.volume (fs.setCopies d c x n) = if n = 0 then fs.volume d else (fs.volume d).setFat c (x % 2 ^ 28) := by
  cases n with
  | zero => rfl
  | succ n =>
      rw [if_neg (by omega)]
      ext1
      · funext c'
        simp only [volume, Volume.setFat]
        by_cases he : c' = c
        · subst he
          rw [Function.update_self, if_pos hc, rawEntry_setCopies hc hc, if_pos ⟨by omega, rfl⟩,
            Nat.mul_add_mod, Nat.mod_mod]
        · rw [Function.update_of_ne he]
          split
          · rw [rawEntry_setCopies hc ‹_›, if_neg fun h => he h.2]
          · rfl
      · funext p
        simp only [volume, Volume.setFat]
        split
        · refine setCopies_of_ne _ fun k hk he => ?_
          have h1 : fs.fatLba k c < fs.dataStart := fatLba_lt_dataStart (by omega) hc
          have h2 := fs.dataStart_le_dataLba p
          omega
        · rfl

theorem stores_setCopies (d : Disk) {c x : Nat} (hS : S c) (hc : c < fs.clusters) :
    fs.Stores S d (fs.setCopies d c x fs.numFats.toNat) := by
  refine ⟨fun c' hc' => ?_, fun lba hf _ => setCopies_of_ne _ fun k hk => hf k hk c hc⟩
  by_cases he : c' = c
  · subst he
    refine .inr ⟨hS, fun k hk => ?_⟩
    rw [rawEntry_setCopies hc hc, if_pos ⟨hk, rfl⟩, volume_setCopies hc (Nat.le_refl _),
      if_neg (Nat.ne_zero_of_lt hk)]
    simp [Volume.setFat]
  · refine .inl fun k _ => ?_
    rw [rawEntry_setCopies hc hc', if_neg fun h => he h.2]

theorem runs_setFatCopy (hg : fs.NoOverflow) (d : Disk) {c x k : Nat} (hk : k < fs.numFats.toNat)
    (hc : c < fs.clusters) {C : Disk → Prop} (hC : ∀ j ≤ fs.numFats.toNat, C (fs.setCopies d c x j)) :
    Prog.Runs id (fun _ _ => True) C (fs.setFatCopy c x (0 + k)) (fs.setCopies d c x k) (.ok ())
      (fs.setCopies d c x (k + 1)) := by
  rintro d' rfl
  have he := hg.fatSector_eq hk hc
  have hp : fs.setFatCopy c x (0 + k) = .read (fs.fatLba k c) fun sector =>
      .write (fs.fatLba k c) (putFat (c % 128 * 4) x sector) (.ret ()) := by
    simp only [setFatCopy, Nat.zero_add, he.1, he.2]
    rfl
  rw [hp]
  refine ⟨fun n => ?_, trivial, rfl, rfl⟩
  cases n with
  | zero => exact hC k (by omega)
  | succ n => cases n <;> exact hC (k + 1) (by omega)

instance : IsPreorder Disk (fun _ _ => True) where
  refl _ := trivial
  trans _ _ _ _ _ := trivial

theorem run_setFatEntry (hg : fs.NoOverflow) (d : Disk) {c : Nat} (hc : c < fs.clusters) (x : Nat) :
    (fs.setFatEntry c x).run d = (.ok (), fs.setCopies d c x fs.numFats.toNat) ∧
      ∀ n, ∃ j ≤ fs.numFats.toNat, (fs.setFatEntry c x).crash n d = fs.setCopies d c x j := by
  have hloop : Prog.Runs id (fun _ _ : Disk => True) (fun d' => ∃ j ≤ fs.numFats.toNat, d' = fs.setCopies d c x j)
      (fs.setFatEntry c x) (fs.setCopies d c x 0) (.ok ()) (fs.setCopies d c x fs.numFats.toNat) :=
    .forRange (s := fs.setCopies d c x) (fun j hj => ⟨j, hj, rfl⟩)
      fun k hk => runs_setFatCopy hg d hk hc fun j hj => ⟨j, hj, rfl⟩
  obtain ⟨hcut, _, hr, hd⟩ := hloop d rfl
  exact ⟨Prod.ext hr hd, hcut⟩

theorem within_setFatEntry (hg : fs.NoOverflow) {c x : Nat} (hS : S c) (hc : c < fs.clusters) (hC : C v)
    (hC' : C (v.setFat c (x % 2 ^ 28))) :
    fs.Within S C (fs.setFatEntry c x) v (.ok ()) (v.setFat c (x % 2 ^ 28)) := by
  intro d hd
  obtain ⟨hrun, hcut⟩ := run_setFatEntry hg d hc x
  rw [hrun]
  have hpos := hg.fats_pos
  refine ⟨fun n => ?_, stores_setCopies d hS hc, rfl, ?_⟩
  · obtain ⟨j, hj, he⟩ := hcut n
    rw [he, volume_setCopies hc hj, hd]
    split
    · exact hC
    · exact hC'
  · rw [volume_setCopies hc (Nat.le_refl _), if_neg (by omega), hd]

theorem runs_setFatEntry (hg : fs.Geometry) {c x : Nat} (hc : c < fs.clusters) (hC : C v)
    (hC' : C (v.setFat c (x % 2 ^ 28))) :
    fs.Runs C (fs.setFatEntry c x) v (.ok ()) (v.setFat c (x % 2 ^ 28)) :=
  (within_setFatEntry (S := fun _ => True) hg.noOverflow trivial hc hC hC').runs

end Fat32

end Ferro
