import Ferro.Fat32.Lemmas.Tree

/-!
# Fitting a chain to a file

`write_file` keeps the clusters `own` of the file it overwrites and gives them back, or takes free ones, until
there are as many as the data needs.
-/

namespace Ferro

namespace Fat32

variable {fs : Fat32} {C : Volume → Prop} {v w : Volume} {own : List Nat} {first needed : Nat}

/-- The clusters taken for a file that has `own` and shall have `needed`. -/
def spare (fs : Fat32) (v : Volume) (own : List Nat) (needed : Nat) : List Nat :=
  (fs.freeList v).take (needed - own.length)

def fitted (fs : Fat32) (v : Volume) (own : List Nat) (needed : Nat) : Volume :=
  if needed ≤ own.length then truncated v own needed
  else if own = [] then fs.allocated v (fs.spare v own needed)
  else fs.extended v own (fs.spare v own needed)

def fittedChain (fs : Fat32) (v : Volume) (own : List Nat) (needed : Nat) : List Nat :=
  own.take needed ++ fs.spare v own needed

/-- There are enough free clusters. -/
def Room (fs : Fat32) (v : Volume) (own : List Nat) (needed : Nat) : Prop :=
  needed ≤ own.length + (fs.freeList v).length

instance : Decidable (fs.Room v own needed) := inferInstanceAs (Decidable (_ ≤ _))

theorem Room.length_fittedChain (h : fs.Room v own needed) : (fs.fittedChain v own needed).length = needed := by
  simp only [Room] at h
  simp only [fittedChain, spare, List.length_append, List.length_take]
  omega

theorem mem_spare {c : Nat} (h : c ∈ fs.spare v own needed) : c ∈ fs.freeList v := List.mem_of_mem_take h

theorem mem_fittedChain {c : Nat} (h : c ∈ fs.fittedChain v own needed) : c ∈ own ∨ c ∈ fs.freeList v :=
  (List.mem_append.mp h).imp List.mem_of_mem_take mem_spare

theorem nodup_spare : (fs.spare v own needed).Nodup := (nodup_freeFrom 2).sublist (List.take_sublist _ _)

theorem headD_fittedChain (h : fs.ChainAt v first own) (h1 : 1 ≤ needed) :
    (fs.fittedChain v own needed).headD 0 = first := by
  obtain ⟨t, rfl⟩ := h.chain.eq_cons
  obtain ⟨k, rfl⟩ : ∃ k, needed = k + 1 := ⟨needed - 1, by omega⟩
  rfl

theorem fitted_of_le (h : needed ≤ own.length) : fs.fitted v own needed = truncated v own needed := if_pos h

theorem fitted_nil (h1 : 1 ≤ needed) : fs.fitted v [] needed = fs.allocated v ((fs.freeList v).take needed) := by
  rw [fitted, if_neg (by simp; omega), if_pos rfl, spare, List.length_nil, Nat.sub_zero]

theorem fitted_of_lt (h : own.length < needed) (hne : own ≠ []) :
    fs.fitted v own needed = fs.extended v own (fs.spare v own needed) := by
  rw [fitted, if_neg (by omega), if_neg hne]

theorem fittedChain_of_le (h : needed ≤ own.length) : fs.fittedChain v own needed = own.take needed := by
  rw [fittedChain, spare, Nat.sub_eq_zero_of_le h, List.take_zero, List.append_nil]

theorem agreeOff_truncated (h1 : 1 ≤ needed) (hle : needed ≤ own.length) :
    v.AgreeOff (· ∈ own) (truncated v own needed) := by
  refine (agreeOff_freeAll _ v fun c hc => List.mem_of_mem_drop hc).setFat ?_
  rw [List.getD_eq_getElem _ _ (by omega)]
  exact List.getElem_mem _

theorem agreeOff_extended {l extra : List Nat} (hne : l ≠ []) :
    v.AgreeOff (fun c => c ∈ l ∨ c ∈ extra) (fs.extended v l extra) := by
  refine ((agreeOff_allocated fs extra).mono fun c hc => Or.inr hc).setFat (Or.inl ?_)
  rw [List.getLastD_eq_getLast?, List.getLast?_eq_some_getLast hne, Option.getD_some]
  exact List.getLast_mem hne

/-- A chain that is not shortened is changed in its own clusters and those that it takes. -/
theorem agreeOff_spare (h1 : 1 ≤ needed) (hle : own.length ≤ needed) :
    v.AgreeOff (fun c => c ∈ own ∨ c ∈ fs.spare v own needed) (fs.fitted v own needed) := by
  by_cases hlen : needed ≤ own.length
  · rw [fitted_of_le hlen]
    exact (agreeOff_truncated h1 hlen).mono fun c hc => Or.inl hc
  · by_cases hne : own = []
    · subst hne
      rw [fitted, if_neg hlen, if_pos rfl]
      exact (agreeOff_allocated fs _).mono fun c hc => Or.inr hc
    · rw [fitted_of_lt (by omega) hne]
      exact agreeOff_extended hne

theorem agreeOff_fitted (h1 : 1 ≤ needed) :
    v.AgreeOff (fun c => c ∈ own ∨ c ∈ fs.freeList v) (fs.fitted v own needed) := by
  by_cases hle : needed ≤ own.length
  · rw [fitted_of_le hle]
    exact (agreeOff_truncated h1 hle).mono fun c hc => Or.inl hc
  · exact (agreeOff_spare h1 (Nat.le_of_not_le hle)).mono fun c hc => hc.imp_right mem_spare

/-- Fitting a chain writes no data but zeros to the clusters it takes. -/
theorem fitted_data {c : Nat} (hc : c ∉ fs.freeList v) (s : Nat) :
    (fs.fitted v own needed).data (c, s) = v.data (c, s) := by
  have hal : (fs.allocated v (fs.spare v own needed)).data (c, s) = v.data (c, s) :=
    (agreeOff_allocated fs (fs.spare v own needed) c fun h => hc (mem_spare h)).2 s
  unfold fitted
  split
  · simp only [truncated, Volume.setFat_data, freeAll_data]
  · split
    · exact hal
    · exact hal

/-! ### The links depend on the links only -/

theorem freeList_congr (h : w.fat = v.fat) : fs.freeList w = fs.freeList v :=
  freeFrom_congr fun _ _ => by rw [h]

theorem setFat_fat_congr (h : w.fat = v.fat) (c x : Nat) : (w.setFat c x).fat = (v.setFat c x).fat := by
  rw [Volume.setFat, Volume.setFat, h]

theorem freeAll_fat_congr (h : w.fat = v.fat) (l : List Nat) : (freeAll w l).fat = (freeAll v l).fat := by
  induction l generalizing v w with
  | nil => exact h
  | cons c cs ih => exact ih (setFat_fat_congr h c 0)

theorem mark_fat_congr (h : w.fat = v.fat) (c : Nat) : (fs.mark w c).fat = (fs.mark v c).fat :=
  setFat_fat_congr h c endOfChain

theorem linkAll_fat_congr (h : w.fat = v.fat) (a : Nat) (l : List Nat) :
    (fs.linkAll a l w).fat = (fs.linkAll a l v).fat := by
  induction l generalizing a v w with
  | nil => exact h
  | cons c cs ih => exact ih (setFat_fat_congr (mark_fat_congr h c) a _) c

theorem allocated_fat_congr (h : w.fat = v.fat) (l : List Nat) : (fs.allocated w l).fat = (fs.allocated v l).fat := by
  cases l with
  | nil => exact h
  | cons c cs => exact linkAll_fat_congr (mark_fat_congr h c) c cs

theorem fitted_fat_congr (h : w.fat = v.fat) : (fs.fitted w own needed).fat = (fs.fitted v own needed).fat := by
  have hspare : fs.spare w own needed = fs.spare v own needed := by rw [spare, freeList_congr h, spare]
  rw [fitted, hspare, fitted]
  split
  · exact setFat_fat_congr (freeAll_fat_congr h _) _ _
  · split
    · exact allocated_fat_congr h _
    · exact setFat_fat_congr (allocated_fat_congr h _) _ _

/-! ## The fitted chain -/

theorem chainAt_truncated (h : fs.ChainAt v first own) (h1 : 1 ≤ needed) (hle : needed ≤ own.length) :
    fs.ChainAt (truncated v own needed) first (own.take needed) := by
  obtain ⟨k, rfl⟩ : ∃ k, needed = k + 1 := ⟨needed - 1, by omega⟩
  have hk : k < own.length := by omega
  have hlast : own.getD (k + 1 - 1) 0 = own[k] := List.getD_eq_getElem _ _ hk
  have hn := h.chain.nodup
  refine ⟨h.chain.take hk (fun x hx => Volume.next_congr ?_) (Volume.next_eq_none ?_),
    fun c hc => h.inRange c (List.mem_of_mem_take hc)⟩
  · have hxk : x ≠ own[k] := by
      rintro rfl
      obtain ⟨i, hi, he⟩ := List.mem_take_iff_getElem.mp hx
      have := (List.Nodup.getElem_inj_iff hn).mp he
      omega
    have hxd : x ∉ own.drop (k + 1) := by
      intro hd
      have hdis := List.disjoint_take_drop hn (Nat.le_succ k)
      exact hdis hx hd
    rw [truncated, hlast, Volume.setFat_fat_of_ne _ hxk]
    exact (agreeOff_freeAll (S := (· ∈ own.drop (k + 1))) _ v (fun _ h => h) x hxd).1
  · rw [truncated, hlast, Volume.setFat_fat_self]

theorem chainAt_extended_of {l extra : List Nat} (hlink : ∀ c ∈ extra, c < endOfChain) (h : fs.ChainAt v first l)
    (hne : extra ≠ []) (hn : extra.Nodup) (hx : ∀ c ∈ extra, c ∈ fs.freeList v) :
    fs.ChainAt (fs.extended v l extra) first (l ++ extra) := by
  obtain ⟨e, es, rfl⟩ := List.exists_cons_of_ne_nil hne
  have hr : ∀ c ∈ e :: es, fs.InRange c := fun c hc => (mem_freeList.mp (hx c hc)).1
  have hnl : ∀ c ∈ l, c ∉ e :: es := fun c hc hce => h.fat_ne_zero hc (mem_freeList.mp (hx c hce)).2
  have hgl : l.getLastD 0 = l.getLast h.chain.ne_nil := by
    rw [List.getLastD_eq_getLast?, List.getLast?_eq_some_getLast h.chain.ne_nil, Option.getD_some]
  have hlm : l.getLast h.chain.ne_nil ∈ l := List.getLast_mem _
  have he : e < endOfChain := hlink e List.mem_cons_self
  have he28 : e % 2 ^ 28 = e := Nat.mod_eq_of_lt (by simp only [endOfChain] at he; omega)
  have halloc := chainAt_allocated_of (v := v) (fun c hc => hlink c (List.mem_cons_of_mem _ hc)) hn hr
  refine ⟨h.chain.append (fun x hxl => ?_) ?_ (halloc.chain.congr fun c hc => ?_), fun c hc => ?_⟩
  · -- the links inside the old chain are kept
    have hxm := (List.dropLast_sublist l).mem hxl
    have hxg : x ≠ l.getLast h.chain.ne_nil := by
      rintro rfl
      have hnd := h.chain.nodup
      rw [← List.dropLast_append_getLast h.chain.ne_nil] at hnd
      exact (List.nodup_append.mp hnd).2.2 _ hxl _ (by simp) rfl
    refine Volume.next_congr ?_
    rw [extended, hgl, Volume.setFat_fat_of_ne _ hxg]
    exact (agreeOff_allocated fs _ x (hnl x hxm)).1
  · refine Volume.next_eq_some.mpr ⟨?_, he⟩
    rw [extended, hgl, Volume.setFat_fat_self, List.headD_cons, he28]
  · refine Volume.next_congr ?_
    rw [extended, hgl, Volume.setFat_fat_of_ne]
    rintro rfl
    exact hnl _ hlm hc
  · rcases List.mem_append.mp hc with hc | hc
    · exact h.inRange c hc
    · exact hr c hc

theorem chainAt_extended (ha : fs.Addressable) {l extra : List Nat} (h : fs.ChainAt v first l) (hne : extra ≠ [])
    (hn : extra.Nodup) (hx : ∀ c ∈ extra, c ∈ fs.freeList v) :
    fs.ChainAt (fs.extended v l extra) first (l ++ extra) :=
  chainAt_extended_of (fun c hc => Nat.lt_of_lt_of_le (mem_freeList.mp (hx c hc)).1.2 ha) h hne hn hx

theorem chainAt_fitted (ha : fs.Addressable) (h : own = [] ∨ fs.ChainAt v first own) (h1 : 1 ≤ needed)
    (hroom : fs.Room v own needed) :
    fs.ChainAt (fs.fitted v own needed) ((fs.fittedChain v own needed).headD 0) (fs.fittedChain v own needed) := by
  have hne : needed - own.length ≠ 0 → fs.spare v own needed ≠ [] := by
    intro hlt he
    have := congrArg List.length he
    simp only [Room] at hroom
    simp only [spare, List.length_take, List.length_nil] at this
    omega
  rcases h with rfl | h
  · have hsp := hne (by simp only [List.length_nil]; omega)
    rw [fitted_nil h1]
    simp only [fittedChain, spare, List.take_nil, List.nil_append, List.length_nil, Nat.sub_zero] at hsp ⊢
    have hn : ((fs.freeList v).take needed).Nodup := (nodup_freeFrom 2).sublist (List.take_sublist needed _)
    have hr : ∀ c ∈ (fs.freeList v).take needed, fs.InRange c :=
      fun c hc => (mem_freeList.mp (List.mem_of_mem_take hc)).1
    obtain ⟨c, cs, hcs⟩ := List.exists_cons_of_ne_nil hsp
    rw [hcs] at hn hr ⊢
    exact chainAt_allocated ha hn hr
  · rw [headD_fittedChain h h1]
    by_cases hle : needed ≤ own.length
    · rw [fitted_of_le hle, fittedChain_of_le hle]
      exact chainAt_truncated h h1 hle
    · rw [fitted_of_lt (by omega) h.chain.ne_nil, fittedChain, List.take_of_length_le (by omega)]
      exact chainAt_extended ha h (hne (by omega)) nodup_spare fun c hc => mem_spare hc

/-! ## Running `fit_chain` -/

/-- The volumes a power loss while fitting a chain can leave. -/
inductive FitCut (fs : Fat32) (v : Volume) (own : List Nat) (needed : Nat) : Volume → Prop where
  | taking {w : Volume} (hlt : own.length < needed) (h : v.AgreeOff (· ∈ fs.freeList v) w) : FitCut fs v own needed w
  | freeing (hle : needed ≤ own.length) (j : Nat) : FitCut fs v own needed (freeAll v ((own.drop needed).take j))
  | done (hroom : fs.Room v own needed) : FitCut fs v own needed (fs.fitted v own needed)

theorem runs_fitChain (hg : fs.Geometry) {found : Option (Nat × Nat × Nat)} (h1 : 1 ≤ needed)
    (hn : needed < 2 ^ 32)
    (hown : (own = [] ∧ ∀ f ∈ found, f.2.2 = 0) ∨ ∃ f, found = some f ∧ fs.ChainAt v f.2.2 own)
    (hC : ∀ w, fs.FitCut v own needed w → C w) :
    fs.Runs C (fs.fitChain found needed) v
      (if fs.Room v own needed then .ok ((fs.fittedChain v own needed).headD 0) else .error (.err .noSpace))
      (if fs.Room v own needed then fs.fitted v own needed else fs.allocated v (fs.freeList v)) := by
  rcases hown with ⟨rfl, hfound⟩ | ⟨⟨lba, off, oldFirst⟩, rfl, hch⟩
  · have hal := runs_allocateChain (C := C) hg h1 fun w hw => hC w (.taking (by simp; omega) hw)
    have hprog : fs.fitChain found needed = fs.allocateChain needed := by
      cases found with
      | none => rfl
      | some f =>
          obtain ⟨lba, off, oldFirst⟩ := f
          have h0 : oldFirst = 0 := hfound _ rfl
          simp only [fitChain, h0]
          rfl
    have hhead : (fs.fittedChain v [] needed).headD 0 = (fs.freeList v).headD 0 := by
      obtain ⟨k, rfl⟩ : ∃ k, needed = k + 1 := ⟨needed - 1, by omega⟩
      simp only [fittedChain, spare, List.take_nil, List.nil_append, List.length_nil, Nat.sub_zero]
      cases fs.freeList v <;> rfl
    rw [hprog, hhead, fitted_nil h1]
    simp only [Room, List.length_nil, Nat.zero_add]
    by_cases hroom : needed ≤ (fs.freeList v).length
    · simpa only [hroom, if_true] using hal
    · simpa only [hroom, if_false, List.take_of_length_le (Nat.le_of_not_le hroom)] using hal
  · dsimp only at hch
    have hhead : (fs.fittedChain v own needed).headD 0 = oldFirst := headD_fittedChain hch h1
    have h2 : 2 ≤ oldFirst := (hch.inRange _ hch.chain.head_mem).1
    have hlen := length_le_loopLimit hg hch
    simp only [fitChain, h2, if_true, resizeChain, hhead]
    by_cases hle : needed ≤ own.length
    · have hroom : fs.Room v own needed := by simp only [Room]; omega
      have hsub : needed - 1 + 1 = needed := by omega
      have hr := runs_resizeLoop_shrink (C := C) hg oldFirst hn own oldFirst loopLimit 1 hch h1 (by omega)
        (Nat.le_of_lt hlen) (Nat.le_of_lt hlen)
        (fun j => by rw [hsub]; exact hC _ (.freeing hle j))
        (by have h := hC _ (.done hroom); rw [fitted_of_le hle] at h; rw [hsub]; exact h)
      rw [hsub] at hr
      simpa only [hroom, if_true, fitted_of_le hle] using hr
    · have hr := runs_resizeLoop_grow (C := C) hg oldFirst hn own oldFirst loopLimit 1
        (needed - own.length) hch (by omega) (by omega) (Nat.le_of_lt hlen)
        (fun w hw => hC w (.taking (by omega) hw))
        (fun hsp => by
          have hroom : fs.Room v own needed := by simp only [Room]; omega
          have := hC _ (.done hroom)
          rwa [fitted_of_lt (by omega) hch.chain.ne_nil] at this)
      have hiff : needed - own.length ≤ (fs.freeList v).length ↔ fs.Room v own needed := by
        simp only [Room]; omega
      simp only [hiff] at hr
      by_cases hroom : fs.Room v own needed
      · simpa only [hroom, if_true, fitted_of_lt (Nat.lt_of_not_le hle) hch.chain.ne_nil, spare] using hr
      · have hlt : (fs.freeList v).length ≤ needed - own.length := by simp only [Room] at hroom; omega
        simpa only [hroom, if_false, List.take_of_length_le hlt] using hr

end Fat32

end Ferro
