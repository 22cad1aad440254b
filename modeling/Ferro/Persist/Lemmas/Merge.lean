import Ferro.Persist.Lemmas.Save

/-!
# `FERRO.VAR` and the store it is merged into
-/

namespace Ferro

namespace Persist

open Variables

variable {fs : Fat32} {d d' : Disk} {vars : Store} {r : Except PersistStop Nat} {key : Key}

/-- What `load` reads. -/
def varFile (fs : Fat32) (d : Disk) : Except Stop (List UInt8) := ((fs.readFile varFileName maxBytes).run d).1

/-- The buffer and the card have room for the saved form of a store. -/
def Savable (fs : Fat32) (d : Disk) (image : List UInt8) : Prop :=
  image.length ≤ maxBytes ∧ fs.Fits (fs.volume d) varFileName image

theorem savable_congr {image image' : List UInt8} (h : image.length = image'.length) :
    Savable fs d image ↔ Savable fs d image' := by
  rw [Savable, Savable, h, Fat32.fits_congr h]

theorem varFile_of_volume_eq (hr : Ready fs d) (h : fs.volume d' = fs.volume d) : varFile fs d' = varFile fs d := by
  have hwf' : fs.WellFormed (fs.volume d') := by rw [h]; exact hr.wellFormed
  have hpres : fs.Preserves (fs.volume d) (fs.volume d') fun _ => False := by rw [h]; exact .refl _ _
  exact hpres.read_eq hr.wellFormed hwf' (fun _ _ => id) fun _ _ => id

theorem Ready.of_volume_eq (hr : Ready fs d) (h : fs.volume d' = fs.volume d) : Ready fs d' := by
  constructor <;> rw [h]
  · exact hr.wellFormed
  · exact hr.notSubdir

/-- What a save that ends with `r` leaves in the file: its image if there is room for it, and else what was there. -/
inductive FileAfter (fs : Fat32) (d d' : Disk) (image : List UInt8) : Except PersistStop Nat → Prop where
  | written {n} (h : Savable fs d image) (hf : varFile fs d' = .ok image) : FileAfter fs d d' image (.ok n)
  | kept {e} (h : ¬ Savable fs d image) (hf : varFile fs d' = varFile fs d) : FileAfter fs d d' image (.error e)

theorem Saved.fileAfter (h : Saved fs vars d d' r) (hr : Ready fs d) (hr' : Ready fs d') :
    FileAfter fs d d' (imageOf vars) r := by
  cases h with
  | ok hlen hfits hw => exact .written ⟨hlen, hfits⟩ ((Saved.ok hlen hfits hw).reads hr'.wellFormed)
  | tooLarge hlen hd => exact .kept (fun hs => absurd hs.1 (Nat.not_le.mpr hlen)) (by rw [hd])
  | noSpace hlen hfits hpres =>
      exact .kept (fun hs => hfits hs.2)
        (hpres.read_eq hr.wellFormed hr'.wellFormed (fun _ _ => id) fun _ _ => id)

/-! ## Merging the file into the store -/

/-- The store after a `load` of the file. -/
def merged : Except Stop (List UInt8) → Store → Store
  | .error _, vars => vars
  | .ok buf, vars =>
    match deserialize buf vars with
    | none => vars
    | some r => r.2

/-- No record of the file has the key. -/
def Lacks (file : Except Stop (List UInt8)) (key : Key) : Prop :=
  ∀ buf, file = .ok buf → ∀ p ∈ records buf (leAt buf 4 4) 8, p.key ≠ key

theorem merged_cases (file : Except Stop (List UInt8)) (vars : Store) : merged file vars = vars ∨
    ∃ buf, file = .ok buf ∧ merged file vars = (setAll (records buf (leAt buf 4 4) 8) 0 vars).2 := by
  cases file with
  | error e => exact Or.inl rfl
  | ok buf =>
      cases h : deserialize buf vars with
      | none => exact Or.inl (by simp only [merged, h])
      | some r => exact Or.inr ⟨buf, rfl, by simp only [merged, h, ← deserialize_eq_some h]⟩

/-- `load` merges the file, or fails and leaves the store; the volume stays as it is. -/
theorem run_load (hr : Ready fs d) (vars : Store) : ∃ r d', (load fs vars).run d = (r, d') ∧
    fs.volume d' = fs.volume d ∧ ((∃ n, r = .ok (n, merged (varFile fs d) vars)) ∨
      (∃ e, r = .error (.err e)) ∧ merged (varFile fs d) vars = vars) := by
  obtain ⟨hv, hread⟩ := Fat32.run_readFile varFileName maxBytes hr.wellFormed
  have hmap := Prog.run_mapError PersistStop.ofStop (fs.readFile varFileName maxBytes) d
  unfold load varFile
  rcases hread with ⟨buf, hbuf⟩ | herr
  · rw [hbuf] at hmap ⊢
    rw [Prog.run_bind_ok hmap]
    cases hdes : deserialize buf vars with
    | none => exact ⟨_, _, rfl, hv, Or.inr ⟨⟨_, rfl⟩, by simp only [merged, hdes]⟩⟩
    | some r => exact ⟨_, _, rfl, hv, Or.inl ⟨r.1, by simp only [merged, hdes]⟩⟩
  · rw [herr] at hmap ⊢
    rw [Prog.run_bind_error hmap]
    exact ⟨_, _, rfl, hv, Or.inr ⟨⟨_, rfl⟩, rfl⟩⟩

theorem reachable_merged (file : Except Stop (List UInt8)) (h : Reachable vars) : Reachable (merged file vars) := by
  rcases merged_cases file vars with he | ⟨buf, _, he⟩
  · rw [he]; exact h
  · rw [he]; exact h.setAll _ 0

theorem Lacks.merged {file : Except Stop (List UInt8)} (h : Lacks file key) (hv : Valid vars) :
    toMap (merged file vars) key = toMap vars key := by
  rcases merged_cases file vars with he | ⟨buf, hfile, he⟩
  · rw [he]
  · rw [he]; exact hv.setAll_of_not_mem _ 0 (h buf hfile)

theorem merged_image (hv : Valid vars) : toMap (merged (.ok (imageOf vars)) empty) = toMap vars := by
  obtain ⟨vars', hdes, hmap⟩ := hv.deserialize_saved [] valid_empty hv.room_empty
  rw [List.append_nil] at hdes
  simp only [merged, hdes, hmap, toMap_empty]
  funext k
  simp [VarMap.override]

theorem lacks_image (hv : Valid vars) (hnone : toMap vars key = none) : Lacks (.ok (imageOf vars)) key := by
  rintro buf he p hp rfl
  cases he
  have hsome := hv.key_of_record hp
  rw [hnone] at hsome
  cases hsome

end Persist

end Ferro
