import Ferro.Fat32.Lemmas.Calls
import Ferro.Persist.Model
import Ferro.Variables.Lemmas.Load

/-!
# `save` and `load` on a working card
-/

namespace Ferro

namespace Persist

open Variables

variable {fs : Fat32} {d d' : Disk} {vars saved : Store} {buf : List UInt8}

/-- `FERRO.VAR` can be written. -/
structure Ready (fs : Fat32) (d : Disk) : Prop where
  wellFormed : fs.WellFormed (fs.volume d)
  notSubdir : fs.NotSubdir (fs.volume d) varFileName

theorem proper_varFileName : varFileName.Proper := by decide

theorem Ready.callable (hr : Ready fs d) (h : buf.length ≤ maxBytes) :
    fs.Callable (fs.volume d) varFileName buf :=
  ⟨proper_varFileName, hr.notSubdir, Nat.lt_of_le_of_lt h (by decide)⟩

/-- What a `save` returns and leaves. -/
inductive Saved (fs : Fat32) (vars : Store) (d d' : Disk) : Except PersistStop Nat → Prop where
  | ok {slot m} (hlen : (imageOf vars).length ≤ maxBytes) (hfits : fs.Fits (fs.volume d) varFileName (imageOf vars))
      (hw : fs.Wrote (fs.volume d) (fs.volume d') varFileName (imageOf vars) slot m) :
      Saved fs vars d d' (.ok (imageOf vars).length)
  | tooLarge (hlen : maxBytes < (imageOf vars).length) (hd : d' = d) : Saved fs vars d d' (.error (.err .tooLarge))
  | noSpace (hlen : (imageOf vars).length ≤ maxBytes) (hfits : ¬ fs.Fits (fs.volume d) varFileName (imageOf vars))
      (hpres : fs.Preserves (fs.volume d) (fs.volume d') fun _ => False) :
      Saved fs vars d d' (.error (.err (.fat32 .noSpace)))

theorem save_eq (hv : Valid vars) : save fs vars = if (imageOf vars).length ≤ maxBytes then do
    (fs.writeFile varFileName (imageOf vars)).mapError .ofStop
    return (imageOf vars).length else .fail (.err .tooLarge) := by
  unfold save
  rw [hv.serialize_eq]
  by_cases h : (imageOf vars).length ≤ maxBytes
  · rw [if_pos h, if_pos h]
  · rw [if_neg h, if_neg h]

theorem run_save (hr : Ready fs d) (ha : fs.Addressable) (hv : Valid vars) :
    ∃ r d', (save fs vars).run d = (r, d') ∧ fs.WellFormed (fs.volume d') ∧ Saved fs vars d d' r := by
  rw [save_eq hv]
  by_cases h : (imageOf vars).length ≤ maxBytes
  · obtain ⟨r, d', hrun, _, hwf', hres⟩ := Fat32.run_writeFile hr.wellFormed ha (hr.callable h)
    have hmap := Prog.run_mapError PersistStop.ofStop (fs.writeFile varFileName (imageOf vars)) d
    rw [hrun] at hmap
    rw [if_pos h]
    rcases hres with ⟨rfl, hfits, slot, m, hw⟩ | ⟨rfl, hfits, hpres⟩
    · exact ⟨_, d', Prog.run_bind_ok hmap, hwf', .ok h hfits hw⟩
    · exact ⟨_, d', Prog.run_bind_error hmap, hwf', .noSpace h hfits hpres⟩
  · rw [if_neg h]
    exact ⟨_, d, rfl, hr.wellFormed, .tooLarge (Nat.lt_of_not_le h) rfl⟩

/-! ## `load` -/

theorem load_of_read (vars : Store) (h : ((fs.readFile varFileName maxBytes).run d).1 = .ok buf) :
    ((load fs vars).run d).1 = match deserialize buf vars with
      | none => .error (.err .notOurData)
      | some r => .ok r := by
  have hmap := Prog.run_mapError PersistStop.ofStop (fs.readFile varFileName maxBytes) d
  rw [h] at hmap
  unfold load
  rw [Prog.run_bind_ok hmap]
  cases deserialize buf vars with
  | none => rfl
  | some r => rfl

theorem load_of_error (vars : Store) {e : Stop} (h : ((fs.readFile varFileName maxBytes).run d).1 = .error e) :
    ((load fs vars).run d).1 = .error (.ofStop e) := by
  have hmap := Prog.run_mapError PersistStop.ofStop (fs.readFile varFileName maxBytes) d
  rw [h] at hmap
  unfold load
  rw [Prog.run_bind_error hmap]

/-- The file holds a saved store. -/
def Reads (fs : Fat32) (d : Disk) (saved : Store) : Prop :=
  ((fs.readFile varFileName maxBytes).run d).1 = .ok (imageOf saved)

theorem Reads.load (h : Reads fs d saved) (hs : Valid saved) (hv : Valid vars)
    (hroom : ((toMap vars).keys ∪ (toMap saved).keys).ncard ≤ maxVariables) :
    ∃ vars', ((Persist.load fs vars).run d).1 = .ok (count saved, vars') ∧
      toMap vars' = (toMap vars).override (toMap saved) := by
  obtain ⟨vars', hdes, hmap⟩ := hs.deserialize_saved [] hv hroom
  rw [List.append_nil] at hdes
  refine ⟨vars', ?_, hmap⟩
  rw [load_of_read vars h, hdes]

theorem Saved.reads {n : Nat} (h : Saved fs vars d d' (.ok n)) (hwf : fs.WellFormed (fs.volume d')) :
    Reads fs d' vars := by
  cases h with
  | ok hlen _ hw => exact hw.read_eq hwf (Nat.lt_of_le_of_lt hlen (by decide)) hlen

theorem Saved.notSubdir {r : Except PersistStop Nat} {name : Name} (h : Saved fs vars d d' r)
    (hdir : fs.NotSubdir (fs.volume d) name) : fs.NotSubdir (fs.volume d') name := by
  cases h with
  | ok _ _ hw => exact hw.notSubdir hdir
  | tooLarge _ hd => rw [hd]; exact hdir
  | noSpace _ _ hpres => exact hpres.notSubdir hdir

end Persist

end Ferro
