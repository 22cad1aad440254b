import Ferro.Fat32.Lemmas.Overwrite
import Ferro.Persist.Lemmas.Save

/-!
# Power loss during `save`
-/

namespace Ferro

namespace Persist

open Variables

variable {fs : Fat32} {d d' : Disk} {vars saved : Store}

/-- `FERRO.VAR` is as a completed `save` of the store leaves it. -/
def HoldsSave (fs : Fat32) (v : Volume) (saved : Store) : Prop :=
  ∃ slot own, fs.FileAt v varFileName (imageOf saved) slot own ∧
    own.length = fs.clustersNeeded (imageOf saved) ∧ (imageOf saved).length ≤ maxBytes

/-- What `load` into an empty store returns when `FERRO.VAR` holds `buf`. -/
def loaded (buf : List UInt8) : Except PersistStop (Nat × Store) :=
  match deserialize buf empty with
  | none => .error (.err .notOurData)
  | some r => .ok r

theorem loaded_of_read {buf : List UInt8} (h : ((fs.readFile varFileName maxBytes).run d).1 = .ok buf) :
    ((load fs empty).run d).1 = loaded buf := load_of_read empty h

theorem Saved.holdsSave {n : Nat} (h : Saved fs vars d d' (.ok n)) : HoldsSave fs (fs.volume d') vars := by
  cases h with
  | @ok slot m hlen _ hw =>
      refine ⟨slot, m, ⟨hw.node, hw.owns, ?_, hw.content⟩, hw.length, hlen⟩
      rw [hw.entry, newEntry.size_eq, Nat.mod_eq_of_lt (Nat.lt_of_le_of_lt hlen (by decide))]

theorem imageOf_ne_nil (vars : Store) : imageOf vars ≠ [] := by
  intro h
  have := length_image (Slots.entries Variable.entry vars)
  rw [← imageOf, h, List.length_nil] at this
  omega

/-- Loading a saved store, with anything behind it, into an empty one gives its variables. -/
theorem loaded_saved (hs : Valid saved) (post : List UInt8) :
    ∃ vars', loaded (imageOf saved ++ post) = .ok (count saved, vars') ∧ toMap vars' = toMap saved := by
  obtain ⟨vars', hdes, hmap⟩ := hs.deserialize_saved post valid_empty hs.room_empty
  refine ⟨vars', by rw [loaded, hdes], ?_⟩
  rw [hmap, toMap_empty]
  funext k
  simp [VarMap.override]

/-- Every cut of a `save` is the start or a cut of its `write_file`. -/
theorem save_crash_cases {C : Disk → Prop} (hv : Valid vars) (h0 : C d)
    (h : (imageOf vars).length ≤ maxBytes → ∀ n, C ((fs.writeFile varFileName (imageOf vars)).crash n d)) (n : Nat) :
    C ((save fs vars).crash n d) := by
  rw [save_eq hv]
  by_cases hlen : (imageOf vars).length ≤ maxBytes
  · rw [if_pos hlen]
    refine (Prog.crash_bind_iff _ _ d).mpr ⟨fun n => ?_, fun a d' hrun n => ?_⟩ n
    · rw [Prog.crash_mapError]; exact h hlen n
    · rw [Prog.run_mapError] at hrun
      obtain ⟨m, hm⟩ := Prog.exists_crash_eq_run (fs.writeFile varFileName (imageOf vars)) d
      rw [Prog.crash_pure, ← (Prod.mk.inj hrun).2, ← hm]
      exact h hlen m
  · rw [if_neg hlen, Prog.crash_fail]; exact h0

theorem passes_save {v x : Volume} (hv : Valid vars) (hlen : (imageOf vars).length ≤ maxBytes)
    (h : Prog.Passes fs.volume (fs.writeFile varFileName (imageOf vars)) v x) :
    Prog.Passes fs.volume (save fs vars) v x := by
  rw [save_eq hv, if_pos hlen]
  refine Prog.Passes.left fun d hd => ?_
  obtain ⟨n, hn⟩ := h d hd
  exact ⟨n, by rwa [Prog.crash_mapError]⟩

/-- What `load` returns after power was lost during a `save` that does not shorten the file's chain. -/
theorem HoldsSave.crash (h : HoldsSave fs (fs.volume d) saved) (hr : Ready fs d) (ha : fs.Addressable)
    (hv : Valid vars) (hns : fs.clustersNeeded (imageOf saved) ≤ fs.clustersNeeded (imageOf vars)) (n : Nat) :
    ((load fs empty).run ((save fs vars).crash n d)).1 = loaded (imageOf vars) ∨
      ∃ j, ((load fs empty).run ((save fs vars).crash n d)).1 =
        loaded ((Fat32.overlay (imageOf vars) j (imageOf saved)).take (imageOf saved).length) := by
  obtain ⟨slot, own, hf, hown, hlen⟩ := h
  refine save_crash_cases (C := fun d' => ((load fs empty).run d').1 = loaded (imageOf vars) ∨
    ∃ j, ((load fs empty).run d').1 =
      loaded ((Fat32.overlay (imageOf vars) j (imageOf saved)).take (imageOf saved).length)) hv ?_ ?_ n
  · refine Or.inr ⟨0, ?_⟩
    rw [Fat32.overlay, List.take_length]
    exact loaded_of_read (hf.read hr.wellFormed hlen)
  · intro hle n
    rcases hf.crash_read hr.wellFormed ha (imageOf_ne_nil saved) (hr.callable hle) (by omega) hlen hle n with h | ⟨j, h⟩
    · exact Or.inl (loaded_of_read h)
    · exact Or.inr ⟨j, loaded_of_read h⟩

end Persist

end Ferro
