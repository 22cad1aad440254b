import Ferro.Files.Lemmas.Runs

/-!
# Subdirectories

An orderly call leaves the subdirectories and everything in them alone, whichever blocks fail in it.
-/

namespace Ferro

namespace Files

variable {fs : Fat32} {s s' : Files} {m : Made} {log : List Made} {path : List Name} {loc : Loc}

/-- A subdirectory, or a file in one. -/
def Sheltered (fs : Fat32) (v : Volume) (path : List Name) (loc : Loc) : Prop :=
  fs.Node v path loc ∧ ((v.entry loc).isDir ∨ 2 ≤ path.length)

theorem Sheltered.of_survives {v w : Volume} (h : Sheltered fs v path loc) (hs : fs.Survives v w path loc) :
    Sheltered fs w path loc :=
  ⟨hs.node, by rw [hs.entry]; exact h.2⟩

theorem Orderly.survives (hs : Sound fs m.before) (ha : fs.Addressable) (ho : Orderly fs m)
    (hm : m.before.step m.faults m.call = some (m.reply, m.after))
    (h : Sheltered fs (fs.volume m.before.card) path loc) :
    fs.Survives (fs.volume m.before.card) (fs.volume m.after.card) path loc := by
  rw [after_card hm]
  cases hw : m.request with
  | none => exact .refl h.1
  | some w =>
      obtain ⟨rfl, hcall⟩ := ho.callable hs hw
      obtain ⟨T, hpres, hT⟩ := Fat32.runFaults_preserves hs.wellFormed ha hcall m.faults.stop w.start
      refine hpres.survives (hT path loc ?_ h.1) h.1
      rintro rfl
      rcases h.2 with hd | hlen
      · exact hcall.notSubdir loc h.1 hd
      · exact absurd hlen (by simp)

/-- In a run of orderly calls in which at most the last one meets failing blocks, all of it survives. -/
theorem Run.survives (ha : fs.Addressable) (h : Run s log s') (hs : Sound fs s) (ho : ∀ m ∈ log, Orderly fs m)
    (hq : ∀ m ∈ log.dropLast, ∀ w, m.request = some w → w.Quiet m.faults m.before.card)
    (hn : Sheltered fs (fs.volume s.card) path loc) :
    fs.Survives (fs.volume s.card) (fs.volume s'.card) path loc := by
  induction log generalizing s with
  | nil => cases h; exact .refl hn.1
  | cons m log ih =>
      obtain ⟨rfl, hm, hlog⟩ := h
      have hom := ho m List.mem_cons_self
      have hstep := hom.survives hs ha hm hn
      cases log with
      | nil => cases hlog; exact hstep
      | cons m' log =>
          have hsound := hom.sound hs ha hm (hq m (by simp))
          refine hstep.trans (ih hlog hsound (fun x hx => ho x (List.mem_cons_of_mem m hx)) (fun x hx => ?_)
            (hn.of_survives hstep))
          exact hq x (by rw [List.dropLast_cons_cons]; exact List.mem_cons_of_mem m hx)

end Files

end Ferro
