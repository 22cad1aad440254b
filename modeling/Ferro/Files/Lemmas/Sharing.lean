import Ferro.Files.Lemmas.Opening

/-!
# Two handles on one file

Each handle is used until it is closed, and writes back its own byte file.
-/

namespace Ferro

namespace Files

variable {fs : Fat32} {s s' : Files} {m : Made} {pre post log : List Made} {name : Name} {c : List UInt8}
  {k : Fin maxOpenFiles} {b : ByteFile}

/-- The calls made on the handle are those of a byte file, and then a close. -/
def UntilClose (this : Nat) : List Call → Prop
  | [] => False
  | c :: calls =>
    if c.this = some this then
      (c.plain ∧ UntilClose this calls) ∨ (c = .fileClose this ∧ ∀ c' ∈ calls, c'.this ≠ some this)
    else
      UntilClose this calls

theorem UntilClose.split {this : Nat} {calls calls' : List Call} {c : Call} (h : UntilClose this (calls ++ c :: calls'))
    (hc : c.this = some this) :
    (∀ x ∈ calls, x.this = some this → x.plain) ∧ (c.plain ∨ c = .fileClose this) := by
  induction calls with
  | nil =>
      rw [List.nil_append, UntilClose, if_pos hc] at h
      exact ⟨fun x hx => (by cases hx), h.imp And.left And.left⟩
  | cons x calls ih =>
      rw [List.cons_append, UntilClose] at h
      split at h
      · rcases h with ⟨hplain, h⟩ | ⟨_, hlast⟩
        · obtain ⟨hpre, hc'⟩ := ih h
          refine ⟨fun y hy hthis => ?_, hc'⟩
          rcases List.mem_cons.mp hy with rfl | hy
          · exact hplain
          · exact hpre y hy hthis
        · exact absurd hc (hlast c (List.mem_append_right _ List.mem_cons_self))
      · rename_i hne
        obtain ⟨hpre, hc'⟩ := ih h
        refine ⟨fun y hy hthis => ?_, hc'⟩
        rcases List.mem_cons.mp hy with rfl | hy
        · exact absurd hthis hne
        · exact hpre y hy hthis

/-- A flush or close of the handle writes back, if the handle is dirty, the byte file that the calls before it have made
of `b`. -/
def WritesOwn (fs : Fat32) (name : Name) (k : Fin maxOpenFiles) (b : ByteFile) (pre : List Made) (m : Made) : Prop :=
  WritesBack k m → ∃ b', Refines k b pre b' ∧
    m.request = if (m.before.files.get k).dirty then some ⟨fs, name, b'.bytes, 0⟩ else none

section

variable (hs : Sound fs s) (hh : s.Handle k name b) (hrun : Run s (pre ++ m :: post) s')
  (huse : UntilClose k ((pre ++ m :: post).map Made.call))

include hs hh hrun huse

/-- A call on the handle finds what the calls before it have made of `b`. -/
theorem UntilClose.handle (hk : m.call.this = some k.val) :
    ∃ b', Refines k b pre b' ∧ m.before.Handle k name b' ∧ m.before.context = some fs ∧
      (m.call.plain ∨ m.call = .fileClose k) := by
  obtain ⟨t, hpre, rfl, _, _⟩ := Run.append.mp hrun
  rw [List.map_append, List.map_cons] at huse
  obtain ⟨hplain, hcall⟩ := huse.split hk
  obtain ⟨b', href, hh'⟩ := hpre.refines hs.valid hh fun x hx => hplain x.call (List.mem_map_of_mem hx)
  exact ⟨b', href, hh', hpre.context.trans hs.context, hcall⟩

theorem UntilClose.polite (hk : m.call.this = some k.val) : Polite fs name m := by
  obtain ⟨b', _, hh', hctx, hplain | hclose⟩ := UntilClose.handle hs hh hrun huse hk
  · exact polite_plain hctx hh' hk hplain
  · exact WritesBack.polite hctx hh' (Or.inr hclose)

theorem UntilClose.writesOwn : WritesOwn fs name k b pre m := by
  intro hback
  obtain ⟨b', href, hh', hctx, _⟩ := UntilClose.handle hs hh hrun huse hback.this
  exact ⟨b', href, hback.request hctx hh'⟩

/-- Of the calls on the handle only a flush or a close saves anything. -/
theorem UntilClose.writesBack (hk : m.call.this = some k.val) (hsave : (m.saved name).isSome) : WritesBack k m := by
  obtain ⟨_, _, _, _, hplain | hclose⟩ := UntilClose.handle hs hh hrun huse hk
  · refine Or.inl ?_
    cases hw : m.request with
    | none => rw [Made.saved, hw] at hsave; cases hsave
    | some w => exact plain_request hk hplain hw
  · exact Or.inr hclose

end

theorem Handle.ne_parent (hh : s.Handle k name b) {this : Nat} {path : Ptr16} {x : Fat32 × List UInt8}
    (hroot : s.rootPath this path = some x) : this ≠ k.val := by
  obtain ⟨fs, p⟩ := x
  rintro rfl
  obtain ⟨j, dir, _, hj, hdir, _⟩ := rootPath_eq_some.mp hroot
  rw [hh.index] at hj
  cases hj
  rw [hh.file] at hdir
  cases hdir

end Files

end Ferro
