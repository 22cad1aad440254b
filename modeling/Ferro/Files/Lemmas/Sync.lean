import Ferro.Files.Lemmas.Runs

/-!
# Clean handles

A handle for writing is clean when it has nothing to save. Clean handles are in sync with their files as long as every
call is careful.
-/

namespace Ferro

namespace Files

variable {fs : Fat32} {s s' : Files} {faults : Faults} {c : Call} {r : Reply} {k : Fin maxOpenFiles} {m : Made}
  {w : Write} {log : List Made}

/-- How a handle for writing comes to be clean after a call. -/
inductive Clean (s : Files) (faults : Faults) (c : Call) (s' : Files) (k : Fin maxOpenFiles) : Prop where
  | kept (hu : (s.files.get k).inUse) (hw : (s.files.get k).forWrite) (hd : (s.files.get k).dirty = false)
      (hname : (s'.files.get k).name83 = (s.files.get k).name83)
      (hbytes : (s'.files.get k).bytes = (s.files.get k).bytes)
  | flushed (hc : c = .fileFlush k) (hu : (s.files.get k).inUse) (hw : (s.files.get k).forWrite)
      (hname : (s'.files.get k).name83 = (s.files.get k).name83)
      (hbytes : (s'.files.get k).bytes = (s.files.get k).bytes)
  | opened {this : Nat} {path : Ptr16} {mode : UInt64} {fs : Fat32} {p : List UInt8} {r : Reply}
      (hc : c = .fileOpen this true (some path) mode) (hroot : s.rootPath this path = some (fs, p))
      (hmode : mode &&& efiFileModeWrite ≠ 0) (ho : OpenedRoot s faults fs p mode r s')
      (hfree : (s.files.get k).inUse = false)

theorem step_clean (h : s.step faults c = some (r, s')) (hu : (s'.files.get k).inUse)
    (hw : (s'.files.get k).forWrite) (hd : (s'.files.get k).dirty = false) : Clean s faults c s' k := by
  have hsame : s'.files.get k = s.files.get k → Clean s faults c s' k := fun he => by
    rw [he] at hu hw hd
    exact .kept hu hw hd (by rw [he]) (by rw [he])
  have hm := (step_moved h).2
  generalize hcard : s'.card = card at hm
  cases hm with
  | same => exact hsame rfl
  | @edited slot f hk he =>
      by_cases hks : k = slot
      · subst hks
        rw [setFile_get_self] at hu hw hd
        obtain ⟨hu', hw', hname, hbytes, hflush⟩ := he.clean hu hw hd
        cases hd' : (s.files.get k).dirty with
        | false => exact .kept hu' hw' hd' (by rw [setFile_get_self, hname]) (by rw [setFile_get_self, hbytes])
        | true => exact .flushed (hflush hd') hu' hw' (by rw [setFile_get_self, hname]) (by rw [setFile_get_self, hbytes])
      · exact hsame (setFile_get_of_ne hks)
  | @taken slot f hfree hv hopen =>
      by_cases hks : k = slot
      · subst hks
        rw [setFile_get_self] at hw
        obtain ⟨this, path, mode, ⟨fs, p⟩, rfl, hmode, hroot⟩ := hopen hw
        have hroot' : s.rootPath this path = some (fs, p) := hroot
        rw [step, fileOpen_root hroot'] at h
        exact .opened rfl hroot' hmode (openedRoot h) hfree
      · exact hsame (setFile_get_of_ne hks)

/-! ## Careful calls -/

/-- Every clean handle for writing is in sync with its file. -/
def InSync (fs : Fat32) (s : Files) : Prop :=
  ∀ k, (s.files.get k).inUse → (s.files.get k).forWrite → (s.files.get k).dirty = false →
    fs.Contents s.card (s.files.get k).name83 (s.files.get k).bytes

/-- The `write_file` of the call meets no failing block, is not for a file that a clean handle for writing has open,
and finds room if it is a flush or a close; a file that is opened for writing has at most 65536 bytes. -/
structure Careful (fs : Fat32) (m : Made) : Prop where
  orderly : Orderly fs m
  quiet {w : Write} : m.request = some w → w.Quiet m.faults m.before.card
  fits {k : Fin maxOpenFiles} {w : Write} : WritesBack k m → m.request = some w →
    fs.Fits (fs.volume m.before.card) w.name w.data
  alone {k : Fin maxOpenFiles} {w : Write} : m.request = some w → (m.before.files.get k).inUse →
    (m.before.files.get k).forWrite → (m.before.files.get k).name83 = w.name → (m.before.files.get k).dirty
  short {this : Nat} {path : Ptr16} {mode : UInt64} {p : List UInt8} {name : Name} {c : List UInt8} :
    m.call = .fileOpen this true (some path) mode → mode &&& efiFileModeWrite ≠ 0 →
    m.before.rootPath this path = some (fs, p) → to83OrNone p = some name → fs.Contents m.before.card name c →
    c.length ≤ 65536

theorem Careful.of_none (h : m.request = none) (hdirect : ∀ name data, m.call ≠ .writeFile name data)
    (hshort : ∀ this path mode p name c, m.call = .fileOpen this true (some path) mode →
      m.before.rootPath this path = some (fs, p) → to83OrNone p = some name → fs.Contents m.before.card name c →
      c.length ≤ 65536) : Careful fs m where
  orderly := ⟨fun hw => (by rw [h] at hw; cases hw), fun he => absurd he (hdirect _ _)⟩
  quiet hw := by rw [h] at hw; cases hw
  fits _ hw := by rw [h] at hw; cases hw
  alone hw := by rw [h] at hw; cases hw
  short hc _ := hshort _ _ _ _ _ _ hc

section Careful

variable (hs : Sound fs m.before) (ha : fs.Addressable) (hcare : Careful fs m)
  (hm : m.before.step m.faults m.call = some (m.reply, m.after))

include hs in
theorem WritesBack.request_eq (hcall : WritesBack k m) (hu : (m.before.files.get k).inUse)
    (hw : (m.before.files.get k).forWrite) : m.request = if (m.before.files.get k).dirty then
      some ⟨fs, (m.before.files.get k).name83, (m.before.files.get k).bytes, 0⟩ else none := by
  have hflush := flushWrite_eq (thisToIndex_eq_some.mpr ⟨rfl, hu⟩)
  rw [hs.context, hw, Bool.true_and] at hflush
  rw [Made.request]
  rcases hcall with h | h <;> rw [h] <;> exact hflush

include hs ha hcare hm

theorem Careful.saves (hsync : InSync fs m.before) (hcall : WritesBack k m) (hu : (m.before.files.get k).inUse)
    (hw : (m.before.files.get k).forWrite) :
    fs.Contents m.after.card (m.before.files.get k).name83 (m.before.files.get k).bytes ∧
      ∀ r, m.result = some r → r = .ok () := by
  have hreq := hcall.request_eq hs hu hw
  cases hd : (m.before.files.get k).dirty with
  | false =>
      rw [hd, if_neg Bool.false_ne_true] at hreq
      rw [after_card hm, Made.result, hreq]
      exact ⟨hsync k hu hw hd, fun r h => by cases h⟩
  | true =>
      rw [hd, if_pos rfl] at hreq
      have hover := hcare.orderly.overwrites hs ha hm hreq (hcare.quiet hreq)
      have hok := hover.ok_iff.mpr (hcare.fits hcall hreq)
      refine ⟨hover.written hok, fun r h => ?_⟩
      rw [Made.result, hreq] at h
      cases h
      exact hok

/-- The contents of a file for which the call makes no `write_file`. -/
theorem Careful.contents {name : Name} {c : List UInt8} (hne : ∀ w, m.request = some w → name ≠ w.name)
    (hc : fs.Contents m.before.card name c) : fs.Contents m.after.card name c := by
  cases hw : m.request with
  | none => rw [after_card hm, hw]; exact hc
  | some w => exact (hcare.orderly.overwrites hs ha hm hw (hcare.quiet hw)).other (Or.inl (hne w hw)) hc

theorem Careful.inSync (hsync : InSync fs m.before) : InSync fs m.after := by
  intro k hu hw hd
  cases step_clean hm hu hw hd with
  | kept hu' hw' hd' hname hbytes =>
      rw [hname, hbytes]
      refine hcare.contents hs ha hm (fun w hreq he => ?_) (hsync k hu' hw' hd')
      have := hcare.alone hreq hu' hw' he
      rw [hd'] at this
      cases this
  | flushed hc hu' hw' hname hbytes =>
      rw [hname, hbytes]
      exact (hcare.saves hs ha hm hsync (Or.inl hc) hu' hw').1
  | @opened this path mode fs' p r hc hroot hmode ho hfree =>
      have hfs : fs' = fs := by
        obtain ⟨_, _, _, _, _, hctx, _⟩ := rootPath_eq_some.mp hroot
        exact Option.some.inj (hctx.symm.trans hs.context)
      subst hfs
      have hreq : m.request = m.before.createWrite m.faults fs' p mode := by
        simp only [Made.request, hc, request, hroot, Option.bind_eq_bind, Option.bind_some]
      generalize hafter : m.after = t at ho hu ⊢
      cases ho with
      | refused _ => exact absurd hu (by rw [hfree]; exact Bool.false_ne_true)
      | @found name buf i slot hname hread hno hfree' =>
          obtain rfl := eq_slot hfree hu
          obtain ⟨c, hcont, rfl⟩ := Fat32.exists_contents hs.wellFormed hread
          have hlen := hcare.short hc hmode hroot hname hcont
          have htake : c.take maxFileBytes = c := List.take_of_length_le hlen
          rw [setFile_get_self, htake, OpenFile.bytes_fresh hlen]
          exact hcont
      | @created name i slot hname hcreate hok hfree' =>
          obtain rfl := eq_slot hfree hu
          have hover := hcare.orderly.overwrites hs ha hm (hreq.trans hcreate) (hcare.quiet (hreq.trans hcreate))
          rw [setFile_get_self, OpenFile.bytes_fresh (Nat.zero_le _)]
          rw [hafter] at hover
          exact hover.written hok

end Careful

/-! ## Runs -/

/-- If the call writes back a handle for writing, success means that the file has what the handle held, and after a
`write_file` that fails the handle is still dirty. -/
def Truthful (fs : Fat32) (m : Made) : Prop :=
  ∀ k, WritesBack k m → (m.before.files.get k).inUse → (m.before.files.get k).forWrite →
    (m.reply = .just .success →
      fs.Contents m.after.card (m.before.files.get k).name83 (m.before.files.get k).bytes) ∧
    ∀ e, m.result = some (.error e) → (m.after.files.get k).dirty

theorem Run.truthful (ha : fs.Addressable) (h : Run s log s') (hs : Sound fs s) (hsync : InSync fs s)
    (hcare : ∀ m ∈ log, Careful fs m) : ∀ m ∈ log, Truthful fs m := by
  induction log generalizing s with
  | nil => intro m hm; cases hm
  | cons m log ih =>
      obtain ⟨rfl, hm, hlog⟩ := h
      have hcm := hcare m List.mem_cons_self
      have hrest := ih hlog (hcm.orderly.sound hs ha hm fun _ => hcm.quiet) (hcm.inSync hs ha hm hsync)
        fun x hx => hcare x (List.mem_cons_of_mem m hx)
      intro x hx
      rcases List.mem_cons.mp hx with rfl | hx
      · intro k hcall hu hw
        obtain ⟨hc, hok⟩ := hcm.saves hs ha hm hsync hcall hu hw
        exact ⟨fun _ => hc, fun e he => by cases hok _ he⟩
      · exact hrest x hx

end Files

end Ferro
