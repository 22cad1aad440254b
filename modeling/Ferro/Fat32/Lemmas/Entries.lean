import Ferro.Fat32.Volume

/-!
# The entries of a directory, one after the other

What the loops of `list_dir` and `find_in_dir` over the entries of a sector compute, as functions of a list of entries
that can be put together from those of its parts.
-/

namespace Ferro

theorem take_append_take {α : Type} (l l' : List α) (n : Nat) : (l ++ l').take n = (l.take n ++ l').take n := by
  rw [List.take_append, List.take_append, List.take_take, Nat.min_self, List.length_take]
  congr 2
  omega

namespace DirEntry

variable {es es' : List DirEntry} {entry : DirEntry}

/-- The live entries before the end of the directory. -/
def live (es : List DirEntry) : List DirEntry := (es.takeWhile fun entry => !entry.isEnd).filter (·.isLive)

/-- Whether one of the entries ends the directory. -/
def ended (es : List DirEntry) : Bool := es.any (·.isEnd)

theorem live_cons : live (entry :: es) =
    if entry.isEnd then [] else if entry.isLive then entry :: live es else live es := by
  simp only [live, List.takeWhile_cons]
  cases entry.isEnd
  · simp only [Bool.not_false, if_true, List.filter_cons]
    rfl
  · simp

theorem live_append : live (es ++ es') = if ended es then live es else live es ++ live es' := by
  induction es with
  | nil => rfl
  | cons entry es ih =>
      rw [List.cons_append, live_cons, live_cons, ended, List.any_cons, ih]
      cases entry.isEnd
      · cases entry.isLive
        · rfl
        · simp only [Bool.false_or, Bool.false_eq_true, if_false, if_true]
          rw [← ended]
          split <;> rfl
      · rfl

theorem ended_append : ended (es ++ es') = (ended es || ended es') := List.any_append

theorem isLive_eq (h : entry.nth 0 ≠ 0x00) : entry.isLive = !(entry.nth 0 = 0xE5 || entry.skipped) := by
  simp only [isLive, isFree, h, decide_false, Bool.false_or, Bool.not_or]

/-! ## Listing -/

/-- The names and sizes of the live entries. -/
def listing (es : List DirEntry) : List (Name × Nat) := (live es).map fun entry => (entry.name, entry.size)

/-- What is listed behind `out`, and whether the directory ends. -/
def listAll (cap : Nat) (es : List DirEntry) (out : List (Name × Nat)) : List (Name × Nat) × Bool :=
  ((out ++ listing es).take cap, ended es)

variable {cap : Nat} {out : List (Name × Nat)}

theorem listAll_nil (h : out.length ≤ cap) : listAll cap [] out = (out, false) := by
  rw [listAll, listing, live, List.takeWhile_nil, List.filter_nil, List.map_nil, List.append_nil,
    List.take_of_length_le h]
  rfl

theorem length_listAll_le : (listAll cap es out).1.length ≤ cap := by
  rw [listAll, List.length_take]
  exact Nat.min_le_left _ _

theorem listAll_append : listAll cap (es ++ es') out =
    if (listAll cap es out).2 then ((listAll cap es out).1, true) else listAll cap es' (listAll cap es out).1 := by
  simp only [listAll, listing, live_append, ended_append]
  by_cases hend : ended es = true
  · simp only [hend, Bool.true_or, if_true]
  · simp only [Bool.eq_false_iff.mpr hend, Bool.false_or, Bool.false_eq_true, if_false, List.map_append]
    rw [← List.append_assoc, take_append_take]

theorem listEntries_eq (sector : Sector) (is : List Nat) (h : out.length ≤ cap) :
    Fat32.listEntries cap sector is out = listAll cap (is.map sector.entry) out := by
  induction is generalizing out with
  | nil => rw [Fat32.listEntries, List.map_nil, listAll_nil h]
  | cons i is ih =>
      have hrest := ih h
      rw [Fat32.listEntries, List.map_cons, listAll, listing, live_cons, ended, List.any_cons]
      by_cases h0 : (sector.entry i).nth 0 = 0x00
      · have hend : (sector.entry i).isEnd = true := decide_eq_true h0
        rw [if_pos h0, hend, if_pos rfl, List.map_nil, List.append_nil, List.take_of_length_le h]
        rfl
      · have hend : (sector.entry i).isEnd = false := decide_eq_false h0
        rw [if_neg h0, hend, if_neg Bool.false_ne_true, Bool.false_or, ← ended, isLive_eq h0]
        cases (sector.entry i).nth 0 = 0xE5 || (sector.entry i).skipped with
        | true => exact hrest
        | false =>
            rw [if_neg Bool.false_ne_true, Bool.not_false, if_pos rfl, List.map_cons]
            by_cases hcap : out.length < cap
            · have hnext := @ih (out ++ [((sector.entry i).name, (sector.entry i).size)])
                (by rw [List.length_append]; exact hcap)
              rw [if_pos hcap, hnext, listAll, List.append_assoc]
              rfl
            · rw [if_neg hcap, hrest, listAll, List.take_append_of_le_length (by omega),
                List.take_append_of_le_length (by omega)]

/-! ## Looking up a name -/

/-- The first live entry with the name; `some none` if the directory ends without one. -/
def find (name : Name) (es : List DirEntry) : Option (Option DirEntry) :=
  match (live es).find? (·.name = name) with
  | some entry => some (some entry)
  | none => if ended es then some none else none

variable {name : Name}

theorem find_append : find name (es ++ es') = (find name es).or (find name es') := by
  simp only [find, live_append, ended_append]
  cases ended es with
  | true =>
      simp only [if_true, Bool.true_or]
      cases (live es).find? (·.name = name) <;> rfl
  | false =>
      simp only [Bool.false_eq_true, if_false, Bool.false_or, List.find?_append]
      cases (live es).find? (·.name = name) <;> rfl

theorem findEntry_eq (sector : Sector) (is : List Nat) :
    Fat32.findEntry name sector is = find name (is.map sector.entry) := by
  induction is with
  | nil => rfl
  | cons i is ih =>
      rw [Fat32.findEntry, List.map_cons, find, live_cons, ended, List.any_cons]
      by_cases h0 : (sector.entry i).nth 0 = 0x00
      · have hend : (sector.entry i).isEnd = true := decide_eq_true h0
        rw [if_pos h0, hend]
        rfl
      · have hend : (sector.entry i).isEnd = false := decide_eq_false h0
        rw [if_neg h0, hend, if_neg Bool.false_ne_true, Bool.false_or, ← ended, isLive_eq h0]
        cases (sector.entry i).nth 0 = 0xE5 || (sector.entry i).skipped with
        | true => exact ih
        | false =>
            rw [if_neg Bool.false_ne_true, Bool.not_false, if_pos rfl, List.find?_cons]
            by_cases hn : (sector.entry i).name = name
            · rw [if_pos hn, decide_eq_true hn]
            · rw [if_neg hn, decide_eq_false hn]
              exact ih

end DirEntry

end Ferro
