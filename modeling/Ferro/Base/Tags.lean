import Ferro.Base.Arr
import Mathlib.Algebra.Order.Ring.Nat

/-!
# Messages of tags

A message is a list of words: its size in bytes, a code, tags, and a zero. A tag is an id, the size of its values in bytes,
a code, and the values. The one who answers writes other values of the same size into the same places.
-/

namespace Ferro

namespace Tags

structure Tag where
  id : UInt32
  values : List UInt32
  deriving DecidableEq

def Tag.size (t : Tag) : UInt32 := UInt32.ofNat (4 * t.values.length)

def Tag.words (code : Tag → UInt32) (t : Tag) : List UInt32 := t.id :: t.size :: code t :: t.values

/-- The tags and the zero behind them. -/
def body (code : Tag → UInt32) (ts : List Tag) : List UInt32 := ts.flatMap (Tag.words code) ++ [0]

def message (header : UInt32) (code : Tag → UInt32) (ts : List Tag) : List UInt32 :=
  UInt32.ofNat (4 * ((body code ts).length + 2)) :: header :: body code ts

/-- Reads tags up to the zero; `n` bounds their number. -/
def parseTags : Nat → List UInt32 → Option (List Tag)
  | n + 1, id :: size :: _ :: rest =>
    if id = 0 then some []
    else if size.toNat / 4 ≤ rest.length then
      (parseTags n (rest.drop (size.toNat / 4))).map (⟨id, rest.take (size.toNat / 4)⟩ :: ·)
    else none
  | _ + 1, id :: _ => if id = 0 then some [] else none
  | _, _ => none

/-- A request has the code zero. -/
def parse : List UInt32 → Option (List Tag)
  | size :: code :: body =>
    if size.toNat = 4 * (body.length + 2) ∧ code = 0 then parseTags body.length body else none
  | _ => none

def success : UInt32 := 0x80000000

/-- Answers each tag of a request in its place. -/
def respond (answer : Tag → List UInt32) (ws : List UInt32) : List UInt32 :=
  match parse ws with
  | some ts => message success (fun t => success ||| t.size) (ts.map fun t => ⟨t.id, answer t⟩)
  | none => (ws.take 1) ++ 0x80000001 :: ws.drop 2

variable {code : Tag → UInt32} {ts : List Tag} {t : Tag} {n : Nat}

/-- A tag that can be sent. -/
structure Tag.Ok (t : Tag) : Prop where
  id : t.id ≠ 0
  values : 4 * t.values.length < 2 ^ 32

theorem Tag.Ok.size (h : t.Ok) : t.size.toNat / 4 = t.values.length := by
  rw [Tag.size, UInt32.toNat_ofNat_of_lt' h.values]
  omega

theorem parseTags_body (h : ∀ t ∈ ts, t.Ok) (hn : ts.length < n) : parseTags n (body code ts) = some ts := by
  induction ts generalizing n with
  | nil =>
      obtain ⟨n, rfl⟩ : ∃ k, n = k + 1 := ⟨n - 1, by simp at hn; omega⟩
      simp [body, parseTags]
  | cons t ts ih =>
      obtain ⟨n, rfl⟩ : ∃ k, n = k + 1 := ⟨n - 1, by simp at hn; omega⟩
      have ht := h t List.mem_cons_self
      have hrest := ih (n := n) (fun t ht => h t (List.mem_cons_of_mem _ ht)) (by simpa using hn)
      have hbody : body code (t :: ts) = t.id :: t.size :: code t :: (t.values ++ body code ts) := by
        simp [body, Tag.words]
      rw [hbody, parseTags, if_neg ht.id, ht.size, if_pos (by simp), List.drop_left, List.take_left, hrest,
        Option.map_some]

theorem length_body (code : Tag → UInt32) (ts : List Tag) :
    (body code ts).length = (ts.map fun t => t.values.length + 3).sum + 1 := by
  simp only [body, Tag.words, List.length_append, List.length_flatMap, List.length_cons, List.length_nil]

/-- Fewer tags than words. -/
theorem length_lt_body (code : Tag → UInt32) (ts : List Tag) : ts.length < (body code ts).length := by
  rw [length_body]
  induction ts with
  | nil => simp
  | cons t ts ih =>
      simp only [List.length_cons, List.map_cons, List.sum_cons]
      omega

/-- What was sent is read. -/
theorem parse_message (h : ∀ t ∈ ts, t.Ok) (hlen : 4 * ((body code ts).length + 2) < 2 ^ 32) :
    parse (message 0 code ts) = some ts := by
  rw [message, parse, UInt32.toNat_ofNat_of_lt' hlen, if_pos ⟨rfl, rfl⟩]
  exact parseTags_body h (length_lt_body code ts)

end Tags

end Ferro
