import Mathlib.Data.List.Basic
import Mathlib.Data.List.Forall2

/-!
# Handing out a list

A list is handed out item by item to a sequence of requests. A request can be refused, and then the same item is next
again.
-/

namespace Ferro

namespace Serve

variable {α α' β ρ : Type}

/-- The answers to the requests. `answer x b` is what the request `b` is answered when `x` is next, and whether `x` is
handed out with it; `done b` is the answer behind the last item. -/
def serve (answer : α → β → ρ × Bool) (done : β → ρ) : List α → List β → List ρ
  | _, [] => []
  | [], b :: bs => done b :: serve answer done [] bs
  | x :: xs, b :: bs => (answer x b).1 :: serve answer done (if (answer x b).2 then xs else x :: xs) bs

variable {answer : α → β → ρ × Bool} {answer' : α' → β → ρ × Bool} {done : β → ρ}

theorem serve_congr {xs : List α} {ys : List α'} (h : List.Forall₂ (fun x y => answer x = answer' y) xs ys)
    (bs : List β) : serve answer done xs bs = serve answer' done ys bs := by
  induction bs generalizing xs ys with
  | nil => rw [serve, serve]
  | cons b bs ih =>
      cases h with
      | nil => rw [serve, serve, ih .nil]
      | cons hx ht =>
          rw [serve, serve, hx]
          split
          · rw [ih ht]
          · rw [ih (.cons hx ht)]

/-- Two lists are handed out alike exactly when their items are, if some request is never refused. -/
theorem serve_eq_iff (big : β) (hbig : ∀ x, (answer x big).2 = true) (hbig' : ∀ y, (answer' y big).2 = true)
    (hdone : ∀ x, (answer x big).1 ≠ done big) (hdone' : ∀ y, (answer' y big).1 ≠ done big)
    (hinj : ∀ x y, (∀ b, (answer x b).1 = (answer' y b).1) → answer x = answer' y) {xs : List α} {ys : List α'} :
    (∀ bs, serve answer done xs bs = serve answer' done ys bs) ↔
      List.Forall₂ (fun x y => answer x = answer' y) xs ys := by
  refine ⟨fun h => ?_, fun h => serve_congr h⟩
  induction xs generalizing ys with
  | nil =>
      cases ys with
      | nil => exact .nil
      | cons y ys =>
          have hhead := h [big]
          rw [serve, serve] at hhead
          exact absurd (List.cons.inj hhead).1.symm (hdone' y)
  | cons x xs ih =>
      cases ys with
      | nil =>
          have hhead := h [big]
          rw [serve, serve] at hhead
          exact absurd (List.cons.inj hhead).1 (hdone x)
      | cons y ys =>
          refine .cons (hinj x y fun b => ?_) (ih fun bs => ?_)
          · have hhead := h [b]
            rw [serve, serve] at hhead
            exact (List.cons.inj hhead).1
          · have htail := h (big :: bs)
            rw [serve, serve, if_pos (hbig x), if_pos (hbig' y)] at htail
            exact (List.cons.inj htail).2

end Serve

end Ferro
