import Flashdeck.Board.Basic

/-!
# Runs of drags

A board under a run of requests is many cards, each under its own requests. A drag touches one card
and nothing else of it than its place, and a drag of no card touches nothing, so that a run can be
taken apart by positions: what a card has become is told by the requests for it alone, in their
order. Sums of distances are never rearranged here; floating-point addition does not allow it.

* `get?_drag`: one drag, seen from any position.
* `get?_dragAll`: a run of drags, seen from any position.
* `dragAll_eq_of_addressed_eq`: requests for different cards can be interleaved in any way.
* `dragAll_run`: a run as a whole, its replies and the board behind it.
-/

namespace Flashdeck

/-- The requests for the card at a position, in the order in which they come. -/
def Drag.addressed (position : Nat) (requests : List Drag) : List Drag :=
  requests.filter fun request => request.position = position

/-- The card moved by one request after the other. -/
def PlacedCard.moveAll (placed : PlacedCard) (requests : List Drag) : PlacedCard :=
  requests.foldl (fun placed request => placed.move request.dx request.dy) placed

open Drag (addressed)

theorem Drag.addressed_cons_self (request : Drag) (requests : List Drag) :
    addressed request.position (request :: requests) =
      request :: addressed request.position requests :=
  List.filter_cons_of_pos (by simp)

theorem Drag.addressed_cons_of_ne {position : Nat} {request : Drag}
    (other : request.position ≠ position) (requests : List Drag) :
    addressed position (request :: requests) = addressed position requests :=
  List.filter_cons_of_neg (by simpa using other)

/-- The distances add up on each axis from the left, and all else of the card stays. -/
theorem PlacedCard.moveAll_eq (placed : PlacedCard) (requests : List Drag) :
    placed.moveAll requests = { placed with
      x := (requests.map Drag.dx).foldl (· + ·) placed.x
      y := (requests.map Drag.dy).foldl (· + ·) placed.y } := by
  induction requests generalizing placed with
  | nil => rfl
  | cons request requests ih => exact ih (placed.move request.dx request.dy)

namespace Board

/-- Boards are the same if they have the same card at each position. -/
theorem eq_of_get?_eq {board board' : Board}
    (same : ∀ position, board.get? position = board'.get? position) : board = board' := by
  cases board
  cases board'
  exact congrArg Board.mk (List.ext_getElem? same)

theorem get?_eq_none_iff {board : Board} {position : Nat} :
    board.get? position = none ↔ board.size ≤ position :=
  List.getElem?_eq_none_iff

theorem exists_get?_eq_some {board : Board} {position : Nat} (inside : position < board.size) :
    ∃ placed, board.get? position = some placed :=
  ⟨board.cards[position], List.getElem?_eq_getElem inside⟩

/-! ## One drag -/

/-- A drag of a card that is not there says so, and the board stays as it was. -/
theorem drag_of_size_le {board : Board} {request : Drag} (outside : board.size ≤ request.position) :
    board.drag request = (.error (.noSuchCard request.position board.size), board) := by
  rw [drag, get?_eq_none_iff.2 outside]

theorem drag_of_get?_eq_some {board : Board} {request : Drag} {placed : PlacedCard}
    (here : board.get? request.position = some placed) :
    board.drag request = (.ok (placed.move request.dx request.dy).place,
      ⟨board.cards.set request.position (placed.move request.dx request.dy)⟩) := by
  rw [drag, here]

theorem size_drag (board : Board) (request : Drag) :
    (board.drag request).2.size = board.size := by
  rcases Nat.lt_or_ge request.position board.size with inside | outside
  · obtain ⟨placed, here⟩ := exists_get?_eq_some inside
    rw [drag_of_get?_eq_some here]
    exact List.length_set
  · rw [drag_of_size_le outside]

/-- A drag moves the card it is for, and no other. -/
theorem get?_drag (board : Board) (request : Drag) (position : Nat) :
    (board.drag request).2.get? position =
      (board.get? position).map fun placed => placed.moveAll (addressed position [request]) := by
  rcases Nat.lt_or_ge request.position board.size with inside | outside
  · obtain ⟨placed, here⟩ := exists_get?_eq_some inside
    rw [drag_of_get?_eq_some here]
    by_cases own : request.position = position
    · subst own
      rw [Drag.addressed_cons_self, here]
      exact List.getElem?_set_self inside
    · rw [Drag.addressed_cons_of_ne own]
      exact (List.getElem?_set_ne own).trans Option.map_id'.symm
  · rw [drag_of_size_le outside]
    by_cases own : request.position = position
    · subst own
      rw [get?_eq_none_iff.2 outside]
      rfl
    · rw [Drag.addressed_cons_of_ne own]
      exact Option.map_id'.symm

/-- The reply to a drag is read off the board behind it. -/
theorem drag_reply {board : Board} {request : Drag} (inside : request.position < board.size) :
    ∃ placed, (board.drag request).2.get? request.position = some placed ∧
      (board.drag request).1 = .ok placed.place := by
  obtain ⟨placed, here⟩ := exists_get?_eq_some inside
  refine ⟨placed.move request.dx request.dy, ?_, ?_⟩
  · rw [get?_drag, here, Drag.addressed_cons_self]
    rfl
  · rw [drag_of_get?_eq_some here]

/-! ## Runs -/

theorem dragAll_cons (board : Board) (request : Drag) (requests : List Drag) :
    board.dragAll (request :: requests) =
      ((board.drag request).1 :: ((board.drag request).2.dragAll requests).1,
        ((board.drag request).2.dragAll requests).2) := rfl

/-- A run goes on from the board behind its first part. -/
theorem dragAll_append (board : Board) (before after : List Drag) :
    board.dragAll (before ++ after) =
      ((board.dragAll before).1 ++ ((board.dragAll before).2.dragAll after).1,
        ((board.dragAll before).2.dragAll after).2) := by
  induction before generalizing board with
  | nil => rfl
  | cons request before ih =>
    rw [List.cons_append, dragAll_cons, dragAll_cons, ih]
    rfl

theorem size_dragAll (board : Board) (requests : List Drag) :
    (board.dragAll requests).2.size = board.size := by
  induction requests generalizing board with
  | nil => rfl
  | cons request requests ih => rw [dragAll_cons, ih, size_drag]

theorem length_dragAll (board : Board) (requests : List Drag) :
    (board.dragAll requests).1.length = requests.length := by
  induction requests generalizing board with
  | nil => rfl
  | cons request requests ih => rw [dragAll_cons, List.length_cons, ih, List.length_cons]

/-- A run moves each card by the requests for it, one after the other. -/
theorem get?_dragAll (board : Board) (requests : List Drag) (position : Nat) :
    (board.dragAll requests).2.get? position =
      (board.get? position).map fun placed => placed.moveAll (addressed position requests) := by
  induction requests generalizing board with
  | nil => exact Option.map_id'.symm
  | cons request requests ih =>
    rw [dragAll_cons, ih, get?_drag, Option.map_map]
    by_cases own : request.position = position
    · subst own
      rw [Drag.addressed_cons_self, Drag.addressed_cons_self]
      rfl
    · rw [Drag.addressed_cons_of_ne own, Drag.addressed_cons_of_ne own]
      rfl

/-- The board behind a run hangs on the requests for each of its cards, not on how they are
interleaved, and not on the requests for cards it does not have. -/
theorem dragAll_eq_of_addressed_eq {board : Board} {requests requests' : List Drag}
    (same : ∀ position < board.size, addressed position requests' = addressed position requests) :
    (board.dragAll requests').2 = (board.dragAll requests).2 := by
  apply eq_of_get?_eq
  intro position
  rw [get?_dragAll, get?_dragAll]
  rcases Nat.lt_or_ge position board.size with inside | outside
  · rw [same position inside]
  · rw [get?_eq_none_iff.2 outside]
    rfl

/-- The reply to a request in the middle of a run is the reply of the board behind the requests
before it. -/
theorem getElem?_dragAll (board : Board) (before after : List Drag) (request : Drag) :
    (board.dragAll (before ++ request :: after)).1[before.length]? =
      some ((board.dragAll before).2.drag request).1 := by
  rw [dragAll_append, dragAll_cons, ← length_dragAll board before,
    List.getElem?_append_right (Nat.le_refl _), Nat.sub_self, List.getElem?_cons_zero]

theorem dragAll_concat (board : Board) (before : List Drag) (request : Drag) :
    (board.dragAll (before ++ [request])).2 = ((board.dragAll before).2.drag request).2 := by
  rw [dragAll_append, dragAll_cons]
  rfl

/-- **A run of drags.** The board keeps its size, and each of its cards keeps all but its place,
which has moved by the distances of the requests for that card, added up in their order. Each
request is answered, by the place of its card right after it, or by the fault that there is no such
card, and then nothing has changed. Whatever other run has the same requests for each card ends in
the same board. -/
theorem dragAll_run (board : Board) (requests : List Drag) :
    (board.dragAll requests).2.size = board.size ∧
    (∀ position, (board.dragAll requests).2.get? position =
      (board.get? position).map fun placed => { placed with
        x := ((addressed position requests).map Drag.dx).foldl (· + ·) placed.x
        y := ((addressed position requests).map Drag.dy).foldl (· + ·) placed.y }) ∧
    (board.dragAll requests).1.length = requests.length ∧
    (∀ before request after, requests = before ++ request :: after →
      (request.position < board.size → ∃ placed,
        (board.dragAll (before ++ [request])).2.get? request.position = some placed ∧
        (board.dragAll requests).1[before.length]? = some (.ok placed.place)) ∧
      (board.size ≤ request.position →
        (board.dragAll requests).1[before.length]? =
          some (.error (.noSuchCard request.position board.size)) ∧
        (board.dragAll (before ++ [request])).2 = (board.dragAll before).2)) ∧
    ∀ requests', (∀ position < board.size,
        addressed position requests' = addressed position requests) →
      (board.dragAll requests').2 = (board.dragAll requests).2 := by
  refine ⟨size_dragAll board requests, fun position => ?_, length_dragAll board requests, ?_,
    fun requests' same => dragAll_eq_of_addressed_eq same⟩
  · simp only [get?_dragAll, PlacedCard.moveAll_eq]
  · intro before request after split
    have size := size_dragAll board before
    rw [split, getElem?_dragAll, dragAll_concat]
    refine ⟨fun inside => ?_, fun outside => ?_⟩
    · rw [← size] at inside
      obtain ⟨placed, here, reply⟩ := drag_reply inside
      exact ⟨placed, here, congrArg some reply⟩
    · rw [← size] at outside
      rw [drag_of_size_le outside, size]
      exact ⟨rfl, rfl⟩

end Board

end Flashdeck
