import Mathlib.Data.List.Sort
import Flashdeck.Board.Grid

/-!
# How a deck lies on the board

A layout takes a deck apart and loses nothing. The cards with both coordinates keep the place that
their fields give them; the others wait for a slot and take the slots of the grid as they come. The
slots are counted among the waiting cards alone, so that a card which lies on its own place takes
none, wherever in the deck it stands.

* `LaidOut`: the two groups of a layout, said without the layout.
* `map_origin_layout`: which card of the deck is where in the layout, and how it came to its place.
* `onGrid_layout`: the cards on the grid hang on the waiting cards and on nothing else.
* `layout_eq_iff_laidOut`: a layout is the one list that `LaidOut` describes.
-/

namespace Flashdeck

/-- A card that waits for a slot: it lacks a coordinate. -/
def Card.waits (card : Card) : Bool :=
  !((card.fields.get? "x").isSome && (card.fields.get? "y").isSome)

/-- The two groups of a layout. Every card of the deck is in one of them, once and as it is, with
its index in the deck; the first group lies where the fields of its cards say, the second on the
slots of the grid, row by row; each is in the order of the deck. -/
structure LaidOut (grid : Grid) (cards : List Card) (manual auto : List PlacedCard) : Prop where
  indices : ((manual ++ auto).map PlacedCard.index).Perm (List.range cards.length)
  unchanged : ∀ placed ∈ manual ++ auto, cards[placed.index]? = some placed.card
  manual_inOrder : (manual.map PlacedCard.index).Pairwise (· < ·)
  auto_inOrder : (auto.map PlacedCard.index).Pairwise (· < ·)
  manual_place : ∀ placed ∈ manual, placed.placement = .manual ∧
    ∃ x y, placed.card.fields.get? "x" = some x ∧ placed.card.fields.get? "y" = some y ∧
      placed.place = (x.toNumber, y.toNumber)
  auto_waits : ∀ placed ∈ auto, placed.placement = .auto ∧ placed.card.waits = true
  auto_place : ∀ (slot : Nat) (placed : PlacedCard), auto[slot]? = some placed →
    placed.place =
      (grid.startX + Float.ofNat (slot % max grid.columns 1) * grid.spacingX,
        grid.startY + Float.ofNat (slot / max grid.columns 1) * grid.spacingY)

/-- The cards on the grid, each with its place. -/
def onGrid (placed : List PlacedCard) : List (Card × Float × Float) :=
  (placed.filter fun placed => placed.placement = .auto).map fun placed =>
    (placed.card, placed.place)

/-! ## Cards with a place of their own -/

/-- A card has a place of its own exactly where it has both coordinates, whatever they are. -/
theorem Card.isSome_ownPlace? (card : Card) :
    card.ownPlace?.isSome = ((card.fields.get? "x").isSome && (card.fields.get? "y").isSome) := by
  rw [ownPlace?, position?]
  cases card.fields.get? "x" with
  | none => rfl
  | some x =>
    cases card.fields.get? "y" <;> rfl

theorem Card.isNone_ownPlace? (card : Card) : card.ownPlace?.isNone = card.waits := by
  rw [← Option.not_isSome, isSome_ownPlace?, waits]

theorem Card.ownPlace?_eq_some_iff {card : Card} {place : Float × Float} :
    card.ownPlace? = some place ↔ ∃ x y, card.fields.get? "x" = some x ∧
      card.fields.get? "y" = some y ∧ place = (x.toNumber, y.toNumber) := by
  rw [ownPlace?, position?]
  cases card.fields.get? "x" with
  | none => simp
  | some x =>
    cases card.fields.get? "y" with
    | none => simp
    | some y => simp [eq_comm]

theorem placeManually?_eq_some_iff {card : Card} {index : Nat} {placed : PlacedCard} :
    placeManually? card index = some placed ↔ card.ownPlace? = some placed.place ∧
      placed.card = card ∧ placed.index = index ∧ placed.placement = .manual := by
  rw [placeManually?, Option.map_eq_some_iff]
  apply Iff.intro
  · intro found
    obtain ⟨place, own, rfl⟩ := found
    exact ⟨own, rfl, rfl, rfl⟩
  · intro found
    obtain ⟨own, rfl, rfl, manual⟩ := found
    refine ⟨placed.place, own, ?_⟩
    rw [← manual]
    rfl

/-! ## The two groups -/

/-- The cards of a deck that lie on a place of their own. -/
def manualCards (cards : List Card) : List PlacedCard :=
  cards.zipIdx.filterMap fun entry => placeManually? entry.1 entry.2

/-- The cards of a deck that wait for a slot, with their indices. -/
def waitingCards (cards : List Card) : List (Card × Nat) :=
  cards.zipIdx.filter fun entry => entry.1.ownPlace?.isNone

/-- The cards of a deck that lie on a slot. -/
def Grid.autoCards (grid : Grid) (cards : List Card) : List PlacedCard :=
  (waitingCards cards).zipIdx.map fun entry => grid.placeCard entry.2 entry.1.1 entry.1.2

theorem layout_eq_append (grid : Grid) (cards : List Card) :
    layout grid cards = manualCards cards ++ grid.autoCards cards := rfl

theorem of_mem_manualCards {cards : List Card} {placed : PlacedCard}
    (mem : placed ∈ manualCards cards) :
    cards[placed.index]? = some placed.card ∧ placed.card.ownPlace? = some placed.place ∧
      placed.placement = .manual := by
  obtain ⟨entry, inside, found⟩ := List.mem_filterMap.1 mem
  obtain ⟨own, card, index, manual⟩ := placeManually?_eq_some_iff.1 found
  rw [List.mem_zipIdx_iff_getElem?] at inside
  rw [card, index]
  exact ⟨inside, own, manual⟩

theorem getElem?_autoCards (grid : Grid) (cards : List Card) (slot : Nat) :
    (grid.autoCards cards)[slot]? =
      (waitingCards cards)[slot]?.map fun entry => grid.placeCard slot entry.1 entry.2 := by
  rw [Grid.autoCards, List.getElem?_map, List.getElem?_zipIdx, Option.map_map, Nat.zero_add]
  rfl

theorem of_mem_autoCards {grid : Grid} {cards : List Card} {placed : PlacedCard}
    (mem : placed ∈ grid.autoCards cards) :
    cards[placed.index]? = some placed.card ∧ placed.card.waits = true ∧
      placed.placement = .auto := by
  obtain ⟨slot, here⟩ := List.mem_iff_getElem?.1 mem
  rw [getElem?_autoCards] at here
  obtain ⟨entry, waiting, rfl⟩ := Option.map_eq_some_iff.1 here
  obtain ⟨inside, none⟩ := List.mem_filter.1 (List.mem_of_getElem? waiting)
  rw [List.mem_zipIdx_iff_getElem?] at inside
  rw [Card.isNone_ownPlace?] at none
  exact ⟨inside, none, rfl⟩

/-! ## Which card is where -/

/-- Which card of the deck a placed card is, and how it came to its place. -/
def PlacedCard.origin (placed : PlacedCard) : Nat × Placement :=
  (placed.index, placed.placement)

theorem map_origin_manualCards (cards : List Card) :
    (manualCards cards).map PlacedCard.origin =
      (cards.zipIdx.filter fun entry => entry.1.ownPlace?.isSome).map fun entry =>
        (entry.2, .manual) := by
  rw [manualCards]
  induction cards.zipIdx with
  | nil => rfl
  | cons entry indexed ih =>
    obtain ⟨card, index⟩ := entry
    cases own : card.ownPlace? with
    | none =>
      have nowhere : placeManually? card index = none := by rw [placeManually?, own]; rfl
      rw [List.filterMap_cons, List.filter_cons_of_neg (by simp [own]), ← ih, nowhere]
    | some place =>
      have placed : placeManually? card index =
          some ⟨card, place.1, place.2, index, .manual⟩ := by rw [placeManually?, own]; rfl
      rw [List.filterMap_cons, List.filter_cons_of_pos (by simp [own]), List.map_cons, ← ih, placed]
      rfl

/-- A slot decides where a waiting card goes, and not which card it is. -/
theorem map_origin_autoCards (grid : Grid) (cards : List Card) :
    (grid.autoCards cards).map PlacedCard.origin =
      (waitingCards cards).map fun entry => (entry.2, .auto) := by
  have origins : PlacedCard.origin ∘
      (fun entry : (Card × Nat) × Nat => grid.placeCard entry.2 entry.1.1 entry.1.2) =
        (fun entry : Card × Nat => (entry.2, Placement.auto)) ∘ Prod.fst := rfl
  rw [Grid.autoCards, List.map_map, origins, ← List.map_map, List.zipIdx_map_fst]

/-- How the cards of a deck are placed hangs on which of them have a place of their own. -/
theorem map_origin_layout (grid : Grid) (cards : List Card) :
    (layout grid cards).map PlacedCard.origin =
      let indexed := (cards.map fun card => card.ownPlace?.isSome).zipIdx
      (indexed.filter fun entry => entry.1).map (fun entry => (entry.2, .manual)) ++
        (indexed.filter fun entry => !entry.1).map fun entry => (entry.2, .auto) := by
  have waiting : (fun entry : Card × Nat => !entry.1.ownPlace?.isSome) =
      fun entry => entry.1.ownPlace?.isNone := by
    funext entry
    exact Option.not_isSome _
  rw [layout_eq_append, List.map_append, map_origin_manualCards, map_origin_autoCards, waitingCards]
  simp only [List.zipIdx_map, List.filter_map, List.map_map, Function.comp_def, Prod.map_fst,
    Prod.map_snd, id_eq, waiting]

/-- The indices of one group of a deck. -/
theorem pairwise_map_snd_filter_zipIdx (cards : List Card) (p : Card × Nat → Bool) :
    ((cards.zipIdx.filter p).map Prod.snd).Pairwise (· < ·) := by
  have whole : (cards.zipIdx.map Prod.snd).Pairwise (· < ·) := by
    rw [List.zipIdx_map_snd, ← List.range_eq_range']
    exact List.pairwise_lt_range
  exact whole.sublist (List.filter_sublist.map Prod.snd)

theorem map_index_manualCards (cards : List Card) :
    (manualCards cards).map PlacedCard.index =
      (cards.zipIdx.filter fun entry => entry.1.ownPlace?.isSome).map Prod.snd := by
  have origins := congrArg (List.map Prod.fst) (map_origin_manualCards cards)
  rwa [List.map_map, List.map_map] at origins

theorem map_index_autoCards (grid : Grid) (cards : List Card) :
    (grid.autoCards cards).map PlacedCard.index = (waitingCards cards).map Prod.snd := by
  have origins := congrArg (List.map Prod.fst) (map_origin_autoCards grid cards)
  rwa [List.map_map, List.map_map] at origins

/-- The indices of a layout are those of the deck, each of them once. -/
theorem perm_map_index_layout (grid : Grid) (cards : List Card) :
    ((layout grid cards).map PlacedCard.index).Perm (List.range cards.length) := by
  have waiting : (fun entry : Card × Nat => entry.1.ownPlace?.isNone) =
      fun entry => !entry.1.ownPlace?.isSome := by
    funext entry
    exact (Option.not_isSome _).symm
  rw [layout_eq_append, List.map_append, map_index_manualCards, map_index_autoCards, waitingCards,
    waiting, ← List.map_append, List.range_eq_range', ← List.zipIdx_map_snd 0 cards]
  exact (List.filter_append_perm _ cards.zipIdx).map Prod.snd

theorem laidOut_groups (grid : Grid) (cards : List Card) :
    LaidOut grid cards (manualCards cards) (grid.autoCards cards) where
  indices := perm_map_index_layout grid cards
  unchanged := by
    intro placed mem
    rcases List.mem_append.1 mem with manual | auto
    · exact (of_mem_manualCards manual).1
    · exact (of_mem_autoCards auto).1
  manual_inOrder := by
    rw [map_index_manualCards]
    exact pairwise_map_snd_filter_zipIdx cards _
  auto_inOrder := by
    rw [map_index_autoCards]
    exact pairwise_map_snd_filter_zipIdx cards _
  manual_place := by
    intro placed mem
    obtain ⟨-, own, manual⟩ := of_mem_manualCards mem
    exact ⟨manual, Card.ownPlace?_eq_some_iff.1 own⟩
  auto_waits := by
    intro placed mem
    obtain ⟨-, waits, auto⟩ := of_mem_autoCards mem
    exact ⟨auto, waits⟩
  auto_place := by
    intro slot placed here
    rw [getElem?_autoCards] at here
    obtain ⟨entry, -, rfl⟩ := Option.map_eq_some_iff.1 here
    rfl

/-! ## Only one list is laid out -/

namespace LaidOut

variable {grid : Grid} {cards : List Card} {manual auto manual' auto' : List PlacedCard}

/-- The first group holds the cards with both coordinates, all of them. -/
theorem mem_map_index_manual_iff (laidOut : LaidOut grid cards manual auto) {index : Nat} :
    index ∈ manual.map PlacedCard.index ↔
      ∃ card, cards[index]? = some card ∧ card.waits = false := by
  apply Iff.intro
  · intro mem
    obtain ⟨placed, inside, rfl⟩ := List.mem_map.1 mem
    obtain ⟨-, x, y, hasX, hasY, -⟩ := laidOut.manual_place placed inside
    refine ⟨placed.card, laidOut.unchanged placed (List.mem_append_left auto inside), ?_⟩
    rw [Card.waits, hasX, hasY]
    rfl
  · intro found
    obtain ⟨card, here, stays⟩ := found
    obtain ⟨inside, -⟩ := List.getElem?_eq_some_iff.1 here
    obtain ⟨placed, mem, rfl⟩ :=
      List.mem_map.1 (laidOut.indices.mem_iff.2 (List.mem_range.2 inside))
    rcases List.mem_append.1 mem with first | second
    · exact List.mem_map_of_mem first
    · have same := laidOut.unchanged placed mem
      rw [here, Option.some.injEq] at same
      rw [same, (laidOut.auto_waits placed second).2] at stays
      cases stays

theorem mem_map_index_auto_iff (laidOut : LaidOut grid cards manual auto) {index : Nat} :
    index ∈ auto.map PlacedCard.index ↔ ∃ card, cards[index]? = some card ∧ card.waits = true := by
  apply Iff.intro
  · intro mem
    obtain ⟨placed, inside, rfl⟩ := List.mem_map.1 mem
    exact ⟨placed.card, laidOut.unchanged placed (List.mem_append_right manual inside),
      (laidOut.auto_waits placed inside).2⟩
  · intro found
    obtain ⟨card, here, waits⟩ := found
    obtain ⟨inside, -⟩ := List.getElem?_eq_some_iff.1 here
    have mem := laidOut.indices.mem_iff.2 (List.mem_range.2 inside)
    rw [List.map_append] at mem
    rcases List.mem_append.1 mem with first | second
    · obtain ⟨other, there, stays⟩ := laidOut.mem_map_index_manual_iff.1 first
      rw [here, Option.some.injEq] at there
      rw [← there, waits] at stays
      cases stays
    · exact second

/-- Lists with the same indices are the same, if a card is determined by its position and its
index. -/
theorem eq_of_map_index_eq {group group' : List PlacedCard}
    (indices : group.map PlacedCard.index = group'.map PlacedCard.index)
    (determined : ∀ (position : Nat) (placed placed' : PlacedCard), group[position]? = some placed →
      group'[position]? = some placed' → placed.index = placed'.index → placed = placed') :
    group = group' := by
  apply List.ext_getElem?
  intro position
  have index := congrArg (fun list => list[position]?) indices
  simp only [List.getElem?_map] at index
  cases here : group[position]? with
  | none =>
    rw [here, Option.map_none, eq_comm, Option.map_eq_none_iff] at index
    rw [index]
  | some placed =>
    rw [here, Option.map_some, eq_comm, Option.map_eq_some_iff] at index
    obtain ⟨placed', there, same⟩ := index
    rw [there, determined position placed placed' here there same.symm]

/-- What is laid out on the same places from the same cards is the same. -/
theorem eq_of_index_eq (first : LaidOut grid cards manual auto)
    (second : LaidOut grid cards manual' auto') {placed placed' : PlacedCard}
    (mem : placed ∈ manual ++ auto) (mem' : placed' ∈ manual' ++ auto')
    (index : placed.index = placed'.index) (place : placed.card = placed'.card →
      placed.place = placed'.place ∧ placed.placement = placed'.placement) : placed = placed' := by
  have card := first.unchanged placed mem
  rw [index, second.unchanged placed' mem', Option.some.injEq] at card
  obtain ⟨same, placement⟩ := place card.symm
  obtain ⟨x, y⟩ := Prod.mk.inj same
  cases placed
  cases placed'
  simp only at card index x y placement
  subst card index x y placement
  rfl

theorem unique (first : LaidOut grid cards manual auto)
    (second : LaidOut grid cards manual' auto') : manual = manual' ∧ auto = auto' := by
  apply And.intro
  · apply eq_of_map_index_eq
    · exact first.manual_inOrder.eq_of_mem_iff second.manual_inOrder fun index =>
        first.mem_map_index_manual_iff.trans second.mem_map_index_manual_iff.symm
    · intro position placed placed' here there index
      have mem := List.mem_of_getElem? here
      have mem' := List.mem_of_getElem? there
      refine first.eq_of_index_eq second (List.mem_append_left auto mem)
        (List.mem_append_left auto' mem') index fun card => ?_
      obtain ⟨placement, x, y, hasX, hasY, place⟩ := first.manual_place placed mem
      obtain ⟨placement', x', y', hasX', hasY', place'⟩ := second.manual_place placed' mem'
      rw [card, hasX', Option.some.injEq] at hasX
      rw [card, hasY', Option.some.injEq] at hasY
      rw [place, place', hasX, hasY, placement, placement']
      exact ⟨rfl, rfl⟩
  · apply eq_of_map_index_eq
    · exact first.auto_inOrder.eq_of_mem_iff second.auto_inOrder fun index =>
        first.mem_map_index_auto_iff.trans second.mem_map_index_auto_iff.symm
    · intro slot placed placed' here there index
      have mem := List.mem_of_getElem? here
      have mem' := List.mem_of_getElem? there
      refine first.eq_of_index_eq second (List.mem_append_right manual mem)
        (List.mem_append_right manual' mem') index fun _ => ?_
      rw [first.auto_place slot placed here, second.auto_place slot placed' there,
        (first.auto_waits placed mem).1, (second.auto_waits placed' mem').1]
      exact ⟨rfl, rfl⟩

end LaidOut

/-! ## The cards on the grid -/

theorem map_fst_waitingCards (cards : List Card) :
    (waitingCards cards).map Prod.fst = cards.filter Card.waits := by
  have waits : (fun entry : Card × Nat => entry.1.ownPlace?.isNone) = Card.waits ∘ Prod.fst := by
    funext entry
    exact Card.isNone_ownPlace? entry.1
  rw [waitingCards, waits, ← List.filter_map, List.zipIdx_map_fst]

/-- The cards on the grid hang on the waiting cards and on nothing else. -/
theorem onGrid_layout (grid : Grid) (cards : List Card) :
    onGrid (layout grid cards) =
      (cards.filter Card.waits).zipIdx.map fun entry => (entry.1, grid.place entry.2) := by
  have none : (manualCards cards).filter (fun placed => placed.placement = .auto) = [] := by
    rw [List.filter_eq_nil_iff]
    intro placed mem
    rw [(of_mem_manualCards mem).2.2]
    simp
  have all : (grid.autoCards cards).filter (fun placed => placed.placement = .auto) =
      grid.autoCards cards := by
    rw [List.filter_eq_self]
    intro placed mem
    rw [(of_mem_autoCards mem).2.2]
    simp
  rw [layout_eq_append, onGrid, List.filter_append, none, all, List.nil_append, Grid.autoCards,
    ← map_fst_waitingCards, List.zipIdx_map, List.map_map, List.map_map]
  rfl

/-- The cell of a slot tells the slot. -/
theorem injective_cell (columns : Nat) :
    Function.Injective fun slot => (slot / max columns 1, slot % max columns 1) := by
  intro slot slot' same
  obtain ⟨row, column⟩ := Prod.mk.inj same
  rw [← Nat.div_add_mod slot (max columns 1), row, column, Nat.div_add_mod]

/-- **A layout is the one list that has every card of the deck once and as it is**, those with both
coordinates first and on their own places, the others on the slots of the grid in turn, both groups
in the order of the deck. No two slots are one cell, and whatever cards with a place of their own a
deck has besides, its waiting cards lie on the same places. -/
theorem layout_eq_iff_laidOut (grid : Grid) (cards : List Card) :
    (∀ placed : List PlacedCard, layout grid cards = placed ↔
      ∃ manual auto, placed = manual ++ auto ∧ LaidOut grid cards manual auto) ∧
    (layout grid cards).length = cards.length ∧
    (Function.Injective fun slot => (slot / max grid.columns 1, slot % max grid.columns 1)) ∧
    ∀ cards' : List Card, cards'.filter Card.waits = cards.filter Card.waits →
      onGrid (layout grid cards') = onGrid (layout grid cards) := by
  have groups := laidOut_groups grid cards
  refine ⟨fun placed => ⟨?_, ?_⟩, ?_, injective_cell grid.columns, fun cards' waiting => ?_⟩
  · intro same
    exact ⟨_, _, same.symm, groups⟩
  · intro found
    obtain ⟨manual, auto, rfl, laidOut⟩ := found
    obtain ⟨rfl, rfl⟩ := laidOut.unique groups
    rfl
  · have length := (perm_map_index_layout grid cards).length_eq
    rwa [List.length_map, List.length_range] at length
  · rw [onGrid_layout, onGrid_layout, waiting]

end Flashdeck
