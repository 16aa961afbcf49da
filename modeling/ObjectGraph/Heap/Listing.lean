import ObjectGraph.Handle

/-!
# Listings of handles

A listing holds handles of one store in the order in which they were added. Beside the order it
keeps a mark for each position of the store, so that membership is one look-up however long the
listing is (`contains_iff`).
-/

namespace ObjectGraph

/-- Marks a position. The marks grow if they do not reach it. -/
def markAt (marks : Array Bool) (i : Nat) : Array Bool :=
  if h : i < marks.size then marks.set i true
  else (marks ++ Array.replicate (i - marks.size) false).push true

/-- A position is marked if it was before or is the one that is being marked. -/
theorem getD_markAt (marks : Array Bool) (i j : Nat) :
    (markAt marks i).getD j false = (decide (j = i) || marks.getD j false) := by
  simp only [Array.getD_eq_getD_getElem?]
  unfold markAt
  split
  case isTrue h =>
    by_cases hj : j = i
    · simp [hj, h]
    · simp [hj, Ne.symm hj]
  case isFalse h =>
    have size : (marks ++ Array.replicate (i - marks.size) false).size = i := by
      simp only [Array.size_append, Array.size_replicate]
      omega
    rw [Array.getElem?_push, size]
    by_cases hj : j = i
    · simp [hj]
    · rw [if_neg hj, Array.getElem?_append]
      split
      case isTrue => simp [hj]
      case isFalse hm =>
        rw [Array.getElem?_eq_none (Nat.le_of_not_lt hm), Array.getElem?_replicate]
        split <;> simp [hj]

/-- Handles of one store in the order of their addition. -/
structure Listing (store : Store) where
  /-- The handles. -/
  order : Array (Handle store)
  /-- For each position of the store, whether its handle is listed. -/
  marks : Array Bool
  /-- The marks are those of the handles. -/
  marks_iff : ∀ id : Handle store, marks.getD id.index false = true ↔ id ∈ order

namespace Listing

variable {store : Store}

/-- A listing without handles, with marks for a store of a given size. -/
def ofSize (size : Nat) : Listing store where
  order := #[]
  marks := Array.replicate size false
  marks_iff id := by
    simp only [Array.getD_eq_getD_getElem?, Array.getElem?_replicate]
    split <;> simp

/-- Whether a handle is listed. -/
def contains (listing : Listing store) (id : Handle store) : Bool :=
  listing.marks.getD id.index false

/-- The listing's look-up answers membership. -/
theorem contains_iff {listing : Listing store} {id : Handle store} :
    listing.contains id = true ↔ id ∈ listing.order :=
  listing.marks_iff id

/-- Adds a handle at the end. -/
def push (listing : Listing store) (id : Handle store) : Listing store where
  order := listing.order.push id
  marks := markAt listing.marks id.index
  marks_iff other := by
    have h : other.index = id.index ↔ other = id := by
      cases other
      cases id
      simp
    rw [getD_markAt, Bool.or_eq_true, decide_eq_true_eq, h, listing.marks_iff, Array.mem_push,
      or_comm]

/-- The number of handles. -/
def size (listing : Listing store) : Nat := listing.order.size

/-- The handles in order. -/
def toList (listing : Listing store) : List (Handle store) := listing.order.toList

/-- Adding a handle puts it last. -/
theorem toList_push (listing : Listing store) (id : Handle store) :
    (listing.push id).toList = listing.toList ++ [id] := by
  simp [push, toList]

end Listing

end ObjectGraph
