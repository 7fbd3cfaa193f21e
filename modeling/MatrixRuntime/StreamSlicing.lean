import Mathlib.Data.List.Basic

/-! Slicing items off the front of a buffer until it holds no whole one. -/

namespace MatrixRuntime.StreamSlicing

variable {α F E : Type}

/-- What stands at the front of a buffer: no whole item yet, an item, or something that can
not become one. -/
inductive Cut (α F E : Type) where
  | more
  | item (value : F) (rest : List α)
  | bad (error : E)

/-- A way to cut items off; every item takes something from the buffer. -/
structure Slicer (α F E : Type) where
  cut : List α → Cut α F E
  shrinks : ∀ {buf value rest}, cut buf = .item value rest → rest.length < buf.length

namespace Slicer

/-- The items at the front of a buffer, and what is left of it. -/
def slices (S : Slicer α F E) (buf : List α) : List F × Except E (List α) :=
  match h : S.cut buf with
  | .more => ([], .ok buf)
  | .item value rest =>
    have := S.shrinks h
    let (values, left) := S.slices rest
    (value :: values, left)
  | .bad error => ([], .error error)
termination_by buf.length

variable {S : Slicer α F E} {buf rest : List α}

theorem slices_more (h : S.cut buf = .more) : S.slices buf = ([], .ok buf) := by
  rw [slices]
  split
  next => rfl
  next h' =>
    rw [h] at h'
    cases h'
  next h' =>
    rw [h] at h'
    cases h'

theorem slices_item {value : F} (h : S.cut buf = .item value rest) :
    S.slices buf = (value :: (S.slices rest).1, (S.slices rest).2) := by
  rw [slices]
  split
  next h' =>
    rw [h] at h'
    cases h'
  next h' =>
    rw [h] at h'
    cases h'
    rfl
  next h' =>
    rw [h] at h'
    cases h'

end Slicer

end MatrixRuntime.StreamSlicing
