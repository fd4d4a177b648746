import Mathlib.Data.List.Basic
import Mathlib.Tactic

/-!
# Canonical encodings

`slice` is a run of a list; consecutive runs concatenate.  An encoder and a parser are `Canonical`
when each undoes the other on what the parser accepts, so that every accepted text is the only one
of its value.
-/

namespace Codec

variable {α β : Type}

/-- The `n` elements from `i` on. -/
def slice (p : List α) (i n : ℕ) : List α := (p.drop i).take n

theorem slice_append (p : List α) (i n m : ℕ) :
    slice p i n ++ slice p (i + n) m = slice p i (n + m) := by
  unfold slice
  rw [List.take_add, List.drop_drop]

/-- A prefix and the run behind it. -/
theorem slice_zero_append (p : List α) (n m : ℕ) : slice p 0 n ++ slice p n m = slice p 0 (n + m) := by
  have h := slice_append p 0 n m
  rwa [Nat.zero_add] at h

theorem slice_all (p : List α) {n : ℕ} (h : p.length = n) : slice p 0 n = p := by
  rw [slice, List.drop_zero, ← h, List.take_length]

theorem slice_one (p : List α) {i : ℕ} (h : i < p.length) (d : α) : slice p i 1 = [p.getD i d] := by
  rw [slice, List.drop_eq_getElem_cons h, List.getD_eq_getElem?_getD, List.getElem?_eq_getElem h]
  rfl

theorem slice_append_left {l r : List α} {i n : ℕ} (h : i + n ≤ l.length) :
    slice (l ++ r) i n = slice l i n := by
  unfold slice
  rw [List.drop_append_of_le_length (by omega), List.take_append_of_le_length (by simp; omega)]

theorem slice_append_right {l r : List α} {i n : ℕ} (hl : l.length = i) (hr : r.length = n) :
    slice (l ++ r) i n = r := by
  unfold slice
  rw [List.drop_left' hl, List.take_of_length_le hr.le]

/-- The parser accepts one text of each value, and gives the value back. -/
structure Canonical (encode : β → List α) (parse : List α → Option β) (Valid : β → Prop) :
    Prop where
  reencode : ∀ p v, parse p = some v → encode v = p
  decode : ∀ v, Valid v → (parse (encode v)).isSome → parse (encode v) = some v

/-- An encoder without collisions needs one direction only. -/
theorem Canonical.of_injective {encode : β → List α} {parse : List α → Option β}
    {Valid : β → Prop} (hreencode : ∀ p v, parse p = some v → encode v = p)
    (hvalid : ∀ p v, parse p = some v → Valid v)
    (hinj : ∀ u v, Valid u → Valid v → encode u = encode v → u = v) :
    Canonical encode parse Valid := by
  refine ⟨hreencode, fun v hv hsome => ?_⟩
  obtain ⟨u, hu⟩ := Option.isSome_iff_exists.mp hsome
  rw [hu, hinj u v (hvalid _ u hu) hv (hreencode _ u hu)]

end Codec
