/-
# `Yirang.Bytes` — strings as bytes

A `std::string` and a Go string are bytes, whether or not they are a text.
Where the program looks at single bytes of a string that came from outside,
the string is taken as it is:

    find, substr       as of `std::string`
    splitOn_of_find    what a loop over the two sees: the pieces between the
                       separators, one after another
-/
import Mathlib.Data.List.Basic

namespace Yirang

abbrev Bytes := List UInt8

/-- The byte of a character that takes one. -/
def byte (c : Char) : UInt8 := c.toNat.toUInt8

/-- The bytes of a text in ASCII. -/
def ascii (s : String) : Bytes := s.toList.map byte

section Find

variable {α : Type} [DecidableEq α] {text xs ys piece : List α} {a : α} {start n : Nat}

/-- `text.find(a, start)`; `none` is `npos`. -/
def find (text : List α) (a : α) (start : Nat) : Option Nat :=
  ((text.drop start).idxOf? a).map (start + ·)

/-- `text.substr(start, end - start)`, to the end if `end` is `npos`. -/
def substr (text : List α) (start : Nat) : Option Nat → List α
  | none => text.drop start
  | some e => (text.drop start).take (e - start)

theorem find_some (h : find text a start = some n) :
    ∃ xs ys, text.drop start = xs ++ a :: ys ∧ a ∉ xs ∧ n = start + xs.length := by
  simp only [find, Option.map_eq_some_iff] at h
  obtain ⟨k, hk, rfl⟩ := h
  obtain ⟨hlt, hak, hbefore⟩ := List.findIdx?_eq_some_iff_getElem.mp hk
  refine ⟨(text.drop start).take k, (text.drop start).drop (k + 1), ?_, ?_, ?_⟩
  · rw [← eq_of_beq hak, List.getElem_cons_drop, List.take_append_drop]
  · intro ha
    obtain ⟨j, hj, hja⟩ := List.mem_iff_getElem.mp ha
    rw [List.length_take] at hj
    rw [List.getElem_take] at hja
    have hne := hbefore j (by omega)
    rw [hja] at hne
    simp at hne
  · rw [List.length_take, Nat.min_eq_left (Nat.le_of_lt hlt)]

theorem find_none (h : find text a start = none) : a ∉ text.drop start := by
  simpa [find] using h

theorem find_le (h : find text a start = some n) : start ≤ n ∧ n < text.length := by
  obtain ⟨xs, ys, hsplit, -, rfl⟩ := find_some h
  have hlen := congrArg List.length hsplit
  simp only [List.length_drop, List.length_append, List.length_cons] at hlen
  omega

/-- The last piece. -/
theorem splitOn_of_find_none (h : find text a start = none) :
    (text.drop start).splitOn a = [substr text start none] :=
  List.splitOn_eq_singleton (find_none h)

/-- The first piece, and the rest. -/
theorem splitOn_of_find_some (h : find text a start = some n) :
    (text.drop start).splitOn a =
      substr text start (some n) :: (text.drop (n + 1)).splitOn a := by
  obtain ⟨xs, ys, hsplit, hxs, rfl⟩ := find_some h
  have hrest : text.drop (start + xs.length + 1) = ys := by
    rw [Nat.add_assoc, ← List.drop_drop, hsplit, List.drop_append]
    simp
  have hpiece : substr text start (some (start + xs.length)) = xs := by
    simp [substr, hsplit]
  rw [hsplit, List.splitOn_append_cons_self_of_not_mem hxs, hrest, hpiece]

end Find

end Yirang
