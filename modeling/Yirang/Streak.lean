/-
# `Yirang.Streak` — how long the end of a list has been of one kind

    streak p l        the length of the longest end of `l` on which `p` holds
    AllOn p l a b     `p` holds at every position from `a` up to `b`
    LastStood         of two kinds of streaks, which was the last to be long
                      enough

A list is read as a history, the newest element last, so everything here is
proved from what one more element does.
-/
import Mathlib.Data.List.Basic
import Mathlib.Data.List.Induction
import Mathlib.Data.List.TakeWhile

namespace Yirang

variable {α : Type} {p q : α → Bool} {l : List α} {x : α} {n m k a b : Nat}

def streak (p : α → Bool) (l : List α) : Nat := (l.reverse.takeWhile p).length

@[simp] theorem streak_nil : streak p [] = 0 := rfl

theorem streak_concat : streak p (l ++ [x]) = if p x then streak p l + 1 else 0 := by
  unfold streak
  rw [List.reverse_append, List.reverse_singleton, List.singleton_append, List.takeWhile_cons]
  split <;> rfl

theorem streak_concat_pos (h : p x = true) : streak p (l ++ [x]) = streak p l + 1 := by
  rw [streak_concat, if_pos h]

theorem streak_concat_neg (h : p x = false) : streak p (l ++ [x]) = 0 := by
  rw [streak_concat, if_neg (by simp [h])]

/-- At every position of `l` from `a` up to `b`. -/
def AllOn (p : α → Bool) (l : List α) (a b : Nat) : Prop :=
  ∀ i (h : i < l.length), a ≤ i → i < b → p l[i] = true

/-- A streak of `n` is `n` last elements of its kind. -/
theorem le_streak_iff : n ≤ streak p l ↔ n ≤ l.length ∧ AllOn p l (l.length - n) l.length := by
  induction l using List.reverseRecOn generalizing n with
  | nil =>
      constructor
      · intro h
        exact ⟨h, fun i hi => absurd hi (Nat.not_lt_zero i)⟩
      · intro h
        exact h.1
  | append_singleton l x ih =>
      cases n with
      | zero =>
          refine ⟨fun _ => ⟨Nat.zero_le _, fun i hi ha hb => ?_⟩, fun _ => Nat.zero_le _⟩
          omega
      | succ n =>
          cases hx : p x with
          | false =>
              rw [streak_concat_neg hx]
              constructor
              · intro h
                omega
              · rintro ⟨hlen, hall⟩
                have hlast := hall l.length (by simp) (by simp) (by simp)
                rw [List.getElem_concat_length rfl, hx] at hlast
                cases hlast
          | true =>
              rw [streak_concat_pos hx, Nat.add_le_add_iff_right, ih, List.length_append,
                List.length_singleton]
              constructor
              · rintro ⟨hlen, hall⟩
                refine ⟨by omega, fun i hi ha hb => ?_⟩
                by_cases hil : i < l.length
                · rw [List.getElem_append_left hil]
                  exact hall i hil (by omega) hil
                · have hi' : i = l.length := by
                    rw [List.length_append, List.length_singleton] at hi
                    omega
                  subst hi'
                  rw [List.getElem_concat_length rfl]
                  exact hx
              · rintro ⟨hlen, hall⟩
                refine ⟨by omega, fun i hi ha hb => ?_⟩
                have h := hall i (by simp; omega) (by omega) (by omega)
                rwa [List.getElem_append_left hi] at h

/-- The same of the first `k` elements. -/
theorem le_streak_take_iff (hk : k ≤ l.length) :
    n ≤ streak p (l.take k) ↔ n ≤ k ∧ AllOn p l (k - n) k := by
  rw [le_streak_iff, List.length_take, Nat.min_eq_left hk]
  refine and_congr_right fun _ => ⟨fun h i hi ha hb => ?_, fun h i hi ha hb => ?_⟩
  · have := h i (by rw [List.length_take]; omega) ha hb
    rwa [List.getElem_take] at this
  · rw [List.getElem_take]
    exact h i (by rw [List.length_take] at hi; omega) ha hb

/-! ## Two kinds that race -/

/-- At some moment the `p`s stood at `n` or more in a row, and at no later
one the `q`s at `m`. -/
def LastStood (p : α → Bool) (n : Nat) (q : α → Bool) (m : Nat) (l : List α) : Prop :=
  ∃ k, k ≤ l.length ∧ n ≤ streak p (l.take k) ∧
    ∀ j, k < j → j ≤ l.length → streak q (l.take j) < m

/-- Neither ever stood at its threshold. -/
def NeverStood (p : α → Bool) (n : Nat) (q : α → Bool) (m : Nat) (l : List α) : Prop :=
  ∀ k, k ≤ l.length → streak p (l.take k) < n ∧ streak q (l.take k) < m

theorem neverStood_nil (hn : 0 < n) (hm : 0 < m) : NeverStood p n q m [] :=
  fun k _ => by simp [hn, hm]

theorem not_lastStood_nil (hn : 0 < n) : ¬ LastStood p n q m [] := by
  rintro ⟨k, _, h, _⟩
  simp at h
  omega

theorem neverStood_concat :
    NeverStood p n q m (l ++ [x]) ↔
      NeverStood p n q m l ∧ streak p (l ++ [x]) < n ∧ streak q (l ++ [x]) < m := by
  constructor
  · intro h
    refine ⟨fun k hk => ?_, ?_⟩
    · have := h k (by rw [List.length_append]; omega)
      rwa [List.take_append_of_le_length hk] at this
    · have := h (l ++ [x]).length le_rfl
      rwa [List.take_length] at this
  · rintro ⟨h, hlast⟩ k hk
    rw [List.length_append, List.length_singleton] at hk
    by_cases hkl : k ≤ l.length
    · rw [List.take_append_of_le_length hkl]
      exact h k hkl
    · rwa [List.take_of_length_le (by simp; omega)]

theorem lastStood_concat :
    LastStood p n q m (l ++ [x]) ↔
      n ≤ streak p (l ++ [x]) ∨ (LastStood p n q m l ∧ streak q (l ++ [x]) < m) := by
  constructor
  · rintro ⟨k, hk, hp, hq⟩
    rw [List.length_append, List.length_singleton] at hk
    by_cases hkl : k ≤ l.length
    · rw [List.take_append_of_le_length hkl] at hp
      refine Or.inr ⟨⟨k, hkl, hp, fun j hj hjl => ?_⟩, ?_⟩
      · have := hq j hj (by rw [List.length_append]; omega)
        rwa [List.take_append_of_le_length hjl] at this
      · have := hq (l ++ [x]).length (by simp; omega) le_rfl
        rwa [List.take_length] at this
    · rw [List.take_of_length_le (by simp; omega)] at hp
      exact Or.inl hp
  · rintro (hp | ⟨⟨k, hk, hp, hq⟩, hlast⟩)
    · refine ⟨(l ++ [x]).length, le_rfl, ?_, fun j hj hjl => ?_⟩
      · rwa [List.take_length]
      · omega
    · refine ⟨k, by rw [List.length_append]; omega, ?_, fun j hj hjl => ?_⟩
      · rwa [List.take_append_of_le_length hk]
      · by_cases hj' : j ≤ l.length
        · rw [List.take_append_of_le_length hj']
          exact hq j hj hj'
        · rwa [List.take_of_length_le (by
            rw [List.length_append, List.length_singleton] at hjl ⊢; omega)]

section Next

variable (hp : p x = true) (hq : q x = false) (hm : 0 < m)
include hp hq hm

/-! One more `p`, which is no `q`. -/

theorem neverStood_won :
    NeverStood p n q m (l ++ [x]) ↔ NeverStood p n q m l ∧ streak p l + 1 < n := by
  rw [neverStood_concat, streak_concat_pos hp, streak_concat_neg hq]
  exact and_congr_right fun _ => and_iff_left hm

theorem lastStood_won :
    LastStood p n q m (l ++ [x]) ↔ n ≤ streak p l + 1 ∨ LastStood p n q m l := by
  rw [lastStood_concat, streak_concat_pos hp, streak_concat_neg hq]
  exact or_congr_right (and_iff_left hm)

theorem lastStood_lost :
    LastStood q m p n (l ++ [x]) ↔ LastStood q m p n l ∧ streak p l + 1 < n := by
  rw [lastStood_concat, streak_concat_pos hp, streak_concat_neg hq]
  exact or_iff_right (by omega)

end Next

theorem neverStood_comm : NeverStood p n q m l ↔ NeverStood q m p n l :=
  forall_congr' fun _ => imp_congr_right fun _ => And.comm

/-- The first moment at which one of the two stands at its threshold is the
`p`s', when the `p`s reach theirs while the `q`s have not yet. -/
theorem exists_first_iff {P Q : Nat → Prop} (N : Nat) :
    (∃ k, k ≤ N ∧ P k ∧ ∀ j, j < k → ¬ P j ∧ ¬ Q j) ↔
      ∃ k, k ≤ N ∧ P k ∧ ∀ j, j < k → ¬ Q j := by
  constructor
  · rintro ⟨k, hk, hp, h⟩
    exact ⟨k, hk, hp, fun j hj => (h j hj).2⟩
  · rintro ⟨k, hk, hp, h⟩
    induction k using Nat.strongRecOn with
    | ind k ih =>
        by_cases hex : ∃ j, j < k ∧ P j
        · obtain ⟨j, hj, hpj⟩ := hex
          exact ih j hj (by omega) hpj fun i hi => h i (by omega)
        · exact ⟨k, hk, hp, fun j hj => ⟨fun hpj => hex ⟨j, hj, hpj⟩, h j hj⟩⟩

end Yirang
