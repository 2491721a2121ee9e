/-
# `Yirang.Fs.Lexical` — paths as texts that are walked

What a path text says before any directory is looked at: a sequence of steps,
each of which stays, goes up, or goes down by a name.

    Normal       the normal forms: so far up, and then down by these names
    normal       the normal form of a sequence of steps
    Removes      the rules by which a normal form is made, one at a time;
                 `normal` is what they lead to, in any order
    walk         the walk that must not climb above where it began
    below_join   what such a walk leads to lies below

Names are of any type.  From the root directory the way up leads nowhere.
-/
import Mathlib.Data.List.Basic
import Mathlib.Data.List.Infix
import Mathlib.Logic.Relation

namespace Yirang.Lexical

inductive Step (N : Type) where
  | here
  | up
  | name (n : N)
deriving DecidableEq

variable {N : Type} {rooted : Bool} {l l' r base : List (Step N)} {n : N}

/-! ## Normal forms -/

/-- From the root directory, or from a directory that is not said. -/
structure Normal (N : Type) where
  rooted : Bool
  ups : Nat
  names : List N
  grounded : rooted = true → ups = 0

variable {d p : Normal N}

namespace Normal

theorem ext {d p : Normal N} (hr : d.rooted = p.rooted) (hu : d.ups = p.ups)
    (hn : d.names = p.names) : d = p := by
  cases d
  cases p
  cases hr
  cases hu
  cases hn
  rfl

def start (N : Type) (rooted : Bool) : Normal N := ⟨rooted, 0, [], fun _ => rfl⟩

/-- The steps that it is written with. -/
def steps (d : Normal N) : List (Step N) := List.replicate d.ups .up ++ d.names.map .name

def down (d : Normal N) (names : List N) : Normal N := { d with names }

/-- One level up from where no name is left. -/
def above (d : Normal N) : Normal N where
  rooted := d.rooted
  ups := if d.rooted then 0 else d.ups + 1
  names := []
  grounded h := if_pos h

def enter (d : Normal N) : Step N → Normal N
  | .here => d
  | .name n => d.down (d.names ++ [n])
  | .up => if d.names.isEmpty then d.above else d.down d.names.dropLast

@[simp] theorem down_rooted {names : List N} : (d.down names).rooted = d.rooted := rfl

@[simp] theorem down_ups {names : List N} : (d.down names).ups = d.ups := rfl

@[simp] theorem down_names {names : List N} : (d.down names).names = names := rfl

@[simp] theorem above_rooted : d.above.rooted = d.rooted := rfl

@[simp] theorem above_names : d.above.names = [] := rfl

theorem enter_up_nil (h : d.names = []) : d.enter .up = d.above := by
  simp [enter, h]

theorem enter_up_append {names : List N} (h : d.names = names ++ [n]) :
    d.enter .up = d.down names := by
  simp [enter, h]

theorem enter_rooted (s : Step N) : (d.enter s).rooted = d.rooted := by
  cases s with
  | here | name n => rfl
  | up =>
      unfold enter
      dsimp only
      split <;> rfl

theorem foldl_rooted : (l.foldl enter d).rooted = d.rooted := by
  induction l generalizing d with
  | nil => rfl
  | cons s l ih => exact ih.trans (enter_rooted s)

end Normal

/-- The normal form of a sequence of steps. -/
def normal (rooted : Bool) (l : List (Step N)) : Normal N := l.foldl Normal.enter (.start N rooted)

theorem normal_rooted : (normal rooted l).rooted = rooted := Normal.foldl_rooted

theorem normal_append : normal rooted (base ++ l) = l.foldl Normal.enter (normal rooted base) :=
  List.foldl_append

/-! ## The rules

A step that stays is dropped; a name goes with the step up that comes after
it; and from the root directory no step leads up. -/

inductive Removes (rooted : Bool) : List (Step N) → List (Step N) → Prop
  | here {l r : List (Step N)} : Removes rooted (l ++ .here :: r) (l ++ r)
  | back {l r : List (Step N)} {n : N} : Removes rooted (l ++ .name n :: .up :: r) (l ++ r)
  | root {r : List (Step N)} : rooted = true → Removes rooted (.up :: r) r

/-- No rule changes the normal form. -/
theorem normal_of_removes (h : Removes rooted l l') : normal rooted l = normal rooted l' := by
  cases h with
  | here => simp [normal, Normal.enter]
  | @back l r n =>
      have hback : ∀ d : Normal N, (d.enter (.name n)).enter .up = d := fun d =>
        Normal.enter_up_append (n := n) rfl
      rw [normal_append, normal_append]
      simp only [List.foldl_cons, hback]
  | root hroot =>
      cases hroot
      rfl

theorem foldl_name (names : List N) (d : Normal N) :
    (names.map Step.name).foldl Normal.enter d = d.down (d.names ++ names) := by
  induction names generalizing d with
  | nil => simp [Normal.down]
  | cons n names ih =>
      simp only [List.map_cons, List.foldl_cons, ih]
      simp [Normal.enter, Normal.down]

theorem foldl_up (k : Nat) (h : rooted = false) :
    (List.replicate k Step.up).foldl Normal.enter (.start N rooted) =
      ⟨rooted, k, [], fun hr => absurd hr (by simp [h])⟩ := by
  induction k with
  | zero => rfl
  | succ k ih =>
      rw [List.replicate_succ', List.foldl_append, ih]
      exact Normal.ext rfl (by simp [Normal.enter, Normal.above, h]) rfl

/-- A normal form is its own. -/
theorem normal_steps : normal d.rooted d.steps = d := by
  rw [normal, Normal.steps, List.foldl_append, foldl_name]
  cases hr : d.rooted with
  | true =>
      rw [d.grounded hr]
      exact Normal.ext hr.symm (d.grounded hr).symm (by simp [Normal.start])
  | false =>
      rw [foldl_up d.ups rfl]
      exact Normal.ext hr.symm rfl (by simp)

/-- The rules lead from a normal form that is entered to the one reached. -/
theorem removes_enter (s : Step N) :
    Relation.ReflTransGen (Removes d.rooted) (d.steps ++ [s]) (d.enter s).steps := by
  cases s with
  | here =>
      have h : Removes d.rooted (d.steps ++ [.here]) (d.steps ++ []) := .here
      rw [List.append_nil] at h
      exact .single h
  | name n =>
      have hsteps : (d.enter (.name n)).steps = d.steps ++ [.name n] := by
        simp [Normal.enter, Normal.steps]
      rw [hsteps]
  | up =>
      rcases List.eq_nil_or_concat' d.names with hnil | ⟨names, n, hnames⟩
      · rw [Normal.enter_up_nil hnil]
        cases hr : d.rooted with
        | true =>
            have hd : d.steps = [] := by simp [Normal.steps, d.grounded hr, hnil]
            have hup : d.above.steps = [] := by simp [Normal.steps, Normal.above, hr]
            rw [hd, hup]
            exact .single (.root rfl)
        | false =>
            have hup : d.above.steps = d.steps ++ [.up] := by
              simp [Normal.steps, Normal.above, hr, hnil, List.replicate_succ']
            rw [hup]
      · rw [Normal.enter_up_append hnames]
        have hd : d.steps = (d.down names).steps ++ [.name n] := by
          simp [Normal.steps, hnames]
        have h : Removes d.rooted ((d.down names).steps ++ [.name n, .up])
          ((d.down names).steps ++ []) := .back
        rw [List.append_nil] at h
        rw [hd, List.append_assoc]
        exact .single h

theorem Removes.append (h : Removes rooted l l') : Removes rooted (l ++ r) (l' ++ r) := by
  cases h with
  | here =>
      rw [List.append_assoc, List.append_assoc]
      exact .here
  | back =>
      rw [List.append_assoc, List.append_assoc]
      exact .back
  | root hroot => exact .root hroot

/-- By the rules every sequence of steps comes to its normal form. -/
theorem removes_normal (rooted : Bool) (l : List (Step N)) :
    Relation.ReflTransGen (Removes rooted) l (normal rooted l).steps := by
  induction l using List.reverseRecOn with
  | nil => exact .refl
  | append_singleton l s ih =>
      have hlift : Relation.ReflTransGen (Removes rooted) (l ++ [s])
          ((normal rooted l).steps ++ [s]) := ih.lift (· ++ [s]) fun _ _ => Removes.append
      have henter := removes_enter (d := normal rooted l) s
      rw [normal_rooted] at henter
      rw [normal_append]
      exact hlift.trans henter

/-- There no rule applies any more. -/
theorem not_removes_steps : ¬ Removes d.rooted d.steps l := by
  intro h
  have hhere : Step.here ∉ d.steps := by simp [Normal.steps]
  generalize hs : d.steps = s at h
  cases h with
  | here => exact hhere (by simp [hs])
  | @back x y n =>
      -- after a name there are only names
      have hsorted : d.steps.Pairwise fun a b => a ≠ .up → b ≠ .up := by
        rw [Normal.steps, List.pairwise_append]
        refine ⟨?_, ?_, ?_⟩
        · exact List.pairwise_replicate.mpr (Or.inr fun h => absurd rfl h)
        · exact List.pairwise_map.mpr (List.pairwise_of_forall fun _ _ _ => by simp)
        · intro a ha b hb hup
          exact absurd (List.eq_of_mem_replicate ha) hup
      rw [hs, List.pairwise_append, List.pairwise_cons] at hsorted
      exact hsorted.2.1.1 .up List.mem_cons_self (by simp) rfl
  | root hroot =>
      have hup : Step.up ∈ d.steps := by simp [hs]
      simp [Normal.steps, d.grounded hroot] at hup

/-- What the rules come to is the normal form, in whatever order they are
applied. -/
theorem steps_unique (h : Relation.ReflTransGen (Removes rooted) l l')
    (hend : ∀ l'', ¬ Removes rooted l' l'') : l' = (normal rooted l).steps := by
  have hsame : normal rooted l = normal rooted l' := by
    clear hend
    induction h with
    | refl => rfl
    | tail _ hstep ih => exact ih.trans (normal_of_removes hstep)
  rw [hsame]
  rcases (removes_normal rooted l').cases_head with he | ⟨l'', hstep, -⟩
  · exact he
  · exact absurd hstep (hend l'')

/-! ## Walks -/

/-- The names that are left of a walk, if it never goes up from where it
began. -/
def walk : List N → List (Step N) → Option (List N)
  | stack, [] => some stack
  | stack, .here :: rest => walk stack rest
  | stack, .name n :: rest => walk (stack ++ [n]) rest
  | stack, .up :: rest => if stack.isEmpty then none else walk stack.dropLast rest

/-- A walk that stays below goes on from any place as it does from there. -/
theorem foldl_enter_of_walk {stack stack' : List N} (h : walk stack l = some stack') (d : Normal N) :
    l.foldl Normal.enter (d.down (d.names ++ stack)) = d.down (d.names ++ stack') := by
  induction l generalizing stack with
  | nil =>
      cases h
      rfl
  | cons s l ih =>
      rw [List.foldl_cons]
      cases s with
      | here => exact ih h
      | name n =>
          have henter : (d.down (d.names ++ stack)).enter (.name n) =
              d.down (d.names ++ (stack ++ [n])) := by simp [Normal.enter, Normal.down]
          rw [henter]
          exact ih h
      | up =>
          rw [walk] at h
          split at h
          · cases h
          · rename_i hne
            obtain ⟨names, n, rfl⟩ :=
              (List.eq_nil_or_concat' stack).resolve_left fun he => hne (by rw [he]; rfl)
            have henter : (d.down (d.names ++ (names ++ [n]))).enter .up =
                d.down (d.names ++ names) :=
              Normal.enter_up_append (d := d.down _) (List.append_assoc _ _ _).symm
            rw [henter]
            rw [List.dropLast_concat] at h
            exact ih h

/-- A walk that does not has its steps up in the normal form. -/
theorem ups_of_walk_none (hd : d.rooted = false) (h : walk d.names l = none) :
    d.ups < (l.foldl Normal.enter d).ups := by
  have hmono : ∀ (l : List (Step N)) (d : Normal N), d.rooted = false →
      d.ups ≤ (l.foldl Normal.enter d).ups := by
    intro l
    induction l with
    | nil => exact fun d _ => Nat.le_refl _
    | cons s l ih =>
        intro d hd
        refine Nat.le_trans ?_ (ih (d.enter s) ((Normal.enter_rooted s).trans hd))
        cases s with
        | here | name n => exact Nat.le_refl _
        | up =>
            simp only [Normal.enter]
            split
            · simp [Normal.above, hd]
            · exact Nat.le_refl _
  induction l generalizing d with
  | nil => cases h
  | cons s l ih =>
      rw [List.foldl_cons]
      cases s with
      | here => exact ih hd h
      | name n => exact ih (d := d.down (d.names ++ [n])) hd h
      | up =>
          rw [walk] at h
          split at h
          · rename_i he
            rw [Normal.enter_up_nil (List.isEmpty_iff.mp he)]
            refine Nat.lt_of_lt_of_le ?_ (hmono l d.above hd)
            simp [Normal.above, hd]
          · rename_i hne
            have henter : d.enter .up = d.down d.names.dropLast := if_neg hne
            rw [henter]
            exact ih (d := d.down d.names.dropLast) hd h

/-- The normal form of a walk leads up exactly if the walk does. -/
theorem ups_normal_iff : (normal false l).ups = 0 ↔ (walk [] l).isSome := by
  cases h : walk ([] : List N) l with
  | none =>
      have hups := ups_of_walk_none (d := .start N false) rfl h
      simp only [normal, Option.isSome_none, Bool.false_eq_true, iff_false]
      exact Nat.ne_of_gt (Nat.lt_of_le_of_lt (Nat.zero_le _) hups)
  | some stack =>
      have hfold := foldl_enter_of_walk h (.start N false)
      have hups := congrArg Normal.ups hfold
      exact iff_of_true hups rfl

/-! ## Below -/

/-- At `d`, or below it. -/
structure Below (d p : Normal N) : Prop where
  rooted : p.rooted = d.rooted
  ups : p.ups = d.ups
  names : d.names <+: p.names

theorem Below.refl (d : Normal N) : Below d d := ⟨rfl, rfl, List.prefix_rfl⟩

theorem Below.trans {q : Normal N} (h : Below d p) (h' : Below p q) : Below d q :=
  ⟨h'.rooted.trans h.rooted, h'.ups.trans h.ups, h.names.trans h'.names⟩

theorem below_of_walk {stack : List N} (h : walk [] l = some stack) :
    normal rooted (base ++ l) = (normal rooted base).down ((normal rooted base).names ++ stack) := by
  rw [normal_append]
  have hfold := foldl_enter_of_walk h (normal rooted base)
  rwa [List.append_nil] at hfold

/-- What a walk that never climbs out leads to lies below where it began. -/
theorem below_join (h : (walk [] l).isSome) :
    Below (normal rooted base) (normal rooted (base ++ l)) := by
  obtain ⟨stack, hstack⟩ := Option.isSome_iff_exists.mp h
  rw [below_of_walk hstack]
  exact ⟨rfl, rfl, List.prefix_append _ _⟩

/-- A walk without a step up never climbs. -/
theorem walk_of_no_up {stack : List N} (h : Step.up ∉ l) : (walk stack l).isSome := by
  induction l generalizing stack with
  | nil => rfl
  | cons s l ih =>
      have hl : Step.up ∉ l := fun hm => h (List.mem_cons_of_mem s hm)
      cases s with
      | here | name n => exact ih hl
      | up => exact absurd List.mem_cons_self h

end Yirang.Lexical
