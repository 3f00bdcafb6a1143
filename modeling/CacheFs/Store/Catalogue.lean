/-
  CacheFs.Store.Catalogue

  Catalogues: the names that are entered, and the items that are listed under each.

  A catalogue is a partial map from names to sets of items.  Two catalogues are equal when
  they have the same names and items (`ext_lists`); the effect of each operation on both is a
  simp lemma, so an implementation is shown to follow an operation by what it answers.
-/

import Mathlib.Data.Set.Insert
import Mathlib.Logic.Function.Basic

namespace CacheFs.Store

/-- The items that are listed under each name; `none` for a name that is not entered. -/
abbrev Catalogue (N O : Type) : Type := N → Option (Set O)

namespace Catalogue

variable {N O : Type} {s t : Catalogue N O} {m n : N} {o : O} {os os' : Set O}

def Entered (s : Catalogue N O) (n : N) : Prop := (s n).isSome = true

def Lists (s : Catalogue N O) (n : N) (o : O) : Prop := ∃ os, s n = some os ∧ o ∈ os

/-- A catalogue is what it answers. -/
theorem ext_lists (hname : ∀ n, s.Entered n ↔ t.Entered n)
    (hitem : ∀ n o, s.Lists n o ↔ t.Lists n o) : s = t := by
  funext n
  have hn := hname n
  have hi := hitem n
  unfold Entered at hn
  unfold Lists at hi
  cases hs : s n with
  | none =>
      rw [hs] at hn
      exact (Option.not_isSome_iff_eq_none.mp fun h => absurd (hn.mpr h) (by simp)).symm
  | some os =>
      rw [hs] at hn hi
      obtain ⟨os', ht⟩ := Option.isSome_iff_exists.mp (hn.mp rfl)
      rw [ht] at hi ⊢
      exact congrArg some (Set.ext fun o => by simpa using hi o)

-- ============================================================================
-- Operations
-- ============================================================================

variable [DecidableEq N]

/-- Enter a name; it keeps its items if it has been entered before. -/
def enter (s : Catalogue N O) (n : N) : Catalogue N O :=
  Function.update s n (some ((s n).getD ∅))

def forget (s : Catalogue N O) (n : N) : Catalogue N O := Function.update s n none

/-- List items under a name, if it has been entered. -/
def add (s : Catalogue N O) (n : N) (os : Set O) : Catalogue N O :=
  Function.update s n ((s n).map (· ∪ os))

def remove (s : Catalogue N O) (n : N) (os : Set O) : Catalogue N O :=
  Function.update s n ((s n).map (· \ os))

@[simp] theorem entered_enter : (s.enter n).Entered m ↔ s.Entered m ∨ m = n := by
  unfold Entered enter
  by_cases h : m = n <;> simp [h]

@[simp] theorem lists_enter : (s.enter n).Lists m o ↔ s.Lists m o := by
  unfold Lists enter
  by_cases h : m = n
  · subst h
    cases s m <;> simp
  · simp [h]

@[simp] theorem entered_forget : (s.forget n).Entered m ↔ s.Entered m ∧ m ≠ n := by
  unfold Entered forget
  by_cases h : m = n <;> simp [h]

@[simp] theorem lists_forget : (s.forget n).Lists m o ↔ s.Lists m o ∧ m ≠ n := by
  unfold Lists forget
  by_cases h : m = n <;> simp [h]

@[simp] theorem entered_add : (s.add n os).Entered m ↔ s.Entered m := by
  unfold Entered add
  by_cases h : m = n <;> simp [h]

@[simp] theorem lists_add :
    (s.add n os).Lists m o ↔ s.Lists m o ∨ (m = n ∧ s.Entered n ∧ o ∈ os) := by
  unfold Lists Entered add
  by_cases h : m = n
  · subst h
    cases s m <;> simp
  · simp [h]

@[simp] theorem entered_remove : (s.remove n os).Entered m ↔ s.Entered m := by
  unfold Entered remove
  by_cases h : m = n <;> simp [h]

@[simp] theorem lists_remove :
    (s.remove n os).Lists m o ↔ s.Lists m o ∧ ¬ (m = n ∧ o ∈ os) := by
  unfold Lists remove
  by_cases h : m = n
  · subst h
    cases s m <;> simp
  · simp [h]

-- ============================================================================
-- Laws
-- ============================================================================

theorem add_add : (s.add n os).add n os' = s.add n (os ∪ os') :=
  ext_lists (by simp) fun m o => by
    simp only [lists_add, entered_add, Set.mem_union]
    rw [or_assoc, ← and_or_left, ← and_or_left]

theorem remove_remove : (s.remove n os).remove n os' = s.remove n (os ∪ os') :=
  ext_lists (by simp) fun m o => by
    simp only [lists_remove, Set.mem_union]
    rw [and_assoc, ← not_or, ← and_or_left]

@[simp] theorem add_empty : s.add n ∅ = s := ext_lists (by simp) (by simp)

@[simp] theorem remove_empty : s.remove n ∅ = s := ext_lists (by simp) (by simp)

/-- What is listed, or has nowhere to be listed, is not added. -/
theorem add_of_listed (h : ¬ s.Entered n ∨ s.Lists n o) : s.add n {o} = s :=
  ext_lists (by simp) fun m o' => by
    simp only [lists_add, Set.mem_singleton_iff]
    constructor
    · rintro (h' | ⟨rfl, hn, rfl⟩)
      · exact h'
      · exact h.resolve_left (not_not_intro hn)
    · exact Or.inl

theorem enter_of_entered (h : s.Entered n) : s.enter n = s :=
  ext_lists (fun m => by
    rw [entered_enter]
    exact or_iff_left_of_imp fun hm => hm ▸ h) (by simp)

end Catalogue

end CacheFs.Store
