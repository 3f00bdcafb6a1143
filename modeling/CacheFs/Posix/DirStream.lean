/-
  CacheFs.Posix.DirStream

  A directory that is read entry by entry while entries come and go.

  POSIX bounds what a directory stream returns from both sides: an entry that is there
  from `opendir` on is returned once before the end is reported, and one that is added or
  removed meanwhile may be returned or not.
-/

import CacheFs.Posix.Tree

namespace CacheFs.Posix

/-- What a directory stream has ahead of it. -/
structure DirStream (α : Type) where
  /-- The entries it may still return. -/
  may : List α
  /-- The entries it has to return before its end. -/
  must : List α
  must_may : ∀ a ∈ must, a ∈ may

namespace DirStream

variable {α : Type}

/-- The stream of a directory with these entries. -/
def start (entries : List α) : DirStream α := ⟨entries, entries, fun _ h => h⟩

/-- The stream has returned `a`, an entry from the start, `k` times: once, and then never
    again, or not yet. -/
def Returned (d : DirStream α) (a : α) (k : Nat) : Prop :=
  a ∈ d.must ∧ k = 0 ∨ a ∉ d.may ∧ k = 1

theorem returned_start {entries : List α} {a : α} (h : a ∈ entries) :
    (start entries).Returned a 0 :=
  Or.inl ⟨h, rfl⟩

theorem Returned.le_one {d : DirStream α} {a : α} {k : Nat} (h : d.Returned a k) : k ≤ 1 := by
  rcases h with ⟨-, rfl⟩ | ⟨-, rfl⟩ <;> decide

/-- At the end of the stream the entry has been returned. -/
theorem Returned.eq_one {d : DirStream α} {a : α} {k : Nat} (h : d.Returned a k)
    (hend : d.must = []) : k = 1 := by
  rcases h with ⟨hmust, -⟩ | ⟨-, rfl⟩
  · exact absurd hmust (by simp [hend])
  · rfl

variable [DecidableEq α]

/-- The stream after it has returned `a`. -/
def advance (d : DirStream α) (a : α) : DirStream α where
  may := d.may.filter (· ≠ a)
  must := d.must.filter (· ≠ a)
  must_may b hb := by
    rw [List.mem_filter] at hb ⊢
    exact ⟨d.must_may b hb.1, hb.2⟩

/-- The stream after the entries of the directory have changed. -/
def change (d : DirStream α) (before after : List α) : DirStream α where
  may := d.may ++ after.filter (· ∉ before)
  must := d.must.filter (· ∈ after)
  must_may b hb := List.mem_append_left _ (d.must_may b (List.mem_of_mem_filter hb))

@[simp] theorem mem_may_advance (d : DirStream α) (a b : α) :
    b ∈ (d.advance a).may ↔ b ∈ d.may ∧ b ≠ a := by
  simp [advance]

@[simp] theorem mem_must_advance (d : DirStream α) (a b : α) :
    b ∈ (d.advance a).must ↔ b ∈ d.must ∧ b ≠ a := by
  simp [advance]

@[simp] theorem mem_may_change (d : DirStream α) (before after : List α) (b : α) :
    b ∈ (d.change before after).may ↔ b ∈ d.may ∨ b ∈ after ∧ b ∉ before := by
  simp [change]

@[simp] theorem mem_must_change (d : DirStream α) (before after : List α) (b : α) :
    b ∈ (d.change before after).must ↔ b ∈ d.must ∧ b ∈ after := by
  simp [change]

theorem Returned.advance {d : DirStream α} {a b : α} {k : Nat} (h : d.Returned a k)
    (hb : b ∈ d.may) : (d.advance b).Returned a (k + if b = a then 1 else 0) := by
  by_cases hba : b = a
  · subst hba
    rcases h with ⟨-, rfl⟩ | ⟨hnot, -⟩
    · exact Or.inr ⟨by simp, by simp⟩
    · exact absurd hb hnot
  · rw [if_neg hba, Nat.add_zero]
    rcases h with ⟨hmust, rfl⟩ | ⟨hnot, rfl⟩
    · exact Or.inl ⟨by simp [hmust, Ne.symm hba], rfl⟩
    · exact Or.inr ⟨by simp [hnot], rfl⟩

/-- An entry that stays is not affected when others come and go. -/
theorem Returned.change {d : DirStream α} {a : α} {k : Nat} (h : d.Returned a k)
    {before after : List α} (hbefore : a ∈ before) (hafter : a ∈ after) :
    (d.change before after).Returned a k := by
  rcases h with ⟨hmust, rfl⟩ | ⟨hnot, rfl⟩
  · exact Or.inl ⟨by simp [hmust, hafter], rfl⟩
  · exact Or.inr ⟨by simp [hnot, hbefore], rfl⟩

end DirStream

-- ============================================================================
-- The entries of a directory
-- ============================================================================

/-- The entries of the directory `i`; one that has been removed has none. -/
def Fs.entries (fs : Fs) (i : Ino) : List Path :=
  if fs.names.any fun e => e.2 = i then
    ['.'] :: ['.', '.'] ::
      (fs.names.filter fun e => fs.lookup (dirname e.1) = some i).map fun e => basename e.1
  else []

end CacheFs.Posix
