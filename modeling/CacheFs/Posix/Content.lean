/-
  CacheFs.Posix.Content

  File content as a list: what `pread`, `pwrite` and `truncate` do to it.

  A file is the list of its bytes, so its size is the length of the list.  A
  read returns the bytes that exist in the requested range; a write past the end
  leaves a hole that reads as zeros; truncation cuts the file or extends it with
  zeros.  Each operation has a length lemma and an element characterization
  (`_getElem?`), and everything else is derived from these.
-/

import Mathlib.Algebra.BigOperators.Ring.Finset
import Mathlib.Algebra.Order.BigOperators.Group.List
import Mathlib.Data.List.Perm.Subperm
import Mathlib.Data.PNat.Defs
import Mathlib.Data.PNat.Notation
import Mathlib.Data.UInt
import Mathlib.Tactic.SplitIfs

namespace CacheFs.Posix

variable {α : Type}

/-! ## pread -/

/-- The bytes a read of `n` bytes at `off` transfers. -/
def pread (data : List α) (n off : Nat) : List α := (data.drop off).take n

theorem pread_length (data : List α) (n off : Nat) :
    (pread data n off).length = min n (data.length - off) := by
  simp [pread]

theorem pread_getElem? (data : List α) (n off i : Nat) :
    (pread data n off)[i]? = if i < n then data[off + i]? else none := by
  rw [pread, List.getElem?_take, List.getElem?_drop]

/-- A read is complete where the file has all of its range. -/
theorem pread_length_eq_iff {data : List α} {n off : Nat} :
    (pread data n off).length = n ↔ n = 0 ∨ off + n ≤ data.length := by
  rw [pread_length]
  omega

/-- A read depends on the bytes of its range only. -/
theorem pread_congr {data data' : List α} {n off : Nat}
    (h : ∀ i, off ≤ i → i < off + n → data'[i]? = data[i]?) :
    pread data' n off = pread data n off := by
  refine List.ext_getElem? fun j => ?_
  rw [pread_getElem?, pread_getElem?]
  split
  · exact h (off + j) (by omega) (by omega)
  · rfl

/-! ## pwrite -/

variable [Zero α]

/-- The content after `buf` has been written at `off`.  A write of no bytes
    leaves the file alone, also past its end. -/
def pwrite (data buf : List α) (off : Nat) : List α :=
  if buf = [] then data
  else data.take off ++ List.replicate (off - data.length) 0 ++ buf ++
    data.drop (off + buf.length)

@[simp] theorem pwrite_nil (data : List α) (off : Nat) : pwrite data [] off = data := by
  simp [pwrite]

theorem pwrite_length (data buf : List α) (off : Nat) (h : buf ≠ []) :
    (pwrite data buf off).length = max data.length (off + buf.length) := by
  simp only [pwrite, if_neg h, List.length_append, List.length_take, List.length_replicate,
    List.length_drop]
  omega

/-- Element characterization of a write: the written window, then the old
    content, then the hole between the old end and the window. -/
theorem pwrite_getElem? (data buf : List α) (off i : Nat) (h : buf ≠ []) :
    (pwrite data buf off)[i]? =
      if off ≤ i ∧ i < off + buf.length then buf[i - off]?
      else if i < data.length then data[i]?
      else if i < off then some 0 else none := by
  have htk : (data.take off).length = min off data.length := List.length_take
  have hrep : (List.replicate (off - data.length) (0 : α)).length = off - data.length :=
    List.length_replicate
  simp only [pwrite, if_neg h, List.append_assoc]
  by_cases hw : off ≤ i ∧ i < off + buf.length
  · rw [if_pos hw, List.getElem?_append_right (by omega),
      List.getElem?_append_right (by omega), List.getElem?_append_left (by omega)]
    congr 1
    omega
  · rw [if_neg hw]
    by_cases hi : i < data.length
    · rw [if_pos hi]
      by_cases hoff : i < off
      · rw [List.getElem?_append_left (by omega), List.getElem?_take, if_pos hoff]
      · rw [List.getElem?_append_right (by omega), List.getElem?_append_right (by omega),
          List.getElem?_append_right (by omega), List.getElem?_drop]
        congr 1
        omega
    · rw [if_neg hi]
      by_cases hoff : i < off
      · rw [if_pos hoff, List.getElem?_append_right (by omega),
          List.getElem?_append_left (by omega), List.getElem?_replicate, if_pos (by omega)]
      · rw [if_neg hoff, List.getElem?_eq_none]
        simp only [List.length_append, List.length_drop]
        omega

/-- A byte that exists and lies outside the written window stays. -/
theorem pwrite_getElem?_frame {data buf : List α} {off i : Nat}
    (hi : i < data.length) (hw : i < off ∨ off + buf.length ≤ i) :
    (pwrite data buf off)[i]? = data[i]? := by
  by_cases h : buf = []
  · rw [h, pwrite_nil]
  · rw [pwrite_getElem? _ _ _ _ h, if_neg (by omega), if_pos hi]

/-- A byte of the written window is the byte of the buffer. -/
theorem pwrite_getElem?_window {data buf : List α} {off i : Nat}
    (hlo : off ≤ i) (hhi : i < off + buf.length) :
    (pwrite data buf off)[i]? = buf[i - off]? := by
  have h : buf ≠ [] := by
    rintro rfl
    simp only [List.length_nil] at hhi
    omega
  rw [pwrite_getElem? _ _ _ _ h, if_pos ⟨hlo, hhi⟩]

/-- Behind the written window nothing changes. -/
theorem pwrite_getElem?_behind {data buf : List α} {off i : Nat} (hi : off + buf.length ≤ i) :
    (pwrite data buf off)[i]? = data[i]? := by
  by_cases h : buf = []
  · rw [h, pwrite_nil]
  · rw [pwrite_getElem? _ _ _ _ h, if_neg (by omega)]
    split
    · rfl
    · rw [if_neg (by omega), List.getElem?_eq_none (by omega)]

/-! ## truncate -/

/-- The content after the file has been cut or extended to `n` bytes. -/
def truncate (data : List α) (n : Nat) : List α :=
  data.take n ++ List.replicate (n - data.length) 0

@[simp] theorem truncate_length (data : List α) (n : Nat) : (truncate data n).length = n := by
  simp only [truncate, List.length_append, List.length_take, List.length_replicate]
  omega

theorem truncate_getElem? (data : List α) (n i : Nat) :
    (truncate data n)[i]? =
      if i < n then (if i < data.length then data[i]? else some 0) else none := by
  by_cases hn : i < n
  · rw [if_pos hn, truncate]
    by_cases hi : i < data.length
    · rw [if_pos hi, List.getElem?_append_left (by rw [List.length_take]; omega),
        List.getElem?_take, if_pos hn]
    · rw [if_neg hi, List.getElem?_append_right (by rw [List.length_take]; omega),
        List.getElem?_replicate, if_pos (by rw [List.length_take]; omega)]
  · rw [if_neg hn, List.getElem?_eq_none]
    rw [truncate_length]
    omega

/-! ## Buffers -/

/-- A buffer whose bytes from `pos` on have been overwritten by `bytes`. -/
def overwrite {β : Type} (buf : List β) (pos : Nat) (bytes : List β) : List β :=
  buf.take pos ++ bytes ++ buf.drop (pos + bytes.length)

theorem overwrite_length {β : Type} (buf : List β) (pos : Nat) (bytes : List β)
    (h : pos + bytes.length ≤ buf.length) :
    (overwrite buf pos bytes).length = buf.length := by
  simp only [overwrite, List.length_append, List.length_take, List.length_drop]
  omega

theorem overwrite_getElem? {β : Type} (buf : List β) (pos : Nat) (bytes : List β) (i : Nat)
    (h : pos + bytes.length ≤ buf.length) :
    (overwrite buf pos bytes)[i]? =
      if pos ≤ i ∧ i < pos + bytes.length then bytes[i - pos]? else buf[i]? := by
  have htk : (buf.take pos).length = pos := by rw [List.length_take]; omega
  simp only [overwrite, List.append_assoc]
  by_cases hw : pos ≤ i ∧ i < pos + bytes.length
  · rw [if_pos hw, List.getElem?_append_right (by omega),
      List.getElem?_append_left (by omega), htk]
  · rw [if_neg hw]
    by_cases hlt : i < pos
    · rw [List.getElem?_append_left (by omega), List.getElem?_take, if_pos hlt]
    · rw [List.getElem?_append_right (by omega), List.getElem?_append_right (by omega),
        List.getElem?_drop, htk]
      congr 1
      omega

end CacheFs.Posix
