/-
  CacheFs.Posix.Agree

  A copy that agrees with its master on a range of positions.

  Agreement is asked only where the master has bytes: what the copy holds beyond
  the end of the master does not matter, until the master grows.  Two lemmas say
  when a write to one side keeps the agreement (`pwrite_master`, `pwrite_copy`),
  one says how a write to the copy establishes it (`fill`), and those for
  truncation are equivalences.

  `AgreeOff` compares two lists of one length everywhere except at some positions, and
  says how the operations on files and buffers move those positions.
-/

import CacheFs.Posix.Content

namespace CacheFs.Posix

variable {α : Type}

/-- `copy` holds the bytes of `master` at the positions from `lo` up to `hi`. -/
def Agree (lo hi : Nat) (copy master : List α) : Prop :=
  ∀ i, lo ≤ i → i < hi → i < master.length → copy[i]? = master[i]?

namespace Agree

variable {lo hi : Nat} {copy master : List α}

/-- Where the master has a byte, so has the copy. -/
theorem lt_length (h : Agree lo hi copy master) {i : Nat} (h₁ : lo ≤ i) (h₂ : i < hi)
    (hm : i < master.length) : i < copy.length := by
  have hi := h i h₁ h₂ hm
  rw [List.getElem?_eq_getElem hm] at hi
  exact (List.getElem?_eq_some_iff.mp hi).1

/-- Blocks of length `b₁` agree.  A block of length `b₂` agrees exactly when the
    positions in it that none of them covers do. -/
theorem regrid_iff {recorded : Nat → Prop} {b₁ b₂ : Nat}
    (h : ∀ o, recorded o → Agree o (o + b₁) copy master) (off : Nat) :
    Agree off (off + b₂) copy master ↔
      ∀ i, off ≤ i → i < off + b₂ → i < master.length →
        (∀ o, recorded o → i < o ∨ o + b₁ ≤ i) → copy[i]? = master[i]? := by
  constructor
  · exact fun hag i h₁ h₂ hm _ => hag i h₁ h₂ hm
  · intro hrest i h₁ h₂ hm
    by_cases hcov : ∃ o, recorded o ∧ o ≤ i ∧ i < o + b₁
    · obtain ⟨o, ho, hlo, hhi⟩ := hcov
      exact h o ho i hlo hhi hm
    · refine hrest i h₁ h₂ hm fun o ho => ?_
      by_contra hin
      exact hcov ⟨o, ho, by omega, by omega⟩

variable [Zero α] {buf : List α} {off : Nat}

/-- A write to the master that changes nothing in the range: neither the bytes
    written nor the hole before them meet it. -/
theorem pwrite_master (h : Agree lo hi copy master)
    (hout : ∀ i, lo ≤ i → i < hi → min off master.length ≤ i → off + buf.length ≤ i) :
    Agree lo hi copy (pwrite master buf off) := by
  by_cases hbuf : buf = []
  · rwa [hbuf, pwrite_nil]
  intro i h₁ h₂ hm
  rw [pwrite_length _ _ _ hbuf] at hm
  have hrange := hout i h₁ h₂
  have hlt : i < master.length := by omega
  rw [pwrite_getElem?_frame hlt (by omega)]
  exact h i h₁ h₂ hlt

/-- A write to the copy outside the range. -/
theorem pwrite_copy (h : Agree lo hi copy master) (hout : hi ≤ off ∨ off + buf.length ≤ lo) :
    Agree lo hi (pwrite copy buf off) master := by
  intro i h₁ h₂ hm
  rw [pwrite_getElem?_frame (h.lt_length h₁ h₂ hm) (by omega)]
  exact h i h₁ h₂ hm

/-- A write of bytes of the master, wherever it goes. -/
theorem pwrite_of_master (h : Agree lo hi copy master)
    (hbuf : ∀ j < buf.length, off + j < master.length → buf[j]? = master[off + j]?) :
    Agree lo hi (pwrite copy buf off) master := by
  intro i h₁ h₂ hm
  by_cases hin : off ≤ i ∧ i < off + buf.length
  · have hj := hbuf (i - off) (by omega)
    rw [Nat.add_sub_cancel' hin.1] at hj
    rw [pwrite_getElem?_window hin.1 hin.2]
    exact hj hm
  · rw [pwrite_getElem?_frame (h.lt_length h₁ h₂ hm) (by omega)]
    exact h i h₁ h₂ hm

/-- Writing bytes of the master to the copy. -/
theorem fill (hbuf : ∀ j < buf.length, off + j < master.length → buf[j]? = master[off + j]?)
    (hlo : off ≤ lo) (hhi : hi ≤ off + buf.length) : Agree lo hi (pwrite copy buf off) master := by
  intro i h₁ h₂ hm
  have hj := hbuf (i - off) (by omega)
  rw [Nat.add_sub_cancel' (by omega)] at hj
  rw [pwrite_getElem?_window (by omega) (by omega)]
  exact hj hm

/-! Truncation: which bytes beyond the old end of the master matter. -/

/-- Resizing the master only: where it grows, the copy must hold zeros. -/
theorem truncate_master_iff (h : Agree lo hi copy master) (n : Nat) :
    Agree lo hi copy (truncate master n) ↔
      ∀ i, lo ≤ i → i < hi → master.length ≤ i → i < n → copy[i]? = some 0 := by
  constructor
  · intro hag i h₁ h₂ hm hn
    have hi := hag i h₁ h₂ (by rwa [truncate_length])
    rwa [truncate_getElem?, if_pos hn, if_neg (by omega)] at hi
  · intro hzero i h₁ h₂ hn
    rw [truncate_length] at hn
    rw [truncate_getElem?, if_pos hn]
    by_cases hm : i < master.length
    · rw [if_pos hm]
      exact h i h₁ h₂ hm
    · rw [if_neg hm]
      exact hzero i h₁ h₂ (by omega) hn

/-- Resizing both: the copy may also end where the master grows. -/
theorem truncate_both_iff (h : Agree lo hi copy master) (n : Nat) :
    Agree lo hi (truncate copy n) (truncate master n) ↔
      ∀ i, lo ≤ i → i < hi → master.length ≤ i → i < n → copy[i]?.getD 0 = 0 := by
  have hcopy : ∀ i < n, (truncate copy n)[i]? = some (copy[i]?.getD 0) := by
    intro i hn
    rw [truncate_getElem?, if_pos hn]
    split
    · next hc => rw [List.getElem?_eq_getElem hc, Option.getD_some]
    · next hc => rw [List.getElem?_eq_none (by omega), Option.getD_none]
  constructor
  · intro hag i h₁ h₂ hm hn
    have hi := hag i h₁ h₂ (by rwa [truncate_length])
    rw [hcopy i hn, truncate_getElem?, if_pos hn, if_neg (by omega)] at hi
    exact Option.some.inj hi
  · intro hzero i h₁ h₂ hn
    rw [truncate_length] at hn
    rw [hcopy i hn, truncate_getElem?, if_pos hn]
    by_cases hm : i < master.length
    · rw [if_pos hm, h i h₁ h₂ hm, List.getElem?_eq_getElem hm, Option.getD_some]
    · rw [if_neg hm, hzero i h₁ h₂ (by omega) hn]

/-- Resizing the copy only: no byte of the master may be cut off. -/
theorem truncate_copy_iff (h : Agree lo hi copy master) (n : Nat) :
    Agree lo hi (truncate copy n) master ↔
      ∀ i, lo ≤ i → i < hi → n ≤ i → master.length ≤ i := by
  constructor
  · intro hag i h₁ h₂ hn
    by_contra hm
    have hlt := hag.lt_length h₁ h₂ (by omega)
    rw [truncate_length] at hlt
    omega
  · intro hcut i h₁ h₂ hm
    have hn : i < n := by
      by_contra hn
      have hle := hcut i h₁ h₂ (by omega)
      omega
    rw [truncate_getElem?, if_pos hn, if_pos (h.lt_length h₁ h₂ hm)]
    exact h i h₁ h₂ hm

end Agree

/-- Two different multiples of the block size are a block apart. -/
theorem aligned_apart {bs a b : Nat} (ha : a % bs = 0) (hb : b % bs = 0) (hne : a ≠ b) :
    a + bs ≤ b ∨ b + bs ≤ a := by
  obtain ⟨k, rfl⟩ := Nat.dvd_of_mod_eq_zero ha
  obtain ⟨l, rfl⟩ := Nat.dvd_of_mod_eq_zero hb
  rcases Nat.lt_or_ge k l with hlt | hge
  · exact Or.inl (by rw [← Nat.mul_succ]; exact Nat.mul_le_mul_left bs hlt)
  · rcases Nat.lt_or_eq_of_le hge with hlt | heq
    · exact Or.inr (by rw [← Nat.mul_succ]; exact Nat.mul_le_mul_left bs hlt)
    · exact absurd (by rw [heq]) hne

/-! Two lists that differ at known positions. -/

/-- The lists have one length and the same elements except at the positions `bad`. -/
structure AgreeOff (bad : Nat → Prop) (xs ys : List α) : Prop where
  length : ys.length = xs.length
  get : ∀ i, ¬ bad i → ys[i]? = xs[i]?

namespace AgreeOff

variable {bad bad' : Nat → Prop} {xs ys : List α}

theorem refl (bad : Nat → Prop) (xs : List α) : AgreeOff bad xs xs := ⟨rfl, fun _ _ => rfl⟩

theorem mono (h : AgreeOff bad xs ys) (hbad : ∀ i, bad i → bad' i) : AgreeOff bad' xs ys :=
  ⟨h.length, fun i hi => h.get i fun hb => hi (hbad i hb)⟩

/-- Lists of one length agree off all positions. -/
theorem of_length (hlen : ys.length = xs.length) (hbad : ∀ i < xs.length, bad i) :
    AgreeOff bad xs ys := by
  refine ⟨hlen, fun i hi => ?_⟩
  have hge : xs.length ≤ i := by
    by_contra hlt
    exact hi (hbad i (by omega))
  rw [List.getElem?_eq_none hge, List.getElem?_eq_none (by omega)]

theorem drop (h : AgreeOff bad xs ys) (n : Nat) :
    AgreeOff (fun i => bad (n + i)) (xs.drop n) (ys.drop n) := by
  refine ⟨by rw [List.length_drop, List.length_drop, h.length], fun i hi => ?_⟩
  rw [List.getElem?_drop, List.getElem?_drop]
  exact h.get _ hi

theorem take (h : AgreeOff bad xs ys) (n : Nat) : AgreeOff bad (xs.take n) (ys.take n) := by
  refine ⟨by rw [List.length_take, List.length_take, h.length], fun i hi => ?_⟩
  rw [List.getElem?_take, List.getElem?_take]
  split
  · exact h.get i hi
  · rfl

theorem pread (h : AgreeOff bad xs ys) (n off : Nat) :
    AgreeOff (fun i => bad (off + i)) (Posix.pread xs n off) (Posix.pread ys n off) :=
  (h.drop off).take n

theorem overwrite {buf buf' : List α} {pos : Nat} (hbuf : AgreeOff bad buf buf')
    (h : AgreeOff bad' xs ys) (hroom : pos + xs.length ≤ buf.length) :
    AgreeOff (fun i => if pos ≤ i ∧ i < pos + xs.length then bad' (i - pos) else bad i)
      (Posix.overwrite buf pos xs) (Posix.overwrite buf' pos ys) := by
  have hroom' : pos + ys.length ≤ buf'.length := by rw [h.length, hbuf.length]; exact hroom
  constructor
  · rw [overwrite_length _ _ _ hroom, overwrite_length _ _ _ hroom', hbuf.length]
  · intro i hi
    rw [overwrite_getElem? _ _ _ _ hroom, overwrite_getElem? _ _ _ _ hroom', h.length]
    split
    · next hin =>
        rw [if_pos hin] at hi
        exact h.get _ hi
    · next hout =>
        rw [if_neg hout] at hi
        exact hbuf.get i hi

theorem pwrite [Zero α] {data data' : List α} {off : Nat} (hdata : AgreeOff bad data data')
    (h : AgreeOff bad' xs ys) :
    AgreeOff (fun i => if off ≤ i ∧ i < off + xs.length then bad' (i - off) else bad i)
      (Posix.pwrite data xs off) (Posix.pwrite data' ys off) := by
  by_cases hxs : xs = []
  · have hys : ys = [] := by rw [← List.length_eq_zero_iff, h.length, hxs, List.length_nil]
    rw [hxs, hys, pwrite_nil, pwrite_nil]
    refine hdata.mono fun i hi => ?_
    rwa [if_neg (by rw [List.length_nil]; omega)]
  · have hys : ys ≠ [] := by
      rw [← List.length_pos_iff, h.length]
      exact List.length_pos_iff.mpr hxs
    constructor
    · rw [pwrite_length _ _ _ hxs, pwrite_length _ _ _ hys, hdata.length, h.length]
    · intro i hi
      rw [pwrite_getElem? _ _ _ _ hxs, pwrite_getElem? _ _ _ _ hys, hdata.length, h.length]
      split
      · next hin =>
          rw [if_pos hin] at hi
          exact h.get _ hi
      · next hout =>
          rw [if_neg hout] at hi
          rw [hdata.get i hi]

end AgreeOff

end CacheFs.Posix
