/-
  CacheFs.ReRead

  How much `cfs_write` reads back from the NAS, in the words of the source.

  After its write to the NAS `cfs_write` reads the aligned window back into a buffer
  of that size.  When the window passes the end of the file the count becomes what the
  file has from `lowerOffset` on, an unsigned difference: nothing checks that the window
  starts before the end.  A write that put bytes on the NAS made the file that long;
  one that failed, or put none there, may leave the whole window behind the end.
-/

import Mathlib.Order.Interval.Finset.Nat
import CacheFs.Transfer

namespace CacheFs

open CacheFs.Effect
open CacheFs.Posix

-- ============================================================================
-- The functions of the source, on 64-bit words
-- ============================================================================

/-- `alignLowerOffset` of `cacheHelp.c`: `offset` is converted to `size_t`. -/
def alignLowerOffset64 (blockSize offset : UInt64) : UInt64 := offset - offset % blockSize

/-- `alignedSize` of `cfs_write`. -/
def alignedSize64 (blockSize size : UInt64) : UInt64 :=
  let alignedSize := blockSize * (size / blockSize)
  if size % blockSize ≠ 0 then alignedSize + blockSize else alignedSize

/-- `nasReadSize` of `cfs_write`: the sum is a `size_t`, and so is the comparison. -/
def nasReadSize64 (alignedSize lowerOffset stSize : UInt64) : UInt64 :=
  if alignedSize + lowerOffset > stSize then stSize - lowerOffset else alignedSize

theorem toNat_alignLowerOffset64 (cfg : Config) {blockSize : UInt64}
    (hbs : blockSize.toNat = cfg.blockSize) (offset : UInt64) :
    (alignLowerOffset64 blockSize offset).toNat = cfg.alignLowerOffset offset.toNat := by
  have hle : offset % blockSize ≤ offset := by
    rw [UInt64.le_iff_toNat_le, UInt64.toNat_mod]
    exact Nat.mod_le _ _
  rw [alignLowerOffset64, UInt64.toNat_sub_of_le _ _ hle, UInt64.toNat_mod, hbs,
    Config.alignLowerOffset]

theorem toNat_alignedSize64 (cfg : Config) {blockSize : UInt64}
    (hbs : blockSize.toNat = cfg.blockSize) (size : UInt64) :
    (alignedSize64 blockSize size).toNat = cfg.alignedSize size.toNat % 2 ^ 64 := by
  have hzero : size % blockSize = 0 ↔ size.toNat % cfg.blockSize = 0 := by
    rw [← UInt64.toNat_inj, UInt64.toNat_mod, hbs]
    rfl
  rw [alignedSize64, Config.alignedSize]
  by_cases h : size % blockSize = 0
  · rw [if_neg (not_not.mpr h), if_neg (not_not.mpr (hzero.mp h)), UInt64.toNat_mul,
      UInt64.toNat_div, hbs]
  · rw [if_pos h, if_pos (mt hzero.mpr h), UInt64.toNat_add, UInt64.toNat_mul, UInt64.toNat_div,
      hbs, Nat.mod_add_mod]

/-- The words agree with the numbers of `cfsWrite` while the window ends below `2 ^ 64`. -/
theorem toNat_nasReadSize64 {alignedSize lowerOffset : UInt64} (stSize : UInt64)
    (hsum : alignedSize.toNat + lowerOffset.toNat < 2 ^ 64) :
    (nasReadSize64 alignedSize lowerOffset stSize).toNat =
      nasReadSize alignedSize.toNat lowerOffset.toNat stSize.toNat := by
  have hst := stSize.toNat_lt
  have hlow := lowerOffset.toNat_lt
  have hcmp : alignedSize + lowerOffset > stSize ↔
      stSize.toNat < alignedSize.toNat + lowerOffset.toNat := by
    rw [gt_iff_lt, UInt64.lt_iff_toNat_lt, UInt64.toNat_add, Nat.mod_eq_of_lt hsum]
  rw [nasReadSize64, nasReadSize]
  by_cases h : stSize.toNat < alignedSize.toNat + lowerOffset.toNat
  · rw [if_pos (hcmp.mpr h), if_pos h, UInt64.toNat_sub]
    unfold wrap64
    omega
  · rw [if_neg (mt hcmp.mp h), if_neg h]

/-- A count that fits the buffer and is what the file has of the window, for every end of
    the file: the window starts no later, and its own end does not wrap. -/
theorem nasReadSize64_fits_iff (alignedSize : UInt64) {lowerOffset stSize : UInt64}
    (hlow : lowerOffset.toNat < 2 ^ 63) (hst : stSize.toNat < 2 ^ 63) :
    ((nasReadSize64 alignedSize lowerOffset stSize).toNat ≤ alignedSize.toNat ∧
        (nasReadSize64 alignedSize lowerOffset stSize).toNat =
          min alignedSize.toNat (stSize.toNat - lowerOffset.toNat)) ↔
      lowerOffset.toNat ≤ stSize.toNat ∧ alignedSize.toNat + lowerOffset.toNat < 2 ^ 64 := by
  have ha := alignedSize.toNat_lt
  have hcmp : alignedSize + lowerOffset > stSize ↔
      stSize.toNat < (alignedSize.toNat + lowerOffset.toNat) % 2 ^ 64 := by
    rw [gt_iff_lt, UInt64.lt_iff_toNat_lt, UInt64.toNat_add]
  rw [nasReadSize64]
  by_cases h : stSize.toNat < (alignedSize.toNat + lowerOffset.toNat) % 2 ^ 64
  · rw [if_pos (hcmp.mpr h), UInt64.toNat_sub]
    omega
  · rw [if_neg (mt hcmp.mp h)]
    omega

-- ============================================================================
-- A write and its outcome on the NAS
-- ============================================================================

/-- A request of `cfs_write`, the size of the NAS file before it, and the number of bytes
    its `pwrite` put there at the offset, `none` when it failed: the descriptor is not open
    in append mode.  Offsets and sizes of files are not negative as `off_t`. -/
structure NasWrite where
  blockSize : UInt64
  size : UInt64
  offset : UInt64
  oldSize : UInt64
  written : Option UInt64
  blockSize_pos : 0 < blockSize
  offset_lt : offset.toNat < 2 ^ 63
  oldSize_lt : oldSize.toNat < 2 ^ 63
  written_le : ∀ n ∈ written, n ≤ size ∧ offset.toNat + n.toNat < 2 ^ 63

namespace NasWrite

variable (q : NasWrite)

def lowerOffset : UInt64 := alignLowerOffset64 q.blockSize q.offset

def alignedSize : UInt64 := alignedSize64 q.blockSize q.size

/-- The size of the NAS file after the `pwrite`, which `cfs_getNASattr` reports. -/
def stSize : UInt64 :=
  match q.written with
  | none => q.oldSize
  | some n => if n = 0 then q.oldSize else max q.oldSize (q.offset + n)

/-- The count that is passed to `pread`. -/
def nasReadSize : UInt64 := nasReadSize64 q.alignedSize q.lowerOffset q.stSize

/-- The number of bytes of the window that lie before the end of the file. -/
def windowBytes : Nat :=
  ((Finset.range q.stSize.toNat).filter fun i =>
    q.lowerOffset.toNat ≤ i ∧ i < q.lowerOffset.toNat + q.alignedSize.toNat).card

/-- The count is no larger than the buffer and is what the file has of the window. -/
def Fits : Prop :=
  q.nasReadSize ≤ q.alignedSize ∧ q.nasReadSize.toNat = q.windowBytes

/-- The size in whole blocks, as a number. -/
def roundedUp : Nat :=
  (q.size.toNat + q.blockSize.toNat - 1) / q.blockSize.toNat * q.blockSize.toNat

/-- The offset of the block the request starts in, as a number. -/
def roundedDown : Nat := q.offset.toNat - q.offset.toNat % q.blockSize.toNat

theorem windowBytes_eq :
    q.windowBytes = min q.alignedSize.toNat (q.stSize.toNat - q.lowerOffset.toNat) := by
  have hico : ((Finset.range q.stSize.toNat).filter fun i =>
      q.lowerOffset.toNat ≤ i ∧ i < q.lowerOffset.toNat + q.alignedSize.toNat) =
        Finset.Ico q.lowerOffset.toNat
          (min (q.lowerOffset.toNat + q.alignedSize.toNat) q.stSize.toNat) := by
    ext i
    simp only [Finset.mem_filter, Finset.mem_range, Finset.mem_Ico]
    omega
  rw [windowBytes, hico, Nat.card_Ico]
  omega

theorem toNat_lowerOffset : q.lowerOffset.toNat = q.roundedDown :=
  toNat_alignLowerOffset64 ⟨[], [], 0, q.blockSize.toNat⟩ rfl q.offset

theorem toNat_alignedSize : q.alignedSize.toNat = q.roundedUp % 2 ^ 64 := by
  have hpos : 0 < q.blockSize.toNat := UInt64.lt_iff_toNat_lt.mp q.blockSize_pos
  have hdiv := Nat.div_add_mod q.size.toNat q.blockSize.toNat
  have hmod := Nat.mod_lt q.size.toNat hpos
  rw [alignedSize, toNat_alignedSize64 ⟨[], [], 0, q.blockSize.toNat⟩ rfl, Config.alignedSize,
    roundedUp]
  congr 1
  show (if q.size.toNat % q.blockSize.toNat ≠ 0
    then q.blockSize.toNat * (q.size.toNat / q.blockSize.toNat) + q.blockSize.toNat
    else q.blockSize.toNat * (q.size.toNat / q.blockSize.toNat)) = _
  split
  · rw [← Nat.mul_succ, Nat.mul_comm]
    congr 1
    refine (Nat.div_eq_of_lt_le ?_ ?_).symm <;> · simp only [Nat.succ_mul, Nat.mul_comm]; omega
  · rw [Nat.mul_comm]
    congr 1
    refine (Nat.div_eq_of_lt_le ?_ ?_).symm <;> · simp only [Nat.succ_mul, Nat.mul_comm]; omega

/-- The end of the file after the write. -/
theorem toNat_stSize : q.stSize.toNat =
    if 0 < q.written.getD 0 then max q.oldSize.toNat (q.offset.toNat + (q.written.getD 0).toNat)
    else q.oldSize.toNat := by
  rw [stSize]
  cases hw : q.written with
  | none => rfl
  | some n =>
      obtain ⟨-, hlt⟩ := q.written_le n hw
      have hsum : (q.offset + n).toNat = q.offset.toNat + n.toNat := by
        rw [UInt64.toNat_add, Nat.mod_eq_of_lt (by omega)]
      have hmax : (max q.oldSize (q.offset + n)).toNat =
          max q.oldSize.toNat (q.offset.toNat + n.toNat) := by
        rw [← hsum]
        exact apply_ite UInt64.toNat (q.oldSize ≤ q.offset + n) (q.offset + n) q.oldSize
      by_cases hn : n = 0
      · subst hn
        rfl
      · have hpos : 0 < n := UInt64.pos_iff_ne_zero.mpr hn
        simp only [if_neg hn, Option.getD_some, if_pos hpos, hmax]

/-- A write puts the start of its window before the end of the file when it puts a byte
    there, and otherwise leaves the start where it was. -/
theorem lowerOffset_le_stSize_iff : q.lowerOffset.toNat ≤ q.stSize.toNat ↔
    0 < q.written.getD 0 ∨ q.roundedDown ≤ q.oldSize.toNat := by
  rw [q.toNat_lowerOffset, q.toNat_stSize]
  by_cases h : 0 < q.written.getD 0
  · have hle : q.roundedDown ≤ q.offset.toNat := Nat.sub_le _ _
    rw [if_pos h]
    simp only [h, true_or, iff_true]
    omega
  · rw [if_neg h]
    simp only [h, false_or]

theorem stSize_lt : q.stSize.toNat < 2 ^ 63 := by
  have hold := q.oldSize_lt
  rw [q.toNat_stSize]
  split
  · cases hw : q.written with
    | none => simpa [hw] using ⟨hold, q.offset_lt⟩
    | some n =>
        obtain ⟨-, hlt⟩ := q.written_le n hw
        rw [Option.getD_some]
        omega
  · exact hold

/-- The re-read fits its buffer exactly when the write put a byte on the NAS or its first
    block starts no later than the old end of the file, and the window ends below 2^64. -/
theorem fits_iff : q.Fits ↔
    (0 < q.written.getD 0 ∨ q.roundedDown ≤ q.oldSize.toNat) ∧
      q.roundedUp % 2 ^ 64 + q.roundedDown < 2 ^ 64 := by
  have hlow : q.lowerOffset.toNat < 2 ^ 63 := by
    rw [q.toNat_lowerOffset]
    exact (Nat.sub_le _ _).trans_lt q.offset_lt
  rw [Fits, q.windowBytes_eq, UInt64.le_iff_toNat_le, nasReadSize,
    nasReadSize64_fits_iff q.alignedSize hlow q.stSize_lt, q.lowerOffset_le_stSize_iff,
    q.toNat_alignedSize, q.toNat_lowerOffset]

/-- The write of one byte into the third block of an empty file fails: the count wraps. -/
theorem not_fits : ¬ ∀ q : NasWrite, q.Fits := by
  intro h
  have hle := (h ⟨4096, 1, 8192, 0, none, by decide, by decide, by decide, nofun⟩).1
  exact absurd hle (by decide)

end NasWrite

-- ============================================================================
-- The re-read of a run
-- ============================================================================

section Runs

variable {A : Choice → Call → World → Prop} {cfg : Config} {w w' : World} {fuel fh offset : Nat}
  {path : Path} {ni ci : Ino} {buf : List UInt8} {tr : List CfsEvent} {r : Int}

/-- A write that takes a byte keeps the file within the range of offsets. -/
theorem lt_of_taken_pos {c : Choice} {fd : Int} (h : 0 < taken (w.pwrite c fd buf offset).1) :
    offset + buf.length < 2 ^ 63 := by
  unfold World.pwrite at h
  split at h
  · exact absurd h (Nat.lt_irrefl 0)
  · exact absurd h (Nat.lt_irrefl 0)
  · split at h
    · exact absurd h (Nat.lt_irrefl 0)
    · split at h
      · exact absurd h (Nat.lt_irrefl 0)
      · omega

/-- The write of a run, whatever becomes of its `pwrite`, and the bytes that took. -/
theorem exists_nasWrite {c : Choice} {fd : Int} {old : List UInt8} (hbs : 0 < cfg.blockSize)
    (hword : cfg.blockSize < 2 ^ 64) (hsize : buf.length < 2 ^ 64) (hoff : offset < 2 ^ 63)
    (hold : old.length < 2 ^ 63)
    (htaken : taken (w.pwrite c fd buf offset).1 ≤ buf.length) :
    ∃ q : NasWrite, q.blockSize.toNat = cfg.blockSize ∧ q.size.toNat = buf.length ∧
      q.offset.toNat = offset ∧ q.oldSize.toNat = old.length ∧
      (q.written.getD 0).toNat = taken (w.pwrite c fd buf offset).1 := by
  have hnat : ∀ {n : Nat}, n < 2 ^ 64 → (UInt64.ofNat n).toNat = n := fun hn =>
    UInt64.toNat_ofNat_of_lt' hn
  refine ⟨⟨.ofNat cfg.blockSize, .ofNat buf.length, .ofNat offset, .ofNat old.length,
    if taken (w.pwrite c fd buf offset).1 = 0 then none
    else some (.ofNat (taken (w.pwrite c fd buf offset).1)), ?_, ?_, ?_, ?_⟩, hnat hword,
    hnat hsize, hnat (by omega), hnat (by omega), ?_⟩
  · rw [UInt64.lt_iff_toNat_lt, hnat hword]
    exact hbs
  · rw [hnat (by omega)]
    exact hoff
  · rw [hnat (by omega)]
    exact hold
  · intro n hn
    split at hn
    · exact nomatch hn
    · next hpos =>
        have hend := lt_of_taken_pos (Nat.pos_of_ne_zero hpos)
        obtain rfl : _ = n := Option.some.inj hn
        rw [UInt64.le_iff_toNat_le, hnat hsize, hnat (by omega), hnat (by omega)]
        omega
  · dsimp only
    split
    · next hz => exact hz.symm
    · exact hnat (by omega)

/-- The count of the re-read in a run of `cfs_write` whose window ends below `2 ^ 64` and
    whose write goes to the offset: the NAS file is not open in append mode, or the offset
    is its end. -/
theorem traced_cfsWrite_reread (hlstat : ∀ c side p w, A c (.lstat side p) w → c.err = none)
    (hfh : Current cfg w path fh ni ci) (hbs : 0 < cfg.blockSize) (hword : cfg.blockSize < 2 ^ 64)
    (hoff : offset < 2 ^ 63) (hold : (w.nas.inode ni).data.length < 2 ^ 63)
    (hsize : buf.length < 2 ^ 64)
    (hsum : cfg.alignedSize buf.length + cfg.alignLowerOffset offset < 2 ^ 64)
    (hpos : w.nasPos fh offset = offset)
    (h : Prog.Traced (env A True) (cfsWrite cfg fuel path buf offset fh) w tr r w') :
    ∃ q : NasWrite, q.blockSize.toNat = cfg.blockSize ∧ q.size.toNat = buf.length ∧
      q.offset.toNat = offset ∧ q.oldSize.toNat = (w.nas.inode ni).data.length ∧
      ∃ e ∈ tr, ∃ fd, e.op = .pread fd q.nasReadSize.toNat q.lowerOffset.toNat ∧
        (∃ rd wr ap, e.before.fds fd = some ⟨.nas, ni, rd, wr, ap⟩) ∧
        (e.before.nas.inode ni).data.length = q.stSize.toNat := by
  obtain ⟨⟨dualFH, hdual, ⟨rd, wr, ap, hnas⟩, -⟩, hlook, -⟩ := hfh
  rw [World.nasPos_eq hdual hnas] at hpos
  obtain ⟨c₁, tr₁, -, rfl, h₁⟩ := traced_ask.mp h
  obtain ⟨c₂, tr₂, -, rfl, h₂⟩ := traced_ask.mp h₁
  obtain ⟨tr₃, tr₄, st, w₂, rfl, h₃, h₄⟩ := Prog.traced_bind.mp h₂
  obtain ⟨c₃, tr₅, herr, rfl, rfl, rfl, rfl⟩ := traced_ask.mp h₃
  obtain ⟨c₄, tr₆, -, rfl, h₅⟩ := traced_ask.mp h₄
  obtain ⟨c₅, tr₇, -, rfl, -⟩ := traced_ask.mp h₅
  simp only [handle, hdual, Option.getD_some] at *
  obtain ⟨htaken, hstore⟩ : taken (w.pwrite c₂ dualFH.nasFH buf offset).1 ≤ buf.length ∧ _ =
    w.setFs .nas _ := pwrite_taken hnas
  rw [hpos] at hstore
  obtain ⟨q, hb, hs, ho, hz, hw⟩ := exists_nasWrite hbs hword hsize hoff hold htaken
  set n := taken (w.pwrite c₂ dualFH.nasFH buf offset).1 with hn
  rw [hstore]
  set w₁ := w.setFs .nas ((w.fs .nas).pwrite ni (buf.take n) offset c₂.now) with hw₁
  have hlen : (w₁.nas.inode ni).data.length = q.stSize.toNat := by
    have hdata : (w₁.nas.inode ni).data = Posix.pwrite (w.nas.inode ni).data (buf.take n) offset :=
      (Fs.data_pwrite _ _ _ _ _ _).trans (if_pos rfl)
    have hpos : 0 < q.written.getD 0 ↔ 0 < n := by
      rw [UInt64.lt_iff_toNat_lt, hw]
      rfl
    rw [hdata, q.toNat_stSize, ho, hz, hw]
    by_cases h0 : 0 < n
    · have hne : buf.take n ≠ [] := by
        rw [← List.length_pos_iff, List.length_take]
        omega
      rw [if_pos (hpos.mpr h0), pwrite_length _ _ _ hne, List.length_take, Nat.min_eq_left htaken]
    · rw [if_neg (mt hpos.mp h0), Nat.eq_zero_of_not_pos h0, List.take_zero, pwrite_nil]
  have hlstat₁ : (w₁.lstat c₃ .nas (cfg.fullNasPath path)).2.size = q.stSize.toNat := by
    have hlook₁ : (w₁.fs .nas).lookup (cfg.fullNasPath path) = some ni :=
      (Fs.lookup_pwrite _ _ _ _ _ _).trans hlook
    rw [World.lstat, hlstat _ _ _ _ herr, hlook₁, ← hlen]
    rfl
  have hlow : q.lowerOffset.toNat = cfg.alignLowerOffset offset := by
    rw [NasWrite.lowerOffset, toNat_alignLowerOffset64 cfg hb, ho]
  have halign : q.alignedSize.toNat = cfg.alignedSize buf.length := by
    rw [NasWrite.alignedSize, toNat_alignedSize64 cfg hb, hs, Nat.mod_eq_of_lt (by omega)]
  have hcount : q.nasReadSize.toNat = nasReadSize (cfg.alignedSize buf.length)
      (cfg.alignLowerOffset offset) (w₁.lstat c₃ .nas (cfg.fullNasPath path)).2.size := by
    rw [NasWrite.nasReadSize, toNat_nasReadSize64 _ (by omega), hlow, halign, hlstat₁]
  refine ⟨q, hb, hs, ho, hz, ⟨.pread dualFH.nasFH q.nasReadSize.toNat q.lowerOffset.toNat, c₅, w₁⟩,
    ?_, dualFH.nasFH, rfl, ⟨rd, wr, ap, hnas⟩, hlen⟩
  rw [hcount, hlow]
  simp

end Runs

end CacheFs
