/-
  CacheFs.Settings

  How `main` finds the cache size and the block size, and the arithmetic of the
  requests with them.

  Both sizes are texts of the command line, read by `sscanf` whose result is not
  looked at.  The cache size is then held below the space `statvfs` reports, which
  `main` computes in `double` and from `f_bsize`, while `f_bavail` counts units of
  `f_frsize`; the block size is taken as it is, and every request divides by it.
-/

import CacheFs.ReRead

namespace CacheFs

-- ============================================================================
-- Numbers from texts, and integers as doubles
-- ============================================================================

/-- `sscanf(str, "%lu", &x)`: blanks, a sign, then the digits, converted as `strtoul`
    does; `none` where there are no digits and `x` keeps its value. -/
def sscanfLu (str : List Char) : Option UInt64 :=
  let s := str.dropWhile isSpace
  let digits := (if s.head? = some '-' ∨ s.head? = some '+' then s.tail else s).takeWhile
    Char.isDigit
  let val := Nat.ofDigitChars 10 digits 0
  if digits = [] then none
  else if 2 ^ 64 ≤ val then some (.ofNat (2 ^ 64 - 1))
  else some (if s.head? = some '-' then -(.ofNat val) else .ofNat val)

/-- The `double` next to a natural number: 53 significant bits, ties to even. -/
def toDouble (n : Nat) : Nat :=
  let unit := 2 ^ (n.log2 - 52)
  let q := n / unit
  if 2 * (n % unit) < unit ∨ 2 * (n % unit) = unit ∧ q % 2 = 0 then q * unit else (q + 1) * unit

theorem toDouble_of_lt {n : Nat} (h : n < 2 ^ 53) : toDouble n = n := by
  have hlog : n.log2 - 52 = 0 := by
    rcases Nat.eq_zero_or_pos n with rfl | hpos
    · rfl
    · have := (Nat.log2_lt (Nat.pos_iff_ne_zero.mp hpos)).mpr h
      omega
  simp [toDouble, hlog, Nat.mod_one]

-- ============================================================================
-- The sizes `main` settles on
-- ============================================================================

/-- The reply of `statvfs`. -/
structure Statvfs where
  bsize : UInt64
  /-- The unit in which `bavail` counts. -/
  frsize : UInt64
  bavail : UInt64

namespace Statvfs

variable (fs : Statvfs)

/-- The whole kilobytes available. -/
def availKb : Nat := fs.frsize.toNat * fs.bavail.toNat / 1024

/-- The product of `f_bsize` and `f_bavail` in `double` arithmetic, in whole kilobytes:
    dividing by 1024 is exact. -/
def doubleKb : Nat := toDouble (toDouble fs.bsize.toNat * toDouble fs.bavail.toNat) / 1024

/-- That product as a `long unsigned`, where one too large for it becomes `outOfRange`. -/
def wordKb (outOfRange : UInt64) : Nat :=
  if fs.doubleKb < 2 ^ 64 then fs.doubleKb else outOfRange.toNat

/-- Below 8 PiB the product is not rounded. -/
theorem wordKb_eq (h : fs.bsize.toNat * fs.bavail.toNat < 2 ^ 53) (outOfRange : UInt64) :
    fs.wordKb outOfRange = fs.bsize.toNat * fs.bavail.toNat / 1024 := by
  have hprod : toDouble fs.bsize.toNat * toDouble fs.bavail.toNat =
      fs.bsize.toNat * fs.bavail.toNat := by
    rcases Nat.eq_zero_or_pos fs.bsize.toNat with hb | hb
    · rw [hb, toDouble_of_lt (by decide), Nat.zero_mul, Nat.zero_mul]
    · rcases Nat.eq_zero_or_pos fs.bavail.toNat with ha | ha
      · rw [ha, toDouble_of_lt (n := 0) (by decide), Nat.mul_zero, Nat.mul_zero]
      · rw [toDouble_of_lt (lt_of_le_of_lt (Nat.le_mul_of_pos_right _ ha) h),
          toDouble_of_lt (lt_of_le_of_lt (Nat.le_mul_of_pos_left _ hb) h)]
  have hkb : fs.doubleKb = fs.bsize.toNat * fs.bavail.toNat / 1024 := by
    rw [doubleKb, hprod, toDouble_of_lt h]
  rw [wordKb, hkb, if_pos (by omega)]

end Statvfs

/-- What `main` meets: the two texts, the reply of `statvfs` if it has succeeded, what
    `userSize` holds before a value is read into it, and what the conversion of a
    `double` gives that is out of the range of `long unsigned`. -/
structure Startup where
  cacheArg : List Char
  blockArg : List Char
  statvfs : Option Statvfs
  junk : UInt64
  outOfRange : UInt64

namespace Startup

variable (m : Startup)

def userSize : UInt64 := (sscanfLu m.cacheArg).getD m.junk

def fsAvailKb (fs : Statvfs) : UInt64 :=
  if fs.doubleKb < 2 ^ 64 then .ofNat fs.doubleKb else m.outOfRange

theorem toNat_fsAvailKb (fs : Statvfs) : (m.fsAvailKb fs).toNat = fs.wordKb m.outOfRange := by
  rw [fsAvailKb, Statvfs.wordKb]
  split
  · next h => exact UInt64.toNat_ofNat_of_lt' h
  · rfl

def cacheSize : UInt64 :=
  match m.statvfs with
  | none => m.userSize
  | some fs =>
    let fsAvailKb := m.fsAvailKb fs
    if m.userSize > fsAvailKb - 100 ∧ fsAvailKb > 100 then fsAvailKb - 100
    else if m.userSize > fsAvailKb then fsAvailKb
    else m.userSize

/-- The global variable is zero before. -/
def blockSize : UInt64 := (sscanfLu m.blockArg).getD 0

/-- The settings the callbacks work with. -/
def config (nasdir cachedir : Posix.Path) : Config where
  nasdir := nasdir
  cachedir := cachedir
  cacheSize := m.cacheSize.toNat
  blockSize := m.blockSize.toNat

end Startup

/-- The most the cache may take of `kb` kilobytes: 100 are left free if there are more. -/
def cacheLimit (kb : Nat) : Nat := if 100 < kb then kb - 100 else kb

/-- The clamp of `main` takes the smaller value; its difference does not wrap where it is
    used. -/
theorem Startup.toNat_cacheSize (m : Startup) {fs : Statvfs} (h : m.statvfs = some fs) :
    m.cacheSize.toNat = min m.userSize.toNat (cacheLimit (fs.wordKb m.outOfRange)) := by
  have hmany : m.fsAvailKb fs > 100 ↔ 100 < (m.fsAvailKb fs).toNat := UInt64.lt_iff_toNat_lt
  rw [Startup.cacheSize, h, ← m.toNat_fsAvailKb, cacheLimit]
  dsimp only
  by_cases hlt : 100 < (m.fsAvailKb fs).toNat
  · have hsub : (m.fsAvailKb fs - 100).toNat = (m.fsAvailKb fs).toNat - 100 :=
      UInt64.toNat_sub_of_le _ _ (UInt64.le_iff_toNat_le.mpr (le_of_lt hlt))
    have hover : m.userSize > m.fsAvailKb fs - 100 ↔
        (m.fsAvailKb fs).toNat - 100 < m.userSize.toNat := by
      rw [gt_iff_lt, UInt64.lt_iff_toNat_lt, hsub]
    rw [if_pos hlt]
    by_cases huser : (m.fsAvailKb fs).toNat - 100 < m.userSize.toNat
    · rw [if_pos ⟨hover.mpr huser, hmany.mpr hlt⟩, hsub, Nat.min_eq_right (le_of_lt huser)]
    · have hnot : ¬ m.userSize > m.fsAvailKb fs := by
        rw [gt_iff_lt, UInt64.lt_iff_toNat_lt]
        omega
      rw [if_neg fun hc => huser (hover.mp hc.1), if_neg hnot, Nat.min_eq_left (by omega)]
  · have hover : m.userSize > m.fsAvailKb fs ↔ (m.fsAvailKb fs).toNat < m.userSize.toNat :=
      UInt64.lt_iff_toNat_lt
    rw [if_neg fun hc => hlt (hmany.mp hc.2), if_neg hlt]
    by_cases huser : (m.fsAvailKb fs).toNat < m.userSize.toNat
    · rw [if_pos (hover.mpr huser), Nat.min_eq_right (le_of_lt huser)]
    · rw [if_neg (mt hover.mp huser), Nat.min_eq_left (Nat.not_lt.mp huser)]

-- ============================================================================
-- The arithmetic of a request
-- ============================================================================

/-- `a / b`; `none` is the exception of a zero divisor, which ends the process. -/
def quotient (a b : UInt64) : Option UInt64 := if b = 0 then none else some (a / b)

/-- `a % b` -/
def remainder (a b : UInt64) : Option UInt64 := if b = 0 then none else some (a % b)

section Arithmetic

variable (blockSize : UInt64)

def checkedLowerOffset (offset : UInt64) : Option UInt64 := do
  let r ← remainder offset blockSize
  pure (offset - r)

def checkedUpperOffset (offset : UInt64) : Option UInt64 := do
  let r ← remainder offset blockSize
  pure (offset + r)

/-- `alignedSize` of `cfs_read` and `cfs_write`. -/
def checkedAlignedSize (size : UInt64) : Option UInt64 := do
  let whole ← quotient size blockSize
  let rest ← remainder size blockSize
  pure (if rest ≠ 0 then blockSize * whole + blockSize else blockSize * whole)

/-- `number_blocks` of `cfs_cacheWrite`. -/
def cacheWriteBlocks (size : UInt64) : Option UInt64 := quotient size blockSize

/-- The window of `cfs_read` and its number of blocks; a block that is missing goes
    through `cfs_cacheWrite`. -/
def readArithmetic (size offset : UInt64) : Option (UInt64 × UInt64 × UInt64) := do
  let lowerOffset ← checkedLowerOffset blockSize offset
  let alignedSize ← checkedAlignedSize blockSize size
  let _ ← checkedUpperOffset blockSize (offset + alignedSize)
  let numberBlocks ← quotient alignedSize blockSize
  let _ ← cacheWriteBlocks blockSize blockSize
  pure (lowerOffset, alignedSize, numberBlocks)

/-- The window of `cfs_write` and the number of blocks `cfs_cacheWrite` makes of it. -/
def writeArithmetic (size offset : UInt64) : Option (UInt64 × UInt64 × UInt64) := do
  let lowerOffset ← checkedLowerOffset blockSize offset
  let alignedSize ← checkedAlignedSize blockSize size
  let _ ← checkedUpperOffset blockSize (offset + alignedSize)
  let numberBlocks ← cacheWriteBlocks blockSize alignedSize
  pure (lowerOffset, alignedSize, numberBlocks)

variable {blockSize}

/-- With a block size both requests compute the words of `alignLowerOffset64` and
    `alignedSize64`. -/
theorem arithmetic_of_ne_zero (h : blockSize ≠ 0) (size offset : UInt64) :
    readArithmetic blockSize size offset =
        some (alignLowerOffset64 blockSize offset, alignedSize64 blockSize size,
          alignedSize64 blockSize size / blockSize) ∧
      writeArithmetic blockSize size offset = readArithmetic blockSize size offset := by
  simp only [readArithmetic, writeArithmetic, checkedLowerOffset, checkedUpperOffset,
    checkedAlignedSize, cacheWriteBlocks, quotient, remainder, if_neg h, alignLowerOffset64,
    alignedSize64, Option.bind_eq_bind, Option.pure_def, Option.bind_some, and_self]

/-- Without one, the first remainder already fails. -/
theorem arithmetic_zero (size offset : UInt64) :
    readArithmetic 0 size offset = none ∧ writeArithmetic 0 size offset = none :=
  ⟨rfl, rfl⟩

end Arithmetic

-- ============================================================================
-- Which settings are safe
-- ============================================================================

namespace Startup

variable (m : Startup)

/-- No request divides by zero, the capacity in bytes does not wrap, and the cache stays
    below the space available. -/
structure WellDefined : Prop where
  divides : ∀ size offset, readArithmetic m.blockSize size offset ≠ none ∧
    writeArithmetic m.blockSize size offset ≠ none
  capacity : m.cacheSize.toNat * 1024 < 2 ^ 64
  leaves : ∀ fs, m.statvfs = some fs → m.cacheSize.toNat ≤ fs.availKb ∧
    (100 < fs.availKb → m.cacheSize.toNat + 100 ≤ fs.availKb)

/-- The texts and the reply of `statvfs` are such that `main` settles on safe sizes: the
    block size reads as a positive number; the size asked for, or else the product of
    `f_bsize` and `f_bavail`, is small enough for a number of bytes and within the space. -/
structure Admissible : Prop where
  blockArg : ∃ n, sscanfLu m.blockArg = some n ∧ n ≠ 0
  bounded : m.userSize.toNat < 2 ^ 54 ∨
    ∃ fs, m.statvfs = some fs ∧ cacheLimit (fs.wordKb m.outOfRange) < 2 ^ 54
  within : ∀ fs, m.statvfs = some fs → m.userSize.toNat ≤ cacheLimit fs.availKb ∨
    cacheLimit (fs.wordKb m.outOfRange) ≤ cacheLimit fs.availKb

theorem le_cacheLimit_iff (n kb : Nat) :
    n ≤ cacheLimit kb ↔ n ≤ kb ∧ (100 < kb → n + 100 ≤ kb) := by
  unfold cacheLimit
  split <;> omega

theorem blockSize_ne_zero_iff :
    m.blockSize ≠ 0 ↔ ∃ n, sscanfLu m.blockArg = some n ∧ n ≠ 0 := by
  rw [blockSize]
  cases sscanfLu m.blockArg <;> simp

theorem divides_iff : (∀ size offset, readArithmetic m.blockSize size offset ≠ none ∧
    writeArithmetic m.blockSize size offset ≠ none) ↔ m.blockSize ≠ 0 := by
  constructor
  · intro h hzero
    rw [hzero] at h
    exact (h 0 0).1 (arithmetic_zero 0 0).1
  · intro h size offset
    obtain ⟨hread, hwrite⟩ := arithmetic_of_ne_zero h size offset
    rw [hwrite, hread]
    exact ⟨nofun, nofun⟩

/-- The settings are safe exactly when the block size reads as a positive number, the text
    or the product bounds the cache size, and so does the space. -/
theorem wellDefined_iff : m.WellDefined ↔ m.Admissible := by
  have hblock := m.divides_iff.trans m.blockSize_ne_zero_iff
  have hcap : ∀ n : Nat, n * 1024 < 2 ^ 64 ↔ n < 2 ^ 54 := by omega
  have hsafe : m.WellDefined ↔
      (∃ n, sscanfLu m.blockArg = some n ∧ n ≠ 0) ∧ m.cacheSize.toNat < 2 ^ 54 ∧
        ∀ fs, m.statvfs = some fs → m.cacheSize.toNat ≤ cacheLimit fs.availKb := by
    rw [← hblock, ← hcap]
    simp only [le_cacheLimit_iff]
    exact ⟨fun h => ⟨h.divides, h.capacity, h.leaves⟩, fun h => ⟨h.1, h.2.1, h.2.2⟩⟩
  have hadm : m.Admissible ↔ (∃ n, sscanfLu m.blockArg = some n ∧ n ≠ 0) ∧
      (m.userSize.toNat < 2 ^ 54 ∨
        ∃ fs, m.statvfs = some fs ∧ cacheLimit (fs.wordKb m.outOfRange) < 2 ^ 54) ∧
      ∀ fs, m.statvfs = some fs → m.userSize.toNat ≤ cacheLimit fs.availKb ∨
        cacheLimit (fs.wordKb m.outOfRange) ≤ cacheLimit fs.availKb :=
    ⟨fun h => ⟨h.blockArg, h.bounded, h.within⟩, fun h => ⟨h.1, h.2.1, h.2.2⟩⟩
  rw [hsafe, hadm]
  refine and_congr_right fun _ => ?_
  cases hfs : m.statvfs with
  | none =>
      have hsize : m.cacheSize = m.userSize := by rw [cacheSize, hfs]
      simp [hsize]
  | some fs =>
      rw [m.toNat_cacheSize hfs]
      simp only [Option.some.injEq, forall_eq', exists_eq_left', min_lt_iff, min_le_iff]

theorem cacheLimit_le (kb : Nat) : cacheLimit kb ≤ kb := ((le_cacheLimit_iff _ kb).mp le_rfl).1

/-- Where `f_bsize` times `f_bavail` is below 8 PiB: the size asked for is within the space,
    or the limit of that product is. -/
theorem wellDefined_iff_within {fs : Statvfs} (hfs : m.statvfs = some fs)
    (h : fs.bsize.toNat * fs.bavail.toNat < 2 ^ 53) : m.WellDefined ↔ m.blockSize ≠ 0 ∧
      (m.userSize.toNat ≤ cacheLimit fs.availKb ∨
        cacheLimit (fs.bsize.toNat * fs.bavail.toNat / 1024) ≤ cacheLimit fs.availKb) := by
  have hsmall : cacheLimit (fs.wordKb m.outOfRange) < 2 ^ 54 := by
    have hle := cacheLimit_le (fs.wordKb m.outOfRange)
    rw [fs.wordKb_eq h] at hle ⊢
    omega
  rw [m.wellDefined_iff, m.blockSize_ne_zero_iff, ← fs.wordKb_eq h m.outOfRange]
  constructor
  · exact fun ha => ⟨ha.blockArg, ha.within fs hfs⟩
  · rintro ⟨hblock, hwithin⟩
    refine ⟨hblock, Or.inr ⟨fs, hfs, hsmall⟩, fun fs' hfs' => ?_⟩
    obtain rfl : fs = fs' := Option.some.inj (hfs.symm.trans hfs')
    exact hwithin

/-- With one block size in the reply and less than 8 PiB of space only the block size of the
    command line can go wrong. -/
theorem wellDefined_iff_blockSize {fs : Statvfs} (hfs : m.statvfs = some fs)
    (hunit : fs.frsize = fs.bsize) (h : fs.bsize.toNat * fs.bavail.toNat < 2 ^ 53) :
    m.WellDefined ↔ m.blockSize ≠ 0 := by
  rw [m.wellDefined_iff_within hfs h, Statvfs.availKb, hunit]
  exact and_iff_left (Or.inr le_rfl)

/-- With blocks of 1 MiB made of fragments of 4 KiB, 4000 of the kilobytes asked for are
    there, and all are granted. -/
example : ¬ Startup.WellDefined ⟨"100000".toList, "4096".toList, some ⟨2 ^ 20, 4096, 1000⟩, 0, 0⟩ :=
  fun h => absurd (h.leaves _ rfl).1 (by decide)

/-- Safe settings are what the callbacks are written for: a positive block size, a capacity
    that is the cache size in bytes, and windows that are those of the configuration. -/
theorem WellDefined.config {m : Startup} (h : m.WellDefined) (nasdir cachedir : Posix.Path) :
    0 < (m.config nasdir cachedir).blockSize ∧
      (m.config nasdir cachedir).capacity = m.cacheSize.toNat * 1024 ∧
      ∀ size offset, ∃ l a k, readArithmetic m.blockSize size offset = some (l, a, k) ∧
        l.toNat = (m.config nasdir cachedir).alignLowerOffset offset.toNat ∧
        a.toNat = (m.config nasdir cachedir).alignedSize size.toNat % 2 ^ 64 := by
  have hne := m.divides_iff.mp h.divides
  refine ⟨?_, Nat.mod_eq_of_lt h.capacity, fun size offset => ?_⟩
  · exact UInt64.lt_iff_toNat_lt.mp (UInt64.pos_iff_ne_zero.mpr hne)
  · exact ⟨_, _, _, (arithmetic_of_ne_zero hne size offset).1,
      toNat_alignLowerOffset64 (m.config nasdir cachedir) rfl offset,
      toNat_alignedSize64 (m.config nasdir cachedir) rfl size⟩

/-- The block size "0" is taken, and the first request divides by it. -/
theorem not_wellDefined : ¬ ∀ m : Startup, m.WellDefined := fun h =>
  ((h ⟨"1000".toList, "0".toList, none, 0, 0⟩).divides 1 0).1 (by decide)

end Startup

end CacheFs
