/-
  CacheFs.Window

  The blocks a request touches and the blocks `cfs_read` and `cfs_write` work on.

  The window starts at the offset rounded down and has the size of the request
  rounded up.  The two roundings do not know of each other: what the first one adds in
  front is missing behind, unless the second one has added as much.
-/

import CacheFs.IoSpec

namespace CacheFs

open CacheFs.Effect
open CacheFs.Posix (Agree)

namespace Config

variable (cfg : Config) {offset size : Nat}

def alignUpperOffset (offset : Nat) : Nat := offset + offset % cfg.blockSize

/-- `upperOffset` of `cfs_read` and `cfs_write`, which neither of them uses. -/
def upperOffset (offset size : Nat) : Nat :=
  cfg.alignUpperOffset (offset + cfg.alignedSize size)

-- ============================================================================
-- The blocks a request touches
-- ============================================================================

/-- `o` is the start of a block that meets `[offset, offset + size)`. -/
def Touched (offset size o : Nat) : Prop :=
  o % cfg.blockSize = 0 ∧ o < offset + size ∧ offset < o + cfg.blockSize

/-- The end of the last block that meets `[offset, offset + size)`. -/
def touchedEnd (offset size : Nat) : Nat :=
  (offset + size - 1) / cfg.blockSize * cfg.blockSize + cfg.blockSize

/-- The window of a request is what the request touches, the bytes it asks for lie in
    the aligned buffer, and `upperOffset` is where the last block ends. -/
structure WindowRight (offset size : Nat) : Prop where
  blocks : ∀ o, o ∈ cfg.window offset size ↔ cfg.Touched offset size o
  fits : offset - cfg.alignLowerOffset offset + size ≤ cfg.alignedSize size
  upper : cfg.upperOffset offset size = cfg.touchedEnd offset size

-- ============================================================================
-- The two roundings
-- ============================================================================

theorem alignLowerOffset_eq (offset : Nat) :
    cfg.alignLowerOffset offset = offset / cfg.blockSize * cfg.blockSize := by
  have hdiv := Nat.div_add_mod' offset cfg.blockSize
  unfold alignLowerOffset
  omega

theorem sub_alignLowerOffset (offset : Nat) :
    offset - cfg.alignLowerOffset offset = offset % cfg.blockSize := by
  have hle := Nat.mod_le offset cfg.blockSize
  unfold alignLowerOffset
  omega

/-- Less than one block is added behind. -/
theorem alignedSize_lt (hbs : 0 < cfg.blockSize) (size : Nat) :
    cfg.alignedSize size < size + cfg.blockSize := by
  have hdiv := Nat.div_add_mod size cfg.blockSize
  unfold alignedSize
  dsimp only
  split <;> omega

theorem alignUpperOffset_upper (offset size : Nat) :
    cfg.upperOffset offset size =
      offset + cfg.alignedSize size + offset % cfg.blockSize := by
  rw [upperOffset, alignUpperOffset, cfg.alignedSize_eq, Nat.add_mul_mod_self_right]

/-- The window in multiples of the block size. -/
theorem mul_mem_window (hbs : 0 < cfg.blockSize) (k : Nat) :
    k * cfg.blockSize ∈ cfg.window offset size ↔
      offset / cfg.blockSize ≤ k ∧ k < offset / cfg.blockSize + cfg.windowBlocks size := by
  rw [window, cfg.mem_offsetArray, cfg.alignLowerOffset_eq]
  constructor
  · rintro ⟨i, hi, h⟩
    rw [← Nat.add_mul] at h
    have hk := Nat.eq_of_mul_eq_mul_right hbs h
    omega
  · rintro ⟨h₁, h₂⟩
    refine ⟨k - offset / cfg.blockSize, by omega, ?_⟩
    rw [← Nat.add_mul]
    congr 1
    omega

/-- The blocks touched in multiples of the block size. -/
theorem touched_mul (hbs : 0 < cfg.blockSize) (k : Nat) :
    cfg.Touched offset size (k * cfg.blockSize) ↔
      offset / cfg.blockSize ≤ k ∧ k * cfg.blockSize < offset + size := by
  have hk : offset < k * cfg.blockSize + cfg.blockSize ↔ offset / cfg.blockSize ≤ k := by
    rw [← Nat.succ_mul, ← Nat.div_lt_iff_lt_mul hbs, Nat.lt_succ_iff]
  rw [Touched, hk, Nat.mul_mod_left]
  simp only [true_and]
  exact and_comm

/-- The window is what the request touches when it reaches the end of the request. -/
theorem blocks_iff (hbs : 0 < cfg.blockSize) (hsize : 0 < size) :
    (∀ o, o ∈ cfg.window offset size ↔ cfg.Touched offset size o) ↔
      offset % cfg.blockSize + size ≤ cfg.alignedSize size := by
  have hoff := Nat.div_add_mod' offset cfg.blockSize
  have halign := cfg.alignedSize_eq size
  have hlt := cfg.alignedSize_lt hbs size
  have hend : (offset / cfg.blockSize + cfg.windowBlocks size) * cfg.blockSize =
      offset / cfg.blockSize * cfg.blockSize + cfg.alignedSize size := by
    rw [Nat.add_mul, ← halign]
  constructor
  · intro h
    -- the block of the last byte is touched
    set k := (offset + size - 1) / cfg.blockSize with hk
    have hdiv := Nat.div_add_mod' (offset + size - 1) cfg.blockSize
    have hmod := Nat.mod_lt (offset + size - 1) hbs
    rw [← hk] at hdiv
    have htouched : cfg.Touched offset size (k * cfg.blockSize) :=
      (cfg.touched_mul hbs k).mpr ⟨Nat.div_le_div_right (by omega), by omega⟩
    have hin := ((cfg.mul_mem_window hbs k).mp ((h _).mpr htouched)).2
    have hmul := Nat.mul_le_mul_right cfg.blockSize hin
    rw [hend, Nat.succ_mul] at hmul
    omega
  · intro h o
    by_cases ho : o % cfg.blockSize = 0
    · obtain ⟨k, rfl⟩ := Nat.dvd_of_mod_eq_zero ho
      rw [Nat.mul_comm, cfg.mul_mem_window hbs, cfg.touched_mul hbs]
      refine and_congr_right fun hle => ⟨fun hk => ?_, fun hk => ?_⟩
      · have hmul := Nat.mul_le_mul_right cfg.blockSize hk
        rw [hend, Nat.succ_mul] at hmul
        omega
      · refine Nat.lt_of_mul_lt_mul_right (a := cfg.blockSize) ?_
        omega
    · exact ⟨fun hin => absurd (cfg.mod_of_mem_window hin) ho, fun hin => absurd hin.1 ho⟩

/-- The end of the last block, for a window that is right. -/
theorem touchedEnd_eq (hbs : 0 < cfg.blockSize) (hsize : 0 < size)
    (h : offset % cfg.blockSize + size ≤ cfg.alignedSize size) :
    cfg.touchedEnd offset size = cfg.alignLowerOffset offset + cfg.alignedSize size := by
  have hoff := Nat.div_add_mod' offset cfg.blockSize
  have hlt := cfg.alignedSize_lt hbs size
  have halign := cfg.alignedSize_eq size
  have hblocks : 0 < cfg.windowBlocks size := by
    rcases Nat.eq_zero_or_pos (cfg.windowBlocks size) with hz | hpos
    · rw [hz, Nat.zero_mul] at halign
      omega
    · exact hpos
  obtain ⟨m, hm⟩ : ∃ m, cfg.windowBlocks size = m + 1 := ⟨_, (Nat.succ_pred_eq_of_pos hblocks).symm⟩
  rw [hm, Nat.succ_mul] at halign
  have hlast : (offset + size - 1) / cfg.blockSize = offset / cfg.blockSize + m := by
    refine Nat.div_eq_of_lt_le ?_ ?_
    · rw [Nat.add_mul]
      omega
    · rw [Nat.succ_mul, Nat.add_mul]
      omega
  rw [touchedEnd, hlast, cfg.alignLowerOffset_eq, Nat.add_mul]
  omega

/-- The window covers a request exactly when it is long enough for what was rounded off
    in front, and `upperOffset` is right as well exactly for aligned requests. -/
theorem windowRight_iff (hbs : 0 < cfg.blockSize) (hsize : 0 < size) :
    ((∀ o, o ∈ cfg.window offset size ↔ cfg.Touched offset size o) ↔
      offset % cfg.blockSize + size ≤ cfg.alignedSize size) ∧
      (cfg.WindowRight offset size ↔ offset % cfg.blockSize = 0) := by
  refine ⟨cfg.blocks_iff hbs hsize, ?_⟩
  have hle := cfg.le_alignedSize hbs size
  have hlower := cfg.sub_alignLowerOffset offset
  have hbelow := cfg.alignLowerOffset_le offset
  have hupper := cfg.alignUpperOffset_upper offset size
  constructor
  · rintro ⟨hblocks, -, hend⟩
    rw [hupper, cfg.touchedEnd_eq hbs hsize ((cfg.blocks_iff hbs hsize).mp hblocks)] at hend
    omega
  · intro h
    have hfits : offset % cfg.blockSize + size ≤ cfg.alignedSize size := by omega
    refine ⟨(cfg.blocks_iff hbs hsize).mpr hfits, by omega, ?_⟩
    rw [hupper, cfg.touchedEnd_eq hbs hsize hfits]
    omega

/-- The blocks of the window are recorded and no others more, their bytes are those the NAS
    file has, and the rest of the copy has stayed. -/
structure WindowRefreshed (path : Posix.Path) (offset size : Nat) (ni ci : Posix.Ino)
    (w w' : World) : Prop where
  recorded : ∀ o, w'.db.Recorded (cfsPathToFileName path) o ↔
    w.db.Recorded (cfsPathToFileName path) o ∨ o ∈ cfg.window offset size
  agree : ∀ o ∈ cfg.window offset size,
    Agree o (o + cfg.blockSize) (w'.cache.inode ci).data (w'.nas.inode ni).data
  rest : ∀ i < (w.cache.inode ci).data.length,
    (∀ o ∈ cfg.window offset size, i < o ∨ o + cfg.blockSize ≤ i) →
      (w'.cache.inode ci).data[i]? = (w.cache.inode ci).data[i]?

/-- What `cfs_write` refreshes is the window of its request.  The zeros of a hole, which a
    write behind the end of the NAS file leaves in front of its bytes, are refreshed only as
    far as the window starts before them. -/
theorem write_refreshes_window {w w' : World} {fuel fh : Nat} {ni ci : Posix.Ino}
    {path : Posix.Path} {buf : List UInt8} {r : Int} (hbs : 0 < cfg.blockSize) (hwf : w.db.WF)
    (hrow : w.db.HasFile (cfsPathToFileName path)) (hfh : Opened w fh ni ci)
    (hni : w.nas.lookup (cfg.fullNasPath path) = some ni)
    (h : Prog.Exec (env succeeds True) (cfsWrite cfg fuel path buf offset fh) w r w') :
    cfg.WindowRefreshed path offset buf.length ni ci w w' := by
  refine Prog.wp_exec
    (Q := fun _ w' => cfg.WindowRefreshed path offset buf.length ni ci w w') ?_ h
  refine wp_cfsWrite allSucceed_succeeds hwf hfh fun m now₁ now₂ block _ _ hlen hblock hm _ => ?_
  refine ⟨fun o => ?_, fun o ho => ?_, fun i hi hout => ?_⟩
  · have hfile : w.metadata.db.HasFile (cfsPathToFileName path) := hrow
    refine (hm.recorded _ o).trans ?_
    simp only [World.db, hfile, true_and]
  · simp only [World.store, Posix.Fs.data_pwrite, if_pos]
    obtain ⟨k, hk, rfl⟩ := cfg.mem_offsetArray.mp ho
    have hend := cfg.mul_add_le_alignedSize hk
    exact Agree.fill (hblock hni) (Nat.le_add_right _ _) (by omega)
  · simp only [World.store, Posix.Fs.data_pwrite, if_pos]
    refine Posix.pwrite_getElem?_frame hi ?_
    -- a byte of the buffer is in one of its blocks
    by_contra hin
    have hblk : cfg.alignLowerOffset offset +
        (i - cfg.alignLowerOffset offset) / cfg.blockSize * cfg.blockSize ∈
          cfg.window offset buf.length := cfg.block_mem_window hbs (by omega)
    have hdiv := Nat.div_add_mod' (i - cfg.alignLowerOffset offset) cfg.blockSize
    have hmod := Nat.mod_lt (i - cfg.alignLowerOffset offset) hbs
    have hapart := hout _ hblk
    omega

/-- An aligned request of one block and a half. -/
theorem windowRight_iff_aligned : WindowRight ⟨[], [], 0, 4⟩ 4 6 :=
  (windowRight_iff ⟨[], [], 0, 4⟩ (by decide) (by decide)).2.mpr rfl

/-- Four bytes from position 2 touch the blocks 0 and 4; the window has block 0 only. -/
theorem window_not_right : ¬ ∀ offset size, 0 < size → WindowRight ⟨[], [], 0, 4⟩ offset size :=
  fun h => absurd (h 2 4 (by decide)).fits (by decide)

end Config

end CacheFs
