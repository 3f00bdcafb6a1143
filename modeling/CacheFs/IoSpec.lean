/-
  CacheFs.IoSpec

  What `cfs_cacheWrite`, `cfs_read` and `cfs_write` do when every call succeeds.

  A request works on a window of whole blocks.  `cfs_write` changes the NAS file
  and stores the whole window; `cfs_read` stores the blocks of the window that are
  not recorded, one `Fill` step for each, and takes the other ones from the cache
  file.  The specifications relate the worlds before and after a request; which
  invariants these changes keep is left to the modules that have one.
-/

import CacheFs.Calls
import CacheFs.Meta.Exact
import CacheFs.Posix.Agree

namespace CacheFs

open CacheFs.Effect
open CacheFs.Posix

-- ============================================================================
-- The block grid
-- ============================================================================

namespace Config

variable (cfg : Config)

/-- The number of blocks in the window of a request. -/
def windowBlocks (size : Nat) : Nat := cfg.alignedSize size / cfg.blockSize

/-- The blocks in the window of a request. -/
def window (offset size : Nat) : List Nat :=
  cfg.offsetArray (cfg.alignLowerOffset offset) (cfg.windowBlocks size)

theorem alignLowerOffset_le (offset : Nat) : cfg.alignLowerOffset offset ≤ offset :=
  Nat.sub_le _ _

theorem alignLowerOffset_mod (offset : Nat) :
    cfg.alignLowerOffset offset % cfg.blockSize = 0 := by
  rw [alignLowerOffset, Nat.sub_mod_eq_zero_of_mod_eq]
  exact (Nat.mod_mod _ _).symm

/-- The aligned size is a number of whole blocks. -/
theorem alignedSize_eq (size : Nat) :
    cfg.alignedSize size = cfg.windowBlocks size * cfg.blockSize := by
  have hdvd : cfg.blockSize ∣ cfg.alignedSize size := by
    unfold alignedSize
    dsimp only
    split
    · exact Nat.dvd_add (Nat.dvd_mul_right _ _) (Nat.dvd_refl _)
    · exact Nat.dvd_mul_right _ _
  rw [windowBlocks, Nat.div_mul_cancel hdvd]

theorem le_alignedSize (hbs : 0 < cfg.blockSize) (size : Nat) : size ≤ cfg.alignedSize size := by
  have hdiv := Nat.div_add_mod size cfg.blockSize
  have hlt := Nat.mod_lt size hbs
  unfold alignedSize
  dsimp only
  split <;> omega

theorem alignedSize_zero : cfg.alignedSize 0 = 0 := by simp [alignedSize]

theorem window_zero (offset : Nat) : cfg.window offset 0 = [] := by
  simp [window, windowBlocks, alignedSize_zero, offsetArray]

theorem mem_offsetArray {offset n o : Nat} :
    o ∈ cfg.offsetArray offset n ↔ ∃ i < n, o = offset + i * cfg.blockSize := by
  simp [offsetArray, eq_comm]

theorem offsetArray_succ (offset n : Nat) :
    cfg.offsetArray offset (n + 1) = cfg.offsetArray offset n ++ [offset + n * cfg.blockSize] := by
  simp [offsetArray, List.range_succ]

/-- A buffer of one block. -/
theorem offsetArray_one (hbs : 0 < cfg.blockSize) (offset : Nat) :
    cfg.offsetArray offset (cfg.blockSize / cfg.blockSize) = [offset] := by
  simp [offsetArray, Nat.div_self hbs]

/-- The `i`-th block of a window is within its buffer. -/
theorem mul_add_le_alignedSize {size i : Nat} (hi : i < cfg.windowBlocks size) :
    i * cfg.blockSize + cfg.blockSize ≤ cfg.alignedSize size := by
  rw [cfg.alignedSize_eq, ← Nat.succ_mul]
  exact Nat.mul_le_mul_right _ hi

/-- The blocks of a window lie on the grid. -/
theorem mod_of_mem_window {offset size o : Nat} (h : o ∈ cfg.window offset size) :
    o % cfg.blockSize = 0 := by
  obtain ⟨i, -, rfl⟩ := cfg.mem_offsetArray.mp h
  rw [Nat.add_mul_mod_self_right, alignLowerOffset_mod]

/-- A block on the grid lies inside the window or apart from it. -/
theorem mem_window_or_apart {offset size o : Nat} (ho : o % cfg.blockSize = 0) :
    o ∈ cfg.window offset size ∨ o + cfg.blockSize ≤ cfg.alignLowerOffset offset ∨
      cfg.alignLowerOffset offset + cfg.alignedSize size ≤ o := by
  obtain ⟨k, rfl⟩ := Nat.dvd_of_mod_eq_zero ho
  obtain ⟨l, hl⟩ := Nat.dvd_of_mod_eq_zero (cfg.alignLowerOffset_mod offset)
  rw [hl, cfg.alignedSize_eq, window, cfg.mem_offsetArray, hl]
  rcases Nat.lt_or_ge k l with hk | hk
  · right; left
    rw [← Nat.mul_succ]
    exact Nat.mul_le_mul_left _ hk
  · rcases Nat.lt_or_ge (k - l) (cfg.windowBlocks size) with hn | hn
    · left
      refine ⟨k - l, hn, ?_⟩
      rw [Nat.mul_comm (k - l), ← Nat.mul_add, Nat.add_sub_cancel' hk]
    · right; right
      rw [Nat.mul_comm (cfg.windowBlocks size), ← Nat.mul_add]
      exact Nat.mul_le_mul_left _ (by omega)

/-- The blocks with their indices, and what `f` says of them. -/
theorem zip_offsetArray {β : Type} (offset n : Nat) (f : Nat → β) :
    (List.range n).zip ((cfg.offsetArray offset n).map f) =
      (List.range n).map fun i => (i, f (offset + i * cfg.blockSize)) := by
  rw [offsetArray, List.map_map]
  simpa [Function.comp_def] using List.zip_map' (f := id) (g := fun i =>
    f (offset + i * cfg.blockSize)) (l := List.range n)

theorem zip_window {β : Type} (offset size : Nat) (f : Nat → β) :
    (List.range (cfg.windowBlocks size)).zip ((cfg.window offset size).map f) =
      (List.range (cfg.windowBlocks size)).map fun i =>
        (i, f (cfg.alignLowerOffset offset + i * cfg.blockSize)) :=
  cfg.zip_offsetArray _ _ f

/-- The blocks of the window cover it. -/
theorem block_mem_window {offset size j : Nat} (hbs : 0 < cfg.blockSize)
    (hj : j < cfg.alignedSize size) :
    cfg.alignLowerOffset offset + j / cfg.blockSize * cfg.blockSize ∈ cfg.window offset size := by
  refine cfg.mem_offsetArray.mpr ⟨j / cfg.blockSize, ?_, rfl⟩
  rw [cfg.alignedSize_eq] at hj
  exact (Nat.div_lt_iff_lt_mul hbs).mpr hj

end Config

-- ============================================================================
-- Storing blocks
-- ============================================================================

/-- `dualFH` has open descriptors for the NAS inode `ni` and the cache inode `ci`. -/
def Descriptors (w : World) (dualFH : DualFileHandle) (ni ci : Ino) : Prop :=
  (∃ r wr ap, w.fds dualFH.nasFH = some ⟨.nas, ni, r, wr, ap⟩) ∧
    ∃ r wr, w.fds dualFH.cacheFH = some ⟨.cache, ci, r, wr, false⟩

/-- `fh` is a live handle for the two inodes. -/
def Opened (w : World) (fh : Nat) (ni ci : Ino) : Prop :=
  ∃ dualFH, w.handles fh = some dualFH ∧ Descriptors w dualFH ni ci

/-- The inodes of the descriptors of a handle. -/
def World.nasIno (w : World) (fh : Nat) : Ino :=
  (((w.handles fh).bind fun dualFH => w.fds dualFH.nasFH).map (·.ino)).getD 0

def World.cacheIno (w : World) (fh : Nat) : Ino :=
  (((w.handles fh).bind fun dualFH => w.fds dualFH.cacheFH).map (·.ino)).getD 0

/-- Where a write at `offset` through a handle puts its bytes in the NAS file. -/
def World.nasPos (w : World) (fh offset : Nat) : Nat :=
  (((w.handles fh).bind fun dualFH => w.fds dualFH.nasFH).map fun f =>
    w.writePos f offset).getD offset

/-- The world after `buf` has been stored in the cache inode `ci` and the metadata
    has become `m`. -/
def World.store (w : World) (m : MetaState) (ci : Ino) (buf : List UInt8) (offset : Nat)
    (now : Int) : World :=
  { w with cache := w.cache.pwrite ci buf offset now, metadata := m }

section Specs

variable {cfg : Config} {A : Choice → Call → World → Prop} {w : World} {fuel : Nat}
  {cacheFileName : FileName} {fh : Nat} {ni ci : Ino}

/-- `cfs_cacheWrite`, if it returns, records the blocks and stores the buffer. -/
theorem wp_cfsCacheWrite (hA : AllSucceed A) (hwf : w.db.WF) (hfh : Opened w fh ni ci)
    {buf : List UInt8} {size offset : Nat} {Q : Int → World → Prop}
    (hQ : ∀ m now, Clock A now → offset + buf.length < 2 ^ 63 →
      WriteBlksPost w.metadata cacheFileName (cfg.offsetArray offset (size / cfg.blockSize)) m →
      Stamped (Clock A) cacheFileName (cfg.offsetArray offset (size / cfg.blockSize))
        w.metadata m →
      Q buf.length (w.store m ci buf offset now)) :
    Prog.wp (env A True) (cfsCacheWrite cfg fuel cacheFileName buf size offset fh) Q w := by
  obtain ⟨dualFH, hh, -, r, wr, hfd⟩ := hfh
  unfold cfsCacheWrite
  rw [Prog.wp_bind]
  apply wp_loadHandle hh
  rw [Prog.wp_bind]
  refine wp_evictionWait (fun _ => trivial) fun _ => ?_
  rw [Prog.wp_bind]
  refine wp_writeBlks_stamped hA.sql hwf fun m hm hs => ?_
  rw [Prog.wp_bind]
  refine wp_pwrite_cache (w := { w with metadata := m }) hA hfd fun hfit now hnow => ?_
  exact hQ m now hnow hfit hm hs

/-- `cfs_read` stores one block: bytes that agree with the NAS file, at a place of
    the window that is not recorded. -/
inductive Fill (cfg : Config) (A : Choice → Call → World → Prop) (cacheFileName : FileName)
    (ni ci : Ino) (window : List Nat) : World → World → Prop
  | mk {w : World} {m : MetaState} {bytes : List UInt8} {o : Nat} {now : Int}
      (hwindow : o ∈ window) (hnew : ¬ w.db.Recorded cacheFileName o)
      (hmeta : WriteBlksPost w.metadata cacheFileName [o] m)
      (hlen : bytes.length = cfg.blockSize)
      (hbytes : ∀ j < bytes.length, o + j < (w.nas.inode ni).data.length →
        bytes[j]? = (w.nas.inode ni).data[o + j]?)
      (hnow : Clock A now) :
      Fill cfg A cacheFileName ni ci window w (w.store m ci bytes o now)

/-- Any number of blocks. -/
abbrev Fills (cfg : Config) (A : Choice → Call → World → Prop) (cacheFileName : FileName)
    (ni ci : Ino) (window : List Nat) : World → World → Prop :=
  Relation.ReflTransGen (Fill cfg A cacheFileName ni ci window)

namespace Fills

variable {window window' : List Nat} {w' : World}

theorem nas (h : Fills cfg A cacheFileName ni ci window w w') : w'.nas = w.nas := by
  induction h with
  | refl => rfl
  | tail _ hs ih => cases hs; exact ih

theorem fds (h : Fills cfg A cacheFileName ni ci window w w') : w'.fds = w.fds := by
  induction h with
  | refl => rfl
  | tail _ hs ih => cases hs; exact ih

theorem handles (h : Fills cfg A cacheFileName ni ci window w w') : w'.handles = w.handles := by
  induction h with
  | refl => rfl
  | tail _ hs ih => cases hs; exact ih

theorem lookup (h : Fills cfg A cacheFileName ni ci window w w') (x : Path) :
    w'.cache.lookup x = w.cache.lookup x := by
  induction h with
  | refl => rfl
  | tail _ hs ih => cases hs; simpa [World.store] using ih

/-- Only the file of the handle is written. -/
theorem inode_ne (h : Fills cfg A cacheFileName ni ci window w w') {j : Ino} (hj : j ≠ ci) :
    w'.cache.inode j = w.cache.inode j := by
  induction h with
  | refl => rfl
  | tail _ hs ih =>
      cases hs
      rw [World.store, Fs.inode_pwrite_ne _ hj]
      exact ih

theorem wf (h : Fills cfg A cacheFileName ni ci window w w') (hwf : w.db.WF) : w'.db.WF := by
  induction h with
  | refl => exact hwf
  | tail _ hs ih => cases hs with | mk _ _ hmeta => exact AddSteps.wf hmeta.steps ih

theorem hasFile (h : Fills cfg A cacheFileName ni ci window w w') (n : FileName) :
    w'.db.HasFile n ↔ w.db.HasFile n := by
  induction h with
  | refl => rfl
  | tail _ hs ih => cases hs with | mk _ _ hmeta => exact (hmeta.hasFile n).trans ih

/-- What is recorded stays recorded. -/
theorem recorded (h : Fills cfg A cacheFileName ni ci window w w') {n : FileName} {o : Nat}
    (hr : w.db.Recorded n o) : w'.db.Recorded n o := by
  induction h with
  | refl => exact hr
  | tail _ hs ih => cases hs with | mk _ _ hmeta => exact (hmeta.recorded n o).mpr (Or.inl ih)

/-- Nothing is stored when the whole window is recorded. -/
theorem eq_of_recorded (h : Fills cfg A cacheFileName ni ci window w w')
    (hrec : ∀ o ∈ window, w.db.Recorded cacheFileName o) : w' = w := by
  rcases Relation.ReflTransGen.cases_head h with rfl | ⟨w₁, hs, -⟩
  · rfl
  · cases hs with | mk hin hnew => exact absurd (hrec _ hin) hnew

theorem mono (h : Fills cfg A cacheFileName ni ci window w w')
    (hsub : ∀ o ∈ window, o ∈ window') : Fills cfg A cacheFileName ni ci window' w w' := by
  refine Relation.ReflTransGen.mono (fun _ _ hf => ?_) _ _ h
  cases hf with
  | mk hin hnew hm hlen hbytes hnow => exact .mk (hsub _ hin) hnew hm hlen hbytes hnow

theorem recorded_or_mem (h : Fills cfg A cacheFileName ni ci window w w') {n : FileName} {o : Nat}
    (hr : w'.db.Recorded n o) : w.db.Recorded n o ∨ o ∈ window := by
  induction h with
  | refl => exact Or.inl hr
  | tail _ hs ih =>
      cases hs with
      | mk hin _ hm =>
          rcases (hm.recorded n o).mp hr with hr | ⟨-, -, ho⟩
          · exact ih hr
          · exact Or.inr (List.mem_singleton.mp ho ▸ hin)

/-- Behind the window the file of the handle is as before. -/
theorem data_behind (h : Fills cfg A cacheFileName ni ci window w w') {i : Nat}
    (hi : ∀ o ∈ window, o + cfg.blockSize ≤ i) :
    (w'.cache.inode ci).data[i]? = (w.cache.inode ci).data[i]? := by
  induction h with
  | refl => rfl
  | tail _ hs ih =>
      cases hs with
      | mk hin _ _ hlen =>
          have hend := hi _ hin
          rw [World.store, Fs.data_pwrite, if_pos rfl, pwrite_getElem?_behind (by omega)]
          exact ih

/-- The blocks recorded at the start keep their bytes. -/
theorem data_of_recorded (h : Fills cfg A cacheFileName ni ci window w w')
    (hwindow : ∀ o ∈ window, o % cfg.blockSize = 0) {o i : Nat}
    (hr : w.db.Recorded cacheFileName o) (ho : o % cfg.blockSize = 0) (hlo : o ≤ i)
    (hhi : i < o + cfg.blockSize) {b : UInt8} (hb : (w.cache.inode ci).data[i]? = some b) :
    (w'.cache.inode ci).data[i]? = some b := by
  induction h with
  | refl => exact hb
  | @tail w₁ w₂ h hs ih =>
      obtain ⟨hwin, hnew, hmeta, hlen, -, -⟩ := hs
      next m bytes o' now =>
      have hne : o ≠ o' := by
        rintro rfl
        exact hnew (Fills.recorded h hr)
      have hapart := aligned_apart ho (hwindow _ hwin) hne
      have hlt := (List.getElem?_eq_some_iff.mp ih).1
      simp only [World.store, Fs.data_pwrite, if_true]
      rw [pwrite_getElem?_frame hlt (by omega)]
      exact ih

end Fills

theorem World.nasIno_eq (h : Opened w fh ni ci) : w.nasIno fh = ni := by
  obtain ⟨dualFH, hdual, ⟨r, wr, ap, hnas⟩, -⟩ := h
  rw [World.nasIno, hdual, Option.bind_some, hnas, Option.map_some, Option.getD_some]

theorem World.nasPos_eq {dualFH : DualFileHandle} {f : OpenFile} (hfh : w.handles fh = some dualFH)
    (hfd : w.fds dualFH.nasFH = some f) (offset : Nat) :
    w.nasPos fh offset = w.writePos f offset := by
  rw [World.nasPos, hfh, Option.bind_some, hfd, Option.map_some, Option.getD_some]

theorem World.cacheIno_eq (h : Opened w fh ni ci) : w.cacheIno fh = ci := by
  obtain ⟨dualFH, hdual, -, r, wr, hcache⟩ := h
  rw [World.cacheIno, hdual, Option.bind_some, hcache, Option.map_some, Option.getD_some]

theorem Descriptors.congr {w' : World} {dualFH : DualFileHandle} (h : Descriptors w dualFH ni ci)
    (hf : w'.fds = w.fds) : Descriptors w' dualFH ni ci := by
  unfold Descriptors at h ⊢
  rwa [hf]

theorem Opened.congr {w' : World} (h : Opened w fh ni ci) (hh : w'.handles = w.handles)
    (hf : w'.fds = w.fds) : Opened w' fh ni ci := by
  obtain ⟨dualFH, hdual, hd⟩ := h
  exact ⟨dualFH, hh ▸ hdual, hd.congr hf⟩

-- ============================================================================
-- cfs_read
-- ============================================================================

/-- The file from which `cfs_read` takes the block at `o`. -/
def World.source (w : World) (cacheFileName : FileName) (ni ci : Ino) (o : Nat) : List UInt8 :=
  if w.db.selectBlockId o cacheFileName then (w.cache.inode ci).data else (w.nas.inode ni).data

/-- The number of bytes the first `k` blocks from `lowerOffset` on have in the files from
    which they are read. -/
def World.held (cfg : Config) (w : World) (cacheFileName : FileName) (ni ci : Ino)
    (lowerOffset k : Nat) : Nat :=
  ((List.range k).map fun i => min cfg.blockSize
    ((w.source cacheFileName ni ci (lowerOffset + i * cfg.blockSize)).length -
      (lowerOffset + i * cfg.blockSize))).sum

/-- The first `n` bytes of `buf` are those of the sources of their blocks. -/
def FromSources (cfg : Config) (w : World) (cacheFileName : FileName) (ni ci : Ino)
    (lowerOffset n : Nat) (buf : List UInt8) : Prop :=
  ∀ j < n, ∀ b,
    (w.source cacheFileName ni ci (lowerOffset + j / cfg.blockSize * cfg.blockSize))[
      lowerOffset + j]? = some b → buf[j]? = some b

section Held

variable {lowerOffset k : Nat}

theorem World.held_zero : w.held cfg cacheFileName ni ci lowerOffset 0 = 0 := rfl

theorem World.held_succ : w.held cfg cacheFileName ni ci lowerOffset (k + 1) =
    w.held cfg cacheFileName ni ci lowerOffset k + min cfg.blockSize
      ((w.source cacheFileName ni ci (lowerOffset + k * cfg.blockSize)).length -
        (lowerOffset + k * cfg.blockSize)) := by
  simp [World.held, List.range_succ]

/-- Blocks that are all read from one file hold what that file has of the window. -/
theorem World.held_of_source (data : List UInt8) (h : ∀ i < k,
    w.source cacheFileName ni ci (lowerOffset + i * cfg.blockSize) = data) :
    w.held cfg cacheFileName ni ci lowerOffset k =
      min (k * cfg.blockSize) (data.length - lowerOffset) := by
  induction k with
  | zero => simp [World.held_zero]
  | succ k ih =>
      rw [World.held_succ, ih fun i hi => h i (by omega), h k (by omega), Nat.succ_mul]
      omega

end Held

theorem fillBuf_length {buf data : List UInt8} {pos n off : Nat} (h : pos + n ≤ buf.length) :
    (fillBuf buf pos (.ok (Posix.pread data n off))).length = buf.length :=
  overwrite_length _ _ _ (by rw [pread_length]; omega)

/-- A byte of a buffer that has been read into. -/
theorem fillBuf_getElem? {buf data : List UInt8} {pos n off i : Nat} (h : pos + n ≤ buf.length) :
    (fillBuf buf pos (.ok (Posix.pread data n off)))[i]? =
      if pos ≤ i ∧ i < pos + n ∧ off + (i - pos) < data.length then data[off + (i - pos)]?
      else buf[i]? := by
  rw [fillBuf, overwrite_getElem? _ _ _ _ (by rw [pread_length]; omega), pread_length,
    pread_getElem?]
  by_cases hi : pos ≤ i ∧ i < pos + n ∧ off + (i - pos) < data.length
  · rw [if_pos hi, if_pos (by omega), if_pos (by omega)]
  · rw [if_neg hi, if_neg (by omega)]

/-- The part of the buffer that has been read into is what the file holds there. -/
theorem slice_fillBuf {buf : List UInt8} {pos n : Nat} (h : pos + n ≤ buf.length)
    (data : List UInt8) (off : Nat) :
    (((fillBuf buf pos (.ok (Posix.pread data n off))).drop pos).take n).length = n ∧
      ∀ j < n, off + j < data.length →
        (((fillBuf buf pos (.ok (Posix.pread data n off))).drop pos).take n)[j]? =
          data[off + j]? := by
  constructor
  · rw [List.length_take, List.length_drop, fillBuf_length h]
    omega
  · intro j hj hlt
    rw [List.getElem?_take, if_pos hj, List.getElem?_drop, fillBuf_getElem? h, if_pos]
    · rw [Nat.add_sub_cancel_left]
    · omega

/-- One turn of the loop of `cfs_read`. -/
theorem wp_readBlock (hA : AllSucceed A) (hbs : 0 < cfg.blockSize) (hwf : w.db.WF)
    (hfh : Opened w fh ni ci) {dualFH : DualFileHandle} (hd : Descriptors w dualFH ni ci)
    {lowerOffset i : Nat} {acc : Int × List UInt8} {hit : Int}
    (hlen : i * cfg.blockSize + cfg.blockSize ≤ acc.2.length)
    {Q : Int × List UInt8 → World → Prop}
    (hhit : hit ≠ 0 → Q (wrap32 (acc.1 + wrap32 (min cfg.blockSize
        ((w.cache.inode ci).data.length - (lowerOffset + i * cfg.blockSize)) : Nat)),
      fillBuf acc.2 (i * cfg.blockSize) (.ok (Posix.pread (w.cache.inode ci).data cfg.blockSize
        (lowerOffset + i * cfg.blockSize)))) w)
    (hmiss : hit = 0 → ∀ m now bytes, Clock A now →
      WriteBlksPost w.metadata cacheFileName [lowerOffset + i * cfg.blockSize] m →
      Stamped (Clock A) cacheFileName [lowerOffset + i * cfg.blockSize] w.metadata m →
      bytes.length = cfg.blockSize →
      (∀ j < bytes.length, lowerOffset + i * cfg.blockSize + j < (w.nas.inode ni).data.length →
        bytes[j]? = (w.nas.inode ni).data[lowerOffset + i * cfg.blockSize + j]?) →
      Q (wrap32 (acc.1 + wrap32 (min cfg.blockSize
          ((w.nas.inode ni).data.length - (lowerOffset + i * cfg.blockSize)) : Nat)),
        fillBuf acc.2 (i * cfg.blockSize) (.ok (Posix.pread (w.nas.inode ni).data
          cfg.blockSize (lowerOffset + i * cfg.blockSize))))
        (w.store m ci bytes (lowerOffset + i * cfg.blockSize) now)) :
    Prog.wp (env A True) (readBlock cfg fuel cacheFileName lowerOffset fh dualFH acc i hit)
      Q w := by
  obtain ⟨⟨r₁, wr₁, ap, hnas⟩, r₂, wr₂, hcache⟩ := hd
  unfold readBlock
  simp only [Prog.wp_ite]
  split
  · next hne =>
      rw [Prog.wp_bind]
      refine wp_pread_cache hA hcache fun _ => ?_
      rw [← pread_length] at hhit
      exact hhit hne
  · next heq =>
      rw [Prog.wp_bind]
      refine wp_pread_nas hA hnas fun _ => ?_
      rw [Prog.wp_bind]
      obtain ⟨hslice, hbytes⟩ := slice_fillBuf hlen (w.nas.inode ni).data
        (lowerOffset + i * cfg.blockSize)
      refine wp_cfsCacheWrite hA hwf hfh fun m now hnow _ hm hs => ?_
      rw [cfg.offsetArray_one hbs] at hm hs
      rw [← pread_length] at hmiss
      refine hmiss (not_not.mp heq) m now _ hnow hm hs hslice fun j hj hlt => ?_
      exact hbytes j (hslice ▸ hj) hlt

/-- Reading the next block from a file that has the bytes of its source. -/
theorem FromSources.fill {lowerOffset k : Nat} {buf data : List UInt8}
    (h : FromSources cfg w cacheFileName ni ci lowerOffset (k * cfg.blockSize) buf)
    (hlen : k * cfg.blockSize + cfg.blockSize ≤ buf.length)
    (hdata : ∀ i, lowerOffset + k * cfg.blockSize ≤ i →
      i < lowerOffset + k * cfg.blockSize + cfg.blockSize → ∀ b,
      (w.source cacheFileName ni ci (lowerOffset + k * cfg.blockSize))[i]? = some b →
      data[i]? = some b) :
    FromSources cfg w cacheFileName ni ci lowerOffset ((k + 1) * cfg.blockSize)
      (fillBuf buf (k * cfg.blockSize) (.ok (Posix.pread data cfg.blockSize
        (lowerOffset + k * cfg.blockSize)))) := by
  intro j hj b hb
  rw [Nat.succ_mul] at hj
  rw [fillBuf_getElem? hlen]
  by_cases hk : k * cfg.blockSize ≤ j
  · have hdiv : j / cfg.blockSize = k := Nat.div_eq_of_lt_le hk (by rw [Nat.succ_mul]; exact hj)
    rw [hdiv] at hb
    have hbyte := hdata (lowerOffset + j) (by omega) (by omega) b hb
    have hlt := (List.getElem?_eq_some_iff.mp hbyte).1
    have hpos : lowerOffset + k * cfg.blockSize + (j - k * cfg.blockSize) = lowerOffset + j := by
      omega
    rw [hpos, if_pos ⟨hk, hj, hlt⟩]
    exact hbyte
  · rw [if_neg fun hin => hk hin.1]
    exact h j (by omega) b hb

/-- A split of the indices of a loop. -/
theorem range_map_split {β : Type} {f : Nat → β} {n : Nat} {done rest : List β} {x : β}
    (h : (List.range n).map f = done ++ x :: rest) : done.length < n ∧ x = f done.length := by
  have hlen := congrArg List.length h
  simp only [List.length_map, List.length_range, List.length_append, List.length_cons] at hlen
  have hget := congrArg (·[done.length]?) h
  simp only [List.getElem?_map, List.getElem?_append_right (le_refl _), Nat.sub_self,
    List.getElem?_cons_zero] at hget
  rw [List.getElem?_range (by omega)] at hget
  exact ⟨by omega, (Option.some.inj hget).symm⟩

/-- What the loop of `cfs_read` has reached after `k` blocks. -/
structure ReadInv (cfg : Config) (A : Choice → Call → World → Prop) (w : World)
    (cacheFileName : FileName) (ni ci : Ino) (offset size k : Nat) (acc : Int × List UInt8)
    (w' : World) : Prop where
  fills : Fills cfg A cacheFileName ni ci (cfg.window offset size) w w'
  metadata : WriteBlksPost w.metadata cacheFileName
    ((cfg.offsetArray (cfg.alignLowerOffset offset) k).filter
      fun o => !w.db.selectBlockId o cacheFileName) w'.metadata
  stamped : Stamped (Clock A) cacheFileName
    ((cfg.offsetArray (cfg.alignLowerOffset offset) k).filter
      fun o => !w.db.selectBlockId o cacheFileName) w.metadata w'.metadata
  ret : acc.1 = wrap32 (w.held cfg cacheFileName ni ci (cfg.alignLowerOffset offset) k)
  /-- The cache file has grown up to the next block at most. -/
  reach : (w.cache.inode ci).data.length ≤ (w'.cache.inode ci).data.length ∧
    (w'.cache.inode ci).data.length ≤ max (w.cache.inode ci).data.length
      (cfg.alignLowerOffset offset + k * cfg.blockSize)
  length : acc.2.length = cfg.alignedSize size
  buf : FromSources cfg w cacheFileName ni ci (cfg.alignLowerOffset offset)
    (k * cfg.blockSize) acc.2

theorem wp_readLoop (hA : AllSucceed A) (hbs : 0 < cfg.blockSize) (hwf : w.db.WF)
    (hfh : Opened w fh ni ci) {dualFH : DualFileHandle} (hd : Descriptors w dualFH ni ci)
    {offset size : Nat} {cacheBuf : List UInt8} (hbuf : cacheBuf.length = cfg.alignedSize size) :
    Prog.wp (env A True)
      (((List.range (cfg.windowBlocks size)).zip
        ((cfg.window offset size).map (w.db.hitFlag cacheFileName))).foldlM
        (fun acc e => readBlock cfg fuel cacheFileName (cfg.alignLowerOffset offset) fh dualFH acc
          e.1 e.2) (0, cacheBuf))
      (ReadInv cfg A w cacheFileName ni ci offset size (cfg.windowBlocks size)) w := by
  set lo := cfg.alignLowerOffset offset with hlo
  rw [cfg.zip_window, ← hlo]
  refine Prog.wp_mono (Prog.wp_foldlM (I := fun done acc w' =>
    ReadInv cfg A w cacheFileName ni ci offset size done.length acc w') ?_ ?_) ?_
  · refine ⟨.refl, ?_, ?_, wrap32_zero.symm, ⟨le_refl _, Nat.le_max_left _ _⟩, hbuf, fun j hj => ?_⟩
    · simpa [Config.offsetArray] using WriteBlksPost.refl w.metadata cacheFileName
    · simpa [Config.offsetArray] using Stamped.refl (Clock A) cacheFileName w.metadata
    · simp at hj
  · rintro done x rest acc w' hx ⟨hfills, hmeta, hstamp, hret, hreach, hlen, hfrom⟩
    obtain ⟨hk, rfl⟩ := range_map_split hx
    rw [List.length_append, List.length_singleton]
    generalize done.length = k at *
    have hmem : lo + k * cfg.blockSize ∈ cfg.window offset size :=
      cfg.mem_offsetArray.mpr ⟨k, hk, rfl⟩
    have hroom : k * cfg.blockSize + cfg.blockSize ≤ acc.2.length := by
      rw [hlen]
      exact cfg.mul_add_le_alignedSize hk
    have hsucc := cfg.offsetArray_succ lo k
    refine wp_readBlock hA hbs (hfills.wf hwf) (hfh.congr hfills.handles hfills.fds)
      (hd.congr hfills.fds) hroom ?_ ?_
    · -- the block is recorded: it is read from the cache file
      intro hhit
      have hrec := (Db.hitFlag_ne_zero_iff hwf).mp hhit
      have hsel := hwf.selectBlockId_iff.mpr hrec
      have hskip : (cfg.offsetArray lo (k + 1)).filter
          (fun o => !w.db.selectBlockId o cacheFileName) = (cfg.offsetArray lo k).filter
            fun o => !w.db.selectBlockId o cacheFileName := by
        rw [hsucc, List.filter_append, List.filter_cons_of_neg (by simp [hsel]), List.filter_nil,
          List.append_nil]
      refine ⟨hfills, ?_, ?_, ?_, ?_, ?_, hfrom.fill hroom fun i h₁ h₂ b hb => ?_⟩
      · rw [hskip]
        exact hmeta
      · rw [hskip]
        exact hstamp
      · -- what has been stored so far ends before this block
        have hsame : min cfg.blockSize
            ((w'.cache.inode ci).data.length - (lo + k * cfg.blockSize)) =
            min cfg.blockSize ((w.cache.inode ci).data.length - (lo + k * cfg.blockSize)) := by
          omega
        rw [World.held_succ, World.source, if_pos hsel, hret, wrap32_add, ← Int.natCast_add, hsame]
      · rw [Nat.succ_mul]
        omega
      · rw [fillBuf_length hroom, hlen]
      · rw [World.source, if_pos hsel] at hb
        exact hfills.data_of_recorded (fun o => cfg.mod_of_mem_window) hrec
          (cfg.mod_of_mem_window hmem) h₁ h₂ hb
    · -- the block is not recorded: it is read from the NAS and stored
      intro hmiss m now bytes hnow hm hs hbytes hagree
      have hnew := (Db.hitFlag_ne_zero_iff hwf).not.mp (not_not.mpr hmiss)
      have hsel : w.db.selectBlockId (lo + k * cfg.blockSize) cacheFileName = false := by
        rw [← hwf.selectBlockId_iff] at hnew
        simpa using hnew
      have hnew' : ¬ w'.db.Recorded cacheFileName (lo + k * cfg.blockSize) := by
        intro hrec
        rcases (hmeta.recorded _ _).mp hrec with hrec | ⟨-, -, hin⟩
        · exact hnew hrec
        · obtain ⟨i, hi, heq⟩ := cfg.mem_offsetArray.mp (List.mem_of_mem_filter hin)
          have := Nat.mul_lt_mul_of_pos_right hi hbs
          omega
      have hadd : (cfg.offsetArray lo (k + 1)).filter
          (fun o => !w.db.selectBlockId o cacheFileName) = (cfg.offsetArray lo k).filter
            (fun o => !w.db.selectBlockId o cacheFileName) ++ [lo + k * cfg.blockSize] := by
        rw [hsucc, List.filter_append, List.filter_cons_of_pos (by simp [hsel]), List.filter_nil]
      refine ⟨hfills.tail (.mk hmem hnew' hm hbytes hagree hnow), ?_, ?_, ?_, ?_, ?_,
        hfrom.fill hroom fun i _ _ b hb => ?_⟩
      · rw [hadd]
        exact hmeta.trans hwf hm
      · rw [hadd]
        exact hstamp.trans hs
      · rw [World.held_succ, World.source, if_neg (by simp [← hlo, hsel]), hret, wrap32_add,
          ← Int.natCast_add, hfills.nas]
      · have hne : bytes ≠ [] := by
          rw [← List.length_pos_iff]
          omega
        rw [Nat.succ_mul]
        simp only [World.store, Fs.data_pwrite, if_true, pwrite_length _ _ _ hne]
        omega
      · rw [fillBuf_length hroom, hlen]
      · rw [World.source, ← hlo, if_neg (by simp [hsel])] at hb
        rwa [hfills.nas]
  · intro acc w' h
    simpa using h

theorem wp_copyOut {cacheBuf : List UInt8} {pos size : Nat} {Q : List UInt8 → World → Prop}
    (hQ : ∀ buf : List UInt8, buf.length = size →
      (∀ i < size, pos + i < cacheBuf.length → buf[i]? = cacheBuf[pos + i]?) → Q buf w) :
    Prog.wp (env A True) (copyOut cacheBuf pos size) Q w := by
  have hbytes : ((cacheBuf.drop pos).take size).length = min size (cacheBuf.length - pos) := by
    rw [List.length_take, List.length_drop]
  have hget : ∀ i < size, ((cacheBuf.drop pos).take size)[i]? = cacheBuf[pos + i]? := by
    intro i hi
    rw [List.getElem?_take, if_pos hi, List.getElem?_drop]
  unfold copyOut
  simp only [Prog.wp_ite]
  split
  · next hshort =>
      rw [Prog.wp_bind]
      refine wp_strayRead fun stray hstray => ?_
      refine hQ _ (by rw [List.length_append, hstray]; omega) fun i hi hlt => ?_
      rw [List.getElem?_append_left (by omega), hget i hi]
  · next hfull => exact hQ _ (by omega) fun i hi _ => hget i hi

/-- `cfs_read`, if it returns, has stored the blocks of the window that were not
    recorded, and `buf` holds, as far as the window reaches, the bytes of the
    sources. -/
theorem wp_cfsRead (hA : AllSucceed A) (hbs : 0 < cfg.blockSize) (hwf : w.db.WF)
    (hfh : Opened w fh ni ci) {path : Path} {size offset : Nat}
    {Q : Int × List UInt8 → World → Prop}
    (hQ : ∀ ret buf w',
      Fills cfg A (cfsPathToFileName path) ni ci (cfg.window offset size) w w' →
      WriteBlksPost w.metadata (cfsPathToFileName path) ((cfg.window offset size).filter
        fun o => !w.db.selectBlockId o (cfsPathToFileName path)) w'.metadata →
      Stamped (Clock A) (cfsPathToFileName path) ((cfg.window offset size).filter
        fun o => !w.db.selectBlockId o (cfsPathToFileName path)) w.metadata w'.metadata →
      ret = wrap32 (w.held cfg (cfsPathToFileName path) ni ci (cfg.alignLowerOffset offset)
        (cfg.windowBlocks size)) →
      (∀ i < size, offset + i < cfg.alignLowerOffset offset + cfg.alignedSize size →
        ∃ o ∈ cfg.window offset size, o ≤ offset + i ∧ offset + i < o + cfg.blockSize ∧
          ∀ b, (w.source (cfsPathToFileName path) ni ci o)[offset + i]? = some b →
            buf[i]? = some b) →
      Q (ret, buf) w') :
    Prog.wp (env A True) (cfsRead cfg fuel path size offset fh) Q w := by
  obtain ⟨dualFH, hh, hd⟩ := hfh
  have hfh : Opened w fh ni ci := ⟨dualFH, hh, hd⟩
  have hlower := cfg.alignLowerOffset_le offset
  have halign := cfg.alignedSize_eq size
  -- what is left to do once the aligned buffer has been filled
  have hcopy : ∀ (acc : Int × List UInt8) (w' : World),
      ReadInv cfg A w (cfsPathToFileName path) ni ci offset size (cfg.windowBlocks size)
        acc w' →
      Prog.wp (env A True) (do
        let buf ← copyOut acc.2 (offset - cfg.alignLowerOffset offset) size
        pure (acc.1, buf)) Q w' := by
    intro acc w' hinv
    rw [Prog.wp_bind]
    refine wp_copyOut fun buf hlen hbuf =>
      hQ acc.1 buf w' hinv.fills hinv.metadata hinv.stamped hinv.ret fun i hi hin => ?_
    set j := offset - cfg.alignLowerOffset offset + i with hj
    have hpos : cfg.alignLowerOffset offset + j = offset + i := by omega
    have hdiv := Nat.div_add_mod' j cfg.blockSize
    have hmod := Nat.mod_lt j hbs
    refine ⟨_, cfg.block_mem_window hbs (j := j) (by omega), by omega, by omega, fun b hb => ?_⟩
    rw [hbuf i hi (by rw [hinv.length]; omega)]
    rw [← hpos] at hb
    exact hinv.buf j (by omega) b hb
  have hwindow : cfg.offsetArray (cfg.alignLowerOffset offset)
      (cfg.alignedSize size / cfg.blockSize) = cfg.window offset size := rfl
  unfold cfsRead
  rw [Prog.wp_bind, hwindow]
  apply wp_areBlocksInCache hA.sql
  rw [Prog.wp_bind]
  apply wp_loadHandle hh
  rw [Prog.wp_bind]
  refine wp_malloc fun cacheBuf hbuf => ?_
  rw [Prog.wp_bind]
  unfold readWindow
  by_cases hall : (cfg.window offset size).all
      (w.db.selectBlockId · (cfsPathToFileName path)) = true
  · -- every block is recorded: one read from the cache file
    have hsel : ∀ o ∈ cfg.window offset size,
        w.db.selectBlockId o (cfsPathToFileName path) = true := List.all_eq_true.mp hall
    obtain ⟨r, wr, hcache⟩ := hd.2
    simp only [hall, if_true, Int.zero_lt_one, decide_true, Prog.wp_bind]
    refine wp_pread_cache hA hcache fun _ => ?_
    have hnil : (cfg.window offset size).filter
        (fun o => !w.db.selectBlockId o (cfsPathToFileName path)) = [] := by
      rw [List.filter_eq_nil_iff]
      intro o ho
      simp [hsel o ho]
    rw [Config.window] at hnil
    refine hcopy (_, _) _ ⟨.refl, ?_, ?_, ?_, ⟨le_refl _, Nat.le_max_left _ _⟩, ?_, ?_⟩
    · rw [hnil]
      exact .refl _ _
    · rw [hnil]
      exact .refl _ _ _
    · rw [World.held_of_source (w.cache.inode ci).data, ← halign, ← pread_length]
      · simp only [readRet, Except.map, logSyscall]
      · exact fun i hi => if_pos (hsel _ (cfg.mem_offsetArray.mpr ⟨i, hi, rfl⟩))
    · rw [fillBuf_length (by omega), hbuf]
    · intro j hj b hb
      have hmem : cfg.alignLowerOffset offset + j / cfg.blockSize * cfg.blockSize ∈
          cfg.window offset size := cfg.block_mem_window hbs (by omega)
      rw [World.source, if_pos (hsel _ hmem)] at hb
      have hlt := (List.getElem?_eq_some_iff.mp hb).1
      rw [fillBuf_getElem? (by omega), if_pos (by omega), Nat.sub_zero]
      exact hb
  · simp only [hall, Bool.false_eq_true, if_false, lt_self_iff_false, decide_false]
    refine Prog.wp_mono (wp_readLoop hA hbs hwf hfh hd hbuf) fun acc w' hinv => ?_
    exact hcopy acc w' hinv

-- ============================================================================
-- cfs_write
-- ============================================================================

/-- `cfs_write` reads back no more than the window, when the window starts within
    the range of offsets and the read is not refused for its size. -/
theorem nasReadSize_le {alignedSize lowerOffset stSize : Nat} (hlow : lowerOffset < 2 ^ 63)
    (hread : nasReadSize alignedSize lowerOffset stSize < 2 ^ 63) :
    nasReadSize alignedSize lowerOffset stSize ≤ alignedSize := by
  unfold nasReadSize wrap64 at *
  split at hread
  · next hlt =>
      rw [if_pos hlt]
      omega
  · next hge => rw [if_neg hge]

/-- It reads back what the file has of the window, when the window also ends there. -/
theorem le_nasReadSize {alignedSize lowerOffset : Nat} (stSize : Nat)
    (hfit : lowerOffset + alignedSize < 2 ^ 63) :
    min alignedSize (stSize - lowerOffset) ≤ nasReadSize alignedSize lowerOffset stSize := by
  unfold nasReadSize wrap64
  split <;> omega

/-- `cfs_write`, if it returns, has written to the NAS file and has stored the
    whole window; the bytes stored are those of the NAS file, provided that the
    path still leads to the file of the handle. -/
theorem wp_cfsWrite (hA : AllSucceed A) (hwf : w.db.WF) (hfh : Opened w fh ni ci) {path : Path}
    {buf : List UInt8} {offset : Nat} {Q : Int → World → Prop}
    (hQ : ∀ m now₁ now₂ block, Clock A now₁ → Clock A now₂ →
      block.length = cfg.alignedSize buf.length →
      (w.nas.lookup (cfg.fullNasPath path) = some ni → ∀ j < block.length,
        cfg.alignLowerOffset offset + j <
          (Posix.pwrite (w.nas.inode ni).data buf (w.nasPos fh offset)).length →
        block[j]? = (Posix.pwrite (w.nas.inode ni).data buf (w.nasPos fh offset))[
          cfg.alignLowerOffset offset + j]?) →
      WriteBlksPost w.metadata (cfsPathToFileName path) (cfg.window offset buf.length) m →
      Stamped (Clock A) (cfsPathToFileName path) (cfg.window offset buf.length) w.metadata m →
      Q buf.length (World.store { w with nas := w.nas.pwrite ni buf (w.nasPos fh offset) now₁ } m ci
        block (cfg.alignLowerOffset offset) now₂)) :
    Prog.wp (env A True) (cfsWrite cfg fuel path buf offset fh) Q w := by
  obtain ⟨dualFH, hh, hd⟩ := hfh
  obtain ⟨r, wr, ap, hnas⟩ := hd.1
  rw [World.nasPos_eq hh hnas] at hQ
  unfold cfsWrite
  rw [Prog.wp_bind]
  apply wp_loadHandle hh
  rw [Prog.wp_bind]
  refine wp_pwrite_nas hA hnas fun hoff now₁ hnow₁ => ?_
  generalize w.writePos ⟨.nas, ni, r, wr, ap⟩ offset = pos at hQ hoff ⊢
  set w₁ : World := { w with nas := w.nas.pwrite ni buf pos now₁ } with hw₁
  rw [Prog.wp_bind, cfsGetNASattr, Prog.wp_bind]
  refine wp_lstat hA fun i hi => ?_
  rw [Prog.wp_pure, Prog.wp_bind]
  refine wp_malloc fun cacheBuf hbuf => ?_
  rw [Prog.wp_bind]
  refine wp_pread_nas (w := w₁) hA hnas fun hread => ?_
  have hle := nasReadSize_le (lt_of_le_of_lt (cfg.alignLowerOffset_le offset) (by omega)) hread
  rw [Prog.wp_bind]
  generalize hn : nasReadSize (cfg.alignedSize buf.length) (cfg.alignLowerOffset offset)
    ((w₁.fs .nas).inode i).stat.size = n at hle
  have hroom : 0 + n ≤ cacheBuf.length := by omega
  have hlen : (fillBuf cacheBuf 0 (.ok (Posix.pread (w₁.nas.inode ni).data n
      (cfg.alignLowerOffset offset)))).length = cacheBuf.length := fillBuf_length hroom
  refine wp_cfsCacheWrite (w := w₁) hA hwf ⟨dualFH, hh, hd⟩ fun m now₂ hnow₂ hfit hm hs => ?_
  refine hQ m now₁ now₂ _ hnow₁ hnow₂ (hlen.trans hbuf) (fun hlook j hj hlt => ?_) hm hs
  -- the path leads to the file of the handle: its size is the size after the write
  have hino : i = ni := by
    have hi' : w.nas.lookup (cfg.fullNasPath path) = some i := by simpa [hw₁, World.fs] using hi
    exact Option.some.inj (hi'.symm.trans hlook)
  have hdata : (w₁.nas.inode ni).data = Posix.pwrite (w.nas.inode ni).data buf pos := by
    simp [hw₁, Fs.data_pwrite]
  have hst : ((w₁.fs .nas).inode i).stat.size =
      (Posix.pwrite (w.nas.inode ni).data buf pos).length := by
    rw [hino, ← hdata]
    rfl
  rw [hlen] at hj hfit
  have hge := le_nasReadSize ((w₁.fs .nas).inode i).stat.size (hbuf ▸ hfit)
  rw [hn, hst] at hge
  rw [fillBuf_getElem? hroom, if_pos, Nat.sub_zero, hdata]
  rw [hdata]
  omega

end Specs

end CacheFs
