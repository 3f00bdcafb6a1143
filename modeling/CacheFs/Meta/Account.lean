/-
  CacheFs.Meta.Account

  The used size is kept three times: in the counter `cache_used_size`, in the
  column `local_size` of each file, and in the rows of `Datablocks`, each of which
  stands for one block of the size in force when it was inserted.

  `Accounted` says that the three agree, given the size each row stands for
  (`size`, by block id).  Every change of the metadata preserves it (`AddStep`,
  `deleteFile`), a mount reloads it, and `AccountRun` puts mounts and operations
  together.  The sizes are a history variable: `stamp` gives the rows an operation
  has added the block size of that moment.
-/

import Mathlib.Algebra.Order.Group.Int
import Mathlib.Data.List.TakeWhile
import CacheFs.Meta.Spec

namespace CacheFs

open CacheFs.Effect

-- ============================================================================
-- The three copies
-- ============================================================================

namespace Db

/-- The sum of `local_size` over `Files`. -/
def total (db : Db) : Int := (db.files.map (·.localSize)).sum

/-- The sum of `size` over the blocks of a file. -/
def blocksSize (db : Db) (size : Nat → Nat) (fileId : Nat) : Nat :=
  (db.datablocks.map fun b => if b.fileId = fileId then size b.blockId else 0).sum

end Db

/-- The counter, the column and the rows agree. -/
structure Accounted (size : Nat → Nat) (m : MetaState) : Prop where
  wf : m.db.WF
  used : (m.cacheUsedSize : Int) = m.db.total
  localSize : ∀ f ∈ m.db.files, f.localSize = m.db.blocksSize size f.fileId

/-- `cache_used_size` is the sum of `local_size`, and each `local_size` is
    `meta_block_size` times the number of rows of the file. -/
structure SizesAgree (m : MetaState) : Prop where
  wf : m.db.WF
  used : (m.cacheUsedSize : Int) = m.db.total
  localSize : ∀ f ∈ m.db.files,
    f.localSize = m.metaBlockSize * m.db.datablocks.countP (·.fileId = f.fileId)

/-- The sizes of the rows after the metadata has gone from `m` to `m'`: a row that
    was not there before has been inserted with the block size now in force. -/
def stamp (size : Nat → Nat) (m m' : MetaState) (blockId : Nat) : Nat :=
  if blockId ∈ m.db.datablocks.map (·.blockId) then size blockId else m'.metaBlockSize

-- ============================================================================
-- Sums
-- ============================================================================

theorem wrap64_of_lt {x : Int} (h0 : 0 ≤ x) (h : x < 2 ^ 64) : (wrap64 x : Int) = x := by
  rw [wrap64, Int.toNat_of_nonneg (Int.emod_nonneg _ (by decide)), Int.emod_eq_of_lt h0 h]

theorem wrap64_of_nat {n : Nat} (h : n < 2 ^ 64) : wrap64 n = n := by
  unfold wrap64
  omega

/-- Only the last result of a sum has to be wrapped. -/
theorem wrap64_add (x y : Int) : wrap64 (wrap64 x + y) = wrap64 (x + y) := by
  unfold wrap64
  omega

/-- The counter after `k` more blocks, if it does not wrap. -/
theorem MetaState.usedAfter_of_le {m : MetaState} {k : Nat}
    (hle : m.cacheUsedSize + k * m.metaBlockSize < 2 ^ 64) :
    m.usedAfter k = m.cacheUsedSize + k * m.metaBlockSize := by
  induction k with
  | zero => simp [MetaState.usedAfter]
  | succ k ih =>
      rw [Nat.succ_mul] at hle
      rw [MetaState.usedAfter, Function.iterate_succ_apply', ← MetaState.usedAfter,
        ih (by omega), Nat.succ_mul]
      have hwrap := wrap64_of_lt (x := ((m.cacheUsedSize + k * m.metaBlockSize : Nat) : Int) +
        m.metaBlockSize) (by omega) (by omega)
      omega

/-- Rows for which the summand is zero can be left out. -/
theorem sum_map_filter {α : Type} (p : α → Bool) (g : α → Nat) (l : List α)
    (h : ∀ a ∈ l, p a = false → g a = 0) : ((l.filter p).map g).sum = (l.map g).sum := by
  induction l with
  | nil => rfl
  | cons a l ih =>
      have ih := ih fun b hb => h b (List.mem_cons_of_mem a hb)
      cases hp : p a with
      | true => rw [List.filter_cons_of_pos hp, List.map_cons, List.sum_cons, ih, List.map_cons,
          List.sum_cons]
      | false => rw [List.filter_cons_of_neg (by simp [hp]), ih, List.map_cons, List.sum_cons,
          h a List.mem_cons_self hp, Nat.zero_add]

namespace Db

variable {db : Db} {filename : FileName}

theorem not_hasFile_cons {f : FileRow} {fs : List FileRow} (bs : List BlockRow)
    (h : (f :: fs).map (·.relativePath) |>.Nodup) (hf : f.relativePath = filename) :
    ¬ (⟨fs, bs⟩ : Db).HasFile filename := by
  rintro ⟨g, hg, hp⟩
  rw [List.map_cons, List.nodup_cons] at h
  exact h.1 (List.mem_map.mpr ⟨g, hg, hp.trans hf.symm⟩)

/-- An update of a file without a row changes nothing. -/
theorem addLocalSize_of_not_hasFile (amount : Int) (h : ¬ db.HasFile filename) :
    db.addLocalSize amount filename = db := by
  have hmap : db.files.map (fun f =>
      if f.relativePath = filename then { f with localSize := f.localSize + amount } else f) =
        db.files := by
    rw [List.map_congr_left, List.map_id]
    intro f hf
    exact if_neg fun hp => h ⟨f, hf, hp⟩
  rw [addLocalSize, hmap]

theorem deleteFile_of_not_hasFile (h : ¬ db.HasFile filename) :
    (db.deleteFile filename).files = db.files := by
  rw [deleteFile, List.filter_eq_self]
  intro f hf
  simpa using fun hp => h ⟨f, hf, hp⟩

/-- One row is raised, the row of the file. -/
theorem total_addLocalSize (huniq : (db.files.map (·.relativePath)).Nodup)
    (h : db.HasFile filename) (amount : Int) :
    (db.addLocalSize amount filename).total = db.total + amount := by
  obtain ⟨fs, bs⟩ := db
  induction fs with
  | nil =>
      obtain ⟨f, hf, -⟩ := h
      exact absurd hf List.not_mem_nil
  | cons f fs ih =>
      by_cases hp : f.relativePath = filename
      · have hrest := addLocalSize_of_not_hasFile amount (not_hasFile_cons bs huniq hp)
        simp only [addLocalSize, mk.injEq, and_true] at hrest
        simp only [total, addLocalSize, List.map_cons, if_pos hp, hrest, List.sum_cons]
        omega
      · have hin : (⟨fs, bs⟩ : Db).HasFile filename := by
          obtain ⟨g, hg, hgp⟩ := h
          rcases List.mem_cons.mp hg with rfl | hg
          · exact absurd hgp hp
          · exact ⟨g, hg, hgp⟩
        have hih := ih (List.nodup_cons.mp huniq).2 hin
        simp only [total, addLocalSize] at hih
        simp only [total, addLocalSize, List.map_cons, if_neg hp, List.sum_cons, hih]
        omega

/-- One row goes, the row of the file. -/
theorem total_deleteFile (huniq : (db.files.map (·.relativePath)).Nodup) :
    (db.deleteFile filename).total = db.total - (db.localSize? filename).getD 0 := by
  obtain ⟨fs, bs⟩ := db
  induction fs with
  | nil => simp [total, deleteFile, localSize?]
  | cons f fs ih =>
      by_cases hp : f.relativePath = filename
      · have hrest := deleteFile_of_not_hasFile (not_hasFile_cons bs huniq hp)
        simp only [deleteFile] at hrest
        simp only [total, deleteFile, List.filter_cons, hp, ne_eq, not_true_eq_false, decide_false,
          Bool.false_eq_true, if_false, hrest, List.map_cons, List.sum_cons, localSize?,
          List.find?_cons, decide_true, Option.map_some, Option.getD_some]
        omega
      · have hih := ih (List.nodup_cons.mp huniq).2
        simp only [total, deleteFile, localSize?] at hih
        simp only [total, deleteFile, List.filter_cons, hp, ne_eq, not_false_eq_true, decide_true,
          if_true, List.map_cons, List.sum_cons, localSize?, List.find?_cons, decide_false, hih]
        omega

theorem total_nonneg (h : ∀ f ∈ db.files, 0 ≤ f.localSize) : 0 ≤ db.total := by
  refine List.sum_nonneg fun x hx => ?_
  obtain ⟨f, hf, rfl⟩ := List.mem_map.mp hx
  exact h f hf

/-- No file accounts for more than all of them. -/
theorem localSize_le_total (h : ∀ f ∈ db.files, 0 ≤ f.localSize) {f : FileRow}
    (hf : f ∈ db.files) : f.localSize ≤ db.total := by
  refine List.single_le_sum ?_ _ (List.mem_map_of_mem hf)
  intro x hx
  obtain ⟨g, hg, rfl⟩ := List.mem_map.mp hx
  exact h g hg

theorem localSize?_nonneg (h : ∀ f ∈ db.files, 0 ≤ f.localSize) (filename : FileName) :
    0 ≤ (db.localSize? filename).getD 0 := by
  cases hl : db.localSize? filename with
  | none => exact le_refl _
  | some s =>
      obtain ⟨f, hf, rfl⟩ := Option.map_eq_some_iff.mp hl
      exact h f (List.mem_of_find?_eq_some hf)

theorem blocksSize_congr {size size' : Nat → Nat}
    (h : ∀ b ∈ db.datablocks, size b.blockId = size' b.blockId) (fileId : Nat) :
    db.blocksSize size fileId = db.blocksSize size' fileId := by
  rw [blocksSize, blocksSize, List.map_congr_left]
  intro b hb
  rw [h b hb]

/-- Rows of one size are counted. -/
theorem blocksSize_const (db : Db) (n fileId : Nat) : db.blocksSize (fun _ => n) fileId =
    n * db.datablocks.countP (·.fileId = fileId) := by
  rw [blocksSize]
  induction db.datablocks with
  | nil => rfl
  | cons b bs ih =>
      rw [List.map_cons, List.sum_cons, ih, List.countP_cons, Nat.mul_add, Nat.add_comm]
      by_cases hb : b.fileId = fileId <;> simp [hb]

/-- The cascade takes no row of the files that stay. -/
theorem WF.blocksSize_deleteFile (h : db.WF) (size : Nat → Nat) {f : FileRow} (hf : f ∈ db.files)
    (hne : f.relativePath ≠ filename) :
    (db.deleteFile filename).blocksSize size f.fileId = db.blocksSize size f.fileId := by
  refine sum_map_filter _ _ _ fun b _ hb => if_neg fun hid => ?_
  simp only [Bool.not_eq_false', List.any_eq_true, decide_eq_true_eq] at hb
  obtain ⟨g, hg, hp, hgid⟩ := hb
  exact hne (by rw [h.eq_of_fileId hf hg (hid.symm.trans hgid.symm), hp])

/-- The id of a new file is in no row of `Datablocks`. -/
theorem WF.blocksSize_fresh (h : db.WF) (size : Nat → Nat) :
    db.blocksSize size (freshId (db.files.map (·.fileId))) = 0 := by
  rw [blocksSize, List.map_congr_left (g := fun _ => 0)]
  · simp
  · intro b hb
    obtain ⟨g, hg, hgid⟩ := h.foreignKey b hb
    refine if_neg fun hid => freshId_not_mem (db.files.map (·.fileId)) ?_
    exact List.mem_map.mpr ⟨g, hg, hgid.trans hid⟩

/-- A new row counts for its file. -/
theorem WF.blocksSize_insertRow (h : db.WF) (size : Nat → Nat) {f g : FileRow} (hf : f ∈ db.files)
    (hg : g ∈ db.files) {b : BlockRow} (hb : b.fileId = f.fileId) :
    ({ db with datablocks := db.datablocks ++ [b] } : Db).blocksSize size g.fileId =
      db.blocksSize size g.fileId +
        if g.relativePath = f.relativePath then size b.blockId else 0 := by
  have hid : b.fileId = g.fileId ↔ g.relativePath = f.relativePath := by
    rw [hb]
    exact ⟨fun hid => by rw [h.eq_of_fileId hf hg hid], fun hp => by rw [h.eq_of_path hg hf hp]⟩
  simp only [blocksSize, List.map_append, List.sum_append, List.map_cons, List.map_nil,
    List.sum_cons, List.sum_nil, Nat.add_zero, hid]

theorem blocksSize_addLocalSize (size : Nat → Nat) (amount : Int) (fileId : Nat) :
    (db.addLocalSize amount filename).blocksSize size fileId = db.blocksSize size fileId := rfl

theorem blocksSize_touchDatablock (size : Nat → Nat) (blkOffset : Nat) (now : Int) (fileId : Nat) :
    (db.touchDatablock blkOffset filename now).blocksSize size fileId =
      db.blocksSize size fileId := by
  rw [blocksSize, blocksSize, map_touchDatablock]
  exact fun _ _ => rfl

end Db

-- ============================================================================
-- The counter and the column
-- ============================================================================

/-- The counter is the sum of the column, in which no size is negative. -/
structure Balanced (m : MetaState) : Prop where
  wf : m.db.WF
  used : (m.cacheUsedSize : Int) = m.db.total
  nonneg : ∀ f ∈ m.db.files, 0 ≤ f.localSize

namespace Balanced

variable {m : MetaState} {filename : FileName} {blkOffset : Nat} {now : Int} {db : Db}

/-- No file accounts for more than the counter. -/
theorem localSize_le (h : Balanced m) {f : FileRow} (hf : f ∈ m.db.files) :
    f.localSize ≤ m.cacheUsedSize := by
  rw [h.used]
  exact Db.localSize_le_total h.nonneg hf

/-- What `delete_file` reads is between zero and the counter. -/
theorem localSize?_mem (h : Balanced m) (filename : FileName) :
    0 ≤ (m.db.localSize? filename).getD 0 ∧
      (m.db.localSize? filename).getD 0 ≤ m.cacheUsedSize := by
  refine ⟨Db.localSize?_nonneg h.nonneg filename, ?_⟩
  cases hl : m.db.localSize? filename with
  | none => exact Int.natCast_nonneg _
  | some s =>
      obtain ⟨f, hf, rfl⟩ := Option.map_eq_some_iff.mp hl
      exact h.localSize_le (List.mem_of_find?_eq_some hf)

/-- The subtraction in `delete_file` does not wrap. -/
theorem deleteFile_used (h : Balanced m) (hlt : m.cacheUsedSize < 2 ^ 64)
    (filename : FileName) :
    ((m.deleteFile filename).cacheUsedSize : Int) =
      m.cacheUsedSize - (m.db.localSize? filename).getD 0 := by
  have hmem := h.localSize?_mem filename
  rw [MetaState.deleteFile, wrap64_of_lt (by omega) (by omega)]
  omega

theorem deleteFile (h : Balanced m) (hlt : m.cacheUsedSize < 2 ^ 64) (filename : FileName) :
    Balanced (m.deleteFile filename) where
  wf := h.wf.deleteFile
  used := by
    rw [h.deleteFile_used hlt, h.used]
    exact (Db.total_deleteFile h.wf.uniquePath).symm
  nonneg f hf := h.nonneg f (Db.mem_files_deleteFile.mp hf).1

theorem createFile (h : Balanced m) {remoteSize : Nat}
    (hi : m.db.insertFile filename remoteSize = some db) : Balanced { m with db } := by
  have hwf := h.wf.insertFile hi
  obtain ⟨-, rfl⟩ := Db.insertFile_eq_some hi
  refine ⟨hwf, ?_, fun f hf => ?_⟩
  · simp only [h.used, Db.total, Db.newFile, List.map_append, List.sum_append, List.map_cons,
      List.map_nil, List.sum_cons, List.sum_nil, Int.add_zero]
  · rcases List.mem_append.mp hf with hf | hf
    · exact h.nonneg f hf
    · rw [List.mem_singleton.mp hf]
      exact le_refl _

theorem touchBlock (h : Balanced m) (filename : FileName) (blkOffset : Nat) (now : Int) :
    Balanced { m with db := m.db.touchDatablock blkOffset filename now } where
  wf := h.wf.touchDatablock
  used := by rw [h.used, Db.total, Db.total, Db.files_touchDatablock]
  nonneg := by rw [Db.files_touchDatablock]; exact h.nonneg

/-- A row of `Datablocks` alone is on neither side. -/
theorem insertRow (h : Balanced m) (hi : m.db.insertDatablock blkOffset filename now = some db) :
    Balanced { m with db } := by
  have hwf := h.wf.insertDatablock hi
  obtain ⟨f, -, -, -, rfl⟩ := Db.insertDatablock_eq_some hi
  exact ⟨hwf, h.used, h.nonneg⟩

theorem insertBlock (h : Balanced m)
    (hi : m.db.insertDatablock blkOffset filename now = some db)
    (hlt : m.cacheUsedSize + m.metaBlockSize < 2 ^ 64) : Balanced (m.grow db filename) := by
  have hwf := h.wf.insertDatablock hi
  have hrow := h.insertRow hi
  obtain ⟨f, hf, rfl, -, rfl⟩ := Db.insertDatablock_eq_some hi
  refine ⟨hwf.addLocalSize, ?_, fun g hg => ?_⟩
  · rw [MetaState.grow, Db.total_addLocalSize hwf.uniquePath ⟨f, hf, rfl⟩,
      wrap64_of_lt (by omega) (by omega)]
    exact congrArg (· + (m.metaBlockSize : Int)) hrow.used
  · obtain ⟨g, hg', rfl⟩ := Db.mem_addLocalSize.mp hg
    have hg' := h.nonneg g hg'
    dsimp only
    split <;> omega

end Balanced

-- ============================================================================
-- What one change does
-- ============================================================================

namespace Accounted

variable {size : Nat → Nat} {m m' : MetaState}

theorem congr {size' : Nat → Nat} (h : Accounted size m)
    (heq : ∀ b ∈ m.db.datablocks, size b.blockId = size' b.blockId) : Accounted size' m where
  wf := h.wf
  used := h.used
  localSize f hf := by rw [h.localSize f hf, Db.blocksSize_congr heq]

theorem balanced (h : Accounted size m) : Balanced m where
  wf := h.wf
  used := h.used
  nonneg f hf := by
    rw [h.localSize f hf]
    exact Int.natCast_nonneg _

theorem deleteFile (h : Accounted size m) (hlt : m.cacheUsedSize < 2 ^ 64)
    (filename : FileName) : Accounted size (m.deleteFile filename) where
  wf := h.wf.deleteFile
  used := (h.balanced.deleteFile hlt filename).used
  localSize f hf := by
    obtain ⟨hf, hne⟩ := Db.mem_files_deleteFile.mp hf
    rw [h.localSize f hf]
    exact congrArg Nat.cast (h.wf.blocksSize_deleteFile size hf hne).symm

/-- A step keeps the sizes of the rows it finds. -/
theorem stamp_old {b : BlockRow} (hb : b ∈ m.db.datablocks) :
    stamp size m m' b.blockId = size b.blockId :=
  if_pos (List.mem_map_of_mem hb)

theorem createFile (h : Accounted size m) {filename : FileName} {remoteSize : Nat} {db : Db}
    (hi : m.db.insertFile filename remoteSize = some db) : Accounted size { m with db } := by
  have hbal := h.balanced.createFile hi
  obtain ⟨-, rfl⟩ := Db.insertFile_eq_some hi
  refine ⟨hbal.wf, hbal.used, fun f hf => ?_⟩
  rcases List.mem_append.mp hf with hf | hf
  · exact h.localSize f hf
  · rw [List.mem_singleton.mp hf]
    exact congrArg Nat.cast (h.wf.blocksSize_fresh size).symm

theorem touchBlock (h : Accounted size m) (filename : FileName) (blkOffset : Nat) (now : Int) :
    Accounted size { m with db := m.db.touchDatablock blkOffset filename now } where
  wf := h.wf.touchDatablock
  used := (h.balanced.touchBlock filename blkOffset now).used
  localSize f hf := by
    rw [Db.files_touchDatablock] at hf
    rw [h.localSize f hf, Db.blocksSize_touchDatablock]

theorem insertBlock (h : Accounted size m) {filename : FileName} {blkOffset : Nat} {now : Int}
    {db : Db} (hi : m.db.insertDatablock blkOffset filename now = some db)
    (hlt : (m.grow db filename).db.total < 2 ^ 63) :
    Accounted (stamp size m (m.grow db filename)) (m.grow db filename) := by
  have hwf : (m.grow db filename).db.WF := (h.wf.insertDatablock hi).addLocalSize
  have huniq := (h.wf.insertDatablock hi).uniquePath
  obtain ⟨f, hf, rfl, hnew, rfl⟩ := Db.insertDatablock_eq_some hi
  have hfile : Db.HasFile _ f.relativePath := ⟨f, hf, rfl⟩
  have htotal := Db.total_addLocalSize huniq hfile m.metaBlockSize
  simp only [MetaState.grow] at hlt hwf ⊢
  have hused := h.used
  simp only [Db.total] at htotal hused hlt
  refine ⟨hwf, ?_, ?_⟩
  · simp only [Db.total, htotal]
    rw [wrap64_of_lt (by omega) (by omega), hused]
  · intro g hg
    obtain ⟨g, hg', rfl⟩ := Db.mem_addLocalSize.mp hg
    -- the old rows keep their sizes, the new row stands for the current one
    have hold : ∀ m' : MetaState, ∀ b ∈ m.db.datablocks,
        stamp size m m' b.blockId = size b.blockId := fun m' b hb => stamp_old hb
    have hfresh : ∀ m' : MetaState, stamp size m m'
        (freshId (m.db.datablocks.map (·.blockId))) = m'.metaBlockSize :=
      fun m' => if_neg (freshId_not_mem _)
    have hrow := fun m' => h.wf.blocksSize_insertRow (stamp size m m') hf hg'
      (b := ⟨freshId (m.db.datablocks.map (·.blockId)), blkOffset, now, f.fileId⟩) rfl
    simp only [Db.blocksSize_congr (hold _), hfresh] at hrow
    rw [Db.blocksSize_addLocalSize, hrow, Nat.cast_add, ← h.localSize g hg']
    dsimp only
    split <;> simp

end Accounted

-- ============================================================================
-- Runs of changes that keep every row
-- ============================================================================

section AddSteps

variable {size : Nat → Nat} {m m' : MetaState}

theorem AddStep.blockId_mem (h : AddStep m m') {id : Nat}
    (hid : id ∈ m.db.datablocks.map (·.blockId)) : id ∈ m'.db.datablocks.map (·.blockId) := by
  cases h with
  | createFile hi =>
      obtain ⟨-, rfl⟩ := Db.insertFile_eq_some hi
      exact hid
  | insertBlock hi =>
      obtain ⟨f, -, -, -, rfl⟩ := Db.insertDatablock_eq_some hi
      simp only [MetaState.grow, Db.addLocalSize, List.map_append]
      exact List.mem_append_left _ hid
  | touchBlock filename blkOffset now => rwa [Db.map_touchDatablock _ fun _ _ => rfl]

theorem AddSteps.blockId_mem (h : AddSteps m m') {id : Nat}
    (hid : id ∈ m.db.datablocks.map (·.blockId)) : id ∈ m'.db.datablocks.map (·.blockId) := by
  induction h with
  | refl => exact hid
  | tail _ hs ih => exact hs.blockId_mem ih

theorem AddStep.total_le (h : AddStep m m') (hwf : m.db.WF) : m.db.total ≤ m'.db.total := by
  cases h with
  | createFile hi =>
      obtain ⟨-, rfl⟩ := Db.insertFile_eq_some hi
      simp [Db.total, Db.newFile]
  | insertBlock hi =>
      have huniq := (hwf.insertDatablock hi).uniquePath
      obtain ⟨f, hf, rfl, -, rfl⟩ := Db.insertDatablock_eq_some hi
      rw [MetaState.grow, Db.total_addLocalSize huniq ⟨f, hf, rfl⟩]
      simp only [Db.total]
      omega
  | touchBlock filename blkOffset now =>
      rw [Db.total, Db.total, Db.files_touchDatablock]

theorem AddStep.accounted (hs : AddStep m m') (hlt : m'.db.total < 2 ^ 63)
    (h : Accounted size m) : Accounted (stamp size m m') m' := by
  cases hs with
  | createFile hi =>
      refine (h.createFile hi).congr fun b hb => ?_
      obtain ⟨-, rfl⟩ := Db.insertFile_eq_some hi
      exact (Accounted.stamp_old hb).symm
  | insertBlock hi => exact h.insertBlock hi hlt
  | touchBlock filename blkOffset now =>
      refine (h.touchBlock filename blkOffset now).congr fun b hb => ?_
      have hmem := List.mem_map_of_mem (f := fun b : BlockRow => b.blockId) hb
      rw [Db.map_touchDatablock _ fun _ _ => rfl] at hmem
      exact (if_pos hmem).symm

/-- Stamping after each step of a run, or once at its end, is the same. -/
theorem AddSteps.stamp_tail {m₁ : MetaState} (hs : AddSteps m m₁) (h : AddStep m₁ m') (id : Nat) :
    stamp (stamp size m m₁) m₁ m' id = stamp size m m' id := by
  by_cases hid : id ∈ m.db.datablocks.map (·.blockId)
  · simp only [stamp, if_pos hid, if_pos (hs.blockId_mem hid)]
  · simp only [stamp, if_neg hid, h.metaBlockSize, ite_self]

theorem AddSteps.accounted (hs : AddSteps m m') (hlt : m'.db.total < 2 ^ 63)
    (h : Accounted size m) : Accounted (stamp size m m') m' := by
  induction hs with
  | refl => exact h.congr fun b hb => (Accounted.stamp_old hb).symm
  | tail hs hstep ih =>
      have hle := hstep.total_le (AddSteps.wf hs h.wf)
      have hnext := hstep.accounted hlt (ih (by omega))
      exact hnext.congr fun b _ => AddSteps.stamp_tail hs hstep b.blockId

end AddSteps

-- ============================================================================
-- Operations and mounts
-- ============================================================================

/-- A call of one of the functions of `meta.c` that change the tables. -/
inductive MetaOp where
  | createFile (filename : FileName) (remoteSize : Nat)
  | deleteFile (filename : FileName)
  | insertBlock (filename : FileName) (blkOffset : Nat)
  | insertBlocks (filename : FileName) (blkArr : List Nat)
  | writeBlks (filename : FileName) (blkArr : List Nat)
  | updateBlkTime (filename : FileName) (blkOffset : Nat)

def MetaOp.prog : MetaOp → CfsM Int
  | .createFile filename remoteSize => CacheFs.createFile filename remoteSize
  | .deleteFile filename => CacheFs.deleteFile filename
  | .insertBlock filename blkOffset => CacheFs.insertBlock filename blkOffset
  | .insertBlocks filename blkArr => CacheFs.insertBlocks filename blkArr
  | .writeBlks filename blkArr => CacheFs.writeBlks filename blkArr
  | .updateBlkTime filename blkOffset => CacheFs.updateBlkTime filename blkOffset

/-- An operation either deletes one file or keeps every row. -/
theorem MetaOp.wp_prog (o : MetaOp) {w : World} (hwf : w.db.WF) :
    Prog.wp (env constraintsOnly False) o.prog (fun _ w' =>
      AddSteps w.metadata w'.metadata ∨
        ∃ filename, w'.metadata = w.metadata.deleteFile filename) w := by
  have hA := sqlSucceeds_constraintsOnly
  cases o with
  | createFile filename remoteSize =>
      exact wp_createFile hA (fun _ => Or.inl .refl) fun db hi => Or.inl (.single (.createFile hi))
  | deleteFile filename => exact wp_deleteFile hA (Or.inr ⟨filename, rfl⟩)
  | insertBlock filename blkOffset =>
      exact wp_insertBlock hA (fun _ => Or.inl .refl) fun now _ db hi =>
        Or.inl (.single (.insertBlock hi))
  | insertBlocks filename blkArr =>
      simp only [MetaOp.prog, CacheFs.insertBlocks, Prog.wp_bind]
      refine Prog.wp_mono (Prog.wp_foldlM (I := fun _ _ w' => AddSteps w.metadata w'.metadata)
        .refl ?_) fun _ _ h => Or.inl h
      rintro done x rest _ w' - hs
      rw [Prog.wp_bind]
      exact wp_insertBlock hA (fun _ => hs) fun now _ db hi => hs.tail (.insertBlock hi)
  | writeBlks filename blkArr => exact wp_writeBlks hA hwf fun m' h => Or.inl h.steps
  | updateBlkTime filename blkOffset =>
      exact wp_updateBlkTime hA fun now _ => Or.inl (.single (.touchBlock filename blkOffset now))

/-- `str_to_num` reads back the text of a number. -/
theorem strToNum_intText {n : Nat} (h : n < 2 ^ 64) : strToNum (intText n) = some n := by
  have htext : intText n = Nat.toDigits 10 n := by
    rw [intText, if_neg (by omega), Int.natAbs_natCast]
  have hdigit : ∀ c ∈ Nat.toDigits 10 n, c.isDigit = true :=
    fun c hc => Nat.isDigit_of_mem_toDigits (by decide) (by decide) hc
  obtain ⟨c, cs, hcs⟩ := List.exists_cons_of_ne_nil (Nat.toDigits_ne_nil (b := 10) (n := n))
  have hc := hdigit c (by simp [hcs])
  have hminus : c ≠ '-' := by rintro rfl; exact absurd hc (by decide)
  have hplus : c ≠ '+' := by rintro rfl; exact absurd hc (by decide)
  have hblank : isSpace c = false := by
    have hlow : 48 ≤ c.toNat := (Char.isDigit_iff_toNat.mp hc).1
    have hne : c ≠ ' ' := by rintro rfl; exact absurd hc (by decide)
    simp only [isSpace, hne, false_or, decide_eq_false_iff_not]
    omega
  have htake : (c :: cs).takeWhile Char.isDigit = c :: cs := by
    rw [List.takeWhile_eq_self_iff, ← hcs]
    exact hdigit
  have hval : Nat.ofDigitChars 10 (c :: cs) 0 = n := by
    rw [← hcs, Nat.ofDigitChars_ten_toDigits]
  rw [htext, hcs, strToNum]
  simp only [List.head?_cons, Option.some.injEq, hminus, if_false, List.dropWhile_cons, hblank,
    Bool.false_eq_true, hplus, or_self, htake, hval, List.cons_ne_nil, false_or]
  rw [if_neg (by omega)]

/-- A mount sets the block size and reloads the counter. -/
theorem wp_mount {A : Choice → Call → World → Prop} {S : Prop} (hA : SqlSucceeds A) {blkSize : Nat}
    {w : World} {Q : Option Unit → World → Prop}
    (h0 : w.metadata.cacheUsedSize = 0) (hnonneg : 0 ≤ w.db.total) (hlt : w.db.total < 2 ^ 64)
    (hQ : Q (some ()) { w with metadata :=
      { db := w.db, cacheUsedSize := w.db.total.toNat, metaBlockSize := blkSize } }) :
    Prog.wp (env A S) (mount blkSize) Q w := by
  unfold mount setBlockSize initCacheUsedSize
  simp only [Prog.wp_bind, ask, wp_call, Prog.wp_ret]
  intro c₁ _ c₂ hc₂
  have herr := hA _ _ _ hc₂ rfl
  have hsum : (handle c₁ (.setMetaBlockSize blkSize) w).2.db.sumLocalSize? =
      w.db.sumLocalSize? := rfl
  have hrc : World.select c₂ true = .row := World.select_eq herr true
  simp only [handle, hrc, herr, Option.isSome_none, Bool.false_eq_true, if_false, reduceCtorEq]
  simp only [handle] at hsum
  rw [hsum, Db.sumLocalSize?]
  by_cases hnil : w.db.files = []
  · -- the sum over no rows is NULL, and the fresh counter stays zero
    have htotal : w.db.total.toNat = w.metadata.cacheUsedSize := by simp [Db.total, hnil, h0]
    rw [htotal] at hQ
    simp only [hnil, if_true, Option.map_none, Prog.wp_pure]
    exact hQ
  · have htext : intText w.db.total = intText (w.db.total.toNat : Nat) := by
      rw [Int.toNat_of_nonneg hnonneg]
    have hnum := strToNum_intText (n := w.db.total.toNat) (by omega)
    rw [← htext] at hnum
    simp only [Db.total] at hnum
    simp only [hnil, if_false, Option.map_some, hnum, Prog.wp_bind, wp_call, Prog.wp_ret,
      Prog.wp_pure, handle]
    intro c₃ _
    exact hQ

-- ============================================================================
-- Runs
-- ============================================================================

/-- The worlds reached from an empty database by mounts and operations, with the
    size each row stands for. -/
inductive AccountRun : (Nat → Nat) → World → Prop
  | start {w : World} (h : w.metadata = {}) : AccountRun (fun _ => 0) w
  | mount {size : Nat → Nat} {w w' : World} (blkSize : Nat) (hblk : blkSize < 2 ^ 63)
      (h : AccountRun size w)
      (he : Prog.Exec (env constraintsOnly False) (mount blkSize) w.reboot (some ()) w') :
      AccountRun size w'
  | op {size : Nat → Nat} {w w' : World} {ret : Int} (o : MetaOp) (h : AccountRun size w)
      (he : Prog.Exec (env constraintsOnly False) o.prog w ret w') (hlt : w'.db.total < 2 ^ 63) :
      AccountRun (stamp size w.metadata w'.metadata) w'

theorem Accounted.used_lt {size : Nat → Nat} {m : MetaState} (h : Accounted size m)
    (hlt : m.db.total < 2 ^ 63) : m.cacheUsedSize < 2 ^ 64 := by
  have hused := h.used
  omega

theorem AccountRun.invariant {size : Nat → Nat} {w : World} (h : AccountRun size w) :
    Accounted size w.metadata ∧ w.db.total < 2 ^ 63 := by
  induction h with
  | start h =>
      refine ⟨⟨?_, ?_, ?_⟩, ?_⟩ <;> simp [World.db, h, Db.wf_empty, Db.total]
  | @mount size w w' blkSize hblk _ he ih =>
      obtain ⟨hacc, hlt⟩ := ih
      have hused := hacc.used
      have htotal : w.reboot.db.total = w.db.total := rfl
      have hdb : w.db.total = w.metadata.db.total := rfl
      refine Prog.wp_exec (Q := fun _ w' => Accounted size w'.metadata ∧ w'.db.total < 2 ^ 63)
        (wp_mount sqlSucceeds_constraintsOnly rfl (by omega) (by omega) ?_) he
      refine ⟨⟨hacc.wf, ?_, hacc.localSize⟩, hlt⟩
      exact Int.toNat_of_nonneg (by omega)
  | @op size w w' ret o _ he hlt ih =>
      obtain ⟨hacc, hlt₀⟩ := ih
      refine ⟨?_, hlt⟩
      rcases Prog.wp_exec (o.wp_prog hacc.wf) he with hs | ⟨filename, hdel⟩
      · exact hs.accounted hlt hacc
      · rw [hdel]
        refine (hacc.deleteFile (Accounted.used_lt hacc hlt₀) filename).congr fun b hb => ?_
        exact (Accounted.stamp_old (Db.mem_datablocks_deleteFile.mp hb).1).symm

/-- In every reachable state the counter, the column and the rows agree, and no
    file accounts for more than the counter, so that `delete_file` subtracts
    without wrapping. -/
theorem AccountRun.used_eq_total {size : Nat → Nat} {w : World} (h : AccountRun size w) :
    (w.metadata.cacheUsedSize : Int) = w.db.total ∧
      (∀ f ∈ w.db.files, f.localSize = w.db.blocksSize size f.fileId) ∧
      ∀ filename, ((w.metadata.deleteFile filename).cacheUsedSize : Int) =
        w.metadata.cacheUsedSize - (w.db.localSize? filename).getD 0 :=
  ⟨h.invariant.1.used, h.invariant.1.localSize,
    fun filename => h.invariant.1.balanced.deleteFile_used
      (Accounted.used_lt h.invariant.1 h.invariant.2)
      filename⟩

/-- A file of one block of 4 bytes and, after a remount, one of 8. -/
theorem AccountRun.used_eq_total_two_sizes : ∃ size w, AccountRun size w ∧
    w.metadata.cacheUsedSize = 12 ∧ (w.metadata.cacheUsedSize : Int) = w.db.total := by
  have exec {α : Type} {p : CfsM α} {w w' : World} {r : α}
      (h : Prog.runAllowed (env constraintsOnly False) (fun _ => {}) p w = some (r, w')) :
      Prog.Exec (env constraintsOnly False) p w r w' := Prog.exec_of_runAllowed _ h
  have hboot : AccountRun _ (World.init .empty .empty) := .start rfl
  have hmount := AccountRun.mount 4 (by decide) hboot (exec rfl)
  have hfile := AccountRun.op (.createFile ['/', 'a'] 10) hmount (exec rfl) (by decide)
  have hblock := AccountRun.op (.insertBlock ['/', 'a'] 0) hfile (exec rfl) (by decide)
  have hagain := AccountRun.mount 8 (by decide) hblock (exec rfl)
  have hlast := AccountRun.op (.writeBlks ['/', 'a'] [0, 8]) hagain (exec rfl) (by decide)
  exact ⟨_, _, hlast, rfl, hlast.used_eq_total.1⟩

end CacheFs
