/-
  CacheFs.Meta.Schema

  The metadata database: tables `Files` and `Datablocks`, and the SQL statements
  `meta.c` runs on them.

  A statement that would break a constraint of the schema (`UNIQUE`, `NOT NULL`,
  the foreign key) is refused and changes nothing; it is modelled as `none`.
  `WF` collects what the constraints guarantee, `HasFile` and `Recorded` are the
  two questions the cache asks of the tables, and each statement has a lemma for
  each of the three.
-/

import CacheFs.Path

namespace CacheFs

/-- A row of table `Files`. -/
structure FileRow where
  fileId : Nat
  relativePath : FileName
  remoteSize : Nat
  localSize : Int := 0
deriving DecidableEq

/-- A row of table `Datablocks`. -/
structure BlockRow where
  blockId : Nat
  blkStartOffset : Nat
  timestamp : Int
  fileId : Nat
deriving DecidableEq

structure Db where
  files : List FileRow := []
  datablocks : List BlockRow := []

/-- The id SQLite gives a new row of a table with an INTEGER PRIMARY KEY: one
    more than the largest in use. -/
def freshId (ids : List Nat) : Nat := ids.foldr max 0 + 1

theorem lt_freshId {ids : List Nat} {i : Nat} (h : i ∈ ids) : i < freshId ids := by
  induction ids with
  | nil => exact absurd h List.not_mem_nil
  | cons j ids ih =>
      simp only [freshId, List.foldr_cons, List.mem_cons] at *
      rcases h with rfl | h
      · omega
      · have := ih h
        omega

theorem freshId_not_mem (ids : List Nat) : freshId ids ∉ ids :=
  fun h => Nat.lt_irrefl _ (lt_freshId h)

namespace Db

-- ============================================================================
-- Statements
-- ============================================================================

/-- `SELECT file_id FROM Files WHERE relative_path = ?`. -/
def fileId? (db : Db) (filename : FileName) : Option Nat :=
  (db.files.find? (·.relativePath = filename)).map (·.fileId)

/-- `SELECT local_size FROM Files WHERE relative_path = ?`. -/
def localSize? (db : Db) (filename : FileName) : Option Int :=
  (db.files.find? (·.relativePath = filename)).map (·.localSize)

/-- Whether `SELECT block_id FROM Datablocks` finds a row for the offset and the
    file id of the sub-select. -/
def selectBlockId (db : Db) (blkOffset : Nat) (filename : FileName) : Bool :=
  match db.fileId? filename with
  | none => false
  | some id => db.datablocks.any fun b => b.blkStartOffset = blkOffset ∧ b.fileId = id

/-- `SELECT SUM(local_size) FROM Files`: NULL on an empty table. -/
def sumLocalSize? (db : Db) : Option Int :=
  if db.files = [] then none else some (db.files.map (·.localSize)).sum

/-- `INSERT INTO Files(relative_path, remote_size)`. -/
def insertFile (db : Db) (filename : FileName) (remoteSize : Nat) : Option Db :=
  if db.files.any (·.relativePath = filename) then none
  else some { db with files := db.files ++
    [{ fileId := freshId (db.files.map (·.fileId)), relativePath := filename, remoteSize }] }

/-- `INSERT INTO Datablocks (blk_start_offset, file_id)` with the file id of the
    sub-select, which is NULL for a file that has no row. -/
def insertDatablock (db : Db) (blkOffset : Nat) (filename : FileName) (now : Int) : Option Db :=
  match db.fileId? filename with
  | none => none
  | some id =>
    if db.datablocks.any fun b => b.blkStartOffset = blkOffset ∧ b.fileId = id then none
    else some { db with datablocks := db.datablocks ++
      [⟨freshId (db.datablocks.map (·.blockId)), blkOffset, now, id⟩] }

/-- `UPDATE Files SET local_size = local_size + ? WHERE relative_path = ?`.  This is the
    sum SQLite computes while it stays in the 64 bits of an integer column. -/
def addLocalSize (db : Db) (amount : Int) (filename : FileName) : Db :=
  { db with files := db.files.map fun f =>
      if f.relativePath = filename then { f with localSize := f.localSize + amount } else f }

/-- `DELETE FROM Files WHERE relative_path = ?`, with ON DELETE CASCADE. -/
def deleteFile (db : Db) (filename : FileName) : Db :=
  { files := db.files.filter (·.relativePath ≠ filename)
    datablocks := db.datablocks.filter fun b =>
      !db.files.any fun f => f.relativePath = filename ∧ f.fileId = b.fileId }

/-- `DELETE FROM Datablocks WHERE blk_start_offset = ? and file_id = (SELECT ...)`. -/
def deleteDatablock (db : Db) (blkOffset : Nat) (filename : FileName) : Db :=
  match db.fileId? filename with
  | none => db
  | some id => { db with datablocks := db.datablocks.filter fun b =>
      ¬(b.blkStartOffset = blkOffset ∧ b.fileId = id) }

/-- `UPDATE Datablocks SET timestamp = (DATETIME('now'))` for one block. -/
def touchDatablock (db : Db) (blkOffset : Nat) (filename : FileName) (now : Int) : Db :=
  match db.fileId? filename with
  | none => db
  | some id => { db with datablocks := db.datablocks.map fun b =>
      if b.blkStartOffset = blkOffset ∧ b.fileId = id then { b with timestamp := now } else b }

-- ============================================================================
-- What the constraints guarantee
-- ============================================================================

/-- The constraints of the schema. -/
structure WF (db : Db) : Prop where
  uniquePath : (db.files.map (·.relativePath)).Nodup
  uniqueFileId : (db.files.map (·.fileId)).Nodup
  uniqueBlockId : (db.datablocks.map (·.blockId)).Nodup
  uniqueBlock : (db.datablocks.map fun b => (b.blkStartOffset, b.fileId)).Nodup
  foreignKey : ∀ b ∈ db.datablocks, ∃ f ∈ db.files, f.fileId = b.fileId

/-- The file has a row. -/
def HasFile (db : Db) (filename : FileName) : Prop :=
  ∃ f ∈ db.files, f.relativePath = filename

instance (db : Db) (filename : FileName) : Decidable (db.HasFile filename) :=
  inferInstanceAs (Decidable (∃ f ∈ db.files, f.relativePath = filename))

/-- The block at `blkOffset` of the file has a row. -/
def Recorded (db : Db) (filename : FileName) (blkOffset : Nat) : Prop :=
  ∃ f ∈ db.files, f.relativePath = filename ∧
    ∃ b ∈ db.datablocks, b.fileId = f.fileId ∧ b.blkStartOffset = blkOffset

theorem Recorded.hasFile {db : Db} {filename : FileName} {blkOffset : Nat}
    (h : db.Recorded filename blkOffset) : db.HasFile filename := by
  obtain ⟨f, hf, hp, -⟩ := h
  exact ⟨f, hf, hp⟩

theorem wf_empty : WF {} := by
  constructor <;> simp

variable {db : Db}

/-- A file has at most one row. -/
theorem WF.eq_of_path (h : db.WF) {f g : FileRow} (hf : f ∈ db.files) (hg : g ∈ db.files)
    (hp : f.relativePath = g.relativePath) : f = g :=
  List.inj_on_of_nodup_map h.uniquePath hf hg hp

theorem WF.eq_of_fileId (h : db.WF) {f g : FileRow} (hf : f ∈ db.files) (hg : g ∈ db.files)
    (hi : f.fileId = g.fileId) : f = g :=
  List.inj_on_of_nodup_map h.uniqueFileId hf hg hi

theorem WF.find?_eq (h : db.WF) {f : FileRow} (hf : f ∈ db.files) :
    db.files.find? (·.relativePath = f.relativePath) = some f := by
  obtain ⟨g, hg⟩ : ∃ g, db.files.find? (·.relativePath = f.relativePath) = some g :=
    Option.isSome_iff_exists.mp (List.find?_isSome.mpr ⟨f, hf, by simp⟩)
  have hp : g.relativePath = f.relativePath := by simpa using List.find?_some hg
  rw [hg, h.eq_of_path (List.mem_of_find?_eq_some hg) hf hp]

theorem WF.fileId?_eq (h : db.WF) {f : FileRow} (hf : f ∈ db.files) :
    db.fileId? f.relativePath = some f.fileId := by
  rw [fileId?, h.find?_eq hf, Option.map_some]

theorem WF.localSize?_eq (h : db.WF) {f : FileRow} (hf : f ∈ db.files) :
    db.localSize? f.relativePath = some f.localSize := by
  rw [localSize?, h.find?_eq hf, Option.map_some]

theorem find?_eq_none_iff {filename : FileName} :
    db.files.find? (·.relativePath = filename) = none ↔ ¬ db.HasFile filename := by
  simp [HasFile]

theorem fileId?_eq_none_iff {filename : FileName} :
    db.fileId? filename = none ↔ ¬ db.HasFile filename := by
  rw [fileId?, Option.map_eq_none_iff, find?_eq_none_iff]

theorem fileId?_eq_some {filename : FileName} {id : Nat} (h : db.fileId? filename = some id) :
    ∃ f ∈ db.files, f.relativePath = filename ∧ f.fileId = id := by
  obtain ⟨f, hf, rfl⟩ := Option.map_eq_some_iff.mp h
  exact ⟨f, List.mem_of_find?_eq_some hf, by simpa using List.find?_some hf, rfl⟩

/-- A block that is found is recorded. -/
theorem recorded_of_selectBlockId {blkOffset : Nat} {filename : FileName}
    (h : db.selectBlockId blkOffset filename = true) : db.Recorded filename blkOffset := by
  unfold selectBlockId at h
  split at h
  · exact absurd h (by simp)
  · next id hid =>
      obtain ⟨f, hf, hp, rfl⟩ := fileId?_eq_some hid
      obtain ⟨b, hb, hbo⟩ := List.any_eq_true.mp h
      obtain ⟨ho, hi⟩ := of_decide_eq_true hbo
      exact ⟨f, hf, hp, b, hb, hi, ho⟩

/-- The sub-select and the join agree: the lookup answers whether the block is
    recorded. -/
theorem WF.selectBlockId_iff (h : db.WF) {blkOffset : Nat} {filename : FileName} :
    db.selectBlockId blkOffset filename = true ↔ db.Recorded filename blkOffset := by
  refine ⟨recorded_of_selectBlockId, ?_⟩
  rintro ⟨f, hf, rfl, b, hb, hi, ho⟩
  unfold selectBlockId
  rw [h.fileId?_eq hf]
  exact List.any_eq_true.mpr ⟨b, hb, by simp [hi, ho]⟩

-- ============================================================================
-- INSERT INTO Files
-- ============================================================================

/-- The row `insertFile` adds. -/
def newFile (db : Db) (filename : FileName) (remoteSize : Nat) : FileRow :=
  { fileId := freshId (db.files.map (·.fileId)), relativePath := filename, remoteSize }

theorem insertFile_eq_none_iff {filename : FileName} {remoteSize : Nat} :
    db.insertFile filename remoteSize = none ↔ db.HasFile filename := by
  simp [insertFile, HasFile]

theorem insertFile_eq_some {filename : FileName} {remoteSize : Nat} {db' : Db}
    (h : db.insertFile filename remoteSize = some db') :
    ¬ db.HasFile filename ∧
      db' = { db with files := db.files ++ [db.newFile filename remoteSize] } := by
  refine ⟨fun hf => ?_, ?_⟩
  · rw [insertFile_eq_none_iff.mpr hf] at h
    exact nomatch h
  · unfold insertFile at h
    split at h
    · exact nomatch h
    · exact (Option.some.inj h).symm

section InsertFile

variable {filename : FileName} {remoteSize : Nat} {db' : Db}

theorem WF.insertFile (h : db.WF) (hi : db.insertFile filename remoteSize = some db') :
    db'.WF := by
  obtain ⟨hnew, rfl⟩ := insertFile_eq_some hi
  refine ⟨?_, ?_, h.uniqueBlockId, h.uniqueBlock, ?_⟩
  · simp only [List.map_append, List.map_cons, List.map_nil]
    refine h.uniquePath.append (List.nodup_singleton _) ?_
    simp only [List.disjoint_singleton, List.mem_map, newFile]
    rintro ⟨f, hf, hp⟩
    exact hnew ⟨f, hf, hp⟩
  · simp only [List.map_append, List.map_cons, List.map_nil]
    refine h.uniqueFileId.append (List.nodup_singleton _) ?_
    rw [List.disjoint_singleton]
    exact freshId_not_mem _
  · intro b hb
    obtain ⟨f, hf, hid⟩ := h.foreignKey b hb
    exact ⟨f, List.mem_append_left _ hf, hid⟩

theorem hasFile_insertFile (hi : db.insertFile filename remoteSize = some db') (n : FileName) :
    db'.HasFile n ↔ db.HasFile n ∨ n = filename := by
  obtain ⟨-, rfl⟩ := insertFile_eq_some hi
  simp [HasFile, newFile, or_and_right, exists_or, eq_comm]

/-- A new file starts without blocks: no row refers to its fresh id. -/
theorem WF.recorded_insertFile (h : db.WF) (hi : db.insertFile filename remoteSize = some db')
    (n : FileName) (o : Nat) : db'.Recorded n o ↔ db.Recorded n o := by
  obtain ⟨-, rfl⟩ := insertFile_eq_some hi
  constructor
  · rintro ⟨f, hf, hp, b, hb, hid, ho⟩
    rcases List.mem_append.mp hf with hf | hf
    · exact ⟨f, hf, hp, b, hb, hid, ho⟩
    · obtain ⟨g, hg, hgid⟩ := h.foreignKey b hb
      rw [List.mem_singleton.mp hf] at hid
      exact absurd (List.mem_map.mpr ⟨g, hg, hgid.trans hid⟩) (freshId_not_mem _)
  · rintro ⟨f, hf, hp, hb⟩
    exact ⟨f, List.mem_append_left _ hf, hp, hb⟩

end InsertFile

-- ============================================================================
-- INSERT INTO Datablocks
-- ============================================================================

section InsertDatablock

variable {filename : FileName} {blkOffset : Nat} {now : Int} {db' : Db}

/-- The insertion is refused exactly when the file has no row (`NOT NULL`) or
    the block has one (`UNIQUE`). -/
theorem WF.insertDatablock_eq_none_iff (h : db.WF) :
    db.insertDatablock blkOffset filename now = none ↔
      ¬ db.HasFile filename ∨ db.Recorded filename blkOffset := by
  have hsel : db.selectBlockId blkOffset filename = true ↔ db.Recorded filename blkOffset :=
    h.selectBlockId_iff
  unfold Db.insertDatablock
  unfold selectBlockId at hsel
  cases hid : db.fileId? filename with
  | none => simp [fileId?_eq_none_iff.mp hid]
  | some id =>
      have hfile : db.HasFile filename := by
        by_contra hn
        rw [fileId?_eq_none_iff.mpr hn] at hid
        exact nomatch hid
      simp only [hid] at hsel
      simp only [← hsel, hfile, not_true_eq_false, false_or]
      split <;> simp_all

/-- Whether the insertion is refused does not depend on the time. -/
theorem insertDatablock_none_at (h : db.insertDatablock blkOffset filename now = none)
    (now' : Int) : db.insertDatablock blkOffset filename now' = none := by
  unfold insertDatablock at h ⊢
  split at h
  · rfl
  · split at h
    · next hany => rw [if_pos hany]
    · exact nomatch h

theorem insertDatablock_eq_some (h : db.insertDatablock blkOffset filename now = some db') :
    ∃ f ∈ db.files, f.relativePath = filename ∧
      (∀ b ∈ db.datablocks, ¬(b.blkStartOffset = blkOffset ∧ b.fileId = f.fileId)) ∧
      db' = { db with datablocks := db.datablocks ++
        [⟨freshId (db.datablocks.map (·.blockId)), blkOffset, now, f.fileId⟩] } := by
  unfold insertDatablock at h
  split at h
  · exact nomatch h
  · next id hid =>
      obtain ⟨f, hf, hp, rfl⟩ := fileId?_eq_some hid
      split at h
      · exact nomatch h
      · next hany =>
          refine ⟨f, hf, hp, fun b hb hbo => hany ?_, (Option.some.inj h).symm⟩
          exact List.any_eq_true.mpr ⟨b, hb, decide_eq_true hbo⟩

theorem WF.insertDatablock (h : db.WF)
    (hi : db.insertDatablock blkOffset filename now = some db') : db'.WF := by
  obtain ⟨f, hf, hp, hnew, rfl⟩ := insertDatablock_eq_some hi
  refine ⟨h.uniquePath, h.uniqueFileId, ?_, ?_, ?_⟩
  · simp only [List.map_append, List.map_cons, List.map_nil]
    refine h.uniqueBlockId.append (List.nodup_singleton _) ?_
    rw [List.disjoint_singleton]
    exact freshId_not_mem _
  · simp only [List.map_append, List.map_cons, List.map_nil]
    refine h.uniqueBlock.append (List.nodup_singleton _) ?_
    simp only [List.disjoint_singleton, List.mem_map, Prod.mk.injEq]
    rintro ⟨b, hb, hbo⟩
    exact hnew b hb hbo
  · intro b hb
    rcases List.mem_append.mp hb with hb | hb
    · exact h.foreignKey b hb
    · exact ⟨f, hf, by rw [List.mem_singleton.mp hb]⟩

theorem hasFile_insertDatablock (hi : db.insertDatablock blkOffset filename now = some db')
    (n : FileName) : db'.HasFile n ↔ db.HasFile n := by
  obtain ⟨f, hf, hp, hnew, rfl⟩ := insertDatablock_eq_some hi
  exact Iff.rfl

theorem WF.recorded_insertDatablock (h : db.WF)
    (hi : db.insertDatablock blkOffset filename now = some db') (n : FileName) (o : Nat) :
    db'.Recorded n o ↔ db.Recorded n o ∨ (n = filename ∧ o = blkOffset) := by
  obtain ⟨f, hf, rfl, hnew, rfl⟩ := insertDatablock_eq_some hi
  constructor
  · rintro ⟨g, hg, hp, b, hb, hid, ho⟩
    rcases List.mem_append.mp hb with hb | hb
    · exact Or.inl ⟨g, hg, hp, b, hb, hid, ho⟩
    · rw [List.mem_singleton.mp hb] at hid ho
      have hgf : f = g := h.eq_of_fileId hf hg hid
      exact Or.inr ⟨by rw [← hp, hgf], ho.symm⟩
  · rintro (⟨g, hg, hp, b, hb, hid, ho⟩ | ⟨rfl, rfl⟩)
    · exact ⟨g, hg, hp, b, List.mem_append_left _ hb, hid, ho⟩
    · exact ⟨f, hf, rfl, _, List.mem_append_right _ (List.mem_singleton_self _), rfl, rfl⟩

end InsertDatablock

-- ============================================================================
-- UPDATE Files
-- ============================================================================

section AddLocalSize

variable {filename : FileName} {amount : Int}

theorem map_addLocalSize {α : Type} (g : FileRow → α)
    (hg : ∀ f s, g { f with localSize := s } = g f) :
    (db.addLocalSize amount filename).files.map g = db.files.map g := by
  simp only [addLocalSize, List.map_map]
  refine List.map_congr_left fun f _ => ?_
  simp only [Function.comp_apply]
  split
  · exact hg f _
  · rfl

/-- A row after the update comes from a row that differs in `local_size` only. -/
theorem mem_addLocalSize {f : FileRow} :
    f ∈ (db.addLocalSize amount filename).files ↔
      ∃ g ∈ db.files, f = { g with
        localSize := if g.relativePath = filename then g.localSize + amount else g.localSize } := by
  simp only [addLocalSize, List.mem_map]
  refine exists_congr fun g => and_congr_right fun _ => ?_
  split <;> exact eq_comm

theorem WF.addLocalSize (h : db.WF) : (db.addLocalSize amount filename).WF := by
  refine ⟨?_, ?_, h.uniqueBlockId, h.uniqueBlock, ?_⟩
  · rw [map_addLocalSize _ fun _ _ => rfl]
    exact h.uniquePath
  · rw [map_addLocalSize _ fun _ _ => rfl]
    exact h.uniqueFileId
  · intro b hb
    obtain ⟨f, hf, hid⟩ := h.foreignKey b hb
    exact ⟨_, mem_addLocalSize.mpr ⟨f, hf, rfl⟩, hid⟩

@[simp] theorem hasFile_addLocalSize (n : FileName) :
    (db.addLocalSize amount filename).HasFile n ↔ db.HasFile n := by
  constructor
  · rintro ⟨f, hf, hp⟩
    obtain ⟨g, hg, rfl⟩ := mem_addLocalSize.mp hf
    exact ⟨g, hg, hp⟩
  · rintro ⟨f, hf, hp⟩
    exact ⟨_, mem_addLocalSize.mpr ⟨f, hf, rfl⟩, hp⟩

@[simp] theorem recorded_addLocalSize (n : FileName) (o : Nat) :
    (db.addLocalSize amount filename).Recorded n o ↔ db.Recorded n o := by
  constructor
  · rintro ⟨f, hf, hp, hb⟩
    obtain ⟨g, hg, rfl⟩ := mem_addLocalSize.mp hf
    exact ⟨g, hg, hp, hb⟩
  · rintro ⟨f, hf, hp, hb⟩
    exact ⟨_, mem_addLocalSize.mpr ⟨f, hf, rfl⟩, hp, hb⟩

end AddLocalSize

-- ============================================================================
-- DELETE FROM Files
-- ============================================================================

section DeleteFile

variable {filename : FileName}

theorem mem_files_deleteFile {f : FileRow} :
    f ∈ (db.deleteFile filename).files ↔ f ∈ db.files ∧ f.relativePath ≠ filename := by
  simp [deleteFile]

/-- The cascade removes the rows of the deleted file. -/
theorem mem_datablocks_deleteFile {b : BlockRow} :
    b ∈ (db.deleteFile filename).datablocks ↔
      b ∈ db.datablocks ∧ ∀ f ∈ db.files, f.relativePath = filename → f.fileId ≠ b.fileId := by
  simp [deleteFile]

theorem WF.deleteFile (h : db.WF) : (db.deleteFile filename).WF := by
  refine ⟨h.uniquePath.sublist (List.filter_sublist.map _),
    h.uniqueFileId.sublist (List.filter_sublist.map _),
    h.uniqueBlockId.sublist (List.filter_sublist.map _),
    h.uniqueBlock.sublist (List.filter_sublist.map _), ?_⟩
  intro b hb
  obtain ⟨hb, hkeep⟩ := mem_datablocks_deleteFile.mp hb
  obtain ⟨f, hf, hid⟩ := h.foreignKey b hb
  exact ⟨f, mem_files_deleteFile.mpr ⟨hf, fun hp => hkeep f hf hp hid⟩, hid⟩

@[simp] theorem hasFile_deleteFile (n : FileName) :
    (db.deleteFile filename).HasFile n ↔ db.HasFile n ∧ n ≠ filename := by
  simp only [HasFile, mem_files_deleteFile]
  constructor
  · rintro ⟨f, ⟨hf, hne⟩, rfl⟩
    exact ⟨⟨f, hf, rfl⟩, hne⟩
  · rintro ⟨⟨f, hf, rfl⟩, hne⟩
    exact ⟨f, ⟨hf, hne⟩, rfl⟩

theorem WF.recorded_deleteFile (h : db.WF) (n : FileName) (o : Nat) :
    (db.deleteFile filename).Recorded n o ↔ db.Recorded n o ∧ n ≠ filename := by
  constructor
  · rintro ⟨f, hf, rfl, b, hb, hbo⟩
    obtain ⟨hf, hne⟩ := mem_files_deleteFile.mp hf
    exact ⟨⟨f, hf, rfl, b, (mem_datablocks_deleteFile.mp hb).1, hbo⟩, hne⟩
  · rintro ⟨⟨f, hf, rfl, b, hb, hid, ho⟩, hne⟩
    refine ⟨f, mem_files_deleteFile.mpr ⟨hf, hne⟩, rfl, b,
      mem_datablocks_deleteFile.mpr ⟨hb, ?_⟩, hid, ho⟩
    rintro g hg hp hgid
    exact hne (by rw [← hp, h.eq_of_fileId hg hf (hgid.trans hid)])

end DeleteFile

-- ============================================================================
-- DELETE FROM Datablocks
-- ============================================================================

section DeleteDatablock

variable {filename : FileName} {blkOffset : Nat}

@[simp] theorem files_deleteDatablock :
    (db.deleteDatablock blkOffset filename).files = db.files := by
  unfold Db.deleteDatablock
  split <;> rfl

theorem mem_of_mem_deleteDatablock {b : BlockRow}
    (h : b ∈ (db.deleteDatablock blkOffset filename).datablocks) : b ∈ db.datablocks := by
  unfold Db.deleteDatablock at h
  split at h
  · exact h
  · exact List.mem_of_mem_filter h

theorem WF.deleteDatablock (h : db.WF) : (db.deleteDatablock blkOffset filename).WF := by
  refine ⟨?_, ?_, ?_, ?_, fun b hb => ?_⟩
  · rw [files_deleteDatablock]
    exact h.uniquePath
  · rw [files_deleteDatablock]
    exact h.uniqueFileId
  · unfold Db.deleteDatablock
    split
    · exact h.uniqueBlockId
    · exact h.uniqueBlockId.sublist (List.filter_sublist.map _)
  · unfold Db.deleteDatablock
    split
    · exact h.uniqueBlock
    · exact h.uniqueBlock.sublist (List.filter_sublist.map _)
  · rw [files_deleteDatablock]
    exact h.foreignKey b (mem_of_mem_deleteDatablock hb)

theorem recorded_of_deleteDatablock {n : FileName} {o : Nat}
    (h : (db.deleteDatablock blkOffset filename).Recorded n o) : db.Recorded n o := by
  obtain ⟨f, hf, hp, b, hb, hid, ho⟩ := h
  rw [files_deleteDatablock] at hf
  exact ⟨f, hf, hp, b, mem_of_mem_deleteDatablock hb, hid, ho⟩

end DeleteDatablock

-- ============================================================================
-- UPDATE Datablocks
-- ============================================================================

section TouchDatablock

variable {filename : FileName} {blkOffset : Nat} {now : Int}

theorem map_touchDatablock {α : Type} (g : BlockRow → α)
    (hg : ∀ b t, g { b with timestamp := t } = g b) :
    (db.touchDatablock blkOffset filename now).datablocks.map g = db.datablocks.map g := by
  unfold touchDatablock
  split
  · rfl
  · simp only [List.map_map]
    refine List.map_congr_left fun b _ => ?_
    simp only [Function.comp_apply]
    split
    · exact hg b _
    · rfl

@[simp] theorem length_touchDatablock :
    (db.touchDatablock blkOffset filename now).datablocks.length = db.datablocks.length := by
  unfold touchDatablock
  split <;> simp

@[simp] theorem files_touchDatablock :
    (db.touchDatablock blkOffset filename now).files = db.files := by
  unfold touchDatablock
  split <;> rfl

theorem WF.touchDatablock (h : db.WF) : (db.touchDatablock blkOffset filename now).WF := by
  refine ⟨by rw [files_touchDatablock]; exact h.uniquePath,
    by rw [files_touchDatablock]; exact h.uniqueFileId, ?_, ?_, ?_⟩
  · rw [map_touchDatablock _ fun _ _ => rfl]
    exact h.uniqueBlockId
  · rw [map_touchDatablock _ fun _ _ => rfl]
    exact h.uniqueBlock
  · intro b hb
    have hmem := List.mem_map_of_mem (f := fun b : BlockRow => b.fileId) hb
    rw [map_touchDatablock _ fun _ _ => rfl] at hmem
    obtain ⟨b', hb', hid⟩ := List.mem_map.mp hmem
    obtain ⟨f, hf, hfid⟩ := h.foreignKey b' hb'
    exact ⟨f, by rwa [files_touchDatablock], hfid.trans hid⟩

@[simp] theorem hasFile_touchDatablock (n : FileName) :
    (db.touchDatablock blkOffset filename now).HasFile n ↔ db.HasFile n := by
  rw [HasFile, files_touchDatablock, HasFile]

/-- The rows matter to `Recorded` through their keys only. -/
theorem recorded_congr {db₁ db₂ : Db} (hf : db₁.files = db₂.files)
    (hb : db₁.datablocks.map (fun b => (b.blkStartOffset, b.fileId)) =
      db₂.datablocks.map fun b => (b.blkStartOffset, b.fileId)) (n : FileName) (o : Nat) :
    db₁.Recorded n o ↔ db₂.Recorded n o := by
  have key : ∀ db : Db, db.Recorded n o ↔ ∃ f ∈ db.files, f.relativePath = n ∧
      (o, f.fileId) ∈ db.datablocks.map fun b => (b.blkStartOffset, b.fileId) := by
    intro db
    simp [Recorded, and_comm]
  rw [key, key, hf, hb]

@[simp] theorem recorded_touchDatablock (n : FileName) (o : Nat) :
    (db.touchDatablock blkOffset filename now).Recorded n o ↔ db.Recorded n o :=
  recorded_congr files_touchDatablock (map_touchDatablock _ fun _ _ => rfl) n o

end TouchDatablock

end Db

end CacheFs
