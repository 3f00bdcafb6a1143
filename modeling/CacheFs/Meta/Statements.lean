/-
  CacheFs.Meta.Statements

  The SQL of `meta.c`: the tables `create_tables` creates and the texts of the
  statements, in the language of `CacheFs.Sql.Relation`.

  `encode` are the tables a `Db` stands for.  The constraints of the schema hold of them exactly
  when the `Db` is well-formed (`legal_encode`), and each statement does to them what the
  operation of `CacheFs.Meta.Schema` does to the `Db`.  `Files` is created before `Datablocks`,
  so that there can be a database with the first table only.
-/

import CacheFs.Sql.Relation
import CacheFs.Meta.Schema

namespace CacheFs

open CacheFs.Sql

-- ============================================================================
-- The tables
-- ============================================================================

inductive MetaTable where
  | files
  | datablocks
deriving DecidableEq

instance : Fintype MetaTable := ⟨{.files, .datablocks}, fun t => by cases t <;> simp⟩

inductive FilesCol where
  | fileId
  | relativePath
  | remoteSize
  | localSize
deriving DecidableEq

inductive DatablocksCol where
  | blockId
  | blkStartOffset
  | valid
  | timestamp
  | fileId
deriving DecidableEq

@[reducible] def MetaCol : MetaTable → Type
  | .files => FilesCol
  | .datablocks => DatablocksCol

instance : ∀ t, DecidableEq (MetaCol t)
  | .files => inferInstanceAs (DecidableEq FilesCol)
  | .datablocks => inferInstanceAs (DecidableEq DatablocksCol)

/-- `CREATE TABLE Files` of `create_tables`. -/
def filesDef : TableDef MetaCol .files where
  rowid := FilesCol.fileId
  notNull := [FilesCol.relativePath, FilesCol.remoteSize, FilesCol.localSize]
  default
    | FilesCol.localSize => .value (.int 0)
    | _ => .value .null
  unique := [[FilesCol.relativePath]]
  references := []

/-- `CREATE TABLE Datablocks` of `create_tables`. -/
def datablocksDef : TableDef MetaCol .datablocks where
  rowid := DatablocksCol.blockId
  notNull := [DatablocksCol.blkStartOffset, DatablocksCol.valid, DatablocksCol.timestamp,
    DatablocksCol.fileId]
  default
    | DatablocksCol.valid => .value (.int 1)
    | DatablocksCol.timestamp => .now
    | _ => .value .null
  unique := [[DatablocksCol.blkStartOffset, DatablocksCol.fileId]]
  references := [{ col := DatablocksCol.fileId, target := .files, key := FilesCol.fileId }]

def metaSchema : Schema MetaCol where
  table
    | .files => filesDef
    | .datablocks => datablocksDef
  flat t ref href := by
    cases t with
    | files => exact absurd href List.not_mem_nil
    | datablocks =>
        rw [List.mem_singleton.mp href]
        rfl

-- ============================================================================
-- The statements
-- ============================================================================

/-- `(SELECT file_id FROM Files WHERE relative_path=?i)`. -/
def fileIdOf {t : MetaTable} (i : Nat) : Term MetaCol t :=
  .lookup .files FilesCol.fileId FilesCol.relativePath i

namespace MetaSql

/-- `WHERE relative_path=?i`. -/
def named (i : Nat) : Cond MetaCol .files := [(FilesCol.relativePath, .param i)]

/-- `WHERE blk_start_offset=?1 AND file_id=(SELECT ... relative_path=?2)`. -/
def block : Cond MetaCol .datablocks :=
  [(DatablocksCol.blkStartOffset, .param 1), (DatablocksCol.fileId, fileIdOf 2)]

def insertFile : Stmt MetaCol :=
  .insert .files [(FilesCol.relativePath, .param 1), (FilesCol.remoteSize, .param 2)]

def insertDatablock : Stmt MetaCol :=
  .insert .datablocks [(DatablocksCol.blkStartOffset, .param 1), (DatablocksCol.fileId, fileIdOf 2)]

def addLocalSize : Stmt MetaCol :=
  .update .files [(FilesCol.localSize, .add (.col FilesCol.localSize) (.param 1))] (named 2)

def subLocalSize : Stmt MetaCol :=
  .update .files [(FilesCol.localSize, .sub (.col FilesCol.localSize) (.param 1))] (named 2)

def selectLocalSize : Stmt MetaCol := .select .files [FilesCol.localSize] (named 1)

def deleteFile : Stmt MetaCol := .delete .files (named 1)

def deleteDatablock : Stmt MetaCol := .delete .datablocks block

def selectFileId : Stmt MetaCol := .select .files [FilesCol.fileId] (named 1)

def selectBlockId : Stmt MetaCol := .select .datablocks [DatablocksCol.blockId] block

def touchDatablock : Stmt MetaCol := .update .datablocks [(DatablocksCol.timestamp, .now)] block

def sumLocalSize : Stmt MetaCol := .selectSum .files FilesCol.localSize

end MetaSql

-- ============================================================================
-- What the tables stand for
-- ============================================================================

def FileRow.row (f : FileRow) : Row MetaCol .files
  | .fileId => .int f.fileId
  | .relativePath => .text f.relativePath
  | .remoteSize => .int f.remoteSize
  | .localSize => .int f.localSize

/-- `valid` keeps its default, nothing reads it. -/
def BlockRow.row (b : BlockRow) : Row MetaCol .datablocks
  | .blockId => .int b.blockId
  | .blkStartOffset => .int b.blkStartOffset
  | .valid => .int 1
  | .timestamp => .int b.timestamp
  | .fileId => .int b.fileId

/-- The tables of a database; `created` says whether `Datablocks` is there. -/
def Db.encode (db : Db) (created : Bool) : Tables MetaCol
  | .files => some (db.files.map FileRow.row)
  | .datablocks => if created then some (db.datablocks.map BlockRow.row) else none

/-- There are no blocks without the table. -/
def Db.Fits (db : Db) (created : Bool) : Prop := created = false → db.datablocks = []

namespace Db

variable {db db' : Db} {created : Bool} {filename : FileName} {blkOffset : Nat} {now : Int}

theorem fits_true (db : Db) : db.Fits true := fun h => absurd h (by simp)

@[simp] theorem rows_encode_files :
    (db.encode created).rows .files = db.files.map FileRow.row := rfl

@[simp] theorem rows_encode_datablocks :
    (db.encode true).rows .datablocks = db.datablocks.map BlockRow.row := rfl

theorem set_encode_files (files : List FileRow) :
    (db.encode created).set .files (files.map FileRow.row) =
      Db.encode { db with files } created := by
  funext t
  cases t <;> rfl

theorem set_encode_datablocks (datablocks : List BlockRow) :
    (db.encode true).set .datablocks (datablocks.map BlockRow.row) =
      Db.encode { db with datablocks } true := by
  funext t
  cases t <;> rfl

/-- Two maps that tell the same elements apart. -/
theorem nodup_map_iff_of_eq {α β γ : Type} {f : α → β} {g : α → γ}
    (h : ∀ x y, f x = f y ↔ g x = g y) (l : List α) : (l.map f).Nodup ↔ (l.map g).Nodup := by
  simp only [List.Nodup, List.pairwise_map, ne_eq, h]

theorem files_hold_iff {tables : Tables MetaCol} :
    filesDef.Holds tables (db.files.map FileRow.row) ↔
      (db.files.map (·.relativePath)).Nodup ∧ (db.files.map (·.fileId)).Nodup := by
  have hrowid : ((db.files.map FileRow.row).map (· filesDef.rowid)).Nodup ↔
      (db.files.map (·.fileId)).Nodup := by
    rw [List.map_map]
    exact nodup_map_iff_of_eq (fun f g => by simp [FileRow.row, filesDef]) _
  have hpath : (((db.files.map FileRow.row).map fun r => [FilesCol.relativePath].map r).filter
      fun vs => .null ∉ vs).Nodup ↔ (db.files.map (·.relativePath)).Nodup := by
    rw [List.filter_eq_self.mpr, List.map_map]
    · exact nodup_map_iff_of_eq (fun f g => by simp [FileRow.row]) _
    · intro vs hvs
      obtain ⟨r, hr, rfl⟩ := List.mem_map.mp hvs
      obtain ⟨f, -, rfl⟩ := List.mem_map.mp hr
      rfl
  rw [← hpath, ← hrowid]
  constructor
  · exact fun h => ⟨h.unique _ List.mem_cons_self, h.rowid⟩
  · rintro ⟨hunique, hid⟩
    refine ⟨fun r hr c hc => ?_, hid, fun u hu => ?_, fun r _ ref href => ?_⟩
    · obtain ⟨f, -, rfl⟩ := List.mem_map.mp hr
      revert c
      simp [filesDef, FileRow.row]
    · rwa [List.mem_singleton.mp hu]
    · exact absurd href List.not_mem_nil

theorem datablocks_hold_iff :
    datablocksDef.Holds (db.encode true) (db.datablocks.map BlockRow.row) ↔
      (db.datablocks.map (·.blockId)).Nodup ∧
        (db.datablocks.map fun b => (b.blkStartOffset, b.fileId)).Nodup ∧
        ∀ b ∈ db.datablocks, ∃ f ∈ db.files, f.fileId = b.fileId := by
  have hrowid : ((db.datablocks.map BlockRow.row).map (· datablocksDef.rowid)).Nodup ↔
      (db.datablocks.map (·.blockId)).Nodup := by
    rw [List.map_map]
    exact nodup_map_iff_of_eq (fun b c => by simp [BlockRow.row, datablocksDef]) _
  have hblock : (((db.datablocks.map BlockRow.row).map fun r =>
      [DatablocksCol.blkStartOffset, DatablocksCol.fileId].map r).filter
      fun vs => .null ∉ vs).Nodup ↔
        (db.datablocks.map fun b => (b.blkStartOffset, b.fileId)).Nodup := by
    rw [List.filter_eq_self.mpr, List.map_map]
    · exact nodup_map_iff_of_eq (fun b c => by simp [BlockRow.row]) _
    · intro vs hvs
      obtain ⟨r, hr, rfl⟩ := List.mem_map.mp hvs
      obtain ⟨b, -, rfl⟩ := List.mem_map.mp hr
      rfl
  have hkey : (∀ r ∈ db.datablocks.map BlockRow.row, ∀ ref ∈ datablocksDef.references,
      r ref.col = .null ∨ ∃ r' ∈ (db.encode true).rows ref.target, r' ref.key = r ref.col) ↔
        ∀ b ∈ db.datablocks, ∃ f ∈ db.files, f.fileId = b.fileId := by
    simp [datablocksDef, BlockRow.row, FileRow.row]
  rw [← hblock, ← hrowid, ← hkey]
  constructor
  · exact fun h => ⟨h.rowid, h.unique _ List.mem_cons_self, h.references⟩
  · rintro ⟨hid, hunique, href⟩
    refine ⟨fun r hr c hc => ?_, hid, fun u hu => ?_, href⟩
    · obtain ⟨b, -, rfl⟩ := List.mem_map.mp hr
      revert c
      simp [datablocksDef, BlockRow.row]
    · rwa [List.mem_singleton.mp hu]

/-- The constraints hold of the tables exactly when the database is well-formed. -/
theorem legal_encode (hc : db.Fits created) : (db.encode created).Legal metaSchema ↔ db.WF := by
  have hfiles : (db.encode created).Legal metaSchema → filesDef.Holds (db.encode created)
      (db.files.map FileRow.row) := fun h => h .files _ rfl
  cases created with
  | false =>
      have hnone := hc rfl
      constructor
      · intro h
        obtain ⟨hpath, hid⟩ := files_hold_iff.mp (hfiles h)
        refine ⟨hpath, hid, ?_, ?_, ?_⟩ <;> simp [hnone]
      · intro h t rows hrows
        cases t with
        | files =>
            obtain rfl := Option.some.inj hrows
            exact files_hold_iff.mpr ⟨h.uniquePath, h.uniqueFileId⟩
        | datablocks => cases hrows
  | true =>
      constructor
      · intro h
        obtain ⟨hpath, hid⟩ := files_hold_iff.mp (hfiles h)
        obtain ⟨hblockId, hblock, hkey⟩ := datablocks_hold_iff.mp (h .datablocks _ rfl)
        exact ⟨hpath, hid, hblockId, hblock, hkey⟩
      · intro h t rows hrows
        cases t <;> obtain rfl := Option.some.inj hrows
        · exact files_hold_iff.mpr ⟨h.uniquePath, h.uniqueFileId⟩
        · exact datablocks_hold_iff.mpr ⟨h.uniqueBlockId, h.uniqueBlock, h.foreignKey⟩

-- ============================================================================
-- The statements do what the operations of `Db` do
-- ============================================================================

section Exec

variable {remoteSize : Nat} {amount : Int} {a : Args}

/-- The id SQLite gives a new row. -/
theorem freshRowid_map (ids : List Nat) :
    freshRowid (ids.map fun i : Nat => .int i) = .int (freshId ids) := by
  have hmax : ∀ is : List Nat, ((is.map fun i : Nat => (i : Int)).max?.getD 0) =
      (is.foldr max 0 : Nat) := by
    intro is
    induction is with
    | nil => rfl
    | cons i is ih =>
        rw [List.map_cons, List.max?_cons, List.foldr_cons]
        cases hm : (is.map fun i : Nat => (i : Int)).max? with
        | none =>
            rw [hm] at ih
            simp only [Option.elim, Option.getD_none, Option.getD_some] at ih ⊢
            omega
        | some m =>
            rw [hm] at ih
            simp only [Option.elim, Option.getD_some] at ih ⊢
            omega
  have hints : (ids.map fun i : Nat => Value.int i).filterMap Value.int? =
      ids.map fun i : Nat => (i : Int) := by
    rw [List.filterMap_map]
    exact congrFun List.filterMap_eq_map ids
  rw [freshRowid, hints, hmax, freshId]
  rfl

/-- The sub-select: NULL for a file without a row. -/
theorem fileIdOf_eval (created : Bool) {t : MetaTable} {row : Row MetaCol t} {i : Nat}
    (hi : a.params i = .text filename) : (fileIdOf i).eval (db.encode created) a row =
      ((db.fileId? filename).map fun id : Nat => Value.int id).getD .null := by
  have hfind : (db.files.map FileRow.row).find? (fun r => (r .relativePath).same (.text filename)) =
      (db.files.find? (·.relativePath = filename)).map FileRow.row := by
    rw [List.find?_map]
    congr 2
    funext f
    simp [FileRow.row]
  rw [fileIdOf, Term.eval, hi, rows_encode_files, hfind, fileId?]
  cases db.files.find? (·.relativePath = filename) <;> rfl

/-- `WHERE relative_path=?i` holds of the row of the file. -/
theorem named_holds (created : Bool) {i : Nat} (hi : a.params i = .text filename) (f : FileRow) :
    (MetaSql.named i).holds (db.encode created) a f.row = decide (f.relativePath = filename) := by
  simp [MetaSql.named, Cond.holds, Term.eval, hi, FileRow.row]

/-- `WHERE blk_start_offset=?1 AND file_id=(SELECT ...)` holds of the row of the block. -/
theorem block_holds (created : Bool) (h₁ : a.params 1 = .int blkOffset)
    (h₂ : a.params 2 = .text filename) (b : BlockRow) :
    MetaSql.block.holds (db.encode created) a b.row =
      decide (b.blkStartOffset = blkOffset ∧ some b.fileId = db.fileId? filename) := by
  simp only [MetaSql.block, Cond.holds, List.all_cons, List.all_nil, Bool.and_true,
    fileIdOf_eval created h₂, Term.eval, h₁, BlockRow.row, Value.same_int]
  cases db.fileId? filename with
  | none => simp
  | some id => simp

theorem exec_insertFile (h : db.WF) (hc : db.Fits created) (h₁ : a.params 1 = .text filename)
    (h₂ : a.params 2 = .int remoteSize) :
    MetaSql.insertFile.exec metaSchema (db.encode created) a =
      (db.insertFile filename remoteSize).map fun db' => (db'.encode created, []) := by
  have hfresh : freshRowid (((db.encode created).rows .files).map (· FilesCol.fileId)) =
      .int (freshId (db.files.map (·.fileId))) := by
    rw [← freshRowid_map, rows_encode_files, List.map_map, List.map_map]
    rfl
  have hnew : newRow metaSchema (db.encode created) a
      [(FilesCol.relativePath, .param 1), (FilesCol.remoteSize, .param 2)] =
        (db.newFile filename remoteSize).row := by
    funext c
    cases c
    · exact hfresh
    · exact h₁
    · exact h₂
    · rfl
  have hset : (db.encode created).set .files
      ((db.encode created).rows .files ++ [(db.newFile filename remoteSize).row]) =
        Db.encode { db with files := db.files ++ [db.newFile filename remoteSize] } created :=
    (congrArg ((db.encode created).set .files) (by simp)).trans (set_encode_files _)
  have hlegal : (Db.encode { db with files := db.files ++ [db.newFile filename remoteSize] }
      created).Legal metaSchema ↔
        WF { db with files := db.files ++ [db.newFile filename remoteSize] } := legal_encode hc
  refine (exec_insert hnew hset).trans ?_
  cases hins : db.insertFile filename remoteSize with
  | none =>
      obtain ⟨f, hf, hp⟩ := insertFile_eq_none_iff.mp hins
      refine if_neg fun h' => ?_
      have hdup := (hlegal.mp h').uniquePath
      rw [List.map_append, List.nodup_append] at hdup
      exact hdup.2.2 _ (List.mem_map_of_mem hf) _ (List.mem_singleton_self _) hp
  | some db' =>
      obtain ⟨-, rfl⟩ := insertFile_eq_some hins
      exact if_pos (hlegal.mpr (h.insertFile hins))

/-- A file without a row has no id: `file_id` would be NULL. -/
theorem exec_insertDatablock_null (hid : db.fileId? filename = none)
    (h₂ : a.params 2 = .text filename) :
    MetaSql.insertDatablock.exec metaSchema (db.encode true) a = none := by
  refine (exec_insert rfl rfl).trans (if_neg fun hlegal => ?_)
  refine (hlegal .datablocks _ rfl).notNull _ (List.mem_append_right _ (List.mem_singleton_self _))
    DatablocksCol.fileId (by simp [metaSchema, datablocksDef]) ?_
  have hnull : (fileIdOf 2).eval (db.encode true) a
      (fun _ => .null : Row MetaCol .datablocks) = _ := fileIdOf_eval true h₂
  rw [hid] at hnull
  exact hnull

theorem exec_insertDatablock (h : db.WF) (h₁ : a.params 1 = .int blkOffset)
    (h₂ : a.params 2 = .text filename) (hnow : a.now = .int now) :
    MetaSql.insertDatablock.exec metaSchema (db.encode true) a =
      (db.insertDatablock blkOffset filename now).map fun db' => (db'.encode true, []) := by
  cases hid : db.fileId? filename with
  | none =>
      rw [exec_insertDatablock_null hid h₂, insertDatablock, hid]
      rfl
  | some id =>
      have hfresh : freshRowid (((db.encode true).rows .datablocks).map (· DatablocksCol.blockId)) =
          .int (freshId (db.datablocks.map (·.blockId))) := by
        rw [← freshRowid_map, rows_encode_datablocks, List.map_map, List.map_map]
        rfl
      have hlookup : (fileIdOf 2).eval (db.encode true) a
          (fun _ => .null : Row MetaCol .datablocks) = _ := fileIdOf_eval true h₂
      rw [hid] at hlookup
      set b : BlockRow := ⟨freshId (db.datablocks.map (·.blockId)), blkOffset, now, id⟩ with hb
      have hnew : newRow metaSchema (db.encode true) a
          [(DatablocksCol.blkStartOffset, .param 1), (DatablocksCol.fileId, fileIdOf 2)] =
            b.row := by
        funext c
        cases c
        · exact hfresh
        · exact h₁
        · rfl
        · exact hnow
        · exact hlookup
      have hset : (db.encode true).set .datablocks ((db.encode true).rows .datablocks ++ [b.row]) =
          Db.encode { db with datablocks := db.datablocks ++ [b] } true :=
        (congrArg ((db.encode true).set .datablocks) (by simp)).trans (set_encode_datablocks _)
      refine (exec_insert hnew hset).trans ?_
      obtain ⟨f, hf, hp, rfl⟩ := fileId?_eq_some hid
      cases hins : db.insertDatablock blkOffset filename now with
      | none =>
          rcases h.insertDatablock_eq_none_iff.mp hins with hno | ⟨g, hg, hgp, c, hc, hcid, ho⟩
          · exact absurd ⟨f, hf, hp⟩ hno
          · refine if_neg fun hlegal => ?_
            have hdup := ((legal_encode (fits_true _)).mp hlegal).uniqueBlock
            rw [List.map_append, List.nodup_append] at hdup
            have hgf : g = f := h.eq_of_path hg hf (hgp.trans hp.symm)
            exact hdup.2.2 _ (List.mem_map_of_mem hc) _ (List.mem_singleton_self _)
              (by simp [hb, ho, hcid, hgf])
      | some db' =>
          have hwf := h.insertDatablock hins
          obtain ⟨g, hg, hgp, -, rfl⟩ := insertDatablock_eq_some hins
          rw [h.eq_of_path hg hf (hgp.trans hp.symm)] at hwf ⊢
          exact if_pos ((legal_encode (fits_true _)).mpr hwf)

/-- The two updates of `local_size`. -/
theorem exec_update_localSize (h : db.WF) (hc : db.Fits created) {e : Term MetaCol .files}
    (h₂ : a.params 2 = .text filename)
    (he : ∀ f : FileRow, e.eval (db.encode created) a f.row = .int (f.localSize + amount)) :
    (Stmt.update .files [(FilesCol.localSize, e)] (MetaSql.named 2)).exec metaSchema
        (db.encode created) a =
      some ((db.addLocalSize amount filename).encode created, []) := by
  have hcond : ∀ f : FileRow, (MetaSql.named 2).holds (db.encode created) a f.row =
      decide (f.relativePath = filename) := named_holds created h₂
  have hrow : ∀ f : FileRow, setRow (db.encode created) a [(FilesCol.localSize, e)] f.row =
      FileRow.row { f with localSize := f.localSize + amount } := by
    intro f
    funext c
    cases c
    · rfl
    · rfl
    · rfl
    · exact he f
  have hfits : (db.addLocalSize amount filename).Fits created := hc
  have hlegal := (legal_encode hfits).mpr h.addLocalSize
  refine (exec_update ?_ (set_encode_files (db.addLocalSize amount filename).files)).trans
    (if_pos hlegal)
  rw [rows_encode_files, addLocalSize, List.map_map, List.map_map]
  refine List.map_congr_left fun f _ => ?_
  simp only [Function.comp_apply, hrow, hcond, decide_eq_true_eq]
  split <;> rfl

theorem exec_addLocalSize (h : db.WF) (hc : db.Fits created) (h₁ : a.params 1 = .int amount)
    (h₂ : a.params 2 = .text filename) :
    MetaSql.addLocalSize.exec metaSchema (db.encode created) a =
      some ((db.addLocalSize amount filename).encode created, []) :=
  exec_update_localSize h hc h₂ fun f => by simp [Term.eval, h₁, FileRow.row]

theorem exec_subLocalSize (h : db.WF) (hc : db.Fits created) (h₁ : a.params 1 = .int amount)
    (h₂ : a.params 2 = .text filename) :
    MetaSql.subLocalSize.exec metaSchema (db.encode created) a =
      some ((db.addLocalSize (-amount) filename).encode created, []) :=
  exec_update_localSize h hc h₂ fun f => by simp [Term.eval, h₁, FileRow.row, Int.sub_eq_add_neg]

/-- The cascade leaves the blocks of the other files. -/
theorem exec_deleteFile (h : db.WF) (h₁ : a.params 1 = .text filename) :
    MetaSql.deleteFile.exec metaSchema (db.encode created) a =
      some ((db.deleteFile filename).encode created, []) := by
  have hcond : ∀ f : FileRow, (MetaSql.named 1).holds (db.encode created) a f.row =
      decide (f.relativePath = filename) := named_holds created h₁
  have hfiles : (((db.encode created).rows .files).filter fun r =>
      !(MetaSql.named 1).holds (db.encode created) a r) =
        (db.deleteFile filename).files.map FileRow.row := by
    rw [rows_encode_files, List.filter_map, deleteFile]
    refine congrArg _ (List.filter_congr fun f _ => ?_)
    simp [hcond]
  have hkept : ∀ b ∈ db.datablocks, (∃ g ∈ (db.deleteFile filename).files, g.fileId = b.fileId) ↔
      ¬ ∃ g ∈ db.files, g.relativePath = filename ∧ g.fileId = b.fileId := by
    intro b hb
    obtain ⟨f, hf, hid⟩ := h.foreignKey b hb
    constructor
    · rintro ⟨g, hg, hgid⟩ ⟨g', hg', hp, hgid'⟩
      obtain ⟨hg, hne⟩ := mem_files_deleteFile.mp hg
      exact hne (by rw [h.eq_of_fileId hg hg' (hgid.trans hgid'.symm), hp])
    · exact fun hno => ⟨f, mem_files_deleteFile.mpr ⟨hf, fun hp => hno ⟨f, hf, hp, hid⟩⟩, hid⟩
  refine (exec_delete hfiles).trans (congrArg (fun t => some (t, [])) ?_)
  rw [set_encode_files]
  funext t
  cases t with
  | files =>
      refine congrArg some (List.filter_eq_self.mpr fun r _ => ?_)
      exact decide_eq_true fun ref href => absurd href List.not_mem_nil
  | datablocks =>
      cases created with
      | false => rfl
      | true =>
          refine congrArg some ?_
          simp only [List.filter_map]
          refine congrArg _ (List.filter_congr fun b hb => ?_)
          have hkept := hkept b hb
          rw [Bool.eq_iff_iff]
          simpa [metaSchema, datablocksDef, BlockRow.row, FileRow.row, Tables.rows, encode]
            using hkept

theorem exec_deleteDatablock (h : db.WF) (h₁ : a.params 1 = .int blkOffset)
    (h₂ : a.params 2 = .text filename) :
    MetaSql.deleteDatablock.exec metaSchema (db.encode true) a =
      some ((db.deleteDatablock blkOffset filename).encode true, []) := by
  have hcond : ∀ b : BlockRow, MetaSql.block.holds (db.encode true) a b.row =
        decide (b.blkStartOffset = blkOffset ∧ some b.fileId = db.fileId? filename) :=
    block_holds true h₁ h₂
  have hrows : (((db.encode true).rows .datablocks).filter fun r =>
      !MetaSql.block.holds (db.encode true) a r) =
        (db.deleteDatablock blkOffset filename).datablocks.map BlockRow.row := by
    rw [rows_encode_datablocks, List.filter_map, deleteDatablock]
    cases hid : db.fileId? filename with
    | none =>
        refine congrArg _ (List.filter_eq_self.mpr fun b _ => ?_)
        simp [hcond, hid]
    | some id =>
        refine congrArg _ (List.filter_congr fun b _ => ?_)
        simp [hcond, hid]
  have hset : Db.encode
      { db with datablocks := (db.deleteDatablock blkOffset filename).datablocks } true =
        (db.deleteDatablock blkOffset filename).encode true := by
    rw [deleteDatablock]
    split <;> rfl
  refine (exec_delete hrows).trans (congrArg (fun t => some (t, [])) ?_)
  rw [set_encode_datablocks, hset, ((legal_encode (fits_true _)).mpr h.deleteDatablock).cascade]

theorem exec_touchDatablock (h : db.WF) (h₁ : a.params 1 = .int blkOffset)
    (h₂ : a.params 2 = .text filename) (hnow : a.now = .int now) :
    MetaSql.touchDatablock.exec metaSchema (db.encode true) a =
      some ((db.touchDatablock blkOffset filename now).encode true, []) := by
  have hset : Db.encode
      { db with datablocks := (db.touchDatablock blkOffset filename now).datablocks } true =
        (db.touchDatablock blkOffset filename now).encode true := by
    rw [touchDatablock]
    split <;> rfl
  have hcond : ∀ b : BlockRow, MetaSql.block.holds (db.encode true) a b.row =
        decide (b.blkStartOffset = blkOffset ∧ some b.fileId = db.fileId? filename) :=
    block_holds true h₁ h₂
  have hrow : ∀ b : BlockRow, setRow (db.encode true) a
      [(DatablocksCol.timestamp, .now)] b.row = BlockRow.row { b with timestamp := now } := by
    intro b
    funext c
    cases c
    · rfl
    · rfl
    · rfl
    · exact hnow
    · rfl
  refine (exec_update ?_ ((set_encode_datablocks _).trans hset)).trans
    (if_pos ((legal_encode (fits_true _)).mpr h.touchDatablock))
  rw [rows_encode_datablocks, touchDatablock, List.map_map]
  cases hid : db.fileId? filename with
  | none =>
      refine List.map_congr_left fun b _ => ?_
      simp [hcond, hid]
  | some id =>
      rw [List.map_map]
      refine List.map_congr_left fun b _ => ?_
      simp only [Function.comp_apply, hrow, hcond, hid, decide_eq_true_eq, Option.some.injEq]
      split <;> rfl

/-- At most one row has a given value of a key. -/
theorem filter_eq_toList_find? {α β : Type} [DecidableEq β] {f : α → β} {l : List α}
    (h : (l.map f).Nodup) (v : β) :
    l.filter (fun x => f x = v) = (l.find? fun x => f x = v).toList := by
  induction l with
  | nil => rfl
  | cons x l ih =>
      rw [List.map_cons, List.nodup_cons] at h
      by_cases hx : f x = v
      · rw [List.filter_cons_of_pos (by simpa using hx), List.find?_cons_of_pos (by simpa using hx),
          List.filter_eq_nil_iff.mpr]
        · rfl
        · intro y hy hyv
          exact h.1 (by rw [hx, ← of_decide_eq_true hyv]; exact List.mem_map_of_mem hy)
      · rw [List.filter_cons_of_neg (by simpa using hx), List.find?_cons_of_neg (by simpa using hx),
          ih h.2]

/-- A SELECT on the row of a file. -/
theorem exec_select_named (h : db.WF) (h₁ : a.params 1 = .text filename) (c : FilesCol) :
    (Stmt.select .files [c] (MetaSql.named 1)).exec metaSchema (db.encode created) a =
      some (db.encode created, (db.files.find? (·.relativePath = filename)).toList.map
        fun f => [f.row c]) := by
  have hcond : ∀ f : FileRow, (MetaSql.named 1).holds (db.encode created) a f.row =
      decide (f.relativePath = filename) := named_holds created h₁
  refine congrArg (fun rows => some (db.encode created, rows)) ?_
  rw [rows_encode_files, List.filter_map, List.map_map, ← filter_eq_toList_find? h.uniquePath]
  refine congrArg _ (List.filter_congr fun f _ => ?_)
  exact hcond f

theorem exec_selectLocalSize (h : db.WF) (h₁ : a.params 1 = .text filename) :
    MetaSql.selectLocalSize.exec metaSchema (db.encode created) a =
      some (db.encode created, (db.localSize? filename).toList.map fun s => [.int s]) := by
  refine (exec_select_named h h₁ FilesCol.localSize).trans ?_
  rw [localSize?]
  cases db.files.find? (·.relativePath = filename) <;> rfl

theorem exec_selectFileId (h : db.WF) (h₁ : a.params 1 = .text filename) :
    MetaSql.selectFileId.exec metaSchema (db.encode created) a =
      some (db.encode created, (db.fileId? filename).toList.map fun id : Nat => [.int id]) := by
  refine (exec_select_named h h₁ FilesCol.fileId).trans ?_
  rw [fileId?]
  cases db.files.find? (·.relativePath = filename) <;> rfl

/-- The block of a file: one row when it is recorded, none otherwise. -/
theorem exec_selectBlockId (h : db.WF) (h₁ : a.params 1 = .int blkOffset)
    (h₂ : a.params 2 = .text filename) :
    ∃ rows, MetaSql.selectBlockId.exec metaSchema (db.encode true) a = some (db.encode true, rows) ∧
      rows.length = (db.selectBlockId blkOffset filename).toNat := by
  have hcond : ∀ b : BlockRow, MetaSql.block.holds (db.encode true) a b.row =
        decide (b.blkStartOffset = blkOffset ∧ some b.fileId = db.fileId? filename) :=
    block_holds true h₁ h₂
  refine ⟨_, rfl, ?_⟩
  have hlen : (((db.encode true).rows .datablocks).filter
      (MetaSql.block.holds (db.encode true) a)).length =
        (db.datablocks.filter fun b =>
          b.blkStartOffset = blkOffset ∧ some b.fileId = db.fileId? filename).length := by
    rw [rows_encode_datablocks, List.filter_map, List.length_map]
    exact congrArg List.length (List.filter_congr fun b _ => hcond b)
  rw [List.length_map]
  refine hlen.trans ?_
  unfold selectBlockId
  cases hid : db.fileId? filename with
  | none => simp
  | some id =>
      have hone := filter_eq_toList_find? h.uniqueBlock (blkOffset, id)
      simp only [Prod.mk.injEq] at hone
      simp only [Option.some.injEq, hone]
      cases hfind : db.datablocks.find? fun b => b.blkStartOffset = blkOffset ∧ b.fileId = id with
      | none =>
          have hany : (db.datablocks.any fun b => b.blkStartOffset = blkOffset ∧ b.fileId = id) =
              false := by simpa using List.find?_eq_none.mp hfind
          rw [hany]
          rfl
      | some b =>
          rw [List.any_eq_true.mpr ⟨b, List.mem_of_find?_eq_some hfind, List.find?_some hfind⟩]
          rfl

theorem exec_sumLocalSize (a : Args) :
    MetaSql.sumLocalSize.exec metaSchema (db.encode created) a =
      some (db.encode created, [[(db.sumLocalSize?.map Value.int).getD .null]]) := by
  have hints : (((db.encode created).rows .files).map (· FilesCol.localSize)).filterMap Value.int? =
      db.files.map (·.localSize) := by
    rw [rows_encode_files, List.map_map, List.filterMap_map]
    exact congrFun List.filterMap_eq_map db.files
  refine congrArg (fun v => some (db.encode created, [[v]])) ?_
  rw [hints, sumLocalSize?]
  cases db.files <;> rfl

end Exec

end Db

end CacheFs
