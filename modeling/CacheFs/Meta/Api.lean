/-
  CacheFs.Meta.Api

  The functions of `meta.c` as they call SQLite: each prepares a statement, binds its
  parameters, steps it and finalizes it, and returns without finalizing it when a step does
  not end as it should.

  The calls are those of `CacheFs.Sql.Connection` and the accesses to the two counters.  The
  functions of `CacheFs.Meta.Ops` make one call for each statement; `CacheFs.Meta.Refine` shows
  that they do the same.
-/

import CacheFs.Sql.Connection
import CacheFs.Meta.Statements
import CacheFs.Meta.Cold

namespace CacheFs

open CacheFs.Sql
open CacheFs.Effect (Prog Env)

-- ============================================================================
-- Calls
-- ============================================================================

inductive ApiCall where
  -- SQLite
  | prepare (text : List (Stmt MetaCol))
  | bind (stmt : Option Nat) (i : Nat) (v : Value)
  | step (stmt : Option Nat)
  | columnInt (stmt : Option Nat) (i : Nat)
  | finalize (stmt : Option Nat)
  /-- One statement of `sqlite3_exec`. -/
  | exec (stmt : Stmt MetaCol)
  -- the counters of `meta.c`
  | addCacheUsedSize (amount : Int)
  | setCacheUsedSize (size : Nat)
  | getMetaBlockSize
  | setMetaBlockSize (size : Nat)

/-- The type of the reply to a call. -/
@[reducible] def ApiCall.Reply : ApiCall → Type
  | .prepare _ => Option Nat × List (Stmt MetaCol)
  | .step _ => Outcome
  | .columnInt _ _ => Int
  | .finalize _ => Bool
  | .exec _ => Option (List (List Value))
  | .getMetaBlockSize => Nat
  | .bind _ _ _ | .addCacheUsedSize _ | .setCacheUsedSize _ | .setMetaBlockSize _ => Unit

/-- The connection and the counters. -/
structure ApiState where
  conn : Connection MetaCol
  cacheUsedSize : Nat := 0
  metaBlockSize : Nat := 0

namespace ApiState

def withConn (s : ApiState) (conn : Connection MetaCol) : ApiState := { s with conn }

variable {s : ApiState} {conn conn' : Connection MetaCol}

@[simp] theorem conn_withConn : (s.withConn conn).conn = conn := rfl

@[simp] theorem cacheUsedSize_withConn : (s.withConn conn).cacheUsedSize = s.cacheUsedSize := rfl

@[simp] theorem metaBlockSize_withConn : (s.withConn conn).metaBlockSize = s.metaBlockSize := rfl

@[simp] theorem withConn_withConn : (s.withConn conn).withConn conn' = s.withConn conn' := rfl

@[simp] theorem withConn_conn : s.withConn s.conn = s := rfl

end ApiState

/-- The answer to a call, and the state after it. -/
def apiHandle (o : Outside) : (op : ApiCall) → ApiState → op.Reply × ApiState
  | .prepare text, s => ((s.conn.prepare o text).1, s.withConn (s.conn.prepare o text).2)
  | .bind stmt i v, s => ((), s.withConn (s.conn.bind stmt i v))
  | .step stmt, s =>
      ((s.conn.step metaSchema o stmt).1, s.withConn (s.conn.step metaSchema o stmt).2)
  | .columnInt stmt i, s => (s.conn.columnInt stmt i, s)
  | .finalize stmt, s => ((s.conn.finalize stmt).1, s.withConn (s.conn.finalize stmt).2)
  | .exec stmt, s =>
      ((s.conn.exec metaSchema o stmt).1, s.withConn (s.conn.exec metaSchema o stmt).2)
  | .addCacheUsedSize amount, s =>
      ((), { s with cacheUsedSize := wrap64 (s.cacheUsedSize + amount) })
  | .setCacheUsedSize size, s => ((), { s with cacheUsedSize := size })
  | .getMetaBlockSize, s => (s.metaBlockSize, s)
  | .setMetaBlockSize size, s => ((), { s with metaBlockSize := size })

abbrev ApiM := Prog ApiCall ApiCall.Reply

/-- The environment; `strict` says that a call fails for the database only. -/
def apiEnv (strict : Prop) : Env ApiCall ApiCall.Reply ApiState Outside where
  handle := apiHandle
  allow o _ _ := strict → o.fails = false

namespace Api

def call (op : ApiCall) : ApiM op.Reply := .call op .ret

/-- The parameter `sqlite3_bind_int64` makes of a `size_t`. -/
def int64 (x : Nat) : Value := .int ((x : Int).bmod (2 ^ 64))

theorem int64_of_lt {x : Nat} (h : x < 2 ^ 63) : int64 x = .int x := by
  have hmod : (x : Int).bmod (2 ^ 64) = x := by
    rw [Int.bmod_def]
    omega
  rw [int64, hmod]

-- ============================================================================
-- Functions
-- ============================================================================

/-- Prepare and bind. -/
def prepared (text : List (Stmt MetaCol)) (params : List (Nat × Value)) :
    ApiM (Option Nat × List (Stmt MetaCol)) := do
  let stmt ← call (.prepare text)
  params.foldlM (fun _ e => call (.bind stmt.1 e.1 e.2)) ()
  pure stmt

/-- The block the functions repeat for a statement that returns no rows: prepare, bind, step,
    finalize. -/
def runStatement (text : List (Stmt MetaCol)) (params : List (Nat × Value)) : ApiM Int := do
  let stmt ← prepared text params
  let ret ← call (.step stmt.1)
  if ret ≠ .done then pure (-1)
  else
    let ok ← call (.finalize stmt.1)
    if !ok then pure (-1) else pure 0

/-- `create_file`, which binds a third parameter to a statement of two. -/
def createFile (filename : FileName) (remoteSize : Nat) : ApiM Int :=
  runStatement [MetaSql.insertFile] [(1, .text filename), (2, int64 remoteSize), (3, int64 0)]

def insertBlock (filename : FileName) (blkOffset : Nat) : ApiM Int := do
  let ret ← runStatement [MetaSql.insertDatablock] [(1, int64 blkOffset), (2, .text filename)]
  if ret ≠ 0 then pure (-1)
  else
    let size ← call .getMetaBlockSize
    let ret ← runStatement [MetaSql.addLocalSize] [(1, int64 size), (2, .text filename)]
    if ret ≠ 0 then pure (-1)
    else
      let size ← call .getMetaBlockSize
      let _ ← call (.addCacheUsedSize size)
      pure 0

def insertBlocks (filename : FileName) (blkArr : List Nat) : ApiM Int := do
  blkArr.foldlM (fun _ blkOffset => do
    let _ ← insertBlock filename blkOffset
    pure ()) ()
  pure 0

/-- `delete_file`: the text has two statements, and the second is what `prepare` leaves of it. -/
def deleteFile (filename : FileName) : ApiM Int := do
  let stmt ← prepared [MetaSql.selectLocalSize, MetaSql.deleteFile] [(1, .text filename)]
  let _ ← call (.step stmt.1)
  let size ← call (.columnInt stmt.1 0)
  let _ ← call (.addCacheUsedSize (-size))
  let ret ← call (.step stmt.1)
  if ret ≠ .done then pure (-1)
  else
    let ok ← call (.finalize stmt.1)
    if !ok then pure (-1)
    else runStatement stmt.2 [(1, .text filename)]

def deleteBlock (filename : FileName) (blkOffset : Nat) : ApiM Int := do
  let ret ← runStatement [MetaSql.deleteDatablock] [(1, int64 blkOffset), (2, .text filename)]
  if ret ≠ 0 then pure (-1)
  else
    let size ← call .getMetaBlockSize
    let ret ← runStatement [MetaSql.subLocalSize] [(1, int64 size), (2, .text filename)]
    if ret ≠ 0 then pure (-1)
    else
      let size ← call .getMetaBlockSize
      let _ ← call (.addCacheUsedSize (-size))
      pure 0

def deleteBlocks (filename : FileName) (blkArr : List Nat) : ApiM Int := do
  blkArr.foldlM (fun _ blkOffset => do
    let _ ← deleteBlock filename blkOffset
    pure ()) ()
  pure 0

/-- The lookup shared by `is_file_in_cache` and `is_blk_in_cache`: without a row it returns
    and keeps the statement. -/
def lookupRow (text : List (Stmt MetaCol)) (params : List (Nat × Value)) : ApiM Int := do
  let stmt ← prepared text params
  let ret ← call (.step stmt.1)
  if ret ≠ .row then
    if ret = .done then pure 0 else pure (-1)
  else
    let ret ← call (.step stmt.1)
    if ret ≠ .done then pure (-1)
    else
      let ok ← call (.finalize stmt.1)
      if !ok then pure (-1) else pure 1

def isFileInCache (filename : FileName) : ApiM Int :=
  lookupRow [MetaSql.selectFileId] [(1, .text filename)]

def isBlkInCache (filename : FileName) (blkOffset : Nat) : ApiM Int :=
  lookupRow [MetaSql.selectBlockId] [(1, int64 blkOffset), (2, .text filename)]

/-- Returns the total and `bool_arr`. -/
def areBlocksInCache (filename : FileName) (blkArr : List Nat) : ApiM (Int × List Int) :=
  blkArr.foldlM (fun acc blkOffset => do
    let hit ← isBlkInCache filename blkOffset
    pure (if hit = 0 then 0 else acc.1, acc.2 ++ [hit])) (1, [])

def updateBlkTime (filename : FileName) (blkOffset : Nat) : ApiM Int :=
  runStatement [MetaSql.touchDatablock] [(1, int64 blkOffset), (2, .text filename)]

def writeBlks (filename : FileName) (blkArr : List Nat) : ApiM Int := do
  let found ← areBlocksInCache filename blkArr
  (blkArr.zip found.2).foldlM (fun _ e => do
    let _ ← if e.2 ≠ 0 then updateBlkTime filename e.1 else insertBlock filename e.1
    pure ()) ()
  pure 0

-- ============================================================================
-- Start
-- ============================================================================

/-- `sqlite3_exec`: the statements of a text until one fails; the rows go to the callback. -/
def exec (text : List (Stmt MetaCol)) (callback : List Value → ApiM (Option Unit)) :
    ApiM (Option Bool) :=
  match text with
  | [] => pure (some true)
  | stmt :: rest => do
    let rows ← call (.exec stmt)
    match rows with
    | none => pure (some false)
    | some rows => do
      let ended ← rows.foldlM (fun alive row =>
        if alive.isSome then callback row else pure none) (some ())
      if ended.isSome then exec rest callback else pure none

/-- The text SQLite passes to the callback for a column; `none` for NULL. -/
def columnText : Value → Option (List Char)
  | .null => none
  | .int n => some (intText n)
  | .text s => some s

/-- `callback` for `SUM(local_size)`; `none` where `str_to_num` ends the process. -/
def sumCallback (row : List Value) : ApiM (Option Unit) :=
  match row with
  | [v] =>
    match columnText v with
    | none => pure (some ())
    | some text =>
      match strToNum text with
      | none => pure none
      | some size => do
        let _ ← call (.setCacheUsedSize size)
        pure (some ())
  | _ => pure (some ())

def createTables : ApiM Int := do
  let ok ← exec [.createTable .files, .createTable .datablocks] fun _ => pure (some ())
  if ok = some true then pure 0 else pure (-1)

/-- `init_cache_used_size`; `none` where the process ends. -/
def initCacheUsedSize : ApiM (Option Unit) := do
  let ok ← exec [MetaSql.sumLocalSize] sumCallback
  pure (ok.map fun _ => ())

/-- What `main` does with the metadata at each start: the result of `create_tables` is
    looked at for a message only. -/
def mount (blkSize : Nat) : ApiM (Option Unit) := do
  let _ ← createTables
  let _ ← call (.setMetaBlockSize blkSize)
  initCacheUsedSize

end Api

end CacheFs
