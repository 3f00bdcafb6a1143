/-
  CacheFs.Meta.Ops

  The functions of `meta.c`, as programs.

  Every function prepares a statement, steps it, finalizes it and returns 0, or
  prints a message and returns -1.  Preparing and binding have no effect of their
  own, and `sqlite3_finalize` reports the error of the last step, so a statement
  is one call followed by the tests on its result.  Arrays of offsets are lists.
-/

import CacheFs.World

namespace CacheFs

/-- `sqlite3_finalize` returns SQLITE_OK unless the last step failed. -/
def finalizeOk (last : Rc) : Bool := last != .error

def getCacheUsedSize : CfsM Nat := ask .getCacheUsedSize

def setBlockSize (blkSize : Nat) : CfsM Unit := ask (.setMetaBlockSize blkSize)

/-- `isspace` of the C locale. -/
def isSpace (c : Char) : Bool := c = ' ' ∨ 9 ≤ c.toNat ∧ c.toNat ≤ 13

/-- `str_to_num`; `none` where it ends the process. -/
def strToNum (str : List Char) : Option Nat :=
  if str.head? = some '-' then none
  else
    -- strtoul: blanks, a sign, then the digits
    let s := str.dropWhile isSpace
    let digits := (if s.head? = some '-' ∨ s.head? = some '+' then s.tail else s).takeWhile
      Char.isDigit
    let val := Nat.ofDigitChars 10 digits 0
    if digits = [] ∨ 2 ^ 64 ≤ val then none
    else some (if s.head? = some '-' then wrap64 (-val) else val)

/-- `init_cache_used_size` with its `callback`; `none` where the process ends. -/
def initCacheUsedSize : CfsM (Option Unit) := do
  let r ← ask .sumLocalSize
  if r.1 = .error then pure (some ())
  else
    match r.2 with
    | none => pure (some ())
    | some text =>
      match strToNum text with
      | none => pure none
      | some size => do
        let _ ← ask (.setCacheUsedSize size)
        pure (some ())

def createFile (filename : FileName) (remoteSize : Nat) : CfsM Int := do
  let ret ← ask (.insertFile filename remoteSize)
  if ret ≠ .done then pure (-1)
  else if !finalizeOk ret then pure (-1)
  else pure 0

def insertBlock (filename : FileName) (blkOffset : Nat) : CfsM Int := do
  let ret ← ask (.insertDatablock blkOffset filename)
  if ret ≠ .done then pure (-1)
  else if !finalizeOk ret then pure (-1)
  else
    let size ← ask .getMetaBlockSize
    let ret ← ask (.addLocalSize size filename)
    if ret ≠ .done then pure (-1)
    else if !finalizeOk ret then pure (-1)
    else
      let size ← ask .getMetaBlockSize
      let _ ← ask (.addCacheUsedSize size)
      pure 0

def insertBlocks (filename : FileName) (blkArr : List Nat) : CfsM Int := do
  blkArr.foldlM (fun _ blkOffset => do
    let _ ← insertBlock filename blkOffset
    pure ()) ()
  pure 0

def deleteFile (filename : FileName) : CfsM Int := do
  let first ← ask (.selectLocalSize filename)
  let _ ← ask (.addCacheUsedSize (-first.2))
  -- after a row the second step ends the SELECT, otherwise it runs it again
  let ret ← if first.1 = .row then ask .stepSelect
    else do
      let again ← ask (.selectLocalSize filename)
      pure again.1
  if ret ≠ .done then pure (-1)
  else if !finalizeOk ret then pure (-1)
  else
    let ret ← ask (.deleteFile filename)
    if ret ≠ .done then pure (-1)
    else if !finalizeOk ret then pure (-1)
    else pure 0

def deleteBlock (filename : FileName) (blkOffset : Nat) : CfsM Int := do
  let ret ← ask (.deleteDatablock blkOffset filename)
  if ret ≠ .done then pure (-1)
  else if !finalizeOk ret then pure (-1)
  else
    let size ← ask .getMetaBlockSize
    let ret ← ask (.subLocalSize size filename)
    if ret ≠ .done then pure (-1)
    else if !finalizeOk ret then pure (-1)
    else
      let size ← ask .getMetaBlockSize
      let _ ← ask (.addCacheUsedSize (-size))
      pure 0

def deleteBlocks (filename : FileName) (blkArr : List Nat) : CfsM Int := do
  blkArr.foldlM (fun _ blkOffset => do
    let _ ← deleteBlock filename blkOffset
    pure ()) ()
  pure 0

/-- The lookup shared by `is_file_in_cache` and `is_blk_in_cache`: 1 for a row, 0
    for none, -1 when SQLite reports an error. -/
def lookupRow (op : CfsM Rc) : CfsM Int := do
  let ret ← op
  if ret ≠ .row then
    if ret = .done then pure 0 else pure (-1)
  else
    let ret ← ask .stepSelect
    if ret ≠ .done then pure (-1)
    else if !finalizeOk ret then pure (-1)
    else pure 1

def isFileInCache (filename : FileName) : CfsM Int :=
  lookupRow (ask (.selectFileId filename))

def isBlkInCache (filename : FileName) (blkOffset : Nat) : CfsM Int :=
  lookupRow (ask (.selectBlockId blkOffset filename))

/-- Returns the total and `bool_arr`. -/
def areBlocksInCache (filename : FileName) (blkArr : List Nat) : CfsM (Int × List Int) :=
  blkArr.foldlM (fun acc blkOffset => do
    let hit ← isBlkInCache filename blkOffset
    pure (if hit = 0 then 0 else acc.1, acc.2 ++ [hit])) (1, [])

def updateBlkTime (filename : FileName) (blkOffset : Nat) : CfsM Int := do
  let ret ← ask (.touchDatablock blkOffset filename)
  if ret ≠ .done then pure (-1)
  else if !finalizeOk ret then pure (-1)
  else pure 0

def writeBlks (filename : FileName) (blkArr : List Nat) : CfsM Int := do
  let found ← areBlocksInCache filename blkArr
  (blkArr.zip found.2).foldlM (fun _ e => do
    let _ ← if e.2 ≠ 0 then updateBlkTime filename e.1 else insertBlock filename e.1
    pure ()) ()
  pure 0

/-- What `main` does with the metadata at each start; `none` where the process
    ends.  `create_tables` fails on a database that has its tables and its result
    is ignored. -/
def mount (blkSize : Nat) : CfsM (Option Unit) := do
  setBlockSize blkSize
  initCacheUsedSize

end CacheFs
