/-
  CacheFs.Callbacks

  The callbacks of `cachefs.c`, as programs.

  Each function issues its calls in the order of the source.  Messages to the log
  are left out.  Sizes and offsets are natural numbers: a request and its aligned
  buffer are in memory and the arrays of offsets on the stack, so the sums stay
  far below `2 ^ 64` and the `int` loop counters below `2 ^ 31`; the one
  subtraction that can wrap, in `cfs_write`, is modelled with `wrap64`.  Paths are
  shorter than PATH_MAX.
-/

import CacheFs.Meta.Ops

namespace CacheFs

open CacheFs.Posix

/-- The settings `main` takes from the command line. -/
structure Config where
  nasdir : Path
  cachedir : Path
  /-- Capacity in units of 1024 bytes. -/
  cacheSize : Nat
  blockSize : Nat

namespace Config

variable (cfg : Config)

def fullNasPath (path : Path) : Path := cfsFullNasPath cfg.nasdir path

/-- The path of the cache file of `path`: every callback computes it in two
    steps, `cfs_pathToFileName` and `cfs_fullCachePath`. -/
def fullCachePath (path : Path) : Path := cfsFullCachePath cfg.cachedir (cfsPathToFileName path)

/-- The number of bytes from which on the cache counts as full. -/
def capacity : Nat := cfg.cacheSize * 1024 % 2 ^ 64

def alignLowerOffset (offset : Nat) : Nat := offset - offset % cfg.blockSize

/-- `alignedSize` of `cfs_read` and `cfs_write`: the size in whole blocks. -/
def alignedSize (size : Nat) : Nat :=
  let whole := cfg.blockSize * (size / cfg.blockSize)
  if size % cfg.blockSize ≠ 0 then whole + cfg.blockSize else whole

/-- `offsetArray`: the offsets of `numberBlocks` blocks from `offset` on. -/
def offsetArray (offset numberBlocks : Nat) : List Nat :=
  (List.range numberBlocks).map fun i => offset + i * cfg.blockSize

end Config

variable (cfg : Config)

/-! ## Names -/

/-- What `cfs_mknod` and `cfs_mkCacheNod` do with the mode of a new node. -/
def mkNod (side : Side) (path : Path) (kind : Kind) (mode : Nat) : CfsM Int :=
  match kind with
  | .reg => do
    let r ← ask (.creat side path mode)
    match r with
    | .ok fd => do
      let r ← ask (.close fd)
      pure (logSyscall r)
    | .error e => pure (logSyscall (.error e))
  | _ => do
    let r ← ask (.mknod side path kind mode)
    pure (logSyscall r)

def cfsMknod (path : Path) (kind : Kind) (mode : Nat) : CfsM Int :=
  mkNod .nas (cfg.fullNasPath path) kind mode

def cfsMkCacheNod (cachePath : Path) (kind : Kind) (mode : Nat) : CfsM Int :=
  mkNod .cache cachePath kind mode

def cfsMkdir (path : Path) (mode : Nat) : CfsM Int := do
  let r ← ask (.mkdir .nas (cfg.fullNasPath path) mode)
  pure (logSyscall r)

def cfsUnlink (path : Path) : CfsM Int := do
  let _ ← deleteFile (cfsPathToFileName path)
  let _ ← ask (.unlink .cache (cfg.fullCachePath path))
  let r ← ask (.unlink .nas (cfg.fullNasPath path))
  pure (logSyscall r)

def cfsRmdir (path : Path) : CfsM Int := do
  let r ← ask (.rmdir .nas (cfg.fullNasPath path))
  pure (logSyscall r)

def cfsSymlink (path linkPath : Path) : CfsM Int := do
  let _ ← ask (.symlink .cache (cfg.fullCachePath path) (cfg.fullCachePath linkPath))
  let r ← ask (.symlink .nas path (cfg.fullNasPath linkPath))
  pure (logSyscall r)

def cfsRename (path newpath : Path) : CfsM Int := do
  let _ ← ask (.rename .cache (cfg.fullCachePath path) (cfg.fullCachePath newpath))
  let r ← ask (.rename .nas (cfg.fullNasPath path) (cfg.fullNasPath newpath))
  pure (logSyscall r)

def cfsLink (path newpath : Path) : CfsM Int := do
  let _ ← ask (.link .cache (cfg.fullCachePath path) (cfg.fullCachePath newpath))
  let r ← ask (.link .nas (cfg.fullNasPath path) (cfg.fullNasPath newpath))
  pure (logSyscall r)

/-! ## Sizes and times -/

def cfsTruncate (path : Path) (newsize : Nat) : CfsM Int := do
  let _ ← ask (.truncate .cache (cfg.fullCachePath path) newsize)
  let r ← ask (.truncate .nas (cfg.fullNasPath path) newsize)
  pure (logSyscall r)

def cfsFtruncate (fh offset : Nat) : CfsM Int := do
  let dualFH ← ask (.loadHandle fh)
  let _ ← ask (.ftruncate dualFH.cacheFH offset)
  let r ← ask (.ftruncate dualFH.nasFH offset)
  pure (logSyscall r)

def cfsUtime (path : Path) (modtime : Option Int) : CfsM Int := do
  let _ ← ask (.utime .cache (cfg.fullCachePath path) modtime)
  let r ← ask (.utime .nas (cfg.fullNasPath path) modtime)
  pure (logSyscall r)

/-! ## Permissions and synchronization -/

def cfsChmod (path : Path) (mode : Nat) : CfsM Int := do
  let r ← ask (.chmod .nas (cfg.fullNasPath path) mode)
  pure (logSyscall r)

def cfsChown (path : Path) (uid gid : Nat) : CfsM Int := do
  let r ← ask (.chown .nas (cfg.fullNasPath path) uid gid)
  pure (logSyscall r)

/-- The configuration has `fdatasync`. -/
def cfsFsync (datasync : Bool) (fh : Nat) : CfsM Int := do
  let dualFH ← ask (.loadHandle fh)
  if datasync then do
    let _ ← ask (.fsync dualFH.cacheFH true)
    let r ← ask (.fsync dualFH.nasFH true)
    pure (logSyscall r)
  else do
    let _ ← ask (.fsync dualFH.cacheFH false)
    let r ← ask (.fsync dualFH.nasFH false)
    pure (logSyscall r)

/-! ## Opening and closing -/

def cfsGetNASattr (path : Path) : CfsM Stat := do
  let r ← ask (.lstat .nas (cfg.fullNasPath path))
  pure r.2

def cfsGetCacheattr (path : Path) : CfsM Stat := do
  let r ← ask (.lstat .cache (cfg.fullCachePath path))
  pure r.2

/-- The flags of the NAS descriptor: write-only becomes read-write. -/
def nasFlags (flags : Nat) : Nat :=
  if flags &&& 3 = 1 then flags &&& 8589934588 ||| 2 else flags

/-- Forget the cached copy of `path`: its rows, then its cache file. -/
def dropCached (path : Path) : CfsM Unit := do
  let _ ← deleteFile (cfsPathToFileName path)
  let _ ← ask (.unlink .cache (cfg.fullCachePath path))
  pure ()

/-- Whether the copy may still be used; one that is behind the NAS is dropped. -/
def checkUpToDate (path : Path) (nasFileInfo : Stat) (presentInCache : Bool) : CfsM Bool :=
  if presentInCache then do
    let cacheFileInfo ← cfsGetCacheattr cfg path
    if cacheFileInfo.mtime < nasFileInfo.mtime then do
      dropCached cfg path
      pure false
    else pure true
  else pure false

/-- Without a cached copy, make a row and a node for one. -/
def ensureCached (path : Path) (nasFileInfo : Stat) (presentInCache : Bool) : CfsM Unit :=
  if presentInCache then pure ()
  else do
    let _ ← createFile (cfsPathToFileName path) nasFileInfo.size
    let _ ← cfsMkCacheNod (cfg.fullCachePath path) nasFileInfo.kind nasFileInfo.mode
    pure ()

/-- The last part of `cfs_open`: the cache file is opened and the handle made. -/
def openHandle (path : Path) (nasFileDescriptor : Int) : CfsM (Int × Option Nat) := do
  let r ← ask (.openFile .cache (cfg.fullCachePath path) O_RDWR)
  let cacheFileDescriptor := logSyscall r
  let retstat := if cacheFileDescriptor < 0 then cacheFileDescriptor else 0
  let dualFH ← ask (.mallocHandle ⟨nasFileDescriptor, cacheFileDescriptor⟩)
  pure (retstat, some dualFH)

/-- Returns the status and the new `fi->fh`, which an early return leaves unset. -/
def cfsOpen (path : Path) (flags : Nat) : CfsM (Int × Option Nat) := do
  let r ← ask (.openFile .nas (cfg.fullNasPath path) (nasFlags flags))
  let nasFileDescriptor := logSyscall r
  let present ← isFileInCache (cfsPathToFileName path)
  -- an int becomes a bool: the error code -1 counts as present
  let presentInCache := decide (present ≠ 0)
  if nasFileDescriptor < 0 then
    if presentInCache then do
      dropCached cfg path
      pure (nasFileDescriptor, none)
    else pure (nasFileDescriptor, none)
  else do
    let nasFileInfo ← cfsGetNASattr cfg path
    let presentInCache ← checkUpToDate cfg path nasFileInfo presentInCache
    ensureCached cfg path nasFileInfo presentInCache
    openHandle cfg path nasFileDescriptor

def cfsRelease (path : Path) (fh : Nat) : CfsM Int := do
  let dualFH ← ask (.loadHandle fh)
  let _ ← ask (.system ("fallocate -d ".toList ++ cfg.fullCachePath path))
  let _ ← ask (.close dualFH.cacheFH)
  let nasClose ← ask (.close dualFH.nasFH)
  let _ ← ask (.freeHandle fh)
  pure (logSyscall nasClose)

/-! ## Reading and writing -/

/-- The loop of `cfs_cacheWrite` that waits for room: its body makes none, the
    call of `evict_blocks` being commented out. -/
def evictionWait : Nat → CfsM Unit
  | 0 => .spin
  | fuel + 1 => do
    let used ← getCacheUsedSize
    if cfg.capacity ≤ used then evictionWait fuel else pure ()

/-- `buf` holds the `size` bytes that are written. -/
def cfsCacheWrite (fuel : Nat) (cacheFileName : FileName) (buf : List UInt8)
    (size offset fh : Nat) : CfsM Int := do
  let dualFH ← ask (.loadHandle fh)
  let numberBlocks := size / cfg.blockSize
  evictionWait cfg fuel
  let _ ← writeBlks cacheFileName (cfg.offsetArray offset numberBlocks)
  let r ← ask (.pwrite dualFH.cacheFH buf offset)
  pure (logSyscall r)

/-- The buffer after a read into it at `pos`. -/
def fillBuf (buf : List UInt8) (pos : Nat) : SysRet (List UInt8) → List UInt8
  | .ok bytes => overwrite buf pos bytes
  | .error _ => buf

/-- The status of a read, as an `int`. -/
def readRet (r : SysRet (List UInt8)) : SysRet Int := r.map fun bytes => wrap32 bytes.length

/-- One turn of the loop of `cfs_read`, for a block of the window: `acc` holds
    the status and the aligned buffer, `hit` the entry of `cacheBlockHitYN`. -/
def readBlock (fuel : Nat) (cacheFileName : FileName) (lowerOffset fh : Nat)
    (dualFH : DualFileHandle) (acc : Int × List UInt8) (blockIndex : Nat) (hit : Int) :
    CfsM (Int × List UInt8) := do
  let pos := blockIndex * cfg.blockSize
  if hit ≠ 0 then do
    let r ← ask (.pread dualFH.cacheFH cfg.blockSize (lowerOffset + pos))
    pure (wrap32 (acc.1 + rawRet (readRet r)), fillBuf acc.2 pos r)
  else do
    let r ← ask (.pread dualFH.nasFH cfg.blockSize (lowerOffset + pos))
    let cacheBuf := fillBuf acc.2 pos r
    let _ ← cfsCacheWrite cfg fuel cacheFileName ((cacheBuf.drop pos).take cfg.blockSize)
      cfg.blockSize (lowerOffset + pos) fh
    pure (wrap32 (acc.1 + rawRet (readRet r)), cacheBuf)

/-- `memcpy(buf, cacheBuf + pos, size)`: what lies past the end of the buffer is
    whatever the heap holds there. -/
def copyOut (cacheBuf : List UInt8) (pos size : Nat) : CfsM (List UInt8) :=
  let bytes := (cacheBuf.drop pos).take size
  if bytes.length < size then do
    let stray ← ask (.strayRead (size - bytes.length))
    pure (bytes ++ stray)
  else pure bytes

/-- The aligned buffer is filled with one read from the cache file when all blocks
    are recorded, otherwise block by block; `hits` is `cacheBlockHitYN`. -/
def readWindow (fuel : Nat) (cacheFileName : FileName) (lowerOffset alignedSize fh : Nat)
    (dualFH : DualFileHandle) (cacheBuf : List UInt8) (cacheDataHit : Bool) (hits : List Int) :
    CfsM (Int × List UInt8) :=
  if cacheDataHit then do
    let r ← ask (.pread dualFH.cacheFH alignedSize lowerOffset)
    pure (logSyscall (readRet r), fillBuf cacheBuf 0 r)
  else
    ((List.range (alignedSize / cfg.blockSize)).zip hits).foldlM
      (fun acc e => readBlock cfg fuel cacheFileName lowerOffset fh dualFH acc e.1 e.2)
      (0, cacheBuf)

/-- Returns the status and the bytes put into `buf`. -/
def cfsRead (fuel : Nat) (path : Path) (size offset fh : Nat) : CfsM (Int × List UInt8) := do
  let lowerOffset := cfg.alignLowerOffset offset
  let alignedSize := cfg.alignedSize size
  let numberBlocks := alignedSize / cfg.blockSize
  let cacheFileName := cfsPathToFileName path
  let dataCheck ← areBlocksInCache cacheFileName (cfg.offsetArray lowerOffset numberBlocks)
  let dualFH ← ask (.loadHandle fh)
  let cacheBuf ← ask (.malloc alignedSize)
  let acc ← readWindow cfg fuel cacheFileName lowerOffset alignedSize fh dualFH cacheBuf
    (decide (0 < dataCheck.1)) dataCheck.2
  let buf ← copyOut acc.2 (offset - lowerOffset) size
  pure (acc.1, buf)

/-- The number of bytes `cfs_write` reads back: the aligned size, or what the
    file has from `lowerOffset` on if that is less. -/
def nasReadSize (alignedSize lowerOffset stSize : Nat) : Nat :=
  if stSize < alignedSize + lowerOffset then wrap64 ((stSize : Int) - lowerOffset)
  else alignedSize

def cfsWrite (fuel : Nat) (path : Path) (buf : List UInt8) (offset fh : Nat) : CfsM Int := do
  let lowerOffset := cfg.alignLowerOffset offset
  let alignedSize := cfg.alignedSize buf.length
  let dualFH ← ask (.loadHandle fh)
  let retstat ← ask (.pwrite dualFH.nasFH buf offset)
  let nasAttr ← cfsGetNASattr cfg path
  let cacheBuf ← ask (.malloc alignedSize)
  let r ← ask (.pread dualFH.nasFH (nasReadSize alignedSize lowerOffset nasAttr.size) lowerOffset)
  let _ ← cfsCacheWrite cfg fuel (cfsPathToFileName path) (fillBuf cacheBuf 0 r) alignedSize
    lowerOffset fh
  pure (logSyscall retstat)

end CacheFs
