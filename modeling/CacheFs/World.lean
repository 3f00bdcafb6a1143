/-
  CacheFs.World

  What the code of `cachefs.c` and `meta.c` calls, and how the calls are
  answered.

  `World` is everything the daemon can reach: the NAS directory, the cache
  directory, its descriptors, the `dualFileHandle` records on its heap, and what
  `meta.c` keeps, the database and two counters.  `Call` lists the SQL
  statements, system calls, memory operations and accesses to those counters in
  the granularity in which the code makes them.  `handle` answers a call; what
  the environment is free to decide about it (an error, a short transfer, the
  time, the content of memory nobody has written) is in a `Choice`.

  The assumptions that are part of `handle`: the NAS directory and the cache
  directory are disjoint trees, and no link of one leads into the other; files of the
  cache directory belong to the daemon; FUSE passes `cfs_open` no flag that creates or
  truncates a file; `close` releases the descriptor whatever it reports; `fallocate -d`
  leaves the content of files unchanged, and a command line that is not read as
  `fallocate -d FILE` leaves both directories unchanged; a statement that SQLite reports
  as failed has changed nothing; the values of an integer column stay in 64 bits;
  `open_db`, whose result `main` does not look at, has switched the foreign keys on.
-/

import CacheFs.Effect.Wp
import CacheFs.Meta.Schema
import CacheFs.Posix.Shell

namespace CacheFs

open CacheFs.Posix
open CacheFs.Effect (Prog Env)

/-! ## State -/

inductive Side where
  | nas
  | cache
deriving DecidableEq

/-- What a descriptor refers to. -/
structure OpenFile where
  side : Side
  ino : Ino
  readable : Bool
  writable : Bool
  /-- Every write goes to the end of the file. -/
  append : Bool
deriving DecidableEq

/-- `struct dualFileHandle`. -/
structure DualFileHandle where
  nasFH : Int
  cacheFH : Int
deriving DecidableEq

/-- What `meta.c` keeps: the database and the two counters of the process. -/
structure MetaState where
  db : Db := {}
  cacheUsedSize : Nat := 0
  metaBlockSize : Nat := 0

structure World where
  nas : Fs
  cache : Fs
  fds : Int → Option OpenFile
  nextFd : Nat
  /-- The live `dualFileHandle` records, by address. -/
  handles : Nat → Option DualFileHandle
  nextHandle : Nat
  metadata : MetaState
  /-- The permission bits the daemon withholds from new files. -/
  umask : Nat := 0o022

namespace World

def fs (w : World) : Side → Fs
  | .nas => w.nas
  | .cache => w.cache

def db (w : World) : Db := w.metadata.db

def setFs (w : World) (side : Side) (fs : Fs) : World :=
  match side with
  | .nas => { w with nas := fs }
  | .cache => { w with cache := fs }

/-- The world of a daemon that has not opened anything yet, with an empty
    database. -/
def init (nas cache : Fs) : World :=
  { nas, cache, fds := fun _ => none, nextFd := 3, handles := fun _ => none, nextHandle := 1,
    metadata := {} }

/-- The world after the daemon has died and before it runs again: what was in the
    memory of the process is gone. -/
def reboot (w : World) : World :=
  { w with fds := fun _ => none, handles := fun _ => none, metadata := { db := w.metadata.db } }

end World

/-! ## Calls and replies -/

/-- What `sqlite3_step` returns. -/
inductive Rc where
  | row
  | done
  | error
deriving DecidableEq

/-- What a system call returns: a value, or an error number in `errno`. -/
abbrev SysRet := Except Errno

inductive Call where
  -- SQL statements of `meta.c`
  | insertFile (filename : FileName) (remoteSize : Nat)
  | insertDatablock (blkOffset : Nat) (filename : FileName)
  | addLocalSize (amount : Int) (filename : FileName)
  | subLocalSize (amount : Int) (filename : FileName)
  | selectLocalSize (filename : FileName)
  | deleteFile (filename : FileName)
  | deleteDatablock (blkOffset : Nat) (filename : FileName)
  | selectFileId (filename : FileName)
  | selectBlockId (blkOffset : Nat) (filename : FileName)
  /-- A further step of a SELECT that has returned its only row. -/
  | stepSelect
  | touchDatablock (blkOffset : Nat) (filename : FileName)
  | sumLocalSize
  -- the counters of `meta.c`
  | getCacheUsedSize
  | addCacheUsedSize (amount : Int)
  | setCacheUsedSize (size : Nat)
  | getMetaBlockSize
  | setMetaBlockSize (size : Nat)
  -- memory
  | malloc (n : Nat)
  /-- A read of `n` bytes past the end of a buffer. -/
  | strayRead (n : Nat)
  | mallocHandle (fh : DualFileHandle)
  | loadHandle (ptr : Nat)
  | freeHandle (ptr : Nat)
  -- system calls
  | openFile (side : Side) (path : Path) (flags : Nat)
  /-- `open` with `O_CREAT | O_EXCL | O_WRONLY`. -/
  | creat (side : Side) (path : Path) (mode : Nat)
  | close (fd : Int)
  | pread (fd : Int) (n off : Nat)
  | pwrite (fd : Int) (buf : List UInt8) (off : Nat)
  | lstat (side : Side) (path : Path)
  | truncate (side : Side) (path : Path) (size : Nat)
  | ftruncate (fd : Int) (size : Nat)
  /-- `utime`; without a time the current one is set. -/
  | utime (side : Side) (path : Path) (modtime : Option Int)
  | chmod (side : Side) (path : Path) (mode : Nat)
  | chown (side : Side) (path : Path) (uid gid : Nat)
  /-- `fsync`; with `dataOnly`, `fdatasync`. -/
  | fsync (fd : Int) (dataOnly : Bool)
  | mkdir (side : Side) (path : Path) (mode : Nat)
  /-- `mkfifo` and `mknod`. -/
  | mknod (side : Side) (path : Path) (kind : Kind) (mode : Nat)
  | symlink (side : Side) (target path : Path)
  | link (side : Side) (path newpath : Path)
  | unlink (side : Side) (path : Path)
  | rmdir (side : Side) (path : Path)
  | rename (side : Side) (path newpath : Path)
  | system (command : List Char)
deriving DecidableEq

/-- The type of the reply to a call. -/
@[reducible] def Call.Reply : Call → Type
  | .selectLocalSize _ => Rc × Int
  | .sumLocalSize => Rc × Option (List Char)
  | .getCacheUsedSize | .getMetaBlockSize => Nat
  | .addCacheUsedSize _ | .setCacheUsedSize _ | .setMetaBlockSize _ | .freeHandle _ => Unit
  | .malloc _ | .strayRead _ => List UInt8
  | .mallocHandle _ => Nat
  | .loadHandle _ => DualFileHandle
  | .pread _ _ _ => SysRet (List UInt8)
  | .lstat _ _ => SysRet Int × Stat
  | .openFile _ _ _ | .creat _ _ _ | .close _ | .pwrite _ _ _ | .truncate _ _ _ | .ftruncate _ _
  | .utime _ _ _ | .chmod _ _ _ | .chown _ _ _ _ | .fsync _ _ | .mkdir _ _ _ | .mknod _ _ _ _
  | .symlink _ _ _ | .link _ _ _ | .unlink _ _ | .rmdir _ _ | .rename _ _ _
  | .system _ => SysRet Int
  | .insertFile _ _ | .insertDatablock _ _ | .addLocalSize _ _ | .subLocalSize _ _
  | .deleteFile _ | .deleteDatablock _ _ | .selectFileId _ | .selectBlockId _ _ | .stepSelect
  | .touchDatablock _ _ => Rc

/-- What the environment decides about one call. -/
structure Choice where
  /-- The error the call reports instead of being carried out. -/
  err : Option Errno := none
  /-- The most bytes a transfer moves. -/
  len : Option Nat := none
  /-- The clock of the machine that carries the call out, in seconds. -/
  now : Int := 0
  /-- Bytes of memory nobody has written. -/
  junk : Nat → UInt8 := fun _ => 0
  /-- A `struct stat` nobody has written. -/
  stat : Stat := ⟨.special, 0, 0, 0⟩
  /-- Whether `fallocate -d` finds a hole to dig. -/
  digs : Bool := false

/-! ## How calls are answered -/

/-- The value of a `size_t` after the exact result `x`. -/
def wrap64 (x : Int) : Nat := (x % 2 ^ 64).toNat

/-- The text SQLite gives for an integer column. -/
def intText (x : Int) : List Char :=
  if x < 0 then '-' :: Nat.toDigits 10 x.natAbs else Nat.toDigits 10 x.natAbs

/-- The access mode of `open` flags: 0 read, 1 write, 2 both.  With 3 a file is opened
    for neither, and the permissions for both are needed. -/
def accMode (flags : Nat) : Nat := flags &&& 3

def O_RDWR : Nat := 2

def O_APPEND : Nat := 1024

/-- What a descriptor opened with `flags` is for. -/
def opensRead (flags : Nat) : Bool := accMode flags == 0 || accMode flags == 2

def opensWrite (flags : Nat) : Bool := accMode flags == 1 || accMode flags == 2

def opensAppend (flags : Nat) : Bool := flags &&& O_APPEND != 0

/-- The file the shell gives to `fallocate -d`, if that is how it reads the command. -/
def digTarget (command : List Char) : Option Path :=
  match Shell.tokens .plain none command with
  | some [.word name, .word option, .word file] =>
    if name = "fallocate".toList ∧ option = "-d".toList then some file else none
  | _ => none

/-- Whether the permission bits let the owner open the file with `flags`. -/
def ownerMay (mode flags : Nat) : Bool :=
  (accMode flags == 1 || mode.testBit 8) && (accMode flags == 0 || mode.testBit 7)

namespace World

variable (c : Choice) (w : World)

/-- A statement that changes the database. -/
def sql (r : Option Db) : Rc × World :=
  match c.err, r with
  | none, some db => (.done, { w with metadata := { w.metadata with db } })
  | _, _ => (.error, w)

/-- A SELECT that looks for a row. -/
def select (found : Bool) : Rc :=
  if c.err.isSome then .error else if found then .row else .done

/-- The world in which the next descriptor refers to `f`. -/
def addFd (f : OpenFile) : World :=
  { w with fds := Function.update w.fds w.nextFd (some f), nextFd := w.nextFd + 1 }

/-- The world without the descriptor `fd`. -/
def dropFd (fd : Int) : World := { w with fds := Function.update w.fds fd none }

/-- The world in which the next address holds the record `fh`. -/
def addHandle (fh : DualFileHandle) : World :=
  { w with handles := Function.update w.handles w.nextHandle (some fh)
           nextHandle := w.nextHandle + 1 }

/-- The world in which `ptr` has been freed. -/
def dropHandle (ptr : Nat) : World := { w with handles := Function.update w.handles ptr none }

def openFile (side : Side) (path : Path) (flags : Nat) : SysRet Int × World :=
  match c.err, (w.fs side).follow Fs.maxLinks path with
  | some e, _ => (.error e, w)
  | none, .error e => (.error e, w)
  | none, .ok i =>
    if ((w.fs side).inode i).kind = .dir ∧ accMode flags ≠ 0 then (.error EISDIR, w)
    else if side = .cache ∧ !ownerMay ((w.fs side).inode i).mode flags then (.error EACCES, w)
    else (.ok w.nextFd,
      w.addFd ⟨side, i, opensRead flags, opensWrite flags, opensAppend flags⟩)

/-- The permission bits of a new file for which `mode` is asked. -/
def granted (mode : Nat) : Nat := mode ^^^ (mode &&& w.umask)

def creat (side : Side) (path : Path) (mode : Nat) : SysRet Int × World :=
  match c.err, (w.fs side).mkNode path .reg (w.granted mode) c.now with
  | some e, _ => (.error e, w)
  | none, .error e => (.error e, w)
  | none, .ok fs =>
    (.ok w.nextFd, (w.setFs side fs).addFd ⟨side, (w.fs side).nextIno, false, true, false⟩)

/-- A descriptor is released first, also when an error is reported after that. -/
def close (fd : Int) : SysRet Int × World :=
  match c.err, w.fds fd with
  | _, none => (.error EBADF, w)
  | some e, some _ => (.error e, w.dropFd fd)
  | none, some _ => (.ok 0, w.dropFd fd)

/-- The bytes a read returns: what the file holds there, or fewer. -/
def pread (fd : Int) (n off : Nat) : SysRet (List UInt8) :=
  match c.err, w.fds fd with
  | some e, _ => .error e
  | none, none => .error EBADF
  | none, some f =>
    if !f.readable then .error EBADF
    else if 2 ^ 63 ≤ n then .error EINVAL
    else
      let bytes := Posix.pread ((w.fs f.side).inode f.ino).data n off
      .ok (bytes.take (c.len.getD bytes.length))

/-- Where a write at `off` puts its bytes: in append mode at the end of the file. -/
def writePos (f : OpenFile) (off : Nat) : Nat :=
  if f.append then ((w.fs f.side).inode f.ino).data.length else off

/-- A write moves the buffer, or a prefix of it. -/
def pwrite (fd : Int) (buf : List UInt8) (off : Nat) : SysRet Int × World :=
  match c.err, w.fds fd with
  | some e, _ => (.error e, w)
  | none, none => (.error EBADF, w)
  | none, some f =>
    if !f.writable then (.error EBADF, w)
    else if 2 ^ 63 ≤ max off (w.writePos f off) + buf.length then (.error EFBIG, w)
    else
      let bytes := buf.take (c.len.getD buf.length)
      (.ok bytes.length,
        w.setFs f.side ((w.fs f.side).pwrite f.ino bytes (w.writePos f off) c.now))

/-- The reply of `lstat` and the buffer after it. -/
def lstat (side : Side) (path : Path) : SysRet Int × Stat :=
  match c.err, (w.fs side).lookup path with
  | some e, _ => (.error e, c.stat)
  | none, none => (.error ((w.fs side).lookupError path), c.stat)
  | none, some i => (.ok 0, ((w.fs side).inode i).stat)

def truncate (side : Side) (path : Path) (size : Nat) : SysRet Int × World :=
  match c.err, (w.fs side).follow Fs.maxLinks path with
  | some e, _ => (.error e, w)
  | none, .error e => (.error e, w)
  | none, .ok i =>
    if ((w.fs side).inode i).kind = .dir then (.error EISDIR, w)
    else if ((w.fs side).inode i).kind ≠ .reg then (.error EINVAL, w)
    else (.ok 0, w.setFs side ((w.fs side).setData i
      (Posix.truncate ((w.fs side).inode i).data size) c.now))

def ftruncate (fd : Int) (size : Nat) : SysRet Int × World :=
  match c.err, w.fds fd with
  | some e, _ => (.error e, w)
  | none, none => (.error EBADF, w)
  | none, some f =>
    if !f.writable then (.error EINVAL, w)
    else (.ok 0, w.setFs f.side ((w.fs f.side).setData f.ino
      (Posix.truncate ((w.fs f.side).inode f.ino).data size) c.now))

def utime (side : Side) (path : Path) (modtime : Option Int) : SysRet Int × World :=
  match c.err, (w.fs side).follow Fs.maxLinks path with
  | some e, _ => (.error e, w)
  | none, .error e => (.error e, w)
  | none, .ok i => (.ok 0, w.setFs side ((w.fs side).setTime i (modtime.getD c.now)))

def chmod (side : Side) (path : Path) (mode : Nat) : SysRet Int × World :=
  match c.err, (w.fs side).follow Fs.maxLinks path with
  | some e, _ => (.error e, w)
  | none, .error e => (.error e, w)
  | none, .ok i => (.ok 0, w.setFs side ((w.fs side).setInode i
      { (w.fs side).inode i with mode }))

/-- The id after a `chown`, in which the largest value means no change. -/
def newId (old new : Nat) : Nat := if new = 2 ^ 32 - 1 then old else new

def chown (side : Side) (path : Path) (uid gid : Nat) : SysRet Int × World :=
  match c.err, (w.fs side).follow Fs.maxLinks path with
  | some e, _ => (.error e, w)
  | none, .error e => (.error e, w)
  | none, .ok i => (.ok 0, w.setFs side ((w.fs side).setInode i { (w.fs side).inode i with
      uid := newId ((w.fs side).inode i).uid uid, gid := newId ((w.fs side).inode i).gid gid }))

/-- What is written is there at once, so there is nothing left to do. -/
def fsync (fd : Int) : SysRet Int :=
  match c.err, w.fds fd with
  | some e, _ => .error e
  | none, none => .error EBADF
  | none, some _ => .ok 0

/-- A call on the names of one side. -/
def nameCall (side : Side) (r : Except Errno Fs) : SysRet Int × World :=
  match c.err, r with
  | some e, _ => (.error e, w)
  | none, .error e => (.error e, w)
  | none, .ok fs => (.ok 0, w.setFs side fs)

def mknod (side : Side) (path : Path) (kind : Kind) (mode : Nat) : SysRet Int × World :=
  match kind with
  | .dir => (.error EPERM, w)
  | .lnk _ => (.error EINVAL, w)
  | _ => w.nameCall c side ((w.fs side).mkNode path kind (w.granted mode) c.now)

/-- The inode of the cache directory that the command digs, if it does. -/
def digIno (command : List Char) : Option Ino :=
  (digTarget command).bind fun file => (w.cache.follow Fs.maxLinks file).toOption

/-- Digging a hole moves the time of the file and leaves its bytes alone. -/
def system (command : List Char) : SysRet Int × World :=
  match c.err, w.digIno command with
  | some e, _ => (.error e, w)
  | none, none => (.ok 0, w)
  | none, some i => (.ok 0, if c.digs then { w with cache := w.cache.setTime i c.now } else w)

end World

/-- The answer to a call, and the world after it. -/
def handle (c : Choice) : (op : Call) → World → op.Reply × World
  | .insertFile filename remoteSize, w => w.sql c (w.db.insertFile filename remoteSize)
  | .insertDatablock blkOffset filename, w =>
      w.sql c (w.db.insertDatablock blkOffset filename c.now)
  | .addLocalSize amount filename, w => w.sql c (some (w.db.addLocalSize amount filename))
  | .subLocalSize amount filename, w => w.sql c (some (w.db.addLocalSize (-amount) filename))
  | .selectLocalSize filename, w =>
      ((World.select c (w.db.localSize? filename).isSome,
        if c.err.isSome then 0 else (w.db.localSize? filename).getD 0), w)
  | .deleteFile filename, w => w.sql c (some (w.db.deleteFile filename))
  | .deleteDatablock blkOffset filename, w =>
      w.sql c (some (w.db.deleteDatablock blkOffset filename))
  | .selectFileId filename, w => (World.select c (w.db.fileId? filename).isSome, w)
  | .selectBlockId blkOffset filename, w =>
      (World.select c (w.db.selectBlockId blkOffset filename), w)
  | .stepSelect, w => (World.select c false, w)
  | .touchDatablock blkOffset filename, w =>
      w.sql c (some (w.db.touchDatablock blkOffset filename c.now))
  | .sumLocalSize, w =>
      ((World.select c true, if c.err.isSome then none else w.db.sumLocalSize?.map intText), w)
  | .getCacheUsedSize, w => (w.metadata.cacheUsedSize, w)
  | .addCacheUsedSize amount, w => ((), { w with metadata := { w.metadata with
      cacheUsedSize := wrap64 (w.metadata.cacheUsedSize + amount) } })
  | .setCacheUsedSize size, w =>
      ((), { w with metadata := { w.metadata with cacheUsedSize := size } })
  | .getMetaBlockSize, w => (w.metadata.metaBlockSize, w)
  | .setMetaBlockSize size, w =>
      ((), { w with metadata := { w.metadata with metaBlockSize := size } })
  | .malloc n, w => ((List.range n).map c.junk, w)
  | .strayRead n, w => ((List.range n).map c.junk, w)
  | .mallocHandle fh, w => (w.nextHandle, w.addHandle fh)
  | .loadHandle ptr, w => ((w.handles ptr).getD ⟨-1, -1⟩, w)
  | .freeHandle ptr, w => ((), w.dropHandle ptr)
  | .openFile side path flags, w => w.openFile c side path flags
  | .creat side path mode, w => w.creat c side path mode
  | .close fd, w => w.close c fd
  | .pread fd n off, w => (w.pread c fd n off, w)
  | .pwrite fd buf off, w => w.pwrite c fd buf off
  | .lstat side path, w => (w.lstat c side path, w)
  | .truncate side path size, w => w.truncate c side path size
  | .ftruncate fd size, w => w.ftruncate c fd size
  | .utime side path modtime, w => w.utime c side path modtime
  | .chmod side path mode, w => w.chmod c side path mode
  | .chown side path uid gid, w => w.chown c side path uid gid
  | .fsync fd _, w => (w.fsync c fd, w)
  | .mkdir side path mode, w =>
      w.nameCall c side ((w.fs side).mkNode path .dir (w.granted mode) c.now)
  | .mknod side path kind mode, w => w.mknod c side path kind mode
  | .symlink side target path, w =>
      w.nameCall c side ((w.fs side).mkNode path (.lnk target) 511 c.now)
  | .link side path newpath, w => w.nameCall c side ((w.fs side).link path newpath)
  | .unlink side path, w => w.nameCall c side ((w.fs side).unlink path)
  | .rmdir side path, w => w.nameCall c side ((w.fs side).rmdir path)
  | .rename side path newpath, w => w.nameCall c side ((w.fs side).rename path newpath)
  | .system command, w => w.system c command

/-- Programs of the daemon. -/
abbrev CfsM := Prog Call Call.Reply

/-- Issue a call. -/
def ask (op : Call) : CfsM op.Reply := .call op .ret

/-- An environment that answers as `handle` does; `spins` says whether a program
    may wait for ever. -/
def env (allow : Choice → Call → World → Prop) (spins : Prop) :
    Env Call Call.Reply World Choice :=
  { handle := handle, allow := allow, spins := spins }

/-- Calls may fail for any reason. -/
def anyOutcome (_ : Choice) (_ : Call) (_ : World) : Prop := True

instance (c : Choice) (op : Call) (w : World) : Decidable (anyOutcome c op w) :=
  inferInstanceAs (Decidable True)

/-- A call fails only for a reason that lies in the state. -/
def natural (c : Choice) (_ : Call) (_ : World) : Prop := c.err = none ∧ c.len = none

instance (c : Choice) (op : Call) (w : World) : Decidable (natural c op w) :=
  inferInstanceAs (Decidable (_ ∧ _))

instance (allow : Choice → Call → World → Prop) (spins : Prop)
    [h : ∀ c op w, Decidable (allow c op w)] (c : Choice) (op : Call) (w : World) :
    Decidable ((env allow spins).allow c op w) := h c op w

/-- An execution in which the environment makes the choice `c` throughout; `f` is
    what is evaluated of its result. -/
theorem exec_of_eval {allow : Choice → Call → World → Prop} {spins : Prop}
    [∀ c op w, Decidable (allow c op w)] {α β : Type} {p : CfsM α} {w : World} {c : Choice}
    {f : α × World → β} {b : β}
    (h : (Prog.runAllowed (env allow spins) (fun _ => c) p w).map f = some b) :
    ∃ r w', Prog.Exec (env allow spins) p w r w' ∧ f (r, w') = b := by
  obtain ⟨⟨r, w'⟩, hr, hf⟩ := Option.map_eq_some_iff.mp h
  exact ⟨r, w', Prog.exec_of_runAllowed _ hr, hf⟩

/-- The conversion of a wider integer to `int`. -/
def wrap32 (x : Int) : Int := x.bmod (2 ^ 32)

theorem wrap32_zero : wrap32 0 = 0 := Int.zero_bmod

theorem wrap32_of_lt {n : Nat} (h : n < 2 ^ 31) : wrap32 n = n := by
  rw [wrap32, Int.bmod_def]
  omega

theorem wrap32_add (a b : Int) : wrap32 (wrap32 a + wrap32 b) = wrap32 (a + b) := by
  rw [wrap32, wrap32, Int.bmod_add_bmod, Int.add_comm, wrap32, Int.bmod_add_bmod, Int.add_comm,
    wrap32]

/-- What `log_syscall` returns: the value, or `-errno`. -/
def logSyscall : SysRet Int → Int
  | .ok v => v
  | .error e => -(e : Nat)

/-- What the bare call returns: the value, or -1. -/
def rawRet : SysRet Int → Int
  | .ok v => v
  | .error _ => -1

end CacheFs
