/-
  CacheFs.Posix.Tree

  A file system as the operating system presents it: a table from full path
  names to inode numbers, and the inodes.

  The name table is flat (a directory is an inode of its own, its entries are
  the names one level below it), so hard links are two names with one inode
  number, and an inode outlives its names while a descriptor refers to it.
  The calls here are the ones that create, remove, move and look up names; a
  call that POSIX requires to fail returns the error number.  What concerns only
  the bytes of a file is in `CacheFs.Posix.Content`.

  A character of a name stands for one byte of it, so the length of a name is its
  size.  Only the last component of a path may be a symbolic link.
-/

import CacheFs.Posix.Content

namespace CacheFs.Posix

/-- A path name: its characters, without the terminating NUL. -/
abbrev Path := List Char

abbrev Ino := Nat

/-- An error number; never zero, so that `-errno` is negative. -/
abbrev Errno := ℕ+

def ENOENT : Errno := 2
def EIO : Errno := 5
def EBADF : Errno := 9
def EACCES : Errno := 13
def EPERM : Errno := 1
def EEXIST : Errno := 17
def ENOTDIR : Errno := 20
def EISDIR : Errno := 21
def EINVAL : Errno := 22
def EFBIG : Errno := 27
def ENAMETOOLONG : Errno := 36
def ENOTEMPTY : Errno := 39
def ELOOP : Errno := 40

inductive Kind where
  | reg
  | dir
  | lnk (target : Path)
  | fifo
  | special
deriving DecidableEq

structure Inode where
  kind : Kind
  /-- The permission bits. -/
  mode : Nat
  data : List UInt8 := []
  /-- Modification time in seconds. -/
  mtime : Int
  uid : Nat := 0
  gid : Nat := 0

/-- The part of `struct stat` that is read. -/
structure Stat where
  kind : Kind
  mode : Nat
  size : Nat
  mtime : Int

def Inode.stat (n : Inode) : Stat := ⟨n.kind, n.mode, n.data.length, n.mtime⟩

structure Fs where
  names : List (Path × Ino)
  inode : Ino → Inode
  /-- The next unused inode number. -/
  nextIno : Ino

/-! ## Names -/

/-- The name of the directory that holds `p`. -/
def dirname (p : Path) : Path := ((p.reverse.dropWhile (· ≠ '/')).drop 1).reverse

/-- The last component of a path name. -/
def basename (p : Path) : Path := (p.reverse.takeWhile (· ≠ '/')).reverse

/-- The most bytes a component of a path may have. -/
def NAME_MAX : Nat := 255

/-- Whether `x` lies below the directory `p`. -/
def under (p x : Path) : Bool := (p ++ ['/']).isPrefixOf x

/-- The file a symbolic link at `p` with text `t` points to. -/
def linkTarget (p t : Path) : Path :=
  if t.head? = some '/' then t else dirname p ++ '/' :: t

namespace Fs

def lookup (fs : Fs) (p : Path) : Option Ino := fs.names.lookup p

/-- The bytes under a name; none when there is no such name. -/
def content (fs : Fs) (p : Path) : List UInt8 :=
  match fs.lookup p with
  | some i => (fs.inode i).data
  | none => []

def isDir (fs : Fs) (p : Path) : Bool :=
  (fs.lookup p).any fun i => decide ((fs.inode i).kind = .dir)

def isEmptyDir (fs : Fs) (p : Path) : Bool := fs.names.all fun e => !under p e.1

/-- Enter the name `p` for the inode `i`. -/
def bindName (fs : Fs) (p : Path) (i : Ino) : Fs := { fs with names := (p, i) :: fs.names }

/-- Remove the name `p`. -/
def dropName (fs : Fs) (p : Path) : Fs :=
  { fs with names := fs.names.filter fun e => e.1 ≠ p }

/-- The name table after `p`, and all that lies below it, has become `q`. -/
def moveNames (p q : Path) (names : List (Path × Ino)) : List (Path × Ino) :=
  names.filterMap fun e =>
    if e.1 = p ∨ under p e.1 then some (q ++ e.1.drop p.length, e.2)
    else if e.1 = q ∨ under q e.1 then none
    else some e

def setInode (fs : Fs) (i : Ino) (n : Inode) : Fs :=
  { fs with inode := Function.update fs.inode i n }

/-- Replace the bytes of an inode; the time of the change becomes its mtime. -/
def setData (fs : Fs) (i : Ino) (data : List UInt8) (now : Int) : Fs :=
  fs.setInode i { fs.inode i with data := data, mtime := now }

/-- Change only the mtime of an inode. -/
def setTime (fs : Fs) (i : Ino) (time : Int) : Fs :=
  fs.setInode i { fs.inode i with mtime := time }

/-- Write `bytes` into an inode; a write of no bytes leaves its mtime alone. -/
def pwrite (fs : Fs) (i : Ino) (bytes : List UInt8) (off : Nat) (now : Int) : Fs :=
  if bytes = [] then fs
  else fs.setData i (Posix.pwrite (fs.inode i).data bytes off) now

/-! ## Calls on names -/

/-- The directories on the way to `p`, and `p` itself. -/
def onTheWay (p : Path) : List Path := p.inits.filter fun d => d = p ∨ under d p

/-- The resolution of a path does not get past `d`: it is no directory, or its
    directory has no such name. -/
def stopsAt (fs : Fs) (d : Path) : Bool :=
  match fs.lookup d with
  | some i => decide ((fs.inode i).kind ≠ .dir)
  | none => fs.isDir (dirname d)

/-- The error of looking up a name that does not exist: that of the first component
    that cannot be passed. -/
def lookupError (fs : Fs) (p : Path) : Errno :=
  match (onTheWay p).find? fs.stopsAt with
  | none => ENOENT
  | some d =>
    if (fs.lookup d).isSome then ENOTDIR
    else if NAME_MAX < (basename d).length then ENAMETOOLONG
    else ENOENT

/-- The error of entering the new name `p`, if there is one. -/
def entryError (fs : Fs) (p : Path) : Option Errno :=
  if !fs.isDir (dirname p) then some (fs.lookupError p)
  else if NAME_MAX < (basename p).length then some ENAMETOOLONG
  else none

/-- The inode `p` denotes when symbolic links are followed, at most `fuel` of
    them. -/
def follow (fs : Fs) : Nat → Path → Except Errno Ino
  | fuel, p =>
    match fs.lookup p with
    | none => .error (fs.lookupError p)
    | some i =>
      match (fs.inode i).kind, fuel with
      | .lnk _, 0 => .error ELOOP
      | .lnk t, fuel + 1 => follow fs fuel (linkTarget p t)
      | _, _ => .ok i

/-- A directory without files. -/
def empty : Fs :=
  { names := [], inode := fun _ => { kind := .reg, mode := 0, mtime := 0 }, nextIno := 0 }

/-- The limit on symbolic links followed in one resolution. -/
def maxLinks : Nat := 40

/-- Create a new node at `p`: `open` with `O_CREAT | O_EXCL`, `mkdir`,
    `mkfifo`, `mknod` and `symlink`. -/
def mkNode (fs : Fs) (p : Path) (kind : Kind) (mode : Nat) (now : Int) : Except Errno Fs :=
  if (fs.lookup p).isSome then .error EEXIST
  else match fs.entryError p with
    | some e => .error e
    | none => .ok { names := (p, fs.nextIno) :: fs.names
                    inode := Function.update fs.inode fs.nextIno { kind, mode, mtime := now }
                    nextIno := fs.nextIno + 1 }

def link (fs : Fs) (p q : Path) : Except Errno Fs :=
  match fs.lookup p with
  | none => .error (fs.lookupError p)
  | some i =>
    if (fs.inode i).kind = .dir then .error EPERM
    else if (fs.lookup q).isSome then .error EEXIST
    else match fs.entryError q with
      | some e => .error e
      | none => .ok (fs.bindName q i)

def unlink (fs : Fs) (p : Path) : Except Errno Fs :=
  match fs.lookup p with
  | none => .error (fs.lookupError p)
  | some i => if (fs.inode i).kind = .dir then .error EISDIR else .ok (fs.dropName p)

def rmdir (fs : Fs) (p : Path) : Except Errno Fs :=
  match fs.lookup p with
  | none => .error (fs.lookupError p)
  | some i =>
    if (fs.inode i).kind ≠ .dir then .error ENOTDIR
    else if !fs.isEmptyDir p then .error ENOTEMPTY
    else .ok (fs.dropName p)

/-- The error of moving the inode `i` to the name `q` because of what `q` names. -/
def replaceError (fs : Fs) (i : Ino) (q : Path) : Option Errno :=
  match fs.lookup q with
  | none => none
  | some j =>
    if (fs.inode i).kind = .dir ∧ (fs.inode j).kind ≠ .dir then some ENOTDIR
    else if (fs.inode i).kind ≠ .dir ∧ (fs.inode j).kind = .dir then some EISDIR
    else none

/-- `rename`: two names of one inode stay as they are; an existing target is
    replaced, a directory only by a directory and only when it is empty. -/
def rename (fs : Fs) (p q : Path) : Except Errno Fs :=
  match fs.lookup p with
  | none => .error (fs.lookupError p)
  | some i =>
    if !fs.isDir (dirname q) then .error (fs.lookupError q)
    else if fs.lookup q = some i then .ok fs
    else if under p q then .error EINVAL
    else if under q p then .error ENOTEMPTY
    else
      match fs.replaceError i q with
      | some e => .error e
      | none =>
        -- nothing is below a name that is free or a file's
        if !fs.isEmptyDir q then .error ENOTEMPTY
        else if NAME_MAX < (basename q).length then .error ENAMETOOLONG
        else .ok { fs with names := moveNames p q fs.names }

/-! ## Names after a change -/

@[simp] theorem lookup_setInode (fs : Fs) (i : Ino) (n : Inode) (p : Path) :
    (fs.setInode i n).lookup p = fs.lookup p := rfl

@[simp] theorem lookup_setData (fs : Fs) (i : Ino) (data : List UInt8) (now : Int) (p : Path) :
    (fs.setData i data now).lookup p = fs.lookup p := rfl

@[simp] theorem inode_setInode (fs : Fs) (i j : Ino) (n : Inode) :
    (fs.setInode i n).inode j = if j = i then n else fs.inode j := by
  simp [setInode, Function.update_apply]

theorem inode_setData (fs : Fs) (i j : Ino) (data : List UInt8) (now : Int) :
    (fs.setData i data now).inode j =
      if j = i then { fs.inode i with data := data, mtime := now } else fs.inode j := by
  simp [setData]

@[simp] theorem lookup_setTime (fs : Fs) (i : Ino) (time : Int) (p : Path) :
    (fs.setTime i time).lookup p = fs.lookup p := rfl

@[simp] theorem nextIno_setTime (fs : Fs) (i : Ino) (time : Int) :
    (fs.setTime i time).nextIno = fs.nextIno := rfl

@[simp] theorem kind_setTime (fs : Fs) (i j : Ino) (time : Int) :
    ((fs.setTime i time).inode j).kind = (fs.inode j).kind := by
  rw [setTime, inode_setInode]
  split
  · next h => rw [h]
  · rfl

@[simp] theorem data_setTime (fs : Fs) (i j : Ino) (time : Int) :
    ((fs.setTime i time).inode j).data = (fs.inode j).data := by
  rw [setTime, inode_setInode]
  split
  · next h => rw [h]
  · rfl

theorem mtime_setTime (fs : Fs) (i j : Ino) (time : Int) :
    ((fs.setTime i time).inode j).mtime = if j = i then time else (fs.inode j).mtime := by
  rw [setTime, inode_setInode]
  split <;> rfl

@[simp] theorem lookup_pwrite (fs : Fs) (i : Ino) (bytes : List UInt8) (off : Nat) (now : Int)
    (p : Path) : (fs.pwrite i bytes off now).lookup p = fs.lookup p := by
  unfold pwrite
  split <;> rfl

@[simp] theorem nextIno_pwrite (fs : Fs) (i : Ino) (bytes : List UInt8) (off : Nat) (now : Int) :
    (fs.pwrite i bytes off now).nextIno = fs.nextIno := by
  unfold pwrite
  split <;> rfl

@[simp] theorem kind_pwrite (fs : Fs) (i j : Ino) (bytes : List UInt8) (off : Nat) (now : Int) :
    ((fs.pwrite i bytes off now).inode j).kind = (fs.inode j).kind := by
  unfold pwrite
  split
  · rfl
  · rw [inode_setData]
    split
    · next h => rw [h]
    · rfl

theorem inode_pwrite_ne (fs : Fs) {i j : Ino} (h : j ≠ i) (bytes : List UInt8) (off : Nat)
    (now : Int) : (fs.pwrite i bytes off now).inode j = fs.inode j := by
  unfold pwrite
  split
  · rfl
  · rw [inode_setData, if_neg h]

@[simp] theorem pwrite_nil (fs : Fs) (i : Ino) (off : Nat) (now : Int) :
    fs.pwrite i [] off now = fs := if_pos rfl

theorem data_pwrite (fs : Fs) (i j : Ino) (bytes : List UInt8) (off : Nat) (now : Int) :
    ((fs.pwrite i bytes off now).inode j).data =
      if j = i then Posix.pwrite (fs.inode i).data bytes off else (fs.inode j).data := by
  unfold pwrite
  split
  · next h =>
      rw [h, Posix.pwrite_nil]
      split
      · next hj => rw [hj]
      · rfl
  · rw [inode_setData]
    split <;> rfl

theorem mtime_pwrite (fs : Fs) (i j : Ino) (bytes : List UInt8) (off : Nat) (now : Int) :
    ((fs.pwrite i bytes off now).inode j).mtime =
      if j = i ∧ bytes ≠ [] then now else (fs.inode j).mtime := by
  unfold pwrite
  split
  · next h => simp [h]
  · next h =>
      rw [inode_setData]
      by_cases hj : j = i <;> simp [hj, h]

theorem lookup_cons_eq (names : List (Path × Ino)) (e : Path × Ino) (x : Path) :
    (e :: names).lookup x = if x = e.1 then some e.2 else names.lookup x := by
  rw [List.lookup_cons]
  by_cases hx : x = e.1
  · simp [hx]
  · rw [if_neg hx, beq_false_of_ne hx]

theorem lookup_filter_ne (names : List (Path × Ino)) (p x : Path) :
    (names.filter fun e => e.1 ≠ p).lookup x = if x = p then none else names.lookup x := by
  induction names with
  | nil => simp
  | cons e names ih =>
      rw [lookup_cons_eq]
      by_cases he : e.1 = p
      · rw [List.filter_cons_of_neg (by simpa using he), ih, he]
        split <;> rfl
      · rw [List.filter_cons_of_pos (by simpa using he), lookup_cons_eq, ih]
        by_cases hx : x = p
        · rw [if_neg (by rw [hx]; exact Ne.symm he), if_pos hx, if_pos hx]
        · rw [if_neg hx, if_neg hx]

@[simp] theorem lookup_dropName (fs : Fs) (p x : Path) :
    (fs.dropName p).lookup x = if x = p then none else fs.lookup x :=
  lookup_filter_ne fs.names p x

@[simp] theorem lookup_bindName (fs : Fs) (p x : Path) (i : Ino) :
    (fs.bindName p i).lookup x = if x = p then some i else fs.lookup x := by
  rw [lookup, bindName, lookup_cons_eq, lookup]

@[simp] theorem inode_dropName (fs : Fs) (p : Path) (i : Ino) :
    (fs.dropName p).inode i = fs.inode i := rfl

@[simp] theorem inode_bindName (fs : Fs) (p : Path) (i j : Ino) :
    (fs.bindName p i).inode j = fs.inode j := rfl

theorem content_of_lookup {fs : Fs} {p : Path} {i : Ino} (h : fs.lookup p = some i) :
    fs.content p = (fs.inode i).data := by
  rw [content, h]

theorem content_of_none {fs : Fs} {p : Path} (h : fs.lookup p = none) : fs.content p = [] := by
  rw [content, h]

theorem content_congr {fs fs' : Fs} {p : Path} (hlook : fs'.lookup p = fs.lookup p)
    (hdata : ∀ i, fs.lookup p = some i → (fs'.inode i).data = (fs.inode i).data) :
    fs'.content p = fs.content p := by
  rw [content, hlook, content]
  cases h : fs.lookup p with
  | none => rfl
  | some i => exact hdata i h

theorem mem_of_lookup {fs : Fs} {p : Path} {i : Ino} (h : fs.lookup p = some i) :
    (p, i) ∈ fs.names := by
  unfold lookup at h
  generalize fs.names = names at h
  induction names with
  | nil => exact nomatch h
  | cons e names ih =>
      rw [lookup_cons_eq] at h
      split at h
      · next hp =>
          rw [hp, ← Option.some.inj h]
          exact List.mem_cons_self
      · exact List.mem_cons_of_mem _ (ih h)

/-- What is not a symbolic link is found at once. -/
theorem follow_of_lookup {fs : Fs} {p : Path} {i : Ino} (h : fs.lookup p = some i)
    (hk : ∀ t, (fs.inode i).kind ≠ .lnk t) (n : Nat) : fs.follow n p = .ok i := by
  unfold follow
  rw [h]
  dsimp only
  split
  · exact absurd (by assumption) (hk _)
  · exact absurd (by assumption) (hk _)
  · rfl

theorem lookup_of_follow {fs : Fs} {p : Path} {i : Ino} {n : Nat} (h : fs.follow n p = .ok i) :
    ∃ j, fs.lookup p = some j := by
  unfold follow at h
  split at h
  · exact nomatch h
  · next j hj => exact ⟨j, hj⟩

section MkNode

variable {fs fs' : Fs} {p : Path} {kind : Kind} {mode : Nat} {now : Int}

theorem mkNode_eq_ok (h : fs.mkNode p kind mode now = .ok fs') :
    fs.lookup p = none ∧ fs' =
      { names := (p, fs.nextIno) :: fs.names
        inode := Function.update fs.inode fs.nextIno { kind, mode, mtime := now }
        nextIno := fs.nextIno + 1 } := by
  unfold mkNode at h
  split at h
  · exact nomatch h
  · next hnone =>
      split at h
      · exact nomatch h
      · exact ⟨by simpa using hnone, (Except.ok.inj h).symm⟩

/-- Only a name that is free, in a directory and not too long can be entered. -/
theorem mkNode_error_iff : (∃ e, fs.mkNode p kind mode now = .error e) ↔
    (fs.lookup p).isSome = true ∨ fs.isDir (dirname p) = false ∨
      NAME_MAX < (basename p).length := by
  unfold mkNode entryError
  by_cases hlook : (fs.lookup p).isSome = true
  · simp [hlook]
  · by_cases hdir : fs.isDir (dirname p) = true
    · by_cases hlen : NAME_MAX < (basename p).length <;> simp [hlook, hdir, hlen]
    · simp [hlook, hdir]

theorem lookup_mkNode (h : fs.mkNode p kind mode now = .ok fs') (x : Path) :
    fs'.lookup x = if x = p then some fs.nextIno else fs.lookup x := by
  obtain ⟨-, rfl⟩ := mkNode_eq_ok h
  rw [lookup, lookup_cons_eq, lookup]

theorem inode_mkNode (h : fs.mkNode p kind mode now = .ok fs') (i : Ino) :
    fs'.inode i = if i = fs.nextIno then { kind, mode, mtime := now } else fs.inode i := by
  obtain ⟨-, rfl⟩ := mkNode_eq_ok h
  exact Function.update_apply _ _ _ _

theorem nextIno_mkNode (h : fs.mkNode p kind mode now = .ok fs') :
    fs'.nextIno = fs.nextIno + 1 := by
  obtain ⟨-, rfl⟩ := mkNode_eq_ok h
  rfl

end MkNode

theorem under_iff {p x : Path} : under p x = true ↔ ∃ r, x = p ++ '/' :: r := by
  rw [under, List.isPrefixOf_iff_prefix]
  constructor
  · rintro ⟨r, rfl⟩
    exact ⟨r, by simp⟩
  · rintro ⟨r, rfl⟩
    exact ⟨r, by simp⟩

theorem under_append_left (d p x : Path) : under (d ++ p) (d ++ x) = under p x := by
  rw [Bool.eq_iff_iff, under_iff, under_iff]
  simp

/-- `x` is `q` or below it exactly when it is `q` followed by some text of the
    right form; that text is what renaming keeps. -/
theorem eq_append_drop {q x : Path} (h : x = q ∨ under q x = true) :
    x = q ++ x.drop q.length := by
  rcases h with rfl | h
  · simp
  · obtain ⟨r, rfl⟩ := under_iff.mp h
    simp

theorem append_drop_under {p q x : Path} (h : x = p ∨ under p x = true) :
    q ++ x.drop p.length = q ∨ under q (q ++ x.drop p.length) = true := by
  rcases h with rfl | h
  · simp
  · obtain ⟨r, rfl⟩ := under_iff.mp h
    exact Or.inr (under_iff.mpr ⟨r, by simp⟩)

/-- The name table after a move, name by name. -/
theorem lookup_moveNames (p q : Path) (names : List (Path × Ino)) (x : Path) :
    (moveNames p q names).lookup x =
      if x = q ∨ under q x then names.lookup (p ++ x.drop q.length)
      else if x = p ∨ under p x then none
      else names.lookup x := by
  induction names with
  | nil => simp [moveNames]
  | cons e names ih =>
      rw [moveNames, List.filterMap_cons, ← moveNames, lookup_cons_eq, lookup_cons_eq]
      by_cases hp : e.1 = p ∨ under p e.1 = true
      · -- the entry is moved: only its new name, at or below `q`, can find it
        have hnew := append_drop_under (q := q) hp
        simp only [if_pos hp, lookup_cons_eq, ih]
        by_cases hx : x = q ∨ under q x = true
        · have hiff : x = q ++ e.1.drop p.length ↔ p ++ x.drop q.length = e.1 := by
            constructor
            · intro h
              rw [h, List.drop_left]
              exact (eq_append_drop hp).symm
            · intro h
              rw [← h, List.drop_left]
              exact eq_append_drop hx
          simp only [if_pos hx, hiff]
        · have hne : x ≠ q ++ e.1.drop p.length := fun h => hx (h ▸ hnew)
          have hne' : ¬(x = p ∨ under p x = true) → x ≠ e.1 := fun h h' => h (h' ▸ hp)
          simp only [if_neg hx, if_neg hne]
          by_cases hxp : x = p ∨ under p x = true
          · rw [if_pos hxp, if_pos hxp]
          · rw [if_neg hxp, if_neg hxp, if_neg (hne' hxp)]
      · have hne : ∀ y, (y = q ∨ under q y = true) → p ++ y.drop q.length ≠ e.1 :=
          fun y hy h => hp (h ▸ append_drop_under hy)
        by_cases hq : e.1 = q ∨ under q e.1 = true
        · -- the entry is replaced by the move
          simp only [if_neg hp, if_pos hq, ih]
          by_cases hx : x = q ∨ under q x = true
          · rw [if_pos hx, if_pos hx, if_neg (hne x hx)]
          · rw [if_neg hx, if_neg hx, if_neg fun h : x = e.1 => hx (h ▸ hq)]
        · -- the entry stays
          simp only [if_neg hp, if_neg hq, lookup_cons_eq, ih]
          by_cases hx : x = q ∨ under q x = true
          · rw [if_pos hx, if_pos hx, if_neg (hne x hx), if_neg fun h : x = e.1 => hq (h ▸ hx)]
          · rw [if_neg hx, if_neg hx]
            by_cases hxp : x = p ∨ under p x = true
            · rw [if_pos hxp, if_pos hxp, if_neg fun h : x = e.1 => hp (h ▸ hxp)]
            · rw [if_neg hxp, if_neg hxp]

/-! ## What a successful call on names has done -/

section Calls

variable {fs fs' : Fs} {p q x : Path}

theorem link_eq_ok (h : fs.link p q = .ok fs') :
    ∃ i, fs.lookup p = some i ∧ fs.lookup q = none ∧ fs' = fs.bindName q i := by
  unfold link at h
  split at h
  · exact nomatch h
  · next i hi =>
      split at h
      · exact nomatch h
      · split at h
        · exact nomatch h
        · next hq =>
            split at h
            · exact nomatch h
            · exact ⟨i, hi, by simpa using hq, (Except.ok.inj h).symm⟩

theorem unlink_eq_ok (h : fs.unlink p = .ok fs') : fs' = fs.dropName p := by
  unfold unlink at h
  split at h
  · exact nomatch h
  · split at h
    · exact nomatch h
    · exact (Except.ok.inj h).symm

theorem rmdir_eq_ok (h : fs.rmdir p = .ok fs') :
    ∃ i, fs.lookup p = some i ∧ (fs.inode i).kind = .dir ∧ fs' = fs.dropName p := by
  unfold rmdir at h
  split at h
  · exact nomatch h
  · next i hi =>
      split at h
      · exact nomatch h
      · next hdir =>
          split at h
          · exact nomatch h
          · exact ⟨i, hi, not_not.mp hdir, (Except.ok.inj h).symm⟩

theorem isEmptyDir_lookup (h : fs.isEmptyDir q = true) (hx : under q x = true) :
    fs.lookup x = none := by
  by_contra hne
  obtain ⟨i, hi⟩ := Option.ne_none_iff_exists'.mp hne
  have hout := List.all_eq_true.mp h _ (mem_of_lookup hi)
  simp [hx] at hout

/-- A directory is replaced by a directory only, and anything else by a file. -/
theorem sameKind_of_replaceError {i j : Ino} (h : fs.replaceError i q = none)
    (hj : fs.lookup q = some j) : (fs.inode i).kind = .dir ↔ (fs.inode j).kind = .dir := by
  simp only [replaceError, hj] at h
  split at h
  · exact nomatch h
  · split at h
    · exact nomatch h
    · tauto

/-- A rename moves nothing, or it moves `p` and what is below it to a place that was
    free or could be replaced. -/
theorem rename_eq_ok (h : fs.rename p q = .ok fs') : ∃ i, fs.lookup p = some i ∧
    ((fs.lookup q = some i ∧ fs' = fs) ∨
      (fs.lookup q ≠ some i ∧ fs.isEmptyDir q = true ∧
        (∀ j, fs.lookup q = some j → ((fs.inode i).kind = .dir ↔ (fs.inode j).kind = .dir)) ∧
        fs' = { fs with names := moveNames p q fs.names })) := by
  unfold rename at h
  split at h
  · exact nomatch h
  · next i hi =>
      refine ⟨i, hi, ?_⟩
      split at h
      · exact nomatch h
      · split at h
        · next hsame => exact Or.inl ⟨hsame, (Except.ok.inj h).symm⟩
        · next hother =>
            split at h
            · exact nomatch h
            · split at h
              · exact nomatch h
              · split at h
                · exact nomatch h
                · next hreplace =>
                    split at h
                    · exact nomatch h
                    · next hempty =>
                        split at h
                        · exact nomatch h
                        · exact Or.inr ⟨hother, by simpa using hempty,
                            fun j hj => sameKind_of_replaceError hreplace hj,
                            (Except.ok.inj h).symm⟩

/-- Every name is one of an inode that has been made. -/
def Bounded (fs : Fs) : Prop := ∀ x i, fs.lookup x = some i → i < fs.nextIno

theorem bounded_of_names (h : ∀ e ∈ fs.names, e.2 < fs.nextIno) : fs.Bounded :=
  fun _ _ hi => h _ (mem_of_lookup hi)

theorem Bounded.dropName (h : fs.Bounded) (p : Path) : (fs.dropName p).Bounded := by
  intro x i hi
  rw [lookup_dropName] at hi
  split at hi
  · exact nomatch hi
  · exact h x i hi

theorem Bounded.link (h : fs.Bounded) (hl : fs.link p q = .ok fs') : fs'.Bounded := by
  obtain ⟨i, hi, -, rfl⟩ := link_eq_ok hl
  intro x j hj
  rw [lookup_bindName] at hj
  split at hj
  · rw [← Option.some.inj hj]
    exact h p i hi
  · exact h x j hj

theorem Bounded.mkNode {kind : Kind} {mode : Nat} {now : Int} (h : fs.Bounded)
    (hm : fs.mkNode p kind mode now = .ok fs') : fs'.Bounded := by
  intro x i hi
  rw [nextIno_mkNode hm]
  rw [lookup_mkNode hm] at hi
  split at hi
  · rw [← Option.some.inj hi]
    exact Nat.lt_succ_self _
  · exact Nat.lt_succ_of_lt (h x i hi)

theorem Bounded.rename (h : fs.Bounded) (hr : fs.rename p q = .ok fs') : fs'.Bounded := by
  obtain ⟨i, -, ⟨-, rfl⟩ | ⟨-, -, -, rfl⟩⟩ := rename_eq_ok hr
  · exact h
  · intro x j hj
    have hj' : (moveNames p q fs.names).lookup x = some j := hj
    rw [lookup_moveNames] at hj'
    split at hj'
    · exact h _ j hj'
    · split at hj'
      · exact nomatch hj'
      · exact h x j hj'

/-- If the name `x` is in use it still is, for the same inode. -/
def Keeps (fs fs' : Fs) (x : Path) : Prop :=
  ∀ i, fs.lookup x = some i → fs'.lookup x = some i ∧ fs'.inode i = fs.inode i

theorem Keeps.refl (fs : Fs) (x : Path) : Keeps fs fs x := fun _ hi => ⟨hi, rfl⟩

theorem keeps_mkNode {kind : Kind} {mode : Nat} {now : Int} (hb : fs.Bounded)
    (h : fs.mkNode p kind mode now = .ok fs') (x : Path) : Keeps fs fs' x := by
  intro i hi
  have hnew := (mkNode_eq_ok h).1
  have hx : x ≠ p := by
    rintro rfl
    rw [hnew] at hi
    exact nomatch hi
  rw [lookup_mkNode h, if_neg hx, inode_mkNode h, if_neg (Nat.ne_of_lt (hb x i hi))]
  exact ⟨hi, rfl⟩

theorem keeps_link (h : fs.link p q = .ok fs') (x : Path) : Keeps fs fs' x := by
  obtain ⟨j, -, hnew, rfl⟩ := link_eq_ok h
  intro i hi
  have hx : x ≠ q := by
    rintro rfl
    rw [hnew] at hi
    exact nomatch hi
  rw [lookup_bindName, if_neg hx]
  exact ⟨hi, rfl⟩

theorem keeps_dropName (h : x ≠ p) : Keeps fs (fs.dropName p) x := by
  intro i hi
  rw [lookup_dropName, if_neg h]
  exact ⟨hi, rfl⟩

/-- A rename keeps the names that are neither the old nor the new name, nor below
    the old one. -/
theorem keeps_rename (h : fs.rename p q = .ok fs') (hp : x ≠ p ∧ under p x = false)
    (hq : x ≠ q) : Keeps fs fs' x := by
  obtain ⟨j, -, ⟨-, rfl⟩ | ⟨-, hempty, -, rfl⟩⟩ := rename_eq_ok h
  · exact .refl _ _
  · intro i hi
    have hbelow : ¬ under q x = true := by
      intro hx
      rw [isEmptyDir_lookup hempty hx] at hi
      exact nomatch hi
    refine ⟨?_, rfl⟩
    have hmoved := lookup_moveNames p q fs.names x
    rw [if_neg (by simp [hq, hbelow]), if_neg (by simp [hp])] at hmoved
    exact hmoved.trans hi

/-- After a rename the new name is that of the inode moved. -/
theorem lookup_rename (h : fs.rename p q = .ok fs') {i : Ino} (hi : fs.lookup p = some i) :
    fs'.lookup q = some i ∧ fs'.inode i = fs.inode i := by
  obtain ⟨j, hj, ⟨hsame, rfl⟩ | ⟨-, -, -, rfl⟩⟩ := rename_eq_ok h
  · exact ⟨by rw [hsame, ← hj, hi], rfl⟩
  · refine ⟨?_, rfl⟩
    have hmoved := lookup_moveNames p q fs.names q
    rw [if_pos (Or.inl rfl), List.drop_length, List.append_nil] at hmoved
    exact hmoved.trans hi

end Calls

end Fs

end CacheFs.Posix
