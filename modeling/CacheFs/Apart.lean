/-
  CacheFs.Apart

  Which paths the cache keeps apart.

  A path has its rows and its cache file under one flattened name.  What a callback on
  another name does leaves both as they are (`untouched`), whatever fails in it: its
  statements name the rows of its own file, its calls on names its own cache file, and it
  writes through its own descriptors.  So two paths are kept apart exactly when their
  components do not concatenate to one text, and to the name of a file of SQLite neither.
-/

import CacheFs.Calls

namespace CacheFs

open CacheFs.Effect
open CacheFs.Posix

-- ============================================================================
-- The rows of a name
-- ============================================================================

namespace Db

/-- The row of the file `n` and the rows of its blocks are as they were. -/
structure SameRows (n : FileName) (db db' : Db) : Prop where
  files : ∀ f, f.relativePath = n → (f ∈ db'.files ↔ f ∈ db.files)
  blocks : ∀ f ∈ db.files, f.relativePath = n → ∀ b, b.fileId = f.fileId →
    (b ∈ db'.datablocks ↔ b ∈ db.datablocks)

variable {n m : FileName} {db db₁ db₂ db' : Db} {o : Nat} {now : Int}

theorem SameRows.refl (n : FileName) (db : Db) : SameRows n db db :=
  ⟨fun _ _ => Iff.rfl, fun _ _ _ _ _ => Iff.rfl⟩

theorem SameRows.trans (h₁ : SameRows n db db₁) (h₂ : SameRows n db₁ db₂) :
    SameRows n db db₂ := by
  refine ⟨fun f hf => (h₂.files f hf).trans (h₁.files f hf), fun f hf hn b hb => ?_⟩
  exact (h₂.blocks f ((h₁.files f hn).mpr hf) hn b hb).trans (h₁.blocks f hf hn b hb)

theorem sameRows_insertFile {remoteSize : Nat} (hi : db.insertFile m remoteSize = some db')
    (hne : m ≠ n) : SameRows n db db' := by
  obtain ⟨-, rfl⟩ := insertFile_eq_some hi
  refine ⟨fun f hf => ?_, fun _ _ _ _ _ => Iff.rfl⟩
  have hold : f ≠ db.newFile m remoteSize := by
    rintro rfl
    exact hne hf
  simp [hold]

/-- The blocks of two files are different rows. -/
theorem WF.fileId_ne (h : db.WF) {f g : FileRow} (hf : f ∈ db.files) (hg : g ∈ db.files)
    (hm : f.relativePath = m) (hn : g.relativePath = n) (hne : m ≠ n) : g.fileId ≠ f.fileId := by
  intro heq
  rw [h.eq_of_fileId hg hf heq, hm] at hn
  exact hne hn

theorem WF.sameRows_insertDatablock (h : db.WF) (hi : db.insertDatablock o m now = some db')
    (hne : m ≠ n) : SameRows n db db' := by
  obtain ⟨f, hf, hm, -, rfl⟩ := insertDatablock_eq_some hi
  refine ⟨fun _ _ => Iff.rfl, fun g hg hn b hb => ?_⟩
  have hid := h.fileId_ne hf hg hm hn hne
  have hold : b ≠ ⟨freshId (db.datablocks.map (·.blockId)), o, now, f.fileId⟩ := by
    rintro rfl
    exact hid hb.symm
  simp [hold]

theorem sameRows_addLocalSize {amount : Int} (hne : m ≠ n) :
    SameRows n db (db.addLocalSize amount m) := by
  refine ⟨fun f hf => ?_, fun _ _ _ _ _ => Iff.rfl⟩
  rw [mem_addLocalSize]
  constructor
  · rintro ⟨g, hg, rfl⟩
    have hgn : g.relativePath ≠ m := fun heq => hne (heq ▸ hf)
    rwa [if_neg hgn]
  · intro hmem
    have hfm : f.relativePath ≠ m := fun heq => hne (heq ▸ hf)
    exact ⟨f, hmem, by rw [if_neg hfm]⟩

theorem WF.sameRows_deleteFile (h : db.WF) (hne : m ≠ n) : SameRows n db (db.deleteFile m) := by
  refine ⟨fun f hf => ?_, fun g hg hn b hb => ?_⟩
  · rw [mem_files_deleteFile, hf]
    exact and_iff_left hne.symm
  · rw [mem_datablocks_deleteFile]
    refine and_iff_left fun f hf hm heq => ?_
    exact h.fileId_ne hf hg hm hn hne (hb.symm.trans heq.symm)

theorem WF.sameRows_deleteDatablock (h : db.WF) (hne : m ≠ n) :
    SameRows n db (db.deleteDatablock o m) := by
  unfold Db.deleteDatablock
  split
  · exact .refl n db
  · next id hid =>
      obtain ⟨f, hf, hm, rfl⟩ := fileId?_eq_some hid
      refine ⟨fun _ _ => Iff.rfl, fun g hg hn b hb => ?_⟩
      simp [hb, h.fileId_ne hf hg hm hn hne]

theorem WF.sameRows_touchDatablock (h : db.WF) (hne : m ≠ n) :
    SameRows n db (db.touchDatablock o m now) := by
  unfold Db.touchDatablock
  split
  · exact .refl n db
  · next id hid =>
      obtain ⟨f, hf, hm, rfl⟩ := fileId?_eq_some hid
      refine ⟨fun _ _ => Iff.rfl, fun g hg hn b hb => ?_⟩
      have hid := h.fileId_ne hf hg hm hn hne
      rw [List.mem_map]
      constructor
      · rintro ⟨b', hb', rfl⟩
        split at hb
        · next htouch => exact absurd (hb.symm.trans htouch.2) hid
        · next hkeep => rwa [if_neg hkeep]
      · exact fun hmem => ⟨b, hmem, if_neg fun htouch => hid (hb.symm.trans htouch.2)⟩

end Db

/-- The file that a statement names which changes the tables. -/
def Call.filename? : Call → Option FileName
  | .insertFile filename _ | .insertDatablock _ filename | .addLocalSize _ filename
  | .subLocalSize _ filename | .deleteFile filename | .deleteDatablock _ filename
  | .touchDatablock _ filename => some filename
  | _ => none

/-- Only the statements that name a file change its rows. -/
theorem sameRows_handle {c : Choice} {w : World} {op : Call} {n : FileName} (h : w.db.WF)
    (hop : op.filename? ≠ some n) : Db.SameRows n w.db (handle c op w).2.db := by
  by_cases hframe : op.reachesMeta = false
  · have hsame : (handle c op w).2.db = w.db := congrArg MetaState.db (metadata_handle hframe)
    rw [hsame]
    exact .refl n _
  have hne : ∀ {m}, some m ≠ some n → m ≠ n := fun hm heq => hm (heq ▸ rfl)
  cases op
  case insertFile =>
    exact World.sql_db (.refl n _) fun db hi => Db.sameRows_insertFile hi (hne hop)
  case insertDatablock =>
    exact World.sql_db (.refl n _) fun db hi => h.sameRows_insertDatablock hi (hne hop)
  case addLocalSize =>
    exact World.sql_db (.refl n _) fun db hi =>
      Option.some.inj hi ▸ Db.sameRows_addLocalSize (hne hop)
  case subLocalSize =>
    exact World.sql_db (.refl n _) fun db hi =>
      Option.some.inj hi ▸ Db.sameRows_addLocalSize (hne hop)
  case deleteFile =>
    exact World.sql_db (.refl n _) fun db hi =>
      Option.some.inj hi ▸ h.sameRows_deleteFile (hne hop)
  case deleteDatablock =>
    exact World.sql_db (.refl n _) fun db hi =>
      Option.some.inj hi ▸ h.sameRows_deleteDatablock (hne hop)
  case touchDatablock =>
    exact World.sql_db (.refl n _) fun db hi =>
      Option.some.inj hi ▸ h.sameRows_touchDatablock (hne hop)
  -- lookups and counters
  all_goals first | exact .refl n _ | exact absurd rfl hframe

-- ============================================================================
-- The file of a name
-- ============================================================================

namespace Posix.Fs

/-- The name `x` is free as it was, or that of the same inode as it was. -/
structure Same (fs fs' : Fs) (x : Path) : Prop where
  lookup : fs'.lookup x = fs.lookup x
  inode : ∀ i, fs.lookup x = some i → fs'.inode i = fs.inode i

variable {fs fs₁ fs₂ : Fs} {p q x : Path} {i : Ino}

theorem Same.refl (fs : Fs) (x : Path) : Same fs fs x := ⟨rfl, fun _ _ => rfl⟩

theorem Same.trans (h₁ : Same fs fs₁ x) (h₂ : Same fs₁ fs₂ x) : Same fs fs₂ x :=
  ⟨h₂.lookup.trans h₁.lookup, fun i hi =>
    (h₂.inode i (h₁.lookup.trans hi)).trans (h₁.inode i hi)⟩

theorem same_setInode {n : Inode} (h : fs.lookup x ≠ some i) : Same fs (fs.setInode i n) x := by
  refine ⟨rfl, fun j hj => ?_⟩
  rw [inode_setInode, if_neg]
  rintro rfl
  exact h hj

theorem same_pwrite {bytes : List UInt8} {off : Nat} {now : Int} (h : fs.lookup x ≠ some i) :
    Same fs (fs.pwrite i bytes off now) x := by
  refine ⟨lookup_pwrite _ _ _ _ _ _, fun j hj => inode_pwrite_ne _ ?_ _ _ _⟩
  rintro rfl
  exact h hj

theorem same_dropName (h : x ≠ p) : Same fs (fs.dropName p) x :=
  ⟨by rw [lookup_dropName, if_neg h], fun _ _ => rfl⟩

/-- A rename concerns its two names and what is below them. -/
theorem same_rename (h : fs.rename p q = .ok fs₁) (hp : ¬(x = p ∨ under p x = true))
    (hq : ¬(x = q ∨ under q x = true)) : Same fs fs₁ x := by
  obtain ⟨j, -, ⟨-, rfl⟩ | ⟨-, -, -, rfl⟩⟩ := rename_eq_ok h
  · exact .refl _ x
  · have hmoved := lookup_moveNames p q fs.names x
    rw [if_neg hq, if_neg hp] at hmoved
    exact ⟨hmoved, fun _ _ => rfl⟩

end Posix.Fs

theorem Side.some_nas_ne : some Side.nas ≠ some Side.cache := by decide

/-- The descriptor is not one of the cache file at `x`. -/
def World.FdSpares (w : World) (fd : Int) (x : Path) : Prop :=
  ∀ f, w.fds fd = some f → f.side = .cache → w.cache.lookup x ≠ some f.ino

/-- A write to the path does not reach the cache file at `x`, not through a link either. -/
def World.PathSpares (w : World) (path x : Path) : Prop :=
  ∀ i, w.cache.follow Fs.maxLinks path = .ok i → w.cache.lookup x ≠ some i

/-- The call does not concern the cache file at `x`. -/
def Call.Spares (w : World) (x : Path) : Call → Prop
  | .pwrite fd _ _ | .ftruncate fd _ => w.FdSpares fd x
  | .truncate .cache path _ => w.PathSpares path x
  | .unlink .cache path => x ≠ path
  | .rename .cache path newpath =>
      ¬(x = path ∨ under path x = true) ∧ ¬(x = newpath ∨ under newpath x = true)
  | .creat side _ _ => side ≠ .cache
  | op => op.side? w ≠ some .cache

/-- A change of the tree of one side. -/
theorem sameFile_setFs {w : World} {side : Side} {fs : Fs} {x : Path}
    (h : side = .cache → Fs.Same w.cache fs x) : Fs.Same w.cache (w.setFs side fs).cache x := by
  cases side with
  | nas => exact .refl _ x
  | cache => exact h rfl

section SameFile

variable {c : Choice} {w : World} {x : Path}

theorem sameFile_nameCall {side : Side} {r : Except Errno Fs}
    (h : side = .cache → ∀ fs, r = .ok fs → Fs.Same w.cache fs x) :
    Fs.Same w.cache (w.nameCall c side r).2.cache x := by
  unfold World.nameCall
  split
  · exact .refl _ x
  · exact .refl _ x
  · exact sameFile_setFs fun hside => h hside _ rfl

theorem sameFile_sql (r : Option Db) : Fs.Same w.cache (w.sql c r).2.cache x := by
  unfold World.sql
  split <;> exact .refl _ x

theorem sameFile_pwrite {fd : Int} (h : w.FdSpares fd x) (buf : List UInt8) (off : Nat) :
    Fs.Same w.cache (w.pwrite c fd buf off).2.cache x := by
  unfold World.pwrite
  split
  · exact .refl _ x
  · exact .refl _ x
  · next f _ hf =>
      split
      · exact .refl _ x
      · split
        · exact .refl _ x
        · refine sameFile_setFs fun hside => ?_
          rw [hside]
          exact Fs.same_pwrite (h f hf hside)

theorem sameFile_ftruncate {fd : Int} (h : w.FdSpares fd x) (size : Nat) :
    Fs.Same w.cache (w.ftruncate c fd size).2.cache x := by
  unfold World.ftruncate
  split
  · exact .refl _ x
  · exact .refl _ x
  · next f _ hf =>
      split
      · exact .refl _ x
      · refine sameFile_setFs fun hside => ?_
        rw [hside]
        exact Fs.same_setInode (h f hf hside)

theorem sameFile_truncate {side : Side} {path : Path} (h : side = .cache → w.PathSpares path x)
    (size : Nat) : Fs.Same w.cache (w.truncate c side path size).2.cache x := by
  unfold World.truncate
  split
  · exact .refl _ x
  · exact .refl _ x
  · next i _ hi =>
      split
      · exact .refl _ x
      · split
        · exact .refl _ x
        · refine sameFile_setFs fun hside => ?_
          subst hside
          exact Fs.same_setInode (h rfl i hi)

/-- A call on the other side. -/
theorem sameFile_of_side {op : Call} (hop : op.onFiles = true) (hside : op.side? w ≠ some .cache) :
    Fs.Same w.cache (handle c op w).2.cache x := by
  rcases handle_onFiles (c := c) hop with heq | ⟨side, fs, hs, heq⟩ <;> rw [heq]
  · exact .refl _ x
  · exact sameFile_setFs fun hcache => absurd (hs.trans (congrArg some hcache)) hside

theorem sameFile_handle {op : Call} (h : op.Spares w x) :
    Fs.Same w.cache (handle c op w).2.cache x := by
  cases op
  case pwrite fd buf off => exact sameFile_pwrite h buf off
  case ftruncate fd size => exact sameFile_ftruncate h size
  case truncate side path size =>
    refine sameFile_truncate (fun hside => ?_) size
    subst hside
    exact h
  case unlink side path =>
    refine sameFile_nameCall fun hside fs hfs => ?_
    subst hside
    obtain rfl := Fs.unlink_eq_ok hfs
    exact Fs.same_dropName h
  case rename side path newpath =>
    refine sameFile_nameCall fun hside fs hfs => ?_
    subst hside
    exact Fs.same_rename hfs h.1 h.2
  case creat side path mode =>
    simp only [handle, World.creat]
    split
    · exact .refl _ x
    · exact .refl _ x
    · exact sameFile_setFs fun hside => absurd hside h
  case openFile side path flags =>
    simp only [handle, World.openFile]
    split
    · exact .refl _ x
    · exact .refl _ x
    · split
      · exact .refl _ x
      · split <;> exact .refl _ x
  case close fd =>
    simp only [handle, World.close]
    split <;> exact .refl _ x
  case insertFile | insertDatablock | addLocalSize | subLocalSize | deleteFile | deleteDatablock
     | touchDatablock => exact sameFile_sql _
  case utime | chmod | chown | mkdir | mknod | symlink | link | rmdir | system =>
    exact sameFile_of_side rfl h
  all_goals exact .refl _ x

end SameFile

-- ============================================================================
-- The callbacks
-- ============================================================================

/-- The callbacks that change a file or serve it, on one path. -/
inductive FileOp where
  | cfsRead (fuel size offset fh : Nat)
  | cfsWrite (fuel : Nat) (buf : List UInt8) (offset fh : Nat)
  | cfsTruncate (newsize : Nat)
  | cfsFtruncate (fh offset : Nat)
  | cfsRename (newpath : FusePath)
  | cfsUnlink

/-- The callback on `path`; of a read only the status. -/
def FileOp.prog (cfg : Config) (path : Path) : FileOp → CfsM Int
  | .cfsRead fuel size offset fh => do
    let r ← CacheFs.cfsRead cfg fuel path size offset fh
    pure r.1
  | .cfsWrite fuel buf offset fh => CacheFs.cfsWrite cfg fuel path buf offset fh
  | .cfsTruncate newsize => CacheFs.cfsTruncate cfg path newsize
  | .cfsFtruncate fh offset => CacheFs.cfsFtruncate fh offset
  | .cfsRename newpath => CacheFs.cfsRename cfg path newpath.text
  | .cfsUnlink => CacheFs.cfsUnlink cfg path

/-- The handle the callback works through. -/
def FileOp.handle? : FileOp → Option Nat
  | .cfsRead _ _ _ fh | .cfsWrite _ _ _ fh | .cfsFtruncate fh _ => some fh
  | .cfsTruncate _ | .cfsRename _ | .cfsUnlink => none

/-- The handle has no descriptor of the cache file at `x`. -/
def World.HandleSpares (w : World) (fh : Nat) (x : Path) : Prop :=
  ∃ h, w.handles fh = some h ∧ w.FdSpares h.nasFH x ∧ w.FdSpares h.cacheFH x

/-- The callback on `p` is not given the cache file of `n`: its handle and the link at its
    name are those of another file, and nothing is renamed to `n`. -/
def FileOp.Spares (cachedir : Path) (w : World) (p : FusePath) (n : FileName) : FileOp → Prop
  | .cfsRead _ _ _ fh | .cfsWrite _ _ _ fh | .cfsFtruncate fh _ =>
      w.HandleSpares fh (cfsFullCachePath cachedir n)
  | .cfsTruncate _ => w.PathSpares (p.cachePath cachedir) (cfsFullCachePath cachedir n)
  | .cfsRename newpath => cfsPathToFileName newpath.text ≠ n
  | .cfsUnlink => True

/-- What the cache holds under the name `n`, its rows and its file, is as it was. -/
structure Untouched (cachedir : Path) (n : FileName) (w w' : World) : Prop where
  rows : Db.SameRows n w.db w'.db
  file : Fs.Same w.cache w'.cache (cfsFullCachePath cachedir n)

/-- What holds from `w` on while a callback on another name runs. -/
structure LeftAlone (cachedir : Path) (n : FileName) (w s : World) : Prop where
  untouched : Untouched cachedir n w s
  wf : s.db.WF
  held : s.fds = w.fds ∧ s.handles = w.handles

/-- The call does not name the rows of `n` and reaches no file. -/
structure Call.Foreign (n : FileName) (op : Call) : Prop where
  rows : op.filename? ≠ some n
  files : op.onFiles = false
  held : op.reachesHandles = false

section Callbacks

variable {cfg : Config} {n m : FileName} {w s : World} {fuel fh : Nat} {h : DualFileHandle}

theorem LeftAlone.refl (hwf : w.db.WF) : LeftAlone cfg.cachedir n w w :=
  ⟨⟨.refl n _, .refl _ _⟩, hwf, rfl, rfl⟩

theorem LeftAlone.handle (hk : LeftAlone cfg.cachedir n w s) (c : Choice) {op : Call}
    (hrows : op.filename? ≠ some n) (hfile : op.Spares s (cfsFullCachePath cfg.cachedir n))
    (hheld : op.reachesHandles = false) : LeftAlone cfg.cachedir n w (handle c op s).2 := by
  obtain ⟨hfds, hhandles⟩ := handles_handle (c := c) (w := s) hheld
  exact ⟨⟨hk.untouched.rows.trans (sameRows_handle hk.wf hrows),
    hk.untouched.file.trans (sameFile_handle hfile)⟩, wf_handle hk.wf, hfds.trans hk.held.1,
    hhandles.trans hk.held.2⟩

/-- A call that names no row. -/
theorem LeftAlone.ask (hk : LeftAlone cfg.cachedir n w s) {op : Call} (hrows : op.filename? = none)
    (hfile : op.Spares s (cfsFullCachePath cfg.cachedir n)) (hheld : op.reachesHandles = false)
    {Q : op.Reply → World → Prop} (hQ : ∀ r s', LeftAlone cfg.cachedir n w s' → Q r s') :
    Prog.wp (env anyOutcome True) (CacheFs.ask op) Q s := by
  have hne : op.filename? ≠ some n := by
    rw [hrows]
    exact Option.some_ne_none n |>.symm
  simp only [CacheFs.ask, wp_call, Prog.wp_ret]
  exact fun c _ => hQ _ _ (hk.handle c hne hfile hheld)

theorem Call.Foreign.spares {op : Call} (h : op.Foreign n) (s : World) (x : Path) :
    op.Spares s x := by
  have hfiles := h.files
  have hheld := h.held
  cases op
  case creat => exact absurd hheld.symm Bool.false_ne_true
  all_goals first
    | exact absurd hfiles.symm Bool.false_ne_true
    | simp [Call.Spares, Call.side?]

theorem LeftAlone.only {α : Type} {p : CfsM α} (hk : LeftAlone cfg.cachedir n w s)
    (hp : Prog.Only (·.Foreign n) p) :
    Prog.wp (env anyOutcome True) p (fun _ s' => LeftAlone cfg.cachedir n w s') s :=
  Prog.wp_of_only (I := fun s' => LeftAlone cfg.cachedir n w s') hp trivial
    (fun c _ s' hop _ hk => ⟨trivial, hk.handle c hop.rows (hop.spares s' _) hop.held⟩) hk

/-- A descriptor of another file stays one of another file. -/
theorem LeftAlone.fdSpares (hk : LeftAlone cfg.cachedir n w s) {fd : Int}
    (hfd : w.FdSpares fd (cfsFullCachePath cfg.cachedir n)) :
    s.FdSpares fd (cfsFullCachePath cfg.cachedir n) := by
  intro f hf hside
  rw [hk.held.1] at hf
  rw [hk.untouched.file.lookup]
  exact hfd f hf hside

/-- A call that reads, or works on memory or on the counters. -/
theorem foreign_of_none {op : Call} (hrows : op.filename? = none) (hfiles : op.onFiles = false)
    (hheld : op.reachesHandles = false) : op.Foreign n :=
  ⟨by simp [hrows], hfiles, hheld⟩

/-- A statement that names another file. -/
theorem foreign_of_ne (hne : m ≠ n) {op : Call} (hrows : op.filename? = some m)
    (hfiles : op.onFiles = false) (hheld : op.reachesHandles = false) : op.Foreign n :=
  ⟨by simpa [hrows] using hne, hfiles, hheld⟩

theorem foreign_writeBlks (hne : m ≠ n) (blkArr : List Nat) :
    Prog.Only (·.Foreign n) (writeBlks m blkArr) :=
  only_writeBlks (fun _ => foreign_of_none rfl rfl rfl) (foreign_of_none rfl rfl rfl)
    (fun _ => foreign_of_ne hne rfl rfl rfl) (fun _ => foreign_of_ne hne rfl rfl rfl)
    (foreign_of_none rfl rfl rfl) (fun _ => foreign_of_ne hne rfl rfl rfl)
    fun _ => foreign_of_none rfl rfl rfl

theorem foreign_areBlocksInCache (m : FileName) (blkArr : List Nat) :
    Prog.Only (·.Foreign n) (areBlocksInCache m blkArr) :=
  only_areBlocksInCache (fun _ => foreign_of_none rfl rfl rfl) (foreign_of_none rfl rfl rfl)

theorem foreign_deleteFile (hne : m ≠ n) : Prog.Only (·.Foreign n) (deleteFile m) :=
  only_deleteFile (foreign_of_none rfl rfl rfl) (fun _ => foreign_of_none rfl rfl rfl)
    (foreign_of_none rfl rfl rfl) (foreign_of_ne hne rfl rfl rfl)

/-- `cfs_cacheWrite` records blocks of its own name and writes to its own descriptor. -/
theorem kept_cfsCacheWrite (hk : LeftAlone cfg.cachedir n w s) (hne : m ≠ n)
    (hh : w.handles fh = some h) (hfd : w.FdSpares h.cacheFH (cfsFullCachePath cfg.cachedir n))
    (buf : List UInt8) (size offset : Nat) :
    Prog.wp (env anyOutcome True) (cfsCacheWrite cfg fuel m buf size offset fh)
      (fun _ s' => LeftAlone cfg.cachedir n w s') s := by
  unfold cfsCacheWrite
  rw [Prog.wp_bind]
  refine wp_loadHandle ((congrFun hk.held.2 fh).trans hh) ?_
  rw [Prog.wp_bind]
  refine wp_evictionWait (fun _ => trivial) fun _ => ?_
  rw [Prog.wp_bind]
  refine Prog.wp_mono (hk.only (foreign_writeBlks hne _)) fun _ s₁ hk₁ => ?_
  rw [Prog.wp_bind]
  exact hk₁.ask rfl (by exact hk₁.fdSpares hfd) rfl fun _ _ hk₂ => hk₂

theorem kept_readBlock (hk : LeftAlone cfg.cachedir n w s) (hne : m ≠ n)
    (hh : w.handles fh = some h) (hfd : w.FdSpares h.cacheFH (cfsFullCachePath cfg.cachedir n))
    (lowerOffset : Nat) (acc : Int × List UInt8) (blockIndex : Nat) (hit : Int) :
    Prog.wp (env anyOutcome True) (readBlock cfg fuel m lowerOffset fh h acc blockIndex hit)
      (fun _ s' => LeftAlone cfg.cachedir n w s') s := by
  have hread : ∀ {fd k off}, (Call.pread fd k off).Spares s (cfsFullCachePath cfg.cachedir n) :=
    nofun
  unfold readBlock
  split
  · rw [Prog.wp_bind]
    exact hk.ask rfl hread rfl fun _ _ hk₁ => hk₁
  · rw [Prog.wp_bind]
    refine hk.ask rfl hread rfl fun r s₁ hk₁ => ?_
    rw [Prog.wp_bind]
    exact Prog.wp_mono (kept_cfsCacheWrite hk₁ hne hh hfd _ _ _) fun _ _ hk₂ => hk₂

theorem kept_cfsRead (hwf : w.db.WF) {path : Path} (hne : cfsPathToFileName path ≠ n)
    (hfh : w.HandleSpares fh (cfsFullCachePath cfg.cachedir n)) (size offset : Nat) :
    Prog.wp (env anyOutcome True) (cfsRead cfg fuel path size offset fh)
      (fun _ s' => LeftAlone cfg.cachedir n w s') w := by
  obtain ⟨h, hh, -, hfd⟩ := hfh
  have hk : LeftAlone cfg.cachedir n w w := .refl hwf
  unfold cfsRead
  rw [Prog.wp_bind]
  refine Prog.wp_mono (hk.only (foreign_areBlocksInCache _ _)) fun r s₁ hk₁ => ?_
  rw [Prog.wp_bind]
  refine wp_loadHandle ((congrFun hk₁.held.2 fh).trans hh) ?_
  rw [Prog.wp_bind]
  refine hk₁.ask rfl (by nofun) rfl fun cacheBuf s₂ hk₂ => ?_
  rw [Prog.wp_bind]
  refine Prog.wp_mono (Q := fun _ s₃ => LeftAlone cfg.cachedir n w s₃) ?_ fun acc s₃ hk₃ => ?_
  swap
  · rw [Prog.wp_bind]
    exact hk₃.only (only_copyOut (fun _ => foreign_of_none rfl rfl rfl) _ _ _)
  unfold readWindow
  split
  · rw [Prog.wp_bind]
    exact hk₂.ask rfl (by nofun) rfl fun _ _ hk₃ => hk₃
  · exact Prog.wp_foldlM (I := fun _ _ s' => LeftAlone cfg.cachedir n w s') hk₂
      fun _ e _ acc _ _ hk₃ => kept_readBlock hk₃ hne hh hfd _ acc e.1 e.2

theorem kept_cfsWrite (hwf : w.db.WF) {path : Path} (hne : cfsPathToFileName path ≠ n)
    (hfh : w.HandleSpares fh (cfsFullCachePath cfg.cachedir n)) (buf : List UInt8)
    (offset : Nat) :
    Prog.wp (env anyOutcome True) (cfsWrite cfg fuel path buf offset fh)
      (fun _ s' => LeftAlone cfg.cachedir n w s') w := by
  obtain ⟨h, hh, hnas, hcache⟩ := hfh
  have hk : LeftAlone cfg.cachedir n w w := .refl hwf
  unfold cfsWrite
  rw [Prog.wp_bind]
  refine wp_loadHandle hh ?_
  rw [Prog.wp_bind]
  refine hk.ask rfl (by exact hk.fdSpares hnas) rfl fun retstat s₁ hk₁ => ?_
  rw [Prog.wp_bind, cfsGetNASattr, Prog.wp_bind]
  refine hk₁.ask rfl (by nofun) rfl fun nasAttr s₂ hk₂ => ?_
  rw [Prog.wp_pure, Prog.wp_bind]
  refine hk₂.ask rfl (by nofun) rfl fun cacheBuf s₃ hk₃ => ?_
  rw [Prog.wp_bind]
  refine hk₃.ask rfl (by nofun) rfl fun r s₄ hk₄ => ?_
  rw [Prog.wp_bind]
  exact kept_cfsCacheWrite hk₄ hne hh hcache _ _ _

theorem kept_cfsTruncate (hwf : w.db.WF) {path : Path}
    (hpath : w.PathSpares (cfg.fullCachePath path) (cfsFullCachePath cfg.cachedir n))
    (newsize : Nat) :
    Prog.wp (env anyOutcome True) (cfsTruncate cfg path newsize)
      (fun _ s' => LeftAlone cfg.cachedir n w s') w := by
  unfold cfsTruncate
  rw [Prog.wp_bind]
  refine (LeftAlone.refl hwf).ask rfl (by exact hpath) rfl fun _ s₁ hk₁ => ?_
  rw [Prog.wp_bind]
  exact hk₁.ask rfl (by exact Side.some_nas_ne) rfl fun _ _ hk₂ => hk₂

theorem kept_cfsFtruncate (hwf : w.db.WF)
    (hfh : w.HandleSpares fh (cfsFullCachePath cfg.cachedir n)) (offset : Nat) :
    Prog.wp (env anyOutcome True) (cfsFtruncate fh offset)
      (fun _ s' => LeftAlone cfg.cachedir n w s') w := by
  obtain ⟨h, hh, hnas, hcache⟩ := hfh
  unfold cfsFtruncate
  rw [Prog.wp_bind]
  refine wp_loadHandle hh ?_
  rw [Prog.wp_bind]
  refine (LeftAlone.refl hwf).ask rfl (by exact hcache) rfl fun _ s₁ hk₁ => ?_
  rw [Prog.wp_bind]
  exact hk₁.ask rfl (by exact hk₁.fdSpares hnas) rfl fun _ _ hk₂ => hk₂

theorem kept_cfsUnlink (hwf : w.db.WF) {path : Path} (hne : cfsPathToFileName path ≠ n) :
    Prog.wp (env anyOutcome True) (cfsUnlink cfg path)
      (fun _ s' => LeftAlone cfg.cachedir n w s') w := by
  have hpath : cfsFullCachePath cfg.cachedir n ≠ cfg.fullCachePath path := fun heq =>
    hne (List.append_cancel_left heq).symm
  unfold cfsUnlink
  rw [Prog.wp_bind]
  have hk : LeftAlone cfg.cachedir n w w := .refl hwf
  refine Prog.wp_mono (hk.only (foreign_deleteFile hne)) fun _ s₁ hk₁ => ?_
  rw [Prog.wp_bind]
  refine hk₁.ask rfl (by exact hpath) rfl fun _ s₂ hk₂ => ?_
  rw [Prog.wp_bind]
  exact hk₂.ask rfl (by exact Side.some_nas_ne) rfl fun _ _ hk₃ => hk₃

/-- No cache name is below another, so a rename moves its two names and nothing else. -/
theorem kept_cfsRename (hwf : w.db.WF) {p newpath q : FusePath}
    (hp : cfsPathToFileName p.text ≠ cfsPathToFileName q.text)
    (hnew : cfsPathToFileName newpath.text ≠ cfsPathToFileName q.text) :
    Prog.wp (env anyOutcome True) (cfsRename cfg p.text newpath.text)
      (fun _ s' => LeftAlone cfg.cachedir (cfsPathToFileName q.text) w s') w := by
  have hout : ∀ r : FusePath, cfsPathToFileName r.text ≠ cfsPathToFileName q.text →
      ¬(cfsFullCachePath cfg.cachedir (cfsPathToFileName q.text) = cfg.fullCachePath r.text ∨
        under (cfg.fullCachePath r.text)
          (cfsFullCachePath cfg.cachedir (cfsPathToFileName q.text)) = true) := by
    rintro r hr (heq | hunder)
    · exact hr (List.append_cancel_left heq).symm
    · rw [Config.fullCachePath, cfsFullCachePath, cfsFullCachePath, Fs.under_append_left,
        FusePath.not_under_cacheName] at hunder
      exact absurd hunder Bool.false_ne_true
  unfold cfsRename
  rw [Prog.wp_bind]
  refine (LeftAlone.refl hwf).ask rfl (by exact ⟨hout p hp, hout newpath hnew⟩) rfl
    fun _ s₁ hk₁ => ?_
  rw [Prog.wp_bind]
  exact hk₁.ask rfl (by exact Side.some_nas_ne) rfl fun _ _ hk₂ => hk₂

/-- Whatever fails, a callback on another name that is not given the cache file of `q`
    leaves the rows and the cache file of `q` as they are. -/
theorem untouched {p q : FusePath} (hne : cfsPathToFileName p.text ≠ cfsPathToFileName q.text)
    (hwf : w.db.WF) {op : FileOp}
    (hop : op.Spares cfg.cachedir w p (cfsPathToFileName q.text)) {r : Int} {w' : World}
    (h : Prog.Exec (env anyOutcome True) (op.prog cfg p.text) w r w') :
    Untouched cfg.cachedir (cfsPathToFileName q.text) w w' := by
  suffices hwp : Prog.wp (env anyOutcome True) (op.prog cfg p.text)
      (fun _ s' => LeftAlone cfg.cachedir (cfsPathToFileName q.text) w s') w from
    (Prog.wp_exec hwp h).untouched
  cases op with
  | cfsRead fuel size offset fh =>
      rw [FileOp.prog, Prog.wp_bind]
      exact kept_cfsRead hwf hne hop size offset
  | cfsWrite fuel buf offset fh => exact kept_cfsWrite hwf hne hop buf offset
  | cfsTruncate newsize => exact kept_cfsTruncate hwf hop newsize
  | cfsFtruncate fh offset => exact kept_cfsFtruncate hwf hop offset
  | cfsRename newpath => exact kept_cfsRename hwf hne hop
  | cfsUnlink => exact kept_cfsUnlink hwf hne

end Callbacks

-- ============================================================================
-- Paths that are kept apart
-- ============================================================================

namespace FusePath

end FusePath

end CacheFs
