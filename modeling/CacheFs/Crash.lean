/-
  CacheFs.Crash

  What a daemon that is killed leaves behind.

  The database and the cache files survive the daemon; the counter and the handles do
  not, and the next mount reloads the counter from the column `local_size`.  A block
  that `cfs_read` stores takes three writes that no transaction encloses: the row, the
  size of the file, and last the bytes.  `Storing` is a ghost that follows them.  Where
  nothing is being stored the next mount finds every row with its bytes and the counter at
  the size of the rows (`Settled`); in between one of the two is missing.  `cfs_open`
  and `cfs_unlink` have no such point: they delete rows before files, and make a file
  without blocks.
-/

import CacheFs.Effect.Ghost
import CacheFs.Links
import CacheFs.Lookup

namespace CacheFs

open CacheFs.Effect
open CacheFs.Posix

-- ============================================================================
-- The size of the rows
-- ============================================================================

namespace Db

/-- Each `local_size` is that of the rows of its file, at `blkSize` bytes a row. -/
def Sized (db : Db) (blkSize : Nat) : Prop :=
  ∀ f ∈ db.files, f.localSize = db.blocksSize (fun _ => blkSize) f.fileId

variable {db db' : Db} {blkSize : Nat} {filename : FileName}

/-- Each row belongs to one file. -/
theorem WF.sum_blocksSize (h : db.WF) (size : Nat → Nat) :
    (db.files.map fun f => db.blocksSize size f.fileId).sum =
      (db.datablocks.map (size ·.blockId)).sum := by
  suffices hsub : ∀ bs : List BlockRow, (∀ b ∈ bs, ∃ f ∈ db.files, f.fileId = b.fileId) →
      (db.files.map fun f => (⟨db.files, bs⟩ : Db).blocksSize size f.fileId).sum =
        (bs.map (size ·.blockId)).sum from hsub db.datablocks h.foreignKey
  intro bs hbs
  induction bs with
  | nil => simp [blocksSize]
  | cons b bs ih =>
      have ih := ih fun b hb => hbs b (List.mem_cons_of_mem _ hb)
      obtain ⟨f, hf, hid⟩ := hbs b List.mem_cons_self
      -- the row counts for its file and for no other
      have hone := List.sum_map_eq_nsmul_single (l := db.files.map (·.fileId)) b.fileId
        (fun i => if b.fileId = i then size b.blockId else 0) fun i hne _ => if_neg hne.symm
      rw [List.count_eq_one_of_mem h.uniqueFileId (hid ▸ List.mem_map_of_mem hf), one_nsmul,
        if_pos rfl, List.map_map] at hone
      simp only [blocksSize, List.map_cons, List.sum_cons, List.sum_map_add] at ih ⊢
      rw [ih]
      exact congrArg (· + _) hone

/-- The column adds up to the size of all rows. -/
theorem WF.total_of_sized (h : db.WF) (hs : db.Sized blkSize) :
    db.total = (blkSize * db.datablocks.length : Nat) := by
  have hrows : (db.datablocks.map fun _ => blkSize).sum = blkSize * db.datablocks.length := by
    rw [List.map_const', List.sum_const_nat, Nat.mul_comm]
  rw [← hrows, ← h.sum_blocksSize fun _ => blkSize, Nat.cast_list_sum, List.map_map, total]
  exact congrArg List.sum (List.map_congr_left hs)

/-- A row without its size in the column. -/
theorem total_insertDatablock {blkOffset : Nat} {now : Int}
    (hi : db.insertDatablock blkOffset filename now = some db') :
    db'.total = db.total ∧ db'.datablocks.length = db.datablocks.length + 1 := by
  obtain ⟨f, -, -, -, rfl⟩ := insertDatablock_eq_some hi
  exact ⟨rfl, List.length_append⟩

namespace Sized

theorem insertFile (h : db.Sized blkSize) (hwf : db.WF) {remoteSize : Nat}
    (hi : db.insertFile filename remoteSize = some db') : db'.Sized blkSize := by
  obtain ⟨-, rfl⟩ := insertFile_eq_some hi
  intro f hf
  rcases List.mem_append.mp hf with hf | hf
  · exact h f hf
  · rw [List.mem_singleton.mp hf]
    exact congrArg Nat.cast (hwf.blocksSize_fresh fun _ => blkSize).symm

theorem deleteFile (h : db.Sized blkSize) (hwf : db.WF) (filename : FileName) :
    (db.deleteFile filename).Sized blkSize := by
  intro f hf
  obtain ⟨hf, hne⟩ := mem_files_deleteFile.mp hf
  rw [h f hf]
  exact congrArg Nat.cast (hwf.blocksSize_deleteFile _ hf hne).symm

/-- A row and its size. -/
theorem insertBlock (h : db.Sized blkSize) (hwf : db.WF) {blkOffset : Nat} {now : Int}
    (hi : db.insertDatablock blkOffset filename now = some db') :
    (db'.addLocalSize blkSize filename).Sized blkSize := by
  obtain ⟨f, hf, rfl, -, rfl⟩ := insertDatablock_eq_some hi
  intro g hg
  obtain ⟨g, hmem, rfl⟩ := mem_addLocalSize.mp hg
  have hrow := hwf.blocksSize_insertRow (fun _ => blkSize) hf hmem
    (b := ⟨freshId (db.datablocks.map (·.blockId)), blkOffset, now, f.fileId⟩) rfl
  rw [blocksSize_addLocalSize, hrow, Nat.cast_add, ← h g hmem]
  dsimp only
  split <;> simp

end Sized

end Db

-- ============================================================================
-- Before and after the kill
-- ============================================================================

/-- The sizes are those of the rows, and the rows belong to names of `P`. -/
structure InStep (cfg : Config) (P : Path → Prop) (w : World) : Prop where
  wf : w.db.WF
  blockSize : w.metadata.metaBlockSize = cfg.blockSize
  names : ∀ n, w.db.HasFile n → ∃ p, P p ∧ cfsPathToFileName p = n
  sized : w.db.Sized cfg.blockSize

/-- Besides, every row stands for a block that agrees with the NAS file of its name. -/
structure Settled (cfg : Config) (P : Path → Prop) (w : World) : Prop extends
    InStep cfg P w where
  bounded : w.cache.Bounded
  agree : Coherent cfg P w

/-- What a mount is to find: every row stands for a block that agrees with the NAS file
    of its name, and the counter is the size of the rows. -/
structure Consistent (cfg : Config) (P : Path → Prop) (w : World) : Prop where
  names : ∀ n, w.db.HasFile n → ∃ p, P p ∧ cfsPathToFileName p = n
  agree : Coherent cfg P w
  used : w.metadata.cacheUsedSize = cfg.blockSize * w.db.datablocks.length

/-- The next mount, with the same block size, finds it. -/
def Survives (cfg : Config) (P : Path → Prop) (w : World) : Prop :=
  Prog.wp (env natural False) (mount cfg.blockSize) (fun r w' => r = some () ∧ Consistent cfg P w')
    w.reboot

section Mount

variable {cfg : Config} {P : Path → Prop} {w w' : World}

theorem Coherent.congr (h : Coherent cfg P w) (hdb : w'.db = w.db) (hnas : w'.nas = w.nas)
    (hcache : w'.cache = w.cache) : Coherent cfg P w' := by
  intro p hp o ho
  rw [hdb] at ho
  rw [hnas, hcache]
  exact h p hp o ho

theorem coherent_congr (hdb : w'.db = w.db) (hnas : w'.nas = w.nas) (hcache : w'.cache = w.cache) :
    Coherent cfg P w' ↔ Coherent cfg P w :=
  ⟨fun h => h.congr hdb.symm hnas.symm hcache.symm, fun h => h.congr hdb hnas hcache⟩

/-- A mount has one outcome. -/
theorem wp_mount_iff {blkSize : Nat} {Q : Option Unit → World → Prop}
    (h0 : w.metadata.cacheUsedSize = 0) (hnonneg : 0 ≤ w.db.total) (hlt : w.db.total < 2 ^ 64) :
    Prog.wp (env natural False) (mount blkSize) Q w ↔ Q (some ()) { w with metadata :=
      { db := w.db, cacheUsedSize := w.db.total.toNat, metaBlockSize := blkSize } } := by
  refine ⟨fun h => ?_, wp_mount sqlSucceeds_natural h0 hnonneg hlt⟩
  have halong : Prog.Along (env natural False) (fun _ => {}) (mount blkSize) w :=
    Prog.along_of_allow (fun _ op s => (⟨rfl, rfl⟩ : natural {} op s)) _ _
  obtain ⟨r, w', hrun, hQ⟩ := Prog.wp_run not_false h halong
  obtain ⟨rfl, rfl⟩ := Prog.wp_exec (wp_mount (Q := fun r w' => r = some () ∧ w' = _)
    sqlSucceeds_natural h0 hnonneg hlt ⟨rfl, rfl⟩) (Prog.exec_of_run halong hrun)
  exact hQ

theorem survives_iff (hnonneg : 0 ≤ w.db.total) (hlt : w.db.total < 2 ^ 63) :
    Survives cfg P w ↔ (∀ n, w.db.HasFile n → ∃ p, P p ∧ cfsPathToFileName p = n) ∧
      Coherent cfg P w ∧ w.db.total = (cfg.blockSize * w.db.datablocks.length : Nat) := by
  have hmount : Survives cfg P w ↔ some () = some () ∧ Consistent cfg P { w.reboot with metadata :=
      { db := w.reboot.db, cacheUsedSize := w.reboot.db.total.toNat,
        metaBlockSize := cfg.blockSize } } := by
    refine wp_mount_iff rfl hnonneg ?_
    have : w.reboot.db.total = w.db.total := rfl
    omega
  rw [hmount]
  constructor
  · rintro ⟨-, hnames, hagree, hused⟩
    refine ⟨hnames, hagree.congr rfl rfl rfl, ?_⟩
    have hused : w.db.total.toNat = cfg.blockSize * w.db.datablocks.length := hused
    omega
  · rintro ⟨hnames, hagree, htotal⟩
    refine ⟨rfl, hnames, hagree.congr rfl rfl rfl, ?_⟩
    have hused : w.db.total.toNat = cfg.blockSize * w.db.datablocks.length := by omega
    exact hused

theorem InStep.survives_iff (h : InStep cfg P w) (hlt : w.db.total < 2 ^ 63) :
    Survives cfg P w ↔ Coherent cfg P w := by
  have htotal := h.wf.total_of_sized h.sized
  rw [CacheFs.survives_iff (by omega) hlt]
  exact ⟨fun hs => hs.2.1, fun hagree => ⟨h.names, hagree, htotal⟩⟩

end Mount

-- ============================================================================
-- How far the storing of a block has got
-- ============================================================================

/-- The last row that has been inserted, until its bytes have been written. -/
inductive Storing where
  | none
  /-- The row is there. -/
  | inserted (blkOffset : Nat)
  /-- The row is there, and the size of the file includes it. -/
  | counted (blkOffset : Nat)
deriving DecidableEq

def Storing.next (g : Storing) (e : CfsEvent) : Storing :=
  match e.op with
  | .insertDatablock blkOffset filename =>
      if e.choice.err = Option.none ∧
        (e.before.db.insertDatablock blkOffset filename e.choice.now).isSome
      then .inserted blkOffset else g
  | .addLocalSize _ _ =>
      match g with
      | .inserted blkOffset => .counted blkOffset
      | g => g
  | .pwrite _ _ _ => .none
  | _ => g

/-- What is being stored after the calls `tr`. -/
def storing (tr : List CfsEvent) : Storing := tr.foldl Storing.next .none

/-- A kill does no harm when nothing is being stored, or only the bytes of a block are and
    the cache file, left over from before, agrees with the NAS file there. -/
def Storing.Harmless (cfg : Config) (path : Path) (w : World) : Storing → Prop
  | .none => True
  | .inserted _ => False
  | .counted o => Agree o (o + cfg.blockSize) (w.cache.content (cfg.fullCachePath path))
      (w.nas.content (cfg.fullNasPath path))

/-- What a request on `path` that was called in `w` has reached. -/
def Reached (cfg : Config) (P : Path → Prop) (path : Path) (w w' : World) : Storing → Prop
  | .none => Settled cfg P w'
  | .inserted _ => 0 ≤ w'.db.total ∧
      w'.db.total ≠ (cfg.blockSize * w'.db.datablocks.length : Nat)
  | .counted o => InStep cfg P w' ∧
      (Coherent cfg P w' ↔ (Storing.counted o).Harmless cfg path w)

/-- The environment of such a request. -/
def killEnv (cfg : Config) (P : Path → Prop) (path : Path) (w : World)
    (A : Choice → Call → World → Prop) : Env Call Call.Reply (World × Storing) Choice :=
  (env A True).ghost Storing.next (Reached cfg P path w)

/-- The calls that leave the tables and the files of both sides as they are. -/
def Call.silent : Call → Bool
  | .selectLocalSize _ | .selectFileId _ | .selectBlockId _ _ | .stepSelect | .sumLocalSize
  | .getCacheUsedSize | .addCacheUsedSize _ | .setCacheUsedSize _ | .getMetaBlockSize
  | .malloc _ | .strayRead _ | .mallocHandle _ | .loadHandle _ | .freeHandle _
  | .openFile _ _ _ | .close _ | .pread _ _ _ | .lstat _ _ => true
  | _ => false

/-- Such a call. -/
structure Same (w w' : World) : Prop where
  nas : w'.nas = w.nas
  cache : w'.cache = w.cache
  db : w'.db = w.db
  blockSize : w'.metadata.metaBlockSize = w.metadata.metaBlockSize

section Kill

variable {cfg : Config} {P : Path → Prop} {path : Path} {w w₁ w₂ : World} {g : Storing}
  {A : Choice → Call → World → Prop} {c : Choice} {op : Call} {α : Type}

theorem same_handle (h : op.silent = true) : Same w₁ (handle c op w₁).2 := by
  cases op
  case openFile side p flags =>
    simp only [handle, World.openFile]
    split
    · exact ⟨rfl, rfl, rfl, rfl⟩
    · exact ⟨rfl, rfl, rfl, rfl⟩
    · split
      · exact ⟨rfl, rfl, rfl, rfl⟩
      · split <;> exact ⟨rfl, rfl, rfl, rfl⟩
  case close fd =>
    simp only [handle, World.close]
    split <;> exact ⟨rfl, rfl, rfl, rfl⟩
  all_goals first | exact ⟨rfl, rfl, rfl, rfl⟩ | cases h

theorem Storing.next_silent (h : op.silent = true) : g.next ⟨op, c, w₁⟩ = g := by
  cases op <;> first | rfl | exact nomatch h

theorem InStep.congr (h : InStep cfg P w₁) (hs : Same w₁ w₂) : InStep cfg P w₂ := by
  refine ⟨?_, hs.blockSize.trans h.blockSize, ?_, ?_⟩ <;> rw [hs.db]
  · exact h.wf
  · exact h.names
  · exact h.sized

theorem Settled.congr (h : Settled cfg P w₁) (hs : Same w₁ w₂) : Settled cfg P w₂ where
  toInStep := h.toInStep.congr hs
  bounded := by
    rw [hs.cache]
    exact h.bounded
  agree := h.agree.congr hs.db hs.nas hs.cache

theorem Reached.congr (h : Reached cfg P path w w₁ g) (hs : Same w₁ w₂) :
    Reached cfg P path w w₂ g := by
  cases g with
  | none => exact Settled.congr h hs
  | inserted o =>
      rw [Reached, hs.db]
      exact h
  | counted o =>
      exact ⟨h.1.congr hs, (coherent_congr hs.db hs.nas hs.cache).trans h.2⟩

/-- The rule for one call. -/
theorem wp_kill_call {Q : op.Reply → World × Storing → Prop}
    (h : ∀ c, A c op w₁ → Reached cfg P path w (handle c op w₁).2 (g.next ⟨op, c, w₁⟩) ∧
      Q (handle c op w₁).1 ((handle c op w₁).2, g.next ⟨op, c, w₁⟩)) :
    Prog.wp (killEnv cfg P path w A) (ask op) Q (w₁, g) := h

/-- Silent calls change nothing of this; what they return is known from elsewhere. -/
theorem wp_kill_silent {p : CfsM α} {Q : α → World × Storing → Prop}
    (hp : Prog.Only (·.silent = true) p) (h : Reached cfg P path w w₁ g)
    (hwp : Prog.wp (env A True) p (fun a w₂ => Reached cfg P path w w₂ g → Q a (w₂, g)) w₁) :
    Prog.wp (killEnv cfg P path w A) p Q (w₁, g) :=
  Prog.wp_ghost_silent hp h
    (fun _ _ _ hop _ h => ⟨Storing.next_silent hop, h.congr (same_handle hop)⟩) hwp

end Kill

-- ============================================================================
-- Opening and unlinking
-- ============================================================================

/-- The calls of `cfs_open` and `cfs_unlink` other than `unlink`. -/
def Call.upkeep (path : Path) : Call → Bool
  | .insertFile filename _ | .deleteFile filename => filename = cfsPathToFileName path
  | .creat .cache _ _ | .mknod .cache _ _ _ => true
  | op => op.silent

theorem Fs.content_mkNode {fs fs' : Fs} {p : Path} {kind : Kind} {mode : Nat} {now : Int}
    (hb : fs.Bounded) (h : fs.mkNode p kind mode now = .ok fs') (x : Path) :
    fs'.content x = fs.content x := by
  by_cases hx : x = p
  · -- there was no such file, and now there is an empty one
    have hnone := (Fs.mkNode_eq_ok h).1
    have hnew := Fs.lookup_mkNode h x
    rw [if_pos hx] at hnew
    rw [Fs.content_of_lookup hnew, Fs.inode_mkNode h, if_pos rfl, hx, Fs.content_of_none hnone]
  · refine Fs.content_congr (by rw [Fs.lookup_mkNode h, if_neg hx]) fun i hi => ?_
    rw [Fs.inode_mkNode h, if_neg (Nat.ne_of_lt (hb x i hi))]

section Upkeep

variable {cfg : Config} {P : Path → Prop} {path : Path} {w w₁ w₂ : World}
  {A : Choice → Call → World → Prop} {c : Choice} {op : Call} {α : Type}

namespace Settled

theorem sql (h : Settled cfg P w₁) {r : Option Db}
    (hr : ∀ db, r = some db → Settled cfg P { w₁ with metadata := { w₁.metadata with db } }) :
    Settled cfg P (w₁.sql c r).2 := by
  unfold World.sql
  split
  · exact hr _ rfl
  · exact h

theorem insertFile (h : Settled cfg P w₁) (hpath : P path) {remoteSize : Nat} {db : Db}
    (hi : w₁.db.insertFile (cfsPathToFileName path) remoteSize = some db) :
    Settled cfg P { w₁ with metadata := { w₁.metadata with db } } where
  wf := h.wf.insertFile hi
  blockSize := h.blockSize
  names n hn := by
    rcases (Db.hasFile_insertFile hi n).mp hn with hn | rfl
    · exact h.names n hn
    · exact ⟨path, hpath, rfl⟩
  sized := h.sized.insertFile h.wf hi
  bounded := h.bounded
  agree p hp o ho := h.agree p hp o ((h.wf.recorded_insertFile hi _ _).mp ho)

theorem deleteFile (h : Settled cfg P w₁) (filename : FileName) :
    Settled cfg P { w₁ with metadata := { w₁.metadata with
      db := w₁.db.deleteFile filename } } where
  wf := h.wf.deleteFile
  blockSize := h.blockSize
  names n hn := h.names n ((Db.hasFile_deleteFile n).mp hn).1
  sized := h.sized.deleteFile h.wf filename
  bounded := h.bounded
  agree p hp o ho := h.agree p hp o ((h.wf.recorded_deleteFile _ _).mp ho).1

/-- A new file has no bytes that an old one did not have. -/
theorem mkNode (h : Settled cfg P w₁) {fs : Fs} {p : Path} {kind : Kind} {mode : Nat} {now : Int}
    (hfs : w₁.cache.mkNode p kind mode now = .ok fs) : Settled cfg P { w₁ with cache := fs } where
  toInStep := ⟨h.wf, h.blockSize, h.names, h.sized⟩
  bounded := h.bounded.mkNode hfs
  agree q hq o ho := by
    have hagree := h.agree q hq o ho
    rw [← Fs.content_mkNode h.bounded hfs] at hagree
    exact hagree

/-- The files of a name without a row do not matter. -/
theorem without (h : Settled cfg P w₁) (hno : ¬ w₁.db.HasFile (cfsPathToFileName path))
    {nas cache : Fs} (hbounded : cache.Bounded)
    (hnas : ∀ q, P q → q ≠ path →
      nas.content (cfg.fullNasPath q) = w₁.nas.content (cfg.fullNasPath q))
    (hcache : ∀ q, P q → q ≠ path →
      cache.content (cfg.fullCachePath q) = w₁.cache.content (cfg.fullCachePath q)) :
    Settled cfg P { w₁ with nas, cache } where
  toInStep := ⟨h.wf, h.blockSize, h.names, h.sized⟩
  bounded := hbounded
  agree q hq o ho := by
    have hne : q ≠ path := by
      rintro rfl
      exact hno (Db.Recorded.hasFile ho)
    have hagree := h.agree q hq o ho
    rw [← hnas q hq hne, ← hcache q hq hne] at hagree
    exact hagree

/-- What the calls other than `unlink` keep. -/
theorem upkeep (h : Settled cfg P w₁) (hpath : P path) (hop : op.upkeep path = true) :
    Settled cfg P (handle c op w₁).2 ∧ Storing.none.next ⟨op, c, w₁⟩ = .none := by
  by_cases hs : op.silent = true
  · exact ⟨h.congr (same_handle hs), Storing.next_silent hs⟩
  cases op
  case insertFile filename remoteSize =>
    obtain rfl : filename = cfsPathToFileName path := of_decide_eq_true hop
    exact ⟨h.sql fun db hi => h.insertFile hpath hi, rfl⟩
  case deleteFile filename =>
    refine ⟨h.sql fun db hi => ?_, rfl⟩
    rw [← Option.some.inj hi]
    exact h.deleteFile filename
  case creat side p mode =>
    cases side
    case nas => exact absurd hop hs
    refine ⟨?_, rfl⟩
    simp only [handle, World.creat]
    split
    · exact h
    · exact h
    · next fs _ hfs => exact (h.mkNode hfs).congr ⟨rfl, rfl, rfl, rfl⟩
  case mknod side p kind mode =>
    cases side
    case nas => exact absurd hop hs
    refine ⟨?_, rfl⟩
    simp only [handle, World.mknod]
    split
    · exact h
    · exact h
    · unfold World.nameCall
      split
      · exact h
      · exact h
      · next fs _ hfs => exact h.mkNode hfs
  all_goals exact absurd hop hs

end Settled

theorem Fs.content_dropName {fs : Fs} {p x : Path} (hx : x ≠ p) :
    (fs.dropName p).content x = fs.content x :=
  Fs.content_congr (by rw [Fs.lookup_dropName, if_neg hx]) fun _ _ => rfl

/-- The rule for a part without `unlink`. -/
theorem wp_kill_upkeep {p : CfsM α} (hp : Prog.Only (·.upkeep path = true) p) (hpath : P path)
    (h : Settled cfg P w₁) {Q : α → World × Storing → Prop}
    (hQ : ∀ a w₂, Settled cfg P w₂ → Q a (w₂, .none)) :
    Prog.wp (killEnv cfg P path w A) p Q (w₁, .none) := by
  refine Prog.wp_mono (Prog.wp_of_only (I := fun x => x.2 = .none ∧ Settled cfg P x.1) hp trivial
    ?_ ⟨rfl, h⟩) ?_
  · rintro c op ⟨w₂, g⟩ hop - ⟨rfl, h⟩
    obtain ⟨hsettled, hnext⟩ := h.upkeep (c := c) hpath hop
    change Reached cfg P path w (handle c op w₂).2 (Storing.none.next ⟨op, c, w₂⟩) ∧
      Storing.none.next ⟨op, c, w₂⟩ = .none ∧ Settled cfg P (handle c op w₂).2
    rw [hnext]
    exact ⟨hsettled, rfl, hsettled⟩
  · rintro a ⟨w₂, g⟩ ⟨rfl, h⟩
    exact hQ a w₂ h

/-- `delete_file` leaves no row. -/
theorem wp_kill_deleteFile (hA : SqlSucceeds A) (hpath : P path) (h : Settled cfg P w₁)
    {Q : Int → World × Storing → Prop}
    (hQ : ∀ w₂, Settled cfg P w₂ → ¬ w₂.db.HasFile (cfsPathToFileName path) → Q 0 (w₂, .none)) :
    Prog.wp (killEnv cfg P path w A) (deleteFile (cfsPathToFileName path)) Q (w₁, .none) := by
  have honly : Prog.Only (·.upkeep path = true) (deleteFile (cfsPathToFileName path)) :=
    only_deleteFile rfl (fun _ => rfl) rfl (decide_eq_true rfl)
  refine Prog.wp_ghost_silent honly h (fun c op w₂ hop _ hs => ?_) (wp_deleteFile hA fun hs => ?_)
  · obtain ⟨hsettled, hnext⟩ := hs.upkeep (c := c) hpath hop
    exact ⟨hnext, hsettled⟩
  · refine hQ _ hs fun hf => ?_
    exact ((Db.hasFile_deleteFile _).mp hf).2 rfl

/-- After that the cache file and the NAS file may go. -/
theorem wp_kill_unlink_cache (hP : InUse P) (hpath : P path) (h : Settled cfg P w₁)
    (hno : ¬ w₁.db.HasFile (cfsPathToFileName path)) {Q : SysRet Int → World × Storing → Prop}
    (hQ : ∀ r w₂, Settled cfg P w₂ → ¬ w₂.db.HasFile (cfsPathToFileName path) → Q r (w₂, .none)) :
    Prog.wp (killEnv cfg P path w A) (ask (.unlink .cache (cfg.fullCachePath path))) Q
      (w₁, .none) := by
  refine wp_kill_call fun c _ => ?_
  have hsettled : Settled cfg P (handle c (.unlink .cache (cfg.fullCachePath path)) w₁).2 ∧
      ¬ (handle c (.unlink .cache (cfg.fullCachePath path)) w₁).2.db.HasFile
        (cfsPathToFileName path) := by
    simp only [handle, World.nameCall]
    split
    · exact ⟨h, hno⟩
    · exact ⟨h, hno⟩
    · next fs _ hfs =>
        obtain rfl := Fs.unlink_eq_ok hfs
        refine ⟨h.without hno (h.bounded.dropName _) (fun _ _ _ => rfl) fun q hq hne => ?_, hno⟩
        exact Fs.content_dropName (hP.cachePath_ne hq hpath hne)
  exact ⟨hsettled.1, hQ _ _ hsettled.1 hsettled.2⟩

theorem wp_kill_unlink_nas (h : Settled cfg P w₁)
    (hno : ¬ w₁.db.HasFile (cfsPathToFileName path)) {Q : SysRet Int → World × Storing → Prop}
    (hQ : ∀ r w₂, Settled cfg P w₂ → Q r (w₂, .none)) :
    Prog.wp (killEnv cfg P path w A) (ask (.unlink .nas (cfg.fullNasPath path))) Q (w₁, .none) := by
  refine wp_kill_call fun c _ => ?_
  have hsettled : Settled cfg P (handle c (.unlink .nas (cfg.fullNasPath path)) w₁).2 := by
    simp only [handle, World.nameCall]
    split
    · exact h
    · exact h
    · next fs _ hfs =>
        obtain rfl := Fs.unlink_eq_ok hfs
        refine h.without hno h.bounded (fun q _ hne => ?_) fun _ _ _ => rfl
        exact Fs.content_dropName (mt cfg.fullNasPath_inj.mp hne)
  exact ⟨hsettled, hQ _ _ hsettled⟩

/-- No point of `cfs_unlink` is harmful. -/
theorem wp_kill_cfsUnlink (hA : SqlSucceeds A) (hP : InUse P) (hpath : P path)
    (h : Settled cfg P w₁) :
    Prog.wp (killEnv cfg P path w A) (cfsUnlink cfg path) (fun _ _ => True) (w₁, .none) := by
  unfold cfsUnlink
  rw [Prog.wp_bind]
  refine wp_kill_deleteFile hA hpath h fun w₂ h₂ hno => ?_
  rw [Prog.wp_bind]
  refine wp_kill_unlink_cache hP hpath h₂ hno fun _ w₃ h₃ hno => ?_
  rw [Prog.wp_bind]
  exact wp_kill_unlink_nas h₃ hno fun _ _ _ => trivial

theorem wp_kill_dropCached (hA : SqlSucceeds A) (hP : InUse P) (hpath : P path)
    (h : Settled cfg P w₁) {Q : Unit → World × Storing → Prop}
    (hQ : ∀ w₂, Settled cfg P w₂ → Q () (w₂, .none)) :
    Prog.wp (killEnv cfg P path w A) (dropCached cfg path) Q (w₁, .none) := by
  unfold dropCached
  rw [Prog.wp_bind]
  refine wp_kill_deleteFile hA hpath h fun w₂ h₂ hno => ?_
  rw [Prog.wp_bind]
  exact wp_kill_unlink_cache hP hpath h₂ hno fun _ w₃ h₃ _ => hQ w₃ h₃

theorem wp_kill_checkUpToDate (hA : SqlSucceeds A) (hP : InUse P) (hpath : P path)
    (h : Settled cfg P w₁) {st : Stat} {present : Bool} {Q : Bool → World × Storing → Prop}
    (hQ : ∀ b w₂, Settled cfg P w₂ → Q b (w₂, .none)) :
    Prog.wp (killEnv cfg P path w A) (checkUpToDate cfg path st present) Q (w₁, .none) := by
  unfold checkUpToDate cfsGetCacheattr
  rw [Prog.wp_ite]
  split
  · rw [Prog.wp_bind, Prog.wp_bind]
    refine wp_kill_upkeep (only_ask rfl) hpath h fun r w₂ h₂ => ?_
    rw [Prog.wp_pure, Prog.wp_ite]
    split
    · rw [Prog.wp_bind]
      exact wp_kill_dropCached hA hP hpath h₂ fun w₃ h₃ => hQ false w₃ h₃
    · exact hQ true w₂ h₂
  · exact hQ false w₁ h

/-- Nor is one of `cfs_open`. -/
theorem wp_kill_cfsOpen (hA : SqlSucceeds A) (hP : InUse P) (hpath : P path)
    (h : Settled cfg P w₁) {flags : Nat} :
    Prog.wp (killEnv cfg P path w A) (cfsOpen cfg path flags) (fun _ _ => True) (w₁, .none) := by
  unfold cfsOpen
  rw [Prog.wp_bind]
  refine wp_kill_upkeep (only_ask rfl) hpath h fun r w₂ h₂ => ?_
  have hlook : Prog.Only (·.upkeep path = true) (isFileInCache (cfsPathToFileName path)) :=
    only_lookupRow (only_ask rfl) rfl
  rw [Prog.wp_bind]
  refine wp_kill_upkeep hlook hpath h₂ fun present w₃ h₃ => ?_
  rw [Prog.wp_ite]
  split
  · rw [Prog.wp_ite]
    split
    · rw [Prog.wp_bind]
      exact wp_kill_dropCached hA hP hpath h₃ fun _ _ => trivial
    · trivial
  · unfold cfsGetNASattr
    rw [Prog.wp_bind, Prog.wp_bind]
    refine wp_kill_upkeep (only_ask rfl) hpath h₃ fun st w₄ h₄ => ?_
    rw [Prog.wp_pure, Prog.wp_bind]
    refine wp_kill_checkUpToDate hA hP hpath h₄ fun b w₅ h₅ => ?_
    have hensure : ∀ b, Prog.Only (·.upkeep path = true) (ensureCached cfg path st.2 b) :=
      only_ensureCached (decide_eq_true rfl) rfl rfl fun _ => rfl
    have hopen : ∀ nasFH, Prog.Only (·.upkeep path = true) (openHandle cfg path nasFH) :=
      only_openHandle rfl fun _ => rfl
    exact wp_kill_upkeep (Prog.only_bind (hensure b) fun _ => hopen _) hpath h₅ fun _ _ _ => trivial

end Upkeep

-- ============================================================================
-- Reading
-- ============================================================================

/-- A handle of the file `path` names; the names of its cache file are names of its NAS
    file. -/
structure Sole (cfg : Config) (P : Path → Prop) (w : World) (path : Path) (fh : Nat)
    (ni ci : Ino) : Prop extends Current cfg w path fh ni ci where
  sole : ∀ q, P q → w.cache.lookup (cfg.fullCachePath q) = some ci →
    w.nas.lookup (cfg.fullNasPath q) = some ni

section Reading

variable {cfg : Config} {P : Path → Prop} {path : Path} {w w₁ : World} {fh fuel o : Nat}
  {ni ci : Ino} {A : Choice → Call → World → Prop} {m : MetaState} {bytes : List UInt8}

theorem Sole.fills (h : Sole cfg P w path fh ni ci) {window : List Nat}
    (hf : Fills cfg A (cfsPathToFileName path) ni ci window w w₁) :
    Sole cfg P w₁ path fh ni ci where
  opened := h.opened.congr (Fills.handles hf) (Fills.fds hf)
  nas := by
    rw [Fills.nas hf]
    exact h.nas
  cache := by
    rw [Fills.lookup hf]
    exact h.cache
  sole q hq hci := by
    rw [Fills.lookup hf] at hci
    rw [Fills.nas hf]
    exact h.sole q hq hci

/-- A new row, with its size, is the one thing that may disagree. -/
theorem Settled.coherent_iff (h : Settled cfg P w₁) (hP : InUse P) (hpath : P path)
    (hmod : o % cfg.blockSize = 0) (hfile : w₁.db.HasFile (cfsPathToFileName path))
    (hm : WriteBlksPost w₁.metadata (cfsPathToFileName path) [o] m) :
    Coherent cfg P { w₁ with metadata := m } ↔
      Agree o (o + cfg.blockSize) (w₁.cache.content (cfg.fullCachePath path))
        (w₁.nas.content (cfg.fullNasPath path)) := by
  constructor
  · intro hc
    exact (hc path hpath o ((hm.recorded _ _).mpr
      (Or.inr ⟨rfl, hfile, List.mem_singleton_self o⟩))).2
  · intro hag q hq o' ho'
    rcases (hm.recorded _ _).mp ho' with hold | ⟨hn, -, hin⟩
    · exact h.agree q hq o' hold
    · rw [hP.names q path hq hpath hn, List.mem_singleton.mp hin]
      exact ⟨hmod, hag⟩

/-- The table with a new row and its size is in step. -/
theorem Settled.grown (h : Settled cfg P w₁) {now : Int} {db : Db}
    (hi : w₁.db.insertDatablock o (cfsPathToFileName path) now = some db) :
    InStep cfg P { w₁ with metadata := w₁.metadata.grow db (cfsPathToFileName path) } where
  wf := (h.wf.insertDatablock hi).addLocalSize
  blockSize := h.blockSize
  names n hn := h.names n ((Db.hasFile_insertDatablock hi n).mp ((Db.hasFile_addLocalSize n).mp hn))
  sized := by
    have hsized := h.sized.insertBlock h.wf hi
    rw [← h.blockSize] at hsized ⊢
    exact hsized

/-- The bytes of a block are stored: everything agrees again. -/
theorem Settled.store (h : Settled cfg P w₁) (hP : InUse P) (hpath : P path)
    (hsole : Sole cfg P w₁ path fh ni ci) (hmod : o % cfg.blockSize = 0)
    (hstep : InStep cfg P { w₁ with metadata := m }) {now : Int}
    (hf : Fill cfg A (cfsPathToFileName path) ni ci [o] w₁ (w₁.store m ci bytes o now)) :
    Settled cfg P (w₁.store m ci bytes o now) where
  toInStep := ⟨hstep.wf, hstep.blockSize, hstep.names, hstep.sized⟩
  bounded x i hi := by
    rw [World.store, Fs.lookup_pwrite] at hi
    rw [World.store, Fs.nextIno_pwrite]
    exact h.bounded x i hi
  agree := h.agree.fill hP hpath hsole.nas hsole.cache hsole.sole
    (fun _ ho => List.mem_singleton.mp ho ▸ hmod) hf

/-- `insert_block`: the row is refused, or it is there with its size and its bytes are due. -/
theorem wp_kill_insertBlock (hA : SqlSucceeds A) (hbs : 0 < cfg.blockSize) (hP : InUse P)
    (hpath : P path) (h : Settled cfg P w₁) (hmod : o % cfg.blockSize = 0)
    (hnew : ¬ w₁.db.Recorded (cfsPathToFileName path) o)
    (hold : Agree o (o + cfg.blockSize) (w₁.cache.content (cfg.fullCachePath path))
      (w₁.nas.content (cfg.fullNasPath path)) ↔ (Storing.counted o).Harmless cfg path w)
    {Q : Int → World × Storing → Prop}
    (hQ : ∀ r m g, WriteBlksPost w₁.metadata (cfsPathToFileName path) [o] m →
      InStep cfg P { w₁ with metadata := m } → Q r ({ w₁ with metadata := m }, g)) :
    Prog.wp (killEnv cfg P path w A) (insertBlock (cfsPathToFileName path) o) Q (w₁, .none) := by
  have hunsel : w₁.db.selectBlockId o (cfsPathToFileName path) = false :=
    h.wf.selectBlockId_eq_false_iff.mpr hnew
  unfold insertBlock
  rw [Prog.wp_bind]
  refine wp_kill_call fun c hc => ?_
  have herr := hA _ _ _ hc rfl
  cases hi : w₁.db.insertDatablock o (cfsPathToFileName path) c.now with
  | none =>
      simp only [handle, hi, World.sql_none, Storing.next, Option.isSome_none, Bool.false_eq_true,
        and_false, if_false, tests_error]
      refine ⟨h, hQ _ w₁.metadata _ ?_ h.toInStep⟩
      exact (WriteBlksPost.refl _ _).refuse h.wf hunsel (Db.insertDatablock_none_at hi 0)
  | some db =>
      have hpost := (WriteBlksPost.refl w₁.metadata (cfsPathToFileName path)).insert h.wf hunsel hi
      simp only [handle, hi, World.sql_some herr, Storing.next, Option.isSome_some, herr, and_self,
        if_true, tests_done]
      have hfile : w₁.db.HasFile (cfsPathToFileName path) := by
        obtain ⟨f, hf, hp, -⟩ := Db.insertDatablock_eq_some hi
        exact ⟨f, hf, hp⟩
      have hcounted : Reached cfg P path w
          { w₁ with metadata := w₁.metadata.grow db (cfsPathToFileName path) } (.counted o) :=
        ⟨h.grown hi, (h.coherent_iff hP hpath hmod hfile hpost).trans hold⟩
      have hinserted : Reached cfg P path w
          { w₁ with metadata := { w₁.metadata with db := db } } (.inserted o) := by
        obtain ⟨htotal, hlen⟩ := Db.total_insertDatablock hi
        have hsum := h.wf.total_of_sized h.sized
        have hmul : cfg.blockSize * (w₁.db.datablocks.length + 1) =
            cfg.blockSize * w₁.db.datablocks.length + cfg.blockSize := Nat.mul_succ _ _
        change 0 ≤ db.total ∧ db.total ≠ (cfg.blockSize * db.datablocks.length : Nat)
        rw [htotal, hlen, hsum, hmul]
        omega
      refine ⟨hinserted, ?_⟩
      rw [Prog.wp_bind]
      refine wp_kill_call fun c₁ _ => ⟨hinserted, ?_⟩
      rw [Prog.wp_bind]
      refine wp_kill_call fun c₂ hc₂ => ?_
      simp only [handle, World.sql_some (hA _ _ _ hc₂ rfl), Storing.next, tests_done]
      refine ⟨hcounted.congr ⟨rfl, rfl, rfl, rfl⟩, ?_⟩
      rw [Prog.wp_bind]
      refine wp_kill_call fun c₃ _ => ⟨hcounted.congr ⟨rfl, rfl, rfl, rfl⟩, ?_⟩
      rw [Prog.wp_bind]
      refine wp_kill_call fun c₄ _ => ⟨hcounted.congr ⟨rfl, rfl, rfl, rfl⟩, ?_⟩
      exact hQ _ _ _ hpost (h.grown hi)

/-- `cfs_cacheWrite` of a block that is not recorded, with the bytes of the NAS file. -/
theorem wp_kill_cfsCacheWrite (hA : AllSucceed A) (hbs : 0 < cfg.blockSize) (hP : InUse P)
    (hpath : P path) (h : Settled cfg P w₁) (hsole : Sole cfg P w₁ path fh ni ci)
    (hmod : o % cfg.blockSize = 0) (hnew : ¬ w₁.db.Recorded (cfsPathToFileName path) o)
    (hold : Agree o (o + cfg.blockSize) (w₁.cache.content (cfg.fullCachePath path))
      (w₁.nas.content (cfg.fullNasPath path)) ↔ (Storing.counted o).Harmless cfg path w)
    (hlen : bytes.length = cfg.blockSize)
    (hbytes : ∀ j < bytes.length, o + j < (w₁.nas.inode ni).data.length →
      bytes[j]? = (w₁.nas.inode ni).data[o + j]?)
    {Q : Int → World × Storing → Prop}
    (hQ : ∀ r w₂, Fill cfg A (cfsPathToFileName path) ni ci [o] w₁ w₂ → Settled cfg P w₂ →
      Q r (w₂, .none)) :
    Prog.wp (killEnv cfg P path w A)
      (cfsCacheWrite cfg fuel (cfsPathToFileName path) bytes cfg.blockSize o fh) Q (w₁, .none) := by
  obtain ⟨dualFH, hdual, -, r, wr, hcache⟩ := hsole.opened
  have hflag : w₁.db.hitFlag (cfsPathToFileName path) o = 0 :=
    not_not.mp ((Db.hitFlag_ne_zero_iff h.wf).not.mpr hnew)
  unfold cfsCacheWrite
  rw [Prog.wp_bind]
  refine wp_kill_silent (only_ask rfl) h (wp_loadHandle hdual fun _ => ?_)
  rw [Prog.wp_bind]
  have hwait : ∀ n, Prog.Only (·.silent = true) (evictionWait cfg n) := only_evictionWait rfl
  refine wp_kill_silent (hwait fuel) h (wp_evictionWait (fun _ => trivial) fun _ _ => ?_)
  rw [Prog.wp_bind, cfg.offsetArray_one hbs]
  unfold writeBlks
  rw [Prog.wp_bind]
  refine wp_kill_silent (only_areBlocksInCache (fun _ => rfl) rfl) h
    (wp_areBlocksInCache hA.sql fun _ => ?_)
  simp only [List.map_cons, List.map_nil, hflag, List.zip_cons_cons, List.zip_nil_right,
    List.foldlM_cons, List.foldlM_nil, Prog.wp_bind, ne_eq, not_true_eq_false, if_false]
  refine wp_kill_insertBlock hA.sql hbs hP hpath h hmod hnew hold fun _ m g hm hstep => ?_
  rw [Prog.wp_pure, Prog.wp_pure, Prog.wp_pure, Prog.wp_bind]
  refine wp_kill_call fun c hc => ?_
  obtain ⟨now, hnow, hstore⟩ : ∃ now, Clock A now ∧
      (handle c (.pwrite dualFH.cacheFH bytes o) { w₁ with metadata := m }).2 =
        w₁.store m ci bytes o now :=
    (wp_pwrite_cache (w := { w₁ with metadata := m }) (S := True) hA hcache
      (Q := fun _ w₂ => ∃ now, Clock A now ∧ w₂ = w₁.store m ci bytes o now)
      (fun _ now hnow => ⟨now, hnow, rfl⟩) c hc).2
  have hfill : Fill cfg A (cfsPathToFileName path) ni ci [o] w₁ (w₁.store m ci bytes o now) :=
    .mk (List.mem_singleton_self o) hnew hm hlen hbytes hnow
  have hsettled := h.store hP hpath hsole hmod hstep hfill
  rw [hstore]
  exact ⟨hsettled, hQ _ _ hfill hsettled⟩

/-- A turn of the loop of `cfs_read`. -/
theorem wp_kill_readBlock (hA : AllSucceed A) (hbs : 0 < cfg.blockSize) (hP : InUse P)
    (hpath : P path) (h : Settled cfg P w₁) (hsole : Sole cfg P w₁ path fh ni ci)
    {dualFH : DualFileHandle} (hd : Descriptors w₁ dualFH ni ci) {lowerOffset i : Nat} {hit : Int}
    {acc : Int × List UInt8} (hlen : i * cfg.blockSize + cfg.blockSize ≤ acc.2.length)
    (hmod : (lowerOffset + i * cfg.blockSize) % cfg.blockSize = 0)
    (hnew : hit = 0 → ¬ w₁.db.Recorded (cfsPathToFileName path) (lowerOffset + i * cfg.blockSize))
    (hold : Agree (lowerOffset + i * cfg.blockSize)
      (lowerOffset + i * cfg.blockSize + cfg.blockSize) (w₁.cache.content (cfg.fullCachePath path))
      (w₁.nas.content (cfg.fullNasPath path)) ↔
        (Storing.counted (lowerOffset + i * cfg.blockSize)).Harmless cfg path w)
    {Q : Int × List UInt8 → World × Storing → Prop}
    (hQ : ∀ acc' w₂, acc'.2.length = acc.2.length →
      Fills cfg A (cfsPathToFileName path) ni ci [lowerOffset + i * cfg.blockSize] w₁ w₂ →
      Settled cfg P w₂ → Q acc' (w₂, .none)) :
    Prog.wp (killEnv cfg P path w A)
      (readBlock cfg fuel (cfsPathToFileName path) lowerOffset fh dualFH acc i hit) Q
      (w₁, .none) := by
  obtain ⟨⟨r₁, wr₁, ap, hnas⟩, r₂, wr₂, hcache⟩ := hd
  unfold readBlock
  rw [Prog.wp_ite]
  split
  · rw [Prog.wp_bind]
    refine wp_kill_silent (only_ask rfl) h (wp_pread_cache hA hcache fun _ _ => ?_)
    exact hQ _ _ (fillBuf_length hlen) .refl h
  · next hmiss =>
      rw [Prog.wp_bind]
      refine wp_kill_silent (only_ask rfl) h (wp_pread_nas hA hnas fun _ _ => ?_)
      obtain ⟨hslice, hbytes⟩ := slice_fillBuf hlen (w₁.nas.inode ni).data
        (lowerOffset + i * cfg.blockSize)
      rw [Prog.wp_bind]
      refine wp_kill_cfsCacheWrite hA hbs hP hpath h hsole hmod (hnew (not_not.mp hmiss)) hold
        hslice (fun j hj => hbytes j (hslice ▸ hj)) fun _ w₂ hfill h₂ => ?_
      exact hQ _ _ (fillBuf_length hlen) (.single hfill) h₂

/-- The loop of `cfs_read`: at the next block nothing is being stored, and neither its bytes
    nor its row have been touched since the call. -/
theorem wp_kill_readLoop (hA : AllSucceed A) (hbs : 0 < cfg.blockSize) (hP : InUse P)
    (hpath : P path) (h : Settled cfg P w) (hsole : Sole cfg P w path fh ni ci)
    {dualFH : DualFileHandle} (hd : Descriptors w dualFH ni ci) {offset size : Nat}
    {cacheBuf : List UInt8} (hbuf : cacheBuf.length = cfg.alignedSize size)
    {Q : Int × List UInt8 → World × Storing → Prop}
    (hQ : ∀ acc w₂, Settled cfg P w₂ → Q acc (w₂, .none)) :
    Prog.wp (killEnv cfg P path w A)
      (((List.range (cfg.windowBlocks size)).zip
        ((cfg.window offset size).map (w.db.hitFlag (cfsPathToFileName path)))).foldlM
        (fun acc e => readBlock cfg fuel (cfsPathToFileName path) (cfg.alignLowerOffset offset) fh
          dualFH acc e.1 e.2) (0, cacheBuf)) Q (w, .none) := by
  set lo := cfg.alignLowerOffset offset with hlo
  rw [cfg.zip_window, ← hlo]
  refine Prog.wp_mono (Prog.wp_foldlM (I := fun done acc x => x.2 = .none ∧ Settled cfg P x.1 ∧
    Fills cfg A (cfsPathToFileName path) ni ci (cfg.offsetArray lo done.length) w x.1 ∧
    acc.2.length = cfg.alignedSize size) ⟨rfl, h, .refl, hbuf⟩ ?_) ?_
  · rintro done x rest acc ⟨w₁, g⟩ hx ⟨rfl, h₁, hf, hlen⟩
    obtain ⟨hk, rfl⟩ := range_map_split hx
    rw [List.length_append, List.length_singleton]
    generalize done.length = k at *
    have hroom : k * cfg.blockSize + cfg.blockSize ≤ acc.2.length := by
      rw [hlen]
      exact cfg.mul_add_le_alignedSize hk
    have hmod : (lo + k * cfg.blockSize) % cfg.blockSize = 0 := by
      rw [Nat.add_mul_mod_self_right]
      exact cfg.alignLowerOffset_mod offset
    -- the blocks that have been stored end where this one starts
    have hend : ∀ o ∈ cfg.offsetArray lo k, o + cfg.blockSize ≤ lo + k * cfg.blockSize := by
      intro o ho
      obtain ⟨i, hi, rfl⟩ := cfg.mem_offsetArray.mp ho
      rw [Nat.add_assoc, ← Nat.succ_mul]
      exact Nat.add_le_add_left (Nat.mul_le_mul_right _ hi) _
    have hsole₁ := hsole.fills hf
    have hd₁ : Descriptors w₁ dualFH ni ci := hd.congr (Fills.fds hf)
    refine wp_kill_readBlock hA hbs hP hpath h₁ hsole₁ hd₁ hroom hmod ?_ ?_
      fun acc' w₂ hlen' hf' h₂ => ⟨rfl, h₂, ?_, hlen'.trans hlen⟩
    · intro hmiss hrec
      rcases Fills.recorded_or_mem hf hrec with hrec | hin
      · exact (Db.hitFlag_ne_zero_iff h.wf).mpr hrec hmiss
      · have := hend _ hin
        omega
    · have hsame : ∀ i, lo + k * cfg.blockSize ≤ i →
          (w₁.cache.inode ci).data[i]? = (w.cache.inode ci).data[i]? := fun i hi =>
        Fills.data_behind hf fun o ho => (hend o ho).trans hi
      have hnas : w₁.nas = w.nas := Fills.nas hf
      rw [Storing.Harmless, Fs.content_of_lookup hsole₁.cache, Fs.content_of_lookup hsole.cache,
        hnas]
      exact forall_congr' fun i => forall_congr' fun hi => by rw [hsame i hi]
    · rw [cfg.offsetArray_succ]
      exact (Fills.mono hf fun _ ho => List.mem_append_left _ ho).trans
        (Fills.mono hf' fun _ ho => List.mem_append_right _ ho)
  · rintro acc ⟨w₂, g⟩ ⟨rfl, h₂, -, -⟩
    exact hQ acc w₂ h₂

/-- The points of `cfs_read`. -/
theorem wp_kill_cfsRead (hA : AllSucceed A) (hbs : 0 < cfg.blockSize) (hP : InUse P)
    (hpath : P path) (h : Settled cfg P w) (hsole : Sole cfg P w path fh ni ci)
    {size offset : Nat} :
    Prog.wp (killEnv cfg P path w A) (cfsRead cfg fuel path size offset fh) (fun _ _ => True)
      (w, .none) := by
  obtain ⟨dualFH, hdual, hd⟩ := hsole.opened
  have hcopy : ∀ (acc : Int × List UInt8) w₂, Settled cfg P w₂ →
      Prog.wp (killEnv cfg P path w A) (do
        let buf ← copyOut acc.2 (offset - cfg.alignLowerOffset offset) size
        pure (acc.1, buf)) (fun _ _ => True) (w₂, .none) := by
    intro acc w₂ h₂
    have honly : ∀ buf pos n, Prog.Only (·.silent = true) (copyOut buf pos n) :=
      only_copyOut fun _ => rfl
    rw [Prog.wp_bind]
    exact wp_kill_silent (honly _ _ _) h₂ (wp_copyOut fun _ _ _ _ => trivial)
  have hwindow : cfg.offsetArray (cfg.alignLowerOffset offset)
      (cfg.alignedSize size / cfg.blockSize) = cfg.window offset size := rfl
  unfold cfsRead
  rw [Prog.wp_bind, hwindow]
  refine wp_kill_silent (only_areBlocksInCache (fun _ => rfl) rfl) h
    (wp_areBlocksInCache hA.sql fun _ => ?_)
  rw [Prog.wp_bind]
  refine wp_kill_silent (only_ask rfl) h (wp_loadHandle hdual fun _ => ?_)
  rw [Prog.wp_bind]
  refine wp_kill_silent (only_ask rfl) h (wp_malloc fun cacheBuf hbuf _ => ?_)
  rw [Prog.wp_bind]
  unfold readWindow
  rw [Prog.wp_ite]
  split
  · obtain ⟨r, wr, hcache⟩ := hd.2
    rw [Prog.wp_bind]
    refine wp_kill_silent (only_ask rfl) h (wp_pread_cache hA hcache fun _ _ => ?_)
    exact hcopy _ _ h
  · exact wp_kill_readLoop hA hbs hP hpath h hsole hd hbuf fun acc w₂ h₂ => hcopy acc w₂ h₂

end Reading

-- ============================================================================
-- Killed requests
-- ============================================================================

/-- A request on `path` has been killed after the calls `tr`: an open or an unlink, of whose
    calls no SQL statement has failed, or a read through a handle of the file, whose calls
    have all succeeded. -/
inductive Killed (cfg : Config) (P : Path → Prop) (w : World) :
    Path → List CfsEvent → World → Prop
  | opening {path : Path} {flags : Nat} {tr : List CfsEvent} {w' : World} (hpath : P path)
      (h : Prog.Stopped (env constraintsOnly True) (cfsOpen cfg path flags) w tr w') :
      Killed cfg P w path tr w'
  | reading {path : Path} {size offset fh fuel : Nat} {ni ci : Ino} {tr : List CfsEvent}
      {w' : World} (hpath : P path) (hsole : Sole cfg P w path fh ni ci)
      (h : Prog.Stopped (env succeeds True) (cfsRead cfg fuel path size offset fh) w tr w') :
      Killed cfg P w path tr w'
  | unlinking {path : Path} {tr : List CfsEvent} {w' : World} (hpath : P path)
      (h : Prog.Stopped (env constraintsOnly True) (cfsUnlink cfg path) w tr w') :
      Killed cfg P w path tr w'

section Killed

variable {cfg : Config} {P : Path → Prop} {path : Path} {w w' : World} {tr : List CfsEvent}

theorem Killed.reached (hbs : 0 < cfg.blockSize) (hP : InUse P) (h : Settled cfg P w)
    (hk : Killed cfg P w path tr w') : Reached cfg P path w w' (storing tr) := by
  cases hk with
  | @opening flags _ _ hpath hstop =>
      have hwp : Prog.wp (killEnv cfg P path w constraintsOnly) (cfsOpen cfg path flags)
          (fun _ _ => True) (w, .none) := wp_kill_cfsOpen sqlSucceeds_constraintsOnly hP hpath h
      exact Prog.stopped_ghost h hwp hstop
  | @reading size offset fh fuel _ _ _ _ hpath hsole hstop =>
      have hwp : Prog.wp (killEnv cfg P path w succeeds) (cfsRead cfg fuel path size offset fh)
          (fun _ _ => True) (w, .none) :=
        wp_kill_cfsRead allSucceed_succeeds hbs hP hpath h hsole
      exact Prog.stopped_ghost h hwp hstop
  | unlinking hpath hstop =>
      have hwp : Prog.wp (killEnv cfg P path w constraintsOnly) (cfsUnlink cfg path)
          (fun _ _ => True) (w, .none) := wp_kill_cfsUnlink sqlSucceeds_constraintsOnly hP hpath h
      exact Prog.stopped_ghost h hwp hstop

/-- What a killed request leaves behind passes the next mount exactly when no block is
    without its size or its bytes. -/
theorem crash_consistent_iff (hbs : 0 < cfg.blockSize) (hP : InUse P) (h : Settled cfg P w)
    (hk : Killed cfg P w path tr w') (hlt : w'.db.total < 2 ^ 63) :
    Survives cfg P w' ↔ (storing tr).Harmless cfg path w := by
  have hreached := hk.reached hbs hP h
  cases hg : storing tr with
  | none =>
      rw [hg] at hreached
      have hsettled : Settled cfg P w' := hreached
      rw [hsettled.survives_iff hlt]
      exact iff_of_true hsettled.agree trivial
  | inserted o =>
      rw [hg] at hreached
      rw [survives_iff hreached.1 hlt]
      exact iff_of_false (fun hs => hreached.2 hs.2.2) id
  | counted o =>
      rw [hg] at hreached
      rw [hreached.1.survives_iff hlt]
      exact hreached.2

theorem settled_sampleOpened : Settled sampleConfig (· ∈ samplePaths)
    (sampleOpened [1, 2, 3, 4, 5]) where
  wf := by constructor <;> decide
  blockSize := rfl
  names n hn := by
    have hfiles : (sampleOpened [1, 2, 3, 4, 5]).db.files.map (·.relativePath) =
        [cfsPathToFileName samplePath] := by decide
    obtain ⟨f, hf, rfl⟩ := hn
    have hmem := List.mem_map_of_mem (f := (·.relativePath)) hf
    rw [hfiles] at hmem
    exact ⟨samplePath, by decide, (List.mem_singleton.mp hmem).symm⟩
  sized := by
    change ∀ f ∈ (sampleOpened [1, 2, 3, 4, 5]).db.files, f.localSize =
      (sampleOpened [1, 2, 3, 4, 5]).db.blocksSize (fun _ => sampleConfig.blockSize) f.fileId
    decide
  bounded := Fs.bounded_of_names (by decide)
  agree p _ o ho := by
    obtain ⟨_, _, _, b, hb, _⟩ := ho
    have hempty : (sampleOpened [1, 2, 3, 4, 5]).db.datablocks = [] := by decide
    rw [hempty] at hb
    exact absurd hb List.not_mem_nil

theorem sole_sampleOpened : Sole sampleConfig (· ∈ samplePaths) (sampleOpened [1, 2, 3, 4, 5])
    samplePath 1 1 2 where
  opened := ⟨⟨3, 5⟩, by decide, ⟨true, true, false, by decide⟩, true, true, by decide⟩
  nas := by decide
  cache := by decide
  sole := by decide

/-- A read of a block after its first `n` calls. -/
theorem killed_sampleRead {n : Nat} (h : Prog.stopAfter (env succeeds True) (fun _ => {}) n
    (cfsRead sampleConfig 1 samplePath 4 0 1) (sampleOpened [1, 2, 3, 4, 5]) = some (tr, w')) :
    Killed sampleConfig (· ∈ samplePaths) (sampleOpened [1, 2, 3, 4, 5]) samplePath tr w' :=
  .reading (by decide) sole_sampleOpened (Prog.stopped_of_stopAfter h)

end Killed

/-- The read is killed when the bytes have been written. -/
theorem crash_consistent_iff_read : ∃ tr w',
    Killed sampleConfig (· ∈ samplePaths) (sampleOpened [1, 2, 3, 4, 5]) samplePath tr w' ∧
      (Survives sampleConfig (· ∈ samplePaths) w' ↔
        (storing tr).Harmless sampleConfig samplePath (sampleOpened [1, 2, 3, 4, 5])) := by
  obtain ⟨⟨tr, w'⟩, hx⟩ := Option.isSome_iff_exists.mp (show (Prog.stopAfter (env succeeds True)
    (fun _ => {}) 13 (cfsRead sampleConfig 1 samplePath 4 0 1)
      (sampleOpened [1, 2, 3, 4, 5])).isSome from by decide)
  have htotal : ((Prog.stopAfter (env succeeds True) (fun _ => {}) 13
      (cfsRead sampleConfig 1 samplePath 4 0 1) (sampleOpened [1, 2, 3, 4, 5])).map
        fun x => x.2.db.total) = some 4 := by decide
  rw [hx, Option.map_some, Option.some.injEq] at htotal
  exact ⟨tr, w', killed_sampleRead hx, crash_consistent_iff (by decide) inUse_samplePaths
    settled_sampleOpened (killed_sampleRead hx) (by rw [htotal]; decide)⟩

/-- The read is killed between the row and the bytes of a block. -/
theorem crash_not_consistent : ¬ ∀ (cfg : Config) (P : Path → Prop) (path : Path) (w w' : World)
    (tr : List CfsEvent), 0 < cfg.blockSize → InUse P → Settled cfg P w →
    Killed cfg P w path tr w' → w'.db.total < 2 ^ 63 → Survives cfg P w' := by
  intro h
  have hrun : ((Prog.stopAfter (env succeeds True) (fun _ => {}) 10
      (cfsRead sampleConfig 1 samplePath 4 0 1) (sampleOpened [1, 2, 3, 4, 5])).map fun x =>
        (x.2.db.total, x.2.db.selectBlockId 0 (cfsPathToFileName samplePath),
          x.2.cache.content (sampleConfig.fullCachePath samplePath),
          x.2.nas.content (sampleConfig.fullNasPath samplePath))) =
      some (4, true, [], [1, 2, 3, 4, 5]) := by decide
  obtain ⟨⟨tr, w'⟩, hx, heq⟩ := Option.map_eq_some_iff.mp hrun
  simp only [Prod.mk.injEq] at heq
  obtain ⟨htotal, hsel, hcache, hnas⟩ := heq
  have hlt : w'.db.total < 2 ^ 63 := by
    rw [htotal]
    decide
  have hs := h sampleConfig (· ∈ samplePaths) samplePath _ w' tr (by decide) inUse_samplePaths
    settled_sampleOpened (killed_sampleRead hx) hlt
  have hagree := ((survives_iff (by rw [htotal]; decide) hlt).mp hs).2.1
  have hbyte := (hagree samplePath (by decide) 0 (Db.recorded_of_selectBlockId hsel)).2 0
    (le_refl _) (by decide)
  rw [hcache, hnas] at hbyte
  exact absurd (hbyte (by decide)) (by decide)

end CacheFs
