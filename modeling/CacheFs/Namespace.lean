/-
  CacheFs.Namespace

  What the callbacks that create, remove and move names do to the cache.

  A state is coherent when every row belongs to a file that exists on both sides and
  every recorded block agrees with the NAS file.  New names are free names, so they
  belong to no row; `cfs_unlink` deletes the row with the file; `cfs_rename` moves
  the files of both sides and leaves the rows where they are.  A rename is
  `RenameClear` when there is nothing to leave behind.
-/

import CacheFs.Transparency

namespace CacheFs

open CacheFs.Effect
open CacheFs.Posix

-- ============================================================================
-- Coherent states
-- ============================================================================

/-- `path` is a file of the NAS with a cache file, and its recorded blocks are the
    bytes of the NAS file. -/
structure NameCoherent (cfg : Config) (path : Path) (w : World) : Prop where
  nas : ∃ i, w.nas.lookup (cfg.fullNasPath path) = some i ∧ (w.nas.inode i).kind ≠ .dir
  cache : ∃ i, w.cache.lookup (cfg.fullCachePath path) = some i
  agree : ∀ o, w.db.Recorded (cfsPathToFileName path) o →
    Agree o (o + cfg.blockSize) (w.cache.content (cfg.fullCachePath path))
      (w.nas.content (cfg.fullNasPath path))

/-- Every row is one of such a file. -/
structure NamesCoherent (cfg : Config) (P : Path → Prop) (w : World) : Prop where
  wf : w.db.WF
  rows : ∀ n, w.db.HasFile n → ∃ p, P p ∧ cfsPathToFileName p = n ∧ NameCoherent cfg p w

/-- The paths in use: absolute paths, no two of them with one cache name, and none with
    the name of a file of SQLite. -/
structure InUse (P : Path → Prop) : Prop where
  fuse : ∀ p, P p → ∃ q : FusePath, q.text = p
  names : ∀ p q, P p → P q → cfsPathToFileName p = cfsPathToFileName q → p = q
  database : ∀ p, P p → cfsPathToFileName p ∉ databaseNames

section Frame

variable {cfg : Config} {P : Path → Prop} {w w' : World} {path p q : Path}

/-- A change that keeps the names of `path` on both sides, and adds no rows to it. -/
theorem NameCoherent.frame (h : NameCoherent cfg path w)
    (hrec : ∀ o, w'.db.Recorded (cfsPathToFileName path) o →
      w.db.Recorded (cfsPathToFileName path) o)
    (hnas : Fs.Keeps w.nas w'.nas (cfg.fullNasPath path))
    (hcache : Fs.Keeps w.cache w'.cache (cfg.fullCachePath path)) : NameCoherent cfg path w' := by
  obtain ⟨⟨i, hi, hkind⟩, ⟨j, hj⟩, hagree⟩ := h
  obtain ⟨hi', hinode⟩ := hnas i hi
  obtain ⟨hj', hjnode⟩ := hcache j hj
  refine ⟨⟨i, hi', by rwa [hinode]⟩, ⟨j, hj'⟩, fun o ho => ?_⟩
  rw [Fs.content_of_lookup hi', Fs.content_of_lookup hj', hinode, hjnode,
    ← Fs.content_of_lookup hi, ← Fs.content_of_lookup hj]
  exact hagree o (hrec o ho)

/-- A change of names that no row is concerned with. -/
theorem NamesCoherent.frame (h : NamesCoherent cfg P w) (hdb : w'.db = w.db)
    (hkeeps : ∀ p, P p → w.db.HasFile (cfsPathToFileName p) → NameCoherent cfg p w →
      Fs.Keeps w.nas w'.nas (cfg.fullNasPath p) ∧
        Fs.Keeps w.cache w'.cache (cfg.fullCachePath p)) : NamesCoherent cfg P w' := by
  refine ⟨hdb ▸ h.wf, fun n hn => ?_⟩
  rw [hdb] at hn
  obtain ⟨p, hp, rfl, hc⟩ := h.rows n hn
  obtain ⟨hnas, hcache⟩ := hkeeps p hp hn hc
  exact ⟨p, hp, rfl, hc.frame (fun o ho => by rwa [hdb] at ho) hnas hcache⟩

theorem Config.fullNasPath_inj (cfg : Config) : cfg.fullNasPath p = cfg.fullNasPath q ↔ p = q := by
  simp [fullNasPath, cfsFullNasPath]

theorem Config.under_fullNasPath (cfg : Config) :
    under (cfg.fullNasPath p) (cfg.fullNasPath q) = under p q :=
  Fs.under_append_left _ _ _

theorem InUse.cachePath_ne (h : InUse P) (hp : P p) (hq : P q) (hne : p ≠ q) :
    cfg.fullCachePath p ≠ cfg.fullCachePath q := by
  intro heq
  simp only [Config.fullCachePath, cfsFullCachePath, List.append_cancel_left_eq] at heq
  exact hne (h.names p q hp hq heq)

theorem InUse.not_under_cachePath (h : InUse P) (hp : P p) (hq : P q) :
    under (cfg.fullCachePath p) (cfg.fullCachePath q) = false := by
  obtain ⟨p', rfl⟩ := h.fuse p hp
  obtain ⟨q', rfl⟩ := h.fuse q hq
  rw [Config.fullCachePath, Config.fullCachePath, cfsFullCachePath, cfsFullCachePath,
    Fs.under_append_left]
  exact FusePath.not_under_cacheName p' q'

end Frame

-- ============================================================================
-- Operations
-- ============================================================================

inductive NameOp where
  | cfsMknod (path : Path) (kind : Kind) (mode : Nat)
  | cfsMkdir (path : Path) (mode : Nat)
  | cfsRmdir (path : Path)
  | cfsUnlink (path : Path)
  | cfsRename (path newpath : Path)
  | cfsLink (path newpath : Path)
  | cfsSymlink (path linkPath : Path)

def NameOp.prog (cfg : Config) : NameOp → CfsM Int
  | .cfsMknod path kind mode => CacheFs.cfsMknod cfg path kind mode
  | .cfsMkdir path mode => CacheFs.cfsMkdir cfg path mode
  | .cfsRmdir path => CacheFs.cfsRmdir cfg path
  | .cfsUnlink path => CacheFs.cfsUnlink cfg path
  | .cfsRename path newpath => CacheFs.cfsRename cfg path newpath
  | .cfsLink path newpath => CacheFs.cfsLink cfg path newpath
  | .cfsSymlink path linkPath => CacheFs.cfsSymlink cfg path linkPath

/-- The paths of the mount an operation names.  The text of a symbolic link is not
    one of them. -/
def NameOp.paths : NameOp → List Path
  | .cfsMknod path _ _ | .cfsMkdir path _ | .cfsRmdir path | .cfsUnlink path => [path]
  | .cfsRename path newpath | .cfsLink path newpath => [path, newpath]
  | .cfsSymlink _ linkPath => [linkPath]

/-- One operation has been carried out with success; what it does in the cache
    directory may have failed. -/
def NameStep (cfg : Config) (cond : World → NameOp → Prop) (w w' : World) : Prop :=
  ∃ op, cond w op ∧ Prog.Exec (env natural False) (op.prog cfg) w 0 w'

/-- The rename leaves nothing behind: `path` and what is below it have no rows and
    `newpath` no blocks, or the rename moves nothing on either side. -/
def RenameClear (cfg : Config) (P : Path → Prop) (w : World) (path newpath : Path) : Prop :=
  ((∀ p, P p → p = path ∨ under path p = true → ¬ w.db.HasFile (cfsPathToFileName p)) ∧
    ∀ o, ¬ w.db.Recorded (cfsPathToFileName newpath) o) ∨
  (w.nas.lookup (cfg.fullNasPath newpath) = w.nas.lookup (cfg.fullNasPath path) ∧
    (w.cache.lookup (cfg.fullCachePath path) = none ∨
      w.cache.lookup (cfg.fullCachePath newpath) = w.cache.lookup (cfg.fullCachePath path)))

/-- The operations on paths in use whose renames leave nothing behind. -/
def NamesClear (cfg : Config) (P : Path → Prop) (w : World) (op : NameOp) : Prop :=
  (∀ p ∈ op.paths, P p) ∧
    match op with
    | .cfsRename path newpath => RenameClear cfg P w path newpath
    | _ => True

-- ============================================================================
-- Calls on names
-- ============================================================================

section Calls

variable {w : World} {side : Side} {c : Choice}

/-- A call on names is refused, or it changes the names of its side. -/
theorem nameCall_post {op : Call} {w₀ : World} (hc : natural c op w₀) {r : Except Errno Fs}
    {Q : SysRet Int → World → Prop} (hok : ∀ fs, r = .ok fs → Q (.ok 0) (w.setFs side fs))
    (herr : ∀ e, r = .error e → Q (.error e) w) :
    Q (w.nameCall c side r).1 (w.nameCall c side r).2 := by
  cases r with
  | ok fs => simpa only [World.nameCall, hc.1] using hok fs rfl
  | error e => simpa only [World.nameCall, hc.1] using herr e rfl

variable {S : Prop} {p q : Path} {Q : SysRet Int → World → Prop}

theorem wp_mkdir {mode : Nat}
    (hok : ∀ fs now, (w.fs side).mkNode p .dir (w.granted mode) now = .ok fs →
      Q (.ok 0) (w.setFs side fs))
    (herr : ∀ e, Q (.error e) w) : Prog.wp (env natural S) (ask (.mkdir side p mode)) Q w := by
  simp only [ask, wp_call, Prog.wp_ret, handle]
  exact fun c hc => nameCall_post hc (fun fs => hok fs c.now) fun e _ => herr e

theorem wp_mknod {kind : Kind} {mode : Nat}
    (hok : ∀ fs now, (w.fs side).mkNode p kind (w.granted mode) now = .ok fs →
      Q (.ok 0) (w.setFs side fs))
    (herr : ∀ e, Q (.error e) w) :
    Prog.wp (env natural S) (ask (.mknod side p kind mode)) Q w := by
  simp only [ask, wp_call, Prog.wp_ret, handle, World.mknod]
  intro c hc
  split
  · exact herr EPERM
  · exact herr EINVAL
  · exact nameCall_post hc (fun fs => hok fs c.now) fun e _ => herr e

theorem wp_symlink {target : Path}
    (hok : ∀ fs now, (w.fs side).mkNode p (.lnk target) 511 now = .ok fs →
      Q (.ok 0) (w.setFs side fs))
    (herr : ∀ e, Q (.error e) w) :
    Prog.wp (env natural S) (ask (.symlink side target p)) Q w := by
  simp only [ask, wp_call, Prog.wp_ret, handle]
  exact fun c hc => nameCall_post hc (fun fs => hok fs c.now) fun e _ => herr e

theorem wp_link (hok : ∀ fs, (w.fs side).link p q = .ok fs → Q (.ok 0) (w.setFs side fs))
    (herr : ∀ e, Q (.error e) w) : Prog.wp (env natural S) (ask (.link side p q)) Q w := by
  simp only [ask, wp_call, Prog.wp_ret, handle]
  exact fun c hc => nameCall_post hc hok fun e _ => herr e

theorem wp_unlink_natural
    (hok : ∀ fs, (w.fs side).unlink p = .ok fs → Q (.ok 0) (w.setFs side fs))
    (herr : ∀ e, Q (.error e) w) : Prog.wp (env natural S) (ask (.unlink side p)) Q w := by
  simp only [ask, wp_call, Prog.wp_ret, handle]
  exact fun c hc => nameCall_post hc hok fun e _ => herr e

theorem wp_rmdir (hok : ∀ fs, (w.fs side).rmdir p = .ok fs → Q (.ok 0) (w.setFs side fs))
    (herr : ∀ e, Q (.error e) w) : Prog.wp (env natural S) (ask (.rmdir side p)) Q w := by
  simp only [ask, wp_call, Prog.wp_ret, handle]
  exact fun c hc => nameCall_post hc hok fun e _ => herr e

theorem wp_rename (side : Side)
    (hok : ∀ fs, (w.fs side).rename p q = .ok fs → Q (.ok 0) (w.setFs side fs))
    (herr : ∀ e, (w.fs side).rename p q = .error e → Q (.error e) w) :
    Prog.wp (env natural S) (ask (.rename side p q)) Q w := by
  simp only [ask, wp_call, Prog.wp_ret, handle]
  exact fun c hc => nameCall_post hc hok herr

/-- A failed call is not a success. -/
theorem logSyscall_error_ne (e : Errno) : logSyscall (.error e) ≠ 0 := by
  have he := e.pos
  simp only [logSyscall]
  omega

end Calls

-- ============================================================================
-- What each operation does
-- ============================================================================

section Ops

variable {cfg : Config} {P : Path → Prop} {w w' : World} {p q : Path}

/-- The state in which operations on names start and end: a coherent one of two file
    systems without unborn inodes. -/
structure NamesInv (cfg : Config) (P : Path → Prop) (w : World) : Prop where
  coherent : NamesCoherent cfg P w
  nasBounded : w.nas.Bounded
  cacheBounded : w.cache.Bounded

/-- The names of one side change and no row is concerned with them. -/
theorem NamesInv.setFs (h : NamesInv cfg P w) {side : Side} {fs : Fs}
    (hb : fs.Bounded) (hkeeps : ∀ p, P p → w.db.HasFile (cfsPathToFileName p) →
      NameCoherent cfg p w → match side with
        | .nas => Fs.Keeps w.nas fs (cfg.fullNasPath p)
        | .cache => Fs.Keeps w.cache fs (cfg.fullCachePath p)) :
    NamesInv cfg P (w.setFs side fs) := by
  cases side with
  | nas =>
      exact ⟨h.coherent.frame rfl fun p hp hf hc => ⟨hkeeps p hp hf hc, .refl _ _⟩, hb,
        h.cacheBounded⟩
  | cache =>
      exact ⟨h.coherent.frame rfl fun p hp hf hc => ⟨.refl _ _, hkeeps p hp hf hc⟩, h.nasBounded,
        hb⟩

/-- A new node has a free name. -/
theorem NamesInv.mkNode (h : NamesInv cfg P w) (side : Side) {fs : Fs} {kind : Kind} {mode : Nat}
    {now : Int} (hfs : (w.fs side).mkNode p kind mode now = .ok fs) :
    NamesInv cfg P (w.setFs side fs) := by
  cases side with
  | nas => exact h.setFs (h.nasBounded.mkNode hfs) fun _ _ _ _ => Fs.keeps_mkNode h.nasBounded hfs _
  | cache =>
      exact h.setFs (h.cacheBounded.mkNode hfs) fun _ _ _ _ => Fs.keeps_mkNode h.cacheBounded hfs _

/-- So has a new link. -/
theorem NamesInv.link (h : NamesInv cfg P w) (side : Side) {fs : Fs}
    (hfs : (w.fs side).link p q = .ok fs) : NamesInv cfg P (w.setFs side fs) := by
  cases side with
  | nas => exact h.setFs (h.nasBounded.link hfs) fun _ _ _ _ => Fs.keeps_link hfs _
  | cache => exact h.setFs (h.cacheBounded.link hfs) fun _ _ _ _ => Fs.keeps_link hfs _

/-- A directory that is removed is nobody's file. -/
theorem NamesInv.rmdir (h : NamesInv cfg P w) {fs : Fs}
    (hfs : w.nas.rmdir (cfg.fullNasPath p) = .ok fs) : NamesInv cfg P (w.setFs .nas fs) := by
  obtain ⟨i, hi, hdir, rfl⟩ := Fs.rmdir_eq_ok hfs
  refine h.setFs (h.nasBounded.dropName _) fun r _ _ hc => Fs.keeps_dropName ?_
  intro heq
  obtain ⟨j, hj, hkind⟩ := hc.nas
  rw [heq, hi] at hj
  exact hkind (Option.some.inj hj ▸ hdir)

/-- Without the row of `path` its names are nobody's. -/
theorem NamesInv.deleteFile (h : NamesInv cfg P w) (n : FileName) :
    NamesInv cfg P { w with metadata := w.metadata.deleteFile n } := by
  refine ⟨⟨h.coherent.wf.deleteFile, fun m hm => ?_⟩, h.nasBounded, h.cacheBounded⟩
  obtain ⟨p, hp, rfl, hc⟩ := h.coherent.rows m ((Db.hasFile_deleteFile m).mp hm).1
  exact ⟨p, hp, rfl, hc.frame (fun o ho => ((h.coherent.wf.recorded_deleteFile _ o).mp ho).1)
    (.refl _ _) (.refl _ _)⟩

theorem NamesInv.unlink (h : NamesInv cfg P w) (hP : InUse P) (hp : P p)
    (hrow : ¬ w.db.HasFile (cfsPathToFileName p)) (side : Side) {fs : Fs}
    (hfs : (w.fs side).unlink (match side with
      | .nas => cfg.fullNasPath p | .cache => cfg.fullCachePath p) = .ok fs) :
    NamesInv cfg P (w.setFs side fs) := by
  have hne : ∀ r, w.db.HasFile (cfsPathToFileName r) → r ≠ p := fun r hr heq => hrow (heq ▸ hr)
  cases side with
  | nas =>
      obtain rfl := Fs.unlink_eq_ok hfs
      exact h.setFs (h.nasBounded.dropName _) fun r _ hf _ =>
        Fs.keeps_dropName fun heq => hne r hf (cfg.fullNasPath_inj.mp heq)
  | cache =>
      obtain rfl := Fs.unlink_eq_ok hfs
      exact h.setFs (h.cacheBounded.dropName _) fun r hr hf _ =>
        Fs.keeps_dropName (hP.cachePath_ne hr hp (hne r hf))

/-- The world after the renames of both sides, of which the one in the cache may
    have been refused. -/
theorem NamesInv.renamed (h : NamesInv cfg P w) (hP : InUse P) (hp : P p) (hq : P q)
    (hclear : RenameClear cfg P w p q) {nas cache : Fs}
    (hnas : w.nas.rename (cfg.fullNasPath p) (cfg.fullNasPath q) = .ok nas)
    (hcache : w.cache.rename (cfg.fullCachePath p) (cfg.fullCachePath q) = .ok cache ∨
      cache = w.cache) : NamesInv cfg P { w with nas, cache } := by
  refine ⟨⟨h.coherent.wf, fun n hn => ?_⟩, h.nasBounded.rename hnas, ?_⟩
  · obtain ⟨r, hr, rfl, hc⟩ := h.coherent.rows n hn
    refine ⟨r, hr, rfl, ?_⟩
    rcases hclear with ⟨hold, hnew⟩ | ⟨hsame, hcsame⟩
    · have hpr : r ≠ p ∧ under p r = false := by
        refine ⟨fun heq => hold r hr (Or.inl heq) hn, ?_⟩
        rw [← Bool.not_eq_true]
        exact fun hunder => hold r hr (Or.inr hunder) hn
      by_cases hrq : r = q
      · -- the target: a file again, whose row has no blocks
        subst hrq
        obtain ⟨i, hi, hmoved⟩ := Fs.rename_eq_ok hnas
        obtain ⟨hi', hinode⟩ := Fs.lookup_rename hnas hi
        obtain ⟨j, hj, hkind⟩ := hc.nas
        refine ⟨⟨i, hi', ?_⟩, ?_, fun o ho => absurd ho (hnew o)⟩
        · rw [hinode]
          rcases hmoved with ⟨heq, -⟩ | ⟨-, -, hsame, -⟩
          · rw [heq] at hj
            rwa [Option.some.inj hj]
          · rwa [Ne, hsame j hj]
        · rcases hcache with hcache | rfl
          · obtain ⟨k, hk, -⟩ := Fs.rename_eq_ok hcache
            exact ⟨k, (Fs.lookup_rename hcache hk).1⟩
          · exact hc.cache
      · refine hc.frame (fun _ => id) (Fs.keeps_rename hnas ?_ ?_) ?_
        · exact ⟨fun heq => hpr.1 (cfg.fullNasPath_inj.mp heq), cfg.under_fullNasPath.trans hpr.2⟩
        · exact fun heq => hrq (cfg.fullNasPath_inj.mp heq)
        · rcases hcache with hcache | rfl
          · exact Fs.keeps_rename hcache ⟨hP.cachePath_ne hr hp hpr.1, hP.not_under_cachePath hp hr⟩
              (hP.cachePath_ne hr hq hrq)
          · exact .refl _ _
    · -- nothing moves
      obtain ⟨i, hi, ⟨-, rfl⟩ | ⟨hother, -⟩⟩ := Fs.rename_eq_ok hnas
      · refine hc.frame (fun _ => id) (.refl _ _) ?_
        rcases hcache with hcache | rfl
        · obtain ⟨k, hk, ⟨-, rfl⟩ | ⟨hother, -⟩⟩ := Fs.rename_eq_ok hcache
          · exact .refl _ _
          · rcases hcsame with hnone | hcsame
            · rw [hnone] at hk
              exact nomatch hk
            · exact absurd (hcsame.trans hk) hother
        · exact .refl _ _
      · exact absurd (hsame.trans hi) hother
  · rcases hcache with hcache | rfl
    · exact h.cacheBounded.rename hcache
    · exact h.cacheBounded

/-- Descriptors are not part of the invariant. -/
theorem NamesInv.fds (h : NamesInv cfg P w) (fds : Int → Option OpenFile) (nextFd : Nat) :
    NamesInv cfg P { w with fds, nextFd } :=
  ⟨⟨h.coherent.wf, fun n hn => (h.coherent.rows n hn).imp fun _ hr =>
    ⟨hr.1, hr.2.1, hr.2.2.nas, hr.2.2.cache, hr.2.2.agree⟩⟩, h.nasBounded, h.cacheBounded⟩

theorem wp_cfsMknod (h : NamesInv cfg P w) {kind : Kind} {mode : Nat} :
    Prog.wp (env natural False) (cfsMknod cfg p kind mode)
      (fun ret w' => ret = 0 → NamesInv cfg P w') w := by
  have hspecial : Prog.wp (env natural False)
      (do let r ← ask (.mknod .nas (cfg.fullNasPath p) kind mode)
          pure (logSyscall r)) (fun ret w' => ret = 0 → NamesInv cfg P w') w := by
    rw [Prog.wp_bind]
    exact wp_mknod (fun fs now hfs _ => h.mkNode .nas hfs)
      fun e he => absurd he (logSyscall_error_ne e)
  unfold cfsMknod mkNod
  cases kind with
  | reg =>
      simp only [Prog.wp_bind, ask, wp_call, Prog.wp_ret]
      intro c hc
      simp only [handle, World.creat, hc.1]
      cases hfs : (w.fs .nas).mkNode (cfg.fullNasPath p) .reg (w.granted mode) c.now with
      | error e => exact fun he => absurd he (logSyscall_error_ne e)
      | ok fs =>
          simp only [Prog.wp_bind, wp_call, Prog.wp_ret, Prog.wp_pure]
          intro c' hc' _
          have hnode := h.mkNode .nas hfs
          simp only [handle, World.close, hc'.1]
          split <;> exact hnode.fds _ _
  | dir => exact hspecial
  | lnk target => exact hspecial
  | fifo => exact hspecial
  | special => exact hspecial

theorem wp_cfsMkdir (h : NamesInv cfg P w) {mode : Nat} :
    Prog.wp (env natural False) (cfsMkdir cfg p mode)
      (fun ret w' => ret = 0 → NamesInv cfg P w') w := by
  unfold cfsMkdir
  rw [Prog.wp_bind]
  exact wp_mkdir (fun fs now hfs _ => h.mkNode .nas hfs)
    fun e he => absurd he (logSyscall_error_ne e)

theorem wp_cfsRmdir (h : NamesInv cfg P w) : Prog.wp (env natural False) (cfsRmdir cfg p)
    (fun ret w' => ret = 0 → NamesInv cfg P w') w := by
  unfold cfsRmdir
  rw [Prog.wp_bind]
  exact wp_rmdir (fun fs hfs _ => h.rmdir hfs) fun e he => absurd he (logSyscall_error_ne e)

theorem wp_cfsUnlink (h : NamesInv cfg P w) (hP : InUse P) (hp : P p) :
    Prog.wp (env natural False) (cfsUnlink cfg p)
      (fun ret w' => ret = 0 → NamesInv cfg P w') w := by
  unfold cfsUnlink
  rw [Prog.wp_bind]
  apply wp_deleteFile sqlSucceeds_natural
  set w₁ : World := { w with metadata := w.metadata.deleteFile (cfsPathToFileName p) } with hw₁
  have h₁ : NamesInv cfg P w₁ := h.deleteFile _
  have hrow : ¬ w₁.db.HasFile (cfsPathToFileName p) :=
    fun hf => ((Db.hasFile_deleteFile _).mp hf).2 rfl
  have hnas : ∀ w₂ : World, NamesInv cfg P w₂ → ¬ w₂.db.HasFile (cfsPathToFileName p) →
      Prog.wp (env natural False)
        (do let r ← ask (.unlink .nas (cfg.fullNasPath p))
            pure (logSyscall r)) (fun ret w' => ret = 0 → NamesInv cfg P w') w₂ := by
    intro w₂ h₂ hrow₂
    rw [Prog.wp_bind]
    exact wp_unlink_natural (fun fs hfs _ => h₂.unlink hP hp hrow₂ .nas hfs)
      fun e he => absurd he (logSyscall_error_ne e)
  rw [Prog.wp_bind]
  exact wp_unlink_natural (fun fs hfs => hnas _ (h₁.unlink hP hp hrow .cache hfs) hrow)
    fun e => hnas _ h₁ hrow

theorem wp_cfsRename (h : NamesInv cfg P w) (hP : InUse P) (hp : P p) (hq : P q)
    (hclear : RenameClear cfg P w p q) : Prog.wp (env natural False) (cfsRename cfg p q)
      (fun ret w' => ret = 0 → NamesInv cfg P w') w := by
  unfold cfsRename
  rw [Prog.wp_bind]
  refine wp_rename .cache (fun cache hcache => ?_) fun _ _ => ?_
  · rw [Prog.wp_bind]
    exact wp_rename .nas (fun nas hnas _ => h.renamed hP hp hq hclear hnas (Or.inl hcache))
      fun e _ he => absurd he (logSyscall_error_ne e)
  · rw [Prog.wp_bind]
    exact wp_rename .nas (fun nas hnas _ => h.renamed hP hp hq hclear hnas (Or.inr rfl))
      fun e _ he => absurd he (logSyscall_error_ne e)

theorem wp_cfsLink (h : NamesInv cfg P w) : Prog.wp (env natural False) (cfsLink cfg p q)
    (fun ret w' => ret = 0 → NamesInv cfg P w') w := by
  have hnas : ∀ w₁ : World, NamesInv cfg P w₁ → Prog.wp (env natural False)
      (do let r ← ask (.link .nas (cfg.fullNasPath p) (cfg.fullNasPath q))
          pure (logSyscall r)) (fun ret w' => ret = 0 → NamesInv cfg P w') w₁ := by
    intro w₁ h₁
    rw [Prog.wp_bind]
    exact wp_link (fun fs hfs _ => h₁.link .nas hfs)
      fun e he => absurd he (logSyscall_error_ne e)
  unfold cfsLink
  rw [Prog.wp_bind]
  exact wp_link (fun fs hfs => hnas _ (h.link .cache hfs)) fun _ => hnas _ h

theorem wp_cfsSymlink (h : NamesInv cfg P w) : Prog.wp (env natural False) (cfsSymlink cfg p q)
    (fun ret w' => ret = 0 → NamesInv cfg P w') w := by
  have hnas : ∀ w₁ : World, NamesInv cfg P w₁ → Prog.wp (env natural False)
      (do let r ← ask (.symlink .nas p (cfg.fullNasPath q))
          pure (logSyscall r)) (fun ret w' => ret = 0 → NamesInv cfg P w') w₁ := by
    intro w₁ h₁
    rw [Prog.wp_bind]
    exact wp_symlink (fun fs now hfs _ => h₁.mkNode .nas hfs)
      fun e he => absurd he (logSyscall_error_ne e)
  unfold cfsSymlink
  rw [Prog.wp_bind]
  exact wp_symlink (fun fs now hfs => hnas _ (h.mkNode .cache hfs)) fun _ => hnas _ h

/-- Every operation but a rename that leaves rows or blocks behind keeps a state
    coherent. -/
theorem NamesInv.step (h : NamesInv cfg P w) (hP : InUse P)
    (hs : NameStep cfg (NamesClear cfg P) w w') : NamesInv cfg P w' := by
  obtain ⟨op, ⟨hpaths, hclear⟩, he⟩ := hs
  refine Prog.wp_exec (Q := fun ret w' => ret = 0 → NamesInv cfg P w') ?_ he rfl
  cases op with
  | cfsMknod path kind mode => exact wp_cfsMknod h
  | cfsMkdir path mode => exact wp_cfsMkdir h
  | cfsRmdir path => exact wp_cfsRmdir h
  | cfsUnlink path => exact wp_cfsUnlink h hP (hpaths path (by simp [NameOp.paths]))
  | cfsRename path newpath =>
      exact wp_cfsRename h hP (hpaths path (by simp [NameOp.paths]))
        (hpaths newpath (by simp [NameOp.paths])) hclear
  | cfsLink path newpath => exact wp_cfsLink h
  | cfsSymlink path linkPath => exact wp_cfsSymlink h

/-- Any sequence of successful operations on names, the renames being clear, leads
    from a coherent state to a coherent one. -/
theorem names_stay_coherent (hP : InUse P) (h : NamesCoherent cfg P w) (hnas : w.nas.Bounded)
    (hcache : w.cache.Bounded)
    (hrun : Relation.ReflTransGen (NameStep cfg (NamesClear cfg P)) w w') :
    NamesCoherent cfg P w' := by
  have hinv : NamesInv cfg P w' := by
    induction hrun with
    | refl => exact ⟨h, hnas, hcache⟩
    | tail _ hs ih => exact ih.step hP hs
  exact hinv.coherent

/-- The world after an operation in which the environment interferes with nothing. -/
def NameOp.after (cfg : Config) (w : World) (op : NameOp) : World :=
  ((Prog.runAllowed (env natural False) (fun _ => {}) (op.prog cfg) w).map Prod.snd).getD w

theorem nameStep_after {cond : World → NameOp → Prop} (op : NameOp) (hc : cond w op)
    (hr : (Prog.runAllowed (env natural False) (fun _ => {}) (op.prog cfg) w).map Prod.fst =
      some 0) : NameStep cfg cond w (op.after cfg w) := by
  obtain ⟨⟨ret, w'⟩, hr, rfl⟩ := Option.map_eq_some_iff.mp hr
  have hafter : Prog.runAllowed (env natural False) (fun _ => {}) (op.prog cfg) w =
      some (0, op.after cfg w) := by
    rw [NameOp.after, hr]
    rfl
  exact ⟨op, hc, Prog.exec_of_runAllowed _ hafter⟩

/-- The paths of the concrete runs. -/
def samplePaths : List Path := [samplePath, ['/', 'g'], ['/', 'h']]

theorem inUse_samplePaths : InUse (· ∈ samplePaths) where
  fuse p hp := by
    simp only [samplePaths, List.mem_cons, List.not_mem_nil, or_false] at hp
    rcases hp with rfl | rfl | rfl
    · exact ⟨⟨[['f']], by decide⟩, by decide⟩
    · exact ⟨⟨[['g']], by decide⟩, by decide⟩
    · exact ⟨⟨[['h']], by decide⟩, by decide⟩
  names p q hp hq := (by decide : ∀ p ∈ samplePaths, ∀ q ∈ samplePaths,
    cfsPathToFileName p = cfsPathToFileName q → p = q) p hp q hq
  database := by decide

/-- The state after a file has been opened and read is coherent. -/
theorem namesCoherent_sampleReadAll : NamesCoherent sampleConfig (· ∈ samplePaths)
    (sampleReadAll [1, 2, 3, 4, 5, 6, 7, 8]) := by
  obtain ⟨hl, hc⟩ := Clean.run (by decide) (sampleWorld_fresh _) run_sampleReadAll
  refine ⟨hl.wf, fun n hn => ⟨samplePath, by decide, ?_, ⟨1, by decide, by decide⟩, ⟨2, by decide⟩,
    fun o ho => (hc samplePath rfl o ho).2⟩⟩
  obtain ⟨f, hf, rfl⟩ := hn
  exact (by decide : ∀ f ∈ (sampleReadAll [1, 2, 3, 4, 5, 6, 7, 8]).db.files,
    cfsPathToFileName samplePath = f.relativePath) f hf

/-- A second file is made and renamed; it has no rows. -/
theorem names_stay_coherent_moved : ∃ w',
    Relation.ReflTransGen (NameStep sampleConfig (NamesClear sampleConfig (· ∈ samplePaths)))
      (sampleReadAll [1, 2, 3, 4, 5, 6, 7, 8]) w' ∧
    w'.nas.lookup (sampleConfig.fullNasPath ['/', 'h']) = some 2 ∧
    NamesCoherent sampleConfig (· ∈ samplePaths) w' := by
  let w := sampleReadAll [1, 2, 3, 4, 5, 6, 7, 8]
  let w₁ := (NameOp.cfsMknod ['/', 'g'] .reg 420).after sampleConfig w
  let w₂ := (NameOp.cfsRename ['/', 'g'] ['/', 'h']).after sampleConfig w₁
  have hclear : RenameClear sampleConfig (· ∈ samplePaths) w₁ ['/', 'g'] ['/', 'h'] := by
    refine Or.inl ⟨fun p hp hpath => ?_, fun o ho => absurd ho.hasFile (by decide)⟩
    exact (by decide : ∀ p ∈ samplePaths, p = ['/', 'g'] ∨ under ['/', 'g'] p = true →
      ¬ w₁.db.HasFile (cfsPathToFileName p)) p hp hpath
  have hrun : Relation.ReflTransGen
      (NameStep sampleConfig (NamesClear sampleConfig (· ∈ samplePaths))) w w₂ :=
    (Relation.ReflTransGen.single (nameStep_after (.cfsMknod ['/', 'g'] .reg 420)
      ⟨by decide, trivial⟩ (by decide))).tail
      (nameStep_after (.cfsRename ['/', 'g'] ['/', 'h']) ⟨by decide, hclear⟩ (by decide))
  exact ⟨w₂, hrun, by decide, names_stay_coherent inUse_samplePaths namesCoherent_sampleReadAll
    (Fs.bounded_of_names (by decide)) (Fs.bounded_of_names (by decide)) hrun⟩

/-- Renaming a cached file leaves its row under the old name, which is nobody's. -/
theorem rename_not_coherent : ¬ ∀ (cfg : Config) (P : Path → Prop) (w w' : World),
    0 < cfg.blockSize → InUse P → NamesCoherent cfg P w → w.nas.Bounded → w.cache.Bounded →
    Relation.ReflTransGen (NameStep cfg fun _ op => ∀ p ∈ op.paths, P p) w w' →
    NamesCoherent cfg P w' := by
  intro h
  let w := sampleReadAll [1, 2, 3, 4, 5, 6, 7, 8]
  let w' := (NameOp.cfsRename samplePath ['/', 'g']).after sampleConfig w
  have hrun : Relation.ReflTransGen
      (NameStep sampleConfig fun _ op => ∀ p ∈ op.paths, p ∈ samplePaths) w w' :=
    .single (nameStep_after (.cfsRename samplePath ['/', 'g']) (by decide) (by decide))
  have hc := h sampleConfig (· ∈ samplePaths) w w' (by decide) inUse_samplePaths
    namesCoherent_sampleReadAll (Fs.bounded_of_names (by decide))
    (Fs.bounded_of_names (by decide)) hrun
  obtain ⟨p, hp, hname, hfile⟩ := hc.rows (cfsPathToFileName samplePath) (by decide)
  obtain rfl : p = samplePath := inUse_samplePaths.names _ _ hp (by decide) hname
  obtain ⟨i, hi, -⟩ := hfile.nas
  have hgone : w'.nas.lookup (sampleConfig.fullNasPath samplePath) = none := by decide
  rw [hgone] at hi
  exact nomatch hi

end Ops

end CacheFs
