/-
  CacheFs.Availability

  When an open that succeeds on the NAS succeeds.

  Besides the descriptor for the NAS, `cfs_open` needs one for the cache file, for
  reading and writing.  Whether it gets it depends on the row, on what is under the
  cache name, on the two modification times, and, when a new cache file is made, on
  the length of its name, the permission bits of the NAS file and the umask.
-/

import CacheFs.Namespace
import CacheFs.PassThrough

namespace CacheFs

open CacheFs.Effect
open CacheFs.Posix

/-- The cache file under the name `p` can be opened for reading and writing. -/
def World.OpensRdwr (w : World) (p : Path) : Prop :=
  ∃ i, w.cache.follow Fs.maxLinks p = .ok i ∧ (w.cache.inode i).kind ≠ .dir ∧
    ownerMay (w.cache.inode i).mode O_RDWR = true

/-- A new cache file under the free name `p`, for which `mode` is asked, can be made and
    then be opened for reading and writing. -/
def World.MakesRdwr (w : World) (p : Path) (mode : Nat) : Prop :=
  (basename p).length ≤ NAME_MAX ∧ ownerMay (w.granted mode) O_RDWR = true

/-- An open of `path` has returned 0 and left a row and a cache file, for which the new
    handle has a descriptor for reading and writing. -/
def Available (cfg : Config) (path : Path) (r : Int × Option Nat) (w' : World) : Prop :=
  r.1 = 0 ∧ w'.db.HasFile (cfsPathToFileName path) ∧ ∃ fh dualFH i, r.2 = some fh ∧
    w'.handles fh = some dualFH ∧ w'.cache.follow Fs.maxLinks (cfg.fullCachePath path) = .ok i ∧
    w'.fds dualFH.cacheFH = some ⟨.cache, i, true, true, false⟩

/-- What the state has to be like for that, the NAS file being `ni`: without a cache
    file there must be no row either, and a new file must be possible, with the
    permissions of its owner; a copy that is behind is replaced by such a file; any other
    copy must let itself be opened. -/
def CopyOpens (cfg : Config) (path : Path) (ni : Ino) (w : World) : Prop :=
  match w.cache.lookup (cfg.fullCachePath path) with
  | none => ¬ w.db.HasFile (cfsPathToFileName path) ∧
      w.MakesRdwr (cfg.fullCachePath path) (w.nas.inode ni).mode
  | some ci =>
    if w.db.HasFile (cfsPathToFileName path) ∧
        (w.cache.inode ci).mtime < (w.nas.inode ni).mtime then
      (w.cache.inode ci).kind ≠ .dir ∧
        w.MakesRdwr (cfg.fullCachePath path) (w.nas.inode ni).mode
    else w.OpensRdwr (cfg.fullCachePath path)

-- ============================================================================
-- Calls that fail for reasons of the state
-- ============================================================================

/-- Calls fail only for a reason that lies in the state. -/
def OnlyNatural (A : Choice → Call → World → Prop) : Prop :=
  ∀ c op w, A c op w → natural c op w

theorem OnlyNatural.sql {A : Choice → Call → World → Prop} (hA : OnlyNatural A) :
    SqlSucceeds A := fun c op w h _ => (hA c op w h).1

section Opening

variable {A : Choice → Call → World → Prop} {S : Prop} {cfg : Config} {w : World} {path : Path}

/-- An open of a cache file for reading and writing. -/
theorem wp_openFile_rdwr (hA : OnlyNatural A) {p : Path} {Q : SysRet Int → World → Prop}
    (hok : w.OpensRdwr p → ∀ i, w.cache.follow Fs.maxLinks p = .ok i →
      Q (.ok w.nextFd) (w.addFd ⟨.cache, i, true, true, false⟩))
    (herr : ¬ w.OpensRdwr p → ∀ e, Q (.error e) w) :
    Prog.wp (env A S) (ask (.openFile .cache p O_RDWR)) Q w := by
  simp only [ask, wp_call, Prog.wp_ret]
  intro c hc
  simp only [handle, World.openFile, (hA _ _ _ hc).1, World.fs]
  cases hi : w.cache.follow Fs.maxLinks p with
  | error e =>
      refine herr ?_ e
      rintro ⟨i, h, -⟩
      cases hi.symm.trans h
  | ok i =>
      have honly : ∀ {j}, w.cache.follow Fs.maxLinks p = .ok j → j = i :=
        fun h => Except.ok.inj (h.symm.trans hi)
      by_cases hdir : (w.cache.inode i).kind = .dir
      · simp only [hdir, true_and, if_pos (show accMode O_RDWR ≠ 0 by decide)]
        refine herr ?_ EISDIR
        rintro ⟨j, h, hk, -⟩
        exact hk (honly h ▸ hdir)
      · simp only [hdir, false_and, if_false]
        by_cases hmay : ownerMay (w.cache.inode i).mode O_RDWR = true
        · simp only [hmay, Bool.not_true, Bool.false_eq_true, and_false, if_false]
          exact hok ⟨i, hi, hdir, hmay⟩ i hi
        · simp only [(Bool.not_eq_true _).mp hmay, Bool.not_false, and_true, if_true]
          refine herr ?_ EACCES
          rintro ⟨j, h, -, hm⟩
          exact hmay (honly h ▸ hm)

/-- The last part of an open succeeds when the cache file can be opened. -/
theorem wp_openHandle_natural (hA : OnlyNatural A) (nasFH : Int) :
    Prog.wp (env A S) (openHandle cfg path nasFH) (fun r w' => Available cfg path r w' ↔
      w.db.HasFile (cfsPathToFileName path) ∧ w.OpensRdwr (cfg.fullCachePath path)) w := by
  unfold openHandle
  rw [Prog.wp_bind]
  refine wp_openFile_rdwr hA (fun hopen i hi => ?_) fun hshut e => ?_
  · have hret : ¬ logSyscall (.ok (w.nextFd : Int)) < 0 := by simp [logSyscall]
    rw [Prog.wp_bind]
    apply wp_mallocHandle
    rw [Prog.wp_pure, if_neg hret]
    refine ⟨fun h => ⟨h.2.1, hopen⟩, fun h => ⟨rfl, h.1, w.nextHandle, ⟨nasFH, w.nextFd⟩, i, rfl,
      ?_, hi, ?_⟩⟩
    · exact Function.update_self _ _ _
    · exact Function.update_self _ _ _
  · have he := e.pos
    have hneg : logSyscall (.error e) < 0 := by
      simp only [logSyscall]
      omega
    rw [Prog.wp_bind]
    apply wp_mallocHandle
    rw [Prog.wp_pure, if_pos hneg]
    exact iff_of_false (fun h => (Int.ne_of_lt hneg) h.1) fun h => hshut h.2

theorem World.not_opensRdwr_of_free {p : Path} (hfree : w.cache.lookup p = none) :
    ¬ w.OpensRdwr p := by
  rintro ⟨i, hi, -⟩
  obtain ⟨j, hj⟩ := Fs.lookup_of_follow hi
  exact nomatch hfree.symm.trans hj

/-- A new cache file opens for reading and writing when its permission bits say so. -/
theorem World.opensRdwr_mkNode {w' : World} {p : Path} {mode : Nat} {now : Int}
    (hfs : w.cache.mkNode p .reg mode now = .ok w'.cache) :
    w'.OpensRdwr p ↔ ownerMay mode O_RDWR = true := by
  have hlook := Fs.lookup_mkNode hfs p
  rw [if_pos rfl] at hlook
  have hinode := Fs.inode_mkNode hfs w.cache.nextIno
  rw [if_pos rfl] at hinode
  have hfollow := Fs.follow_of_lookup hlook (by simp [hinode]) Fs.maxLinks
  constructor
  · rintro ⟨i, hi, -, hmay⟩
    rwa [Except.ok.inj (hi.symm.trans hfollow), hinode] at hmay
  · intro hmay
    exact ⟨_, hfollow, by simp [hinode], by rwa [hinode]⟩

/-- `cfs_mkCacheNod` of a regular file leaves what is under the name, or makes a file. -/
theorem wp_mkNod_natural (hA : OnlyNatural A) {p : Path} {mode : Nat} {Q : Int → World → Prop}
    (hold : ∀ r, (w.cache.lookup p).isSome = true ∨ w.cache.isDir (dirname p) = false ∨
      NAME_MAX < (basename p).length → Q r w)
    (hnew : ∀ r now fs fds nextFd, w.cache.mkNode p .reg (w.granted mode) now = .ok fs →
      Q r { w with cache := fs, fds, nextFd }) :
    Prog.wp (env A S) (mkNod .cache p .reg mode) Q w := by
  unfold mkNod
  simp only [Prog.wp_bind, ask, wp_call, Prog.wp_ret]
  intro c hc
  simp only [handle, World.creat, (hA _ _ _ hc).1, World.fs]
  cases hfs : w.cache.mkNode p .reg (w.granted mode) c.now with
  | error e => exact hold _ (Fs.mkNode_error_iff.mp ⟨e, hfs⟩)
  | ok fs =>
      simp only [Prog.wp_bind, wp_call, Prog.wp_ret, Prog.wp_pure]
      intro c' _
      simp only [handle, World.close]
      split
      · exact hnew _ _ _ _ _ hfs
      · exact hnew _ _ _ _ _ hfs
      · exact hnew _ _ _ _ _ hfs

/-- `cfs_mkCacheNod` keeps the rows, and what is under the cache name can be opened if it
    could before or, where nothing was, if a new file can be made and opened. -/
theorem wp_mkCacheNod_natural (hA : OnlyNatural A) {mode : Nat}
    (hfile : w.db.HasFile (cfsPathToFileName path))
    (hdir : w.cache.isDir (dirname (cfg.fullCachePath path)) = true) :
    Prog.wp (env A S) (cfsMkCacheNod (cfg.fullCachePath path) .reg mode) (fun _ w' =>
      w'.db.HasFile (cfsPathToFileName path) ∧ (w'.OpensRdwr (cfg.fullCachePath path) ↔
        if (w.cache.lookup (cfg.fullCachePath path)).isSome then
          w.OpensRdwr (cfg.fullCachePath path)
        else w.MakesRdwr (cfg.fullCachePath path) mode)) w := by
  refine wp_mkNod_natural hA (fun _ hold => ⟨hfile, ?_⟩) fun _ now fs fds nextFd hfs =>
    ⟨hfile, ?_⟩
  · by_cases htaken : (w.cache.lookup (cfg.fullCachePath path)).isSome = true
    · rw [if_pos htaken]
    · -- the directory being there, the name is too long
      have hlong : NAME_MAX < (basename (cfg.fullCachePath path)).length :=
        (hold.resolve_left htaken).resolve_left (by simp [hdir])
      rw [if_neg htaken]
      exact iff_of_false (World.not_opensRdwr_of_free (Option.not_isSome_iff_eq_none.mp htaken))
        fun h => absurd h.1 (Nat.not_le.mpr hlong)
  · have hok : ¬ ∃ e, w.cache.mkNode (cfg.fullCachePath path) .reg (w.granted mode) now =
        .error e := by
      rintro ⟨e, he⟩
      cases hfs.symm.trans he
    have hposs := mt Fs.mkNode_error_iff.mpr hok
    rw [if_neg fun htaken => hposs (Or.inl htaken)]
    refine (World.opensRdwr_mkNode hfs).trans ?_
    exact (and_iff_right (Nat.not_lt.mp fun hlong => hposs (Or.inr (Or.inr hlong)))).symm

/-- Without a copy to use, there is a row afterwards, and what is under the cache name
    is what was there, or a file with the permissions of the NAS file. -/
theorem wp_ensureCached_natural (hA : OnlyNatural A) {st : Stat} (hreg : st.kind = .reg)
    (hdir : w.cache.isDir (dirname (cfg.fullCachePath path)) = true) :
    Prog.wp (env A S) (ensureCached cfg path st false) (fun _ w' =>
      w'.db.HasFile (cfsPathToFileName path) ∧ (w'.OpensRdwr (cfg.fullCachePath path) ↔
        if (w.cache.lookup (cfg.fullCachePath path)).isSome then
          w.OpensRdwr (cfg.fullCachePath path)
        else w.MakesRdwr (cfg.fullCachePath path) st.mode)) w := by
  unfold ensureCached
  rw [if_neg (by decide), hreg, Prog.wp_bind]
  refine wp_createFile hA.sql (fun hold => ?_) fun db hdb => ?_
  · rw [Prog.wp_bind]
    exact wp_mkCacheNod_natural hA hold hdir
  · rw [Prog.wp_bind]
    exact wp_mkCacheNod_natural (w := { w with metadata := { w.metadata with db := db } }) hA
      ((Db.hasFile_insertFile hdb _).mpr (Or.inr rfl)) hdir

theorem wp_lstat_natural (hA : OnlyNatural A) {side : Side} {p : Path}
    {Q : SysRet Int × Stat → World → Prop}
    (hok : ∀ i, (w.fs side).lookup p = some i → Q (.ok 0, ((w.fs side).inode i).stat) w)
    (herr : (w.fs side).lookup p = none →
      ∀ c op w' e, A c op w' → Q (.error e, c.stat) w) :
    Prog.wp (env A S) (ask (.lstat side p)) Q w := by
  simp only [ask, wp_call, Prog.wp_ret]
  intro c hc
  simp only [handle, World.lstat, (hA _ _ _ hc).1]
  cases hi : (w.fs side).lookup p with
  | none => exact herr hi c _ _ _ hc
  | some i => exact hok i hi

/-- Only a directory under the cache name resists being dropped. -/
theorem wp_dropCached_natural (hA : OnlyNatural A) {ci : Ino}
    (hci : w.cache.lookup (cfg.fullCachePath path) = some ci) {Q : Unit → World → Prop}
    (hgone : (w.cache.inode ci).kind ≠ .dir → Q () (w.forget cfg path))
    (hleft : (w.cache.inode ci).kind = .dir →
      Q () { w with metadata := w.metadata.deleteFile (cfsPathToFileName path) }) :
    Prog.wp (env A S) (dropCached cfg path) Q w := by
  unfold dropCached
  rw [Prog.wp_bind]
  apply wp_deleteFile hA.sql
  simp only [Prog.wp_bind, ask, wp_call, Prog.wp_ret, handle, Prog.wp_pure]
  intro c hc
  refine nameCall_post (Q := fun _ => Q ()) (hA _ _ _ hc) (fun fs hfs => ?_) fun e he => ?_
  · have hunlink : w.cache.unlink (cfg.fullCachePath path) = .ok fs := hfs
    rw [Fs.unlink_eq_ok hunlink]
    refine hgone fun hkind => ?_
    simp only [Fs.unlink, hci, if_pos hkind] at hunlink
    cases hunlink
  · have hunlink : w.cache.unlink (cfg.fullCachePath path) = .error e := he
    refine hleft ?_
    by_contra hkind
    simp only [Fs.unlink, hci, if_neg hkind] at hunlink
    cases hunlink

/-- Where there is a row: a copy that is behind is dropped.  Without a copy the content
    of an uninitialized buffer decides. -/
theorem wp_checkUpToDate_natural (hA : OnlyNatural A) {st : Stat} {Q : Bool → World → Prop}
    (hkeep : ∀ ci, w.cache.lookup (cfg.fullCachePath path) = some ci →
      ¬ (w.cache.inode ci).mtime < st.mtime → Q true w)
    (hdrop : ∀ ci, w.cache.lookup (cfg.fullCachePath path) = some ci →
      (w.cache.inode ci).mtime < st.mtime → (w.cache.inode ci).kind ≠ .dir →
      Q false (w.forget cfg path))
    (hstuck : ∀ ci, w.cache.lookup (cfg.fullCachePath path) = some ci →
      (w.cache.inode ci).mtime < st.mtime → (w.cache.inode ci).kind = .dir →
      Q false { w with metadata := w.metadata.deleteFile (cfsPathToFileName path) })
    (garbage : w.cache.lookup (cfg.fullCachePath path) = none →
      ∀ c op w', A c op w' → st.mtime ≤ c.stat.mtime)
    (hlost : w.cache.lookup (cfg.fullCachePath path) = none → Q true w) :
    Prog.wp (env A S) (checkUpToDate cfg path st true) Q w := by
  unfold checkUpToDate cfsGetCacheattr
  rw [if_pos rfl, Prog.wp_bind, Prog.wp_bind]
  refine wp_lstat_natural hA (fun ci hci => ?_) fun hnone c op w' e hc => ?_
  · rw [Prog.wp_pure, Prog.wp_ite]
    split
    · next hold =>
        rw [Prog.wp_bind]
        exact wp_dropCached_natural hA hci (hdrop ci hci hold) (hstuck ci hci hold)
    · next hnew => exact hkeep ci hci hnew
  · rw [Prog.wp_pure, Prog.wp_ite, if_neg (Int.not_lt.mpr (garbage hnone c op w' hc))]
    exact hlost hnone

/-- The open of a regular file on the NAS succeeds. -/
theorem wp_openFile_nas (hA : OnlyNatural A) {p : Path} {flags : Nat} {ni : Ino}
    (hni : w.nas.lookup p = some ni) (hreg : (w.nas.inode ni).kind = .reg)
    {Q : SysRet Int → World → Prop} (hQ : ∀ f, Q (.ok w.nextFd) (w.addFd f)) :
    Prog.wp (env A S) (ask (.openFile .nas p flags)) Q w := by
  simp only [ask, wp_call, Prog.wp_ret]
  intro c hc
  have hfollow := Fs.follow_of_lookup hni (by simp [hreg]) Fs.maxLinks
  simp only [handle, World.openFile, (hA _ _ _ hc).1, World.fs, hfollow, hreg, reduceCtorEq,
    false_and, if_false]
  exact hQ _

/-- An open with the row and the copy as `w` has them: `garbage` is what a call of
    `lstat` that fails leaves in its buffer. -/
theorem wp_cfsOpen_natural (hA : OnlyNatural A) {ni : Ino}
    (hni : w.nas.lookup (cfg.fullNasPath path) = some ni) (hreg : (w.nas.inode ni).kind = .reg)
    (hdir : w.cache.isDir (dirname (cfg.fullCachePath path)) = true)
    (garbage : w.db.HasFile (cfsPathToFileName path) →
      w.cache.lookup (cfg.fullCachePath path) = none →
      ∀ c op w', A c op w' → (w.nas.inode ni).mtime ≤ c.stat.mtime) {flags : Nat} :
    Prog.wp (env A S) (cfsOpen cfg path flags)
      (fun r w' => Available cfg path r w' ↔ CopyOpens cfg path ni w) w := by
  unfold cfsOpen
  rw [Prog.wp_bind]
  refine wp_openFile_nas hA hni hreg fun f => ?_
  have hret : ¬ logSyscall (.ok (w.nextFd : Int)) < 0 := by simp [logSyscall]
  have hpresent : decide ((if (w.db.fileId? (cfsPathToFileName path)).isSome then (1 : Int)
      else 0) ≠ 0) = decide (w.db.HasFile (cfsPathToFileName path)) := by
    by_cases hfile : w.db.HasFile (cfsPathToFileName path)
    · have hsome := mt Db.fileId?_eq_none_iff.mp (not_not.mpr hfile)
      simp [hfile, Option.isSome_iff_ne_none.mpr hsome]
    · simp [hfile, Db.fileId?_eq_none_iff.mpr hfile]
  rw [Prog.wp_bind]
  apply wp_isFileInCache hA.sql
  have hdb : (w.addFd f).db = w.db := rfl
  rw [hdb, hpresent, if_neg hret, Prog.wp_bind]
  unfold cfsGetNASattr
  rw [Prog.wp_bind]
  refine wp_lstat_natural hA (fun i hi => ?_) fun hnone =>
    absurd (hni.symm.trans hnone) (Option.some_ne_none ni)
  obtain rfl : ni = i := Option.some.inj (hni.symm.trans hi)
  rw [Prog.wp_pure, Prog.wp_bind]
  -- the copy is opened as it is, or after a new one has been made
  have hopen : ∀ w₁ : World, (w₁.db.HasFile (cfsPathToFileName path) ∧
      w₁.OpensRdwr (cfg.fullCachePath path) ↔ CopyOpens cfg path ni w) →
      Prog.wp (env A S) (openHandle cfg path w.nextFd)
        (fun r w' => Available cfg path r w' ↔ CopyOpens cfg path ni w) w₁ :=
    fun w₁ h => Prog.wp_mono (wp_openHandle_natural hA _) fun _ _ h' => h'.trans h
  have hmake : ∀ w₁ : World, w₁.cache.isDir (dirname (cfg.fullCachePath path)) = true →
      ((if (w₁.cache.lookup (cfg.fullCachePath path)).isSome then
        w₁.OpensRdwr (cfg.fullCachePath path)
      else w₁.MakesRdwr (cfg.fullCachePath path) (w.nas.inode ni).mode) ↔
        CopyOpens cfg path ni w) →
      Prog.wp (env A S) (ensureCached cfg path (w.nas.inode ni).stat false >>= fun _ =>
        openHandle cfg path w.nextFd)
        (fun r w' => Available cfg path r w' ↔ CopyOpens cfg path ni w) w₁ := by
    intro w₁ hdir₁ h
    rw [Prog.wp_bind]
    exact Prog.wp_mono (wp_ensureCached_natural hA hreg hdir₁) fun _ w' h' =>
      hopen w' ((and_iff_right h'.1).trans (h'.2.trans h))
  by_cases hfile : w.db.HasFile (cfsPathToFileName path)
  · rw [decide_eq_true hfile]
    have hkeep : ∀ _ : CopyOpens cfg path ni w ↔ w.OpensRdwr (cfg.fullCachePath path),
        Prog.wp (env A S) (ensureCached cfg path (w.nas.inode ni).stat true >>= fun _ =>
          openHandle cfg path w.nextFd) (fun r w' => Available cfg path r w' ↔
            CopyOpens cfg path ni w) (w.addFd f) := by
      intro hcond
      unfold ensureCached
      rw [if_pos rfl, Prog.wp_bind, Prog.wp_pure]
      refine hopen (w.addFd f) ?_
      rw [hcond]
      exact and_iff_right hfile
    refine wp_checkUpToDate_natural hA (fun ci hci hnew => hkeep ?_) (fun ci hci hold hkind => ?_)
      (fun ci hci hold hkind => ?_) (garbage hfile) fun hnone => hkeep ?_
    · have hci : w.cache.lookup (cfg.fullCachePath path) = some ci := hci
      rw [CopyOpens, hci]
      exact iff_of_eq (if_neg fun h => hnew h.2)
    · have hci : w.cache.lookup (cfg.fullCachePath path) = some ci := hci
      have hdirname : dirname (cfg.fullCachePath path) ≠ cfg.fullCachePath path := by
        intro heq
        rw [heq, Fs.isDir, hci] at hdir
        exact hkind (of_decide_eq_true hdir)
      have hgone := Fs.lookup_dropName w.cache (cfg.fullCachePath path) (cfg.fullCachePath path)
      rw [if_pos rfl] at hgone
      refine hmake ((w.addFd f).forget cfg path) ?_ ?_
      · have hkept := Fs.lookup_dropName w.cache (cfg.fullCachePath path)
          (dirname (cfg.fullCachePath path))
        rw [if_neg hdirname] at hkept
        simp only [World.forget, World.addFd, Fs.isDir, hkept]
        exact hdir
      · simp only [World.forget, World.addFd, hgone, Option.isSome_none, Bool.false_eq_true,
          if_false]
        rw [CopyOpens, hci]
        exact (iff_of_eq (if_pos ⟨hfile, hold⟩)).trans (and_iff_right hkind) |>.symm
    · have hci : w.cache.lookup (cfg.fullCachePath path) = some ci := hci
      have hkind : (w.cache.inode ci).kind = .dir := hkind
      refine hmake { w.addFd f with metadata := w.metadata.deleteFile _ } hdir ?_
      simp only [World.addFd, hci, Option.isSome_some, if_true]
      rw [CopyOpens, hci]
      refine iff_of_false ?_ fun h => ((iff_of_eq (if_pos ⟨hfile, hold⟩)).mp h).1 hkind
      rintro ⟨j, hj, hne, -⟩
      have hfollow := Fs.follow_of_lookup hci (fun t => by simp [hkind]) Fs.maxLinks
      rw [Except.ok.inj (hj.symm.trans hfollow)] at hne
      exact hne hkind
    · have hnone : w.cache.lookup (cfg.fullCachePath path) = none := hnone
      rw [CopyOpens, hnone]
      exact iff_of_false (fun h => h.1 hfile) (World.not_opensRdwr_of_free hnone)
  · rw [decide_eq_false hfile]
    unfold checkUpToDate
    rw [if_neg (by decide), Prog.wp_pure]
    refine hmake (w.addFd f) hdir ?_
    have hcache : (w.addFd f).cache = w.cache := rfl
    rw [CopyOpens, hcache]
    rcases Option.eq_none_or_eq_some (w.cache.lookup (cfg.fullCachePath path)) with hci | ⟨ci, hci⟩
    · rw [hci]
      simp only [Option.isSome_none, Bool.false_eq_true, if_false]
      exact (and_iff_right hfile).symm
    · rw [hci]
      simp only [Option.isSome_some, if_true]
      rw [if_neg fun h => hfile h.1]
      exact Iff.rfl

-- ============================================================================
-- Availability
-- ============================================================================

/-- An open of a regular file succeeds in every execution exactly when the copy can be
    opened or made. -/
theorem open_available_iff {ni : Ino} (hni : w.nas.lookup (cfg.fullNasPath path) = some ni)
    (hreg : (w.nas.inode ni).kind = .reg)
    (hdir : w.cache.isDir (dirname (cfg.fullCachePath path)) = true) (flags : Nat) :
    (∀ r w', Prog.Exec (env natural False) (cfsOpen cfg path flags) w r w' →
      Available cfg path r w') ↔ CopyOpens cfg path ni w := by
  constructor
  · -- the buffer of a failed `lstat` may hold a time as late as that of the NAS file
    intro h
    let late : Choice := { stat := (w.nas.inode ni).stat }
    have hlate : OnlyNatural fun c _ _ => c = late := by
      rintro c op w' rfl
      exact ⟨rfl, rfl⟩
    have hwp : Prog.wp (env (fun c _ _ => c = late) False) (cfsOpen cfg path flags)
        (fun r w' => Available cfg path r w' ↔ CopyOpens cfg path ni w) w := by
      refine wp_cfsOpen_natural hlate hni hreg hdir fun _ _ c op w' hc => ?_
      rw [hc]
      exact le_refl _
    obtain ⟨r, w', hrun, hiff⟩ := Prog.wp_run (E := env (fun c _ _ => c = late) False) not_false hwp
      (Prog.along_of_allow (fun _ _ _ => rfl) _ _)
    refine hiff.mp (h r w' (Prog.exec_mono (E := env (fun c _ _ => c = late) False)
      (env natural False) rfl (fun c op w' hc => hlate c op w' hc) (Prog.exec_of_run
        (Prog.along_of_allow (fun _ _ _ => rfl) _ _) hrun)))
  · intro hcond r w' he
    refine (Prog.wp_exec (wp_cfsOpen_natural (fun _ _ _ h => h) hni hreg hdir ?_) he).mpr hcond
    intro hfile hnone
    rw [CopyOpens, hnone] at hcond
    exact absurd hfile hcond.1

end Opening

/-- The first open of a file its owner may read and write. -/
theorem open_available_fresh : ∃ r w', Prog.Exec (env natural False)
    (cfsOpen sampleConfig samplePath 2) (sampleWorld [1, 2, 3]) r w' ∧
      Available sampleConfig samplePath r w' := by
  have hcond : CopyOpens sampleConfig samplePath 1 (sampleWorld [1, 2, 3]) :=
    ⟨not_hasFile_empty _, by decide, by decide⟩
  obtain ⟨x, hx⟩ : ∃ x, Prog.runAllowed (env natural False) (fun _ => {})
      (cfsOpen sampleConfig samplePath 2) (sampleWorld [1, 2, 3]) = some x :=
    Option.isSome_iff_exists.mp (by decide)
  have he := Prog.exec_of_runAllowed _ hx
  exact ⟨x.1, x.2, he, (open_available_iff rfl rfl (by decide) 2).mpr hcond _ _ he⟩

/-- A callback has been served, whatever has failed on the way. -/
def Served (cfg : Config) (w w' : World) : Prop :=
  (∃ (rq : Request) (fuel : Nat), Prog.Exec (env anyOutcome True) (rq.prog cfg fuel) w () w') ∨
    ∃ (rq : NasRequest) (fuel : Nat) (ret : Int),
      Prog.Exec (env anyOutcome True) (rq.prog cfg fuel) w ret w'

/-- A mount whose file has been made read-only through the daemon. -/
def sampleReadOnly : World :=
  ((Prog.runAllowed (env anyOutcome True) (fun _ => {})
    ((NasRequest.cfsChmod samplePath 0o444).prog sampleConfig 1) (sampleWorld [1, 2, 3])).map
      Prod.snd).getD (sampleWorld [1, 2, 3])

/-- A file that has been made read-only cannot be opened, not even for reading. -/
theorem open_not_available : ¬ ∀ (cfg : Config) (P : Path → Prop) (w₀ w : World) (path : Path)
    (ni : Ino) (flags : Nat), Fresh cfg P w₀ → Relation.ReflTransGen (Served cfg) w₀ w → P path →
    w.nas.lookup (cfg.fullNasPath path) = some ni → (w.nas.inode ni).kind = .reg →
    w.cache.isDir (dirname (cfg.fullCachePath path)) = true →
    ∀ r w', Prog.Exec (env natural False) (cfsOpen cfg path flags) w r w' →
      Available cfg path r w' := by
  intro h
  have hchmod : Prog.runAllowed (env anyOutcome True) (fun _ => {})
      ((NasRequest.cfsChmod samplePath 0o444).prog sampleConfig 1) (sampleWorld [1, 2, 3]) =
      some (0, sampleReadOnly) := rfl
  have hserved : Served sampleConfig (sampleWorld [1, 2, 3]) sampleReadOnly :=
    Or.inr ⟨.cfsChmod samplePath 0o444, 1, 0, Prog.exec_of_runAllowed _ hchmod⟩
  have hrun : (Prog.runAllowed (env natural False) (fun _ => {})
      (cfsOpen sampleConfig samplePath 0) sampleReadOnly).map (·.1.1) = some (-13) := by decide
  obtain ⟨⟨r, w'⟩, hr, hret⟩ := Option.map_eq_some_iff.mp hrun
  have havail := h sampleConfig (· = samplePath) _ sampleReadOnly samplePath 1 0
    (sampleWorld_fresh _) (.single hserved) rfl (by decide) (by decide) (by decide) r w'
    (Prog.exec_of_runAllowed _ hr)
  have hzero : r.1 = 0 := havail.1
  exact absurd (hret.symm.trans hzero) (by decide)

end CacheFs
