/-
  CacheFs.OpenSpec

  What `cfs_open` does to the cached copy of a regular file when every call
  succeeds: it keeps the copy, which then is not older than the NAS file, or it
  starts a new, empty one.

  `Kept` and `Renewed` describe the two outcomes; in both the new handle refers to
  the NAS file and to the cache file that is under the cache name afterwards.
-/

import CacheFs.IoSpec

namespace CacheFs

open CacheFs.Effect
open CacheFs.Posix

/-- The copy of `path` is the same as before, and not older than the file. -/
structure Kept (cfg : Config) (path : Path) (ni : Ino) (w w' : World) : Prop where
  metadata : w'.metadata = w.metadata
  cache : w'.cache = w.cache
  hasFile : w.db.HasFile (cfsPathToFileName path)
  fresh : ∃ ci, w.cache.lookup (cfg.fullCachePath path) = some ci ∧
    (w.nas.inode ni).mtime ≤ (w.cache.inode ci).mtime

/-- The copy of `path` is a new, empty file without blocks. -/
structure Renewed (cfg : Config) (A : Choice → Call → World → Prop) (path : Path)
    (w w' : World) : Prop where
  wf : w'.db.WF
  metaBlockSize : w'.metadata.metaBlockSize = w.metadata.metaBlockSize
  hasFile : ∀ n, w'.db.HasFile n ↔ w.db.HasFile n ∨ n = cfsPathToFileName path
  recorded : ∀ n o, w'.db.Recorded n o ↔ w.db.Recorded n o ∧ n ≠ cfsPathToFileName path
  lookup : ∀ x, w'.cache.lookup x =
    if x = cfg.fullCachePath path then some w.cache.nextIno else w.cache.lookup x
  nextIno : w'.cache.nextIno = w.cache.nextIno + 1
  inode : ∃ mode now, Clock A now ∧ ∀ i, w'.cache.inode i =
    if i = w.cache.nextIno then { kind := .reg, mode, mtime := now } else w.cache.inode i

/-- What an open leaves behind. -/
structure OpenPost (cfg : Config) (A : Choice → Call → World → Prop) (path : Path) (fh : Nat)
    (w w' : World) : Prop where
  nas : w'.nas = w.nas
  copy : ∃ ni ci, w.nas.lookup (cfg.fullNasPath path) = some ni ∧
    w'.cache.lookup (cfg.fullCachePath path) = some ci ∧ Opened w' fh ni ci ∧
    (Kept cfg path ni w w' ∨ Renewed cfg A path w w')

section Specs

variable {cfg : Config} {A : Choice → Call → World → Prop} {w : World} {path : Path}

theorem wp_cfsGetNASattr (hA : AllSucceed A) {Q : Stat → World → Prop}
    (hQ : ∀ i, w.nas.lookup (cfg.fullNasPath path) = some i → Q (w.nas.inode i).stat w) :
    Prog.wp (env A True) (cfsGetNASattr cfg path) Q w := by
  unfold cfsGetNASattr
  rw [Prog.wp_bind]
  exact wp_lstat hA hQ

theorem wp_cfsGetCacheattr (hA : AllSucceed A) {Q : Stat → World → Prop}
    (hQ : ∀ i, w.cache.lookup (cfg.fullCachePath path) = some i → Q (w.cache.inode i).stat w) :
    Prog.wp (env A True) (cfsGetCacheattr cfg path) Q w := by
  unfold cfsGetCacheattr
  rw [Prog.wp_bind]
  exact wp_lstat hA hQ

/-- The world after the copy of `path` has been dropped. -/
def World.forget (w : World) (cfg : Config) (path : Path) : World :=
  { w with cache := w.cache.dropName (cfg.fullCachePath path)
           metadata := w.metadata.deleteFile (cfsPathToFileName path) }

theorem wp_dropCached (hA : AllSucceed A) {Q : Unit → World → Prop}
    (hQ : Q () (w.forget cfg path)) : Prog.wp (env A True) (dropCached cfg path) Q w := by
  unfold dropCached
  rw [Prog.wp_bind]
  apply wp_deleteFile hA.sql
  rw [Prog.wp_bind]
  exact wp_unlink hA hQ

/-- A copy that is older than the file is dropped. -/
theorem wp_checkUpToDate (hA : AllSucceed A) {nasFileInfo : Stat} {present : Bool}
    {Q : Bool → World → Prop} (habsent : present = false → Q false w)
    (hkeep : ∀ ci, present = true → w.cache.lookup (cfg.fullCachePath path) = some ci →
      nasFileInfo.mtime ≤ (w.cache.inode ci).mtime → Q true w)
    (hdrop : present = true → Q false (w.forget cfg path)) :
    Prog.wp (env A True) (checkUpToDate cfg path nasFileInfo present) Q w := by
  unfold checkUpToDate
  cases present with
  | false => exact habsent rfl
  | true =>
      rw [if_pos rfl, Prog.wp_bind]
      refine wp_cfsGetCacheattr hA fun ci hci => ?_
      rw [Prog.wp_ite]
      split
      · rw [Prog.wp_bind]
        exact wp_dropCached hA (hdrop rfl)
      · next hge => exact hkeep ci rfl hci (by simpa [Inode.stat] using hge)

/-- A node is made and closed again. -/
theorem wp_cfsMkCacheNod (hA : AllSucceed A) {cachePath : Path} {mode : Nat}
    {Q : Int → World → Prop}
    (hQ : ∀ fs now fds nextFd, Clock A now →
      w.cache.mkNode cachePath .reg (w.granted mode) now = .ok fs →
      (∀ fd < (w.nextFd : Int), fds fd = w.fds fd) → w.nextFd ≤ nextFd →
      Q 0 { w with cache := fs, fds, nextFd }) :
    Prog.wp (env A True) (cfsMkCacheNod cachePath .reg mode) Q w := by
  unfold cfsMkCacheNod mkNod
  rw [Prog.wp_bind]
  refine wp_creat hA fun fs now hnow hfs => ?_
  dsimp only
  rw [Prog.wp_bind]
  apply wp_close hA
  refine hQ fs now _ _ hnow hfs (fun fd hfd => ?_) (Nat.le_succ _)
  have hne : fd ≠ (w.nextFd : Int) := by omega
  have hfds : (w.setFs .cache fs).fds = w.fds := rfl
  have hnext : (w.setFs .cache fs).nextFd = w.nextFd := rfl
  simp only [World.addFd, hfds, hnext, Function.update_of_ne hne]

/-- `w₁` is `w` without a trace of the copy of `path`. -/
structure Blank (cfg : Config) (path : Path) (w w₁ : World) : Prop where
  nas : w₁.nas = w.nas
  wf : w₁.db.WF
  metaBlockSize : w₁.metadata.metaBlockSize = w.metadata.metaBlockSize
  hasFile : ∀ n, w₁.db.HasFile n ↔ w.db.HasFile n ∧ n ≠ cfsPathToFileName path
  recorded : ∀ n o, w₁.db.Recorded n o ↔ w.db.Recorded n o ∧ n ≠ cfsPathToFileName path
  lookup : ∀ x, x ≠ cfg.fullCachePath path → w₁.cache.lookup x = w.cache.lookup x
  inode : w₁.cache.inode = w.cache.inode
  nextIno : w₁.cache.nextIno = w.cache.nextIno

theorem Blank.forget (hwf : w.db.WF) : Blank cfg path w (w.forget cfg path) where
  nas := rfl
  wf := hwf.deleteFile
  metaBlockSize := rfl
  hasFile := Db.hasFile_deleteFile
  recorded := hwf.recorded_deleteFile
  lookup x hx := by simp [World.forget, hx]
  inode := rfl
  nextIno := rfl

/-- A file without a row has no copy. -/
theorem Blank.refl (hwf : w.db.WF) (h : ¬ w.db.HasFile (cfsPathToFileName path)) :
    Blank cfg path w w where
  nas := rfl
  wf := hwf
  metaBlockSize := rfl
  hasFile _ := ⟨fun hn => ⟨hn, fun heq => h (heq ▸ hn)⟩, And.left⟩
  recorded _ _ := ⟨fun hr => ⟨hr, fun heq => h (heq ▸ hr.hasFile)⟩, And.left⟩
  lookup _ _ := rfl
  inode := rfl
  nextIno := rfl

/-- The new copy of a file that has none. -/
theorem Blank.renewed {w₁ w' : World} (hb : Blank cfg path w w₁) {db : Db} {fs : Fs}
    {size mode : Nat} {now : Int}
    (hi : w₁.db.insertFile (cfsPathToFileName path) size = some db)
    (hfs : w₁.cache.mkNode (cfg.fullCachePath path) .reg mode now = .ok fs) (hnow : Clock A now)
    (hm : w'.metadata = { w₁.metadata with db }) (hc : w'.cache = fs) :
    Renewed cfg A path w w' where
  wf := by
    rw [World.db, hm]
    exact hb.wf.insertFile hi
  metaBlockSize := by rw [hm, ← hb.metaBlockSize]
  hasFile n := by
    rw [World.db, hm, Db.hasFile_insertFile hi, hb.hasFile]
    tauto
  recorded n o := by rw [World.db, hm, hb.wf.recorded_insertFile hi, hb.recorded]
  lookup x := by
    rw [hc, Fs.lookup_mkNode hfs, hb.nextIno]
    split
    · rfl
    · next hx => exact hb.lookup x hx
  nextIno := by rw [hc, Fs.nextIno_mkNode hfs, hb.nextIno]
  inode := ⟨mode, now, hnow, fun i => by rw [hc, Fs.inode_mkNode hfs, hb.nextIno, hb.inode]⟩

/-- The cache file is opened and the handle made. -/
theorem wp_openHandle (hA : AllSucceed A) {nasFH : Int} {ni ci : Ino} {r wr ap : Bool}
    (hnas : w.fds nasFH = some ⟨.nas, ni, r, wr, ap⟩) (hlt : nasFH < w.nextFd)
    (hlook : w.cache.lookup (cfg.fullCachePath path) = some ci)
    (hkind : (w.cache.inode ci).kind = .reg) {Q : Int × Option Nat → World → Prop}
    (hQ : ∀ fh w', w'.nas = w.nas → w'.cache = w.cache → w'.metadata = w.metadata →
      Opened w' fh ni ci → Q (0, some fh) w') :
    Prog.wp (env A True) (openHandle cfg path nasFH) Q w := by
  unfold openHandle
  rw [Prog.wp_bind]
  refine wp_openFile hA fun i hi => ?_
  have hino : i = ci := by
    have hfollow := Fs.follow_of_lookup hlook (by simp [hkind]) Fs.maxLinks
    exact Except.ok.inj (hi.symm.trans hfollow)
  have hret : ¬ logSyscall (.ok (w.nextFd : Int)) < 0 := by simp [logSyscall]
  rw [Prog.wp_bind]
  apply wp_mallocHandle
  rw [Prog.wp_pure, if_neg hret]
  refine hQ _ _ rfl rfl rfl ⟨⟨nasFH, w.nextFd⟩, Function.update_self _ _ _, ⟨r, wr, ap, ?_⟩,
    opensRead O_RDWR, opensWrite O_RDWR, ?_⟩
  · have hne : nasFH ≠ (w.nextFd : Int) := by omega
    simp only [World.addHandle, World.addFd, Function.update_of_ne hne]
    exact hnas
  · simp only [World.addHandle, World.addFd, Function.update_self, hino]
    rfl

/-- A new copy is made and the handle for it. -/
theorem wp_renew (hA : AllSucceed A) {w₁ : World} (hb : Blank cfg path w w₁) {nasFileInfo : Stat}
    (hreg : nasFileInfo.kind = .reg) {nasFH : Int} {ni : Ino} {r wr ap : Bool}
    (hni : w.nas.lookup (cfg.fullNasPath path) = some ni)
    (hnas : w₁.fds nasFH = some ⟨.nas, ni, r, wr, ap⟩) (hlt : nasFH < w₁.nextFd)
    {Q : Int × Option Nat → World → Prop}
    (hQ : ∀ fh w', OpenPost cfg A path fh w w' → Q (0, some fh) w') :
    Prog.wp (env A True) (ensureCached cfg path nasFileInfo false)
      (fun _ => Prog.wp (env A True) (openHandle cfg path nasFH) Q) w₁ := by
  have hnone : ¬ w₁.db.HasFile (cfsPathToFileName path) := fun h => ((hb.hasFile _).mp h).2 rfl
  unfold ensureCached
  rw [if_neg (by decide), Prog.wp_bind]
  refine wp_createFile hA.sql (fun h => absurd h hnone) fun db hdb => ?_
  rw [Prog.wp_bind, hreg]
  refine wp_cfsMkCacheNod hA fun fs now fds nextFd hnow hfs hold hle => ?_
  rw [Prog.wp_pure]
  have hlook := Fs.lookup_mkNode hfs (cfg.fullCachePath path)
  rw [if_pos rfl] at hlook
  have hkind : (fs.inode w₁.cache.nextIno).kind = .reg := by rw [Fs.inode_mkNode hfs, if_pos rfl]
  have hfd : fds nasFH = some ⟨.nas, ni, r, wr, ap⟩ := (hold _ hlt).trans hnas
  refine wp_openHandle (w := { w₁ with
      cache := fs, fds := fds, nextFd := nextFd, metadata := { w₁.metadata with db := db } })
    hA hfd (lt_of_lt_of_le hlt (Int.ofNat_le.mpr hle)) hlook hkind
    fun fh w' hnas' hcache' hmeta' hopen => hQ fh w' ⟨hnas'.trans hb.nas, ni, _, hni, ?_, hopen, ?_⟩
  · rw [hcache']
    exact hlook
  · exact Or.inr (hb.renewed hdb hfs hnow hmeta' hcache')

/-- Opening a regular file keeps its copy or renews it. -/
theorem wp_cfsOpen (hA : AllSucceed A) (hwf : w.db.WF) {flags : Nat}
    (hnas : ∀ i, w.nas.lookup (cfg.fullNasPath path) = some i → (w.nas.inode i).kind = .reg)
    (hcache : ∀ i, w.db.HasFile (cfsPathToFileName path) →
      w.cache.lookup (cfg.fullCachePath path) = some i → (w.cache.inode i).kind = .reg)
    {Q : Int × Option Nat → World → Prop}
    (hQ : ∀ fh w', OpenPost cfg A path fh w w' → Q (0, some fh) w') :
    Prog.wp (env A True) (cfsOpen cfg path flags) Q w := by
  unfold cfsOpen
  rw [Prog.wp_bind]
  refine wp_openFile hA fun i hi => ?_
  obtain ⟨ni, hni⟩ := Fs.lookup_of_follow hi
  have hreg := hnas ni hni
  have hino : i = ni :=
    Except.ok.inj (hi.symm.trans (Fs.follow_of_lookup hni (by simp [World.fs, hreg]) _))
  subst hino
  set f : OpenFile := ⟨.nas, i, opensRead (nasFlags flags), opensWrite (nasFlags flags),
    opensAppend (nasFlags flags)⟩
  set w₁ := w.addFd f with hw₁
  have hfd : w₁.fds w.nextFd = some f := by simp [hw₁, World.addFd]
  have hlt : (w.nextFd : Int) < w₁.nextFd := by
    simp only [hw₁, World.addFd]
    omega
  have hret : ¬ logSyscall (.ok (w.nextFd : Int)) < 0 := by simp [logSyscall]
  rw [Prog.wp_bind]
  apply wp_isFileInCache hA.sql
  rw [if_neg hret, Prog.wp_bind]
  refine wp_cfsGetNASattr hA fun j hj => ?_
  obtain rfl : j = i := Option.some.inj (hj.symm.trans hni)
  rw [Prog.wp_bind]
  have hdb : w₁.db = w.db := rfl
  refine wp_checkUpToDate hA ?_ ?_ ?_
  · -- there is no row
    intro habsent
    have hnone : ¬ w.db.HasFile (cfsPathToFileName path) := by
      rw [← Db.fileId?_eq_none_iff]
      by_contra hsome
      rw [hdb, Option.isSome_iff_ne_none.mpr hsome] at habsent
      simp at habsent
    have hb : Blank cfg path w w := .refl hwf hnone
    have hb₁ : Blank cfg path w w₁ := ⟨hb.nas, hb.wf, hb.metaBlockSize, hb.hasFile, hb.recorded,
      hb.lookup, hb.inode, hb.nextIno⟩
    rw [Prog.wp_bind]
    exact wp_renew hA hb₁ hreg hni hfd hlt hQ
  · -- there is a row, and the copy is as new as the file
    intro ci hpresent hci hfresh
    have hfile : w.db.HasFile (cfsPathToFileName path) := by
      by_contra hnone
      rw [hdb, Db.fileId?_eq_none_iff.mpr hnone] at hpresent
      simp at hpresent
    rw [Prog.wp_bind]
    unfold ensureCached
    rw [if_pos rfl, Prog.wp_pure]
    refine wp_openHandle hA hfd hlt hci (hcache ci hfile hci) fun fh w' hn hc hm hopen => ?_
    exact hQ fh w' ⟨hn, j, ci, hni, by rw [hc]; exact hci, hopen,
      Or.inl ⟨hm, hc, hfile, ci, hci, hfresh⟩⟩
  · -- the copy was older and has been dropped
    intro _
    have hb : Blank cfg path w (w.forget cfg path) := .forget hwf
    have hb₁ : Blank cfg path w (w₁.forget cfg path) := ⟨hb.nas, hb.wf, hb.metaBlockSize,
      hb.hasFile, hb.recorded, hb.lookup, hb.inode, hb.nextIno⟩
    rw [Prog.wp_bind]
    exact wp_renew hA hb₁ hreg hni hfd hlt hQ

end Specs

end CacheFs
