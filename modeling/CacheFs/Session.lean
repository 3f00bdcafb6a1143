/-
  CacheFs.Session

  Runs of requests on a set of files, and the layout of the cache directory that
  every run keeps.

  A request is one callback with its arguments.  FUSE passes the handle it got from
  the open of the same path and has not released yet; what the model uses of this
  is that the handle's NAS descriptor is open for the file the path names
  (`HandleOf`).  `Layout` says that the files of a run have rows, cache files and
  NAS files of their own; it holds of whatever the bytes are.  So a callback through a
  current handle leaves the other files of the run alone (`Layout.untouched`).
-/

import CacheFs.Apart
import CacheFs.Effect.Trace
import CacheFs.OpenSpec

namespace CacheFs

open CacheFs.Effect
open CacheFs.Posix

-- ============================================================================
-- Requests and runs
-- ============================================================================

inductive Request where
  | cfsOpen (path : Path) (flags : Nat)
  | cfsRead (path : Path) (size offset fh : Nat)
  | cfsWrite (path : Path) (buf : List UInt8) (offset fh : Nat)
  | cfsRelease (path : Path) (fh : Nat)
  | cfsUtime (path : Path) (modtime : Option Int)
  | cfsUnlink (path : Path)

/-- The callback a request runs; `fuel` bounds the turns of the eviction loop. -/
def Request.prog (cfg : Config) (fuel : Nat) : Request → CfsM Unit
  | .cfsOpen path flags => do let _ ← CacheFs.cfsOpen cfg path flags
  | .cfsRead path size offset fh => do let _ ← CacheFs.cfsRead cfg fuel path size offset fh
  | .cfsWrite path buf offset fh => do let _ ← CacheFs.cfsWrite cfg fuel path buf offset fh
  | .cfsRelease path fh => do let _ ← CacheFs.cfsRelease cfg path fh
  | .cfsUtime path modtime => do let _ ← CacheFs.cfsUtime cfg path modtime
  | .cfsUnlink path => do let _ ← CacheFs.cfsUnlink cfg path

/-- One request that meets `cond` has been served. -/
def Step (A : Choice → Call → World → Prop) (cfg : Config) (cond : World → Request → Prop)
    (w w' : World) : Prop :=
  ∃ rq fuel, cond w rq ∧ Prog.Exec (env A True) (rq.prog cfg fuel) w () w'

theorem Step.mono {A B : Choice → Call → World → Prop} {cfg : Config}
    {cond cond' : World → Request → Prop} (hAB : ∀ c op w, A c op w → B c op w) {w w' : World}
    (h : Step A cfg cond w w') (hcond : ∀ rq, cond w rq → cond' w rq) : Step B cfg cond' w w' := by
  obtain ⟨rq, fuel, hrq, he⟩ := h
  exact ⟨rq, fuel, hcond rq hrq, Prog.exec_mono (E := env A True) (env B True) rfl hAB he⟩

/-- Any number of requests that meet `cond`. -/
abbrev Run (A : Choice → Call → World → Prop) (cfg : Config)
    (cond : World → Request → Prop) : World → World → Prop :=
  Relation.ReflTransGen (Step A cfg cond)

/-- `fh` is a live handle for the NAS file `path` names. -/
def HandleOf (cfg : Config) (w : World) (path : Path) (fh : Nat) : Prop :=
  ∃ ni ci, Opened w fh ni ci ∧ w.nas.lookup (cfg.fullNasPath path) = some ni

/-- `fh` is such a handle, and its cache descriptor refers to the file that is now
    under the cache name of `path`. -/
structure Current (cfg : Config) (w : World) (path : Path) (fh : Nat) (ni ci : Ino) : Prop where
  opened : Opened w fh ni ci
  nas : w.nas.lookup (cfg.fullNasPath path) = some ni
  cache : w.cache.lookup (cfg.fullCachePath path) = some ci

/-- The requests on `P`, each through a handle of the file it names. -/
def OnFiles (cfg : Config) (P : Path → Prop) (w : World) : Request → Prop
  | .cfsOpen path _ => P path
  | .cfsRead path _ _ fh | .cfsWrite path _ _ fh | .cfsRelease path fh =>
      P path ∧ HandleOf cfg w path fh
  | _ => False

/-- The world after a request to which the environment answers with the choice `c`
    throughout; the same world where that is not allowed. -/
def World.served (w : World) (A : Choice → Call → World → Prop)
    [∀ c op w, Decidable (A c op w)] (cfg : Config) (c : Choice) (rq : Request) : World :=
  ((Prog.runAllowed (env A True) (fun _ => c) (rq.prog cfg 1) w).map Prod.snd).getD w

theorem run_served {A : Choice → Call → World → Prop} [∀ c op w, Decidable (A c op w)]
    {cfg : Config} {w : World} (c : Choice) (rq : Request)
    (hr : (Prog.runAllowed (env A True) (fun _ => c) (rq.prog cfg 1) w).isSome = true) :
    Prog.runAllowed (env A True) (fun _ => c) (rq.prog cfg 1) w =
      some ((), w.served A cfg c rq) := by
  obtain ⟨r, hr⟩ := Option.isSome_iff_exists.mp hr
  rw [World.served, hr]
  rfl

theorem exec_served {A : Choice → Call → World → Prop} [∀ c op w, Decidable (A c op w)]
    {cfg : Config} {w : World} (c : Choice) (rq : Request)
    (hr : (Prog.runAllowed (env A True) (fun _ => c) (rq.prog cfg 1) w).isSome = true) :
    Prog.Exec (env A True) (rq.prog cfg 1) w () (w.served A cfg c rq) :=
  Prog.exec_of_runAllowed _ (run_served c rq hr)

theorem step_served {A : Choice → Call → World → Prop} [∀ c op w, Decidable (A c op w)]
    {cfg : Config} {cond : World → Request → Prop} {w : World} (c : Choice) (rq : Request)
    (hr : (Prog.runAllowed (env A True) (fun _ => c) (rq.prog cfg 1) w).isSome = true)
    (hc : cond w rq) : Step A cfg cond w (w.served A cfg c rq) :=
  ⟨rq, 1, hc, exec_served c rq hr⟩

-- ============================================================================
-- The layout
-- ============================================================================

/-- The files `P` of a run are regular, no two of them have one cache name or are
    hard links of each other, and neither are their cache files.  SQLite's own files in
    the cache directory have other names. -/
structure Layout (cfg : Config) (P : Path → Prop) (w : World) : Prop where
  wf : w.db.WF
  metaBlockSize : w.metadata.metaBlockSize = cfg.blockSize
  names : ∀ p q, P p → P q → cfsPathToFileName p = cfsPathToFileName q → p = q
  database : ∀ p, P p → cfsPathToFileName p ∉ databaseNames
  nasRegular : ∀ p i, P p → w.nas.lookup (cfg.fullNasPath p) = some i →
    (w.nas.inode i).kind = .reg
  nasApart : ∀ p q i, P p → P q → w.nas.lookup (cfg.fullNasPath p) = some i →
    w.nas.lookup (cfg.fullNasPath q) = some i → p = q
  cacheRegular : ∀ p i, P p → w.db.HasFile (cfsPathToFileName p) →
    w.cache.lookup (cfg.fullCachePath p) = some i → (w.cache.inode i).kind = .reg
  cacheApart : ∀ p q i, P p → P q → w.cache.lookup (cfg.fullCachePath p) = some i →
    w.cache.lookup (cfg.fullCachePath q) = some i → p = q
  cacheBounded : w.cache.Bounded

/-- A mount with an empty cache: no rows, and no cache files of `P`. -/
structure Fresh (cfg : Config) (P : Path → Prop) (w : World) : Prop where
  metadata : w.metadata = { metaBlockSize := cfg.blockSize }
  names : ∀ p q, P p → P q → cfsPathToFileName p = cfsPathToFileName q → p = q
  database : ∀ p, P p → cfsPathToFileName p ∉ databaseNames
  nasRegular : ∀ p i, P p → w.nas.lookup (cfg.fullNasPath p) = some i →
    (w.nas.inode i).kind = .reg
  nasApart : ∀ p q i, P p → P q → w.nas.lookup (cfg.fullNasPath p) = some i →
    w.nas.lookup (cfg.fullNasPath q) = some i → p = q
  cacheEmpty : ∀ p, P p → w.cache.lookup (cfg.fullCachePath p) = none
  cacheBounded : w.cache.Bounded

theorem Config.fullCachePath_inj (cfg : Config) {p q : Path} :
    cfg.fullCachePath p = cfg.fullCachePath q ↔ cfsPathToFileName p = cfsPathToFileName q := by
  simp [fullCachePath, cfsFullCachePath]

theorem not_hasFile_empty (n : FileName) : ¬ ({} : Db).HasFile n := by
  rintro ⟨f, hf, -⟩
  exact absurd hf List.not_mem_nil

theorem not_recorded_empty (n : FileName) (o : Nat) : ¬ ({} : Db).Recorded n o :=
  fun h => not_hasFile_empty n h.hasFile

section Layout

variable {cfg : Config} {A : Choice → Call → World → Prop} {P : Path → Prop} {w w' : World}

theorem Fresh.db (h : Fresh cfg P w) : w.db = {} := by rw [World.db, h.metadata]

theorem Fresh.layout (h : Fresh cfg P w) : Layout cfg P w where
  wf := by rw [h.db]; exact Db.wf_empty
  metaBlockSize := by rw [h.metadata]
  names := h.names
  database := h.database
  nasRegular := h.nasRegular
  nasApart := h.nasApart
  cacheRegular p i _ hf := absurd (h.db ▸ hf) (not_hasFile_empty _)
  cacheApart p q i hp _ hpi _ := by
    rw [h.cacheEmpty p hp] at hpi
    exact nomatch hpi
  cacheBounded := h.cacheBounded

namespace Layout

/-- The layout does not depend on the bytes of files. -/
theorem congr (h : Layout cfg P w) (hwf : w'.db.WF)
    (hblk : w'.metadata.metaBlockSize = w.metadata.metaBlockSize)
    (hfile : ∀ n, w'.db.HasFile n ↔ w.db.HasFile n)
    (hnasLookup : ∀ x, w'.nas.lookup x = w.nas.lookup x)
    (hnasKind : ∀ i, (w'.nas.inode i).kind = (w.nas.inode i).kind)
    (hlookup : ∀ x, w'.cache.lookup x = w.cache.lookup x)
    (hkind : ∀ i, (w'.cache.inode i).kind = (w.cache.inode i).kind)
    (hnext : w'.cache.nextIno = w.cache.nextIno) : Layout cfg P w' where
  wf := hwf
  metaBlockSize := hblk.trans h.metaBlockSize
  names := h.names
  database := h.database
  nasRegular p i hp hi := by
    rw [hnasLookup] at hi
    rw [hnasKind]
    exact h.nasRegular p i hp hi
  nasApart p q i hp hq hi hj := by
    rw [hnasLookup] at hi hj
    exact h.nasApart p q i hp hq hi hj
  cacheRegular p i hp hf hi := by
    rw [hfile] at hf
    rw [hlookup] at hi
    rw [hkind]
    exact h.cacheRegular p i hp hf hi
  cacheApart p q i hp hq hi hj := by
    rw [hlookup] at hi hj
    exact h.cacheApart p q i hp hq hi hj
  cacheBounded x i hi := by
    rw [hlookup] at hi
    rw [hnext]
    exact h.cacheBounded x i hi

/-- Two files of the run have cache names of their own. -/
theorem cachePath_ne (h : Layout cfg P w) {p q : Path} (hp : P p) (hq : P q) (hne : p ≠ q) :
    cfg.fullCachePath p ≠ cfg.fullCachePath q :=
  fun heq => hne (h.names p q hp hq (cfg.fullCachePath_inj.mp heq))

theorem renewed (h : Layout cfg P w) {path : Path} (hpath : P path)
    (hr : Renewed cfg A path w w') (hnas : w'.nas = w.nas) : Layout cfg P w' where
  wf := hr.wf
  metaBlockSize := hr.metaBlockSize.trans h.metaBlockSize
  names := h.names
  database := h.database
  nasRegular := by rw [hnas]; exact h.nasRegular
  nasApart := by rw [hnas]; exact h.nasApart
  cacheRegular p i hp hf hi := by
    obtain ⟨mode, now, -, hinode⟩ := hr.inode
    rw [hr.lookup] at hi
    rw [hinode]
    by_cases hpp : p = path
    · rw [hpp, if_pos rfl, Option.some.injEq] at hi
      rw [if_pos hi.symm]
    · rw [if_neg (h.cachePath_ne hp hpath hpp)] at hi
      have hlt := h.cacheBounded _ _ hi
      rw [if_neg (Nat.ne_of_lt hlt)]
      refine h.cacheRegular p i hp (((hr.hasFile _).mp hf).resolve_right fun heq => ?_) hi
      exact hpp (h.names p path hp hpath heq)
  cacheApart p q i hp hq hi hj := by
    rw [hr.lookup] at hi hj
    by_cases hpp : p = path <;> by_cases hqp : q = path
    · rw [hpp, hqp]
    · rw [hpp, if_pos rfl, Option.some.injEq] at hi
      rw [if_neg (h.cachePath_ne hq hpath hqp), ← hi] at hj
      exact absurd (h.cacheBounded _ _ hj) (Nat.lt_irrefl _)
    · rw [hqp, if_pos rfl, Option.some.injEq] at hj
      rw [if_neg (h.cachePath_ne hp hpath hpp), ← hj] at hi
      exact absurd (h.cacheBounded _ _ hi) (Nat.lt_irrefl _)
    · rw [if_neg (h.cachePath_ne hp hpath hpp)] at hi
      rw [if_neg (h.cachePath_ne hq hpath hqp)] at hj
      exact h.cacheApart p q i hp hq hi hj
  cacheBounded x i hi := by
    rw [hr.lookup] at hi
    rw [hr.nextIno]
    split at hi
    · rw [← Option.some.inj hi]
      exact Nat.lt_succ_self _
    · exact Nat.lt_succ_of_lt (h.cacheBounded _ _ hi)

theorem opened (h : Layout cfg P w) {path : Path} (hpath : P path) {fh : Nat}
    (ho : OpenPost cfg A path fh w w') : Layout cfg P w' := by
  obtain ⟨hnas, ni, ci, -, -, -, hk | hr⟩ := ho
  · refine h.congr ?_ ?_ ?_ ?_ ?_ ?_ ?_ ?_ <;>
      simp only [World.db, hk.metadata, hk.cache, hnas, implies_true]
    exact h.wf
  · exact h.renewed hpath hr hnas

theorem store (h : Layout cfg P w) {m : MetaState} {filename : FileName} {blkArr : List Nat}
    (hm : WriteBlksPost w.metadata filename blkArr m) (ci : Ino) (buf : List UInt8)
    (offset : Nat) (now : Int) : Layout cfg P (w.store m ci buf offset now) :=
  h.congr (AddSteps.wf hm.steps h.wf) (AddSteps.metaBlockSize hm.steps) hm.hasFile
    (fun _ => rfl) (fun _ => rfl) (fun _ => Fs.lookup_pwrite _ _ _ _ _ _)
    (fun _ => Fs.kind_pwrite _ _ _ _ _ _) (Fs.nextIno_pwrite _ _ _ _ _)

theorem nasWrite (h : Layout cfg P w) (ni : Ino) (buf : List UInt8) (offset : Nat) (now : Int) :
    Layout cfg P { w with nas := w.nas.pwrite ni buf offset now } :=
  h.congr h.wf rfl (fun _ => Iff.rfl) (fun _ => Fs.lookup_pwrite _ _ _ _ _ _)
    (fun _ => Fs.kind_pwrite _ _ _ _ _ _) (fun _ => rfl) (fun _ => rfl) rfl

theorem fills (h : Layout cfg P w) {filename : FileName} {ni ci : Ino} {window : List Nat}
    (hf : Fills cfg A filename ni ci window w w') : Layout cfg P w' := by
  induction hf with
  | refl => exact h
  | tail _ hs ih => cases hs with | mk _ _ hm => exact ih.store hm _ _ _ _

/-- Descriptors, handles and the times of files are not part of the layout. -/
theorem released (h : Layout cfg P w) {command : List Char} {w₁ : World}
    (hdug : Dug A command w w₁)
    (fds : Int → Option OpenFile) (handles : Nat → Option DualFileHandle) :
    Layout cfg P { w₁ with fds, handles } := by
  refine h.congr ?_ ?_ (fun n => ?_) ?_ ?_ hdug.lookup hdug.kind hdug.nextIno <;>
    simp only [World.db, hdug.metadata, hdug.nas, implies_true]
  exact h.wf

/-- A current handle has no descriptor of the cache file of another file. -/
theorem handleSpares (h : Layout cfg P w) {path q : Path} (hpath : P path) (hq : P q)
    (hne : path ≠ q) {fh : Nat} {ni ci : Ino} (hcur : Current cfg w path fh ni ci) :
    w.HandleSpares fh (cfg.fullCachePath q) := by
  obtain ⟨dualFH, hh, ⟨r, wr, ap, hnas⟩, r', wr', hcache⟩ := hcur.opened
  refine ⟨dualFH, hh, fun f hf hside => ?_, fun f hf _ hlookup => ?_⟩
  · rw [← Option.some.inj (hnas.symm.trans hf)] at hside
    exact nomatch hside
  · rw [← Option.some.inj (hcache.symm.trans hf)] at hlookup
    exact hne (h.cacheApart path q ci hpath hq hcur.cache hlookup)

/-- Through a current handle no callback touches what the cache holds of another file,
    whatever fails in it. -/
theorem untouched (h : Layout cfg P w) {p q : FusePath} (hp : P p.text) (hq : P q.text)
    (hne : p.text ≠ q.text) {fh : Nat} {ni ci : Ino} (hcur : Current cfg w p.text fh ni ci)
    {op : FileOp} (hop : op.handle? = some fh) {r : Int}
    (he : Prog.Exec (env anyOutcome True) (op.prog cfg p.text) w r w') :
    Untouched cfg.cachedir (cfsPathToFileName q.text) w w' := by
  have hspares := h.handleSpares hp hq hne hcur
  refine CacheFs.untouched (fun heq => hne (h.names _ _ hp hq heq)) h.wf ?_ he
  cases op with
  | cfsRead fuel size offset fh' =>
      obtain rfl := Option.some.inj hop
      exact hspares
  | cfsWrite fuel buf offset fh' =>
      obtain rfl := Option.some.inj hop
      exact hspares
  | cfsFtruncate fh' offset =>
      obtain rfl := Option.some.inj hop
      exact hspares
  | cfsTruncate newsize => exact nomatch hop
  | cfsRename newpath => exact nomatch hop
  | cfsUnlink => exact nomatch hop

/-- What an open needs to know of the files. -/
theorem wp_cfsOpen (h : Layout cfg P w) (hA : AllSucceed A) {path : Path} (hpath : P path)
    {flags : Nat} {Q : Int × Option Nat → World → Prop}
    (hQ : ∀ fh w', OpenPost cfg A path fh w w' → Q (0, some fh) w') :
    Prog.wp (env A True) (CacheFs.cfsOpen cfg path flags) Q w :=
  CacheFs.wp_cfsOpen hA h.wf (fun i => h.nasRegular path i hpath)
    (fun i => h.cacheRegular path i hpath) hQ

end Layout

/-- The settings of the concrete runs: blocks of 4 bytes, 1 KiB of cache. -/
def sampleConfig : Config :=
  { nasdir := ['/', 'n'], cachedir := ['/', 'c'], cacheSize := 1, blockSize := 4 }

/-- The path of the file in the concrete runs. -/
def samplePath : Path := ['/', 'f']

/-- A mount with one file of the given bytes on the NAS and an empty cache. -/
def sampleWorld (data : List UInt8) : World :=
  { World.init
      { names := [(['/', 'n'], 0), (['/', 'n', '/', 'f'], 1)]
        inode := fun i => if i = 1 then { kind := .reg, mode := 0o644, data, mtime := 0 }
          else { kind := .dir, mode := 0o755, mtime := 0 }
        nextIno := 2 }
      { names := [(['/', 'c'], 0), (metadataFile ['/', 'c'], 1)]
        inode := fun i => if i = 1 then { kind := .reg, mode := 0o644, mtime := 0 }
          else { kind := .dir, mode := 0o755, mtime := 0 }
        nextIno := 2 } with
    metadata := { metaBlockSize := 4 } }

theorem sampleWorld_fresh (data : List UInt8) :
    Fresh sampleConfig (· = samplePath) (sampleWorld data) where
  metadata := rfl
  names p q hp hq _ := hp.trans hq.symm
  database p hp := by
    subst hp
    decide
  nasRegular p i hp hi := by
    subst hp
    have hfile : (sampleWorld data).nas.lookup (sampleConfig.fullNasPath samplePath) = some 1 := rfl
    rw [← Option.some.inj (hfile.symm.trans hi)]
    rfl
  nasApart p q i hp hq _ _ := hp.trans hq.symm
  cacheEmpty p hp := by
    subst hp
    rfl
  cacheBounded := Fs.bounded_of_names (show ∀ e ∈ (sampleWorld []).cache.names,
    e.2 < (sampleWorld []).cache.nextIno by decide)

/-- The same mount after the file has been opened for reading and writing. -/
def sampleOpened (data : List UInt8) : World :=
  (sampleWorld data).served succeeds sampleConfig {} (.cfsOpen samplePath 2)

/-- The same mount after two blocks have been read as well. -/
def sampleReadAll (data : List UInt8) : World :=
  (sampleOpened data).served succeeds sampleConfig {} (.cfsRead samplePath 8 0 1)

/-- A release touches no metadata, and of files only the time of one. -/
theorem wp_cfsRelease (hA : AllSucceed A) {path : Path} {fh : Nat} {ni ci : Ino}
    (hfh : Opened w fh ni ci) {Q : Int → World → Prop}
    (hQ : ∀ ret w₁ fds handles, Dug A ("fallocate -d ".toList ++ cfg.fullCachePath path) w w₁ →
      Q ret { w₁ with fds, handles }) :
    Prog.wp (env A True) (cfsRelease cfg path fh) Q w := by
  obtain ⟨dualFH, hh, -⟩ := hfh
  unfold cfsRelease
  rw [Prog.wp_bind]
  apply wp_loadHandle hh
  rw [Prog.wp_bind]
  refine wp_system fun r w₁ hdug => ?_
  rw [Prog.wp_bind]
  apply wp_close hA
  rw [Prog.wp_bind]
  apply wp_close hA
  rw [Prog.wp_bind]
  apply wp_freeHandle
  exact hQ _ w₁ _ _ hdug

end Layout

end CacheFs
