/-
  CacheFs.Capacity

  How far the used size can grow.

  The counter is tested before blocks are entered and raised for each of them
  afterwards, so it passes the capacity where the blocks of one test do not fit.
  `Fits` says that they do; then no request of a run takes the counter past the
  capacity.  Calls may fail for any reason; of the statements only those that
  complete a deletion have to succeed, since `delete_file` lowers the counter
  before it deletes.
-/

import CacheFs.Eviction
import CacheFs.Meta.Account

namespace CacheFs

open CacheFs.Effect
open CacheFs.Posix

/-- The calls of `delete_file` after it has read the size. -/
def Call.completesDeletion : Call → Bool
  | .stepSelect | .deleteFile _ => true
  | _ => false

/-- Any call may fail but those that complete a deletion. -/
def deletionsComplete (c : Choice) (op : Call) (_ : World) : Prop :=
  op.completesDeletion = true → c.err = none

instance (c : Choice) (op : Call) (w : World) : Decidable (deletionsComplete c op w) :=
  inferInstanceAs (Decidable (_ → _))

-- ============================================================================
-- The invariant
-- ============================================================================

/-- The counter is right, and not above the capacity. -/
structure Within (cfg : Config) (m : MetaState) : Prop where
  balanced : Balanced m
  metaBlockSize : m.metaBlockSize = cfg.blockSize
  bounded : m.cacheUsedSize ≤ cfg.capacity

section Within

variable {cfg : Config} {m m' : MetaState} {filename : FileName}

theorem Config.capacity_lt (cfg : Config) : cfg.capacity < 2 ^ 64 :=
  Nat.mod_lt _ (by decide)

theorem Within.used_lt (h : Within cfg m) : m.cacheUsedSize < 2 ^ 64 :=
  Nat.lt_of_le_of_lt h.bounded cfg.capacity_lt

theorem Within.deleteFile (h : Within cfg m) (filename : FileName) :
    Within cfg (m.deleteFile filename) where
  balanced := h.balanced.deleteFile h.used_lt filename
  metaBlockSize := h.metaBlockSize
  bounded := by
    have hused := h.balanced.deleteFile_used h.used_lt filename
    have hmem := h.balanced.localSize?_mem filename
    have hle := h.bounded
    omega

theorem Within.createFile (h : Within cfg m) {remoteSize : Nat} {db : Db}
    (hi : m.db.insertFile filename remoteSize = some db) : Within cfg { m with db } :=
  ⟨h.balanced.createFile hi, h.metaBlockSize, h.bounded⟩

/-- Entries that stay below the capacity keep the invariant. -/
theorem Within.entered {k : Nat} (h : Within cfg m) (he : Entered filename m k m')
    (hfit : m.cacheUsedSize + k * cfg.blockSize ≤ cfg.capacity) : Within cfg m' := by
  have hcap := cfg.capacity_lt
  induction he with
  | refl => exact h
  | touch _ blkOffset now ih =>
      have ih := ih hfit
      exact ⟨ih.balanced.touchBlock filename blkOffset now, ih.metaBlockSize, ih.bounded⟩
  | rowOnly _ hi ih =>
      have ih := ih hfit
      exact ⟨ih.balanced.insertRow hi, ih.metaBlockSize, ih.bounded⟩
  | @row k m₁ he _ _ _ hi ih =>
      rw [Nat.succ_mul] at hfit
      have ih := ih (by omega)
      have hused := he.used
      rw [MetaState.usedAfter_of_le (by rw [h.metaBlockSize]; omega), h.metaBlockSize] at hused
      have hblk := ih.metaBlockSize
      refine ⟨ih.balanced.insertBlock hi (by omega), hblk, ?_⟩
      have hwrap := wrap64_of_lt (x := (m₁.cacheUsedSize : Int) + m₁.metaBlockSize) (by omega)
        (by omega)
      simp only [MetaState.grow]
      omega

end Within

-- ============================================================================
-- The callbacks
-- ============================================================================

section Specs

variable {cfg : Config} {A : Choice → Call → World → Prop} {w : World}

theorem wrap64_sub_zero {n : Nat} (h : n < 2 ^ 64) : wrap64 (n + -0) = n := by
  have hwrap := wrap64_of_lt (x := (n : Int) + -0) (by omega) (by omega)
  omega

/-- Nothing is subtracted for a file without a row. -/
theorem World.lowered_of_none (hlt : w.metadata.cacheUsedSize < 2 ^ 64) {filename : FileName}
    (h : w.db.localSize? filename = none) : w.lowered filename = w := by
  rw [World.lowered, h, Option.getD_none, wrap64_sub_zero hlt]

/-- A deletion whose SELECT fails does nothing. -/
theorem wp_deleteFile_complete (hA : ∀ c op w, A c op w → deletionsComplete c op w)
    (hlt : w.metadata.cacheUsedSize < 2 ^ 64) {filename : FileName} {Q : Int → World → Prop}
    (hkeep : Q (-1) w) (hdel : Q 0 { w with metadata := w.metadata.deleteFile filename }) :
    Prog.wp (env A True) (deleteFile filename) Q w := by
  -- the last statement, in the world whose counter has been lowered
  have hlast : Prog.wp (env A True) (do
      let ret ← ask (.deleteFile filename)
      if ret ≠ .done then pure (-1) else if !finalizeOk ret then pure (-1) else pure 0) Q
      (w.lowered filename) := by
    simp only [Prog.wp_bind, ask, wp_call, Prog.wp_ret]
    intro c hc
    simp only [handle, World.sql_some (hA _ _ _ hc rfl), tests_done, Prog.wp_pure]
    exact hdel
  -- the second SELECT, when the first has found no row or has failed
  have hagain : Prog.wp (env A True) (do
      let again ← ask (.selectLocalSize filename)
      let ret ← pure again.1
      if ret ≠ .done then pure (-1)
      else if !finalizeOk ret then pure (-1)
      else
        let ret ← ask (.deleteFile filename)
        if ret ≠ .done then pure (-1) else if !finalizeOk ret then pure (-1) else pure 0) Q w := by
    rw [Prog.wp_bind]
    simp only [ask, wp_call, Prog.wp_ret]
    intro c _
    simp only [handle, pure_bind]
    rcases World.select_cases c (w.db.localSize? filename).isSome with hrc | hrc
    · simpa only [hrc, tests_error, Prog.wp_pure] using hkeep
    · cases hl : w.db.localSize? filename with
      | none =>
          rw [w.lowered_of_none hlt hl] at hlast
          simp only [hl, Option.isSome_none, Bool.false_eq_true, if_false] at hrc
          simp only [Option.isSome_none, hrc, tests_done]
          simpa only [ask] using hlast
      | some size =>
          simp only [hl, Option.isSome_some, if_true] at hrc
          simp only [Option.isSome_some, hrc]
          simpa using hkeep
  unfold deleteFile
  rw [Prog.wp_bind]
  simp only [ask, wp_call, Prog.wp_ret]
  intro c₁ _
  rw [Prog.wp_bind]
  simp only [wp_call, Prog.wp_ret, handle]
  intro c₂ _
  cases herr : c₁.err with
  | some e =>
      simp only [World.select, herr, Option.isSome_some, if_true, wrap64_sub_zero hlt]
      exact hagain
  | none =>
      simp only [World.select, herr, Option.isSome_none, Bool.false_eq_true, if_false]
      cases hl : w.db.localSize? filename with
      | none =>
          simp only [Option.isSome_none, Bool.false_eq_true, if_false, reduceCtorEq,
            Option.getD_none, wrap64_sub_zero hlt]
          exact hagain
      | some size =>
          simp only [World.lowered, hl, Option.getD_some] at hlast
          simp only [Option.isSome_some, if_true, Prog.wp_bind, wp_call, Prog.wp_ret,
            Option.getD_some]
          intro c₃ hc₃
          simp only [handle, World.select_eq (hA _ _ _ hc₃ rfl), Bool.false_eq_true, if_false,
            tests_done]
          exact hlast

theorem wp_keeps {op : Call} (h : op.reachesMeta = false) {Q : op.Reply → World → Prop}
    (hw : Within cfg w.metadata) (hQ : ∀ r w', Within cfg w'.metadata → Q r w') :
    Prog.wp (env A True) (ask op) Q w :=
  wp_frame h fun r w' hw' => hQ r w' (hw' ▸ hw)

theorem wp_dropCached_within (hA : ∀ c op w, A c op w → deletionsComplete c op w)
    {path : Path} {Q : Unit → World → Prop} (hw : Within cfg w.metadata)
    (hQ : ∀ w', Within cfg w'.metadata → Q () w') :
    Prog.wp (env A True) (dropCached cfg path) Q w := by
  have hnext : ∀ w₁ : World, Within cfg w₁.metadata → Prog.wp (env A True) (do
      let _ ← ask (.unlink .cache (cfg.fullCachePath path))
      pure ()) Q w₁ := by
    intro w₁ h₁
    rw [Prog.wp_bind]
    exact wp_keeps rfl h₁ fun _ w' h' => hQ w' h'
  unfold dropCached
  rw [Prog.wp_bind]
  exact wp_deleteFile_complete hA hw.used_lt (hnext w hw) (hnext _ (hw.deleteFile _))

/-- `cfs_open` keeps the invariant, whatever its calls return. -/
theorem wp_cfsOpen_within (hA : ∀ c op w, A c op w → deletionsComplete c op w) {path : Path}
    {flags : Nat} (hw : Within cfg w.metadata) :
    Prog.wp (env A True) (cfsOpen cfg path flags) (fun _ w' => Within cfg w'.metadata) w := by
  have hopen : ∀ (nasFH : Int) (w₁ : World), Within cfg w₁.metadata →
      Prog.wp (env A True) (openHandle cfg path nasFH) (fun _ w' => Within cfg w'.metadata)
        w₁ := by
    intro nasFH w₁ h₁
    unfold openHandle
    rw [Prog.wp_bind]
    refine wp_keeps rfl h₁ fun r w₂ h₂ => ?_
    rw [Prog.wp_bind]
    exact wp_keeps rfl h₂ fun r w₃ h₃ => h₃
  have hmake : ∀ (nasFileInfo : Stat) (present : Bool) (nasFH : Int) (w₁ : World),
      Within cfg w₁.metadata → Prog.wp (env A True) (do
        ensureCached cfg path nasFileInfo present
        openHandle cfg path nasFH) (fun _ w' => Within cfg w'.metadata) w₁ := by
    intro nasFileInfo present nasFH w₁ h₁
    rw [Prog.wp_bind]
    unfold ensureCached
    split
    · exact hopen nasFH w₁ h₁
    · have hnode : ∀ w₂ : World, Within cfg w₂.metadata → Prog.wp (env A True) (do
          let _ ← cfsMkCacheNod (cfg.fullCachePath path) nasFileInfo.kind nasFileInfo.mode
          pure ()) (fun _ => Prog.wp (env A True) (openHandle cfg path nasFH)
            (fun _ w' => Within cfg w'.metadata)) w₂ := by
        intro w₂ h₂
        rw [Prog.wp_bind]
        unfold cfsMkCacheNod mkNod
        split
        · rw [Prog.wp_bind]
          refine wp_keeps rfl h₂ fun r w₃ h₃ => ?_
          split
          · rw [Prog.wp_bind]
            exact wp_keeps rfl h₃ fun _ w₄ h₄ => hopen nasFH w₄ h₄
          · exact hopen nasFH w₃ h₃
        · rw [Prog.wp_bind]
          exact wp_keeps rfl h₂ fun _ w₃ h₃ => hopen nasFH w₃ h₃
      rw [Prog.wp_bind]
      exact wp_createFile_any (hnode w₁ h₁) fun db hi => hnode _ (h₁.createFile hi)
  unfold cfsOpen
  rw [Prog.wp_bind]
  refine wp_keeps rfl hw fun r w₁ h₁ => ?_
  rw [Prog.wp_bind]
  refine wp_isFileInCache_any fun present _ => ?_
  dsimp only
  rw [Prog.wp_ite]
  split
  · rw [Prog.wp_ite]
    split
    · rw [Prog.wp_bind]
      exact wp_dropCached_within hA h₁ fun w' h' => h'
    · exact h₁
  · rw [Prog.wp_bind, cfsGetNASattr, Prog.wp_bind]
    refine wp_keeps rfl h₁ fun r w₂ h₂ => ?_
    rw [Prog.wp_pure, Prog.wp_bind]
    unfold checkUpToDate
    split
    · rw [Prog.wp_bind, cfsGetCacheattr, Prog.wp_bind]
      refine wp_keeps rfl h₂ fun r' w₃ h₃ => ?_
      rw [Prog.wp_pure, Prog.wp_ite]
      split
      · rw [Prog.wp_bind]
        exact wp_dropCached_within hA h₃ fun w' h' => hmake _ _ _ w' h'
      · exact hmake _ _ _ w₃ h₃
    · exact hmake _ _ _ w₂ h₂

theorem wp_cfsUnlink_within (hA : ∀ c op w, A c op w → deletionsComplete c op w) {path : Path}
    (hw : Within cfg w.metadata) :
    Prog.wp (env A True) (cfsUnlink cfg path) (fun _ w' => Within cfg w'.metadata) w := by
  have hnext : ∀ w₁ : World, Within cfg w₁.metadata → Prog.wp (env A True) (do
      let _ ← ask (.unlink .cache (cfg.fullCachePath path))
      let r ← ask (.unlink .nas (cfg.fullNasPath path))
      pure (logSyscall r)) (fun _ w' => Within cfg w'.metadata) w₁ := by
    intro w₁ h₁
    rw [Prog.wp_bind]
    refine wp_keeps rfl h₁ fun _ w₂ h₂ => ?_
    rw [Prog.wp_bind]
    exact wp_keeps rfl h₂ fun _ w₃ h₃ => h₃
  unfold cfsUnlink
  rw [Prog.wp_bind]
  exact wp_deleteFile_complete hA hw.used_lt (hnext w hw) (hnext _ (hw.deleteFile _))

theorem wp_cfsRelease_within {path : Path} {fh : Nat} (hw : Within cfg w.metadata) :
    Prog.wp (env A True) (cfsRelease cfg path fh) (fun _ w' => Within cfg w'.metadata) w := by
  unfold cfsRelease
  rw [Prog.wp_bind]
  refine wp_keeps rfl hw fun _ w₁ h₁ => ?_
  rw [Prog.wp_bind]
  refine wp_keeps rfl h₁ fun _ w₂ h₂ => ?_
  rw [Prog.wp_bind]
  refine wp_keeps rfl h₂ fun _ w₃ h₃ => ?_
  rw [Prog.wp_bind]
  refine wp_keeps rfl h₃ fun _ w₄ h₄ => ?_
  rw [Prog.wp_bind]
  exact wp_keeps rfl h₄ fun _ w₅ h₅ => h₅

end Specs

-- ============================================================================
-- Runs
-- ============================================================================

/-- The blocks a request enters after one test do not go past the capacity. -/
def Fits (cfg : Config) (w : World) : Request → Prop
  | .cfsOpen _ _ | .cfsRelease _ _ | .cfsUnlink _ => True
  | .cfsRead path size offset _ => w.db.HasFile (cfsPathToFileName path) →
      ∀ i < (w.db.missing (cfsPathToFileName path) (cfg.window offset size)).length,
        w.metadata.cacheUsedSize + i * cfg.blockSize < cfg.capacity →
          w.metadata.cacheUsedSize + (i + 1) * cfg.blockSize ≤ cfg.capacity
  | .cfsWrite path buf offset _ => w.db.HasFile (cfsPathToFileName path) →
      w.metadata.cacheUsedSize < cfg.capacity → w.metadata.cacheUsedSize +
        (w.db.missing (cfsPathToFileName path) (cfg.window offset buf.length)).length *
          cfg.blockSize ≤ cfg.capacity
  | .cfsUtime _ _ => False

section Runs

variable {cfg : Config} {w w' : World}

/-- Each entry of a read was made when there was room for it. -/
theorem Within.read_fits (h : Within cfg w.metadata) {path : Path} {size offset fh : Nat}
    (hfits : Fits cfg w (.cfsRead path size offset fh))
    (hfile : w.db.HasFile (cfsPathToFileName path)) {k : Nat}
    (hk : k ≤ (w.db.missing (cfsPathToFileName path) (cfg.window offset size)).length)
    (htests : ∀ i < k, w.metadata.usedAfter i < cfg.capacity) :
    w.metadata.cacheUsedSize + k * cfg.blockSize ≤ cfg.capacity := by
  have hcap := cfg.capacity_lt
  induction k with
  | zero =>
      have hle := h.bounded
      omega
  | succ k ih =>
      have ih := ih (by omega) fun i hi => htests i (Nat.lt_succ_of_lt hi)
      have hlt := htests k (Nat.lt_succ_self k)
      rw [MetaState.usedAfter_of_le (by rw [h.metaBlockSize]; omega), h.metaBlockSize] at hlt
      exact hfits hfile k (by omega) hlt

theorem Within.step (hbs : 0 < cfg.blockSize) (h : Within cfg w.metadata)
    (hs : Step deletionsComplete cfg (Fits cfg) w w') : Within cfg w'.metadata := by
  obtain ⟨rq, fuel, hfits, he⟩ := hs
  refine Prog.wp_exec (Q := fun _ w' => Within cfg w'.metadata) ?_ he
  have hA : ∀ c op w, deletionsComplete c op w → deletionsComplete c op w := fun _ _ _ hc => hc
  -- without a row nothing is entered
  have hentered : ∀ {filename : FileName} {k : Nat} {m' : MetaState},
      Entered filename w.metadata k m' → (w.db.HasFile filename →
        w.metadata.cacheUsedSize + k * cfg.blockSize ≤ cfg.capacity) → Within cfg m' := by
    intro filename k m' hm hfit
    refine h.entered hm ?_
    by_cases hfile : w.db.HasFile filename
    · exact hfit hfile
    · have hle := h.bounded
      rw [hm.eq_zero hfile]
      omega
  cases rq with
  | cfsOpen path flags =>
      rw [Request.prog, Prog.wp_bind]
      exact wp_cfsOpen_within hA h
  | cfsRead path size offset fh =>
      rw [Request.prog, Prog.wp_bind]
      refine wp_cfsRead_any hbs (fun _ => trivial) fun r k w' hk hm htests => ?_
      exact hentered hm fun hfile => h.read_fits hfits hfile hk htests
  | cfsWrite path buf offset fh =>
      rw [Request.prog, Prog.wp_bind]
      refine wp_cfsWrite_any (fun _ => trivial) fun hroom r k w' hk hm => ?_
      refine hentered hm fun hfile => ?_
      have hfit := hfits hfile hroom
      have hle := Nat.mul_le_mul_right cfg.blockSize hk
      omega
  | cfsRelease path fh =>
      rw [Request.prog, Prog.wp_bind]
      exact wp_cfsRelease_within h
  | cfsUtime path modtime => exact hfits.elim
  | cfsUnlink path =>
      rw [Request.prog, Prog.wp_bind]
      exact wp_cfsUnlink_within hA h

/-- From an empty cache, as long as the blocks of each request fit, the used size
    stays within the capacity. -/
theorem capacity_respected {w₀ : World} (hbs : 0 < cfg.blockSize)
    (hcap : cfg.cacheSize * 1024 < 2 ^ 64)
    (h₀ : w₀.metadata = { metaBlockSize := cfg.blockSize })
    (hrun : Run deletionsComplete cfg (Fits cfg) w₀ w) :
    w.metadata.cacheUsedSize ≤ cfg.cacheSize * 1024 := by
  have hinv : Within cfg w.metadata := by
    induction hrun with
    | refl =>
        rw [h₀]
        refine ⟨⟨Db.wf_empty, rfl, fun f hf => absurd hf List.not_mem_nil⟩, rfl, Nat.zero_le _⟩
    | tail _ hs ih => exact ih.step hbs hs
  have hle := hinv.bounded
  rwa [Config.capacity, Nat.mod_eq_of_lt hcap] at hle

end Runs

/-- Two blocks of 4 bytes fit. -/
theorem capacity_respected_read :
    (sampleReadAll [1, 2, 3, 4, 5, 6, 7, 8]).metadata.cacheUsedSize ≤
      sampleConfig.cacheSize * 1024 := by
  have hA : ∀ c op w, succeeds c op w → deletionsComplete c op w := fun _ _ _ hc _ => hc.1
  have hopen : Step succeeds sampleConfig (Fits sampleConfig)
      (sampleWorld [1, 2, 3, 4, 5, 6, 7, 8]) (sampleOpened [1, 2, 3, 4, 5, 6, 7, 8]) :=
    step_served {} (.cfsOpen samplePath 2) (by decide) trivial
  have hfits : Fits sampleConfig (sampleOpened [1, 2, 3, 4, 5, 6, 7, 8])
      (.cfsRead samplePath 8 0 1) := by
    intro _ i hi _
    have hmissing : ((sampleOpened [1, 2, 3, 4, 5, 6, 7, 8]).db.missing
        (cfsPathToFileName samplePath) (sampleConfig.window 0 8)).length = 2 := by decide
    have hused : (sampleOpened [1, 2, 3, 4, 5, 6, 7, 8]).metadata.cacheUsedSize = 0 := by decide
    have hblk : sampleConfig.blockSize = 4 := rfl
    have hcap : sampleConfig.capacity = 1024 := by decide
    rw [hmissing] at hi
    rw [hused, hblk, hcap]
    omega
  have hread : Step succeeds sampleConfig (Fits sampleConfig)
      (sampleOpened [1, 2, 3, 4, 5, 6, 7, 8]) (sampleReadAll [1, 2, 3, 4, 5, 6, 7, 8]) :=
    step_served {} (.cfsRead samplePath 8 0 1) (by decide) hfits
  exact capacity_respected (by decide) (by decide) rfl
    (.tail (.single (hopen.mono hA fun _ h => h)) (hread.mono hA fun _ h => h))

/-- The five callbacks whose runs are considered. -/
def Request.isFileCall : Request → Prop
  | .cfsUtime _ _ => False
  | _ => True

/-- With blocks of 1000 bytes the first of two leaves room, and both take 2000. -/
theorem capacity_not_respected : ¬ ∀ (cfg : Config) (w₀ w : World), 0 < cfg.blockSize →
    cfg.cacheSize * 1024 < 2 ^ 64 → w₀.metadata = { metaBlockSize := cfg.blockSize } →
    Run natural cfg (fun _ rq => rq.isFileCall) w₀ w →
    w.metadata.cacheUsedSize ≤ cfg.cacheSize * 1024 := by
  intro h
  have hopen : Step succeeds (tightConfig 1000) (fun _ rq => rq.isFileCall)
      (tightWorld 1000 (List.replicate (2 * 1000) 1)) (tightOpened 1000) :=
    step_served {} (.cfsOpen samplePath 2) (by decide) trivial
  have hquietOpen : Step natural (tightConfig 1000) (fun _ rq => rq.isFileCall)
      (tightWorld 1000 (List.replicate (2 * 1000) 1)) (tightOpened 1000) :=
    hopen.mono (fun _ _ _ hc => ⟨hc.1, hc.2.1⟩) fun _ h => h
  have hwf : (tightOpened 1000).db.WF := by constructor <;> decide
  have hmissing : ((tightOpened 1000).db.missing (cfsPathToFileName samplePath)
      ((tightConfig 1000).window 0 2000)).length = 2 := by decide
  have hread : Prog.wp (env natural False)
      ((Request.cfsRead samplePath 2000 0 1).prog (tightConfig 1000) 1)
      (fun _ w => w.metadata.cacheUsedSize = 2000) (tightOpened 1000) := by
    rw [Request.prog, Prog.wp_bind]
    refine wp_cfsRead_meta sqlSucceeds_natural (by decide) hwf (fun hstuck => ?_)
      fun r w hm _ => ?_
    · rw [hmissing] at hstuck
      refine hstuck.elim (by decide) fun hfull => hfull fun i hi => ?_
      obtain rfl | rfl : i = 0 ∨ i = 1 := by omega
      · decide
      · decide
    · have hused := WriteBlksPost.used_eq hm ((tightConfig 1000).nodup_offsetArray (by decide) _ _)
      refine hused.trans ((congrArg _ hmissing).trans ?_)
      decide
  have hquiet : ∀ op w, (env natural False).allow {} op w := fun _ _ => ⟨rfl, rfl⟩
  have halong := Prog.along_of_allow (fun _ => hquiet)
    ((Request.cfsRead samplePath 2000 0 1).prog (tightConfig 1000) 1) (tightOpened 1000)
  obtain ⟨r, w, hr, hused⟩ := Prog.wp_run not_false hread halong
  have hstep : Step natural (tightConfig 1000) (fun _ rq => rq.isFileCall) (tightOpened 1000) w :=
    ⟨.cfsRead samplePath 2000 0 1, 1, trivial, Prog.exec_mono (E := env natural False)
      (env natural True) rfl (fun _ _ _ hc => hc) (Prog.exec_of_run halong hr)⟩
  have hle := h _ _ _ (by decide) (by decide) rfl (.tail (.single hquietOpen) hstep)
  rw [hused] at hle
  exact absurd hle (by decide)

end CacheFs
