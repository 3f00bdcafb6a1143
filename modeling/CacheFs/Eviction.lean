/-
  CacheFs.Eviction

  When the loop of `cfs_cacheWrite` that waits for room ends.

  Its body frees nothing, so a test that fails once fails for ever.  `Ends` says
  that some number of turns is enough for a callback, whatever the calls return;
  `Hangs` says that no number of turns is.  `cfs_write` tests the counter once,
  `cfs_read` once for each missing block, and in between it raises the counter
  itself.
-/

import CacheFs.Effect.Trace
import CacheFs.Meta.Faults
import CacheFs.Session
import CacheFs.Ledger

namespace CacheFs

open CacheFs.Effect
open CacheFs.Posix

-- ============================================================================
-- Ending and hanging
-- ============================================================================

section Ends

variable {α : Type} {A : Choice → Call → World → Prop} {p : Nat → CfsM α} {w : World}

/-- Some number of turns is enough for `p` to return. -/
def Ends (A : Choice → Call → World → Prop) (p : Nat → CfsM α) (w : World) : Prop :=
  ∃ fuel, ∀ cs, Prog.Along (env A False) cs (p fuel) w →
    ∃ r w', Prog.run (env A False) cs (p fuel) w = some (r, w')

/-- `p` has not returned after any number of turns. -/
def Hangs (A : Choice → Call → World → Prop) (p : Nat → CfsM α) (w : World) : Prop :=
  ∀ fuel r w', ¬ Prog.Exec (env A False) (p fuel) w r w'

theorem ends_of_wp (fuel : Nat)
    (h : Prog.wp (env A False) (p fuel) (fun _ _ => True) w) : Ends A p w := by
  refine ⟨fuel, fun cs ha => ?_⟩
  obtain ⟨r, w', hr, -⟩ := Prog.wp_run not_false h ha
  exact ⟨r, w', hr⟩

theorem hangs_of_wp
    (h : ∀ fuel, Prog.wp (env A True) (p fuel) (fun _ _ => False) w) : Hangs A p w :=
  fun fuel _ _ he => Prog.wp_exec (h fuel)
    (Prog.exec_mono (E := env A False) (env A True) rfl (fun _ _ _ hc => hc) he)

/-- A program that hangs does not end, if its environment and the other one can
    always answer. -/
theorem Hangs.not_ends {B : Choice → Call → World → Prop} (h : Hangs B p w) {c : Choice}
    (hB : ∀ op w, B c op w) (hA : ∀ op w, A c op w) : ¬ Ends A p w := by
  rintro ⟨fuel, hends⟩
  obtain ⟨r, w', hr⟩ := hends _ (Prog.along_of_allow (E := env A False) (fun _ => hA) (p fuel) w)
  refine h fuel r w' (Prog.exec_of_run (Prog.along_of_allow (fun _ => hB) (p fuel) w) ?_)
  rw [← hr]
  exact Prog.run_congr (env B False) (env A False) rfl _ _ _

/-- A program that ends when `cond` holds and hangs when it does not does the one or
    the other. -/
theorem ends_iff_and_hangs_iff {cond : Prop} (hends : cond → Ends anyOutcome p w)
    (hhangs : ¬ cond → Hangs A p w) {c : Choice} (hc : ∀ op w, A c op w) :
    (Ends anyOutcome p w ↔ cond) ∧ (Hangs A p w ↔ ¬ cond) := by
  have hnot : Hangs A p w → ¬ Ends anyOutcome p w :=
    fun h => h.not_ends hc fun _ _ => trivial
  refine ⟨⟨fun h => ?_, hends⟩, ⟨fun h hcond => hnot h (hends hcond), hhangs⟩⟩
  by_contra hcond
  exact hnot (hhangs hcond) h

end Ends

-- ============================================================================
-- The callbacks when any call may fail
-- ============================================================================

section Specs

variable {cfg : Config} {A : Choice → Call → World → Prop} {S : Prop} {w : World} {fuel fh : Nat}
  {cacheFileName : FileName}

theorem wp_cfsCacheWrite_any {buf : List UInt8} {size offset : Nat} {Q : Int → World → Prop}
    (hspin : fuel = 0 ∨ cfg.capacity ≤ w.metadata.cacheUsedSize → S)
    (hQ : w.metadata.cacheUsedSize < cfg.capacity → ∀ r k w',
      k ≤ (w.db.missing cacheFileName (cfg.offsetArray offset (size / cfg.blockSize))).length →
      Entered cacheFileName w.metadata k w'.metadata → Q r w') :
    Prog.wp (env A S) (cfsCacheWrite cfg fuel cacheFileName buf size offset fh) Q w := by
  unfold cfsCacheWrite
  rw [Prog.wp_bind]
  refine wp_frame rfl fun dualFH w₁ hw₁ => ?_
  have hdb : w.db = w₁.db := congrArg MetaState.db hw₁.symm
  rw [hdb, ← hw₁] at hQ
  rw [← hw₁] at hspin
  rw [Prog.wp_bind]
  refine wp_evictionWait hspin fun hroom => ?_
  rw [Prog.wp_bind]
  refine wp_writeBlks_any fun k m hk hm => ?_
  rw [Prog.wp_bind]
  exact wp_frame rfl fun r w₂ hw₂ => hQ hroom _ k w₂ hk (by rwa [hw₂])

/-- `cfs_write` makes a single test. -/
theorem wp_cfsWrite_any {path : Path} {buf : List UInt8} {offset : Nat} {Q : Int → World → Prop}
    (hspin : fuel = 0 ∨ cfg.capacity ≤ w.metadata.cacheUsedSize → S)
    (hQ : w.metadata.cacheUsedSize < cfg.capacity → ∀ r k w',
      k ≤ (w.db.missing (cfsPathToFileName path) (cfg.window offset buf.length)).length →
      Entered (cfsPathToFileName path) w.metadata k w'.metadata → Q r w') :
    Prog.wp (env A S) (cfsWrite cfg fuel path buf offset fh) Q w := by
  unfold cfsWrite
  rw [Prog.wp_bind]
  refine wp_frame rfl fun dualFH w₁ hw₁ => ?_
  rw [Prog.wp_bind]
  refine wp_frame rfl fun r w₂ hw₂ => ?_
  rw [Prog.wp_bind, cfsGetNASattr, Prog.wp_bind]
  refine wp_frame rfl fun attr w₃ hw₃ => ?_
  rw [Prog.wp_pure, Prog.wp_bind]
  refine wp_frame rfl fun cacheBuf w₄ hw₄ => ?_
  rw [Prog.wp_bind]
  refine wp_frame rfl fun r' w₅ hw₅ => ?_
  have hmeta : w₅.metadata = w.metadata := by rw [hw₅, hw₄, hw₃, hw₂, hw₁]
  have hdb : w.db = w₅.db := congrArg MetaState.db hmeta.symm
  rw [hdb, ← hmeta] at hQ
  rw [← hmeta] at hspin
  rw [Prog.wp_bind]
  exact wp_cfsCacheWrite_any hspin fun hroom ret => hQ hroom _

/-- Before the `i`-th entry at most `i` entries have been made. -/
theorem Entered.room {m m' : MetaState} {k n : Nat} (h : Entered cacheFileName m k m')
    (hk : k < n) (hroom : ∀ i < n, m.usedBefore cacheFileName i < cfg.capacity) :
    m'.cacheUsedSize < cfg.capacity := by
  have hlt := hroom k hk
  rw [MetaState.usedBefore] at hlt
  rw [h.used]
  split at hlt
  · exact hlt
  · next hn =>
      rw [h.eq_zero hn]
      exact hlt

/-- One turn of the loop of `cfs_read` tests the counter, if it finds its block
    missing, and raises it once at most. -/
theorem wp_readBlock_any {dualFH : DualFileHandle} {acc : Int × List UInt8} {lo blockIndex : Nat}
    {hit : Int} (hbs : 0 < cfg.blockSize) {Q : Int × List UInt8 → World → Prop}
    (hspin : hit = 0 → fuel = 0 ∨ cfg.capacity ≤ w.metadata.cacheUsedSize → S)
    (hhit : hit ≠ 0 → ∀ acc w', w'.metadata = w.metadata → Q acc w')
    (hmiss : hit = 0 → w.metadata.cacheUsedSize < cfg.capacity → ∀ acc k w', k ≤ 1 →
      Entered cacheFileName w.metadata k w'.metadata → Q acc w') :
    Prog.wp (env A S)
      (readBlock cfg fuel cacheFileName lo fh dualFH acc blockIndex hit) Q w := by
  unfold readBlock
  rw [Prog.wp_ite]
  split
  · next hne =>
      rw [Prog.wp_bind]
      exact wp_frame rfl fun r w' hw' => hhit hne _ w' hw'
  · next heq =>
      have hzero : hit = 0 := not_not.mp heq
      rw [Prog.wp_bind]
      refine wp_frame rfl fun r w₁ hw₁ => ?_
      rw [← hw₁] at hspin hmiss
      rw [Prog.wp_bind]
      refine wp_cfsCacheWrite_any (hspin hzero) fun hroom ret k w₂ hk hw₂ => ?_
      have hone : k ≤ 1 := by
        refine hk.trans ((List.length_filter_le _ _).trans ?_)
        rw [cfg.offsetArray_one hbs, List.length_singleton]
      exact hmiss hzero hroom _ k w₂ hone hw₂

/-- `cfs_read` makes a test before each entry. -/
theorem wp_cfsRead_any (hbs : 0 < cfg.blockSize) {path : Path} {size offset : Nat}
    {Q : Int × List UInt8 → World → Prop}
    (hspin : fuel = 0 ∨ (¬ ∀ i < (w.db.missing (cfsPathToFileName path)
      (cfg.window offset size)).length,
        w.metadata.usedBefore (cfsPathToFileName path) i < cfg.capacity) → S)
    (hQ : ∀ r k w',
      k ≤ (w.db.missing (cfsPathToFileName path) (cfg.window offset size)).length →
      Entered (cfsPathToFileName path) w.metadata k w'.metadata →
      (∀ i < k, w.metadata.usedAfter i < cfg.capacity) → Q r w') :
    Prog.wp (env A S) (cfsRead cfg fuel path size offset fh) Q w := by
  have hcopy : ∀ (acc : Int × List UInt8) (k : Nat) (w' : World),
      k ≤ (w.db.missing (cfsPathToFileName path) (cfg.window offset size)).length →
      Entered (cfsPathToFileName path) w.metadata k w'.metadata →
      (∀ i < k, w.metadata.usedAfter i < cfg.capacity) → Prog.wp (env A S) (do
        let buf ← copyOut acc.2 (offset - cfg.alignLowerOffset offset) size
        pure (acc.1, buf)) Q w' := by
    intro acc k w' hk h htests
    rw [Prog.wp_bind]
    unfold copyOut
    rw [Prog.wp_ite]
    split
    · rw [Prog.wp_bind]
      exact wp_frame rfl fun _ w₁ hw₁ => hQ _ k w₁ hk (hw₁ ▸ h) htests
    · exact hQ _ k w' hk h htests
  unfold cfsRead
  rw [Prog.wp_bind]
  refine wp_areBlocksInCache_any fun total hits hhits => ?_
  have hwithin : hits.countP (· = 0) ≤
      (w.db.missing (cfsPathToFileName path) (cfg.window offset size)).length :=
    countP_hits_le hhits
  have hlen : hits.length = cfg.alignedSize size / cfg.blockSize := by
    rw [← hhits.length_eq]
    simp [Config.offsetArray]
  have hzip : ((List.range (cfg.alignedSize size / cfg.blockSize)).zip hits).countP (·.2 = 0) =
      hits.countP (· = 0) := by
    have hsnd : ((List.range (cfg.alignedSize size / cfg.blockSize)).zip hits).map
        Prod.snd = hits := List.map_snd_zip (by simp [hlen])
    rw [← congrArg (List.countP (· = 0)) hsnd, List.countP_map]
    rfl
  rw [Prog.wp_bind]
  refine wp_frame rfl fun dualFH w₁ hw₁ => ?_
  rw [Prog.wp_bind]
  refine wp_frame rfl fun cacheBuf w₂ hw₂ => ?_
  have hmeta : w₂.metadata = w.metadata := hw₂.trans hw₁
  rw [Prog.wp_bind]
  unfold readWindow
  rw [Prog.wp_ite]
  split
  · rw [Prog.wp_bind]
    refine wp_frame rfl fun _ w' hw' => hcopy _ 0 w' (Nat.zero_le _) ?_ fun i hi => ?_
    · rw [hw', hmeta]
      exact .refl
    · exact absurd hi (Nat.not_lt_zero i)
  · -- the counter has been raised once at most for each block found missing so far
    refine Prog.wp_mono (Prog.wp_foldlM (I := fun done _ w' => ∃ k, k ≤ done.countP (·.2 = 0) ∧
      Entered (cfsPathToFileName path) w.metadata k w'.metadata ∧
      ∀ i < k, w.metadata.usedAfter i < cfg.capacity) ?_ ?_) ?_
    · refine ⟨0, Nat.zero_le _, ?_, fun i hi => absurd hi (Nat.not_lt_zero i)⟩
      rw [hmeta]
      exact .refl
    · rintro done x rest acc w' hx ⟨k, hk, hdone, htests⟩
      have hsplit := congrArg (List.countP (·.2 = (0 : Int))) hx
      rw [hzip, List.countP_append, List.countP_cons] at hsplit
      refine wp_readBlock_any hbs ?_ ?_ ?_
      · rintro hzero (hfuel | hfull)
        · exact hspin (Or.inl hfuel)
        · refine hspin (Or.inr fun hroom => ?_)
          simp only [hzero, decide_true, if_true] at hsplit
          have hlt := hdone.room (show k < (w.db.missing (cfsPathToFileName path)
            (cfg.window offset size)).length by omega) hroom
          omega
      · intro hne acc' w'' hw''
        refine ⟨k, ?_, hw'' ▸ hdone, htests⟩
        rw [List.countP_append]
        omega
      · intro hzero hroom acc' l w'' hl hw''
        refine ⟨k + l, ?_, hdone.trans hw'', fun i hi => ?_⟩
        · rw [List.countP_append]
          simp only [List.countP_singleton, hzero, decide_true, if_true]
          omega
        · rcases Nat.lt_or_ge i k with hik | hik
          · exact htests i hik
          · obtain rfl : i = k := by omega
            rwa [← hdone.used]
    · rintro acc w' ⟨k, hk, hpost, htests⟩
      rw [hzip] at hk
      exact hcopy acc k w' (hk.trans hwithin) hpost htests

-- ============================================================================
-- When the wait ends
-- ============================================================================

/-- `cfs_cacheWrite` and `cfs_write` return, whatever their calls return, exactly
    when the counter is below the capacity, and otherwise never do; `cfs_read`, which
    enters its missing blocks one by one, exactly when the counter is below it before
    each of them. -/
theorem eviction_wait_ends_iff (hbs : 0 < cfg.blockSize) (hwf : w.db.WF) :
    (∀ filename buf size offset fh,
      (Ends anyOutcome (fun fuel => cfsCacheWrite cfg fuel filename buf size offset fh) w ↔
        w.metadata.cacheUsedSize < cfg.capacity) ∧
      (Hangs anyOutcome (fun fuel => cfsCacheWrite cfg fuel filename buf size offset fh) w ↔
        ¬ w.metadata.cacheUsedSize < cfg.capacity)) ∧
    (∀ path buf offset fh,
      (Ends anyOutcome (fun fuel => cfsWrite cfg fuel path buf offset fh) w ↔
        w.metadata.cacheUsedSize < cfg.capacity) ∧
      (Hangs anyOutcome (fun fuel => cfsWrite cfg fuel path buf offset fh) w ↔
        ¬ w.metadata.cacheUsedSize < cfg.capacity)) ∧
    (∀ path size offset fh,
      (Ends anyOutcome (fun fuel => cfsRead cfg fuel path size offset fh) w ↔
        ∀ i < (w.db.missing (cfsPathToFileName path) (cfg.window offset size)).length,
          w.metadata.usedBefore (cfsPathToFileName path) i < cfg.capacity) ∧
      (Hangs constraintsOnly (fun fuel => cfsRead cfg fuel path size offset fh) w ↔
        ¬ ∀ i < (w.db.missing (cfsPathToFileName path) (cfg.window offset size)).length,
          w.metadata.usedBefore (cfsPathToFileName path) i < cfg.capacity)) := by
  refine ⟨fun filename buf size offset fh => ?_, fun path buf offset fh => ?_,
    fun path size offset fh => ?_⟩
  · refine ends_iff_and_hangs_iff (c := {}) (fun hroom => ?_) (fun hfull => ?_) fun _ _ => trivial
    · refine ends_of_wp 1 (wp_cfsCacheWrite_any (fun hstuck => ?_)
        fun _ _ _ _ _ _ => trivial)
      omega
    · exact hangs_of_wp fun fuel =>
        wp_cfsCacheWrite_any (fun _ => trivial) fun hroom _ _ _ _ _ => hfull hroom
  · refine ends_iff_and_hangs_iff (c := {}) (fun hroom => ?_) (fun hfull => ?_) fun _ _ => trivial
    · refine ends_of_wp 1 (wp_cfsWrite_any (fun hstuck => ?_)
        fun _ _ _ _ _ _ => trivial)
      omega
    · exact hangs_of_wp fun fuel =>
        wp_cfsWrite_any (fun _ => trivial) fun hroom _ _ _ _ _ => hfull hroom
  · refine ends_iff_and_hangs_iff (A := constraintsOnly) (c := {}) (fun hroom => ?_)
      (fun hfull => ?_) fun _ _ _ => rfl
    · refine ends_of_wp 1 (wp_cfsRead_any hbs (fun hstuck => ?_) fun _ _ _ _ _ _ => trivial)
      exact hstuck.elim (fun hzero => absurd hzero (by decide)) (not_not_intro hroom)
    · exact hangs_of_wp fun fuel =>
        wp_cfsRead_meta sqlSucceeds_constraintsOnly hbs hwf (fun _ => trivial)
          fun _ _ _ hroom => hfull hroom

end Specs

/-- A read of two blocks of a file that is open and not yet cached ends. -/
theorem eviction_wait_ends_opened :
    Ends anyOutcome (fun fuel => cfsRead sampleConfig fuel samplePath 8 0 1)
      (sampleOpened [1, 2, 3, 4, 5, 6, 7, 8]) := by
  have hwf : (sampleOpened [1, 2, 3, 4, 5, 6, 7, 8]).db.WF := by constructor <;> decide
  refine ((eviction_wait_ends_iff (by decide) hwf).2.2 samplePath 8 0 1).1.mpr fun i hi => ?_
  have hmissing : ((sampleOpened [1, 2, 3, 4, 5, 6, 7, 8]).db.missing
      (cfsPathToFileName samplePath) (sampleConfig.window 0 8)).length = 2 := by decide
  rw [hmissing] at hi
  obtain rfl | rfl : i = 0 ∨ i = 1 := by omega
  · decide
  · decide

/-- The concrete mount with larger blocks, for which the capacity is small. -/
def tightConfig (blockSize : Nat) : Config := { sampleConfig with blockSize }

def tightWorld (blockSize : Nat) (data : List UInt8) : World :=
  { sampleWorld data with metadata := { metaBlockSize := blockSize } }

theorem tightWorld_fresh (blockSize : Nat) (data : List UInt8) :
    Fresh (tightConfig blockSize) (· = samplePath) (tightWorld blockSize data) where
  metadata := rfl
  names := (sampleWorld_fresh data).names
  database := (sampleWorld_fresh data).database
  nasRegular := (sampleWorld_fresh data).nasRegular
  nasApart := (sampleWorld_fresh data).nasApart
  cacheEmpty := (sampleWorld_fresh data).cacheEmpty
  cacheBounded := (sampleWorld_fresh data).cacheBounded

/-- The same mount after a file of two blocks has been opened. -/
def tightOpened (blockSize : Nat) : World :=
  (tightWorld blockSize (List.replicate (2 * blockSize) 1)).served succeeds
    (tightConfig blockSize) {} (.cfsOpen samplePath 2)

/-- With blocks of 1024 bytes there is room for one: the read of both blocks waits
    for ever before the second. -/
theorem eviction_wait_does_not_end : ¬ ∀ (cfg : Config) (P : Path → Prop) (w₀ w : World)
    (path : Path) (size offset fh : Nat), 0 < cfg.blockSize → Fresh cfg P w₀ →
    Run succeeds cfg (OnFiles cfg P) w₀ w → OnFiles cfg P w (.cfsRead path size offset fh) →
    Ends anyOutcome (fun fuel => cfsRead cfg fuel path size offset fh) w := by
  intro h
  have hrun : Run succeeds (tightConfig 1024) (OnFiles (tightConfig 1024) (· = samplePath))
      (tightWorld 1024 (List.replicate (2 * 1024) 1)) (tightOpened 1024) :=
    .single (step_served {} (.cfsOpen samplePath 2) (by decide) rfl)
  have hhandle : OnFiles (tightConfig 1024) (· = samplePath) (tightOpened 1024)
      (.cfsRead samplePath 2048 0 1) :=
    ⟨rfl, 1, 2, ⟨⟨3, 5⟩, by decide, ⟨true, true, false, by decide⟩, true, true, by decide⟩,
      by decide⟩
  have hends := h _ _ _ _ _ _ _ _ (by decide) (tightWorld_fresh _ _) hrun hhandle
  have hwf : (tightOpened 1024).db.WF := by constructor <;> decide
  have hhangs : Hangs constraintsOnly
      (fun fuel => cfsRead (tightConfig 1024) fuel samplePath 2048 0 1) (tightOpened 1024) := by
    refine hangs_of_wp fun fuel => wp_cfsRead_meta sqlSucceeds_constraintsOnly (by decide) hwf
      (fun _ => trivial) fun _ _ _ hroom => ?_
    exact absurd (hroom 1 (by decide)) (by decide)
  exact hhangs.not_ends (c := {}) (fun _ _ _ => rfl) (fun _ _ => trivial) hends

end CacheFs
