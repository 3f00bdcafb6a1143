/-
  CacheFs.Remount

  The cache after a remount with another block size.

  A row of `Datablocks` carries an offset and no length; the length is an argument
  of each mount.  A row written in one grid is therefore read in another, and
  stands for more bytes, or fewer, than were stored for it.
-/

import CacheFs.Session
import CacheFs.Meta.Account
import CacheFs.Meta.Faults
import CacheFs.Transparency

namespace CacheFs

open CacheFs.Effect
open CacheFs.Posix

-- ============================================================================
-- The remount
-- ============================================================================

section Remount

variable {cfg : Config} {w w' : World} {path : Path} {b₁ b₂ : Nat}

/-- Whatever its statements do, a mount leaves rows and files as they are. -/
theorem wp_mount_any {A : Choice → Call → World → Prop} {S : Prop} {blkSize : Nat}
    {Q : Option Unit → World → Prop}
    (hQ : ∀ r used, Q r { w with metadata :=
      { db := w.db, cacheUsedSize := used, metaBlockSize := blkSize } }) :
    Prog.wp (env A S) (mount blkSize) Q w := by
  unfold mount setBlockSize initCacheUsedSize
  simp only [Prog.wp_bind, ask, wp_call, Prog.wp_ret]
  intro c₁ _ c₂ _
  rw [Prog.wp_ite]
  split
  · exact hQ _ _
  · -- the answer is read, and the process ends on one that is no number
    split
    · exact hQ _ _
    · split
      · exact hQ _ _
      · simp only [Prog.wp_bind, wp_call, Prog.wp_ret]
        exact fun _ _ => hQ _ _

/-- `is_blk_in_cache` may answer 1. -/
def Hit (w : World) (filename : FileName) (off : Nat) : Prop :=
  ∃ w', Prog.Exec (env anyOutcome False) (isBlkInCache filename off) w 1 w'

theorem hit_iff {filename : FileName} {off : Nat} :
    Hit w filename off ↔ w.db.selectBlockId off filename = true := by
  constructor
  · rintro ⟨w', he⟩
    refine Prog.wp_exec (Q := fun r _ => r = 1 → w.db.selectBlockId off filename = true) ?_ he rfl
    exact wp_isBlkInCache_any fun r hr => hr.one
  · intro hsel
    have hrow : World.select {} (w.db.selectBlockId off filename) = .row := by
      rw [hsel]
      rfl
    refine ⟨w, {}, trivial, ?_⟩
    simp only [env, handle, hrow]
    exact ⟨{}, trivial, rfl, rfl⟩

/-- A remount changes the two counters only. -/
theorem eq_of_mount (hmount : Prog.Exec (env anyOutcome False) (mount b₂) w.reboot (some ()) w') :
    ∃ used, w' = { w.reboot with metadata :=
      { db := w.db, cacheUsedSize := used, metaBlockSize := b₂ } } :=
  Prog.wp_exec (Q := fun _ w' => ∃ used, w' = { w.reboot with metadata :=
    { db := w.db, cacheUsedSize := used, metaBlockSize := b₂ } })
    (wp_mount_any fun _ used => ⟨used, rfl⟩) hmount

/-- A hit after the remount is right exactly when the recorded block was right before it,
    in its new length. -/
theorem hit_mounted_iff (hwf : w.db.WF) {off : Nat}
    (hmount : Prog.Exec (env anyOutcome False) (mount b₂) w.reboot (some ()) w') :
    (Hit w' (cfsPathToFileName path) off → Agree off (off + b₂)
      (w'.cache.content (cfg.fullCachePath path)) (w'.nas.content (cfg.fullNasPath path))) ↔
    (w.db.Recorded (cfsPathToFileName path) off → Agree off (off + b₂)
      (w.cache.content (cfg.fullCachePath path)) (w.nas.content (cfg.fullNasPath path))) := by
  obtain ⟨used, rfl⟩ := eq_of_mount hmount
  rw [hit_iff, ← hwf.selectBlockId_iff]
  rfl

/-- After the remount a hit means `b₂` bytes of the file exactly when the bytes no
    row of the first mount stands for are there as well. -/
theorem remount_safe_iff (hwf : w.db.WF)
    (hagree : ∀ o, w.db.Recorded (cfsPathToFileName path) o → Agree o (o + b₁)
      (w.cache.content (cfg.fullCachePath path)) (w.nas.content (cfg.fullNasPath path)))
    (hmount : Prog.Exec (env anyOutcome False) (mount b₂) w.reboot (some ()) w') :
    (∀ off, off % b₂ = 0 → Hit w' (cfsPathToFileName path) off → Agree off (off + b₂)
      (w'.cache.content (cfg.fullCachePath path)) (w'.nas.content (cfg.fullNasPath path))) ↔
    ∀ off, off % b₂ = 0 → w.db.Recorded (cfsPathToFileName path) off →
      ∀ i, off ≤ i → i < off + b₂ → i < (w.nas.content (cfg.fullNasPath path)).length →
        (∀ o, w.db.Recorded (cfsPathToFileName path) o → i < o ∨ o + b₁ ≤ i) →
        (w.cache.content (cfg.fullCachePath path))[i]? =
          (w.nas.content (cfg.fullNasPath path))[i]? := by
  refine forall_congr' fun off => forall_congr' fun _ => ?_
  rw [hit_mounted_iff hwf hmount, ← Agree.regrid_iff hagree]

/-- A hit is right when the blocks of the first mount cover the block it is about, as far
    as the file goes. -/
theorem remount_agrees_of_covered (hwf : w.db.WF)
    (hagree : ∀ o, w.db.Recorded (cfsPathToFileName path) o → Agree o (o + b₁)
      (w.cache.content (cfg.fullCachePath path)) (w.nas.content (cfg.fullNasPath path)))
    (hmount : Prog.Exec (env anyOutcome False) (mount b₂) w.reboot (some ()) w') {off : Nat}
    (hcov : w.db.Recorded (cfsPathToFileName path) off → ∀ i, off ≤ i → i < off + b₂ →
      i < (w.nas.content (cfg.fullNasPath path)).length →
      ∃ o, w.db.Recorded (cfsPathToFileName path) o ∧ o ≤ i ∧ i < o + b₁) :
    Hit w' (cfsPathToFileName path) off → Agree off (off + b₂)
      (w'.cache.content (cfg.fullCachePath path)) (w'.nas.content (cfg.fullNasPath path)) := by
  refine (hit_mounted_iff hwf hmount).mpr fun hr => ?_
  refine (Agree.regrid_iff hagree off).mpr fun i hlo hhi hlt hout => ?_
  obtain ⟨o, ho, hle, hlt'⟩ := hcov hr i hlo hhi hlt
  have hapart := hout o ho
  omega

/-- A recorded block covers itself, so a mount with blocks that are not longer is safe. -/
theorem remount_agrees_of_le (hwf : w.db.WF)
    (hagree : ∀ o, w.db.Recorded (cfsPathToFileName path) o → Agree o (o + b₁)
      (w.cache.content (cfg.fullCachePath path)) (w.nas.content (cfg.fullNasPath path)))
    (hmount : Prog.Exec (env anyOutcome False) (mount b₂) w.reboot (some ()) w') (hle : b₂ ≤ b₁)
    {off : Nat} : Hit w' (cfsPathToFileName path) off → Agree off (off + b₂)
      (w'.cache.content (cfg.fullCachePath path)) (w'.nas.content (cfg.fullNasPath path)) :=
  remount_agrees_of_covered hwf hagree hmount fun hr _ hlo hhi _ => ⟨off, hr, hlo, by omega⟩

end Remount

/-- The bytes of a file of three blocks of 4 bytes. -/
def twelve : List UInt8 := [1, 2, 3, 4, 5, 6, 7, 8, 9, 10, 11, 12]

/-- Two of its blocks have been read. -/
def samplePart : World :=
  (sampleOpened twelve).served succeeds sampleConfig {} (.cfsRead samplePath 8 0 1)

theorem run_samplePart :
    Run succeeds sampleConfig (Clean sampleConfig (· = samplePath))
      (sampleWorld twelve) samplePart := by
  have hopen : Step succeeds sampleConfig (Clean sampleConfig (· = samplePath)) (sampleWorld twelve)
      (sampleOpened twelve) := step_served {} (.cfsOpen samplePath 2) (by decide) rfl
  have hcur : Current sampleConfig (sampleOpened twelve) samplePath 1 1 2 :=
    ⟨⟨⟨3, 5⟩, by decide, ⟨true, true, false, by decide⟩, true, true, by decide⟩,
      by decide, by decide⟩
  have hread : Step succeeds sampleConfig (Clean sampleConfig (· = samplePath))
      (sampleOpened twelve) samplePart :=
    step_served {} (.cfsRead samplePath 8 0 1) (by decide) ⟨rfl, 1, 2, hcur, by decide⟩
  exact (Relation.ReflTransGen.single hopen).tail hread

theorem blocksAgree_samplePart : BlocksAgree sampleConfig samplePath samplePart :=
  (Clean.run (by decide) (sampleWorld_fresh _) run_samplePart).2 _ rfl

/-- With blocks of 8 bytes the two rows cover what their offsets stand for. -/
theorem remount_safe_eight : ∃ w', Prog.Exec (env anyOutcome False) (mount 8) samplePart.reboot
    (some ()) w' ∧ ∀ off, off % 8 = 0 → Hit w' (cfsPathToFileName samplePath) off →
      Agree off (off + 8) (w'.cache.content (sampleConfig.fullCachePath samplePath))
        (w'.nas.content (sampleConfig.fullNasPath samplePath)) := by
  have hwf : samplePart.db.WF := by constructor <;> decide
  have hrows : ∀ b ∈ samplePart.db.datablocks, b.blkStartOffset = 0 ∨ b.blkStartOffset = 4 := by
    decide
  have hzero : samplePart.db.Recorded (cfsPathToFileName samplePath) 0 :=
    hwf.selectBlockId_iff.mp (by decide)
  have hfour : samplePart.db.Recorded (cfsPathToFileName samplePath) 4 :=
    hwf.selectBlockId_iff.mp (by decide)
  obtain ⟨w', hrun⟩ : ∃ w', Prog.runAllowed (env anyOutcome False) (fun _ => {}) (mount 8)
      samplePart.reboot = some (some (), w') := ⟨_, rfl⟩
  refine ⟨w', Prog.exec_of_runAllowed _ hrun, (remount_safe_iff hwf
    (fun o ho => (blocksAgree_samplePart o ho).2) (Prog.exec_of_runAllowed _ hrun)).mpr ?_⟩
  intro off hoff ⟨f, _, _, b, hb, _, ho⟩ i hlo hhi _ huncovered
  have hout₀ := huncovered 0 hzero
  have hout₄ := huncovered 4 hfour
  have hblock := hrows b hb
  have hbs : sampleConfig.blockSize = 4 := rfl
  omega

/-- With blocks of 16 bytes the row of offset 0 stands for four bytes that have never
    been stored. -/
theorem remount_not_safe : ¬ ∀ (cfg : Config) (P : Path → Prop) (w₀ w w' : World) (path : Path)
    (b₂ : Nat), 0 < cfg.blockSize → 0 < b₂ → Fresh cfg P w₀ →
    Run succeeds cfg (OnFiles cfg P) w₀ w →
    P path → BlocksAgree cfg path w →
    Prog.Exec (env anyOutcome False) (mount b₂) w.reboot (some ()) w' →
    ∀ off, off % b₂ = 0 → Hit w' (cfsPathToFileName path) off → Agree off (off + b₂)
      (w'.cache.content (cfg.fullCachePath path)) (w'.nas.content (cfg.fullNasPath path)) := by
  intro h
  obtain ⟨⟨r, w'⟩, hrun, hf⟩ := Option.map_eq_some_iff.mp
    (by decide : (Prog.runAllowed (env anyOutcome False) (fun _ => {}) (mount 16)
      samplePart.reboot).map (fun x => (x.1, x.2.db.selectBlockId 0 (cfsPathToFileName samplePath),
        x.2.cache.content (sampleConfig.fullCachePath samplePath),
        x.2.nas.content (sampleConfig.fullNasPath samplePath))) =
      some (some (), true, [1, 2, 3, 4, 5, 6, 7, 8], twelve))
  simp only [Prod.mk.injEq] at hf
  obtain ⟨rfl, hsel, hcopy, hdata⟩ := hf
  have hblock := h _ _ _ _ _ _ 16 (by decide) (by decide) (sampleWorld_fresh twelve)
    (Clean.onFiles run_samplePart) rfl blocksAgree_samplePart (Prog.exec_of_runAllowed _ hrun) 0 rfl
    (hit_iff.mpr hsel)
  rw [hcopy, hdata] at hblock
  exact absurd (hblock 8 (by decide) (by decide) (by decide)) (by decide)

end CacheFs
