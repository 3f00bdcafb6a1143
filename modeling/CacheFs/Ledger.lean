/-
  CacheFs.Ledger

  What the callbacks do to the metadata, whatever the system calls return.

  The outcomes of calls other than SQL statements do not matter to the metadata,
  and a statement fails for a constraint only.  What is left of `cfs_read` and
  `cfs_write` is the number of blocks they enter and the tests of `cfs_cacheWrite`
  before each entry.
-/

import CacheFs.IoSpec
import CacheFs.Meta.Frame

namespace CacheFs

open CacheFs.Effect
open CacheFs.Posix

-- ============================================================================
-- The blocks a request enters
-- ============================================================================

/-- The counter before the `i`-th missing block of a file is entered; a file without
    a row takes no blocks. -/
def MetaState.usedBefore (m : MetaState) (filename : FileName) (i : Nat) : Nat :=
  if m.db.HasFile filename then m.usedAfter i else m.cacheUsedSize

theorem Db.missing_missing (db : Db) (filename : FileName) (blkArr : List Nat) :
    db.missing filename (db.missing filename blkArr) = db.missing filename blkArr := by
  simp [missing]

theorem Db.missing_append (db : Db) (filename : FileName) (xs ys : List Nat) :
    db.missing filename (xs ++ ys) = db.missing filename xs ++ db.missing filename ys :=
  List.filter_append ..

/-- The blocks of an array from an offset on are different ones. -/
theorem Config.nodup_offsetArray (cfg : Config) (hbs : 0 < cfg.blockSize) (offset n : Nat) :
    (cfg.offsetArray offset n).Nodup := by
  refine List.nodup_range.map fun i j hij => ?_
  exact Nat.eq_of_mul_eq_mul_right hbs (by simpa using hij)

/-- The counter after the missing ones of different blocks have been entered. -/
theorem WriteBlksPost.used_eq {m m' : MetaState} {filename : FileName} {blkArr : List Nat}
    (h : WriteBlksPost m filename (m.db.missing filename blkArr) m') (hd : blkArr.Nodup) :
    m'.cacheUsedSize = m.usedBefore filename (m.db.missing filename blkArr).length := by
  obtain ⟨k, -, hused, hexact, hzero⟩ := h.used
  rw [hused, MetaState.usedBefore]
  split
  · next hf => rw [hexact (hd.filter _) hf, Db.missing_missing]
  · next hf =>
      rw [hzero hf]
      rfl

section Specs

variable {cfg : Config} {A : Choice → Call → World → Prop} {S : Prop} {w : World} {fuel fh : Nat}
  {cacheFileName : FileName}

theorem wp_cfsCacheWrite_meta (hA : SqlSucceeds A) (hwf : w.db.WF) {buf : List UInt8}
    {size offset : Nat} {Q : Int → World → Prop}
    (hspin : fuel = 0 ∨ cfg.capacity ≤ w.metadata.cacheUsedSize → S)
    (hQ : w.metadata.cacheUsedSize < cfg.capacity → ∀ r w', WriteBlksPost w.metadata cacheFileName
      (cfg.offsetArray offset (size / cfg.blockSize)) w'.metadata → Q r w') :
    Prog.wp (env A S) (cfsCacheWrite cfg fuel cacheFileName buf size offset fh) Q w := by
  unfold cfsCacheWrite
  rw [Prog.wp_bind]
  refine wp_frame rfl fun dualFH w₁ hw₁ => ?_
  rw [← hw₁] at hspin hQ
  rw [Prog.wp_bind]
  refine wp_evictionWait hspin fun hroom => ?_
  rw [Prog.wp_bind]
  refine wp_writeBlks hA (by rwa [World.db, hw₁]) fun m hm => ?_
  rw [Prog.wp_bind]
  refine wp_frame rfl fun r w₂ hw₂ => ?_
  exact hQ hroom _ w₂ (by rwa [hw₂])

/-- The blocks that are missing in the first `k` blocks of a window, and the tests
    passed on the way. -/
structure LoopMeta (cfg : Config) (m : MetaState) (cacheFileName : FileName) (lo k : Nat)
    (m' : MetaState) : Prop where
  post : WriteBlksPost m cacheFileName (m.db.missing cacheFileName (cfg.offsetArray lo k)) m'
  room : ∀ i < (m.db.missing cacheFileName (cfg.offsetArray lo k)).length,
    m.usedBefore cacheFileName i < cfg.capacity

theorem wp_readLoop_meta (hA : SqlSucceeds A) (hbs : 0 < cfg.blockSize) (hwf : w.db.WF)
    {dualFH : DualFileHandle} {lo n : Nat} {cacheBuf : List UInt8}
    (hspin : fuel = 0 ∨ (¬ ∀ i < (w.db.missing cacheFileName (cfg.offsetArray lo n)).length,
      w.metadata.usedBefore cacheFileName i < cfg.capacity) → S) :
    Prog.wp (env A S)
      (((List.range n).zip ((cfg.offsetArray lo n).map (w.db.hitFlag cacheFileName))).foldlM
        (fun acc e => readBlock cfg fuel cacheFileName lo fh dualFH acc e.1 e.2) (0, cacheBuf))
      (fun _ w' => LoopMeta cfg w.metadata cacheFileName lo n w'.metadata) w := by
  rw [cfg.zip_offsetArray]
  refine Prog.wp_mono (Prog.wp_foldlM (I := fun done _ w' =>
    LoopMeta cfg w.metadata cacheFileName lo done.length w'.metadata) ?_ ?_) ?_
  · refine ⟨?_, fun i hi => ?_⟩
    · simpa [Config.offsetArray, Db.missing] using WriteBlksPost.refl w.metadata cacheFileName
    · simp [Config.offsetArray, Db.missing] at hi
  · rintro done x rest acc w' hx ⟨hpost, hroom⟩
    obtain ⟨hk, rfl⟩ := range_map_split hx
    rw [List.length_append, List.length_singleton]
    generalize done.length = k at *
    have hsucc := cfg.offsetArray_succ lo k
    unfold readBlock
    rw [Prog.wp_ite]
    split
    · -- the block is recorded
      next hhit =>
      have hsel := hwf.selectBlockId_iff.mpr ((Db.hitFlag_ne_zero_iff hwf).mp hhit)
      have hmissing : w.db.missing cacheFileName (cfg.offsetArray lo (k + 1)) =
          w.db.missing cacheFileName (cfg.offsetArray lo k) := by
        rw [hsucc, Db.missing_append]
        simp [Db.missing, hsel]
      rw [Prog.wp_bind]
      refine wp_frame rfl fun r w₁ hw₁ => ?_
      rw [World.db] at hmissing
      rw [Prog.wp_pure, hw₁]
      exact ⟨hmissing ▸ hpost, hmissing ▸ hroom⟩
    · -- the block is missing: the counter is tested, and the block entered
      next hmiss =>
      have hnew := (Db.hitFlag_ne_zero_iff hwf).not.mp hmiss
      have hsel : w.db.selectBlockId (lo + k * cfg.blockSize) cacheFileName = false := by
        rw [← hwf.selectBlockId_iff] at hnew
        simpa using hnew
      have hmissing : w.metadata.db.missing cacheFileName (cfg.offsetArray lo (k + 1)) =
          w.metadata.db.missing cacheFileName (cfg.offsetArray lo k) ++
            [lo + k * cfg.blockSize] := by
        rw [hsucc, Db.missing_append]
        have hsel' : w.metadata.db.selectBlockId (lo + k * cfg.blockSize) cacheFileName = false :=
          hsel
        simp [Db.missing, hsel']
      have hused := hpost.used_eq (cfg.nodup_offsetArray hbs lo k)
      have hwf' : w'.db.WF := AddSteps.wf hpost.steps hwf
      have hwithin : (w.metadata.db.missing cacheFileName (cfg.offsetArray lo k)).length <
          (w.metadata.db.missing cacheFileName (cfg.offsetArray lo n)).length := by
        have hsub := ((List.range_sublist.mpr hk).map fun i => lo + i * cfg.blockSize).filter
          fun o => !w.metadata.db.selectBlockId o cacheFileName
        have hle := hsub.length_le
        change (w.metadata.db.missing cacheFileName (cfg.offsetArray lo (k + 1))).length ≤
          (w.metadata.db.missing cacheFileName (cfg.offsetArray lo n)).length at hle
        rw [hmissing, List.length_append, List.length_singleton] at hle
        omega
      rw [Prog.wp_bind]
      refine wp_frame rfl fun r w₁ hw₁ => ?_
      rw [← hw₁] at hused hpost
      rw [Prog.wp_bind]
      refine wp_cfsCacheWrite_meta hA (by rwa [World.db, hw₁]) ?_ fun hfree ret w₂ hm => ?_
      · rintro (hzero | hfull)
        · exact hspin (Or.inl hzero)
        · refine hspin (Or.inr fun hall => ?_)
          have hlt := hall _ hwithin
          omega
      · rw [cfg.offsetArray_one hbs] at hm
        refine ⟨hmissing ▸ hpost.trans hwf hm, fun i hi => ?_⟩
        rw [hmissing, List.length_append, List.length_singleton] at hi
        rcases Nat.lt_succ_iff_lt_or_eq.mp hi with hi | rfl
        · exact hroom i hi
        · omega
  · intro acc w' h
    simpa using h

/-- `cfs_read` enters the missing blocks of its window, each after a test of its
    own. -/
theorem wp_cfsRead_meta (hA : SqlSucceeds A) (hbs : 0 < cfg.blockSize) (hwf : w.db.WF)
    {path : Path} {size offset : Nat} {Q : Int × List UInt8 → World → Prop}
    (hspin : fuel = 0 ∨ (¬ ∀ i < (w.db.missing (cfsPathToFileName path)
      (cfg.window offset size)).length,
        w.metadata.usedBefore (cfsPathToFileName path) i < cfg.capacity) → S)
    (hQ : ∀ r w', WriteBlksPost w.metadata (cfsPathToFileName path)
        (w.db.missing (cfsPathToFileName path) (cfg.window offset size)) w'.metadata →
      (∀ i < (w.db.missing (cfsPathToFileName path) (cfg.window offset size)).length,
        w.metadata.usedBefore (cfsPathToFileName path) i < cfg.capacity) → Q r w') :
    Prog.wp (env A S) (cfsRead cfg fuel path size offset fh) Q w := by
  have hcopy : ∀ (acc : Int × List UInt8) (w' : World),
      LoopMeta cfg w.metadata (cfsPathToFileName path) (cfg.alignLowerOffset offset)
        (cfg.windowBlocks size) w'.metadata →
      Prog.wp (env A S) (do
        let buf ← copyOut acc.2 (offset - cfg.alignLowerOffset offset) size
        pure (acc.1, buf)) Q w' := by
    intro acc w' h
    rw [Prog.wp_bind]
    unfold copyOut
    rw [Prog.wp_ite]
    split
    · rw [Prog.wp_bind]
      refine wp_frame rfl fun stray w₁ hw₁ => ?_
      exact hQ _ w₁ (hw₁ ▸ h.post) h.room
    · exact hQ _ w' h.post h.room
  unfold cfsRead
  rw [Prog.wp_bind]
  apply wp_areBlocksInCache hA
  rw [Prog.wp_bind]
  refine wp_frame rfl fun dualFH w₁ hw₁ => ?_
  rw [Prog.wp_bind]
  refine wp_frame rfl fun cacheBuf w₂ hw₂ => ?_
  have hmeta : w₂.metadata = w.metadata := hw₂.trans hw₁
  have hdb : w.db = w₂.db := by rw [World.db, World.db, hmeta]
  rw [Prog.wp_bind]
  unfold readWindow
  rw [Prog.wp_ite]
  split
  · -- all blocks are recorded
    next hhit =>
    have hnone : w.metadata.db.missing (cfsPathToFileName path) (cfg.offsetArray
        (cfg.alignLowerOffset offset) (cfg.windowBlocks size)) = [] := by
      refine List.filter_eq_nil_iff.mpr fun o ho => ?_
      have hsel := List.all_eq_true.mp hhit o ho
      simp only [World.db] at hsel
      simp [hsel]
    rw [Prog.wp_bind]
    refine wp_frame rfl fun r w₃ hw₃ => ?_
    refine hcopy _ w₃ ⟨?_, fun i hi => ?_⟩
    · rw [hnone, hw₃, hmeta]
      exact .refl _ _
    · rw [hnone] at hi
      exact absurd hi (Nat.not_lt_zero i)
  · rw [hdb] at hspin ⊢
    refine Prog.wp_mono (wp_readLoop_meta hA hbs (by rwa [← hdb]) ?_) fun acc w' h => ?_
    · rw [hmeta]
      exact hspin
    · rw [hmeta] at h
      exact hcopy acc w' h

end Specs

end CacheFs
