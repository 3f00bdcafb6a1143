/-
  CacheFs.Returned

  What `cfs_read` returns.

  On a full hit the status is that of one read of the whole window.  Otherwise the
  results of the reads of its blocks are added up, a failed one counting as -1.  Either
  way it speaks about the window and not about the request: bytes before the offset and
  behind its end are counted, and a failed read is hidden by the bytes of the others.
-/

import CacheFs.Lookup

namespace CacheFs

open CacheFs.Effect
open CacheFs.Posix

-- ============================================================================
-- The reads of an execution
-- ============================================================================

/-- What the reads among the events have answered. -/
def readReplies (tr : List CfsEvent) : List (SysRet (List UInt8)) :=
  tr.filterMap fun e =>
    match e.op with
    | .pread fd n off => some (e.before.pread e.choice fd n off)
    | _ => none

/-- The number of reads that have failed. -/
def failedReads (tr : List CfsEvent) : Nat := (readReplies tr).countP fun r => !r.isOk

/-- The number of bytes the other ones have returned. -/
def bytesRead (tr : List CfsEvent) : Nat :=
  ((readReplies tr).map fun r => (r.toOption.getD []).length).sum

section Replies

variable {tr tr' : List CfsEvent}

theorem readReplies_append : readReplies (tr ++ tr') = readReplies tr ++ readReplies tr' :=
  List.filterMap_append ..

theorem readReplies_eq_nil (h : ∀ e ∈ tr, ∀ fd n off, e.op ≠ .pread fd n off) :
    readReplies tr = [] := by
  refine List.filterMap_eq_nil_iff.mpr fun e he => ?_
  split
  · next hop => exact absurd hop (h e he _ _ _)
  · rfl

theorem readReplies_pread (c : Choice) (w : World) (fd : Int) (n off : Nat) :
    readReplies [⟨.pread fd n off, c, w⟩] = [w.pread c fd n off] := rfl

/-- The status of a sequence of reads. -/
def readStatus (tr : List CfsEvent) : Int := bytesRead tr - failedReads tr

theorem readStatus_append : readStatus (tr ++ tr') = readStatus tr + readStatus tr' := by
  simp only [readStatus, bytesRead, failedReads, readReplies_append, List.map_append,
    List.sum_append, List.countP_append, Int.natCast_add]
  omega

theorem readStatus_of_no_read (h : ∀ e ∈ tr, ∀ fd n off, e.op ≠ .pread fd n off) :
    readStatus tr = 0 := by
  rw [readStatus, bytesRead, failedReads, readReplies_eq_nil h]
  rfl

/-- A read adds the number of its bytes, or -1. -/
theorem wrap32_rawRet_readRet (c : Choice) (w : World) (fd : Int) (n off : Nat) (a : Int) :
    wrap32 (wrap32 a + rawRet (readRet (w.pread c fd n off))) =
      wrap32 (a + readStatus [⟨.pread fd n off, c, w⟩]) := by
  rw [readStatus, bytesRead, failedReads, readReplies_pread]
  cases h : w.pread c fd n off with
  | ok bytes =>
      simp only [readRet, Except.map, rawRet, List.map_cons, List.map_nil, List.sum_cons,
        List.sum_nil, Except.toOption, Option.getD_some, List.countP_cons, List.countP_nil,
        Except.isOk, Except.toBool]
      rw [wrap32_add]
      rfl
  | error e =>
      simp only [readRet, Except.map, rawRet, List.map_cons, List.map_nil, List.sum_cons,
        List.sum_nil, Except.toOption, Option.getD_none, List.length_nil, List.countP_cons,
        List.countP_nil, Except.isOk, Except.toBool]
      rw [wrap32, wrap32, Int.bmod_add_bmod, wrap32]
      rfl

end Replies

-- ============================================================================
-- The status of cfs_read
-- ============================================================================

/-- `cfs_read` takes the whole window for recorded: every block of it is, or its lookup
    has failed. -/
def WindowHit (cfg : Config) (w : World) (path : Path) (size offset : Nat)
    (tr : List CfsEvent) : Prop :=
  ∀ o ∈ cfg.window offset size, w.db.Recorded (cfsPathToFileName path) o ∨
    ¬ FirstAnswered tr (.selectBlockId o (cfsPathToFileName path))

section Status

variable {S : Prop} {cfg : Config} {w s s' : World} {fuel fh : Nat} {cacheFileName : FileName}
  {tr : List CfsEvent} {dualFH : DualFileHandle}

theorem Looked.windowHit_iff {path : Path} {size offset : Nat} {tr₁ tr₂ : List CfsEvent}
    {hits : List Int}
    (h : Looked (cfsPathToFileName path) w.db (cfg.window offset size) tr₁ hits) (hwf : w.db.WF) :
    WindowHit cfg w path size offset (tr₁ ++ tr₂) ↔ 0 ∉ hits := by
  constructor
  · intro hhit hz
    rw [← List.map_snd_zip h.length_eq.ge, List.mem_map] at hz
    obtain ⟨⟨o, r⟩, hmem, rfl⟩ := hz
    obtain ⟨hno, hans⟩ := (h.zero_iff hwf hmem).mp rfl
    exact (hhit o (List.of_mem_zip hmem).1).elim hno fun hnans => hnans hans
  · intro hz o ho
    rw [← List.map_fst_zip h.length_eq.le, List.mem_map] at ho
    obtain ⟨⟨o, hit⟩, hmem, rfl⟩ := ho
    by_contra hboth
    rw [not_or, not_not] at hboth
    exact hz ((h.zero_iff hwf hmem).mpr hboth ▸ (List.of_mem_zip hmem).2)

/-- One turn adds the result of one read. -/
theorem traced_readBlock_status {lowerOffset k : Nat} {acc r : Int × List UInt8}
    {hit : Int} {a : Int} (hacc : acc.1 = wrap32 a)
    (h : Prog.Traced (env anyOutcome S)
      (readBlock cfg fuel cacheFileName lowerOffset fh dualFH acc k hit) s tr r s') :
    r.1 = wrap32 (a + readStatus tr) := by
  unfold readBlock at h
  by_cases hhit : hit ≠ 0
  · rw [if_pos hhit] at h
    obtain ⟨c, tr', -, rfl, rfl, rfl, rfl⟩ := h
    simp only [env, handle, hacc]
    exact wrap32_rawRet_readRet c s' _ _ _ a
  · rw [if_neg hhit] at h
    obtain ⟨c, tr', -, rfl, h'⟩ := traced_ask.mp h
    obtain ⟨tr₁, tr₂, x, s₁, rfl, h₁, rfl, rfl, rfl⟩ := Prog.traced_bind.mp h'
    -- storing the block reads nothing
    have hquiet : readStatus tr₁ = 0 := by
      refine readStatus_of_no_read fun e he fd n off hop => ?_
      have hst := h₁.only (only_cfsCacheWrite _ _ _) e he
      rw [hop] at hst
      cases hst
    rw [← List.singleton_append, List.append_nil, readStatus_append, hquiet, Int.add_zero]
    simp only [handle, hacc]
    exact wrap32_rawRet_readRet c s _ _ _ a

/-- The status of a window that is filled block by block. -/
theorem traced_readLoop_status {lowerOffset : Nat} {cacheBuf : List UInt8} {r : Int × List UInt8}
    {xs : List (Nat × Int)}
    (h : Prog.Traced (env anyOutcome S) (xs.foldlM (fun acc e =>
      readBlock cfg fuel cacheFileName lowerOffset fh dualFH acc e.1 e.2) (0, cacheBuf))
      s tr r s') :
    r.1 = wrap32 (readStatus tr) := by
  refine h.foldlM_invariant (I := fun _ acc _ tr => acc.1 = wrap32 (readStatus tr)) ?_ ?_
  · exact wrap32_zero.symm
  · intro done x rest acc s₁ tr₁ acc' s₂ tr₂ _ hacc hturn
    rw [readStatus_append]
    exact traced_readBlock_status hacc hturn

theorem traced_cfsRead_status (hwf : w.db.WF) {path : Path} {size offset : Nat}
    {r : Int × List UInt8}
    (h : Prog.Traced (env anyOutcome S) (cfsRead cfg fuel path size offset fh) w tr r s') :
    (WindowHit cfg w path size offset tr →
      ∃ reply, readReplies tr = [reply] ∧ r.1 = logSyscall (readRet reply)) ∧
    (¬ WindowHit cfg w path size offset tr → r.1 = wrap32 (readStatus tr)) := by
  obtain ⟨tr₁, pre, tr₂, post, hits, cacheBuf, acc, rfl, hlook, hmemory, hret, hwindow⟩ :=
    traced_cfsRead_split h
  have hreads : readReplies (tr₁ ++ (pre ++ (tr₂ ++ post))) = readReplies tr₂ := by
    have hpre : readReplies pre = [] := readReplies_eq_nil fun e he =>
      Call.no_read_of_onMemory (hmemory e (List.mem_append_left _ he))
    have hpost : readReplies post = [] := readReplies_eq_nil fun e he =>
      Call.no_read_of_onMemory (hmemory e (List.mem_append_right _ he))
    rw [readReplies_append, readReplies_append, readReplies_append, hpre, hpost,
      readReplies_eq_nil fun e he => hlook.no_read he]
    simp
  have hhit : WindowHit cfg w path size offset (tr₁ ++ (pre ++ (tr₂ ++ post))) ↔ 0 ∉ hits :=
    hlook.windowHit_iff hwf
  by_cases hz : 0 ∈ hits
  · refine ⟨fun h => absurd hz (hhit.mp h), fun _ => ?_⟩
    rw [if_pos hz, readWindow, if_neg (by decide)] at hwindow
    rw [hret, readStatus, bytesRead, failedReads, hreads]
    exact traced_readLoop_status hwindow
  · refine ⟨fun _ => ?_, fun h => absurd (hhit.mpr hz) h⟩
    rw [if_neg hz, readWindow, if_pos (by decide)] at hwindow
    obtain ⟨c, tr', -, rfl, rfl, rfl, rfl⟩ := traced_ask.mp hwindow
    exact ⟨_, hreads, hret⟩

end Status

-- ============================================================================
-- The status and the bytes of the request
-- ============================================================================

/-- The number of bytes of the NAS file that a request asks for. -/
def deliverable (nasSize offset size : Nat) : Nat := min size (nasSize - offset)

section Returned

variable {cfg : Config} {w w' : World} {path : Path} {fuel size offset fh : Nat} {ni ci : Ino}

/-- A window none of whose blocks is recorded holds as many bytes as the request when
    neither its part before the offset nor that behind the end of the request is there. -/
theorem cold_eq_deliverable_iff (hbs : 0 < cfg.blockSize) (nasSize : Nat) :
    min (cfg.alignedSize size) (nasSize - cfg.alignLowerOffset offset) =
        deliverable nasSize offset size ↔
      size = 0 ∨ nasSize ≤ cfg.alignLowerOffset offset ∨
        (cfg.alignLowerOffset offset = offset ∧ nasSize ≤ offset + size) ∨
        (cfg.alignedSize size = size ∧ offset + size ≤ nasSize) := by
  have hlow := cfg.alignLowerOffset_le offset
  have hsize := cfg.le_alignedSize hbs size
  have hzero : size = 0 → cfg.alignedSize size = 0 := fun h => h ▸ cfg.alignedSize_zero
  unfold deliverable
  omega

/-- The status after a request all of whose calls succeed. -/
theorem cfsRead_returns (hbs : 0 < cfg.blockSize) (hwf : w.db.WF) (hfh : Opened w fh ni ci)
    {ret : Int} {buf : List UInt8}
    (he : Prog.Exec (env succeeds True) (cfsRead cfg fuel path size offset fh) w (ret, buf) w') :
    ret = wrap32 (w.held cfg (cfsPathToFileName path) ni ci (cfg.alignLowerOffset offset)
      (cfg.windowBlocks size)) :=
  Prog.wp_exec (Q := fun (r : Int × List UInt8) _ => r.1 = wrap32 (w.held cfg
      (cfsPathToFileName path) ni ci (cfg.alignLowerOffset offset) (cfg.windowBlocks size)))
    (wp_cfsRead allSucceed_succeeds hbs hwf hfh fun _ _ _ _ _ _ hret _ => hret) he

/-- With recorded blocks that are whole in the cache file, a window holds at least what the
    NAS file has of it, and just that exactly when these blocks end within the NAS file. -/
theorem held_of_whole (hbs : 0 < cfg.blockSize) (ni : Ino) {lowerOffset k : Nat} {n : FileName}
    (hwhole : ∀ i < k, w.db.selectBlockId (lowerOffset + i * cfg.blockSize) n = true →
      lowerOffset + i * cfg.blockSize + cfg.blockSize ≤ (w.cache.inode ci).data.length) :
    min (k * cfg.blockSize) ((w.nas.inode ni).data.length - lowerOffset) ≤
        w.held cfg n ni ci lowerOffset k ∧
      w.held cfg n ni ci lowerOffset k ≤ k * cfg.blockSize ∧
      (w.held cfg n ni ci lowerOffset k =
          min (k * cfg.blockSize) ((w.nas.inode ni).data.length - lowerOffset) ↔
        ∀ i < k, w.db.selectBlockId (lowerOffset + i * cfg.blockSize) n = true →
          lowerOffset + i * cfg.blockSize + cfg.blockSize ≤ (w.nas.inode ni).data.length) := by
  induction k with
  | zero => simp [World.held_zero]
  | succ k ih =>
      obtain ⟨hle, hge, hiff⟩ := ih fun i hi => hwhole i (by omega)
      have hlast := hwhole k (Nat.lt_succ_self k)
      rw [Nat.forall_lt_succ_right, ← hiff, World.held_succ, World.source, Nat.succ_mul]
      cases hsel : w.db.selectBlockId (lowerOffset + k * cfg.blockSize) n with
      | true =>
          have hin := hlast hsel
          simp only [if_true, forall_const]
          refine ⟨by omega, by omega, ?_⟩
          constructor <;> omega
      | false =>
          simp only [Bool.false_eq_true, if_false, false_implies, and_true]
          refine ⟨by omega, by omega, ?_⟩
          constructor <;> omega

/-- The status in terms of the request, when the recorded blocks of the window are whole in
    the cache file: none of them may reach behind the end of the NAS file, whose padding
    would be counted, and the rest is a matter of alignment. -/
theorem cfsRead_returns_whole (hbs : 0 < cfg.blockSize) (hwf : w.db.WF)
    (hfh : Opened w fh ni ci) (hint : cfg.alignedSize size < 2 ^ 31)
    (hwhole : ∀ o ∈ cfg.window offset size, w.db.Recorded (cfsPathToFileName path) o →
      o + cfg.blockSize ≤ (w.cache.inode ci).data.length) {ret : Int} {buf : List UInt8}
    (he : Prog.Exec (env succeeds True) (cfsRead cfg fuel path size offset fh) w (ret, buf) w') :
    ret = deliverable (w.nas.inode ni).data.length offset size ↔
      (∀ o ∈ cfg.window offset size, w.db.Recorded (cfsPathToFileName path) o →
        o + cfg.blockSize ≤ (w.nas.inode ni).data.length) ∧
      (size = 0 ∨ (w.nas.inode ni).data.length ≤ cfg.alignLowerOffset offset ∨
        (cfg.alignLowerOffset offset = offset ∧
          (w.nas.inode ni).data.length ≤ offset + size) ∨
        (cfg.alignedSize size = size ∧ offset + size ≤ (w.nas.inode ni).data.length)) := by
  have hblocks : ∀ L : Nat, (∀ o ∈ cfg.window offset size,
      w.db.Recorded (cfsPathToFileName path) o → o + cfg.blockSize ≤ L) ↔
      ∀ i < cfg.windowBlocks size, w.db.selectBlockId (cfg.alignLowerOffset offset +
        i * cfg.blockSize) (cfsPathToFileName path) = true →
        cfg.alignLowerOffset offset + i * cfg.blockSize + cfg.blockSize ≤ L := by
    intro L
    simp only [Config.window, cfg.mem_offsetArray, hwf.selectBlockId_iff]
    constructor
    · exact fun h i hi => h _ ⟨i, hi, rfl⟩
    · rintro h o ⟨i, hi, rfl⟩
      exact h i hi
  obtain ⟨hle, hge, hiff⟩ := held_of_whole hbs ni ((hblocks _).mp hwhole)
  rw [← cfg.alignedSize_eq] at hle hge hiff
  rw [hblocks, ← hiff, ← cold_eq_deliverable_iff hbs, cfsRead_returns hbs hwf hfh he,
    wrap32_of_lt (by omega), Int.ofNat_inj]
  -- the window reaches at least as far as the request
  have hmost : deliverable (w.nas.inode ni).data.length offset size ≤
      min (cfg.alignedSize size)
        ((w.nas.inode ni).data.length - cfg.alignLowerOffset offset) := by
    have hlow := cfg.alignLowerOffset_le offset
    have hsize := cfg.le_alignedSize hbs size
    unfold deliverable
    omega
  omega

/-- When all calls succeed, the status is the number of bytes asked for that the file has
    exactly when the window holds that many, be it in the cache file or the NAS file; for
    a window without recorded blocks this is a matter of alignment.  When a read fails,
    the status is negative exactly when it was the only one, the window being taken for
    recorded, or when the others have not returned enough bytes to make up for it. -/
theorem read_returns_iff (hbs : 0 < cfg.blockSize) (hwf : w.db.WF) (hfh : Opened w fh ni ci) :
    (∀ ret buf w',
      Prog.Exec (env succeeds True) (cfsRead cfg fuel path size offset fh) w (ret, buf) w' →
      (ret = deliverable (w.nas.inode ni).data.length offset size ↔
        wrap32 (w.held cfg (cfsPathToFileName path) ni ci (cfg.alignLowerOffset offset)
          (cfg.windowBlocks size)) = deliverable (w.nas.inode ni).data.length offset size) ∧
      (cfg.alignedSize size < 2 ^ 31 →
        (∀ o ∈ cfg.window offset size, ¬ w.db.Recorded (cfsPathToFileName path) o) →
        (ret = deliverable (w.nas.inode ni).data.length offset size ↔
          size = 0 ∨ (w.nas.inode ni).data.length ≤ cfg.alignLowerOffset offset ∨
            (cfg.alignLowerOffset offset = offset ∧
              (w.nas.inode ni).data.length ≤ offset + size) ∨
            (cfg.alignedSize size = size ∧
              offset + size ≤ (w.nas.inode ni).data.length)))) ∧
    ∀ tr ret buf w',
      Prog.Traced (env anyOutcome True) (cfsRead cfg fuel path size offset fh) w tr (ret, buf) w' →
      0 < failedReads tr →
      (ret < 0 ↔ WindowHit cfg w path size offset tr ∨
        wrap32 (bytesRead tr - failedReads tr) < 0) := by
  refine ⟨fun ret buf w' he => ?_, fun tr ret buf w' htr hfail => ?_⟩
  · have hret := cfsRead_returns hbs hwf hfh he
    refine ⟨by rw [hret], fun hint hcold => ?_⟩
    have hheld : w.held cfg (cfsPathToFileName path) ni ci (cfg.alignLowerOffset offset)
        (cfg.windowBlocks size) = min (cfg.alignedSize size)
          ((w.nas.inode ni).data.length - cfg.alignLowerOffset offset) := by
      rw [World.held_of_source (w.nas.inode ni).data, cfg.alignedSize_eq]
      intro i hi
      refine if_neg ?_
      rw [hwf.selectBlockId_iff]
      exact hcold _ (cfg.mem_offsetArray.mpr ⟨i, hi, rfl⟩)
    rw [hret, hheld, wrap32_of_lt (by omega), ← cold_eq_deliverable_iff hbs, Int.ofNat_inj]
  · obtain ⟨hhit, hmiss⟩ := traced_cfsRead_status hwf htr
    dsimp only at hhit hmiss
    by_cases h : WindowHit cfg w path size offset tr
    · obtain ⟨reply, hreply, hret⟩ := hhit h
      refine iff_of_true ?_ (Or.inl h)
      rw [failedReads, hreply] at hfail
      cases reply with
      | ok bytes => exact absurd hfail (Nat.lt_irrefl 0)
      | error e =>
          have hpos := e.pos
          rw [hret]
          simp only [readRet, Except.map, logSyscall]
          omega
    · rw [hmiss h, readStatus]
      exact ⟨Or.inr, fun hor => hor.resolve_left h⟩

end Returned

/-- Both blocks of a file of two blocks; and its first block, which the NAS fails to
    read. -/
theorem read_returns_iff_whole : (∃ (ret : Int) (buf : List UInt8) (w' : World),
    Prog.Exec (env succeeds True) (cfsRead sampleConfig 1 samplePath 8 0 1)
      (sampleOpened [1, 2, 3, 4, 5, 6, 7, 8]) (ret, buf) w' ∧ ret = deliverable 8 0 8) ∧
    ∃ (tr : List CfsEvent) (ret : Int) (buf : List UInt8) (w' : World),
      Prog.Traced (env anyOutcome True) (cfsRead sampleConfig 1 samplePath 4 0 1)
        (sampleOpened [1, 2, 3, 4, 5, 6, 7, 8]) tr (ret, buf) w' ∧ 0 < failedReads tr ∧
      ret < 0 := by
  constructor
  · obtain ⟨⟨ret, buf⟩, w', he, -⟩ := exec_of_eval (f := fun _ => ()) (b := ())
      (show (Prog.runAllowed (env succeeds True) (fun _ => {})
        (cfsRead sampleConfig 1 samplePath 8 0 1) (sampleOpened [1, 2, 3, 4, 5, 6, 7, 8])).map
          (fun _ => ()) = some () by decide)
    exact ⟨ret, buf, w', he, ((read_returns_iff (by decide) (by constructor <;> decide)
      opened_sampleOpened).1 ret buf w' he).1.mpr (by decide)⟩
  · have hrun : ((Prog.runTraced (env anyOutcome True)
        (fun n => if n = 3 then { err := some EIO } else {})
        (cfsRead sampleConfig 1 samplePath 4 0 1) (sampleOpened [1, 2, 3, 4, 5, 6, 7, 8])).map
          fun x => (failedReads x.1, bytesRead x.1)) = some (1, 0) := by decide
    obtain ⟨⟨tr, ⟨ret, buf⟩, w'⟩, hx, heq⟩ := Option.map_eq_some_iff.mp hrun
    simp only [Prod.mk.injEq] at heq
    obtain ⟨hfailed, hbytes⟩ := heq
    have htr := Prog.traced_of_runTraced hx
    have hfail : 0 < failedReads tr := by omega
    refine ⟨tr, ret, buf, w', htr, hfail, ((read_returns_iff (by decide)
      (by constructor <;> decide) opened_sampleOpened).2 tr ret buf w' htr hfail).mpr
      (Or.inr ?_)⟩
    rw [hfailed, hbytes]
    decide

/-- A read of two bytes returns the four bytes of its block. -/
theorem read_returns_block : ¬ ∀ (cfg : Config) (w w' : World) (path : Path)
    (fuel size offset fh : Nat) (ni ci : Ino) (ret : Int) (buf : List UInt8), 0 < cfg.blockSize →
    w.db.WF → Opened w fh ni ci →
    Prog.Exec (env succeeds True) (cfsRead cfg fuel path size offset fh) w (ret, buf) w' →
    ret = deliverable (w.nas.inode ni).data.length offset size := by
  intro h
  have hrun : (Prog.runAllowed (env succeeds True) (fun _ => {})
      (cfsRead sampleConfig 1 samplePath 2 0 1) (sampleOpened [1, 2, 3, 4, 5, 6, 7, 8])).map
        (·.1.1) = some 4 := by decide
  obtain ⟨⟨ret, buf⟩, w', he, hret⟩ := exec_of_eval hrun
  have heq := h _ _ _ _ _ _ _ _ _ _ _ _ (by decide) (by constructor <;> decide)
    opened_sampleOpened he
  simp only at hret
  rw [hret] at heq
  exact absurd heq (by decide)

end CacheFs
