/-
  CacheFs.Transfer

  Transfers that fail.

  `cfs_read` and `cfs_write` bring bytes from the NAS into a buffer and from there
  into the cache file, and record the blocks in between.  A read from the NAS may fail
  or return fewer bytes than asked for, a write to the cache file may fail or take
  fewer bytes; this module follows the bytes that have been carried all the way.
-/

import CacheFs.Lookup
import CacheFs.Transparency

namespace CacheFs

open CacheFs.Effect
open CacheFs.Posix

-- ============================================================================
-- Transfers
-- ============================================================================

/-- The bytes a read has delivered. -/
def delivered : SysRet (List UInt8) → List UInt8
  | .ok bytes => bytes
  | .error _ => []

/-- The number of bytes a write has taken. -/
def taken : SysRet Int → Nat
  | .ok n => n.toNat
  | .error _ => 0

/-- The call reads from a NAS file or writes to a cache file. -/
def Call.isTransfer (w : World) : Call → Bool
  | .pread fd _ _ => (w.fds fd).any fun f => decide (f.side = .nas)
  | .pwrite fd _ _ => (w.fds fd).any fun f => decide (f.side = .cache)
  | _ => false

/-- Transfers may have any outcome, all other calls succeed. -/
def transfersFail (c : Choice) (op : Call) (w : World) : Prop :=
  op.isTransfer w = true ∨ succeeds c op w

instance (c : Choice) (op : Call) (w : World) : Decidable (transfersFail c op w) :=
  inferInstanceAs (Decidable (_ ∨ _))

theorem sqlSucceeds_transfersFail : SqlSucceeds transfersFail := by
  intro c op w h hsql
  rcases h with h | h
  · cases op
    case pread | pwrite => exact nomatch hsql
    all_goals exact nomatch h
  · exact h.1

/-- The event delivers byte `i` of a NAS file. -/
def Fetches (e : CfsEvent) (i : Nat) : Prop :=
  ∃ fd n off f, e.op = .pread fd n off ∧ e.before.fds fd = some f ∧ f.side = .nas ∧ off ≤ i ∧
    i < off + (delivered (e.before.pread e.choice fd n off)).length

/-- The event takes byte `i` into a cache file; none of them is open in append mode. -/
def Stores (e : CfsEvent) (i : Nat) : Prop :=
  ∃ fd buf off f, e.op = .pwrite fd buf off ∧ e.before.fds fd = some f ∧ f.side = .cache ∧
    off ≤ i ∧ i < off + taken (e.before.pwrite e.choice fd buf off).1

/-- Byte `i` has been delivered by the NAS and taken by the cache. -/
def Carried (tr : List CfsEvent) (i : Nat) : Prop :=
  (∃ e ∈ tr, Fetches e i) ∧ ∃ e ∈ tr, Stores e i

section Events

variable {c : Choice} {w : World} {fd : Int} {ino : Ino} {r wr ap : Bool} {n off i : Nat}
  {buf : List UInt8}

theorem fetches_pread {side : Side} (hfd : w.fds fd = some ⟨side, ino, r, wr, ap⟩) :
    Fetches ⟨.pread fd n off, c, w⟩ i ↔
      side = .nas ∧ off ≤ i ∧ i < off + (delivered (w.pread c fd n off)).length := by
  constructor
  · rintro ⟨fd', n', off', f, hop, hf, hside, hi⟩
    obtain ⟨rfl, rfl, rfl⟩ := Call.pread.inj hop
    rw [← Option.some.inj (hfd.symm.trans hf)] at hside
    exact ⟨hside, hi⟩
  · rintro ⟨hside, hi⟩
    exact ⟨fd, n, off, _, rfl, hfd, hside, hi⟩

theorem stores_pwrite {side : Side} (hfd : w.fds fd = some ⟨side, ino, r, wr, ap⟩) :
    Stores ⟨.pwrite fd buf off, c, w⟩ i ↔
      side = .cache ∧ off ≤ i ∧ i < off + taken (w.pwrite c fd buf off).1 := by
  constructor
  · rintro ⟨fd', buf', off', f, hop, hf, hside, hi⟩
    obtain ⟨rfl, rfl, rfl⟩ := Call.pwrite.inj hop
    rw [← Option.some.inj (hfd.symm.trans hf)] at hside
    exact ⟨hside, hi⟩
  · rintro ⟨hside, hi⟩
    exact ⟨fd, buf, off, _, rfl, hfd, hside, hi⟩

theorem not_stores_pread : ¬ Stores ⟨.pread fd n off, c, w⟩ i := by
  rintro ⟨_, _, _, _, hop, -⟩
  cases hop

theorem not_fetches_pwrite : ¬ Fetches ⟨.pwrite fd buf off, c, w⟩ i := by
  rintro ⟨_, _, _, _, hop, -⟩
  cases hop

/-- What a read delivers is a prefix of what the file has there. -/
theorem delivered_pread {side : Side} (hfd : w.fds fd = some ⟨side, ino, r, wr, ap⟩) :
    (delivered (w.pread c fd n off)).length ≤ n ∧
      ∀ j < (delivered (w.pread c fd n off)).length,
        (delivered (w.pread c fd n off))[j]? = ((w.fs side).inode ino).data[off + j]? := by
  unfold World.pread
  rw [hfd]
  cases c.err with
  | some e => exact ⟨Nat.zero_le _, fun j hj => absurd hj (Nat.not_lt_zero j)⟩
  | none =>
      dsimp only
      split
      · exact ⟨Nat.zero_le _, fun j hj => absurd hj (Nat.not_lt_zero j)⟩
      · split
        · exact ⟨Nat.zero_le _, fun j hj => absurd hj (Nat.not_lt_zero j)⟩
        · simp only [delivered, List.length_take, pread_length]
          refine ⟨by omega, fun j hj => ?_⟩
          rw [List.getElem?_take, if_pos (by omega), pread_getElem?, if_pos (by omega)]

/-- A write puts the bytes it takes into the file. -/
theorem pwrite_taken {side : Side} (hfd : w.fds fd = some ⟨side, ino, r, wr, ap⟩) :
    taken (w.pwrite c fd buf off).1 ≤ buf.length ∧
      (w.pwrite c fd buf off).2 = w.setFs side ((w.fs side).pwrite ino
        (buf.take (taken (w.pwrite c fd buf off).1))
        (w.writePos ⟨side, ino, r, wr, ap⟩ off) c.now) := by
  have hsame : ∀ pos, w = w.setFs side ((w.fs side).pwrite ino (buf.take 0) pos c.now) := by
    intro pos
    rw [List.take_zero, Fs.pwrite_nil]
    cases side <;> rfl
  unfold World.pwrite
  rw [hfd]
  cases c.err with
  | some e => exact ⟨Nat.zero_le _, hsame _⟩
  | none =>
      dsimp only
      split
      · exact ⟨Nat.zero_le _, hsame _⟩
      · split
        · exact ⟨Nat.zero_le _, hsame _⟩
        · simp only [taken, Int.toNat_natCast, List.length_take]
          refine ⟨by omega, ?_⟩
          rw [List.take_eq_take_iff.mpr (show min (min (c.len.getD buf.length) buf.length)
            buf.length = min (c.len.getD buf.length) buf.length by omega)]

theorem fillBuf_eq (buf : List UInt8) (pos : Nat) (r : SysRet (List UInt8)) :
    fillBuf buf pos r = overwrite buf pos (delivered r) := by
  cases r with
  | ok bytes => rfl
  | error e => simp [fillBuf, delivered, overwrite]

end Events

-- ============================================================================
-- What a request has carried
-- ============================================================================

/-- What a request on `window` leaves behind that finds `nasData` in the NAS file: the
    blocks are recorded, if the file has a row, and the bytes of new ones that have been
    carried are in the cache file. -/
structure Transferred (cfg : Config) (cacheFileName : FileName) (ni ci : Ino) (window : List Nat)
    (nasData : List UInt8) (w : World) (tr : List CfsEvent) (w' : World) : Prop where
  nas : (w'.nas.inode ni).data = nasData
  nasLookup : ∀ p, w'.nas.lookup p = w.nas.lookup p
  lookup : ∀ p, w'.cache.lookup p = w.cache.lookup p
  inode : ∀ j ≠ ci, w'.cache.inode j = w.cache.inode j
  recorded : ∀ n o, w'.db.Recorded n o ↔ w.db.Recorded n o ∨
    (n = cacheFileName ∧ w.db.HasFile cacheFileName ∧ o ∈ window)
  carried : ∀ o ∈ window, ¬ w.db.Recorded cacheFileName o → ∀ i, o ≤ i → i < o + cfg.blockSize →
    Carried tr i → ∀ b, nasData[i]? = some b → (w'.cache.inode ci).data[i]? = some b

section Requests

variable {cfg : Config} {w s s' : World} {fuel fh : Nat} {cacheFileName : FileName}
  {tr : List CfsEvent} {dualFH : DualFileHandle} {ni ci : Ino} {lowerOffset : Nat}

/-- The call is neither a read nor a write. -/
def Call.isQuiet (op : Call) : Prop :=
  (∀ fd n off, op ≠ .pread fd n off) ∧ ∀ fd buf off, op ≠ .pwrite fd buf off

theorem not_transfer_of_quiet {e : CfsEvent} (h : e.op.isQuiet) (i : Nat) :
    ¬ Fetches e i ∧ ¬ Stores e i :=
  ⟨fun ⟨fd, n, off, _, hop, _⟩ => h.1 fd n off hop, fun ⟨fd, buf, off, _, hop, _⟩ =>
    h.2 fd buf off hop⟩

/-- Only the transfers of a byte can have carried it. -/
theorem Carried.of_mem {tr' : List CfsEvent} {i : Nat} (h : Carried tr i)
    (hmem : ∀ e ∈ tr, Fetches e i ∨ Stores e i → e ∈ tr') : Carried tr' i := by
  obtain ⟨⟨e, he, hf⟩, e', he', hs⟩ := h
  exact ⟨⟨e, hmem e he (Or.inl hf), hf⟩, e', hmem e' he' (Or.inr hs), hs⟩

/-- Quiet events carry nothing. -/
theorem Carried.of_quiet {tr' : List CfsEvent} {i : Nat} (h : Carried tr i)
    (hmem : ∀ e ∈ tr, e ∈ tr' ∨ e.op.isQuiet) : Carried tr' i :=
  h.of_mem fun e he ht => (hmem e he).resolve_right fun hq =>
    not_or.mpr (not_transfer_of_quiet hq i) ht

/-- A quiet event is within any bounds. -/
theorem bounds_of_quiet {e : CfsEvent} (hq : e.op.isQuiet) {i : Nat} {fetched stored : Prop} :
    (Fetches e i → fetched) ∧ (Stores e i → stored) :=
  ⟨fun hf => absurd hf (not_transfer_of_quiet hq i).1,
    fun hs => absurd hs (not_transfer_of_quiet hq i).2⟩

/-- `cfs_cacheWrite` records the blocks, then tries to store the buffer. -/
theorem traced_cfsCacheWrite (hwf : w.db.WF) (hdual : w.handles fh = some dualFH)
    {buf : List UInt8} {size offset : Nat} {r : Int}
    (h : Prog.Traced (env transfersFail True)
      (cfsCacheWrite cfg fuel cacheFileName buf size offset fh) w tr r s') :
    ∃ m c tr₁, WriteBlksPost w.metadata cacheFileName
        (cfg.offsetArray offset (size / cfg.blockSize)) m ∧
      (∀ e ∈ tr₁, e.op.isQuiet) ∧
      tr = tr₁ ++ [⟨.pwrite dualFH.cacheFH buf offset, c, { w with metadata := m }⟩] ∧
      s' = (World.pwrite c { w with metadata := m } dualFH.cacheFH buf offset).2 := by
  obtain rfl : dualFH = (w.handles fh).getD ⟨-1, -1⟩ := by rw [hdual, Option.getD_some]
  obtain ⟨c₁, tr₁, -, rfl, h₁⟩ := traced_ask.mp h
  simp only [handle] at h₁
  obtain ⟨tr₂, tr₃, u, w₂, rfl, h₂, h₃⟩ := Prog.traced_bind.mp h₁
  obtain ⟨tr₄, tr₅, r₄, w₄, rfl, h₄, h₅⟩ := Prog.traced_bind.mp h₃
  obtain ⟨c₂, tr₆, -, rfl, rfl, rfl, rfl⟩ := traced_ask.mp h₅
  have hwait : w₂ = w :=
    (Prog.wp_traced (wp_evictionWait (Q := fun _ w' => w' = w) (fun _ => trivial) fun _ => rfl)
      h₂).1
  subst hwait
  obtain ⟨m, hw₄, hm⟩ := (Prog.wp_traced (wp_writeBlks sqlSucceeds_transfersFail hwf
    (Q := fun _ w' => ∃ m, w' = { w₂ with metadata := m } ∧ WriteBlksPost w₂.metadata
      cacheFileName (cfg.offsetArray offset (size / cfg.blockSize)) m)
    fun m hm => ⟨m, rfl, hm⟩) h₄).1
  subst hw₄
  have hblks : Prog.Only Call.isQuiet
      (writeBlks cacheFileName (cfg.offsetArray offset (size / cfg.blockSize))) := by
    apply only_writeBlks <;> simp [Call.isQuiet]
  refine ⟨m, c₂, ⟨.loadHandle fh, c₁, w₂⟩ :: (tr₂ ++ tr₄), hm, ?_, by simp, rfl⟩
  intro e he
  simp only [List.mem_cons, List.mem_append] at he
  rcases he with rfl | he | he
  · simp [Call.isQuiet]
  · exact h₂.only (only_evictionWait (by simp [Call.isQuiet]) fuel) e he
  · exact h₄.only hblks e he

/-- The turn for a block that is taken from the cache carries nothing. -/
theorem traced_readBlock_hit (hd : Descriptors s dualFH ni ci) {acc r : Int × List UInt8} {k : Nat}
    {hit : Int} (hhit : hit ≠ 0)
    (h : Prog.Traced (env transfersFail True)
      (readBlock cfg fuel cacheFileName lowerOffset fh dualFH acc k hit) s tr r s')
    (hroom : k * cfg.blockSize + cfg.blockSize ≤ acc.2.length) :
    s' = s ∧ r.2.length = acc.2.length ∧ ∀ e ∈ tr, ∀ i, ¬ Fetches e i ∧ ¬ Stores e i := by
  obtain ⟨-, rd, wr, hcache⟩ := hd
  unfold readBlock at h
  rw [if_pos hhit] at h
  obtain ⟨c, tr', -, rfl, rfl, rfl, rfl⟩ := traced_ask.mp h
  have hlen : (delivered (s'.pread c dualFH.cacheFH cfg.blockSize
      (lowerOffset + k * cfg.blockSize))).length ≤ cfg.blockSize := (delivered_pread hcache).1
  refine ⟨rfl, ?_, fun e he i => ?_⟩
  · simp only [handle, fillBuf_eq]
    exact overwrite_length _ _ _ (by omega)
  · rw [List.mem_singleton.mp he]
    constructor
    · intro hf
      cases ((fetches_pread hcache).mp hf).1
    · exact not_stores_pread

/-- The turn for a block that is not recorded stores bytes of which those that have been
    carried are those of the NAS. -/
theorem traced_readBlock_miss (hbs : 0 < cfg.blockSize) (hwf : s.db.WF)
    (hdual : s.handles fh = some dualFH) (hd : Descriptors s dualFH ni ci)
    {acc r : Int × List UInt8} {k : Nat}
    (h : Prog.Traced (env transfersFail True)
      (readBlock cfg fuel cacheFileName lowerOffset fh dualFH acc k 0) s tr r s')
    (hroom : k * cfg.blockSize + cfg.blockSize ≤ acc.2.length) :
    r.2.length = acc.2.length ∧ ∃ m bytes now,
      WriteBlksPost s.metadata cacheFileName [lowerOffset + k * cfg.blockSize] m ∧
      s' = s.store m ci bytes (lowerOffset + k * cfg.blockSize) now ∧
      bytes.length ≤ cfg.blockSize ∧
      (∀ e ∈ tr, ∀ i, Fetches e i ∨ Stores e i → lowerOffset + k * cfg.blockSize ≤ i ∧
        i < lowerOffset + k * cfg.blockSize + cfg.blockSize) ∧
      ∀ i, Carried tr i → i < lowerOffset + k * cfg.blockSize + bytes.length ∧
        bytes[i - (lowerOffset + k * cfg.blockSize)]? = (s.nas.inode ni).data[i]? := by
  obtain ⟨⟨r₁, wr₁, ap, hnas⟩, r₂, wr₂, hcache⟩ := hd
  set o := lowerOffset + k * cfg.blockSize with ho
  unfold readBlock at h
  rw [if_neg (not_not.mpr rfl)] at h
  obtain ⟨c, tr₁, -, rfl, h₁⟩ := traced_ask.mp h
  obtain ⟨tr₂, tr₃, x, s₂, rfl, h₂, rfl, rfl, rfl⟩ := Prog.traced_bind.mp h₁
  obtain ⟨m, c', tr₄, hm, hquiet, rfl, rfl⟩ := traced_cfsCacheWrite hwf hdual h₂
  simp only [handle, ← ho] at hm hquiet ⊢
  rw [cfg.offsetArray_one hbs] at hm
  rw [fillBuf_eq]
  set bytes := delivered (s.pread c dualFH.nasFH cfg.blockSize o) with hbytes
  obtain ⟨hlen, hget⟩ : bytes.length ≤ cfg.blockSize ∧ ∀ j < bytes.length,
      bytes[j]? = (s.nas.inode ni).data[o + j]? := delivered_pread hnas
  have hsame := overwrite_length acc.2 (k * cfg.blockSize) bytes (by omega)
  set slice := ((overwrite acc.2 (k * cfg.blockSize) bytes).drop (k * cfg.blockSize)).take
    cfg.blockSize with hslice
  have hsliceLen : slice.length ≤ cfg.blockSize := by
    rw [hslice, List.length_take]
    omega
  obtain ⟨htaken, hstore⟩ : taken (World.pwrite c' { s with metadata := m } dualFH.cacheFH slice
      o).1 ≤ slice.length ∧ (World.pwrite c' { s with metadata := m } dualFH.cacheFH slice o).2 =
        s.store m ci (slice.take (taken (World.pwrite c' { s with metadata := m } dualFH.cacheFH
          slice o).1)) o c'.now := pwrite_taken (w := { s with metadata := m }) hcache
  set n := taken (World.pwrite c' { s with metadata := m } dualFH.cacheFH slice o).1 with hn
  have hevents : ∀ e ∈ (⟨.pread dualFH.nasFH cfg.blockSize o, c, s⟩ : CfsEvent) ::
      (tr₄ ++ [⟨.pwrite dualFH.cacheFH slice o, c', { s with metadata := m }⟩] ++ []), ∀ i,
      (Fetches e i → o ≤ i ∧ i < o + bytes.length) ∧ (Stores e i → o ≤ i ∧ i < o + n) := by
    intro e he i
    simp only [List.append_nil, List.mem_cons, List.mem_append, List.not_mem_nil, or_false] at he
    rcases he with rfl | he | rfl
    · exact ⟨fun hf => ((fetches_pread hnas).mp hf).2, fun hs => absurd hs not_stores_pread⟩
    · exact bounds_of_quiet (hquiet e he)
    · exact ⟨fun hf => absurd hf not_fetches_pwrite,
        fun hs => ((stores_pwrite (w := { s with metadata := m }) hcache).mp hs).2⟩
  refine ⟨hsame, m, slice.take n, c'.now, hm, hstore, ?_, ?_, ?_⟩
  · rw [List.length_take]
    omega
  · rintro e he i (hf | hs)
    · have hin := (hevents e he i).1 hf
      omega
    · have hin := (hevents e he i).2 hs
      omega
  · rintro i ⟨⟨e, he, hf⟩, e', he', hs⟩
    have hin := (hevents e he i).1 hf
    have hin' := (hevents e' he' i).2 hs
    rw [List.length_take]
    refine ⟨by omega, ?_⟩
    rw [List.getElem?_take, if_pos (by omega), hslice, List.getElem?_take, if_pos (by omega),
      List.getElem?_drop, overwrite_getElem? _ _ _ _ (by omega), if_pos (by omega),
      Nat.add_sub_cancel_left, hget _ (by omega)]
    congr 1
    omega

/-- What the loop of `cfs_read` has reached after `k` blocks; its events concern the
    blocks before. -/
structure ReadProgress (cfg : Config) (cacheFileName : FileName) (ni ci : Ino)
    (lowerOffset bufLen : Nat) (w : World) (k : Nat) (acc : Int × List UInt8) (s : World)
    (tr : List CfsEvent) : Prop where
  nas : s.nas = w.nas
  handles : SameHandles w s
  wf : s.db.WF
  hasFile : ∀ n, s.db.HasFile n ↔ w.db.HasFile n
  lookup : ∀ p, s.cache.lookup p = w.cache.lookup p
  inode : ∀ j ≠ ci, s.cache.inode j = w.cache.inode j
  length : acc.2.length = bufLen
  recorded : ∀ n o, s.db.Recorded n o ↔ w.db.Recorded n o ∨
    (n = cacheFileName ∧ w.db.HasFile cacheFileName ∧ o ∈ cfg.offsetArray lowerOffset k)
  before : ∀ e ∈ tr, ∀ i, Fetches e i ∨ Stores e i → i < lowerOffset + k * cfg.blockSize
  carried : ∀ j < k, ¬ w.db.Recorded cacheFileName (lowerOffset + j * cfg.blockSize) →
    ∀ i, lowerOffset + j * cfg.blockSize ≤ i →
      i < lowerOffset + j * cfg.blockSize + cfg.blockSize → Carried tr i →
      ∀ b, (w.nas.inode ni).data[i]? = some b → (s.cache.inode ci).data[i]? = some b

/-- One more block. -/
theorem ReadProgress.step (hbs : 0 < cfg.blockSize) (hwf : w.db.WF)
    (hdual : w.handles fh = some dualFH) (hd : Descriptors w dualFH ni ci) {bufLen k : Nat}
    {acc acc' : Int × List UInt8} {tr' : List CfsEvent}
    (h : ReadProgress cfg cacheFileName ni ci lowerOffset bufLen w k acc s tr)
    (hroom : k * cfg.blockSize + cfg.blockSize ≤ bufLen)
    (hturn : Prog.Traced (env transfersFail True)
      (readBlock cfg fuel cacheFileName lowerOffset fh dualFH acc k
        (w.db.hitFlag cacheFileName (lowerOffset + k * cfg.blockSize))) s tr' acc' s') :
    ReadProgress cfg cacheFileName ni ci lowerOffset bufLen w (k + 1) acc' s' (tr ++ tr') := by
  have hsucc := cfg.offsetArray_succ lowerOffset k
  have hds : Descriptors s dualFH ni ci := hd.congr h.handles.1
  have hmul : (k + 1) * cfg.blockSize = k * cfg.blockSize + cfg.blockSize := Nat.succ_mul ..
  rw [← h.length] at hroom
  by_cases hhit : w.db.hitFlag cacheFileName (lowerOffset + k * cfg.blockSize) = 0
  · rw [hhit] at hturn
    obtain ⟨hlen, m, bytes, now, hm, rfl, hbytes, hwithin, hcarried⟩ :=
      traced_readBlock_miss hbs h.wf (by rw [h.handles.2, hdual]) hds hturn hroom
    refine ⟨h.nas, h.handles, AddSteps.wf hm.steps h.wf,
      fun n => (hm.hasFile n).trans (h.hasFile n),
      fun p => (Fs.lookup_pwrite _ _ _ _ _ _).trans (h.lookup p), fun j hj => ?_,
      hlen.trans h.length, fun n o => ?_, fun e he i hi => ?_, ?_⟩
    · exact (Fs.inode_pwrite_ne _ hj _ _ _).trans (h.inode j hj)
    · rw [World.db, World.store, hm.recorded, hsucc, List.mem_append]
      change s.db.Recorded n o ∨ _ ↔ _
      rw [h.recorded, ← World.db, h.hasFile]
      tauto
    · rw [hmul]
      rcases List.mem_append.mp he with he | he
      · have hlt := h.before e he i hi
        omega
      · have hin := hwithin e he i hi
        omega
    · intro j hj hno i hlo hhi hi b hb
      have hjk : (j + 1) * cfg.blockSize ≤ (k + 1) * cfg.blockSize :=
        Nat.mul_le_mul_right _ hj
      have hjmul : (j + 1) * cfg.blockSize = j * cfg.blockSize + cfg.blockSize :=
        Nat.succ_mul ..
      simp only [World.store, Fs.data_pwrite, if_pos]
      by_cases hjk' : j = k
      · -- the bytes of this block have been carried by this turn
        subst hjk'
        have hthis : Carried tr' i := by
          refine hi.of_mem fun e he ht => ?_
          rcases List.mem_append.mp he with he | he
          · exact absurd (h.before e he i ht) (by omega)
          · exact he
        obtain ⟨hlt, hbyte⟩ := hcarried i hthis
        rw [pwrite_getElem?_window (by omega) (by omega), hbyte, h.nas]
        exact hb
      · -- a block before: nothing of it has been touched
        have hle : (j + 1) * cfg.blockSize ≤ k * cfg.blockSize :=
          Nat.mul_le_mul_right _ (by omega)
        have hold : Carried tr i := by
          refine hi.of_mem fun e he ht => ?_
          rcases List.mem_append.mp he with he | he
          · exact he
          · exact absurd (hwithin e he i ht).1 (by omega)
        have hbyte := h.carried j (by omega) hno i hlo hhi hold b hb
        rw [pwrite_getElem?_frame (List.getElem?_eq_some_iff.mp hbyte).1 (Or.inl (by omega))]
        exact hbyte
  · obtain ⟨rfl, hlen, hnone⟩ := traced_readBlock_hit hds hhit hturn hroom
    have hrec := (Db.hitFlag_ne_zero_iff hwf).mp hhit
    refine ⟨h.nas, h.handles, h.wf, h.hasFile, h.lookup, h.inode, hlen.trans h.length,
      fun n o => ?_, fun e he i hi => ?_, ?_⟩
    · rw [h.recorded, hsucc, List.mem_append, List.mem_singleton]
      constructor
      · tauto
      · rintro (hold | ⟨rfl, hfile, ho | rfl⟩)
        · exact Or.inl hold
        · exact Or.inr ⟨rfl, hfile, ho⟩
        · exact Or.inl hrec
    · rcases List.mem_append.mp he with he | he
      · have hlt := h.before e he i hi
        omega
      · exact absurd hi (not_or.mpr (hnone e he i))
    · intro j hj hno i hlo hhi hi b hb
      have hjk : j ≠ k := by
        rintro rfl
        exact hno hrec
      refine h.carried j (by omega) hno i hlo hhi (hi.of_mem fun e he ht => ?_) b hb
      exact (List.mem_append.mp he).resolve_right fun he => not_or.mpr (hnone e he i) ht

/-- The window has been filled, by one read or by the turns of the loop. -/
theorem traced_readWindow_progress (hbs : 0 < cfg.blockSize) (hwf : w.db.WF)
    (hdual : w.handles fh = some dualFH) (hd : Descriptors w dualFH ni ci) {size offset : Nat}
    {cacheBuf : List UInt8} (hbuf : cacheBuf.length = cfg.alignedSize size)
    {r : Int × List UInt8}
    (h : Prog.Traced (env transfersFail True) (readWindow cfg fuel cacheFileName
      (cfg.alignLowerOffset offset) (cfg.alignedSize size) fh dualFH cacheBuf
      (decide ((0 : Int) < if (cfg.window offset size).all (w.db.selectBlockId · cacheFileName)
        then 1 else 0)) ((cfg.window offset size).map (w.db.hitFlag cacheFileName))) w tr r s') :
    ReadProgress cfg cacheFileName ni ci (cfg.alignLowerOffset offset) (cfg.alignedSize size) w
      (cfg.windowBlocks size) r s' tr := by
  unfold readWindow at h
  by_cases hall : (cfg.window offset size).all (w.db.selectBlockId · cacheFileName) = true
  · -- every block is recorded already, and nothing is carried
    rw [if_pos hall, if_pos (by decide)] at h
    obtain ⟨c, tr', -, rfl, rfl, rfl, rfl⟩ := traced_ask.mp h
    obtain ⟨-, rd, wr, hcache⟩ := hd
    have hlen : (delivered (s'.pread c dualFH.cacheFH (cfg.alignedSize size)
        (cfg.alignLowerOffset offset))).length ≤ cfg.alignedSize size := (delivered_pread hcache).1
    have hrec : ∀ o ∈ cfg.window offset size, s'.db.Recorded cacheFileName o := fun o ho =>
      hwf.selectBlockId_iff.mp (List.all_eq_true.mp hall o ho)
    have hnone : ∀ e ∈ [(⟨.pread dualFH.cacheFH (cfg.alignedSize size)
        (cfg.alignLowerOffset offset), c, s'⟩ : CfsEvent)], ∀ i, ¬ (Fetches e i ∨ Stores e i) := by
      intro e he i
      rw [List.mem_singleton.mp he]
      rintro (hf | hs)
      · cases ((fetches_pread hcache).mp hf).1
      · exact not_stores_pread hs
    refine ⟨rfl, ⟨rfl, rfl⟩, hwf, fun _ => Iff.rfl, fun _ => rfl, fun _ _ => rfl, ?_,
      fun n o => ⟨Or.inl, ?_⟩, fun e he i hi => absurd hi (hnone e he i), fun j hj hno => ?_⟩
    · simp only [handle, fillBuf_eq]
      rw [overwrite_length _ _ _ (by omega), hbuf]
    · rintro (hold | ⟨rfl, -, ho⟩)
      · exact hold
      · exact hrec o ho
    · exact absurd (hrec _ (cfg.mem_offsetArray.mpr ⟨j, hj, rfl⟩)) hno
  · rw [if_neg hall, if_neg (by decide)] at h
    rw [← Config.windowBlocks, cfg.zip_window] at h
    have hloop := h.foldlM_invariant (I := fun done acc s tr => ReadProgress cfg cacheFileName ni ci
      (cfg.alignLowerOffset offset) (cfg.alignedSize size) w done.length acc s tr) ?_ ?_
    · simpa using hloop
    · refine ⟨rfl, ⟨rfl, rfl⟩, hwf, fun _ => Iff.rfl, fun _ => rfl, fun _ _ => rfl, hbuf,
        fun n o => ⟨Or.inl, ?_⟩, fun e he => absurd he List.not_mem_nil, fun j hj =>
          absurd hj (Nat.not_lt_zero j)⟩
      rintro (hold | ⟨-, -, ho⟩)
      · exact hold
      · exact absurd ho List.not_mem_nil
    · intro done x rest acc s₁ tr₁ acc' s₂ tr₂ hx hprog hturn
      obtain ⟨hk, rfl⟩ := range_map_split hx
      rw [List.length_append, List.length_singleton]
      exact hprog.step hbs hwf hdual hd (cfg.mul_add_le_alignedSize hk) hturn

/-- The transfers of `cfs_read`. -/
theorem traced_cfsRead_transferred (hbs : 0 < cfg.blockSize) (hwf : w.db.WF)
    (hfh : Opened w fh ni ci) {path : Path} {size offset : Nat} {r : Int × List UInt8}
    (h : Prog.Traced (env transfersFail True) (cfsRead cfg fuel path size offset fh) w tr r s') :
    Transferred cfg (cfsPathToFileName path) ni ci (cfg.window offset size)
      (w.nas.inode ni).data w tr s' := by
  obtain ⟨dualFH, hdual, hd⟩ := hfh
  obtain ⟨tr₁, tr₂, found, w₁, rfl, h₁, h₂⟩ := Prog.traced_bind.mp h
  obtain ⟨rfl, rfl⟩ := (Prog.wp_traced (wp_areBlocksInCache sqlSucceeds_transfersFail
    (Q := fun found w' => w' = w ∧ found = _) ⟨rfl, rfl⟩) h₁).1
  obtain ⟨c₁, tr₃, -, rfl, h₃⟩ := traced_ask.mp h₂
  obtain ⟨c₂, tr₄, -, rfl, h₄⟩ := traced_ask.mp h₃
  obtain ⟨tr₅, tr₆, acc, w₂, rfl, hwindow, h₅⟩ := Prog.traced_bind.mp h₄
  obtain ⟨tr₇, tr₈, buf, w₃, rfl, hcopy, rfl, rfl, rfl⟩ := Prog.traced_bind.mp h₅
  simp only [handle, hdual, Option.getD_some] at hwindow
  have hprog := traced_readWindow_progress hbs hwf hdual hd (by simp) hwindow
  obtain rfl : s' = w₂ := (Prog.wp_traced (wp_copyOut (Q := fun _ w' => w' = w₂)
    fun _ _ _ => rfl) hcopy).1
  -- the calls around the window are quiet
  have hcheck : Prog.Only Call.isQuiet (areBlocksInCache (cfsPathToFileName path)
      (cfg.window offset size)) :=
    only_areBlocksInCache (by simp [Call.isQuiet]) (by simp [Call.isQuiet])
  have hstray : Prog.Only Call.isQuiet
      (copyOut acc.2 (offset - cfg.alignLowerOffset offset) size) :=
    only_copyOut (by simp [Call.isQuiet]) _ _ _
  refine ⟨by rw [hprog.nas], fun p => by rw [hprog.nas], hprog.lookup, hprog.inode,
    hprog.recorded, fun o ho hno i hlo hhi hi b hb => ?_⟩
  obtain ⟨j, hj, rfl⟩ := cfg.mem_offsetArray.mp ho
  refine hprog.carried j hj hno i hlo hhi (hi.of_quiet fun e he => ?_) b hb
  simp only [List.append_nil, List.mem_append, List.mem_cons] at he
  rcases he with he | rfl | rfl | he | he
  · exact Or.inr (h₁.only hcheck e he)
  · exact Or.inr (by simp [Call.isQuiet])
  · exact Or.inr (by simp [Call.isQuiet])
  · exact Or.inl he
  · exact Or.inr (hcopy.only hstray e he)

/-- The transfers of `cfs_write`, whose write to the NAS succeeds. -/
theorem traced_cfsWrite_transferred (hwf : w.db.WF) (hfh : Opened w fh ni ci) {path : Path}
    {buf : List UInt8} {offset : Nat} {r : Int}
    (h : Prog.Traced (env transfersFail True) (cfsWrite cfg fuel path buf offset fh) w tr r s') :
    Transferred cfg (cfsPathToFileName path) ni ci (cfg.window offset buf.length)
      (pwrite (w.nas.inode ni).data buf (w.nasPos fh offset)) w tr s' := by
  obtain ⟨dualFH, hdual, ⟨r₁, wr₁, ap, hnas⟩, r₂, wr₂, hcache⟩ := hfh
  rw [World.nasPos_eq hdual hnas]
  obtain rfl : dualFH = (w.handles fh).getD ⟨-1, -1⟩ := by rw [hdual, Option.getD_some]
  obtain ⟨c₁, tr₁, -, rfl, h₁⟩ := traced_ask.mp h
  simp only [handle] at h₁
  obtain ⟨c₂, tr₂, hallow, rfl, h₂⟩ := traced_ask.mp h₁
  generalize hdef : (w.handles fh).getD ⟨-1, -1⟩ = dualFH at *
  -- a write to the NAS is not among the transfers that may fail
  have hsucc : succeeds c₂ (.pwrite dualFH.nasFH buf offset) w :=
    hallow.resolve_left (by simp [Call.isTransfer, hnas])
  obtain ⟨now, hw₁⟩ : ∃ now, (handle c₂ (.pwrite dualFH.nasFH buf offset) w).2 =
      { w with nas := w.nas.pwrite ni buf (w.writePos ⟨.nas, ni, r₁, wr₁, ap⟩ offset) now } :=
    (wp_pwrite_nas (S := True) allSucceed_succeeds hnas (Q := fun _ w' => ∃ now, w' =
      { w with nas := w.nas.pwrite ni buf (w.writePos ⟨.nas, ni, r₁, wr₁, ap⟩ offset) now })
      (fun _ now _ => ⟨now, rfl⟩) c₂ hsucc).2
  rw [hw₁] at h₂
  generalize w.writePos ⟨.nas, ni, r₁, wr₁, ap⟩ offset = pos at h₂ hw₁ ⊢
  set w₁ : World := { w with nas := w.nas.pwrite ni buf pos now } with hdef₁
  obtain ⟨tr₃, tr₄, st, w₂, rfl, h₃, h₄⟩ := Prog.traced_bind.mp h₂
  obtain ⟨c₃, tr₅, -, rfl, rfl, rfl, rfl⟩ := traced_ask.mp h₃
  obtain ⟨c₄, tr₆, -, rfl, h₅⟩ := traced_ask.mp h₄
  obtain ⟨c₅, tr₇, -, rfl, h₆⟩ := traced_ask.mp h₅
  obtain ⟨tr₈, tr₉, x, w₃, rfl, h₇, rfl, -, rfl⟩ := Prog.traced_bind.mp h₆
  simp only [handle, fillBuf_eq] at h₇ ⊢
  obtain ⟨m, c, tr₁₀, hm, hquiet, rfl, rfl⟩ := traced_cfsCacheWrite (w := w₁) hwf hdual h₇
  rw [hdef] at *
  have hdata : (w₁.nas.inode ni).data = pwrite (w.nas.inode ni).data buf pos := by
    rw [hdef₁, Fs.data_pwrite, if_pos rfl]
  set o := cfg.alignLowerOffset offset with ho
  set bytes := delivered (w₁.pread c₅ dualFH.nasFH (nasReadSize (cfg.alignedSize buf.length) o
    ((w₁.lstat c₃ .nas (cfg.fullNasPath path)).2).size) o) with hbytes
  have hget : ∀ j < bytes.length, bytes[j]? = (w₁.nas.inode ni).data[o + j]? :=
    (delivered_pread (w := w₁) hnas).2
  set slice := overwrite ((List.range (cfg.alignedSize buf.length)).map c₄.junk) 0 bytes with hslice
  obtain ⟨htaken, hstore⟩ : taken (World.pwrite c { w₁ with metadata := m } dualFH.cacheFH slice
      o).1 ≤ slice.length ∧ (World.pwrite c { w₁ with metadata := m } dualFH.cacheFH slice o).2 =
        w₁.store m ci (slice.take (taken (World.pwrite c { w₁ with metadata := m } dualFH.cacheFH
          slice o).1)) o c.now := pwrite_taken (w := { w₁ with metadata := m }) hcache
  set n := taken (World.pwrite c { w₁ with metadata := m } dualFH.cacheFH slice o).1 with hn
  rw [hstore]
  refine ⟨hdata, fun p => Fs.lookup_pwrite _ _ _ _ _ _, fun p => Fs.lookup_pwrite _ _ _ _ _ _,
    fun j hj => Fs.inode_pwrite_ne _ hj _ _ _, hm.recorded, fun p hp hno i hlo hhi hi b hb => ?_⟩
  -- only the two transfers can have carried the byte
  have hevents : ∀ e ∈ (⟨.loadHandle fh, c₁, w⟩ : CfsEvent) ::
      (⟨.pwrite dualFH.nasFH buf offset, c₂, w⟩ : CfsEvent) ::
        (⟨.lstat .nas (cfg.fullNasPath path), c₃, w₁⟩ : CfsEvent) ::
          (⟨.malloc (cfg.alignedSize buf.length), c₄, w₁⟩ : CfsEvent) ::
            (⟨.pread dualFH.nasFH (nasReadSize (cfg.alignedSize buf.length) o
              ((w₁.lstat c₃ .nas (cfg.fullNasPath path)).2).size) o, c₅, w₁⟩ : CfsEvent) ::
              (tr₁₀ ++ [⟨.pwrite dualFH.cacheFH slice o, c, { w₁ with metadata := m }⟩]),
      (Fetches e i → o ≤ i ∧ i < o + bytes.length) ∧ (Stores e i → o ≤ i ∧ i < o + n) := by
    intro e he
    simp only [List.mem_cons, List.mem_append, List.not_mem_nil, or_false] at he
    rcases he with rfl | rfl | rfl | rfl | rfl | he | rfl
    · exact bounds_of_quiet (by simp [Call.isQuiet])
    · refine ⟨fun hf => absurd hf not_fetches_pwrite, fun hs => ?_⟩
      cases ((stores_pwrite hnas).mp hs).1
    · exact bounds_of_quiet (by simp [Call.isQuiet])
    · exact bounds_of_quiet (by simp [Call.isQuiet])
    · exact ⟨fun hf => ((fetches_pread (w := w₁) hnas).mp hf).2,
        fun hs => absurd hs not_stores_pread⟩
    · exact bounds_of_quiet (hquiet e he)
    · exact ⟨fun hf => absurd hf not_fetches_pwrite,
        fun hs => ((stores_pwrite (w := { w₁ with metadata := m }) hcache).mp hs).2⟩
  obtain ⟨⟨e, he, hf⟩, e', he', hs⟩ := hi
  have hin := (hevents e (by simpa using he) ).1 hf
  have hin' := (hevents e' (by simpa using he')).2 hs
  have hbyte : (slice.take n)[i - o]? = some b := by
    rw [List.getElem?_take, if_pos (by omega), hslice, overwrite, List.take_zero, List.nil_append,
      List.getElem?_append_left (by omega), hget _ (by omega), Nat.add_sub_cancel' hin.1, hdata]
    exact hb
  change ((Fs.pwrite _ ci (slice.take n) o c.now).inode ci).data[i]? = some b
  rw [Fs.data_pwrite, if_pos rfl, pwrite_getElem?_window hin.1, hbyte]
  rw [List.length_take]
  omega

end Requests

-- ============================================================================
-- Rows of blocks that have not been carried
-- ============================================================================

/-- The requests that transfer blocks. -/
inductive Transfer where
  | cfsRead (path : Path) (size offset fh : Nat)
  | cfsWrite (path : Path) (buf : List UInt8) (offset fh : Nat)

namespace Transfer

def path : Transfer → Path
  | .cfsRead path _ _ _ | .cfsWrite path _ _ _ => path

def fh : Transfer → Nat
  | .cfsRead _ _ _ fh | .cfsWrite _ _ _ fh => fh

/-- The request and the status it returns. -/
def prog (cfg : Config) (fuel : Nat) : Transfer → CfsM Int
  | .cfsRead path size offset fh => do
    let r ← CacheFs.cfsRead cfg fuel path size offset fh
    pure r.1
  | .cfsWrite path buf offset fh => CacheFs.cfsWrite cfg fuel path buf offset fh

/-- The blocks it covers. -/
def window (cfg : Config) : Transfer → List Nat
  | .cfsRead _ size offset _ => cfg.window offset size
  | .cfsWrite _ buf offset _ => cfg.window offset buf.length

/-- What it makes of the bytes of the NAS file. -/
def nasAfter (w : World) (data : List UInt8) : Transfer → List UInt8
  | .cfsRead _ _ _ _ => data
  | .cfsWrite _ buf offset fh => pwrite data buf (w.nasPos fh offset)

/-- The new rows denote bytes of the NAS file, and a block some byte of which has not
    been carried from the NAS into the cache file gets none. -/
structure RowsHonest (cfg : Config) (rq : Transfer) (w : World) (tr : List CfsEvent)
    (w' : World) : Prop where
  agree : ∀ n o, w'.db.Recorded n o → ¬ w.db.Recorded n o → n = cfsPathToFileName rq.path ∧
    Agree o (o + cfg.blockSize) (w'.cache.content (cfg.fullCachePath rq.path))
      (w'.nas.content (cfg.fullNasPath rq.path))
  unrecorded : ∀ o ∈ rq.window cfg, ¬ w.db.Recorded (cfsPathToFileName rq.path) o →
    (∃ i, o ≤ i ∧ i < o + cfg.blockSize ∧
      i < (w'.nas.content (cfg.fullNasPath rq.path)).length ∧ ¬ Carried tr i) →
    ¬ w'.db.Recorded (cfsPathToFileName rq.path) o

/-- No transfer of a block without a row falls short, and what is stored goes to the file
    under the cache name, or that file has the block already. -/
def NoneFallsShort (cfg : Config) (rq : Transfer) (ci : Ino) (nasData : List UInt8) (w : World)
    (tr : List CfsEvent) : Prop :=
  w.db.HasFile (cfsPathToFileName rq.path) → ∀ o ∈ rq.window cfg,
    ¬ w.db.Recorded (cfsPathToFileName rq.path) o →
      (∀ i, o ≤ i → i < o + cfg.blockSize → i < nasData.length → Carried tr i) ∧
      (w.cache.lookup (cfg.fullCachePath rq.path) = some ci ∨
        Agree o (o + cfg.blockSize) (w.cache.content (cfg.fullCachePath rq.path)) nasData)

end Transfer

section RowsHonest

variable {cfg : Config} {w w' : World} {fuel : Nat} {rq : Transfer} {tr : List CfsEvent}
  {ret : Int} {ni ci : Ino}

theorem traced_transferred (hbs : 0 < cfg.blockSize) (hwf : w.db.WF) (hfh : Opened w rq.fh ni ci)
    (h : Prog.Traced (env transfersFail True) (rq.prog cfg fuel) w tr ret w') :
    Transferred cfg (cfsPathToFileName rq.path) ni ci (rq.window cfg)
      (rq.nasAfter w (w.nas.inode ni).data) w tr w' := by
  cases rq with
  | cfsRead path size offset fh =>
      obtain ⟨tr₁, tr₂, r, w₁, rfl, h₁, rfl, rfl, rfl⟩ := Prog.traced_bind.mp h
      rw [List.append_nil]
      exact traced_cfsRead_transferred hbs hwf hfh h₁
  | cfsWrite path buf offset fh => exact traced_cfsWrite_transferred hwf hfh h

/-- A file the request does not store to keeps its bytes. -/
theorem Transferred.content_eq {cacheFileName : FileName} {window : List Nat}
    {nasData : List UInt8} (h : Transferred cfg cacheFileName ni ci window nasData w tr w')
    {p : Path} (hp : w.cache.lookup p ≠ some ci) : w'.cache.content p = w.cache.content p :=
  Fs.content_congr (h.lookup p) fun i hi => by
    rw [h.inode i]
    rintro rfl
    exact hp hi

/-- A failed transfer never becomes a cached block exactly when none falls short. -/
theorem rows_honest_iff (hbs : 0 < cfg.blockSize) (hwf : w.db.WF) (hfh : Opened w rq.fh ni ci)
    (hni : w.nas.lookup (cfg.fullNasPath rq.path) = some ni)
    (h : Prog.Traced (env transfersFail True) (rq.prog cfg fuel) w tr ret w') :
    rq.RowsHonest cfg w tr w' ↔
      rq.NoneFallsShort cfg ci (rq.nasAfter w (w.nas.inode ni).data) w tr := by
  have ht := traced_transferred hbs hwf hfh h
  have hnas : w'.nas.content (cfg.fullNasPath rq.path) = rq.nasAfter w (w.nas.inode ni).data := by
    rw [Fs.content_of_lookup ((ht.nasLookup _).trans hni), ht.nas]
  constructor
  · intro hhon hfile o ho hno
    have hrec := (ht.recorded (cfsPathToFileName rq.path) o).mpr (Or.inr ⟨rfl, hfile, ho⟩)
    constructor
    · intro i hlo hhi hlt
      by_contra hnot
      exact hhon.unrecorded o ho hno ⟨i, hlo, hhi, hnas ▸ hlt, hnot⟩ hrec
    · by_cases hci : w.cache.lookup (cfg.fullCachePath rq.path) = some ci
      · exact Or.inl hci
      · have hag := (hhon.agree _ o hrec hno).2
        rw [ht.content_eq hci, hnas] at hag
        exact Or.inr hag
  · intro hcond
    refine ⟨fun n o hrec hno => ?_, fun o ho hno hshort hrec => ?_⟩
    · obtain ⟨rfl, hfile, ho⟩ := ((ht.recorded n o).mp hrec).resolve_left hno
      obtain ⟨hcarried, hfileOk⟩ := hcond hfile o ho hno
      refine ⟨rfl, ?_⟩
      rw [hnas]
      by_cases hci : w.cache.lookup (cfg.fullCachePath rq.path) = some ci
      · rw [Fs.content_of_lookup ((ht.lookup _).trans hci)]
        intro i hlo hhi hlt
        rw [List.getElem?_eq_getElem hlt]
        exact ht.carried o ho hno i hlo hhi (hcarried i hlo hhi hlt) _
          (List.getElem?_eq_getElem hlt)
      · rw [ht.content_eq hci]
        exact hfileOk.resolve_left hci
    · obtain ⟨-, hfile, -⟩ := ((ht.recorded _ o).mp hrec).resolve_left hno
      obtain ⟨i, hlo, hhi, hlt, hnot⟩ := hshort
      exact hnot ((hcond hfile o ho hno).1 i hlo hhi (hnas ▸ hlt))

end RowsHonest

/-- A write of two blocks that cannot be read back from the NAS. -/
theorem rows_honest_iff_write : ∃ tr ret w', Prog.Traced (env transfersFail True)
    ((Transfer.cfsWrite samplePath [9, 9, 9, 9, 9, 9] 1 1).prog sampleConfig 1)
      (sampleOpened [1, 2, 3, 4, 5, 6, 7, 8]) tr ret w' ∧
    ((Transfer.cfsWrite samplePath [9, 9, 9, 9, 9, 9] 1 1).RowsHonest sampleConfig
        (sampleOpened [1, 2, 3, 4, 5, 6, 7, 8]) tr w' ↔
      (Transfer.cfsWrite samplePath [9, 9, 9, 9, 9, 9] 1 1).NoneFallsShort sampleConfig 2
        (pwrite ((sampleOpened [1, 2, 3, 4, 5, 6, 7, 8]).nas.inode 1).data [9, 9, 9, 9, 9, 9] 1)
        (sampleOpened [1, 2, 3, 4, 5, 6, 7, 8]) tr) := by
  obtain ⟨x, hx⟩ : ∃ x, Prog.runTraced (env transfersFail True)
      (fun n => if n = 4 then { err := some EIO } else {})
      ((Transfer.cfsWrite samplePath [9, 9, 9, 9, 9, 9] 1 1).prog sampleConfig 1)
      (sampleOpened [1, 2, 3, 4, 5, 6, 7, 8]) = some x := Option.isSome_iff_exists.mp (by decide)
  exact ⟨x.1, x.2.1, x.2.2, Prog.traced_of_runTraced hx,
    rows_honest_iff (by decide) (by constructor <;> decide) opened_sampleOpened (by decide)
      (Prog.traced_of_runTraced hx)⟩

/-- The read of a block from the NAS fails, and the block is recorded with what its buffer
    holds. -/
theorem rows_not_honest : ¬ ∀ (cfg : Config) (fuel : Nat) (rq : Transfer) (w w' : World)
    (tr : List CfsEvent) (ret : Int) (ni ci : Ino), 0 < cfg.blockSize → w.db.WF →
    BlocksAgree cfg rq.path w → Current cfg w rq.path rq.fh ni ci →
    Prog.Traced (env transfersFail True) (rq.prog cfg fuel) w tr ret w' →
    rq.RowsHonest cfg w tr w' := by
  intro h
  have hrun : ((Prog.runTraced (env transfersFail True)
      (fun n => if n = 3 then { err := some EIO } else {})
      ((Transfer.cfsRead samplePath 4 0 1).prog sampleConfig 1)
      (sampleOpened [1, 2, 3, 4, 5, 6, 7, 8])).map fun x =>
        (x.2.2.db.selectBlockId 0 (cfsPathToFileName samplePath),
          x.2.2.cache.content (sampleConfig.fullCachePath samplePath),
          x.2.2.nas.content (sampleConfig.fullNasPath samplePath))) =
      some (true, [0, 0, 0, 0], [1, 2, 3, 4, 5, 6, 7, 8]) := by decide
  obtain ⟨⟨tr, ret, w'⟩, hx, heq⟩ := Option.map_eq_some_iff.mp hrun
  simp only [Prod.mk.injEq] at heq
  obtain ⟨hsel, hcache, hnas⟩ := heq
  have hnone : ∀ o, ¬ (sampleOpened [1, 2, 3, 4, 5, 6, 7, 8]).db.Recorded
      (cfsPathToFileName samplePath) o := by
    rintro o ⟨_, _, _, b, hb, _⟩
    have hempty : (sampleOpened [1, 2, 3, 4, 5, 6, 7, 8]).db.datablocks = [] := by decide
    rw [hempty] at hb
    exact nomatch hb
  have hhon := h sampleConfig 1 (.cfsRead samplePath 4 0 1) _ w' tr ret 1 2 (by decide)
    (by constructor <;> decide) (fun o ho => absurd ho (hnone o)) current_sampleOpened
    (Prog.traced_of_runTraced hx)
  have hag := (hhon.agree _ 0 (Db.recorded_of_selectBlockId hsel) (hnone 0)).2 0 (le_refl _)
    (by decide)
  rw [show (Transfer.cfsRead samplePath 4 0 1).path = samplePath from rfl, hcache, hnas] at hag
  exact absurd (hag (by decide)) (by decide)

end CacheFs
