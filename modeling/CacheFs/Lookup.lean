/-
  CacheFs.Lookup

  Lookups that SQLite reports an error for.

  `is_blk_in_cache` and `is_file_in_cache` answer 1, 0 or -1, and their callers
  compare the answer with 0.  A lookup is taken for a hit exactly when it finds a row
  or fails; this module follows the failed ones through `are_blocks_in_cache`,
  `cfs_read`, `write_blks` and `cfs_open`.
-/

import CacheFs.Ledger
import CacheFs.Meta.Cold
import CacheFs.Meta.Faults
import CacheFs.Session

namespace CacheFs

open CacheFs.Effect
open CacheFs.Posix

-- ============================================================================
-- Events of lookups
-- ============================================================================

abbrev CfsEvent := Event Call World Choice

theorem traced_ask {A : Choice → Call → World → Prop} {S : Prop} {op : Call} {α : Type}
    {f : op.Reply → CfsM α} {w w' : World} {tr : List CfsEvent} {r : α} :
    Prog.Traced (env A S) (ask op >>= f) w tr r w' ↔ ∃ c tr', A c op w ∧ tr = ⟨op, c, w⟩ :: tr' ∧
      Prog.Traced (env A S) (f (handle c op w).1) (handle c op w).2 tr' r w' := Iff.rfl

/-- Some call `op` has not failed. -/
def Answered (tr : List CfsEvent) (op : Call) : Prop :=
  ∃ e ∈ tr, e.op = op ∧ e.choice.err = none

/-- The first call `op` has not failed. -/
def FirstAnswered (tr : List CfsEvent) (op : Call) : Prop :=
  ∃ e, tr.find? (fun e => e.op = op) = some e ∧ e.choice.err = none

section Lookups

variable {S : Prop} {w w' : World} {filename : FileName} {tr : List CfsEvent}

/-- A lookup answers 0 when it has not failed and there is no row. -/
theorem traced_lookupRow {op : CfsM Rc} {key : Call} {found : Bool} {r : Int}
    (hop : ∀ tr rc w', Prog.Traced (env anyOutcome S) op w tr rc w' →
      ∃ c, tr = [⟨key, c, w⟩] ∧ rc = World.select c found ∧ w' = w)
    (h : Prog.Traced (env anyOutcome S) (lookupRow op) w tr r w') :
    w' = w ∧ ∃ e rest, tr = e :: rest ∧ e.op = key ∧ (∀ e' ∈ rest, e'.op = .stepSelect) ∧
      (r = 0 ↔ found = false ∧ e.choice.err = none) := by
  unfold lookupRow at h
  obtain ⟨tr₁, tr₂, rc, w₁, rfl, h₁, h₂⟩ := Prog.traced_bind.mp h
  obtain ⟨c, rfl, rfl, rfl⟩ := hop tr₁ rc w₁ h₁
  unfold World.select at h₂
  cases herr : c.err with
  | some e =>
      simp only [herr, Option.isSome_some, if_true] at h₂
      obtain ⟨rfl, rfl, rfl⟩ := h₂
      exact ⟨rfl, _, [], rfl, rfl, by simp, by simp [herr]⟩
  | none =>
      cases found with
      | false =>
          simp only [herr] at h₂
          obtain ⟨rfl, rfl, rfl⟩ := h₂
          exact ⟨rfl, _, [], rfl, rfl, by simp, by simp [herr]⟩
      | true =>
          -- the row is there; the second step may fail, but the answer is not 0
          simp only [herr] at h₂
          obtain ⟨c', tr₃, -, rfl, h₃⟩ := h₂
          have hne : r ≠ 0 ∧ tr₃ = [] ∧ w' = w₁ := by
            simp only [handle, env] at h₃
            rcases World.select_cases c' false with he | he <;> rw [he] at h₃ <;>
              obtain ⟨rfl, rfl, rfl⟩ := h₃ <;> exact ⟨by decide, rfl, rfl⟩
          obtain ⟨hr, rfl, rfl⟩ := hne
          exact ⟨rfl, _, _, rfl, rfl, by simp, by simp [hr]⟩

theorem traced_isBlkInCache {blkOffset : Nat} {r : Int}
    (h : Prog.Traced (env anyOutcome S) (isBlkInCache filename blkOffset) w tr r w') :
    w' = w ∧ ∃ e rest, tr = e :: rest ∧ e.op = .selectBlockId blkOffset filename ∧
      (∀ e' ∈ rest, e'.op = .stepSelect) ∧
      (r = 0 ↔ w.db.selectBlockId blkOffset filename = false ∧ e.choice.err = none) := by
  refine traced_lookupRow (fun tr rc w' h => ?_) h
  obtain ⟨c, tr', -, rfl, rfl, rfl, rfl⟩ := h
  exact ⟨c, rfl, rfl, rfl⟩

theorem traced_isFileInCache {r : Int}
    (h : Prog.Traced (env anyOutcome S) (isFileInCache filename) w tr r w') :
    w' = w ∧ ∃ e rest, tr = e :: rest ∧ e.op = .selectFileId filename ∧
      (∀ e' ∈ rest, e'.op = .stepSelect) ∧
      (r = 0 ↔ (w.db.fileId? filename).isSome = false ∧ e.choice.err = none) := by
  refine traced_lookupRow (fun tr rc w' h => ?_) h
  obtain ⟨c, tr', -, rfl, rfl, rfl, rfl⟩ := h
  exact ⟨c, rfl, rfl, rfl⟩

/-- The events `tr` of the lookups of the blocks, and their answers. -/
inductive Looked (filename : FileName) (db : Db) : List Nat → List CfsEvent → List Int → Prop
  | nil : Looked filename db [] [] []
  | cons {o : Nat} {e : CfsEvent} {rest tr : List CfsEvent} {r : Int} {blkArr : List Nat}
      {hits : List Int} (hkey : e.op = .selectBlockId o filename)
      (hrest : ∀ e' ∈ rest, e'.op = .stepSelect)
      (hr : r = 0 ↔ db.selectBlockId o filename = false ∧ e.choice.err = none)
      (h : Looked filename db blkArr tr hits) :
      Looked filename db (o :: blkArr) (e :: (rest ++ tr)) (r :: hits)

/-- `are_blocks_in_cache` answers 1 unless one of the lookups has answered 0. -/
theorem traced_areBlocksInCache {blkArr : List Nat} {r : Int × List Int}
    (h : Prog.Traced (env anyOutcome S) (areBlocksInCache filename blkArr) w tr r w') :
    w' = w ∧ Looked filename w.db blkArr tr r.2 ∧ r.1 = if 0 ∈ r.2 then 0 else 1 := by
  suffices hloop : ∀ acc : Int × List Int, ∀ w tr, Prog.Traced (env anyOutcome S)
      (blkArr.foldlM (fun acc blkOffset => do
        let hit ← isBlkInCache filename blkOffset
        pure (if hit = 0 then 0 else acc.1, acc.2 ++ [hit])) acc) w tr r w' →
      w' = w ∧ ∃ hits, Looked filename w.db blkArr tr hits ∧ r.2 = acc.2 ++ hits ∧
        r.1 = if 0 ∈ hits then 0 else acc.1 by
    obtain ⟨rfl, hits, hl, hr₂, hr₁⟩ := hloop _ w tr h
    rw [List.nil_append] at hr₂
    exact ⟨rfl, hr₂ ▸ hl, hr₂ ▸ hr₁⟩
  clear h
  induction blkArr with
  | nil =>
      rintro acc w tr ⟨rfl, rfl, rfl⟩
      exact ⟨rfl, [], .nil, by simp, by simp⟩
  | cons o blkArr ih =>
      intro acc w tr h
      rw [List.foldlM_cons] at h
      obtain ⟨tr₁, tr₂, acc₁, w₁, rfl, h₁, h₂⟩ := Prog.traced_bind.mp h
      obtain ⟨tr₃, tr₄, hit, w₃, rfl, h₃, h₄⟩ := Prog.traced_bind.mp h₁
      obtain ⟨rfl, rfl, rfl⟩ := h₄
      obtain ⟨rfl, e, rest, rfl, hkey, hrest, hhit⟩ := traced_isBlkInCache h₃
      obtain ⟨rfl, hits, hl, hr₂, hr₁⟩ := ih _ _ _ h₂
      refine ⟨rfl, hit :: hits, ?_, ?_, ?_⟩
      · rw [List.append_nil, List.cons_append]
        exact .cons hkey hrest hhit hl
      · rw [hr₂, List.append_assoc, List.singleton_append]
      · rw [hr₁]
        by_cases hz : hit = 0 <;> by_cases hzs : (0 : Int) ∈ hits <;> simp [hz, hzs, eq_comm]

namespace Looked

variable {db : Db} {blkArr : List Nat} {hits : List Int}

theorem length_eq (h : Looked filename db blkArr tr hits) : blkArr.length = hits.length := by
  induction h with
  | nil => rfl
  | cons _ _ _ _ ih => rw [List.length_cons, List.length_cons, ih]

theorem op (h : Looked filename db blkArr tr hits) {e : CfsEvent} (he : e ∈ tr) :
    e.op = .stepSelect ∨ ∃ o ∈ blkArr, e.op = .selectBlockId o filename := by
  induction h with
  | nil => exact absurd he List.not_mem_nil
  | @cons o _ _ _ _ _ _ hkey hrest _ _ ih =>
      rcases List.mem_cons.mp he with rfl | he
      · exact Or.inr ⟨o, List.mem_cons_self, hkey⟩
      · rcases List.mem_append.mp he with he | he
        · exact Or.inl (hrest e he)
        · exact (ih he).imp_right fun ⟨o', ho', hop⟩ => ⟨o', List.mem_cons_of_mem _ ho', hop⟩

theorem no_read (h : Looked filename db blkArr tr hits) {e : CfsEvent} (he : e ∈ tr) (fd : Int)
    (n off : Nat) : e.op ≠ .pread fd n off := by
  intro hop
  rcases h.op he with heq | ⟨o, -, heq⟩ <;> exact nomatch hop.symm.trans heq

/-- An answer of 0 comes from a lookup that has not failed, of a block without row. -/
theorem zip_zero_iff (h : Looked filename db blkArr tr hits) {o : Nat} :
    (o, 0) ∈ blkArr.zip hits ↔
      db.selectBlockId o filename = false ∧ Answered tr (.selectBlockId o filename) := by
  induction h with
  | nil => simp [Answered]
  | @cons x e rest tr r blkArr hits hkey hrest hr _ ih =>
      rw [List.zip_cons_cons, List.mem_cons, ih, Prod.mk.injEq, eq_comm (a := (0 : Int)), hr]
      constructor
      · rintro (⟨rfl, hno, herr⟩ | ⟨hno, e', he', hop, herr⟩)
        · exact ⟨hno, e, List.mem_cons_self, hkey, herr⟩
        · exact ⟨hno, e', List.mem_cons_of_mem _ (List.mem_append_right _ he'), hop, herr⟩
      · rintro ⟨hno, e', he', hop, herr⟩
        rcases List.mem_cons.mp he' with rfl | he'
        · obtain ⟨rfl, -⟩ := Call.selectBlockId.inj (hop.symm.trans hkey)
          exact Or.inl ⟨rfl, hno, herr⟩
        · rcases List.mem_append.mp he' with he' | he'
          · exact nomatch (hrest e' he').symm.trans hop
          · exact Or.inr ⟨hno, e', he', hop, herr⟩

theorem zero_mem_iff (h : Looked filename db blkArr tr hits) : 0 ∈ hits ↔ ∃ o ∈ blkArr,
    db.selectBlockId o filename = false ∧ Answered tr (.selectBlockId o filename) := by
  constructor
  · intro hz
    rw [← List.map_snd_zip h.length_eq.ge, List.mem_map] at hz
    obtain ⟨⟨o, r⟩, hmem, rfl⟩ := hz
    exact ⟨o, (List.of_mem_zip hmem).1, h.zip_zero_iff.mp hmem⟩
  · rintro ⟨o, -, hno⟩
    exact (List.of_mem_zip (h.zip_zero_iff.mpr hno)).2

/-- Without repetitions the answer for a block is that of its first lookup. -/
theorem first (h : Looked filename db blkArr tr hits) (hnodup : blkArr.Nodup) {o : Nat} {r : Int}
    (hmem : (o, r) ∈ blkArr.zip hits) :
    ∃ e, tr.find? (fun e => e.op = .selectBlockId o filename) = some e ∧
      (r = 0 ↔ db.selectBlockId o filename = false ∧ e.choice.err = none) := by
  induction h with
  | nil => exact absurd hmem List.not_mem_nil
  | @cons x e rest tr r' blkArr hits hkey hrest hr _ ih =>
      obtain ⟨hx, hnodup⟩ := List.nodup_cons.mp hnodup
      rw [List.zip_cons_cons, List.mem_cons, Prod.mk.injEq] at hmem
      rcases hmem with ⟨rfl, rfl⟩ | hmem
      · exact ⟨e, List.find?_cons_of_pos (by simpa using hkey), hr⟩
      · obtain ⟨e', hfind, he'⟩ := ih hnodup hmem
        have hne : x ≠ o := fun heq => hx (heq ▸ (List.of_mem_zip hmem).1)
        refine ⟨e', ?_, he'⟩
        have hskip : rest.find? (fun e => decide (e.op = .selectBlockId o filename)) = none := by
          refine List.find?_eq_none.mpr fun e'' he'' => ?_
          simp [hrest e'' he'']
        rw [List.find?_cons_of_neg (by simp [hkey, hne]), List.find?_append, hskip, hfind]
        rfl

end Looked

end Lookups

-- ============================================================================
-- Reads from the cache
-- ============================================================================

/-- The calls of `cfs_cacheWrite`. -/
def Call.storing : Call → Bool
  | .loadHandle _ | .getCacheUsedSize | .selectBlockId _ _ | .stepSelect | .touchDatablock _ _
  | .insertDatablock _ _ | .getMetaBlockSize | .addLocalSize _ _ | .addCacheUsedSize _
  | .pwrite _ _ _ => true
  | _ => false

theorem Call.reachesHandles_of_storing {op : Call} (h : op.storing = true) :
    op.reachesHandles = false := by
  cases op
  case openFile | creat | close | mallocHandle | freeHandle => exact nomatch h
  all_goals rfl

/-- The event reads byte `i` of a cache file. -/
def ReadsCache (e : CfsEvent) (i : Nat) : Prop :=
  ∃ fd n off f, e.op = .pread fd n off ∧ e.before.fds fd = some f ∧ f.side = .cache ∧
    off ≤ i ∧ i < off + n

section Reads

variable {S : Prop} {cfg : Config} {w s s' : World} {fuel fh : Nat} {cacheFileName : FileName}
  {tr : List CfsEvent} {dualFH : DualFileHandle} {ni ci : Ino} {lowerOffset i : Nat}

theorem only_cfsCacheWrite (buf : List UInt8) (size offset : Nat) :
    Prog.Only (·.storing = true) (cfsCacheWrite cfg fuel cacheFileName buf size offset fh) :=
  Prog.only_bind (only_ask rfl) fun _ => Prog.only_bind (only_evictionWait (by rfl) fuel) fun _ =>
    Prog.only_bind (only_writeBlks (fun _ => rfl) rfl (fun _ => rfl)
      (fun _ => rfl) rfl (fun _ => rfl) fun _ => rfl) fun _ =>
        Prog.only_bind (only_ask rfl) fun _ => Prog.only_pure _

/-- The descriptors and handles are those of `w`. -/
def SameHandles (w s : World) : Prop := s.fds = w.fds ∧ s.handles = w.handles

theorem SameHandles.handle (h : SameHandles w s) (c : Choice) {op : Call}
    (hop : op.reachesHandles = false) : SameHandles w (handle c op s).2 :=
  ⟨(handles_handle hop).1.trans h.1, (handles_handle hop).2.trans h.2⟩

theorem readsCache_pread {fd : Int} {n off : Nat} {c : Choice} {f : OpenFile}
    (hfd : s.fds fd = some f) : ReadsCache ⟨.pread fd n off, c, s⟩ i ↔
      f.side = .cache ∧ off ≤ i ∧ i < off + n := by
  constructor
  · rintro ⟨fd', n', off', f', hop, hf, hside, hi⟩
    obtain ⟨rfl, rfl, rfl⟩ := Call.pread.inj hop
    rw [← Option.some.inj (hfd.symm.trans hf)] at hside
    exact ⟨hside, hi⟩
  · rintro ⟨hside, hi⟩
    exact ⟨fd, n, off, f, rfl, hfd, hside, hi⟩

/-- The turn for a block reads it from the cache when its answer is not 0. -/
theorem traced_readBlock (hd : Descriptors w dualFH ni ci) (hs : SameHandles w s)
    {acc r : Int × List UInt8} {k : Nat} {hit : Int}
    (h : Prog.Traced (env anyOutcome S)
      (readBlock cfg fuel cacheFileName lowerOffset fh dualFH acc k hit) s tr r s') :
    SameHandles w s' ∧ ((∃ e ∈ tr, ReadsCache e i) ↔ hit ≠ 0 ∧
      lowerOffset + k * cfg.blockSize ≤ i ∧
        i < lowerOffset + k * cfg.blockSize + cfg.blockSize) := by
  obtain ⟨⟨r₁, wr₁, ap, hnas⟩, r₂, wr₂, hcache⟩ := hd
  rw [← hs.1] at hnas hcache
  unfold readBlock at h
  by_cases hhit : hit ≠ 0
  · rw [if_pos hhit] at h
    obtain ⟨c, tr', -, rfl, rfl, rfl, rfl⟩ := h
    refine ⟨hs, ?_⟩
    simp only [List.mem_singleton, exists_eq_left, readsCache_pread hcache, hhit, ne_eq,
      not_false_iff, true_and]
  · rw [if_neg hhit] at h
    obtain ⟨c, tr', -, rfl, h'⟩ := traced_ask.mp h
    obtain ⟨tr₁, tr₂, x, s₁, rfl, h₁, rfl, rfl, rfl⟩ := Prog.traced_bind.mp h'
    -- the stored block is not read again
    obtain ⟨hsame, hstore⟩ := h₁.invariant (I := SameHandles w)
      (only_cfsCacheWrite _ _ _) (fun c op s hop _ h =>
        h.handle c (Call.reachesHandles_of_storing hop)) hs
    refine ⟨hsame, iff_of_false ?_ fun hboth => hhit hboth.1⟩
    rintro ⟨e, he, hread⟩
    rcases List.mem_cons.mp he with rfl | he
    · exact nomatch ((readsCache_pread hnas).mp hread).1
    · rw [List.append_nil] at he
      obtain ⟨fd, n, off, f, hop, -⟩ := hread
      have hst := (hstore e he).1
      rw [hop] at hst
      exact nomatch hst

/-- What the window is filled with comes from the cache for the blocks whose answer is
    not 0. -/
theorem traced_readWindow (hd : Descriptors w dualFH ni ci) {offset size : Nat}
    {cacheBuf : List UInt8} {hits : List Int} {r : Int × List UInt8}
    (hlen : (cfg.window offset size).length = hits.length)
    (h : Prog.Traced (env anyOutcome S) (readWindow cfg fuel cacheFileName
      (cfg.alignLowerOffset offset) (cfg.alignedSize size) fh dualFH cacheBuf
      (decide (0 < if 0 ∈ hits then (0 : Int) else 1)) hits) w tr r w') :
    (∃ e ∈ tr, ReadsCache e i) ↔ ∃ x ∈ (cfg.window offset size).zip hits,
      x.2 ≠ 0 ∧ x.1 ≤ i ∧ i < x.1 + cfg.blockSize := by
  unfold readWindow at h
  by_cases hz : 0 ∈ hits
  · rw [if_pos hz, if_neg (by decide)] at h
    have hloop := (h.event_foldlM (T := fun e => ReadsCache e i) (I := SameHandles w)
      (fun x _ acc s tr acc' s' hs hturn => traced_readBlock hd hs hturn) ⟨rfl, rfl⟩).2
    rw [hloop, Config.window, Config.offsetArray, List.zip_map_left, ← Config.windowBlocks]
    simp only [List.mem_map, exists_exists_and_eq_and, Prod.map_fst, Prod.map_snd, id_eq]
  · rw [if_neg hz, if_pos (by decide)] at h
    obtain ⟨c, tr', -, rfl, rfl, rfl, rfl⟩ := traced_ask.mp h
    obtain ⟨-, rd, wr, hcache⟩ := hd
    simp only [List.mem_singleton, exists_eq_left, readsCache_pread hcache, true_and]
    constructor
    · rintro ⟨hlo, hhi⟩
      have hbs : 0 < cfg.blockSize := by
        rw [cfg.alignedSize_eq] at hhi
        exact Nat.pos_of_ne_zero fun h0 => by rw [h0] at hhi; omega
      have hmem : cfg.alignLowerOffset offset + (i - cfg.alignLowerOffset offset) / cfg.blockSize *
          cfg.blockSize ∈ cfg.window offset size := cfg.block_mem_window hbs (by omega)
      rw [← List.map_fst_zip hlen.le, List.mem_map] at hmem
      obtain ⟨x, hx, hfst⟩ := hmem
      have hdiv := Nat.div_add_mod' (i - cfg.alignLowerOffset offset) cfg.blockSize
      have hmod := Nat.mod_lt (i - cfg.alignLowerOffset offset) hbs
      refine ⟨x, hx, fun h0 => hz (h0 ▸ (List.of_mem_zip hx).2), ?_, ?_⟩ <;> omega
    · rintro ⟨x, hx, -, hlo, hhi⟩
      obtain ⟨k, hk, hfst⟩ := cfg.mem_offsetArray.mp (List.of_mem_zip hx).1
      have hle := cfg.mul_add_le_alignedSize hk
      constructor <;> omega

/-- The calls of `cfs_read` apart from lookups and the filling of the window. -/
def Call.onMemory : Call → Bool
  | .loadHandle _ | .malloc _ | .strayRead _ => true
  | _ => false

theorem Call.no_read_of_onMemory {op : Call} (h : op.onMemory = true) (fd : Int) (n off : Nat) :
    op ≠ .pread fd n off := by
  rintro rfl
  exact nomatch h

/-- The lookups of `cfs_read` and the events of filling the window. -/
theorem traced_cfsRead_split {path : Path} {size offset : Nat} {r : Int × List UInt8}
    (h : Prog.Traced (env anyOutcome S) (cfsRead cfg fuel path size offset fh) w tr r w') :
    ∃ tr₁ pre tr₂ post hits cacheBuf acc, tr = tr₁ ++ (pre ++ (tr₂ ++ post)) ∧
      Looked (cfsPathToFileName path) w.db (cfg.window offset size) tr₁ hits ∧
      (∀ e ∈ pre ++ post, e.op.onMemory = true) ∧ r.1 = acc.1 ∧
      Prog.Traced (env anyOutcome S) (readWindow cfg fuel (cfsPathToFileName path)
        (cfg.alignLowerOffset offset) (cfg.alignedSize size) fh
        ((w.handles fh).getD { nasFH := -1, cacheFH := -1 }) cacheBuf
        (decide (0 < if 0 ∈ hits then (0 : Int) else 1)) hits) w tr₂ acc w' := by
  obtain ⟨tr₁, tr₂, found, w₁, rfl, h₁, h₂⟩ := Prog.traced_bind.mp h
  obtain ⟨rfl, hlook, htotal⟩ := traced_areBlocksInCache h₁
  obtain ⟨c₁, tr₃, -, rfl, h₃⟩ := traced_ask.mp h₂
  obtain ⟨c₂, tr₄, -, rfl, h₄⟩ := traced_ask.mp h₃
  obtain ⟨tr₅, tr₆, acc, w₂, rfl, hwindow, h₅⟩ := Prog.traced_bind.mp h₄
  obtain ⟨tr₇, tr₈, buf, w₃, rfl, hcopy, rfl, rfl, rfl⟩ := Prog.traced_bind.mp h₅
  have hstray : Prog.Only (·.onMemory = true) (copyOut acc.2 (offset - cfg.alignLowerOffset offset)
      size) := only_copyOut (fun _ => rfl) _ _ _
  obtain rfl : w' = w₂ := (hcopy.invariant (I := (· = w₂)) hstray
    (fun c op s hop _ hs => by cases op <;> first | exact hs | exact nomatch hop) rfl).1
  rw [htotal] at hwindow
  refine ⟨tr₁, [_, _], tr₅, tr₇ ++ [], found.2, _, acc, rfl, hlook, fun e he => ?_, rfl, hwindow⟩
  simp only [List.append_nil, List.cons_append, List.nil_append, List.mem_cons] at he
  rcases he with rfl | rfl | he
  · rfl
  · rfl
  · exact hcopy.only hstray e he

/-- What `cfs_read` reads from the cache: the blocks of the window whose lookup has not
    answered 0. -/
theorem traced_cfsRead (hfh : Opened w fh ni ci) {path : Path} {size offset : Nat}
    {r : Int × List UInt8}
    (h : Prog.Traced (env anyOutcome S) (cfsRead cfg fuel path size offset fh) w tr r w') :
    ∃ tr₁ tr₂ hits, tr = tr₁ ++ tr₂ ∧
      Looked (cfsPathToFileName path) w.db (cfg.window offset size) tr₁ hits ∧
      ∀ i, (∃ e ∈ tr, ReadsCache e i) ↔ ∃ x ∈ (cfg.window offset size).zip hits,
        x.2 ≠ 0 ∧ x.1 ≤ i ∧ i < x.1 + cfg.blockSize := by
  obtain ⟨dualFH, hdual, hd⟩ := hfh
  obtain ⟨tr₁, pre, tr₂, post, hits, cacheBuf, acc, rfl, hlook, hmemory, -, hwindow⟩ :=
    traced_cfsRead_split h
  refine ⟨tr₁, _, hits, rfl, hlook, fun i => ?_⟩
  rw [hdual, Option.getD_some] at hwindow
  rw [← traced_readWindow hd hlook.length_eq hwindow]
  -- the other calls are not reads
  have hnot : ∀ e : CfsEvent, (∀ fd n off, e.op ≠ .pread fd n off) → ¬ ReadsCache e i := by
    rintro e he ⟨fd, n, off, f, hop, -⟩
    exact he fd n off hop
  constructor
  · rintro ⟨e, he, hread⟩
    rcases List.mem_append.mp he with he | he
    · exact absurd hread (hnot e (hlook.no_read he))
    · simp only [List.mem_append] at he hmemory
      rcases he with he | he | he
      · exact absurd hread (hnot e (Call.no_read_of_onMemory (hmemory e (Or.inl he))))
      · exact ⟨e, he, hread⟩
      · exact absurd hread (hnot e (Call.no_read_of_onMemory (hmemory e (Or.inr he))))
  · rintro ⟨e, he, hread⟩
    exact ⟨e, List.mem_append_right _ (List.mem_append_right _ (List.mem_append_left _ he)), hread⟩

end Reads

-- ============================================================================
-- Insertions, and files taken for cached
-- ============================================================================

/-- `cfs_open` goes on with a cached copy of `path`: it asks how old the copy is or, the
    NAS file being gone, drops it. -/
def TakesForCached (cfg : Config) (path : Path) (tr : List CfsEvent) : Prop :=
  ∃ e ∈ tr, e.op = .lstat .cache (cfg.fullCachePath path) ∨
    e.op = .selectLocalSize (cfsPathToFileName path)

section Callers

variable {S : Prop} {cfg : Config} {w w' : World} {filename : FileName} {tr : List CfsEvent}

/-- `write_blks` inserts a block when one of its lookups has answered 0. -/
theorem traced_writeBlks {blkArr : List Nat} {r : Int}
    (h : Prog.Traced (env anyOutcome S) (writeBlks filename blkArr) w tr r w') :
    ∃ tr₁ tr₂ hits, tr = tr₁ ++ tr₂ ∧ Looked filename w.db blkArr tr₁ hits ∧
      (∀ e ∈ tr₂, ∀ o, e.op ≠ .selectBlockId o filename) ∧
      ∀ o, (∃ e ∈ tr, e.op = .insertDatablock o filename) ↔ (o, 0) ∈ blkArr.zip hits := by
  obtain ⟨tr₁, tr₂, found, w₁, rfl, h₁, h₂⟩ := Prog.traced_bind.mp h
  obtain ⟨rfl, hlook, -⟩ := traced_areBlocksInCache h₁
  obtain ⟨tr₃, tr₄, u, w₂, rfl, h₃, rfl, rfl, rfl⟩ := Prog.traced_bind.mp h₂
  refine ⟨tr₁, tr₃ ++ [], found.2, rfl, hlook, ?_, fun o => ?_⟩
  · have honly : Prog.Only (fun op => ∀ o, op ≠ .selectBlockId o filename)
        ((blkArr.zip found.2).foldlM (fun _ e => do
          let _ ← if e.2 ≠ 0 then updateBlkTime filename e.1 else insertBlock filename e.1
          pure ()) ()) :=
      Prog.only_foldlM (fun _ _ _ => Prog.only_ite _
        (Prog.only_bind (only_updateBlkTime fun _ => nofun) fun _ => Prog.only_pure _)
        (Prog.only_bind (only_insertBlock (fun _ => nofun) (fun _ => nofun) (fun _ _ => nofun)
          fun _ _ => nofun) fun _ => Prog.only_pure _)) _
    rw [List.append_nil]
    exact h₃.only honly
  · have hloop := (h₃.event_foldlM (T := fun e => e.op = .insertDatablock o filename)
      (D := fun x => x = (o, 0)) (I := fun _ => True) (fun x _ _ s tr _ s' _ hturn => ?_)
      trivial).2
    · rw [exists_eq_right] at hloop
      rw [← hloop, List.append_nil]
      constructor
      · rintro ⟨e, he, hop⟩
        rcases List.mem_append.mp he with he | he
        · rcases hlook.op he with hop' | ⟨o', -, hop'⟩ <;> exact nomatch hop'.symm.trans hop
        · exact ⟨e, he, hop⟩
      · rintro ⟨e, he, hop⟩
        exact ⟨e, List.mem_append_right _ he, hop⟩
    · refine ⟨trivial, ?_⟩
      obtain ⟨blkOffset, hit⟩ := x
      rw [Prod.mk.injEq]
      dsimp only at hturn
      by_cases hhit : hit = 0
      · -- the turn inserts its own block and no other one
        rw [if_neg (not_not.mpr hhit)] at hturn
        obtain ⟨tr₅, tr₆, u', s₁, rfl, h₅, rfl, -, -⟩ := Prog.traced_bind.mp hturn
        rw [List.append_nil]
        constructor
        · rintro ⟨e, he, hop⟩
          have honly : Prog.Only (fun op => ∀ o, op = .insertDatablock o filename → o = blkOffset)
              (insertBlock filename blkOffset) :=
            only_insertBlock (fun o heq => (Call.insertDatablock.inj heq).1.symm) (fun _ => nofun)
              (fun _ _ => nofun) fun _ _ => nofun
          exact ⟨(h₅.only honly e he o hop).symm, hhit⟩
        · rintro ⟨rfl, -⟩
          obtain ⟨c, tr', -, rfl, -⟩ := traced_ask.mp h₅
          exact ⟨_, List.mem_cons_self, rfl⟩
      · rw [if_pos hhit] at hturn
        obtain ⟨tr₅, tr₆, u', s₁, rfl, h₅, rfl, -, -⟩ := Prog.traced_bind.mp hturn
        rw [List.append_nil]
        refine iff_of_false ?_ fun hboth => hhit hboth.2
        rintro ⟨e, he, hop⟩
        have honly : Prog.Only (fun op => op ≠ .insertDatablock o filename)
            (updateBlkTime filename blkOffset) := only_updateBlkTime nofun
        exact h₅.only honly e he hop

/-- `cfs_open` takes a file for cached unless its lookup has answered 0. -/
theorem traced_cfsOpen {path : Path} {flags : Nat} {r : Int × Option Nat}
    (h : Prog.Traced (env anyOutcome S) (cfsOpen cfg path flags) w tr r w') :
    ∃ e, tr.find? (fun e => e.op = .selectFileId (cfsPathToFileName path)) = some e ∧
      (TakesForCached cfg path tr ↔
        ¬ ((w.db.fileId? (cfsPathToFileName path)).isSome = false ∧ e.choice.err = none)) := by
  obtain ⟨c, tr₁, -, rfl, h₁⟩ := traced_ask.mp h
  obtain ⟨tr₂, tr₃, present, w₂, rfl, h₂, h₃⟩ := Prog.traced_bind.mp h₁
  have hdb : (handle c (.openFile .nas (cfg.fullNasPath path) (nasFlags flags)) w).2.db = w.db :=
    congrArg MetaState.db (metadata_handle rfl)
  obtain ⟨hw₂, e, rest, rfl, hkey, hrest, hzero⟩ := traced_isFileInCache h₂
  rw [hdb] at hzero
  refine ⟨e, ?_, ?_⟩
  · rw [List.find?_cons_of_neg (by simp), List.cons_append,
      List.find?_cons_of_pos (by simpa using hkey)]
  rw [← hzero]
  -- the calls up to the lookup do not count
  have htail : TakesForCached cfg path (⟨.openFile .nas (cfg.fullNasPath path) (nasFlags flags),
      c, w⟩ :: (e :: rest ++ tr₃)) ↔ TakesForCached cfg path tr₃ := by
    constructor
    · rintro ⟨e', he', hop⟩
      simp only [List.mem_cons, List.mem_append] at he'
      rcases he' with rfl | (rfl | he') | he'
      · exact absurd hop (by simp)
      · exact absurd hop (by simp [hkey])
      · exact absurd hop (by simp [hrest e' he'])
      · exact ⟨e', he', hop⟩
    · rintro ⟨e', he', hop⟩
      exact ⟨e', List.mem_cons_of_mem _ (List.mem_append_right _ he'), hop⟩
  rw [htail]
  by_cases hp : present = 0
  · -- no call that follows is about a copy
    refine iff_of_false ?_ (not_not.mpr hp)
    rintro ⟨e', he', hop⟩
    have hdec : decide (present ≠ 0) = false := by simp [hp]
    rw [hdec] at h₃
    refine absurd hop (not_or.mpr (h₃.only (show Prog.Only (fun op => op ≠ .lstat .cache
      (cfg.fullCachePath path) ∧ op ≠ .selectLocalSize (cfsPathToFileName path)) _ from ?_) e' he'))
    refine Prog.only_ite _ (Prog.only_pure _) (Prog.only_bind (Prog.only_bind
      (only_ask ⟨nofun, nofun⟩) fun _ => Prog.only_pure _) fun st => Prog.only_bind
      (Prog.only_pure _) fun pr => Prog.only_bind ?_ fun _ => Prog.only_bind
      (only_ask ⟨nofun, nofun⟩) fun _ => Prog.only_bind (only_ask ⟨nofun, nofun⟩) fun _ =>
        Prog.only_pure _)
    refine Prog.only_ite _ (Prog.only_pure _) (Prog.only_bind (only_createFile ⟨nofun, nofun⟩)
      fun _ => Prog.only_bind ?_ fun _ => Prog.only_pure _)
    cases st.kind with
    | reg =>
        refine Prog.only_bind (only_ask ⟨nofun, nofun⟩) fun r => ?_
        cases r with
        | ok fd => exact Prog.only_bind (only_ask ⟨nofun, nofun⟩) fun _ => Prog.only_pure _
        | error e => exact Prog.only_pure _
    | dir | lnk | fifo | special =>
        exact Prog.only_bind (only_ask ⟨nofun, nofun⟩) fun _ => Prog.only_pure _
  · refine iff_of_true ?_ hp
    have hdec : decide (present ≠ 0) = true := by simp [hp]
    rw [hdec] at h₃
    split at h₃
    · obtain ⟨tr₄, tr₅, u, w₄, rfl, h₄, -⟩ := Prog.traced_bind.mp h₃
      obtain ⟨tr₆, tr₇, u', w₆, rfl, h₆, -⟩ := Prog.traced_bind.mp h₄
      obtain ⟨c', tr', -, rfl, -⟩ := traced_ask.mp h₆
      exact ⟨_, List.mem_append_left _ (List.mem_append_left _ List.mem_cons_self), Or.inr rfl⟩
    · obtain ⟨tr₄, tr₅, st, w₄, rfl, -, h₄⟩ := Prog.traced_bind.mp h₃
      obtain ⟨tr₆, tr₇, b, w₆, rfl, h₆, -⟩ := Prog.traced_bind.mp h₄
      obtain ⟨tr₈, tr₉, st', w₈, rfl, h₈, -⟩ := Prog.traced_bind.mp h₆
      obtain ⟨c', tr', -, rfl, -⟩ := traced_ask.mp h₈
      exact ⟨_, List.mem_append_right _ (List.mem_append_left _ (List.mem_append_left _
        List.mem_cons_self)), Or.inl rfl⟩

end Callers

-- ============================================================================
-- No error is taken for a hit
-- ============================================================================

/-- The functions that look up rows. -/
inductive LookupCaller where
  | areBlocksInCache (filename : FileName) (blkArr : List Nat)
  | cfsRead (path : Path) (size offset fh : Nat)
  | writeBlks (filename : FileName) (blkArr : List Nat)
  | cfsOpen (path : Path) (flags : Nat)

namespace LookupCaller

/-- The function and the status it returns. -/
def prog (cfg : Config) (fuel : Nat) : LookupCaller → CfsM Int
  | .areBlocksInCache filename blkArr => do
    let r ← CacheFs.areBlocksInCache filename blkArr
    pure r.1
  | .cfsRead path size offset fh => do
    let r ← CacheFs.cfsRead cfg fuel path size offset fh
    pure r.1
  | .writeBlks filename blkArr => CacheFs.writeBlks filename blkArr
  | .cfsOpen path flags => do
    let r ← CacheFs.cfsOpen cfg path flags
    pure r.1

/-- What is taken for a hit has a row in `db`. -/
def NoFalseHit (cfg : Config) (db : Db) (tr : List CfsEvent) (ret : Int) : LookupCaller → Prop
  | .areBlocksInCache filename blkArr => ret = 1 → ∀ o ∈ blkArr, db.Recorded filename o
  | .cfsRead path _ _ _ => ∀ o, o % cfg.blockSize = 0 →
      (∃ e ∈ tr, ∃ i, o ≤ i ∧ i < o + cfg.blockSize ∧ ReadsCache e i) →
        db.Recorded (cfsPathToFileName path) o
  | .writeBlks filename blkArr => ∀ o ∈ blkArr, ¬ db.Recorded filename o →
      ∃ e ∈ tr, e.op = .insertDatablock o filename
  | .cfsOpen path _ => TakesForCached cfg path tr → db.HasFile (cfsPathToFileName path)

/-- The lookups of what has no row in `db` do not fail, as far as they matter. -/
def MissesAnswered (cfg : Config) (db : Db) (tr : List CfsEvent) : LookupCaller → Prop
  | .areBlocksInCache filename blkArr => (∀ o ∈ blkArr, db.Recorded filename o) ∨
      ∃ o ∈ blkArr, ¬ db.Recorded filename o ∧ Answered tr (.selectBlockId o filename)
  | .cfsRead path size offset _ => ∀ o ∈ cfg.window offset size,
      ¬ db.Recorded (cfsPathToFileName path) o →
        FirstAnswered tr (.selectBlockId o (cfsPathToFileName path))
  | .writeBlks filename blkArr => ∀ o ∈ blkArr, ¬ db.Recorded filename o →
      Answered tr (.selectBlockId o filename)
  | .cfsOpen path _ => ¬ db.HasFile (cfsPathToFileName path) →
      FirstAnswered tr (.selectFileId (cfsPathToFileName path))

/-- `cfs_read` is given a handle that `cfs_open` has made. -/
def Ready (w : World) : LookupCaller → Prop
  | .cfsRead _ _ _ fh => ∃ ni ci, Opened w fh ni ci
  | _ => True

end LookupCaller

section NoFalseHit

variable {cfg : Config} {fuel : Nat} {w w' : World} {tr : List CfsEvent} {ret : Int} {S : Prop}

theorem Config.nodup_window (cfg : Config) (offset size : Nat) :
    (cfg.window offset size).Nodup := by
  rcases Nat.eq_zero_or_pos cfg.blockSize with h0 | hbs
  · rw [Config.window, Config.windowBlocks, h0, Nat.div_zero]
    exact List.nodup_nil
  · exact cfg.nodup_offsetArray hbs _ _

theorem Db.WF.selectBlockId_eq_false_iff {db : Db} (h : db.WF) {filename : FileName} {o : Nat} :
    db.selectBlockId o filename = false ↔ ¬ db.Recorded filename o := by
  rw [← h.selectBlockId_iff, Bool.not_eq_true]

/-- The answer for a block of a window is 0 when the block has no row and its first lookup
    has not failed. -/
theorem Looked.zero_iff {filename : FileName} {offset size o : Nat} {tr₁ tr₂ : List CfsEvent}
    {hits : List Int} {hit : Int} (h : Looked filename w.db (cfg.window offset size) tr₁ hits)
    (hwf : w.db.WF) (hmem : (o, hit) ∈ (cfg.window offset size).zip hits) :
    hit = 0 ↔ ¬ w.db.Recorded filename o ∧
      FirstAnswered (tr₁ ++ tr₂) (.selectBlockId o filename) := by
  obtain ⟨e, hfind, hhit⟩ := h.first (cfg.nodup_window offset size) hmem
  rw [hhit, hwf.selectBlockId_eq_false_iff, FirstAnswered, List.find?_append, hfind]
  simp

theorem noFalseHit_areBlocksInCache (hwf : w.db.WF) {filename : FileName} {blkArr : List Nat}
    {r : Int × List Int}
    (h : Prog.Traced (env anyOutcome S) (areBlocksInCache filename blkArr) w tr r w') :
    LookupCaller.NoFalseHit cfg w.db tr r.1 (.areBlocksInCache filename blkArr) ↔
      LookupCaller.MissesAnswered cfg w.db tr (.areBlocksInCache filename blkArr) := by
  obtain ⟨-, hlook, htotal⟩ := traced_areBlocksInCache h
  simp only [LookupCaller.NoFalseHit, LookupCaller.MissesAnswered, htotal]
  have hzero := hlook.zero_mem_iff
  simp only [hwf.selectBlockId_eq_false_iff] at hzero
  rw [← hzero]
  by_cases hz : (0 : Int) ∈ r.2
  · simp [hz]
  · simp [hz]

theorem noFalseHit_cfsRead (hwf : w.db.WF) {path : Path} {size offset fh : Nat} {ni ci : Ino}
    {r : Int × List UInt8} (hfh : Opened w fh ni ci)
    (h : Prog.Traced (env anyOutcome S) (cfsRead cfg fuel path size offset fh) w tr r w') :
    LookupCaller.NoFalseHit cfg w.db tr r.1 (.cfsRead path size offset fh) ↔
      LookupCaller.MissesAnswered cfg w.db tr (.cfsRead path size offset fh) := by
  obtain ⟨tr₁, tr₂, hits, rfl, hlook, hreads⟩ := traced_cfsRead hfh h
  simp only [LookupCaller.NoFalseHit, LookupCaller.MissesAnswered]
  constructor
  · intro hsound o ho hno
    by_contra hfail
    rw [← List.map_fst_zip hlook.length_eq.le, List.mem_map] at ho
    obtain ⟨⟨o', hit⟩, hmem, rfl⟩ := ho
    -- the failed lookup makes the block one of those that are read
    have hhit : hit ≠ 0 := fun h0 => hfail ((hlook.zero_iff hwf hmem).mp h0).2
    have hbs : 0 < cfg.blockSize := by
      obtain ⟨k, hk, -⟩ := cfg.mem_offsetArray.mp (List.of_mem_zip hmem).1
      refine Nat.pos_of_ne_zero fun h0 => ?_
      rw [Config.windowBlocks, h0, Nat.div_zero] at hk
      exact absurd hk (Nat.not_lt_zero k)
    obtain ⟨e, he, hread⟩ := (hreads o').mpr ⟨_, hmem, hhit, le_refl _, by omega⟩
    exact hno (hsound o' (cfg.mod_of_mem_window (List.of_mem_zip hmem).1)
      ⟨e, he, o', le_refl _, by omega, hread⟩)
  · rintro hcond o hmod ⟨e, he, i, hlo, hhi, hread⟩
    obtain ⟨⟨o', hit⟩, hmem, hhit, hlo', hhi'⟩ := (hreads i).mp ⟨e, he, hread⟩
    have hwin := (List.of_mem_zip hmem).1
    have heq : o = o' := by
      by_contra hne
      have hapart := aligned_apart hmod (cfg.mod_of_mem_window hwin) hne
      dsimp only at hlo' hhi'
      omega
    subst heq
    by_contra hno
    exact hhit ((hlook.zero_iff hwf hmem).mpr ⟨hno, hcond o hwin hno⟩)

theorem noFalseHit_writeBlks (hwf : w.db.WF) {filename : FileName} {blkArr : List Nat}
    (h : Prog.Traced (env anyOutcome S) (writeBlks filename blkArr) w tr ret w') :
    LookupCaller.NoFalseHit cfg w.db tr ret (.writeBlks filename blkArr) ↔
      LookupCaller.MissesAnswered cfg w.db tr (.writeBlks filename blkArr) := by
  obtain ⟨tr₁, tr₂, hits, rfl, hlook, hlater, hins⟩ := traced_writeBlks h
  have hanswered : ∀ o, Answered (tr₁ ++ tr₂) (.selectBlockId o filename) ↔
      Answered tr₁ (.selectBlockId o filename) := by
    intro o
    constructor
    · rintro ⟨e, he, hop, herr⟩
      rcases List.mem_append.mp he with he | he
      · exact ⟨e, he, hop, herr⟩
      · exact absurd hop (hlater e he o)
    · rintro ⟨e, he, hop, herr⟩
      exact ⟨e, List.mem_append_left _ he, hop, herr⟩
  simp only [LookupCaller.NoFalseHit, LookupCaller.MissesAnswered, hins, hlook.zip_zero_iff,
    hwf.selectBlockId_eq_false_iff, hanswered]
  exact forall₂_congr fun o _ => ⟨fun hi hno => (hi hno).2, fun hi hno => ⟨hno, hi hno⟩⟩

theorem noFalseHit_cfsOpen {path : Path} {flags : Nat} {r : Int × Option Nat}
    (h : Prog.Traced (env anyOutcome S) (cfsOpen cfg path flags) w tr r w') :
    LookupCaller.NoFalseHit cfg w.db tr r.1 (.cfsOpen path flags) ↔
      LookupCaller.MissesAnswered cfg w.db tr (.cfsOpen path flags) := by
  obtain ⟨e, hfind, htakes⟩ := traced_cfsOpen h
  have hfile : (w.db.fileId? (cfsPathToFileName path)).isSome = false ↔
      ¬ w.db.HasFile (cfsPathToFileName path) := by
    rw [← Db.fileId?_eq_none_iff, Option.isSome_eq_false_iff, Option.isNone_iff_eq_none]
  simp only [LookupCaller.NoFalseHit, LookupCaller.MissesAnswered, htakes, hfile, FirstAnswered,
    hfind, Option.some.injEq, exists_eq_left']
  tauto

/-- An error is never taken for a hit exactly when the lookups of what has no row do
    not fail. -/
theorem no_false_hit_iff {rq : LookupCaller} (hwf : w.db.WF) (hready : rq.Ready w)
    (h : Prog.Traced (env anyOutcome S) (rq.prog cfg fuel) w tr ret w') :
    rq.NoFalseHit cfg w.db tr ret ↔ rq.MissesAnswered cfg w.db tr := by
  cases rq with
  | areBlocksInCache filename blkArr =>
      obtain ⟨tr₁, tr₂, r, w₁, rfl, h₁, rfl, rfl, rfl⟩ := Prog.traced_bind.mp h
      rw [List.append_nil]
      exact noFalseHit_areBlocksInCache hwf h₁
  | cfsRead path size offset fh =>
      obtain ⟨ni, ci, hfh⟩ := hready
      obtain ⟨tr₁, tr₂, r, w₁, rfl, h₁, rfl, rfl, rfl⟩ := Prog.traced_bind.mp h
      rw [List.append_nil]
      exact noFalseHit_cfsRead hwf hfh h₁
  | writeBlks filename blkArr => exact noFalseHit_writeBlks hwf h
  | cfsOpen path flags =>
      obtain ⟨tr₁, tr₂, r, w₁, rfl, h₁, rfl, rfl, rfl⟩ := Prog.traced_bind.mp h
      rw [List.append_nil]
      exact noFalseHit_cfsOpen h₁

end NoFalseHit

theorem opened_sampleOpened : Opened (sampleOpened [1, 2, 3, 4, 5, 6, 7, 8]) 1 1 2 :=
  ⟨⟨3, 5⟩, by decide, ⟨true, true, false, by decide⟩, true, true, by decide⟩

/-- A read of two blocks that have no row; the lookup of the second one fails. -/
theorem no_false_hit_iff_read : ∃ tr ret w', Prog.Traced (env anyOutcome True)
    ((LookupCaller.cfsRead samplePath 8 0 1).prog sampleConfig 1)
      (sampleOpened [1, 2, 3, 4, 5, 6, 7, 8]) tr ret w' ∧
    (tr.any fun e => e.choice.err.isSome) = true ∧
    (LookupCaller.NoFalseHit sampleConfig (sampleOpened [1, 2, 3, 4, 5, 6, 7, 8]).db tr ret
        (.cfsRead samplePath 8 0 1) ↔
      LookupCaller.MissesAnswered sampleConfig (sampleOpened [1, 2, 3, 4, 5, 6, 7, 8]).db tr
        (.cfsRead samplePath 8 0 1)) := by
  have hrun : ((Prog.runTraced (env anyOutcome True)
      (fun n => if n = 1 then { err := some EIO } else {})
      ((LookupCaller.cfsRead samplePath 8 0 1).prog sampleConfig 1)
      (sampleOpened [1, 2, 3, 4, 5, 6, 7, 8])).map fun x =>
        x.1.any fun e => e.choice.err.isSome) = some true := by decide
  obtain ⟨x, hx, hfail⟩ := Option.map_eq_some_iff.mp hrun
  have hready : LookupCaller.Ready (sampleOpened [1, 2, 3, 4, 5, 6, 7, 8])
      (.cfsRead samplePath 8 0 1) := ⟨1, 2, opened_sampleOpened⟩
  have htr := Prog.traced_of_runTraced hx
  exact ⟨x.1, x.2.1, x.2.2, htr, hfail, no_false_hit_iff (by constructor <;> decide) hready htr⟩

/-- The lookup of the only block of a read fails, and its bytes are taken from the empty
    cache file. -/
theorem false_hit : ¬ ∀ (cfg : Config) (fuel : Nat) (rq : LookupCaller) (w w' : World)
    (tr : List CfsEvent) (ret : Int), w.db.WF → rq.Ready w →
    Prog.Traced (env anyOutcome True) (rq.prog cfg fuel) w tr ret w' →
    rq.NoFalseHit cfg w.db tr ret := by
  intro h
  have hrun : ((Prog.runTraced (env anyOutcome True)
      (fun n => if n = 0 then { err := some EIO } else {})
      ((LookupCaller.cfsRead samplePath 4 0 1).prog sampleConfig 1)
      (sampleOpened [1, 2, 3, 4, 5, 6, 7, 8])).map fun x => x.1.any fun e =>
        decide (e.op = .pread 5 4 0 ∧ (e.before.fds 5).map (·.side) = some .cache)) =
      some true := by decide
  obtain ⟨⟨tr, ret, w'⟩, hx, hany⟩ := Option.map_eq_some_iff.mp hrun
  obtain ⟨e, he, hread⟩ := List.any_eq_true.mp hany
  obtain ⟨hop, hside⟩ := of_decide_eq_true hread
  obtain ⟨f, hf, hside⟩ := Option.map_eq_some_iff.mp hside
  have hready : LookupCaller.Ready (sampleOpened [1, 2, 3, 4, 5, 6, 7, 8])
      (.cfsRead samplePath 4 0 1) := ⟨1, 2, opened_sampleOpened⟩
  have hsound : LookupCaller.NoFalseHit sampleConfig (sampleOpened [1, 2, 3, 4, 5, 6, 7, 8]).db tr
      ret (.cfsRead samplePath 4 0 1) :=
    h _ _ _ _ _ _ _ (by constructor <;> decide) hready (Prog.traced_of_runTraced hx)
  obtain ⟨_, _, _, b, hb, _⟩ := hsound 0 rfl
    ⟨e, he, 0, le_refl _, by decide, 5, 4, 0, f, hop, hf, hside, le_refl _, by decide⟩
  have hnone : (sampleOpened [1, 2, 3, 4, 5, 6, 7, 8]).db.datablocks = [] := by decide
  rw [hnone] at hb
  exact nomatch hb

end CacheFs
