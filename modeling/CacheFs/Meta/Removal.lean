/-
  CacheFs.Meta.Removal

  `delete_block` and `delete_blocks`.

  `delete_block` takes one block off `local_size` and off the counter when its DELETE has
  run, whether or not a row has gone.  So an array is taken off as often as it has
  entries (`Dropped`), while the rows that go are those of its members: the two agree
  when the array names recorded blocks, each of them once.
-/

import CacheFs.Effect.Trace
import CacheFs.Meta.Exact

namespace CacheFs

open CacheFs.Effect
open CacheFs.Effect.Prog (Exec Traced)

-- ============================================================================
-- delete_block
-- ============================================================================

/-- The statements of `delete_block` have run. -/
def MetaState.dropBlock (m : MetaState) (filename : FileName) (blkOffset : Nat) : MetaState :=
  { m with
    db := (m.db.deleteDatablock blkOffset filename).addLocalSize (-m.metaBlockSize) filename
    cacheUsedSize := wrap64 (m.cacheUsedSize + -m.metaBlockSize) }

/-- The update of the counter wraps below zero. -/
def Wraps (e : Event Call World Choice) : Prop :=
  ∃ amount, e.op = .addCacheUsedSize amount ∧
    (e.before.metadata.cacheUsedSize : Int) + amount < 0

section DeleteBlock

variable {A : Choice → Call → World → Prop} {S : Prop} {w w' : World} {filename : FileName}
variable {r : Int} {tr : List (Event Call World Choice)}

theorem traced_deleteBlock (hA : SqlSucceeds A) {blkOffset : Nat}
    (h : Traced (env A S) (deleteBlock filename blkOffset) w tr r w') :
    w' = { w with metadata := w.metadata.dropBlock filename blkOffset } ∧
      ((∃ e ∈ tr, Wraps e) ↔ w.metadata.cacheUsedSize < w.metadata.metaBlockSize) := by
  unfold deleteBlock at h
  obtain ⟨c₁, tr₁, hc₁, rfl, h⟩ := h
  simp only [env, handle, World.sql_some (hA _ _ _ hc₁ rfl), Prog.bind_def, Prog.bind,
    tests_done] at h
  obtain ⟨c₂, tr₂, -, rfl, c₃, tr₃, hc₃, rfl, h⟩ := h
  simp only [handle, World.sql_some (hA _ _ _ hc₃ rfl), Prog.bind, tests_done] at h
  obtain ⟨c₄, tr₄, -, rfl, c₅, tr₅, -, rfl, rfl, rfl, rfl⟩ := h
  refine ⟨rfl, ?_⟩
  constructor
  · rintro ⟨e, he, amount, hop, hlt⟩
    simp only [List.mem_cons, List.not_mem_nil, or_false] at he
    -- the last of the five calls is the update
    rcases he with rfl | rfl | rfl | rfl | rfl
    · cases hop
    · cases hop
    · cases hop
    · cases hop
    · obtain rfl := Call.addCacheUsedSize.inj hop
      change (w.metadata.cacheUsedSize : Int) + -w.metadata.metaBlockSize < 0 at hlt
      omega
  · intro hlt
    refine ⟨_, List.mem_cons_of_mem _ (List.mem_cons_of_mem _ (List.mem_cons_of_mem _
      (List.mem_cons_of_mem _ List.mem_cons_self))), _, rfl, ?_⟩
    show (w.metadata.cacheUsedSize : Int) + -w.metadata.metaBlockSize < 0
    omega

-- ============================================================================
-- delete_blocks
-- ============================================================================

/-- The rows of the blocks of an array. -/
def Db.removed (db : Db) (filename : FileName) (blkArr : List Nat) : List BlockRow :=
  db.datablocks.filter (db.listed filename blkArr)

/-- The metadata after `delete_block` for each entry of an array. -/
structure Dropped (filename : FileName) (m : MetaState) (done : List Nat) (m' : MetaState) :
    Prop where
  metaBlockSize : m'.metaBlockSize = m.metaBlockSize
  files : m'.db.files =
    (m.db.addLocalSize (-(m.metaBlockSize * done.length : Nat)) filename).files
  datablocks : m'.db.datablocks = m.db.datablocks.filter (!m.db.listed filename done ·)
  used : m'.cacheUsedSize = wrap64 (m.cacheUsedSize - (m.metaBlockSize * done.length : Nat))

theorem Dropped.nil (hlt : w.metadata.cacheUsedSize < 2 ^ 64) :
    Dropped filename w.metadata [] w.metadata where
  metaBlockSize := rfl
  files := by simp [Db.addLocalSize_zero]
  datablocks := by simp [Db.listed]
  used := by
    rw [List.length_nil, Nat.mul_zero, Int.natCast_zero, Int.sub_zero, wrap64_of_nat (by omega)]

theorem Dropped.snoc {m m' : MetaState} {done : List Nat} (h : Dropped filename m done m')
    (blkOffset : Nat) :
    Dropped filename m (done ++ [blkOffset]) (m'.dropBlock filename blkOffset) where
  metaBlockSize := h.metaBlockSize
  files := by
    have hfiles : (m'.db.deleteDatablock blkOffset filename).files = _ :=
      Db.files_deleteDatablock.trans h.files
    rw [MetaState.dropBlock, h.metaBlockSize, Db.files_addLocalSize_add hfiles, List.length_append,
      List.length_singleton, Nat.mul_succ, Int.natCast_add, Int.neg_add]
  datablocks := by
    have hid : m'.db.fileId? filename = m.db.fileId? filename := by
      refine Db.fileId?_congr ?_ filename
      rw [h.files, Db.map_addLocalSize _ fun _ _ => rfl]
    simp only [MetaState.dropBlock, Db.addLocalSize, Db.deleteDatablock, hid]
    cases hfile : m.db.fileId? filename with
    | none => simp [h.datablocks, Db.listed, hfile]
    | some id =>
        simp only [h.datablocks, List.filter_filter]
        refine List.filter_congr fun b _ => ?_
        simp only [Db.listed, hfile, List.mem_append, List.mem_singleton, Option.some.injEq]
        by_cases hb : id = b.fileId <;> by_cases ho : b.blkStartOffset ∈ done <;>
          simp [hb, ho, eq_comm]
  used := by
    rw [MetaState.dropBlock, h.used, h.metaBlockSize, wrap64_add, List.length_append,
      List.length_singleton, Nat.mul_succ, Int.natCast_add, Int.sub_eq_add_neg, Int.sub_eq_add_neg,
      Int.neg_add, Int.add_assoc]

/-- `delete_blocks` takes the array off entry by entry; the counter wraps if it is
    smaller than what is taken off. -/
theorem traced_deleteBlocks (hA : SqlSucceeds A) (hlt : w.metadata.cacheUsedSize < 2 ^ 64)
    {blkArr : List Nat} (h : Traced (env A S) (deleteBlocks filename blkArr) w tr r w') :
    w' = { w with metadata := w'.metadata } ∧
      Dropped filename w.metadata blkArr w'.metadata ∧
      ((∃ e ∈ tr, Wraps e) ↔
        w.metadata.cacheUsedSize < w.metadata.metaBlockSize * blkArr.length) := by
  unfold deleteBlocks at h
  obtain ⟨tr₁, tr₂, _, w₁, rfl, hloop, hret⟩ := Prog.traced_bind.mp h
  obtain ⟨rfl, -, rfl⟩ := hret
  rw [List.append_nil]
  refine Prog.Traced.foldlM_invariant (I := fun done _ w₁ tr =>
    w₁ = { w with metadata := w₁.metadata } ∧ Dropped filename w.metadata done w₁.metadata ∧
      ((∃ e ∈ tr, Wraps e) ↔ w.metadata.cacheUsedSize < w.metadata.metaBlockSize * done.length))
    ⟨rfl, .nil hlt, by simp⟩ ?_ hloop
  rintro done x rest _ w₁ tr₁ _ w₂ tr₂ - ⟨hw₁, hdrop, hwraps⟩ hturn
  obtain ⟨tr₃, tr₄, _, w₃, rfl, hdel, hret⟩ := Prog.traced_bind.mp hturn
  obtain ⟨rfl, -, rfl⟩ := hret
  obtain ⟨rfl, hwrap⟩ := traced_deleteBlock hA hdel
  refine ⟨by rw [hw₁], hdrop.snoc x, ?_⟩
  simp only [List.append_nil, List.mem_append, or_and_right, exists_or, hwraps, hwrap,
    hdrop.metaBlockSize, List.length_append, List.length_singleton, Nat.mul_succ]
  constructor
  · rintro (h | h)
    · omega
    · by_contra hle
      have hused := wrap64_of_lt (x := w.metadata.cacheUsedSize -
        (w.metadata.metaBlockSize * done.length : Nat)) (by omega) (by omega)
      rw [hdrop.used] at h
      omega
  · intro h
    by_cases hle : w.metadata.cacheUsedSize < w.metadata.metaBlockSize * done.length
    · exact Or.inl hle
    · have hused := wrap64_of_lt (x := w.metadata.cacheUsedSize -
        (w.metadata.metaBlockSize * done.length : Nat)) (by omega) (by omega)
      rw [hdrop.used]
      exact Or.inr (by omega)

end DeleteBlock

-- ============================================================================
-- The rows that go
-- ============================================================================

section Removed

variable {m : MetaState} {f : FileRow} {filename : FileName} {blkArr : List Nat}

theorem Db.removed_of_not_hasFile {db : Db} (h : ¬ db.HasFile filename) :
    db.removed filename blkArr = [] := by
  rw [Db.removed, List.filter_eq_nil_iff]
  intro b _
  simp [Db.listed, Db.fileId?_eq_none_iff.mpr h]

theorem Db.WF.mem_removed {db : Db} (hwf : db.WF) (hf : f ∈ db.files) (blkArr : List Nat)
    {b : BlockRow} :
    b ∈ db.removed f.relativePath blkArr ↔
      b ∈ db.datablocks ∧ b.fileId = f.fileId ∧ b.blkStartOffset ∈ blkArr := by
  rw [Db.removed, List.mem_filter, Db.listed, hwf.fileId?_eq hf, decide_eq_true_eq,
    Option.some.injEq, eq_comm (a := f.fileId)]

/-- The rows that go have different offsets of the array. -/
theorem Db.WF.nodup_removed {db : Db} (hwf : db.WF) (hf : f ∈ db.files) (blkArr : List Nat) :
    ((db.removed f.relativePath blkArr).map (·.blkStartOffset)).Nodup := by
  have hkeys := hwf.uniqueBlock.sublist ((List.filter_sublist
    (p := db.listed f.relativePath blkArr)).map _)
  refine List.Nodup.of_map (fun o => (o, f.fileId)) ?_
  rw [List.map_map, List.map_congr_left (g := fun b => (b.blkStartOffset, b.fileId))]
  · exact hkeys
  · intro b hb
    rw [Function.comp_apply, ((hwf.mem_removed hf blkArr).mp hb).2.1]

/-- As many rows go as the array has entries when it names recorded blocks, each of them
    once. -/
theorem Db.WF.length_removed_eq_iff {db : Db} (hwf : db.WF) (filename : FileName)
    (blkArr : List Nat) :
    (db.removed filename blkArr).length = blkArr.length ↔
      blkArr.Nodup ∧ ∀ o ∈ blkArr, db.Recorded filename o := by
  by_cases hfile : db.HasFile filename
  · obtain ⟨f, hf, rfl⟩ := hfile
    have hmem : ∀ o, o ∈ (db.removed f.relativePath blkArr).map (·.blkStartOffset) ↔
        db.Recorded f.relativePath o ∧ o ∈ blkArr := by
      intro o
      rw [hwf.recorded_iff hf, List.mem_map]
      constructor
      · rintro ⟨b, hb, rfl⟩
        obtain ⟨hb, hid, ho⟩ := (hwf.mem_removed hf blkArr).mp hb
        exact ⟨⟨b, hb, hid, rfl⟩, ho⟩
      · rintro ⟨⟨b, hb, hid, rfl⟩, ho⟩
        exact ⟨b, (hwf.mem_removed hf blkArr).mpr ⟨hb, hid, ho⟩, rfl⟩
    have hsub := List.Nodup.subperm (hwf.nodup_removed hf blkArr)
      fun o ho => ((hmem o).mp ho).2
    constructor
    · intro hlen
      have hperm := hsub.perm_of_length_le (by rw [List.length_map, hlen])
      refine ⟨hperm.nodup_iff.mp (hwf.nodup_removed hf blkArr), fun o ho => ?_⟩
      exact ((hmem o).mp (hperm.mem_iff.mpr ho)).1
    · rintro ⟨hnodup, hrec⟩
      have hperm := (List.perm_ext_iff_of_nodup (hwf.nodup_removed hf blkArr) hnodup).mpr fun o =>
        (hmem o).trans (and_iff_right_of_imp (hrec o))
      rw [← hperm.length_eq, List.length_map]
  · rw [Db.removed_of_not_hasFile hfile]
    constructor
    · intro hlen
      obtain rfl := List.length_eq_zero_iff.mp hlen.symm
      exact ⟨List.nodup_nil, fun o ho => absurd ho List.not_mem_nil⟩
    · rintro ⟨-, hrec⟩
      obtain rfl := List.eq_nil_iff_forall_not_mem.mpr fun o ho => hfile (hrec o ho).hasFile
      rfl

end Removed

/-- The deletion of exactly the listed blocks: their rows go, the sizes are lowered by
    what they stood for, and nothing else changes. -/
structure RemovesListed (filename : FileName) (blkArr : List Nat) (m m' : MetaState) : Prop where
  datablocks : m'.db.datablocks = m.db.datablocks.filter (!m.db.listed filename blkArr ·)
  files : m'.db.files = (m.db.addLocalSize
    (-(m.metaBlockSize * (m.db.removed filename blkArr).length : Nat)) filename).files
  used : (m'.cacheUsedSize : Int) =
    m.cacheUsedSize - (m.metaBlockSize * (m.db.removed filename blkArr).length : Nat)
  nonneg : ∀ f ∈ m'.db.files, 0 ≤ f.localSize
  metaBlockSize : m'.metaBlockSize = m.metaBlockSize

namespace SizesAgree

variable {m : MetaState} {filename : FileName} {blkArr : List Nat}

/-- What the rows of an array stand for is in the sizes of their file. -/
theorem removed_le (h : SizesAgree m) {f : FileRow} (hf : f ∈ m.db.files) (blkArr : List Nat) :
    ((m.metaBlockSize * (m.db.removed f.relativePath blkArr).length : Nat) : Int) ≤
      f.localSize := by
  rw [h.localSize f hf, ← Int.natCast_mul, Int.ofNat_le, Db.removed, ← List.countP_eq_length_filter]
  refine Nat.mul_le_mul_left _ (List.countP_mono_left fun b hb hl => ?_)
  have hmem := (h.wf.mem_removed hf blkArr).mp (List.mem_filter.mpr ⟨hb, hl⟩)
  exact decide_eq_true hmem.2.1

theorem balanced (h : SizesAgree m) : Balanced m where
  wf := h.wf
  used := h.used
  nonneg f hf := by
    rw [h.localSize f hf]
    exact Int.natCast_nonneg _

/-- Where each entry has a row to remove, the rows and the sizes go together. -/
theorem removesListed (h : SizesAgree m) (hlt : m.cacheUsedSize < 2 ^ 64) {m' : MetaState}
    (hd : Dropped filename m blkArr m')
    (hlen : m.metaBlockSize * (m.db.removed filename blkArr).length =
      m.metaBlockSize * blkArr.length) :
    RemovesListed filename blkArr m m' ∧ m.metaBlockSize * blkArr.length ≤ m.cacheUsedSize := by
  have hle : m.metaBlockSize * blkArr.length ≤ m.cacheUsedSize := by
    rw [← hlen]
    by_cases hfile : m.db.HasFile filename
    · obtain ⟨f, hf, rfl⟩ := hfile
      have hrem := h.removed_le hf blkArr
      have hused := h.balanced.localSize_le hf
      omega
    · rw [Db.removed_of_not_hasFile hfile]
      exact Nat.zero_le _
  refine ⟨⟨hd.datablocks, by rw [hd.files, hlen], ?_, fun f' hf' => ?_, hd.metaBlockSize⟩, hle⟩
  · rw [hd.used, hlen]
    exact wrap64_of_lt (by omega) (by omega)
  · rw [hd.files] at hf'
    obtain ⟨f, hf, rfl⟩ := Db.mem_addLocalSize.mp hf'
    dsimp only
    split
    · next hp =>
        have hrem := h.removed_le hf blkArr
        rw [hp] at hrem
        omega
    · exact h.balanced.nonneg f hf

end SizesAgree

-- ============================================================================
-- insert_blocks
-- ============================================================================

theorem MetaState.usedAfter_eq {m : MetaState} (hlt : m.cacheUsedSize < 2 ^ 64) (k : Nat) :
    m.usedAfter k = wrap64 (m.cacheUsedSize + (k * m.metaBlockSize : Nat)) := by
  induction k with
  | zero =>
      rw [MetaState.usedAfter, Function.iterate_zero, id, Nat.zero_mul, Int.natCast_zero,
        Int.add_zero, wrap64_of_nat hlt]
  | succ k ih =>
      rw [MetaState.usedAfter, Function.iterate_succ_apply', ← MetaState.usedAfter, ih, wrap64_add,
        Nat.succ_mul, Int.natCast_add, Int.add_assoc]

section InsertBlocks

variable {A : Choice → Call → World → Prop} {S : Prop} {w : World} {f : FileRow}
variable {blkArr : List Nat}

/-- `insert_blocks` of blocks that are not recorded enters what `write_blks` enters. -/
theorem wp_insertBlocks_written (hA : SqlSucceeds A) (hwf : w.db.WF) (hf : f ∈ w.db.files)
    (hnew : ∀ o ∈ blkArr, ¬ w.db.Recorded f.relativePath o) {Q : Int → World → Prop}
    (hQ : ∀ time news m', Written (Clock A) w.metadata f blkArr time news m' →
      Q 0 { w with metadata := m' }) :
    Prog.wp (env A S) (insertBlocks f.relativePath blkArr) Q w := by
  unfold insertBlocks
  rw [Prog.wp_bind]
  refine Prog.wp_mono (Prog.wp_foldlM (I := fun done _ w' => ∃ time news m',
    w' = { w with metadata := m' } ∧ Written (Clock A) w.metadata f done time news m')
    ⟨fun _ => 0, [], _, rfl, .refl _ _ _ _⟩ ?_) ?_
  · rintro done x rest _ w' hx ⟨time, news, m₁, rfl, hpart⟩
    rw [Prog.wp_bind]
    refine wp_insertBlock hA (fun hnone => ?_) fun now hnow db hi => ?_
    · exact ⟨_, _, _, rfl, hpart.refuse hwf hf (hnew x (by simp [hx])) (hnone 0)⟩
    · obtain ⟨b, hb⟩ := hpart.insert hwf hf hnow hi
      exact ⟨_, _, _, rfl, hb⟩
  · rintro _ w' ⟨time, news, m', rfl, hpart⟩
    exact hQ _ _ _ hpart

end InsertBlocks

section Restored

variable {T : Int → Prop} {m m₁ m₂ : MetaState} {f : FileRow} {blkArr : List Nat}
variable {time : Nat → Int} {news : List BlockRow}

/-- As many rows come as the array has entries when no entry occurs twice. -/
theorem Written.length_news_eq_iff (h : Written T m f blkArr time news m₁) (hwf : m.db.WF)
    (hnew : ∀ o ∈ blkArr, ¬ m.db.Recorded f.relativePath o) :
    news.length = blkArr.length ↔ blkArr.Nodup := by
  have hmissing : m.db.missing f.relativePath blkArr.dedup = blkArr.dedup := by
    refine List.filter_eq_self.mpr fun o ho => ?_
    rw [Bool.not_eq_true', ← Bool.not_eq_true, hwf.selectBlockId_iff]
    exact hnew o (List.mem_dedup.mp ho)
  rw [h.length_news hwf, hmissing, (List.dedup_sublist blkArr).length_eq, List.dedup_eq_self]

/-- The deletion takes the new rows away and no other row. -/
theorem Written.filter_listed (h : Written T m f blkArr time news m₁) (hwf : m.db.WF)
    (hf : f ∈ m.db.files) (hnew : ∀ o ∈ blkArr, ¬ m.db.Recorded f.relativePath o) :
    m₁.db.datablocks.filter (!m₁.db.listed f.relativePath blkArr ·) = m.db.datablocks := by
  obtain ⟨f₁, hf₁, hp, hid⟩ := h.file_mem hf
  have hfile : m₁.db.fileId? f.relativePath = some f.fileId := by
    rw [← hp, (AddSteps.wf h.steps hwf).fileId?_eq hf₁, hid]
  have hold : ∀ b ∈ m.db.datablocks, ¬(b.fileId = f.fileId ∧ b.blkStartOffset ∈ blkArr) :=
    fun b hb hbo => hnew _ hbo.2 ((hwf.recorded_iff hf).mpr ⟨b, hb, hbo.1, rfl⟩)
  have hsame : m.db.datablocks.map (BlockRow.restamp f.fileId blkArr time) = m.db.datablocks := by
    rw [List.map_congr_left (g := id), List.map_id]
    exact fun b hb => if_neg (hold b hb)
  rw [h.datablocks, hsame, List.filter_append, List.filter_eq_self.mpr, List.filter_eq_nil_iff.mpr,
    List.append_nil]
  · intro b hb
    have ho := ((h.mem_news _).mp (List.mem_map_of_mem hb)).1
    simp [Db.listed, hfile, (h.new b hb).1, ho]
  · intro b hb
    have hb := hold b hb
    simp only [Db.listed, hfile, Option.some.injEq, Bool.not_eq_true', decide_eq_false_iff_not]
    exact fun h => hb ⟨h.1.symm, h.2⟩

/-- An insertion followed by the deletion of the same array: the sizes are off by the
    entries for which no row has come. -/
theorem Written.dropped (h : Written T m f blkArr time news m₁) (hwf : m.db.WF)
    (hf : f ∈ m.db.files) (hlt : m.cacheUsedSize < 2 ^ 64)
    (hnew : ∀ o ∈ blkArr, ¬ m.db.Recorded f.relativePath o)
    (hd : Dropped f.relativePath m₁ blkArr m₂) :
    m₂ = { m with
      db := m.db.addLocalSize ((news.length * m.metaBlockSize : Nat) +
        -(m.metaBlockSize * blkArr.length : Nat)) f.relativePath
      cacheUsedSize := wrap64 (m.cacheUsedSize + ((news.length * m.metaBlockSize : Nat) +
        -(m.metaBlockSize * blkArr.length : Nat))) } := by
  obtain ⟨⟨files, datablocks⟩, used, blockSize⟩ := m₂
  have hbs := AddSteps.metaBlockSize h.steps
  have hfiles := hd.files
  have hused := hd.used
  rw [hbs] at hfiles hused
  rw [Db.files_addLocalSize_add h.files] at hfiles
  rw [h.used, MetaState.usedAfter_eq hlt, Int.sub_eq_add_neg, wrap64_add, Int.add_assoc] at hused
  obtain rfl := hfiles
  obtain rfl := hused
  obtain rfl := hd.metaBlockSize.trans hbs
  obtain rfl := hd.datablocks.trans (h.filter_listed hwf hf hnew)
  rfl

/-- The metadata is back when nothing is off. -/
theorem Written.restored_iff (h : Written T m f blkArr time news m₁) (hwf : m.db.WF)
    (hf : f ∈ m.db.files) (hlt : m.cacheUsedSize < 2 ^ 64)
    (hnew : ∀ o ∈ blkArr, ¬ m.db.Recorded f.relativePath o)
    (hd : Dropped f.relativePath m₁ blkArr m₂) :
    m₂ = m ↔ m.metaBlockSize = 0 ∨ blkArr.Nodup := by
  have hm₂ := h.dropped hwf hf hlt hnew hd
  rw [← h.length_news_eq_iff hwf hnew]
  constructor
  · intro heq
    rw [hm₂] at heq
    have hfiles := congrArg (·.db.files) heq
    have hid : m.db.files.map id = m.db.files := List.map_id _
    have hrow := List.map_inj_left.mp (hfiles.trans hid.symm) f hf
    have hsize := congrArg FileRow.localSize hrow
    simp only [if_true, id] at hsize
    have hoff : m.metaBlockSize * news.length = m.metaBlockSize * blkArr.length := by
      rw [Nat.mul_comm m.metaBlockSize news.length]
      omega
    exact (Nat.eq_zero_or_pos m.metaBlockSize).imp_right (Nat.eq_of_mul_eq_mul_left · hoff)
  · intro hor
    have hoff : news.length * m.metaBlockSize = m.metaBlockSize * blkArr.length := by
      rcases hor with hz | hlen
      · rw [hz, Nat.mul_zero, Nat.zero_mul]
      · rw [hlen, Nat.mul_comm]
    rw [hm₂, hoff, Int.add_right_neg, Db.addLocalSize_zero, Int.add_zero,
      wrap64_of_nat (by omega)]

end Restored

/-- While the sizes stay in the range of a SQLite integer, `delete_blocks` deletes exactly
    the listed blocks, without a wrap, if no block stands for anything or every entry of the
    array names a recorded block of its own; and it undoes an insertion of new blocks if
    none occurs twice. -/
theorem deleteBlocks_mirrors_iff {w : World} {filename : FileName} {blkArr : List Nat}
    (hsizes : SizesAgree w.metadata)
    (hroom : w.metadata.cacheUsedSize + w.metadata.metaBlockSize * blkArr.length < 2 ^ 63) :
    (∀ tr r w', Traced (env constraintsOnly False) (deleteBlocks filename blkArr) w tr r w' →
      ((RemovesListed filename blkArr w.metadata w'.metadata ∧ ¬ ∃ e ∈ tr, Wraps e) ↔
        w.metadata.metaBlockSize = 0 ∨
          blkArr.Nodup ∧ ∀ o ∈ blkArr, w.db.Recorded filename o)) ∧
    (w.db.HasFile filename → (∀ o ∈ blkArr, ¬ w.db.Recorded filename o) → ∀ r₁ w₁ r w',
      Exec (env constraintsOnly False) (insertBlocks filename blkArr) w r₁ w₁ →
      Exec (env constraintsOnly False) (deleteBlocks filename blkArr) w₁ r w' →
      (w'.metadata = w.metadata ↔ w.metadata.metaBlockSize = 0 ∨ blkArr.Nodup)) := by
  have hlt : w.metadata.cacheUsedSize < 2 ^ 64 := by omega
  refine ⟨fun tr r w' h => ?_, ?_⟩
  · obtain ⟨-, hd, hwraps⟩ := traced_deleteBlocks sqlSucceeds_constraintsOnly hlt h
    have hfull := hsizes.wf.length_removed_eq_iff filename blkArr
    rw [hwraps, World.db, ← hfull]
    constructor
    · rintro ⟨hrem, hno⟩
      have hused := hd.used
      have hexact := wrap64_of_lt (x := w.metadata.cacheUsedSize -
        (w.metadata.metaBlockSize * blkArr.length : Nat)) (by omega) (by omega)
      have hoff : w.metadata.metaBlockSize * (w.metadata.db.removed filename blkArr).length =
          w.metadata.metaBlockSize * blkArr.length := by
        have hremoved := hrem.used
        rw [hused, hexact] at hremoved
        omega
      exact (Nat.eq_zero_or_pos w.metadata.metaBlockSize).imp_right
        (Nat.eq_of_mul_eq_mul_left · hoff)
    · intro hor
      have hlen : w.metadata.metaBlockSize * (w.metadata.db.removed filename blkArr).length =
          w.metadata.metaBlockSize * blkArr.length := by
        rcases hor with hz | hlen
        · rw [hz, Nat.zero_mul, Nat.zero_mul]
        · rw [hlen]
      obtain ⟨hrem, hle⟩ := hsizes.removesListed hlt hd hlen
      exact ⟨hrem, by omega⟩
  · rintro ⟨f, hf, rfl⟩ hnew r₁ w₁ r w' hins hdel
    have hpost := Prog.wp_exec (Q := fun _ w₁ => ∃ time news,
      Written (Clock constraintsOnly) w.metadata f blkArr time news w₁.metadata)
      (wp_insertBlocks_written sqlSucceeds_constraintsOnly hsizes.wf hf hnew
        fun time news m' hpart => ⟨time, news, hpart⟩) hins
    obtain ⟨time, news, hpart⟩ := hpost
    obtain ⟨tr, hdel⟩ := Prog.exec_traced hdel
    have hlt₁ : w₁.metadata.cacheUsedSize < 2 ^ 64 := by
      rw [hpart.used, MetaState.usedAfter_eq hlt, wrap64]
      omega
    obtain ⟨-, hd, -⟩ := traced_deleteBlocks sqlSucceeds_constraintsOnly hlt₁ hdel
    exact hpart.restored_iff hsizes.wf hf hlt hnew hd

theorem sizesAgree_sampleRows : SizesAgree sampleRows.metadata where
  wf := sampleRows_wf
  used := rfl
  localSize f hf := by
    rw [List.mem_singleton.mp hf]
    rfl

/-- The recorded block is deleted; two new blocks come and go. -/
theorem deleteBlocks_mirrors_sample :
    (∃ (tr : List (Event Call World Choice)) (w' : World),
      RemovesListed ['/', 'a'] [0] sampleRows.metadata w'.metadata ∧ ¬ ∃ e ∈ tr, Wraps e) ∧
    ∃ w₁ w₂ : World, w₁.metadata.cacheUsedSize = 12 ∧ w₂.metadata = sampleRows.metadata := by
  have exec {p : CfsM Int} {w w' : World} {r : Int}
      (hr : Prog.runAllowed (env constraintsOnly False) (fun _ => {}) p w = some (r, w')) :
      Exec (env constraintsOnly False) p w r w' :=
    Prog.exec_of_runAllowed _ hr
  have hdel : Prog.runTraced (env constraintsOnly False) (fun _ => {})
      (deleteBlocks ['/', 'a'] [0]) sampleRows = some (_, 0, _) := rfl
  obtain ⟨w₁, hins, hused, w₂, hback⟩ : ∃ w₁, Exec (env constraintsOnly False)
      (insertBlocks ['/', 'a'] [4, 8]) sampleRows 0 w₁ ∧ w₁.metadata.cacheUsedSize = 12 ∧
      ∃ w₂, Exec (env constraintsOnly False) (deleteBlocks ['/', 'a'] [4, 8]) w₁ 0 w₂ :=
    ⟨_, exec rfl, rfl, _, exec rfl⟩
  have hrec : sampleRows.db.Recorded ['/', 'a'] 0 := sampleRows_wf.selectBlockId_iff.mp rfl
  have hnew : ∀ o ∈ [4, 8], ¬ sampleRows.db.Recorded ['/', 'a'] o := by
    simp only [← sampleRows_wf.selectBlockId_iff]
    decide
  refine ⟨⟨_, _, ((deleteBlocks_mirrors_iff sizesAgree_sampleRows (by decide)).1 _ _ _
    (Prog.traced_of_runTraced hdel)).mpr (Or.inr ⟨by decide, fun o ho => ?_⟩)⟩, w₁, w₂, hused,
    ((deleteBlocks_mirrors_iff sizesAgree_sampleRows (by decide)).2 (by decide) hnew _ _ _ _
      hins hback).mpr (Or.inr (by decide))⟩
  rwa [List.mem_singleton.mp ho]

/-- A block that is listed twice is taken off twice: the counter wraps below zero. -/
theorem deleteBlocks_twice : ∃ (tr : List (Event Call World Choice)) (w' : World),
    SizesAgree sampleRows.metadata ∧
    Traced (env constraintsOnly False) (deleteBlocks ['/', 'a'] [0, 0]) sampleRows tr 0 w' ∧
    w'.metadata.cacheUsedSize = 2 ^ 64 - 4 ∧ w'.db.localSize? ['/', 'a'] = some (-4) ∧
    (∃ e ∈ tr, Wraps e) ∧ ¬ RemovesListed ['/', 'a'] [0, 0] sampleRows.metadata w'.metadata := by
  have hdel : Prog.runTraced (env constraintsOnly False) (fun _ => {})
      (deleteBlocks ['/', 'a'] [0, 0]) sampleRows = some (_, 0, _) := rfl
  have htr := Prog.traced_of_runTraced hdel
  refine ⟨_, _, sizesAgree_sampleRows, htr, rfl, rfl, ?_, fun h => ?_⟩
  · exact (traced_deleteBlocks sqlSucceeds_constraintsOnly (by decide) htr).2.2.mpr (by decide)
  · exact absurd (h.nonneg _ List.mem_cons_self) (by decide)

end CacheFs
