/-
  CacheFs.Meta.Exact

  What `write_blks` leaves behind, to the row.

  The presence check of the whole array comes before the first insertion, so a
  repeated offset that is not recorded is inserted again, refused by the schema, and
  left as it is.  `Written` describes the rows after a part of the array: the old rows
  in their places, those of the array with a new timestamp, and one new row for each
  offset that had none.  It depends on the array through its members only.
-/

import CacheFs.Meta.Account

namespace CacheFs

open CacheFs.Effect
open CacheFs.Effect.Prog (Exec)

/-- Statements fail only for a constraint of the schema, at times in `T`. -/
def constraintsAt (T : Int → Prop) (c : Choice) (op : Call) (w : World) : Prop :=
  constraintsOnly c op w ∧ T c.now

instance (T : Int → Prop) [DecidablePred T] (c : Choice) (op : Call) (w : World) :
    Decidable (constraintsAt T c op w) :=
  inferInstanceAs (Decidable (_ ∧ _))

theorem sqlSucceeds_constraintsAt (T : Int → Prop) : SqlSucceeds (constraintsAt T) :=
  fun _ _ _ h => h.1

theorem clock_constraintsAt {T : Int → Prop} {now : Int} (h : Clock (constraintsAt T) now) :
    T now := by
  obtain ⟨c, op, w, ⟨-, hT⟩, rfl⟩ := h
  exact hT

-- ============================================================================
-- Rows
-- ============================================================================

/-- The row after the blocks of `blkArr` of a file got new timestamps. -/
def BlockRow.restamp (fileId : Nat) (blkArr : List Nat) (time : Nat → Int) (b : BlockRow) :
    BlockRow :=
  if b.fileId = fileId ∧ b.blkStartOffset ∈ blkArr then
    { b with timestamp := time b.blkStartOffset }
  else b

/-- The row up to its id. -/
def BlockRow.withoutId (b : BlockRow) : BlockRow := { b with blockId := 0 }

namespace BlockRow

variable {fileId : Nat} {blkArr blkArr' : List Nat} {time time' : Nat → Int} {b : BlockRow}

@[simp] theorem restamp_blockId : (b.restamp fileId blkArr time).blockId = b.blockId := by
  unfold restamp
  split <;> rfl

@[simp] theorem restamp_fileId : (b.restamp fileId blkArr time).fileId = b.fileId := by
  unfold restamp
  split <;> rfl

@[simp] theorem restamp_blkStartOffset :
    (b.restamp fileId blkArr time).blkStartOffset = b.blkStartOffset := by
  unfold restamp
  split <;> rfl

@[simp] theorem restamp_nil : b.restamp fileId [] time = b := by
  simp [restamp]

/-- Only the members of the array and their times matter. -/
theorem restamp_congr (hmem : ∀ o, o ∈ blkArr ↔ o ∈ blkArr')
    (htime : ∀ o ∈ blkArr, time o = time' o) :
    b.restamp fileId blkArr time = b.restamp fileId blkArr' time' := by
  simp only [restamp, ← hmem]
  split
  · next h => rw [htime _ h.2]
  · rfl

/-- Rows of other blocks do not notice one more offset. -/
theorem restamp_append_of_ne {blkOffset : Nat} {now : Int}
    (h : ¬(b.blkStartOffset = blkOffset ∧ b.fileId = fileId)) :
    b.restamp fileId (blkArr ++ [blkOffset]) (Function.update time blkOffset now) =
      b.restamp fileId blkArr time := by
  simp only [restamp, List.mem_append, List.mem_singleton]
  by_cases hid : b.fileId = fileId
  · have hne : b.blkStartOffset ≠ blkOffset := fun ho => h ⟨ho, hid⟩
    simp [hne]
  · simp [hid]

/-- One more offset stamps its own row. -/
theorem restamp_append_self {blkOffset : Nat} {now : Int} (ho : b.blkStartOffset = blkOffset)
    (hid : b.fileId = fileId) :
    b.restamp fileId (blkArr ++ [blkOffset]) (Function.update time blkOffset now) =
      { b with timestamp := now } := by
  subst ho hid
  simp [restamp]

end BlockRow

namespace Db

variable {db : Db} {filename : FileName} {f : FileRow} {blkOffset : Nat} {now : Int}

/-- Two updates of one row are one. -/
theorem files_addLocalSize_add {db' : Db} {a : Int}
    (h : db'.files = (db.addLocalSize a filename).files) (b : Int) :
    (db'.addLocalSize b filename).files = (db.addLocalSize (a + b) filename).files := by
  simp only [addLocalSize] at h ⊢
  rw [h, List.map_map]
  refine List.map_congr_left fun f _ => ?_
  simp only [Function.comp_apply]
  by_cases hp : f.relativePath = filename
  · simp [hp, Int.add_assoc]
  · simp [hp]

theorem addLocalSize_zero : db.addLocalSize 0 filename = db := by
  have hmap : db.files.map (fun f =>
      if f.relativePath = filename then { f with localSize := f.localSize + 0 } else f) =
        db.files := by
    rw [List.map_congr_left (g := id), List.map_id]
    intro f _
    split <;> simp
  rw [addLocalSize, hmap]

/-- A block of a file is recorded if the row with the file's id has its offset. -/
theorem WF.recorded_iff (h : db.WF) (hf : f ∈ db.files) :
    db.Recorded f.relativePath blkOffset ↔
      ∃ b ∈ db.datablocks, b.fileId = f.fileId ∧ b.blkStartOffset = blkOffset := by
  constructor
  · rintro ⟨g, hg, hp, hb⟩
    rwa [h.eq_of_path hg hf hp] at hb
  · exact fun hb => ⟨f, hf, rfl, hb⟩

theorem WF.touchDatablock_eq (h : db.WF) (hf : f ∈ db.files) (blkOffset : Nat) (now : Int) :
    db.touchDatablock blkOffset f.relativePath now =
      { db with datablocks := db.datablocks.map (fun b =>
          if b.blkStartOffset = blkOffset ∧ b.fileId = f.fileId then { b with timestamp := now }
          else b) } := by
  rw [Db.touchDatablock, h.fileId?_eq hf]

theorem fileId?_congr {db db' : Db} (h : db'.files.map (fun f => (f.relativePath, f.fileId)) =
    db.files.map fun f => (f.relativePath, f.fileId)) (filename : FileName) :
    db'.fileId? filename = db.fileId? filename := by
  have key : ∀ fs : List FileRow, (fs.find? (·.relativePath = filename)).map (·.fileId) =
      ((fs.map fun f => (f.relativePath, f.fileId)).find? (·.1 = filename)).map (·.2) := by
    intro fs
    rw [List.find?_map, Option.map_map]
    rfl
  rw [fileId?, key, h, ← key, fileId?]

/-- Whether the row is that of a block of the array. -/
def listed (db : Db) (filename : FileName) (blkArr : List Nat) (b : BlockRow) : Bool :=
  db.fileId? filename = some b.fileId ∧ b.blkStartOffset ∈ blkArr

theorem WF.listed_iff (h : db.WF) (hf : f ∈ db.files) {blkArr : List Nat} {b : BlockRow} :
    db.listed f.relativePath blkArr b = true ↔ b.fileId = f.fileId ∧ b.blkStartOffset ∈ blkArr := by
  rw [listed, h.fileId?_eq hf, decide_eq_true_iff, Option.some.injEq, eq_comm]

theorem listed_append {blkArr blkArr' : List Nat} {b : BlockRow} :
    db.listed filename (blkArr ++ blkArr') b =
      (db.listed filename blkArr b || db.listed filename blkArr' b) := by
  rw [Bool.eq_iff_iff, Bool.or_eq_true]
  simp only [listed, decide_eq_true_iff, List.mem_append]
  tauto

end Db

/-- Only the rows of the array have changed, and they have times in `T`. -/
structure Stamped (T : Int → Prop) (filename : FileName) (blkArr : List Nat)
    (m m' : MetaState) : Prop where
  fileId : ∀ n, m'.db.fileId? n = m.db.fileId? n
  kept : m'.db.datablocks.filter (!m.db.listed filename blkArr ·) =
    m.db.datablocks.filter (!m.db.listed filename blkArr ·)
  time : ∀ b ∈ m'.db.datablocks, m.db.listed filename blkArr b = true → T b.timestamp

namespace Stamped

variable {T : Int → Prop} {filename : FileName} {blkArr blkArr' : List Nat}
variable {m m₁ m₂ : MetaState}

theorem refl (T : Int → Prop) (filename : FileName) (m : MetaState) :
    Stamped T filename [] m m where
  fileId _ := rfl
  kept := rfl
  time b _ hb := by simp [Db.listed] at hb

theorem listed_eq (h : Stamped T filename blkArr m m₁) (n : FileName) (blkArr' : List Nat) :
    m₁.db.listed n blkArr' = m.db.listed n blkArr' := by
  unfold Db.listed
  rw [h.fileId]

/-- A row of another block is there after as before. -/
theorem mem_iff (h : Stamped T filename blkArr m m₁) {b : BlockRow}
    (hb : m.db.listed filename blkArr b = false) :
    b ∈ m₁.db.datablocks ↔ b ∈ m.db.datablocks := by
  have hmem : ∀ {bs : List BlockRow}, b ∈ bs ↔
      b ∈ bs.filter (!m.db.listed filename blkArr ·) := by
    intro bs
    rw [List.mem_filter, hb]
    exact (and_iff_left rfl).symm
  rw [hmem, h.kept, ← hmem]

theorem trans (h₁ : Stamped T filename blkArr m m₁) (h₂ : Stamped T filename blkArr' m₁ m₂) :
    Stamped T filename (blkArr ++ blkArr') m m₂ where
  fileId n := (h₂.fileId n).trans (h₁.fileId n)
  kept := by
    have hsplit : ∀ bs : List BlockRow,
        bs.filter (!m.db.listed filename (blkArr ++ blkArr') ·) =
          (bs.filter (!m.db.listed filename blkArr' ·)).filter
            (!m.db.listed filename blkArr ·) := by
      intro bs
      rw [List.filter_filter]
      refine List.filter_congr fun b _ => ?_
      rw [Db.listed_append, Bool.not_or]
    have hcomm : ∀ bs : List BlockRow,
        (bs.filter (!m.db.listed filename blkArr' ·)).filter (!m.db.listed filename blkArr ·) =
          (bs.filter (!m.db.listed filename blkArr ·)).filter
            (!m.db.listed filename blkArr' ·) := by
      intro bs
      rw [List.filter_filter, List.filter_filter]
      exact List.filter_congr fun b _ => Bool.and_comm _ _
    have hkept := h₂.kept
    simp only [h₁.listed_eq] at hkept
    rw [hsplit, hsplit, hkept, hcomm, hcomm m.db.datablocks, h₁.kept]
  time b hb hl := by
    by_cases hin : m.db.listed filename blkArr' b = true
    · exact h₂.time b hb (by rwa [h₁.listed_eq])
    · rw [Db.listed_append, Bool.or_eq_true] at hl
      have hb₁ := (h₂.mem_iff (by rw [h₁.listed_eq]; exact Bool.not_eq_true _ ▸ hin)).mp hb
      exact h₁.time b hb₁ (hl.resolve_right hin)

end Stamped

-- ============================================================================
-- A part of the array
-- ============================================================================

/-- The rows after the offsets `done` of the file in row `f`: `time` is when an offset
    got its timestamp, `news` are the new rows. -/
structure Written (T : Int → Prop) (m : MetaState) (f : FileRow) (done : List Nat)
    (time : Nat → Int) (news : List BlockRow) (m' : MetaState) : Prop where
  steps : AddSteps m m'
  inTime : ∀ o ∈ done, T (time o)
  files : m'.db.files =
    (m.db.addLocalSize (news.length * m.metaBlockSize : Nat) f.relativePath).files
  datablocks : m'.db.datablocks =
    m.db.datablocks.map (BlockRow.restamp f.fileId done time) ++ news
  used : m'.cacheUsedSize = m.usedAfter news.length
  new : ∀ b ∈ news, b.fileId = f.fileId ∧ b.timestamp = time b.blkStartOffset
  nodup : (news.map (·.blkStartOffset)).Nodup
  mem_news : ∀ o, o ∈ news.map (·.blkStartOffset) ↔
    o ∈ done ∧ ¬ m.db.Recorded f.relativePath o

namespace Written

variable {T : Int → Prop} {m m₁ : MetaState} {f : FileRow} {done : List Nat}
variable {time : Nat → Int} {news : List BlockRow} {blkOffset : Nat} {now : Int}

theorem refl (T : Int → Prop) (m : MetaState) (f : FileRow) (time : Nat → Int) :
    Written T m f [] time [] m where
  steps := .refl
  inTime _ h := absurd h List.not_mem_nil
  files := by simp [Db.addLocalSize_zero]
  datablocks := by
    rw [List.append_nil, List.map_congr_left (g := id), List.map_id]
    exact fun _ _ => BlockRow.restamp_nil
  used := rfl
  new _ h := absurd h List.not_mem_nil
  nodup := List.nodup_nil
  mem_news _ := by simp

/-- The array matters through its members. -/
theorem congr (h : Written T m f done time news m₁) {done' : List Nat}
    (hmem : ∀ o, o ∈ done ↔ o ∈ done') : Written T m f done' time news m₁ where
  steps := h.steps
  inTime o ho := h.inTime o ((hmem o).mpr ho)
  files := h.files
  datablocks := by
    rw [h.datablocks, List.map_congr_left]
    exact fun b _ => BlockRow.restamp_congr hmem fun _ _ => rfl
  used := h.used
  new := h.new
  nodup := h.nodup
  mem_news o := by rw [h.mem_news, hmem]

/-- The row of the file, with its new size. -/
theorem file_mem (h : Written T m f done time news m₁) (hf : f ∈ m.db.files) :
    ∃ f₁ ∈ m₁.db.files, f₁.relativePath = f.relativePath ∧ f₁.fileId = f.fileId := by
  rw [h.files]
  exact ⟨_, Db.mem_addLocalSize.mpr ⟨f, hf, rfl⟩, rfl, rfl⟩

theorem recorded_iff (h : Written T m f done time news m₁) (hwf : m.db.WF) (hf : f ∈ m.db.files)
    (o : Nat) : m₁.db.Recorded f.relativePath o ↔ m.db.Recorded f.relativePath o ∨ o ∈ done := by
  obtain ⟨f₁, hf₁, hp, hid⟩ := h.file_mem hf
  have hmap : (∃ b ∈ m.db.datablocks.map (BlockRow.restamp f.fileId done time),
      b.fileId = f.fileId ∧ b.blkStartOffset = o) ↔ m.db.Recorded f.relativePath o := by
    rw [hwf.recorded_iff hf]
    simp
  have hnew : (∃ b ∈ news, b.fileId = f.fileId ∧ b.blkStartOffset = o) ↔
      o ∈ news.map (·.blkStartOffset) := by
    rw [List.mem_map]
    exact exists_congr fun b => and_congr_right fun hb => and_iff_right (h.new b hb).1
  rw [← hp, (AddSteps.wf h.steps hwf).recorded_iff hf₁, hid, h.datablocks, hp]
  simp only [List.mem_append, or_and_right, exists_or, hmap, hnew, h.mem_news]
  tauto

/-- A block that was recorded from the start gets a new timestamp. -/
theorem touch (h : Written T m f done time news m₁) (hwf : m.db.WF) (hf : f ∈ m.db.files)
    (hrec : m.db.Recorded f.relativePath blkOffset) (hnow : T now) :
    Written T m f (done ++ [blkOffset]) (Function.update time blkOffset now) news
      { m₁ with db := m₁.db.touchDatablock blkOffset f.relativePath now } := by
  obtain ⟨f₁, hf₁, hp, hid⟩ := h.file_mem hf
  have hold : ∀ b ∈ news, b.blkStartOffset ≠ blkOffset := fun b hb ho =>
    ((h.mem_news _).mp (List.mem_map_of_mem hb)).2 (ho ▸ hrec)
  have htouch := (AddSteps.wf h.steps hwf).touchDatablock_eq hf₁ blkOffset now
  rw [hp, hid] at htouch
  refine ⟨h.steps.tail (.touchBlock _ _ _), fun o ho => ?_, ?_, ?_, h.used, fun b hb => ?_,
    h.nodup, fun o => ?_⟩
  · by_cases ho' : o = blkOffset
    · rw [ho', Function.update_self]
      exact hnow
    · rw [Function.update_of_ne ho']
      exact h.inTime o (by simpa [ho'] using ho)
  · rw [Db.files_touchDatablock, h.files]
  · rw [htouch]
    simp only [h.datablocks, List.map_append, List.map_map]
    congr 1
    · refine List.map_congr_left fun b _ => ?_
      simp only [Function.comp_apply, BlockRow.restamp_blockId, BlockRow.restamp_blkStartOffset,
        BlockRow.restamp_fileId]
      split
      · next hb => rw [BlockRow.restamp_append_self hb.1 hb.2]
      · next hb => rw [BlockRow.restamp_append_of_ne hb]
    · rw [List.map_congr_left (g := id), List.map_id]
      exact fun b hb => if_neg fun hbo => hold b hb hbo.1
  · rw [Function.update_of_ne (hold b hb)]
    exact h.new b hb
  · rw [h.mem_news, List.mem_append, List.mem_singleton]
    constructor
    · exact fun ho => ⟨Or.inl ho.1, ho.2⟩
    · rintro ⟨ho | rfl, hn⟩
      · exact ⟨ho, hn⟩
      · exact absurd hrec hn

/-- A refused insertion: the offset has come up before. -/
theorem refuse (h : Written T m f done time news m₁) (hwf : m.db.WF) (hf : f ∈ m.db.files)
    (hnew : ¬ m.db.Recorded f.relativePath blkOffset)
    (hnone : m₁.db.insertDatablock blkOffset f.relativePath 0 = none) :
    Written T m f (done ++ [blkOffset]) time news m₁ := by
  obtain ⟨f₁, hf₁, hp, -⟩ := h.file_mem hf
  have hold := (AddSteps.wf h.steps hwf).insertDatablock_eq_none_iff.mp hnone
  rw [h.recorded_iff hwf hf] at hold
  have hdone : blkOffset ∈ done :=
    (hold.resolve_left (not_not_intro ⟨f₁, hf₁, hp⟩)).resolve_left hnew
  refine h.congr fun o => ?_
  rw [List.mem_append, List.mem_singleton]
  exact ⟨Or.inl, fun ho => ho.elim id fun heq => heq ▸ hdone⟩

/-- An insertion that succeeds. -/
theorem insert (h : Written T m f done time news m₁) (hwf : m.db.WF) (hf : f ∈ m.db.files)
    (hnow : T now) {db : Db}
    (hi : m₁.db.insertDatablock blkOffset f.relativePath now = some db) :
    ∃ b, Written T m f (done ++ [blkOffset]) (Function.update time blkOffset now) (news ++ [b])
      (m₁.grow db f.relativePath) := by
  have hwf₁ := AddSteps.wf h.steps hwf
  obtain ⟨f₁, hf₁, hp, hid⟩ := h.file_mem hf
  obtain ⟨g, hg, hgp, hfree, rfl⟩ := Db.insertDatablock_eq_some hi
  obtain rfl := hwf₁.eq_of_path hg hf₁ (hgp.trans hp.symm)
  rw [hid] at hfree
  have hfree' : ∀ b ∈ m.db.datablocks, ¬(b.blkStartOffset = blkOffset ∧ b.fileId = f.fileId) := by
    intro b hb hbo
    refine hfree (b.restamp f.fileId done time) ?_ (by simpa using hbo)
    rw [h.datablocks]
    exact List.mem_append_left _ (List.mem_map_of_mem hb)
  have hfree'' : ∀ b ∈ news, b.blkStartOffset ≠ blkOffset := by
    intro b hb ho
    refine hfree b ?_ ⟨ho, (h.new b hb).1⟩
    rw [h.datablocks]
    exact List.mem_append_right _ hb
  have hunrec : ¬ m.db.Recorded f.relativePath blkOffset := by
    rw [hwf.recorded_iff hf]
    rintro ⟨b, hb, hbid, ho⟩
    exact hfree' b hb ⟨ho, hbid⟩
  refine ⟨⟨freshId (m₁.db.datablocks.map (·.blockId)), blkOffset, now, g.fileId⟩,
    h.steps.tail (.insertBlock hi), fun o ho => ?_, ?_, ?_, ?_, fun b hb => ?_, ?_, fun o => ?_⟩
  · by_cases ho' : o = blkOffset
    · rw [ho', Function.update_self]
      exact hnow
    · rw [Function.update_of_ne ho']
      exact h.inTime o (by simpa [ho'] using ho)
  · have hsum := Db.files_addLocalSize_add h.files m.metaBlockSize
    rw [MetaState.grow, AddSteps.metaBlockSize h.steps, List.length_append, List.length_singleton,
      Nat.succ_mul, Int.natCast_add, ← hsum]
    rfl
  · simp only [MetaState.grow, Db.addLocalSize, h.datablocks, List.append_assoc]
    congr 1
    refine List.map_congr_left fun b hb => ?_
    rw [BlockRow.restamp_append_of_ne (hfree' b hb)]
  · simp only [MetaState.grow, h.used, AddSteps.metaBlockSize h.steps, List.length_append,
      List.length_singleton, MetaState.usedAfter, Function.iterate_succ_apply']
  · rcases List.mem_append.mp hb with hb | hb
    · rw [Function.update_of_ne (hfree'' b hb)]
      exact h.new b hb
    · rw [List.mem_singleton.mp hb]
      exact ⟨hid, by rw [Function.update_self]⟩
  · rw [List.map_append, List.nodup_append]
    refine ⟨h.nodup, List.nodup_singleton _, ?_⟩
    rintro o ho _ ho'
    rw [List.mem_singleton.mp ho']
    obtain ⟨b, hb, rfl⟩ := List.mem_map.mp ho
    exact hfree'' b hb
  · simp only [List.map_append, List.mem_append, h.mem_news, List.map_cons, List.map_nil,
      List.mem_singleton, or_and_right]
    exact or_congr_right ⟨fun ho => ⟨ho, ho ▸ hunrec⟩, And.left⟩

/-- One new row for each missing offset. -/
theorem length_news (h : Written T m f done time news m₁) (hwf : m.db.WF) :
    news.length = (m.db.missing f.relativePath done.dedup).length := by
  have hperm : (news.map (·.blkStartOffset)).Perm (m.db.missing f.relativePath done.dedup) := by
    refine (List.perm_ext_iff_of_nodup h.nodup ((List.nodup_dedup _).filter _)).mpr fun o => ?_
    rw [h.mem_news, List.mem_filter, List.mem_dedup, Bool.not_eq_true',
      ← Bool.not_eq_true, hwf.selectBlockId_iff]
  rw [← hperm.length_eq, List.length_map]

/-- The rows of other blocks are left alone. -/
theorem stamped (h : Written T m f done time news m₁) (hwf : m.db.WF) (hf : f ∈ m.db.files) :
    Stamped T f.relativePath done m m₁ where
  fileId n := by
    refine Db.fileId?_congr ?_ n
    rw [h.files, Db.map_addLocalSize _ fun _ _ => rfl]
  kept := by
    have hnews : news.filter (!m.db.listed f.relativePath done ·) = [] := by
      refine List.filter_eq_nil_iff.mpr fun b hb => ?_
      rw [Bool.not_eq_true', Bool.not_eq_false, hwf.listed_iff hf]
      exact ⟨(h.new b hb).1, ((h.mem_news _).mp (List.mem_map_of_mem hb)).1⟩
    have hcomp : (!m.db.listed f.relativePath done ·) ∘ BlockRow.restamp f.fileId done time =
        (!m.db.listed f.relativePath done ·) := by
      funext b
      simp only [Function.comp_apply, Db.listed, BlockRow.restamp_fileId,
        BlockRow.restamp_blkStartOffset]
    rw [h.datablocks, List.filter_append, hnews, List.append_nil, List.filter_map, hcomp,
      List.map_congr_left (g := id), List.map_id]
    intro b hb
    have hout := (List.mem_filter.mp hb).2
    rw [Bool.not_eq_true', ← Bool.not_eq_true, hwf.listed_iff hf] at hout
    exact if_neg hout
  time b hb hl := by
    rw [hwf.listed_iff hf] at hl
    rw [h.datablocks] at hb
    rcases List.mem_append.mp hb with hb | hb
    · obtain ⟨b₀, -, rfl⟩ := List.mem_map.mp hb
      rw [BlockRow.restamp_fileId, BlockRow.restamp_blkStartOffset] at hl
      rw [BlockRow.restamp, if_pos hl]
      exact h.inTime _ hl.2
    · rw [(h.new b hb).2]
      exact h.inTime _ hl.2

section Order

variable {done' : List Nat} {time' : Nat → Int} {news' : List BlockRow} {m₂ : MetaState}

/-- Two arrays of the same members get rows for the same offsets. -/
theorem news_perm (h : Written T m f done time news m₁) (h' : Written T m f done' time' news' m₂)
    (hmem : ∀ o, o ∈ done ↔ o ∈ done') :
    (news.map (·.blkStartOffset)).Perm (news'.map (·.blkStartOffset)) :=
  (List.perm_ext_iff_of_nodup h.nodup h'.nodup).mpr fun o => by
    rw [h.mem_news, h'.mem_news, hmem]

theorem length_eq (h : Written T m f done time news m₁) (h' : Written T m f done' time' news' m₂)
    (hmem : ∀ o, o ∈ done ↔ o ∈ done') : news.length = news'.length := by
  simpa using (h.news_perm h' hmem).length_eq

/-- In one second the rows are the same up to their ids. -/
theorem withoutId_perm (h : Written T m f done time news m₁)
    (h' : Written T m f done' time' news' m₂) (hmem : ∀ o, o ∈ done ↔ o ∈ done')
    (hone : ∀ a b, T a → T b → a = b) :
    (m₁.db.datablocks.map BlockRow.withoutId).Perm (m₂.db.datablocks.map BlockRow.withoutId) := by
  have htime : ∀ o ∈ done, time o = time' o := fun o ho =>
    hone _ _ (h.inTime o ho) (h'.inTime o ((hmem o).mp ho))
  have hrow : ∀ {done : List Nat} {time : Nat → Int} {news : List BlockRow} {m₁ : MetaState},
      Written T m f done time news m₁ → news.map BlockRow.withoutId =
        (news.map (·.blkStartOffset)).map fun o => ⟨0, o, time o, f.fileId⟩ := by
    intro done time news m₁ h
    rw [List.map_map]
    refine List.map_congr_left fun b hb => ?_
    obtain ⟨hid, ht⟩ := h.new b hb
    simp only [BlockRow.withoutId, Function.comp_apply, hid, ht]
  rw [h.datablocks, h'.datablocks, List.map_append, List.map_append, hrow h, hrow h']
  refine List.Perm.append (List.Perm.of_eq ?_) ?_
  · rw [List.map_congr_left fun b _ => BlockRow.restamp_congr hmem htime]
  · rw [List.map_congr_left (g := fun o => (⟨0, o, time' o, f.fileId⟩ : BlockRow))]
    · exact (h.news_perm h' hmem).map _
    · intro o ho
      rw [htime o ((h.mem_news o).mp ho).1]

end Order

end Written

-- ============================================================================
-- write_blks
-- ============================================================================

section WriteBlks

variable {A : Choice → Call → World → Prop} {S : Prop} {w : World}

/-- `write_blks` for a file with a row. -/
theorem wp_writeBlks_written (hA : SqlSucceeds A) (hwf : w.db.WF) {f : FileRow}
    (hf : f ∈ w.db.files) {blkArr : List Nat} {Q : Int → World → Prop}
    (hQ : ∀ time news m', Written (Clock A) w.metadata f blkArr time news m' →
      Q 0 { w with metadata := m' }) :
    Prog.wp (env A S) (writeBlks f.relativePath blkArr) Q w := by
  refine wp_writeBlks_loop hA hwf (I := fun done m => ∃ time news,
    Written (Clock A) w.metadata f done time news m) ⟨fun _ => 0, [], .refl _ _ _ _⟩ ?_ ?_ ?_ ?_
  · rintro done m o now ⟨time, news, hpart⟩ hrec hnow
    exact ⟨_, _, hpart.touch hwf hf hrec hnow⟩
  · rintro done m o ⟨time, news, hpart⟩ hnew hnone
    exact ⟨_, _, hpart.refuse hwf hf hnew hnone⟩
  · rintro done m o now db ⟨time, news, hpart⟩ - hnow hi
    obtain ⟨b, hb⟩ := hpart.insert hwf hf hnow hi
    exact ⟨_, _, hb⟩
  · rintro m' ⟨time, news, hpart⟩
    exact hQ _ _ _ hpart

/-- `write_blks` for a file without a row. -/
theorem wp_writeBlks_unknown (hA : SqlSucceeds A) (hwf : w.db.WF) {filename : FileName}
    (hf : ¬ w.db.HasFile filename) {blkArr : List Nat} {Q : Int → World → Prop} (hQ : Q 0 w) :
    Prog.wp (env A S) (writeBlks filename blkArr) Q w := by
  refine wp_writeBlks_loop hA hwf (I := fun _ m => m = w.metadata) rfl ?_ ?_ ?_ ?_
  · intro done m o now _ hrec _
    exact absurd hrec.hasFile hf
  · intro done m o hm _ _
    exact hm
  · rintro done m o now db rfl - - hi
    have hnone : w.db.insertDatablock o filename now = none :=
      hwf.insertDatablock_eq_none_iff.mpr (Or.inl hf)
    exact nomatch hnone.symm.trans hi
  · rintro m' rfl
    exact hQ

/-- `write_blks` leaves the rows of other blocks alone. -/
theorem wp_writeBlks_stamped (hA : SqlSucceeds A) (hwf : w.db.WF) {filename : FileName}
    {blkArr : List Nat} {Q : Int → World → Prop}
    (hQ : ∀ m', WriteBlksPost w.metadata filename blkArr m' →
      Stamped (Clock A) filename blkArr w.metadata m' → Q 0 { w with metadata := m' }) :
    Prog.wp (env A S) (writeBlks filename blkArr) Q w := by
  have hpost : Prog.wp (env A S) (writeBlks filename blkArr) (fun r w' => r = 0 ∧
      ∃ m', w' = { w with metadata := m' } ∧ WriteBlksPost w.metadata filename blkArr m') w :=
    wp_writeBlks hA hwf fun m' h => ⟨rfl, m', rfl, h⟩
  have hstamp : Prog.wp (env A S) (writeBlks filename blkArr)
      (fun _ w' => Stamped (Clock A) filename blkArr w.metadata w'.metadata) w := by
    by_cases hfile : w.db.HasFile filename
    · obtain ⟨f, hf, rfl⟩ := hfile
      exact wp_writeBlks_written hA hwf hf fun time news m' h => h.stamped hwf hf
    · refine wp_writeBlks_unknown hA hwf hfile ⟨fun _ => rfl, rfl, fun b _ hb => ?_⟩
      rw [Db.listed, show w.metadata.db.fileId? filename = none from
          Db.fileId?_eq_none_iff.mpr hfile]
        at hb
      simp at hb
  refine Prog.wp_mono (Prog.wp_and hpost hstamp) ?_
  rintro r w' ⟨⟨rfl, m', rfl, hm⟩, hs⟩
  exact hQ m' hm hs

end WriteBlks

/-- An execution at times in `T`. -/
theorem Written.of_exec {T : Int → Prop} {w w₁ : World} {f : FileRow} {blkArr : List Nat} {r : Int}
    (hwf : w.db.WF) (hf : f ∈ w.db.files)
    (h : Exec (env (constraintsAt T) False) (writeBlks f.relativePath blkArr) w r w₁) :
    ∃ time news, w₁ = { w with metadata := w₁.metadata } ∧
      Written T w.metadata f blkArr time news w₁.metadata := by
  refine Prog.wp_exec (Q := fun _ w₁ => ∃ time news, w₁ = { w with metadata := w₁.metadata } ∧
      Written T w.metadata f blkArr time news w₁.metadata) ?_ h
  refine wp_writeBlks_written (sqlSucceeds_constraintsAt T) hwf hf fun time news m' hpart => ?_
  exact ⟨time, news, rfl,
    { hpart with inTime := fun o ho => clock_constraintsAt (hpart.inTime o ho) }⟩

/-- The array is a hit when all of its blocks are recorded. -/
theorem areBlocksInCache_eq_iff {w w' : World} {filename : FileName} {blkArr : List Nat}
    {found : Int × List Int} (hwf : w.db.WF)
    (h : Exec (env constraintsOnly False) (areBlocksInCache filename blkArr) w found w') :
    found = (1, List.replicate blkArr.length 1) ↔ ∀ o ∈ blkArr, w.db.Recorded filename o := by
  have hfound := Prog.wp_exec (wp_areBlocksInCache sqlSucceeds_constraintsOnly
    (Q := fun found _ => found = (if blkArr.all (w.db.selectBlockId · filename) then 1 else 0,
      blkArr.map (w.db.hitFlag filename))) rfl) h
  have hall : blkArr.all (w.db.selectBlockId · filename) = true ↔
      ∀ o ∈ blkArr, w.db.Recorded filename o := by
    rw [List.all_eq_true]
    exact forall₂_congr fun o _ => hwf.selectBlockId_iff
  rw [hfound, Prod.mk.injEq, ← hall]
  constructor
  · rintro ⟨htotal, -⟩
    by_contra hn
    rw [if_neg hn] at htotal
    exact absurd htotal (by decide)
  · intro hsel
    refine ⟨if_pos hsel, List.eq_replicate_iff.mpr ⟨List.length_map _, fun e he => ?_⟩⟩
    obtain ⟨o, ho, rfl⟩ := List.mem_map.mp he
    exact if_pos (List.all_eq_true.mp hsel o ho)

/-- What `write_blks` does to the metadata when `f` is the row of the file. -/
structure WriteBlksExact (T : Int → Prop) (m : MetaState) (f : FileRow) (blkArr : List Nat)
    (m' : MetaState) : Prop where
  wf : m'.db.WF
  recorded : ∀ o, m'.db.Recorded f.relativePath o ↔
    m.db.Recorded f.relativePath o ∨ o ∈ blkArr
  files : m'.db.files = (m.db.addLocalSize
    (m.metaBlockSize * (m.db.missing f.relativePath blkArr.dedup).length : Nat)
    f.relativePath).files
  used : m'.cacheUsedSize =
    m.cacheUsedSize + m.metaBlockSize * (m.db.missing f.relativePath blkArr.dedup).length
  metaBlockSize : m'.metaBlockSize = m.metaBlockSize
  datablocks : ∃ time news,
    m'.db.datablocks = m.db.datablocks.map (BlockRow.restamp f.fileId blkArr time) ++ news ∧
    (∀ o ∈ blkArr, T (time o)) ∧
    ∀ b ∈ news, b.fileId = f.fileId ∧ b.blkStartOffset ∈ blkArr ∧
      ¬ m.db.Recorded f.relativePath b.blkStartOffset ∧ b.timestamp = time b.blkStartOffset

theorem Written.exact {T : Int → Prop} {m m' : MetaState} {f : FileRow} {blkArr : List Nat}
    {time : Nat → Int} {news : List BlockRow} (h : Written T m f blkArr time news m')
    (hwf : m.db.WF) (hf : f ∈ m.db.files)
    (hlt : m.cacheUsedSize +
      m.metaBlockSize * (m.db.missing f.relativePath blkArr.dedup).length < 2 ^ 63) :
    WriteBlksExact T m f blkArr m' where
  wf := AddSteps.wf h.steps hwf
  recorded := h.recorded_iff hwf hf
  files := by rw [h.files, h.length_news hwf, Nat.mul_comm]
  used := by
    rw [Nat.mul_comm] at hlt
    rw [h.used, h.length_news hwf, MetaState.usedAfter_of_le (by omega), Nat.mul_comm]
  metaBlockSize := AddSteps.metaBlockSize h.steps
  datablocks := ⟨time, news, h.datablocks, h.inTime, fun b hb =>
    have hmem := (h.mem_news _).mp (List.mem_map_of_mem hb)
    ⟨(h.new b hb).1, hmem.1, hmem.2, (h.new b hb).2⟩⟩

/-- `write_blks` does to the rows and the sizes what its array says, however often an
    offset occurs in it and in whatever order, and the array is a hit afterwards. -/
theorem writeBlks_exact {T : Int → Prop} {w w₁ : World} {filename : FileName} {blkArr : List Nat}
    {r : Int} (hwf : w.db.WF)
    (hlt : w.metadata.cacheUsedSize + w.metadata.metaBlockSize *
      (w.db.missing filename blkArr.dedup).length < 2 ^ 63)
    (h : Exec (env (constraintsAt T) False) (writeBlks filename blkArr) w r w₁) :
    w₁ = { w with metadata := w₁.metadata } ∧
    (∀ f ∈ w.db.files, f.relativePath = filename →
      WriteBlksExact T w.metadata f blkArr w₁.metadata) ∧
    (¬ w.db.HasFile filename → w₁ = w) ∧
    (∀ blkArr' r' w₂, blkArr'.Perm blkArr →
      Exec (env (constraintsAt T) False) (writeBlks filename blkArr') w r' w₂ →
      w₂.db.files = w₁.db.files ∧ w₂.metadata.cacheUsedSize = w₁.metadata.cacheUsedSize ∧
      ((∀ a b, T a → T b → a = b) → (w₂.db.datablocks.map BlockRow.withoutId).Perm
        (w₁.db.datablocks.map BlockRow.withoutId))) ∧
    ∀ found w₂, Exec (env constraintsOnly False) (areBlocksInCache filename blkArr) w₁ found w₂ →
      (found = (1, List.replicate blkArr.length 1) ↔ w.db.HasFile filename ∨ blkArr = []) := by
  by_cases hfile : w.db.HasFile filename
  · obtain ⟨f, hf, rfl⟩ := hfile
    obtain ⟨time, news, hw₁, hpart⟩ := Written.of_exec hwf hf h
    refine ⟨hw₁, fun g hg hp => ?_, absurd ⟨f, hf, rfl⟩, fun blkArr' r' w₂ hperm h' => ?_,
      fun found w₂ hfound => ?_⟩
    · obtain rfl := hwf.eq_of_path hg hf hp
      exact hpart.exact hwf hf hlt
    · obtain ⟨time', news', -, hpart'⟩ := Written.of_exec hwf hf h'
      have hmem : ∀ o, o ∈ blkArr' ↔ o ∈ blkArr := fun o => hperm.mem_iff
      have hlen := hpart'.length_eq hpart hmem
      exact ⟨by rw [World.db, hpart'.files, hlen, ← hpart.files, World.db],
        by rw [hpart'.used, hlen, ← hpart.used], hpart'.withoutId_perm hpart hmem⟩
    · rw [areBlocksInCache_eq_iff (AddSteps.wf hpart.steps hwf) hfound]
      refine iff_of_true (fun o ho => ?_) (Or.inl ⟨f, hf, rfl⟩)
      exact (hpart.recorded_iff hwf hf o).mpr (Or.inr ho)
  · -- without a row neither array changes anything
    have hsame : ∀ {blkArr r w₁}, Exec (env (constraintsAt T) False) (writeBlks filename blkArr) w
        r w₁ → w₁ = w := fun {_ _ w₁} h =>
      Prog.wp_exec (Q := fun _ w₁ => w₁ = w)
        (wp_writeBlks_unknown (sqlSucceeds_constraintsAt T) hwf hfile rfl) h
    obtain rfl := hsame h
    refine ⟨rfl, fun f hf hp => absurd ⟨f, hf, hp⟩ hfile, fun _ => rfl, fun _ _ w₂ _ h' => ?_,
      fun found w₂ hfound => ?_⟩
    · rw [hsame h']
      exact ⟨rfl, rfl, fun _ => List.Perm.refl _⟩
    · rw [areBlocksInCache_eq_iff hwf hfound]
      constructor
      · intro hall
        refine Or.inr (List.eq_nil_iff_forall_not_mem.mpr fun o ho => hfile (hall o ho).hasFile)
      · rintro (hf | rfl)
        · exact absurd hf hfile
        · exact fun o ho => absurd ho List.not_mem_nil

/-- One file with one block of 4 bytes, of time 3. -/
def sampleRows : World :=
  { World.init .empty .empty with
    metadata :=
      { db := { files := [⟨1, ['/', 'a'], 9, 4⟩], datablocks := [⟨1, 0, 3, 1⟩] }
        cacheUsedSize := 4
        metaBlockSize := 4 } }

theorem sampleRows_wf : sampleRows.db.WF := by
  constructor <;> simp [sampleRows, World.db]

/-- A block that occurs twice is recorded and counted once. -/
theorem writeBlks_exact_repeated : ∃ w₁ : World, w₁.db.datablocks = [⟨1, 0, 7, 1⟩, ⟨2, 4, 7, 1⟩] ∧
    ∀ f ∈ sampleRows.db.files, f.relativePath = ['/', 'a'] →
      WriteBlksExact (· = 7) sampleRows.metadata f [4, 0, 4] w₁.metadata := by
  have hr : Prog.runAllowed (env (constraintsAt (· = 7)) False) (fun _ => { now := 7 })
      (writeBlks ['/', 'a'] [4, 0, 4]) sampleRows = some (0, _) := rfl
  exact ⟨_, rfl, (writeBlks_exact sampleRows_wf (by decide) (Prog.exec_of_runAllowed _ hr)).2.1⟩

end CacheFs
