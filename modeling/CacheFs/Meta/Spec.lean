/-
  CacheFs.Meta.Spec

  One specification for each function of `meta.c`, in an environment in which a
  SQL statement fails only for a constraint of the schema.

  `AddStep` lists the ways in which the metadata grows, `MetaState.deleteFile` is the
  way in which it shrinks; every function makes some of these changes and nothing
  else, so an invariant of the metadata is proved once per change.  The specifications
  are in continuation form: to prove a weakest precondition of a call it is enough to
  prove the postcondition of every outcome the specification names.
-/

import CacheFs.Meta.Ops

namespace CacheFs

open CacheFs.Effect

/-- The calls that run a SQL statement. -/
def Call.isSql : Call → Bool
  | .insertFile _ _ | .insertDatablock _ _ | .addLocalSize _ _ | .subLocalSize _ _
  | .selectLocalSize _ | .deleteFile _ | .deleteDatablock _ _ | .selectFileId _
  | .selectBlockId _ _ | .stepSelect | .touchDatablock _ _ | .sumLocalSize => true
  | _ => false

/-- Statements fail only for a constraint of the schema. -/
def SqlSucceeds (A : Choice → Call → World → Prop) : Prop :=
  ∀ c op w, A c op w → op.isSql = true → c.err = none

/-- `now` is a time of the environment. -/
def Clock (A : Choice → Call → World → Prop) (now : Int) : Prop :=
  ∃ c op w, A c op w ∧ c.now = now

/-- The environment decides everything except the outcome of SQL statements. -/
def constraintsOnly (c : Choice) (op : Call) (_ : World) : Prop :=
  op.isSql = true → c.err = none

instance (c : Choice) (op : Call) (w : World) : Decidable (constraintsOnly c op w) :=
  inferInstanceAs (Decidable (_ → _))

theorem sqlSucceeds_constraintsOnly : SqlSucceeds constraintsOnly := fun _ _ _ h => h

theorem sqlSucceeds_natural : SqlSucceeds natural := fun _ _ _ h _ => h.1

-- ============================================================================
-- The steps of the metadata
-- ============================================================================

namespace MetaState

/-- A block has been inserted, giving `db`. -/
def grow (m : MetaState) (db : Db) (filename : FileName) : MetaState :=
  { m with
    db := db.addLocalSize m.metaBlockSize filename
    cacheUsedSize := wrap64 (m.cacheUsedSize + m.metaBlockSize) }

/-- A file has been deleted. -/
def deleteFile (m : MetaState) (filename : FileName) : MetaState :=
  { m with
    db := m.db.deleteFile filename
    cacheUsedSize := wrap64 (m.cacheUsedSize + -(m.db.localSize? filename).getD 0) }

end MetaState

/-- The changes that keep every row: a file or a block is entered, or a block gets
    a new timestamp. -/
inductive AddStep : MetaState → MetaState → Prop
  | createFile {m : MetaState} {filename : FileName} {remoteSize : Nat} {db : Db}
      (h : m.db.insertFile filename remoteSize = some db) : AddStep m { m with db }
  | insertBlock {m : MetaState} {filename : FileName} {blkOffset : Nat} {now : Int} {db : Db}
      (h : m.db.insertDatablock blkOffset filename now = some db) :
      AddStep m (m.grow db filename)
  | touchBlock {m : MetaState} (filename : FileName) (blkOffset : Nat) (now : Int) :
      AddStep m { m with db := m.db.touchDatablock blkOffset filename now }

/-- Any number of such changes. -/
abbrev AddSteps : MetaState → MetaState → Prop := Relation.ReflTransGen AddStep

theorem AddStep.wf {m m' : MetaState} (h : AddStep m m') (hwf : m.db.WF) : m'.db.WF := by
  cases h with
  | createFile hi => exact hwf.insertFile hi
  | insertBlock hi => exact (hwf.insertDatablock hi).addLocalSize
  | touchBlock filename blkOffset now => exact hwf.touchDatablock

theorem AddStep.metaBlockSize {m m' : MetaState} (h : AddStep m m') :
    m'.metaBlockSize = m.metaBlockSize := by
  cases h <;> rfl

theorem AddSteps.wf {m m' : MetaState} (h : AddSteps m m') (hwf : m.db.WF) : m'.db.WF := by
  induction h with
  | refl => exact hwf
  | tail _ hs ih => exact hs.wf ih

theorem AddSteps.metaBlockSize {m m' : MetaState} (h : AddSteps m m') :
    m'.metaBlockSize = m.metaBlockSize := by
  induction h with
  | refl => rfl
  | tail _ hs ih => exact hs.metaBlockSize.trans ih

-- ============================================================================
-- Calls
-- ============================================================================

section Spec

variable {A : Choice → Call → World → Prop} {S : Prop} {w : World}

/-- The rule for one call. -/
@[simp] theorem wp_call {α : Type} {op : Call} {k : op.Reply → CfsM α} {Q : α → World → Prop} :
    Prog.wp (env A S) (.call op k) Q w ↔
      ∀ c, A c op w → Prog.wp (env A S) (k (handle c op w).1) Q (handle c op w).2 := by
  simp [Prog.wp_call, env]

theorem World.sql_some {c : Choice} (hc : c.err = none) (db : Db) :
    w.sql c (some db) = (.done, { w with metadata := { w.metadata with db } }) := by
  simp [World.sql, hc]

theorem World.sql_none {c : Choice} : w.sql c none = (.error, w) := by
  unfold World.sql
  split <;> simp_all

theorem World.select_eq {c : Choice} (hc : c.err = none) (found : Bool) :
    World.select c found = if found then .row else .done := by
  simp [World.select, hc]

/-- The tests that follow a statement let a statement that is done pass. -/
theorem tests_done {α : Type} (a b c : α) :
    (if Rc.done ≠ .done then a else if !finalizeOk .done then b else c) = c := rfl

theorem tests_error {α : Type} (a b : α) : (if Rc.error ≠ .done then a else b) = a := rfl

-- ============================================================================
-- Lookups
-- ============================================================================

/-- The lookups return whether there is a row and change nothing. -/
theorem wp_lookupRow (hA : SqlSucceeds A) {op : CfsM Rc} {found : Bool} {Q : Int → World → Prop}
    (hop : ∀ R : Rc → World → Prop, R (if found then .row else .done) w →
      Prog.wp (env A S) op R w)
    (hQ : Q (if found then 1 else 0) w) : Prog.wp (env A S) (lookupRow op) Q w := by
  unfold lookupRow
  rw [Prog.wp_bind]
  apply hop
  cases found with
  | false => simpa using hQ
  | true =>
      simp only [if_true, ne_eq, not_true_eq_false, if_false, Prog.wp_bind, ask, wp_call]
      intro c hc
      simpa [handle, World.select_eq (hA _ _ _ hc rfl), finalizeOk] using hQ

theorem wp_isFileInCache (hA : SqlSucceeds A) {filename : FileName} {Q : Int → World → Prop}
    (hQ : Q (if (w.db.fileId? filename).isSome then 1 else 0) w) :
    Prog.wp (env A S) (isFileInCache filename) Q w := by
  refine wp_lookupRow hA (fun R hR => ?_) hQ
  simp only [ask, wp_call, Prog.wp_ret]
  intro c hc
  simpa only [handle, World.select_eq (hA _ _ _ hc rfl)] using hR

theorem wp_isBlkInCache (hA : SqlSucceeds A) {filename : FileName} {blkOffset : Nat}
    {Q : Int → World → Prop}
    (hQ : Q (if w.db.selectBlockId blkOffset filename then 1 else 0) w) :
    Prog.wp (env A S) (isBlkInCache filename blkOffset) Q w := by
  refine wp_lookupRow hA (fun R hR => ?_) hQ
  simp only [ask, wp_call, Prog.wp_ret]
  intro c hc
  simpa only [handle, World.select_eq (hA _ _ _ hc rfl)] using hR

/-- The entry of `bool_arr` for a block. -/
def Db.hitFlag (db : Db) (filename : FileName) (blkOffset : Nat) : Int :=
  if db.selectBlockId blkOffset filename then 1 else 0

theorem Db.hitFlag_ne_zero_iff {db : Db} (h : db.WF) {filename : FileName} {blkOffset : Nat} :
    db.hitFlag filename blkOffset ≠ 0 ↔ db.Recorded filename blkOffset := by
  rw [← h.selectBlockId_iff, Db.hitFlag]
  split <;> simp_all

theorem wp_areBlocksInCache (hA : SqlSucceeds A) {filename : FileName} {blkArr : List Nat}
    {Q : Int × List Int → World → Prop}
    (hQ : Q (if blkArr.all (w.db.selectBlockId · filename) then 1 else 0,
      blkArr.map (w.db.hitFlag filename)) w) :
    Prog.wp (env A S) (areBlocksInCache filename blkArr) Q w := by
  refine Prog.wp_mono (Prog.wp_foldlM (I := fun done acc w' => w' = w ∧
    acc = (if done.all (w.db.selectBlockId · filename) then 1 else 0,
      done.map (w.db.hitFlag filename))) ⟨rfl, rfl⟩ ?_) ?_
  · rintro done x rest acc w' - ⟨rfl, rfl⟩
    rw [Prog.wp_bind]
    apply wp_isBlkInCache hA
    simp only [Prog.wp_pure, List.all_append, List.map_append, true_and, List.all_cons,
      List.all_nil, Bool.and_true, List.map_cons, List.map_nil, Db.hitFlag]
    cases w'.db.selectBlockId x filename <;> simp
  · rintro acc w' ⟨rfl, rfl⟩
    exact hQ

-- ============================================================================
-- Mutators
-- ============================================================================

theorem wp_createFile (hA : SqlSucceeds A) {filename : FileName} {remoteSize : Nat}
    {Q : Int → World → Prop}
    (hold : w.db.HasFile filename → Q (-1) w)
    (hnew : ∀ db, w.db.insertFile filename remoteSize = some db →
      Q 0 { w with metadata := { w.metadata with db } }) :
    Prog.wp (env A S) (createFile filename remoteSize) Q w := by
  unfold createFile
  simp only [Prog.wp_bind, ask, wp_call]
  intro c hc
  have herr := hA _ _ _ hc rfl
  cases hi : w.db.insertFile filename remoteSize with
  | none =>
      simp only [handle, hi, World.sql_none, Prog.wp_ret, tests_error, Prog.wp_pure]
      exact hold (Db.insertFile_eq_none_iff.mp hi)
  | some db =>
      simp only [handle, hi, World.sql_some herr, Prog.wp_ret, tests_done, Prog.wp_pure]
      exact hnew db hi

/-- The world after `delete_file` has subtracted the size of the file. -/
def World.lowered (w : World) (filename : FileName) : World :=
  { w with metadata.cacheUsedSize :=
      wrap64 (w.metadata.cacheUsedSize + -(w.db.localSize? filename).getD 0) }

/-- `delete_file` of a file with or without a row returns 0. -/
theorem wp_deleteFile (hA : SqlSucceeds A) {filename : FileName} {Q : Int → World → Prop}
    (hQ : Q 0 { w with metadata := w.metadata.deleteFile filename }) :
    Prog.wp (env A S) (deleteFile filename) Q w := by
  -- the last statement, in the world whose counter has been lowered
  have hdel : Prog.wp (env A S) (do
      let ret ← ask (.deleteFile filename)
      if ret ≠ .done then pure (-1) else if !finalizeOk ret then pure (-1) else pure 0) Q
      (w.lowered filename) := by
    simp only [Prog.wp_bind, ask, wp_call, Prog.wp_ret]
    intro c hc
    simp only [handle, World.sql_some (hA _ _ _ hc rfl), tests_done, Prog.wp_pure]
    exact hQ
  unfold deleteFile
  simp only [Prog.wp_bind, ask, wp_call, Prog.wp_ret, World.lowered] at hdel ⊢
  intro c₁ hc₁ c₂ _
  have herr₁ := hA _ _ _ hc₁ rfl
  simp only [handle, World.select_eq herr₁, herr₁, Option.isSome_none, Bool.false_eq_true,
    if_false]
  cases hl : (w.db.localSize? filename).isSome with
  | true =>
      simp only [if_true, wp_call, Prog.wp_bind, Prog.wp_ret]
      intro c₃ hc₃
      simp only [handle, World.select_eq (hA _ _ _ hc₃ rfl), Bool.false_eq_true, if_false,
        tests_done]
      simpa only [Prog.wp_bind, wp_call, Prog.wp_ret] using hdel
  | false =>
      simp only [Bool.false_eq_true, if_false, reduceCtorEq, wp_call, Prog.wp_bind, Prog.wp_ret,
        Prog.wp_pure]
      intro c₃ hc₃
      have hl' : (w.lowered filename).db = w.db := rfl
      simp only [World.lowered] at hl'
      simp only [handle, World.select_eq (hA _ _ _ hc₃ rfl), hl', hl, Bool.false_eq_true, if_false,
        tests_done]
      simpa only [Prog.wp_bind, wp_call, Prog.wp_ret] using hdel

/-- `insert_block` is refused and changes nothing, or records the block. -/
theorem wp_insertBlock (hA : SqlSucceeds A) {filename : FileName} {blkOffset : Nat}
    {Q : Int → World → Prop}
    (hold : (∀ now, w.db.insertDatablock blkOffset filename now = none) → Q (-1) w)
    (hnew : ∀ now, Clock A now → ∀ db, w.db.insertDatablock blkOffset filename now = some db →
      Q 0 { w with metadata := w.metadata.grow db filename }) :
    Prog.wp (env A S) (insertBlock filename blkOffset) Q w := by
  unfold insertBlock
  simp only [Prog.wp_bind, ask, wp_call, Prog.wp_ret]
  intro c hc
  have herr := hA _ _ _ hc rfl
  cases hi : w.db.insertDatablock blkOffset filename c.now with
  | none =>
      simp only [handle, hi, World.sql_none, tests_error, Prog.wp_pure]
      exact hold fun now => Db.insertDatablock_none_at hi now
  | some db =>
      simp only [handle, hi, World.sql_some herr, tests_done, Prog.wp_bind, wp_call, Prog.wp_ret]
      intro c₁ _ c₂ hc₂
      simp only [World.sql_some (hA _ _ _ hc₂ rfl), tests_done, Prog.wp_bind, wp_call, Prog.wp_ret,
        handle]
      intro c₃ _ c₄ _
      exact hnew c.now ⟨c, _, _, hc, rfl⟩ db hi

theorem wp_updateBlkTime (hA : SqlSucceeds A) {filename : FileName} {blkOffset : Nat}
    {Q : Int → World → Prop}
    (hQ : ∀ now, Clock A now → Q 0 { w with metadata := { w.metadata with
      db := w.db.touchDatablock blkOffset filename now } }) :
    Prog.wp (env A S) (updateBlkTime filename blkOffset) Q w := by
  unfold updateBlkTime
  simp only [Prog.wp_bind, ask, wp_call, Prog.wp_ret]
  intro c hc
  simpa only [handle, World.sql_some (hA _ _ _ hc rfl), tests_done, Prog.wp_pure] using
    hQ c.now ⟨c, _, _, hc, rfl⟩

/-- The blocks of an array that are not recorded. -/
def Db.missing (db : Db) (filename : FileName) (blkArr : List Nat) : List Nat :=
  blkArr.filter fun o => !db.selectBlockId o filename

/-- The counter after `k` more blocks. -/
def MetaState.usedAfter (m : MetaState) (k : Nat) : Nat :=
  (fun used => wrap64 (used + m.metaBlockSize))^[k] m.cacheUsedSize

/-- What `write_blks` leaves behind: the blocks of the array are recorded as well,
    if the file has a row, and each of them that was not recorded raises the counter
    once at most, and once if the offsets differ. -/
structure WriteBlksPost (m : MetaState) (filename : FileName) (blkArr : List Nat)
    (m' : MetaState) : Prop where
  steps : AddSteps m m'
  hasFile : ∀ n, m'.db.HasFile n ↔ m.db.HasFile n
  recorded : ∀ n o, m'.db.Recorded n o ↔
    m.db.Recorded n o ∨ (n = filename ∧ m.db.HasFile filename ∧ o ∈ blkArr)
  used : ∃ k ≤ (m.db.missing filename blkArr).length, m'.cacheUsedSize = m.usedAfter k ∧
    (blkArr.Nodup → m.db.HasFile filename → k = (m.db.missing filename blkArr).length) ∧
    (¬ m.db.HasFile filename → k = 0)

theorem WriteBlksPost.refl (m : MetaState) (filename : FileName) :
    WriteBlksPost m filename [] m where
  steps := .refl
  hasFile _ := Iff.rfl
  recorded _ _ := by simp
  used := ⟨0, le_refl _, rfl, fun _ _ => rfl, fun _ => rfl⟩

namespace WriteBlksPost

variable {m m₁ : MetaState} {filename : FileName} {done : List Nat} {blkOffset : Nat}

/-- A block that was recorded from the start gets a new timestamp. -/
theorem touch (h : WriteBlksPost m filename done m₁) (hrec : m.db.Recorded filename blkOffset)
    (hsel : m.db.selectBlockId blkOffset filename = true) (now : Int) :
    WriteBlksPost m filename (done ++ [blkOffset])
      { m₁ with db := m₁.db.touchDatablock blkOffset filename now } where
  steps := h.steps.tail (.touchBlock filename blkOffset now)
  hasFile n := by rw [Db.hasFile_touchDatablock, h.hasFile]
  recorded n o := by
    rw [Db.recorded_touchDatablock, h.recorded, List.mem_append, List.mem_singleton]
    constructor
    · rintro (hr | ⟨rfl, hf, ho⟩)
      · exact Or.inl hr
      · exact Or.inr ⟨rfl, hf, Or.inl ho⟩
    · rintro (hr | ⟨rfl, hf, ho | rfl⟩)
      · exact Or.inl hr
      · exact Or.inr ⟨rfl, hf, ho⟩
      · exact Or.inl hrec
  used := by
    have hmissing : m.db.missing filename (done ++ [blkOffset]) = m.db.missing filename done := by
      simp [Db.missing, hsel]
    obtain ⟨k, hk, hused, hexact, hnone⟩ := h.used
    rw [hmissing]
    exact ⟨k, hk, hused, fun hd => hexact hd.of_append_left, hnone⟩

/-- A refused insertion: the file has no row, or the offset has come up before. -/
theorem refuse (h : WriteBlksPost m filename done m₁) (hwf : m.db.WF)
    (hsel : m.db.selectBlockId blkOffset filename = false)
    (hnone : m₁.db.insertDatablock blkOffset filename 0 = none) :
    WriteBlksPost m filename (done ++ [blkOffset]) m₁ := by
  have hold := (h.steps.wf hwf).insertDatablock_eq_none_iff.mp hnone
  rw [h.hasFile, h.recorded] at hold
  refine ⟨h.steps, h.hasFile, fun n o => ?_, ?_⟩
  · rw [h.recorded, List.mem_append, List.mem_singleton]
    constructor
    · rintro (hr | ⟨rfl, hf, ho⟩)
      · exact Or.inl hr
      · exact Or.inr ⟨rfl, hf, Or.inl ho⟩
    · rintro (hr | ⟨rfl, hf, ho | rfl⟩)
      · exact Or.inl hr
      · exact Or.inr ⟨rfl, hf, ho⟩
      · exact hold.resolve_left (not_not_intro hf)
  · obtain ⟨k, hk, hused, -, hzero⟩ := h.used
    have hmissing : m.db.missing filename (done ++ [blkOffset]) =
        m.db.missing filename done ++ [blkOffset] := by
      simp [Db.missing, hsel]
    refine ⟨k, ?_, hused, fun hd hf => ?_, hzero⟩
    · rw [hmissing, List.length_append]
      omega
    · -- a new offset of a file with a row is not refused
      rcases hold.resolve_left (not_not_intro hf) with hrec | ⟨-, -, hin⟩
      · rw [hwf.selectBlockId_iff.mpr hrec] at hsel
        exact nomatch hsel
      · exact absurd rfl (List.nodup_append.mp hd |>.2.2 _ hin _ (List.mem_singleton_self _))

/-- An insertion that succeeds. -/
theorem insert (h : WriteBlksPost m filename done m₁) (hwf : m.db.WF)
    (hsel : m.db.selectBlockId blkOffset filename = false) {now : Int} {db : Db}
    (hi : m₁.db.insertDatablock blkOffset filename now = some db) :
    WriteBlksPost m filename (done ++ [blkOffset]) (m₁.grow db filename) := by
  have hfile : m.db.HasFile filename := by
    rw [← h.hasFile]
    obtain ⟨f, hf, hp, -⟩ := Db.insertDatablock_eq_some hi
    exact ⟨f, hf, hp⟩
  refine ⟨h.steps.tail (.insertBlock hi), fun n => ?_, fun n o => ?_, ?_⟩
  · rw [MetaState.grow, Db.hasFile_addLocalSize, Db.hasFile_insertDatablock hi, h.hasFile]
  · rw [MetaState.grow, Db.recorded_addLocalSize, (h.steps.wf hwf).recorded_insertDatablock hi,
      h.recorded, List.mem_append, List.mem_singleton]
    constructor
    · rintro ((hr | ⟨rfl, hf, ho⟩) | ⟨rfl, rfl⟩)
      · exact Or.inl hr
      · exact Or.inr ⟨rfl, hf, Or.inl ho⟩
      · exact Or.inr ⟨rfl, hfile, Or.inr rfl⟩
    · rintro (hr | ⟨rfl, hf, ho | rfl⟩)
      · exact Or.inl (Or.inl hr)
      · exact Or.inl (Or.inr ⟨rfl, hf, ho⟩)
      · exact Or.inr ⟨rfl, rfl⟩
  · obtain ⟨k, hk, hused, hexact, -⟩ := h.used
    have hmissing : (m.db.missing filename (done ++ [blkOffset])).length =
        (m.db.missing filename done).length + 1 := by
      simp [Db.missing, hsel]
    refine ⟨k + 1, by omega, ?_, fun hd hf => ?_, absurd hfile⟩
    · rw [MetaState.usedAfter, Function.iterate_succ_apply', ← MetaState.usedAfter, ← hused,
        ← AddSteps.metaBlockSize h.steps]
      rfl
    · rw [hmissing, hexact hd.of_append_left hf]

/-- Two arrays one after the other. -/
theorem trans {m₂ : MetaState} {blkArr : List Nat} (hwf : m.db.WF)
    (h₁ : WriteBlksPost m filename done m₁) (h₂ : WriteBlksPost m₁ filename blkArr m₂) :
    WriteBlksPost m filename (done ++ blkArr) m₂ where
  steps := Relation.ReflTransGen.trans h₁.steps h₂.steps
  hasFile n := (h₂.hasFile n).trans (h₁.hasFile n)
  recorded n o := by
    rw [h₂.recorded, h₁.recorded, h₁.hasFile, List.mem_append]
    tauto
  used := by
    have hwf₁ := AddSteps.wf h₁.steps hwf
    have happend : m.db.missing filename (done ++ blkArr) =
        m.db.missing filename done ++ m.db.missing filename blkArr := List.filter_append ..
    -- a block recorded before is recorded after
    have hle : (m₁.db.missing filename blkArr).length ≤ (m.db.missing filename blkArr).length := by
      rw [Db.missing, Db.missing, ← List.countP_eq_length_filter, ← List.countP_eq_length_filter]
      refine List.countP_mono_left fun o _ ho => ?_
      by_contra hm
      simp only [Bool.not_eq_true', Bool.not_eq_false] at ho hm
      have hrec := (h₁.recorded filename o).mpr (Or.inl (hwf.selectBlockId_iff.mp hm))
      rw [← hwf₁.selectBlockId_iff, ho] at hrec
      exact absurd hrec (by decide)
    obtain ⟨k₁, hk₁, hused₁, hexact₁, hzero₁⟩ := h₁.used
    obtain ⟨k₂, hk₂, hused₂, hexact₂, hzero₂⟩ := h₂.used
    rw [happend, List.length_append]
    refine ⟨k₂ + k₁, by omega, ?_, fun hd hf => ?_, fun hn => ?_⟩
    · rw [hused₂, MetaState.usedAfter, MetaState.usedAfter, Function.iterate_add_apply, hused₁,
        AddSteps.metaBlockSize h₁.steps, MetaState.usedAfter]
    · obtain ⟨hd₁, hd₂, hne⟩ := List.nodup_append.mp hd
      -- the second array has no block of the first, so the same ones are missing
      have hsame : m₁.db.missing filename blkArr = m.db.missing filename blkArr := by
        refine List.filter_congr fun o ho => ?_
        rw [Bool.not_inj_iff, Bool.eq_iff_iff, hwf₁.selectBlockId_iff, hwf.selectBlockId_iff,
          h₁.recorded]
        exact or_iff_left fun h => hne o h.2.2 o ho rfl
      rw [hexact₁ hd₁ hf, hexact₂ hd₂ ((h₁.hasFile _).mpr hf), hsame, Nat.add_comm]
    · rw [hzero₁ hn, hzero₂ (mt (h₁.hasFile _).mp hn)]

end WriteBlksPost

/-- The loop of `write_blks`: `I` relates the offsets done so far to the metadata, and
    each of the three things that can happen to an offset takes it one further. -/
theorem wp_writeBlks_loop (hA : SqlSucceeds A) (hwf : w.db.WF) {filename : FileName}
    {blkArr : List Nat} {I : List Nat → MetaState → Prop} {Q : Int → World → Prop}
    (h0 : I [] w.metadata)
    (touch : ∀ done m o now, I done m → w.db.Recorded filename o → Clock A now →
      I (done ++ [o]) { m with db := m.db.touchDatablock o filename now })
    (refuse : ∀ done m o, I done m → ¬ w.db.Recorded filename o →
      m.db.insertDatablock o filename 0 = none → I (done ++ [o]) m)
    (insert : ∀ done m o now db, I done m → ¬ w.db.Recorded filename o → Clock A now →
      m.db.insertDatablock o filename now = some db → I (done ++ [o]) (m.grow db filename))
    (hQ : ∀ m', I blkArr m' → Q 0 { w with metadata := m' }) :
    Prog.wp (env A S) (writeBlks filename blkArr) Q w := by
  unfold writeBlks
  rw [Prog.wp_bind]
  apply wp_areBlocksInCache hA
  rw [Prog.wp_bind]
  have hzip : (blkArr.zip (blkArr.map (w.db.hitFlag filename))) =
      blkArr.map fun o => (o, w.db.hitFlag filename o) := by
    simpa using List.zip_map' (f := id) (g := w.db.hitFlag filename) (l := blkArr)
  simp only [hzip]
  refine Prog.wp_mono (Prog.wp_foldlM (I := fun done _ w' => ∃ m',
    w' = { w with metadata := m' } ∧ I (done.map Prod.fst) m') ⟨_, rfl, h0⟩ ?_) ?_
  · rintro done x rest _ w' hx ⟨m₁, rfl, hI⟩
    have hflag : x.2 = w.db.hitFlag filename x.1 := by
      have hmem : x ∈ blkArr.map fun o => (o, w.db.hitFlag filename o) := by simp [hx]
      obtain ⟨o, -, rfl⟩ := List.mem_map.mp hmem
      rfl
    rw [List.map_append, List.map_cons, List.map_nil, Prog.wp_ite]
    split
    · next hne =>
        have hrec := (Db.hitFlag_ne_zero_iff hwf).mp (hflag ▸ hne)
        rw [Prog.wp_bind]
        apply wp_updateBlkTime hA
        intro now hnow
        exact ⟨_, rfl, touch _ _ _ _ hI hrec hnow⟩
    · next heq =>
        have hnew := (Db.hitFlag_ne_zero_iff hwf).not.mp (hflag ▸ heq)
        rw [Prog.wp_bind]
        refine wp_insertBlock hA (fun hnone => ?_) fun now hnow db hi => ?_
        · exact ⟨_, rfl, refuse _ _ _ hI hnew (hnone 0)⟩
        · exact ⟨_, rfl, insert _ _ _ _ _ hI hnew hnow hi⟩
  · rintro _ w' ⟨m', rfl, hI⟩
    rw [List.map_map] at hI
    apply hQ
    simpa [Function.comp_def] using hI

theorem wp_writeBlks (hA : SqlSucceeds A) (hwf : w.db.WF) {filename : FileName}
    {blkArr : List Nat} {Q : Int → World → Prop}
    (hQ : ∀ m', WriteBlksPost w.metadata filename blkArr m' →
      Q 0 { w with metadata := m' }) :
    Prog.wp (env A S) (writeBlks filename blkArr) Q w := by
  have hunsel : ∀ {o}, ¬ w.db.Recorded filename o → w.db.selectBlockId o filename = false := by
    intro o hn
    rw [← hwf.selectBlockId_iff] at hn
    simpa using hn
  exact wp_writeBlks_loop hA hwf (I := WriteBlksPost w.metadata filename) (.refl _ _)
    (fun _ _ _ now hpost hrec _ => hpost.touch hrec (hwf.selectBlockId_iff.mpr hrec) now)
    (fun _ _ _ hpost hn hnone => hpost.refuse hwf (hunsel hn) hnone)
    (fun _ _ _ _ _ hpost hn _ hi => hpost.insert hwf (hunsel hn) hi) hQ

end Spec

end CacheFs
