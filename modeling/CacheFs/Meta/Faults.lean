/-
  CacheFs.Meta.Faults

  The functions of `meta.c` when statements fail for any reason.

  A lookup may answer -1 whatever the tables hold; a mutator may stop between two
  of its statements, after the first has been committed.  The first part says what
  is left of the specifications of `CacheFs.Meta.Spec` then.  The second part says
  for each mutator exactly when an answer of -1 has changed something.
-/

import CacheFs.Meta.Spec

namespace CacheFs

open CacheFs.Effect

-- ============================================================================
-- Lookups
-- ============================================================================

section Lookups

variable {A : Choice → Call → World → Prop} {S : Prop} {w : World}

/-- A lookup that answers 0 has found no row, and one that answers 1 a row. -/
structure Answers (found : Bool) (r : Int) : Prop where
  zero : r = 0 → found = false
  one : r = 1 → found = true

theorem answers_error (found : Bool) : Answers found (-1) :=
  ⟨fun h => absurd h (by decide), fun h => absurd h (by decide)⟩

theorem World.select_cases (c : Choice) (found : Bool) :
    World.select c found = .error ∨ World.select c found = if found then .row else .done := by
  unfold World.select
  split
  · exact Or.inl rfl
  · exact Or.inr rfl

theorem wp_lookupRow_any {op : CfsM Rc} {found : Bool} {Q : Int → World → Prop}
    (hop : ∀ R : Rc → World → Prop, R .error w → R (if found then .row else .done) w →
      Prog.wp (env A S) op R w)
    (hQ : ∀ r, Answers found r → Q r w) : Prog.wp (env A S) (lookupRow op) Q w := by
  unfold lookupRow
  rw [Prog.wp_bind]
  refine hop _ ?_ ?_
  · simpa using hQ _ (answers_error found)
  · cases found with
    | false => simpa using hQ 0 ⟨fun _ => rfl, fun h => absurd h (by decide)⟩
    | true =>
        simp only [if_true, ne_eq, not_true_eq_false, if_false, Prog.wp_bind, ask, wp_call]
        intro c _
        rcases World.select_cases c false with hc | hc
        · simpa [handle, hc] using hQ _ (answers_error true)
        · simpa [handle, hc, finalizeOk] using
            hQ 1 ⟨fun h => absurd h (by decide), fun _ => rfl⟩

theorem wp_isBlkInCache_any {filename : FileName} {blkOffset : Nat} {Q : Int → World → Prop}
    (hQ : ∀ r, Answers (w.db.selectBlockId blkOffset filename) r → Q r w) :
    Prog.wp (env A S) (isBlkInCache filename blkOffset) Q w := by
  refine wp_lookupRow_any (fun R herr hfound => ?_) hQ
  simp only [ask, wp_call, Prog.wp_ret, handle]
  intro c _
  rcases World.select_cases c (w.db.selectBlockId blkOffset filename) with hc | hc <;> rw [hc]
  · exact herr
  · exact hfound

theorem wp_isFileInCache_any {filename : FileName} {Q : Int → World → Prop}
    (hQ : ∀ r, Answers (w.db.fileId? filename).isSome r → Q r w) :
    Prog.wp (env A S) (isFileInCache filename) Q w := by
  refine wp_lookupRow_any (fun R herr hfound => ?_) hQ
  simp only [ask, wp_call, Prog.wp_ret, handle]
  intro c _
  rcases World.select_cases c (w.db.fileId? filename).isSome with hc | hc <;> rw [hc]
  · exact herr
  · exact hfound

theorem wp_areBlocksInCache_any {filename : FileName} {blkArr : List Nat}
    {Q : Int × List Int → World → Prop}
    (hQ : ∀ total hits, List.Forall₂ (fun o r => Answers (w.db.selectBlockId o filename) r)
      blkArr hits → Q (total, hits) w) :
    Prog.wp (env A S) (areBlocksInCache filename blkArr) Q w := by
  refine Prog.wp_mono (Prog.wp_foldlM (I := fun done acc w' => w' = w ∧
    List.Forall₂ (fun o r => Answers (w.db.selectBlockId o filename) r) done acc.2)
      ⟨rfl, .nil⟩ ?_) ?_
  · rintro done x rest acc w' - ⟨rfl, hacc⟩
    rw [Prog.wp_bind]
    refine wp_isBlkInCache_any fun r hr => ?_
    rw [Prog.wp_pure]
    exact ⟨rfl, List.rel_append hacc (.cons hr .nil)⟩
  · rintro acc w' ⟨rfl, hacc⟩
    exact hQ acc.1 acc.2 hacc

end Lookups

/-- No more lookups answer 0 than blocks are missing. -/
theorem countP_hits_le {db : Db} {filename : FileName} {blkArr : List Nat} {hits : List Int}
    (h : List.Forall₂ (fun o r => Answers (db.selectBlockId o filename) r) blkArr hits) :
    hits.countP (· = 0) ≤ (db.missing filename blkArr).length := by
  induction h with
  | nil => exact Nat.zero_le _
  | @cons o r blkArr hits hr _ ih =>
      rw [Db.missing, List.filter_cons, List.countP_cons, ← Db.missing]
      by_cases hzero : r = 0
      · rw [hr.zero hzero]
        simpa [hzero] using ih
      · cases db.selectBlockId o filename with
        | false => simpa [hzero] using ih.trans (Nat.le_succ _)
        | true => simpa [hzero] using ih

-- ============================================================================
-- Mutators
-- ============================================================================

/-- What entering blocks of a file does when statements may fail: blocks get new
    timestamps, rows are inserted, and the counter is raised for some of the rows. -/
inductive Entered (filename : FileName) (m : MetaState) : Nat → MetaState → Prop
  | refl : Entered filename m 0 m
  | touch {k : Nat} {m₁ : MetaState} (h : Entered filename m k m₁) (blkOffset : Nat) (now : Int) :
      Entered filename m k { m₁ with db := m₁.db.touchDatablock blkOffset filename now }
  /-- The statement that raises `local_size` has failed. -/
  | rowOnly {k : Nat} {m₁ : MetaState} (h : Entered filename m k m₁) {blkOffset : Nat} {now : Int}
      {db : Db} (hi : m₁.db.insertDatablock blkOffset filename now = some db) :
      Entered filename m k { m₁ with db }
  | row {k : Nat} {m₁ : MetaState} (h : Entered filename m k m₁) {blkOffset : Nat} {now : Int}
      {db : Db} (hi : m₁.db.insertDatablock blkOffset filename now = some db) :
      Entered filename m (k + 1) (m₁.grow db filename)

namespace Entered

variable {m m₁ m₂ : MetaState} {filename : FileName} {k l : Nat}

theorem trans (h₁ : Entered filename m k m₁) (h₂ : Entered filename m₁ l m₂) :
    Entered filename m (k + l) m₂ := by
  induction h₂ with
  | refl => exact h₁
  | touch _ blkOffset now ih => exact ih.touch blkOffset now
  | rowOnly _ hi ih => exact ih.rowOnly hi
  | row _ hi ih => exact ih.row hi

theorem metaBlockSize (h : Entered filename m k m₁) : m₁.metaBlockSize = m.metaBlockSize := by
  induction h with
  | refl => rfl
  | touch _ _ _ ih => exact ih
  | rowOnly _ _ ih => exact ih
  | row _ _ ih => exact ih

theorem hasFile (h : Entered filename m k m₁) (n : FileName) :
    m₁.db.HasFile n ↔ m.db.HasFile n := by
  induction h with
  | refl => rfl
  | touch _ _ _ ih => rw [Db.hasFile_touchDatablock, ih]
  | rowOnly _ hi ih => rw [Db.hasFile_insertDatablock hi, ih]
  | row _ hi ih => rw [MetaState.grow, Db.hasFile_addLocalSize, Db.hasFile_insertDatablock hi, ih]

theorem wf (h : Entered filename m k m₁) (hwf : m.db.WF) : m₁.db.WF := by
  induction h with
  | refl => exact hwf
  | touch _ _ _ ih => exact ih.touchDatablock
  | rowOnly _ hi ih => exact ih.insertDatablock hi
  | row _ hi ih => exact (ih.insertDatablock hi).addLocalSize

/-- The counter after `k` entries. -/
theorem used (h : Entered filename m k m₁) : m₁.cacheUsedSize = m.usedAfter k := by
  induction h with
  | refl => rfl
  | touch _ _ _ ih => exact ih
  | rowOnly _ _ ih => exact ih
  | @row k m₁ h _ _ _ _ ih =>
      rw [MetaState.usedAfter, Function.iterate_succ_apply', ← MetaState.usedAfter, ← ih,
        ← h.metaBlockSize]
      rfl

/-- A file without a row takes no blocks. -/
theorem eq_zero (h : Entered filename m k m₁) (hn : ¬ m.db.HasFile filename) : k = 0 := by
  induction h with
  | refl => rfl
  | touch _ _ _ ih => exact ih
  | rowOnly _ _ ih => exact ih
  | row h hi _ =>
      obtain ⟨f, hf, hp, -⟩ := Db.insertDatablock_eq_some hi
      exact absurd ((h.hasFile filename).mp ⟨f, hf, hp⟩) hn

end Entered

section Mutators

variable {A : Choice → Call → World → Prop} {S : Prop} {w : World}

/-- A statement fails and changes nothing, or does what it does. -/
theorem World.sql_cases (w : World) (c : Choice) (r : Option Db) :
    w.sql c r = (.error, w) ∨ ∃ db, c.err = none ∧ r = some db ∧
      w.sql c r = (.done, { w with metadata := { w.metadata with db } }) := by
  cases hr : r with
  | none => exact Or.inl World.sql_none
  | some db =>
      cases hc : c.err with
      | none => exact Or.inr ⟨db, rfl, rfl, World.sql_some hc db⟩
      | some e =>
          refine Or.inl ?_
          simp [World.sql, hc]

theorem wp_createFile_any {filename : FileName} {remoteSize : Nat} {Q : Int → World → Prop}
    (hold : Q (-1) w) (hnew : ∀ db, w.db.insertFile filename remoteSize = some db →
      Q 0 { w with metadata := { w.metadata with db } }) :
    Prog.wp (env A S) (createFile filename remoteSize) Q w := by
  unfold createFile
  simp only [Prog.wp_bind, ask, wp_call, Prog.wp_ret]
  intro c _
  simp only [handle]
  rcases w.sql_cases c (w.db.insertFile filename remoteSize) with he | ⟨db, -, hi, he⟩
  · simpa only [he, tests_error, Prog.wp_pure] using hold
  · simpa only [he, tests_done, Prog.wp_pure] using hnew db hi

theorem wp_insertBlock_any {filename : FileName} {blkOffset : Nat} {Q : Int → World → Prop}
    (hQ : ∀ r k m', k ≤ 1 → Entered filename w.metadata k m' → Q r { w with metadata := m' }) :
    Prog.wp (env A S) (insertBlock filename blkOffset) Q w := by
  unfold insertBlock
  simp only [Prog.wp_bind, ask, wp_call, Prog.wp_ret]
  intro c _
  simp only [handle]
  rcases w.sql_cases c (w.db.insertDatablock blkOffset filename c.now) with he | ⟨db, -, hi, he⟩
  · have hpost := hQ (-1) 0 w.metadata (Nat.zero_le 1) .refl
    simpa only [he, tests_error, Prog.wp_pure] using hpost
  · -- the row is in; what follows may still fail
    simp only [he, tests_done, Prog.wp_bind, wp_call, Prog.wp_ret]
    intro c₁ _ c₂ _
    simp only [handle]
    rcases World.sql_cases { w with metadata := { w.metadata with db } } c₂
      (some (db.addLocalSize w.metadata.metaBlockSize filename)) with he | ⟨db', -, hdb', he⟩
    · have hpost := hQ (-1) 0 { w.metadata with db } (Nat.zero_le 1) (.rowOnly .refl hi)
      simpa only [World.db, he, tests_error, Prog.wp_pure] using hpost
    · have hdb' := Option.some.inj hdb'
      have hpost := hQ 0 1 (w.metadata.grow db filename) (le_refl 1) (.row .refl hi)
      simp only [World.db, he, tests_done, Prog.wp_bind, wp_call, Prog.wp_ret, handle, ← hdb']
      intro c₃ _ c₄ _
      exact hpost

theorem wp_updateBlkTime_any {filename : FileName} {blkOffset : Nat} {Q : Int → World → Prop}
    (hQ : ∀ r m', Entered filename w.metadata 0 m' → Q r { w with metadata := m' }) :
    Prog.wp (env A S) (updateBlkTime filename blkOffset) Q w := by
  unfold updateBlkTime
  simp only [Prog.wp_bind, ask, wp_call, Prog.wp_ret]
  intro c _
  simp only [handle]
  rcases w.sql_cases c (some (w.db.touchDatablock blkOffset filename c.now)) with
    he | ⟨db, -, hdb, he⟩
  · simpa only [he, tests_error, Prog.wp_pure] using hQ (-1) w.metadata .refl
  · have hpost := hQ 0 { w.metadata with db } (Option.some.inj hdb ▸ .touch .refl blkOffset c.now)
    simpa only [he, tests_done, Prog.wp_pure] using hpost

/-- `write_blks` raises the counter once at most for each missing block. -/
theorem wp_writeBlks_any {filename : FileName} {blkArr : List Nat} {Q : Int → World → Prop}
    (hQ : ∀ k m', k ≤ (w.db.missing filename blkArr).length → Entered filename w.metadata k m' →
      Q 0 { w with metadata := m' }) :
    Prog.wp (env A S) (writeBlks filename blkArr) Q w := by
  unfold writeBlks
  rw [Prog.wp_bind]
  refine wp_areBlocksInCache_any fun total hits hhits => ?_
  have hzeros := countP_hits_le hhits
  rw [Prog.wp_bind]
  refine Prog.wp_mono (Prog.wp_foldlM (I := fun done _ w' => ∃ k m',
    w' = { w with metadata := m' } ∧ k ≤ done.countP (·.2 = 0) ∧
      Entered filename w.metadata k m') ⟨0, _, rfl, Nat.zero_le _, .refl⟩ ?_) ?_
  · rintro done x rest _ w' - ⟨k, m₁, rfl, hk, hdone⟩
    rw [List.countP_append, Prog.wp_ite]
    split
    · rw [Prog.wp_bind]
      refine wp_updateBlkTime_any fun r m₂ h => ⟨k, m₂, rfl, by omega, hdone.trans h⟩
    · next hzero =>
        have hzero : x.2 = 0 := not_not.mp hzero
        rw [Prog.wp_bind]
        refine wp_insertBlock_any fun r l m₂ hl h => ⟨k + l, m₂, rfl, ?_, hdone.trans h⟩
        simp only [List.countP_singleton, hzero, decide_true, if_true]
        omega
  · rintro _ w' ⟨k, m', rfl, hk, hpost⟩
    have hsnd : (blkArr.zip hits).map Prod.snd = hits :=
      List.map_snd_zip hhits.length_eq.ge
    refine hQ k m' (hk.trans ?_) hpost
    rw [← congrArg (List.countP (· = 0)) hsnd, List.countP_map] at hzeros
    exact hzeros

end Mutators

end CacheFs
