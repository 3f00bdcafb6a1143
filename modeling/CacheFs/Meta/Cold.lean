/-
  CacheFs.Meta.Cold

  A file that has just been entered has no blocks.

  SQLite may give a new row of `Files` the id of a deleted one, so a block that
  outlived its file would be handed to another file.  None does: every statement
  keeps the constraints of the schema (`wf_handle`), also when the calls around it
  fail, and a fresh id is in no row of `Datablocks`.
-/

import CacheFs.Effect.Trace
import CacheFs.Meta.Frame
import CacheFs.Meta.Faults

namespace CacheFs

open CacheFs.Effect

-- ============================================================================
-- Every call
-- ============================================================================

section Handle

variable {c : Choice} {w : World} {op : Call}

/-- A statement leaves the database alone or does what it does. -/
theorem World.db_sql_cases (c : Choice) (w : World) (r : Option Db) :
    (w.sql c r).2.db = w.db ∨ r = some (w.sql c r).2.db := by
  unfold World.sql
  split
  · exact Or.inr rfl
  · exact Or.inl rfl

/-- What holds of the database and of every result of a statement holds after it. -/
theorem World.sql_db {I : Db → Prop} {r : Option Db} (h : I w.db)
    (hr : ∀ db, r = some db → I db) : I (w.sql c r).2.db := by
  rcases World.db_sql_cases c w r with heq | heq
  · rwa [heq]
  · exact hr _ heq

/-- The constraints hold after every call, whatever its outcome. -/
theorem wf_handle (h : w.db.WF) : (handle c op w).2.db.WF := by
  by_cases hframe : op.reachesMeta = false
  · rw [World.db, metadata_handle hframe]
    exact h
  cases op
  case insertFile => exact World.sql_db h fun db hi => h.insertFile hi
  case insertDatablock => exact World.sql_db h fun db hi => h.insertDatablock hi
  case addLocalSize => exact World.sql_db h fun db hi => Option.some.inj hi ▸ h.addLocalSize
  case subLocalSize => exact World.sql_db h fun db hi => Option.some.inj hi ▸ h.addLocalSize
  case deleteFile => exact World.sql_db h fun db hi => Option.some.inj hi ▸ h.deleteFile
  case deleteDatablock =>
    exact World.sql_db h fun db hi => Option.some.inj hi ▸ h.deleteDatablock
  case touchDatablock => exact World.sql_db h fun db hi => Option.some.inj hi ▸ h.touchDatablock
  -- lookups and counters
  all_goals first | exact h | exact absurd rfl hframe

/-- No other call than its insertion records a block. -/
theorem recorded_of_handle (h : w.db.WF) {n : FileName} {o : Nat}
    (hop : op ≠ .insertDatablock o n) (hr : (handle c op w).2.db.Recorded n o) :
    w.db.Recorded n o := by
  by_cases hframe : op.reachesMeta = false
  · rwa [World.db, metadata_handle hframe] at hr
  revert hr
  cases op
  case insertFile =>
    exact World.sql_db (I := fun db => db.Recorded n o → w.db.Recorded n o) id fun db hi =>
      (h.recorded_insertFile hi n o).mp
  case insertDatablock blkOffset filename =>
    refine World.sql_db (I := fun db => db.Recorded n o → w.db.Recorded n o) id fun db hi hr => ?_
    rcases (h.recorded_insertDatablock hi n o).mp hr with hr | ⟨rfl, rfl⟩
    · exact hr
    · exact absurd rfl hop
  case addLocalSize =>
    exact World.sql_db (I := fun db => db.Recorded n o → w.db.Recorded n o) id fun db hi =>
      Option.some.inj hi ▸ (Db.recorded_addLocalSize n o).mp
  case subLocalSize =>
    exact World.sql_db (I := fun db => db.Recorded n o → w.db.Recorded n o) id fun db hi =>
      Option.some.inj hi ▸ (Db.recorded_addLocalSize n o).mp
  case deleteFile =>
    exact World.sql_db (I := fun db => db.Recorded n o → w.db.Recorded n o) id fun db hi =>
      Option.some.inj hi ▸ fun hr => ((h.recorded_deleteFile n o).mp hr).1
  case deleteDatablock =>
    exact World.sql_db (I := fun db => db.Recorded n o → w.db.Recorded n o) id fun db hi =>
      Option.some.inj hi ▸ Db.recorded_of_deleteDatablock
  case touchDatablock =>
    exact World.sql_db (I := fun db => db.Recorded n o → w.db.Recorded n o) id fun db hi =>
      Option.some.inj hi ▸ (Db.recorded_touchDatablock n o).mp
  all_goals first | exact id | exact absurd rfl hframe

end Handle

-- ============================================================================
-- The calls of each function
-- ============================================================================

section Only

variable {ok : Call → Prop}

theorem only_ask {op : Call} (h : ok op) : Prog.Only ok (ask op) := ⟨h, fun _ => trivial⟩

theorem only_lookupRow {op : CfsM Rc} (hop : Prog.Only ok op) (hstep : ok .stepSelect) :
    Prog.Only ok (lookupRow op) :=
  Prog.only_bind hop fun _ => Prog.only_ite _ (Prog.only_ite _ trivial trivial)
    (Prog.only_bind (only_ask hstep) fun _ =>
      Prog.only_ite _ trivial (Prog.only_ite _ trivial trivial))

theorem only_areBlocksInCache {filename : FileName} {blkArr : List Nat}
    (hsel : ∀ o, ok (.selectBlockId o filename)) (hstep : ok .stepSelect) :
    Prog.Only ok (areBlocksInCache filename blkArr) :=
  Prog.only_foldlM (fun _ o _ => Prog.only_bind (only_lookupRow (only_ask (hsel o)) hstep)
    fun _ => Prog.only_pure _) _

theorem only_insertBlock {filename : FileName} {blkOffset : Nat}
    (hins : ok (.insertDatablock blkOffset filename)) (hget : ok .getMetaBlockSize)
    (hadd : ∀ n, ok (.addLocalSize n filename)) (hused : ∀ n, ok (.addCacheUsedSize n)) :
    Prog.Only ok (insertBlock filename blkOffset) :=
  Prog.only_bind (only_ask hins) fun _ => Prog.only_ite _ trivial (Prog.only_ite _ trivial
    (Prog.only_bind (only_ask hget) fun _ => Prog.only_bind (only_ask (hadd _)) fun _ =>
      Prog.only_ite _ trivial (Prog.only_ite _ trivial (Prog.only_bind (only_ask hget) fun _ =>
        Prog.only_bind (only_ask (hused _)) fun _ => trivial))))

theorem only_deleteBlock {filename : FileName} {blkOffset : Nat}
    (hdel : ok (.deleteDatablock blkOffset filename)) (hget : ok .getMetaBlockSize)
    (hsub : ∀ n, ok (.subLocalSize n filename)) (hused : ∀ n, ok (.addCacheUsedSize n)) :
    Prog.Only ok (deleteBlock filename blkOffset) :=
  Prog.only_bind (only_ask hdel) fun _ => Prog.only_ite _ trivial (Prog.only_ite _ trivial
    (Prog.only_bind (only_ask hget) fun _ => Prog.only_bind (only_ask (hsub _)) fun _ =>
      Prog.only_ite _ trivial (Prog.only_ite _ trivial (Prog.only_bind (only_ask hget) fun _ =>
        Prog.only_bind (only_ask (hused _)) fun _ => trivial))))

theorem only_updateBlkTime {filename : FileName} {blkOffset : Nat}
    (htouch : ok (.touchDatablock blkOffset filename)) :
    Prog.Only ok (updateBlkTime filename blkOffset) :=
  Prog.only_bind (only_ask htouch) fun _ => Prog.only_ite _ trivial
    (Prog.only_ite _ trivial trivial)

theorem only_createFile {filename : FileName} {remoteSize : Nat}
    (hins : ok (.insertFile filename remoteSize)) :
    Prog.Only ok (createFile filename remoteSize) :=
  Prog.only_bind (only_ask hins) fun _ => Prog.only_ite _ trivial
    (Prog.only_ite _ trivial trivial)

theorem only_deleteFile {filename : FileName} (hsel : ok (.selectLocalSize filename))
    (hused : ∀ n, ok (.addCacheUsedSize n)) (hstep : ok .stepSelect)
    (hdel : ok (.deleteFile filename)) : Prog.Only ok (deleteFile filename) := by
  have hlast : ∀ ret : Rc, Prog.Only ok (if ret ≠ .done then pure (-1)
      else if !finalizeOk ret then pure (-1)
      else do
        let ret ← ask (.deleteFile filename)
        if ret ≠ .done then pure (-1) else if !finalizeOk ret then pure (-1) else pure 0 :
      CfsM Int) := fun ret =>
    Prog.only_ite _ trivial (Prog.only_ite _ trivial (Prog.only_bind (only_ask hdel) fun _ =>
      Prog.only_ite _ trivial (Prog.only_ite _ trivial trivial)))
  refine Prog.only_bind (only_ask hsel) fun first => Prog.only_bind (only_ask (hused _)) fun _ => ?_
  exact Prog.only_ite _ (Prog.only_bind (only_ask hstep) hlast)
    (Prog.only_bind (only_ask hsel) fun again => hlast again.1)

theorem only_writeBlks {filename : FileName} {blkArr : List Nat}
    (hsel : ∀ o, ok (.selectBlockId o filename)) (hstep : ok .stepSelect)
    (htouch : ∀ o, ok (.touchDatablock o filename)) (hins : ∀ o, ok (.insertDatablock o filename))
    (hget : ok .getMetaBlockSize) (hadd : ∀ n, ok (.addLocalSize n filename))
    (hused : ∀ n, ok (.addCacheUsedSize n)) : Prog.Only ok (writeBlks filename blkArr) :=
  Prog.only_bind (only_areBlocksInCache hsel hstep) fun _ => Prog.only_bind
    (Prog.only_foldlM (fun _ _ _ => Prog.only_ite _
      (Prog.only_bind (only_updateBlkTime (htouch _)) fun _ => Prog.only_pure _)
      (Prog.only_bind (only_insertBlock (hins _) hget hadd hused) fun _ => Prog.only_pure _)) _)
    fun _ => trivial

end Only

-- ============================================================================
-- Runs
-- ============================================================================

/-- The functions of `meta.c` that change the tables. -/
inductive MetaCall where
  | createFile (filename : FileName) (remoteSize : Nat)
  | insertBlock (filename : FileName) (blkOffset : Nat)
  | insertBlocks (filename : FileName) (blkArr : List Nat)
  | writeBlks (filename : FileName) (blkArr : List Nat)
  | deleteBlock (filename : FileName) (blkOffset : Nat)
  | deleteBlocks (filename : FileName) (blkArr : List Nat)
  | deleteFile (filename : FileName)
  | updateBlkTime (filename : FileName) (blkOffset : Nat)

namespace MetaCall

def prog : MetaCall → CfsM Int
  | .createFile filename remoteSize => CacheFs.createFile filename remoteSize
  | .insertBlock filename blkOffset => CacheFs.insertBlock filename blkOffset
  | .insertBlocks filename blkArr => CacheFs.insertBlocks filename blkArr
  | .writeBlks filename blkArr => CacheFs.writeBlks filename blkArr
  | .deleteBlock filename blkOffset => CacheFs.deleteBlock filename blkOffset
  | .deleteBlocks filename blkArr => CacheFs.deleteBlocks filename blkArr
  | .deleteFile filename => CacheFs.deleteFile filename
  | .updateBlkTime filename blkOffset => CacheFs.updateBlkTime filename blkOffset

/-- The function may insert blocks of the file `n`. -/
def InsertsInto (n : FileName) : MetaCall → Prop
  | .insertBlock filename _ | .insertBlocks filename _ | .writeBlks filename _ => filename = n
  | _ => False

/-- Only the functions that insert into `n` issue an insertion for it. -/
theorem only_prog {n : FileName} {q : MetaCall} (h : ¬ q.InsertsInto n) :
    Prog.Only (fun op => ∀ o, op ≠ .insertDatablock o n) q.prog := by
  have hins : ∀ {filename : FileName}, filename ≠ n → ∀ blkOffset o,
      Call.insertDatablock blkOffset filename ≠ .insertDatablock o n := by
    intro filename hne blkOffset o heq
    exact hne (Call.insertDatablock.inj heq).2
  cases q with
  | createFile filename remoteSize => exact only_createFile fun _ => nofun
  | insertBlock filename blkOffset =>
      exact only_insertBlock (hins h _) (fun _ => nofun) (fun _ _ => nofun) fun _ _ => nofun
  | insertBlocks filename blkArr =>
      exact Prog.only_bind (Prog.only_foldlM (fun _ o _ => Prog.only_bind (only_insertBlock
        (hins h o) (fun _ => nofun) (fun _ _ => nofun) fun _ _ => nofun)
          fun _ => Prog.only_pure _) _)
        fun _ => trivial
  | writeBlks filename blkArr =>
      exact only_writeBlks (fun _ _ => nofun) (fun _ => nofun) (fun _ _ => nofun) (hins h)
        (fun _ => nofun) (fun _ _ => nofun) fun _ _ => nofun
  | deleteBlock filename blkOffset =>
      exact only_deleteBlock (fun _ => nofun) (fun _ => nofun) (fun _ _ => nofun) fun _ _ => nofun
  | deleteBlocks filename blkArr =>
      exact Prog.only_bind (Prog.only_foldlM (fun _ o _ => Prog.only_bind (only_deleteBlock
        (fun _ => nofun) (fun _ => nofun) (fun _ _ => nofun) fun _ _ => nofun) fun _ =>
          Prog.only_pure _) _)
        fun _ => trivial
  | deleteFile filename =>
      exact only_deleteFile (fun _ => nofun) (fun _ _ => nofun) (fun _ => nofun) fun _ => nofun
  | updateBlkTime filename blkOffset => exact only_updateBlkTime fun _ => nofun

end MetaCall

/-- One function that meets `cond` has returned; any of its statements may have
    failed. -/
def MetaStep (cond : MetaCall → Prop) (w w' : World) : Prop :=
  ∃ q ret, cond q ∧ Prog.Exec (env anyOutcome False) q.prog w ret w'

abbrev MetaRun (cond : MetaCall → Prop) : World → World → Prop :=
  Relation.ReflTransGen (MetaStep cond)

section Runs

variable {w w' : World} {cond : MetaCall → Prop}

/-- Every program keeps the constraints. -/
theorem wf_exec {α : Type} {A : Choice → Call → World → Prop} {S : Prop} {p : CfsM α} {r : α}
    (h : w.db.WF) (he : Prog.Exec (env A S) p w r w') : w'.db.WF := by
  obtain ⟨tr, htr⟩ := Prog.exec_traced he
  exact (Prog.Stopped.invariant (I := fun w => w.db.WF) (Prog.only_true p)
    (fun _ _ _ _ _ => wf_handle) h htr.stopped).1

theorem MetaRun.wf (h : MetaRun cond w w') (hwf : w.db.WF) : w'.db.WF := by
  induction h with
  | refl => exact hwf
  | tail _ hs ih =>
      obtain ⟨q, ret, -, he⟩ := hs
      exact wf_exec ih he

/-- A file without blocks has none until one is inserted. -/
theorem MetaRun.cold {n : FileName} (h : MetaRun (fun q => ¬ q.InsertsInto n) w w')
    (hwf : w.db.WF) (hcold : ∀ o, ¬ w.db.Recorded n o) : ∀ o, ¬ w'.db.Recorded n o := by
  induction h with
  | refl => exact hcold
  | @tail w₁ w₂ h₁ hs ih =>
      obtain ⟨q, ret, hq, he⟩ := hs
      obtain ⟨tr, htr⟩ := Prog.exec_traced he
      have hwf₁ := MetaRun.wf h₁ hwf
      refine ((Prog.Stopped.invariant (I := fun w => w.db.WF ∧ ∀ o, ¬ w.db.Recorded n o)
        (MetaCall.only_prog hq) (fun c op w hop _ hw => ⟨wf_handle hw.1, fun o hr => ?_⟩)
        ⟨hwf₁, ih⟩ htr.stopped).1).2
      exact hw.2 o (recorded_of_handle hw.1 (hop o) hr)

/-- In every state reached from an empty database each block refers to a file, and
    a file that has just been created is cold until one of its blocks is inserted:
    it has no blocks, its size is zero, and a lookup none of whose statements fails
    reports no hit. -/
theorem created_file_starts_cold {w₀ : World} (h₀ : w₀.db = {})
    (hrun : MetaRun (fun _ => True) w₀ w) :
    (∀ b ∈ w.db.datablocks, ∃ f ∈ w.db.files, f.fileId = b.fileId) ∧
    ∀ g remoteSize w₁, Prog.Exec (env anyOutcome False) (createFile g remoteSize) w 0 w₁ →
      (∀ o, ¬ w₁.db.Recorded g o) ∧ w₁.db.localSize? g = some 0 ∧
      ∀ w₂, MetaRun (fun q => ¬ q.InsertsInto g) w₁ w₂ → ∀ blkArr r w₃,
        Prog.Exec (env constraintsOnly False) (areBlocksInCache g blkArr) w₂ r w₃ →
        r = (if blkArr = [] then 1 else 0, blkArr.map fun _ => 0) := by
  have hwf : w.db.WF := MetaRun.wf hrun (h₀ ▸ Db.wf_empty)
  refine ⟨hwf.foreignKey, fun g remoteSize w₁ he => ?_⟩
  -- what a successful creation has done
  have hcreated : (∀ o, ¬ w₁.db.Recorded g o) ∧ w₁.db.localSize? g = some 0 := by
    refine Prog.wp_exec (E := env anyOutcome False) (Q := fun r w₁ => r = 0 →
      (∀ o, ¬ w₁.db.Recorded g o) ∧ w₁.db.localSize? g = some 0) ?_ he rfl
    refine wp_createFile_any (fun hret => absurd hret (by decide)) fun db hi _ => ?_
    have hwf' := hwf.insertFile hi
    have hrec := hwf.recorded_insertFile hi g
    obtain ⟨hnew, rfl⟩ := Db.insertFile_eq_some hi
    refine ⟨fun o hr => hnew ((hrec o).mp hr).hasFile, ?_⟩
    exact hwf'.localSize?_eq (f := w.db.newFile g remoteSize)
      (List.mem_append_right _ (List.mem_singleton_self _))
  refine ⟨hcreated.1, hcreated.2, fun w₂ hrun₂ blkArr r w₃ hlook => ?_⟩
  have hwf₁ := wf_exec hwf he
  have hwf₂ := MetaRun.wf hrun₂ hwf₁
  have hmiss : ∀ o, w₂.db.selectBlockId o g = false := by
    intro o
    have hcold := MetaRun.cold hrun₂ hwf₁ hcreated.1 o
    rw [← hwf₂.selectBlockId_iff] at hcold
    simpa using hcold
  refine Prog.wp_exec (Q := fun r _ => r = (if blkArr = [] then 1 else 0, blkArr.map fun _ => 0))
    (wp_areBlocksInCache sqlSucceeds_constraintsOnly ?_) hlook
  cases blkArr with
  | nil => rfl
  | cons o blkArr =>
      have hflags : (o :: blkArr).map (w₂.db.hitFlag g) = (o :: blkArr).map fun _ => 0 :=
        List.map_congr_left fun o _ => by simp [Db.hitFlag, hmiss]
      rw [hflags]
      simp [hmiss]

end Runs

/-- A second file that gets the id of a deleted one does not get its block. -/
theorem created_file_starts_cold_reused : ∃ w₁ : World, w₁.db.fileId? ['/', 'b'] = some 1 ∧
    ∀ o, ¬ w₁.db.Recorded ['/', 'b'] o := by
  have next (q : MetaCall) {w₀ w w' : World} {ret : Int} (h : MetaRun (fun _ => True) w₀ w)
      (hr : Prog.runAllowed (env anyOutcome False) (fun _ => {}) q.prog w = some (ret, w')) :
      MetaRun (fun _ => True) w₀ w' :=
    h.tail ⟨q, ret, trivial, Prog.exec_of_runAllowed _ hr⟩
  have hstart : MetaRun (fun _ => True) (World.init .empty .empty) _ := .refl
  have hfile := next (.createFile ['/', 'a'] 10) hstart rfl
  have hblock := next (.insertBlock ['/', 'a'] 0) hfile rfl
  have hrun := next (.deleteFile ['/', 'a']) hblock rfl
  have exec {p : CfsM Int} {w w' : World} {r : Int} (hr : Prog.runAllowed (env anyOutcome False)
      (fun _ => {}) p w = some (r, w')) : Prog.Exec (env anyOutcome False) p w r w' :=
    Prog.exec_of_runAllowed _ hr
  have hnew := (created_file_starts_cold rfl hrun).2 ['/', 'b'] 5 _ (exec rfl)
  exact ⟨_, rfl, hnew.1⟩

end CacheFs
