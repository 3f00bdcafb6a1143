/-
  CacheFs.Concurrent

  The sizes when calls of `meta.c` run at the same time.

  FUSE runs the callbacks on several threads, and `meta.c` has one connection and one
  counter for all of them.  A statement is one step and so is an update of
  `cache_used_size`, but `insert_block` and `delete_file` take three steps each and
  between them the counter, the column and the rows disagree.  `Pending` says how far a
  call has got, from the calls it has made; `Tallied` is the invariant of all
  interleavings, in which the three copies agree up to what the calls under way still owe.

  The DELETE of `delete_file` is the one step that needs the others to keep out:
  the size it read has to be the size of the row it deletes, and no `insert_block` may have
  entered a row of that file that it has not counted (`Undisturbed`).  Two deletions
  of one file subtract its size twice.
-/

import CacheFs.Effect.Interleave
import CacheFs.Meta.Account

namespace CacheFs

open CacheFs.Effect

-- ============================================================================
-- How far a call has got
-- ============================================================================

/-- What a call has done of an insertion or a deletion. -/
inductive Pending where
  | idle
  /-- A row of the file is in, `local_size` and the counter do not know it. -/
  | inserted (filename : FileName)
  /-- The row is in `local_size`, the counter does not know it. -/
  | raised
  /-- `local_size` has been read. -/
  | read (filename : FileName) (size : Int)
  /-- What was read has been taken off the counter, the file is still there. -/
  | lowered (filename : FileName) (size : Int)
  /-- The calls are not those of `meta.c`. -/
  | broken
deriving DecidableEq

namespace Pending

/-- The effect of one call and its reply, where `meta_block_size` is `bs`. -/
def next (bs : Nat) (a : Pending) : (op : Call) → op.Reply → Pending
  | .insertFile _ _, _ | .touchDatablock _ _, _ | .selectBlockId _ _, _ | .stepSelect, _
  | .getMetaBlockSize, _ => a
  | .insertDatablock _ n, ret =>
      if ret = .done then if a = .idle then .inserted n else .broken else a
  | .addLocalSize x n, _ => if a = .inserted n ∧ x = bs then .raised else .broken
  | .selectLocalSize n, r =>
      match a with
      | .idle => .read n r.2
      | .lowered n s => .lowered n s
      | _ => .broken
  | .addCacheUsedSize x, _ =>
      match a with
      | .raised => if x = bs then .idle else .broken
      | .read n s => if x = -s then .lowered n s else .broken
      | _ => .broken
  | .deleteFile n, _ =>
      match a with
      | .lowered n' _ => if n' = n then .idle else .broken
      | _ => .broken
  | _, _ => .broken

/-- What the call still has to do to the counter, or has done too early. -/
def owed (bs : Nat) : Pending → Int
  | .raised => -bs
  | .lowered _ s => -s
  | _ => 0

section Owed

variable (bs : Nat) (n : FileName) (size : Int)

@[simp] theorem owed_idle : owed bs .idle = 0 := rfl
@[simp] theorem owed_inserted : owed bs (.inserted n) = 0 := rfl
@[simp] theorem owed_raised : owed bs .raised = -bs := rfl
@[simp] theorem owed_read : owed bs (.read n size) = 0 := rfl
@[simp] theorem owed_lowered : owed bs (.lowered n size) = -size := rfl

end Owed

/-- A call may return like this: with nothing to do, or with nothing taken off for a file
    that was not there. -/
def Settled (a : Pending) : Prop := a = .idle ∨ ∃ n, a = .lowered n 0

end Pending

/-- The condition.  When a file is deleted its size is what was taken off the counter, and no
    other call has a row of it that is not in `local_size`; a size that is raised stays in
    the range of the column, and the sum of the sizes in that of the counter. -/
def Undisturbed (others : List Pending) (a : Pending) : Call → World → Prop
  | .deleteFile n, w =>
      a = .lowered n ((w.db.localSize? n).getD 0) ∧ Pending.inserted n ∉ others
  | .addLocalSize x n, w =>
      (∀ f ∈ w.db.files, f.relativePath = n → f.localSize + x < 2 ^ 63) ∧
        (w.db.addLocalSize x n).total < 2 ^ 64
  | _, _ => True

instance (others : List Pending) (a : Pending) (op : Call) (w : World) :
    Decidable (Undisturbed others a op w) := by
  unfold Undisturbed
  split <;> infer_instance

/-- Calls of `meta.c` under way together. -/
abbrev Calls : Type := Pool Call Call.Reply Pending World Int

/-- The calls before their first step. -/
def Calls.start (ops : List MetaOp) (w : World) : Calls := Pool.start .idle (ops.map MetaOp.prog) w

-- ============================================================================
-- Each call alone
-- ============================================================================

section Alone

variable {bs : Nat}

/-- One call of `meta.c`, the others changing the state between its steps. -/
abbrev alone (bs : Nat) : Env Call Call.Reply Pending (Choice × World) :=
  (env constraintsOnly False).alone (Pending.next bs) (fun w => w.metadata.metaBlockSize = bs)
    (· ≠ .broken)

theorem wp_alone_call {α : Type} {op : Call} {k : op.Reply → CfsM α} {Q : α → Pending → Prop}
    {a : Pending} : Prog.wp (alone bs) (.call op k) Q a ↔
      ∀ c w, w.metadata.metaBlockSize = bs → (op.isSql = true → c.err = none) →
        Pending.next bs a op (handle c op w).1 ≠ .broken ∧
          Prog.wp (alone bs) (k (handle c op w).1) Q (Pending.next bs a op (handle c op w).1) := by
  simp only [Prog.wp_call, Prod.forall, Env.alone, env, constraintsOnly, and_imp]

/-- A call that leaves what is pending as it is. -/
theorem wp_alone_ask {op : Call} {a : Pending} {Q : op.Reply → Pending → Prop}
    (hnext : ∀ r, Pending.next bs a op r = a) (ha : a ≠ .broken) (hQ : ∀ r, Q r a) :
    Prog.wp (alone bs) (ask op) Q a := by
  rw [ask, wp_alone_call]
  intro c w _ _
  rw [hnext]
  exact ⟨ha, hQ _⟩

theorem wp_alone_createFile {filename : FileName} {remoteSize : Nat} :
    Prog.wp (alone bs) (createFile filename remoteSize) (fun _ a => a = .idle) .idle := by
  unfold createFile
  rw [Prog.wp_bind]
  refine wp_alone_ask (fun _ => rfl) nofun fun r => ?_
  split
  · rfl
  · split <;> rfl

theorem wp_alone_updateBlkTime {filename : FileName} {blkOffset : Nat} :
    Prog.wp (alone bs) (updateBlkTime filename blkOffset) (fun _ a => a = .idle) .idle := by
  unfold updateBlkTime
  rw [Prog.wp_bind]
  refine wp_alone_ask (fun _ => rfl) nofun fun r => ?_
  split
  · rfl
  · split <;> rfl

/-- The row, the column, the counter: the three steps of an insertion. -/
theorem wp_alone_insertBlock {filename : FileName} {blkOffset : Nat} :
    Prog.wp (alone bs) (insertBlock filename blkOffset) (fun _ a => a = .idle) .idle := by
  unfold insertBlock
  simp only [Prog.wp_bind, ask, wp_alone_call, Prog.wp_ret]
  intro c w _ herr
  cases hi : w.db.insertDatablock blkOffset filename c.now with
  | none =>
      simp only [handle, hi, World.sql_none, tests_error, Prog.wp_pure]
      exact ⟨by simp [Pending.next], rfl⟩
  | some db =>
      simp only [handle, hi, World.sql_some (herr rfl), tests_done, Prog.wp_bind, wp_alone_call,
        Prog.wp_ret, Pending.next, if_true]
      refine ⟨by simp, fun _ w₁ hbs₁ _ => ⟨by simp, fun c₂ w₂ _ herr₂ => ?_⟩⟩
      simp only [hbs₁, World.sql_some (herr₂ rfl), tests_done, Prog.wp_bind, wp_alone_call,
        Prog.wp_ret, Prog.wp_pure, and_self, if_true]
      refine ⟨by simp, fun _ w₃ hbs₃ _ => ⟨by simp [Pending.next], fun _ w₄ _ _ => ?_⟩⟩
      simp only [handle, Pending.next, hbs₃, if_true]
      exact ⟨by simp, trivial⟩

theorem wp_alone_isBlkInCache {filename : FileName} {blkOffset : Nat} :
    Prog.wp (alone bs) (isBlkInCache filename blkOffset) (fun _ a => a = .idle) .idle := by
  unfold isBlkInCache lookupRow
  rw [Prog.wp_bind]
  refine wp_alone_ask (fun _ => rfl) nofun fun ret => ?_
  rw [Prog.wp_ite]
  split
  · split <;> rfl
  · rw [Prog.wp_bind]
    refine wp_alone_ask (fun _ => rfl) nofun fun ret => ?_
    split
    · rfl
    · split <;> rfl

/-- The rows are looked up first and then inserted or touched, whatever happens in
    between. -/
theorem wp_alone_writeBlks {filename : FileName} {blkArr : List Nat} :
    Prog.wp (alone bs) (writeBlks filename blkArr) (fun _ a => a = .idle) .idle := by
  unfold writeBlks areBlocksInCache
  rw [Prog.wp_bind]
  refine Prog.wp_mono (Prog.wp_foldlM (I := fun _ _ a => a = .idle) rfl ?_) ?_
  · rintro done x rest acc a - rfl
    rw [Prog.wp_bind]
    exact Prog.wp_mono wp_alone_isBlkInCache fun hit a h => h
  · rintro found a rfl
    rw [Prog.wp_bind]
    refine Prog.wp_mono (Prog.wp_foldlM (I := fun _ _ a => a = .idle) rfl ?_) ?_
    · rintro done e rest _ a - rfl
      dsimp only
      split
      · rw [Prog.wp_bind]
        exact Prog.wp_mono wp_alone_updateBlkTime fun _ a h => h
      · rw [Prog.wp_bind]
        exact Prog.wp_mono wp_alone_insertBlock fun _ a h => h
    · exact fun _ a h => h

theorem wp_alone_insertBlocks {filename : FileName} {blkArr : List Nat} :
    Prog.wp (alone bs) (insertBlocks filename blkArr) (fun _ a => a = .idle) .idle := by
  unfold insertBlocks
  rw [Prog.wp_bind]
  refine Prog.wp_mono (Prog.wp_foldlM (I := fun _ _ a => a = .idle) rfl ?_) ?_
  · rintro done blkOffset rest _ a - rfl
    rw [Prog.wp_bind]
    exact Prog.wp_mono wp_alone_insertBlock fun _ a h => h
  · exact fun _ a h => h

/-- The DELETE clears what is pending.  Where it is not reached, nothing may have been
    taken off the counter. -/
theorem wp_alone_deleteRow {filename : FileName} {size : Int} {ret : Rc}
    (h : ret ≠ .done → size = 0) : Prog.wp (alone bs)
      (if ret ≠ .done then pure (-1) else if !finalizeOk ret then pure (-1) else do
        let ret ← ask (.deleteFile filename)
        if ret ≠ .done then pure (-1)
        else if !finalizeOk ret then pure (-1)
        else pure 0 : CfsM Int) (fun _ a => a.Settled) (.lowered filename size) := by
  by_cases hret : ret = .done
  · rw [hret, tests_done]
    simp only [Prog.wp_bind, ask, wp_alone_call, Prog.wp_ret, Pending.next, if_true]
    refine fun c w _ _ => ⟨by simp, ?_⟩
    split
    · exact Or.inl rfl
    · split <;> exact Or.inl rfl
  · rw [if_pos hret, h hret]
    exact Or.inr ⟨filename, rfl⟩

theorem wp_alone_deleteFile {filename : FileName} :
    Prog.wp (alone bs) (deleteFile filename) (fun _ a => a.Settled) .idle := by
  unfold deleteFile
  simp only [Prog.wp_bind, ask, wp_alone_call, Prog.wp_ret, Pending.next]
  intro c w _ herr
  refine ⟨by simp, fun c₁ w₁ _ _ => ?_⟩
  simp only [handle, World.select_eq (herr rfl), herr rfl, Option.isSome_none, Bool.false_eq_true,
    if_false, if_true]
  refine ⟨by simp, ?_⟩
  cases w.db.localSize? filename with
  | none =>
      -- the SELECT runs again and may find a file that is new
      simp only [Option.isSome_none, Bool.false_eq_true, if_false, reduceCtorEq, Prog.wp_bind,
        wp_alone_call, Prog.wp_ret, Prog.wp_pure, Pending.next]
      exact fun c₂ w₂ _ _ => ⟨by simp, wp_alone_deleteRow fun _ => rfl⟩
  | some size =>
      simp only [Option.isSome_some, if_true, Prog.wp_bind, wp_alone_call, Prog.wp_ret,
        Pending.next]
      refine fun c₂ w₂ _ herr₂ => ⟨by simp, wp_alone_deleteRow fun hret => absurd ?_ hret⟩
      simp only [handle, World.select_eq (herr₂ rfl), Bool.false_eq_true, if_false]

theorem MetaOp.wp_alone (o : MetaOp) :
    Prog.wp (alone bs) o.prog (fun _ a => a.Settled) .idle := by
  have hidle {α : Type} {p : CfsM α} (h : Prog.wp (alone bs) p (fun _ a => a = .idle) .idle) :
      Prog.wp (alone bs) p (fun _ a => a.Settled) .idle := Prog.wp_mono h fun _ _ => Or.inl
  cases o with
  | createFile filename remoteSize => exact hidle wp_alone_createFile
  | deleteFile filename => exact wp_alone_deleteFile
  | insertBlock filename blkOffset => exact hidle wp_alone_insertBlock
  | insertBlocks filename blkArr => exact hidle wp_alone_insertBlocks
  | writeBlks filename blkArr => exact hidle wp_alone_writeBlks
  | updateBlkTime filename blkOffset => exact hidle wp_alone_updateBlkTime

end Alone

-- ============================================================================
-- The invariant of all interleavings
-- ============================================================================

/-- The three copies while calls are under way.  The counter is the sum of the column up
    to what is owed, modulo the range of `size_t`, and the column is behind the rows by the
    rows that have not been counted. -/
structure Tallied (bs : Nat) (gs : List Pending) (m : MetaState) : Prop where
  wf : m.db.WF
  blockSize : m.metaBlockSize = bs
  nonneg : ∀ f ∈ m.db.files, 0 ≤ f.localSize
  total_lt : m.db.total < 2 ^ 64
  used : m.cacheUsedSize = wrap64 (m.db.total + (gs.map (·.owed bs)).sum)
  localSize : ∀ f ∈ m.db.files, f.localSize + (bs * gs.count (.inserted f.relativePath) : Nat) =
    m.db.blocksSize (fun _ => bs) f.fileId
  hasFile : ∀ n, Pending.inserted n ∈ gs → m.db.HasFile n

namespace Tallied

variable {bs : Nat} {g g' : Pending} {gs gs' : List Pending} {m : MetaState}
variable {filename : FileName} {db : Db}

theorem perm (h : Tallied bs gs m) (hp : gs.Perm gs') : Tallied bs gs' m where
  wf := h.wf
  blockSize := h.blockSize
  nonneg := h.nonneg
  total_lt := h.total_lt
  used := by rw [h.used, (hp.map _).sum_eq]
  localSize f hf := by rw [← hp.count_eq, h.localSize f hf]
  hasFile n hn := h.hasFile n (hp.mem_iff.mpr hn)

/-- Calls that have no uncounted row are not seen by the column. -/
theorem count_cons (hg : ∀ n, g ≠ .inserted n) (n : FileName) :
    (g :: gs).count (.inserted n) = gs.count (.inserted n) :=
  List.count_cons_of_ne (hg n)

theorem count_cons_inserted (n n' : FileName) : (Pending.inserted n :: gs).count (.inserted n') =
    gs.count (.inserted n') + if n' = n then 1 else 0 := by
  rw [List.count_cons]
  congr 1
  exact if_congr (by rw [beq_iff_eq, Pending.inserted.injEq, eq_comm]) rfl rfl

theorem mem_of_mem_cons (hg : ∀ n, g ≠ .inserted n) {n : FileName}
    (h : Pending.inserted n ∈ g :: gs) : Pending.inserted n ∈ gs :=
  (List.mem_cons.mp h).resolve_left fun he => hg n he.symm

/-- The counter moves by what is owed less. -/
theorem addUsed (h : Tallied bs (g :: gs) m) {x : Int} (hx : g'.owed bs = g.owed bs + x)
    (hg : ∀ n, g ≠ .inserted n) (hg' : ∀ n, g' ≠ .inserted n) :
    Tallied bs (g' :: gs) { m with cacheUsedSize := wrap64 (m.cacheUsedSize + x) } where
  wf := h.wf
  blockSize := h.blockSize
  nonneg := h.nonneg
  total_lt := h.total_lt
  used := by
    dsimp only
    rw [h.used, wrap64_add, List.map_cons, List.sum_cons, List.map_cons, List.sum_cons, hx]
    congr 1
    omega
  localSize f hf := by rw [count_cons hg', ← count_cons hg, h.localSize f hf]
  hasFile n hn := h.hasFile n (List.mem_cons_of_mem _ (mem_of_mem_cons hg' hn))

/-- A step that changes what is pending and nothing else. -/
theorem relabel (h : Tallied bs (g :: gs) m) (hx : g'.owed bs = g.owed bs)
    (hg : ∀ n, g ≠ .inserted n) (hg' : ∀ n, g' ≠ .inserted n) : Tallied bs (g' :: gs) m where
  wf := h.wf
  blockSize := h.blockSize
  nonneg := h.nonneg
  total_lt := h.total_lt
  used := by rw [h.used, List.map_cons, List.map_cons, List.sum_cons, List.sum_cons, hx]
  localSize f hf := by rw [count_cons hg', ← count_cons hg, h.localSize f hf]
  hasFile n hn := h.hasFile n (List.mem_cons_of_mem _ (mem_of_mem_cons hg' hn))

/-- A new file has no rows, and no call can have entered one. -/
theorem insertFile (h : Tallied bs gs m) {remoteSize : Nat}
    (hi : m.db.insertFile filename remoteSize = some db) : Tallied bs gs { m with db } := by
  have hwf := h.wf.insertFile hi
  have hfile := Db.hasFile_insertFile hi
  obtain ⟨hnew, rfl⟩ := Db.insertFile_eq_some hi
  have htotal : ({ m.db with files := m.db.files ++ [m.db.newFile filename remoteSize] } : Db).total
      = m.db.total := by
    simp only [Db.total, Db.newFile, List.map_append, List.sum_append, List.map_cons, List.map_nil,
      List.sum_cons, List.sum_nil, Int.add_zero]
  refine ⟨hwf, h.blockSize, fun f hf => ?_, htotal ▸ h.total_lt, htotal ▸ h.used, fun f hf => ?_,
    fun n hn => (hfile n).mpr (.inl (h.hasFile n hn))⟩ <;>
    rcases List.mem_append.mp hf with hf | hf
  · exact h.nonneg f hf
  · rw [List.mem_singleton.mp hf]
    exact le_refl _
  · exact h.localSize f hf
  · have hcount : gs.count (.inserted filename) = 0 :=
      List.count_eq_zero.mpr fun hn => hnew (h.hasFile _ hn)
    rw [List.mem_singleton.mp hf, Db.newFile, hcount, Nat.mul_zero]
    exact congrArg Nat.cast (h.wf.blocksSize_fresh fun _ => bs).symm

theorem touchDatablock (h : Tallied bs gs m) (blkOffset : Nat) (now : Int) :
    Tallied bs gs { m with db := m.db.touchDatablock blkOffset filename now } := by
  have htotal : (m.db.touchDatablock blkOffset filename now).total = m.db.total := by
    rw [Db.total, Db.files_touchDatablock, Db.total]
  refine ⟨h.wf.touchDatablock, h.blockSize, fun f hf => ?_, htotal ▸ h.total_lt, htotal ▸ h.used,
    fun f hf => ?_, fun n hn => (Db.hasFile_touchDatablock n).mpr (h.hasFile n hn)⟩ <;>
    rw [Db.files_touchDatablock] at hf
  · exact h.nonneg f hf
  · rw [Db.blocksSize_touchDatablock]
    exact h.localSize f hf

/-- A row is entered, which `local_size` does not know yet. -/
theorem insertRow (h : Tallied bs (.idle :: gs) m) {blkOffset : Nat} {now : Int}
    (hi : m.db.insertDatablock blkOffset filename now = some db) :
    Tallied bs (.inserted filename :: gs) { m with db } := by
  have hwf := h.wf.insertDatablock hi
  obtain ⟨f, hf, rfl, -, rfl⟩ := Db.insertDatablock_eq_some hi
  refine ⟨hwf, h.blockSize, h.nonneg, h.total_lt, h.used, fun g hg => ?_, fun n hn => ?_⟩
  · have hrow := h.localSize g hg
    rw [count_cons (fun _ => Pending.noConfusion)] at hrow
    rw [h.wf.blocksSize_insertRow _ hf hg rfl, count_cons_inserted, Nat.mul_add]
    push_cast at hrow ⊢
    rw [← hrow]
    split <;> simp [Int.add_assoc]
  · rcases List.mem_cons.mp hn with hn | hn
    · exact ⟨f, hf, (Pending.inserted.inj hn).symm⟩
    · exact h.hasFile n (List.mem_cons_of_mem _ hn)

/-- `local_size` comes to know the row, and the counter is behind. -/
theorem addLocalSize (h : Tallied bs (.inserted filename :: gs) m)
    (hlt : (m.db.addLocalSize bs filename).total < 2 ^ 64) :
    Tallied bs (.raised :: gs) { m with db := m.db.addLocalSize bs filename } := by
  have htotal := Db.total_addLocalSize h.wf.uniquePath (h.hasFile _ List.mem_cons_self) bs
  refine ⟨h.wf.addLocalSize, h.blockSize, fun g hg => ?_, hlt, ?_, fun g hg => ?_,
    fun n hn => (Db.hasFile_addLocalSize n).mpr (h.hasFile n (List.mem_cons_of_mem _
      (mem_of_mem_cons (fun _ => Pending.noConfusion) hn)))⟩
  · obtain ⟨f, hf, rfl⟩ := Db.mem_addLocalSize.mp hg
    have hf := h.nonneg f hf
    dsimp only
    split <;> omega
  · rw [h.used, htotal, List.map_cons, List.map_cons, List.sum_cons, List.sum_cons,
      Pending.owed_inserted, Pending.owed_raised]
    congr 1
    omega
  · obtain ⟨f, hf, rfl⟩ := Db.mem_addLocalSize.mp hg
    have hrow := h.localSize f hf
    rw [count_cons_inserted, Nat.mul_add] at hrow
    rw [count_cons (fun _ => Pending.noConfusion)]
    simp only [Db.blocksSize, Db.addLocalSize] at hrow ⊢
    rw [← hrow]
    by_cases hp : f.relativePath = filename
    · rw [if_pos hp, if_pos hp, Nat.mul_one, Int.natCast_add, Int.natCast_mul]
      omega
    · rw [if_neg hp, if_neg hp, Nat.mul_zero, Nat.add_zero, Int.natCast_mul]

/-- A sum that stays in the range of the column keeps every size in it. -/
theorem undisturbed_addLocalSize {w : World} (h : Tallied bs gs w.metadata) {x : Int}
    {n : FileName} (hroom : w.db.total + x < 2 ^ 63) (others : List Pending) (a : Pending) :
    Undisturbed others a (.addLocalSize x n) w := by
  refine ⟨fun f hf _ => ?_, ?_⟩
  · have hle : f.localSize ≤ w.db.total := Db.localSize_le_total h.nonneg hf
    omega
  · by_cases hfile : w.db.HasFile n
    · have htotal : (w.db.addLocalSize x n).total = w.db.total + x :=
        Db.total_addLocalSize h.wf.uniquePath hfile x
      omega
    · rw [Db.addLocalSize_of_not_hasFile x hfile]
      exact h.total_lt

/-- The row of `Files` goes with the size that was taken off the counter, and no uncounted
    row goes with it. -/
theorem deleteFile
    (h : Tallied bs (.lowered filename ((m.db.localSize? filename).getD 0) :: gs) m)
    (hfree : Pending.inserted filename ∉ gs) :
    Tallied bs (.idle :: gs) { m with db := m.db.deleteFile filename } := by
  have htotal : (m.db.deleteFile filename).total = _ := Db.total_deleteFile h.wf.uniquePath
  have hsize := Db.localSize?_nonneg h.nonneg filename
  refine ⟨h.wf.deleteFile, h.blockSize, fun f hf => ?_, ?_, ?_, fun f hf => ?_, fun n hn => ?_⟩
  · exact h.nonneg f (Db.mem_files_deleteFile.mp hf).1
  · have hlt := h.total_lt
    dsimp only
    omega
  · rw [h.used, htotal, List.map_cons, List.map_cons, List.sum_cons, List.sum_cons,
      Pending.owed_lowered, Pending.owed_idle]
    congr 1
    omega
  · obtain ⟨hf, hne⟩ := Db.mem_files_deleteFile.mp hf
    have hrow := h.localSize f hf
    rw [count_cons (fun _ => Pending.noConfusion)] at hrow ⊢
    rw [hrow, h.wf.blocksSize_deleteFile _ hf hne]
  · have hn := mem_of_mem_cons (fun _ => Pending.noConfusion) hn
    refine (Db.hasFile_deleteFile n).mpr ⟨h.hasFile n (List.mem_cons_of_mem _ hn), ?_⟩
    rintro rfl
    exact hfree hn

/-- One call of one thread. -/
theorem call {op : Call} {c : Choice} {w : World} (h : Tallied bs (g :: gs) w.metadata)
    (ha : constraintsOnly c op w) (hmay : Undisturbed gs g op w)
    (hok : Pending.next bs g op (handle c op w).1 ≠ .broken) :
    Tallied bs (Pending.next bs g op (handle c op w).1 :: gs) (handle c op w).2.metadata := by
  cases op with
  | selectBlockId blkOffset filename | stepSelect | getMetaBlockSize => exact h
  | insertFile filename remoteSize =>
      cases hi : w.db.insertFile filename remoteSize with
      | none =>
          simp only [handle, hi, World.sql_none]
          exact h
      | some db =>
          simp only [handle, hi, World.sql_some (ha rfl)]
          exact h.insertFile hi
  | touchDatablock blkOffset filename =>
      simp only [handle, World.sql_some (ha rfl)]
      exact h.touchDatablock blkOffset c.now
  | insertDatablock blkOffset filename =>
      cases hi : w.db.insertDatablock blkOffset filename c.now with
      | none =>
          simp only [handle, hi, World.sql_none]
          exact h
      | some db =>
          simp only [handle, hi, World.sql_some (ha rfl), Pending.next, if_true] at hok ⊢
          by_cases hg : g = .idle
          · rw [hg] at h
            rw [if_pos hg]
            exact h.insertRow hi
          · exact absurd (if_neg hg) hok
  | addLocalSize x filename =>
      by_cases hg : g = .inserted filename ∧ x = bs
      · obtain ⟨rfl, rfl⟩ := hg
        simp only [handle, World.sql_some (ha rfl), Pending.next, and_self, if_true]
        exact h.addLocalSize hmay.2
      · exact absurd (if_neg hg) hok
  | selectLocalSize filename =>
      cases g with
      | idle =>
          exact h.relabel rfl (fun _ => Pending.noConfusion) fun _ => Pending.noConfusion
      | lowered n s => exact h
      | _ => exact absurd rfl hok
  | addCacheUsedSize x =>
      cases g with
      | raised =>
          by_cases hx : x = bs
          · rw [Pending.next, if_pos hx]
            refine h.addUsed ?_ (fun _ => Pending.noConfusion) fun _ => Pending.noConfusion
            rw [Pending.owed_idle, Pending.owed_raised, hx]
            omega
          · exact absurd (if_neg hx) hok
      | read n s =>
          by_cases hx : x = -s
          · rw [Pending.next, if_pos hx]
            refine h.addUsed ?_ (fun _ => Pending.noConfusion) fun _ => Pending.noConfusion
            rw [Pending.owed_lowered, Pending.owed_read, hx]
            omega
          · exact absurd (if_neg hx) hok
      | _ => exact absurd rfl hok
  | deleteFile filename =>
      obtain ⟨rfl, hfree⟩ := hmay
      simp only [handle, World.sql_some (ha rfl), Pending.next, if_true]
      exact h.deleteFile hfree
  | _ => exact absurd rfl hok

/-- Before the calls nothing is pending. -/
theorem start {m : MetaState} (h : SizesAgree m) (hlt : m.cacheUsedSize < 2 ^ 64) (n : Nat) :
    Tallied m.metaBlockSize (List.replicate n .idle) m := by
  have hused := h.used
  have howed : ((List.replicate n Pending.idle).map (·.owed m.metaBlockSize)).sum = 0 := by
    rw [List.map_replicate]
    exact List.sum_eq_zero fun x hx => List.eq_of_mem_replicate hx
  refine ⟨h.wf, rfl, fun f hf => ?_, by omega, ?_, fun f hf => ?_, fun n hn => ?_⟩
  · rw [h.localSize f hf]
    exact Int.natCast_nonneg _
  · have hwrap := wrap64_of_lt (x := m.db.total) (by omega) (by omega)
    rw [howed, Int.add_zero]
    omega
  · have hcount : (List.replicate n Pending.idle).count (.inserted f.relativePath) = 0 :=
      List.count_eq_zero.mpr fun hn => nomatch List.eq_of_mem_replicate hn
    rw [hcount, Db.blocksSize_const, Nat.mul_zero, h.localSize f hf]
    exact Int.add_zero _
  · exact nomatch List.eq_of_mem_replicate hn

/-- When every call has returned the three copies agree. -/
theorem finish (h : Tallied bs gs m) (hgs : ∀ g ∈ gs, g.Settled) : SizesAgree m := by
  have howed : (gs.map (·.owed bs)).sum = 0 := by
    refine List.sum_eq_zero fun x hx => ?_
    obtain ⟨g, hg, rfl⟩ := List.mem_map.mp hx
    rcases hgs g hg with rfl | ⟨n, rfl⟩ <;> rfl
  have hcount : ∀ n, gs.count (.inserted n) = 0 := by
    intro n
    refine List.count_eq_zero.mpr fun hn => ?_
    rcases hgs _ hn with h | ⟨_, h⟩ <;> exact nomatch h
  refine ⟨h.wf, ?_, fun f hf => ?_⟩
  · rw [h.used, howed, Int.add_zero]
    exact wrap64_of_lt (Db.total_nonneg h.nonneg) h.total_lt
  · have hrow := h.localSize f hf
    rw [hcount, Nat.mul_zero, Db.blocksSize_const] at hrow
    rw [h.blockSize]
    push_cast at hrow
    omega

theorem kept (bs : Nat) : Kept (env constraintsOnly False) (Pending.next bs) Undisturbed
    (fun w => w.metadata.metaBlockSize = bs) (· ≠ .broken)
    fun gs w => Tallied bs gs w.metadata where
  state _ _ h := h.blockSize
  perm _ _ _ hp h := h.perm hp
  call _ _ _ _ _ h ha hmay hok := h.call ha hmay hok

end Tallied

-- ============================================================================
-- Whole runs
-- ============================================================================

/-- A run of calls in which every step meets the condition ends with the sizes in
    agreement. -/
theorem sizes_agree_after {ops : List MetaOp} {w : World} {p : Calls}
    (h : SizesAgree w.metadata) (hlt : w.metadata.cacheUsedSize < 2 ^ 64)
    (hrun : Pool.Steps (env constraintsOnly False) (Pending.next w.metadata.metaBlockSize)
      Undisturbed (Calls.start ops w) p) (hfin : p.Finished) : SizesAgree p.state.metadata := by
  have hstart : Tallied w.metadata.metaBlockSize ((ops.map MetaOp.prog).map fun _ => .idle)
      w.metadata := by
    rw [List.map_const']
    exact .start h hlt _
  have hwp : ∀ prog ∈ ops.map MetaOp.prog, Prog.wp (alone w.metadata.metaBlockSize) prog
      (fun _ a => a.Settled) .idle := by
    intro prog hprog
    obtain ⟨o, -, rfl⟩ := List.mem_map.mp hprog
    exact o.wp_alone
  obtain ⟨hend, hsettled⟩ := Pool.Steps.finished (Tallied.kept _) hstart hwp hrun hfin
  refine hend.finish fun g hg => ?_
  obtain ⟨-, hg⟩ := hsettled g hg
  exact hg

/-- `/a` with a block of 4 bytes and `/b` without blocks. -/
def sharedBlock : World :=
  { World.init .empty .empty with
    metadata := {
      db := {
        files := [
          { fileId := 1, relativePath := ['/', 'a'], localSize := 4, remoteSize := 10 },
          { fileId := 2, relativePath := ['/', 'b'], localSize := 0, remoteSize := 10 }]
        datablocks := [⟨1, 0, 0, 1⟩] }
      cacheUsedSize := 4
      metaBlockSize := 4 } }

theorem sizesAgree_sharedBlock : SizesAgree sharedBlock.metadata where
  wf := ⟨by decide, by decide, by decide, by decide, by decide⟩
  used := by decide
  localSize := by decide

/-- A deletion, a write and a creation that take turns. -/
theorem sizes_agree_after_turns : ∃ p : Calls,
    Pool.Steps (env constraintsOnly False) (Pending.next 4) Undisturbed
      (Calls.start [.deleteFile ['/', 'a'], .writeBlks ['/', 'b'] [0], .createFile ['/', 'c'] 5]
        sharedBlock) p ∧
      p.Finished ∧ p.state.metadata.cacheUsedSize = 4 ∧ SizesAgree p.state.metadata := by
  have htest : ((Pool.schedule (env constraintsOnly False) (Pending.next 4) Undisturbed
      ([0, 1, 0, 1, 2, 0, 1, 1, 0, 1, 1].map fun i => (i, {}))
      (Calls.start [.deleteFile ['/', 'a'], .writeBlks ['/', 'b'] [0], .createFile ['/', 'c'] 5]
        sharedBlock)).any fun p =>
          p.Finished ∧ p.state.metadata.cacheUsedSize = 4) = true := by decide
  obtain ⟨p, hrun, hp⟩ := Pool.steps_of_test htest
  obtain ⟨hfin, hused⟩ := of_decide_eq_true hp
  exact ⟨p, hrun, hfin, hused, sizes_agree_after sizesAgree_sharedBlock (by decide) hrun hfin⟩

/-- Two deletions of `/a` that both read its size before either has deleted it. -/
theorem sizes_disagree_after : SizesAgree sharedBlock.metadata ∧
    ∃ p : Calls, Pool.Steps (env constraintsOnly False) (Pending.next 4) Pool.anyCall
      (Calls.start [.deleteFile ['/', 'a'], .deleteFile ['/', 'a']] sharedBlock) p ∧ p.Finished ∧
      p.state.metadata.cacheUsedSize = 2 ^ 64 - 4 ∧ p.state.db.total = 0 ∧
      ¬ SizesAgree p.state.metadata := by
  have htest : ((Pool.schedule (env constraintsOnly False) (Pending.next 4) Pool.anyCall
      ([0, 1, 0, 1, 0, 0, 1, 1].map fun i => (i, {}))
      (Calls.start [.deleteFile ['/', 'a'], .deleteFile ['/', 'a']] sharedBlock)).any fun p =>
        p.Finished ∧ p.state.metadata.cacheUsedSize = 2 ^ 64 - 4 ∧
          p.state.db.total = 0) = true := by
    decide
  obtain ⟨p, hrun, hp⟩ := Pool.steps_of_test htest
  obtain ⟨hfin, hused, htotal⟩ := of_decide_eq_true hp
  refine ⟨sizesAgree_sharedBlock, p, hrun, hfin, hused, htotal, fun h => ?_⟩
  have hagree := h.used
  rw [hused] at hagree
  exact absurd (hagree.trans htotal) (by decide)

end CacheFs
