/-
  CacheFs.Meta.Lives

  The metadata over any number of lives of the daemon: each starts with `create_tables`,
  `set_block_size` and `init_cache_used_size`, runs functions of `meta.c` and ends.  What stays
  from one life to the next are the tables.  `open_db`, which `main` calls before them without
  a look at its result, is left out: it is taken to have opened the connection and switched
  the foreign keys on.

  `lives_refine` takes such a run at the SQLite interface, where any call may fail, to a run of
  the functions of `CacheFs.Meta.Ops` with the same results.
-/

import CacheFs.Meta.Refine

namespace CacheFs

open CacheFs.Sql
open CacheFs.Effect

-- ============================================================================
-- Runs of functions
-- ============================================================================

/-- The functions of `meta.c` and their arguments. -/
inductive MetaFn where
  | change (q : MetaCall)
  | isFileInCache (filename : FileName)
  | isBlkInCache (filename : FileName) (blkOffset : Nat)
  | areBlocksInCache (filename : FileName) (blkArr : List Nat)

/-- Sizes and offsets are `int64_t` values. -/
def MetaCall.InRange : MetaCall → Prop
  | .createFile _ remoteSize => remoteSize < 2 ^ 63
  | .insertBlock _ o | .deleteBlock _ o | .updateBlkTime _ o => o < 2 ^ 63
  | .insertBlocks _ os | .writeBlks _ os | .deleteBlocks _ os => ∀ o ∈ os, o < 2 ^ 63
  | .deleteFile _ => True

def MetaCall.api : MetaCall → ApiM Int
  | .createFile filename remoteSize => Api.createFile filename remoteSize
  | .insertBlock filename blkOffset => Api.insertBlock filename blkOffset
  | .insertBlocks filename blkArr => Api.insertBlocks filename blkArr
  | .writeBlks filename blkArr => Api.writeBlks filename blkArr
  | .deleteBlock filename blkOffset => Api.deleteBlock filename blkOffset
  | .deleteBlocks filename blkArr => Api.deleteBlocks filename blkArr
  | .deleteFile filename => Api.deleteFile filename
  | .updateBlkTime filename blkOffset => Api.updateBlkTime filename blkOffset

namespace MetaFn

def InRange : MetaFn → Prop
  | .change q => q.InRange
  | .isFileInCache _ => True
  | .isBlkInCache _ o => o < 2 ^ 63
  | .areBlocksInCache _ os => ∀ o ∈ os, o < 2 ^ 63

/-- What a function returns, with `bool_arr` where there is one. -/
def api : MetaFn → ApiM (Int × List Int)
  | .change q => do
    let ret ← q.api
    pure (ret, [])
  | .isFileInCache filename => do
    let ret ← Api.isFileInCache filename
    pure (ret, [])
  | .isBlkInCache filename blkOffset => do
    let ret ← Api.isBlkInCache filename blkOffset
    pure (ret, [])
  | .areBlocksInCache filename blkArr => Api.areBlocksInCache filename blkArr

def prog : MetaFn → CfsM (Int × List Int)
  | .change q => do
    let ret ← q.prog
    pure (ret, [])
  | .isFileInCache filename => do
    let ret ← CacheFs.isFileInCache filename
    pure (ret, [])
  | .isBlkInCache filename blkOffset => do
    let ret ← CacheFs.isBlkInCache filename blkOffset
    pure (ret, [])
  | .areBlocksInCache filename blkArr => CacheFs.areBlocksInCache filename blkArr

end MetaFn

section Refine

variable {strict : Prop} {stage : Stage}

theorem refines_metaCall {q : MetaCall} (h : q.InRange) : Refines strict stage q.api q.prog := by
  cases q with
  | createFile filename remoteSize => exact refines_createFile h
  | insertBlock filename blkOffset => exact refines_insertBlock h
  | insertBlocks filename blkArr => exact refines_insertBlocks h
  | writeBlks filename blkArr => exact refines_writeBlks h
  | deleteBlock filename blkOffset => exact refines_deleteBlock h
  | deleteBlocks filename blkArr => exact refines_deleteBlocks h
  | deleteFile filename => exact refines_deleteFile
  | updateBlkTime filename blkOffset => exact refines_updateBlkTime h

theorem refines_metaFn {f : MetaFn} (h : f.InRange) : Refines strict stage f.api f.prog := by
  cases f with
  | change q => exact (refines_metaCall h).bind fun _ => Prog.simulates_pure _
  | isFileInCache filename => exact refines_isFileInCache.bind fun _ => Prog.simulates_pure _
  | isBlkInCache filename blkOffset =>
      exact (refines_isBlkInCache h).bind fun _ => Prog.simulates_pure _
  | areBlocksInCache filename blkArr => exact refines_areBlocksInCache h

end Refine

-- ============================================================================
-- The start
-- ============================================================================

section Start

variable {strict : Prop} {stage : Stage} {s : ApiState} {w : World} {tr : List CfsEv}

open Api (call)

/-- One statement of `sqlite3_exec`. -/
theorem wp_callExec {α : Type} {stmt : Stmt MetaCol} {f : Option (List (List Value)) → ApiM α}
    {Q : α → ApiState → Prop}
    (hfail : (strict → (∃ t ∈ stmt.tables, s.conn.tables t = none) ∨
      ∃ now : Int, stmt.exec metaSchema s.conn.tables ⟨fun _ => .null, .int now⟩ = none) →
        Prog.wp (apiEnv strict) (f none) Q s)
    (hdone : (∀ t ∈ stmt.tables, s.conn.tables t ≠ none) → ∀ (now : Int) tables rows,
      stmt.exec metaSchema s.conn.tables ⟨fun _ => .null, .int now⟩ = some (tables, rows) →
        Prog.wp (apiEnv strict) (f (some rows)) Q (s.withConn { s.conn with tables })) :
    Prog.wp (apiEnv strict) (call (.exec stmt) >>= f) Q s := by
  rw [Prog.wp_bind, wp_apiCall]
  intro o ho
  have hcall : ∀ x : Option (List (List Value)) × Connection MetaCol,
      s.conn.exec metaSchema o stmt = x → Prog.wp (apiEnv strict) (f x.1) Q (s.withConn x.2) →
        Prog.wp (apiEnv strict) (f (apiHandle o (.exec stmt) s).1) Q
          (apiHandle o (.exec stmt) s).2 := by
    rintro x rfl h
    exact h
  by_cases hno : o.fails ∨ ∃ t ∈ stmt.tables, s.conn.tables t = none
  · refine hcall _ (if_pos hno) (hfail fun hs => ?_)
    rcases hno with hf | hmissing
    · rw [ho hs] at hf
      exact absurd hf (by simp)
    · exact Or.inl hmissing
  · have hthere : ∀ t ∈ stmt.tables, s.conn.tables t ≠ none :=
      fun t ht hnone => hno (Or.inr ⟨t, ht, hnone⟩)
    cases hexec : stmt.exec metaSchema s.conn.tables ⟨fun _ => .null, .int o.now⟩ with
    | none =>
        refine hcall (none, s.conn) ?_ (hfail fun _ => Or.inr ⟨o.now, hexec⟩)
        rw [Connection.exec, if_neg hno, hexec]
    | some x =>
        obtain ⟨tables, rows⟩ := x
        refine hcall (some rows, { s.conn with tables }) ?_ (hdone hthere o.now tables rows hexec)
        rw [Connection.exec, if_neg hno, hexec]

/-- `create_tables` changes a database without tables only. -/
def Stage.After (after before : Stage) : Prop := after = before ∨ before = .bare

/-- `Files` is there or nothing is. -/
theorem Stage.Holds.cases {db : Db} {tables : Tables MetaCol} (h : stage.Holds db tables) :
    (stage = .bare ∧ db = {} ∧ tables = fun _ => none) ∨
      (stage ≠ .filesOnly → stage = .complete) ∧ ∃ created, tables = db.encode created := by
  cases stage with
  | bare => exact Or.inl ⟨rfl, h⟩
  | filesOnly => exact Or.inr ⟨fun hne => absurd rfl hne, false, h.2⟩
  | complete => exact Or.inr ⟨fun _ => rfl, true, h⟩

/-- `create_tables` makes what it can, and gives up when the first table is there. -/
theorem wp_createTables {db : Db} (hin : stage.Holds db s.conn.tables) :
    Prog.wp (apiEnv strict) Api.createTables (fun _ s' => ∃ (tables : Tables MetaCol)
      (stage' : Stage), s' = s.withConn { s.conn with tables } ∧ stage'.Holds db tables ∧
        stage'.After stage ∧ (strict → stage ≠ .filesOnly → stage' = .complete)) s := by
  unfold Api.createTables Api.exec
  rw [Prog.wp_bind]
  rcases hin.cases with ⟨rfl, rfl, hnone⟩ | ⟨hstage, created, htables⟩
  · -- nothing is there yet
    have hfirst : ∀ now : Int, (Stmt.createTable MetaTable.files).exec metaSchema s.conn.tables
        ⟨fun _ => .null, .int now⟩ = some (({} : Db).encode false, []) := by
      intro now
      rw [hnone]
      refine congrArg (fun t => some (t, [])) (funext fun t => ?_)
      cases t <;> rfl
    refine wp_callExec (fun h => ?_) fun _ now tables rows hdone => ?_
    · refine ⟨s.conn.tables, .bare, rfl, ⟨rfl, hnone⟩, Or.inl rfl, fun hs _ => ?_⟩
      rcases h hs with ⟨t, ht, -⟩ | ⟨now, hexec⟩
      · exact absurd ht List.not_mem_nil
      · exact absurd ((hfirst now).symm.trans hexec) (by simp)
    obtain ⟨rfl, rfl⟩ := Prod.mk.inj (Option.some.inj (hdone.symm.trans (hfirst now)))
    have hsecond : ∀ now : Int, (Stmt.createTable MetaTable.datablocks).exec metaSchema
        (({} : Db).encode false) ⟨fun _ => .null, .int now⟩ =
          some (({} : Db).encode true, []) := by
      intro now
      refine congrArg (fun t => some (t, [])) (funext fun t => ?_)
      cases t <;> rfl
    change Prog.wp (apiEnv strict) (Api.exec [.createTable .datablocks] _) _ _
    unfold Api.exec
    refine wp_callExec (fun h => ?_) fun _ now tables rows hdone => ?_
    · refine ⟨_, .filesOnly, rfl, ⟨rfl, rfl⟩, Or.inr rfl, fun hs _ => ?_⟩
      rcases h hs with ⟨t, ht, -⟩ | ⟨now, hexec⟩
      · exact absurd ht List.not_mem_nil
      · exact absurd ((hsecond now).symm.trans hexec) (by simp)
    · obtain ⟨rfl, rfl⟩ := Prod.mk.inj (Option.some.inj (hdone.symm.trans (hsecond now)))
      exact ⟨_, .complete, rfl, rfl, Or.inr rfl, fun _ _ => rfl⟩
  · -- `Files` is there, and nothing else is tried
    have hfirst : ∀ now : Int, (Stmt.createTable MetaTable.files).exec metaSchema s.conn.tables
        ⟨fun _ => .null, .int now⟩ = none := by
      intro now
      rw [htables]
      rfl
    refine wp_callExec (fun _ => ?_) fun _ now tables rows hdone => ?_
    · exact ⟨s.conn.tables, stage, rfl, hin, Or.inl rfl, fun _ => hstage⟩
    · exact absurd ((hfirst now).symm.trans hdone) (by simp)

theorem Stands.setUsed (h : Stands strict stage s w tr) (size : Nat) (c : Choice) :
    Stands strict stage { s with cacheUsedSize := size }
      { w with metadata := { w.metadata with cacheUsedSize := size } }
      (tr ++ [⟨.setCacheUsedSize size, c, w⟩]) := by
  have hcount := countP_event tr ⟨.setCacheUsedSize size, c, w⟩
  refine ⟨h.wf, h.tables, h.complete,
    h.blind_event fun _ hblocks => absurd hblocks (by simp [Call.onBlocks]), rfl, h.blockSize,
    h.small, ?_, fun hs => ?_⟩
  · rw [hcount]
    exact h.live_le
  · rw [hcount]
    exact h.live_eq hs

/-- What `init_cache_used_size` does with the text it is given. -/
def takeSum : Option (List Char) → CfsM (Option Unit)
  | none => pure (some ())
  | some text =>
    match strToNum text with
    | none => pure none
    | some size => do
      let _ ← ask (.setCacheUsedSize size)
      pure (some ())

/-- The SELECT has answered and the text is taken. -/
theorem traced_initCacheUsedSize {now : Int} {n : Option Int} (hn : w.db.sumLocalSize? = n)
    {tr' : List CfsEv} {r : Option Unit} {w' : World}
    (h : Prog.Traced (env (sqlFails strict) False) (takeSum (n.map intText)) w tr' r w') :
    Prog.Traced (env (sqlFails strict) False) initCacheUsedSize w
      (⟨.sumLocalSize, chosen false now, w⟩ :: tr') r w' := by
  subst hn
  exact ⟨chosen false now, tr', fun _ _ => rfl, rfl, h⟩

/-- `init_cache_used_size` on both levels. -/
theorem wp_apiInitCacheUsedSize (h : Stands strict stage s w tr) :
    Prog.wp (apiEnv strict) Api.initCacheUsedSize (fun r s' => ∃ tr' w',
      Prog.Traced (env (sqlFails strict) False) initCacheUsedSize w tr' r w' ∧
        Stands strict stage s' w' (tr ++ tr')) s := by
  have hblind : ∀ {c : Choice}, stage ≠ .complete → Call.sumLocalSize.onBlocks = true →
      c.err ≠ none := fun _ hblocks => absurd hblocks (by simp [Call.onBlocks])
  unfold Api.initCacheUsedSize Api.exec
  rw [Prog.wp_bind]
  refine wp_callExec (fun hfail => ?_) fun hthere now tables rows hdone => ?_
  · have hs : ¬ strict := by
      intro hs
      rcases hfail hs with ⟨t, -, hnone⟩ | ⟨now, hexec⟩
      · exact h.compiled hs t hnone
      · obtain ⟨created, -, htables, -⟩ := h.created (h.compiled hs _)
        rw [htables, Db.exec_sumLocalSize] at hexec
        cases hexec
    refine ⟨[⟨.sumLocalSize, chosen true 0, w⟩], w, ⟨chosen true 0, [], fun hs' => absurd hs' hs,
      rfl, rfl, rfl, rfl⟩, h.event hblind rfl (Nat.le_add_right _ _) fun hs' => absurd hs' hs⟩
  · obtain ⟨created, -, htables, -⟩ := h.created (hthere .files List.mem_cons_self)
    have hexec : MetaSql.sumLocalSize.exec metaSchema (w.db.encode created)
        ⟨fun _ => .null, .int now⟩ = _ := Db.exec_sumLocalSize _
    rw [← htables] at hexec
    obtain ⟨rfl, rfl⟩ := Prod.mk.inj (Option.some.inj (hdone.symm.trans hexec))
    have hev : Stands strict stage (s.withConn s.conn) w
        (tr ++ [⟨.sumLocalSize, chosen false now, w⟩]) :=
      h.event hblind rfl (Nat.le_add_right _ _) fun _ => rfl
    cases hsum : w.db.sumLocalSize? with
    | none => exact ⟨_, w, traced_initCacheUsedSize hsum ⟨rfl, rfl, rfl⟩, hev⟩
    | some n =>
        cases hnum : strToNum (intText n) with
        | none =>
            have htake : takeSum (some (intText n)) = pure none := by simp only [takeSum, hnum]
            have hupper : Prog.Traced (env (sqlFails strict) False) initCacheUsedSize w
                [⟨.sumLocalSize, chosen false now, w⟩] none w :=
              traced_initCacheUsedSize hsum (by
                rw [Option.map_some, htake]
                exact ⟨rfl, rfl, rfl⟩)
            simp only [Option.map_some, Option.getD_some, List.foldlM_cons, List.foldlM_nil,
              Api.sumCallback, Api.columnText, hnum, Option.isSome_some, if_true, pure_bind,
              Option.isSome_none, Bool.false_eq_true, if_false, Prog.wp_pure]
            exact ⟨_, w, hupper, hev⟩
        | some size =>
            have htake : takeSum (some (intText n)) = (do
                let _ ← ask (.setCacheUsedSize size)
                pure (some ())) := by simp only [takeSum, hnum]
            have hupper : Prog.Traced (env (sqlFails strict) False) initCacheUsedSize w
                [⟨.sumLocalSize, chosen false now, w⟩, ⟨.setCacheUsedSize size, {}, w⟩] (some ())
                { w with metadata := { w.metadata with cacheUsedSize := size } } :=
              traced_initCacheUsedSize hsum (by
                rw [Option.map_some, htake]
                exact ⟨{}, [], fun _ _ => rfl, rfl, rfl, rfl, rfl⟩)
            simp only [Option.map_some, Option.getD_some, List.foldlM_cons, List.foldlM_nil,
              Api.sumCallback, Api.columnText, hnum, Option.isSome_some, if_true, Prog.wp_bind]
            refine fun _ _ => ⟨trivial, _, _, hupper, ?_⟩
            have hset := hev.setUsed size {}
            rwa [List.append_assoc] at hset

end Start

-- ============================================================================
-- Lives
-- ============================================================================

/-- What `main` starts with, and the functions that are called while the daemon runs. -/
structure Life where
  blkSize : Nat
  fns : List MetaFn

def Life.InRange (l : Life) : Prop := l.blkSize < 2 ^ 63 ∧ ∀ f ∈ l.fns, f.InRange

/-- The results of the functions; `none` where the start ends the process. -/
abbrev Results : Type := Option (List (Int × List Int))

def Life.api (l : Life) : ApiM Results := do
  let started ← Api.mount l.blkSize
  match started with
  | none => pure none
  | some _ => do
    let rs ← l.fns.foldlM (fun acc f => do
      let r ← f.api
      pure (acc ++ [r])) []
    pure (some rs)

def Life.prog (l : Life) : CfsM Results := do
  let started ← mount l.blkSize
  match started with
  | none => pure none
  | some _ => do
    let rs ← l.fns.foldlM (fun acc f => do
      let r ← f.prog
      pure (acc ++ [r])) []
    pure (some rs)

section Lives

variable {strict : Prop} {stage : Stage} {l : Life} {tables tables' : Tables MetaCol} {w : World}

/-- The process is new: no statements, no counters. -/
def ApiState.fresh (tables : Tables MetaCol) : ApiState := { conn := { tables } }

/-- One life on both levels. -/
theorem life_refines (hl : l.InRange) (hwf : w.db.WF) (hin : stage.Holds w.db tables)
    (hset : strict → stage ≠ .filesOnly) {r : Results} {s' : ApiState}
    (he : Prog.Exec (apiEnv strict) l.api (.fresh tables) r s') :
    ∃ stage' tr w', stage'.After stage ∧
      Prog.Traced (env (sqlFails strict) False) l.prog w.reboot tr r w' ∧
      Stands strict stage' s' w' tr := by
  -- the rest of a life, from the call of `set_block_size` on
  have hrest : ∀ stage', Refines strict stage'
      (do
        let _ ← Api.call (.setMetaBlockSize l.blkSize)
        let started ← Api.initCacheUsedSize
        match started with
        | none => pure none
        | some _ => do
          let rs ← l.fns.foldlM (fun acc f => do
            let r ← f.api
            pure (acc ++ [r])) []
          pure (some rs)) l.prog := by
    intro stage'
    refine Prog.simulates_call fun s w tr hR _ _ => ⟨{}, fun _ _ => rfl, ?_, ?_⟩
    · have hcount := countP_event tr ⟨.setMetaBlockSize l.blkSize, {}, w⟩
      refine ⟨hR.wf, hR.tables, hR.complete,
        hR.blind_event fun _ hblocks => absurd hblocks (by simp [Call.onBlocks]), hR.used, rfl,
        hl.1, ?_, fun hs => ?_⟩
      · rw [hcount]
        exact hR.live_le
      · rw [hcount]
        exact hR.live_eq hs
    · refine Prog.Simulates.bind (fun _ _ _ h _ _ he =>
        Prog.wp_exec (wp_apiInitCacheUsedSize h) he) fun started => ?_
      cases started with
      | none => exact Prog.simulates_pure none
      | some _ =>
          exact (Prog.simulates_foldlM (fun acc f hf => (refines_metaFn (hl.2 f hf)).bind
            fun r => Prog.simulates_pure (acc ++ [r])) []).bind fun rs =>
              Prog.simulates_pure (some rs)
  -- what `create_tables` leaves to it
  have hstart : Prog.wp (apiEnv strict) Api.createTables
      (fun _ s => ∃ stage' : Stage, stage'.After stage ∧ Stands strict stage' s w.reboot [])
      (.fresh tables) := by
    refine Prog.wp_mono (wp_createTables hin) ?_
    rintro _ s ⟨tables', stage', rfl, hin', hafter, hall⟩
    exact ⟨stage', hafter, hwf, hin', fun hs => hall hs (hset hs),
      fun _ e he => absurd he List.not_mem_nil, rfl, rfl, Nat.two_pow_pos 63, Nat.le_refl 0,
      fun _ => rfl⟩
  obtain ⟨tr, htr⟩ := Prog.exec_traced he
  unfold Life.api Api.mount at htr
  simp only [bind_assoc] at htr
  obtain ⟨tr₁, tr₂, a, s₁, -, h₁, h₂⟩ := Prog.traced_bind.mp htr
  obtain ⟨stage', hafter, hs₁⟩ := Prog.wp_exec hstart (Prog.traced_exec h₁)
  obtain ⟨tr', w', htr', hstands⟩ :=
    hrest stage' s₁ w.reboot [] hs₁ r s' (Prog.traced_exec h₂)
  exact ⟨stage', tr', w', hafter, htr', hstands⟩

end Lives

-- ============================================================================
-- Runs of lives
-- ============================================================================

/-- Any number of lives, each on the tables the last one has left: the results of each, and
    the statements that are alive at its end. -/
def ApiLives (strict : Prop) : List Life → Tables MetaCol → List (Results × Nat) →
    Tables MetaCol → Prop
  | [], tables, ends, tables' => ends = [] ∧ tables' = tables
  | l :: lives, tables, ends, tables' => ∃ r s' ends',
      Prog.Exec (apiEnv strict) l.api (.fresh tables) r s' ∧ ends = (r, s'.conn.live) :: ends' ∧
        ApiLives strict lives s'.conn.tables ends' tables'

/-- The same of the functions of `CacheFs.Meta.Ops`: the results of each life and its calls. -/
def WorldLives (strict : Prop) : List Life → World → List (Results × List CfsEv) → World → Prop
  | [], w, runs, w' => runs = [] ∧ w' = w
  | l :: lives, w, runs, w' => ∃ r tr w₁ runs',
      Prog.Traced (env (sqlFails strict) False) l.prog w.reboot tr r w₁ ∧
        runs = (r, tr) :: runs' ∧ WorldLives strict lives w₁ runs' w'

/-- The end of a life on the two levels. -/
structure SameEnd (strict : Prop) (e : Results × Nat) (run : Results × List CfsEv) : Prop where
  results : e.1 = run.1
  live_le : e.2 ≤ run.2.countP leaves
  live_eq : strict → e.2 = run.2.countP leaves

section Runs

variable {strict : Prop} {stage : Stage} {lives : List Life} {tables tables' : Tables MetaCol}
  {ends : List (Results × Nat)} {w : World}

theorem Stage.After.trans {s₁ s₂ s₃ : Stage} (h : s₃.After s₂) (h' : s₂.After s₁) :
    s₃.After s₁ := by
  rcases h with rfl | rfl
  · exact h'
  · exact Or.inr (h'.elim Eq.symm id)

/-- Every run of the daemon's lives at the SQLite interface, with any calls failing there, is a
    run of the upper level: the results are the same, the tables hold its database, and the
    statements left behind are accounted for by its calls. -/
theorem lives_refine (hlives : ∀ l ∈ lives, l.InRange) (hwf : w.db.WF)
    (hin : stage.Holds w.db tables) (hset : strict → stage ≠ .filesOnly)
    (h : ApiLives strict lives tables ends tables') :
    ∃ (stage' : Stage) (runs : List (Results × List CfsEv)) (w' : World), stage'.After stage ∧
      WorldLives strict lives w runs w' ∧ List.Forall₂ (SameEnd strict) ends runs ∧
      stage'.Holds w'.db tables' ∧ w'.db.WF := by
  induction lives generalizing w stage tables ends with
  | nil =>
      obtain ⟨rfl, rfl⟩ := h
      exact ⟨stage, [], w, Or.inl rfl, ⟨rfl, rfl⟩, .nil, hin, hwf⟩
  | cons l lives ih =>
      obtain ⟨r, s₁, ends', he, rfl, hrest⟩ := h
      obtain ⟨stage₁, tr, w₁, hafter, htr, hstands⟩ :=
        life_refines (hlives l List.mem_cons_self) hwf hin hset he
      have hset₁ : strict → stage₁ ≠ .filesOnly := fun hs => by simp [hstands.complete hs]
      obtain ⟨stage', runs, w', hafter', hruns, hsame, hin', hwf'⟩ :=
        ih (fun l' hl' => hlives l' (List.mem_cons_of_mem _ hl')) hstands.wf hstands.tables hset₁
          hrest
      exact ⟨stage', (r, tr) :: runs, w', hafter'.trans hafter,
        ⟨r, tr, w₁, runs, htr, rfl, hruns⟩,
        .cons ⟨rfl, hstands.live_le, hstands.live_eq⟩ hsame, hin', hwf'⟩

instance [Decidable strict] (o : Outside) (op : ApiCall) (s : ApiState) :
    Decidable ((apiEnv strict).allow o op s) :=
  inferInstanceAs (Decidable (strict → o.fails = false))

/-- A life in which a file is entered, two of its blocks are, and one of two is found. -/
def sampleLife : Life :=
  ⟨4, [.change (.createFile ['/', 'f'] 10), .change (.writeBlks ['/', 'f'] [0, 4]),
    .areBlocksInCache ['/', 'f'] [0, 8]]⟩

theorem inRange_sampleLife : ∀ l ∈ [sampleLife], l.InRange := by
  simp [sampleLife, Life.InRange, MetaFn.InRange, MetaCall.InRange]

/-- One life on a new database. -/
theorem apiLives_sample : ∃ ends tables',
    ApiLives True [sampleLife] (fun _ => none) ends tables' := by
  obtain ⟨x, hx⟩ : ∃ x, Prog.runAllowed (apiEnv True) (fun _ => {}) sampleLife.api
      (.fresh fun _ => none) = some x := Option.isSome_iff_exists.mp (by decide)
  exact ⟨[(x.1, x.2.conn.live)], x.2.conn.tables, x.1, x.2, [], Prog.exec_of_runAllowed _ hx, rfl,
    rfl, rfl⟩

theorem lives_refine_sample : ∃ ends tables' stage' runs w',
    ApiLives True [sampleLife] (fun _ => none) ends tables' ∧ Stage.After stage' .bare ∧
      WorldLives True [sampleLife] (.init .empty .empty) runs w' ∧
      List.Forall₂ (SameEnd True) ends runs ∧ stage'.Holds w'.db tables' ∧ w'.db.WF := by
  obtain ⟨ends, tables', h⟩ := apiLives_sample
  have hin : Stage.bare.Holds (World.init .empty .empty).db fun _ => none := ⟨rfl, rfl⟩
  obtain ⟨stage', runs, w', hrest⟩ :=
    lives_refine (w := .init .empty .empty) inRange_sampleLife Db.wf_empty hin (fun _ => by simp) h
  exact ⟨ends, tables', stage', runs, w', h, hrest⟩

/-- What holds of every single life. -/
theorem WorldLives.forall₂ {P : Life → Results × List CfsEv → Prop} (hP : ∀ l (w : World) r tr w',
      w.db.WF → Prog.Traced (env (sqlFails strict) False) l.prog w.reboot tr r w' → P l (r, tr))
    {runs : List (Results × List CfsEv)} {w' : World} (hwf : w.db.WF)
    (h : WorldLives strict lives w runs w') : List.Forall₂ P lives runs := by
  induction lives generalizing w runs with
  | nil =>
      obtain ⟨rfl, -⟩ := h
      exact .nil
  | cons l lives ih =>
      obtain ⟨r, tr, w₁, runs', htr, rfl, hrest⟩ := h
      have hwf₁ : w₁.db.WF := (htr.invariant (I := fun w => w.db.WF) (Prog.only_true _)
        (fun _ _ _ _ _ h => wf_handle h) hwf).1
      exact .cons (hP l w r tr w₁ hwf htr) (ih hwf₁ hrest)

end Runs

-- ============================================================================
-- Statements that are left behind
-- ============================================================================

instance (db : Db) (filename : FileName) (blkOffset : Nat) :
    Decidable (db.Recorded filename blkOffset) :=
  inferInstanceAs (Decidable (∃ f ∈ db.files, f.relativePath = filename ∧
    ∃ b ∈ db.datablocks, b.fileId = f.fileId ∧ b.blkStartOffset = blkOffset))

/-- What the call inserts is there, or what it needs or looks for is not. -/
def unmet (e : CfsEv) : Bool :=
  match e.op with
  | .insertFile filename _ => decide (e.before.db.HasFile filename)
  | .insertDatablock blkOffset filename =>
      decide (¬ e.before.db.HasFile filename ∨ e.before.db.Recorded filename blkOffset)
  | .selectFileId filename => decide (¬ e.before.db.HasFile filename)
  | .selectBlockId blkOffset filename => decide (¬ e.before.db.Recorded filename blkOffset)
  | _ => false

section Left

variable {c : Choice} {w : World}

theorem World.sql_error_iff (hc : c.err = none) {r : Option Db} :
    (w.sql c r).1 = .error ↔ r = none := by
  unfold World.sql
  rw [hc]
  cases r <;> simp

/-- Where SQLite works, the calls that leave a statement are those. -/
theorem leaves_eq_unmet {op : Call} (hwf : w.db.WF) (hok : op.isSql = true → c.err = none) :
    leaves ⟨op, c, w⟩ = unmet ⟨op, c, w⟩ := by
  by_cases hsql : op.isSql = true
  swap
  · cases op <;> first | rfl | exact absurd rfl hsql
  have hc := hok hsql
  cases op <;> simp only [leaves, unmet, handle, World.sql_error_iff hc, World.select_eq hc]
  case insertFile filename remoteSize =>
    exact decide_eq_decide.mpr Db.insertFile_eq_none_iff
  case insertDatablock blkOffset filename =>
    exact decide_eq_decide.mpr hwf.insertDatablock_eq_none_iff
  case selectFileId filename =>
    refine decide_eq_decide.mpr ?_
    rw [← Db.fileId?_eq_none_iff]
    cases w.db.fileId? filename <;> simp
  case selectBlockId blkOffset filename =>
    refine decide_eq_decide.mpr ?_
    rw [← hwf.selectBlockId_iff]
    cases w.db.selectBlockId blkOffset filename <;> simp
  case selectLocalSize filename =>
    cases w.db.localSize? filename <;> simp
  -- the other statements are not refused
  all_goals rfl

/-- Where SQLite works, the statements that a life leaves alive are its insertions of what is
    there already or belongs to no file, and its lookups of what is not there. -/
theorem statements_left {lives : List Life} {stage : Stage} {tables tables' : Tables MetaCol}
    {ends : List (Results × Nat)} (hlives : ∀ l ∈ lives, l.InRange) (hwf : w.db.WF)
    (hin : stage.Holds w.db tables) (hset : stage ≠ .filesOnly)
    (h : ApiLives True lives tables ends tables') :
    ∃ runs w', WorldLives True lives w runs w' ∧
      List.Forall₂ (fun e run => e.1 = run.1 ∧ e.2 = run.2.countP unmet) ends runs := by
  obtain ⟨stage', runs, w', -, hruns, hsame, -⟩ :=
    lives_refine hlives hwf hin (fun _ => hset) h
  have hcount : List.Forall₂ (fun run (_ : Life) => run.2.countP leaves = run.2.countP unmet ∧
      True) runs lives := by
    refine (WorldLives.forall₂ (fun l w r tr w' hwf htr => ⟨?_, trivial⟩) hwf hruns).flip
    have hevents := (htr.invariant (I := fun w => w.db.WF) (Prog.only_true _)
      (fun _ _ _ _ _ h => wf_handle h) hwf).2
    refine List.countP_congr fun e he => ?_
    rw [leaves_eq_unmet (hevents e he).2 (htr.allowed e he trivial)]
  refine ⟨runs, w', hruns, ?_⟩
  have hboth := (List.forall₂_and_left _ _).mpr
    ⟨((List.forall₂_and_left _ _).mp hcount).1, hsame.flip⟩
  exact hboth.flip.imp fun e run h => ⟨h.2.results, (h.2.live_eq trivial).trans h.1⟩

theorem statements_left_sample : ∃ ends tables' runs w',
    ApiLives True [sampleLife] (fun _ => none) ends tables' ∧
      WorldLives True [sampleLife] (.init .empty .empty) runs w' ∧
      List.Forall₂ (fun e run => e.1 = run.1 ∧ e.2 = run.2.countP unmet) ends runs := by
  obtain ⟨ends, tables', h⟩ := apiLives_sample
  have hin : Stage.bare.Holds (World.init .empty .empty).db fun _ => none := ⟨rfl, rfl⟩
  obtain ⟨runs, w', hrest⟩ :=
    statements_left (w := .init .empty .empty) inRange_sampleLife Db.wf_empty hin (by simp) h
  exact ⟨ends, tables', runs, w', h, hrest⟩

end Left

end CacheFs
