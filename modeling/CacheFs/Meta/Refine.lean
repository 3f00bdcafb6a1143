/-
  CacheFs.Meta.Refine

  The functions of `meta.c` at the SQLite interface do what those of `CacheFs.Meta.Ops` do, and
  what statements they leave behind.

  `Stands` relates the two levels.  The tables are those of the `Db`, also when the process
  died before `create_tables` had made all of them; the counters are equal; and the statements
  that are alive are accounted for by the calls of the upper level: one for each insertion that
  was refused and for each lookup that found nothing.
-/

import CacheFs.Meta.Api
import CacheFs.Meta.Atomic
import CacheFs.Effect.Simulate

namespace CacheFs

open CacheFs.Sql
open CacheFs.Posix
open CacheFs.Effect

-- ============================================================================
-- What corresponds
-- ============================================================================

abbrev CfsEv := Event Call World Choice

/-- The call leaves a statement behind: it reports an error or, for a lookup, no row. -/
def leaves : CfsEv → Bool
  | ⟨.insertFile f n, c, w⟩ => (handle c (.insertFile f n) w).1 = .error
  | ⟨.insertDatablock o f, c, w⟩ => (handle c (.insertDatablock o f) w).1 = .error
  | ⟨.addLocalSize n f, c, w⟩ => (handle c (.addLocalSize n f) w).1 = .error
  | ⟨.subLocalSize n f, c, w⟩ => (handle c (.subLocalSize n f) w).1 = .error
  | ⟨.deleteFile f, c, w⟩ => (handle c (.deleteFile f) w).1 = .error
  | ⟨.deleteDatablock o f, c, w⟩ => (handle c (.deleteDatablock o f) w).1 = .error
  | ⟨.touchDatablock o f, c, w⟩ => (handle c (.touchDatablock o f) w).1 = .error
  | ⟨.selectLocalSize f, c, w⟩ => (handle c (.selectLocalSize f) w).1.1 = .error
  | ⟨.stepSelect, c, w⟩ => (handle c .stepSelect w).1 = .error
  | ⟨.selectFileId f, c, w⟩ => (handle c (.selectFileId f) w).1 ≠ .row
  | ⟨.selectBlockId o f, c, w⟩ => (handle c (.selectBlockId o f) w).1 ≠ .row
  | _ => false

/-- How far `create_tables` has come. -/
inductive Stage where
  | bare
  | filesOnly
  | complete
deriving DecidableEq

/-- The tables hold the database, as far as they have been created. -/
def Stage.Holds (db : Db) (tables : Tables MetaCol) : Stage → Prop
  | .bare => db = {} ∧ tables = fun _ => none
  | .filesOnly => db.datablocks = [] ∧ tables = db.encode false
  | .complete => tables = db.encode true

/-- The statement is about `Datablocks`. -/
def Call.onBlocks : Call → Bool
  | .insertDatablock _ _ | .deleteDatablock _ _ | .selectBlockId _ _ | .touchDatablock _ _ => true
  | _ => false

structure Stands (strict : Prop) (stage : Stage) (s : ApiState) (w : World) (tr : List CfsEv) :
    Prop where
  wf : w.db.WF
  tables : stage.Holds w.db s.conn.tables
  complete : strict → stage = .complete
  /-- Without the table its statements fail. -/
  blind : stage ≠ .complete → ∀ e ∈ tr, e.op.onBlocks = true → e.choice.err ≠ none
  used : w.metadata.cacheUsedSize = s.cacheUsedSize
  blockSize : w.metadata.metaBlockSize = s.metaBlockSize
  small : s.metaBlockSize < 2 ^ 63
  live_le : s.conn.live ≤ tr.countP leaves
  live_eq : strict → s.conn.live = tr.countP leaves

/-- The environment of the upper level. -/
def sqlFails (strict : Prop) (c : Choice) (op : Call) (w : World) : Prop :=
  strict → constraintsOnly c op w

/-- What the environment of the upper level chooses. -/
def chosen (failed : Bool) (now : Int) : Choice :=
  { err := if failed then some Posix.EIO else none, now }

section Chosen

variable (now : Int)

@[simp] theorem err_chosen_true : (chosen true now).err = some Posix.EIO := rfl

@[simp] theorem err_chosen_false : (chosen false now).err = none := rfl

@[simp] theorem select_chosen_true (found : Bool) :
    World.select (chosen true now) found = .error := rfl

@[simp] theorem select_chosen_found : World.select (chosen false now) true = .row := rfl

@[simp] theorem select_chosen_missing : World.select (chosen false now) false = .done := rfl

end Chosen

theorem countP_event (tr : List CfsEv) (e : CfsEv) :
    (tr ++ [e]).countP leaves = tr.countP leaves + (leaves e).toNat := by
  rw [List.countP_append, List.countP_singleton]
  cases leaves e <;> rfl

namespace Stands

variable {strict : Prop} {stage : Stage} {s : ApiState} {w : World} {tr : List CfsEv}

theorem blind_event (h : Stands strict stage s w tr) {e : CfsEv}
    (he : stage ≠ .complete → e.op.onBlocks = true → e.choice.err ≠ none) :
    stage ≠ .complete → ∀ e' ∈ tr ++ [e], e'.op.onBlocks = true → e'.choice.err ≠ none := by
  intro hstage e' he'
  rcases List.mem_append.mp he' with hmem | hmem
  · exact h.blind hstage e' hmem
  · rw [List.mem_singleton.mp hmem]
    exact he hstage

/-- A call that only moves on in the trace. -/
theorem event (h : Stands strict stage s w tr) {conn : Connection MetaCol} {e : CfsEv}
    (he : stage ≠ .complete → e.op.onBlocks = true → e.choice.err ≠ none)
    (htables : conn.tables = s.conn.tables) (hle : conn.live ≤ s.conn.live + (leaves e).toNat)
    (heq : strict → conn.live = s.conn.live + (leaves e).toNat) :
    Stands strict stage (s.withConn conn) w (tr ++ [e]) := by
  have hcount := countP_event tr e
  refine ⟨h.wf, ?_, h.complete, h.blind_event he, h.used, h.blockSize, h.small, ?_,
    fun hs => ?_⟩
  · rw [ApiState.conn_withConn, htables]
    exact h.tables
  · have := h.live_le
    rw [ApiState.conn_withConn, hcount]
    omega
  · have := h.live_eq hs
    have := heq hs
    rw [ApiState.conn_withConn, hcount]
    omega

end Stands

-- ============================================================================
-- What the blocks of the functions do
-- ============================================================================

/-- The parameters after the calls that bind them. -/
def bound (params : List (Nat × Value)) : Nat → Value :=
  params.foldl (fun f e => Function.update f e.1 e.2) fun _ => .null

section Wp

open Api (call prepared runStatement)

variable {strict : Prop} {s : ApiState} {stmt : Stmt MetaCol} {tail : List (Stmt MetaCol)}
  {params : List (Nat × Value)}

theorem wp_apiCall {op : ApiCall} {Q : op.Reply → ApiState → Prop} :
    Prog.wp (apiEnv strict) (call op) Q s ↔ ∀ o : Outside, (strict → o.fails = false) →
      Q (apiHandle o op s).1 (apiHandle o op s).2 :=
  ⟨fun h o ho => (h o ho).2, fun h o ho => ⟨trivial, h o ho⟩⟩

theorem wp_bindNull {Q : Unit → ApiState → Prop} (hQ : Q () s) :
    Prog.wp (apiEnv strict)
      (params.foldlM (fun _ e => call (.bind none e.1 e.2)) ()) Q s := by
  induction params with
  | nil => exact hQ
  | cons e params ih =>
      rw [List.foldlM_cons, Prog.wp_bind, wp_apiCall]
      exact fun _ _ => ih

theorem wp_bindPushed {conn : Connection MetaCol} {cur : Cursor MetaCol}
    {Q : Unit → ApiState → Prop} (hcur : cur.phase = .ready)
    (hQ : Q () (s.withConn (conn.push (some { cur with
      params := params.foldl (fun f e => Function.update f e.1 e.2) cur.params })))) :
    Prog.wp (apiEnv strict)
      (params.foldlM (fun _ e => call (.bind (some conn.stmts.length) e.1 e.2)) ()) Q
      (s.withConn (conn.push (some cur))) := by
  induction params generalizing cur with
  | nil => exact hQ
  | cons e params ih =>
      rw [List.foldlM_cons, Prog.wp_bind, wp_apiCall]
      intro o _
      simp only [apiHandle, ApiState.conn_withConn, Connection.bind_push hcur,
        ApiState.withConn_withConn]
      exact ih hcur hQ

/-- Prepare and bind: the null pointer, or a new statement with its parameters. -/
theorem wp_prepared {Q : Option Nat × List (Stmt MetaCol) → ApiState → Prop}
    (hnull : (strict → ∃ t ∈ stmt.tables, s.conn.tables t = none) → ∀ text, Q (none, text) s)
    (hok : (∀ t ∈ stmt.tables, s.conn.tables t ≠ none) → Q (some s.conn.stmts.length, tail)
      (s.withConn (s.conn.push (some { stmt, params := bound params })))) :
    Prog.wp (apiEnv strict) (prepared (stmt :: tail) params) Q s := by
  unfold prepared
  rw [Prog.wp_bind, wp_apiCall]
  intro o ho
  simp only [Prog.wp_bind, apiHandle]
  by_cases hmissing : ∃ t ∈ stmt.tables, s.conn.tables t = none
  · obtain ⟨t, ht, hnone⟩ := hmissing
    rw [Connection.prepare_eq_none ht hnone]
    exact wp_bindNull (hnull (fun _ => ⟨t, ht, hnone⟩) _)
  · have hthere : ∀ t ∈ stmt.tables, s.conn.tables t ≠ none :=
      fun t ht hnone => hmissing ⟨t, ht, hnone⟩
    cases hf : o.fails with
    | true =>
        obtain ⟨h₁, h₂⟩ := s.conn.prepare_of_fails (stmt :: tail) hf
        rw [h₂, h₁]
        have hQ := hnull (fun hs => by rw [ho hs] at hf; exact absurd hf (by simp))
          (s.conn.prepare o (stmt :: tail)).1.2
        rw [← h₁] at hQ
        exact wp_bindNull hQ
    | false =>
        rw [Connection.prepare_eq hf hthere]
        exact wp_bindPushed rfl (hok hthere)

section Steps

variable {α : Type} {conn : Connection MetaCol} {cur : Cursor MetaCol} {Q : α → ApiState → Prop}

theorem wp_stepNull {f : Outcome → ApiM α} (h : Prog.wp (apiEnv strict) (f .error) Q s) :
    Prog.wp (apiEnv strict) (call (.step none) >>= f) Q s := by
  rw [Prog.wp_bind, wp_apiCall]
  exact fun _ _ => h

theorem wp_step {p : Option Nat} {f : Outcome → ApiM α}
    (h : ∀ o : Outside, (strict → o.fails = false) → ∀ ret conn',
      s.conn.step metaSchema o p = (ret, conn') →
        Prog.wp (apiEnv strict) (f ret) Q (s.withConn conn')) :
    Prog.wp (apiEnv strict) (call (.step p) >>= f) Q s := by
  rw [Prog.wp_bind, wp_apiCall]
  exact fun o ho => h o ho _ _ rfl

/-- The first step of a statement, or the first one after its end. -/
theorem wp_stepStart {f : Outcome → ApiM α} (hcur : ∀ r rest, cur.phase ≠ .row r rest)
    (herr : ∀ now : Int, (strict →
      cur.stmt.exec metaSchema conn.tables ⟨cur.params, .int now⟩ = none) →
        Prog.wp (apiEnv strict) (f .error) Q
          (s.withConn (conn.push (some { cur with phase := .halted true }))))
    (hdone : ∀ (now : Int) tables,
      cur.stmt.exec metaSchema conn.tables ⟨cur.params, .int now⟩ = some (tables, []) →
        Prog.wp (apiEnv strict) (f .done) Q (s.withConn
          (Connection.push { conn with tables } (some { cur with phase := .halted false }))))
    (hrow : ∀ (now : Int) tables r rest,
      cur.stmt.exec metaSchema conn.tables ⟨cur.params, .int now⟩ = some (tables, r :: rest) →
        Prog.wp (apiEnv strict) (f .row) Q (s.withConn
          (Connection.push { conn with tables } (some { cur with phase := .row r rest })))) :
    Prog.wp (apiEnv strict) (call (.step (some conn.stmts.length)) >>= f) Q
      (s.withConn (conn.push (some cur))) := by
  refine wp_step fun o ho ret conn' hstep => ?_
  rw [ApiState.conn_withConn, Connection.step_push hcur] at hstep
  rw [ApiState.withConn_withConn]
  cases hexec : cur.stmt.exec metaSchema conn.tables ⟨cur.params, .int o.now⟩ with
  | none =>
      rw [hexec, ite_self] at hstep
      obtain ⟨rfl, rfl⟩ := Prod.mk.inj hstep
      exact herr o.now fun _ => hexec
  | some x =>
      rw [hexec] at hstep
      cases hf : o.fails with
      | true =>
          rw [hf, if_pos rfl] at hstep
          obtain ⟨rfl, rfl⟩ := Prod.mk.inj hstep
          refine herr o.now fun hs => ?_
          rw [ho hs] at hf
          exact absurd hf (by simp)
      | false =>
          rw [hf, if_neg (by simp)] at hstep
          obtain ⟨tables, rows⟩ := x
          cases rows with
          | nil =>
              obtain ⟨rfl, rfl⟩ := Prod.mk.inj hstep
              exact hdone o.now tables hexec
          | cons r rest =>
              obtain ⟨rfl, rfl⟩ := Prod.mk.inj hstep
              exact hrow o.now tables r rest hexec

/-- The step after the only row. -/
theorem wp_stepRow {f : Outcome → ApiM α} {r : List Value}
    (herr : ¬ strict → Prog.wp (apiEnv strict) (f .error) Q
      (s.withConn (conn.push (some { cur with phase := .halted true }))))
    (hdone : Prog.wp (apiEnv strict) (f .done) Q
      (s.withConn (conn.push (some { cur with phase := .halted false })))) :
    Prog.wp (apiEnv strict) (call (.step (some conn.stmts.length)) >>= f) Q
      (s.withConn (conn.push (some { cur with phase := .row r [] }))) := by
  refine wp_step fun o ho ret conn' hstep => ?_
  rw [ApiState.conn_withConn, Connection.step_push_row] at hstep
  rw [ApiState.withConn_withConn]
  cases hf : o.fails with
  | true =>
      rw [hf, if_pos rfl] at hstep
      obtain ⟨rfl, rfl⟩ := Prod.mk.inj hstep
      refine herr fun hs => ?_
      rw [ho hs] at hf
      exact absurd hf (by simp)
  | false =>
      rw [hf, if_neg (by simp)] at hstep
      obtain ⟨rfl, rfl⟩ := Prod.mk.inj hstep
      exact hdone

theorem wp_finalizePush {f : Bool → ApiM α} (h : Prog.wp (apiEnv strict)
    (f (decide (cur.phase ≠ .halted true))) Q (s.withConn (conn.push none))) :
    Prog.wp (apiEnv strict) (call (.finalize (some conn.stmts.length)) >>= f) Q
      (s.withConn (conn.push (some cur))) := by
  rw [Prog.wp_bind, wp_apiCall]
  intro o _
  simp only [apiHandle, ApiState.conn_withConn, Connection.finalize_push,
    ApiState.withConn_withConn]
  exact h

end Steps

/-- A statement without rows: it is carried out and finalized, or it is left behind, or it has
    not been compiled. -/
theorem wp_runStatement {Q : Int → ApiState → Prop}
    (hrows : ∀ a x, stmt.exec metaSchema s.conn.tables a = some x → x.2 = [])
    (hnull : (strict → ∃ t ∈ stmt.tables, s.conn.tables t = none) → Q (-1) s)
    (hleft : (∀ t ∈ stmt.tables, s.conn.tables t ≠ none) → ∀ now cur, (strict →
      stmt.exec metaSchema s.conn.tables ⟨bound params, .int now⟩ = none) →
        Q (-1) (s.withConn (s.conn.push (some cur))))
    (hdone : (∀ t ∈ stmt.tables, s.conn.tables t ≠ none) → ∀ now tables,
      stmt.exec metaSchema s.conn.tables ⟨bound params, .int now⟩ = some (tables, []) →
        Q 0 (s.withConn (Connection.push { s.conn with tables } none))) :
    Prog.wp (apiEnv strict) (runStatement (stmt :: tail) params) Q s := by
  unfold runStatement
  rw [Prog.wp_bind]
  refine wp_prepared (fun h text => ?_) fun hthere => ?_
  · exact wp_stepNull (hnull h)
  · refine wp_stepStart (by simp) (fun now h => hleft hthere now _ h) (fun now tables h => ?_)
      fun now tables r rest h => absurd (hrows _ _ h) (by simp)
    rw [if_neg (by simp)]
    exact wp_finalizePush (hdone hthere now tables h)

end Wp

-- ============================================================================
-- Statements without rows
-- ============================================================================

/-- A statement without rows, and the call of the upper level that stands for it. -/
structure StandsFor (stmt : Stmt MetaCol) (params : List (Nat × Value)) (op : Call)
    (rc : op.Reply → Rc) (f : Db → Int → Option Db) : Prop where
  files : MetaTable.files ∈ stmt.tables
  onBlocks : op.onBlocks = true → MetaTable.datablocks ∈ stmt.tables
  norows : ∀ tables a x, stmt.exec metaSchema tables a = some x → x.2 = []
  exec : ∀ db created now, db.WF → db.Fits created →
    (∀ t ∈ stmt.tables, db.encode created t ≠ none) →
      stmt.exec metaSchema (db.encode created) ⟨bound params, .int now⟩ =
        (f db now).map fun db' => (db'.encode created, [])
  wf : ∀ db now db', db.WF → f db now = some db' → db'.WF
  fits : ∀ db now db', .datablocks ∉ stmt.tables → f db now = some db' →
    db.datablocks = [] → db'.datablocks = []
  handle : ∀ c w, (rc (handle c op w).1, (handle c op w).2) = w.sql c (f w.db c.now)
  leaves : ∀ c w, leaves ⟨op, c, w⟩ = decide (rc (CacheFs.handle c op w).1 = .error)

/-- One call for the whole block. -/
def stepAndTest (op : Call) (rc : op.Reply → Rc) : CfsM Int :=
  .call op fun ret =>
    if rc ret ≠ .done then pure (-1) else if !finalizeOk (rc ret) then pure (-1) else pure 0

section Statements

variable {strict : Prop} {stage : Stage} {s : ApiState} {w : World} {tr : List CfsEv}
  {stmt : Stmt MetaCol} {tail : List (Stmt MetaCol)} {params : List (Nat × Value)} {op : Call}
  {rc : op.Reply → Rc} {f : Db → Int → Option Db}

theorem Db.encode_true_ne_none {db : Db} (t : MetaTable) : db.encode true t ≠ none := by
  cases t <;> simp [Db.encode]

/-- Both tables are there where `Datablocks` is. -/
theorem Db.created_of_datablocks {db : Db} {created : Bool}
    (h : db.encode created .datablocks ≠ none) : created = true := by
  cases created with
  | true => rfl
  | false => exact absurd rfl h

theorem Stands.compiled (h : Stands strict stage s w tr) (hs : strict) (t : MetaTable) :
    s.conn.tables t ≠ none := by
  have htables := h.tables
  rw [h.complete hs] at htables
  rw [show s.conn.tables = w.db.encode true from htables]
  exact Db.encode_true_ne_none t

/-- Where `Files` is there, the tables are those of the database. -/
theorem Stands.created (h : Stands strict stage s w tr) (hf : s.conn.tables .files ≠ none) :
    ∃ created, w.db.Fits created ∧ s.conn.tables = w.db.encode created ∧
      (created = true ↔ stage = .complete) := by
  have htables := h.tables
  cases stage with
  | bare => exact absurd (by rw [htables.2]) hf
  | filesOnly => exact ⟨false, fun _ => htables.1, htables.2, by simp⟩
  | complete => exact ⟨true, Db.fits_true _, htables, by simp⟩

theorem traced_stepAndTest (rc : op.Reply → Rc) {c : Choice} (hc : sqlFails strict c op w) :
    Prog.Traced (env (sqlFails strict) False) (stepAndTest op rc) w [⟨op, c, w⟩]
      (if rc (handle c op w).1 = .done then 0 else -1) (handle c op w).2 := by
  refine ⟨c, [], hc, rfl, ?_⟩
  change Prog.Traced _ (if rc (handle c op w).1 ≠ .done then pure (-1)
    else if !finalizeOk (rc (handle c op w).1) then pure (-1) else pure 0) _ _ _ _
  by_cases hd : rc (handle c op w).1 = .done
  · rw [if_neg (by simp [hd]), if_neg (by simp [hd, finalizeOk]), if_pos hd]
    exact ⟨rfl, rfl, rfl⟩
  · rw [if_pos hd, if_neg hd]
    exact ⟨rfl, rfl, rfl⟩

/-- The call reports an error: a statement may be left behind. -/
theorem StandsFor.traced_error (m : StandsFor stmt params op rc f) (h : Stands strict stage s w tr)
    {c : Choice} (hc : sqlFails strict c op w) (herr : w.sql c (f w.db c.now) = (.error, w))
    (hblind : stage ≠ .complete → op.onBlocks = true → c.err ≠ none)
    {conn : Connection MetaCol} (htables : conn.tables = s.conn.tables)
    (hle : conn.live ≤ s.conn.live + 1) (heq : strict → conn.live = s.conn.live + 1) :
    ∃ tr' w', Prog.Traced (env (sqlFails strict) False) (stepAndTest op rc) w tr' (-1) w' ∧
      Stands strict stage (s.withConn conn) w' (tr ++ tr') := by
  obtain ⟨hrc, hw⟩ := Prod.mk.inj ((m.handle c w).trans herr)
  have hleaves : CacheFs.leaves ⟨op, c, w⟩ = true := by rw [m.leaves, hrc]; rfl
  refine ⟨[⟨op, c, w⟩], w, ?_, ?_⟩
  · have htr := traced_stepAndTest rc hc
    rwa [hrc, hw, if_neg (by simp)] at htr
  · refine h.event hblind htables ?_ fun hs => ?_
    · rw [hleaves]
      exact hle
    · rw [hleaves]
      exact heq hs

theorem wp_statement (m : StandsFor stmt params op rc f) (h : Stands strict stage s w tr) :
    Prog.wp (apiEnv strict) (Api.runStatement (stmt :: tail) params) (fun r s' => ∃ tr' w',
      Prog.Traced (env (sqlFails strict) False) (stepAndTest op rc) w tr' r w' ∧
        Stands strict stage s' w' (tr ++ tr')) s := by
  have hrefused : ∀ c : Choice, f w.db c.now = none →
      w.sql c (f w.db c.now) = (.error, w) := by
    intro c hf
    rw [hf, World.sql]
    simp
  refine wp_runStatement (fun a x => m.norows _ a x) (fun hnull => ?_)
    (fun hthere now cur hleft => ?_) fun hthere now tables hdone => ?_
  · by_cases hs : strict
    · obtain ⟨t, -, hnone⟩ := hnull hs
      exact absurd hnone (h.compiled hs t)
    · exact m.traced_error h (c := chosen true 0) (fun hs' => absurd hs' hs)
        (World.sql_err (by simp) _) (fun _ _ => by simp) rfl (Nat.le_succ _)
          fun hs' => absurd hs' hs
  · by_cases hs : strict
    · -- without a reason outside the database a constraint has refused it
      have hexec := hleft hs
      obtain ⟨created, hfits, htables, -⟩ := h.created (hthere _ m.files)
      rw [htables] at hthere hexec
      rw [m.exec w.db created now h.wf hfits hthere] at hexec
      exact m.traced_error h (c := chosen false now) (fun _ _ => rfl)
        (hrefused _ (Option.map_eq_none_iff.mp hexec)) (fun hne => absurd (h.complete hs) hne) rfl
        (by simp) fun _ => by simp
    · exact m.traced_error h (c := chosen true now) (fun hs' => absurd hs' hs)
        (World.sql_err (by simp) _) (fun _ _ => by simp) rfl (by simp) fun hs' => absurd hs' hs
  · obtain ⟨created, hfits, htables, hcomplete⟩ := h.created (hthere _ m.files)
    rw [htables] at hthere hdone
    rw [m.exec w.db created now h.wf hfits hthere] at hdone
    obtain ⟨db', hdb', heq⟩ := Option.map_eq_some_iff.mp hdone
    obtain ⟨rfl, -⟩ := Prod.mk.inj heq
    have hsql : w.sql (chosen false now) (f w.db now) =
        (.done, { w with metadata := { w.metadata with db := db' } }) := by
      rw [hdb']
      rfl
    obtain ⟨hrc, hw⟩ := Prod.mk.inj ((m.handle (chosen false now) w).trans hsql)
    have hleaves : CacheFs.leaves ⟨op, chosen false now, w⟩ = false := by
      rw [m.leaves, hrc]
      rfl
    refine ⟨[⟨op, chosen false now, w⟩], { w with metadata := { w.metadata with db := db' } },
      ?_, ?_⟩
    · have hallow : sqlFails strict (chosen false now) op w := fun _ _ => rfl
      have htr := traced_stepAndTest rc hallow
      rwa [hrc, hw, if_pos rfl] at htr
    · have hlive := countP_event tr ⟨op, chosen false now, w⟩
      rw [hleaves] at hlive
      refine ⟨m.wf _ _ _ h.wf hdb', ?_, h.complete, h.blind_event fun hne hblocks => ?_, h.used,
        h.blockSize, h.small, ?_, fun hs => ?_⟩
      · have hold := h.tables
        cases stage with
        | bare => exact absurd (by rw [htables.symm.trans hold.2]) (hthere _ m.files)
        | filesOnly =>
            have hno : created = false := by simpa using hcomplete
            subst hno
            exact ⟨m.fits w.db now db' (fun hmem => hthere _ hmem rfl) hdb' hold.1, rfl⟩
        | complete => exact congrArg db'.encode (hcomplete.mpr rfl)
      · exact absurd (hcomplete.mp (Db.created_of_datablocks (hthere _ (m.onBlocks hblocks)))) hne
      · rw [hlive, ApiState.conn_withConn, Connection.live_push_none]
        exact h.live_le
      · rw [hlive, ApiState.conn_withConn, Connection.live_push_none]
        exact h.live_eq hs

theorem simulates_statement (m : StandsFor stmt params op rc f) :
    Prog.Simulates (apiEnv strict) (env (sqlFails strict) False) (Stands strict stage)
      (Api.runStatement (stmt :: tail) params) (stepAndTest op rc) :=
  fun _ _ _ h _ _ he => Prog.wp_exec (wp_statement m h) he

end Statements

section Instances

variable {filename : FileName} {blkOffset amount : Nat}

theorem standsFor_insertFile {remoteSize : Nat} (hsize : remoteSize < 2 ^ 63) :
    StandsFor MetaSql.insertFile [(1, .text filename), (2, Api.int64 remoteSize), (3, Api.int64 0)]
      (.insertFile filename remoteSize) id fun db _ => db.insertFile filename remoteSize where
  files := List.mem_cons_self
  onBlocks h := absurd h (by simp [Call.onBlocks])
  norows _ _ _ := rows_insert
  exec db created now hwf hfits _ := Db.exec_insertFile hwf hfits (by simp [bound])
    (by simp [bound, Api.int64_of_lt hsize])
  wf _ _ _ := Db.WF.insertFile
  fits db now db' _ h hnone := by
    obtain ⟨-, rfl⟩ := Db.insertFile_eq_some h
    exact hnone
  handle _ _ := rfl
  leaves _ _ := rfl

theorem standsFor_insertDatablock (ho : blkOffset < 2 ^ 63) :
    StandsFor MetaSql.insertDatablock [(1, Api.int64 blkOffset), (2, .text filename)]
      (.insertDatablock blkOffset filename) id
      fun db now => db.insertDatablock blkOffset filename now where
  files := by simp [MetaSql.insertDatablock, Stmt.tables, Term.tables, fileIdOf]
  onBlocks _ := List.mem_cons_self
  norows _ _ _ := rows_insert
  exec db created now hwf _ hthere := by
    obtain rfl := Db.created_of_datablocks (hthere .datablocks List.mem_cons_self)
    exact Db.exec_insertDatablock hwf (by simp [bound, Api.int64_of_lt ho]) (by simp [bound]) rfl
  wf _ _ _ := Db.WF.insertDatablock
  fits _ _ _ hno _ _ := absurd List.mem_cons_self hno
  handle _ _ := rfl
  leaves _ _ := rfl

theorem standsFor_addLocalSize (hamount : amount < 2 ^ 63) :
    StandsFor MetaSql.addLocalSize [(1, Api.int64 amount), (2, .text filename)]
      (.addLocalSize amount filename) id
      fun db _ => some (db.addLocalSize amount filename) where
  files := List.mem_cons_self
  onBlocks h := absurd h (by simp [Call.onBlocks])
  norows _ _ _ := rows_update
  exec db created now hwf hfits _ := Db.exec_addLocalSize hwf hfits
    (by simp [bound, Api.int64_of_lt hamount]) (by simp [bound])
  wf db now db' hwf h := by
    obtain rfl := Option.some.inj h
    exact hwf.addLocalSize
  fits db now db' _ h hnone := by
    obtain rfl := Option.some.inj h
    exact hnone
  handle _ _ := rfl
  leaves _ _ := rfl

theorem standsFor_subLocalSize (hamount : amount < 2 ^ 63) :
    StandsFor MetaSql.subLocalSize [(1, Api.int64 amount), (2, .text filename)]
      (.subLocalSize amount filename) id
      fun db _ => some (db.addLocalSize (-amount) filename) where
  files := List.mem_cons_self
  onBlocks h := absurd h (by simp [Call.onBlocks])
  norows _ _ _ := rows_update
  exec db created now hwf hfits _ := Db.exec_subLocalSize hwf hfits
    (by simp [bound, Api.int64_of_lt hamount]) (by simp [bound])
  wf db now db' hwf h := by
    obtain rfl := Option.some.inj h
    exact hwf.addLocalSize
  fits db now db' _ h hnone := by
    obtain rfl := Option.some.inj h
    exact hnone
  handle _ _ := rfl
  leaves _ _ := rfl

theorem standsFor_deleteFile : StandsFor MetaSql.deleteFile [(1, .text filename)]
    (.deleteFile filename) id fun db _ => some (db.deleteFile filename) where
  files := List.mem_cons_self
  onBlocks h := absurd h (by simp [Call.onBlocks])
  norows _ _ _ := rows_delete
  exec db created now hwf _ _ := Db.exec_deleteFile hwf (by simp [bound])
  wf db now db' hwf h := by
    obtain rfl := Option.some.inj h
    exact hwf.deleteFile
  fits db now db' _ h hnone := by
    obtain rfl := Option.some.inj h
    simp [Db.deleteFile, hnone]
  handle _ _ := rfl
  leaves _ _ := rfl

theorem standsFor_deleteDatablock (ho : blkOffset < 2 ^ 63) :
    StandsFor MetaSql.deleteDatablock [(1, Api.int64 blkOffset), (2, .text filename)]
      (.deleteDatablock blkOffset filename) id
      fun db _ => some (db.deleteDatablock blkOffset filename) where
  files := by simp [MetaSql.deleteDatablock, MetaSql.block, Stmt.tables, Term.tables, fileIdOf]
  onBlocks _ := List.mem_cons_self
  norows _ _ _ := rows_delete
  exec db created now hwf _ hthere := by
    obtain rfl := Db.created_of_datablocks (hthere .datablocks List.mem_cons_self)
    exact Db.exec_deleteDatablock hwf (by simp [bound, Api.int64_of_lt ho]) (by simp [bound])
  wf db now db' hwf h := by
    obtain rfl := Option.some.inj h
    exact hwf.deleteDatablock
  fits _ _ _ hno _ _ := absurd List.mem_cons_self hno
  handle _ _ := rfl
  leaves _ _ := rfl

theorem standsFor_touchDatablock (ho : blkOffset < 2 ^ 63) :
    StandsFor MetaSql.touchDatablock [(1, Api.int64 blkOffset), (2, .text filename)]
      (.touchDatablock blkOffset filename) id
      fun db now => some (db.touchDatablock blkOffset filename now) where
  files := by simp [MetaSql.touchDatablock, MetaSql.block, Stmt.tables, Term.tables, fileIdOf]
  onBlocks _ := List.mem_cons_self
  norows _ _ _ := rows_update
  exec db created now hwf _ hthere := by
    obtain rfl := Db.created_of_datablocks (hthere .datablocks List.mem_cons_self)
    exact Db.exec_touchDatablock hwf (by simp [bound, Api.int64_of_lt ho]) (by simp [bound]) rfl
  wf db now db' hwf h := by
    obtain rfl := Option.some.inj h
    exact hwf.touchDatablock
  fits _ _ _ hno _ _ := absurd List.mem_cons_self hno
  handle _ _ := rfl
  leaves _ _ := rfl

end Instances

-- ============================================================================
-- Lookups
-- ============================================================================

/-- A lookup, and the call of the upper level that stands for it. -/
structure StandsForLookup (stmt : Stmt MetaCol) (params : List (Nat × Value)) (op : Call)
    (rc : op.Reply → Rc) (found : Db → Bool) : Prop where
  files : MetaTable.files ∈ stmt.tables
  onBlocks : op.onBlocks = true → MetaTable.datablocks ∈ stmt.tables
  exec : ∀ db created now, db.WF → (∀ t ∈ stmt.tables, db.encode created t ≠ none) →
    ∃ rows, stmt.exec metaSchema (db.encode created) ⟨bound params, .int now⟩ =
      some (db.encode created, rows) ∧ rows.length = (found db).toNat
  handle : ∀ c w, (rc (handle c op w).1, (handle c op w).2) = (World.select c (found w.db), w)
  leaves : ∀ c w, leaves ⟨op, c, w⟩ = decide (rc (CacheFs.handle c op w).1 ≠ .row)

section Lookups

variable {strict : Prop} {stage : Stage} {s : ApiState} {w : World} {tr : List CfsEv}
  {stmt : Stmt MetaCol} {tail : List (Stmt MetaCol)} {params : List (Nat × Value)} {op : Call}
  {rc : op.Reply → Rc} {found : Db → Bool}

/-- The lookup of the upper level. -/
def lookupCall (op : Call) (rc : op.Reply → Rc) : CfsM Int :=
  lookupRow (.call op fun r => .ret (rc r))

theorem leaves_stepSelect (c : Choice) (w : World) : leaves ⟨.stepSelect, c, w⟩ = c.err.isSome := by
  cases herr : c.err <;> simp [leaves, handle, World.select, herr]

theorem StandsForLookup.traced_miss (m : StandsForLookup stmt params op rc found) {c : Choice}
    (hc : sqlFails strict c op w) (h : World.select c (found w.db) ≠ .row) :
    Prog.Traced (env (sqlFails strict) False) (lookupCall op rc) w [⟨op, c, w⟩]
      (if World.select c (found w.db) = .done then 0 else -1) w := by
  obtain ⟨hrc, hw⟩ := Prod.mk.inj (m.handle c w)
  refine ⟨c, [], hc, rfl, ?_⟩
  change Prog.Traced _ (if rc (CacheFs.handle c op w).1 ≠ .row then
    (if rc (CacheFs.handle c op w).1 = .done then pure 0 else pure (-1)) else _) _ _ _ _
  rw [if_pos (by rwa [hrc]), hrc]
  split
  · exact ⟨rfl, rfl, hw.symm⟩
  · exact ⟨rfl, rfl, hw.symm⟩

theorem StandsForLookup.traced_hit (m : StandsForLookup stmt params op rc found) {c c' : Choice}
    (hc : sqlFails strict c op w) (hc' : sqlFails strict c' .stepSelect w)
    (h : World.select c (found w.db) = .row) :
    Prog.Traced (env (sqlFails strict) False) (lookupCall op rc) w
      [⟨op, c, w⟩, ⟨.stepSelect, c', w⟩] (if c'.err.isSome then -1 else 1) w := by
  obtain ⟨hrc, hw⟩ := Prod.mk.inj (m.handle c w)
  refine ⟨c, [⟨.stepSelect, c', w⟩], hc, rfl, ?_⟩
  change Prog.Traced _ (if rc (CacheFs.handle c op w).1 ≠ .row then _ else
    ask .stepSelect >>= fun ret => if ret ≠ .done then pure (-1) else
      if !finalizeOk ret then pure (-1) else pure 1) (CacheFs.handle c op w).2 _ _ _
  rw [if_neg (by rw [hrc, h]; simp), hw]
  refine ⟨c', [], hc', rfl, ?_⟩
  change Prog.Traced _ (if World.select c' false ≠ .done then pure (-1) else
    if !finalizeOk (World.select c' false) then pure (-1) else pure 1) w _ _ _
  cases herr : c'.err with
  | none =>
      have hsel : World.select c' false = .done := by simp [World.select, herr]
      rw [hsel, if_neg (by simp), if_neg (by simp [finalizeOk])]
      exact ⟨rfl, rfl, rfl⟩
  | some e =>
      have hsel : World.select c' false = .error := by simp [World.select, herr]
      rw [hsel, if_pos (by simp)]
      exact ⟨rfl, rfl, rfl⟩

theorem simulates_lookup (m : StandsForLookup stmt params op rc found) :
    Prog.Simulates (apiEnv strict) (env (sqlFails strict) False) (Stands strict stage)
      (Api.lookupRow (stmt :: tail) params) (lookupCall op rc) := by
  intro s w tr h r s' he
  refine Prog.wp_exec (E := apiEnv strict) (Q := fun r s' => ∃ tr' w', Prog.Traced
    (env (sqlFails strict) False) (lookupCall op rc) w tr' r w' ∧
      Stands strict stage s' w' (tr ++ tr')) ?_ he
  -- without a row the call leaves a statement or nothing
  have hmiss : ∀ c conn ret, sqlFails strict c op w → World.select c (found w.db) ≠ .row →
      ret = (if World.select c (found w.db) = .done then 0 else -1) →
      (stage ≠ .complete → op.onBlocks = true → c.err ≠ none) → conn.tables = s.conn.tables →
        conn.live ≤ s.conn.live + 1 →
      (strict → conn.live = s.conn.live + 1) → ∃ tr' w', Prog.Traced
        (env (sqlFails strict) False) (lookupCall op rc) w tr' ret w' ∧
        Stands strict stage (s.withConn conn) w' (tr ++ tr') := by
    rintro c conn ret hc hrow rfl hblind htables hle heq
    have hleaves : CacheFs.leaves ⟨op, c, w⟩ = true := by
      rw [m.leaves, (Prod.mk.inj (m.handle c w)).1]
      exact decide_eq_true hrow
    refine ⟨_, w, m.traced_miss hc hrow, h.event hblind htables ?_ fun hs => ?_⟩
    · rw [hleaves]
      exact hle
    · rw [hleaves]
      exact heq hs
  have hfailed : World.select (chosen true 0) (found w.db) = .error := rfl
  unfold Api.lookupRow
  rw [Prog.wp_bind]
  refine wp_prepared (fun hnull text => ?_) fun hthere => ?_
  · refine wp_stepNull ?_
    by_cases hs : strict
    · obtain ⟨t, -, hnone⟩ := hnull hs
      exact absurd hnone (h.compiled hs t)
    · exact hmiss (chosen true 0) s.conn _ (fun hs' => absurd hs' hs) (by simp [hfailed])
        (by simp [hfailed]) (fun _ _ => by simp) rfl (Nat.le_succ _) fun hs' => absurd hs' hs
  · obtain ⟨created, hfits, htables, hcomplete⟩ := h.created (hthere _ m.files)
    rw [htables] at hthere
    -- an answer comes from the table
    have hthereBlocks : stage ≠ .complete → op.onBlocks = true → False := fun hne hblocks =>
      hne (hcomplete.mp (Db.created_of_datablocks (hthere _ (m.onBlocks hblocks))))
    have hexec := fun now => m.exec w.db created now h.wf hthere
    rw [← htables] at hexec
    refine wp_stepStart (by simp) (fun now herr => ?_) (fun now tables hdone => ?_)
      fun now tables row rest hrow => ?_
    · by_cases hs : strict
      · obtain ⟨rows, hrows, -⟩ := hexec now
        rw [herr hs] at hrows
        cases hrows
      · exact hmiss (chosen true 0) _ _ (fun hs' => absurd hs' hs) (by simp [hfailed])
          (by simp [hfailed]) (fun _ _ => by simp) rfl Connection.live_push_some.le
          fun hs' => absurd hs' hs
    · obtain ⟨rows, hrows, hlen⟩ := hexec now
      rw [hdone] at hrows
      obtain ⟨rfl, rfl⟩ := Prod.mk.inj (Option.some.inj hrows)
      have hnot : found w.db = false := by
        cases hf : found w.db with
        | true => rw [hf] at hlen; cases hlen
        | false => rfl
      have hsel : World.select (chosen false now) (found w.db) = .done := by rw [hnot]; rfl
      exact hmiss (chosen false now) _ _ (fun _ _ => rfl) (by simp [hsel]) (by simp [hsel])
        (fun hne hblocks => (hthereBlocks hne hblocks).elim) rfl Connection.live_push_some.le
        fun _ => Connection.live_push_some
    · obtain ⟨rows, hrows, hlen⟩ := hexec now
      rw [hrow] at hrows
      obtain ⟨rfl, rfl⟩ := Prod.mk.inj (Option.some.inj hrows)
      have hfound : found w.db = true := by
        cases hf : found w.db with
        | true => rfl
        | false => rw [hf] at hlen; simp at hlen
      obtain rfl : rest = [] := by
        rw [hfound, List.length_cons] at hlen
        exact List.length_eq_zero_iff.mp (by simpa using hlen)
      have hsel : World.select (chosen false now) (found w.db) = .row := by rw [hfound]; rfl
      have hleaves : CacheFs.leaves ⟨op, chosen false now, w⟩ = false := by
        rw [m.leaves, (Prod.mk.inj (m.handle _ w)).1, hsel]
        rfl
      have h₁ : Stands strict stage (s.withConn s.conn) w (tr ++ [⟨op, chosen false now, w⟩]) :=
        h.event (fun hne hblocks => (hthereBlocks hne hblocks).elim) rfl (by simp)
          fun _ => by simp [hleaves]
      have hhit : ∀ c conn ret, sqlFails strict c .stepSelect w →
          ret = (if c.err.isSome then -1 else 1) → conn.tables = s.conn.tables →
          conn.live ≤ s.conn.live + c.err.isSome.toNat →
          (strict → conn.live = s.conn.live + c.err.isSome.toNat) → ∃ tr' w', Prog.Traced
            (env (sqlFails strict) False) (lookupCall op rc) w tr' ret w' ∧
            Stands strict stage (s.withConn conn) w' (tr ++ tr') := by
        rintro c conn ret hc rfl htables hle heq
        have hallow : sqlFails strict (chosen false now) op w := fun _ _ => rfl
        have hstep := leaves_stepSelect c w
        refine ⟨_, w, m.traced_hit hallow hc hsel, ?_⟩
        have h₂ : Stands strict stage (s.withConn conn) w
            ((tr ++ [⟨op, chosen false now, w⟩]) ++ [⟨.stepSelect, c, w⟩]) :=
          h₁.event (fun _ hblocks => absurd hblocks (by simp [Call.onBlocks])) htables
            (by rwa [hstep]) (by rwa [hstep])
        rwa [List.append_assoc] at h₂
      rw [if_neg (by simp)]
      refine wp_stepRow (fun hs => ?_) ?_
      · exact hhit (chosen true 0) _ _ (fun hs' => absurd hs' hs) rfl rfl
          Connection.live_push_some.le fun hs' => absurd hs' hs
      · rw [if_neg (by simp)]
        exact wp_finalizePush (hhit (chosen false 0) _ _ (fun _ _ => rfl) rfl rfl
          Connection.live_push_none.le fun _ => Connection.live_push_none)

end Lookups

-- ============================================================================
-- delete_file
-- ============================================================================

section DeleteFile

variable {strict : Prop} {stage : Stage} {s : ApiState} {w : World} {tr : List CfsEv}
  {filename : FileName}

/-- The part of `delete_file` before the DELETE: what the second step returns. -/
def takeSize (filename : FileName) : CfsM Rc := do
  let first ← ask (.selectLocalSize filename)
  let _ ← ask (.addCacheUsedSize (-first.2))
  if first.1 = .row then ask .stepSelect
  else do
    let again ← ask (.selectLocalSize filename)
    pure again.1

theorem deleteFile_eq (filename : FileName) : deleteFile filename = takeSize filename >>= fun ret =>
    if ret ≠ .done then pure (-1) else stepAndTest (.deleteFile filename) id := by
  unfold deleteFile takeSize
  simp only [bind_assoc]
  refine bind_congr fun first => bind_congr fun _ => ?_
  by_cases hrow : first.1 = .row
  · rw [if_pos hrow, if_pos hrow]
    exact bind_congr fun ret => by cases ret <;> rfl
  · rw [if_neg hrow, if_neg hrow, bind_assoc]
    refine bind_congr fun again => ?_
    rw [pure_bind, pure_bind]
    cases again.1 <;> rfl

/-- The counter after the size has been taken off. -/
def World.addUsed (w : World) (amount : Int) : World :=
  { w with metadata := { w.metadata with
      cacheUsedSize := wrap64 (w.metadata.cacheUsedSize + amount) } }

def ApiState.addUsed (s : ApiState) (amount : Int) : ApiState :=
  { s with cacheUsedSize := wrap64 (s.cacheUsedSize + amount) }

theorem Stands.addUsed (h : Stands strict stage s w tr) (amount : Int) (c : Choice) :
    Stands strict stage (s.addUsed amount) (w.addUsed amount)
      (tr ++ [⟨.addCacheUsedSize amount, c, w⟩]) := by
  have hcount := countP_event tr ⟨.addCacheUsedSize amount, c, w⟩
  refine ⟨h.wf, h.tables, h.complete,
    h.blind_event fun _ hblocks => absurd hblocks (by simp [Call.onBlocks]), ?_, h.blockSize,
    h.small, ?_, fun hs => ?_⟩
  · simp only [World.addUsed, ApiState.addUsed, h.used]
  · rw [hcount]
    exact h.live_le
  · rw [hcount]
    exact h.live_eq hs

/-- The size the first step finds. -/
def sizeFound (c : Choice) (filename : FileName) (w : World) : Int :=
  if c.err.isSome then 0 else (w.db.localSize? filename).getD 0

/-- The second step: the SELECT ends after its row, and runs again without one. -/
def secondStep (filename : FileName) (c c' : Choice) (w : World) : CfsEv :=
  if World.select c (w.db.localSize? filename).isSome = .row then
    ⟨.stepSelect, c', w.addUsed (-sizeFound c filename w)⟩
  else ⟨.selectLocalSize filename, c', w.addUsed (-sizeFound c filename w)⟩

def secondRc (filename : FileName) (c c' : Choice) (w : World) : Rc :=
  if World.select c (w.db.localSize? filename).isSome = .row then World.select c' false
  else World.select c' (w.db.localSize? filename).isSome

theorem traced_takeSize {c c' : Choice} (hc : sqlFails strict c (.selectLocalSize filename) w)
    (hc' : strict → c'.err = none) :
    Prog.Traced (env (sqlFails strict) False) (takeSize filename) w
      [⟨.selectLocalSize filename, c, w⟩, ⟨.addCacheUsedSize (-sizeFound c filename w), {}, w⟩,
        secondStep filename c c' w] (secondRc filename c c' w)
      (w.addUsed (-sizeFound c filename w)) := by
  refine ⟨c, _, hc, rfl, {}, _, fun _ _ => rfl, rfl, ?_⟩
  change Prog.Traced _ (if World.select c (w.db.localSize? filename).isSome = .row then
    ask .stepSelect else _) (w.addUsed (-sizeFound c filename w)) _ _ _
  unfold secondStep secondRc
  by_cases hrow : World.select c (w.db.localSize? filename).isSome = .row
  · rw [if_pos hrow, if_pos hrow, if_pos hrow]
    exact ⟨c', [], fun hs _ => hc' hs, rfl, rfl, rfl, rfl⟩
  · rw [if_neg hrow, if_neg hrow, if_neg hrow]
    exact ⟨c', [], fun hs _ => hc' hs, rfl, rfl, rfl, rfl⟩

theorem leaves_selectLocalSize (c : Choice) (w : World) :
    leaves ⟨.selectLocalSize filename, c, w⟩ = c.err.isSome := by
  cases herr : c.err with
  | none => simp [leaves, handle, World.select, herr]; split <;> simp
  | some e => simp [leaves, handle, World.select, herr]

theorem leaves_secondStep (c c' : Choice) :
    leaves (secondStep filename c c' w) = c'.err.isSome := by
  unfold secondStep
  split
  · exact leaves_stepSelect c' _
  · exact leaves_selectLocalSize c' _

/-- Both levels after the size has been taken off. -/
theorem Stands.takeSize (h : Stands strict stage s w tr) (filename : FileName) (c c' : Choice)
    {conn : Connection MetaCol} (htables : conn.tables = s.conn.tables)
    (hle : conn.live ≤ s.conn.live + (c.err.isSome.toNat + c'.err.isSome.toNat))
    (heq : strict → conn.live = s.conn.live ∧ c.err = none ∧ c'.err = none) :
    Stands strict stage ((s.addUsed (-sizeFound c filename w)).withConn conn)
      (w.addUsed (-sizeFound c filename w))
      (tr ++ [⟨.selectLocalSize filename, c, w⟩,
        ⟨.addCacheUsedSize (-sizeFound c filename w), {}, w⟩, secondStep filename c c' w]) := by
  have hcount : (tr ++ [⟨.selectLocalSize filename, c, w⟩,
      ⟨.addCacheUsedSize (-sizeFound c filename w), {}, w⟩, secondStep filename c c' w]).countP
        leaves = tr.countP leaves + (c.err.isSome.toNat + c'.err.isSome.toNat) := by
    rw [List.countP_append, List.countP_cons, List.countP_cons, List.countP_singleton,
      leaves_selectLocalSize, leaves_secondStep]
    cases c.err.isSome <;> cases c'.err.isSome <;> simp [leaves]
  have hblocks : (secondStep filename c c' w).op.onBlocks = false := by
    unfold secondStep
    split <;> rfl
  refine ⟨h.wf, ?_, h.complete, fun hne e he hb => ?_, ?_, h.blockSize, h.small, ?_, fun hs => ?_⟩
  · rw [ApiState.conn_withConn, htables]
    exact h.tables
  · rcases List.mem_append.mp he with he | he
    · exact h.blind hne e he hb
    · simp only [List.mem_cons, List.not_mem_nil, or_false] at he
      rcases he with rfl | rfl | rfl
      · exact absurd hb (by simp [Call.onBlocks])
      · exact absurd hb (by simp [Call.onBlocks])
      · exact absurd hb (by simp [hblocks])
  · simp only [World.addUsed, ApiState.addUsed, h.used, ApiState.cacheUsedSize_withConn]
  · have := h.live_le
    rw [hcount, ApiState.conn_withConn]
    omega
  · have := h.live_eq hs
    obtain ⟨hlive, hnone, hnone'⟩ := heq hs
    rw [hcount, ApiState.conn_withConn, hlive, hnone, hnone']
    exact this

/-- The size of the current row is taken off the counter. -/
theorem wp_takeOff {α : Type} {p : ApiM α} {Q : α → ApiState → Prop} {stmt : Option Nat}
    {conn : Connection MetaCol} {size : Int} (hsize : conn.columnInt stmt 0 = size)
    (h : Prog.wp (apiEnv strict) p Q ((s.addUsed (-size)).withConn conn)) :
    Prog.wp (apiEnv strict) (do
      let size ← Api.call (.columnInt stmt 0)
      let _ ← Api.call (.addCacheUsedSize (-size))
      p) Q (s.withConn conn) := by
  subst hsize
  rw [Prog.wp_bind, wp_apiCall]
  intro _ _
  rw [Prog.wp_bind, wp_apiCall]
  exact fun _ _ => h

/-- `delete_file` on both levels. -/
theorem wp_apiDeleteFile (h : Stands strict stage s w tr) :
    Prog.wp (apiEnv strict) (Api.deleteFile filename) (fun r s' => ∃ tr' w',
      Prog.Traced (env (sqlFails strict) False) (deleteFile filename) w tr' r w' ∧
        Stands strict stage s' w' (tr ++ tr')) s := by
  have hm : StandsFor MetaSql.deleteFile [(1, .text filename)] (.deleteFile filename) id
    fun db _ => some (db.deleteFile filename) := standsFor_deleteFile
  -- the second step has ended the function
  have hstop : ¬ strict → ∀ c c' conn size, sizeFound c filename w = size →
      secondRc filename c c' w ≠ .done → conn.tables = s.conn.tables →
      conn.live ≤ s.conn.live + (c.err.isSome.toNat + c'.err.isSome.toNat) →
      ∃ tr' w', Prog.Traced (env (sqlFails strict) False) (deleteFile filename) w tr' (-1) w' ∧
        Stands strict stage ((s.addUsed (-size)).withConn conn) w' (tr ++ tr') := by
    rintro hs c c' conn size rfl hrc htables hle
    refine ⟨_, _, ?_, h.takeSize filename c c' htables hle fun hs' => absurd hs' hs⟩
    rw [deleteFile_eq]
    refine Prog.traced_bind.mpr ⟨_, [], _, _, by rw [List.append_nil],
      traced_takeSize (fun hs' => absurd hs' hs) fun hs' => absurd hs' hs, ?_⟩
    rw [if_pos hrc]
    exact ⟨rfl, rfl, rfl⟩
  -- the SELECT has ended and the DELETE follows
  have hgo : ∀ c c' conn size, (strict → c.err = none ∧ c'.err = none) →
      sizeFound c filename w = size → secondRc filename c c' w = .done →
      conn.tables = s.conn.tables → conn.live = s.conn.live →
      Prog.wp (apiEnv strict) (Api.runStatement [MetaSql.deleteFile] [(1, .text filename)])
        (fun r s' => ∃ tr' w',
          Prog.Traced (env (sqlFails strict) False) (deleteFile filename) w tr' r w' ∧
            Stands strict stage s' w' (tr ++ tr')) ((s.addUsed (-size)).withConn conn) := by
    rintro c c' conn size herr rfl hrc htables hlive
    have h' := h.takeSize filename c c' htables (by omega) fun hs => ⟨hlive, herr hs⟩
    refine Prog.wp_mono (wp_statement hm h') ?_
    rintro r s' ⟨tr', w', htr', hs'⟩
    refine ⟨_ ++ tr', w', ?_, by rwa [← List.append_assoc]⟩
    rw [deleteFile_eq]
    refine Prog.traced_bind.mpr ⟨_, tr', _, _, rfl,
      traced_takeSize (fun hs _ => (herr hs).1) fun hs => (herr hs).2, ?_⟩
    rw [hrc, if_neg (by simp)]
    exact htr'
  have hstrict : strict → ∀ t, s.conn.tables t ≠ none := h.compiled
  unfold Api.deleteFile
  rw [Prog.wp_bind]
  refine wp_prepared (fun hnull text => ?_) fun hthere => ?_
  · have hs : ¬ strict := fun hs => (hnull hs).elim fun t ht => hstrict hs t ht.2
    refine wp_stepNull ?_
    change Prog.wp _ _ _ (s.withConn s.conn)
    refine wp_takeOff Connection.columnInt_none (wp_stepNull ?_)
    exact hstop hs (chosen true 0) (chosen true 0) s.conn 0 rfl (by simp [secondRc]) rfl (by simp)
  obtain ⟨created, -, htables, -⟩ := h.created (hthere .files List.mem_cons_self)
  have hexec : ∀ now : Int, MetaSql.selectLocalSize.exec metaSchema s.conn.tables
      ⟨bound [(1, .text filename)], .int now⟩ = some (s.conn.tables,
        (w.db.localSize? filename).toList.map fun n => [.int n]) := by
    intro now
    rw [htables]
    exact Db.exec_selectLocalSize h.wf (by simp [bound])
  refine wp_stepStart (by simp) (fun now herr => ?_) (fun now tables hdone => ?_)
    fun now tables row rest hrow => ?_
  · have hs : ¬ strict := fun hs => absurd ((herr hs).symm.trans (hexec now)) (by simp)
    refine wp_takeOff Connection.columnInt_push_halted ?_
    -- the statement is run again
    refine wp_stepStart (by simp) (fun now' _ => ?_) (fun now' tables hdone => ?_)
      fun now' tables row rest hrow => ?_
    · exact hstop hs (chosen true 0) (chosen true 0) _ 0 rfl (by simp [secondRc]) rfl
        (Connection.live_push_some.le.trans (by simp))
    · obtain ⟨rfl, hnil⟩ := Prod.mk.inj (Option.some.inj (hdone.symm.trans (hexec now')))
      have hnot : w.db.localSize? filename = none := by simpa using hnil
      exact wp_finalizePush (hgo (chosen true 0) (chosen false now') _ 0
        (fun hs' => absurd hs' hs) rfl (by simp [secondRc, hnot]) rfl Connection.live_push_none)
    · obtain ⟨rfl, hcons⟩ := Prod.mk.inj (Option.some.inj (hrow.symm.trans (hexec now')))
      obtain ⟨size, hsize⟩ : ∃ size, w.db.localSize? filename = some size :=
        Option.ne_none_iff_exists'.mp fun hnone => by simp [hnone] at hcons
      exact hstop hs (chosen true 0) (chosen false now') _ 0 rfl (by simp [secondRc, hsize]) rfl
        (Connection.live_push_some.le.trans (by simp))
  · obtain ⟨rfl, hnil⟩ := Prod.mk.inj (Option.some.inj (hdone.symm.trans (hexec now)))
    have hnot : w.db.localSize? filename = none := by simpa using hnil
    have hsize : sizeFound (chosen false now) filename w = 0 := by simp [sizeFound, hnot]
    refine wp_takeOff Connection.columnInt_push_halted ?_
    refine wp_stepStart (by simp) (fun now' herr => ?_) (fun now' tables hdone => ?_)
      fun now' tables row rest hrow => ?_
    · have hs : ¬ strict := fun hs => absurd ((herr hs).symm.trans (hexec now')) (by simp)
      exact hstop hs (chosen false now) (chosen true 0) _ 0 hsize (by simp [secondRc, hnot]) rfl
        (Connection.live_push_some.le.trans (by simp))
    · obtain ⟨rfl, -⟩ := Prod.mk.inj (Option.some.inj (hdone.symm.trans (hexec now')))
      exact wp_finalizePush (hgo (chosen false now) (chosen false now') _ 0
        (fun _ => ⟨rfl, rfl⟩) hsize (by simp [secondRc, hnot]) rfl Connection.live_push_none)
    · exact absurd (hrow.symm.trans (hexec now')) (by simp [hnot])
  · obtain ⟨rfl, hcons⟩ := Prod.mk.inj (Option.some.inj (hrow.symm.trans (hexec now)))
    obtain ⟨size, hsize⟩ : ∃ size, w.db.localSize? filename = some size :=
      Option.ne_none_iff_exists'.mp fun hnone => by simp [hnone] at hcons
    obtain ⟨rfl, rfl⟩ : row = [.int size] ∧ rest = [] := by simpa [hsize] using hcons
    have hfound : sizeFound (chosen false now) filename w = size := by simp [sizeFound, hsize]
    refine wp_takeOff Connection.columnInt_push_row ?_
    refine wp_stepRow (fun hs => ?_) ?_
    · exact hstop hs (chosen false now) (chosen true 0) _ size hfound
        (by simp [secondRc, hsize]) rfl
        (Connection.live_push_some.le.trans (by simp))
    · exact wp_finalizePush (hgo (chosen false now) (chosen false 0) _ size
        (fun _ => ⟨rfl, rfl⟩) hfound (by simp [secondRc, hsize]) rfl Connection.live_push_none)

end DeleteFile

-- ============================================================================
-- Functions
-- ============================================================================

section Functions

variable {strict : Prop} {stage : Stage} {filename : FileName} {blkOffset remoteSize : Nat}
  {blkArr : List Nat}

/-- The functions of the two levels do the same. -/
abbrev Refines {α : Type} (strict : Prop) (stage : Stage) (p : ApiM α) (q : CfsM α) : Prop :=
  Prog.Simulates (apiEnv strict) (env (sqlFails strict) False) (Stands strict stage) p q

theorem refines_createFile (hsize : remoteSize < 2 ^ 63) :
    Refines strict stage (Api.createFile filename remoteSize) (createFile filename remoteSize) :=
  simulates_statement (standsFor_insertFile hsize)

theorem refines_updateBlkTime (ho : blkOffset < 2 ^ 63) :
    Refines strict stage (Api.updateBlkTime filename blkOffset)
      (updateBlkTime filename blkOffset) :=
  simulates_statement (standsFor_touchDatablock ho)

theorem refines_deleteFile : Refines strict stage (Api.deleteFile filename) (deleteFile filename) :=
  fun _ _ _ h _ _ he => Prog.wp_exec (wp_apiDeleteFile h) he

theorem refines_isFileInCache :
    Refines strict stage (Api.isFileInCache filename) (isFileInCache filename) := by
  have hm : StandsForLookup MetaSql.selectFileId [(1, .text filename)] (.selectFileId filename) id
      fun db => (db.fileId? filename).isSome := by
    refine ⟨List.mem_cons_self, fun hblocks => absurd hblocks (by simp [Call.onBlocks]),
      fun db created now hwf _ => ?_, fun _ _ => rfl, fun _ _ => rfl⟩
    have hone : bound [(1, .text filename)] 1 = .text filename := by simp [bound]
    refine ⟨_, Db.exec_selectFileId hwf hone, ?_⟩
    rw [List.length_map]
    cases db.fileId? filename <;> rfl
  exact simulates_lookup hm

theorem refines_isBlkInCache (ho : blkOffset < 2 ^ 63) :
    Refines strict stage (Api.isBlkInCache filename blkOffset)
      (isBlkInCache filename blkOffset) := by
  have hm : StandsForLookup MetaSql.selectBlockId [(1, Api.int64 blkOffset), (2, .text filename)]
      (.selectBlockId blkOffset filename) id fun db => db.selectBlockId blkOffset filename := by
    refine ⟨?_, fun _ => List.mem_cons_self, fun db created now hwf hthere => ?_,
      fun _ _ => rfl, fun _ _ => rfl⟩
    · simp [MetaSql.selectBlockId, MetaSql.block, Stmt.tables, Term.tables, fileIdOf]
    · obtain rfl := Db.created_of_datablocks (hthere .datablocks List.mem_cons_self)
      exact Db.exec_selectBlockId hwf (by simp [bound, Api.int64_of_lt ho]) (by simp [bound])
  exact simulates_lookup hm

theorem refines_areBlocksInCache (ho : ∀ o ∈ blkArr, o < 2 ^ 63) :
    Refines strict stage (Api.areBlocksInCache filename blkArr)
      (areBlocksInCache filename blkArr) :=
  Prog.simulates_foldlM (fun _ o hmem =>
    (refines_isBlkInCache (ho o hmem)).bind fun _ => Prog.simulates_pure _) _

/-- A read of the block size: it is the same on both levels, and small. -/
theorem refines_blockSize {α : Type} {p : Nat → ApiM α} {q : Nat → CfsM α}
    (h : ∀ size, size < 2 ^ 63 → Refines strict stage (p size) (q size)) :
    Refines strict stage (Api.call .getMetaBlockSize >>= p) (ask .getMetaBlockSize >>= q) := by
  refine Prog.simulates_call fun s w tr hR o _ => ⟨{}, fun _ _ => rfl, ?_, ?_⟩
  · exact hR.event (fun _ hblocks => absurd hblocks (by simp [Call.onBlocks])) rfl
      (Nat.le_add_right _ _) fun _ => rfl
  · have hsize : w.metadata.metaBlockSize = s.metaBlockSize := hR.blockSize
    change Refines strict stage (p s.metaBlockSize) (q w.metadata.metaBlockSize)
    rw [hsize]
    exact h _ hR.small

theorem refines_addCacheUsedSize {α : Type} {amount : Int} {p : ApiM α} {q : CfsM α}
    (h : Refines strict stage p q) :
    Refines strict stage (Api.call (.addCacheUsedSize amount) >>= fun _ => p)
      (ask (.addCacheUsedSize amount) >>= fun _ => q) :=
  Prog.simulates_call fun _ _ _ hR _ _ => ⟨{}, fun _ _ => rfl, hR.addUsed amount {}, h⟩

/-- Two statements and the counter, as in `insert_block` and `delete_block`. -/
theorem refines_twoStatements {p₁ : ApiM Int} {q₁ : CfsM Int} {p₂ : Nat → ApiM Int}
    {q₂ : Nat → CfsM Int} (amount : Nat → Int) (h₁ : Refines strict stage p₁ q₁)
    (h₂ : ∀ size, size < 2 ^ 63 → Refines strict stage (p₂ size) (q₂ size)) :
    Refines strict stage
      (do
        let ret ← p₁
        if ret ≠ 0 then pure (-1)
        else
          let size ← Api.call .getMetaBlockSize
          let ret ← p₂ size
          if ret ≠ 0 then pure (-1)
          else
            let size ← Api.call .getMetaBlockSize
            let _ ← Api.call (.addCacheUsedSize (amount size))
            pure 0)
      (do
        let ret ← q₁
        if ret ≠ 0 then pure (-1)
        else
          let size ← ask .getMetaBlockSize
          let ret ← q₂ size
          if ret ≠ 0 then pure (-1)
          else
            let size ← ask .getMetaBlockSize
            let _ ← ask (.addCacheUsedSize (amount size))
            pure 0) := by
  refine h₁.bind fun ret => Prog.simulates_ite _ (Prog.simulates_pure _) ?_
  refine refines_blockSize fun size hsize => ?_
  refine (h₂ size hsize).bind fun ret => Prog.simulates_ite _ (Prog.simulates_pure _) ?_
  exact refines_blockSize fun size _ => refines_addCacheUsedSize (Prog.simulates_pure _)

theorem refines_insertBlock (ho : blkOffset < 2 ^ 63) :
    Refines strict stage (Api.insertBlock filename blkOffset) (insertBlock filename blkOffset) := by
  have heq : insertBlock filename blkOffset = (do
      let ret ← stepAndTest (.insertDatablock blkOffset filename) id
      if ret ≠ 0 then pure (-1)
      else
        let size ← ask .getMetaBlockSize
        let ret ← stepAndTest (.addLocalSize size filename) id
        if ret ≠ 0 then pure (-1)
        else
          let size ← ask .getMetaBlockSize
          let _ ← ask (.addCacheUsedSize size)
          pure 0) := by
    refine congrArg (Prog.call (Call.insertDatablock blkOffset filename)) (funext fun ret => ?_)
    cases ret
    · rfl
    · refine congrArg (Prog.call Call.getMetaBlockSize) (funext fun size => ?_)
      refine congrArg (Prog.call (Call.addLocalSize size filename)) (funext fun ret => ?_)
      cases ret <;> rfl
    · rfl
  rw [heq]
  exact refines_twoStatements (fun size => size)
    (simulates_statement (standsFor_insertDatablock ho))
    fun size hsize => simulates_statement (standsFor_addLocalSize hsize)

theorem refines_deleteBlock (ho : blkOffset < 2 ^ 63) :
    Refines strict stage (Api.deleteBlock filename blkOffset) (deleteBlock filename blkOffset) := by
  have heq : deleteBlock filename blkOffset = (do
      let ret ← stepAndTest (.deleteDatablock blkOffset filename) id
      if ret ≠ 0 then pure (-1)
      else
        let size ← ask .getMetaBlockSize
        let ret ← stepAndTest (.subLocalSize size filename) id
        if ret ≠ 0 then pure (-1)
        else
          let size ← ask .getMetaBlockSize
          let _ ← ask (.addCacheUsedSize (-size))
          pure 0) := by
    refine congrArg (Prog.call (Call.deleteDatablock blkOffset filename)) (funext fun ret => ?_)
    cases ret
    · rfl
    · refine congrArg (Prog.call Call.getMetaBlockSize) (funext fun size => ?_)
      refine congrArg (Prog.call (Call.subLocalSize size filename)) (funext fun ret => ?_)
      cases ret <;> rfl
    · rfl
  rw [heq]
  exact refines_twoStatements (fun size => -size)
    (simulates_statement (standsFor_deleteDatablock ho))
    fun size hsize => simulates_statement (standsFor_subLocalSize hsize)

theorem refines_insertBlocks (ho : ∀ o ∈ blkArr, o < 2 ^ 63) :
    Refines strict stage (Api.insertBlocks filename blkArr) (insertBlocks filename blkArr) :=
  (Prog.simulates_foldlM (fun _ o hmem => (refines_insertBlock (ho o hmem)).bind fun _ =>
    Prog.simulates_pure _) _).bind fun _ => Prog.simulates_pure _

theorem refines_deleteBlocks (ho : ∀ o ∈ blkArr, o < 2 ^ 63) :
    Refines strict stage (Api.deleteBlocks filename blkArr) (deleteBlocks filename blkArr) :=
  (Prog.simulates_foldlM (fun _ o hmem => (refines_deleteBlock (ho o hmem)).bind fun _ =>
    Prog.simulates_pure _) _).bind fun _ => Prog.simulates_pure _

theorem refines_writeBlks (ho : ∀ o ∈ blkArr, o < 2 ^ 63) :
    Refines strict stage (Api.writeBlks filename blkArr) (writeBlks filename blkArr) := by
  refine (refines_areBlocksInCache ho).bind fun found => ?_
  refine (Prog.simulates_foldlM (fun _ e hmem => ?_) _).bind fun _ => Prog.simulates_pure _
  have he := ho e.1 (List.of_mem_zip hmem).1
  exact Prog.simulates_ite (e.2 ≠ 0)
    ((refines_updateBlkTime he).bind fun _ => Prog.simulates_pure _)
    ((refines_insertBlock he).bind fun _ => Prog.simulates_pure _)

end Functions

end CacheFs
