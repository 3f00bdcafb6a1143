/-
  CacheFs.Sql.Connection

  The C interface of a database connection: statements are prepared, bound, stepped and
  finalized.

  A prepared statement lives until it is finalized, whatever its steps have returned; a
  connection keeps every statement it ever gave out at its place in `stmts`, with `none` for
  one that is gone, so that `live` counts what a program still holds.  `prepare` gives no
  statement for a text that names a table which does not exist.  Calls with a statement that
  is not there report an error and do nothing.  A step after the last one runs the statement
  again.  Each call may also fail for a reason outside the database.

  The rows of a SELECT are those of the moment of its first step.
-/

import CacheFs.Sql.Relation

namespace CacheFs.Sql

variable {T : Type} {C : T → Type}

/-- What `sqlite3_step` returns. -/
inductive Outcome where
  | row
  | done
  | error
deriving DecidableEq

/-- How far a statement has been run. -/
inductive Phase where
  | ready
  /-- The current row and those to come. -/
  | row (cur : List Value) (rest : List (List Value))
  | halted (failed : Bool)
deriving DecidableEq

/-- A prepared statement. -/
structure Cursor (C : T → Type) where
  stmt : Stmt C
  params : Nat → Value := fun _ => .null
  phase : Phase := .ready

structure Connection (C : T → Type) where
  tables : Tables C
  /-- The statements in the order in which they were prepared. -/
  stmts : List (Option (Cursor C)) := []

/-- What is decided outside the connection about one call. -/
structure Outside where
  fails : Bool := false
  now : Int := 0

namespace Connection

/-- The number of statements that have not been finalized. -/
def live (conn : Connection C) : Nat := conn.stmts.countP Option.isSome

/-- The statement a pointer refers to; `none` is the null pointer. -/
def cursor? (conn : Connection C) (stmt : Option Nat) : Option (Nat × Cursor C) :=
  stmt.bind fun i => (conn.stmts[i]?.join).map fun cur => (i, cur)

def setCursor (conn : Connection C) (i : Nat) (cur : Option (Cursor C)) : Connection C :=
  { conn with stmts := conn.stmts.set i cur }

/-- The connection with one more statement. -/
def push (conn : Connection C) (cur : Option (Cursor C)) : Connection C :=
  { conn with stmts := conn.stmts ++ [cur] }

section Calls

variable (S : Schema C) (o : Outside) (conn : Connection C)

/-- `sqlite3_prepare_v2`: the first statement of the text, and the text after it. -/
def prepare : List (Stmt C) → (Option Nat × List (Stmt C)) × Connection C
  | [] => ((none, []), conn)
  | stmt :: tail =>
      if o.fails ∨ ∃ t ∈ stmt.tables, conn.tables t = none then ((none, stmt :: tail), conn)
      else ((some conn.stmts.length, tail), conn.push (some { stmt }))

/-- `sqlite3_bind_*`: a running statement keeps its parameters. -/
def bind (stmt : Option Nat) (i : Nat) (v : Value) : Connection C :=
  match conn.cursor? stmt with
  | none => conn
  | some (id, cur) =>
    match cur.phase with
    | .row _ _ => conn
    | _ => conn.setCursor id (some { cur with params := Function.update cur.params i v })

/-- `sqlite3_column_int64`: 0 without a current row. -/
def columnInt (stmt : Option Nat) (i : Nat) : Int :=
  match conn.cursor? stmt with
  | none => 0
  | some (_, cur) =>
    match cur.phase with
    | .row r _ => ((r[i]?.getD .null).int?).getD 0
    | _ => 0

/-- `sqlite3_finalize`: whether it returns SQLITE_OK, which it does not after a failed step. -/
def finalize (stmt : Option Nat) : Bool × Connection C :=
  match conn.cursor? stmt with
  | none => (true, conn)
  | some (id, cur) => (cur.phase ≠ .halted true, conn.setCursor id none)

variable [DecidableEq T] [∀ t, DecidableEq (C t)] [Fintype T]

/-- The first step of a statement. -/
def start (id : Nat) (cur : Cursor C) : Outcome × Connection C :=
  match if o.fails then none else cur.stmt.exec S conn.tables ⟨cur.params, .int o.now⟩ with
  | none => (.error, conn.setCursor id (some { cur with phase := .halted true }))
  | some (tables, []) =>
      (.done, { conn.setCursor id (some { cur with phase := .halted false }) with tables })
  | some (tables, r :: rest) =>
      (.row, { conn.setCursor id (some { cur with phase := .row r rest }) with tables })

/-- `sqlite3_step`. -/
def step (stmt : Option Nat) : Outcome × Connection C :=
  match conn.cursor? stmt with
  | none => (.error, conn)
  | some (id, cur) =>
    match cur.phase with
    | .row _ rest =>
      if o.fails then (.error, conn.setCursor id (some { cur with phase := .halted true }))
      else
        match rest with
        | [] => (.done, conn.setCursor id (some { cur with phase := .halted false }))
        | r :: rest => (.row, conn.setCursor id (some { cur with phase := .row r rest }))
    | _ => conn.start S o id cur

/-- One statement of `sqlite3_exec`, which prepares it, runs it to its end and finalizes it:
    the rows it passes to the callback. -/
def exec (stmt : Stmt C) : Option (List (List Value)) × Connection C :=
  if o.fails ∨ ∃ t ∈ stmt.tables, conn.tables t = none then (none, conn)
  else
    match stmt.exec S conn.tables ⟨fun _ => .null, .int o.now⟩ with
    | none => (none, conn)
    | some (tables, rows) => (some rows, { conn with tables })

end Calls

-- ============================================================================
-- The statement that was prepared last
-- ============================================================================

section Push

variable {S : Schema C} {o : Outside} {conn : Connection C} {cur : Cursor C}

@[simp] theorem tables_push (c : Option (Cursor C)) : (conn.push c).tables = conn.tables := rfl

@[simp] theorem live_push_some : (conn.push (some cur)).live = conn.live + 1 := by
  simp [live, push, List.countP_append]

@[simp] theorem live_push_none : (conn.push none).live = conn.live := by
  simp [live, push, List.countP_append]

@[simp] theorem cursor?_none : conn.cursor? none = none := rfl

@[simp] theorem cursor?_push :
    (conn.push (some cur)).cursor? (some conn.stmts.length) = some (conn.stmts.length, cur) := by
  simp [cursor?, push]

@[simp] theorem setCursor_push (c c' : Option (Cursor C)) :
    (conn.push c).setCursor conn.stmts.length c' = conn.push c' := by
  simp [setCursor, push]

theorem prepare_of_fails (text : List (Stmt C)) (h : o.fails = true) :
    (conn.prepare o text).1.1 = none ∧ (conn.prepare o text).2 = conn := by
  cases text with
  | nil => exact ⟨rfl, rfl⟩
  | cons stmt tail => simp [prepare, h]

theorem prepare_eq {stmt : Stmt C} {tail : List (Stmt C)} (ho : o.fails = false)
    (h : ∀ t ∈ stmt.tables, conn.tables t ≠ none) : conn.prepare o (stmt :: tail) =
      ((some conn.stmts.length, tail), conn.push (some { stmt })) := by
  rw [prepare, if_neg]
  rintro (hf | ⟨t, ht, hnone⟩)
  · rw [ho] at hf
    exact absurd hf (by simp)
  · exact h t ht hnone

/-- A text that names a table which does not exist is not compiled. -/
theorem prepare_eq_none {stmt : Stmt C} {tail : List (Stmt C)} {t : T} (ht : t ∈ stmt.tables)
    (hnone : conn.tables t = none) : conn.prepare o (stmt :: tail) =
      ((none, stmt :: tail), conn) := by
  rw [prepare, if_pos (Or.inr ⟨t, ht, hnone⟩)]

/-- A running statement apart, a statement that is bound has the new parameter. -/
theorem bind_push {i : Nat} {v : Value} (h : cur.phase = .ready) :
    (conn.push (some cur)).bind (some conn.stmts.length) i v =
      conn.push (some { cur with params := Function.update cur.params i v }) := by
  simp [bind, h]

@[simp] theorem bind_none {i : Nat} {v : Value} : conn.bind none i v = conn := rfl

@[simp] theorem finalize_none : conn.finalize none = (true, conn) := rfl

@[simp] theorem columnInt_none {i : Nat} : conn.columnInt none i = 0 := rfl

@[simp] theorem finalize_push : (conn.push (some cur)).finalize (some conn.stmts.length) =
    (decide (cur.phase ≠ .halted true), conn.push none) := by
  simp [finalize]

@[simp] theorem columnInt_push_row {r : List Value} {rest : List (List Value)} {i : Nat} :
    (conn.push (some { cur with phase := .row r rest })).columnInt (some conn.stmts.length) i =
      ((r[i]?.getD .null).int?).getD 0 := by
  simp [columnInt]

@[simp] theorem columnInt_push_halted {failed : Bool} {i : Nat} :
    (conn.push (some { cur with phase := .halted failed })).columnInt (some conn.stmts.length) i =
      0 := by
  simp [columnInt]

variable [DecidableEq T] [∀ t, DecidableEq (C t)] [Fintype T]

@[simp] theorem step_none : conn.step S o none = (.error, conn) := rfl

/-- A statement without a current row is run from the start. -/
theorem step_push (h : ∀ r rest, cur.phase ≠ .row r rest) :
    (conn.push (some cur)).step S o (some conn.stmts.length) =
      match if o.fails then none else cur.stmt.exec S conn.tables ⟨cur.params, .int o.now⟩ with
      | none => (.error, conn.push (some { cur with phase := .halted true }))
      | some (tables, []) =>
          (.done, Connection.push { conn with tables } (some { cur with phase := .halted false }))
      | some (tables, r :: rest) =>
          (.row, Connection.push { conn with tables }
            (some { cur with phase := .row r rest })) := by
  rw [step, cursor?_push]
  cases hphase : cur.phase with
  | row r rest => exact absurd hphase (h r rest)
  | ready =>
      simp only [start, tables_push, setCursor_push]
      rfl
  | halted failed =>
      simp only [start, tables_push, setCursor_push]
      rfl

/-- The step after the last row. -/
theorem step_push_row {r : List Value} :
    (conn.push (some { cur with phase := .row r [] })).step S o (some conn.stmts.length) =
      if o.fails then (.error, conn.push (some { cur with phase := .halted true }))
      else (.done, conn.push (some { cur with phase := .halted false })) := by
  simp [step]

end Push

end Connection

end CacheFs.Sql
