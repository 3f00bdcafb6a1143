/-
  CacheFs.Sql.Relation

  Tables, and the statements of a small part of SQL.

  `T` are the tables of a schema and `C t` the columns of the table `t`; a row gives a value
  for each column.  A table has an INTEGER PRIMARY KEY, columns that may not be NULL,
  defaults, sets of columns that are UNIQUE, and foreign keys ON DELETE CASCADE to tables that
  have none themselves.  `Stmt` has the statements and `Stmt.exec` what they do: a statement
  that would break a constraint is refused as a whole.

  Sub-selects look for one value of a column in another column, conditions are conjunctions of
  equations.  Types of values are not coerced.
-/

import Mathlib.Data.Fintype.Basic
import Mathlib.Data.List.Nodup
import Mathlib.Logic.Function.Basic

namespace CacheFs.Sql

/-- A value in a column or of a parameter. -/
inductive Value where
  | null
  | int (n : Int)
  | text (s : List Char)
deriving DecidableEq

namespace Value

/-- `=` of a condition: NULL is not equal to anything. -/
def same (a b : Value) : Bool := a ≠ .null ∧ a = b

def add : Value → Value → Value
  | .int a, .int b => .int (a + b)
  | _, _ => .null

def sub : Value → Value → Value
  | .int a, .int b => .int (a - b)
  | _, _ => .null

def int? : Value → Option Int
  | .int n => some n
  | _ => none

variable {a b : Value} {m n : Int} {s t : List Char}

@[simp] theorem same_int : same (.int m) (.int n) = decide (m = n) := by simp [same]

@[simp] theorem same_text : same (.text s) (.text t) = decide (s = t) := by simp [same]

@[simp] theorem same_null : same a .null = false := by simp [same]

@[simp] theorem add_int : add (.int m) (.int n) = .int (m + n) := rfl

@[simp] theorem sub_int : sub (.int m) (.int n) = .int (m - n) := rfl

end Value

-- ============================================================================
-- Schemas
-- ============================================================================

variable {T : Type} (C : T → Type)

/-- What a column gets that an INSERT does not mention. -/
inductive Default where
  | value (v : Value)
  | now

/-- A foreign key ON DELETE CASCADE. -/
structure Reference (t : T) where
  col : C t
  target : T
  key : C target

structure TableDef (t : T) where
  /-- The INTEGER PRIMARY KEY. -/
  rowid : C t
  notNull : List (C t)
  default : C t → Default
  unique : List (List (C t))
  references : List (Reference C t)

/-- A schema without chains of foreign keys. -/
structure Schema where
  table : (t : T) → TableDef C t
  flat : ∀ t, ∀ ref ∈ (table t).references, (table ref.target).references = []

abbrev Row (t : T) : Type := C t → Value

/-- The rows of each table; `none` for one that has not been created. -/
abbrev Tables : Type := (t : T) → Option (List (Row C t))

def Tables.rows {C : T → Type} (db : Tables C) (t : T) : List (Row C t) := (db t).getD []

-- ============================================================================
-- Constraints
-- ============================================================================

section Constraints

variable {C} {t : T}

/-- The constraints of a table hold of the rows. -/
structure TableDef.Holds (d : TableDef C t) (db : Tables C) (rows : List (Row C t)) : Prop where
  notNull : ∀ r ∈ rows, ∀ c ∈ d.notNull, r c ≠ .null
  rowid : (rows.map (· d.rowid)).Nodup
  unique : ∀ u ∈ d.unique, ((rows.map fun r => u.map r).filter fun vs => .null ∉ vs).Nodup
  references : ∀ r ∈ rows, ∀ ref ∈ d.references, r ref.col = .null ∨
    ∃ r' ∈ db.rows ref.target, r' ref.key = r ref.col

theorem TableDef.holds_iff {d : TableDef C t} {db : Tables C} {rows : List (Row C t)} :
    d.Holds db rows ↔ (∀ r ∈ rows, ∀ c ∈ d.notNull, r c ≠ .null) ∧
      (rows.map (· d.rowid)).Nodup ∧
      (∀ u ∈ d.unique, ((rows.map fun r => u.map r).filter fun vs => .null ∉ vs).Nodup) ∧
      ∀ r ∈ rows, ∀ ref ∈ d.references, r ref.col = .null ∨
        ∃ r' ∈ db.rows ref.target, r' ref.key = r ref.col :=
  ⟨fun h => ⟨h.notNull, h.rowid, h.unique, h.references⟩, fun h => ⟨h.1, h.2.1, h.2.2.1, h.2.2.2⟩⟩

instance [∀ t, DecidableEq (C t)] (d : TableDef C t) (db : Tables C) (rows : List (Row C t)) :
    Decidable (d.Holds db rows) :=
  decidable_of_iff _ TableDef.holds_iff.symm

/-- The constraints of all tables hold. -/
def Tables.Legal (S : Schema C) (db : Tables C) : Prop :=
  ∀ t, ∀ rows ∈ db t, (S.table t).Holds db rows

instance [∀ t, DecidableEq (C t)] [Fintype T] (S : Schema C) (db : Tables C) :
    Decidable (db.Legal S) :=
  inferInstanceAs (Decidable (∀ t, ∀ rows ∈ db t, (S.table t).Holds db rows))

end Constraints

-- ============================================================================
-- Statements
-- ============================================================================

/-- Expressions over a row. -/
inductive Term (t : T) where
  | param (i : Nat)
  | now
  | col (c : C t)
  | add (a b : Term t)
  | sub (a b : Term t)
  /-- `(SELECT c FROM u WHERE key = ?i)`. -/
  | lookup (u : T) (c key : C u) (i : Nat)

/-- A conjunction of equations `c = term`. -/
abbrev Cond (t : T) : Type := List (C t × Term C t)

inductive Stmt where
  | createTable (t : T)
  | insert (t : T) (values : List (C t × Term C t))
  | update (t : T) (set : List (C t × Term C t)) (cond : Cond C t)
  | delete (t : T) (cond : Cond C t)
  | select (t : T) (cols : List (C t)) (cond : Cond C t)
  /-- `SELECT SUM(c) FROM t`. -/
  | selectSum (t : T) (c : C t)

section Exec

variable {C} {t : T}

/-- The tables of the sub-selects. -/
def Term.tables : Term C t → List T
  | .param _ | .now | .col _ => []
  | .add a b | .sub a b => a.tables ++ b.tables
  | .lookup u _ _ _ => [u]

/-- The tables that have to exist for the statement to be compiled. -/
def Stmt.tables : Stmt C → List T
  | .createTable _ => []
  | .insert t values => t :: values.flatMap (·.2.tables)
  | .update t set cond => t :: (set.flatMap (·.2.tables) ++ cond.flatMap (·.2.tables))
  | .delete t cond => t :: cond.flatMap (·.2.tables)
  | .select t _ cond => t :: cond.flatMap (·.2.tables)
  | .selectSum t _ => [t]

/-- What a statement is run with. -/
structure Args where
  params : Nat → Value
  now : Value

variable (S : Schema C) (db : Tables C) (a : Args)

def Term.eval (row : Row C t) : Term C t → Value
  | .param i => a.params i
  | .now => a.now
  | .col c => row c
  | .add x y => (x.eval row).add (y.eval row)
  | .sub x y => (x.eval row).sub (y.eval row)
  | .lookup u c key i =>
      (((db.rows u).find? fun r => (r key).same (a.params i)).map (· c)).getD .null

def Cond.holds (cond : Cond C t) (row : Row C t) : Bool :=
  cond.all fun e => (row e.1).same (e.2.eval db a row)

variable [DecidableEq T] [∀ t, DecidableEq (C t)]

/-- The value a list of assignments has for a column. -/
def assigned? (row : Row C t) (set : List (C t × Term C t)) (c : C t) : Option Value :=
  (set.find? (·.1 = c)).map fun e => e.2.eval db a row

/-- The id of a new row: one more than the largest. -/
def freshRowid (ids : List Value) : Value := .int (((ids.filterMap Value.int?).max?.getD 0) + 1)

/-- The row an INSERT adds. -/
def newRow (values : List (C t × Term C t)) : Row C t := fun c =>
  (assigned? db a (fun _ => .null) values c).getD
    (if c = (S.table t).rowid then freshRowid ((db.rows t).map (· (S.table t).rowid))
    else match (S.table t).default c with
      | .value v => v
      | .now => a.now)

/-- The row after an UPDATE. -/
def setRow (set : List (C t × Term C t)) (row : Row C t) : Row C t := fun c =>
  (assigned? db a row set c).getD (row c)

def Tables.set (t : T) (rows : List (Row C t)) : Tables C := Function.update db t (some rows)

/-- The rows whose foreign keys have a target. -/
def Tables.cascade : Tables C := fun t => (db t).map fun rows => rows.filter fun r =>
  ∀ ref ∈ (S.table t).references, r ref.col = .null ∨
    ∃ r' ∈ db.rows ref.target, r' ref.key = r ref.col

/-- The tables after the statement and the rows it returns; `none` when it is refused. -/
def Stmt.exec [Fintype T] : Stmt C → Option (Tables C × List (List Value))
  | .createTable t => if (db t).isSome then none else some (db.set t [], [])
  | .insert t values =>
      let db' := db.set t (db.rows t ++ [newRow S db a values])
      if db'.Legal S then some (db', []) else none
  | .update t set cond =>
      let db' := db.set t ((db.rows t).map fun r =>
        if cond.holds db a r then setRow db a set r else r)
      if db'.Legal S then some (db', []) else none
  | .delete t cond =>
      some ((db.set t ((db.rows t).filter fun r => !cond.holds db a r)).cascade S, [])
  | .select t cols cond => some (db, ((db.rows t).filter (cond.holds db a)).map fun r => cols.map r)
  | .selectSum t c =>
      let xs := ((db.rows t).map (· c)).filterMap Value.int?
      some (db, [[if xs.isEmpty then .null else .int (xs.foldr (· + ·) 0)]])

variable {S db a} [Fintype T]

/-- An INSERT whose row is known. -/
theorem exec_insert {values : List (C t × Term C t)} {row : Row C t} {db' : Tables C}
    (hrow : newRow S db a values = row) (hset : db.set t (db.rows t ++ [row]) = db') :
    (Stmt.insert t values).exec S db a = if db'.Legal S then some (db', []) else none := by
  subst hrow hset
  rfl

/-- An UPDATE whose rows are known. -/
theorem exec_update {set : List (C t × Term C t)} {cond : Cond C t} {rows : List (Row C t)}
    {db' : Tables C}
    (hrows : ((db.rows t).map fun r => if cond.holds db a r then setRow db a set r else r) = rows)
    (hset : db.set t rows = db') : (Stmt.update t set cond).exec S db a =
      if db'.Legal S then some (db', []) else none := by
  subst hrows hset
  rfl

/-- Statements that change a table return no rows. -/
theorem rows_insert {values : List (C t × Term C t)} {x : Tables C × List (List Value)}
    (h : (Stmt.insert t values).exec S db a = some x) : x.2 = [] := by
  simp only [Stmt.exec] at h
  split at h
  · rw [← Option.some.inj h]
  · cases h

theorem rows_update {set : List (C t × Term C t)} {cond : Cond C t}
    {x : Tables C × List (List Value)} (h : (Stmt.update t set cond).exec S db a = some x) :
    x.2 = [] := by
  simp only [Stmt.exec] at h
  split at h
  · rw [← Option.some.inj h]
  · cases h

theorem rows_delete {cond : Cond C t} {x : Tables C × List (List Value)}
    (h : (Stmt.delete t cond).exec S db a = some x) : x.2 = [] := by
  simp only [Stmt.exec] at h
  rw [← Option.some.inj h]

/-- A DELETE whose rows are known. -/
theorem exec_delete {cond : Cond C t} {rows : List (Row C t)}
    (hrows : ((db.rows t).filter fun r => !cond.holds db a r) = rows) :
    (Stmt.delete t cond).exec S db a = some ((db.set t rows).cascade S, []) := by
  subst hrows
  rfl

omit [DecidableEq T] [∀ t, DecidableEq (C t)] [Fintype T] in
/-- Where the foreign keys hold there is nothing to cascade to. -/
theorem Tables.Legal.cascade {db : Tables C} (h : db.Legal S) : db.cascade S = db := by
  funext t
  unfold Tables.cascade
  cases hrows : db t with
  | none => rfl
  | some rows =>
      refine congrArg some (List.filter_eq_self.mpr fun r hr => ?_)
      exact decide_eq_true ((h t rows hrows).references r hr)

end Exec

end CacheFs.Sql
