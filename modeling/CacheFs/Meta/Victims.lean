/-
  CacheFs.Meta.Victims

  `evict_blocks`, which finds the blocks to evict.

  It runs one SELECT over `Datablocks`, writes offset and file id of each row it gets
  into arrays of the caller, and looks up the names of the files.  The name for row
  `i` is stored at place `i` of `filenames`, but looked for at the place that the file
  id says, and it is copied into memory of the size of a pointer.  Nothing is deleted and
  the result is 0 or -1.  `Contract` and `NamesRight` are what the header promises; both
  hold in few cases only.

  Unlike the rest of `meta.c` the two functions are functions of the tables and a
  `Selection`: they change nothing that outlives them but the arrays of the caller, so
  the order among equal timestamps, the results of their statements and what lies behind
  the end of an array are all that the environment decides.  A character of a name stands
  for one byte of it, so `strcpy` moves as many bytes as the name has characters.
-/

import CacheFs.World

namespace CacheFs

-- ============================================================================
-- evict_blocks
-- ============================================================================

/-- What the environment decides in one call of `evict_blocks`. -/
structure Selection where
  /-- The rows of `Datablocks` in the order of `ORDER BY timestamp ASC`. -/
  order : List BlockRow
  /-- The number of rows after which the SELECT reports an error, if it does. -/
  stop : Option Nat := none
  /-- Whether the lookup of the name for a row reports an error. -/
  lookupFails : Nat → Bool := fun _ => false
  /-- What the load for a row finds outside the array. -/
  stray : Nat → Option FileName := fun _ => none

/-- The order is one SQLite may give. -/
structure Selection.OrderOf (o : Selection) (db : Db) : Prop where
  perm : o.order.Perm db.datablocks
  sorted : o.order.Pairwise fun a b => a.timestamp ≤ b.timestamp

/-- An access to memory of the caller or to memory allocated for it. -/
inductive Access where
  | blkOffsets (i : Nat)
  | fileIds (i : Nat)
  | filenames (i : Int)
  /-- `strcpy` of so many bytes, NUL included, into so many. -/
  | strcpy (len room : Nat)
deriving DecidableEq

/-- The arrays of the caller, and the accesses so far. -/
structure Victims where
  fileIds : List Int
  filenames : List (Option FileName)
  blkOffsets : List Nat
  accesses : List Access := []

/-- The value of a column of 64 bits in an `int`. -/
def columnInt (x : Nat) : Int := (BitVec.ofNat 32 x).toInt

/-- `SELECT relative_path FROM Files WHERE file_id = ?`. -/
def Db.relativePath? (db : Db) (fileId : Int) : Option FileName :=
  (db.files.find? fun f => (f.fileId : Int) = fileId).map (·.relativePath)

/-- `sizeof(filename_on_stack)`, the size of a pointer. -/
def pointerSize : Nat := 8

namespace Victims

variable (db : Db) (o : Selection)

/-- The load of `filenames[i]` in the turn for `row`. -/
def loadFilename (v : Victims) (row : Nat) (i : Int) : Option FileName :=
  if 0 ≤ i then (v.filenames[i.toNat]?).getD (o.stray row) else o.stray row

/-- `get_filename_from_fileid`, called for `&filenames[row]`; its status is not used. -/
def getFilenameFromFileid (fileId : Int) (row : Nat) (v : Victims) : Victims :=
  match if o.lookupFails row then none else db.relativePath? fileId with
  | none => v
  | some name =>
    { v with
      filenames := v.filenames.set row (some name)
      accesses := v.accesses ++
        [Access.filenames row, Access.strcpy (name.length + 1) pointerSize] }

/-- One turn of the loop. -/
def turn (row : Nat) (b : BlockRow) (v : Victims) : Victims :=
  let fileId := columnInt b.fileId
  let v := { v with
    blkOffsets := v.blkOffsets.set row b.blkStartOffset
    fileIds := v.fileIds.set row fileId
    accesses := v.accesses ++
      [Access.blkOffsets row, Access.fileIds row, Access.filenames fileId] }
  match v.loadFilename o row fileId with
  | some _ => v
  | none => v.getFilenameFromFileid db o fileId row

/-- The turns for the given rows, the first of which has number `row`. -/
def turns : Nat → List BlockRow → Victims → Victims
  | _, [], v => v
  | row, b :: rest, v => turns (row + 1) rest (v.turn db o row b)

end Victims

/-- The rows the SELECT returns for `LIMIT numBlks`, until it fails.  The arrays are in
    memory, so `numBlks` is the same as a signed number. -/
def Selection.rows (o : Selection) (numBlks : Nat) : List BlockRow :=
  let selected := o.order.take numBlks
  match o.stop with
  | none => selected
  | some n => selected.take n

/-- The status of `evict_blocks`: it is `sqlite3_step` that fails. -/
def Selection.status (o : Selection) : Int := if o.stop.isSome then -1 else 0

/-- Returns the status, the arrays and what `meta.c` keeps. -/
def evictBlocks (m : MetaState) (o : Selection) (numBlks : Nat) (v : Victims) :
    Int × Victims × MetaState :=
  (o.status, v.turns m.db o 0 (o.rows numBlks), m)

-- ============================================================================
-- What the header promises
-- ============================================================================

/-- `evict_blocks` has evicted the oldest blocks. -/
structure Contract (m : MetaState) (numBlks : Nat) (r : Int × Victims × MetaState) : Prop where
  /-- The number of blocks actually evicted. -/
  count : r.1 = (min numBlks m.db.datablocks.length : Nat)
  evicted : ∃ victims : List BlockRow, victims.length = min numBlks m.db.datablocks.length ∧
    victims.Nodup ∧ (∀ b ∈ victims, b ∈ m.db.datablocks) ∧
    (∀ (i : Nat) (b : BlockRow), victims[i]? = some b →
      r.2.1.blkOffsets[i]? = some b.blkStartOffset ∧
      r.2.1.fileIds[i]? = some (b.fileId : Int)) ∧
    (∀ b, b ∈ r.2.2.db.datablocks ↔ b ∈ m.db.datablocks ∧ b ∉ victims) ∧
    (∀ b ∈ r.2.2.db.datablocks, ∀ v ∈ victims, v.timestamp ≤ b.timestamp) ∧
    r.2.2.db.files = m.db.files.map fun f =>
      let size : Int := m.metaBlockSize * victims.countP (·.fileId = f.fileId)
      { f with localSize := f.localSize - size }
  used : (r.2.2.cacheUsedSize : Int) = m.cacheUsedSize -
    m.metaBlockSize * (min numBlks m.db.datablocks.length : Nat)

/-- What `evict_blocks` does is what its header promises only when there is nothing to
    evict. -/
theorem evictBlocks_contract_iff (m : MetaState) (o : Selection) (numBlks : Nat) (v : Victims)
    (hok : o.status ≠ -1) :
    Contract m numBlks (evictBlocks m o numBlks v) ↔ numBlks = 0 ∨ m.db.datablocks = [] := by
  have hstatus : o.status = 0 := by
    unfold Selection.status at hok ⊢
    split
    · next hstop => exact absurd (if_pos hstop) hok
    · rfl
  constructor
  · rintro ⟨hcount, -, -⟩
    have hzero : min numBlks m.db.datablocks.length = 0 := by
      simp only [evictBlocks, hstatus] at hcount
      omega
    rcases Nat.eq_zero_or_pos numBlks with hn | hn
    · exact Or.inl hn
    · exact Or.inr (List.length_eq_zero_iff.mp (by omega))
  · intro h
    have hzero : min numBlks m.db.datablocks.length = 0 := by
      rcases h with rfl | h
      · exact Nat.zero_min _
      · rw [h, List.length_nil, Nat.min_zero]
    refine ⟨?_, ⟨[], ?_, List.nodup_nil, ?_, ?_, ?_, ?_, ?_⟩, ?_⟩
    · rw [hzero]
      exact hstatus
    · rw [hzero, List.length_nil]
    · exact fun b hb => absurd hb List.not_mem_nil
    · exact fun i b hb => nomatch hb
    · exact fun b => ⟨fun hb => ⟨hb, List.not_mem_nil⟩, And.left⟩
    · exact fun _ _ b hb => absurd hb List.not_mem_nil
    · simp [evictBlocks]
    · rw [hzero]
      simp [evictBlocks]

/-- One block of one file. -/
def oneVictim : MetaState :=
  { db := { files := [⟨1, ['/', 'f'], 10, 4⟩], datablocks := [⟨1, 0, 7, 1⟩] }
    cacheUsedSize := 4
    metaBlockSize := 4 }

/-- Selection without errors, in which the rows come in the order of the table. -/
def Selection.inOrder (db : Db) : Selection := { order := db.datablocks }

/-- The arrays a caller passes for `n` blocks. -/
def Victims.empty (n : Nat) : Victims :=
  { fileIds := List.replicate n 0, filenames := List.replicate n none,
    blkOffsets := List.replicate n 0 }

/-- Nothing is asked for. -/
theorem evictBlocks_contract_none :
    Contract oneVictim 0 (evictBlocks oneVictim (.inOrder oneVictim.db) 0 (.empty 0)) :=
  (evictBlocks_contract_iff _ _ _ _ (by decide)).mpr (Or.inl rfl)

/-- One block is asked for and there is one, but the result is 0 and the block stays. -/
theorem evictBlocks_not_contract : ¬ ∀ (m : MetaState) (o : Selection) (numBlks : Nat),
    o.OrderOf m.db → o.status ≠ -1 →
      Contract m numBlks (evictBlocks m o numBlks (.empty numBlks)) :=
  fun h => absurd (h oneVictim (.inOrder oneVictim.db) 1
    ⟨.refl _, List.pairwise_singleton _ _⟩ (by decide)).count (by decide)

-- ============================================================================
-- One turn
-- ============================================================================

namespace Victims

variable {db : Db} {o : Selection} {v : Victims} {row : Nat} {b : BlockRow}

/-- The name that is stored in the turn for `row`. -/
def found (db : Db) (o : Selection) (v : Victims) (row : Nat) (fileId : Int) : Option FileName :=
  match v.loadFilename o row fileId with
  | some _ => none
  | none => if o.lookupFails row then none else db.relativePath? fileId

/-- The accesses of a turn. -/
def turnAccesses (row : Nat) (fileId : Int) : Option FileName → List Access
  | none => [.blkOffsets row, .fileIds row, .filenames fileId]
  | some name => [.blkOffsets row, .fileIds row, .filenames fileId, .filenames row,
      .strcpy (name.length + 1) pointerSize]

theorem turn_eq (v : Victims) : v.turn db o row b =
    { blkOffsets := v.blkOffsets.set row b.blkStartOffset
      fileIds := v.fileIds.set row (columnInt b.fileId)
      filenames := match v.found db o row (columnInt b.fileId) with
        | none => v.filenames
        | some name => v.filenames.set row (some name)
      accesses := v.accesses ++ turnAccesses row (columnInt b.fileId)
        (v.found db o row (columnInt b.fileId)) } := by
  have hload : loadFilename o { v with
      blkOffsets := v.blkOffsets.set row b.blkStartOffset
      fileIds := v.fileIds.set row (columnInt b.fileId)
      accesses := v.accesses ++ [Access.blkOffsets row, Access.fileIds row,
        Access.filenames (columnInt b.fileId)] } row (columnInt b.fileId) =
      v.loadFilename o row (columnInt b.fileId) := rfl
  unfold turn found
  dsimp only
  rw [hload]
  cases v.loadFilename o row (columnInt b.fileId) with
  | some name => rfl
  | none =>
      unfold getFilenameFromFileid
      cases (if o.lookupFails row then none else db.relativePath? (columnInt b.fileId)) with
      | none => rfl
      | some name => simp [turnAccesses]

theorem length_filenames_turn (v : Victims) :
    (v.turn db o row b).filenames.length = v.filenames.length := by
  rw [turn_eq]
  dsimp only
  split <;> simp

/-- A turn changes the place of its own row only. -/
theorem filenames_turn_ne (v : Victims) {j : Nat} (hj : j ≠ row) :
    (v.turn db o row b).filenames[j]? = v.filenames[j]? := by
  rw [turn_eq]
  dsimp only
  split
  · rfl
  · rw [List.getElem?_set_ne fun h => hj h.symm]

theorem filenames_turn_self (v : Victims) (hrow : v.filenames[row]? = some none) :
    (v.turn db o row b).filenames[row]? = some (v.found db o row (columnInt b.fileId)) := by
  have hlt := (List.getElem?_eq_some_iff.mp hrow).1
  rw [turn_eq]
  dsimp only
  split
  · next hf => rw [hrow, hf]
  · next name hf => rw [List.getElem?_set_self hlt, hf]

-- ============================================================================
-- All turns
-- ============================================================================

theorem turns_append (l₁ l₂ : List BlockRow) (row : Nat) (v : Victims) :
    v.turns db o row (l₁ ++ l₂) = (v.turns db o row l₁).turns db o (row + l₁.length) l₂ := by
  induction l₁ generalizing row v with
  | nil => rfl
  | cons b rest ih =>
      rw [List.cons_append, turns, turns, ih, List.length_cons, Nat.add_right_comm, Nat.add_assoc]

theorem length_filenames_turns (l : List BlockRow) (row : Nat) (v : Victims) :
    (v.turns db o row l).filenames.length = v.filenames.length := by
  induction l generalizing row v with
  | nil => rfl
  | cons b rest ih => rw [turns, ih, length_filenames_turn]

/-- The turns leave the places outside their rows alone. -/
theorem filenames_turns_outside (l : List BlockRow) (row : Nat) (v : Victims) {j : Nat}
    (hj : j < row ∨ row + l.length ≤ j) :
    (v.turns db o row l).filenames[j]? = v.filenames[j]? := by
  induction l generalizing row v with
  | nil => rfl
  | cons b rest ih =>
      rw [List.length_cons] at hj
      rw [turns, ih _ _ (by omega), filenames_turn_ne _ (by omega)]

/-- An array in which each turn sets the place of its row. -/
theorem getElem?_turns {α : Type} {array : Victims → List α} {value : BlockRow → α}
    (hset : ∀ v row b, array (v.turn db o row b) = (array v).set row (value b))
    (l : List BlockRow) (row : Nat) (v : Victims) (i : Nat)
    (hlen : row + l.length ≤ (array v).length) :
    (array (v.turns db o row l))[i]? =
      if row ≤ i ∧ i < row + l.length then (l[i - row]?).map value else (array v)[i]? := by
  induction l generalizing row v with
  | nil => rw [turns, if_neg (by rw [List.length_nil]; omega)]
  | cons b rest ih =>
      rw [List.length_cons] at hlen ⊢
      rw [turns, ih _ _ (by rw [hset, List.length_set]; omega), hset]
      rcases Nat.lt_trichotomy i row with hi | rfl | hi
      · rw [if_neg (by omega), if_neg (by omega), List.getElem?_set_ne (by omega)]
      · rw [if_neg (by omega), if_pos (by omega), List.getElem?_set_self (by omega), Nat.sub_self,
          List.getElem?_cons_zero, Option.map_some]
      · by_cases hi' : i < row + 1 + rest.length
        · rw [if_pos (by omega), if_pos (by omega)]
          obtain ⟨k, hk⟩ : ∃ k, i - row = k + 1 := ⟨i - row - 1, by omega⟩
          rw [hk, List.getElem?_cons_succ, show i - (row + 1) = k by omega]
        · rw [if_neg (by omega), if_neg (by omega), List.getElem?_set_ne (by omega)]

theorem fileIds_turns (l : List BlockRow) (row : Nat) (v : Victims) (i : Nat)
    (hlen : row + l.length ≤ v.fileIds.length) :
    (v.turns db o row l).fileIds[i]? =
      if row ≤ i ∧ i < row + l.length then (l[i - row]?).map fun b => columnInt b.fileId
      else v.fileIds[i]? :=
  @getElem?_turns db o Int fileIds _ (fun v row b => by rw [turn_eq]) l row v i hlen

/-- The state before the turn for row `i`. -/
def before (db : Db) (o : Selection) (v : Victims) (l : List BlockRow) (i : Nat) : Victims :=
  v.turns db o 0 (l.take i)

theorem before_succ {l : List BlockRow} {i : Nat} (hb : l[i]? = some b) :
    v.before db o l (i + 1) = (v.before db o l i).turn db o i b := by
  have hi := (List.getElem?_eq_some_iff.mp hb).1
  rw [before, List.take_add_one, hb, Option.toList_some, turns_append, List.length_take,
    Nat.min_eq_left (Nat.le_of_lt hi), Nat.zero_add]
  rfl

theorem accesses_turn (v : Victims) : (v.turn db o row b).accesses = v.accesses ++
    turnAccesses row (columnInt b.fileId) (v.found db o row (columnInt b.fileId)) := by
  rw [turn_eq]

theorem mem_accesses_turns_of_mem (l : List BlockRow) (row : Nat) {a : Access}
    (ha : a ∈ v.accesses) : a ∈ (v.turns db o row l).accesses := by
  induction l generalizing row v with
  | nil => exact ha
  | cons b rest ih =>
      refine ih (row + 1) ?_
      rw [accesses_turn]
      exact List.mem_append_left _ ha

/-- The accesses of the first `n` turns. -/
theorem mem_accesses_before {l : List BlockRow} {n : Nat} (hn : n ≤ l.length) (a : Access) :
    a ∈ (v.before db o l n).accesses ↔ a ∈ v.accesses ∨ ∃ i < n, ∃ b, l[i]? = some b ∧
      a ∈ turnAccesses i (columnInt b.fileId)
        ((v.before db o l i).found db o i (columnInt b.fileId)) := by
  induction n with
  | zero => simp [before, turns]
  | succ n ih =>
      obtain ⟨b, hb⟩ : ∃ b, l[n]? = some b := ⟨l[n], List.getElem?_eq_getElem hn⟩
      rw [before_succ hb, accesses_turn, List.mem_append, ih (by omega), or_assoc]
      refine or_congr_right ⟨?_, ?_⟩
      · rintro (⟨i, hi, h⟩ | h)
        · exact ⟨i, by omega, h⟩
        · exact ⟨n, by omega, b, hb, h⟩
      · rintro ⟨i, hi, b', hb', h⟩
        rcases Nat.lt_or_ge i n with hi | hi
        · exact Or.inl ⟨i, hi, b', hb', h⟩
        · obtain rfl : i = n := by omega
          rw [hb] at hb'
          obtain rfl := Option.some.inj hb'
          exact Or.inr h

theorem before_length (l : List BlockRow) : v.before db o l l.length = v.turns db o 0 l := by
  rw [before, List.take_length]

end Victims

-- ============================================================================
-- Where the names are
-- ============================================================================

/-- The access stays within arrays of `n` entries and within what was allocated. -/
def Access.InBounds (n : Nat) : Access → Prop
  | .blkOffsets i => i < n
  | .fileIds i => i < n
  | .filenames i => 0 ≤ i ∧ i < n
  | .strcpy len room => len ≤ room

instance (n : Nat) (a : Access) : Decidable (a.InBounds n) := by
  unfold Access.InBounds
  split <;> infer_instance

/-- The arrays of `n` entries a caller passes, with all names null. -/
structure Victims.Fresh (n : Nat) (v : Victims) : Prop where
  fileIds : v.fileIds.length = n
  filenames : v.filenames = List.replicate n none
  accesses : v.accesses = []

/-- The names are where the header tells callers to look them up: at the file ids. -/
structure NamesRight (db : Db) (numBlks reported : Nat) (r : Int × Victims × MetaState) :
    Prop where
  inBounds : ∀ a ∈ r.2.1.accesses, a.InBounds numBlks
  names : r.1 = 0 → ∀ i < reported, ∃ id name, r.2.1.fileIds[i]? = some id ∧ 0 ≤ id ∧
    r.2.1.filenames[id.toNat]? = some (some name) ∧ db.relativePath? id = some name

/-- The file id is the number of a row of the same file, for which the name has been
    found, and the name fits into a pointer. -/
def SelfNamed (db : Db) (o : Selection) (ids : List Int) (id : Int) : Prop :=
  ∃ j : Nat, id = j ∧ ids[j]? = some id ∧ o.lookupFails j = false ∧
    ∃ name, db.relativePath? id = some name ∧ name.length + 1 ≤ pointerSize

section Names

variable {db : Db} {o : Selection} {v : Victims} {numBlks : Nat} {l : List BlockRow}

namespace Victims

/-- Before its own turn a place is null. -/
theorem Fresh.null (hv : v.Fresh numBlks) {i j : Nat} (hij : i ≤ j) (hj : j < numBlks) :
    (v.before db o l i).filenames[j]? = some none := by
  rw [before, filenames_turns_outside _ _ _ (Or.inr (by
    rw [List.length_take]
    omega)), hv.filenames, List.getElem?_replicate, if_pos hj]

/-- After its own turn a place does not change. -/
theorem filenames_turns_of_lt {i : Nat} (hi : i < l.length) :
    (v.turns db o 0 l).filenames[i]? = (v.before db o l (i + 1)).filenames[i]? := by
  have hsplit : l = l.take (i + 1) ++ l.drop (i + 1) := (List.take_append_drop _ _).symm
  conv_lhs => rw [hsplit, turns_append]
  rw [filenames_turns_outside _ _ _ (Or.inl (by rw [List.length_take]; omega)), before]

/-- In the end place `i` has what was found in turn `i`. -/
theorem Fresh.filenames_eq (hv : v.Fresh numBlks) (hl : l.length ≤ numBlks) {i : Nat} {b : BlockRow}
    (hb : l[i]? = some b) : (v.turns db o 0 l).filenames[i]? =
      some ((v.before db o l i).found db o i (columnInt b.fileId)) := by
  have hi := (List.getElem?_eq_some_iff.mp hb).1
  rw [filenames_turns_of_lt hi, before_succ hb,
    filenames_turn_self _ (hv.null (le_refl i) (by omega))]

/-- The load of a place that has not had its turn is null. -/
theorem Fresh.found_of_le (hv : v.Fresh numBlks) {i j : Nat} (hij : i ≤ j) (hj : j < numBlks) :
    (v.before db o l i).found db o i j =
      if o.lookupFails i then none else db.relativePath? j := by
  have hload : (v.before db o l i).loadFilename o i j = none := by
    rw [loadFilename, if_pos (Int.natCast_nonneg j), Int.toNat_natCast, hv.null hij hj,
      Option.getD_some]
  rw [found, hload]

theorem found_eq_some {i : Nat} {id : Int} {name : FileName} (h : v.found db o i id = some name) :
    o.lookupFails i = false ∧ db.relativePath? id = some name := by
  unfold found at h
  split at h
  · exact nomatch h
  · split at h
    · exact nomatch h
    · next hok => exact ⟨by simpa using hok, h⟩

end Victims

theorem Db.WF.relativePath?_inj (hwf : db.WF) {id id' : Int} {name : FileName}
    (h : db.relativePath? id = some name) (h' : db.relativePath? id' = some name) : id = id' := by
  obtain ⟨f, hf, rfl⟩ := Option.map_eq_some_iff.mp h
  obtain ⟨g, hg, hname⟩ := Option.map_eq_some_iff.mp h'
  have hid : (f.fileId : Int) = id := by simpa using List.find?_some hf
  have hid' : (g.fileId : Int) = id' := by simpa using List.find?_some hg
  rw [← hid, ← hid', hwf.eq_of_path (List.mem_of_find?_eq_some hg) (List.mem_of_find?_eq_some hf)
    hname]

/-- The file ids the rows are reported with. -/
def reportedIds (l : List BlockRow) : List Int := l.map fun b => columnInt b.fileId

theorem getElem?_reportedIds {i : Nat} {id : Int} (h : (reportedIds l)[i]? = some id) :
    ∃ b, l[i]? = some b ∧ columnInt b.fileId = id := by
  rw [reportedIds, List.getElem?_map] at h
  exact Option.map_eq_some_iff.mp h

/-- A name that is found where the file id says was stored in the turn of that number. -/
theorem NamesRight.selfNamed {m : MetaState} (hwf : db.WF) (hv : v.Fresh numBlks)
    (hl : l.length ≤ numBlks) (h : NamesRight db numBlks l.length (0, v.turns db o 0 l, m))
    {id : Int} (hid : id ∈ reportedIds l) : SelfNamed db o (reportedIds l) id := by
  obtain ⟨i, hi⟩ := List.getElem?_of_mem hid
  obtain ⟨b, hb, hcol⟩ := getElem?_reportedIds hi
  have hlt := (List.getElem?_eq_some_iff.mp hb).1
  obtain ⟨id', name, hid', hnonneg, hname, hpath⟩ := h.names rfl i hlt
  have hfile := @Victims.fileIds_turns db o l 0 v i (by rw [hv.fileIds]; omega)
  rw [if_pos (by omega), Nat.sub_zero, hb, Option.map_some, hcol] at hfile
  obtain rfl : id = id' := Option.some.inj (hfile.symm.trans hid')
  obtain ⟨j, rfl⟩ := Int.eq_ofNat_of_zero_le hnonneg
  simp only [Int.toNat_natCast] at hname
  -- the place has had its turn
  have hj : j < l.length := by
    by_contra hge
    have hlen := (List.getElem?_eq_some_iff.mp hname).1
    rw [Victims.length_filenames_turns, hv.filenames, List.length_replicate] at hlen
    have hnull := @Victims.Fresh.null db o v numBlks l hv l.length j (Nat.le_of_not_lt hge) hlen
    rw [Victims.before_length, hname] at hnull
    exact nomatch hnull
  obtain ⟨b', hb'⟩ : ∃ b', l[j]? = some b' := ⟨l[j], List.getElem?_eq_getElem hj⟩
  rw [hv.filenames_eq hl hb'] at hname
  have hfound := Option.some.inj hname
  obtain ⟨hok, hpath'⟩ := Victims.found_eq_some hfound
  refine ⟨j, rfl, ?_, hok, name, hpath, ?_⟩
  · rw [reportedIds, List.getElem?_map, hb', Option.map_some, hwf.relativePath?_inj hpath' hpath]
  · -- the copy made in that turn
    refine h.inBounds (.strcpy (name.length + 1) pointerSize) ?_
    dsimp only
    rw [← Victims.before_length, Victims.mem_accesses_before (le_refl _)]
    refine Or.inr ⟨j, hj, b', hb', ?_⟩
    rw [hfound]
    simp [Victims.turnAccesses]

/-- Where every file id is the number of a row of the same file, each name is stored where
    it is looked up. -/
theorem NamesRight.of_selfNamed {m : MetaState} (hv : v.Fresh numBlks) (hl : l.length ≤ numBlks)
    (h : ∀ id ∈ reportedIds l, SelfNamed db o (reportedIds l) id) {ret : Int} :
    NamesRight db numBlks l.length (ret, v.turns db o 0 l, m) := by
  have hrow : ∀ {i : Nat} {b : BlockRow}, l[i]? = some b →
      SelfNamed db o (reportedIds l) (columnInt b.fileId) := by
    intro i b hb
    exact h _ (List.mem_map.mpr ⟨b, List.mem_of_getElem? hb, rfl⟩)
  refine ⟨fun a ha => ?_, fun _ i hi => ?_⟩
  · dsimp only at ha
    rw [← Victims.before_length, Victims.mem_accesses_before (le_refl _), hv.accesses] at ha
    obtain ha | ⟨i, hi, b, hb, ha⟩ := ha
    · exact absurd ha List.not_mem_nil
    · obtain ⟨j, hj, hjrow, -, name, hpath, hfits⟩ := hrow hb
      obtain ⟨b', hb', -⟩ := getElem?_reportedIds hjrow
      have hjlt := (List.getElem?_eq_some_iff.mp hb').1
      have hbase : ∀ a ∈ [Access.blkOffsets i, .fileIds i, .filenames (columnInt b.fileId)],
          a.InBounds numBlks := by
        intro a ha
        simp only [List.mem_cons, List.not_mem_nil, or_false] at ha
        rcases ha with rfl | rfl | rfl
        · exact Nat.lt_of_lt_of_le hi hl
        · exact Nat.lt_of_lt_of_le hi hl
        · rw [hj]
          exact ⟨Int.natCast_nonneg j, by omega⟩
      cases hf : (v.before db o l i).found db o i (columnInt b.fileId) with
      | none =>
          rw [hf] at ha
          exact hbase a ha
      | some stored =>
          rw [hf] at ha
          obtain rfl : name = stored :=
            Option.some.inj (hpath.symm.trans (Victims.found_eq_some hf).2)
          rcases List.mem_append.mp (show a ∈ [Access.blkOffsets i, .fileIds i,
              .filenames (columnInt b.fileId)] ++ [.filenames i, .strcpy (name.length + 1)
                pointerSize] from ha) with ha | ha
          · exact hbase a ha
          · simp only [List.mem_cons, List.not_mem_nil, or_false] at ha
            rcases ha with rfl | rfl
            · exact ⟨Int.natCast_nonneg i, by omega⟩
            · exact hfits
  · obtain ⟨b, hb⟩ : ∃ b, l[i]? = some b := ⟨l[i], List.getElem?_eq_getElem hi⟩
    obtain ⟨j, hj, hjrow, hok, name, hpath, -⟩ := hrow hb
    obtain ⟨b', hb', hcol⟩ := getElem?_reportedIds hjrow
    have hjlt := (List.getElem?_eq_some_iff.mp hb').1
    refine ⟨columnInt b.fileId, name, ?_, by omega, ?_, hpath⟩
    · dsimp only
      rw [Victims.fileIds_turns l 0 v i (by rw [hv.fileIds]; omega), if_pos (by omega),
        Nat.sub_zero, hb, Option.map_some]
    · dsimp only
      rw [hj, Int.toNat_natCast, hv.filenames_eq hl hb', hcol, hj,
        hv.found_of_le (le_refl j) (by omega), hok, ← hj, hpath]
      rfl

/-- The file ids are indices and the names that are stored fit.  `named` are the rows
    with a name so far: a file whose id is one of them gets no other. -/
def InRange (db : Db) (o : Selection) (numBlks : Nat) : Nat → List Int → List Nat → Prop
  | _, [], _ => True
  | row, id :: rest, named => (0 ≤ id ∧ id < numBlks) ∧
      match if id.toNat ∈ named ∨ o.lookupFails row then none else db.relativePath? id with
      | none => InRange db o numBlks (row + 1) rest named
      | some name => name.length + 1 ≤ pointerSize ∧
          InRange db o numBlks (row + 1) rest (row :: named)

/-- In the array, what is found depends on the rows that have a name. -/
theorem Victims.found_eq {named : List Nat} {row : Nat} {id : Int}
    (hlen : v.filenames.length = numBlks)
    (hnamed : ∀ j < numBlks, (∃ s, v.filenames[j]? = some (some s)) ↔ j ∈ named)
    (hid : 0 ≤ id ∧ id < numBlks) : v.found db o row id =
      if id.toNat ∈ named ∨ o.lookupFails row then none else db.relativePath? id := by
  have hlt : id.toNat < numBlks := by omega
  obtain ⟨entry, hentry⟩ : ∃ entry, v.filenames[id.toNat]? = some entry :=
    ⟨_, List.getElem?_eq_getElem (by omega)⟩
  have hload : v.loadFilename o row id = entry := by
    rw [loadFilename, if_pos hid.1, hentry, Option.getD_some]
  rw [found, hload]
  cases entry with
  | some s => rw [if_pos (Or.inl ((hnamed _ hlt).mp ⟨s, hentry⟩))]
  | none =>
      have hnot : id.toNat ∉ named := by
        intro hmem
        obtain ⟨s, hs⟩ := (hnamed _ hlt).mpr hmem
        rw [hentry] at hs
        exact nomatch hs
      simp only [hnot, false_or]

theorem inBounds_turnAccesses {row : Nat} {id : Int} (hrow : row < numBlks)
    (stored : Option FileName) : (∀ a ∈ Victims.turnAccesses row id stored, a.InBounds numBlks) ↔
      (0 ≤ id ∧ id < numBlks) ∧ ∀ name, stored = some name → name.length + 1 ≤ pointerSize := by
  cases stored with
  | none => simp [Victims.turnAccesses, Access.InBounds, hrow]
  | some name => simp [Victims.turnAccesses, Access.InBounds, hrow]

theorem inBounds_turns_iff (named : List Nat) (row : Nat) (hrow : row + l.length ≤ numBlks)
    (hlen : v.filenames.length = numBlks)
    (hnamed : ∀ j < numBlks, (∃ s, v.filenames[j]? = some (some s)) ↔ j ∈ named) :
    (∀ a ∈ (v.turns db o row l).accesses, a.InBounds numBlks) ↔
      (∀ a ∈ v.accesses, a.InBounds numBlks) ∧
        InRange db o numBlks row (reportedIds l) named := by
  induction l generalizing v row named with
  | nil => simp [Victims.turns, reportedIds, InRange]
  | cons b rest ih =>
      rw [List.length_cons] at hrow
      have hlen' := (@Victims.length_filenames_turn db o row b v).trans hlen
      have hacc := @Victims.accesses_turn db o row b v
      rw [Victims.turns, reportedIds, List.map_cons, InRange, ← reportedIds]
      by_cases hid : 0 ≤ columnInt b.fileId ∧ columnInt b.fileId < numBlks
      · rw [← Victims.found_eq hlen hnamed hid]
        have hturn := @Victims.turn_eq db o row b v
        cases hf : v.found db o row (columnInt b.fileId) with
        | none =>
            rw [hf] at hturn hacc
            rw [ih named (row + 1) (by omega) hlen' (by rw [hturn]; exact hnamed), hacc,
              List.forall_mem_append, inBounds_turnAccesses (by omega)]
            simp [hid]
        | some name =>
            rw [hf] at hturn hacc
            have hnamed' : ∀ j < numBlks,
                (∃ s, (v.turn db o row b).filenames[j]? = some (some s)) ↔ j ∈ row :: named := by
              intro j hj
              rw [List.mem_cons, ← hnamed j hj, hturn]
              dsimp only
              by_cases hjr : j = row
              · rw [hjr, List.getElem?_set_self (by omega)]
                exact ⟨fun _ => Or.inl rfl, fun _ => ⟨name, rfl⟩⟩
              · rw [List.getElem?_set_ne fun h => hjr h.symm]
                exact ⟨Or.inr, fun h => h.resolve_left hjr⟩
            rw [ih (row :: named) (row + 1) (by omega) hlen' hnamed', hacc,
              List.forall_mem_append, inBounds_turnAccesses (by omega)]
            simp [hid, and_assoc]
      · refine ⟨fun h => absurd ?_ hid, fun h => absurd h.2.1 hid⟩
        -- the turn has left its accesses, whatever comes later
        have hin : ∀ a ∈ (v.turn db o row b).accesses, a.InBounds numBlks := by
          exact fun a ha => h a (Victims.mem_accesses_turns_of_mem _ _ ha)
        rw [hacc, List.forall_mem_append, inBounds_turnAccesses (by omega)] at hin
        exact hin.2.1

end Names

theorem Selection.length_rows_le (o : Selection) (numBlks : Nat) :
    (o.rows numBlks).length ≤ numBlks := by
  unfold Selection.rows
  cases o.stop with
  | none => simp only [List.length_take]; omega
  | some n => simp only [List.length_take]; omega

/-- The names are where the header puts them exactly when each file id reported is the
    number of a row of that file, for which its name was found and fits; when the SELECT
    fails the names do not matter, and what remains is that no access leaves its memory. -/
theorem evictBlocks_namesRight_iff {m : MetaState} {o : Selection} {numBlks : Nat} {v : Victims}
    (hwf : m.db.WF) (hv : v.Fresh numBlks) :
    (o.stop = none → (NamesRight m.db numBlks (o.rows numBlks).length (evictBlocks m o numBlks v) ↔
      ∀ id ∈ reportedIds (o.rows numBlks), SelfNamed m.db o (reportedIds (o.rows numBlks)) id)) ∧
    (o.stop ≠ none → (NamesRight m.db numBlks (o.rows numBlks).length (evictBlocks m o numBlks v) ↔
      InRange m.db o numBlks 0 (reportedIds (o.rows numBlks)) [])) := by
  have hl := o.length_rows_le numBlks
  constructor
  · intro hstop
    have hstatus : o.status = 0 := by rw [Selection.status, hstop]; rfl
    rw [evictBlocks, hstatus]
    exact ⟨fun h id hid => h.selfNamed hwf hv hl hid, fun h => .of_selfNamed hv hl h⟩
  · intro hstop
    have hstatus : o.status = -1 := by
      obtain ⟨n, hn⟩ := Option.ne_none_iff_exists'.mp hstop
      rw [Selection.status, hn]
      rfl
    have hnull : ∀ j < numBlks, (∃ s, v.filenames[j]? = some (some s)) ↔ j ∈ ([] : List Nat) := by
      intro j _
      rw [hv.filenames, List.getElem?_replicate]
      split <;> simp
    have hiff := @inBounds_turns_iff m.db o v numBlks (o.rows numBlks) [] 0 (by omega)
      (by rw [hv.filenames, List.length_replicate]) hnull
    rw [hv.accesses] at hiff
    constructor
    · exact fun h => (hiff.mp h.inBounds).2
    · intro h
      refine ⟨hiff.mpr ⟨fun a ha => absurd ha List.not_mem_nil, h⟩, fun hret => ?_⟩
      rw [evictBlocks, hstatus] at hret
      exact absurd (show (-1 : Int) = 0 from hret) (by decide)

/-- Two blocks of the file with id 1. -/
def twoVictims : MetaState :=
  { db := { files := [⟨1, ['/', 'f'], 10, 8⟩], datablocks := [⟨1, 0, 7, 1⟩, ⟨2, 4, 8, 1⟩] }
    cacheUsedSize := 8
    metaBlockSize := 4 }

theorem Victims.fresh_empty (n : Nat) : (Victims.empty n).Fresh n :=
  ⟨List.length_replicate, rfl, rfl⟩

theorem wf_twoVictims : twoVictims.db.WF := by
  constructor <;> decide

/-- The second block of file 1 is row 1. -/
theorem evictBlocks_namesRight_two : NamesRight twoVictims.db 2 2
    (evictBlocks twoVictims (.inOrder twoVictims.db) 2 (.empty 2)) := by
  refine ((evictBlocks_namesRight_iff (o := .inOrder twoVictims.db) wf_twoVictims
    (Victims.fresh_empty 2)).1 rfl).mpr fun id hid => ?_
  have hids : reportedIds ((Selection.inOrder twoVictims.db).rows 2) = [1, 1] := by decide
  rw [hids] at hid ⊢
  obtain rfl : id = 1 := by simpa using hid
  exact ⟨1, rfl, rfl, rfl, ['/', 'f'], by decide, by decide⟩

/-- For one block of file 1 the array has one entry, and place 1 is looked at. -/
theorem evictBlocks_not_namesRight : ¬ ∀ (m : MetaState) (o : Selection) (numBlks : Nat), m.db.WF →
    o.OrderOf m.db → NamesRight m.db numBlks (o.rows numBlks).length
      (evictBlocks m o numBlks (.empty numBlks)) := by
  intro h
  have hright := h oneVictim (.inOrder oneVictim.db) 1 (by constructor <;> decide)
    ⟨.refl _, List.pairwise_singleton _ _⟩
  exact absurd (hright.inBounds (.filenames 1) (by decide)) (by decide)

end CacheFs
