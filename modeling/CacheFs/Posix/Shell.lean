/-
  CacheFs.Posix.Shell

  How the shell splits the text of a command into words.

  `tokens` reads the text character by character, as the token recognition of the
  shell does, and removes the quoting.  It answers `none` where the words are not
  in the text alone: where a quotation stays open, and where a parameter, a command
  or a pattern is expanded.  A `$` that starts no expansion, a `[` that is not
  closed and a backslash at the end of the text stand for themselves.  Comments,
  which begin with a '#' at the start of a word, are left out.

  A text is read as itself exactly when none of its characters is special
  (`tokens_word_iff`): every special character is lost in the reading or splits it.
-/

import Mathlib.Algebra.BigOperators.Ring.Finset
import Mathlib.Tactic.SplitIfs

namespace CacheFs.Posix.Shell

inductive Token where
  | word (text : List Char)
  | operator (c : Char)
deriving DecidableEq

/-- What the characters before the current one have opened. -/
inductive Quoting where
  | plain
  /-- After a backslash outside of quotes. -/
  | escaped
  | single
  | double
  /-- After a backslash between double quotes. -/
  | doubleEscaped

-- ============================================================================
-- Special characters
-- ============================================================================

def isBlank (c : Char) : Bool := c == ' ' || c == '\t'

def isOperator (c : Char) : Bool := "\n;&|<>()".toList.contains c

def isQuote (c : Char) : Bool := c == '\'' || c == '"'

/-- After a '$', `rest` is a parameter or a command to be substituted. -/
def startsParameter (rest : List Char) : Bool :=
  rest.head?.any fun c => c.isAlphanum || "_@*#?-$!\x7b(".toList.contains c

/-- After a '[', `rest` closes the bracket expression: a ']' that is not its first
    character, nor the first after its '!'. -/
def closesBracket (rest : List Char) : Bool :=
  ((if rest.head? = some '!' then rest.tail else rest).drop 1).contains ']'

/-- The character starts a substitution, between double quotes as well. -/
def substitutes (c : Char) (rest : List Char) : Bool :=
  c == '`' || (c == '$' && startsParameter rest)

/-- The character makes its word a pattern. -/
def isPattern (c : Char) (rest : List Char) : Bool :=
  c == '*' || c == '?' || (c == '[' && closesBracket rest)

/-- The character, followed by `rest` and not quoted, does not stand for itself. -/
def special (c : Char) (rest : List Char) : Bool :=
  isBlank c || isOperator c || (c == '\\' && !rest.isEmpty) || isQuote c ||
    substitutes c rest || isPattern c rest

/-- No character of the text is special. -/
def Plain : List Char → Prop
  | [] => True
  | c :: rest => special c rest = false ∧ Plain rest

instance decidablePlain : (text : List Char) → Decidable (Plain text)
  | [] => inferInstanceAs (Decidable True)
  | _ :: rest => haveI := decidablePlain rest; inferInstanceAs (Decidable (_ ∧ _))

-- ============================================================================
-- Token recognition
-- ============================================================================

/-- The word that has been begun, if there is one. -/
def flush (word : Option (List Char)) : List Token := (word.map Token.word).toList

/-- The word with one more character. -/
def push (word : Option (List Char)) (c : Char) : Option (List Char) := some (word.getD [] ++ [c])

def tokens : Quoting → Option (List Char) → List Char → Option (List Token)
  | .plain, word, [] => some (flush word)
  | .escaped, word, [] => some (flush (push word '\\'))
  | _, _, [] => none
  | .plain, word, c :: rest =>
    if isBlank c then (flush word ++ ·) <$> tokens .plain none rest
    else if isOperator c then (flush word ++ .operator c :: ·) <$> tokens .plain none rest
    else if c = '\\' then tokens .escaped word rest
    else if c = '\'' then tokens .single (some (word.getD [])) rest
    else if c = '"' then tokens .double (some (word.getD [])) rest
    else if substitutes c rest || isPattern c rest then none
    else tokens .plain (push word c) rest
  | .escaped, word, c :: rest =>
    if c = '\n' then tokens .plain word rest else tokens .plain (push word c) rest
  | .single, word, c :: rest =>
    if c = '\'' then tokens .plain word rest else tokens .single (push word c) rest
  | .double, word, c :: rest =>
    if c = '"' then tokens .plain word rest
    else if c = '\\' then tokens .doubleEscaped word rest
    else if substitutes c rest then none
    else tokens .double (push word c) rest
  | .doubleEscaped, word, c :: rest =>
    if c = '\n' then tokens .double word rest
    else if "$`\"\\".toList.contains c then tokens .double (push word c) rest
    else tokens .double (push (push word '\\') c) rest

/-- The shell reads the text as one simple command with these words. -/
def ReadsAs (text : List Char) (words : List (List Char)) : Prop :=
  tokens .plain none text = some (words.map .word)

instance (text : List Char) (words : List (List Char)) : Decidable (ReadsAs text words) :=
  inferInstanceAs (Decidable (_ = _))

-- ============================================================================
-- Nothing is gained in the reading
-- ============================================================================

/-- The number of characters in the words. -/
def size (ts : List Token) : Nat :=
  (ts.map fun | .word text => text.length | .operator _ => 0).sum

/-- The backslash that has been read and not yet used. -/
def Quoting.pending : Quoting → Nat
  | .escaped | .doubleEscaped => 1
  | _ => 0

@[simp] theorem size_flush (word : Option (List Char)) :
    size (flush word) = (word.getD []).length := by
  cases word <;> simp [size, flush]

@[simp] theorem size_append (ts us : List Token) : size (ts ++ us) = size ts + size us := by
  simp [size]

@[simp] theorem size_operator (c : Char) (ts : List Token) :
    size (.operator c :: ts) = size ts := by
  simp [size]

@[simp] theorem length_push (word : Option (List Char)) (c : Char) :
    ((push word c).getD []).length = (word.getD []).length + 1 := by
  simp [push]

/-- The words have at most the characters of the text. -/
theorem size_tokens {q : Quoting} {word : Option (List Char)} {text : List Char} {ts : List Token}
    (h : tokens q word text = some ts) :
    size ts ≤ (word.getD []).length + q.pending + text.length := by
  induction text generalizing q word ts with
  | nil =>
      cases q <;> simp only [tokens, Option.some.injEq, reduceCtorEq] at h <;>
        subst h <;> simp [Quoting.pending]
  | cons c rest ih =>
      cases q with
      | plain =>
          simp only [tokens] at h
          split_ifs at h
          · obtain ⟨us, hus, rfl⟩ := Option.map_eq_some_iff.mp h
            have hle := ih hus
            simp only [size_append, size_flush, List.length_cons, Option.getD_none, List.length_nil,
              Quoting.pending] at hle ⊢
            omega
          · obtain ⟨us, hus, rfl⟩ := Option.map_eq_some_iff.mp h
            have hle := ih hus
            simp only [size_append, size_flush, size_operator, List.length_cons, Option.getD_none,
              List.length_nil, Quoting.pending] at hle ⊢
            omega
          all_goals
            have hle := ih h
            simp only [length_push, Option.getD_some, List.length_cons, Quoting.pending] at hle ⊢
            omega
      | escaped | single | double | doubleEscaped =>
          simp only [tokens] at h
          split_ifs at h
          all_goals
            have hle := ih h
            simp only [length_push, List.length_cons, Quoting.pending] at hle ⊢
            omega

-- ============================================================================
-- Texts that are read as themselves
-- ============================================================================

/-- A character that is not special is added to the word. -/
theorem tokens_ordinary {word : Option (List Char)} {rest : List Char} {c : Char}
    (h : special c rest = false) :
    tokens .plain word (c :: rest) = tokens .plain (push word c) rest := by
  simp only [special, Bool.or_eq_false_iff, isQuote, beq_eq_false_iff_ne] at h
  obtain ⟨⟨⟨⟨⟨hblank, hop⟩, hback⟩, hsingle, hdouble⟩, hsub⟩, hpat⟩ := h
  simp only [tokens, hblank, hop, hsingle, hdouble, hsub, hpat, Bool.or_false, if_false,
    Bool.false_eq_true]
  split_ifs with hc
  · -- a backslash that is not special ends the text
    have hend : rest = [] := by simpa [hc] using hback
    rw [hend, hc]
    rfl
  · rfl

/-- A special one is lost, or ends the word. -/
theorem size_special {word : Option (List Char)} {rest : List Char} {c : Char} {ts : List Token}
    (h : special c rest = true) (ht : tokens .plain word (c :: rest) = some ts) :
    size ts ≤ (word.getD []).length + rest.length := by
  simp only [tokens] at ht
  split_ifs at ht with hblank hop hback hsingle hdouble hexp
  · obtain ⟨us, hus, rfl⟩ := Option.map_eq_some_iff.mp ht
    simpa [Quoting.pending] using size_tokens hus
  · obtain ⟨us, hus, rfl⟩ := Option.map_eq_some_iff.mp ht
    simpa [Quoting.pending] using size_tokens hus
  · cases rest with
    | nil => 
        subst hback
        exact absurd h (by decide)
    | cons d ds =>
        rw [tokens] at ht
        split_ifs at ht <;> have hle := size_tokens ht <;>
          simp only [length_push, List.length_cons, Quoting.pending] at hle ⊢ <;>
          omega
  · simpa [Quoting.pending] using size_tokens ht
  · simpa [Quoting.pending] using size_tokens ht
  · -- none of the tests has found the character special
    simp only [Bool.or_eq_true, not_or, Bool.not_eq_true] at hexp
    simp [special, isQuote, hblank, hop, hback, hsingle, hdouble, hexp] at h

theorem size_word (text : List Char) : size [.word text] = text.length := by
  simp [size]

/-- Inside a word a text is read as itself exactly when it is plain. -/
theorem tokens_word_iff {text acc : List Char} :
    tokens .plain (some acc) text = some [.word (acc ++ text)] ↔ Plain text := by
  induction text generalizing acc with
  | nil => simp [tokens, flush, Plain]
  | cons c rest ih =>
      cases hs : special c rest with
      | true =>
          refine iff_of_false (fun ht => ?_) fun h => absurd (hs.symm.trans h.1) (by decide)
          have hle := size_special hs ht
          simp only [size_word, List.length_append, List.length_cons, Option.getD_some] at hle
          omega
      | false =>
          have happ : acc ++ c :: rest = acc ++ [c] ++ rest := by simp
          rw [tokens_ordinary hs, push, Option.getD_some, happ, ih, Plain, hs]
          simp

/-- The same of a text that begins a word. -/
theorem tokens_first_word_iff {c : Char} {rest : List Char} :
    tokens .plain none (c :: rest) = some [.word (c :: rest)] ↔ Plain (c :: rest) := by
  cases hs : special c rest with
  | true =>
      refine iff_of_false (fun ht => ?_) fun h => absurd (hs.symm.trans h.1) (by decide)
      have hle := size_special hs ht
      simp only [size_word, List.length_cons, Option.getD_none, List.length_nil] at hle
      omega
  | false =>
      rw [tokens_ordinary hs, push, Option.getD_none, Plain, hs]
      have hrest : tokens .plain (some [c]) rest = some [.word ([c] ++ rest)] ↔ Plain rest :=
        tokens_word_iff
      simpa using hrest

-- ============================================================================
-- Texts without metacharacters
-- ============================================================================

/-- The character is special in some text. -/
def isMeta (c : Char) : Bool :=
  isBlank c || isOperator c || isQuote c || "$`\\*?[".toList.contains c

theorem special_of_not_isMeta {c : Char} (h : isMeta c = false) (rest : List Char) :
    special c rest = false := by
  simp only [isMeta, Bool.or_eq_false_iff] at h
  obtain ⟨⟨⟨hblank, hop⟩, hquote⟩, hother⟩ := h
  simp at hother
  simp [special, substitutes, isPattern, hblank, hop, hquote, hother]

theorem plain_append_iff {dir text : List Char} (h : ∀ c ∈ dir, isMeta c = false) :
    Plain (dir ++ text) ↔ Plain text := by
  induction dir with
  | nil => rfl
  | cons c dir ih =>
      rw [List.cons_append, Plain, special_of_not_isMeta (h c List.mem_cons_self),
        ih fun d hd => h d (List.mem_cons_of_mem c hd)]
      simp

end CacheFs.Posix.Shell
