/-
**SQL texts for the controlled database.**

The three passes that turn an embedded SQL text into one that SQLite runs (`translate_db2_dml` of
`db2_sqlite.py`, `_mask_host_variables` and `_bind_values` of `execution.py`): the `INTO` clause goes,
`FETCH FIRST n ROWS ONLY` becomes `LIMIT n`, and host variables become placeholders.  The letter case
and the word characters are those of ASCII.

Main definitions:

* `findWord` — the first place of a word;
* `stripSelectInto`, `limitFetchFirst`, `maskHostVariables` — the passes;
* `translateDb2Dml`, `bindValues` — the first two passes, and the values of the placeholders.

Main results:

* `findWord_append` — what is found is a word of the text, with all before it.
-/

import CobolJava.Lib.PyLines

set_option autoImplicit false

namespace CobolJava.Sql

/-! ### Words -/

/-- `\w` -/
def isWordChar (c : Char) : Bool :=
  c.isAlphanum || c = '_'

/-- A text begins with a word, in any case, and the word ends there. -/
def wordAt (word s : List Char) : Bool :=
  Py.Chars.startswith (Py.Chars.upper s) word && !(s.drop word.length).head?.any isWordChar

/-- `re.search(r"\bWORD\b", …)`: what is before the first place of the word, and the text from there
on.  `behind` says whether the text begins behind a word character. -/
def findWord (word : List Char) : Bool → List Char → Option (List Char × List Char)
  | _, [] => none
  | behind, c :: rest =>
      if !behind && wordAt word (c :: rest) then some ([], c :: rest)
      else (findWord word (isWordChar c) rest).map fun found => (c :: found.1, found.2)

theorem findWord_append {word : List Char} {behind : Bool} {s before rest : List Char}
    (h : findWord word behind s = some (before, rest)) : s = before ++ rest := by
  induction s generalizing behind before with
  | nil => cases h
  | cons c s ih =>
      rw [findWord] at h
      split at h
      · cases h
        rfl
      · obtain ⟨⟨before', rest'⟩, hfound, heq⟩ := Option.map_eq_some_iff.1 h
        cases heq
        rw [List.cons_append, ← ih hfound]

/-! ### The `INTO` clause -/

/-- `_strip_select_into` -/
def stripSelectInto (sql : List Char) : List Char :=
  match findWord "INTO".toList false sql with
  | none => sql
  | some (before, rest) =>
      match findWord "FROM".toList false (rest.drop 4) with
      | none => sql
      | some (_, tail) => Py.Chars.rstrip before ++ ' ' :: tail

/-! ### `FETCH FIRST` -/

/-- A text behind a prefix, in any case. -/
def afterPrefix (start s : List Char) : Option (List Char) :=
  if Py.Chars.startswith (Py.Chars.upper s) start then some (s.drop start.length) else none

/-- `\s+` -/
def afterBlanks (s : List Char) : Option (List Char) :=
  if s.head?.any Py.isSpace then some (s.dropWhile Py.isSpace) else none

/-- `_FETCH_FIRST_RE` at the beginning of a text: the digits, and what is behind the match. -/
def fetchFirst (s : List Char) : Option (List Char × List Char) := do
  let s ← afterPrefix "FETCH".toList s
  let s ← afterBlanks s
  let s ← afterPrefix "FIRST".toList s
  let s ← afterBlanks s
  let digits := s.takeWhile Char.isDigit
  guard (digits ≠ [])
  let s ← afterBlanks (s.dropWhile Char.isDigit)
  let s ← afterPrefix "ROW".toList s
  let s ← afterBlanks ((afterPrefix "S".toList s).getD s)
  let s ← afterPrefix "ONLY".toList s
  pure (digits, s)

/-- `re.sub`: the matches of a pattern, from the left and without overlap, are replaced, and the other
characters are copied.  `pattern` gives the replacement of a match and its length; the first `skip`
characters belong to the match before. -/
def replaceMatches {β : Type} (copy : Char → β) (pattern : List Char → Option (List β × ℕ)) :
    ℕ → List Char → List β
  | _, [] => []
  | skip + 1, _ :: rest => replaceMatches copy pattern skip rest
  | 0, c :: rest =>
      match pattern (c :: rest) with
      | some (replacement, length) => replacement ++ replaceMatches copy pattern (length - 1) rest
      | none => copy c :: replaceMatches copy pattern 0 rest

/-- The `LIMIT` clause of a match of `_FETCH_FIRST_RE`. -/
def limitClause (s : List Char) : Option (List Char × ℕ) :=
  (fetchFirst s).map fun found => ("LIMIT ".toList ++ found.1, s.length - found.2.length)

/-- `_FETCH_FIRST_RE.sub` -/
def limitFetchFirst (sql : List Char) : List Char :=
  replaceMatches id limitClause 0 sql

/-- `translate_db2_dml` -/
def translateDb2Dml (sql : List Char) : List Char :=
  limitFetchFirst (stripSelectInto sql)

/-! ### Host variables -/

/-- The name and the indicator of a placeholder; `[]` is no indicator. -/
abbrev BindEntry := List Char × List Char

/-- `[A-Z0-9-]`, in any case -/
def isHostChar (c : Char) : Bool :=
  c.isAlphanum || c = '-'

/-- `:[A-Z][A-Z0-9-]*` at the beginning of a text: the name. -/
def hostName : List Char → Option (List Char)
  | ':' :: c :: rest => if c.isAlpha then some (c :: rest.takeWhile isHostChar) else none
  | _ => none

/-- A host variable at the beginning of a text, with its indicator, and the length of both. -/
def hostReference (s : List Char) : Option (BindEntry × ℕ) :=
  (hostName s).map fun name =>
    match hostName (s.drop (name.length + 1)) with
    | some indicator => ((name, indicator), name.length + indicator.length + 2)
    | none => ((name, []), name.length + 1)

/-- The characters and the placeholders of a masked text. -/
def maskTokens (sql : List Char) : List (Char ⊕ BindEntry) :=
  replaceMatches Sum.inl (fun s => (hostReference s).map fun found => ([Sum.inr found.1], found.2)) 0 sql

def maskedText (tokens : List (Char ⊕ BindEntry)) : List Char :=
  tokens.map fun token => token.elim id fun _ => '?'

/-- The bind plan of masked tokens. -/
def bindPlan (tokens : List (Char ⊕ BindEntry)) : List BindEntry :=
  tokens.filterMap Sum.getRight?

/-- `_mask_host_variables` -/
def maskHostVariables (sql : List Char) : List Char × List BindEntry :=
  (maskedText (maskTokens sql), bindPlan (maskTokens sql))

/-- `_bind_values`; `error` is the name that has no binding. -/
def bindValues {ν : Type} (bindings : List Char → Option ν) :
    List BindEntry → Except (List Char) (List ν)
  | [] => .ok []
  | (name, _) :: plan => do
      let value ← (bindings name).elim (.error name) .ok
      let values ← bindValues bindings plan
      pure (value :: values)

end CobolJava.Sql
