/-
**The operands of CICS commands.**

How the text of a block is split into commands, and the text of a command into operands
(`_split_statements`, `_join_continuation_lines`, `_identify_command`, `_parse_operands` and
`_split_by_space` of `cics_parser.py`), over texts of the alphabet of ASCII.

Main definitions:

* `splitStatements`, `parseOperands` — the parser;
* `CommandOption`, `Command` — the commands that are written: bare keywords, `KEY(value)` and
  `KEY=value`, with blanks and line breaks between them and before a parenthesis;
* `ReadFaithfully` — the operands read are the options written, each with its whole value;
* `Plain`, `OneCommand` — the options and the layouts that the parser is made for.

Main results:

* `joinFrom_of_none`, `two_le_length_joinFrom` — when lines are joined to one command;
* `readFaithfully_iff` — **when the operands are the options**.
-/

import CobolJava.Lib.NestedText
import CobolJava.Lib.PyCase
import CobolJava.Lib.PyInk

set_option autoImplicit false

namespace CobolJava.Cics

open Py (isSpace)
open Py.Chars NestedText

abbrev Text := List Char

/-! ### The parser -/

inductive CicsCommandType
  | send | receive | read | write | rewrite | delete | startbr | readnext | readprev | endbr
  | link | xctl | ret | syncpoint | abend | handleCondition | handleAid | assign | allocate | free
  | hold | release | writeq | readq | deleteq | set | ignore | pop | push
deriving DecidableEq

/-- `_COMMAND_MAP` -/
def commandMap : List (String × CicsCommandType) :=
  [("SEND", .send), ("RECEIVE", .receive), ("READ", .read), ("WRITE", .write),
    ("REWRITE", .rewrite), ("DELETE", .delete), ("STARTBR", .startbr), ("READNEXT", .readnext),
    ("READPREV", .readprev), ("ENDBR", .endbr), ("LINK", .link), ("XCTL", .xctl),
    ("RETURN", .ret), ("SYNCPOINT", .syncpoint), ("ABEND", .abend), ("HANDLE", .handleCondition),
    ("ASSIGN", .assign), ("ALLOCATE", .allocate), ("FREE", .free), ("HOLD", .hold),
    ("RELEASE", .release), ("WRITEQ", .writeq), ("READQ", .readq), ("DELETEQ", .deleteq),
    ("SET", .set), ("IGNORE", .ignore), ("POP", .pop), ("PUSH", .push)]

/-- The queue commands, which are recognised as prefixes. -/
def queueCommands : List (String × CicsCommandType) :=
  [("WRITEQ", .writeq), ("READQ", .readq), ("DELETEQ", .deleteq)]

/-- A character that ends the name of a command. -/
def endsName (c : Char) : Bool :=
  c = ' ' || c = '(' || c = '\n' || c = '\r'

/-- `_identify_command` -/
def identifyCommand (upper : Text) : Option CicsCommandType :=
  let upper := strip upper
  if startswith upper "HANDLE".toList then
    if contains upper "CONDITION".toList then some .handleCondition
    else if contains upper "AID".toList then some .handleAid
    else none
  else
    match queueCommands.find? fun e => startswith upper e.1.toList with
    | some e => some e.2
    | none =>
        (commandMap.find? fun e =>
          startswith upper e.1.toList && (upper.drop e.1.length).head?.all endsName).map Prod.snd

/-- `"\n".join` -/
def joinLines (lines : List Text) : Text :=
  ['\n'].intercalate lines

/-- The loop of `_join_continuation_lines`, with the lines of the command in progress. -/
def joinFrom (current : List Text) : List Text → List Text
  | [] => if current = [] then [] else [joinLines current]
  | raw :: rest =>
      let line := strip raw
      if line = [] then joinFrom current rest
      else if current ≠ [] ∧ balanced ([' '].intercalate current) = true ∧
          (identifyCommand (upper line)).isSome then
        joinLines current :: joinFrom [line] rest
      else joinFrom (current ++ [line]) rest

/-- `_join_continuation_lines` -/
def joinContinuationLines (chunk : Text) : List Text :=
  joinFrom [] (chunk.splitOn '\n')

def isPeriod (c : Char) : Bool :=
  c = '.'

/-- `_split_statements` -/
def splitStatements (cicsText : Text) : List Text :=
  (cut isPeriod outer [] cicsText).flatMap joinContinuationLines

structure CicsOperand where
  keyword : Text
  value : Text
  isHostVariable : Bool
  isLiteral : Bool
deriving DecidableEq

/-- A value begins and ends with a quote. -/
def quotedBy (quote : Char) (value : Text) : Bool :=
  value.head? = some quote && value.getLast? = some quote

/-- The operand of a keyword with a value. -/
def valued (keyword value : Text) : CicsOperand :=
  ⟨upper keyword, value, value.head? = some ':', quotedBy '\'' value || quotedBy '"' value⟩

def bareKeyword (part : Text) : CicsOperand :=
  ⟨upper part, [], false, false⟩

/-- `[A-Z0-9_-]`, in any case -/
def isKeyChar (c : Char) : Bool :=
  c.isAlphanum || c = '_' || c = '-'

/-- `[A-Z][A-Z0-9_-]*` at the beginning of a part, and what is behind. -/
def keyRun : Text → Option (Text × Text)
  | c :: rest =>
      if c.isAlpha then some (c :: rest.takeWhile isKeyChar, rest.dropWhile isKeyChar) else none
  | [] => none

def parsePart (part : Text) : CicsOperand :=
  match keyRun part with
  | some (keyword, '=' :: rest) => valued keyword (strip (rest.takeWhile (· ≠ '\n')))
  | some (keyword, '(' :: rest) =>
      if ')' ∈ rest then valued keyword (strip (rest.takeWhile (· ≠ ')'))) else bareKeyword part
  | _ => bareKeyword part

/-- A character at which `_split_by_space` splits. -/
def isBlank (c : Char) : Bool :=
  c = ' ' || c = '\t' || c = '\n' || c = '\r'

/-- `_parse_operands` -/
def parseOperands (text : Text) : List CicsOperand :=
  (words isBlank (strip (text.dropWhile fun c => !endsName c))).filterMap fun part =>
    let part := strip part
    if part = [] then none else some (parsePart part)

/-! ### Commands as they are written -/

/-- A keyword, or the name of a command. -/
structure Key where
  text : Text
  first : ∃ c rest, text = c :: rest ∧ c.isAlpha = true
  all : ∀ c ∈ text, isKeyChar c = true

/-- Blanks and line breaks. -/
structure Gap where
  text : Text
  blank : ∀ c ∈ text, c = ' ' ∨ c = '\n'

/-- A value in parentheses: balanced, and on one line. -/
structure Value where
  text : Text
  nested : Nested (fun _ => True) text
  oneLine : '\n' ∉ text

/-- A value behind `=`: it has no white space outside parentheses and literals. -/
structure Word where
  text : Text
  nested : Nested (fun c => isSpace c = false) text
  oneLine : '\n' ∉ text

inductive CommandOption
  | bare (keyword : Key)
  | parenthesized (keyword : Key) (gap : Gap) (value : Value)
  | equals (keyword : Key) (value : Word)

/-- `(value)` -/
def Value.group (value : Value) : Text :=
  '(' :: (value.text ++ [')'])

def CommandOption.text : CommandOption → Text
  | .bare keyword => keyword.text
  | .parenthesized keyword gap value => keyword.text ++ (gap.text ++ value.group)
  | .equals keyword value => keyword.text ++ '=' :: value.text

/-- The parts into which an option is split. -/
def CommandOption.parts : CommandOption → List Text
  | .bare keyword => [keyword.text]
  | .parenthesized keyword gap value =>
      if gap.text = [] then [keyword.text ++ value.group] else [keyword.text, value.group]
  | .equals keyword value => [keyword.text ++ '=' :: value.text]

/-- The operand that an option stands for. -/
def CommandOption.operand : CommandOption → CicsOperand
  | .bare keyword => bareKeyword keyword.text
  | .parenthesized keyword _ value => valued keyword.text (strip value.text)
  | .equals keyword value => valued keyword.text value.text

/-- A command: its name, its options, each behind a gap, and whether a period ends it. -/
structure Command where
  name : Key
  options : List ({gap : Gap // gap.text ≠ []} × CommandOption)
  ending : Gap
  period : Bool

/-- The options of a command as they are written. -/
def optionsText (options : List ({gap : Gap // gap.text ≠ []} × CommandOption)) : Text :=
  options.flatMap fun o => o.1.1.text ++ o.2.text

/-- The text of a command up to its period. -/
def Command.body (command : Command) : Text :=
  command.name.text ++ (optionsText command.options ++ command.ending.text)

def Command.text (command : Command) : Text :=
  command.body ++ if command.period then ['.'] else []

/-- **The operands read are the options written**, in order and with their whole values. -/
def ReadFaithfully (command : Command) : Prop :=
  ∃ statement, splitStatements command.text = [statement] ∧
    parseOperands statement = command.options.map fun o => o.2.operand

/-- An option that the parser is made for: nothing stands between the keyword and its parenthesis,
no parenthesis closes in the value, and no period of a value behind `=` lies outside. -/
def Plain : CommandOption → Prop
  | .bare _ => True
  | .parenthesized _ gap value => gap.text = [] ∧ ')' ∉ value.text
  | .equals _ value => free isPeriod outer value.text = true

/-- No line but the first begins as a command. -/
def OneCommand (command : Command) : Prop :=
  ∀ line ∈ (command.body.splitOn '\n').tail, identifyCommand (upper (strip line)) = none

/-! ### Texts of words and blanks -/

/-- A text that is neither empty nor cut at white space. -/
structure Solid (t : Text) : Prop where
  ne : t ≠ []
  nested : Nested (fun c => isSpace c = false) t
  oneLine : '\n' ∉ t

/-- Words with blanks and line breaks around them. -/
inductive Laid : List Text → Text → Prop
  | nil : Laid [] []
  | blank {c : Char} {parts : List Text} {t : Text} (hc : c = ' ' ∨ c = '\n')
      (h : Laid parts t) : Laid parts (c :: t)
  | solid {part : Text} {parts : List Text} {t : Text} (hpart : Solid part)
      (hend : ∀ c ∈ t.head?, c = ' ' ∨ c = '\n') (h : Laid parts t) :
      Laid (part :: parts) (part ++ t)

attribute [grind =] joinFrom

theorem neutral_of_isBlank {c : Char} (h : isBlank c = true) : Neutral c := by
  simp only [isBlank, Bool.or_eq_true, decide_eq_true_eq] at h
  rcases h with ((rfl | rfl) | rfl) | rfl <;> decide

theorem isBlank_of_blank {c : Char} (h : c = ' ' ∨ c = '\n') : isBlank c = true := by
  rcases h with rfl | rfl <;> rfl

theorem isSpace_of_isBlank {c : Char} (h : isBlank c = true) : isSpace c = true := by
  simp only [isBlank, Bool.or_eq_true, decide_eq_true_eq] at h
  rcases h with ((rfl | rfl) | rfl) | rfl <;> rfl

theorem isBlank_of_isSpace {c : Char} (h : isSpace c = false) : isBlank c = false := by
  cases hblank : isBlank c with
  | false => rfl
  | true => rw [isSpace_of_isBlank hblank] at h; cases h

theorem isSpace_of_isQuote {q : Char} (h : isQuote q = true) : isSpace q = false := by
  simp only [isQuote, Bool.or_eq_true, decide_eq_true_eq] at h
  rcases h with rfl | rfl <;> rfl

theorem isSpace_head {t : Text} (h : Nested (fun c => isSpace c = false) t) :
    ∀ c ∈ t.head?, isSpace c = false := by
  cases h with
  | nil => exact fun c hc => by cases hc
  | plain hc => exact fun d hd => Option.some.inj hd ▸ hc
  | literal hq => exact fun d hd => Option.some.inj hd ▸ isSpace_of_isQuote hq
  | group => exact fun d hd => Option.some.inj hd ▸ rfl

/-- Nor does it end such a text. -/
theorem isSpace_getLast {t : Text} {outside : Char → Prop} (h : Nested outside t)
    (houtside : ∀ c, outside c → isSpace c = false) : ∀ c ∈ t.getLast?, isSpace c = false := by
  have hlast {a : Char} {s : Text} (ha : isSpace a = false)
      (ih : ∀ c ∈ s.getLast?, isSpace c = false) : ∀ c ∈ (a :: s).getLast?, isSpace c = false := by
    intro c hc
    cases s with
    | nil => exact Option.some.inj hc ▸ ha
    | cons b s => exact ih c (by simpa using hc)
  have happend {front s : Text} {a : Char}
      (ih : ∀ c ∈ (a :: s).getLast?, isSpace c = false) :
      ∀ c ∈ (front ++ a :: s).getLast?, isSpace c = false := by
    intro c hc
    rw [List.getLast?_append_of_ne_nil _ (List.cons_ne_nil a s)] at hc
    exact ih c hc
  induction h with
  | nil => exact fun c hc => by cases hc
  | plain hc hneutral hs ih => exact hlast (houtside _ hc) (ih houtside)
  | literal hq hbody hs ih =>
      have hquote := isSpace_of_isQuote hq
      exact hlast hquote (happend (hlast hquote (ih houtside)))
  | group hinner hs ihinner ih => exact hlast rfl (happend (hlast rfl (ih houtside)))

theorem Solid.free {t : Text} (h : Solid t) : NestedText.free isBlank outer t = true :=
  free_nested h.nested (fun _ => isBlank_of_isSpace) fun _ => neutral_of_isBlank

theorem Solid.balanced {t : Text} (h : Solid t) : balanced t = true :=
  decide_eq_true (foldl_step_nested h.nested 0)

theorem Solid.rstrip_append {t : Text} (h : Solid t) (rest : Text) :
    rstrip (t ++ rest) = t ++ rstrip rest :=
  rstrip_append_of_last h.ne (isSpace_getLast h.nested fun _ hc => hc) rest

theorem Solid.strip {t : Text} (h : Solid t) : strip t = t :=
  strip_of_ends (isSpace_head h.nested) (isSpace_getLast h.nested fun _ hc => hc)

variable {parts parts' : List Text} {t t' : Text}

/-- **The words of such a text.** -/
theorem Laid.words (h : Laid parts t) : words isBlank t = parts := by
  induction h with
  | nil => rfl
  | blank hc h ih => rw [words_sep (isBlank_of_blank hc), ih]
  | @solid part parts t hpart hend h ih =>
      cases t with
      | nil =>
          rw [← ih, List.append_nil, words_of_free hpart.free hpart.ne]
          rfl
      | cons c t =>
          have hc := isBlank_of_blank (hend c rfl)
          rw [words_append_cons (fun _ => neutral_of_isBlank) hpart.balanced hc,
            words_of_free hpart.free hpart.ne, ← ih, words_sep hc]
          rfl

theorem Laid.balanced (h : Laid parts t) : balanced t = true := by
  refine decide_eq_true ?_
  induction h with
  | nil => rfl
  | blank hc h ih =>
      rw [List.foldl_cons, step_outer (neutral_of_isBlank (isBlank_of_blank hc)), ih]
  | solid hpart hend h ih =>
      rw [List.foldl_append, of_decide_eq_true hpart.balanced, ih]

theorem Laid.lstrip (h : Laid parts t) : Laid parts (lstrip t) := by
  induction h with
  | nil => exact Laid.nil
  | blank hc h ih =>
      rw [Py.Chars.lstrip, List.dropWhile_cons, if_pos (isSpace_of_isBlank (isBlank_of_blank hc))]
      exact ih
  | @solid part parts t hpart hend h ih =>
      have hstays : Py.Chars.lstrip (part ++ t) = part ++ t := by
        obtain ⟨c, rest, rfl⟩ := List.exists_cons_of_ne_nil hpart.ne
        have hc := isSpace_head hpart.nested c rfl
        simp [Py.Chars.lstrip, hc]
      rw [hstays]
      exact Laid.solid hpart hend h

theorem mem_head?_of_rstrip {c : Char} (h : c ∈ (rstrip t).head?) : c ∈ t.head? := by
  obtain ⟨blank, hprefix⟩ : Py.Chars.rstrip t <+: t := List.rdropWhile_prefix ..
  rw [← hprefix]
  exact List.mem_head?_append_of_mem_head? h

theorem Laid.rstrip (h : Laid parts t) : Laid parts (rstrip t) := by
  induction h with
  | nil => exact Laid.nil
  | @blank c parts t hc h ih =>
      by_cases hnil : Py.Chars.rstrip t = []
      · have hink : ink (c :: t) = 0 := by
          refine ink_eq_zero.2 fun d hd => ?_
          rcases List.mem_cons.1 hd with rfl | hd
          · exact isSpace_of_isBlank (isBlank_of_blank hc)
          · exact List.rdropWhile_eq_nil_iff.1 hnil d hd
        rw [rstrip_of_blank hink]
        rwa [hnil] at ih
      · rw [rstrip_cons_of_ne hnil]
        exact Laid.blank hc ih
  | @solid part parts t hpart hend h ih =>
      rw [hpart.rstrip_append]
      exact Laid.solid hpart (fun c hc => hend c (mem_head?_of_rstrip hc)) ih

theorem Laid.strip (h : Laid parts t) : Laid parts (strip t) :=
  h.lstrip.rstrip

theorem Laid.append (h : Laid parts t) {c : Char} (hc : c = ' ' ∨ c = '\n')
    (h' : Laid parts' t') : Laid (parts ++ parts') (t ++ c :: t') := by
  induction h with
  | nil => exact Laid.blank hc h'
  | blank hd h ih => exact Laid.blank hd ih
  | @solid part parts t hpart hend h ih =>
      rw [List.append_assoc, List.cons_append]
      refine Laid.solid hpart (fun d hd => ?_) ih
      cases t with
      | nil => exact Option.some.inj hd ▸ hc
      | cons e t => exact hend d hd

/-! ### Lines -/

theorem splitOn_append_of_notMem {d : Char} {front : Text} (h : d ∉ front) (t : Text) :
    (front ++ t).splitOn d = (t.splitOn d).modifyHead (front ++ ·) := by
  induction front with
  | nil =>
      rw [List.nil_append]
      cases t.splitOn d <;> rfl
  | cons c front ih =>
      obtain ⟨hc, hfront⟩ : d ≠ c ∧ d ∉ front := by simpa using h
      rw [List.cons_append, List.splitOn_cons_eq_if_modifyHead, if_neg (by simpa using Ne.symm hc),
        ih hfront, List.modifyHead_modifyHead]
      rfl

/-- A text cut at its line breaks: the first line, and the others. -/
structure Lines (parts : List Text) (t line : Text) (lines : List Text) : Prop where
  split : t.splitOn '\n' = line :: lines
  laid : ∃ first others, Laid first line ∧ List.Forall₂ Laid others lines ∧
    first ++ others.flatten = parts
  head : ∀ c ∈ line.head?, c ∈ t.head?

/-- **Lines are laid out as the text is.** -/
theorem Laid.lines (h : Laid parts t) : ∃ line lines, Lines parts t line lines := by
  induction h with
  | nil =>
      exact ⟨[], [], List.splitOn_nil _, ⟨[], [], Laid.nil, List.Forall₂.nil, rfl⟩, fun c hc => hc⟩
  | @blank c parts t hc h ih =>
      obtain ⟨line, lines, hsplit, ⟨first, others, hfirst, hothers, rfl⟩, -⟩ := ih
      have hcons := List.splitOn_cons_eq_if_modifyHead (a := '\n') c t
      rcases hc with rfl | rfl
      · rw [if_neg (by decide), hsplit] at hcons
        exact ⟨' ' :: line, lines, hcons,
          ⟨first, others, Laid.blank (Or.inl rfl) hfirst, hothers, rfl⟩, fun d hd => hd⟩
      · rw [if_pos (by decide), hsplit] at hcons
        exact ⟨[], line :: lines, hcons,
          ⟨[], first :: others, Laid.nil, List.Forall₂.cons hfirst hothers, by simp⟩,
          fun d hd => by cases hd⟩
  | @solid part parts t hpart hend h ih =>
      obtain ⟨line, lines, hsplit, ⟨first, others, hfirst, hothers, rfl⟩, hhead⟩ := ih
      refine ⟨part ++ line, lines, ?_, ⟨part :: first, others,
        Laid.solid hpart (fun c hc => hend c (hhead c hc)) hfirst, hothers, rfl⟩, ?_⟩
      · rw [splitOn_append_of_notMem hpart.oneLine, hsplit]
        rfl
      · intro c hc
        obtain ⟨d, rest, rfl⟩ := List.exists_cons_of_ne_nil hpart.ne
        exact hc

theorem laid_intercalate {c : Char} (hc : c = ' ' ∨ c = '\n') {first : List Text}
    {others : List (List Text)} {line : Text} {lines : List Text} (hfirst : Laid first line)
    (hothers : List.Forall₂ Laid others lines) :
    Laid (first ++ others.flatten) ([c].intercalate (line :: lines)) := by
  induction hothers generalizing first line with
  | nil => simpa using hfirst
  | @cons ps line' others lines hline hlines ih =>
      rw [List.intercalate_cons_cons, List.append_assoc, List.singleton_append, List.flatten_cons]
      exact hfirst.append hc (ih hline)

/-- The lines that are kept hold all the words. -/
theorem laid_kept {others : List (List Text)} {lines : List Text}
    (h : List.Forall₂ Laid others lines) :
    ∃ others', List.Forall₂ Laid others' ((lines.map strip).filter (· ≠ [])) ∧
      others'.flatten = others.flatten := by
  induction h with
  | nil => exact ⟨[], List.Forall₂.nil, rfl⟩
  | @cons ps line others lines hline hlines ih =>
      obtain ⟨others', hothers', hflatten⟩ := ih
      by_cases hnil : strip line = []
      · have hps : ps = [] := by
          rw [← hline.strip.words, hnil]
          rfl
        refine ⟨others', ?_, by rw [hflatten, hps]; rfl⟩
        rwa [List.map_cons, List.filter_cons_of_neg (by simpa using hnil)]
      · refine ⟨ps :: others', ?_, by rw [List.flatten_cons, List.flatten_cons, hflatten]⟩
        rw [List.map_cons, List.filter_cons_of_pos (by simpa using hnil)]
        exact List.Forall₂.cons hline.strip hothers'

/-! ### Joined lines -/

theorem identifyCommand_nil : identifyCommand (upper []) = none := by
  decide

theorem joinFrom_ne_nil {current : List Text} (h : current ≠ []) (lines : List Text) :
    joinFrom current lines ≠ [] := by
  induction lines generalizing current with
  | nil => simp [joinFrom, h]
  | cons raw rest ih =>
      rw [joinFrom]
      split
      · exact ih h
      · split
        · exact List.cons_ne_nil _ _
        · exact ih (by simp)

/-- **Lines none of which begins as a command are joined.** -/
theorem joinFrom_of_none {current : List Text} (hne : current ≠ []) {lines : List Text}
    (h : ∀ line ∈ lines, identifyCommand (upper (strip line)) = none) :
    joinFrom current lines = [joinLines (current ++ (lines.map strip).filter (· ≠ []))] := by
  induction lines generalizing current with
  | nil => simp [joinFrom, hne]
  | cons raw rest ih =>
      have hrest := fun line hline => h line (List.mem_cons_of_mem raw hline)
      rw [joinFrom, List.map_cons]
      by_cases hnil : strip raw = []
      · rw [if_pos hnil, ih hne hrest, List.filter_cons_of_neg (by simpa using hnil)]
      · rw [if_neg hnil, if_neg (by simp [h raw List.mem_cons_self]), ih (by simp) hrest,
          List.filter_cons_of_pos (by simpa using hnil)]
        simp

/-- **A line that begins as a command begins a statement.** -/
theorem two_le_length_joinFrom {current : List Text} (hne : current ≠ []) {held : List (List Text)}
    (hcurrent : List.Forall₂ Laid held current) {others : List (List Text)} {lines : List Text}
    (hlines : List.Forall₂ Laid others lines)
    (h : ¬∀ line ∈ lines, identifyCommand (upper (strip line)) = none) :
    2 ≤ (joinFrom current lines).length := by
  induction hlines generalizing current held with
  | nil => exact absurd (fun line hline => by cases hline) h
  | @cons ps raw others rest hraw hrest ih =>
      have hbalanced : balanced ([' '].intercalate current) = true := by
        cases hcurrent with
        | nil => exact absurd rfl hne
        | cons hfirst hothers => exact (laid_intercalate (Or.inl rfl) hfirst hothers).balanced
      have htail (hnone : identifyCommand (upper (strip raw)) = none) :
          ¬∀ line ∈ rest, identifyCommand (upper (strip line)) = none := fun hall =>
        h fun line hline => (List.mem_cons.1 hline).elim (fun heq => heq ▸ hnone) (hall line)
      rw [joinFrom]
      by_cases hnil : strip raw = []
      · rw [if_pos hnil]
        exact ih hne hcurrent (htail (by rw [hnil, identifyCommand_nil]))
      · rw [if_neg hnil]
        cases hidentify : identifyCommand (upper (strip raw)) with
        | some type =>
            rw [if_pos ⟨hne, hbalanced, rfl⟩, List.length_cons]
            have := List.length_pos_of_ne_nil
              (joinFrom_ne_nil (List.cons_ne_nil (strip raw) []) rest)
            omega
        | none =>
            rw [if_neg (by simp)]
            exact ih (by simp)
              (List.rel_append hcurrent (List.Forall₂.cons hraw.strip List.Forall₂.nil))
              (htail hidentify)

/-! ### What counts -/

theorem count_joinLines (lines : List Text) :
    (joinLines lines).count '.' = (lines.map (List.count '.')).sum := by
  induction lines with
  | nil => rfl
  | cons line lines ih =>
      cases lines with
      | nil => simp [joinLines]
      | cons line' lines =>
          rw [joinLines] at ih ⊢
          rw [List.intercalate_cons_cons, List.append_assoc, List.count_append,
            List.singleton_append, List.count_cons_of_ne (by decide), ih]
          rfl

theorem count_joinFrom (current lines : List Text) :
    ((joinFrom current lines).map (List.count '.')).sum =
      (current.map (List.count '.')).sum + (lines.map (List.count '.')).sum := by
  induction lines generalizing current with
  | nil =>
      by_cases hcurrent : current = []
      · simp [joinFrom, hcurrent]
      · simp [joinFrom, hcurrent, count_joinLines]
  | cons raw rest ih =>
      have hstrip : (strip raw).count '.' = raw.count '.' := count_strip rfl raw
      rw [joinFrom, List.map_cons, List.sum_cons]
      split
      · rename_i hnil
        rw [hnil, List.count_nil] at hstrip
        rw [ih, ← hstrip, Nat.zero_add]
      · split
        · rw [List.map_cons, List.sum_cons, ih, count_joinLines]
          simp [hstrip]
        · rw [ih]
          simp [hstrip, Nat.add_assoc]

theorem count_joinContinuationLines (chunk : Text) :
    ((joinContinuationLines chunk).map (List.count '.')).sum = chunk.count '.' := by
  have hlines := count_joinLines (chunk.splitOn '\n')
  rw [joinLines, List.intercalate_splitOn] at hlines
  rw [joinContinuationLines, count_joinFrom, ← hlines]
  exact Nat.zero_add _

theorem count_statements (chunks : List Text) :
    ((chunks.flatMap joinContinuationLines).map (List.count '.')).sum =
      (chunks.map (List.count '.')).sum := by
  induction chunks with
  | nil => rfl
  | cons chunk chunks ih =>
      rw [List.flatMap_cons, List.map_append, List.sum_append, count_joinContinuationLines, ih]
      rfl

theorem count_statement {text statement : Text} (h : splitStatements text = [statement]) :
    statement.count '.' + ((cut isPeriod outer [] text).length - 1) = text.count '.' := by
  have hcut := @count_cut isPeriod '.' (fun c hc => of_decide_eq_true hc) outer [] text
  have hsum := count_statements (cut isPeriod outer [] text)
  rw [← splitStatements, h] at hsum
  simp only [List.map_cons, List.map_nil, List.sum_cons, List.sum_nil, Nat.add_zero] at hsum
  rw [hsum, hcut, List.count_nil, Nat.zero_add]

def CicsOperand.periods (operand : CicsOperand) : ℕ :=
  operand.keyword.count '.' + operand.value.count '.'

theorem count_upper (s : Text) : (upper s).count '.' = s.count '.' := by
  induction s with
  | nil => rfl
  | cons c s ih =>
      have hc : (c.toUpper == '.') = (c == '.') := by
        rw [Bool.eq_iff_iff, beq_iff_eq, beq_iff_eq]
        exact toUpper_eq_iff rfl
      rw [upper] at ih ⊢
      rw [List.map_cons, List.count_cons, List.count_cons, ih, hc]

theorem keyRun_eq_some {part key rest : Text} (h : keyRun part = some (key, rest)) :
    part = key ++ rest ∧ ∀ c ∈ key, isKeyChar c = true := by
  cases part with
  | nil => cases h
  | cons c s =>
      rw [keyRun] at h
      split at h
      · rename_i hc
        obtain ⟨rfl, rfl⟩ := Prod.mk.inj (Option.some.inj h)
        refine ⟨by simp, fun d hd => ?_⟩
        rcases List.mem_cons.1 hd with rfl | hd
        · simp [isKeyChar, Char.isAlphanum, hc]
        · exact List.mem_takeWhile_imp hd
      · cases h

theorem count_key {key : Text} (h : ∀ c ∈ key, isKeyChar c = true) : key.count '.' = 0 :=
  List.count_eq_zero.2 fun hmem => absurd (h '.' hmem) (by decide)

/-- An operand has no more periods than its part. -/
theorem periods_parsePart_le (part : Text) : (parsePart part).periods ≤ part.count '.' := by
  have hvalued {key rest value : Text} {c : Char} (hrun : keyRun part = some (key, c :: rest))
      (hvalue : value.Sublist rest) : (valued key (strip value)).periods ≤ part.count '.' := by
    obtain ⟨hpart, hkey⟩ := keyRun_eq_some hrun
    rw [CicsOperand.periods, valued, count_upper, count_key hkey, count_strip rfl, hpart,
      List.count_append, count_key hkey]
    exact Nat.add_le_add_left ((hvalue.trans (List.sublist_cons_self c rest)).count_le _) _
  have hbare : (bareKeyword part).periods = part.count '.' := by
    rw [CicsOperand.periods, bareKeyword, count_upper]
    rfl
  rw [parsePart]
  split
  · rename_i hrun
    exact hvalued hrun (List.takeWhile_sublist _)
  · rename_i hrun
    split
    · exact hvalued hrun (List.takeWhile_sublist _)
    · exact hbare.le
  · exact hbare.le

/-- Operands have no more periods than their statement. -/
theorem periods_parseOperands_le (statement : Text) :
    ((parseOperands statement).map CicsOperand.periods).sum ≤ statement.count '.' := by
  have hparts (parts : List Text) :
      ((parts.filterMap fun part => let part := strip part
        if part = [] then none else some (parsePart part)).map CicsOperand.periods).sum ≤
        (parts.map (List.count '.')).sum := by
    induction parts with
    | nil => exact le_rfl
    | cons part parts ih =>
        rw [List.filterMap_cons, List.map_cons, List.sum_cons]
        split
        · exact ih.trans (Nat.le_add_left _ _)
        · rename_i operand hsome
          simp only at hsome
          split at hsome
          · cases hsome
          · obtain rfl := Option.some.inj hsome
            have hpart := periods_parsePart_le (strip part)
            rw [count_strip rfl] at hpart
            rw [List.map_cons, List.sum_cons]
            exact Nat.add_le_add hpart ih
  refine (hparts _).trans ?_
  rw [count_words rfl, count_strip rfl]
  exact (List.dropWhile_sublist _).count_le _

/-! ### The text of a command -/

theorem Key.solid (key : Key) : Solid key.text := by
  obtain ⟨c, rest, htext, hc⟩ := key.first
  refine ⟨by rw [htext]; exact List.cons_ne_nil c rest, ?_,
    fun hmem => absurd (key.all _ hmem) (by decide)⟩
  have hnested (s : Text) (hs : ∀ d ∈ s, isKeyChar d = true) :
      Nested (fun d => isSpace d = false) s := by
    induction s with
    | nil => exact Nested.nil
    | cons d s ih =>
        have hd := hs d List.mem_cons_self
        refine Nested.plain ?_ ?_ (ih fun e he => hs e (List.mem_cons_of_mem d he))
        · simp only [isKeyChar, Bool.or_eq_true, decide_eq_true_eq] at hd
          rcases hd with (hd | rfl) | rfl
          · exact isSpace_of_alphanum hd
          · rfl
          · rfl
        · refine ⟨?_, ?_, ?_⟩
          · by_contra hquote
            rw [Bool.not_eq_false, isQuote, Bool.or_eq_true, decide_eq_true_eq,
              decide_eq_true_eq] at hquote
            rcases hquote with rfl | rfl <;> exact absurd hd (by decide)
          · rintro rfl
            exact absurd hd (by decide)
          · rintro rfl
            exact absurd hd (by decide)
  exact hnested key.text key.all

/-- A solid text behind a keyword. -/
theorem Key.solid_append (key : Key) {t : Text} (h : Nested (fun c => isSpace c = false) t)
    (hline : '\n' ∉ t) : Solid (key.text ++ t) := by
  have happend {s : Text} (hs : Nested (fun c => isSpace c = false) s) :
      Nested (fun c => isSpace c = false) (s ++ t) := by
    generalize houtside : (fun c => isSpace c = false) = outside at hs
    induction hs with
    | nil => exact houtside ▸ h
    | plain hc hneutral hs ih => exact Nested.plain hc hneutral (ih houtside)
    | @literal _ q body s hq hbody hs ih =>
        have := Nested.literal hq hbody (ih houtside)
        rwa [List.cons_append, List.append_assoc, List.cons_append]
    | @group _ inner s hinner hs ihinner ih =>
        have := Nested.group hinner (ih houtside)
        rwa [List.cons_append, List.append_assoc, List.cons_append]
  refine ⟨by simp [key.solid.ne], happend key.solid.nested, ?_⟩
  rw [List.mem_append, not_or]
  exact ⟨key.solid.oneLine, hline⟩

theorem Value.nested_group (value : Value) :
    Nested (fun c => isSpace c = false) value.group :=
  Nested.group value.nested Nested.nil

theorem Value.oneLine_group (value : Value) : '\n' ∉ value.group := by
  simp [group, value.oneLine]

theorem Word.nested_equals (value : Word) :
    Nested (fun c => isSpace c = false) ('=' :: value.text) :=
  Nested.plain rfl (by decide) value.nested

theorem laid_gap (gap : Gap) (h : Laid parts t) : Laid parts (gap.text ++ t) := by
  obtain ⟨text, hblank⟩ := gap
  induction text with
  | nil => exact h
  | cons c text ih =>
      exact Laid.blank (hblank c List.mem_cons_self) (ih fun d hd =>
        hblank d (List.mem_cons_of_mem c hd))

theorem Gap.head (gap : Gap) (h : gap.text ≠ []) (t : Text) :
    ∀ c ∈ (gap.text ++ t).head?, c = ' ' ∨ c = '\n' := by
  obtain ⟨d, rest, htext⟩ := List.exists_cons_of_ne_nil h
  intro c hc
  rw [htext] at hc
  obtain rfl := Option.some.inj hc
  exact gap.blank _ (by rw [htext]; exact List.mem_cons_self)

/-- An option is laid out in its parts. -/
theorem CommandOption.laid (option : CommandOption) (h : Laid parts t)
    (hend : ∀ c ∈ t.head?, c = ' ' ∨ c = '\n') :
    Laid (option.parts ++ parts) (option.text ++ t) := by
  cases option with
  | bare keyword => exact Laid.solid keyword.solid hend h
  | parenthesized keyword gap value =>
      rw [CommandOption.parts, CommandOption.text]
      split
      · rename_i hgap
        rw [hgap, List.nil_append]
        exact Laid.solid (keyword.solid_append value.nested_group value.oneLine_group) hend h
      · rename_i hgap
        have hgroup : Solid value.group :=
          ⟨List.cons_ne_nil _ _, value.nested_group, value.oneLine_group⟩
        rw [List.append_assoc, List.append_assoc]
        exact Laid.solid keyword.solid (gap.head hgap _) (laid_gap gap (Laid.solid hgroup hend h))
  | equals keyword value =>
      refine Laid.solid (keyword.solid_append value.nested_equals ?_) hend h
      simp [value.oneLine]

/-- **The options of a command are laid out in their parts.** -/
theorem laid_options (options : List ({gap : Gap // gap.text ≠ []} × CommandOption))
    (ending : Gap) :
    Laid (options.flatMap fun o => o.2.parts) (optionsText options ++ ending.text) ∧
      ∀ c ∈ (optionsText options ++ ending.text).head?, c = ' ' ∨ c = '\n' := by
  induction options with
  | nil =>
      constructor
      · have := laid_gap ending Laid.nil
        rwa [List.append_nil] at this
      · intro c hc
        exact ending.blank c (List.mem_of_mem_head? hc)
  | cons o options ih =>
      obtain ⟨⟨gap, hgap⟩, option⟩ := o
      rw [optionsText, List.flatMap_cons, List.flatMap_cons, List.append_assoc, List.append_assoc]
      exact ⟨laid_gap gap (option.laid ih.1 ih.2), gap.head hgap _⟩

theorem laid_body (command : Command) :
    Laid (command.name.text :: command.options.flatMap fun o => o.2.parts) command.body :=
  Laid.solid command.name.solid (laid_options command.options command.ending).2
    (laid_options command.options command.ending).1

/-! ### Periods -/

theorem free_key (key : Key) : NestedText.free isPeriod outer key.text = true := by
  refine free_of_forall fun c hc => ?_
  by_contra hdot
  have hkey := key.all c hc
  rw [of_decide_eq_true (Bool.eq_true_of_not_eq_false hdot)] at hkey
  exact absurd hkey (by decide)

theorem free_gap (gap : Gap) : NestedText.free isPeriod outer gap.text = true :=
  free_of_forall fun c hc => by rcases gap.blank c hc with rfl | rfl <;> rfl

/-- No period of a value behind `=` lies outside. -/
def WithoutPeriods : CommandOption → Prop
  | .equals _ value => NestedText.free isPeriod outer value.text = true
  | _ => True

theorem balanced_gap (gap : Gap) : balanced gap.text = true := by
  have := (laid_gap gap Laid.nil).balanced
  rwa [List.append_nil] at this

theorem balanced_option (option : CommandOption) : balanced option.text = true := by
  have := (option.laid Laid.nil (fun c hc => by cases hc)).balanced
  rwa [List.append_nil] at this

theorem free_option (option : CommandOption) :
    NestedText.free isPeriod outer option.text = true ↔ WithoutPeriods option := by
  cases option with
  | bare keyword => exact iff_true_intro (free_key keyword)
  | parenthesized keyword gap value =>
      have hnested : Nested (fun _ => False) value.group := Nested.group value.nested Nested.nil
      have hgroup : NestedText.free isPeriod outer value.group = true :=
        free_nested hnested (fun _ hc => hc.elim) fun c hc => by
          rw [of_decide_eq_true hc]
          decide
      rw [CommandOption.text, free_append_balanced keyword.solid.balanced,
        free_append_balanced (balanced_gap gap), free_key, free_gap, hgroup]
      simp [WithoutPeriods]
  | equals keyword value =>
      have hequals : NestedText.free isPeriod outer ('=' :: value.text) =
          NestedText.free isPeriod outer value.text := free_cons_other rfl _
      rw [CommandOption.text, free_append_balanced keyword.solid.balanced, free_key, hequals,
        Bool.true_and]
      rfl

/-- **When no period of a command lies outside.** -/
theorem free_body (command : Command) :
    NestedText.free isPeriod outer command.body = true ↔
      ∀ o ∈ command.options, WithoutPeriods o.2 := by
  have hoptions (options : List ({gap : Gap // gap.text ≠ []} × CommandOption)) :
      NestedText.free isPeriod outer (optionsText options ++ command.ending.text) = true ↔
        ∀ o ∈ options, WithoutPeriods o.2 := by
    induction options with
    | nil => simp [optionsText, free_gap]
    | cons o options ih =>
        have hcons : optionsText (o :: options) ++ command.ending.text =
            o.1.1.text ++ (o.2.text ++ (optionsText options ++ command.ending.text)) := by
          simp [optionsText]
        rw [hcons, free_append_balanced (balanced_gap _), free_gap, Bool.true_and,
          free_append_balanced (balanced_option _), Bool.and_eq_true, free_option, ih,
          List.forall_mem_cons]
  rw [Command.body, free_append_balanced command.name.solid.balanced, free_key, Bool.true_and,
    hoptions]

/-- The periods of a command are those of its values. -/
theorem count_body (command : Command) :
    command.body.count '.' =
      ((command.options.map fun o => o.2.operand).map CicsOperand.periods).sum := by
  have hkey (key : Key) : key.text.count '.' = 0 := count_key key.all
  have hgap (gap : Gap) : gap.text.count '.' = 0 :=
    List.count_eq_zero.2 fun hmem => by
      rcases gap.blank _ hmem with h | h <;> exact absurd h (by decide)
  have hoption (option : CommandOption) :
      option.text.count '.' = option.operand.periods := by
    cases option with
    | bare keyword =>
        rw [CommandOption.operand, bareKeyword, CicsOperand.periods, count_upper]
        rfl
    | parenthesized keyword gap value =>
        rw [CommandOption.operand, valued, CicsOperand.periods, count_upper, count_strip rfl,
          CommandOption.text, Value.group]
        simp [hkey, hgap]
    | equals keyword value =>
        rw [CommandOption.operand, valued, CicsOperand.periods, count_upper, CommandOption.text]
        simp [hkey]
  have hoptions (options : List ({gap : Gap // gap.text ≠ []} × CommandOption)) :
      (optionsText options).count '.' =
        ((options.map fun o => o.2.operand).map CicsOperand.periods).sum := by
    induction options with
    | nil => rfl
    | cons o options ih =>
        rw [optionsText] at ih ⊢
        rw [List.flatMap_cons, List.count_append, List.count_append, ih, hgap, hoption]
        simp
  rw [Command.body, List.count_append, List.count_append, hkey, hgap, hoptions]
  simp

/-! ### The operands of a statement -/

theorem keyRun_append (key : Key) {t : Text} (h : ∀ c ∈ t.head?, isKeyChar c = false) :
    keyRun (key.text ++ t) = some (key.text, t) := by
  obtain ⟨c, rest, htext, hc⟩ := key.first
  have hrest : ∀ d ∈ rest, isKeyChar d = true := fun d hd =>
    key.all d (by rw [htext]; exact List.mem_cons_of_mem c hd)
  have htake : t.takeWhile isKeyChar = [] ∧ t.dropWhile isKeyChar = t := by
    cases t with
    | nil => exact ⟨rfl, rfl⟩
    | cons d t => simp [h d rfl]
  rw [htext, List.cons_append, keyRun, if_pos hc, List.takeWhile_append_of_pos hrest,
    List.dropWhile_append_of_pos hrest, htake.1, htake.2, List.append_nil]

theorem parsePart_bare (key : Key) : parsePart key.text = bareKeyword key.text := by
  have hrun := keyRun_append key (t := []) fun c hc => by cases hc
  rw [List.append_nil] at hrun
  rw [parsePart, hrun]

theorem parsePart_equals (key : Key) (value : Word) :
    parsePart (key.text ++ '=' :: value.text) = valued key.text value.text := by
  have hrun := keyRun_append key (t := '=' :: value.text) fun c hc => Option.some.inj hc ▸ rfl
  have hline : value.text.takeWhile (· ≠ '\n') = value.text :=
    List.takeWhile_eq_self_iff.2 fun c hc => by
      simpa using fun heq : c = '\n' => value.oneLine (heq ▸ hc)
  have hstrip : strip value.text = value.text :=
    strip_of_ends (isSpace_head value.nested) (isSpace_getLast value.nested fun _ hc => hc)
  rw [parsePart, hrun]
  simp only [hline, hstrip]

theorem takeWhile_closing {front : Text} (h : ')' ∉ front) (back : Text) :
    (front ++ ')' :: back).takeWhile (· ≠ ')') = front := by
  rw [List.takeWhile_append_of_pos fun c hc => by
    simpa using fun heq : c = ')' => h (heq ▸ hc)]
  simp

/-- **A value in parentheses is read up to the first parenthesis that closes.** -/
theorem parsePart_parenthesized (key : Key) (value : Value) :
    parsePart (key.text ++ value.group) = valued key.text (strip value.text) ↔
      ')' ∉ value.text := by
  have hrun := keyRun_append key (t := value.group) fun c hc => Option.some.inj hc ▸ rfl
  rw [Value.group] at hrun
  rw [Value.group, parsePart, hrun]
  simp only [if_pos (List.mem_append_right value.text (List.mem_singleton_self ')'))]
  constructor
  · intro heq hmem
    obtain ⟨front, back, htext, hfront⟩ := List.eq_append_cons_of_mem hmem
    rw [htext, List.append_assoc, List.cons_append, takeWhile_closing hfront] at heq
    have hink := congrArg (fun operand => ink operand.value) heq
    simp only [valued, ink_strip, ink_append] at hink
    have hpos : 0 < ink (')' :: back) := ink_pos List.mem_cons_self rfl
    omega
  · intro hfree
    rw [takeWhile_closing hfree]

theorem Laid.forall_solid (h : Laid parts t) : ∀ part ∈ parts, Solid part := by
  induction h with
  | nil => exact fun part hpart => by cases hpart
  | blank hc h ih => exact ih
  | solid hpart hend h ih =>
      intro part hmem
      rcases List.mem_cons.1 hmem with rfl | hmem
      · exact hpart
      · exact ih part hmem

/-- **The operands of a statement are those of its parts.** -/
theorem parseOperands_of_laid (name : Key) (h : Laid parts t)
    (hend : ∀ c ∈ t.head?, c = ' ' ∨ c = '\n') :
    parseOperands (name.text ++ t) = parts.map parsePart := by
  have hname : ∀ c ∈ name.text, (!endsName c) = true := fun c hc => by
    rw [Bool.not_eq_true']
    by_contra hends
    have hkey := name.all c hc
    simp only [endsName, Bool.not_eq_false, Bool.or_eq_true, decide_eq_true_eq] at hends
    rcases hends with ((rfl | rfl) | rfl) | rfl <;> exact absurd hkey (by decide)
  have htail : t.dropWhile (fun c => !endsName c) = t := by
    cases t with
    | nil => rfl
    | cons c t => rcases hend c rfl with rfl | rfl <;> rfl
  rw [parseOperands, List.dropWhile_append_of_pos hname, htail, h.strip.words,
    ← List.filterMap_eq_map]
  refine List.filterMap_congr fun part hpart => ?_
  have hsolid := h.forall_solid part hpart
  simp only [hsolid.strip, if_neg hsolid.ne, Function.comp_apply]

/-! ### The statement of a command -/

theorem splitOn_body (command : Command) {line : Text} {lines : List Text}
    (h : (optionsText command.options ++ command.ending.text).splitOn '\n' = line :: lines) :
    command.body.splitOn '\n' = (command.name.text ++ line) :: lines := by
  rw [Command.body, splitOn_append_of_notMem command.name.solid.oneLine, h]
  rfl

theorem joinContinuationLines_body (command : Command) {line : Text} {lines : List Text}
    (h : (optionsText command.options ++ command.ending.text).splitOn '\n' = line :: lines) :
    joinContinuationLines command.body = joinFrom [command.name.text ++ rstrip line] lines := by
  have hstrip : strip (command.name.text ++ line) = command.name.text ++ rstrip line := by
    rw [strip_eq_rstrip, command.name.solid.rstrip_append]
    intro c hc
    obtain ⟨d, rest, htext⟩ := List.exists_cons_of_ne_nil command.name.solid.ne
    rw [htext] at hc
    obtain rfl := Option.some.inj hc
    exact isSpace_head command.name.solid.nested _ (by rw [htext]; rfl)
  have hne : command.name.text ++ rstrip line ≠ [] := by simp [command.name.solid.ne]
  rw [joinContinuationLines, splitOn_body command h, joinFrom, hstrip, if_neg hne,
    if_neg (by simp)]
  rfl

/-- **Without periods outside, the statements are those of the lines.** -/
theorem splitStatements_text (command : Command)
    (h : NestedText.free isPeriod outer command.body = true) :
    splitStatements command.text = joinContinuationLines command.body := by
  have hneutral : ∀ c, isPeriod c = true → Neutral c := fun c hc => by
    rw [of_decide_eq_true hc]
    decide
  have hbalanced := of_decide_eq_true (laid_body command).balanced
  rw [splitStatements, Command.text]
  split
  · rw [cut_append_cons hneutral hbalanced rfl, cut_of_free h]
    simp [cut, joinContinuationLines, joinFrom, strip, lstrip, rstrip]
  · rw [List.append_nil, cut_of_free h]
    simp

theorem joinLines_append (front line : Text) (lines : List Text) :
    joinLines ((front ++ line) :: lines) = front ++ joinLines (line :: lines) := by
  cases lines with
  | nil => simp [joinLines]
  | cons line' lines => simp [joinLines, List.intercalate_cons_cons]

/-- **The operands of a command that stays one statement are those of its parts.** -/
theorem exists_statement (command : Command) (h : OneCommand command) :
    ∃ statement, joinContinuationLines command.body = [statement] ∧
      parseOperands statement = (command.options.flatMap fun o => o.2.parts).map parsePart := by
  obtain ⟨hlaid, hend⟩ := laid_options command.options command.ending
  obtain ⟨line, lines, hsplit, ⟨first, others, hfirst, hothers, hparts⟩, hhead⟩ := hlaid.lines
  rw [OneCommand, splitOn_body command hsplit, List.tail_cons] at h
  obtain ⟨kept, hkept, hflatten⟩ := laid_kept hothers
  have hrest := laid_intercalate (Or.inr rfl) hfirst.rstrip hkept
  rw [hflatten, hparts] at hrest
  refine ⟨command.name.text ++
    joinLines (rstrip line :: (lines.map strip).filter (· ≠ [])), ?_, ?_⟩
  · rw [joinContinuationLines_body command hsplit,
      joinFrom_of_none (by simp) h, List.singleton_append,
      joinLines_append]
  · refine parseOperands_of_laid command.name hrest fun c hc => ?_
    -- what follows the name is a line break, or the blank that followed it before
    cases hline : rstrip line with
    | nil =>
        rw [hline] at hc
        cases hlines : (lines.map strip).filter (· ≠ []) with
        | nil => rw [hlines] at hc; cases hc
        | cons line' lines' =>
            rw [hlines, joinLines, List.intercalate_cons_cons] at hc
            exact Or.inr (Option.some.inj hc).symm
    | cons d rest =>
        have hcons := joinLines_append [d] rest ((lines.map strip).filter (· ≠ []))
        rw [List.singleton_append] at hcons
        rw [hline, hcons] at hc
        obtain rfl := Option.some.inj hc
        exact hend _ (hhead _ (mem_head?_of_rstrip (by rw [hline]; rfl)))

/-- An option is one part, and its value is read to its end. -/
def WholeValue : CommandOption → Prop
  | .parenthesized _ gap value => gap.text = [] ∧ ')' ∉ value.text
  | _ => True

theorem plain_iff (option : CommandOption) :
    Plain option ↔ WithoutPeriods option ∧ WholeValue option := by
  cases option <;> simp [Plain, WithoutPeriods, WholeValue]

theorem length_parts_pos (option : CommandOption) : 1 ≤ option.parts.length := by
  cases option with
  | bare keyword => exact le_rfl
  | parenthesized keyword gap value =>
      rw [CommandOption.parts]
      split
      · exact le_rfl
      · exact Nat.le_succ 1
  | equals keyword value => exact le_rfl

theorem length_le_length_parts (options : List ({gap : Gap // gap.text ≠ []} × CommandOption)) :
    options.length ≤ (options.flatMap fun o => o.2.parts).length := by
  induction options with
  | nil => exact le_rfl
  | cons o options ih =>
      have := length_parts_pos o.2
      rw [List.flatMap_cons, List.length_append, List.length_cons]
      omega

/-- **The parts are the options exactly when every option is one part with its whole value.** -/
theorem parts_iff (options : List ({gap : Gap // gap.text ≠ []} × CommandOption)) :
    (options.flatMap fun o => o.2.parts).map parsePart = options.map (fun o => o.2.operand) ↔
      ∀ o ∈ options, WholeValue o.2 := by
  induction options with
  | nil => simp
  | cons o options ih =>
      rw [List.flatMap_cons, List.map_append, List.map_cons, List.forall_mem_cons, ← ih]
      obtain ⟨gap, option⟩ := o
      cases option with
      | bare keyword =>
          simp [CommandOption.parts, CommandOption.operand, parsePart_bare, WholeValue]
      | equals keyword value =>
          simp [CommandOption.parts, CommandOption.operand, parsePart_equals, WholeValue]
      | parenthesized keyword between value =>
          by_cases hgap : between.text = []
          · simp [CommandOption.parts, CommandOption.operand, WholeValue, hgap,
              parsePart_parenthesized]
          · -- two parts are one too many
            have hlength := length_le_length_parts options
            refine iff_of_false (fun heq => ?_) fun hand => hgap hand.1.1
            have hparts : (CommandOption.parenthesized keyword between value).parts =
                [keyword.text, value.group] := if_neg hgap
            have hcount := congrArg List.length heq
            rw [hparts] at hcount
            simp only [List.length_append, List.length_map, List.length_cons,
              List.length_nil] at hcount
            omega

/-- A command that is read faithfully has no period outside. -/
theorem free_of_readFaithfully {command : Command} (h : ReadFaithfully command) :
    NestedText.free isPeriod outer command.body = true := by
  obtain ⟨statement, hstatement, hoperands⟩ := h
  by_contra hcut
  have hlength := two_le_length_cut (Bool.eq_false_of_not_eq_true hcut) []
  have hneutral : ∀ c, isPeriod c = true → Neutral c := fun c hc => by
    rw [of_decide_eq_true hc]
    decide
  have hbalanced := of_decide_eq_true (laid_body command).balanced
  have hcount := count_statement hstatement
  have hbody : statement.count '.' < command.body.count '.' := by
    rw [Command.text] at hcount
    split at hcount
    · rw [cut_append_cons hneutral hbalanced rfl, List.length_append, List.count_append] at hcount
      simp only [cut, List.length_singleton, List.count_singleton_self] at hcount
      omega
    · rw [List.append_nil] at hcount
      omega
  have hle := periods_parseOperands_le statement
  rw [hoperands, ← count_body] at hle
  omega

/-- **The operands read are the options written** exactly when every option is plain and no line of
the command but the first begins as a command. -/
theorem readFaithfully_iff (command : Command) :
    ReadFaithfully command ↔ (∀ o ∈ command.options, Plain o.2) ∧ OneCommand command := by
  constructor
  · intro h
    have hfree := free_of_readFaithfully h
    obtain ⟨statement, hstatement, hoperands⟩ := h
    rw [splitStatements_text command hfree] at hstatement
    have hone : OneCommand command := by
      obtain ⟨hlaid, hend⟩ := laid_options command.options command.ending
      obtain ⟨line, lines, hsplit, ⟨first, others, hfirst, hothers, -⟩, hhead⟩ := hlaid.lines
      have hname : Laid (command.name.text :: first) (command.name.text ++ rstrip line) :=
        Laid.solid command.name.solid
          (fun c hc => hend c (hhead c (mem_head?_of_rstrip hc))) hfirst.rstrip
      rw [OneCommand, splitOn_body command hsplit]
      by_contra hsome
      have hlength := two_le_length_joinFrom (by simp)
        (List.Forall₂.cons hname List.Forall₂.nil) hothers hsome
      rw [← joinContinuationLines_body command hsplit, hstatement, List.length_singleton] at hlength
      omega
    obtain ⟨statement', hstatement', hoperands'⟩ := exists_statement command hone
    obtain rfl := List.singleton_inj.1 (hstatement.symm.trans hstatement')
    have hwhole := (parts_iff command.options).1 (hoperands'.symm.trans hoperands)
    exact ⟨fun o ho => (plain_iff o.2).2 ⟨(free_body command).1 hfree o ho, hwhole o ho⟩, hone⟩
  · rintro ⟨hplain, hone⟩
    have hfree := (free_body command).2 fun o ho => ((plain_iff o.2).1 (hplain o ho)).1
    obtain ⟨statement, hstatement, hoperands⟩ := exists_statement command hone
    refine ⟨statement, (splitStatements_text command hfree).trans hstatement, ?_⟩
    rw [hoperands, (parts_iff command.options).2 fun o ho => ((plain_iff o.2).1 (hplain o ho)).2]

/-- `READ FILE(F(1))` -/
def subscripted : Command where
  name := ⟨"READ".toList, ⟨'R', "EAD".toList, rfl, rfl⟩, by decide⟩
  options := [(⟨⟨" ".toList, by decide⟩, by decide⟩,
    .parenthesized ⟨"FILE".toList, ⟨'F', "ILE".toList, rfl, rfl⟩, by decide⟩ ⟨[], by decide⟩
      ⟨"F(1)".toList, Nested.plain trivial (by decide)
        (@Nested.group _ ['1'] [] (Nested.plain trivial (by decide) Nested.nil) Nested.nil),
        by decide⟩)]
  ending := ⟨[], by decide⟩
  period := false

/-- `READ INTO (A) SET(P)`, with a line break before `SET` -/
def wrapped : Command where
  name := ⟨"READ".toList, ⟨'R', "EAD".toList, rfl, rfl⟩, by decide⟩
  options := [(⟨⟨" ".toList, by decide⟩, by decide⟩,
      .parenthesized ⟨"INTO".toList, ⟨'I', "NTO".toList, rfl, rfl⟩, by decide⟩
        ⟨" ".toList, by decide⟩
        ⟨"A".toList, Nested.plain trivial (by decide) Nested.nil, by decide⟩),
    (⟨⟨"\n".toList, by decide⟩, by decide⟩,
      .parenthesized ⟨"SET".toList, ⟨'S', "ET".toList, rfl, rfl⟩, by decide⟩ ⟨[], by decide⟩
        ⟨"P".toList, Nested.plain trivial (by decide) Nested.nil, by decide⟩)]
  ending := ⟨[], by decide⟩
  period := false

/-- A subscript ends a value; a blank before a parenthesis makes two keywords, and a line that
begins with `SET` a statement. -/
theorem not_readFaithfully :
    (splitStatements subscripted.text = ["READ FILE(F(1))".toList] ∧
      parseOperands "READ FILE(F(1))".toList = [valued "FILE".toList "F(1".toList] ∧
      ¬ReadFaithfully subscripted) ∧
    splitStatements wrapped.text = ["READ INTO (A)".toList, "SET(P)".toList] ∧
    parseOperands "READ INTO (A)".toList = [bareKeyword "INTO".toList, bareKeyword "(A)".toList] ∧
    ¬ReadFaithfully wrapped := by
  have hsubscripted : splitStatements subscripted.text = ["READ FILE(F(1))".toList] := by
    decide +kernel
  have hwrapped : splitStatements wrapped.text = ["READ INTO (A)".toList, "SET(P)".toList] := by
    decide +kernel
  refine ⟨⟨hsubscripted, by decide +kernel, ?_⟩, hwrapped, by decide +kernel, ?_⟩
  · rintro ⟨statement, hstatement, hoperands⟩
    rw [hsubscripted, List.singleton_inj] at hstatement
    subst hstatement
    revert hoperands
    decide +kernel
  · rintro ⟨statement, hstatement, -⟩
    rw [hwrapped] at hstatement
    cases hstatement

end CobolJava.Cics
