/-
**Figurative constants as texts.**

`parse_figurative_constant` and `figurative_to_width` of `figurative.py`: which texts are figurative
constants, and the characters that one supplies for an item of some width.

Main definitions:

* `parseFigurativeConstant` — the kind of a constant, with the pattern of `ALL`;
* `figurativeToWidth` — the characters for a width.
-/

import CobolJava.Transformation.ExpressionReader

set_option autoImplicit false

namespace CobolJava.Figurative

open Py.Chars
open Formula (FigurativeKind canonicalFiguratives quotedBy inner behindWord)

abbrev Text := List Char

/-- A text between two quotes of one kind. -/
def isQuoted (text : Text) : Bool :=
  2 ≤ text.length && (quotedBy '"' text || quotedBy '\'' text)

/-- The pattern of `ALL "x"`. -/
def allPattern (rest : Text) : Option Text :=
  if (quotedBy '"' rest && !(inner rest).isEmpty && !(inner rest).contains '"') ||
      (quotedBy '\'' rest && !(inner rest).isEmpty && !(inner rest).contains '\'') then
    some (inner rest)
  else none

/-- `parse_figurative_constant` -/
def parseFigurativeConstant (text : Text) : Option (FigurativeKind × Option Text) :=
  let stripped := strip text
  if stripped = [] then none
  else if isQuoted stripped then none
  else
    match canonicalFiguratives.lookup (upper stripped) with
    | some kind => some (kind, none)
    | none =>
        (behindWord ['A', 'L', 'L'] stripped).bind fun rest =>
          match allPattern rest with
          | some pattern => some (.all, some pattern)
          | none => (canonicalFiguratives.lookup (upper rest)).map fun kind => (kind, none)

/-- `figurative_fill_char` -/
def figurativeFillChar : FigurativeKind → Option Char
  | .spaces => some ' '
  | .quotes => some '"'
  | .lowValue => some '\x00'
  | .highValue => some 'ÿ'
  | .zero => none
  | .all => none

/-- `figurative_to_width` -/
def figurativeToWidth (kind : FigurativeKind) (fill : Option Text) (width : ℕ) : Option Text :=
  if width = 0 then none
  else if kind = .all then
    let pattern := fill.getD []
    if pattern = [] then none
    else some ((List.replicate (width / pattern.length + 1) pattern).flatten.take width)
  else if kind = .zero then some (List.replicate width '0')
  else (figurativeFillChar kind).map (List.replicate width)

end CobolJava.Figurative
