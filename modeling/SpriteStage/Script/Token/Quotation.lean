import SpriteStage.Script.Token.Basic
import SpriteStage.Text.Blank
import SpriteStage.Toml.Literal

/-!
Quotations in scripts: texts and characters between marks, texts without escapes, and templates,
which hold parts of code.
-/

namespace SpriteStage.Script.Token

/-- Where a reader stands within a quotation. -/
inductive Place where
  | plain
  | escaped
  | code (left value : Nat)

def escape? : Char → Option Char
  | 't' => some '\t'
  | 'n' => some '\n'
  | 'r' => some '\r'
  | '\\' => some '\\'
  | _ => none

def codeLength? : Char → Option Nat
  | 'x' => some 2
  | 'u' => some 4
  | 'U' => some 8
  | _ => none

/-- A quotation up to its closing mark. A mark written twice stands for itself. A backslash at the end
of a line continues a text on the next line, where blanks up to the column of the opening mark are
passed over; `skips` counts the columns that are left of these. -/
def quotation? (mark : Char) (column : Nat) :
    Place → (skips : Nat) → List Char → List Char → Option (List Char × List Char)
  | _, _, _, [] => none
  | .escaped, skips, out, c :: rest =>
    match escape? c, codeLength? c with
    | some d, _ => quotation? mark column .plain (skips - 1) (d :: out) rest
    | none, some length => quotation? mark column (.code length 0) (skips - 1) out rest
    | none, none =>
      if c = mark then quotation? mark column .plain (skips - 1) (c :: out) rest
      else if c = '\r' ∧ rest.head? = some '\n' then
        quotation? mark column .escaped (skips - 1) out rest
      else if c = '\n' ∧ mark = '"' then quotation? mark column .plain column out rest
      else none
  | .code left value, skips, out, c :: rest =>
    if Toml.isHex c then
      let value := 16 * value + Toml.digit c
      if 1 < left then quotation? mark column (.code (left - 1) value) (skips - 1) out rest
      else if value.isValidChar then
        quotation? mark column .plain (skips - 1) (Char.ofNat value :: out) rest
      else none
    else none
  | .plain, skips, out, c :: rest =>
    if c = mark then
      match rest with
      | [] => some (out.reverse, [])
      | d :: more =>
        if d = mark then quotation? mark column .plain 0 (d :: out) more
        else some (out.reverse, d :: more)
    else if c = '\\' then quotation? mark column .escaped (skips - 1) out rest
    else if c = '\r' ∧ rest.head? = some '\n' then
      quotation? mark column .plain (skips - 1) out rest
    else if c = '\n' then none
    else if 0 < skips ∧ Text.isBlank c then quotation? mark column .plain (skips - 1) out rest
    else quotation? mark column .plain 0 (c :: out) rest

/-- The text of a template up to its end or to a part of code, and whether code follows. -/
def template? : List Char → List Char → Option (List Char × Bool × List Char)
  | _, [] => none
  | out, '\x60' :: '\x60' :: rest => template? ('\x60' :: out) rest
  | out, '\x60' :: rest => some (out.reverse, false, rest)
  | out, '$' :: '\x7b' :: rest => some (out.reverse, true, '\x7b' :: rest)
  | out, '\r' :: '\n' :: rest => template? ('\n' :: out) rest
  | out, c :: rest => template? (c :: out) rest

/-- A template starts on the next line if nothing stands between its mark and the end of the line. -/
def templateBody : List Char → List Char
  | '\r' :: '\n' :: rest | '\r' :: rest | '\n' :: rest => rest
  | cs => cs

/-- A text without escapes, up to a mark that as many number signs follow as stood in front. -/
def raw? (signs : Nat) : List Char → List Char → Option (List Char × List Char)
  | _, [] => none
  | out, c :: rest =>
    if c = '"' ∧ rest.take signs = List.replicate signs '#' then
      some (out.reverse, rest.drop signs)
    else raw? signs (c :: out) rest

end SpriteStage.Script.Token
