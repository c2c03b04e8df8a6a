import SpriteStage.Text.Hidden

/-!
Quoted text. A character that would end the quotation or could not be seen is spelled out.
-/

namespace SpriteStage.Text

def hexDigits (n : Nat) : List Char := Nat.toDigits 16 n

def escape (mark c : Char) : List Char :=
  if c = mark ∨ c = '\\' then ['\\', c]
  else if c = '\n' then ['\\', 'n']
  else if c = '\r' then ['\\', 'r']
  else if c = '\t' then ['\\', 't']
  else if c.toNat = 0 then ['\\', '0']
  else if isHidden c then '\\' :: 'u' :: '\x7b' :: (hexDigits c.toNat ++ ['\x7d'])
  else [c]

def quote (mark : Char) (s : String) : String :=
  String.ofList (mark :: (s.toList.flatMap (escape mark) ++ [mark]))

def quoted (s : String) : String := quote '"' s

def quotedChar (c : Char) : String := quote '\x27' c.toString

theorem escape_mark (mark : Char) : escape mark mark = ['\\', mark] := by
  simp [escape]

theorem escape_ne_nil (mark c : Char) : escape mark c ≠ [] := by
  unfold escape
  repeat' split
  all_goals simp

end SpriteStage.Text
