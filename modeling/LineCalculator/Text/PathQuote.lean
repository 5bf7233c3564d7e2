import LineCalculator.Text.Hidden

/- File names as they stand in a complaint: between double quotes, on one line, with every character
   that would not show written as an escape. -/
namespace LineCalculator.PathQuote

def escape (c : Char) : List Char :=
  if c.toNat = 0 then ['\\', '0']
  else if c = '\t' then ['\\', 't']
  else if c = '\n' then ['\\', 'n']
  else if c = '\r' then ['\\', 'r']
  else if c = '\\' ∨ c = '"' then ['\\', c]
  else if Text.isHidden c then ['\\', 'u', '\x7b'] ++ Nat.toDigits 16 c.toNat ++ ['\x7d']
  else [c]

def quote (path : List Char) : List Char := '"' :: (path.flatMap escape ++ ['"'])

end LineCalculator.PathQuote
