import LineCalculator.Expression.Scanner
import LineCalculator.Request

/- What a line asks for, judged by the bytes of its text: equals signs are counted, words and integers told
   byte by byte. Only the line itself is parted by characters. -/
namespace LineCalculator.Bytewise

def isWord (text : List Char) : Bool :=
  let bytes := Utf8.encode text
  !bytes.isEmpty && bytes.all Scanner.isLetter

def magnitude? (bytes : List UInt8) : Option Nat := (Utf8.decode? bytes).bind Decimal.readNat?

def readNat? (bytes : List UInt8) : Option Nat :=
  if bytes.isEmpty || !bytes.all Scanner.isDigit then none else magnitude? bytes

def splitSign (bytes : List UInt8) : Bool × List UInt8 :=
  if bytes.head? = some '-'.toUInt8 then (true, bytes.tail)
  else if bytes.head? = some '+'.toUInt8 then (false, bytes.tail)
  else (false, bytes)

def readInt? (text : List Char) : Option Int :=
  let (negative, digits) := splitSign (Utf8.encode text)
  (readNat? digits).map fun n : Nat => if negative then -(n : Int) else n

def parts? (line : List Char) : Option (List Char × List Char) :=
  match line.dropWhile (· ≠ '=') with
  | [] => none
  | _ :: right => some (line.takeWhile (· ≠ '='), right)

def rightSide? (text : List Char) : Option RightSide :=
  match readInt? text with
  | some value => some (.integer value)
  | none => if isWord text then some (.copyOf text) else none

def request (line : List Char) : Except Fault Request :=
  match (Utf8.encode line).count '='.toUInt8 with
  | 0 => .ok (.expression line)
  | 1 =>
    match parts? line with
    | none => .error .invalidAssignment
    | some (target, right) =>
      if isWord target then
        match rightSide? right with
        | some right => .ok (.assignment target right)
        | none => .error .invalidAssignment
      else .error .invalidIdentifier
  | _ => .error .invalidAssignment

end LineCalculator.Bytewise
