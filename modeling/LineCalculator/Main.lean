import LineCalculator.CommandLine.Program

/- The real streams and files as the host of the program. -/
namespace LineCalculator

def attempt {α : Type} (action : IO α) : IO (Option α) := do
  try return some (← action) catch _ => return none

def writeBytes (stream : IO.FS.Stream) (bytes : List UInt8) : IO Unit := do
  stream.write ⟨bytes.toArray⟩
  stream.flush

structure ByteStream where
  stream : IO.FS.Stream

def ByteStream.readPiece (source : ByteStream) : IO (List UInt8) := do
  let mut piece := []
  repeat
    let bytes := (← source.stream.read 1).toList
    piece := bytes ++ piece
    if bytes = [] ∨ bytes = [10] then break
  return piece.reverse

instance : ForIn IO ByteStream (Option (List UInt8)) where
  forIn source start step := do
    let mut now := start
    repeat
      let piece? ← attempt source.readPiece
      if piece? = some [] then break
      match ← step piece? now with
      | .done last => return last
      | .yield next => now := next
    return now

def usageText : String := "Usage: smart-calculator [--json] [--log] [evaluate|tokenize|postfix [FILE]]"

instance : Host IO ByteStream where
  input := return ⟨← IO.getStdin⟩
  open? path := do
    let handle? ← attempt (IO.FS.Handle.mk (String.ofList path) .read)
    return handle?.map fun handle => ⟨.ofHandle handle⟩
  create path := return (← attempt (IO.FS.Handle.mk (String.ofList path) .write)).isSome
  write bytes := do return (← attempt (writeBytes (← IO.getStdout) bytes)).isSome
  complain text := do writeBytes (← IO.getStderr) (Utf8.encode (text ++ ['\n']))
  usage asked := do
    let stream ← if asked then IO.getStdout else IO.getStderr
    writeBytes stream (Utf8.encode (usageText.toList ++ ['\n']))

end LineCalculator

open LineCalculator in
def main (arguments : List String) : IO UInt32 := do
  let code ← CommandLine.perform (arguments.map String.toList)
  return code.toUInt32
