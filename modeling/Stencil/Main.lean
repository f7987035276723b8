import Stencil.Command.Run

/-!
# The command line

Reads files, runs the command and prints what it came to. Everything it decides is in
`Stencil.Command`.
-/
namespace Stencil

/-- The text of a file, or why it cannot be read. -/
def readText (file : String) : IO (Except String String) := do
  try
    return .ok (← IO.FS.readFile file)
  catch
    | .noFileOrDirectory .. => return .error "No such file or directory (os error 2)"
    | e => return .error (toString e)

def usageText : String :=
  "usage: stencil classify|compile|expand FILE [--env FILE]\n" ++
  "       expand: [--template NAME] [--method NAME] [--returns TYPE]\n" ++
  "               [--param NAME:TYPE]... [--arg NAME=VALUE]..."

def diagnosticLine (d : Diagnostic) : String :=
  s!"{d.complaint.code} at {d.span.widened.text}: {d.message}"

end Stencil

def main (args : List String) : IO UInt32 := do
  let outcome ← Stencil.Command.runArguments Stencil.readText args
  IO.print outcome.output
  outcome.diagnostics.forM fun d => IO.eprintln (Stencil.diagnosticLine d)
  outcome.errors.forM fun e => IO.eprintln s!"Error: {e}"
  outcome.defect.forM fun d => IO.eprintln d.message
  if outcome.exit = 2 then IO.eprintln Stencil.usageText
  return outcome.exit.toUInt32
