import DisplayRaster.CommandLine

/-!
# Program

The command line with real files.  What goes wrong is told on the error output.
-/

set_option autoImplicit false

open DisplayRaster

/-- The files of the machine. -/
def machineHost : CommandLine.Host IO where
  load path := do
    try return some (← IO.FS.readBinFile path) catch _ => return none
  save path data := do
    try
      IO.FS.writeBinFile path data
      return true
    catch _ => return false

/-- Run the command line. -/
def main (arguments : List String) : IO UInt32 := do
  let ending ← CommandLine.run machineHost arguments
  IO.print ending.output
  match ending.error with
  | some e => IO.eprintln e.message
  | none => pure ()
  return ending.status.toUInt32
