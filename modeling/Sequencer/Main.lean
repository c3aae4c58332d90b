import Sequencer.Showcase

/-!
# The command line

Runs the worked example. The environment variable `IL_CONFIG` names a file with settings, and
`RUST_LOG` holds a log filter.
-/

namespace Sequencer.Showcase

/-- The settings file that the environment names. -/
def settingsFile : IO SettingsFile := do
  match ← IO.getEnv "IL_CONFIG" with
  | none => return .none
  | some path =>
    try
      return .content path (← IO.FS.readBinFile path)
    catch _ =>
      return .unreadable path

end Sequencer.Showcase

/-- Runs the worked example and leaves with its exit code. -/
def main : IO UInt32 := do
  let log ← IO.getEnv "RUST_LOG"
  let transcript := Sequencer.Showcase.run log (← Sequencer.Showcase.settingsFile)
  IO.print transcript.output
  IO.eprint transcript.errors
  return transcript.exit.toUInt32
