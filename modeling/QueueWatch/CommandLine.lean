import QueueWatch.Service

/-!
# What the program answers at once

The program either ends at once, because its environment holds no settings, or it serves until it is
stopped. This module says which, and what it writes in the first case.
-/

namespace QueueWatch

/-- How the program ends: its exit code, and what it writes to the two outputs. -/
structure Exit where
  code : UInt32
  output : String
  errorOutput : String
  deriving DecidableEq, Repr

/-- The end of the program because of bad settings. -/
def SettingsError.exit (e : SettingsError) : Exit :=
  ⟨1, "", "Error: " ++ e.describe ++ "\n"⟩

/-- The end of the program because a socket cannot be watched. -/
def UnsupportedAddress.exit (e : UnsupportedAddress) : Exit :=
  ⟨1, "", "Error: UnsupportedAddressFamily(" ++ e.address.render ++ ")\n"⟩

/-- The service that an environment sets up, with its settings and its first records, or the end
of the program. -/
def setUp (lookup : String → Option (List UInt8)) :
    Except Exit (Settings × Service × List Record) :=
  match Settings.readBytes lookup with
  | .error e => .error e.exit
  | .ok settings =>
      match Service.start settings with
      | .error e => .error e.exit
      | .ok (service, records) => .ok (settings, service, records)

end QueueWatch
