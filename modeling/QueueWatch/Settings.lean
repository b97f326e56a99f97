import QueueWatch.File.Path
import QueueWatch.Socket.Spec
import QueueWatch.Text.Utf8

/-!
# Settings

The service is set up by three variables of its environment: where the tables are, which sockets
are watched, and how often the tables are read. `Settings.read` reads them through a look-up
function. A variable that is not set, or that is not UTF-8, has its standard value; so has the
place of the tables if it is blank. The sockets are a list with commas, in which blank entries do
not count.

The sockets are judged before the interval, and of several bad sockets the first one is reported.
-/

namespace QueueWatch

def procNetVariable : String := "NETBUF_PROC_NET"

def socketsVariable : String := "NETBUF_SOCKETS"

def intervalVariable : String := "NETBUF_POLL_INTERVAL_MS"

/-- Where the tables are, which sockets are watched, and the time between two polls in
milliseconds. -/
structure Settings where
  procNet : String
  sockets : List SocketSpec
  interval : UInt64
  deriving DecidableEq, Repr

/-- Why the environment holds no settings. -/
inductive SettingsError where
  | invalidSocket (cause : SpecError)
  | invalidInterval (value : String) (cause : UnsignedError)
  | zeroInterval
  deriving DecidableEq, Repr

namespace SettingsError

def message : SettingsError → String
  | .invalidSocket cause => "invalid `" ++ socketsVariable ++ "` entry: " ++ cause.message
  | .invalidInterval value cause =>
      "invalid `" ++ intervalVariable ++ "` value `" ++ value ++ "`: " ++ cause.message
  | .zeroInterval => "`" ++ intervalVariable ++ "` must be greater than zero"

/-- The name of the cause that keeps a text from being a number. -/
def causeName : UnsignedError → String
  | .empty => "Empty"
  | .invalidDigit => "InvalidDigit"
  | .tooLarge => "PosOverflow"

/-- The error with its fields named and its texts quoted. -/
def describe : SettingsError → String
  | .invalidSocket cause =>
      "InvalidSocket \x7b var: " ++ Text.quote socketsVariable ++ ", source: " ++
        cause.describe ++ " \x7d"
  | .invalidInterval value cause =>
      "InvalidInterval \x7b var: " ++ Text.quote intervalVariable ++ ", value: " ++
        Text.quote value ++ ", source: ParseIntError \x7b kind: " ++ causeName cause ++
        " \x7d \x7d"
  | .zeroInterval =>
      "ZeroInterval \x7b var: " ++ Text.quote intervalVariable ++ " \x7d"

end SettingsError

namespace Settings

/-- The settings of an empty environment. -/
def standard : Settings :=
  ⟨"/proc/net", [], 1000⟩

/-- The place of the tables that a variable sets. -/
def readProcNet : Option String → String
  | none => standard.procNet
  | some value =>
      let path := Text.trim value.toList
      if path = [] then standard.procNet else String.ofList path

/-- The entries of a list with commas, without blanks around them and without blank ones. -/
def entries (value : String) : List (List Char) :=
  ((Text.pieces ',' value.toList).map Text.trim).filter fun entry => entry ≠ []

def readSockets : Option String → Except SettingsError (List SocketSpec)
  | none => .ok standard.sockets
  | some value =>
      (entries value).mapM fun entry =>
        match SocketSpec.parse (String.ofList entry) with
        | .ok spec => .ok spec
        | .error cause => .error (.invalidSocket cause)

def readInterval : Option String → Except SettingsError UInt64
  | none => .ok standard.interval
  | some value =>
      match parseUnsigned 64 (Text.trim value.toList) with
      | .error cause => .error (.invalidInterval value cause)
      | .ok 0 => .error .zeroInterval
      | .ok interval => .ok interval.toUInt64

/-- The settings in an environment, given as a look-up function. -/
def read (lookup : String → Option String) : Except SettingsError Settings := do
  let sockets ← readSockets (lookup socketsVariable)
  let interval ← readInterval (lookup intervalVariable)
  return ⟨readProcNet (lookup procNetVariable), sockets, interval⟩

/-- The settings in an environment whose values are bytes. A value that is not UTF-8 counts as not
set. -/
def readBytes (lookup : String → Option (List UInt8)) : Except SettingsError Settings :=
  read fun name => (lookup name).bind Text.Utf8.decode?

def tablePath (s : Settings) (name : String) : String :=
  joinPath s.procNet name

end Settings

end QueueWatch
