import QueueWatch.CommandLine

/-!
# The command line

The program takes its settings from the environment. If they are no settings, it says why and
ends. Otherwise it reads the tables at every tick, polls them, and writes the journal to the
standard error output, until it is stopped.
-/

namespace QueueWatch

/-- The disk with one table as it is now. -/
def readTable (disk : Disk) (path : String) : IO Disk := do
  try
    let contents ← IO.FS.readBinFile path
    return disk.write path contents.toList
  catch _ => return disk

/-- Writes records to the standard error output. -/
def writeRecords (records : List Record) : IO Unit :=
  records.forM fun r => IO.eprintln ("[" ++ r.level.name ++ " " ++ r.subject ++ "] " ++ r.text)

/-- Polls at every tick, without end. -/
partial def serve (settings : Settings) (disk : Disk) (service : Service) : IO Unit := do
  let disk ← Service.tables.foldlM (fun d name => readTable d (settings.tablePath name)) disk
  let (service, records) := service.tick disk
  writeRecords records
  IO.sleep (min settings.interval 0xFFFFFFFF).toUInt32
  serve settings disk service

/-- Runs the program in its environment. -/
def runProgram : IO UInt32 := do
  let names := [procNetVariable, socketsVariable, intervalVariable]
  let values ← names.mapM fun name => IO.getEnv name
  let lookup := fun name => ((names.zip values).lookup name).join.map Text.Utf8.encode
  match setUp lookup with
  | .error exit =>
      IO.print exit.output
      IO.eprint exit.errorOutput
      return exit.code
  | .ok (settings, service, records) =>
      writeRecords records
      serve settings .empty service
      return 0

end QueueWatch

def main : IO UInt32 :=
  QueueWatch.runProgram
