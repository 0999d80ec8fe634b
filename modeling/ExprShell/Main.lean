import ExprShell.Launch

/-!
# The command line

Reads the environment, files and the input, and writes what the shell says.  With a terminal the
shell prompts line by line; otherwise the whole input is taken at once.
-/

namespace ExprShell
open Text

/-- the system's code for a name that is too long -/
def nameTooLong : UInt32 := 36

/-- what is found at a path of the file system; an error that names no path comes from reading what
could be opened -/
def found (path : String) : IO Found := do
  try
    return .file (← IO.FS.readFile path)
  catch
    | .noFileOrDirectory .. => return .missing
    | .inappropriateType (some _) .. => return .blocked
    | .invalidArgument _ code _ => return if code = nameTooLong then .tooLong else .invalid
    | _ => return .directory

partial def allBytes (input : IO.FS.Stream) (acc : ByteArray) : IO ByteArray := do
  let chunk ← input.read 65536
  if chunk.isEmpty then return acc else allBytes input (acc ++ chunk)

def say (out err : String) : IO Unit := do
  IO.eprint err
  IO.print out
  (← IO.getStdout).flush

def conclude (e : Ending) : IO UInt32 := do
  say e.out e.err
  return e.code

partial def promptLoop (input : IO.FS.Stream) (prompt : String) (sh : Shell) (h : History) :
    IO History := do
  say prompt ""
  match RawLine.split (bytes (← input.getLine)) with
  | l :: _ =>
    let (r, sh, h) := sh.recorded Session.ample h (History.entry l)
    say r.out (Transcript.errWithLog ⟨[r], sh, none⟩)
    if r.quit then return h else promptLoop input prompt sh h
  | [] =>
    say "\n" ""
    return h

def interactive (input : IO.FS.Stream) (c : Config) (sh : Shell) : IO UInt32 := do
  say (Shell.line Shell.banner) ""
  let h := History.ofText (match ← found c.historyFile with
    | .file s => s
    | _ => "")
  let usable := Shell.isPrompt c.prompt
  let h ← if usable then promptLoop input c.prompt sh h else pure h
  try IO.FS.writeFile c.historyFile h.text catch _ => pure ()
  if usable then return 0
  say "" (Shell.line LoopError.invalidPrompt.message)
  return 1

end ExprShell

open ExprShell in
/-- runs the shell on the arguments of a command line -/
def main (args : List String) : IO UInt32 := do
  let home := (← IO.getEnv "HOME").getD ""
  match Flags.read args with
  | .error e => conclude (Launch.refuse 2 e.text [])
  | .ok f =>
    let file ← found (Launch.settingsPath home f).1
    match Launch.settings home f fun _ => file with
    | .error (code, message) => conclude (Launch.refuse code message [])
    | .ok c =>
      let sh := Shell.new c true
      let input ← IO.getStdin
      if f.line ≠ "" then conclude (Launch.runLine sh Session.ample f.line [])
      else if ← input.isTty then interactive input c sh
      else
        let text ← allBytes input ByteArray.empty
        conclude (Launch.finish (sh.runLines Session.ample (Text.RawLine.split text.toList)) [])
