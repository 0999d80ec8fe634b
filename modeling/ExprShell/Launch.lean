import ExprShell.Config.Decode
import ExprShell.Flags
import ExprShell.Folder
import ExprShell.Shell.Loop

/-!
# Starting a shell

From the arguments of a command line to the end of the shell: flags, settings from a file, settings
that flags replace, and then one line, the lines of the input, or a prompt.  The exit code is two
for flags and settings of flags that cannot be used, one for a settings file that cannot be used
or a run that failed, and zero otherwise.

* `Launch.settings`   the settings under flags;
* `Launch.run`        all of it.
-/

namespace ExprShell

inductive LoadError
  | unopened (path reason : String)
  /-- a directory cannot be read -/
  | unread (path : String)
  | undecoded (path : String) (e : Config.DecodeError)
  deriving DecidableEq, Repr

def LoadError.message : LoadError → String
  | .unopened p r => "config: open " ++ p ++ ": open " ++ p ++ ": " ++ r
  | .unread p => "config: parse " ++ p ++ ": yaml: input error: read " ++ p ++ ": is a directory"
  | .undecoded p e => "config: parse " ++ p ++ ": " ++ e.message

structure Ending where
  code : UInt32
  out : String
  err : String
  folder : Folder

namespace Launch

def refuse (code : UInt32) (err : String) (d : Folder) : Ending := ⟨code, "", err, d⟩

/-- settings from what is found at a path; if they are optional nothing need be there -/
def load (home path : String) (optional : Bool) (found : Found) : Except LoadError Config :=
  match found with
  | .missing =>
    if optional then .ok (Config.default home)
    else .error (.unopened path "no such file or directory")
  | .blocked => .error (.unopened path "not a directory")
  | .tooLong => .error (.unopened path "file name too long")
  | .invalid => .error (.unopened path "invalid argument")
  | .directory => .error (.unread path)
  | .file content =>
    match Config.decode home content with
    | (c, none) => .ok c
    | (_, some e) => .error (.undecoded path e)

/-- the path of the settings file, and whether the file is optional -/
def settingsPath (home : String) (f : Flags) : String × Bool :=
  if f.config = "" then (Config.defaultPath home, true) else (f.config, false)

/-- settings with those that flags replace; a tree can be asked for but not declined -/
def override (c : Config) (f : Flags) : Config :=
  { c with
    scoping := if f.scoping = "" then c.scoping else f.scoping
    logLevel := if f.logLevel = "" then c.logLevel else f.logLevel
    showTree := c.showTree || f.showTree }

/-- the settings under flags, or the exit code and the message -/
def settings (home : String) (f : Flags) (find : String → Found) :
    Except (UInt32 × String) Config :=
  let (path, optional) := settingsPath home f
  match load home path optional (find path) with
  | .error e => .error (1, Shell.line e.message)
  | .ok c =>
    let c := override c f
    match c.fault? with
    | some e => .error (2, Shell.line e.message)
    | none => .ok c

def finish (t : Transcript) (d : Folder) : Ending :=
  match t.error with
  | some e => ⟨1, t.out, t.errWithLog ++ Shell.line e.message, d⟩
  | none => ⟨0, t.out, t.errWithLog, d⟩

/-- runs one line; the exit code tells whether it failed -/
def runLine (sh : Shell) (fuel : Nat) (line : String) (d : Folder) : Ending :=
  let (r, sh) := sh.handle fuel line.toList
  let t : Transcript := ⟨[r], sh, none⟩
  ⟨if 0 < sh.failures then 1 else 0, t.out, t.errWithLog, d⟩

/-- runs a shell in a working directory; without an input there is a prompt and nothing to read -/
def run (home : String) (fuel : Nat) (args : List String) (input : Option String) (d : Folder) :
    Ending :=
  match Flags.read args with
  | .error e => refuse 2 e.text d
  | .ok f =>
    match settings home f d.find with
    | .error (code, message) => refuse code message d
    | .ok c =>
      let sh := Shell.new c true
      if f.line ≠ "" then runLine sh fuel f.line d
      else match input with
        | some text => finish (sh.runText fuel text) d
        | none =>
          let (t, d) := sh.interactIn fuel c d ""
          finish t d

end Launch

end ExprShell
