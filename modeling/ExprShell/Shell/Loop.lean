import ExprShell.Folder
import ExprShell.Shell
import ExprShell.Shell.History
import ExprShell.Text.Hidden

/-!
# Running a shell on a whole input

Lines are handled one after the other until one asks to stop.  Without a prompt, a line that is too
long ends the run with an error.  With a prompt, lines are also kept in a history, and the end of
the input ends the last line on the screen; a prompt that cannot be shown ends the run at once.
-/

namespace ExprShell
open Text

inductive LoopError
  | lineTooLong
  | invalidPrompt
  deriving DecidableEq, Repr

def LoopError.message : LoopError → String
  | .lineTooLong => "bufio.Scanner: token too long"
  | .invalidPrompt => "repl: read line: invalid prompt"

/-- what a run wrote, how it left the shell, and why it ended early if it did -/
structure Transcript where
  replies : List Reply
  shell : Shell
  error : Option LoopError

namespace Transcript

def out (t : Transcript) : String := t.replies.foldl (fun acc r => acc ++ r.out) ""

/-- what was written to the second stream, without log lines -/
def err (t : Transcript) : String := t.replies.foldl (fun acc r => acc ++ r.err) ""

/-- what was written to the second stream, log lines included -/
def errWithLog (t : Transcript) : String :=
  t.replies.foldl (fun acc r => r.log.foldl (fun acc l => acc ++ Shell.line l) acc ++ r.err) ""

def cons (r : Reply) (t : Transcript) : Transcript := { t with replies := r :: t.replies }

end Transcript

namespace Shell

def lineLimit : Nat := 65536

def runLines (sh : Shell) (fuel : Nat) : List RawLine → Transcript
  | [] => ⟨[], sh, none⟩
  | l :: ls =>
    if lineLimit ≤ l.bytes.length then ⟨[], sh, some .lineTooLong⟩
    else
      let (r, sh) := sh.handle fuel (decodeUtf8 (RawLine.dropCarriage l.bytes))
      if r.quit then ⟨[r], sh, none⟩ else (runLines sh fuel ls).cons r

def runText (sh : Shell) (fuel : Nat) (input : String) : Transcript :=
  sh.runLines fuel (RawLine.split (bytes input))

def banner : String := "Ember. Type :help for commands, Ctrl+D to exit."

def writing (s : String) : Reply := { Reply.silent with out := s }

/-- the history after a line; blank lines are not kept -/
def remember (h : History) (l : List UInt8) : History :=
  if trim (decodeUtf8 l) = [] then h else h.add l

def recorded (sh : Shell) (fuel : Nat) (h : History) (l : List UInt8) : Reply × Shell × History :=
  let (r, sh) := sh.handle fuel (decodeUtf8 l)
  (r, sh, remember h l)

def prompted (sh : Shell) (fuel : Nat) (prompt : String) (h : History) :
    List (List UInt8) → Transcript × History
  | [] => (⟨[writing (prompt ++ "\n")], sh, none⟩, h)
  | l :: ls =>
    let (r, sh, h) := sh.recorded fuel h l
    let r := { r with out := prompt ++ r.out }
    if r.quit then (⟨[r], sh, none⟩, h)
    else
      let (t, h) := prompted sh fuel prompt h ls
      (t.cons r, h)

def isPrompt (s : String) : Bool := !s.toList.any isHidden

def interact (sh : Shell) (fuel : Nat) (prompt : String) (h : History) (input : String) :
    Transcript × History :=
  let start := writing (line banner)
  if !isPrompt prompt then (⟨[start], sh, some .invalidPrompt⟩, h)
  else
    let lines := (RawLine.split (bytes input)).flatMap (RawLine.parts History.bufferSize)
    let (t, h) := sh.prompted fuel prompt h lines
    (t.cons start, h)

/-! ## With files -/

/-- runs with a prompt; the history comes from a file and goes back to it -/
def interactIn (sh : Shell) (fuel : Nat) (c : Config) (d : Folder) (input : String) :
    Transcript × Folder :=
  let h := History.ofText ((d.read? c.historyFile).getD "")
  let (t, h) := sh.interact fuel c.prompt h input
  (t, d.write c.historyFile h.text)

end Shell

end ExprShell
