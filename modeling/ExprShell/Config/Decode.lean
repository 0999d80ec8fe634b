import ExprShell.Config
import ExprShell.Text.Lines
import ExprShell.Text.Utf8
import ExprShell.Yaml.Meaning
import ExprShell.Yaml.Node

/-!
# Settings in a file

A settings file is a YAML mapping from the names of settings to scalars.  What it does not name, or
names without a value, keeps its default.  Every entry that cannot be used is reported with its
line, and the others still count; a key that stands twice is reported before anything is read.  A
mapping may merge others, which give what it does not name itself.  Settings that were read without
a fault are checked at last.

* `Decoding`        a step of the reading; one that fails keeps the settings so far;
* `Config.decode`   the settings, and what was wrong with the file if anything was.
-/

namespace ExprShell.Config
open Text Yaml

/-- a fault of an entry, and the line it is in -/
inductive Fault
  | unknownKey (line : Nat) (key : String)
  | repeatedKey (line : Nat) (key : String) (first : Nat)
  /-- two keys that differ in writing name the same setting -/
  | setTwice (line : Nat) (key : String)
  /-- the value has another form than the one that is wanted -/
  | wrongForm (line : Nat) (tag : String) (text : List Char) (wanted : String)
  deriving DecidableEq, Repr

namespace Fault

/-- the start of a long text, cut by bytes -/
def excerpt (cs : List Char) : List Char :=
  let bs := bytes (String.ofList cs)
  if bs.length ≤ 10 then cs else decodeUtf8 (bs.take 7) ++ "...".toList

def message (f : Fault) : String :=
  let onLine (line : Nat) (s : String) : String := "line " ++ Decimal.ofNat line ++ ": " ++ s
  match f with
  | .unknownKey l k => onLine l ("field " ++ k ++ " not found in type repl.Config")
  | .repeatedKey l k first =>
    onLine l ("mapping key " ++ quote k ++ " already defined at line " ++ Decimal.ofNat first)
  | .setTwice l k => onLine l ("field " ++ k ++ " already set in type repl.Config")
  | .wrongForm l tag text wanted =>
    let shown :=
      if tag = "!!seq" ∨ tag = "!!map" then String.ofList text
      else " `" ++ String.ofList (excerpt text) ++ "`"
    onLine l ("cannot unmarshal " ++ tag ++ shown ++ " into " ++ wanted)

end Fault

inductive DecodeError
  /-- it is no YAML text, or a tag contradicts its scalar, or a mapping merges what is none -/
  | malformed
  | faulty (faults : List Fault)
  | unusable (e : ConfigError)
  deriving DecidableEq, Repr

/-- the message; what makes a text no YAML is not told -/
def DecodeError.message : DecodeError → String
  | .malformed => "yaml: malformed document"
  | .faulty fs => fs.foldl (fun acc f => acc ++ "\n  " ++ f.message) "yaml: unmarshal errors:"
  | .unusable e => e.message

/-! ## Keys -/

/-- do two keys look the same?  Collections always do. -/
def sameKey : Node → Node → Bool
  | .scalar _ _ a _, .scalar _ _ b _ => a == b
  | .reference a _ _, .reference b _ _ => a == b
  | .sequence .., .sequence .. => true
  | .mapping .., .mapping .. => true
  | _, _ => false

def label : Node → List Char
  | .scalar _ _ t _ => t
  | .reference t _ _ => t
  | _ => []

def repeatedKeys : List (Node × Node) → List Fault
  | [] => []
  | (k, _) :: es =>
    (es.filterMap fun (j, _) =>
      if sameKey k j then some (.repeatedKey j.line (String.ofList (label j)) k.line) else none) ++
      repeatedKeys es

def isMerge : Node → Bool
  | .scalar tag style text _ =>
    text == Meaning.mergeKey && (tag == Meaning.mergeTag || (tag == "" && style == .plain))
  | _ => false

/-! ## Values -/

/-- the settings so far, the faults so far, and how many nodes were looked at -/
structure Progress where
  config : Config
  faults : List Fault
  /-- all nodes that were looked at -/
  seen : Nat
  /-- those of them that were reached by an alias -/
  reached : Nat

/-- a step of the reading; one that fails keeps the settings so far -/
abbrev Decoding (α : Type) := ExceptT Unit (StateM Progress) α

namespace Decoding

/-- a document that cannot be read any further -/
def malformed {α : Type} : Decoding α := throw ()

def report (fs : List Fault) : Decoding Unit :=
  modify fun p => { p with faults := p.faults ++ fs }

/-- do aliases repeat too much of a document?  Of a small one 99 nodes in 100 may be reached by
them, of a large one 10 in 100, and the share falls evenly in between. -/
def isExcessive (seen reached : Nat) : Bool :=
  let small := 400000
  let large := 4000000
  let share : Nat :=
    if seen ≤ small then 99 * (large - small)
    else if seen < large then 99 * (large - small) - 89 * (seen - small)
    else 10 * (large - small)
  100 < reached && 1000 < seen && share * seen < 100 * (large - small) * reached

/-- looks at one more node; a document that mostly repeats itself is refused -/
def visit (byAlias : Bool) : Decoding Unit := do
  modify fun p =>
    { p with seen := p.seen + 1, reached := if byAlias then p.reached + 1 else p.reached }
  let p ← get
  if isExcessive p.seen p.reached then malformed

/-- the node that an alias stands for; other nodes stand for themselves -/
def target (doc : Document) (byAlias : Bool) (n : Node) : Decoding Node := do
  visit byAlias
  match n with
  | .reference _ i _ =>
    visit true
    match doc.anchored.lookup i with
    | some m => return m
    | none => malformed
  | n => return n

/-- takes a scalar of the form that is wanted; none if there is none, or nothing is written -/
def taking {α : Type} (wanted : String) (read : List Char → Meaning → Option α) :
    Node → Decoding (Option α)
  | .scalar tag style text line => do
    match Meaning.under? tag style text with
    | none => malformed
    | some (_, .null) => return none
    | some (tag, m) => do
      let x := read text m
      if x.isNone then report [.wrongForm line tag text wanted]
      return x
  | .mapping tag es line => do
    match repeatedKeys es with
    | [] => report [.wrongForm line tag [] wanted]
    | fs => report fs
    return none
  | .sequence tag _ line => do
    report [.wrongForm line tag [] wanted]
    return none
  | .reference .. => malformed

/-- every scalar is a text -/
def takeText (n : Node) : Decoding (Option String) :=
  taking "string" (fun text m => match m with
    | .text cs => some (String.ofList cs)
    | _ => some (String.ofList text)) n

/-- a double without its fraction.  What lies above the integers is refused, what lies below them
gives the least one, and so does the number next to the greatest. -/
def truncate? (x : Float) : Option Int :=
  let negative := Binary.isNegative x
  match Binary.magnitude x with
  | .nan => none
  | .infinite => if negative then some Integer.least else none
  | .finite m e =>
    let n : Nat := if 0 ≤ e then m * Nat.pow 2 e.toNat else m / Nat.pow 2 (-e).toNat
    let z : Int := if negative then -n else n
    if Integer.bound < z then none
    else if Integer.least ≤ z ∧ z < Integer.bound then some z
    else some Integer.least

/-- whole numbers, and others without their fraction -/
def takeInt (n : Node) : Decoding (Option Int) :=
  taking "int" (fun _ m => match m with
    | .int z => if z < Integer.bound then some z else none
    | .double x => truncate? x
    | _ => none) n

/-- truth values, and some words that are texts elsewhere -/
def takeBool (n : Node) : Decoding (Option Bool) :=
  taking "bool" (fun _ m => match m with
    | .bool b => some b
    | .text cs =>
      let s := String.ofList cs
      if ["y", "Y", "yes", "Yes", "YES", "on", "On", "ON"].contains s then some true
      else if ["n", "N", "no", "No", "NO", "off", "Off", "OFF"].contains s then some false
      else none
    | _ => none) n

/-! ## Entries -/

def set {α : Type} (x : Option α) (f : Config → α → Config) : Decoding Unit :=
  match x with
  | some x => modify fun p => { p with config := f p.config x }
  | none => return ()

def names : List String :=
  ["prompt", "history_file", "scoping", "max_call_depth", "log_level", "show_ast"]

def setting (name : String) (n : Node) : Decoding Unit := do
  match name with
  | "prompt" => set (← takeText n) fun c x => { c with prompt := x }
  | "history_file" => set (← takeText n) fun c x => { c with historyFile := x }
  | "scoping" => set (← takeText n) fun c x => { c with scoping := x }
  | "max_call_depth" => set (← takeInt n) fun c x => { c with maxCallDepth := x }
  | "log_level" => set (← takeText n) fun c x => { c with logLevel := x }
  | "show_ast" => set (← takeBool n) fun c x => { c with showTree := x }
  | _ => return ()

/-- the names that need no longer be given: none are counted outside merged mappings -/
abbrev Given := Option (List String)

/-- reads the entries of a mapping that do not merge; `done` holds the settings that it has set -/
def entries (doc : Document) (byAlias : Bool) :
    List (Node × Node) → Given → List String → Decoding Given
  | [], given, _ => return given
  | (k, v) :: es, given, done => do
    if isMerge k then entries doc byAlias es given done
    else
      match ← takeText (← target doc byAlias k) with
      | none => entries doc byAlias es given done
      | some name =>
        if (given.getD []).contains name then entries doc byAlias es given done
        else
          let given := given.map (name :: ·)
          if !names.contains name then
            report [.unknownKey k.line name]
            entries doc byAlias es given done
          else if done.contains name then
            report [.setTwice k.line name]
            entries doc byAlias es given done
          else
            setting name (← target doc byAlias v)
            entries doc byAlias es given (name :: done)

/-- the names that a mapping gives itself: the keys that stand for texts -/
def ownNames (doc : Document) (byAlias : Bool) : List (Node × Node) → Decoding (List String)
  | [] => return []
  | (k, _) :: es => do
    let n ← target doc byAlias k
    let rest ← ownNames doc byAlias es
    match n with
    | .scalar tag style text _ =>
      match Meaning.under? tag style text with
      | some (_, .text cs) => return String.ofList cs :: rest
      | _ => return rest
    | _ => return rest

def isMapping : Node → Bool
  | .mapping .. => true
  | _ => false

mutual

/-- reads a mapping, and then what it merges; `inside` holds the numbers of the aliases that led
here, and an alias may not lead to itself -/
def mapping (doc : Document) : Nat → List Nat → Given → List (Node × Node) → Decoding Given
  | 0, _, _, _ => malformed
  | fuel + 1, inside, given, es => do
    match repeatedKeys es with
    | [] =>
      let byAlias := !inside.isEmpty
      let given ← entries doc byAlias es given []
      match (es.filter fun e => isMerge e.1).getLast? with
      | none => return given
      | some (_, m) =>
        let known ← match given with
          | some names => pure names
          | none => ownNames doc byAlias es
        let after ← match m with
          | .sequence _ items _ => mergeAll doc fuel inside (some known) items
          | m => merge doc fuel inside (some known) m
        return if given.isNone then none else after
    | fs =>
      report fs
      return given

/-- reads a mapping that is merged, here or behind an alias -/
def merge (doc : Document) : Nat → List Nat → Given → Node → Decoding Given
  | 0, _, _, _ => malformed
  | fuel + 1, inside, given, n => do
    match n with
    | .mapping _ es _ =>
      visit (!inside.isEmpty)
      mapping doc fuel inside given es
    | .reference _ i _ =>
      match doc.anchored.lookup i with
      | some (.mapping _ es _) =>
        visit (!inside.isEmpty)
        if inside.contains i then malformed
        visit true
        mapping doc fuel (i :: inside) given es
      | _ => malformed
    | _ => malformed

/-- reads mappings that are merged, the first before the others -/
def mergeAll (doc : Document) : Nat → List Nat → Given → List Node → Decoding Given
  | _, _, given, [] => return given
  | 0, _, _, _ => malformed
  | fuel + 1, inside, given, n :: ns => do
    let given ← merge doc fuel inside given n
    mergeAll doc fuel inside given ns

end

def document (doc : Document) (fuel : Nat) : Decoding Unit := do
  visit false
  visit false
  match doc.root with
  | .mapping _ es _ =>
    let _ ← mapping doc fuel [] none es
  | n =>
    let _ : Option Unit ← taking "repl.Config" (fun _ _ => none) n

end Decoding

def decode (home text : String) : Config × Option DecodeError :=
  let start := Config.default home
  let checked (c : Config) := (c, c.fault?.map DecodeError.unusable)
  match Yaml.document text.toList with
  | none => (start, some .malformed)
  | some none => checked start
  | some (some doc) =>
    match (Decoding.document doc (4 * text.length + 4)).run ⟨start, [], 0, 0⟩ with
    | (.error _, p) => (p.config, some .malformed)
    | (.ok _, p) =>
      if p.faults = [] then checked p.config else (p.config, some (.faulty p.faults))

end ExprShell.Config
