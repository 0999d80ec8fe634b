import ExprShell.Yaml.Token

/-!
# YAML nodes

The first document of a text as a tree of scalars, sequences and mappings.  An alias names the node
that carries its anchor, which may be a node around it.  Nothing behind the document is read beyond
the token that ends it.

* `Document`   a root, and the nodes with an anchor;
* `document`   no document, a document, or an error.
-/

namespace ExprShell.Yaml

/-- a node, its tag if one was written, and its line, counted from one -/
inductive Node
  | scalar (tag : String) (style : Style) (text : List Char) (line : Nat)
  | sequence (tag : String) (items : List Node) (line : Nat)
  | mapping (tag : String) (entries : List (Node × Node)) (line : Nat)
  /-- stands for the node with a number, which is called by a name -/
  | reference (name : List Char) (number : Nat) (line : Nat)
  deriving Inhabited

namespace Node

def line : Node → Nat
  | .scalar _ _ _ l => l
  | .sequence _ _ l => l
  | .mapping _ _ l => l
  | .reference _ _ l => l

/-- the scalar that stands where nothing is written -/
def empty (m : Mark) : Node := .scalar "" .plain [] (m.line + 1)

end Node

/-- a root, and the nodes with an anchor by their numbers -/
structure Document where
  root : Node
  anchored : List (Nat × Node)

structure Reading where
  scanner : Scanner
  /-- what handles stand for -/
  handles : Handles
  /-- names and numbers of the anchors so far, the last first -/
  names : List (List Char × Nat)
  /-- the nodes with an anchor that are complete -/
  anchored : List (Nat × Node)

abbrev Reader (α : Type) := StateT Reading Option α

namespace Reader

def scan {α : Type} (x : Scan α) : Reader α := do
  let r ← get
  let (a, s) ← x.run r.scanner
  set { r with scanner := s }
  return a

def peek : Reader Token := scan Scan.peek

def skip : Reader Unit := scan Scan.skip

def sees (ks : List TokenKind) : Reader Bool := return ks.contains (← peek).kind

def accept (k : TokenKind) : Reader Bool := do
  if (← peek).kind = k then
    skip
    return true
  else return false

def expect (k : TokenKind) : Reader Unit := do
  if !(← accept k) then failure

def anchorMark : Reader (Option (List Char)) := do
  match (← peek).kind with
  | .anchor name =>
    skip
    return some name
  | _ => return none

def tagMark : Reader (Option (List Char × List Char)) := do
  match (← peek).kind with
  | .tag handle rest =>
    skip
    return some (handle, rest)
  | _ => return none

/-- the anchor and the tag before a node, in either order -/
def properties : Reader (Option (List Char) × Option String) := do
  let before ← anchorMark
  let tag ← tagMark
  let anchor ← if before.isNone ∧ tag.isSome then anchorMark else pure before
  match tag with
  | none => return (anchor, none)
  | some (handle, rest) => return (anchor, some (← tagName? (← get).handles handle rest))

/-- gives a name to a node that begins here, and its number -/
def call (anchor : Option (List Char)) : Reader (Option Nat) := do
  match anchor with
  | none => return none
  | some name =>
    let r ← get
    let number := r.names.length
    set { r with names := (name, number) :: r.names }
    return some number

/-- a node that is complete, under its number -/
def keep (number : Option Nat) (n : Node) : Reader Node := do
  match number with
  | none => return n
  | some i =>
    modify fun r => { r with anchored := (i, n) :: r.anchored }
    return n

def collectionTag (t : Option String) (usual : String) : String :=
  match t with
  | some s => if s = "!" then usual else s
  | none => usual

/-- the tag of a scalar, empty if it says nothing -/
def scalarTag (t : Option String) : String :=
  match t with
  | some s => if s = "!" then "" else s
  | none => ""

mutual

/-- a node; `block` if block collections may stand here, `indentless` if the entries of a sequence
may stand here without further indentation -/
def node : Nat → Bool → Bool → Reader Node
  | 0, _, _ => failure
  | n + 1, block, indentless => do
    let first ← peek
    let line := first.mark.line + 1
    match first.kind with
    | .reference name => do
      skip
      return .reference name (← (← get).names.lookup name) line
    | _ => do
      let (anchor, tag) ← properties
      let bare := anchor.isNone && tag.isNone
      match (← peek).kind with
      | .scalar style text => do
        skip
        keep (← call anchor) (.scalar (scalarTag tag) style text line)
      | .flowSequence => do
        skip
        let number ← call anchor
        keep number (.sequence (collectionTag tag "!!seq") (← flowItems n true []) line)
      | .flowMapping => do
        skip
        let number ← call anchor
        keep number (.mapping (collectionTag tag "!!map") (← flowEntries n true []) line)
      | .blockEntry => do
        if indentless then
          let number ← call anchor
          keep number (.sequence (collectionTag tag "!!seq") (← bareItems n []) line)
        else if bare then failure
        else keep (← call anchor) (.scalar (scalarTag tag) .plain [] line)
      | k => do
        if block ∧ k = .blockSequence then
          skip
          let number ← call anchor
          keep number (.sequence (collectionTag tag "!!seq") (← blockItems n []) line)
        else if block ∧ k = .blockMapping then
          skip
          let number ← call anchor
          keep number (.mapping (collectionTag tag "!!map") (← blockEntries n []) line)
        else if bare then failure
        else keep (← call anchor) (.scalar (scalarTag tag) .plain [] line)

/-- a node, or nothing before one of these tokens -/
def nodeUnless : Nat → List TokenKind → Bool → Bool → Mark → Reader Node
  | 0, _, _, _, _ => failure
  | n + 1, stops, block, indentless, m => do
    if ← sees stops then return Node.empty m else node n block indentless

def blockItems : Nat → List Node → Reader (List Node)
  | 0, _ => failure
  | n + 1, acc => do
    let m := (← peek).mark
    if ← accept .blockEntry then
      let x ← nodeUnless n [.blockEntry, .blockEnd] true false m
      blockItems n (x :: acc)
    else
      expect .blockEnd
      return acc.reverse

def bareItems : Nat → List Node → Reader (List Node)
  | 0, _ => failure
  | n + 1, acc => do
    let m := (← peek).mark
    if ← accept .blockEntry then
      let x ← nodeUnless n [.blockEntry, .key, .value, .blockEnd] true false m
      bareItems n (x :: acc)
    else return acc.reverse

/-- the entries of a block mapping, to its end; each begins with a key -/
def blockEntries : Nat → List (Node × Node) → Reader (List (Node × Node))
  | 0, _ => failure
  | n + 1, acc => do
    let m := (← peek).mark
    if ← accept .key then
      let k ← nodeUnless n [.key, .value, .blockEnd] true true m
      let m := (← peek).mark
      let v ← if ← accept .value then nodeUnless n [.key, .value, .blockEnd] true true m
        else pure (Node.empty m)
      blockEntries n ((k, v) :: acc)
    else
      expect .blockEnd
      return acc.reverse

/-- what stands behind a key inside brackets, up to one of these tokens -/
def flowValue : Nat → List TokenKind → Reader Node
  | 0, _ => failure
  | n + 1, stops => do
    let _ ← accept .value
    let t ← peek
    if stops.contains t.kind then return Node.empty t.mark else node n false false

/-- the mapping of one entry that a key makes inside square brackets; where the key is empty, the
token behind it is lost -/
def flowPair : Nat → Nat → Reader Node
  | 0, _ => failure
  | n + 1, line => do
    let t ← peek
    let k ← if [TokenKind.value, .flowEntry, .flowSequenceEnd].contains t.kind then do
        skip
        pure (Node.empty t.mark)
      else node n false false
    let u ← peek
    let v ← if u.kind = .value then flowValue n [.flowEntry, .flowSequenceEnd]
      else pure (Node.empty u.mark)
    let _ ← peek
    return .mapping "!!map" [(k, v)] line

def flowItems : Nat → Bool → List Node → Reader (List Node)
  | 0, _, _ => failure
  | n + 1, first, acc => do
    if ← accept .flowSequenceEnd then return acc.reverse
    else
      if !first then expect .flowEntry
      let t ← peek
      if ← accept .flowSequenceEnd then return acc.reverse
      else
        let x ← if ← accept .key then flowPair n (t.mark.line + 1) else node n false false
        flowItems n false (x :: acc)

def flowEntries : Nat → Bool → List (Node × Node) → Reader (List (Node × Node))
  | 0, _, _ => failure
  | n + 1, first, acc => do
    if ← accept .flowMappingEnd then return acc.reverse
    else
      if !first then expect .flowEntry
      if ← accept .flowMappingEnd then return acc.reverse
      else if ← accept .key then
        let m := (← peek).mark
        let k ← nodeUnless n [.value, .flowEntry, .flowMappingEnd] false false m
        let u ← peek
        let v ← if u.kind = .value then flowValue n [.flowEntry, .flowMappingEnd]
          else pure (Node.empty u.mark)
        flowEntries n false ((k, v) :: acc)
      else
        let k ← node n false false
        let u ← peek
        flowEntries n false ((k, Node.empty u.mark) :: acc)

end

/-! ## Documents -/

/-- directives before a document: at most one version, which must be 1.1, and handles that are not
yet taken -/
def directives : Nat → Bool → Reader Unit
  | 0, _ => failure
  | n + 1, versioned => do
    match (← peek).kind with
    | .directive (.version major minor) =>
      if versioned ∨ major ≠ 1 ∨ minor ≠ 1 then failure
      skip
      directives n true
    | .directive (.tag handle stands) =>
      let r ← get
      if (r.handles.lookup handle).isSome then failure
      set { r with handles := (handle, stands) :: r.handles }
      skip
      directives n versioned
    | _ => modify fun r => { r with handles := r.handles ++ usualHandles }

/-- does a token belong to a document of its own? -/
def isBoundary : TokenKind → Bool
  | .directive _ => true
  | .documentStart => true
  | .documentEnd => true
  | .streamEnd => true
  | _ => false

/-- the root of the first document; none if the text holds none -/
def root (fuel : Nat) : Reader (Option Node) := do
  match (← peek).kind with
  | .streamEnd => return none
  | .directive _ | .documentStart =>
    directives fuel false
    expect .documentStart
    let t ← peek
    if isBoundary t.kind then return some (Node.empty t.mark)
    else return some (← node fuel true false)
  | _ =>
    directives fuel false
    return some (← node fuel true false)

/-- the first document; none if the text holds none -/
def document (fuel : Nat) : Reader (Option Document) := do
  match ← root fuel with
  | none => return none
  | some n =>
    let _ ← peek
    return some ⟨n, (← get).anchored⟩

end Reader

/-- the first document of a text: an error, no document, or a document -/
def document (cs : List Char) : Option (Option Document) := do
  let s ← Scanner.start? cs
  (Reader.document (8 * cs.length + 64)).run' ⟨s, [], [], []⟩

end ExprShell.Yaml
