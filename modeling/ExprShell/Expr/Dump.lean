import ExprShell.Expr
import ExprShell.Text.Quoted

/-!
# Expressions in full

A listing of a tree with every field of every node on lines of its own.  The values of fields on
adjacent lines stand in one column: a group ends with a field whose value has several lines.  Nodes
that lie too deep are cut off.
-/

namespace ExprShell.Expr
open Text

abbrev Listing := List String

/-- a field of a record: its name and the lines of its value -/
structure Field where
  name : String
  value : Listing

def deepest : Nat := 10

def tooDeep : String := "!%v(DEPTH EXCEEDED)"

/-- the length of the longest name up to the end of the first group -/
def groupWidth : List Field → Nat
  | [] => 0
  | f :: fs => if f.value.length = 1 then max f.name.length (groupWidth fs) else f.name.length

def shift (ls : Listing) : Listing := ls.map fun l => "    " ++ l

def withComma : Listing → Listing
  | [] => []
  | [l] => [l ++ ","]
  | l :: ls => l :: withComma ls

def lead (s : String) : Listing → Listing
  | [] => [s]
  | l :: ls => (s ++ l) :: ls

def fill (width : Nat) (s : String) : String :=
  s ++ String.ofList (List.replicate (width - s.length) ' ')

/-- fields in columns; `width` is that of the current group, or none at the start of a group -/
def columns : Option Nat → List Field → Listing
  | _, [] => []
  | w, f :: fs =>
    let width := w.getD (groupWidth (f :: fs))
    withComma (lead (fill (width + 2) (f.name ++ ":")) f.value) ++
      columns (if f.value.length = 1 then some width else none) fs

def record (head : String) (fs : List Field) : Listing :=
  (head ++ "\x7b") :: (shift (columns none fs) ++ ["\x7d"])

def items (xs : List Listing) : Listing :=
  "\x7b" :: (shift (xs.flatMap withComma) ++ ["\x7d"])

def tokenLine (t : Token) : String :=
  "ast.Token\x7bType:" ++ Decimal.ofInt t.kind.code ++ ", Lexeme:" ++ quote t.lexeme ++
    ", Literal:" ++ quote t.literal ++ ", Line:" ++ Decimal.ofInt t.pos.line ++
    ", Col:" ++ Decimal.ofInt t.pos.col ++ "\x7d"

def nameLine (xs : List String) : String :=
  "\x7b" ++ String.intercalate ", " (xs.map quote) ++ "\x7d"

def tokenField (name : String) (t : Token) : Field := ⟨name, [tokenLine t]⟩

def textField (name s : String) : Field := ⟨name, [quote s]⟩

/-- a node that lies too deep is cut off -/
def cut (d : Nat) (ls : Unit → Listing) : Listing :=
  if deepest < d then ["&" ++ tooDeep] else ls ()

mutual

def node (d : Nat) : Expr → Listing
  | .absent => ["nil"]
  | .number t => cut d (fun _ => record "&ast.NumberLiteral" [tokenField "Token" t])
  | .var t x => cut d (fun _ => record "&ast.VarAccess" [tokenField "Token" t, textField "Name" x])
  | .assign t x e =>
    cut d (fun _ => record "&ast.VarAssign"
      [tokenField "Token" t, textField "Name" x, ⟨"Value", node (d + 1) e⟩])
  | .binary l o r =>
    cut d (fun _ => record "&ast.BinaryOp"
      [⟨"Left", node (d + 1) l⟩, tokenField "Op" o, ⟨"Right", node (d + 1) r⟩])
  | .unary o e =>
    cut d (fun _ => record "&ast.UnaryOp" [tokenField "Op" o, ⟨"Operand", node (d + 1) e⟩])
  | .cond t bs e =>
    cut d (fun _ => record "&ast.If"
      [tokenField "Token" t, ⟨"Cases", items (branchNodes d bs)⟩, ⟨"Else", node (d + 1) e⟩])
  | .count t x a b s e =>
    cut d (fun _ => record "&ast.For"
      [tokenField "Token" t, textField "Var" x, ⟨"Start", node (d + 1) a⟩,
       ⟨"End", node (d + 1) b⟩, ⟨"Step", node (d + 1) s⟩, ⟨"Body", node (d + 1) e⟩])
  | .loop t c e =>
    cut d (fun _ => record "&ast.While"
      [tokenField "Token" t, ⟨"Cond", node (d + 1) c⟩, ⟨"Body", node (d + 1) e⟩])
  | .func t x ps e =>
    cut d (fun _ => record "&ast.FuncDef"
      [tokenField "Token" t, textField "Name" x, ⟨"Params", [nameLine ps]⟩,
       ⟨"Body", node (d + 1) e⟩])
  | .call t f as =>
    cut d (fun _ => record "&ast.Call"
      [tokenField "Token" t, ⟨"Callee", node (d + 1) f⟩,
       ⟨"Args", if as.isEmpty then ["nil"] else items (argNodes d as)⟩])

def branchNodes (d : Nat) : List (Expr × Expr) → List Listing
  | [] => []
  | (c, e) :: bs =>
    record "" [⟨"Cond", node (d + 1) c⟩, ⟨"Body", node (d + 1) e⟩] :: branchNodes d bs

/-- the arguments of a node at depth `d`; they lie two deeper -/
def argNodes (d : Nat) : List Expr → List Listing
  | [] => []
  | a :: as => (if deepest < d + 1 then [tooDeep] else node (d + 2) a) :: argNodes d as

end

def dump (e : Expr) : String := String.intercalate "\n" (node 1 e)

end ExprShell.Expr
