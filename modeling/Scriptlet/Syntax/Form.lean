import Scriptlet.Syntax
import Scriptlet.Numeral.Style
import Scriptlet.Text.Quoted

/-! Trees as they are written out: a labelled node with its fields in order, whatever they hold.
Every syntax tree has such a form; a form someone wrote by hand need not be one of a tree. -/
namespace Scriptlet

inductive Label where
  | assign | binary | call | conditional | grouping | literal | unary | reference
  | block | breaks | continues | doWhile | expression | function | ifs | print | returns | switch
  | var | whiles
deriving DecidableEq, Repr

namespace Label

def isExpr : Label → Bool
  | assign | binary | call | conditional | grouping | literal | unary | reference => true
  | _ => false

def name : Label → String
  | assign => "Assign" | binary => "Binary" | call => "Call" | conditional => "Conditional"
  | grouping => "Grouping" | literal => "Literal" | unary => "Unary" | reference => "Variable"
  | block => "Block" | breaks => "Break" | continues => "Continue" | doWhile => "DoWhile"
  | expression => "Expression" | function => "Function" | ifs => "If" | print => "Print"
  | returns => "Return" | switch => "Switch" | var => "Var" | whiles => "While"

def fullName (l : Label) : String := (if l.isExpr then "Expr." else "Stmt.") ++ l.name

def fields : Label → List String
  | assign => ["name", "value"]
  | binary => ["left", "operator", "right"]
  | call => ["callee", "paren", "arguments"]
  | conditional | ifs => ["condition", "then_branch", "else_branch"]
  | grouping | expression | print => ["expression"]
  | literal => ["value"]
  | unary => ["operator", "right"]
  | reference => ["name"]
  | block => ["statements"]
  | breaks | continues => ["keyword"]
  | doWhile => ["body", "condition"]
  | function => ["name", "params", "body"]
  | returns => ["keyword", "value"]
  | switch => ["subject", "cases", "default"]
  | var => ["name", "initializer"]
  | whiles => ["condition", "body", "increment"]

def all : List Label :=
  [assign, binary, call, conditional, grouping, literal, unary, reference, block, breaks, continues,
    doWhile, expression, function, ifs, print, returns, switch, var, whiles]

def ofFullName? (s : String) : Option Label := all.find? fun l => l.fullName == s

end Label

inductive Form where
  | node (label : Label) (args : List Form) (distance : Option Int)
  | token (t : Token)
  | case (condition body : Form)
  | list (items : List Form)
  | null
  | bool (b : Bool)
  | string (s : String)
  | number (x : Float)

/-- A node with another number of fields than its label has. -/
structure FieldCount where
  label : Label
  given : Nat
deriving DecidableEq, Repr

def FieldCount.message (e : FieldCount) : String :=
  e.label.name ++ ".__init__() take " ++ toString e.label.fields.length ++
    " positional arguments but " ++ toString e.given ++ " were given"

namespace Form

mutual

/-- The first node, from the inside out and from left to right, with a wrong number of fields. -/
def miscount? : Form → Option FieldCount
  | .node label args _ =>
    match miscountIn? args with
    | some e => some e
    | none => if args.length = label.fields.length then none else some ⟨label, args.length⟩
  | .case condition body =>
    match miscount? condition with
    | some e => some e
    | none => miscount? body
  | .list items => miscountIn? items
  | _ => none

def miscountIn? : List Form → Option FieldCount
  | [] => none
  | f :: fs =>
    match miscount? f with
    | some e => some e
    | none => miscountIn? fs

end

def showToken (t : Token) : String :=
  "Token(kind=" ++ Text.quoted t.kind.name ++ ", lexeme=" ++ Text.quoted t.lexeme ++ ", line=" ++
    toString t.pos.line ++ ", column=" ++ toString t.pos.column ++ ")"

mutual

def dump : Form → String
  | .node label args _ =>
    label.fullName ++ "(" ++ String.intercalate ", " (dumpFields label.fields args) ++ ")"
  | .token t => showToken t
  | .case condition body =>
    "SwitchCase(condition=" ++ dump condition ++ ", body=" ++ dump body ++ ")"
  | .list items => "[" ++ String.intercalate ", " (dumpItems items) ++ "]"
  | .null => "None"
  | .bool true => "True"
  | .bool false => "False"
  | .string s => Text.quoted s
  | .number x => NumberStyle.shown.render x

def dumpFields : List String → List Form → List String
  | name :: names, arg :: args => (name ++ "=" ++ dump arg) :: dumpFields names args
  | _, _ => []

def dumpItems : List Form → List String
  | [] => []
  | f :: fs => dump f :: dumpItems fs

end

end Form
end Scriptlet
