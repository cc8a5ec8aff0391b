import Scriptlet.Syntax
import Scriptlet.Store
import Scriptlet.Numeral.Style
import Scriptlet.Text.Quoted

/-! The values of a running program. -/
namespace Scriptlet

/-- The types a program can tell apart. -/
inductive TypeName where
  | nil | bool | number | string | function
deriving DecidableEq, Repr

def TypeName.text : TypeName → String
  | nil => "Nil"
  | bool => "Bool"
  | number => "Number"
  | string => "String"
  | function => "Function"

/-- The functions that are there before any program. -/
inductive Native where
  | clock | typeof
deriving DecidableEq, Repr

namespace Native

def name : Native → String
  | clock => "clock"
  | typeof => "typeof"

def arity : Native → Nat
  | clock => 0
  | typeof => 1

def all : List Native := [clock, typeof]

def ofName? (s : String) : Option Native := all.find? fun f => f.name == s

end Native

/-- A function with the scope it was declared in. Each execution of a declaration makes another
one, told apart by its serial number. -/
structure Closure where
  serial : Nat
  name : Token
  params : List Token
  body : List (Stmt Address)
  scope : Scope

inductive Value where
  | nil
  | bool (b : Bool)
  | number (x : Float)
  | string (s : String)
  | native (f : Native)
  | closure (f : Closure)

def Literal.value : Literal → Value
  | .nil => .nil
  | .bool b => .bool b
  | .number x => .number x
  | .string s => .string s

namespace Value

def typeName : Value → TypeName
  | nil => .nil
  | bool _ => .bool
  | number _ => .number
  | string _ => .string
  | native _ | closure _ => .function

/-- Only nil and false are not. -/
def isTruthy : Value → Bool
  | nil => false
  | bool b => b
  | _ => true

/-- Numbers closer than this are equal. -/
def tolerance : Float := 1e-9

def isEqual : Value → Value → Bool
  | nil, nil => true
  | bool a, bool b => a == b
  | number x, number y => x == y || (x - y).abs < tolerance
  | string s, string t => s == t
  | native f, native g => f == g
  | closure f, closure g => f.serial == g.serial
  | _, _ => false

/-- As a program prints it. A string stands between quotes just as it is. -/
def print : Value → String
  | nil => "nil"
  | bool true => "true"
  | bool false => "false"
  | number x => NumberStyle.printed.render x
  | string s => "\"" ++ s ++ "\""
  | native f => "<native " ++ f.name ++ ">"
  | closure f => "<fn " ++ f.name.lexeme ++ ">"

/-- Printed values, one a line. -/
def lines (vs : Array Value) : String := vs.foldl (fun text v => text ++ v.print ++ "\n") ""

/-- As a literal of a syntax tree is shown; a function has no literal and shows as it prints. -/
def dump : Value → String
  | nil => "None"
  | bool true => "True"
  | bool false => "False"
  | number x => NumberStyle.shown.render x
  | string s => Text.quoted s
  | v => v.print

end Value
end Scriptlet
