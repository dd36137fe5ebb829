import CalcShell.Calc.Tree
import CalcShell.Outcome

/-!
# Operators on values

What operators, indexes and functions make of values that are already known. Each may fail, and each
way to fail has its fault.
-/

namespace CalcShell.Calc

/-- The ways in which a program fails. -/
inductive Failure where
  /-- A variable is not bound. -/
  | unbound (name : String)
  /-- A result is out of range. -/
  | overflow
  /-- A divisor is zero. -/
  | zeroDivisor
  /-- A value has no negation. -/
  | negation (type : String)
  /-- Two values have no order. -/
  | comparison (left right : String)
  /-- An operator does not take the values. -/
  | operands (op : BinaryOp) (left right : String)
  /-- An index is no number. -/
  | indexType (type : String)
  /-- An index is outside. -/
  | indexRange (index : Number) (length : Nat)
  /-- A value has no parts. -/
  | notIndexable (type : String)
  /-- A function is called with the wrong number of arguments. -/
  | arity (given : Nat) (expected : String)
  /-- There is no session to open another one from. -/
  | noSession
  /-- A status is out of range. -/
  | statusRange (status : Number)
  /-- A status is no number. -/
  | statusType (type : String)
  /-- The program itself raised a fault. -/
  | raised (message : String)
  /-- A value has no length. -/
  | noLength (type : String)
  /-- A function does not exist. -/
  | noFunction (name : String)
  /-- The source is no program. -/
  | source (message : String)

/-- The fault that a failure shows as. -/
def Failure.fault : Failure → Fault
  | .unbound name => ⟨"NameError", "undefined local variable or function `" ++ name ++ "`"⟩
  | .overflow => ⟨"RangeError", "integer overflow"⟩
  | .zeroDivisor => ⟨"ZeroDivisionError", "divided by 0"⟩
  | .negation type => ⟨"TypeError", "cannot negate " ++ type⟩
  | .comparison l r => ⟨"TypeError", "comparison of " ++ l ++ " with " ++ r ++ " failed"⟩
  | .operands op l r =>
    ⟨"TypeError", "unsupported operand types for " ++ op.symbol ++ ": " ++ l ++ " and " ++ r⟩
  | .indexType type => ⟨"TypeError", "index must be Int, got " ++ type⟩
  | .indexRange i n =>
    ⟨"IndexError", "index " ++ i.render ++ s!" outside of sequence of length {n}"⟩
  | .notIndexable type => ⟨"TypeError", type ++ " is not indexable"⟩
  | .arity given expected =>
    ⟨"ArgumentError",
      s!"wrong number of arguments (given {given}, expected " ++ expected ++ ")"⟩
  | .noSession => ⟨"RuntimeError", "no session to nest into"⟩
  | .statusRange n => ⟨"RangeError", "exit status out of range: " ++ n.render⟩
  | .statusType type => ⟨"TypeError", "exit status must be Int, got " ++ type⟩
  | .raised message => ⟨"RuntimeError", message⟩
  | .noLength type => ⟨"TypeError", "len() is not defined for " ++ type⟩
  | .noFunction name => ⟨"NoMethodError", "undefined function `" ++ name ++ "`"⟩
  | .source message => ⟨"SyntaxError", message⟩

/-- A number or, where the exact result is out of range, an overflow. -/
def exact : Option Number → Except Failure Value
  | some n => .ok (.int n)
  | none => .error .overflow

/-- An operator with one operand. -/
def UnaryOp.apply : UnaryOp → Value → Except Failure Value
  | .not, v => .ok (.bool !v.isTruthy)
  | .neg, .int n => exact n.neg?
  | .neg, v => .error (.negation v.typeName)

/-- Whether an order comparison holds of two things of an ordered type. -/
def BinaryOp.holds {α : Type} [LT α] [DecidableLT α] (op : BinaryOp) (a b : α) : Bool :=
  match op with
  | .lt => a < b
  | .le => !decide (b < a)
  | .gt => b < a
  | _ => !decide (a < b)

/-- An order comparison of values: numbers by size, strings by their characters. -/
def BinaryOp.compare (op : BinaryOp) (l r : Value) : Except Failure Value :=
  match l, r with
  | .int a, .int b => .ok (.bool (op.holds a.toInt b.toInt))
  | .str a, .str b => .ok (.bool (op.holds a b))
  | _, _ => .error (.comparison l.typeName r.typeName)

/-- An operation on two numbers. -/
def BinaryOp.calculate (op : BinaryOp) (a b : Number) : Except Failure Value :=
  match op with
  | .add => exact (a.add? b)
  | .sub => exact (a.sub? b)
  | .mul => exact (a.mul? b)
  | .div => if b.toInt = 0 then .error .zeroDivisor else exact (a.div? b)
  | .rem => if b.toInt = 0 then .error .zeroDivisor else exact (a.rem? b)
  | _ => .error (.operands op "Int" "Int")

/-- An operator with two operands (`binary`). -/
def BinaryOp.apply (op : BinaryOp) (l r : Value) : Except Failure Value :=
  match op with
  | .eq => .ok (.bool (l = r))
  | .ne => .ok (.bool (l ≠ r))
  | .lt | .le | .gt | .ge => op.compare l r
  | _ =>
    match op, l, r with
    | _, .int a, .int b => op.calculate a b
    | .add, .str a, .str b => .ok (.str (a ++ b))
    | .add, .list a, .list b => .ok (.list (a ++ b))
    | _, _, _ => .error (.operands op l.typeName r.typeName)

/-- The place that index `i` means in a sequence: from the start, or from the end if negative. -/
def place (i : Number) (length : Nat) : Except Failure Nat :=
  let n := if i.toInt < 0 then length + i.toInt else i.toInt
  if n < 0 ∨ length ≤ n then .error (.indexRange i length) else .ok n.toNat

/-- The part of a value at an index (`eval_index`). -/
def indexValue (target index : Value) : Except Failure Value :=
  match index with
  | .int i =>
    match target with
    | .list items => (place i items.length).map fun n => items.getD n .nil
    | .str s => (place i s.length).map fun n => .str (s.toList.getD n ' ').toString
    | v => .error (.notIndexable v.typeName)
  | v => .error (.indexType v.typeName)

/-- What a function does once its arguments are known. -/
inductive Effect where
  /-- It gives a value. -/
  | give (v : Value)
  /-- It opens a session. -/
  | nest (receiver : Value)
  /-- It ends the program. -/
  | exit (status : Int)

/-- The greatest status a program may end with; the least is below its negation. -/
def maxStatus : Int := 2147483647

/-- The status that the arguments of `exit` name. -/
def exitStatus (args : List Value) : Except Failure Int :=
  match args with
  | [] => .ok 0
  | [.int n] =>
    if -maxStatus - 1 ≤ n.toInt ∧ n.toInt ≤ maxStatus then .ok n.toInt else .error (.statusRange n)
  | [v] => .error (.statusType v.typeName)
  | _ => .error (.arity args.length "0..1")

/-- The only argument (`take_args`). -/
def onlyArg (args : List Value) : Except Failure Value :=
  match args with
  | [v] => .ok v
  | _ => .error (.arity args.length "1")

/-- The length of a value. -/
def lengthOf (v : Value) : Except Failure Value :=
  match v with
  | .str s => .ok (.int (.ofLength s.length))
  | .list items => .ok (.int (.ofLength items.length))
  | v => .error (.noLength v.typeName)

/-- What a call of the function `name` does (`call_builtin`). -/
def applyFunction (name : String) (args : List Value) : Except Failure Effect :=
  match name with
  | "nest" => (onlyArg args).map .nest
  | "exit" => (exitStatus args).map .exit
  | "raise" => (onlyArg args).bind fun v => .error (.raised v.display)
  | "len" => (onlyArg args).bind fun v => (lengthOf v).map .give
  | "str" => (onlyArg args).map fun v => .give (.str v.display)
  | "type" => (onlyArg args).map fun v => .give (.str v.typeName)
  | _ => .error (.noFunction name)

end CalcShell.Calc
