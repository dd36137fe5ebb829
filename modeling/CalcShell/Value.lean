import CalcShell.Number
import CalcShell.Text.Quoted

/-!
# Values

What expressions give and what sessions are held on. A value has two texts: `display` is the bare
text, `inspect` shows strings in quotes, so that it tells values of different types apart.
-/

namespace CalcShell

/-- The number by which a session is known. -/
abbrev SessionId := Nat

/-- Values. -/
inductive Value where
  | nil
  | bool (b : Bool)
  | int (n : Number)
  | str (s : String)
  | list (items : List Value)
  /-- The receiver of the top level. -/
  | main
  /-- A session, as code sees it. -/
  | session (id : SessionId)

namespace Value

mutual

/-- Whether two values are equal. -/
def decEq : (v w : Value) → Decidable (v = w)
  | .nil, w => match w with
    | .nil => isTrue rfl
    | .bool _ | .int _ | .str _ | .list _ | .main | .session _ => isFalse (by simp)
  | .bool a, w => match w with
    | .bool b => decidable_of_iff (a = b) (by simp)
    | .nil | .int _ | .str _ | .list _ | .main | .session _ => isFalse (by simp)
  | .int a, w => match w with
    | .int b => decidable_of_iff (a = b) (by simp)
    | .nil | .bool _ | .str _ | .list _ | .main | .session _ => isFalse (by simp)
  | .str a, w => match w with
    | .str b => decidable_of_iff (a = b) (by simp)
    | .nil | .bool _ | .int _ | .list _ | .main | .session _ => isFalse (by simp)
  | .list a, w => match w with
    | .list b => match decEqList a b with
      | isTrue h => isTrue (by rw [h])
      | isFalse h => isFalse (by simpa using h)
    | .nil | .bool _ | .int _ | .str _ | .main | .session _ => isFalse (by simp)
  | .main, w => match w with
    | .main => isTrue rfl
    | .nil | .bool _ | .int _ | .str _ | .list _ | .session _ => isFalse (by simp)
  | .session a, w => match w with
    | .session b => decidable_of_iff (a = b) (by simp)
    | .nil | .bool _ | .int _ | .str _ | .list _ | .main => isFalse (by simp)

/-- Whether two lists of values are equal. -/
def decEqList : (vs ws : List Value) → Decidable (vs = ws)
  | [], [] => isTrue rfl
  | [], _ :: _ => isFalse (by simp)
  | _ :: _, [] => isFalse (by simp)
  | v :: vs, w :: ws => match decEq v w with
    | isTrue h => match decEqList vs ws with
      | isTrue hs => isTrue (by rw [h, hs])
      | isFalse hs => isFalse (by simp [hs])
    | isFalse h => isFalse (by simp [h])

end

instance : DecidableEq Value := decEq

instance : Inhabited Value := ⟨.nil⟩

/-- The name of the type of a value (`type_name`). -/
def typeName : Value → String
  | .nil => "Nil"
  | .bool _ => "Bool"
  | .int _ => "Int"
  | .str _ => "Str"
  | .list _ => "List"
  | .main => "Object"
  | .session _ => "Session"

/-- Whether a value counts as true (`is_truthy`): all do but `nil` and `false`. -/
def isTruthy : Value → Bool
  | .nil => false
  | .bool b => b
  | _ => true

mutual

/-- The text of a value with strings in quotes (`inspect`). -/
def inspect : Value → String
  | .nil => "nil"
  | .bool b => if b then "true" else "false"
  | .int n => n.render
  | .str s => Text.quoted s
  | .list items => "[" ++ String.intercalate ", " (inspectAll items) ++ "]"
  | .main => "main"
  | .session id => s!"#<session {id}>"

/-- The texts of values, in order. -/
def inspectAll : List Value → List String
  | [] => []
  | v :: vs => v.inspect :: inspectAll vs

end

/-- The bare text of a value: a string is its own text. -/
def display : Value → String
  | .str s => s
  | v => v.inspect

end Value

end CalcShell
