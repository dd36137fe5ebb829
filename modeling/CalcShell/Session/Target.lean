import CalcShell.Value

/-!
# Targets

What a session can be asked to be held on.
-/

namespace CalcShell

/-- What to hold a session on, where `C` are the contexts that there may be (`Target`). -/
inductive Target (C : Type) where
  /-- The top level. -/
  | topLevel
  /-- A value: the top level if the value stands for it, else a new context around the value. -/
  | object (v : Value)
  /-- A context that there is already, as it is. -/
  | context (c : C)
  /-- A context that is made for the purpose around a value and shares no bindings with any other.
  -/
  | detached (v : Value)
deriving DecidableEq

namespace Target

variable {C D : Type}

/-- The target among other contexts. -/
def map (f : C → D) : Target C → Target D
  | .topLevel => .topLevel
  | .object v => .object v
  | .context c => .context (f c)
  | .detached v => .detached v

/-- The text of a target in reports, where a context is held on its receiver. -/
def describe (receiver : C → Value) : Target C → String
  | .topLevel => "TopLevel"
  | .object v => "Object(" ++ v.inspect ++ ")"
  | .context c => "Context(" ++ (receiver c).inspect ++ ")"
  | .detached v => "Context(" ++ v.inspect ++ ")"

end Target

end CalcShell
