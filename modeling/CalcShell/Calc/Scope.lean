import CalcShell.Value

/-!
# Scopes

Scopes hold bindings and may have a parent, whose bindings show through. All scopes of a host stand
in one forest and are known by their number there. What a scope sees is said through its `chain`:
itself, its parent, and so on outward.
-/

namespace CalcShell.Calc

/-- Bindings of names to values, each name at most once. -/
abbrev Bindings := List (String × Value)

namespace Bindings

/-- The value of a name. -/
def get? (b : Bindings) (name : String) : Option Value := List.lookup name b

/-- The bindings with `name` bound to `v`, whatever it was bound to. -/
def put : Bindings → String → Value → Bindings
  | [], name, v => [(name, v)]
  | (n, w) :: rest, name, v =>
    if n = name then (n, v) :: rest else (n, w) :: Bindings.put rest name v

/-- The names that are bound. -/
def names (b : Bindings) : List String := b.map Prod.fst

end Bindings

/-- The number of a scope in its forest. -/
abbrev ScopeId := Nat

/-- A scope: its own bindings and the scope around it. -/
structure Scope where
  bindings : Bindings := []
  parent : Option ScopeId := none

/-- A scope of its own without bindings. -/
def Scope.empty : Scope := {}

/-- A name put into a list of names in strictly increasing order. -/
def insertName (name : String) : List String → List String
  | [] => [name]
  | n :: ns =>
    if name < n then name :: n :: ns
    else if name = n then n :: ns
    else n :: insertName name ns

/-- Scopes, each known by its place. A parent stands before its children. -/
structure Forest where
  scopes : List Scope := []

namespace Forest

/-- The number of scopes. -/
def size (f : Forest) : Nat := f.scopes.length

/-- A forest with one scope, which has no bindings. -/
def single : Forest := ⟨[.empty]⟩

/-- A new scope of its own, and the forest with it (`root`). -/
def addRoot (f : Forest) : ScopeId × Forest := (f.size, ⟨f.scopes ++ [.empty]⟩)

/-- A new scope inside scope `i`, and the forest with it (`child`). -/
def addChild (f : Forest) (i : ScopeId) : ScopeId × Forest :=
  (f.size, ⟨f.scopes ++ [{ parent := some i }]⟩)

/-- The scopes from `i` outward, at most the given number of them. -/
def climb (f : Forest) : Nat → ScopeId → List ScopeId
  | 0, _ => []
  | steps + 1, i =>
    match f.scopes[i]? with
    | none => []
    | some s =>
      i :: match s.parent with
        | none => []
        | some p => climb f steps p

/-- The scopes whose bindings show in scope `i`, the innermost first. -/
def chain (f : Forest) (i : ScopeId) : List ScopeId := f.climb f.size i

/-- The bindings of scope `i` itself. -/
def bindings (f : Forest) (i : ScopeId) : Bindings := (f.scopes[i]?.map Scope.bindings).getD []

/-- The value that scope `i` itself binds to a name. -/
def get? (f : Forest) (i : ScopeId) (name : String) : Option Value := (f.bindings i).get? name

/-- The nearest scope from `i` outward that binds the name. -/
def holder? (f : Forest) (i : ScopeId) (name : String) : Option ScopeId :=
  (f.chain i).find? fun j => (f.get? j name).isSome

/-- The value of a name in scope `i` (`lookup`): that of the nearest scope that binds it. -/
def lookup (f : Forest) (i : ScopeId) (name : String) : Option Value :=
  (f.chain i).findSome? fun j => f.get? j name

/-- Binds a name in scope `i` itself (`define`). -/
def define (f : Forest) (i : ScopeId) (name : String) (v : Value) : Forest :=
  ⟨f.scopes.modify i fun s => { s with bindings := s.bindings.put name v }⟩

/-- Changes the nearest binding of a name, or makes one in scope `i` if there is none (`assign`). -/
def assign (f : Forest) (i : ScopeId) (name : String) (v : Value) : Forest :=
  f.define ((f.holder? i name).getD i) name v

/-- The names that show in scope `i`, in increasing order (`names`). -/
def names (f : Forest) (i : ScopeId) : List String :=
  ((f.chain i).flatMap fun j => (f.bindings j).names).foldr insertName []

end Forest

end CalcShell.Calc
