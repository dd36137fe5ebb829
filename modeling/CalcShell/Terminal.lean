import CalcShell.Calc.Host
import CalcShell.Session.Engine

/-!
# A session on its own

One session of the language on the top level, with one input and one output: what a program runs
that does nothing else.
-/

namespace CalcShell.Terminal

/-- How many rounds anything may take. No machine comes to the end of them. -/
def rounds : Nat := 1000000000000000000

/-- What is left when the session is over. -/
structure Ended where
  /-- What the session gave, or why it stopped. -/
  result : Except Stop Value
  /-- All that was written. -/
  output : String
  /-- The number of sessions still open. -/
  depth : Nat
  /-- The last result. -/
  last : Value

/-- Runs a session of the language on the top level (`main`). -/
def run (input : Line.Source) (overrides : Overrides Calc.host) : Ended :=
  let world : World Calc.host :=
    { host := Calc.host.initial, inputs := [input], nextId := 2 }
  match Session.run rounds ⟨1, (Config.standard 0).merge overrides⟩ .topLevel world with
  | (result, w) => ⟨result, w.sink.text, w.depth, w.last⟩

end CalcShell.Terminal
