import CalcShell.Session.Host

/-!
# Two hosts side by side

Sessions of one host may also be held in contexts of another one. Such contexts are detached: they
share no bindings with those of the first host.
-/

namespace CalcShell

/-- The host `A`, whose detached contexts are those of `B`. -/
def Host.paired (A B : Host) : Host where
  State := A.State × B.State
  Context := A.Context ⊕ B.Context
  decEq := inferInstance
  initial := (A.initial, B.initial)
  top := .inl A.top
  topReceiver := A.topReceiver
  receiver
    | .inl c => A.receiver c
    | .inr c => B.receiver c
  anchor v s :=
    match A.anchor v s.1 with
    | (c, t) => (.inl c, (t, s.2))
  detach v s :=
    match B.detach v s.2 with
    | (c, t) => (.inr c, (s.1, t))
  bind
    | .inl c, name, v, s => (A.bind c name v s.1, s.2)
    | .inr c, name, v, s => (s.1, B.bind c name v s.2)
  names
    | .inl c, s => A.names c s.1
    | .inr c, s => B.names c s.2
  evaluate
    | rounds, .inl c, source, s =>
      (A.evaluate rounds c source s.1).within .inl Prod.fst (fun a s => (a, s.2)) s
    | rounds, .inr c, source, s =>
      (B.evaluate rounds c source s.2).within .inr Prod.snd (fun b s => (s.1, b)) s
  judge := A.judge

end CalcShell
