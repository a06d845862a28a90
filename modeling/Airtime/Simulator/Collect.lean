/-!
Steps that may fail, run over a list. What the steps before a failure gave is kept.
-/

namespace Airtime

/-- Runs a step for each element, with what each gave and the last state, or the failure that ended
the run. -/
def collect {σ α β ε : Type} (step : σ → α → Except ε (σ × β)) : σ → List α → List β × Except ε σ
  | s, [] => ([], .ok s)
  | s, a :: as =>
    match step s a with
    | .error e => ([], .error e)
    | .ok (s, b) =>
      let (bs, r) := collect step s as
      (b :: bs, r)

end Airtime
