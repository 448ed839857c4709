import Formulary.Proofs.Stacked.Answers

/-!
# Evaluation on a stack means what it means without one

The evaluator with its scopes, its headroom and its stack refines the semantics of
`Formulary.Proofs.Evaluation.Meaning`, up to the stack: where that runs out, the answer is the error
for too many calls, and what was written is the beginning of what the semantics writes.
-/

namespace Formulary.Evaluator

open Evaluation

section

variable (frames : Frames) {ev : Evaluator} (hinvoke : ev.invoke = Standard.invoke) (p : Program)

include hinvoke

/-- Evaluation on a stack follows evaluation. -/
theorem evalOn_follows (e : Expr) : Stacked.Follows (fun fuel => evalOn frames ev p fuel e)
    (fun fuel => ev.eval p fuel e) (fun fuel => evalTraced ev p fuel e) where
  cuts fuel := evalOn_cuts frames hinvoke p fuel e
  action fuel := (erases_within ev p fuel).expression e
  refuelled fuel := (refuelled_within frames ev p fuel).expression e

theorem enclosed_follows (e : Expr) (bindings : List (String × Float)) :
    Stacked.Follows (fun fuel => enclosed frames ev p fuel e bindings)
      (fun fuel => ev.evaluate p fuel e bindings)
      (fun fuel => evaluateTraced ev p fuel e bindings) where
  cuts fuel := .of_erases ((raises_none frames hinvoke).enclosed fuel e bindings)
    (enclosed_erases fuel e bindings)
  action fuel := evaluateTraced_action ev p fuel e bindings
  refuelled fuel := enclosed_refuelled fuel e bindings

theorem called_follows (name : String) (values : List Float) :
    Stacked.Follows (fun fuel => .under (frames .call) (callOn frames ev p fuel none name values))
      (fun fuel => ev.callNamed p fuel name values)
      (fun fuel => callTraced ev p fuel none name values) where
  cuts fuel := calledOn_cuts frames hinvoke p fuel none name values
  action fuel := (erases_within ev p fuel).call none name values
  refuelled fuel := .under _ ((refuelled_within frames ev p fuel).call none name values)

theorem within_follows (use : Use) : Stacked.Follows (fun fuel => use.within frames ev p fuel)
    (fun fuel => use.perform ev p fuel) (fun fuel => use.traced ev p fuel) where
  cuts fuel := use.within_cuts hinvoke fuel
  action fuel := use.traced_action ev p fuel
  refuelled fuel := use.within_refuelled fuel

end

end Formulary.Evaluator
