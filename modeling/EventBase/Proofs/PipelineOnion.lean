import EventBase.Middleware

/-! A pipeline runs its middlewares around the handler, the first added outermost. -/

namespace EventBase.Proofs.PipelineOnion
open List

section
variable {σ : Type}

def onion (middlewares : List (Middleware σ)) (core : Stage σ) : Stage σ :=
  middlewares.foldr (fun middleware inner => middleware inner) core

theorem next_run (chain : Next σ) : chain.run = onion (chain.next.drop chain.index) chain.handler.handler := by
  induction chain using Next.run.induct with
  | case1 chain remaining ih =>
    rw [Next.run, dif_pos remaining, ih, drop_eq_getElem_cons remaining]
    rfl
  | case2 chain finished =>
    rw [Next.run, dif_neg finished, drop_eq_nil_of_le (Nat.le_of_not_lt finished)]
    rfl

theorem pipeline_run (pipeline : Pipeline σ) :
    pipeline.run = onion pipeline.middlewares pipeline.handler.handler :=
  next_run _

theorem middlewares_foldl (pipeline : Pipeline σ) (middlewares : List (Middleware σ)) :
    middlewares.foldl Pipeline.withMiddleware pipeline =
      { pipeline with middlewares := pipeline.middlewares ++ middlewares } := by
  induction middlewares generalizing pipeline with
  | nil => rw [foldl_nil, append_nil]
  | cons first rest ih => rw [foldl_cons, ih, Pipeline.withMiddleware, append_assoc, singleton_append]

/-- Running a pipeline on any message is running its middlewares one inside the other:
the same answer, the same message, the same handler invocations. A middleware that is
added goes directly around the handler. -/
theorem pipeline_is_onion (handler : EHandler σ) (middlewares : List (Middleware σ)) (added : Middleware σ) :
    (middlewares.foldl Pipeline.withMiddleware (.new handler)).run = onion middlewares handler.handler ∧
      (middlewares.foldl Pipeline.withMiddleware (.fromArc handler)).run = onion middlewares handler.handler ∧
      ∀ pipeline : Pipeline σ,
        (pipeline.withMiddleware added).run = onion pipeline.middlewares (added pipeline.handler.handler) := by
  refine ⟨?_, ?_, fun pipeline => ?_⟩
  · rw [pipeline_run, middlewares_foldl]
    rfl
  · rw [pipeline_run, middlewares_foldl]
    rfl
  · rw [pipeline_run, Pipeline.withMiddleware, onion, foldr_append]
    rfl

end

end EventBase.Proofs.PipelineOnion
