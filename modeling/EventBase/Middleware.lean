import EventBase.Message

/-! The middleware chain. A middleware and a handler are arbitrary: they change the
message and whatever else there is, and a middleware calls the rest of the chain as
often as it likes. -/

namespace EventBase

/-- What a message passes through. `invocations` has the message as it was each time
the handler was called. -/
structure Passage (σ : Type) where
  message : EMessage
  world : σ
  invocations : List EMessage := []

abbrev Stage (σ : Type) := StateM (Passage σ) Ack

abbrev EHandler (σ : Type) := EMessage → σ → Ack × EMessage × σ

/-- `Middleware::handle`; its `Next` can only be run. -/
abbrev Middleware (σ : Type) := Stage σ → Stage σ

section
variable {σ : Type}

def EHandler.handler (handler : EHandler σ) : Stage σ := fun state =>
  let (answer, message, world) := handler state.message state.world
  (answer, { message, world, invocations := state.invocations ++ [state.message] })

structure Next (σ : Type) where
  next : List (Middleware σ)
  index : Nat
  handler : EHandler σ

def Next.run (chain : Next σ) : Stage σ :=
  if remaining : chain.index < chain.next.length then
    chain.next[chain.index] (Next.run { chain with index := chain.index + 1 })
  else chain.handler.handler
termination_by chain.next.length - chain.index

structure Pipeline (σ : Type) where
  middlewares : List (Middleware σ)
  handler : EHandler σ

namespace Pipeline

def new (handler : EHandler σ) : Pipeline σ := { middlewares := [], handler }

def fromArc (handler : EHandler σ) : Pipeline σ := { middlewares := [], handler }

def withMiddleware (pipeline : Pipeline σ) (middleware : Middleware σ) : Pipeline σ :=
  { pipeline with middlewares := pipeline.middlewares ++ [middleware] }

def run (pipeline : Pipeline σ) : Stage σ :=
  Next.run { next := pipeline.middlewares, index := 0, handler := pipeline.handler }

end Pipeline

end

end EventBase
