import EventBase.RouterTasks

/-! The registration calls of `ConsumerRouter` with the lock of `local_topics` and the
tasks `create_worker` spawns for its workers. -/

namespace EventBase

namespace RouterTask

/-- The next access waits for the lock of `local_topics`. -/
def asksTopics : RouterTask → Bool
  | .reading _ | .indexing .. | .unlisting _ | .clearing _ => true
  | _ => false

/-- The call has the write lock of `local_topics`. -/
def keepsTopics : RouterTask → Bool
  | .listing .. | .publishing .. | .announcing .. | .unpublishing _ | .retiring _ | .evicting .. | .evictingInbox ..
  | .dropping .. | .withdrawing .. | .disabling .. | .closing .. => true
  | _ => false

/-- The worker of a `create_worker` call. -/
def creates : RouterTask → Option Worker
  | .reading worker | .attaching worker _ | .enabling worker _ | .spawning worker _ | .indexing .createWorker _ worker
  | .listing .createWorker _ worker | .publishing .createWorker _ worker | .announcing .createWorker _ worker => some worker
  | _ => none

end RouterTask

def RouterRun.awaitsTopics (run : RouterRun) : RouterEvent → Bool
  | .register .. => run.tasks.any RouterTask.keepsTopics
  | .advance index => (run.tasks[index]?.any RouterTask.asksTopics) && run.tasks.any RouterTask.keepsTopics
  | _ => false

/-- `handles` says of every worker in the index who passed its handle to `register_worker`;
`running` are the workers that run in a task of `create_worker`. -/
structure WorkerTasks where
  run : RouterRun := {}
  handles : Table Caller := ∅
  running : List String := []

namespace WorkerTasks

def spawn (state : WorkerTasks) (name : String) : WorkerTasks := { state with running := name :: state.running }

def hold (state : WorkerTasks) (name : String) (caller : Caller) : WorkerTasks :=
  { state with handles := state.handles.insert name caller }

/-- A handle that was replaced in the index aborts nothing. -/
def abort (state : WorkerTasks) (name : String) : WorkerTasks :=
  { state with
    handles := state.handles.erase name
    running :=
      if state.handles.lookup name = some .createWorker then state.running.filter (fun other => other ≠ name)
      else state.running }

/-- What a call does with the worker's task when it goes from one access to the next. -/
def follow (state : WorkerTasks) : RouterTask → RouterTask → WorkerTasks
  | .enabling worker _, .indexing .. => state.spawn worker.name
  | .spawning worker _, .indexing .. => state.spawn worker.name
  | .indexing caller _ worker, .listing .. => state.hold worker.name caller
  | .removing name, .detaching _ => state.abort name
  | .evicting _ _ (name :: _), .evictingInbox .. => state.abort name
  | _, _ => state

def track (state : WorkerTasks) (event : RouterEvent) (run : RouterRun) : WorkerTasks :=
  match event with
  | .advance index =>
    match state.run.tasks[index]?, run.tasks[index]? with
    | some task, some next => { state.follow task next with run }
    | _, _ => { state with run }
  | _ => { state with run }

def step (node : Option String) (state : WorkerTasks) (event : RouterEvent) : Option WorkerTasks :=
  if state.run.awaitsTopics event then none else (state.run.step node event).map (state.track event)

end WorkerTasks

end EventBase
