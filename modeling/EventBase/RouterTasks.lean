import EventBase.ConsumerRouter
import EventBase.Foundations.GenerationCache

/-! The registration methods of `ConsumerRouter` and the topic dispatchers as tasks
that interleave at every access to a shared map. Of the locks only the write lock
of `worker_index` is kept: `register_worker`, `del_worker` and `del_workers` hold
it from their first change to their last, and the others only rule runs out. -/

namespace EventBase

open Foundations GenerationCache

/-- One access to the shared maps. -/
inductive RouterUpdate where
  | skip
  | attach (name : String)
  | enable (topic : String)
  | spawn (topic : String) (queue : Nat)
  | index (worker : Worker)
  | list (topic : String) (entry : TopicEntry) (name : String)
  | publish (topic name : String)
  | registered
  | created (topic name : String)
  | unindex (name : String)
  | detach (name : String)
  | unlist (name : String)
  | unpublish (name : String)
  | removeTopic (topic : String)
  | unpublishTopic (topic : String)
  | disable (topic : String)
  | deleted (names : List String)

/-- Whether `register_worker` was called by `create_worker`. -/
inductive Caller where
  | createWorker
  | outside
  deriving DecidableEq

/-- A call under way, by the access it makes next. -/
inductive RouterTask where
  | reading (worker : Worker)
  | attaching (worker : Worker) (queue : Nat)
  | enabling (worker : Worker) (queue : Nat)
  | spawning (worker : Worker) (queue : Nat)
  | indexing (caller : Caller) (topic : String) (worker : Worker)
  | listing (caller : Caller) (topic : String) (worker : Worker)
  | publishing (caller : Caller) (topic : String) (worker : Worker)
  | announcing (caller : Caller) (topic : String) (worker : Worker)
  | removing (name : String)
  | detaching (name : String)
  | unlisting (name : String)
  | unpublishing (name : String)
  | retiring (name : String)
  | clearing (topic : String)
  | evicting (topic : String) (workers remaining : List String)
  | evictingInbox (topic : String) (workers : List String) (name : String) (remaining : List String)
  | dropping (topic : String) (workers : List String)
  | withdrawing (topic : String) (workers : List String)
  | disabling (topic : String) (workers : List String)
  | closing (topic : String) (workers : List String)
  | finished (error : Option CoreError)

namespace RouterTask

/-- The next access waits for the write lock of `worker_index`. -/
def acquires : RouterTask → Bool
  | .indexing .. | .removing _ | .clearing _ => true
  | _ => false

/-- The call is between taking that lock and releasing it. -/
def holds : RouterTask → Bool
  | .listing .. | .publishing .. | .announcing .. | .detaching _ | .unlisting _ | .unpublishing _ | .retiring _
  | .evicting .. | .evictingInbox .. | .dropping .. | .withdrawing .. | .disabling .. | .closing .. => true
  | _ => false

/-- What the call does with what it finds, and where it stands afterwards. -/
def next (router : ConsumerRouter) : RouterTask → Option (RouterTask × RouterUpdate)
  | .reading worker =>
    match router.localTopics.lookup worker.topic with
    | some entry => some (.attaching worker entry.queue, .skip)
    | none => some (.finished (some (.topic (.notFound worker.topic))), .skip)
  | .attaching worker queue => some (.enabling worker queue, .attach worker.name)
  | .enabling worker queue =>
    if router.isEnabled worker.topic then some (.indexing .createWorker worker.topic worker, .skip)
    else some (.spawning worker queue, .enable worker.topic)
  | .spawning worker queue => some (.indexing .createWorker worker.topic worker, .spawn worker.topic queue)
  | .indexing caller topic worker => some (.listing caller topic worker, .index worker)
  | .listing caller topic worker =>
    match router.localTopics.lookup topic with
    | some entry => some (.publishing caller topic worker, .list topic entry worker.name)
    | none => some (.finished (some (.topic (.notFound topic))), .skip)
  | .publishing caller topic worker => some (.announcing caller topic worker, .publish topic worker.name)
  | .announcing .createWorker topic worker => some (.finished none, .created topic worker.name)
  | .announcing .outside _ _ => some (.finished none, .registered)
  | .removing name =>
    if name ∈ router.workerIndex then some (.detaching name, .unindex name)
    else some (.finished (some (.workerNotFound name)), .skip)
  | .detaching name => some (.unlisting name, .detach name)
  | .unlisting name => some (.unpublishing name, .unlist name)
  | .unpublishing name => some (.retiring name, .unpublish name)
  | .retiring name => some (.finished none, .deleted [name])
  | .clearing topic => some (.evicting topic (router.listed topic) (router.listed topic), .skip)
  | .evicting topic workers [] => some (.dropping topic workers, .skip)
  | .evicting topic workers (name :: remaining) =>
    if name ∈ router.workerIndex then some (.evictingInbox topic workers name remaining, .unindex name)
    else some (.evicting topic workers remaining, .skip)
  | .evictingInbox topic workers name remaining => some (.evicting topic workers remaining, .detach name)
  | .dropping topic workers => some (.withdrawing topic workers, .removeTopic topic)
  | .withdrawing topic workers => some (.disabling topic workers, .unpublishTopic topic)
  | .disabling topic workers => some (.closing topic workers, .disable topic)
  | .closing _ workers => some (.finished none, .deleted workers)
  | .finished _ => none

end RouterTask

/-- A dispatcher's variables and where its iteration is. -/
structure DispatchLoop where
  dispatcher : Dispatcher := {}
  phase : Phase String := .idle

/-- A message offered to an inbox, and what was known when the iteration loaded
the generation. -/
structure Offer where
  worker : CachedWorker
  load : Load String

/-- `used` are the names workers were made with and `known` those that were ever in
the index; `attached` every inbox ever made; `created` the workers `create_worker`
returned, with their topic; `doomed` those taken from the index again, `deleted`
those whose deletion returned. -/
structure RouterRun where
  router : ConsumerRouter := {}
  tasks : List RouterTask := []
  writer : Option Nat := none
  loops : Nat → DispatchLoop := fun _ => {}
  used : List String := []
  known : List String := []
  attached : List CachedWorker := []
  created : List (String × String) := []
  doomed : List String := []
  deleted : List String := []
  offers : List Offer := []

inductive RouterEvent where
  | register (topic : String) (created : Except CoreError Nat)
  | createWorker (worker : Worker)
  | registerWorker (topic : String) (worker : Worker)
  | delWorker (name : String)
  | delWorkers (topic : String)
  | advance (task : Nat)
  | load (index : Nat)
  | readNames (index : Nat)
  | readInboxes (index : Nat)
  | act (index : Nat) (msg : EMessage) (accepted : Bool)

namespace RouterRun

def update (run : RouterRun) : RouterUpdate → RouterRun
  | .skip => run
  | .attach name =>
    { run with
      router := run.router.attachInbox name
      attached := ⟨name, run.router.channels⟩ :: run.attached }
  | .enable topic => { run with router := run.router.enable topic }
  | .spawn topic queue => { run with router := run.router.spawnTopicDispatcher topic queue }
  | .index worker => { run with router := run.router.indexWorker worker, known := worker.name :: run.known }
  | .list topic entry name => { run with router := run.router.listWorker topic entry name }
  | .publish topic name => { run with router := run.router.publishWorker topic name }
  | .registered => { run with router := run.router.bumpGeneration }
  | .created topic name =>
    { run with router := run.router.bumpGeneration, created := (name, topic) :: run.created }
  | .unindex name => { run with router := run.router.unindexWorker name, doomed := name :: run.doomed }
  | .detach name => { run with router := run.router.detachInbox name }
  | .unlist name => { run with router := run.router.unlistWorker name }
  | .unpublish name => { run with router := run.router.unpublishWorker name }
  | .removeTopic topic => { run with router := run.router.removeTopic topic }
  | .unpublishTopic topic => { run with router := run.router.unpublishTopic topic }
  | .disable topic => { run with router := run.router.disable topic }
  | .deleted names => { run with router := run.router.bumpGeneration, deleted := names ++ run.deleted }

def start (run : RouterRun) (task : RouterTask) : RouterRun := { run with tasks := run.tasks ++ [task] }

def advance (run : RouterRun) (index : Nat) (task : RouterTask) : Option RouterRun :=
  if task.acquires && run.writer.isSome then none
  else
    (task.next run.router).map fun (next, change) =>
      { run.update change with
        tasks := run.tasks.set index next
        writer := if next.holds then some index else if task.holds then none else run.writer }

def setLoop (run : RouterRun) (index : Nat) (loop : DispatchLoop) : RouterRun :=
  { run with loops := fun other => if other = index then loop else run.loops other }

def loadOf (run : RouterRun) (topic : String) : Load String :=
  ⟨run.deleted, (run.created.filter (fun entry => entry.2 = topic)).map Prod.fst⟩

/-- The loop acts on a claimed message: of its branches only the hand-over to an
inbox concerns the workers. -/
def act (node : Option String) (run : RouterRun) (index : Nat) (load : Load String) (msg : EMessage) (accepted : Bool) :
    RouterRun :=
  let dispatcher := (run.loops index).dispatcher
  let (plan, cursor) := Dispatcher.plan node dispatcher.cached dispatcher.cursor msg
  let dispatcher := { dispatcher with cursor := cursor }
  match plan with
  | .deliver worker _ =>
    let dispatcher := if accepted then dispatcher else { dispatcher with seenGeneration := none }
    { run.setLoop index { dispatcher := dispatcher } with offers := ⟨worker, load⟩ :: run.offers }
  | _ => run.setLoop index { dispatcher := dispatcher }

/-- A worker is made with a new name; `register_worker` may also be called again
with a worker that is or was in the index. -/
def step (node : Option String) (run : RouterRun) : RouterEvent → Option RouterRun
  | .register topic created => some { run with router := (run.router.register topic created).2 }
  | .createWorker worker =>
    if worker.name ∈ run.used then none
    else some ({ run with used := worker.name :: run.used }.start (.reading worker))
  | .registerWorker topic worker =>
    if worker.name ∈ run.used ∧ worker.name ∉ run.known then none
    else some ({ run with used := worker.name :: run.used }.start (.indexing .outside topic worker))
  | .delWorker name => some (run.start (.removing name))
  | .delWorkers topic => some (run.start (.clearing topic))
  | .advance index =>
    match run.tasks[index]? with
    | some task => run.advance index task
    | none => none
  | .load index =>
    match run.router.dispatchers[index]?, run.loops index with
    | some spawned, ⟨dispatcher, .idle⟩ =>
      if dispatcher.isStale run.router.dispatchGeneration then
        some (run.setLoop index ⟨dispatcher, .loaded run.router.dispatchGeneration (run.loadOf spawned.topic)⟩)
      else some (run.setLoop index ⟨dispatcher, .ready (run.loadOf spawned.topic)⟩)
    | _, _ => none
  | .readNames index =>
    match run.router.dispatchers[index]?, run.loops index with
    | some spawned, ⟨dispatcher, .loaded generation load⟩ =>
      some (run.setLoop index ⟨dispatcher, .named generation (run.router.published spawned.topic) load⟩)
    | _, _ => none
  | .readInboxes index =>
    match run.loops index with
    | ⟨dispatcher, .named generation names load⟩ =>
      some (run.setLoop index
        ⟨dispatcher.setCache generation (Dispatcher.cacheOf names run.router.localInboxes), .ready load⟩)
    | _ => none
  | .act index msg accepted =>
    match run.loops index with
    | ⟨_, .ready load⟩ => some (run.act node index load msg accepted)
    | _ => none

end RouterRun

end EventBase
