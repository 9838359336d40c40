import EventBase.Proofs.CacheCoherence
import EventBase.Proofs.TaskTraffic
import EventBase.Proofs.UnroutedSends

/-! Messages stay with their topic on the crossfire backend. The channels keep the
topic they were made for and the inboxes their worker; everything else that points
at one of them points at one of its own topic. -/

namespace EventBase.Proofs.TopicConfinement
open Foundations ConsumerRouter RouterMaps TaskLogic TaskTraffic UnroutedSends List Option

def LoopPhase.message : LoopPhase → Option EMessage
  | .idle => none
  | .claimed msg | .loaded msg _ | .named msg _ _ | .ready msg | .returning msg => some msg

def LoopPhase.names : LoopPhase → List String
  | .named _ _ names => names
  | _ => []

def topics (node : CrossfireNode) : List String := node.channels.map TopicChannel.topic

def owners (node : CrossfireNode) : List Worker := node.workers.map InboxWorker.worker

def Named (owners : List Worker) (topic name : String) : Prop :=
  ∃ worker ∈ owners, worker.name = name ∧ worker.topic = topic

structure LoopConfined (topics : List String) (owners : List Worker) (loop : ChannelLoop) : Prop where
  queue : topics[loop.queue]? = some loop.topic
  message : ∀ msg, LoopPhase.message loop.phase = some msg → msg.topic = loop.topic
  names : ∀ name ∈ LoopPhase.names loop.phase, Named owners loop.topic name
  cached : ∀ handle ∈ loop.dispatcher.cached, ∃ worker, owners[handle.channel]? = some worker ∧ worker.topic = loop.topic

structure WorkerConfined (topics : List String) (worker : InboxWorker) : Prop where
  queue : topics[worker.queue]? = some worker.worker.topic
  inbox : ∀ msg ∈ worker.inbox, msg.topic = worker.worker.topic
  hand : ∀ msg, worker.hand = some msg → msg.topic = worker.worker.topic

def JobConfined (topics : List String) (job : Job) : Prop :=
  ∀ msg, .requeue msg ∈ job.effects → ∃ queue, job.queue = some queue ∧ topics[queue]? = some msg.topic

structure Wired (node : CrossfireNode) : Prop where
  routes : ∀ topic channel, node.routes.lookup topic = some channel → (topics node)[channel]? = some topic
  entries : ∀ topic entry, node.router.localTopics.lookup topic = some entry → (topics node)[entry.queue]? = some topic
  numbered : node.router.channels = (owners node).length
  inboxes : ∀ name channel, node.router.localInboxes.lookup name = some channel →
    ∃ worker, (owners node)[channel]? = some worker ∧ worker.name = name
  published : ∀ topic, ∀ name ∈ node.router.published topic, Named (owners node) topic name
  distinct : ((owners node).map Worker.name).Nodup

structure Filled (topics : List String) (owners : List Worker) (node : CrossfireNode) : Prop where
  channels : ∀ channel ∈ node.channels, ∀ msg ∈ channel.messages, msg.topic = channel.topic
  loops : ∀ loop ∈ node.loops, LoopConfined topics owners loop
  workers : ∀ worker ∈ node.workers, WorkerConfined topics worker
  jobs : ∀ job ∈ node.jobs, JobConfined topics job
  started : ∀ entry ∈ node.started, entry.2.topic = entry.1.topic

structure Confined (node : CrossfireNode) : Prop where
  wired : Wired node
  filled : Filled (topics node) (owners node) node

def keepsTopic (node : CrossfireNode) : CrossfireEvent → Bool
  | .worker index (.process _ run) =>
    (node.workers[index]?.bind InboxWorker.hand).all (fun msg => run.message.topic = msg.topic)
  | _ => true

def TopicKept (node : CrossfireNode) (event : CrossfireEvent) : Prop := keepsTopic node event = true

instance (node : CrossfireNode) (event : CrossfireEvent) : Decidable (TopicKept node event) :=
  inferInstanceAs (Decidable (keepsTopic node event = true))

theorem TopicKept.process {node index env run worker msg} (kept : TopicKept node (.worker index (.process env run)))
    (found : node.workers[index]? = some worker) (hand : worker.hand = some msg) : run.message.topic = msg.topic := by
  simpa [TopicKept, keepsTopic, found, hand] using kept

section
variable {topics : List String} {owners : List Worker}

theorem Named.grow {topic name} (named : Named owners topic name) (more : List Worker) :
    Named (owners ++ more) topic name := by
  obtain ⟨worker, member, same⟩ := named
  exact ⟨worker, mem_append_left _ member, same⟩

theorem LoopConfined.grow {loop} (confined : LoopConfined topics owners loop) (channels : List String)
    (workers : List Worker) : LoopConfined (topics ++ channels) (owners ++ workers) loop := by
  refine ⟨getElem?_append_kept confined.queue _, confined.message, fun name member => (confined.names name member).grow _,
    fun handle member => ?_⟩
  obtain ⟨worker, found, same⟩ := confined.cached handle member
  exact ⟨worker, getElem?_append_kept found _, same⟩

theorem WorkerConfined.grow {worker} (confined : WorkerConfined topics worker) (channels : List String) :
    WorkerConfined (topics ++ channels) worker :=
  { confined with queue := getElem?_append_kept confined.queue _ }

theorem JobConfined.grow {job} (confined : JobConfined topics job) (channels : List String) :
    JobConfined (topics ++ channels) job := by
  intro msg member
  obtain ⟨queue, same, found⟩ := confined msg member
  exact ⟨queue, same, getElem?_append_kept found _⟩

section
variable {node : CrossfireNode} {index : Nat}

theorem Filled.grow (filled : Filled topics owners node) (channels : List String)
    (workers : List Worker) : Filled (topics ++ channels) (owners ++ workers) node :=
  ⟨filled.channels, fun loop member => (filled.loops loop member).grow _ _,
    fun worker member => (filled.workers worker member).grow _, fun job member => (filled.jobs job member).grow _,
    filled.started⟩

theorem Filled.addJob (filled : Filled topics owners node) {effects queue}
    (confined : JobConfined topics { effects, queue }) : Filled topics owners (node.addJob effects queue) := by
  refine { filled with jobs := fun job member => ?_ }
  rcases mem_append.mp member with old | new
  · exact filled.jobs job old
  · rw [mem_singleton.mp new]
    exact confined

theorem Filled.setLoop (filled : Filled topics owners node) {loop} (confined : LoopConfined topics owners loop) :
    Filled topics owners (node.setLoop index loop) := by
  refine { filled with loops := fun other member => ?_ }
  rcases mem_or_eq_of_mem_set member with old | rfl
  · exact filled.loops other old
  · exact confined

theorem Filled.setWorker (filled : Filled topics owners node) {worker} (confined : WorkerConfined topics worker) :
    Filled topics owners (node.setWorker index worker) := by
  refine { filled with workers := fun other member => ?_ }
  rcases mem_or_eq_of_mem_set member with old | rfl
  · exact filled.workers other old
  · exact confined

theorem Filled.setChannel (filled : Filled topics owners node) {channel}
    (confined : ∀ msg ∈ channel.messages, msg.topic = channel.topic) :
    Filled topics owners { node with channels := node.channels.set index channel } := by
  refine { filled with channels := fun other member => ?_ }
  rcases mem_or_eq_of_mem_set member with old | rfl
  · exact filled.channels other old
  · exact confined

end

end

section
variable {config : CrossfireConfig} {node next : CrossfireNode}

theorem Confined.traffic (confined : Confined node) (router : next.router = node.router) (routes : next.routes = node.routes)
    (channels : topics next = topics node) (workers : owners next = owners node)
    (filled : Filled (topics node) (owners node) next) : Confined next := by
  refine ⟨⟨?_, ?_, ?_, ?_, ?_, ?_⟩, ?_⟩
  · rw [routes, channels]
    exact confined.wired.routes
  · rw [router, channels]
    exact confined.wired.entries
  · rw [router, workers]
    exact confined.wired.numbered
  · rw [router, workers]
    exact confined.wired.inboxes
  · rw [router, workers]
    exact confined.wired.published
  · rw [workers]
    exact confined.wired.distinct
  · rw [channels, workers]
    exact filled

theorem Confined.push (confined : Confined node) {index msg} (belongs : (topics node)[index]? = some msg.topic)
    (pushed : node.push config index msg = some next) : Confined next := by
  obtain ⟨channel, found, rest⟩ := bind_eq_some_iff.mp pushed
  have here : channel.topic = msg.topic := by
    rw [topics, getElem?_map, found, map_some] at belongs
    exact Option.some.inj belongs
  split at rest
  · cases rest
    refine confined.traffic rfl rfl (map_set_same _ found rfl) rfl (confined.filled.setChannel fun other member => ?_)
    rcases mem_append.mp member with old | new
    · exact confined.filled.channels channel (mem_of_getElem? found) other old
    · rw [mem_singleton.mp new]
      exact here.symm
  · cases rest

theorem Confined.route (confined : Confined node) {msg} (routed : node.route config msg = some next) :
    Confined next := by
  unfold CrossfireNode.route at routed
  split at routed
  · next channel found => exact confined.push (confined.wired.routes msg.topic channel found) routed
  · split at routed
    · cases routed
      exact confined
    · cases routed

theorem Confined.perform (confined : Confined node) {effect queue system}
    (belongs : ∀ msg, effect = .requeue msg → ∃ channel, queue = some channel ∧ (topics node)[channel]? = some msg.topic)
    (performed : node.perform config queue system effect = some next) : Confined next := by
  cases effect with
  | audit record => exact confined.route performed
  | walSync sync => exact confined.route performed
  | publish msg => exact confined.route performed
  | requeue msg =>
    obtain ⟨channel, rfl, found⟩ := belongs msg rfl
    exact confined.push found performed
  | schedule record =>
    cases performed
    exact confined.traffic rfl rfl rfl rfl { confined.filled with }

theorem Confined.register (confined : Confined node) (topic : String) : Confined (node.register topic) := by
  unfold CrossfireNode.register
  split
  · exact confined
  · next absent =>
    have grown : topics { node with
        router := (node.router.register topic (.ok node.channels.length)).2
        routes := node.routes.insert topic node.channels.length
        channels := node.channels ++ [{ topic }] } = topics node ++ [topic] := by
      simp [topics]
    have last : (topics node ++ [topic])[node.channels.length]? = some topic := by
      simp [topics]
    have router : (node.router.register topic (.ok node.channels.length)).2 =
        { node.router with localTopics := node.router.localTopics.insert topic { queue := node.channels.length } } := by
      rw [ConsumerRouter.register, if_neg absent]
    refine ⟨⟨fun other channel found => ?_, fun other entry found => ?_, ?_, ?_, ?_, confined.wired.distinct⟩, ?_⟩
    · rw [grown]
      obtain ⟨rfl, rfl⟩ | ⟨_, old⟩ := lookup_insert_cases found
      · exact last
      · exact getElem?_append_kept (confined.wired.routes other channel old) _
    · rw [grown]
      rw [router] at found
      obtain ⟨rfl, rfl⟩ | ⟨_, old⟩ := lookup_insert_cases found
      · exact last
      · exact getElem?_append_kept (confined.wired.entries other entry old) _
    · rw [router]
      exact confined.wired.numbered
    · rw [router]
      exact confined.wired.inboxes
    · rw [router]
      exact confined.wired.published
    · have filled := confined.filled.grow [topic] []
      rw [append_nil] at filled
      rw [grown]
      refine { filled with channels := fun channel member => ?_ }
      rcases mem_append.mp member with old | new
      · exact filled.channels channel old
      · rw [mem_singleton.mp new]
        intro msg none
        cases none

theorem Confined.createWorker (confined : Confined node) {worker}
    (fresh : ∀ other ∈ node.workers, other.worker.name ≠ worker.name) : Confined (node.createWorker worker) := by
  unfold CrossfireNode.createWorker
  split
  · exact confined
  · next entry found =>
    obtain ⟨channels, inboxes, topicMap, published⟩ := createWorker_maps found
    have queue : (topics node)[entry.queue]? = some worker.topic := confined.wired.entries worker.topic entry found
    have grown : owners { node with
        router := (node.router.createWorker worker).2
        workers := node.workers ++ [{ worker, queue := entry.queue }]
        loops := if node.router.isEnabled worker.topic then node.loops
          else node.loops ++ [{ topic := worker.topic, queue := entry.queue }] } = owners node ++ [worker] := by
      simp [owners]
    refine ⟨⟨confined.wired.routes, fun topic other present => ?_, ?_, fun name channel present => ?_,
      fun topic name member => ?_, ?_⟩, ?_⟩
    · rw [topicMap] at present
      obtain ⟨rfl, rfl⟩ | ⟨_, old⟩ := lookup_insert_cases present
      · exact queue
      · exact confined.wired.entries topic other old
    · rw [channels, grown, length_append, confined.wired.numbered]
      rfl
    · rw [grown]
      rw [inboxes] at present
      obtain ⟨rfl, rfl⟩ | ⟨_, old⟩ := lookup_insert_cases present
      · exact ⟨worker, by rw [confined.wired.numbered, getElem?_concat_length], rfl⟩
      · obtain ⟨owner, listed, same⟩ := confined.wired.inboxes name channel old
        exact ⟨owner, getElem?_append_kept listed _, same⟩
    · rw [grown]
      rw [published] at member
      have own : Named (owners node ++ [worker]) worker.topic worker.name :=
        ⟨worker, mem_append_right _ mem_cons_self, rfl, rfl⟩
      split at member
      · next same =>
        subst same
        rcases mem_append.mp member with old | new
        · exact (confined.wired.published _ name old).grow _
        · rw [mem_singleton.mp new]
          exact own
      · exact (confined.wired.published topic name member).grow _
    · rw [grown, map_append, nodup_append]
      refine ⟨confined.wired.distinct, by simp, fun name member last newest same => ?_⟩
      simp only [List.map_cons, List.map_nil, List.mem_singleton] at newest
      simp only [owners, List.map_map, List.mem_map, Function.comp] at member
      obtain ⟨other, present, rfl⟩ := member
      exact fresh other present (same.trans newest)
    · have filled := confined.filled.grow [] [worker]
      rw [List.append_nil] at filled
      rw [grown]
      refine { filled with loops := fun loop member => ?_, workers := fun other member => ?_ }
      · have began : LoopConfined (topics node) (owners node ++ [worker]) { topic := worker.topic, queue := entry.queue } := by
          refine ⟨queue, ?_, ?_, ?_⟩
          · rintro _ ⟨⟩
          · intro _ member
            cases member
          · intro _ member
            cases member
        simp only at member
        split at member
        · exact filled.loops loop member
        · rcases mem_append.mp member with old | new
          · exact filled.loops loop old
          · rw [mem_singleton.mp new]
            exact began
      · rcases mem_append.mp member with old | new
        · exact filled.workers other old
        · rw [mem_singleton.mp new]
          refine ⟨queue, ?_, ?_⟩
          · intro _ member
            cases member
          · rintro _ ⟨⟩

theorem Confined.shrink (confined : Confined node) {router} (shrinks : Shrinks node.router router) :
    Confined { node with router := router } := by
  refine ⟨⟨confined.wired.routes, fun topic entry found => ?_, shrinks.channels.trans confined.wired.numbered,
    fun name channel found => confined.wired.inboxes name channel (shrinks.inboxes name channel found),
    fun topic name member => confined.wired.published topic name (shrinks.published topic name member),
    confined.wired.distinct⟩, { confined.filled with }⟩
  obtain ⟨old, present, same⟩ := shrinks.entries topic entry found
  exact same ▸ confined.wired.entries topic old present

section
variable {loop : ChannelLoop} {index : Nat}

theorem LoopConfined.move {topics owners} (confined : LoopConfined topics owners loop) {dispatcher phase}
    (message : ∀ msg, LoopPhase.message phase = some msg → msg.topic = loop.topic)
    (names : ∀ name ∈ LoopPhase.names phase, Named owners loop.topic name)
    (cached : ∀ handle ∈ dispatcher.cached, ∃ worker, owners[handle.channel]? = some worker ∧ worker.topic = loop.topic) :
    LoopConfined topics owners { loop with dispatcher := dispatcher, phase := phase } :=
  ⟨confined.queue, message, names, cached⟩

theorem Confined.cacheOf (confined : Confined node) {topic names}
    (named : ∀ name ∈ names, Named (owners node) topic name) :
    ∀ handle ∈ Dispatcher.cacheOf names node.router.localInboxes,
      ∃ worker, (owners node)[handle.channel]? = some worker ∧ worker.topic = topic := by
  intro handle member
  obtain ⟨name, listed, made⟩ := mem_filterMap.mp member
  obtain ⟨channel, mapped, rfl⟩ := map_eq_some_iff.mp made
  obtain ⟨owner, found, same⟩ := confined.wired.inboxes name channel mapped
  obtain ⟨worker, present, called, here⟩ := named name listed
  have equal : owner = worker :=
    inj_on_of_nodup_map confined.wired.distinct (mem_of_getElem? found) present (same.trans called.symm)
  exact ⟨owner, found, equal ▸ here⟩

theorem Confined.setLoop (confined : Confined node)
    (next : LoopConfined (topics node) (owners node) loop) : Confined (node.setLoop index loop) :=
  confined.traffic rfl rfl rfl rfl (confined.filled.setLoop next)

theorem Confined.setWorker (confined : Confined node) {old worker} (found : node.workers[index]? = some old)
    (same : worker.worker = old.worker) (next : WorkerConfined (topics node) worker) :
    Confined (node.setWorker index worker) :=
  confined.traffic rfl rfl rfl (map_set_same _ found same) (confined.filled.setWorker next)

theorem Confined.claim (confined : Confined node)
    (own : LoopConfined (topics node) (owners node) loop) (claimed : node.claim index loop = some next) : Confined next := by
  obtain ⟨channel, found, rest⟩ := bind_eq_some_iff.mp claimed
  have here : channel.topic = loop.topic := by
    have queue := own.queue
    rw [topics, getElem?_map, found, map_some] at queue
    exact Option.some.inj queue
  have held := confined.filled.channels channel (mem_of_getElem? found)
  split at rest
  · next msg others messages =>
    cases rest
    have taken : Confined { node with channels := node.channels.set loop.queue { channel with messages := others } } := by
      refine confined.traffic rfl rfl (map_set_same _ found rfl) rfl (confined.filled.setChannel fun other member => ?_)
      exact held other (messages ▸ mem_cons_of_mem _ member)
    refine taken.setLoop ?_
    have same : topics { node with channels := node.channels.set loop.queue { channel with messages := others } } =
        topics node := map_set_same _ found rfl
    rw [same]
    refine own.move ?_ ?_ own.cached
    · rintro _ ⟨⟩
      exact (held msg (messages ▸ mem_cons_self)).trans here
    · intro _ member
      cases member
  · cases rest

theorem Confined.act (confined : Confined node) {msg} (own : LoopConfined (topics node) (owners node) loop)
    (ready : loop.phase = .ready msg) (acted : node.act config index loop msg = some next) : Confined next := by
  have here : msg.topic = loop.topic := own.message msg (by rw [ready]; rfl)
  have idle {dispatcher : Dispatcher} (same : dispatcher.cached = loop.dispatcher.cached) :
      LoopConfined (topics node) (owners node) { loop with dispatcher := dispatcher, phase := .idle } := by
    refine own.move ?_ ?_ (same ▸ own.cached)
    · rintro _ ⟨⟩
    · intro _ member
      cases member
  have returning {dispatcher : Dispatcher} {back : EMessage} (same : dispatcher.cached = loop.dispatcher.cached)
      (kept : back.topic = loop.topic) :
      LoopConfined (topics node) (owners node) { loop with dispatcher := dispatcher, phase := .returning back } := by
    refine own.move ?_ ?_ (same ▸ own.cached)
    · rintro _ ⟨⟩
      exact kept
    · intro _ member
      cases member
  simp only [CrossfireNode.act] at acted
  obtain ⟨_, decided, planned⟩ :=
    DispatcherConservation.plan_cases config.node loop.dispatcher.cached loop.dispatcher.cursor msg
  simp only [decided] at acted
  cases planned with
  | requeue | relay =>
    cases acted
    exact confined.setLoop (returning rfl here)
  | @deliver target member =>
    obtain ⟨worker, found, rfl⟩ := map_eq_some_iff.mp acted
    obtain ⟨owner, listed, same⟩ := own.cached target member
    have owned : worker.worker = owner := by
      rw [owners, getElem?_map, found, map_some] at listed
      exact Option.some.inj listed
    split
    · refine Confined.setWorker (confined.setLoop (idle (by rfl))) found (by rfl) ?_
      have before := confined.filled.workers worker (mem_of_getElem? found)
      refine { before with inbox := fun other present => ?_ }
      rcases mem_append.mp present with old | new
      · exact before.inbox other old
      · rw [mem_singleton.mp new]
        exact here.trans (owned ▸ same.symm)
    · exact confined.setLoop (returning rfl here)
  | expire =>
    cases acted
    exact confined.setLoop (idle rfl)

theorem Confined.loopStep (confined : Confined node) {action} (own : LoopConfined (topics node) (owners node) loop)
    (stepped : node.loopStep config index loop action loop.phase = some next) : Confined next := by
  have message := own.message
  have names := own.names
  unfold CrossfireNode.loopStep at stepped
  split at stepped
  · exact confined.claim own stepped
  · next msg phase =>
    rw [phase] at message
    split at stepped
    · cases stepped
      refine confined.setLoop (own.move message ?_ own.cached)
      intro _ member
      cases member
    · cases stepped
      refine confined.setLoop (own.move message ?_ own.cached)
      intro _ member
      cases member
  · next msg generation phase =>
    rw [phase] at message
    cases stepped
    exact confined.setLoop (own.move message (confined.wired.published loop.topic) own.cached)
  · next msg generation read phase =>
    rw [phase] at message names
    cases stepped
    refine confined.setLoop (own.move message ?_ (confined.cacheOf names))
    intro _ member
    cases member
  · next msg phase => exact confined.act own phase stepped
  · next msg phase =>
    rw [phase] at message
    have idle : Confined (node.setLoop index { loop with phase := .idle }) := by
      refine confined.setLoop (own.move ?_ ?_ own.cached)
      · rintro _ ⟨⟩
      · intro _ member
        cases member
    exact idle.push (by rw [message msg rfl]; exact own.queue) stepped
  · cases stepped

end

theorem jobConfined_of_no_requeue {topics effects queue} (sends : ∀ effect ∈ effects, ∀ msg, effect ≠ .requeue msg) :
    JobConfined topics { effects, queue } :=
  fun msg member => absurd rfl (sends _ member msg)

theorem emit_no_requeue (env : Env) (msg : EMessage) (trySend : Option Bool) (timeout : Option Duration) :
    EmitsOnly (fun effect => ∀ msg, effect ≠ .requeue msg) (emit env msg trySend timeout) :=
  .routed env _ _ (by simp)

theorem send_no_requeue (env : Env) (topic : String) (msg : EMessage) (trySend : Option Bool) (timeout : Option Duration) :
    EmitsOnly (fun effect => ∀ msg, effect ≠ .requeue msg) (TopicRouter.send env topic msg trySend timeout) :=
  .send env (by simp) (by simp) (by simp)

theorem deliverDelayed_no_requeue (env : Env) (record : WalRecord) :
    EmitsOnly (fun effect => ∀ msg, effect ≠ .requeue msg) (deliverDelayed env record) :=
  (send_no_requeue env _ _ none none).ignore

theorem processMsg_requeues (env : Env) {worker : Worker} {run : PipelineRun} (msg : EMessage)
    (kept : run.message.topic = worker.topic) {back : EMessage}
    (requeued : .requeue back ∈ (worker.processMsg env run msg).outcome.1) : back.topic = worker.topic := by
  have lands : EmitsOnly (Lands worker.topic (fun msg => msg.topic = worker.topic) fun _ => True)
      (worker.processMsg env run msg) := by
    refine processMsg_lands msg ⟨fun _ => kept, fun _ _ _ => kept, ?_, ?_, ?_⟩
    · intro _ _ _ _ _
      exact send_lands (fun _ => trivial) (fun _ here => here) fun _ here _ _ => here
    · intro _ _ _ _
      exact send_lands (fun _ => trivial) (fun _ here => here) fun _ here _ _ => here
    · intro _ _
      exact send_lands (fun _ => trivial) (fun _ here => here) fun _ here _ _ => here
  exact (lands.outcome _ requeued).outgoing back rfl

theorem Confined.process (confined : Confined node) {index} {worker : InboxWorker} {msg : EMessage} {env}
    {run} (found : node.workers[index]? = some worker) (hand : worker.hand = some msg)
    (kept : run.message.topic = msg.topic) : Confined (node.process index worker msg env run) := by
  have own := confined.filled.workers worker (mem_of_getElem? found)
  have here : msg.topic = worker.worker.topic := own.hand msg hand
  have emptied : Confined (node.setWorker index { worker with hand := none }) := by
    refine confined.setWorker found rfl { own with hand := ?_ }
    rintro _ ⟨⟩
  have same : topics (node.setWorker index { worker with hand := none }) = topics node := rfl
  unfold CrossfireNode.process
  simp only
  split
  · refine emptied.traffic rfl rfl rfl rfl (emptied.filled.addJob fun back member => ⟨worker.queue, rfl, ?_⟩)
    have topic : back.topic = msg.topic := by
      unfold Worker.routeTargeted at member
      split at member
      · cases member
      · cases mem_singleton.mp member
        rfl
    rw [topic, here]
    exact own.queue
  · have added := emptied.filled.addJob (fun back member => ⟨worker.queue, rfl, by
      rw [processMsg_requeues env msg (kept.trans here) member]
      exact own.queue⟩ : JobConfined _ ⟨(worker.worker.processMsg env run msg).outcome.1, some worker.queue⟩)
    refine emptied.traffic rfl rfl rfl rfl { added with started := fun entry member => ?_ }
    rcases mem_append.mp member with old | new
    · exact confined.filled.started entry old
    · rw [mem_singleton.mp new]
      exact here

theorem Confined.workerStep (confined : Confined node) {index worker action}
    (kept : TopicKept node (.worker index action)) (found : node.workers[index]? = some worker)
    (stepped : node.workerStep index worker action = some next) : Confined next := by
  have own := confined.filled.workers worker (mem_of_getElem? found)
  revert stepped kept
  fun_cases CrossfireNode.workerStep node index worker action
  all_goals
    intro kept stepped
    cases stepped
  · next msg rest inbox _ _ =>
    refine confined.setWorker found rfl ⟨own.queue, fun other member => ?_, ?_⟩
    · exact own.inbox other (inbox ▸ mem_cons_of_mem _ member)
    · rintro _ ⟨⟩
      exact own.inbox msg (inbox ▸ mem_cons_self)
  · next hand _ => exact confined.process found hand (kept.process found hand)
  · refine confined.setWorker found rfl ⟨own.queue, own.inbox, ?_⟩
    rintro _ ⟨⟩
  · refine confined.setWorker found rfl ⟨own.queue, ?_, own.hand⟩
    intro _ member
    cases member

theorem Confined.step (confined : Confined node) {event} (kept : TopicKept node event)
    (stepped : node.step config event = some next) : Confined next := by
  cases event with
  | register topic =>
    cases stepped
    exact confined.register topic
  | createWorker worker =>
    simp only [CrossfireNode.step] at stepped
    split at stepped
    · next fresh =>
      cases stepped
      exact confined.createWorker (by simpa using fresh)
    · cases stepped
  | delWorker name =>
    cases stepped
    exact confined.shrink (delWorker_shrinks node.router name)
  | delWorkers topic =>
    cases stepped
    exact confined.shrink (delWorkers_shrinks node.router topic)
  | send env topic msg trySend timeout =>
    cases stepped
    exact confined.traffic rfl rfl rfl rfl
      (confined.filled.addJob (jobConfined_of_no_requeue (send_no_requeue env topic msg trySend timeout).outcome))
  | sendSystem env msg trySend timeout =>
    cases stepped
    exact confined.traffic rfl rfl rfl rfl
      (confined.filled.addJob (jobConfined_of_no_requeue (emit_no_requeue env msg trySend timeout).outcome))
  | perform index system =>
    obtain ⟨job, found, rest⟩ := bind_eq_some_iff.mp stepped
    have own := confined.filled.jobs job (mem_of_getElem? found)
    split at rest
    · next effect effects listed =>
      have shortened : Confined { node with jobs := node.jobs.set index { job with effects := effects } } := by
        refine confined.traffic rfl rfl rfl rfl { confined.filled with jobs := fun other member => ?_ }
        rcases mem_or_eq_of_mem_set member with old | rfl
        · exact confined.filled.jobs other old
        · exact fun msg requeued => own msg (listed ▸ mem_cons_of_mem _ requeued)
      refine shortened.perform (fun msg same => ?_) rest
      exact own msg (listed ▸ same ▸ mem_cons_self)
    · cases rest
  | fetch index env =>
    obtain ⟨record, _, rfl⟩ := map_eq_some_iff.mp stepped
    have fetched : Filled (topics node) (owners node) { node with delays := node.delays.eraseIdx index } :=
      { confined.filled with }
    exact confined.traffic rfl rfl rfl rfl
      (fetched.addJob (jobConfined_of_no_requeue (deliverDelayed_no_requeue env record).outcome))
  | loop index action =>
    obtain ⟨loop, found, moved⟩ := bind_eq_some_iff.mp stepped
    exact confined.loopStep (confined.filled.loops loop (mem_of_getElem? found)) moved
  | worker index action =>
    obtain ⟨worker, found, moved⟩ := bind_eq_some_iff.mp stepped
    exact confined.workerStep kept found moved

end

/-- Workers only ever begin to process messages of their own topic, and a send to a
topic nobody registered changes no channel and is refused, unless it is system
traffic, delayed, or a broadcast to nobody. -/
theorem messages_stay_with_their_topic {config : CrossfireConfig} {events : List CrossfireEvent} {node : CrossfireNode}
    (ran : run (CrossfireNode.step config) {} events = some node)
    (kept : Along (CrossfireNode.step config) TopicKept {} events) :
    (∀ entry ∈ node.started, entry.2.topic = entry.1.topic) ∧
      ∀ topic, .register topic ∉ events → ∀ (env : Env) (msg : EMessage) (trySend : Option Bool) (timeout : Option Duration),
        env.routes = some node.routes.keys → (msg.deliveryMode = .broadcast → msg.deliverAt = none → msg.topic = topic) →
        (∀ effect ∈ (TopicRouter.send env topic msg trySend timeout).outcome.1, ∀ (current after : CrossfireNode) queue system,
          current.perform config queue system effect = some after → after.channels = current.channels) ∧
        (isSystemTopic topic = false → msg.deliverAt = none →
          (msg.deliveryMode = .broadcast → getWorkers env.registry topic ≠ []) →
          ∃ error, (TopicRouter.send env topic msg trySend timeout).outcome.2 = .error error) := by
  have empty : Confined {} := by
    refine ⟨⟨?_, ?_, rfl, ?_, ?_, by simp [owners]⟩, ⟨?_, ?_, ?_, ?_, ?_⟩⟩
    all_goals intros
    all_goals simp_all [published]
  have confined : Confined node :=
    run_invariant Confined (fun kept confined stepped => confined.step kept stepped) kept empty ran
  refine ⟨confined.filled.started, fun topic never env msg trySend timeout table own => ?_⟩
  have unrouted : topic ∉ node.routes.keys := unregistered_unrouted never ran
  obtain ⟨scheduled, refused⟩ := (send_unrouted table unrouted own trySend timeout).outcome
  refine ⟨fun effect member current after queue system performed => ?_, refused⟩
  obtain ⟨record, rfl⟩ := scheduled effect member
  cases performed
  rfl

private def order : EMessage := EMessage.new "m" 0 "orders" [] .standard none

private def host : Env where
  nodeType := .host
  registry := ∅
  routes := some []

/-- Nobody registered the topic, and yet a delayed message for it is accepted, and so
is a broadcast. -/
theorem unregistered_sends_accepted :
    run (CrossfireNode.step {}) {} [] = some {} ∧ host.routes = some ({} : CrossfireNode).routes.keys ∧
      isSystemTopic "orders" = false ∧
      (TopicRouter.send host "orders" { order with deliverAt := some 5 } none none).outcome.2 = .ok () ∧
      (TopicRouter.send host "orders" { order with deliveryMode := .broadcast } none none).outcome.2 = .ok () := by
  refine ⟨rfl, rfl, by decide, rfl, rfl⟩

private def delivery : List CrossfireEvent :=
  [.register "orders", .createWorker { topic := "orders", name := "w" },
    .send { host with routes := some ["orders"] } "orders" order none none, .perform 0 order, .loop 0 .claim,
    .loop 0 .loadGeneration, .loop 0 .readNames, .loop 0 .readInboxes, .loop 0 .act, .worker 0 .receive,
    .worker 0 (.process host { answer := .noAck none 3, message := order })]

theorem order_stays_with_orders :
    ∃ node ∈ run (CrossfireNode.step {}) {} delivery,
      node.started.map (fun entry => (entry.1.name, entry.2.id)) = [("w", "m")] ∧
      (∀ entry ∈ node.started, entry.2.topic = entry.1.topic) ∧
      ∃ error, (TopicRouter.send { host with routes := some node.routes.keys } "mails" order none none).outcome.2 =
        .error error := by
  obtain ⟨node, ran, started⟩ : ∃ node ∈ run (CrossfireNode.step {}) {} delivery,
      node.started.map (fun entry => (entry.1.name, entry.2.id)) = [("w", "m")] := by decide +kernel
  obtain ⟨confined, refused⟩ := messages_stay_with_their_topic ran (by decide +kernel)
  have never : CrossfireEvent.register "mails" ∉ delivery := by simp [delivery]
  have standard : order.deliveryMode ≠ .broadcast := by decide
  refine ⟨node, ran, started, confined, ?_⟩
  exact (refused "mails" never _ order none none rfl (fun mode => absurd mode standard)).2 (by decide) rfl
    (fun mode => absurd mode standard)

end EventBase.Proofs.TopicConfinement
