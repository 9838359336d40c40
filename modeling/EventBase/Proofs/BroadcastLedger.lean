import EventBase.Foundations.Counting
import EventBase.Proofs.Accepted
import EventBase.Proofs.PlaneTraffic

/-! The runs of a worker's handler for one broadcast: those it has had, those still
to come, and what a step or a task does to them. -/

namespace EventBase.Proofs.BroadcastLedger
open Foundations PlaneSteps PlaneCoherence PlaneTraffic TaskTraffic DispatcherConservation TaskLogic Accepted Dispatcher List Option

variable {delays : List Copy} {copy : Copy} {msg : EMessage} {channel : Nat} {cell : Cell}

def isNoAck : Ack → Bool
  | .noAck _ _ => true
  | _ => false

section
variable (origin : EMessage) (name : String) (plane : Plane)

def answers : List Answer := plane.handled.filter fun answer => answer.origin = origin ∧ answer.worker = name

def runs : Nat := (answers origin name plane).length

def refusals : Nat := (answers origin name plane).countP fun answer => isNoAck answer.status

def bound (copy : Copy) : Bool := decide (copy.origin = origin ∧ copy.message.toWorker = some name)

def derived (copy : Copy) : Bool := decide (copy.origin = origin)

def pending : Nat :=
  plane.outbox.countP (bound origin name) + plane.queue.countP (bound origin name) +
    plane.claims.countP (bound origin name) + plane.phase.copies.countP (bound origin name) +
    (plane.cells.map fun cell => cell.copies.countP (bound origin name)).sum +
    plane.delays.countP (derived origin) + plane.fetched.countP (derived origin)

end

def Apart (node : Option String) (name other : String) : Prop :=
  (resolves node other name = true → other = name) ∧ (resolves node name other = true → other = name)

/-- Every call of a task on this Host is accepted, and its registry lists the
worker once. -/
structure Reliable (config : PlaneConfig) (name : String) (env : Env) : Prop where
  host : env.nodeType ≠ .worker
  wal : env.walAvailable = true
  sends : ∀ call mode, env.sends call mode = none
  schedules : ∀ call, env.schedules call = none
  routes : ∀ table, env.routes = some table → config.topic ∈ table
  clock : ClockAdvances env
  once : (getWorkers env.registry config.topic).countP (fun info => info.workerName = name) = 1
  apart : ∀ info ∈ getWorkers env.registry config.topic, Apart config.node name info.workerName

def Spare (origin : EMessage) (plane : Plane) (id : String) : Prop :=
  ∀ copy ∈ plane.delays, copy.origin = origin → copy.message.id ≠ id

def InBudget (worker : Worker) (run : PipelineRun) : Prop :=
  worker.status run = .ack ∨
    ∃ retryAfter maxRetries, worker.status run = .noAck retryAfter maxRetries ∧ ¬ maxRetries ≤ run.message.attempts + 1

section
variable {property : Copy → Bool}

private theorem countP_insertDelay
    (spare : ∀ held ∈ delays, property held = true → held.message.id ≠ copy.message.id) :
    (insertDelay delays copy).countP property = delays.countP property + [copy].countP property := by
  have kept : (delays.filter fun held => held.message.id ≠ copy.message.id).countP property = delays.countP property := by
    rw [countP_filter]
    refine countP_congr fun held member => ?_
    simp only [Bool.and_eq_true, decide_eq_true_eq, and_iff_left_iff_imp]
    exact spare held member
  rw [insertDelay, ← singleton_append, countP_append, kept, Nat.add_comm]

private theorem countP_insertDelays {copies : List Copy} (foreign : ∀ copy ∈ copies, property copy = false)
    (spare : ∀ copy ∈ copies, ∀ held ∈ delays, property held = true → held.message.id ≠ copy.message.id) :
    (copies.foldl insertDelay delays).countP property = delays.countP property := by
  induction copies generalizing delays with
  | nil => rfl
  | cons first rest ih =>
    have unseen := foreign first mem_cons_self
    rw [foldl_cons, ih (fun copy member => foreign copy (mem_cons_of_mem _ member)),
      countP_insertDelay (spare first mem_cons_self), countP_singleton, unseen]
    · rfl
    · intro copy member held stored marked
      rcases mem_cons.mp stored with rfl | old
      · simp [unseen] at marked
      · exact spare copy (mem_cons_of_mem _ member) held (mem_filter.mp old).1 marked

end

/-- How many runs of the worker's handler the effects of a task bring about. -/
def share (topic name : String) (effects : List Effect) : Nat :=
  (effects.filterMap (outgoing topic)).countP (fun msg => msg.toWorker = some name) + (effects.filterMap scheduled).length

section
variable {config : PlaneConfig} {origin : EMessage} {name : String} {plane : Plane} {effects : List Effect}

private theorem countP_sent (messages : List EMessage) :
    (messages.map (Copy.mk · origin)).countP (bound origin name) =
      messages.countP (fun msg => msg.toWorker = some name) := by
  rw [countP_map]
  refine countP_congr fun msg _ => ?_
  simp [bound]

private theorem countP_delayed {messages} (single : messages.length ≤ 1)
    (free : messages ≠ [] → delays.countP (derived origin) = 0) :
    ((messages.map (Copy.mk · origin)).foldl insertDelay delays).countP (derived origin) =
      delays.countP (derived origin) + messages.length := by
  cases messages with
  | nil => rfl
  | cons msg rest =>
    obtain rfl : rest = [] := by
      rw [length_cons] at single
      exact eq_nil_of_length_eq_zero (by omega)
    have none_ := countP_eq_zero.mp (free (cons_ne_nil _ _))
    rw [map_singleton, foldl_cons, foldl_nil,
      countP_insertDelay fun held member marked => absurd marked (none_ held member)]
    simp [derived]

theorem pending_apply_own (few : share config.topic name effects ≤ 1)
    (free : effects.filterMap scheduled ≠ [] → plane.delays.countP (derived origin) = 0) :
    pending origin name (plane.apply config effects origin) =
      pending origin name plane + share config.topic name effects := by
  have single : (effects.filterMap scheduled).length ≤ 1 := by
    unfold share at few
    omega
  simp only [pending, Plane.apply, share, countP_append, countP_sent, countP_delayed single free]
  omega

theorem pending_apply_other {other} (foreign : other ≠ origin)
    (spare : ∀ msg ∈ effects.filterMap scheduled, Spare origin plane msg.id) :
    pending origin name (plane.apply config effects other) = pending origin name plane := by
  have sent : (((effects.filterMap (outgoing config.topic)).map (Copy.mk · other))).countP (bound origin name) = 0 := by
    rw [countP_eq_zero]
    intro copy member
    obtain ⟨msg, -, rfl⟩ := mem_map.mp member
    simp [bound, foreign]
  have delays : (((effects.filterMap scheduled).map (Copy.mk · other)).foldl insertDelay plane.delays).countP
      (derived origin) = plane.delays.countP (derived origin) := by
    refine countP_insertDelays (fun copy member => ?_) fun copy member held stored marked => ?_
    · obtain ⟨msg, -, rfl⟩ := mem_map.mp member
      simp [derived, foreign]
    · obtain ⟨msg, listed, rfl⟩ := mem_map.mp member
      exact spare msg listed held stored (by simpa [derived] using marked)
  simp only [pending, Plane.apply, countP_append, sent, delays]
  omega

end

structure Routed (config : PlaneConfig) (name : String) (msg : EMessage) : Prop where
  topic : msg.topic = config.topic
  mode : msg.deliveryMode = .broadcast
  target : ∃ other, msg.toWorker = some other ∧ Apart config.node name other

theorem Routed.same {config name base} (routed : Routed config name base) (route : SameRoute base msg) :
    Routed config name msg := by
  obtain ⟨other, named, apart⟩ := routed.target
  exact ⟨route.topic.trans routed.topic, route.mode.trans routed.mode, other, route.target.trans named, apart⟩

structure Parked (config : PlaneConfig) (msg : EMessage) : Prop where
  topic : msg.topic = config.topic
  mode : msg.deliveryMode = .broadcast

/-- The effects bring about `count` runs of the worker's handler and leave only
copies of the broadcast behind. -/
structure Yields (config : PlaneConfig) (name : String) (count : Nat) (effects : List Effect) : Prop where
  share : share config.topic name effects = count
  lands : ∀ effect ∈ effects, Lands config.topic (Routed config name) (Parked config) effect

section
variable {config : PlaneConfig} {name : String} {count : Nat} {effects : List Effect}

theorem Yields.of_business (yields : Yields config name count (effects.filterMap business)) :
    Yields config name count effects := by
  have sees (effect : Effect) : (business effect).bind (outgoing config.topic) = outgoing config.topic effect ∧
      (business effect).bind scheduled = scheduled effect := by
    cases effect <;> exact ⟨rfl, rfl⟩
  refine ⟨?_, fun effect member => ?_⟩
  · rw [← yields.share]
    simp only [BroadcastLedger.share, filterMap_filterMap, sees]
  · cases shown : business effect with
    | none => cases effect <;> simp_all [business, lands_audit, lands_walSync]
    | some other =>
      have same : other = effect := by cases effect <;> simp_all [business]
      exact yields.lands effect (mem_filterMap.mpr ⟨effect, member, by rw [shown, same]⟩)

theorem Yields.nothing : Yields config name 0 [] := ⟨rfl, by simp⟩

theorem Yields.requeue (routed : Routed config name msg) (target : msg.toWorker = some name) :
    Yields config name 1 [.requeue msg] :=
  ⟨by simp [BroadcastLedger.share, outgoing, scheduled, target], by simpa using lands_requeue routed⟩

theorem Yields.park (parked : Parked config msg) :
    Yields config name 1 [.schedule (WalRecord.fromMsg msg)] :=
  ⟨by simp [BroadcastLedger.share, outgoing, scheduled], by simpa using lands_schedule parked⟩

variable {env : Env} (reliable : Reliable config name env)
include reliable

theorem Yields.fanOut (parked : Parked config msg) :
    Yields config name 1 ((getWorkers env.registry config.topic).map fun info => .publish (broadcastCopy msg info)) := by
  refine ⟨?_, fun effect member => ?_⟩
  · have sent : (outgoing config.topic ∘ fun info => Effect.publish (broadcastCopy msg info)) =
        some ∘ broadcastCopy msg := funext fun _ => if_pos parked.topic
    have parks : (scheduled ∘ fun info => Effect.publish (broadcastCopy msg info)) = fun _ => none := rfl
    rw [BroadcastLedger.share, filterMap_map, filterMap_map, sent, parks, filterMap_eq_map,
      countP_map, ← reliable.once]
    simp only [filterMap_none, length_nil, Nat.add_zero]
    refine countP_congr fun info _ => ?_
    simp [broadcastCopy]
  · obtain ⟨info, listed, rfl⟩ := mem_map.mp member
    exact lands_publish fun _ => ⟨parked.topic, parked.mode, info.workerName, rfl, reliable.apart info listed⟩

theorem send_ends (parked : Parked config msg) :
    Ends business (TopicRouter.send env config.topic msg none none) (Yields config name 1) := by
  unfold TopicRouter.send
  by_cases delayed : msg.deliverAt.isSome = true
  · rw [if_pos delayed, if_pos reliable.wal]
    exact (schedule_posts business reliable.schedules (WalRecord.fromMsg msg)).ends (.park parked)
  · rw [if_neg delayed, if_pos parked.mode, if_neg reliable.host]
    have routes : ∀ table, env.routes = some table → msg.topic ∈ table := by
      rw [parked.topic]
      exact reliable.routes
    exact (emitCopies_posts business reliable.sends (fun _ => rfl) msg routes none none _).ends (.fanOut reliable parked)

theorem deliverDelayed_yields (parked : Parked config msg) :
    Yields config name 1 (deliverDelayed env (WalRecord.fromMsg msg)).outcome.1 := by
  have due : Parked config { msg with deliverAt := none } := ⟨parked.topic, parked.mode⟩
  have sends := (send_ends reliable due).ignore
  rw [← parked.topic] at sends
  exact sends.outcome.of_business

theorem settle_ends (worker : Worker) {run} (routed : Routed config name run.message)
    (target : run.message.toWorker = some name) (answers : InBudget worker run) (processTime : Duration) :
    Ends business (worker.settle env (worker.status run) run.message processTime)
      (Yields config name (if isNoAck (worker.status run) then 1 else 0)) := by
  have mark (status : WalRecordState) (attempts : UInt32) :
      Posts business (worker.syncStatus env run.message.id run.message.topic status attempts none) 2 [] :=
    syncStatus_posts business reliable.sends worker _ _ status attempts none fun _ => rfl
  rcases answers with ack | ⟨retryAfter, maxRetries, noAck, budget⟩
  · rw [ack]
    simp only [Worker.settle, Worker.onAck, routed.mode]
    have complete : Ends business _ (Yields config name 0) := (mark .complete run.message.attempts).ends .nothing
    by_cases audited : worker.topic ≠ systemTopicAudit
    · rw [if_pos audited]
      exact .after (auditMsg_posts business reliable.sends worker _ _ _ _ _ fun _ => rfl) complete
    · rw [if_neg audited]
      exact complete
  · rw [noAck]
    refine .after (mark .pending 0) ?_
    rw [if_neg budget]
    cases retryAfter with
    | none =>
      have retried : Routed config name { run.message with attempts := run.message.attempts + 1 } :=
        ⟨routed.topic, routed.mode, routed.target⟩
      exact (produce_posts business reliable.sends .send (.requeue _)).ends (.requeue retried target)
    | some delay =>
      refine .now fun time => ?_
      have parked : Parked config { run.message with
          attempts := run.message.attempts + 1, deliverAt := time.checkedAdd delay } := ⟨routed.topic, routed.mode⟩
      have sends := send_ends reliable parked
      rw [← routed.topic] at sends
      exact sends

theorem processMsg_yields (worker : Worker) {run} (topic : isSystemTopic worker.topic = false)
    (routed : Routed config name run.message) (target : run.message.toWorker = some name)
    (answers : InBudget worker run) :
    Yields config name (if isNoAck (worker.status run) then 1 else 0) (worker.processMsg env run msg).outcome.1 :=
  (processMsg_ends reliable.sends worker run msg topic reliable.clock
    (settle_ends reliable worker routed target answers)).of_business

end

section
variable {config : PlaneConfig} {origin : EMessage} {name : String} {plane next : Plane}

theorem pending_setCell (updated : Cell) (found : plane.cells[channel]? = some cell) :
    pending origin name (plane.setCell channel updated) + cell.copies.countP (bound origin name) =
      pending origin name plane + updated.copies.countP (bound origin name) := by
  have sum : ((plane.cells.set channel updated).map fun one => one.copies.countP (bound origin name)).sum + _ = _ :=
    sum_map_set updated found
  simp only [pending, Plane.setCell]
  omega

theorem pending_keepCell (updated : Cell) (found : plane.cells[channel]? = some cell)
    (same : updated.copies.countP (bound origin name) = cell.copies.countP (bound origin name)) :
    pending origin name (plane.setCell channel updated) = pending origin name plane := by
  have moved : pending origin name (plane.setCell channel updated) + _ = _ := pending_setCell updated found
  omega

theorem unbound_of_origin (foreign : copy.origin ≠ origin) : bound origin name copy = false := by
  simp [bound, foreign]

theorem countP_unacked {ack} (acked : bound origin name copy = true → ack = true) :
    (plane.unacked ack copy).countP (bound origin name) = plane.claims.countP (bound origin name) := by
  unfold Plane.unacked
  split
  · rfl
  · next failed =>
    have unbound : ¬ bound origin name copy = true := fun marked => failed (acked marked)
    rw [countP_append, countP_singleton, if_neg unbound, Nat.add_zero]

theorem spare_of_leaves {env} {base : EMessage} {effects : List Effect}
    (leaves : ∀ effect ∈ effects, Leaves config.topic env base effect) (spare : Spare origin plane base.id) :
    ∀ msg ∈ effects.filterMap scheduled, Spare origin plane msg.id := by
  intro msg member
  obtain ⟨effect, emitted, found⟩ := mem_filterMap.mp member
  rwa [((leaves effect emitted).scheduled msg found).id]

theorem origin_of_bound (marked : bound origin name copy = true) : copy.origin = origin := by
  simp only [bound, decide_eq_true_eq] at marked
  exact marked.1

theorem countP_unbound {copies : List Copy} (unbound : ∀ copy ∈ copies, bound origin name copy = false) :
    copies.countP (bound origin name) = 0 :=
  countP_eq_zero.mpr fun copy member => by simp [unbound copy member]

theorem pending_shrinkCell (updated : Cell) (found : plane.cells[channel]? = some cell)
    (unbound : ∀ copy ∈ cell.copies, bound origin name copy = false)
    (fewer : ∀ copy ∈ updated.copies, copy ∈ cell.copies) :
    pending origin name (plane.setCell channel updated) = pending origin name plane := by
  refine pending_keepCell updated found ?_
  rw [countP_unbound fun copy held => unbound copy (fewer copy held), countP_unbound unbound]

theorem bound_hop (copy : Copy) : bound origin name copy.hop = bound origin name copy := rfl

theorem counts_finish {answer} (handled : next.handled = plane.handled ++ [answer]) :
    runs origin name next = runs origin name plane + (if answer.origin = origin ∧ answer.worker = name then 1 else 0) ∧
      refusals origin name next = refusals origin name plane +
        (if (answer.origin = origin ∧ answer.worker = name) ∧ isNoAck answer.status = true then 1 else 0) := by
  have more : answers origin name next = answers origin name plane ++
      [answer].filter fun answer => answer.origin = origin ∧ answer.worker = name := by
    rw [answers, handled, filter_append, answers]
  simp only [runs, refusals, more, length_append, countP_append]
  by_cases counted : answer.origin = origin ∧ answer.worker = name
  · simp [counted]
  · simp [counted]

theorem pending_release (found : plane.cells[channel]? = some cell)
    (hand : cell.hand = some copy) :
    pending origin name (plane.setCell channel { cell with hand := none, completed := cell.completed ++ [copy] }) +
      [copy].countP (bound origin name) = pending origin name plane := by
  have moved : pending origin name (plane.setCell channel
      { cell with hand := none, completed := cell.completed ++ [copy] }) + _ = _ := pending_setCell _ found
  simp only [Cell.copies, hand, toList_some, toList_none, countP_append, nil_append] at moved
  omega

theorem pending_apply_elsewhere {effects}
    (lands : ∀ effect ∈ effects, Lands config.topic (fun msg => msg.toWorker ≠ some name) (fun _ => False) effect) :
    pending origin name (plane.apply config effects origin) = pending origin name plane := by
  have parks : effects.filterMap scheduled = [] := by
    refine filterMap_eq_nil_iff.mpr fun effect member => eq_none_iff_forall_ne_some.mpr fun msg found => ?_
    exact (lands effect member).scheduled msg found
  have sends : (effects.filterMap (outgoing config.topic)).countP (fun msg => msg.toWorker = some name) = 0 := by
    refine countP_eq_zero.mpr fun msg member => ?_
    obtain ⟨effect, emitted, found⟩ := mem_filterMap.mp member
    simpa using (lands effect emitted).outgoing msg found
  have idle : share config.topic name effects = 0 := by rw [share, parks, sends, length_nil]
  rw [pending_apply_own (by omega) (by simp [parks]), idle, Nat.add_zero]

def Absent (origin : EMessage) (plane : Plane) : Prop := ∀ copy ∈ plane.live, copy.origin ≠ origin

theorem Absent.pending (absent : Absent origin plane) : pending origin name plane = 0 := by
  have every := throughout_of_live absent
  have unbound {copies : List Copy} (foreign : ∀ copy ∈ copies, copy.origin ≠ origin) :
      copies.countP (bound origin name) = 0 := countP_unbound fun copy member => unbound_of_origin (foreign copy member)
  have parked {copies : List Copy} (foreign : ∀ copy ∈ copies, copy.origin ≠ origin) :
      copies.countP (derived origin) = 0 :=
    countP_eq_zero.mpr fun copy member => by simpa [derived] using foreign copy member
  have cells : (plane.cells.map fun cell => cell.copies.countP (bound origin name)).sum = 0 := by
    refine List.sum_eq_zero_iff_forall_eq_nat.mpr fun count member => ?_
    obtain ⟨cell, listed, rfl⟩ := List.mem_map.mp member
    exact unbound (every.cells cell listed)
  rw [BroadcastLedger.pending, unbound every.outbox, unbound every.queue, unbound every.claims, unbound every.phase, cells,
    parked every.delays, parked every.fetched]

end

end EventBase.Proofs.BroadcastLedger
