import EventBase.Proofs.BroadcastLedger

/-! The handler runs of one worker for a broadcast follow its own refusals, unless another
worker's delayed retry fans the message out again. -/

namespace EventBase.Proofs.BroadcastRetry
open Foundations PlaneSteps PlaneCoherence PlaneTraffic TaskTraffic TaskLogic BroadcastLedger Dispatcher List

def Prompt (worker : Worker) (run : PipelineRun) : Prop :=
  worker.status run = .ack ∨
    ∃ maxRetries, worker.status run = .noAck none maxRetries ∧ ¬ maxRetries ≤ run.message.attempts + 1

/-- No worker but `name` asks for a delayed retry of the broadcast. Besides, the
calls made for it are accepted, middleware keeps its route, other messages keep
their ids to themselves, and the worker stays. -/
def Orderly (config : PlaneConfig) (origin : EMessage) (name : String) (plane : Plane) : PlaneEvent → Prop
  | .submit _ msg => msg ≠ origin ∧ Spare origin plane msg.id
  | .act ack _ => ∀ copy ∈ plane.phase.copies, copy.origin = origin → ack = true
  | .nack outcome => ∀ copy ∈ plane.phase.copies, copy.origin = origin → outcome ≠ .requeuedUnreleased
  | .recv _ _ ack => ∀ copy ∈ plane.queue.head?, copy.origin = origin → ack = true
  | .deliverDelayed env => ∀ copy ∈ plane.fetched.head?, copy.origin = origin → Reliable config name env
  | .finish channel env run => ∀ cell ∈ plane.cells[channel]?, ∀ copy ∈ cell.hand,
      (copy.origin ≠ origin ∧ Spare origin plane run.message.id) ∨
      (copy.origin = origin ∧ SameRoute copy.message run.message ∧ cell.worker.name ≠ name ∧ Prompt cell.worker run) ∨
      (copy.origin = origin ∧ SameRoute copy.message run.message ∧ cell.worker.name = name ∧ InBudget cell.worker run ∧
        Reliable config name env)
  | .finishEphemeral _ _ _ run => Spare origin plane run.message.id
  | .create other _ => Apart config.node name other
  | .unregister channel => ∀ cell ∈ plane.cells[channel]?, cell.worker.name ≠ name
  | _ => True

/-- The runs the worker's handler has had and those to come make up one, and one
more for each of its refusals. -/
structure Balanced (config : PlaneConfig) (origin : EMessage) (name : String) (plane : Plane) : Prop where
  coherent : Coherent config plane
  registered : Registered plane name
  apart : ∀ cell ∈ plane.cells, Apart config.node name cell.worker.name
  known : Known plane fun copy target => copy.origin = origin ∧ target = name
  traffic : Throughout (fun copy => copy.origin = origin → Routed config name copy.message)
    (fun copy => copy.origin = origin → Parked config copy.message) (fun copy => copy.origin ≠ origin) plane
  balance : runs origin name plane + pending origin name plane = 1 + refusals origin name plane

section
variable {config : PlaneConfig} {origin : EMessage} {name : String} {plane next : Plane} {event : PlaneEvent}

variable (balanced : Balanced config origin name plane)
include balanced

theorem Balanced.pending_le : pending origin name plane ≤ 1 := by
  have bounded : refusals origin name plane ≤ runs origin name plane := countP_le_length
  have balance := balanced.balance
  omega

theorem Balanced.unbound_of_foreign {copy} (phase : plane.phase = .ready copy)
    (branch : planned config plane copy = .expire ∨ ∃ msg, planned config plane copy = .relay msg) :
    bound origin name copy = false := by
  by_contra marked
  simp only [bound, decide_eq_true_eq, Bool.not_eq_false] at marked
  obtain ⟨target, named, foreign⟩ := planned_foreign branch
  obtain rfl : name = target := Option.some.inj (marked.2.symm.trans named)
  obtain ⟨handle, member, same⟩ := balanced.known.cached copy phase name ⟨marked.1, rfl⟩
  exact foreign handle member same

theorem Balanced.apart_cached {target} (member : target ∈ plane.dispatcher.cached) :
    Apart config.node name target.name := by
  obtain ⟨worker, listed, same⟩ := balanced.coherent.wired.cached target member
  obtain ⟨cell, present, rfl⟩ := mem_map.mp (mem_of_getElem? listed)
  rw [← same]
  exact balanced.apart cell present

theorem Balanced.bound_deliver {copy target msg} (phase : plane.phase = .ready copy)
    (branch : planned config plane copy = .deliver target msg) :
    bound origin name ⟨msg, copy.origin⟩ = bound origin name copy := by
  obtain ⟨member, rfl⟩ := planned_deliver branch
  by_cases ours : copy.origin = origin
  · obtain ⟨other, named, apart⟩ := (balanced.traffic.inPhase phase rfl ours).target
    have resolved := planned_resolves branch named
    have iff_ : target.name = name ↔ other = name := by
      constructor
      · rintro rfl
        exact apart.1 resolved
      · rintro rfl
        exact (balanced.apart_cached member).2 resolved
    simp [bound, ours, named, iff_]
  · simp [bound, ours]

theorem Balanced.unbound_of_aborted {channel : Nat} {cell} (found : plane.cells[channel]? = some cell)
    (aborted : cell.aborted = true) : ∀ copy ∈ cell.copies, bound origin name copy = false := by
  intro copy member
  obtain ⟨one, listed, flag, named⟩ := balanced.registered
  obtain ⟨place, present⟩ := getElem?_of_mem listed
  have wired := balanced.coherent.wired
  have other : cell.worker.name ≠ name := by
    intro same
    obtain rfl := wired.unique (roster_at found) (roster_at present) (same.trans named.symm)
    rw [found] at present
    cases present
    have alive := (wired.named channel (identity cell) (roster_at found) flag).1
    simp [identity, aborted] at alive
  have owned := (balanced.coherent.cellOwned found).2 copy member
  simp [bound, owned, other]

theorem Balanced.pending_deliverDelayed {env copy rest}
    (orderly : Orderly config origin name plane (.deliverDelayed env)) (fetched : plane.fetched = copy :: rest) :
    pending origin name ({ plane with fetched := rest }.apply config
      (deliverDelayed env (WalRecord.fromMsg copy.message)).outcome.1 copy.origin) = pending origin name plane := by
  by_cases ours : copy.origin = origin
  · have parked := balanced.traffic.fetched copy (by simp [fetched]) ours
    have yields := deliverDelayed_yields (orderly copy (by simp [fetched]) ours) parked
    have few := balanced.pending_le
    have taken : pending origin name { plane with fetched := rest } + 1 = pending origin name plane := by
      simp [pending, fetched, derived, ours, Nat.add_assoc]
    have free : plane.delays.countP (derived origin) = 0 := by
      simp only [pending, fetched, countP_cons, derived, ours, decide_true, if_true] at few ⊢
      omega
    have applied : pending origin name (Plane.apply config { plane with fetched := rest } _ origin) = _ :=
      pending_apply_own (Nat.le_of_eq yields.share) fun _ => free
    rw [ours, applied, yields.share, taken]
  · have sends : ∀ effect ∈ (deliverDelayed env (WalRecord.fromMsg copy.message)).outcome.1,
        Lands config.topic (fun _ => True) (fun _ => False) effect := Emits.outcome (deliverDelayed_sends _)
    have same : pending origin name { plane with fetched := rest } = pending origin name plane := by
      simp [pending, fetched, derived, ours]
    rw [pending_apply_other ours, same]
    intro msg member
    obtain ⟨effect, emitted, found⟩ := mem_filterMap.mp member
    exact absurd ((sends effect emitted).scheduled msg found) id

omit balanced in
theorem countP_unacked_unbound {ack copy} (unbound : bound origin name copy = false) :
    (plane.unacked ack copy).countP (bound origin name) = plane.claims.countP (bound origin name) := by
  apply countP_unacked
  intro marked
  cases unbound.symm.trans marked

omit balanced in
theorem Orderly.countP_recv {idle sent ack copy rest} (orderly : Orderly config origin name plane (.recv idle sent ack))
    (queue : plane.queue = copy :: rest) :
    (plane.unacked ack copy).countP (bound origin name) = plane.claims.countP (bound origin name) := by
  apply countP_unacked
  intro marked
  exact orderly copy (by simp [queue]) (origin_of_bound marked)

theorem Balanced.pending_deliver {ack send copy target msg cell}
    (orderly : Orderly config origin name plane (.act ack send)) (phase : plane.phase = .ready copy)
    (branch : planned config plane copy = .deliver target msg) (found : plane.cells[target.channel]? = some cell) :
    pending origin name
      ({ plane with
        dispatcher := advanced config plane copy, phase := .idle, claims := plane.unacked ack copy }.setCell target.channel
          { cell with
            inbox := cell.inbox ++ [Copy.mk msg copy.origin]
            accepted := cell.accepted ++ [Copy.mk msg copy.origin] }) = pending origin name plane := by
  have claims : (plane.unacked ack copy).countP (bound origin name) = _ := countP_unacked fun marked =>
    orderly copy (by simp [phase, Phase.copies]) (origin_of_bound marked)
  have settled : pending origin name
      { plane with dispatcher := advanced config plane copy, phase := .idle, claims := plane.unacked ack copy } +
        [copy].countP (bound origin name) = pending origin name plane := by
    simp only [pending, phase, Phase.copies, claims, countP_nil]
    omega
  have moved : pending origin name (Plane.setCell
      { plane with dispatcher := advanced config plane copy, phase := .idle, claims := plane.unacked ack copy }
        target.channel _) + _ = _ := pending_setCell
    { cell with
      inbox := cell.inbox ++ [Copy.mk msg copy.origin], accepted := cell.accepted ++ [Copy.mk msg copy.origin] } found
  simp only [Cell.copies, countP_append, countP_singleton, balanced.bound_deliver phase branch] at moved settled ⊢
  omega

theorem Balanced.pending_kept (orderly : Orderly config origin name plane event) (stepped : Step config plane event next)
    (other : ∀ channel env run, event ≠ .finish channel env run) :
    pending origin name next = pending origin name plane := by
  cases stepped with
  | @submit _ msg =>
    have kin : Kin msg msg := ⟨rfl, rfl, .inl rfl⟩
    exact pending_apply_other orderly.1 (spare_of_leaves (Emits.outcome (send_leaves kin (.inl rfl))) orderly.2)
  | @push index _ found =>
    have taken : (plane.outbox.eraseIdx index).countP (bound origin name) + _ = _ := countP_eraseIdx found
    simp only [pending, countP_append]
    omega
  | claim idle queue =>
    simp only [pending, idle, queue, Phase.copies, countP_cons, countP_nil]
    omega
  | @reclaim index _ idle found =>
    have taken : (plane.claims.eraseIdx index).countP (bound origin name) + _ = _ := countP_eraseIdx found
    simp only [pending, idle, Phase.copies, countP_nil]
    omega
  | loadStale phase | loadCurrent phase | readNames phase | readInboxes phase
  | noWorker phase | refuse phase | block phase =>
    simp only [pending, phase, Phase.copies]
  | deliver phase branch found => exact balanced.pending_deliver orderly phase branch found
  | @expire ack _ copy phase branch =>
    have unbound := balanced.unbound_of_foreign phase (.inl branch)
    have claims : (plane.unacked ack copy).countP (bound origin name) = _ := countP_unacked_unbound unbound
    simp [pending, phase, Phase.copies, claims, unbound]
  | @relay ack copy msg phase branch | @relayFails ack copy msg phase branch =>
    have unbound := balanced.unbound_of_foreign phase (.inr ⟨msg, branch⟩)
    have claims : (plane.unacked ack copy).countP (bound origin name) = _ := countP_unacked_unbound unbound
    simp [pending, phase, Phase.copies, claims, unbound, bound_hop]
  | requeue phase | resume phase | relayed phase =>
    simp only [pending, phase, Phase.copies, countP_append, countP_nil]
    omega
  | @requeueUnreleased copy phase =>
    have unbound : bound origin name copy = false := unbound_of_origin fun ours =>
      orderly copy (by simp [phase, Phase.copies]) ours rfl
    simp [pending, phase, Phase.copies, unbound]
  | nackFails phase =>
    simp only [pending, phase, Phase.copies, countP_append, countP_nil]
    omega
  | recvResolved queue | recvIdle queue =>
    have claims := orderly.countP_recv queue
    simp only [pending, queue, claims, countP_append, countP_cons, countP_nil]
    omega
  | @recvExpired _ _ ack copy _ _ queue shared targeted unknown =>
    have unbound : bound origin name copy = false := by
      by_contra marked
      simp only [bound, targeted, Option.some.injEq, decide_eq_true_eq, Bool.not_eq_false] at marked
      simp [marked.2, balanced.registered.indexed] at unknown
    have claims : (plane.unacked ack copy).countP (bound origin name) = _ := countP_unacked_unbound unbound
    simp [pending, queue, claims, unbound]
  | @recvRelayed _ sent _ copy _ _ queue =>
    have claims := orderly.countP_recv queue
    have relayed : [if sent then copy.hop else copy].countP (bound origin name) = [copy].countP (bound origin name) := by
      cases sent <;> rfl
    simp only [pending, queue, claims, countP_append, relayed, countP_cons, countP_nil]
    omega
  | @recvEphemeral _ _ ack copy _ queue _ untargeted =>
    have unbound : bound origin name copy = false := by simp [bound, untargeted]
    have claims : (plane.unacked ack copy).countP (bound origin name) = _ := countP_unacked_unbound unbound
    simp [pending, queue, claims, unbound]
  | @fetch now =>
    have split := countP_eq_countP_filter_add plane.delays (derived origin) (Copy.isDue now)
    simp only [pending, countP_append]
    omega
  | deliverDelayed fetched => exact balanced.pending_deliverDelayed orderly fetched
  | receive found running free inbox =>
    exact pending_keepCell _ found (by simp [Cell.copies, free, inbox])
  | @giveUp channel env run | @forward channel env run | @finish channel env run => exact absurd rfl (other channel env run)
  | @finishEphemeral _ worker env run copy found =>
    have foreign := balanced.traffic.ephemerals copy (mem_of_getElem? found)
    have leaves : ∀ effect ∈ (Worker.processMsg env { topic := config.topic, name := worker } run copy.message).outcome.1,
        Leaves config.topic env run.message effect := Emits.outcome (processMsg_leaves _ run copy.message)
    exact pending_apply_other foreign (spare_of_leaves leaves orderly)
  | create =>
    simp [pending, Cell.copies]
  | @register _ cell found =>
    exact pending_keepCell { cell with registered := true } found rfl
  | notify found | exit found | unregister found =>
    exact pending_keepCell _ found rfl
  | unmap | forget => rfl
  | stop found aborted =>
    exact pending_shrinkCell _ found (balanced.unbound_of_aborted found aborted) (copies_released rfl rfl)
  | close found aborted =>
    exact pending_shrinkCell _ found (balanced.unbound_of_aborted found aborted) (copies_drained rfl rfl)

end

section
variable {config : PlaneConfig} {origin : EMessage} {name : String} {plane next : Plane} {event : PlaneEvent}

section
variable (balanced : Balanced config origin name plane) {channel : Nat} {env : Env} {run : PipelineRun} {cell : Cell}
  {copy : Copy} (orderly : Orderly config origin name plane (.finish channel env run))
  (found : plane.cells[channel]? = some cell) (hand : cell.hand = some copy)
include balanced orderly found hand

/-- A worker's verdict uses up the copy in its hand and, if it is a refusal by
the worker itself, brings about another run. -/
theorem Balanced.pending_finish (topic : isSystemTopic config.topic = false) {freed}
    (released : pending origin name freed + [copy].countP (bound origin name) = pending origin name plane)
    (delays : freed.delays = plane.delays) :
    pending origin name (freed.apply config (cell.worker.processMsg env run copy.message).outcome.1 copy.origin) +
      (if copy.origin = origin ∧ cell.worker.name = name then 1 else 0) =
    pending origin name plane +
      (if (copy.origin = origin ∧ cell.worker.name = name) ∧ isNoAck (cell.worker.status run) = true then 1 else 0) := by
  have owned := balanced.coherent.cellOwned found
  have target := owned.addressed hand
  have routes := balanced.traffic.inHand found hand
  rcases orderly cell found copy hand with ⟨foreign, spare⟩ | ⟨ours, route, other, prompt⟩ |
    ⟨ours, route, same, answers, reliable⟩
  · have leaves : ∀ effect ∈ (cell.worker.processMsg env run copy.message).outcome.1,
        Leaves config.topic env run.message effect := Emits.outcome (processMsg_leaves _ run copy.message)
    have unused : Spare origin freed run.message.id := by rwa [Spare, delays]
    rw [pending_apply_other foreign (spare_of_leaves leaves unused)]
    simpa [foreign, bound] using released
  · have keeps : ∀ effect ∈ (cell.worker.processMsg env run copy.message).outcome.1,
        Lands config.topic (SameRoute run.message) (fun _ => False) effect :=
      Emits.outcome (processMsg_keeps _ run copy.message prompt)
    have elsewhere : ∀ effect ∈ (cell.worker.processMsg env run copy.message).outcome.1,
        Lands config.topic (fun msg => msg.toWorker ≠ some name) (fun _ => False) effect := by
      refine fun effect member => (keeps effect member).imp (fun msg kept => ?_) fun _ never => never
      rw [kept.target, route.target, target]
      simpa using other
    rw [ours, pending_apply_elsewhere elsewhere]
    simpa [other, bound, target] using released
  · have yields : Yields config name _ (cell.worker.processMsg env run copy.message).outcome.1 :=
      processMsg_yields reliable cell.worker (by rw [owned.1, topic]) ((routes ours).same route)
        (by rw [route.target, target, same]) answers
    have marked : [copy].countP (bound origin name) = 1 := by simp [bound, ours, target, same]
    have few := balanced.pending_le
    have free : freed.delays.countP (derived origin) = 0 := by
      unfold pending at released few
      omega
    have applied : pending origin name (freed.apply config _ origin) = _ :=
      pending_apply_own (by rw [yields.share]; split <;> omega) fun _ => free
    rw [ours, applied, yields.share]
    simp only [same, and_self, if_true, true_and]
    omega

end

private theorem handled_kept (stepped : Step config plane event next) :
    (∃ channel env run, event = .finish channel env run) ∨
      (∀ channel env run, event ≠ .finish channel env run) ∧ next.handled = plane.handled := by
  cases stepped with
  | @giveUp channel env run | @forward channel env run | @finish channel env run => exact .inl ⟨channel, env, run, rfl⟩
  | _ => exact .inr ⟨by simp, rfl⟩

section
variable (balanced : Balanced config origin name plane)
include balanced

theorem Balanced.balance_step (topic : isSystemTopic config.topic = false) (orderly : Orderly config origin name plane event)
    (stepped : Step config plane event next) :
    runs origin name next + pending origin name next = 1 + refusals origin name next := by
  have balance := balanced.balance
  rcases handled_kept stepped with ⟨channel, env, run, rfl⟩ | ⟨other, kept⟩
  · cases stepped with
    | giveUp found _ hand misrouted | forward found _ hand misrouted =>
      simp [(balanced.coherent.cellOwned found).not_misrouted hand] at misrouted
    | @finish _ _ _ cell copy found _ hand =>
      have settled := balanced.pending_finish orderly found hand topic (pending_release found hand) rfl
      obtain ⟨more, refused⟩ : _ ∧ refusals origin name
          { (plane.setCell channel { cell with hand := none, completed := cell.completed ++ [copy] }).apply config
              (cell.worker.processMsg env run copy.message).outcome.1 copy.origin with
            handled := plane.handled ++ [⟨copy.origin, cell.worker.name, cell.worker.status run⟩] } = _ := counts_finish rfl
      rw [more, refused]
      simp only [pending] at settled balance ⊢
      omega
  · rw [balanced.pending_kept orderly stepped other]
    simpa only [runs, refusals, answers, kept] using balance

theorem Balanced.emission_lands (topic : isSystemTopic config.topic = false) {effects}
    (orderly : Orderly config origin name plane event) (emission : Emission config plane event origin effects) :
    ∀ effect ∈ effects, Lands config.topic (Routed config name) (Parked config) effect := by
  cases emission with
  | submit => exact absurd rfl orderly.1
  | @deliverDelayed _ copy _ fetched =>
    have parked := balanced.traffic.fetched copy (by simp [fetched]) rfl
    exact (deliverDelayed_yields (orderly copy (by simp [fetched]) rfl) parked).lands
  | @finish _ _ run cell copy found hand =>
    have owned := balanced.coherent.cellOwned found
    have routed := balanced.traffic.inHand found hand rfl
    rcases orderly cell found copy hand with ⟨foreign, -⟩ | ⟨-, route, -, prompt⟩ | ⟨-, route, same, answers, reliable⟩
    · exact absurd rfl foreign
    · intro effect member
      exact (Emits.outcome (processMsg_keeps _ run copy.message prompt) effect member).imp
        (fun _ kept => (routed.same route).same kept) fun _ never => never.elim
    · exact (processMsg_yields reliable cell.worker (by rw [owned.1, topic]) (routed.same route)
        (by rw [route.target, owned.addressed hand, same]) answers).lands
  | @finishEphemeral _ _ _ _ copy found =>
    exact absurd rfl (balanced.traffic.ephemerals copy (mem_of_getElem? found))

theorem Balanced.traffic_step (topic : isSystemTopic config.topic = false) (orderly : Orderly config origin name plane event)
    (stepped : Step config plane event next) :
    Throughout (fun copy => copy.origin = origin → Routed config name copy.message)
      (fun copy => copy.origin = origin → Parked config copy.message) (fun copy => copy.origin ≠ origin) next := by
  refine balanced.traffic.step stepped (fun copy _ routed ours => ?_) ?_ (fun copy routed untargeted ours => ?_) ?_
  · exact (routed ours).same ⟨rfl, rfl, rfl⟩
  · rintro ack send copy target msg rfl phase branch ours
    obtain ⟨member, rfl⟩ := planned_deliver branch
    have routed := balanced.traffic.inPhase phase rfl ours
    exact ⟨routed.topic, routed.mode, target.name, rfl, balanced.apart_cached member⟩
  · obtain ⟨other, named, -⟩ := (routed ours).target
    simp [untargeted] at named
  · intro source effects emission effect member
    by_cases ours : source = origin
    · subst ours
      exact (balanced.emission_lands topic orderly emission effect member).imp (fun _ routed _ => routed)
        fun _ parked _ => parked
    · exact ⟨fun _ _ same => absurd same ours, fun _ _ same => absurd same ours⟩

theorem Balanced.apart_step (orderly : Orderly config origin name plane event) (stepped : Step config plane event next) :
    ∀ cell ∈ next.cells, Apart config.node name cell.worker.name := by
  refine workers_step (fun worker => Apart config.node name worker.name) balanced.apart ?_ stepped
  rintro other timeOut rfl
  exact orderly

theorem Balanced.step (topic : isSystemTopic config.topic = false) (orderly : Orderly config origin name plane event)
    (stepped : Step config plane event next) : Balanced config origin name next where
  coherent := balanced.coherent.step stepped
  registered := balanced.registered.step stepped (by rintro channel rfl; exact orderly)
  apart := balanced.apart_step orderly stepped
  known := balanced.known.step balanced.coherent stepped (by rintro copy _ _ ⟨-, rfl⟩; exact balanced.registered)
  traffic := balanced.traffic_step topic orderly stepped
  balance := balanced.balance_step topic orderly stepped

end

theorem Balanced.submit {env} (coherent : Coherent config plane) (registered : Registered plane name)
    (apart : ∀ cell ∈ plane.cells, Apart config.node name cell.worker.name) (absent : Absent origin plane)
    (unanswered : ∀ answer ∈ plane.handled, answer.origin ≠ origin) (parked : Parked config origin)
    (reliable : Reliable config name env) :
    Balanced config origin name
      (plane.apply config (TopicRouter.send env config.topic origin none none).outcome.1 origin) := by
  have every := throughout_of_live absent
  have yields : Yields config name 1 _ := (send_ends reliable parked).outcome.of_business
  refine ⟨coherent.step .submit, registered, apart, ⟨?_, ?_⟩, ?_, ?_⟩
  · rintro copy generation names phase target ⟨ours, -⟩
    exact absurd ours (every.inPhase phase rfl)
  · rintro copy phase target ⟨ours, -⟩
    exact absurd ours (every.inPhase phase rfl)
  · refine (every.imp (fun _ foreign ours => absurd ours foreign) (fun _ foreign ours => absurd ours foreign)
      fun _ foreign => foreign).apply fun effect member => ?_
    exact (yields.lands effect member).imp (fun _ routed _ => routed) fun _ parked _ => parked
  · have none_ : answers origin name plane = [] := by
      refine filter_eq_nil_iff.mpr fun answer member => ?_
      simp [unanswered answer member]
    have free : plane.delays.countP (derived origin) = 0 :=
      countP_eq_zero.mpr fun copy member => by simpa [derived] using every.delays copy member
    rw [pending_apply_own (Nat.le_of_eq yields.share) fun _ => free, yields.share, absent.pending]
    change (answers origin name plane).length + (0 + 1) = 1 + (answers origin name plane).countP _
    rw [none_]
    rfl

end

section

def pair : PlaneConfig := { node := none, topic := "t" }

def host : Env where
  nodeType := .host
  registry := ((∅ : Table WorkerInfo).insert "v" ⟨"v", "t", 0⟩).insert "w" ⟨"w", "t", 0⟩

def news : EMessage := EMessage.new "m" 0 "t" [] .broadcast none

def hire : List PlaneEvent := [.create "v" none, .create "w" none, .register 0, .register 1]

def spread (renewal : List PlaneEvent) : List PlaneEvent :=
  ([.push 0, .push 0, .claim, .loadGeneration] : List PlaneEvent) ++ renewal ++
    ([.act true true, .claim, .loadGeneration, .act true true, .receive 0, .receive 1] : List PlaneEvent)

def copyFor (base : EMessage) (worker : String) : EMessage := broadcastCopy base ⟨worker, "t", 0⟩

def respond (channel : Nat) (message : EMessage) (verdict : Ack) : PlaneEvent :=
  .finish channel host { answer := verdict, message }

def respondBoth (verdict : Ack) : List PlaneEvent :=
  spread [.readNames, .readInboxes] ++ [respond 0 (copyFor news "v") .ack, respond 1 (copyFor news "w") verdict]

/-- The delayed retry of `w` comes due, and both workers acknowledge what the
second fan-out brings them. -/
def encore : List PlaneEvent :=
  let retried := { copyFor news "w" with attempts := 1 }
  ([.fetch 5, .deliverDelayed host] : List PlaneEvent) ++ spread [] ++
    [respond 0 (copyFor retried "v") .ack, respond 1 (copyFor retried "w") .ack]

def later : Ack := .noAck (some 5) 100

/-- A worker without a timeout answers for the copy in its hand, which its
middleware left alone. -/
def Plain (plane : Plane) : PlaneEvent → Prop
  | .finish channel _ run => ∀ cell ∈ plane.cells[channel]?, ∀ copy ∈ cell.hand,
      copy.origin = news ∧ copy.message = run.message ∧ some cell.worker.name = run.message.toWorker ∧
        cell.worker.timeOut = none
  | _ => True

instance (plane : Plane) : ∀ event, Decidable (Plain plane event)
  | .finish channel _ run => inferInstanceAs (Decidable (∀ cell ∈ plane.cells[channel]?, ∀ copy ∈ cell.hand,
      copy.origin = news ∧ copy.message = run.message ∧ some cell.worker.name = run.message.toWorker ∧
        cell.worker.timeOut = none))
  | .submit .. | .push .. | .claim | .reclaim .. | .loadGeneration | .readNames | .readInboxes | .act .. | .nack ..
  | .resume | .recv .. | .fetch .. | .deliverDelayed .. | .receive .. | .finishEphemeral .. | .create ..
  | .register .. | .notify .. | .exit .. | .unregister .. | .unmap .. | .forget .. | .stop .. | .close .. => instDecidableTrue

instance (origin : EMessage) (plane : Plane) : Decidable (Absent origin plane) :=
  inferInstanceAs (Decidable (∀ copy ∈ plane.live, copy.origin ≠ origin))

instance (node : Option String) (name other : String) : Decidable (Apart node name other) :=
  inferInstanceAs (Decidable ((resolves node other name = true → other = name) ∧
    (resolves node name other = true → other = name)))

private theorem host_reliable : Reliable pair "w" host where
  host := by decide
  wal := rfl
  sends _ _ := rfl
  schedules _ := rfl
  routes := by simp [host]
  clock := Int.le_refl _
  once := by decide
  apart := by decide

private theorem orderly_respond {plane} {channel : Nat} {message verdict}
    (plain : Plain plane (respond channel message verdict)) (budget : verdict = .ack ∨ message.toWorker = some "w" ∧
      ∃ retryAfter maxRetries, verdict = .noAck retryAfter maxRetries ∧ ¬ maxRetries ≤ message.attempts + 1) :
    Orderly pair news "w" plane (respond channel message verdict) := by
  intro cell found copy hand
  obtain ⟨ours, rfl, named, untimed⟩ := plain cell found copy hand
  have status : cell.worker.status { answer := verdict, message := copy.message } = verdict := by
    simp [Worker.status, untimed]
  have route : SameRoute copy.message copy.message := ⟨rfl, rfl, rfl⟩
  rcases budget with rfl | ⟨target, noAck⟩
  · by_cases same : cell.worker.name = "w"
    · exact .inr (.inr ⟨ours, route, same, .inl status, host_reliable⟩)
    · exact .inr (.inl ⟨ours, route, same, .inl status⟩)
  · have same : cell.worker.name = "w" := Option.some.inj (named.trans target)
    refine .inr (.inr ⟨ours, route, same, .inr ?_, host_reliable⟩)
    rwa [status]

private theorem orderly_of_plain : ∀ event ∈ respondBoth later ++ encore, ∀ plane, Plain plane event →
    Orderly pair news "w" plane event := by
  intro event listed plane plain
  cases event with
  | finish channel env run =>
    simp only [respondBoth, encore, spread, respond, mem_append, mem_cons, not_mem_nil, or_false, false_or,
      reduceCtorEq, PlaneEvent.finish.injEq] at listed
    rcases listed with (⟨rfl, rfl, rfl⟩ | ⟨rfl, rfl, rfl⟩) | ⟨rfl, rfl, rfl⟩ | ⟨rfl, rfl, rfl⟩
    · exact orderly_respond plain (.inl rfl)
    · exact orderly_respond plain (.inr ⟨rfl, some 5, 100, rfl, by decide⟩)
    · exact orderly_respond plain (.inl rfl)
    · exact orderly_respond plain (.inl rfl)
  | deliverDelayed env =>
    simp only [respondBoth, encore, spread, respond, mem_append, mem_cons, not_mem_nil, or_false, false_or,
      reduceCtorEq, PlaneEvent.deliverDelayed.injEq] at listed
    rw [listed]
    exact fun _ _ _ => host_reliable
  | act ack send =>
    have acked : ack = true := by
      simp_all [respondBoth, encore, spread, respond]
    exact fun _ _ _ => acked
  | submit | nack | recv | finishEphemeral | create | unregister => simp [respondBoth, encore, spread, respond] at listed
  | _ => trivial

end

end EventBase.Proofs.BroadcastRetry
