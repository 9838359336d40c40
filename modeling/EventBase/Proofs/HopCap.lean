import EventBase.Proofs.PlaneTraffic

/-! The hop limit drops no message that was sent without a target, as long as the names it
picks up on its way stay registered. -/

namespace EventBase.Proofs.HopCap
open Foundations PlaneSteps PlaneCoherence PlaneTraffic TaskTraffic DispatcherConservation TaskLogic Dispatcher

def Addressed (plane : Plane) (target : Option String) : Prop := ∀ name ∈ target, Registered plane name

def Enlisted (config : PlaneConfig) (plane : Plane) (env : Env) (msg : EMessage) : Prop :=
  msg.deliveryMode = .broadcast → ∀ info ∈ getWorkers env.registry config.topic, Registered plane info.workerName

/-- As far as what became of `origin` is concerned, a worker is removed only when
no message on the way carries its name, the loop acts with a cache of registered
workers, and neither middleware nor a fan-out names anybody else. -/
def Steady (config : PlaneConfig) (origin : EMessage) (plane : Plane) : PlaneEvent → Prop
  | .submit env msg => msg = origin → Enlisted config plane env msg
  | .deliverDelayed env => ∀ copy ∈ plane.fetched.head?, copy.origin = origin → Enlisted config plane env copy.message
  | .finish channel env run => ∀ cell ∈ plane.cells[channel]?, ∀ copy ∈ cell.hand, copy.origin = origin →
      Addressed plane run.message.toWorker ∧ Enlisted config plane env run.message
  | .finishEphemeral index _ env run => ∀ copy ∈ plane.ephemerals[index]?, copy.origin = origin →
      Addressed plane run.message.toWorker ∧ Enlisted config plane env run.message
  | .act _ _ => ∀ copy ∈ plane.phase.copies, copy.origin = origin →
      ∀ handle ∈ plane.dispatcher.cached, Registered plane handle.name
  | .unregister channel => ∀ cell ∈ plane.cells[channel]?, ∀ copy ∈ plane.live, copy.origin = origin →
      copy.message.toWorker ≠ some cell.worker.name
  | _ => True

section
variable (config : PlaneConfig) (origin : EMessage) (plane : Plane)

instance (target : Option String) : Decidable (Addressed plane target) :=
  inferInstanceAs (Decidable (∀ name ∈ target, Registered plane name))

instance (env : Env) (msg : EMessage) : Decidable (Enlisted config plane env msg) :=
  inferInstanceAs (Decidable (msg.deliveryMode = .broadcast →
    ∀ info ∈ getWorkers env.registry config.topic, Registered plane info.workerName))

instance : ∀ event, Decidable (Steady config origin plane event)
  | .submit env msg => inferInstanceAs (Decidable (msg = origin → Enlisted config plane env msg))
  | .deliverDelayed env => inferInstanceAs (Decidable (∀ copy ∈ plane.fetched.head?, copy.origin = origin →
      Enlisted config plane env copy.message))
  | .finish channel env run => inferInstanceAs (Decidable (∀ cell ∈ plane.cells[channel]?, ∀ copy ∈ cell.hand,
      copy.origin = origin → Addressed plane run.message.toWorker ∧ Enlisted config plane env run.message))
  | .finishEphemeral index _ env run => inferInstanceAs (Decidable (∀ copy ∈ plane.ephemerals[index]?,
      copy.origin = origin → Addressed plane run.message.toWorker ∧ Enlisted config plane env run.message))
  | .act .. => inferInstanceAs (Decidable (∀ copy ∈ plane.phase.copies, copy.origin = origin →
      ∀ handle ∈ plane.dispatcher.cached, Registered plane handle.name))
  | .unregister channel => inferInstanceAs (Decidable (∀ cell ∈ plane.cells[channel]?, ∀ copy ∈ plane.live,
      copy.origin = origin → copy.message.toWorker ≠ some cell.worker.name))
  | .push .. | .claim | .reclaim .. | .loadGeneration | .readNames | .readInboxes | .nack .. | .resume | .recv ..
  | .fetch .. | .receive .. | .create .. | .register .. | .notify .. | .exit .. | .unmap .. | .forget .. | .stop ..
  | .close .. => instDecidableTrue

end

section
variable {config : PlaneConfig} {origin : EMessage} {plane next : Plane} {event : PlaneEvent}

/-- What became of `origin` carries no name but a registered worker's. -/
def Anchor (origin : EMessage) (plane : Plane) (copy : Copy) : Prop :=
  copy.origin = origin → Addressed plane copy.message.toWorker

abbrev AnchoredTraffic (origin : EMessage) (plane : Plane) : Plane → Prop :=
  Throughout (Anchor origin plane) (Anchor origin plane) (Anchor origin plane)

theorem leaves_addressed {env msg effect} (addressed : Addressed plane msg.toWorker)
    (enlisted : Enlisted config plane env msg) (leaves : Leaves config.topic env msg effect) :
    Lands config.topic (fun sent => Addressed plane sent.toWorker) (fun sent => Addressed plane sent.toWorker) effect := by
  have nobody : Addressed plane none := nofun
  refine leaves.imp (fun sent descends => ?_) fun sent kin => ?_
  · rcases descends with same | cleared | ⟨mode, info, listed, named⟩
    · rwa [same]
    · rwa [cleared]
    · rw [named]
      rintro _ ⟨⟩
      exact enlisted mode info listed
  · rcases kin.target with same | cleared
    · rwa [same]
    · rwa [cleared]

theorem emission_addressed {effects} (free : origin.toWorker = none) (every : AnchoredTraffic origin plane plane)
    (steady : Steady config origin plane event) (emission : Emission config plane event origin effects) :
    ∀ effect ∈ effects, Lands config.topic (fun sent => Addressed plane sent.toWorker)
      (fun sent => Addressed plane sent.toWorker) effect := by
  intro effect member
  cases emission with
  | submit =>
    have addressed : Addressed plane origin.toWorker := by
      rw [free]
      exact nofun
    have kin : Kin origin origin := ⟨rfl, rfl, .inl rfl⟩
    exact leaves_addressed addressed (steady rfl) (Emits.outcome (send_leaves kin (.inl rfl)) effect member)
  | @deliverDelayed env copy _ fetched =>
    have addressed := every.fetched copy (by simp [fetched]) rfl
    have enlisted : Enlisted config plane env copy.message := steady copy (by simp [fetched]) rfl
    exact leaves_addressed addressed enlisted (Emits.outcome (deliverDelayed_leaves copy.message) effect member)
  | @finish _ _ run cell copy found hand =>
    obtain ⟨addressed, enlisted⟩ := steady cell found copy hand rfl
    exact leaves_addressed addressed enlisted (Emits.outcome (processMsg_leaves cell.worker run copy.message) effect member)
  | @finishEphemeral _ _ _ run copy found =>
    obtain ⟨addressed, enlisted⟩ := steady copy found rfl
    exact leaves_addressed addressed enlisted (Emits.outcome (processMsg_leaves _ run copy.message) effect member)

/-- The names stay those of registered workers, so none of these messages looks
foreign to the loop, to a recv loop or to a worker. -/
structure Anchored (config : PlaneConfig) (origin : EMessage) (plane : Plane) : Prop where
  coherent : Coherent config plane
  traffic : AnchoredTraffic origin plane plane
  known : Known plane fun copy target => copy.origin = origin ∧ target ∈ copy.message.toWorker
  kept : ∀ copy ∈ plane.dropped, copy.origin ≠ origin

variable (anchored : Anchored config origin plane)
include anchored

theorem Anchored.carries (steady : Steady config origin plane event) (stepped : Step config plane event next) :
    AnchoredTraffic origin next plane := by
  refine throughout_of_live fun copy member ours target named => ?_
  refine (anchored.traffic.live copy member ours target named).step stepped fun channel removal cell found => ?_
  subst removal
  rintro rfl
  exact steady cell found copy member ours named

theorem Anchored.traffic_step (free : origin.toWorker = none) (steady : Steady config origin plane event)
    (stepped : Step config plane event next) : AnchoredTraffic origin next next := by
  have stays {name : String} (registered : Registered plane name) (other : ∀ channel, event ≠ .unregister channel) :
      Registered next name := registered.step stepped fun channel same => absurd same (other channel)
  refine (anchored.carries steady stepped).step stepped (fun copy _ anchor => anchor) ?_ (fun copy anchor _ => anchor) ?_
  · rintro ack send copy target msg rfl phase branch ours name named
    obtain ⟨member, rfl⟩ := planned_deliver branch
    cases named
    exact stays (steady copy (by simp [phase, Phase.copies]) ours target member) (by simp)
  · intro source effects emission effect member
    have other : ∀ channel, event ≠ .unregister channel := by
      cases emission <;> simp
    by_cases ours : source = origin
    · subst ours
      have lands := emission_addressed free anchored.traffic steady emission effect member
      exact lands.imp (fun _ addressed _ name named => stays (addressed name named) other)
        fun _ addressed _ name named => stays (addressed name named) other
    · exact ⟨fun _ _ same => absurd same ours, fun _ _ same => absurd same ours⟩

theorem Anchored.kept_step (stepped : Step config plane event next) : ∀ copy ∈ next.dropped, copy.origin ≠ origin := by
  cases stepped with
  | @expire _ _ copy phase branch =>
    refine List.forall_mem_append.mpr ⟨anchored.kept, List.forall_mem_singleton.mpr fun ours => ?_⟩
    obtain ⟨target, named, foreign⟩ := planned_foreign (.inl branch)
    obtain ⟨handle, member, same⟩ := anchored.known.cached copy phase target ⟨ours, named⟩
    exact foreign handle member same
  | @recvExpired _ _ _ copy _ target queue shared targeted unknown =>
    refine List.forall_mem_append.mpr ⟨anchored.kept, List.forall_mem_singleton.mpr fun ours => ?_⟩
    have registered := anchored.traffic.queue copy (by simp [queue]) ours target targeted
    simp [registered.indexed] at unknown
  | giveUp found running hand misrouted =>
    simp [(anchored.coherent.cellOwned found).not_misrouted hand] at misrouted
  | _ => exact anchored.kept

theorem Anchored.step (free : origin.toWorker = none) (steady : Steady config origin plane event)
    (stepped : Step config plane event next) : Anchored config origin next where
  coherent := anchored.coherent.step stepped
  traffic := anchored.traffic_step free steady stepped
  known := anchored.known.step anchored.coherent stepped fun copy member target ⟨ours, named⟩ =>
    anchored.traffic.phase copy member ours target named
  kept := anchored.kept_step stepped

end

theorem Anchored.initial (config : PlaneConfig) (origin : EMessage) : Anchored config origin {} where
  coherent := .initial config
  traffic := throughout_of_live (by simp [Plane.live, Phase.copies])
  known := ⟨by simp, by simp⟩
  kept := by simp

/-- In a steady run no message that entered without a target, and nothing that
became of it, is given up at the hop cap. -/
theorem untargeted_never_dropped (config : PlaneConfig) (origin : EMessage) (events : List PlaneEvent) (plane : Plane)
    (free : origin.toWorker = none) (steady : Along (Plane.step config) (Steady config origin) {} events)
    (ran : run (Plane.step config) {} events = some plane) : ∀ copy ∈ plane.dropped, copy.origin ≠ origin :=
  have anchored := run_invariant (Anchored config origin)
    (fun steady anchored stepped => anchored.step free steady (step_sound stepped)) steady (.initial config origin) ran
  anchored.kept

section

def pair : PlaneConfig := { node := none, topic := "t" }

def host : Env := { nodeType := .host, registry := ∅ }

def order : EMessage := EMessage.new "m" 0 "t" [] .standard none

def hire : List PlaneEvent := [.create "v" none, .create "w" none, .register 0, .register 1]

def assign : List PlaneEvent :=
  [.submit host order, .push 0, .claim, .loadGeneration, .readNames, .readInboxes, .act true true, .receive 0]

def answered (answer : Ack) : PlaneEvent :=
  .finish 0 host { answer := answer, message := { order with toWorker := some "v" } }

def dismiss : List PlaneEvent := [.unregister 0, .unmap 0, .forget 0]

/-- `v` asks for a retry and is removed; the loop, which now knows only `w`,
relays the order until its hops are used up. -/
def stranded : List PlaneEvent :=
  ([answered (.noAck none 100), .push 0] : List PlaneEvent) ++ dismiss ++
    ([.claim, .loadGeneration, .readNames, .readInboxes, .act true true, .resume] : List PlaneEvent) ++
    (List.replicate 62 ([.claim, .loadGeneration, .act true true, .resume] : List PlaneEvent)).flatten ++
    ([.claim, .loadGeneration, .act true true] : List PlaneEvent)

def Staffed (plane : Plane) : Prop := ∃ cell ∈ plane.cells, cell.registered = true ∧ cell.stopped = false

instance (plane : Plane) : Decidable (Staffed plane) :=
  inferInstanceAs (Decidable (∃ cell ∈ plane.cells, cell.registered = true ∧ cell.stopped = false))

end

theorem completed_order_not_dropped :
    ∃ plane, run (Plane.step pair) {} (hire ++ assign ++ [answered .ack] ++ dismiss) = some plane ∧
      ∀ copy ∈ plane.dropped, copy.origin ≠ order :=
  ⟨_, rfl, untargeted_never_dropped pair order (hire ++ assign ++ [answered .ack] ++ dismiss) _ rfl (by decide) rfl⟩

/-- The stamp survives the retry, and the order is dropped although `w` is there
all the time. -/
theorem stamped_order_dropped :
    order.toWorker = none ∧
      (∃ plane ∈ run (Plane.step pair) {} hire,
        Along (Plane.step pair) (fun reached _ => Staffed reached) plane (assign ++ stranded)) ∧
      ∃ plane ∈ run (Plane.step pair) {} (hire ++ assign ++ stranded), ∃ copy ∈ plane.dropped, copy.origin = order := by
  decide +kernel

end EventBase.Proofs.HopCap
