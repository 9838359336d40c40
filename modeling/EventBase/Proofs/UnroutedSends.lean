import EventBase.CrossfireNode
import EventBase.Foundations.Run
import EventBase.Proofs.TaskLogic

/-! Sends on the crossfire backend to a topic that nobody registered. -/

namespace EventBase.Proofs.UnroutedSends
open Foundations TaskLogic Option CrossfireNode

variable {index : Nat} {msg : EMessage} {topic : String} {env : Env} {routes : List String}

section
variable {config : CrossfireConfig} {node next : CrossfireNode}

theorem push_routes (pushed : node.push config index msg = some next) :
    next.routes = node.routes := by
  obtain ⟨channel, _, rest⟩ := bind_eq_some_iff.mp pushed
  split at rest
  · cases rest
    rfl
  · cases rest

theorem route_routes (routed : node.route config msg = some next) : next.routes = node.routes := by
  unfold route at routed
  split at routed
  · exact push_routes routed
  · split at routed
    · cases routed
      rfl
    · cases routed

theorem perform_routes {effect queue system} (performed : node.perform config queue system effect = some next) :
    next.routes = node.routes := by
  cases effect with
  | audit record => exact route_routes performed
  | walSync sync => exact route_routes performed
  | publish msg => exact route_routes performed
  | requeue msg =>
    obtain ⟨channel, _, pushed⟩ := bind_eq_some_iff.mp performed
    exact push_routes pushed
  | schedule record =>
    cases performed
    rfl

theorem act_routes {loop} (acted : node.act config index loop msg = some next) :
    next.routes = node.routes := by
  simp only [act] at acted
  split at acted
  · cases acted
    rfl
  · obtain ⟨worker, _, rfl⟩ := map_eq_some_iff.mp acted
    split <;> rfl
  · cases acted
    rfl
  · cases acted
    rfl

theorem loopStep_routes {loop action phase} (stepped : node.loopStep config index loop action phase = some next) :
    next.routes = node.routes := by
  unfold loopStep at stepped
  split at stepped
  · obtain ⟨channel, _, rest⟩ := bind_eq_some_iff.mp stepped
    split at rest
    · cases rest
      rfl
    · cases rest
  · split at stepped <;> cases stepped <;> rfl
  · cases stepped
    rfl
  · cases stepped
    rfl
  · exact act_routes stepped
  · have same := push_routes stepped
    exact same
  · cases stepped

theorem workerStep_routes {worker action} (stepped : node.workerStep index worker action = some next) :
    next.routes = node.routes := by
  revert stepped
  fun_cases workerStep node index worker action
  all_goals
    intro stepped
    cases stepped
  · rfl
  · simp only [process]
    split <;> rfl
  · rfl
  · rfl

theorem step_routes {event} (other : event ≠ .register topic) (stepped : node.step config event = some next)
    (unrouted : topic ∉ node.routes) : topic ∉ next.routes := by
  have kept (same : next.routes = node.routes) : topic ∉ next.routes := same ▸ unrouted
  cases event with
  | register registered =>
    cases stepped
    unfold register
    split
    · exact unrouted
    · rw [AList.mem_insert, not_or]
      exact ⟨fun same => other (by rw [same]), unrouted⟩
  | createWorker worker =>
    simp only [step] at stepped
    split at stepped
    · cases stepped
      unfold createWorker
      split <;> exact unrouted
    · cases stepped
  | delWorker name | delWorkers name | send env name msg trySend timeout | sendSystem env msg trySend timeout =>
    cases stepped
    exact unrouted
  | perform index system =>
    obtain ⟨job, _, rest⟩ := bind_eq_some_iff.mp stepped
    split at rest
    · have same := perform_routes rest
      exact kept same
    · cases rest
  | fetch index env =>
    obtain ⟨record, _, rfl⟩ := map_eq_some_iff.mp stepped
    exact unrouted
  | loop index action =>
    obtain ⟨loop, _, moved⟩ := bind_eq_some_iff.mp stepped
    exact kept (loopStep_routes moved)
  | worker index action =>
    obtain ⟨worker, _, moved⟩ := bind_eq_some_iff.mp stepped
    exact kept (workerStep_routes moved)

theorem unregistered_unrouted {events} (never : .register topic ∉ events)
    (ran : run (step config) {} events = some node) : topic ∉ node.routes := by
  have others : Along (step config) (fun _ event => event ≠ .register topic) {} events :=
    along_of_prefixes fun before event rest _ split _ same =>
      never (split ▸ same ▸ List.mem_append_right _ List.mem_cons_self)
  exact run_invariant (fun node => topic ∉ node.routes) (fun other unrouted stepped => step_routes other stepped unrouted)
    others (by simp) ran

theorem emit_unrouted (table : env.routes = some routes)
    (unrouted : msg.topic ∉ routes) (trySend : Option Bool) (timeout : Option Duration) :
    emit env msg trySend timeout =
      if isSystemTopic msg.topic then pure ()
      else throw (.queue (.send ("topic '" ++ msg.topic ++ "' is not registered"))) := by
  simp only [emit, routed, table, if_neg unrouted]

theorem emitCopies_unrouted (table : env.routes = some routes)
    (unrouted : msg.topic ∉ routes) (trySend : Option Bool) (timeout : Option Duration) (infos : List WorkerInfo) :
    emitCopies env msg trySend timeout infos =
      if isSystemTopic msg.topic ∨ infos = [] then pure ()
      else throw (.queue (.send ("topic '" ++ msg.topic ++ "' is not registered"))) := by
  induction infos with
  | nil => simp [emitCopies]
  | cons info rest ih =>
    have copy : (broadcastCopy msg info).topic = msg.topic := rfl
    rw [emitCopies, emit_unrouted table (copy ▸ unrouted), copy]
    by_cases system : isSystemTopic msg.topic
    · rw [if_pos system, if_pos (.inl system), pure_bind, ih, if_pos (.inl system)]
    · rw [if_neg system, if_neg (by simp [system])]
      rfl

theorem send_unrouted (table : env.routes = some routes)
    (unrouted : topic ∉ routes) (own : msg.deliveryMode = .broadcast → msg.deliverAt = none → msg.topic = topic)
    (trySend : Option Bool) (timeout : Option Duration) :
    Emits (TopicRouter.send env topic msg trySend timeout) fun added result =>
      (∀ effect ∈ added, ∃ record, effect = .schedule record) ∧
        (isSystemTopic topic = false → msg.deliverAt = none →
          (msg.deliveryMode = .broadcast → getWorkers env.registry topic ≠ []) → ∃ error, result = .error error) := by
  unfold TopicRouter.send
  refine .cond (fun delayed => .cond (fun _ => schedule_emits env (fun _ _ => ?_) fun _ error _ => ?_) fun _ => .throw _ ?_) fun now => ?_
  · refine ⟨by simp, fun _ due => ?_⟩
    rw [due] at delayed
    cases delayed
  · exact ⟨by simp, fun _ _ _ => ⟨error, rfl⟩⟩
  · exact ⟨by simp, fun _ _ _ => ⟨_, rfl⟩⟩
  have due : msg.deliverAt = none := by simpa using now
  refine .cond (fun broadcast => .cond (fun _ => .throw _ ⟨by simp, fun _ _ _ => ⟨_, rfl⟩⟩) fun _ => ?_) fun _ => ?_
  · have same := own broadcast due
    subst same
    rw [emitCopies_unrouted table unrouted]
    refine .cond (fun accepted => .pure () ⟨by simp, fun plain _ some => ?_⟩) fun _ => .throw _ ⟨by simp, fun _ _ _ => ⟨_, rfl⟩⟩
    rcases accepted with system | empty
    · rw [plain] at system
      cases system
    · exact absurd empty (some broadcast)
  · rw [emit_unrouted table (by exact unrouted)]
    refine .cond (fun system => .pure () ⟨by simp, fun plain _ _ => ?_⟩) fun _ => .throw _ ⟨by simp, fun _ _ _ => ⟨_, rfl⟩⟩
    exact absurd (plain.symm.trans system) (by simp)

end

end EventBase.Proofs.UnroutedSends
