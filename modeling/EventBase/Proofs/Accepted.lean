import EventBase.Proofs.TaskLogic

/-! Tasks whose calls are all accepted: they succeed, and what a reader of their
trace finds there is known exactly. -/

namespace EventBase.Proofs.Accepted
open TaskLogic Worker

variable {first task : TaskM Unit} {next : Unit → TaskM Unit} {m n : Nat}

/-- The second clock reading of a business worker starts the measurement, the
fifth ends it. -/
def ClockAdvances (env : Env) : Prop := env.clock 1 ≤ env.clock 4

def business : Effect → Option Effect
  | .audit _ | .walSync _ => none
  | effect => some effect

section
variable {β : Type}

/-- The task succeeds after `ticks` clock readings and adds `added` to what
`view` shows of the trace. -/
def Posts (view : Effect → Option β) (task : TaskM Unit) (ticks : Nat) (added : List β) : Prop :=
  ∀ session, ∃ final, task session = .ok () final ∧ final.ticks = session.ticks + ticks ∧
    final.effects.filterMap view = session.effects.filterMap view ++ added

variable {view : Effect → Option β}

theorem Posts.bind {added more}
    (head : Posts view first m added) (rest : Posts view (next ()) n more) :
    Posts view (first >>= next) (m + n) (added ++ more) := by
  intro session
  obtain ⟨middle, ran, ticks, posted⟩ := head session
  obtain ⟨final, continued, later, last⟩ := rest middle
  refine ⟨final, by simp only [Bind.bind, EStateM.bind, ran, continued], by omega, ?_⟩
  rw [last, posted, List.append_assoc]

theorem Posts.seq {second added more} (head : Posts view first m added) (rest : Posts view second n more) :
    Posts view (first >>= fun _ => second) (m + n) (added ++ more) :=
  Posts.bind head rest

theorem Posts.after {added}
    (silent : Posts view first m []) (rest : Posts view (next ()) n added) :
    Posts view (first >>= next) (m + n) added := silent.bind rest

theorem Posts.before {added}
    (head : Posts view first m added) (silent : Posts view (next ()) n []) :
    Posts view (first >>= next) (m + n) added := by
  simpa only [List.append_nil] using head.bind silent

theorem Posts.pure : Posts view (Pure.pure ()) 0 [] := fun session => ⟨session, rfl, rfl, by simp⟩

theorem Posts.now {env next added} (each : ∀ time, Posts view (next time) n added) :
    Posts view (now env >>= next) (n + 1) added := by
  intro session
  obtain ⟨final, ran, ticks, posted⟩ := each (env.clock session.ticks) { session with ticks := session.ticks + 1 }
  exact ⟨final, ran, ticks.trans (Nat.add_right_comm _ _ _), posted⟩

theorem Posts.ignore {added} (posts : Posts view task n added) :
    Posts view (tryCatch task fun _ => Pure.pure ()) n added := by
  intro session
  obtain ⟨final, ran, posted⟩ := posts session
  refine ⟨final, ?_, posted⟩
  simp only [tryCatch, tryCatchThe, MonadExceptOf.tryCatch, EStateM.tryCatch, ran]

/-- The task succeeds, and what it adds to the view is `good`. -/
def Ends (view : Effect → Option β) (task : TaskM Unit) (good : List β → Prop) : Prop :=
  ∀ session, ∃ final added, task session = .ok () final ∧
    final.effects.filterMap view = session.effects.filterMap view ++ added ∧ good added

variable {good : List β → Prop}

theorem Posts.ends {ticks added} (posts : Posts view task ticks added)
    (holds : good added) : Ends view task good := by
  intro session
  obtain ⟨final, ran, -, posted⟩ := posts session
  exact ⟨final, added, ran, posted, holds⟩

theorem Ends.after (silent : Posts view first m [])
    (rest : Ends view (next ()) good) : Ends view (first >>= next) good := by
  intro session
  obtain ⟨middle, ran, -, posted⟩ := silent session
  obtain ⟨final, added, continued, last, holds⟩ := rest middle
  refine ⟨final, added, by simp only [Bind.bind, EStateM.bind, ran, continued], ?_, holds⟩
  rw [last, posted, List.append_nil]

theorem Ends.now {env next} (each : ∀ time, Ends view (next time) good) :
    Ends view (now env >>= next) good := by
  intro session
  exact each (env.clock session.ticks) { session with ticks := session.ticks + 1 }

theorem Ends.ignore (ends : Ends view task good) :
    Ends view (tryCatch task fun _ => Pure.pure ()) good := by
  intro session
  obtain ⟨final, added, ran, posted, holds⟩ := ends session
  refine ⟨final, added, ?_, posted, holds⟩
  simp only [tryCatch, tryCatchThe, MonadExceptOf.tryCatch, EStateM.tryCatch, ran]

theorem Ends.outcome (ends : Ends view task good) : good (task.outcome.1.filterMap view) := by
  obtain ⟨final, added, ran, posted, holds⟩ := ends Session.start
  have bare : Session.start.effects.filterMap view = [] := rfl
  rw [bare, List.nil_append] at posted
  simpa only [TaskM.outcome, EStateM.run, ran, posted] using holds

variable (view) {env : Env} (accepts : ∀ call mode, env.sends call mode = none)
include accepts

theorem produce_posts (mode : SendMode) (effect : Effect) : Posts view (produce env mode effect) 0 (view effect).toList := by
  intro session
  refine ⟨{ session with sends := session.sends + 1, effects := session.effects ++ [effect] }, ?_, rfl, ?_⟩
  · rw [produce_eq, accepts]
  · simp only [List.filterMap_append, List.filterMap_cons, List.filterMap_nil]
    cases view effect <;> rfl

theorem routed_posts {topic} (routes : ∀ table, env.routes = some table → topic ∈ table) (mode : SendMode)
    (effect : Effect) : Posts view (routed env topic mode effect) 0 (view effect).toList := by
  unfold routed
  cases table : env.routes with
  | none => exact produce_posts view accepts mode effect
  | some known => simpa only [routes known table, if_true] using produce_posts view accepts mode effect

theorem routed_system_posts {topic} (mode : SendMode) {effect} (system : isSystemTopic topic = true)
    (hidden : view effect = none) : Posts view (routed env topic mode effect) 0 [] := by
  have produced : Posts view (produce env mode effect) 0 [] := by
    simpa only [hidden, Option.toList_none] using produce_posts view accepts mode effect
  unfold routed
  cases env.routes with
  | none => exact produced
  | some routes =>
    simp only [system, if_true]
    split
    · exact produced
    · exact .pure

theorem syncStatus_posts (worker : Worker) (messageId topic : String) (status : WalRecordState) (attempts : UInt32)
    (error : Option String) (hidden : ∀ sync, view (.walSync sync) = none) :
    Posts view (worker.syncStatus env messageId topic status attempts error) 2 [] :=
  .now fun _ => .now fun _ => routed_system_posts view accepts _ (by decide) (hidden _)

theorem syncStatus_shows {view : Effect → Option β} (worker : Worker) (messageId topic : String) (status : WalRecordState)
    (attempts : UInt32) (error : Option String) (routes : ∀ table, env.routes = some table → systemTopicWalSync ∈ table)
    {shown : β}
    (shows : ∀ lastAttemptAt timestamp, view (.walSync
      { messageId, topic, workerId := worker.name, status, attempts, lastAttemptAt, error, timestamp }) = some shown) :
    Posts view (worker.syncStatus env messageId topic status attempts error) 2 [shown] := by
  refine .now fun lastAttemptAt => .now fun timestamp => ?_
  have sent := routed_posts view accepts routes (sendMode env none none)
    (.walSync ⟨messageId, topic, worker.name, status, attempts, lastAttemptAt, error, timestamp⟩)
  rwa [shows] at sent

theorem auditMsg_posts (worker : Worker) (msg : EMessage) (result : AuditResult) (eventType : AuditEventType)
    (error : Option String) (duration : Option Duration) (hidden : ∀ record, view (.audit record) = none) :
    Posts view (worker.auditMsg env msg result eventType error duration) 1 [] :=
  .now fun _ => .ignore (routed_system_posts view accepts _ (by decide) (hidden _))

omit accepts in
theorem processMsg_announces {view : Effect → Option β} {shown reported : List β} (worker : Worker) (run : PipelineRun)
    (msg : EMessage) (topic : isSystemTopic worker.topic = false)
    (announces : Posts view (worker.auditMsg env msg .start .processingStarted none none) 1 shown)
    (reports : Posts view (worker.markProcessing env msg.id msg.topic) 2 reported) :
    ∃ middle, middle.ticks = 5 ∧ middle.effects.filterMap view = shown ++ reported ∧
      worker.processMsg env run msg Session.start =
        (liftExcept (durationSince (env.clock 4) (env.clock 1)) >>= worker.settle env (worker.status run) run.message)
          middle := by
  have other : worker.topic ≠ systemTopicAudit := ne_audit_of_business topic
  obtain ⟨announced, audited, ticks, posted⟩ := announces Session.start
  obtain ⟨marked, processing, later, still⟩ := reports { announced with ticks := announced.ticks + 1 }
  have started : announced.ticks = 1 := ticks
  have finished : marked.ticks = 4 := by simpa [started] using later
  refine ⟨{ marked with ticks := marked.ticks + 1 }, ?_, ?_, ?_⟩
  · simp only [finished]
  · rw [still, posted]
    rfl
  · rw [started] at processing
    simp only [processMsg, topic, other, Bind.bind, EStateM.bind, audited, now, get, getThe, MonadStateOf.get,
      EStateM.get, set, EStateM.set, Pure.pure, EStateM.pure, processing, started, finished,
      Bool.not_false, ne_eq, not_false_eq_true, decide_true, Bool.and_self, if_true, Bool.false_eq_true, if_false]

theorem processMsg_reaches_settle (worker : Worker) (run : PipelineRun) (msg : EMessage)
    (topic : isSystemTopic worker.topic = false) :
    ∃ middle, middle.effects.filterMap business = [] ∧
      worker.processMsg env run msg Session.start =
        (liftExcept (durationSince (env.clock 4) (env.clock 1)) >>= worker.settle env (worker.status run) run.message)
          middle := by
  obtain ⟨middle, -, bare, reaches⟩ := processMsg_announces worker run msg topic
    (auditMsg_posts business accepts worker msg .start .processingStarted none none fun _ => rfl)
    (syncStatus_posts business accepts worker msg.id msg.topic .processing 0 none fun _ => rfl)
  exact ⟨middle, bare, reaches⟩

theorem emitCopies_posts {shown : EMessage → β} (shows : ∀ msg, view (.publish msg) = some (shown msg)) (msg : EMessage)
    (routes : ∀ table, env.routes = some table → msg.topic ∈ table) (trySend : Option Bool) (timeout : Option Duration)
    (workers : List WorkerInfo) :
    Posts view (emitCopies env msg trySend timeout workers) 0 (workers.map fun info => shown (broadcastCopy msg info)) := by
  induction workers with
  | nil => exact .pure
  | cons info rest ih =>
    have first := routed_posts view accepts routes (sendMode env trySend timeout) (.publish (broadcastCopy msg info))
    rw [shows] at first
    exact first.seq ih

theorem processMsg_ends {good} (worker : Worker) (run : PipelineRun) (msg : EMessage)
    (topic : isSystemTopic worker.topic = false) (clock : ClockAdvances env)
    (settles : ∀ processTime, Ends business (worker.settle env (worker.status run) run.message processTime) good) :
    good ((worker.processMsg env run msg).outcome.1.filterMap business) := by
  obtain ⟨middle, reports, reaches⟩ := processMsg_reaches_settle accepts worker run msg topic
  obtain ⟨final, added, ran, posted, holds⟩ := settles (env.clock 4 - env.clock 1).toNat middle
  have settled : worker.processMsg env run msg Session.start = .ok () final := by
    rw [reaches]
    simpa only [durationSince, if_pos (show env.clock 1 ≤ env.clock 4 from clock), liftExcept, pure_bind] using ran
  rw [reports, List.nil_append] at posted
  simpa only [TaskM.outcome, EStateM.run, settled, posted] using holds

end

theorem schedule_posts {β : Type} (view : Effect → Option β) {env} (accepts : ∀ call, env.schedules call = none)
    (record : WalRecord) : Posts view (schedule env record) 0 (view (.schedule record)).toList := by
  intro session
  refine ⟨{ session with schedules := session.schedules + 1, effects := session.effects ++ [.schedule record] }, ?_, rfl, ?_⟩
  · rw [schedule_eq, accepts]
  · simp only [List.filterMap_append, List.filterMap_cons, List.filterMap_nil]
    cases view (.schedule record) <;> rfl

end EventBase.Proofs.Accepted
