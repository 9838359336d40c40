import EventBase.Worker

/-! Rules for the effects a task can leave behind, whatever the oracles answer.
A task only ever appends to the trace, so an assertion about the appended part
composes along `bind`. -/

namespace EventBase.Proofs.TaskLogic

section
variable {α β : Type} {task : TaskM α} {post : List Effect → Except CoreError α → Prop} (env : Env)

/-- From any session the task appends some effects that satisfy `post` together
with the result it returns. -/
def Emits (task : TaskM α) (post : List Effect → Except CoreError α → Prop) : Prop :=
  ∀ session, ∃ added,
    match task session with
    | .ok value final => final.effects = session.effects ++ added ∧ post added (.ok value)
    | .error error final => final.effects = session.effects ++ added ∧ post added (.error error)

theorem Emits.weaken {other}
    (emits : Emits task post) (implies : ∀ added result, post added result → other added result) :
    Emits task other := by
  intro session
  obtain ⟨added, holds⟩ := emits session
  refine ⟨added, ?_⟩
  split at holds
  · exact ⟨holds.1, implies _ _ holds.2⟩
  · exact ⟨holds.1, implies _ _ holds.2⟩

theorem Emits.pure (value : α) (holds : post [] (.ok value)) : Emits (Pure.pure value : TaskM α) post :=
  fun _ => ⟨[], by simp [Pure.pure, EStateM.pure, holds]⟩

theorem Emits.throw (error : CoreError) (holds : post [] (.error error)) : Emits (MonadExcept.throw error : TaskM α) post :=
  fun _ => ⟨[], by simp [MonadExcept.throw, throwThe, MonadExceptOf.throw, EStateM.throw, holds]⟩

theorem Emits.bind {next : α → TaskM β} {post : List Effect → Except CoreError β → Prop}
    (first : Emits task (fun added result => match result with
      | .ok value => Emits (next value) (fun more final => post (added ++ more) final)
      | .error error => post added (.error error))) :
    Emits (task >>= next) post := by
  intro session
  obtain ⟨added, holds⟩ := first session
  simp only [Bind.bind, EStateM.bind]
  cases ran : task session with
  | error error final =>
    simp only [ran] at holds ⊢
    exact ⟨added, holds⟩
  | ok value middle =>
    simp only [ran] at holds ⊢
    obtain ⟨more, later⟩ := holds.2 middle
    refine ⟨added ++ more, ?_⟩
    cases continued : next value middle <;> simp only [continued] at later ⊢
    all_goals exact ⟨by rw [later.1, holds.1, List.append_assoc], later.2⟩

theorem Emits.recover {handler : CoreError → α} (emits : Emits task (fun added result => match result with
      | .ok value => post added (.ok value)
      | .error error => post added (.ok (handler error)))) :
    Emits (tryCatch task (fun error => Pure.pure (handler error))) post := by
  intro session
  obtain ⟨added, holds⟩ := emits session
  simp only [tryCatch, tryCatchThe, MonadExceptOf.tryCatch, EStateM.tryCatch]
  cases ran : task session with
  | ok value final =>
    simp only [ran] at holds ⊢
    exact ⟨added, holds⟩
  | error error final =>
    simp only [ran] at holds
    exact ⟨added, holds⟩

theorem Emits.ignore {task} {post : List Effect → Except CoreError Unit → Prop}
    (emits : Emits task (fun added _ => post added (.ok ()))) :
    Emits (tryCatch task (fun _ => Pure.pure ())) post := by
  refine Emits.recover (emits.weaken fun added result holds => ?_)
  cases result <;> exact holds

theorem Emits.cond {condition} [Decidable condition] {first second} (yes : condition → Emits first post)
    (no : ¬ condition → Emits second post) :
    Emits (if condition then first else second) post := by
  split
  · exact yes ‹_›
  · exact no ‹_›

theorem now_emits {post}
    (holds : ∀ tick, post [] (.ok (env.clock tick))) : Emits (now env) post :=
  fun session => ⟨[], by simp only [List.append_nil]; exact ⟨rfl, holds _⟩⟩

theorem liftExcept_emits (result : Except CoreError α) (holds : post [] result) : Emits (liftExcept result) post := by
  cases result with
  | ok value => exact .pure value holds
  | error error => exact .throw error holds

theorem produce_eq (mode : SendMode) (effect : Effect) (session : Session) :
    produce env mode effect session =
      match env.sends session.sends mode with
      | some error => .error error { session with sends := session.sends + 1 }
      | none => .ok () { session with sends := session.sends + 1, effects := session.effects ++ [effect] } := by
  simp only [produce, Bind.bind, EStateM.bind, get, getThe, MonadStateOf.get, EStateM.get]
  cases env.sends session.sends mode <;> rfl

theorem schedule_eq (record : WalRecord) (session : Session) :
    schedule env record session =
      match env.schedules session.schedules with
      | some error => .error error { session with schedules := session.schedules + 1 }
      | none => .ok () { session with schedules := session.schedules + 1, effects := session.effects ++ [.schedule record] } := by
  simp only [schedule, Bind.bind, EStateM.bind, get, getThe, MonadStateOf.get, EStateM.get]
  cases env.schedules session.schedules <;> rfl

theorem produce_emits {mode effect post}
    (accepted : ∀ call, env.sends call mode = none → post [effect] (.ok ()))
    (refused : ∀ call error, env.sends call mode = some error → post [] (.error error)) :
    Emits (produce env mode effect) post := by
  intro session
  rw [produce_eq]
  cases answer : env.sends session.sends mode with
  | none => exact ⟨[effect], rfl, accepted _ answer⟩
  | some error => exact ⟨[], (List.append_nil _).symm, refused _ _ answer⟩

theorem schedule_emits {record post}
    (accepted : ∀ call, env.schedules call = none → post [.schedule record] (.ok ()))
    (refused : ∀ call error, env.schedules call = some error → post [] (.error error)) :
    Emits (schedule env record) post := by
  intro session
  rw [schedule_eq]
  cases answer : env.schedules session.schedules with
  | none => exact ⟨[.schedule record], rfl, accepted _ answer⟩
  | some error => exact ⟨[], (List.append_nil _).symm, refused _ _ answer⟩

theorem routed_emits {topic mode effect post}
    (accepted : ∀ call, env.sends call mode = none → post [effect] (.ok ())) (dropped : post [] (.ok ()))
    (refused : ∀ error, post [] (.error error)) : Emits (routed env topic mode effect) post := by
  have produced := produce_emits env accepted fun _ error _ => refused error
  unfold routed
  split
  · exact produced
  · exact .cond (fun _ => produced) fun _ => .cond (fun _ => .pure () dropped) fun _ => .throw _ (refused _)

end

/-- Every effect the task leaves behind satisfies `allowed`. -/
def EmitsOnly {α : Type} (allowed : Effect → Prop) (task : TaskM α) : Prop :=
  Emits task (fun added _ => ∀ effect ∈ added, allowed effect)

namespace EmitsOnly
variable {α : Type} {allowed : Effect → Prop}

theorem pure (value : α) : EmitsOnly allowed (Pure.pure value : TaskM α) := Emits.pure value (by simp)

theorem throw (error : CoreError) : EmitsOnly allowed (MonadExcept.throw error : TaskM α) :=
  Emits.throw error (by simp)

theorem bind {β : Type} {task : TaskM α} {next : α → TaskM β} (first : EmitsOnly allowed task)
    (rest : ∀ value, EmitsOnly allowed (next value)) : EmitsOnly allowed (task >>= next) := by
  refine Emits.bind (Emits.weaken first ?_)
  intro added result each
  cases result with
  | error error => exact each
  | ok value =>
    refine Emits.weaken (rest value) fun more _ later effect member => ?_
    exact (List.mem_append.mp member).elim (each effect) (later effect)

theorem cond {condition} [Decidable condition] {first second : TaskM α}
    (yes : condition → EmitsOnly allowed first) (no : ¬ condition → EmitsOnly allowed second) :
    EmitsOnly allowed (if condition then first else second) := Emits.cond yes no

theorem ignore {task} (emits : EmitsOnly allowed task) :
    EmitsOnly allowed (tryCatch task (fun _ => Pure.pure ())) := Emits.ignore emits

theorem now (env : Env) : EmitsOnly allowed (EventBase.now env) := now_emits env (by simp)

theorem liftExcept (result : Except CoreError α) : EmitsOnly allowed (EventBase.liftExcept result) :=
  liftExcept_emits result (by simp)

theorem produce (env : Env) (mode : SendMode) {effect} (holds : allowed effect) :
    EmitsOnly allowed (EventBase.produce env mode effect) :=
  produce_emits env (fun _ _ => by simpa using holds) (by simp)

theorem schedule (env : Env) {record} (holds : allowed (.schedule record)) :
    EmitsOnly allowed (EventBase.schedule env record) :=
  schedule_emits env (fun _ _ => by simpa using holds) (by simp)

theorem routed (env : Env) (topic : String) (mode : SendMode) {effect} (holds : allowed effect) :
    EmitsOnly allowed (EventBase.routed env topic mode effect) :=
  routed_emits env (fun _ _ => by simpa using holds) (by simp) (by simp)

theorem emitCopies (env : Env) {msg trySend timeout workers}
    (copies : ∀ info ∈ workers, allowed (.publish (broadcastCopy msg info))) :
    EmitsOnly allowed (EventBase.emitCopies env msg trySend timeout workers) := by
  induction workers with
  | nil => exact .pure ()
  | cons info rest ih =>
    have first : EmitsOnly allowed (emit env (broadcastCopy msg info) trySend timeout) :=
      routed env _ _ (copies info List.mem_cons_self)
    exact first.bind fun _ => ih fun other member => copies other (List.mem_cons_of_mem _ member)

theorem send (env : Env) {topic msg trySend} {timeout : Option Duration}
    (later : msg.deliverAt.isSome = true → allowed (.schedule (WalRecord.fromMsg msg)))
    (fanned : msg.deliverAt = none → msg.deliveryMode = .broadcast →
      ∀ info ∈ getWorkers env.registry topic, allowed (.publish (broadcastCopy msg info)))
    (single : msg.deliverAt = none → msg.deliveryMode ≠ .broadcast → allowed (.publish { msg with topic := topic })) :
    EmitsOnly allowed (TopicRouter.send env topic msg trySend timeout) := by
  unfold TopicRouter.send
  refine .cond (fun due => .cond (fun _ => .schedule env (later due)) fun _ => .throw _) fun immediate => ?_
  have now : msg.deliverAt = none := by simpa using immediate
  refine .cond (fun mode => .cond (fun _ => .throw _) fun _ => ?_) fun mode => ?_
  · exact .emitCopies env (fanned now mode)
  · exact .routed env _ _ (single now mode)

theorem syncStatus (env : Env) (worker : Worker) {messageId topic status attempts error}
    (holds : ∀ sync, allowed (.walSync sync)) :
    EmitsOnly allowed (worker.syncStatus env messageId topic status attempts error) :=
  (now env).bind fun _ => (now env).bind fun _ => routed env _ _ (holds _)

theorem auditMsg (env : Env) (worker : Worker) {msg result eventType error duration}
    (holds : ∀ record, allowed (.audit record)) :
    EmitsOnly allowed (worker.auditMsg env msg result eventType error duration) :=
  (now env).bind fun _ => (routed env _ _ (holds _)).ignore

theorem processMsg (env : Env) (worker : Worker) {run msg} (audits : ∀ record, allowed (.audit record))
    (syncs : ∀ sync, allowed (.walSync sync)) (settles : isSystemTopic worker.topic ≠ true → ∀ processTime,
      EmitsOnly allowed (worker.settle env (worker.status run) run.message processTime)) :
    EmitsOnly allowed (worker.processMsg env run msg) := by
  have verdict (startTime : SystemTime) : EmitsOnly allowed
      (if isSystemTopic worker.topic = true then Pure.pure () else do
        let finishTime ← EventBase.now env
        let processTime ← EventBase.liftExcept (durationSince finishTime startTime)
        worker.settle env (worker.status run) run.message processTime) := by
    refine .cond (fun _ => .pure ()) fun business => ?_
    exact (now env).bind fun _ => (liftExcept _).bind fun processTime => settles business processTime
  have mark : EmitsOnly allowed (worker.markProcessing env msg.id msg.topic) := syncStatus env worker syncs
  have started := (now env).bind fun startTime =>
    EmitsOnly.cond (fun (_ : (!isSystemTopic worker.topic) = true) => mark.bind fun _ => verdict startTime)
      fun _ => verdict startTime
  exact .cond (fun _ => (auditMsg env worker audits).bind fun _ => started) fun _ => started

end EmitsOnly

theorem Emits.outcome {α : Type} {task : TaskM α} {post : List Effect → Except CoreError α → Prop}
    (emits : Emits task post) : post task.outcome.1 task.outcome.2 := by
  obtain ⟨added, holds⟩ := emits Session.start
  simp only [TaskM.outcome, EStateM.run]
  cases ran : task Session.start <;> simp only [ran] at holds ⊢
  all_goals
    rw [holds.1]
    exact holds.2

theorem outcome_ignore (task : TaskM Unit) : (TaskM.outcome (tryCatch task fun _ => Pure.pure ())).1 = task.outcome.1 := by
  simp only [TaskM.outcome, EStateM.run, tryCatch, tryCatchThe, MonadExceptOf.tryCatch, EStateM.tryCatch]
  cases task Session.start <;> rfl

theorem ne_audit_of_business {topic} (business : isSystemTopic topic = false) : topic ≠ systemTopicAudit := by
  rintro rfl
  exact absurd business (by decide)

theorem deadLetterTopic_ne (topic : String) : Worker.deadLetterTopic topic ≠ topic := by
  intro same
  have lengths := congrArg String.length same
  simp [Worker.deadLetterTopic] at lengths

end EventBase.Proofs.TaskLogic
