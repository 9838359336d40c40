import EventBase.Proofs.RecoveryRuns

/-! Which WAL states a recovery delivers in order: every id at most once, and no
delayed message before its time. The replay reads the records and the scheduler the
delay store, so both deliver a message that is pending and delayed. -/

namespace EventBase.Proofs.RecoveryOrder
open Foundations DelayScores RecoveryRuns RecoverySteps List Recovery

variable {now : SystemTime} {id : String} {event : RecoveryEvent}

def Apart (first second : EMessage) : Prop := ∀ id, Carries first id → ¬ Carries second id

theorem Apart.symm {first second} (apart : Apart first second) : Apart second first :=
  fun id carried other => apart id other carried

structure Recoverable (store : DelayStore) : Prop where
  pending : store.replayPending.Pairwise fun first second => Apart first.message second.message
  between : ∀ record ∈ store.replayPending, ∀ id entry, store.delays.lookup id = some entry →
    Apart record.message entry.message
  entries : ∀ id other first second, store.delays.lookup id = some first → store.delays.lookup other = some second →
    id ≠ other → Apart first.message second.message
  exact : ∀ id entry, store.delays.lookup id = some entry → ∀ now, Fires now entry store → entry.due now = true

structure Orderly (crash : DelayStore) (state : Recovery) : Prop where
  once : (state.delivered.map fun delivery => delivery.1.id).Nodup
  waited : ∀ id entry deadline, crash.delays.lookup id = some entry → entry.message.deliverAt = some deadline →
    ∀ delivery ∈ state.delivered, Carries entry.message delivery.1.id → deadline ≤ delivery.2

def Held (state : Recovery) (msg : EMessage) : Prop :=
  (∃ record ∈ state.pending ++ state.fetched, record.message = msg) ∨
    ∃ id entry, state.store.delays.lookup id = some entry ∧ entry.message = msg

structure Once (state : Recovery) : Prop where
  waiting : (state.pending ++ state.fetched).Pairwise fun first second => Apart first.message second.message
  between : ∀ record ∈ state.pending ++ state.fetched, ∀ id entry, state.store.delays.lookup id = some entry →
    Apart record.message entry.message
  entries : ∀ id other first second, state.store.delays.lookup id = some first →
    state.store.delays.lookup other = some second → id ≠ other → Apart first.message second.message
  gone : ∀ delivery ∈ state.delivered, ∀ msg, Held state msg → ¬ Carries msg delivery.1.id
  once : (state.delivered.map fun delivery => delivery.1.id).Nodup

section
variable {state : Recovery} {record : WalRecord} {rest left : List WalRecord}

theorem Once.cons (once : Once state) (waiting : (state.pending ++ state.fetched).Perm (record :: rest)) :
    (record :: rest).Pairwise fun first second => Apart first.message second.message :=
  (waiting.pairwise_iff fun apart => apart.symm).mp once.waiting

theorem Once.head_apart (once : Once state) (waiting : (state.pending ++ state.fetched).Perm (record :: rest))
    (part : left.Sublist rest) {msg} (held : (∃ other ∈ left, other.message = msg) ∨
      ∃ id entry, state.store.delays.lookup id = some entry ∧ entry.message = msg) : Apart record.message msg := by
  obtain ⟨other, member, rfl⟩ | ⟨id, entry, found, rfl⟩ := held
  · exact (pairwise_cons.mp (once.cons waiting)).1 other (part.subset member)
  · exact once.between record (waiting.mem_iff.mpr mem_cons_self) id entry found

theorem Once.send (once : Once state) (waiting : (state.pending ++ state.fetched).Perm (record :: rest)) {next : Recovery}
    (part : (next.pending ++ next.fetched).Sublist rest) (same : next.store = state.store) {messages : List EMessage}
    (delivered : next.delivered = state.delivered ++ messages.map fun message => (message, state.clock))
    (carried : ∀ message ∈ messages, Carries record.message message.id) (distinct : (messages.map EMessage.id).Nodup) :
    Once next := by
  have kept : ∀ other ∈ next.pending ++ next.fetched, other ∈ state.pending ++ state.fetched := fun other member =>
    waiting.mem_iff.mpr (mem_cons_of_mem _ (part.subset member))
  have held : Held state record.message := .inl ⟨record, waiting.mem_iff.mpr mem_cons_self, rfl⟩
  have shrinks : ∀ msg, Held next msg → Held state msg ∧ Apart record.message msg := by
    intro msg holds
    rw [Held, same] at holds
    refine ⟨holds.imp_left ?_, once.head_apart waiting part holds⟩
    rintro ⟨other, member, itself⟩
    exact ⟨other, kept other member, itself⟩
  refine ⟨(pairwise_cons.mp (once.cons waiting)).2.sublist part, ?_, ?_, ?_, ?_⟩
  · exact fun other member => same ▸ once.between other (kept other member)
  · exact same ▸ once.entries
  · rw [delivered]
    intro delivery member msg holds
    obtain ⟨before, apart⟩ := shrinks msg holds
    obtain member | member := mem_append.mp member
    · exact once.gone delivery member msg before
    · obtain ⟨message, sent, rfl⟩ := mem_map.mp member
      exact apart message.id (carried message sent)
  · rw [delivered, map_append, map_map]
    refine nodup_append.mpr ⟨once.once, distinct, ?_⟩
    intro id earlier other later clash
    obtain ⟨delivery, member, rfl⟩ := mem_map.mp earlier
    obtain ⟨message, sent, rfl⟩ := mem_map.mp later
    exact once.gone delivery member record.message held (clash ▸ carried message sent)

theorem Once.postpone (once : Once state) (pending : state.pending = record :: rest) (part : left.Sublist rest)
    (summary : ReplaySummary) :
    Once { state with pending := left, summary, store := state.store.schedule (WalRecord.fromMsg record.message) } := by
  have split : state.pending ++ state.fetched = record :: (rest ++ state.fetched) := by rw [pending, cons_append]
  have waiting : (state.pending ++ state.fetched).Perm (record :: (rest ++ state.fetched)) := .of_eq split
  have short : (left ++ state.fetched).Sublist (rest ++ state.fetched) := part.append_right _
  have kept : (left ++ state.fetched).Sublist (state.pending ++ state.fetched) := split ▸ short.cons record
  refine ⟨once.waiting.sublist kept, ?_, ?_, ?_, once.once⟩
  · intro other member id entry found
    obtain ⟨_, itself⟩ | ⟨_, found⟩ := schedule_lookup found
    · rw [itself]
      exact (once.head_apart waiting short (.inl ⟨other, member, rfl⟩)).symm
    · exact once.between other (kept.subset member) id entry found
  · intro id other first second found also different
    obtain ⟨here, itself⟩ | ⟨_, found⟩ := schedule_lookup found
    · obtain ⟨there, _⟩ | ⟨_, also⟩ := schedule_lookup also
      · exact absurd (here.trans there.symm) different
      · rw [itself]
        exact once.head_apart waiting short (.inr ⟨other, second, also, rfl⟩)
    · obtain ⟨there, itself⟩ | ⟨_, also⟩ := schedule_lookup also
      · rw [itself]
        exact (once.head_apart waiting short (.inr ⟨id, first, found, rfl⟩)).symm
      · exact once.entries id other first second found also different
  · rintro delivery member msg (⟨other, among, rfl⟩ | ⟨id, entry, found, rfl⟩)
    · exact once.gone delivery member _ (.inl ⟨other, kept.subset among, rfl⟩)
    · obtain ⟨_, itself⟩ | ⟨_, found⟩ := schedule_lookup found
      · rw [itself]
        exact once.gone delivery member _ (.inl ⟨record, split ▸ mem_cons_self, rfl⟩)
      · exact once.gone delivery member _ (.inr ⟨id, entry, found, rfl⟩)

theorem fetched_of_mem {store} (member : record ∈ (store.fetchReady now).1) :
    ∃ id ∈ dueKeys now store, store.delays.lookup id = some record := by
  rw [fetchReady_records] at member
  exact mem_filterMap.mp member

theorem lookup_of_fetchReady {store entry} (found : (store.fetchReady now).2.delays.lookup id = some entry) :
    id ∉ dueKeys now store ∧ store.delays.lookup id = some entry := by
  rw [fetchReady_lookup] at found
  split at found
  · cases found
  · next absent => exact ⟨absent, found⟩

theorem Once.fetch (once : Once state) (replayed : state.pending = []) :
    Once { state with store := (state.store.fetchReady state.clock).2, fetched := (state.store.fetchReady state.clock).1 } := by
  have ready : ∀ record ∈ state.pending ++ (state.store.fetchReady state.clock).1,
      ∃ id ∈ dueKeys state.clock state.store, state.store.delays.lookup id = some record := by
    intro record member
    rw [replayed, nil_append] at member
    exact fetched_of_mem member
  refine ⟨?_, ?_, ?_, ?_, once.once⟩
  · rw [replayed, nil_append, fetchReady_records]
    refine List.Pairwise.filterMap _ ?_ (nodup_dueKeys state.clock state.store)
    intro id other different first found second also
    exact once.entries id other first second found also different
  · intro record member id entry found
    obtain ⟨key, due, itself⟩ := ready record member
    obtain ⟨absent, found⟩ := lookup_of_fetchReady found
    exact once.entries key id record entry itself found fun same => absent (same ▸ due)
  · intro id other first second found also
    exact once.entries id other first second (lookup_of_fetchReady found).2 (lookup_of_fetchReady also).2
  · rintro delivery member msg (⟨other, waiting, rfl⟩ | ⟨id, entry, found, rfl⟩)
    · obtain ⟨key, _, itself⟩ := ready other waiting
      exact once.gone delivery member _ (.inr ⟨key, other, itself, rfl⟩)
    · exact once.gone delivery member _ (.inr ⟨id, entry, (lookup_of_fetchReady found).2, rfl⟩)

end

theorem Once.move {state next} (once : Once state) (moved : Move state event next) :
    Once next := by
  cases moved with
  | tick later => exact ⟨once.waiting, once.between, once.entries, once.gone, once.once⟩
  | @postpone _ _ _ _ summary pending part => exact once.postpone pending part summary
  | @resend _ record rest _ _ _ pending part carried distinct =>
    have waiting : (state.pending ++ state.fetched).Perm (record :: (rest ++ state.fetched)) :=
      .of_eq (by rw [pending, cons_append])
    exact once.send waiting (part.append_right _) rfl rfl carried distinct
  | fetch replayed sent => exact once.fetch replayed
  | @deliver _ record rest _ fetched carried distinct =>
    have waiting : (state.pending ++ state.fetched).Perm (record :: (state.pending ++ rest)) :=
      fetched ▸ perm_middle
    exact once.send waiting (.refl _) rfl rfl carried distinct

/-- The entry is delivered at its deadline at the earliest. -/
structure Awaits (entry : EMessage) (deadline : SystemTime) (state : Recovery) : Prop where
  pending : ∀ record ∈ state.pending, Apart entry record.message
  fetched : ∀ record ∈ state.fetched, Apart entry record.message ∨ deadline ≤ state.clock
  stored : ∀ id record, state.store.delays.lookup id = some record →
    Apart entry record.message ∨ ∀ now, Fires now record state.store → deadline ≤ now
  delivered : ∀ delivery ∈ state.delivered, Carries entry delivery.1.id → deadline ≤ delivery.2

section
variable {state next : Recovery} {entry : EMessage} {deadline : SystemTime}

theorem Awaits.send (awaits : Awaits entry deadline state) {record : WalRecord} {messages : List EMessage}
    (carried : ∀ message ∈ messages, Carries record.message message.id)
    (other : Apart entry record.message ∨ deadline ≤ state.clock) :
    ∀ delivery ∈ state.delivered ++ messages.map fun message => (message, state.clock),
      Carries entry delivery.1.id → deadline ≤ delivery.2 := by
  intro delivery member carries
  obtain member | member := mem_append.mp member
  · exact awaits.delivered delivery member carries
  · obtain ⟨message, sent, rfl⟩ := mem_map.mp member
    obtain apart | come := other
    · exact absurd (carried message sent) (apart message.id carries)
    · exact come

theorem Awaits.move (awaits : Awaits entry deadline state) (indexed : Indexed state.store)
    (moved : Move state event next) : Awaits entry deadline next := by
  cases moved with
  | tick later =>
    refine ⟨awaits.pending, fun record member => ?_, awaits.stored, awaits.delivered⟩
    exact (awaits.fetched record member).imp_right fun come => Int.le_trans come later
  | @postpone _ record _ left _ pending part =>
    have remaining : ∀ other ∈ left, other ∈ state.pending := fun other member =>
      pending ▸ mem_cons_of_mem _ (part.subset member)
    refine ⟨fun other member => awaits.pending other (remaining other member), awaits.fetched, ?_, awaits.delivered⟩
    intro id stored found
    obtain ⟨_, itself⟩ | ⟨_, found⟩ := schedule_lookup found
    · rw [itself]
      exact .inl (awaits.pending record (pending ▸ mem_cons_self))
    · simpa using awaits.stored id stored found
  | @resend _ record _ left _ _ pending part carried distinct =>
    have remaining : ∀ other ∈ left, other ∈ state.pending := fun other member =>
      pending ▸ mem_cons_of_mem _ (part.subset member)
    refine ⟨fun other member => awaits.pending other (remaining other member), awaits.fetched, awaits.stored, ?_⟩
    exact awaits.send carried (.inl (awaits.pending record (pending ▸ mem_cons_self)))
  | fetch replayed sent =>
    refine ⟨awaits.pending, fun record member => ?_, fun id record found => ?_, awaits.delivered⟩
    · obtain ⟨id, due, found⟩ := fetched_of_mem member
      exact (awaits.stored id record found).imp_right fun exact => exact _ ((mem_dueKeys indexed found).mp due)
    · simpa using awaits.stored id record (lookup_of_fetchReady found).2
  | @deliver _ record rest _ fetched carried distinct =>
    have remaining : ∀ other ∈ rest, other ∈ state.fetched := fun other member =>
      fetched ▸ mem_cons_of_mem _ member
    refine ⟨awaits.pending, fun other member => awaits.fetched other (remaining other member), awaits.stored, ?_⟩
    exact awaits.send carried (awaits.fetched record (fetched ▸ mem_cons_self))

theorem indexed_move (indexed : Indexed state.store) (moved : Move state event next) :
    Indexed next.store := by
  cases moved with
  | postpone => exact indexed.schedule _
  | fetch => exact indexed.fetchReady _
  | _ => exact indexed

end

structure Sound (crash : DelayStore) (state : Recovery) : Prop where
  once : Once state
  indexed : Indexed state.store
  awaits : ∀ id entry deadline, crash.delays.lookup id = some entry → entry.message.deliverAt = some deadline →
    Awaits entry.message deadline state

@[simp] theorem start_pending (store : DelayStore) (clock : SystemTime) :
    (start none store clock).pending = store.replayPending := by
  simp [start, replayable]

section
variable {store : DelayStore} {clock : SystemTime}

theorem Recoverable.once (recoverable : Recoverable store) : Once (start none store clock) := by
  have waiting : (start none store clock).pending ++ (start none store clock).fetched =
      store.replayPending := by rw [start_pending]; exact append_nil _
  refine ⟨waiting ▸ recoverable.pending, ?_, recoverable.entries, by simp [start], by simp [start]⟩
  rw [waiting]
  exact recoverable.between

theorem Recoverable.awaits (recoverable : Recoverable store) {entry deadline}
    (found : store.delays.lookup id = some entry) (stamped : entry.message.deliverAt = some deadline) :
    Awaits entry.message deadline (start none store clock) := by
  refine ⟨fun record member => ?_, by simp [start], fun other record also => ?_, by simp [start]⟩
  · rw [start_pending] at member
    exact (recoverable.between record member id entry found).symm
  · by_cases same : id = other
    · subst same
      cases found.symm.trans also
      refine .inr fun now fires => ?_
      have due := recoverable.exact id entry found now fires
      rw [WalRecord.due, stamped] at due
      exact of_decide_eq_true due
    · exact .inl (recoverable.entries id other entry record found also same)

theorem Recoverable.orderly (recoverable : Recoverable store) (indexed : Indexed store) {events state}
    (named : ∀ event ∈ events, Named event)
    (ran : run step (start none store clock) events = some state) : Orderly store state := by
  have admitted : Along step (fun _ event => Named event) (start none store clock) events :=
    along_of_prefixes fun _ event _ _ split _ => named event (by rw [split]; simp)
  have initial : Sound store (start none store clock) :=
    ⟨recoverable.once, indexed, fun _ _ _ found stamped => recoverable.awaits found stamped⟩
  have sound : Sound store state := by
    refine run_invariant (Sound store) ?_ admitted initial ran
    intro before event after named sound stepped
    have moved := step_moves named stepped
    refine ⟨sound.once.move moved, indexed_move sound.indexed moved, fun id entry deadline found stamped => ?_⟩
    exact (sound.awaits id entry deadline found stamped).move sound.indexed moved
  refine ⟨sound.once.once, fun id entry deadline found stamped => ?_⟩
  exact (sound.awaits id entry deadline found stamped).delivered

end

structure Tidy (store : DelayStore) : Prop where
  indexed : Indexed store
  keyed : ∀ id entry, store.delays.lookup id = some entry → entry.message.id = id
  stamped : ∀ id entry, store.delays.lookup id = some entry → ∃ deadline, entry.message.deliverAt = some deadline

section
variable {registries : WalRecord → Table WorkerInfo}

theorem delivered_mem {records parts} (delivered : Delivered registries records parts) {record}
    (member : record ∈ records) (meets : Meets (registries record) record.message id) :
    id ∈ parts.flatten.map EMessage.id := by
  induction delivered with
  | nil => cases member
  | cons covers rest ih =>
    rw [flatten_cons, map_append]
    obtain rfl | member := mem_cons.mp member
    · exact mem_append_left _ (covers id meets)
    · exact mem_append_right _ (ih member)

theorem delivered_apart {records parts} (delivered : Delivered registries records parts)
    (once : (parts.flatten.map EMessage.id).Nodup) {first second} (among : [first, second].Sublist records)
    (meets : Meets (registries first) first.message id) : ¬ Meets (registries second) second.message id := by
  induction delivered with
  | nil => cases among
  | cons covers rest ih =>
    rw [flatten_cons, map_append] at once
    obtain ⟨_, later, disjoint⟩ := nodup_append.mp once
    cases among with
    | cons _ among => exact ih later among
    | cons_cons _ among =>
      intro also
      exact disjoint id (covers id meets) id (delivered_mem rest (singleton_sublist.mp among) also) rfl

end

theorem exists_after (records : List WalRecord) :
    ∃ clock : Int, ∀ record ∈ records, ∀ deadline, record.message.deliverAt = some deadline → deadline ≤ clock := by
  induction records with
  | nil => exact ⟨0, by simp⟩
  | cons record rest ih =>
    obtain ⟨clock, after⟩ := ih
    refine ⟨max clock (record.message.deliverAt.getD 0), fun other member deadline stamped => ?_⟩
    obtain rfl | member := mem_cons.mp member
    · rw [stamped]
      exact Int.le_max_right _ _
    · exact Int.le_trans (after other member deadline stamped) (Int.le_max_left _ _)

theorem not_inFuture {record : WalRecord} {clock}
    (after : ∀ deadline, record.message.deliverAt = some deadline → deadline ≤ clock) : record.inFuture clock = false := by
  unfold WalRecord.inFuture
  split
  · next deadline stamped => exact decide_eq_false (Int.not_lt.mpr (after deadline stamped))
  · rfl

theorem Tidy.exists_late {store : DelayStore} (tidy : Tidy store) :
    ∃ clock, (∀ record ∈ store.replayPending, record.inFuture clock = false) ∧
      ∀ id entry, store.delays.lookup id = some entry → Fires clock entry store := by
  cases store with
  | inProcess store =>
    obtain ⟨clock, after⟩ := exists_after (store.replayPending ++ Table.values store.delays)
    refine ⟨clock, fun record member => not_inFuture (after record (mem_append_left _ member)), ?_⟩
    intro id entry found
    obtain ⟨deadline, stamped⟩ := tidy.stamped id entry found
    have passed := after entry (mem_append_right _ (mem_values_iff.mpr ⟨id, found⟩)) deadline stamped
    simpa [Fires, WalRecord.due, stamped] using passed
  | redis store =>
    obtain ⟨since, after⟩ := exists_after store.replayPending
    obtain ⟨clock, later, highest⟩ := exists_highest_score since
    refine ⟨clock, fun record member => not_inFuture fun deadline stamped => ?_, fun id entry found => ?_⟩
    · exact Int.le_trans (after record member deadline stamped) later
    · have bounded := score_deliverAtMillis_le entry
      rwa [← highest] at bounded

section
variable {store : DelayStore}

theorem mem_fetchReady (tidy : Tidy store) {clock entry} (found : store.delays.lookup id = some entry)
    (fires : Fires clock entry store) : entry ∈ (store.fetchReady clock).1 := by
  rw [fetchReady_records]
  exact mem_filterMap.mpr ⟨id, (mem_dueKeys tidy.indexed found).mpr fires, found⟩

def AlwaysOrderly (store : DelayStore) : Prop :=
  ∀ clock events state, (∀ event ∈ events, Named event) →
    run step (start none store clock) events = some state → Orderly store state

theorem AlwaysOrderly.apart (always : AlwaysOrderly store) {clock}
    (present : ∀ record ∈ store.replayPending, record.inFuture clock = false) :
    (store.replayPending ++ (store.fetchReady clock).1).Pairwise fun first second => Apart first.message second.message := by
  refine pairwise_iff_forall_sublist.mpr fun {first second} among id carried also => ?_
  obtain ⟨one, oneNamed, meets⟩ := meets_of_carries carried
  obtain ⟨other, otherNamed, clashes⟩ := meets_of_carries also
  let registries : WalRecord → Table WorkerInfo := fun record => if record = first then one else other
  have named : ∀ record, NamedBy (registries record) := by
    intro record
    by_cases same : record = first
    · simpa [registries, same] using oneNamed
    · simpa [registries, same] using otherNamed
  obtain ⟨events, final, parts, wellNamed, ran, delivered, total⟩ := recovery_all registries named store present
  have once := (always clock events final wellNamed ran).once
  have ids : final.delivered.map (fun delivery => delivery.1.id) = parts.flatten.map EMessage.id := by
    rw [total, map_map]
    rfl
  rw [ids] at once
  refine delivered_apart delivered once among (by simpa [registries] using meets) ?_
  by_cases same : second = first
  · subst same
    simpa [registries] using meets
  · simpa [registries, same] using clashes

theorem AlwaysOrderly.exact (always : AlwaysOrderly store) (tidy : Tidy store) {entry}
    (found : store.delays.lookup id = some entry) (fires : Fires now entry store) : entry.due now = true := by
  obtain ⟨deadline, stamped⟩ := tidy.stamped id entry found
  obtain ⟨name, carries⟩ := carries_something entry.message
  obtain ⟨registry, named, meets⟩ := meets_of_carries carries
  obtain ⟨events, summary, wellNamed, ran⟩ :=
    @replay_refused store.replayPending (start none store now) (start_pending store now)
  obtain ⟨final, parts, drained, delivered, total⟩ :=
    @deliver_all (fun _ => registry) (store.fetchReady now).1
      { start none store now with
        pending := [], summary, store := (store.fetchReady now).2, fetched := (store.fetchReady now).1 } rfl
  have whole : run step (start none store now) (events ++ .fetch ::
      (store.fetchReady now).1.map fun record => .deliver (willing registry 0)) = some final := by
    rw [run_append, ran, Option.bind_some, run]
    exact drained
  have orderly := always now _ final (fun event member => ?_) whole
  · have reached := delivered_mem delivered (mem_fetchReady tidy found fires) meets
    obtain ⟨message, sent, rfl⟩ := mem_map.mp reached
    have early := orderly.waited id entry deadline found stamped (message, now) (by
      rw [total]
      exact mem_append_right _ (mem_map_of_mem sent)) carries
    simpa [WalRecord.due, stamped] using early
  · simp only [mem_append, mem_cons, mem_map] at member
    obtain member | rfl | ⟨record, _, rfl⟩ := member
    · exact wellNamed event member
    · trivial
    · exact named

theorem AlwaysOrderly.recoverable (always : AlwaysOrderly store) (tidy : Tidy store) : Recoverable store := by
  obtain ⟨clock, present, fires⟩ := tidy.exists_late
  obtain ⟨pending, ready, between⟩ := pairwise_append.mp (always.apart present)
  refine ⟨pending, fun record member id entry found => ?_, fun id other first second found also different => ?_,
    fun id entry found now due => always.exact tidy found due⟩
  · exact between record member entry (mem_fetchReady tidy found (fires id entry found))
  · have distinct : first ≠ second := by
      rintro rfl
      exact different ((tidy.keyed id first found).symm.trans (tidy.keyed other first also))
    have : Std.Symm fun first second : WalRecord => Apart first.message second.message := ⟨fun _ _ apart => apart.symm⟩
    exact ready.forall (mem_fetchReady tidy found (fires id first found)) (mem_fetchReady tidy also (fires other second also))
      distinct

end

section
variable {store : DelayStore} {backend : WalBackend}

theorem Tidy.frame {after} (tidy : Tidy store) (indexed : Indexed after) (same : after.delays = store.delays) :
    Tidy after := ⟨indexed, same ▸ tidy.keyed, same ▸ tidy.stamped⟩

theorem append_frame (record : WalRecord) (indexed : Indexed store) :
    Indexed (store.append record) ∧ (store.append record).delays = store.delays := by
  cases store with
  | inProcess store => exact ⟨trivial, rfl⟩
  | redis store => exact ⟨indexed, rfl⟩

theorem updateState_frame (messageId : String) (status : WalRecordState) (placeholder : EMessage) (indexed : Indexed store) :
    Indexed (store.updateState backend messageId status placeholder) ∧
      (store.updateState backend messageId status placeholder).delays = store.delays := by
  cases store with
  | inProcess store =>
    refine ⟨trivial, ?_⟩
    cases backend with
    | memory =>
      simp only [DelayStore.updateState, WalBackend.updateState, MemoryWal.updateState, DelayStore.delays]
      split <;> rfl
    | persistent =>
      simp only [DelayStore.updateState, WalBackend.updateState, PersistentWal.apply, PersistentWal.updateState, DelayStore.delays]
      cases store.records.lookup messageId <;> rfl
  | redis store =>
    simp only [DelayStore.updateState, RedisWal.apply, RedisWal.updateState]
    cases store.records.lookup messageId <;> exact ⟨indexed, rfl⟩

theorem Tidy.schedule (tidy : Tidy store) (message : EMessage) (deliverAt : SystemTime) :
    Tidy (store.schedule (WalRecord.fromMsg { message with deliverAt := some deliverAt })) := by
  refine ⟨tidy.indexed.schedule _, fun id entry found => ?_, fun id entry found => ?_⟩
  · obtain ⟨keyed, itself⟩ | ⟨_, found⟩ := schedule_lookup found
    · rw [itself, keyed]
    · exact tidy.keyed id entry found
  · obtain ⟨_, itself⟩ | ⟨_, found⟩ := schedule_lookup found
    · exact ⟨deliverAt, by rw [itself]; rfl⟩
    · exact tidy.stamped id entry found

theorem tidy_of_reachable (reachable : DelayStore.Reachable backend store) : Tidy store := by
  induction reachable with
  | inProcess => exact ⟨trivial, fun _ _ found => (by cases found), fun _ _ found => (by cases found)⟩
  | redis => exact ⟨fun _ => rfl, fun _ _ found => (by cases found), fun _ _ found => (by cases found)⟩
  | change before change tidy =>
    cases change with
    | append record =>
      obtain ⟨indexed, same⟩ := append_frame record tidy.indexed
      exact tidy.frame indexed same
    | sync messageId status placeholder =>
      obtain ⟨indexed, same⟩ := updateState_frame messageId status placeholder tidy.indexed
      exact tidy.frame indexed same
    | schedule message deliverAt => exact tidy.schedule message deliverAt

end

/-- Recoveries from a WAL deliver every id at most once and no delayed message before its
time exactly when the pending records and the delay entries are all apart from each other
and the store calls no entry due before its time. -/
theorem recovery_orderly_iff {backend : WalBackend} {store : DelayStore} (reachable : DelayStore.Reachable backend store) :
    AlwaysOrderly store ↔ Recoverable store := by
  have tidy := tidy_of_reachable reachable
  exact ⟨fun always => always.recoverable tidy,
    fun recoverable _ _ _ named ran => recoverable.orderly tidy.indexed named ran⟩

private theorem apart_of_single {first second} (one : first.deliveryMode = .standard)
    (other : second.deliveryMode = .standard) (different : first.id ≠ second.id) : Apart first second := by
  intro id carried also
  simp only [Carries, one, other] at carried also
  exact different (carried.symm.trans also)

private def invoice : EMessage := EMessage.new "invoice" 0 "billing" [] .standard none

private def reminder : EMessage := EMessage.new "reminder" 0 "billing" [] .standard none

private def invoiceWal : DelayStore := (DelayStore.inProcess .empty).change .persistent (.append (WalRecord.fromMsg invoice))

private def waitingWal : DelayStore := invoiceWal.change .persistent (.schedule reminder 5000000)

theorem waiting_reminder_recovered_in_order :
    DelayStore.Reachable .persistent waitingWal ∧ waitingWal.replayPending.length = 1 ∧ AlwaysOrderly waitingWal := by
  have reachable : DelayStore.Reachable .persistent waitingWal := .change (.change .inProcess _) _
  have pending : waitingWal.replayPending = [{ WalRecord.fromMsg invoice with recordId := 1 }] := by decide +kernel
  have delayed : ∀ id entry, waitingWal.delays.lookup id = some entry →
      id = "reminder" ∧ entry.message = { reminder with deliverAt := some 5000000 } := by
    intro id entry found
    have scheduled : waitingWal =
      invoiceWal.schedule (WalRecord.fromMsg { reminder with deliverAt := some 5000000 }) := rfl
    rw [scheduled] at found
    obtain ⟨keyed, itself⟩ | ⟨_, found⟩ := schedule_lookup found
    · exact ⟨keyed, itself⟩
    · cases found
  refine ⟨reachable, by decide +kernel, (recovery_orderly_iff reachable).mpr ⟨?_, ?_, ?_, fun _ _ _ _ fires => fires⟩⟩
  · rw [pending]
    exact pairwise_singleton _ _
  · intro record member id entry found
    rw [pending, mem_singleton] at member
    rw [member, (delayed id entry found).2]
    exact apart_of_single rfl rfl (by decide)
  · intro id other first second found also different
    exact absurd ((delayed id first found).1.trans (delayed other second also).1.symm) different

/-- The invoice was to be retried at 5 ms: its record is pending and its retry delayed. -/
private def retryWal : DelayStore :=
  ((invoiceWal.change .persistent (.sync "invoice" .processing invoice)).change .persistent
    (.sync "invoice" .pending invoice)).change .persistent (.schedule invoice 5000000)

private def billing : Env := { nodeType := .host, registry := ∅ }

/-- The replay sends the invoice at once, and the scheduler sends it again at 5 ms. -/
theorem delayed_retry_delivered_twice :
    DelayStore.Reachable .persistent retryWal ∧ ¬ AlwaysOrderly retryWal := by
  refine ⟨.change (.change (.change (.change .inProcess _) _) _) _, fun always => ?_⟩
  obtain ⟨state, ran, twice⟩ : ∃ state ∈ run step (start none retryWal 0)
      [.replay billing, .tick 5000000, .fetch, .deliver billing],
      state.delivered.map (fun delivery => (delivery.1.id, delivery.2)) = [("invoice", 0), ("invoice", 5000000)] := by
    decide +kernel
  have named : ∀ event ∈ [.replay billing, .tick 5000000, .fetch, .deliver billing], Named event := by
    simp [Named, NamedBy, billing]
  have once := (always 0 _ state named ran).once
  have ids : state.delivered.map (fun delivery => delivery.1.id) = ["invoice", "invoice"] := by
    have firsts := congrArg (List.map Prod.fst) twice
    simpa [map_map, Function.comp_def] using firsts
  rw [ids] at once
  simp at once

end EventBase.Proofs.RecoveryOrder
