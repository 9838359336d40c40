import EventBase.Foundations.Run
import EventBase.RoutingTable

/-! Queue creation against concurrent sends. It takes the routing table with `try_write` and
panics where a reader has it. -/

namespace EventBase.Proofs.RouteCreation
open Foundations List Option RoutingState

def routedTopic : RoutingTask → Option String
  | .register topic (.inserting _) | .register topic (.created _) | .register topic (.returned (.ok _)) => some topic
  | _ => none

def isPanicked : RoutingTask → Bool
  | .register _ (.panicked _) => true
  | _ => false

/-- No `create_queue` panicked, those that got past the table left their topic in
it, and those under way can go on. -/
structure Unharmed (capacity : Nat) (state : RoutingState) : Prop where
  calm : ∀ task ∈ state.tasks, isPanicked task = false
  routed : ∀ task ∈ state.tasks, ∀ topic, routedTopic task = some topic → topic ∈ state.routes
  prompt : ∀ (index : Nat) (topic : String) (phase : RegisterPhase), state.tasks[index]? = some (.register topic phase) →
    (phase = .creating ∨ ∃ channel, phase = .inserting channel) → (state.step capacity (.advance index)).isSome

/-- `create_queue` meets nobody who reads the table. -/
def Uncontended (state : RoutingState) (event : RoutingEvent) : Prop :=
  ∀ (index : Nat) (topic : String), event = .advance index → state.tasks[index]? = some (.register topic .creating) →
    ∀ task ∈ state.tasks, task.readsTable = false

inductive Move (state : RoutingState) : RoutingEvent → RoutingState → Prop
  | spawn {event : RoutingEvent} {task : RoutingTask} (idle : task.holdsTopics = false) (unrouted : routedTopic task = none)
      (calm : isPanicked task = false) : Move state event { state with tasks := state.tasks ++ [task] }
  | enter {index : Nat} {topic : String} (found : state.tasks[index]? = some (.register topic .waiting))
      (free : ∀ task ∈ state.tasks, task.holdsTopics = false) :
      Move state (.advance index) (state.setTask index (.register topic .entered))
  | refuse {index : Nat} {topic : String} (found : state.tasks[index]? = some (.register topic .entered)) :
      Move state (.advance index)
        (state.setTask index (.register topic (.returned (.error (.topic (.alreadyExists topic))))))
  | check {index : Nat} {topic : String} (found : state.tasks[index]? = some (.register topic .entered)) :
      Move state (.advance index) (state.setTask index (.register topic .creating))
  | create {index : Nat} {topic : String} (found : state.tasks[index]? = some (.register topic .creating)) :
      Move state (.advance index) (state.createQueue index topic)
  | inserted {index channel : Nat} {topic : String} (found : state.tasks[index]? = some (.register topic (.inserting channel))) :
      Move state (.advance index) (state.setTask index (.register topic (.created channel)))
  | finish {index channel : Nat} {topic : String} (found : state.tasks[index]? = some (.register topic (.created channel))) :
      Move state (.advance index) { state.setTask index (.register topic (.returned (.ok ()))) with
        localTopics := state.localTopics.insert topic channel }
  | send {index : Nat} {attempt : Bool} {msg : EMessage} {phase after : SendPhase} {channels : List (List EMessage)}
      (found : state.tasks[index]? = some (.send attempt msg phase)) :
      Move state (.advance index) { state.setTask index (.send attempt msg after) with channels := channels }
  | receive {channel : Nat} {channels : List (List EMessage)} :
      Move state (.receive channel) { state with channels := channels }

section
variable {capacity : Nat} {state next : RoutingState} {event : RoutingEvent}

theorem register_moves {index topic phase} (found : state.tasks[index]? = some (.register topic phase))
    (stepped : state.register index topic phase = some next) :
    Move state (.advance index) next := by
  revert stepped
  fun_cases register state index topic phase
  all_goals
    intro stepped
    cases stepped
  · next free =>
    simp only [List.any_eq_true, not_exists, not_and, Bool.not_eq_true] at free
    exact .enter found free
  · exact .refuse found
  · exact .check found
  · exact .create found
  · exact .inserted found
  · exact .finish found

theorem send_moves {index attempt msg phase} (found : state.tasks[index]? = some (.send attempt msg phase))
    (stepped : state.send capacity index attempt msg phase = some next) : Move state (.advance index) next := by
  revert stepped
  fun_cases send capacity state index attempt msg phase
  all_goals
    intro stepped
    cases stepped
  all_goals exact .send found

theorem step_moves (stepped : state.step capacity event = some next) : Move state event next := by
  cases event with
  | register topic =>
    cases stepped
    exact .spawn rfl rfl rfl
  | send attempt msg =>
    cases stepped
    exact .spawn rfl rfl rfl
  | advance index =>
    obtain ⟨task, found, advanced⟩ := bind_eq_some_iff.mp stepped
    cases task with
    | register topic phase => exact register_moves found advanced
    | send attempt msg phase => exact send_moves found advanced
  | receive channel =>
    obtain ⟨messages, _, taken⟩ := bind_eq_some_iff.mp stepped
    split at taken
    · cases taken
    · cases taken
      exact .receive

structure Ordered (state : RoutingState) : Prop where
  alone : ∀ (index other : Nat) (first second : RoutingTask), state.tasks[index]? = some first → first.holdsTopics = true →
    state.tasks[other]? = some second → second.holdsTopics = true → index = other
  calm : ∀ task ∈ state.tasks, isPanicked task = false
  routed : ∀ task ∈ state.tasks, ∀ topic, routedTopic task = some topic → topic ∈ state.routes

theorem Ordered.set (ordered : Ordered state) {index old new} (found : state.tasks[index]? = some old)
    (tasks : next.tasks = state.tasks.set index new)
    (holds : new.holdsTopics = true → old.holdsTopics = true ∨ ∀ task ∈ state.tasks, task.holdsTopics = false)
    (calm : isPanicked new = false) (grows : ∀ topic, topic ∈ state.routes → topic ∈ next.routes)
    (routed : ∀ topic, routedTopic new = some topic → topic ∈ next.routes) : Ordered next := by
  have single {other : Nat} {task : RoutingTask} (held : new.holdsTopics = true) (present : state.tasks[other]? = some task)
      (holding : task.holdsTopics = true) : index = other := by
    obtain before | free := holds held
    · exact ordered.alone index other old task found before present holding
    · rw [free task (mem_of_getElem? present)] at holding
      cases holding
  refine ⟨fun first second one two atFirst holdsFirst atSecond holdsSecond => ?_, fun task member => ?_,
    fun task member topic made => ?_⟩
  · rw [tasks] at atFirst atSecond
    obtain ⟨rfl, rfl⟩ | ⟨_, present⟩ := getElem?_set_cases atFirst
    · obtain ⟨rfl, _⟩ | ⟨_, other⟩ := getElem?_set_cases atSecond
      · rfl
      · exact single holdsFirst other holdsSecond
    · obtain ⟨rfl, rfl⟩ | ⟨_, other⟩ := getElem?_set_cases atSecond
      · exact (single holdsSecond present holdsFirst).symm
      · exact ordered.alone first second one two present holdsFirst other holdsSecond
  · rw [tasks] at member
    rcases mem_or_eq_of_mem_set member with before | rfl
    · exact ordered.calm task before
    · exact calm
  · rw [tasks] at member
    rcases mem_or_eq_of_mem_set member with before | rfl
    · exact grows topic (ordered.routed task before topic made)
    · exact routed topic made

theorem Ordered.tableFree (ordered : Ordered state) {index : Nat} {topic}
    (found : state.tasks[index]? = some (.register topic .creating))
    (unread : ∀ task ∈ state.tasks, task.readsTable = false) :
    state.tableFree = true := by
  have unwritten : ∀ task ∈ state.tasks, task.holdsTable = false := by
    intro task member
    refine Bool.eq_false_iff.mpr fun writes => ?_
    obtain ⟨other, present⟩ := getElem?_of_mem member
    have holds : task.holdsTopics = true := by
      unfold RoutingTask.holdsTable at writes
      split at writes
      · rfl
      · cases writes
    cases ordered.alone index other _ task found rfl present holds
    cases found.symm.trans present
    cases writes
  simp only [RoutingState.tableFree, Bool.and_eq_true, Bool.not_eq_true', List.any_eq_false, Bool.not_eq_true]
  exact ⟨unread, unwritten⟩

theorem Ordered.move (ordered : Ordered state) (uncontended : Uncontended state event) (move : Move state event next) :
    Ordered next := by
  have kept : ∀ topic, topic ∈ state.routes → topic ∈ state.routes := fun _ member => member
  cases move with
  | @spawn event task idle unrouted calm =>
    refine ⟨fun first second one two atFirst holdsFirst atSecond holdsSecond => ?_, fun other member => ?_,
      fun other member topic made => ?_⟩
    · obtain ⟨_, rfl⟩ | present := getElem?_concat_cases atFirst
      · rw [idle] at holdsFirst
        cases holdsFirst
      · obtain ⟨_, rfl⟩ | last := getElem?_concat_cases atSecond
        · rw [idle] at holdsSecond
          cases holdsSecond
        · exact ordered.alone first second one two present holdsFirst last holdsSecond
    · rcases mem_append.mp member with before | new
      · exact ordered.calm other before
      · rw [mem_singleton.mp new]
        exact calm
    · rcases mem_append.mp member with before | new
      · exact ordered.routed other before topic made
      · rw [mem_singleton.mp new, unrouted] at made
        cases made
  | enter found free => exact ordered.set found rfl (fun _ => .inr free) rfl kept (by rintro _ ⟨⟩)
  | refuse found => exact ordered.set found rfl (by rintro ⟨⟩) rfl kept (by rintro _ ⟨⟩)
  | check found => exact ordered.set found rfl (fun _ => .inl rfl) rfl kept (by rintro _ ⟨⟩)
  | @create index topic found =>
    have free : state.tableFree = true := ordered.tableFree found (uncontended index topic rfl found)
    rw [createQueue, if_pos free]
    refine ordered.set found rfl (fun _ => .inl rfl) rfl (fun other member => ?_) ?_
    · exact (AList.mem_insert _).mpr (.inr member)
    · rintro _ ⟨⟩
      exact (AList.mem_insert _).mpr (.inl rfl)
  | inserted found =>
    refine ordered.set found rfl (fun _ => .inl rfl) rfl kept fun topic made => ?_
    exact ordered.routed _ (mem_of_getElem? found) topic made
  | finish found =>
    refine ordered.set found rfl (by rintro ⟨⟩) rfl kept fun topic made => ?_
    exact ordered.routed _ (mem_of_getElem? found) topic made
  | send found => exact ordered.set found rfl (by rintro ⟨⟩) rfl kept (by rintro _ ⟨⟩)
  | receive => exact ⟨ordered.alone, ordered.calm, ordered.routed⟩

theorem Ordered.unharmed (ordered : Ordered state) (capacity : Nat) : Unharmed capacity state := by
  refine ⟨ordered.calm, ordered.routed, fun index topic phase found under => ?_⟩
  rw [step, found]
  obtain rfl | ⟨channel, rfl⟩ := under <;> rfl

theorem contended_panics {index topic reader} (found : state.tasks[index]? = some (.register topic .creating))
    (member : reader ∈ state.tasks) (reads : reader.readsTable = true) :
    ∃ next, state.step capacity (.advance index) = some next ∧ ¬ Unharmed capacity next := by
  have busy : state.tableFree = false := by
    have read : state.tasks.any RoutingTask.readsTable = true := any_eq_true.mpr ⟨reader, member, reads⟩
    rw [tableFree, read]
    rfl
  refine ⟨state.createQueue index topic, by rw [step, found]; rfl, fun unharmed => ?_⟩
  have panicked : RoutingTask.register topic (.panicked "create_queue: routing table lock contention") ∈
      (state.createQueue index topic).tasks := by
    rw [createQueue, busy]
    exact List.mem_set (List.getElem?_eq_some_iff.mp found).1 _
  cases unharmed.calm _ panicked

end

/-- In a run every `create_queue` gets its topic into the table, and none panics,
exactly when each of them meets the table without readers. -/
theorem creation_unharmed_iff (capacity : Nat) (events : List RoutingEvent) :
    (∀ before after state, events = before ++ after → run (RoutingState.step capacity) {} before = some state →
      Unharmed capacity state) ↔ Along (RoutingState.step capacity) Uncontended {} events := by
  constructor
  · intro unharmed
    refine along_of_prefixes fun before event rest state split ran index topic advances found task member => ?_
    subst advances
    refine Bool.eq_false_iff.mpr fun reads => ?_
    obtain ⟨next, stepped, harmed⟩ := @contended_panics capacity state index topic task found member reads
    refine harmed (unharmed (before ++ [.advance index]) rest next (by rw [split]; simp) ?_)
    rw [run_append, ran, bind_some, run, stepped]
    rfl
  · rintro uncontended before after state rfl ran
    have empty : Ordered {} := by
      refine ⟨fun _ _ _ _ present => ?_, fun _ member => ?_, fun _ member => ?_⟩
      · cases present
      · cases member
      · cases member
    have ordered : Ordered state := run_invariant Ordered
      (fun uncontended ordered stepped => ordered.move uncontended (step_moves stepped)) uncontended.of_append empty ran
    exact ordered.unharmed capacity

private def order : EMessage := EMessage.new "m" 0 "orders" [] .standard none

/-- A send looks its topic up while another topic is being registered. -/
theorem lookup_breaks_registration :
    ∃ state ∈ run (RoutingState.step 8) {}
        [.register "mails", .send false order, .advance 1, .advance 0, .advance 0, .advance 0],
      state.tasks = [.register "mails" (.panicked "create_queue: routing table lock contention"), .send false order .reading] ∧
        "mails" ∉ state.routes := by
  decide +kernel

end EventBase.Proofs.RouteCreation
