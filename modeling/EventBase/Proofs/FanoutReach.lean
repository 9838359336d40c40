import EventBase.FanoutTopic

/-! Which messages on a coordination topic a node can read: those that are added once its
group exists. That `create_worker` has returned is not enough. -/

namespace EventBase.Proofs.FanoutReach
open Foundations FanoutTopic List Option

section
variable {topic group : String} {state next : FanoutTopic}

/-- Groups lie within the stream, workers have a dispatcher, and a dispatcher reads a group that exists. -/
structure Tracked (topic group : String) (state : FanoutTopic) : Prop where
  bounded : ∀ name found, state.groups name = some found → found.start ≤ found.cursor ∧ found.cursor ≤ state.entries.length
  spawned : ∀ node, (state.nodes node).created = true → (state.nodes node).dispatcher ≠ .absent
  ready : ∀ node, (state.nodes node).dispatcher = .ready → (state.groups (groupFor group topic (some node))).isSome

def Anchored (before after : FanoutTopic) : Prop :=
  ∀ name found, before.groups name = some found → ∃ later, after.groups name = some later ∧ later.start = found.start

theorem Anchored.refl (state : FanoutTopic) : Anchored state state := fun _ found present => ⟨found, present, rfl⟩

theorem Anchored.trans {first middle last} (before : Anchored first middle) (after : Anchored middle last) :
    Anchored first last := by
  intro name found present
  obtain ⟨later, kept, same⟩ := before name found present
  obtain ⟨final, held, still⟩ := after name later kept
  exact ⟨final, held, still.trans same⟩

theorem Anchored.isSome {before after} (anchored : Anchored before after) {name} (made : (before.groups name).isSome) :
    (after.groups name).isSome := by
  obtain ⟨found, present⟩ := isSome_iff_exists.mp made
  obtain ⟨later, kept, -⟩ := anchored name found present
  exact isSome_iff_exists.mpr ⟨later, kept⟩

theorem groups_setGroup_self (state : FanoutTopic) (name : String) (value : Option Group) :
    (state.setGroup name value).groups name = value := Function.update_self ..

theorem groups_setGroup_ne (state : FanoutTopic) {name other} (value : Option Group) (different : other ≠ name) :
    (state.setGroup name value).groups other = state.groups other := Function.update_of_ne different ..

theorem setGroup_anchored {name value}
    (kept : ∀ found, state.groups name = some found → ∃ later, value = some later ∧ later.start = found.start) :
    Anchored state (state.setGroup name value) := by
  intro other found present
  by_cases same : other = name
  · subst same
    obtain ⟨later, rfl, start⟩ := kept found present
    exact ⟨later, groups_setGroup_self .., start⟩
  · exact ⟨found, (groups_setGroup_ne _ _ same).trans present, rfl⟩

theorem setNode_tracked (tracked : Tracked topic group state) {node value}
    (spawned : value.created = true → value.dispatcher ≠ .absent)
    (ready : value.dispatcher = .ready → (state.groups (groupFor group topic (some node))).isSome) :
    Tracked topic group (state.setNode node value) := by
  refine ⟨tracked.bounded, fun other => ?_, fun other => ?_⟩
  all_goals
    simp only [setNode, Function.update_apply]
    split
  · exact spawned
  · exact tracked.spawned other
  · rename_i same
    exact same ▸ ready
  · exact tracked.ready other

theorem setGroup_tracked (tracked : Tracked topic group state) {name value}
    (anchored : Anchored state (state.setGroup name value))
    (bounded : ∀ found, value = some found → found.start ≤ found.cursor ∧ found.cursor ≤ state.entries.length) :
    Tracked topic group (state.setGroup name value) := by
  refine ⟨fun other found present => ?_, tracked.spawned, fun node reads => anchored.isSome (tracked.ready node reads)⟩
  by_cases same : other = name
  · subst same
    exact bounded found ((groups_setGroup_self state other value).symm.trans present)
  · exact tracked.bounded other found ((groups_setGroup_ne state value same).symm.trans present)

theorem createGroup_spec (tracked : Tracked topic group state) (name : String) (fromEnd : Bool) :
    Anchored state (state.setGroup name ((state.stream name).createGroup fromEnd).group) ∧
      Tracked topic group (state.setGroup name ((state.stream name).createGroup fromEnd).group) ∧
      ((state.setGroup name ((state.stream name).createGroup fromEnd).group).groups name).isSome := by
  have anchored : Anchored state (state.setGroup name ((state.stream name).createGroup fromEnd).group) := by
    refine setGroup_anchored fun found present => ⟨found, ?_, rfl⟩
    simp only [stream, Stream.createGroup, present]
  refine ⟨anchored, setGroup_tracked tracked anchored fun found created => ?_, ?_⟩
  · cases present : state.groups name with
    | some old =>
      simp only [stream, Stream.createGroup, present] at created
      exact tracked.bounded name found (present.trans created)
    | none =>
      simp only [stream, Stream.createGroup, present] at created
      cases created
      cases fromEnd with
      | true => exact ⟨Nat.le_refl _, Nat.le_refl _⟩
      | false => exact ⟨Nat.le_refl _, Nat.zero_le _⟩
  · rw [groups_setGroup_self]
    cases present : state.groups name <;> simp only [stream, Stream.createGroup, present, isSome_some]

theorem readGroup_spec (tracked : Tracked topic group state) {name count read after}
    (ran : (state.stream name).readGroup count = some (read, after)) :
    Anchored state (state.setGroup name after.group) ∧ Tracked topic group (state.setGroup name after.group) := by
  obtain ⟨old, present, same⟩ := map_eq_some_iff.mp ran
  have held : state.groups name = some old := present
  cases same
  have anchored : Anchored state (state.setGroup name
      (some { old with
        cursor := old.cursor + ((state.stream name).next old count).length
        pending := old.pending ++ ((state.stream name).next old count).map Prod.fst })) := by
    refine setGroup_anchored fun found other => ⟨_, rfl, ?_⟩
    rw [Option.some.inj (other.symm.trans held)]
  refine ⟨anchored, setGroup_tracked tracked anchored fun found later => ?_⟩
  cases later
  obtain ⟨start, cursor⟩ := tracked.bounded name old held
  simp only [Stream.next, stream, length_map, length_zipIdx, length_take, length_drop]
  omega

theorem step_spec (tracked : Tracked topic group state) {event} (stepped : step topic group state event = some next) :
    Anchored state next ∧ Tracked topic group next := by
  cases event with
  | publish message =>
    cases stepped
    refine ⟨.refl _, fun name found present => ?_, tracked.spawned, tracked.ready⟩
    obtain ⟨start, cursor⟩ := tracked.bounded name found present
    simp only [publish, length_append]
    omega
  | spawn node =>
    obtain ⟨-, rfl⟩ := guarded_step stepped
    exact ⟨.refl _, setNode_tracked tracked Bool.noConfusion DispatcherPhase.noConfusion⟩
  | created node =>
    simp only [step, ite_none_left_eq_some, Option.some.injEq] at stepped
    obtain ⟨present, rfl⟩ := stepped
    exact ⟨.refl _, setNode_tracked tracked (fun _ => present) (tracked.ready node)⟩
  | connect node =>
    obtain ⟨-, rfl⟩ := guarded_step stepped
    exact ⟨.refl _, setNode_tracked tracked (fun _ => DispatcherPhase.noConfusion) DispatcherPhase.noConfusion⟩
  | ensureGroup node answered =>
    obtain ⟨-, rfl⟩ := guarded_step stepped
    obtain ⟨anchored, kept, present⟩ := createGroup_spec tracked (groupFor group topic (some node)) (startsAtEnd topic)
    cases answered with
    | true => exact ⟨anchored, setNode_tracked kept (fun _ => DispatcherPhase.noConfusion) fun _ => present⟩
    | false => exact ⟨anchored, kept⟩
  | readGroup node count =>
    simp only [step, ite_none_right_eq_some] at stepped
    obtain ⟨⟨read, after⟩, ran, rfl⟩ := map_eq_some_iff.mp stepped.2
    exact readGroup_spec tracked ran
  | stop node =>
    cases stepped
    exact ⟨.refl _, setNode_tracked tracked Bool.noConfusion DispatcherPhase.noConfusion⟩

theorem start_tracked : Tracked topic group {} :=
  ⟨fun _ _ present => (by cases present), fun _ => Bool.noConfusion, fun _ => DispatcherPhase.noConfusion⟩

theorem run_tracked {events} (tracked : Tracked topic group state)
    (ran : run (step topic group) state events = some next) : Tracked topic group next :=
  run_preserves (Tracked topic group) (fun tracked stepped => (step_spec tracked stepped).2) tracked ran

theorem run_anchored {events} (tracked : Tracked topic group state)
    (ran : run (step topic group) state events = some next) : Anchored state next :=
  (run_preserves (fun current => Tracked topic group current ∧ Anchored state current)
    (fun ⟨tracked, anchored⟩ stepped => ⟨(step_spec tracked stepped).2, anchored.trans (step_spec tracked stepped).1⟩)
    ⟨tracked, .refl _⟩ ran).2

def Reaches (topic group node : String) (state : FanoutTopic) (position : Nat) : Prop :=
  ∀ events final, run (step topic group) state events = some final →
    ∀ found, final.groups (groupFor group topic (some node)) = some found → found.start ≤ position

theorem late_group {node} (fanout : topic ∈ fanoutSystemTopics) (tracked : Tracked topic group state)
    (created : (state.nodes node).created = true) (missing : state.groups (groupFor group topic (some node)) = none) :
    ∃ events final found, run (step topic group) state events = some final ∧
      final.groups (groupFor group topic (some node)) = some found ∧ found.start = state.entries.length := by
  have atEnd : startsAtEnd topic = true := decide_eq_true fanout
  have creates {current : FanoutTopic} (connected : (current.nodes node).dispatcher = .connected)
      (entries : current.entries = state.entries) (groups : current.groups = state.groups) :
      ∃ final found, step topic group current (.ensureGroup node false) = some final ∧
        final.groups (groupFor group topic (some node)) = some found ∧ found.start = state.entries.length := by
    refine ⟨_, ⟨state.entries.length, state.entries.length, []⟩, if_pos connected, ?_, rfl⟩
    simp only [Bool.false_eq_true, if_false, groups_setGroup_self, stream, Stream.createGroup, groups, missing, atEnd, if_true,
      entries]
  cases phase : (state.nodes node).dispatcher with
  | absent => exact absurd phase (tracked.spawned node created)
  | ready =>
    have present := tracked.ready node phase
    rw [missing] at present
    cases present
  | connected =>
    obtain ⟨final, found, stepped, made, start⟩ := creates phase rfl rfl
    exact ⟨[.ensureGroup node false], final, found, by simp only [run, stepped, bind_some], made, start⟩
  | spawned =>
    have connects : step topic group state (.connect node) =
        some (state.setNode node { state.nodes node with dispatcher := .connected }) := if_pos phase
    obtain ⟨final, found, stepped, made, start⟩ := @creates
      (state.setNode node { state.nodes node with dispatcher := .connected }) (by simp [setNode]) rfl rfl
    exact ⟨[.connect node, .ensureGroup node false], final, found,
      by simp only [run, connects, stepped, bind_some], made, start⟩

end

/-- A message that is added after the node's `create_worker` has returned is in reach of the node
exactly when the node's group existed before it was added. -/
theorem published_reaches_iff {topic group node : String} (fanout : topic ∈ fanoutSystemTopics) {events : List FanoutEvent}
    {state : FanoutTopic} (ran : run (step topic group) {} events = some state) (created : (state.nodes node).created = true)
    (message : EMessage) :
    Reaches topic group node (state.publish message) state.entries.length ↔
      (state.groups (groupFor group topic (some node))).isSome := by
  have tracked : Tracked topic group state := run_tracked start_tracked ran
  have later : Tracked topic group (state.publish message) := (@step_spec _ _ _ _ tracked (.publish message) rfl).2
  constructor
  · intro reaches
    by_contra missing
    have none : state.groups (groupFor group topic (some node)) = none := not_isSome_iff_eq_none.mp missing
    obtain ⟨more, final, found, continued, made, start⟩ := late_group fanout later created none
    have early := reaches more final continued found made
    rw [start, publish, length_append, length_singleton] at early
    omega
  · intro present more final continued found made
    obtain ⟨old, held⟩ := isSome_iff_exists.mp present
    obtain ⟨last, kept, start⟩ := run_anchored later continued _ old held
    obtain ⟨below, inside⟩ := tracked.bounded _ old held
    obtain rfl := Option.some.inj (made.symm.trans kept)
    omega

private def booted : List FanoutEvent := [.spawn "a", .created "a"]

private def notice : EMessage := EMessage.new "m" 0 systemTopicShutdown [] .standard none

/-- A node whose dispatcher has read once. -/
theorem reading_node_reached :
    ∃ state, run (step systemTopicShutdown "event_base") {} (booted ++ [.connect "a", .ensureGroup "a" true]) = some state ∧
      Reaches systemTopicShutdown "event_base" "a" (state.publish notice) 0 := by
  refine ⟨_, rfl, ?_⟩
  exact (published_reaches_iff (by decide) (rfl : run _ _ (booted ++ [.connect "a", .ensureGroup "a" true]) = _) rfl notice).mpr rfl

/-- The command is added between the return of `create_worker` and the dispatcher's first read. -/
theorem early_command_missed :
    ∃ before after found,
      run (step systemTopicShutdown "event_base") {} booted = some before ∧ (before.nodes "a").created = true ∧
      run (step systemTopicShutdown "event_base") (before.publish notice) [.connect "a", .ensureGroup "a" true] = some after ∧
      after.groups "event_base@a" = some found ∧ before.entries.length < found.start := by
  refine ⟨_, _, ⟨1, 1, []⟩, rfl, rfl, rfl, ?_, by decide⟩
  decide

end EventBase.Proofs.FanoutReach
