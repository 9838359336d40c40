import EventBase.ChannelOperations
import EventBase.Foundations.Descent

/-! When `try_send` and `claim_batch` have to wait. What they have seen of a channel
holds until another party uses it. -/

namespace EventBase.Proofs.NonBlockingCalls
open Foundations ChannelNode ChannelNode

def NonBlocking : ChannelPhase → Prop
  | .trying .. | .routing _ | .checked .. | .polling .. | .counting .. | .draining .. => True
  | .idle | .forwarding _ | .sending .. | .receiving _ => False

section
variable (config : QueueConfig) (node : ChannelNode)

def puts (party : Nat) : Option Nat :=
  match node.parties party with
  | .checked channel _ | .sending channel _ => some channel
  | .trying channel _ => if config.backend = .flume then some channel else none
  | _ => none

def takes (party : Nat) : Option Nat :=
  match node.parties party with
  | .receiving channel | .draining channel (_ + 1) => some channel
  | _ => none

/-- A step leaves room for every other party that has found some, and leaves the
messages that another party has counted. -/
def Considerate : ChannelEvent → Prop
  | .act party =>
    (∀ channel, puts config node party = some channel → ∀ other ≠ party, ∀ msg, node.parties other = .checked channel msg →
      config.isFull ((node.channels channel).length + 1) = false) ∧
    (∀ channel, takes node party = some channel → ∀ other ≠ party, ∀ left, node.parties other = .draining channel left →
      config.backend = .mpmc → left ≤ (node.channels channel).tail.length)
  | _ => True

def Current : ChannelPhase → Prop
  | .checked channel _ => node.closed channel = true ∨ node.isFull config channel = false
  | .draining channel left => config.backend = .mpmc → node.closed channel = true ∨ left ≤ (node.channels channel).length
  | _ => True

def Ready : Prop := ∀ party, Current config node (node.parties party)

inductive Acts (party : Nat) : ChannelNode → Prop where
  | turn (phase : ChannelPhase) (current : Current config node phase) : Acts party (node.setPhase party phase)
  | put (channel : Nat) (msg : EMessage) (target : puts config node party = some channel) :
    Acts party ((node.setChannel channel (node.channels channel ++ [msg])).setPhase party .idle)
  | take (channel : Nat) (source : takes node party = some channel) (phase : ChannelPhase)
      (next : phase = .idle ∨ ∃ left, phase = .draining channel left ∧ node.parties party = .draining channel (left + 1)) :
    Acts party ((node.setChannel channel (node.channels channel).tail).setPhase party phase)

end

section
variable {config : QueueConfig} {node next : ChannelNode} {party channel : Nat} {msg : EMessage} {phase : ChannelPhase}

theorem acts_send (target : puts config node party = some channel) (sent : node.send config party channel msg = some next) :
    Acts config node party next := by
  unfold send at sent
  split at sent
  · cases sent
    exact .turn .idle trivial
  · split at sent
    · cases sent
    · cases sent
      exact .put channel msg target

theorem acts_receive (source : takes node party = some channel)
    (after : phase = .idle ∨ ∃ left, phase = .draining channel left ∧ node.parties party = .draining channel (left + 1))
    (received : node.receive party channel phase = some next) : Acts config node party next := by
  unfold receive at received
  split at received
  · next first rest messages =>
    cases received
    have tail : rest = (node.channels channel).tail := by rw [messages]; rfl
    rw [tail]
    exact .take channel source phase after
  · split at received
    · cases received
      exact .turn .idle trivial
    · cases received

theorem acts_tryReceive (source : takes node party = some channel)
    (after : phase = .idle ∨ ∃ left, phase = .draining channel left ∧ node.parties party = .draining channel (left + 1)) :
    Acts config node party (node.tryReceive party channel phase) := by
  unfold tryReceive
  split
  · next first rest messages =>
    have tail : rest = (node.channels channel).tail := by rw [messages]; rfl
    rw [tail]
    exact .take channel source phase after
  · exact .turn .idle trivial

theorem acts_trySend (phase : node.parties party = .trying channel msg) :
    Acts config node party (node.trySend config party channel msg) := by
  unfold trySend
  cases backend : config.backend with
  | flume =>
    dsimp only
    split
    · exact .turn .idle trivial
    · exact .put channel msg (by simp [puts, phase, backend])
  | mpmc | crossfire =>
    dsimp only
    split
    · exact .turn .idle trivial
    · next room => exact .turn (.checked channel msg) (.inr (by simpa using room))

theorem acts_poll {max} : Acts config node party (node.poll config party channel max) := by
  unfold poll
  cases backend : config.backend with
  | mpmc =>
    dsimp only
    split
    · exact .turn .idle trivial
    · exact .turn (.counting channel max) trivial
  | flume | crossfire =>
    dsimp only
    split
    · exact .turn .idle trivial
    · exact .turn (.draining channel max) fun mpmc => by simp [backend] at mpmc

theorem acts_drain {left} (phase : node.parties party = .draining channel left)
    (drained : node.drain config party channel left = some next) : Acts config node party next := by
  cases left with
  | zero =>
    cases drained
    exact .turn .idle trivial
  | succ left =>
    have source : takes node party = some channel := by simp [takes, phase]
    unfold drain at drained
    cases backend : config.backend with
    | mpmc =>
      simp only [backend] at drained
      exact acts_receive source (.inr ⟨left, rfl, phase⟩) drained
    | flume | crossfire =>
      simp only [backend, Option.some.injEq] at drained
      rw [← drained]
      exact acts_tryReceive source (.inr ⟨left, rfl, phase⟩)

theorem acts_of_act (acted : node.act config party = some next) : Acts config node party next := by
  unfold act at acted
  cases phase : node.parties party with
  | idle =>
    simp only [phase] at acted
    cases acted
  | trying channel msg =>
    simp only [phase, Option.some.injEq] at acted
    rw [← acted]
    exact acts_trySend phase
  | routing msg =>
    simp only [phase] at acted
    split at acted
    · next channel _ =>
      split at acted
      · cases acted
        exact .turn .idle trivial
      · next room =>
        cases acted
        exact .turn (.checked channel msg) (.inr (by simpa using room))
    · cases acted
      exact .turn .idle trivial
  | checked channel msg | sending channel msg =>
    simp only [phase] at acted
    exact acts_send (by simp [puts, phase]) acted
  | forwarding msg =>
    simp only [phase] at acted
    split at acted
    · cases acted
      exact .turn _ trivial
    · cases acted
      exact .turn .idle trivial
  | receiving channel =>
    simp only [phase] at acted
    exact acts_receive (by simp [takes, phase]) (.inl rfl) acted
  | polling channel max =>
    simp only [phase, Option.some.injEq] at acted
    rw [← acted]
    exact acts_poll
  | counting channel max =>
    simp only [phase, Option.some.injEq] at acted
    rw [← acted]
    exact .turn _ fun _ => .inr (Nat.min_le_right _ _)
  | draining channel left =>
    simp only [phase] at acted
    exact acts_drain phase acted

theorem isFull_of_le {fewer more} (less : fewer ≤ more) (room : config.isFull more = false) :
    config.isFull fewer = false := by
  unfold QueueConfig.isFull at room ⊢
  split at room <;> simp_all <;> omega

theorem setChannel_same (messages : List EMessage) :
    (node.setChannel channel messages).channels channel = messages := if_pos rfl

theorem setChannel_other {other} (different : other ≠ channel) (messages : List EMessage) :
    (node.setChannel channel messages).channels other = node.channels other := if_neg different

theorem ready_setPhase (others : ∀ other ≠ party, Current config node (node.parties other)) (current : Current config node phase) :
    Ready config (node.setPhase party phase) := by
  have same (phase other : ChannelPhase) : Current config (node.setPhase party phase) other = Current config node other := by
    cases other <;> rfl
  intro other
  rw [same]
  by_cases self : other = party
  · rw [show (node.setPhase party phase).parties other = phase from if_pos self]
    exact current
  · rw [show (node.setPhase party phase).parties other = node.parties other from if_neg self]
    exact others other self

theorem Ready.put (ready : Ready config node) (target : puts config node party = some channel)
    (considerate : Considerate config node (.act party)) :
    Ready config ((node.setChannel channel (node.channels channel ++ [msg])).setPhase party .idle) := by
  refine ready_setPhase (fun other different => ?_) trivial
  have seen := ready other
  change Current config _ (node.parties other)
  cases found : node.parties other with
  | checked place held =>
    rw [found] at seen
    by_cases here : place = channel
    · subst here
      refine .inr ?_
      rw [isFull, setChannel_same, List.length_append, List.length_singleton]
      exact considerate.1 place target other different held found
    · rw [Current, isFull, setChannel_other here]
      exact seen
  | draining place left =>
    rw [found] at seen
    intro mpmc
    refine (seen mpmc).imp_right fun counted => ?_
    by_cases here : place = channel
    · subst here
      rw [setChannel_same, List.length_append]
      omega
    · rw [setChannel_other here]
      exact counted
  | idle | trying | routing | forwarding | sending | receiving | polling | counting => trivial

theorem Ready.take (ready : Ready config node) (source : takes node party = some channel)
    (considerate : Considerate config node (.act party))
    (after : phase = .idle ∨ ∃ left, phase = .draining channel left ∧ node.parties party = .draining channel (left + 1)) :
    Ready config ((node.setChannel channel (node.channels channel).tail).setPhase party phase) := by
  refine ready_setPhase (fun other different => ?_) ?_
  · have seen := ready other
    change Current config _ (node.parties other)
    cases found : node.parties other with
    | checked place held =>
      rw [found] at seen
      refine seen.imp_right fun room => ?_
      by_cases here : place = channel
      · subst here
        rw [isFull, setChannel_same]
        exact isFull_of_le (by simp) room
      · rw [isFull, setChannel_other here]
        exact room
    | draining place left =>
      rw [found] at seen
      intro mpmc
      by_cases here : place = channel
      · subst here
        rw [setChannel_same]
        exact .inr (considerate.2 place source other different left found mpmc)
      · rw [setChannel_other here]
        exact seen mpmc
    | idle | trying | routing | forwarding | sending | receiving | polling | counting => trivial
  · rcases after with rfl | ⟨left, rfl, before⟩
    · trivial
    · have seen := ready party
      rw [before] at seen
      intro mpmc
      refine (seen mpmc).imp_right fun counted => ?_
      rw [setChannel_same, List.length_tail]
      omega

theorem Ready.step {event} (ready : Ready config node) (considerate : Considerate config node event)
    (stepped : node.step config event = some next) : Ready config next := by
  cases event with
  | start party call =>
    simp only [ChannelNode.step] at stepped
    split at stepped
    · split at stepped
      · cases stepped
        exact ready_setPhase (fun other _ => ready other) (by cases call <;> trivial)
      · cases stepped
    · cases stepped
  | act party =>
    cases acts_of_act stepped with
    | turn phase current => exact ready_setPhase (fun other _ => ready other) current
    | put channel msg target => exact ready.put target considerate
    | take channel source phase after => exact ready.take source considerate after
  | close channel =>
    cases stepped
    have shut (place : Nat) (before : node.closed place = true) : (if place = channel then true else node.closed place) = true := by
      split
      · rfl
      · exact before
    intro party
    have seen := ready party
    change Current config _ (node.parties party)
    cases found : node.parties party with
    | checked place held =>
      rw [found] at seen
      exact seen.imp_left (shut place)
    | draining place left =>
      rw [found] at seen
      exact fun mpmc => (seen mpmc).imp_left (shut place)
    | idle | trying | routing | forwarding | sending | receiving | polling | counting => trivial
  | createQueue topic channel =>
    cases stepped
    intro party
    have seen := ready party
    change Current config _ (node.parties party)
    cases found : node.parties party <;> rw [found] at seen <;> exact seen

theorem act_of_current (current : Current config node (node.parties party)) (nonBlocking : NonBlocking (node.parties party)) :
    (node.act config party).isSome = true := by
  unfold act
  cases phase : node.parties party with
  | idle | forwarding | sending | receiving =>
    rw [phase] at nonBlocking
    cases nonBlocking
  | trying | polling | counting => rfl
  | routing msg =>
    dsimp only
    split
    · split <;> rfl
    · rfl
  | checked channel msg =>
    rw [phase] at current
    dsimp only [send]
    rcases current with closed | room
    · simp [closed]
    · simp only [room]
      split <;> rfl
  | draining channel left =>
    rw [phase] at current
    cases left with
    | zero => rfl
    | succ left =>
      dsimp only [drain]
      cases backend : config.backend with
      | flume | crossfire => rfl
      | mpmc =>
        dsimp only [receive]
        cases messages : node.channels channel with
        | cons first rest => rfl
        | nil =>
          rcases current backend with closed | counted
          · simp [closed]
          · simp [messages] at counted

end

/-- From any channels with nobody under way, however producers and consumers
interleave: as long as no step takes the last room that another party has found, or
a message that another party has counted, `try_send` and `claim_batch` do not wait. -/
theorem considerate_never_waits {config : QueueConfig} {start node : ChannelNode} {events : List ChannelEvent}
    (fresh : ∀ party, start.parties party = .idle)
    (considerate : Along (ChannelNode.step config) (Considerate config) start events)
    (ran : run (ChannelNode.step config) start events = some node) (party : Nat) (nonBlocking : NonBlocking (node.parties party)) :
    (node.act config party).isSome = true := by
  have initial : Ready config start := by
    intro party
    rw [fresh party]
    trivial
  have ready := run_invariant (Ready config) (fun admitted ready stepped => Ready.step ready admitted stepped) considerate initial ran
  exact act_of_current (ready party) nonBlocking

private def bounded (backend : QueueBackend) : QueueConfig where
  backend
  capacity := 1
  uuid := fun _ => ""
  clock := fun _ => 0
  closedText := ""
  bounded := fun _ => Nat.one_pos

private def order : EMessage := EMessage.new "m" 0 "orders" [] .standard none

theorem checked_send_goes_on : ∃ node,
    run (ChannelNode.step (bounded .crossfire)) {} [.start 0 (.trySend 0 order), .act 0] = some node ∧
      NonBlocking (node.parties 0) ∧ (node.act (bounded .crossfire) 0).isSome = true := by
  have considerate : Along (step (bounded .crossfire)) (Considerate (bounded .crossfire)) {}
      [.start 0 (.trySend 0 order), .act 0] := by
    refine along_cons trivial rfl ⟨⟨fun channel target => ?_, fun channel source => ?_⟩, fun _ _ => trivial⟩
    · cases target
    · cases source
  exact ⟨_, rfl, trivial, considerate_never_waits (fun _ => rfl) considerate rfl 0 trivial⟩

private def stocked : ChannelNode := { channels := fun _ => [order] }

/-- Two producers see the one free slot, two consumers count the one message. -/
theorem second_call_waits :
    (∃ node, run (ChannelNode.step (bounded .crossfire)) {}
        [.start 0 (.trySend 0 order), .start 1 (.trySend 0 order), .act 0, .act 1, .act 0] = some node ∧
      NonBlocking (node.parties 1) ∧ (node.act (bounded .crossfire) 1).isSome = false) ∧
    ∃ node, run (ChannelNode.step (bounded .mpmc)) stocked
        [.start 0 (.claimBatch 0 8), .start 1 (.claimBatch 0 8), .act 0, .act 1, .act 0, .act 1, .act 0] = some node ∧
      NonBlocking (node.parties 1) ∧ (node.act (bounded .mpmc) 1).isSome = false :=
  ⟨⟨_, rfl, trivial, by decide⟩, ⟨_, rfl, trivial, by decide⟩⟩

end EventBase.Proofs.NonBlockingCalls
