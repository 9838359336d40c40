import EventBase.Dispatcher
import Mathlib.Data.Int.CardIntervalMod

/-! The dispatch loop deals untargeted messages to a fixed set of workers in turn,
whatever else it claims in between and whether or not an inbox takes the message. -/

namespace EventBase.Proofs.RoundRobin
open List Dispatcher

variable {node : Option String} {workers : List CachedWorker} {dispatcher : Dispatcher}

/-- What one iteration meets: the maps as it reads them, the topic and the answers
to its calls. -/
structure Round where
  maps : WorkerMaps
  topic : TopicState
  answers : Answers

def Round.cache (round : Round) : List CachedWorker := cacheOf round.maps.names round.maps.inboxes

def iterate (node : Option String) (dispatcher : Dispatcher) (round : Round) : Dispatcher :=
  (dispatcher.iteration node round.maps round.answers round.topic).1

/-- The worker whose inbox is tried for a claimed message. -/
def offered (node : Option String) (dispatcher : Dispatcher) (msg : EMessage) : Option CachedWorker :=
  match (plan node dispatcher.cached dispatcher.cursor msg).1 with
  | .deliver worker _ => some worker
  | _ => none

/-- The workers to which the untargeted messages are offered that the iterations claim. -/
def offers (node : Option String) : Dispatcher → List Round → List (Option CachedWorker)
  | _, [] => []
  | dispatcher, round :: rest =>
    let later := offers node (iterate node dispatcher round) rest
    match (dispatcher.take round.topic round.answers).1 with
    | some (msg, _) => if msg.toWorker.isNone then offered node (dispatcher.refresh round.maps) msg :: later else later
    | none => later

/-- After `turns` claims of untargeted messages the cursor stands at the next turn. -/
structure InTurn (workers : List CachedWorker) (turns : Nat) (dispatcher : Dispatcher) : Prop where
  cached : dispatcher.cached = [] ∨ dispatcher.cached = workers
  cursor : dispatcher.cursor ≤ turns
  turn : dispatcher.cursor % workers.length = turns % workers.length

theorem take_reclaimed (dispatcher : Dispatcher) (topic : TopicState) (answers : Answers) :
    ∃ reclaimed, (dispatcher.take topic answers).2.1 = { dispatcher with reclaimed := reclaimed } := by
  simp only [Dispatcher.take]
  split <;> exact ⟨_, rfl⟩

theorem refresh_reclaimed (dispatcher : Dispatcher) (reclaimed : List (EMessage × String)) (maps : WorkerMaps) :
    ({ dispatcher with reclaimed := reclaimed }.refresh maps) = { dispatcher.refresh maps with reclaimed := reclaimed } := by
  unfold refresh isStale
  split <;> rfl

theorem dispatch_variables (node : Option String) (maps : WorkerMaps) (answers : Answers) (dispatcher : Dispatcher)
    (topic : TopicState) (msg : EMessage) (claimId : String) :
    (dispatcher.dispatch node maps answers topic msg claimId).1.cached = (dispatcher.refresh maps).cached ∧
      (dispatcher.dispatch node maps answers topic msg claimId).1.cursor =
        (plan node (dispatcher.refresh maps).cached (dispatcher.refresh maps).cursor msg).2 := by
  simp only [dispatch]
  split
  · exact ⟨rfl, rfl⟩
  · split <;> exact ⟨rfl, rfl⟩
  · exact ⟨rfl, rfl⟩
  · exact ⟨rfl, rfl⟩

/-- The cache and the cursor after an iteration. -/
theorem iterate_variables (node : Option String) (dispatcher : Dispatcher) (round : Round) :
    ((iterate node dispatcher round).cached, (iterate node dispatcher round).cursor) =
      match (dispatcher.take round.topic round.answers).1 with
      | some (msg, _) => ((dispatcher.refresh round.maps).cached,
          (plan node (dispatcher.refresh round.maps).cached (dispatcher.refresh round.maps).cursor msg).2)
      | none => (dispatcher.cached, dispatcher.cursor) := by
  obtain ⟨reclaimed, kept⟩ := take_reclaimed dispatcher round.topic round.answers
  rw [iterate, iteration]
  generalize dispatcher.take round.topic round.answers = result at kept ⊢
  obtain ⟨taken, _, topic⟩ := result
  cases kept
  cases taken with
  | none => rfl
  | some claim =>
    obtain ⟨cached, cursor⟩ := dispatch_variables node round.maps round.answers
      { dispatcher with reclaimed := reclaimed } topic claim.1 claim.2
    rw [refresh_reclaimed] at cached cursor
    exact Prod.ext cached cursor

theorem iterate_unmanned (node : Option String) {round} (empty : dispatcher.cached = []) (start : dispatcher.cursor = 0)
    (unmanned : round.cache = []) :
    (iterate node dispatcher round).cached = [] ∧ (iterate node dispatcher round).cursor = 0 := by
  have after := iterate_variables node dispatcher round
  have refreshed : dispatcher.refresh round.maps = dispatcher.setCache round.maps.generation [] := by
    rw [refresh, if_pos (by simp [isStale, empty])]
    exact congrArg _ unmanned
  cases taken : (dispatcher.take round.topic round.answers).1 with
  | none =>
    rw [taken] at after
    exact ⟨(congrArg Prod.fst after).trans empty, (congrArg Prod.snd after).trans start⟩
  | some claim =>
    rw [taken, refreshed] at after
    exact ⟨congrArg Prod.fst after, (congrArg Prod.snd after).trans start⟩

theorem InTurn.refresh {maps turns} (inTurn : InTurn workers turns dispatcher)
    (fixed : cacheOf maps.names maps.inboxes = workers) (manned : workers ≠ []) :
    (dispatcher.refresh maps).cached = workers ∧ InTurn workers turns (dispatcher.refresh maps) := by
  rw [Dispatcher.refresh]
  split
  · rw [fixed]
    refine ⟨rfl, .inr rfl, ?_, ?_⟩
    · simp only [setCache, List.isEmpty_iff, manned, if_false]
      exact (Nat.mod_le _ _).trans inTurn.cursor
    · simp only [setCache, List.isEmpty_iff, manned, if_false, Nat.mod_mod]
      exact inTurn.turn
  · next current =>
    have cached : dispatcher.cached = workers := by
      refine inTurn.cached.resolve_left fun empty => current ?_
      simp [isStale, empty]
    exact ⟨cached, inTurn⟩

theorem plan_targeted (cursor : Nat) {msg} (targeted : msg.toWorker.isNone = false) :
    (plan node workers cursor msg).2 = cursor := by
  fun_cases plan node workers cursor msg
  all_goals simp_all

theorem plan_untargeted (node : Option String) (cursor : Nat) {msg} (manned : workers ≠ []) (free : msg.toWorker.isNone = true) :
    offered node { cached := workers, cursor := cursor } msg = workers[cursor % workers.length]? ∧
      (plan node workers cursor msg).2 = (cursor + 1) % 2 ^ 64 := by
  cases workers with
  | nil => exact absurd rfl manned
  | cons first rest =>
    have inside : cursor % (rest.length + 1) < (first :: rest).length := Nat.mod_lt _ (Nat.succ_pos _)
    have planned := Option.isNone_iff_eq_none.mp free
    rw [length_cons, getElem?_eq_getElem inside]
    simp [offered, plan, localMatch, planned]

theorem plan_of_offered {msg worker} (offer : offered node dispatcher msg = some worker) :
    (plan node dispatcher.cached dispatcher.cursor msg).1 = .deliver worker { msg with toWorker := some worker.name } := by
  revert offer
  rw [offered]
  fun_cases plan node dispatcher.cached dispatcher.cursor msg
  all_goals simp_all

/-- An offer that is accepted goes to the end of the worker's inbox; the others stay as
they are. -/
theorem accepted_offer_lands {round : Round} {claim worker} (taken : (dispatcher.take round.topic round.answers).1 = some claim)
    (offer : offered node (dispatcher.refresh round.maps) claim.1 = some worker) (accepted : round.answers.trySend = true) :
    (dispatcher.iteration node round.maps round.answers round.topic).2.inboxes =
      (round.topic.deliver worker.channel { claim.1 with toWorker := some worker.name }).inboxes := by
  obtain ⟨reclaimed, kept⟩ := take_reclaimed dispatcher round.topic round.answers
  have inboxes : (dispatcher.take round.topic round.answers).2.2.inboxes = round.topic.inboxes := by
    simp only [Dispatcher.take]
    split <;> rfl
  rw [Dispatcher.iteration]
  generalize dispatcher.take round.topic round.answers = result at taken kept inboxes ⊢
  obtain ⟨_, _, topic⟩ := result
  cases taken
  cases kept
  have inboxes : topic.inboxes = round.topic.inboxes := inboxes
  simp only [dispatch, refresh_reclaimed, plan_of_offered offer, accepted, if_true, TopicState.acknowledge]
  split <;> simp only [TopicState.deliver, inboxes]

theorem InTurn.deals {rounds turns} (inTurn : InTurn workers turns dispatcher)
    (fixed : ∀ round ∈ rounds, round.cache = workers) (manned : workers ≠ [])
    (fewer : turns + (offers node dispatcher rounds).length < 2 ^ 64) :
    offers node dispatcher rounds =
      (List.range' turns (offers node dispatcher rounds).length).map fun i => workers[i % workers.length]? := by
  induction rounds generalizing dispatcher turns with
  | nil => rfl
  | cons round rest ih =>
    have others : ∀ later ∈ rest, later.cache = workers := fun later member => fixed later (mem_cons_of_mem _ member)
    obtain ⟨cached, refreshed⟩ := inTurn.refresh (fixed round mem_cons_self) manned
    have after := iterate_variables node dispatcher round
    cases taken : (dispatcher.take round.topic round.answers).1 with
    | none =>
      rw [taken] at after
      obtain ⟨same, still⟩ := Prod.mk.inj after
      simp only [offers, taken] at fewer ⊢
      exact ih ⟨same ▸ inTurn.cached, still ▸ inTurn.cursor, still ▸ inTurn.turn⟩ others fewer
    | some claim =>
      rw [taken, cached] at after
      obtain ⟨same, moved⟩ := Prod.mk.inj after
      cases free : claim.1.toWorker.isNone with
      | false =>
        rw [plan_targeted _ free] at moved
        simp only [offers, taken, free, Bool.false_eq_true, if_false] at fewer ⊢
        exact ih ⟨.inr same, moved ▸ refreshed.cursor, moved ▸ refreshed.turn⟩ others fewer
      | true =>
        obtain ⟨offer, advanced⟩ := plan_untargeted node (dispatcher.refresh round.maps).cursor manned free
        have here : offered node (dispatcher.refresh round.maps) claim.1 = workers[turns % workers.length]? := by
          rw [← refreshed.turn, ← offer, offered, offered, cached]
        simp only [offers, taken, free, if_true, length_cons] at fewer ⊢
        -- The counter has not come round yet.
        have unwrapped : (iterate node dispatcher round).cursor = (dispatcher.refresh round.maps).cursor + 1 := by
          refine moved.trans (advanced.trans (Nat.mod_eq_of_lt ?_))
          have small := refreshed.cursor
          omega
        have next : InTurn workers (turns + 1) (iterate node dispatcher round) := by
          refine ⟨.inr same, ?_, ?_⟩
          · rw [unwrapped]
            exact Nat.succ_le_succ refreshed.cursor
          · rw [unwrapped, Nat.add_mod, refreshed.turn, ← Nat.add_mod]
        rw [List.range'_succ, map_cons, here]
        exact congrArg _ (ih next others (by omega))

theorem count_in_turn (distinct : workers.Nodup) {worker} (member : worker ∈ workers) (turns : Nat) :
    ((List.range turns).map fun i => workers[i % workers.length]?).count (some worker) = turns / workers.length ∨
      ((List.range turns).map fun i => workers[i % workers.length]?).count (some worker) = turns / workers.length + 1 := by
  obtain ⟨place, inside, rfl⟩ := getElem_of_mem member
  have own : ∀ i, (workers[i % workers.length]? == some workers[place]) = decide (i ≡ place [MOD workers.length]) := by
    intro i
    have turn : i % workers.length < workers.length := Nat.mod_lt _ (Nat.zero_lt_of_lt inside)
    rw [getElem?_eq_getElem turn, Bool.eq_iff_iff, beq_iff_eq, Option.some_inj, distinct.getElem_inj_iff,
      decide_eq_true_iff, Nat.ModEq, Nat.mod_eq_of_lt inside]
  rw [List.count, countP_map, Function.comp_def]
  simp only [own]
  change Nat.count (· ≡ place [MOD workers.length]) turns = _ ∨ Nat.count (· ≡ place [MOD workers.length]) turns = _
  rw [Nat.count_modEq_card _ (Nat.zero_lt_of_lt inside)]
  split
  · exact .inr rfl
  · exact .inl rfl

theorem unmanned_start {before : List Round} (empty : dispatcher.cached = []) (start : dispatcher.cursor = 0)
    (unmanned : ∀ round ∈ before, round.cache = []) : InTurn workers 0 (before.foldl (iterate node) dispatcher) := by
  induction before generalizing dispatcher with
  | nil => exact ⟨.inl empty, start.le, congrArg (· % workers.length) start⟩
  | cons round rest ih =>
    obtain ⟨cached, cursor⟩ := iterate_unmanned node empty start (unmanned round mem_cons_self)
    exact ih cached cursor fun later member => unmanned later (mem_cons_of_mem _ member)

/-- A dispatcher that finds no worker in the rounds `before` and the same ones in all
rounds `after` them offers its i-th untargeted message to worker i modulo their number,
and any two workers have had equally many offers, up to one. -/
theorem round_robin_exact (node : Option String) {before after : List Round} {workers : List CachedWorker}
    (manned : workers ≠ []) (distinct : workers.Nodup) (unmanned : ∀ round ∈ before, round.cache = [])
    (fixed : ∀ round ∈ after, round.cache = workers)
    (fewer : (offers node (before.foldl (iterate node) {}) after).length < 2 ^ 64) :
    let dealt := offers node (before.foldl (iterate node) {}) after
    (∃ c, ∀ i < dealt.length, dealt[i]? = some workers[(c + i) % workers.length]?) ∧
      ∀ k ≤ dealt.length, ∀ worker ∈ workers, ∀ other ∈ workers,
        (dealt.take k).count (some worker) ≤ (dealt.take k).count (some other) + 1 := by
  intro dealt
  have inTurn : dealt = (List.range dealt.length).map fun i => workers[i % workers.length]? := by
    rw [range_eq_range']
    exact (unmanned_start rfl rfl unmanned).deals fixed manned (by rwa [Nat.zero_add])
  refine ⟨⟨0, fun i inside => ?_⟩, fun k bound worker member other present => ?_⟩
  · rw [inTurn, getElem?_map, getElem?_range inside, Nat.zero_add]
    rfl
  · have first : dealt.take k = (List.range k).map fun i => workers[i % workers.length]? := by
      rw [inTurn, ← map_take, take_range, Nat.min_eq_left bound]
    rw [first]
    have own := count_in_turn distinct member k
    have others := count_in_turn distinct present k
    omega

private def meal (names : List String) (target : Option String) : Round where
  maps := { names := names, inboxes := ((∅ : Table Nat).insert "left" 0).insert "right" 1, generation := 0 }
  topic := { queue := [{ EMessage.new "m" 0 "meals" [] .standard none with toWorker := target }], claims := ∅, inboxes := fun _ => [] }
  answers := { claim := some "claim", trySend := false }

private def seats : List CachedWorker := [⟨"left", 0⟩, ⟨"right", 1⟩]

private def served : List Round := [none, some "right", none].map (meal ["left", "right"])

/-- Two meals and one for the right seat, all of them turned away. -/
theorem meals_dealt :
    offers none ([meal [] none].foldl (iterate none) {}) served = seats.map some ∧
      ∃ c, ∀ i < 2, (seats.map some)[i]? = some seats[(c + i) % 2]? := by
  have dealt : offers none ([meal [] none].foldl (iterate none) {}) served = seats.map some := by decide +kernel
  have unmanned : ∀ round ∈ [meal [] none], round.cache = [] := by decide +kernel
  have fixed : ∀ round ∈ served, round.cache = seats := by decide +kernel
  obtain ⟨turns, _⟩ := round_robin_exact none (by decide) (by decide) unmanned fixed (by decide +kernel)
  rw [dealt] at turns
  exact ⟨dealt, turns⟩

end EventBase.Proofs.RoundRobin
