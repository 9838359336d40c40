import EventBase.Proofs.DispatcherConservation
import EventBase.Proofs.PlaneSteps

/-! What holds of the shared maps, the dispatcher's cache and the inboxes in every
state of the topic plane, however workers come and go. -/

namespace EventBase.Proofs.PlaneCoherence
open Foundations PlaneSteps DispatcherConservation Dispatcher List Option AList

variable {cell updated : Cell} {name : String} {copy : Copy} {msg : EMessage}

structure Identity where
  name : String
  registered : Bool
  aborted : Bool

def identity (cell : Cell) : Identity := ⟨cell.worker.name, cell.registered, cell.aborted⟩

def roster (plane : Plane) : List Identity := plane.cells.map identity

theorem roster_at {plane : Plane} {channel : Nat} (found : plane.cells[channel]? = some cell) :
    (roster plane)[channel]? = some (identity cell) := by
  rw [roster, getElem?_map, found, map_some]

theorem roster_setCell {plane : Plane} {channel : Nat} (updated : Cell)
    (found : plane.cells[channel]? = some cell) (same : identity updated = identity cell) :
    roster (plane.setCell channel updated) = roster plane := by
  have listed := roster_at found
  obtain ⟨inside, value⟩ := List.getElem?_eq_some_iff.mp listed
  rw [roster, Plane.setCell, List.map_set, same]
  simp only [roster] at inside value ⊢
  rw [← value, List.set_getElem_self]

/-- The maps describe the roster: names are unique, a handle leads to the worker
it was made for, and a worker stays mapped until it is removed. -/
structure Wired (roster : List Identity) (maps : WorkerMaps) (cached : List CachedWorker) : Prop where
  distinct : (roster.map Identity.name).Nodup
  inboxes : ∀ name channel, maps.inboxes.lookup name = some channel →
    ∃ worker, roster[channel]? = some worker ∧ worker.name = name
  cached : ∀ handle ∈ cached, ∃ worker, roster[handle.channel]? = some worker ∧ worker.name = handle.name
  opened : ∀ (channel : Nat) (worker : Identity), roster[channel]? = some worker → worker.aborted = false →
    maps.inboxes.lookup worker.name = some channel
  named : ∀ (channel : Nat) (worker : Identity), roster[channel]? = some worker → worker.registered = true →
    worker.aborted = false ∧ worker.name ∈ maps.names

section
variable {roster : List Identity} {maps : WorkerMaps} {cached : List CachedWorker} (wired : Wired roster maps cached)
include wired

theorem Wired.unique {first second : Nat} {one other : Identity} (left : roster[first]? = some one)
    (right : roster[second]? = some other) (same : one.name = other.name) : first = second := by
  have inside : first < (roster.map Identity.name).length := by
    rw [length_map]
    exact (List.getElem?_eq_some_iff.mp left).1
  refine (getElem?_inj inside wired.distinct).mp ?_
  rw [getElem?_map, getElem?_map, left, right, map_some, map_some, same]

theorem Wired.create (fresh : ∀ worker ∈ roster, worker.name ≠ name) :
    Wired (roster ++ [⟨name, false, false⟩]) { maps with inboxes := maps.inboxes.insert name roster.length } cached := by
  have other {channel : Nat} {worker : Identity} (found : roster[channel]? = some worker) : worker.name ≠ name :=
    fresh worker (mem_of_getElem? found)
  refine ⟨?_, ?_, ?_, ?_, ?_⟩
  · rw [map_append, nodup_append]
    refine ⟨wired.distinct, by simp, ?_⟩
    rintro _ member _ last rfl
    obtain ⟨worker, listed, same⟩ := mem_map.mp member
    simp only [map_cons, map_nil, mem_singleton] at last
    exact fresh worker listed (same.trans last)
  · intro known channel found
    by_cases same : known = name
    · subst same
      rw [lookup_insert] at found
      cases found
      exact ⟨_, getElem?_concat_length, rfl⟩
    · rw [lookup_insert_ne same] at found
      obtain ⟨worker, listed, named⟩ := wired.inboxes known channel found
      exact ⟨worker, getElem?_append_kept listed _, named⟩
  · intro handle member
    obtain ⟨worker, listed, named⟩ := wired.cached handle member
    exact ⟨worker, getElem?_append_kept listed _, named⟩
  · intro channel worker found alive
    obtain ⟨rfl, rfl⟩ | listed := getElem?_concat_cases found
    · exact lookup_insert _
    · rw [lookup_insert_ne (other listed)]
      exact wired.opened channel worker listed alive
  · intro channel worker found registered
    obtain ⟨rfl, rfl⟩ | listed := getElem?_concat_cases found
    · cases registered
    · exact wired.named channel worker listed registered

section
variable {channel : Nat} {worker : Identity} (found : roster[channel]? = some worker)
include found

private theorem Wired.reflag {names generation} (updated : Identity) (same : updated.name = worker.name)
    (more : maps.names ⊆ names) (alive : updated.aborted = false → worker.aborted = false)
    (known : updated.registered = true → updated.aborted = false ∧ updated.name ∈ names) :
    Wired (roster.set channel updated) { maps with names, generation } cached := by
  have moved {place : Nat} {name : String} (held : ∃ old, roster[place]? = some old ∧ old.name = name) :
      ∃ new, (roster.set channel updated)[place]? = some new ∧ new.name = name := by
    obtain ⟨old, listed, named⟩ := held
    by_cases here : place = channel
    · subst here
      cases listed.symm.trans found
      exact ⟨updated, List.getElem?_set_self (List.getElem?_eq_some_iff.mp found).1, same.trans named⟩
    · exact ⟨old, (getElem?_set_ne (Ne.symm here)).trans listed, named⟩
  refine ⟨?_, fun name place mapped => moved (wired.inboxes name place mapped),
    fun handle member => moved (wired.cached handle member), ?_, ?_⟩
  · have value : (roster.map Identity.name)[channel]? = some worker.name := by rw [List.getElem?_map, found, Option.map_some]
    obtain ⟨bound, name⟩ := List.getElem?_eq_some_iff.mp value
    rw [List.map_set, same, ← name, List.set_getElem_self]
    exact wired.distinct
  · intro place one present living
    obtain ⟨rfl, rfl⟩ | ⟨-, listed⟩ := getElem?_set_cases present
    · rw [same]
      exact wired.opened place worker found (alive living)
    · exact wired.opened place one listed living
  · intro place one present registered
    obtain ⟨rfl, rfl⟩ | ⟨-, listed⟩ := getElem?_set_cases present
    · exact known registered
    · exact (wired.named place one listed registered).imp_right (more ·)

theorem Wired.register (alive : worker.aborted = false) :
    Wired (roster.set channel { worker with registered := true })
      { maps with names := maps.names ++ [worker.name], generation := maps.generation + 1 } cached :=
  wired.reflag found _ rfl (subset_append_left _ _) id fun _ => ⟨alive, mem_append_right _ (mem_singleton_self _)⟩

theorem Wired.unregister :
    Wired (roster.set channel { worker with registered := false, aborted := true }) maps cached :=
  wired.reflag found _ rfl (Subset.refl _) (fun living => by cases living) fun registered => by cases registered

private theorem Wired.other {place : Nat} {one : Identity} (aborted : worker.aborted = true)
    (present : roster[place]? = some one) (living : one.aborted = false) : one.name ≠ worker.name := by
  intro same
  obtain rfl := wired.unique present found same
  rw [found] at present
  cases present
  simp [aborted] at living

theorem Wired.unmap (aborted : worker.aborted = true) :
    Wired roster { maps with inboxes := maps.inboxes.erase worker.name } cached := by
  refine ⟨wired.distinct, ?_, wired.cached, ?_, wired.named⟩
  · intro name place mapped
    refine wired.inboxes name place ?_
    by_cases same : name = worker.name
    · subst same
      rw [lookup_erase] at mapped
      cases mapped
    · rwa [lookup_erase_ne same] at mapped
  · intro place one present living
    rw [lookup_erase_ne (wired.other found aborted present living)]
    exact wired.opened place one present living

theorem Wired.forget (aborted : worker.aborted = true) :
    Wired roster
      { maps with
        names := maps.names.filter (fun name => name ≠ worker.name), generation := maps.generation + 1 } cached := by
  refine ⟨wired.distinct, wired.inboxes, wired.cached, wired.opened, ?_⟩
  intro place one present registered
  obtain ⟨living, listed⟩ := wired.named place one present registered
  exact ⟨living, mem_filter.mpr ⟨listed, by simpa using wired.other found aborted present living⟩⟩

end

theorem Wired.recache (names : List String) : Wired roster maps (cacheOf names maps.inboxes) := by
  refine ⟨wired.distinct, wired.inboxes, ?_, wired.opened, wired.named⟩
  intro handle member
  obtain ⟨name, -, mapped⟩ := mem_filterMap.mp member
  obtain ⟨channel, found, rfl⟩ := map_eq_some_iff.mp mapped
  exact wired.inboxes name channel found

end

/-- The dispatcher's cache holds every registered worker, or is about to be
renewed. -/
structure Fresh (roster : List Identity) (maps : WorkerMaps) (dispatcher : Dispatcher) (phase : Phase) : Prop where
  seen : ∀ generation, dispatcher.seenGeneration = some generation → generation ≤ maps.generation
  current : ∀ worker ∈ roster, worker.registered = true →
    (∃ handle ∈ dispatcher.cached, handle.name = worker.name) ∨ dispatcher.seenGeneration ≠ some maps.generation
  loaded : ∀ copy generation, phase = .loaded copy generation → generation ≤ maps.generation
  reading : ∀ copy generation names, phase = .named copy generation names → generation ≤ maps.generation ∧
    ∀ worker ∈ roster, worker.registered = true → worker.name ∈ names ∨ generation < maps.generation

section
variable {roster : List Identity} {maps : WorkerMaps} {dispatcher : Dispatcher} {phase : Phase}
  (fresh : Fresh roster maps dispatcher phase)
include fresh

theorem Fresh.bump (later : List Identity) (changed : WorkerMaps) (newer : changed.generation = maps.generation + 1) :
    Fresh later changed dispatcher phase := by
  refine ⟨?_, ?_, ?_, ?_⟩
  · intro generation seen
    have := fresh.seen generation seen
    omega
  · intro worker member registered
    refine .inr fun seen => ?_
    have := fresh.seen _ seen
    omega
  · intro copy generation loaded
    have := fresh.loaded copy generation loaded
    omega
  · intro copy generation names reading
    have := (fresh.reading copy generation names reading).1
    exact ⟨by omega, fun worker _ _ => .inr (by omega)⟩

theorem Fresh.shrink {later changed} (same : changed.generation = maps.generation)
    (fewer : ∀ worker ∈ later, worker.registered = true → ∃ old ∈ roster, old.registered = true ∧ old.name = worker.name) :
    Fresh later changed dispatcher phase := by
  refine ⟨by rw [same]; exact fresh.seen, ?_, by rw [same]; exact fresh.loaded, ?_⟩
  · intro worker member registered
    obtain ⟨old, listed, known, name⟩ := fewer worker member registered
    rw [same, ← name]
    exact fresh.current old listed known
  · intro copy generation names reading
    obtain ⟨bound, all⟩ := fresh.reading copy generation names reading
    rw [same]
    refine ⟨bound, fun worker member registered => ?_⟩
    obtain ⟨old, listed, known, name⟩ := fewer worker member registered
    rw [← name]
    exact all old listed known

theorem Fresh.settle {other cursor} (loading : ∀ copy generation, other ≠ .loaded copy generation)
    (reading : ∀ copy generation names, other ≠ .named copy generation names) :
    Fresh roster maps { dispatcher with cursor := cursor } other :=
  ⟨fresh.seen, fresh.current, fun copy generation same => absurd same (loading copy generation),
    fun copy generation names same => absurd same (reading copy generation names)⟩

theorem Fresh.load (copy : Copy) : Fresh roster maps dispatcher (.loaded copy maps.generation) := by
  refine ⟨fresh.seen, fresh.current, ?_, by simp⟩
  rintro _ _ ⟨⟩
  exact Nat.le_refl _

theorem Fresh.readNames {generation cached}
    (wired : Wired roster maps cached) (loaded : phase = .loaded copy generation) :
    Fresh roster maps dispatcher (.named copy generation maps.names) := by
  refine ⟨fresh.seen, fresh.current, by simp, ?_⟩
  rintro _ _ _ ⟨⟩
  refine ⟨fresh.loaded copy generation loaded, fun worker member registered => ?_⟩
  obtain ⟨channel, found⟩ := getElem?_of_mem member
  exact .inl (wired.named channel worker found registered).2

theorem Fresh.readInboxes {generation names cached}
    (wired : Wired roster maps cached) (reading : phase = .named copy generation names) :
    Fresh roster maps (dispatcher.setCache generation (cacheOf names maps.inboxes)) (.ready copy) := by
  obtain ⟨bound, all⟩ := fresh.reading copy generation names reading
  refine ⟨?_, ?_, by simp, by simp⟩
  · rintro _ ⟨⟩
    exact bound
  · intro worker member registered
    rcases all worker member registered with listed | newer
    · obtain ⟨channel, found⟩ := getElem?_of_mem member
      have mapped := wired.opened channel worker found (wired.named channel worker found registered).1
      exact .inl ⟨⟨worker.name, channel⟩, mem_filterMap.mpr ⟨worker.name, listed, by rw [mapped, map_some]⟩, rfl⟩
    · refine .inr fun seen => ?_
      have same : generation = maps.generation := Option.some.inj seen
      omega

end

theorem Fresh.invalidate {roster : List Identity} {maps : WorkerMaps} {dispatcher : Dispatcher} {other cursor}
    (loading : ∀ copy generation, other ≠ .loaded copy generation)
    (reading : ∀ copy generation names, other ≠ .named copy generation names) :
    Fresh roster maps { dispatcher with cursor := cursor, seenGeneration := none } other :=
  ⟨nofun, fun _ _ _ => .inr nofun, fun copy generation same => absurd same (loading copy generation),
    fun copy generation names same => absurd same (reading copy generation names)⟩

theorem copies_released (free : updated.hand = none) (same : updated.inbox = cell.inbox) :
    ∀ copy ∈ updated.copies, copy ∈ cell.copies := by
  intro copy member
  rw [Cell.copies, free, same] at member
  exact mem_append_right _ member

theorem copies_drained (same : updated.hand = cell.hand) (empty : updated.inbox = []) :
    ∀ copy ∈ updated.copies, copy ∈ cell.copies := by
  intro copy member
  rw [Cell.copies, same, empty, append_nil] at member
  exact mem_append_left _ member

def Owned (config : PlaneConfig) (cell : Cell) : Prop :=
  cell.worker.topic = config.topic ∧ ∀ copy ∈ cell.copies, copy.message.toWorker = some cell.worker.name

section
variable {config : PlaneConfig} {plane : Plane}

theorem Owned.fewer (owned : Owned config cell)
    (same : updated.worker = cell.worker) (fewer : ∀ copy ∈ updated.copies, copy ∈ cell.copies) :
    Owned config updated :=
  ⟨same ▸ owned.1, fun copy member => by rw [same]; exact owned.2 copy (fewer copy member)⟩

theorem Owned.addressed (owned : Owned config cell)
    (hand : cell.hand = some copy) : copy.message.toWorker = some cell.worker.name :=
  owned.2 copy (by simp [Cell.copies, hand])

theorem Owned.not_misrouted (owned : Owned config cell)
    (hand : cell.hand = some copy) : cell.worker.isMisrouted copy.message = false := by
  simp [Worker.isMisrouted, owned.addressed hand]

structure Coherent (config : PlaneConfig) (plane : Plane) : Prop where
  wired : Wired (roster plane) plane.maps plane.dispatcher.cached
  fresh : Fresh (roster plane) plane.maps plane.dispatcher plane.phase
  owned : ∀ cell ∈ plane.cells, Owned config cell

theorem Coherent.initial (config : PlaneConfig) : Coherent config {} := by
  have wired : Wired (roster {}) { names := [], inboxes := ∅, generation := 0 } [] := by
    constructor <;> simp [roster]
  have fresh : Fresh (roster {}) { names := [], inboxes := ∅, generation := 0 } {} .idle := by
    constructor <;> simp [roster]
  exact ⟨wired, fresh, by simp⟩

theorem plans {decided} (branch : planned config plane copy = decided) :
    Planned config.node plane.dispatcher.cached copy.message decided := by
  obtain ⟨_, same, plans⟩ := plan_cases config.node plane.dispatcher.cached plane.dispatcher.cursor copy.message
  rwa [← branch, planned, same]

theorem planned_deliver {target}
    (branch : planned config plane copy = .deliver target msg) :
    target ∈ plane.dispatcher.cached ∧ msg = { copy.message with toWorker := some target.name } := by
  cases plans branch with
  | deliver member => exact ⟨member, rfl⟩

theorem planned_resolves {worker target} (branch : planned config plane copy = .deliver worker msg)
    (named : copy.message.toWorker = some target) : resolves config.node target worker.name = true := by
  cases plans branch with
  | deliver _ chosen =>
    rcases chosen with found | untargeted
    · simp only [named, localMatch, bind_some] at found
      simpa using find?_some found
    · simp [named] at untargeted

theorem planned_expire (branch : planned config plane copy = .expire) :
    Expired config.node plane.dispatcher.cached copy.message := by
  cases plans branch with
  | expire expired => exact expired

theorem planned_relay
    (branch : planned config plane copy = .relay msg) : Relayed config.node plane.dispatcher.cached copy.message := by
  cases plans branch with
  | relay relayed => exact relayed

theorem planned_foreign
    (branch : planned config plane copy = .expire ∨ ∃ msg, planned config plane copy = .relay msg) :
    ∃ target, copy.message.toWorker = some target ∧ ∀ handle ∈ plane.dispatcher.cached, handle.name ≠ target := by
  have unmatched (targeted : copy.message.toWorker.isSome = true)
      (foreign : localMatch config.node plane.dispatcher.cached copy.message.toWorker = none) :
      ∃ target, copy.message.toWorker = some target ∧ ∀ handle ∈ plane.dispatcher.cached, handle.name ≠ target := by
    obtain ⟨target, named⟩ := isSome_iff_exists.mp targeted
    rw [named] at foreign
    refine ⟨target, named, fun handle member same => find?_eq_none.mp foreign handle member ?_⟩
    simp [resolves, same]
  obtain expires | ⟨msg, relays⟩ := branch
  · exact unmatched (planned_expire expires).targeted (planned_expire expires).foreign
  · exact unmatched (planned_relay relays).targeted (planned_relay relays).foreign

end

section
variable {config : PlaneConfig} {plane next : Plane} (coherent : Coherent config plane)
include coherent

theorem Coherent.cellOwned {channel : Nat} (found : plane.cells[channel]? = some cell) :
    Owned config cell := coherent.owned cell (mem_of_getElem? found)

theorem Coherent.setCell {channel} (updated : Cell) (found : plane.cells[channel]? = some cell)
    (same : identity updated = identity cell) (owned : Owned config updated) :
    Coherent config (plane.setCell channel updated) := by
  refine ⟨?_, ?_, ?_⟩
  · rw [roster_setCell updated found same]
    exact coherent.wired
  · rw [roster_setCell updated found same]
    exact coherent.fresh
  · intro one member
    rcases mem_or_eq_of_mem_set member with old | rfl
    · exact coherent.owned one old
    · exact owned

theorem Coherent.cached_name {target : CachedWorker} (member : target ∈ plane.dispatcher.cached)
    (found : plane.cells[target.channel]? = some cell) : cell.worker.name = target.name := by
  obtain ⟨worker, listed, named⟩ := coherent.wired.cached target member
  rw [roster_at found] at listed
  cases listed
  exact named

theorem Coherent.keepCell {channel : Nat} (updated : Cell) (found : plane.cells[channel]? = some cell)
    (same : identity updated = identity cell) (worker : updated.worker = cell.worker)
    (fewer : ∀ copy ∈ updated.copies, copy ∈ cell.copies) : Coherent config (plane.setCell channel updated) :=
  coherent.setCell updated found same ((coherent.cellOwned found).fewer worker fewer)

private theorem Coherent.reflag {channel} (maps : WorkerMaps) (owned : Owned config updated)
    (wired : Wired ((roster plane).set channel (identity updated)) maps plane.dispatcher.cached)
    (fresh : Fresh ((roster plane).set channel (identity updated)) maps plane.dispatcher plane.phase) :
    Coherent config { plane.setCell channel updated with maps := maps } := by
  have moved : roster (plane.setCell channel updated) = (roster plane).set channel (identity updated) := by
    rw [roster, Plane.setCell, map_set, roster]
  refine ⟨?_, ?_, ?_⟩
  · rw [← moved] at wired
    exact wired
  · rw [← moved] at fresh
    exact fresh
  · intro one member
    rcases mem_or_eq_of_mem_set member with old | rfl
    · exact coherent.owned one old
    · exact owned

theorem Coherent.step {event : PlaneEvent} (stepped : Step config plane event next) : Coherent config next := by
  have ⟨wired, fresh, owned⟩ := coherent
  cases stepped with
  | submit | push | recvResolved | recvExpired | recvRelayed | recvIdle | recvEphemeral | fetch | deliverDelayed
  | finishEphemeral => exact ⟨wired, fresh, owned⟩
  | claim | reclaim | loadCurrent | noWorker | expire | relay | relayFails | requeue | block | requeueUnreleased | nackFails
  | resume | relayed => exact ⟨wired, fresh.settle (by simp) (by simp), owned⟩
  | @loadStale copy phase => exact ⟨wired, fresh.load copy, owned⟩
  | readNames phase => exact ⟨wired, fresh.readNames wired phase, owned⟩
  | @readInboxes _ _ names phase => exact ⟨wired.recache names, fresh.readInboxes wired phase, owned⟩
  | refuse => exact ⟨wired, .invalidate (by simp) (by simp), owned⟩
  | @deliver ack _ copy _ _ _ phase branch found =>
    obtain ⟨member, rfl⟩ := planned_deliver branch
    have settled : Coherent config
        { plane with dispatcher := advanced config plane copy, phase := .idle, claims := plane.unacked ack copy } :=
      ⟨wired, fresh.settle (by simp) (by simp), owned⟩
    refine settled.setCell _ found rfl ⟨(coherent.cellOwned found).1, ?_⟩
    intro held present
    simp only [Cell.copies, mem_append, mem_singleton] at present
    rcases present with hand | inbox | rfl
    · exact (coherent.cellOwned found).2 held (mem_append_left _ hand)
    · exact (coherent.cellOwned found).2 held (mem_append_right _ inbox)
    · exact congrArg some (coherent.cached_name member found).symm
  | receive found running free inbox =>
    exact coherent.keepCell _ found rfl rfl (by simp [Cell.copies, free, inbox])
  | giveUp found running hand misrouted
  | forward found running hand misrouted =>
    simp [(coherent.cellOwned found).not_misrouted hand] at misrouted
  | @finish _ _ _ cell copy found =>
    have done := coherent.keepCell { cell with hand := none, completed := cell.completed ++ [copy] } found rfl rfl
      (copies_released rfl rfl)
    exact ⟨done.wired, done.fresh, done.owned⟩
  | @create name timeOut unused =>
    have grown : roster { plane with cells := plane.cells ++ [{ worker := { topic := config.topic, name, timeOut } }] } =
        roster plane ++ [⟨name, false, false⟩] := by simp [roster, identity]
    have other : ∀ worker ∈ roster plane, worker.name ≠ name := by
      intro worker member
      obtain ⟨cell, listed, rfl⟩ := mem_map.mp member
      exact unused cell listed
    refine ⟨?_, ?_, ?_⟩
    · have created := wired.create other
      rw [← grown] at created
      simp only [roster, length_map] at created
      exact created
    · have kept : Fresh (roster plane ++ [⟨name, false, false⟩])
          { plane.maps with inboxes := plane.maps.inboxes.insert name plane.cells.length } plane.dispatcher plane.phase := by
        refine fresh.shrink rfl fun worker member registered => ?_
        rcases mem_append.mp member with listed | last
        · exact ⟨worker, listed, registered, rfl⟩
        · cases mem_singleton.mp last
          cases registered
      rw [← grown] at kept
      exact kept
    · intro cell member
      rcases mem_append.mp member with listed | last
      · exact owned cell listed
      · cases mem_singleton.mp last
        exact ⟨rfl, by simp [Cell.copies]⟩
  | @register _ cell found unregistered alive =>
    have kept : Owned config { cell with registered := true } :=
      (coherent.cellOwned found).fewer rfl fun _ member => member
    exact coherent.reflag _ kept (wired.register (roster_at found) alive) (fresh.bump _ _ rfl)
  | notify found | exit found =>
    exact coherent.keepCell _ found rfl rfl fun _ member => member
  | @unregister _ cell found registered =>
    have kept : Owned config { cell with registered := false, aborted := true } :=
      (coherent.cellOwned found).fewer rfl fun _ member => member
    refine coherent.reflag plane.maps kept (wired.unregister (roster_at found)) (fresh.shrink rfl ?_)
    intro worker member known
    rcases mem_or_eq_of_mem_set member with old | rfl
    · exact ⟨worker, old, known, rfl⟩
    · cases known
  | unmap found aborted =>
    refine ⟨wired.unmap (roster_at found) aborted, fresh.shrink rfl ?_, owned⟩
    exact fun worker member known => ⟨worker, member, known, rfl⟩
  | forget found aborted => exact ⟨wired.forget (roster_at found) aborted, fresh.bump _ _ rfl, owned⟩
  | stop found => exact coherent.keepCell _ found rfl rfl (copies_released rfl rfl)
  | close found => exact coherent.keepCell _ found rfl rfl (copies_drained rfl rfl)

end

def Registered (plane : Plane) (name : String) : Prop :=
  ∃ cell ∈ plane.cells, cell.registered = true ∧ cell.worker.name = name

instance (plane : Plane) (name : String) : Decidable (Registered plane name) :=
  inferInstanceAs (Decidable (∃ cell ∈ plane.cells, cell.registered = true ∧ cell.worker.name = name))

/-- While the loop reads the names and once its cache is current, it knows the
workers that concern the message it has claimed. -/
structure Known (plane : Plane) (concerns : Copy → String → Prop) : Prop where
  reading : ∀ copy generation names, plane.phase = .named copy generation names → ∀ target, concerns copy target →
    target ∈ names
  cached : ∀ copy, plane.phase = .ready copy → ∀ target, concerns copy target →
    ∃ handle ∈ plane.dispatcher.cached, handle.name = target

section
variable {config : PlaneConfig} {plane next : Plane} {event : PlaneEvent}

theorem Registered.indexed (registered : Registered plane name) : plane.indexed config name = true := by
  obtain ⟨cell, member, flag, named⟩ := registered
  exact any_eq_true.mpr ⟨cell, member, by simp [flag, resolves, named]⟩

private theorem registered_setCell {channel} (updated : Cell)
    (found : plane.cells[channel]? = some cell) (same : updated.worker = cell.worker)
    (keeps : cell.registered = true → cell.worker.name = name → updated.registered = true)
    (registered : Registered plane name) : Registered (plane.setCell channel updated) name := by
  obtain ⟨one, member, flag, named⟩ := registered
  obtain ⟨place, listed⟩ := getElem?_of_mem member
  by_cases here : place = channel
  · subst here
    rw [found] at listed
    cases listed
    exact ⟨updated, List.mem_set (List.getElem?_eq_some_iff.mp found).1 updated, keeps flag named, by rw [same, named]⟩
  · refine ⟨one, mem_of_getElem? (i := place) ?_, flag, named⟩
    rw [Plane.setCell, getElem?_set_ne (Ne.symm here), listed]

theorem Registered.step (registered : Registered plane name) (stepped : Step config plane event next)
    (stays : ∀ channel, event = .unregister channel → ∀ cell ∈ plane.cells[channel]?, cell.worker.name ≠ name) :
    Registered next name := by
  cases stepped with
  | deliver _ _ found => exact registered_setCell _ found rfl (fun flag _ => flag) registered
  | receive found => exact registered_setCell _ found rfl (fun flag _ => flag) registered
  | @giveUp _ _ _ cell _ found | @forward _ _ _ cell _ found =>
    exact registered_setCell { cell with hand := none } found rfl (fun flag _ => flag) registered
  | @finish _ _ _ cell copy found =>
    exact registered_setCell { cell with hand := none, completed := cell.completed ++ [copy] } found rfl
      (fun flag _ => flag) registered
  | @register _ cell found =>
    exact registered_setCell { cell with registered := true } found rfl (fun _ _ => rfl) registered
  | notify found | exit found | stop found | close found =>
    exact registered_setCell _ found rfl (fun flag _ => flag) registered
  | @unregister channel cell found =>
    exact registered_setCell _ found rfl (fun _ same => absurd same (stays channel rfl cell found)) registered
  | create =>
    obtain ⟨one, member, flag, named⟩ := registered
    exact ⟨one, mem_append_left _ member, flag, named⟩
  | _ => exact registered

theorem workers_step (property : Worker → Prop) (all : ∀ cell ∈ plane.cells, property cell.worker)
    (created : ∀ name timeOut, event = .create name timeOut → property { topic := config.topic, name, timeOut })
    (stepped : Step config plane event next) : ∀ cell ∈ next.cells, property cell.worker := by
  have keeps {channel : Nat} {cell updated : Cell} (found : plane.cells[channel]? = some cell)
      (same : updated.worker = cell.worker) : ∀ one ∈ plane.cells.set channel updated, property one.worker := by
    intro one member
    rcases mem_or_eq_of_mem_set member with old | rfl
    · exact all one old
    · rw [same]
      exact all cell (mem_of_getElem? found)
  cases stepped with
  | deliver _ _ found | receive found | giveUp found | forward found
  | finish found | register found | notify found | exit found | unregister found
  | stop found | close found => exact keeps found rfl
  | @create name timeOut =>
    exact forall_mem_append.mpr ⟨all, forall_mem_singleton.mpr (created name timeOut rfl)⟩
  | _ => exact all

theorem Known.step {concerns : Copy → String → Prop} (known : Known plane concerns) (coherent : Coherent config plane)
    (stepped : Step config plane event next)
    (registered : ∀ copy ∈ plane.phase.copies, ∀ target, concerns copy target → Registered plane target) :
    Known next concerns := by
  have wired := coherent.wired
  cases stepped with
  | @loadCurrent copy phase current =>
    refine ⟨by simp, ?_⟩
    rintro _ ⟨⟩ target concerned
    obtain ⟨cell, member, flag, rfl⟩ := registered copy (by simp [phase, Phase.copies]) target concerned
    refine (coherent.fresh.current (identity cell) (mem_map_of_mem member) flag).resolve_right ?_
    simp only [isStale, Bool.or_eq_false_iff, decide_eq_false_iff_not] at current
    exact current.1
  | @readNames copy _ phase =>
    refine ⟨?_, by simp⟩
    rintro _ _ _ ⟨⟩ target concerned
    obtain ⟨cell, member, flag, rfl⟩ := registered copy (by simp [phase, Phase.copies]) target concerned
    obtain ⟨channel, found⟩ := getElem?_of_mem member
    exact (wired.named channel (identity cell) (roster_at found) flag).2
  | @readInboxes copy generation names phase =>
    refine ⟨by simp, ?_⟩
    rintro _ ⟨⟩ target concerned
    have listed := known.reading copy generation names phase target concerned
    obtain ⟨cell, member, flag, rfl⟩ := registered copy (by simp [phase, Phase.copies]) target concerned
    obtain ⟨channel, found⟩ := getElem?_of_mem member
    have alive := (wired.named channel (identity cell) (roster_at found) flag).1
    have mapped := wired.opened channel (identity cell) (roster_at found) alive
    exact ⟨⟨_, channel⟩, mem_filterMap.mpr ⟨_, listed, map_eq_some_iff.mpr ⟨channel, mapped, rfl⟩⟩, rfl⟩
  | claim | reclaim | loadStale | noWorker | deliver | refuse | expire | relay | relayFails | requeue | block
  | requeueUnreleased | nackFails | resume | relayed => exact ⟨by simp [Plane.setCell], by simp [Plane.setCell]⟩
  | _ => exact ⟨known.reading, known.cached⟩

end

theorem coherent_of_run {config plane events}
    (ran : run (Plane.step config) {} events = some plane) : Coherent config plane :=
  run_preserves (Coherent config) (fun coherent stepped => coherent.step (step_sound stepped)) (.initial config) ran

end EventBase.Proofs.PlaneCoherence
