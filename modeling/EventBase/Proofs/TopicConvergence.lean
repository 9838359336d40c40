import EventBase.Foundations.Run
import EventBase.TopicSync

/-! Topic synchronisation converges. Lists only grow, so a check against a stale list is
never wrong, and whoever reads the Host's list last sends all of it. -/

namespace EventBase.Proofs.TopicConvergence
open Foundations TopicSync List Function

section
variable {topics : List String} {topic : String}

theorem registerTopic_grows : topics ⊆ TopicRouter.registerTopic topics topic := by
  unfold TopicRouter.registerTopic
  split
  · exact fun _ member => member
  · exact subset_append_left _ _

theorem mem_registerTopic {other} : other ∈ TopicRouter.registerTopic topics topic ↔ other ∈ topics ∨ other = topic := by
  unfold TopicRouter.registerTopic
  split
  next known =>
    constructor
    · exact .inl
    · rintro (member | rfl)
      · exact member
      · exact known
  next => simp

theorem registerTopic_nodup (unique : topics.Nodup) : (TopicRouter.registerTopic topics topic).Nodup := by
  unfold TopicRouter.registerTopic
  split
  · exact unique
  next new =>
    rw [nodup_append]
    refine ⟨unique, nodup_singleton _, ?_⟩
    intro one member other last same
    rw [mem_singleton] at last
    exact new (last ▸ same ▸ member)

theorem declared_nodup (declared : List String) : (declared.foldl TopicRouter.registerTopic []).Nodup := by
  refine List.foldlRecOn declared _ nodup_nil fun _ unique _ _ => registerTopic_nodup unique

theorem mem_declared (declared : List String) : topic ∈ declared.foldl TopicRouter.registerTopic topics ↔
    topic ∈ topics ∨ topic ∈ declared := by
  induction declared generalizing topics with
  | nil => simp
  | cons first rest ih => rw [foldl_cons, ih, mem_registerTopic, mem_cons, or_assoc]

end

structure Extends (before after : State) : Prop where
  workers : after.workers = before.workers
  topics : ∀ node, before.topics node ⊆ after.topics node
  payload : ∀ delivery items, before.payload delivery = some items → after.payload delivery = some items

theorem Extends.refl (state : State) : Extends state state :=
  ⟨rfl, fun _ _ member => member, fun _ _ sent => sent⟩

theorem register_extends (state : State) (node : Node) (topic : String) : Extends state (state.register node topic) := by
  refine ⟨rfl, fun other => ?_, fun delivery _ sent => ?_⟩
  · simp only [State.register, update_apply]
    split
    next same => exact same ▸ registerTopic_grows
    next => exact fun _ member => member
  · cases delivery <;> exact sent

theorem send_extends (state : State) (updated : List String) :
    Extends state { state with syncs := state.syncs ++ [updated] } := by
  refine ⟨rfl, fun _ _ member => member, fun delivery items sent => ?_⟩
  cases delivery with
  | discovery worker => exact sent
  | sync index node => exact getElem?_append_kept sent [updated]

section
variable {state next : State} {handler : Handler} {phase : Phase}
  (advanced : handler.advance state = some (next, phase))
include advanced

theorem advance_extends : Extends state next := by
  unfold Handler.advance at advanced
  split at advanced <;> cases advanced
  · exact .refl _
  · split
    · exact .refl _
    · exact register_extends _ _ _
  · exact .refl _
  · exact .refl _
  · exact send_extends _ _

theorem advance_frame :
    next.handlers = state.handlers ∧ next.announced = state.announced := by
  unfold Handler.advance at advanced
  split at advanced <;> cases advanced
  · exact ⟨rfl, rfl⟩
  · split <;> exact ⟨rfl, rfl⟩
  · exact ⟨rfl, rfl⟩
  · exact ⟨rfl, rfl⟩
  · exact ⟨rfl, rfl⟩

end

theorem step_cases {state final event} (stepped : step state event = some final) :
    (∃ worker, worker < state.workers ∧ state.announced worker = none ∧
      final = { state with announced := update state.announced worker (some (state.topics (.worker worker))) }) ∨
    (∃ delivery items, state.payload delivery = some items ∧
      final = { state with
        handlers := state.handlers ++ [{ delivery, items, phase := if delivery.isIgnored then .finished else .list }] }) ∨
    ∃ (index : Nat) (handler : Handler) (next : State) (phase : Phase), state.handlers[index]? = some handler ∧
      handler.advance state = some (next, phase) ∧
      final = { next with handlers := state.handlers.set index { handler with phase } } := by
  cases event with
  | announce worker =>
    obtain ⟨⟨inside, silent⟩, rfl⟩ := guarded_step stepped
    exact .inl ⟨worker, inside, silent, rfl⟩
  | deliver delivery =>
    obtain ⟨items, sent, rfl⟩ := Option.map_eq_some_iff.mp stepped
    exact .inr (.inl ⟨delivery, items, sent, rfl⟩)
  | advance index =>
    simp only [step] at stepped
    split at stepped
    · cases stepped
    next handler found =>
      obtain ⟨⟨next, phase⟩, advanced, rfl⟩ := Option.map_eq_some_iff.mp stepped
      exact .inr (.inr ⟨index, handler, next, phase, found, advanced, by rw [(advance_frame advanced).1]⟩)

theorem announce_extends {state worker} (silent : state.announced worker = none) (list : List String) :
    Extends state { state with announced := update state.announced worker (some list) } := by
  refine ⟨rfl, fun _ _ member => member, fun delivery items sent => ?_⟩
  cases delivery with
  | sync index node => exact sent
  | discovery other =>
    have different : other ≠ worker := by
      intro same
      rw [State.payload, same, silent] at sent
      cases sent
    exact (update_of_ne different _ _).trans sent

theorem step_extends {state final event} (stepped : step state event = some final) : Extends state final := by
  obtain ⟨worker, -, silent, rfl⟩ | ⟨delivery, items, -, rfl⟩ | ⟨index, handler, next, phase, -, advanced, rfl⟩ :=
    step_cases stepped
  · exact announce_extends silent _
  · exact ⟨rfl, fun _ _ member => member, fun delivery _ sent => by cases delivery <;> exact sent⟩
  · obtain ⟨workers, topics, payload⟩ := advance_extends advanced
    exact ⟨workers, topics, fun delivery items sent => by cases delivery <;> exact payload _ items sent⟩

/-- What a handler has read is still known, and what it has looked at is registered. -/
def Served (topics : List String) (handler : Handler) : Prop :=
  match handler.phase with
  | .list => True
  | .register known remaining =>
    known ⊆ topics ∧ remaining ⊆ handler.items ∧ ∀ item ∈ handler.items, item ∈ topics ∨ item ∈ remaining
  | .relist | .send _ => handler.items ⊆ topics
  | .finished => handler.delivery.isIgnored = true ∨ handler.items ⊆ topics

def Phase.isAnswer : Phase → Bool
  | .relist | .send _ => true
  | .list | .register _ _ | .finished => false

structure Sound (state : State) (handler : Handler) : Prop where
  sent : state.payload handler.delivery = some handler.items
  ignored : handler.delivery.isIgnored = true → handler.phase = .finished
  answers : Phase.isAnswer handler.phase = true → handler.delivery.isDiscovery = true
  served : Served (state.topics handler.delivery.node) handler

theorem Served.grows {before after handler} (served : Served before handler) (more : before ⊆ after) :
    Served after handler := by
  unfold Served at served ⊢
  split at served
  · trivial
  · obtain ⟨known, remaining, covered⟩ := served
    exact ⟨Subset.trans known more, remaining, fun item member => (covered item member).imp_left fun found => more found⟩
  · exact Subset.trans served more
  · exact Subset.trans served more
  · exact served.imp_right fun items => Subset.trans items more

theorem Sound.later {before after handler} (sound : Sound before handler) (later : Extends before after) :
    Sound after handler :=
  ⟨later.payload _ _ sound.sent, sound.ignored, sound.answers, sound.served.grows (later.topics _)⟩

theorem loop_serves {state : State} {node known} (item : String) (read : known ⊆ state.topics node) :
    item ∈ (if item ∈ known then state else state.register node item).topics node := by
  split
  next found => exact read found
  next =>
    simp only [State.register, update_self]
    exact mem_registerTopic.mpr (.inr rfl)

theorem Sound.answers_advance {state next handler phase} (sound : Sound state handler)
    (advanced : handler.advance state = some (next, phase)) (answers : Phase.isAnswer phase = true) :
    handler.delivery.isDiscovery = true := by
  unfold Handler.advance at advanced
  split at advanced <;> rename_i stands <;> cases advanced
  · cases answers
  · cases answers
  · cases discovery : handler.delivery.isDiscovery with
    | true => rfl
    | false => simp [discovery, Phase.isAnswer] at answers
  · exact sound.answers (by rw [stands]; rfl)
  · cases answers

theorem Sound.advance {state next} {handler : Handler} {phase} (sound : Sound state handler)
    (advanced : handler.advance state = some (next, phase)) : Sound next { handler with phase } := by
  have active : handler.delivery.isIgnored = false := by
    cases ignored : handler.delivery.isIgnored with
    | false => rfl
    | true => simp [Handler.advance, sound.ignored ignored] at advanced
  have later := advance_extends advanced
  refine ⟨later.payload _ _ sound.sent, fun ignored => by simp [active] at ignored, sound.answers_advance advanced, ?_⟩
  have served := sound.served
  have grown := later.topics handler.delivery.node
  unfold Handler.advance at advanced
  split at advanced <;> rename_i stands <;> simp only [Served, stands] at served <;>
    simp only [Option.some.injEq, Prod.mk.injEq, reduceCtorEq] at advanced <;> obtain ⟨rfl, rfl⟩ := advanced
  · exact ⟨Subset.refl _, Subset.refl _, fun _ member => .inr member⟩
  next item rest =>
    obtain ⟨known, remaining, covered⟩ := served
    refine ⟨Subset.trans known grown, Subset.trans (subset_cons_self _ _) remaining, fun other member => ?_⟩
    obtain before | left := covered other member
    · exact .inl (grown before)
    · obtain rfl | later := mem_cons.mp left
      · exact .inl (loop_serves other known)
      · exact .inr later
  · have done : handler.items ⊆ state.topics handler.delivery.node :=
      fun item member => (served.2.2 item member).resolve_right not_mem_nil
    cases handler.delivery.isDiscovery with
    | true => exact done
    | false => exact .inr done
  · exact served
  · exact .inr served

def Phase.rereads : Phase → Bool
  | .list | .register _ _ | .relist => true
  | .send _ | .finished => false

/-- Somebody has sent the whole list of the Host, or is going to. -/
inductive Fresh (state : State) : Prop
  | untouched (none : ∀ handler ∈ state.handlers, handler.delivery.isDiscovery = false)
  | reading (index : Nat) (handler : Handler) (found : state.handlers[index]? = some handler)
    (discovery : handler.delivery.isDiscovery = true) (rereads : Phase.rereads handler.phase = true)
  | sending (index : Nat) (handler : Handler) (updated : List String) (found : state.handlers[index]? = some handler)
    (discovery : handler.delivery.isDiscovery = true) (sends : handler.phase = .send updated)
    (covers : state.topics .host ⊆ updated)
  | sent (list : List String) (member : list ∈ state.syncs) (covers : state.topics .host ⊆ list)

theorem Fresh.keeps {before after} (fresh : Fresh before) (host : after.topics .host = before.topics .host)
    (syncs : before.syncs ⊆ after.syncs)
    (handlers : ∀ (index : Nat) (handler : Handler), before.handlers[index]? = some handler → handler.delivery.isDiscovery = true →
      handler.phase ≠ .finished → after.handlers[index]? = some handler)
    (silent : (∀ handler ∈ before.handlers, handler.delivery.isDiscovery = false) →
      ∀ handler ∈ after.handlers, handler.delivery.isDiscovery = false) : Fresh after := by
  cases fresh with
  | untouched none => exact .untouched (silent none)
  | reading index handler found discovery rereads =>
    refine .reading index handler (handlers index handler found discovery ?_) discovery rereads
    intro finished
    rw [finished] at rereads
    cases rereads
  | sending index handler updated found discovery sends covers =>
    refine .sending index handler updated (handlers index handler found discovery ?_) discovery sends (host ▸ covers)
    intro finished
    rw [finished] at sends
    cases sends
  | sent list member covers => exact .sent list (syncs member) (host ▸ covers)

theorem sync_leaves_host {state next handler phase} (sound : Sound state handler)
    (sync : handler.delivery.isDiscovery = false) (advanced : handler.advance state = some (next, phase)) :
    next.topics .host = state.topics .host ∧ next.syncs = state.syncs := by
  have elsewhere : handler.phase ≠ .finished → Node.host ≠ handler.delivery.node := by
    intro busy
    cases delivered : handler.delivery with
    | discovery worker => simp [delivered, Delivery.isDiscovery] at sync
    | sync index node =>
      cases node with
      | host => exact absurd (sound.ignored (by rw [delivered]; rfl)) busy
      | worker index => exact Node.noConfusion
  have silent : Phase.isAnswer handler.phase ≠ true := by
    intro answers
    simp [sound.answers answers] at sync
  unfold Handler.advance at advanced
  split at advanced <;> rename_i stands <;> cases advanced
  · exact ⟨rfl, rfl⟩
  · split
    · exact ⟨rfl, rfl⟩
    · exact ⟨update_of_ne (elsewhere (by simp [stands])) _ _, rfl⟩
  · exact ⟨rfl, rfl⟩
  · exact absurd (by rw [stands]; rfl) silent
  · exact absurd (by rw [stands]; rfl) silent

theorem Fresh.advance {state next index handler phase} (fresh : Fresh state) (sound : Sound state handler)
    (found : state.handlers[index]? = some handler) (advanced : handler.advance state = some (next, phase)) :
    Fresh { next with handlers := state.handlers.set index { handler with phase } } := by
  have placed : (state.handlers.set index { handler with phase })[index]? = some { handler with phase } :=
    List.getElem?_set_self (List.getElem?_eq_some_iff.mp found).1
  have others {other : Nat} {task : Handler} (present : state.handlers[other]? = some task) (different : task ≠ handler) :
      (state.handlers.set index { handler with phase })[other]? = some task := by
    rw [getElem?_set_ne, present]
    rintro rfl
    exact different (Option.some.inj (present.symm.trans found))
  cases discovery : handler.delivery.isDiscovery with
  | false =>
    obtain ⟨host, syncs⟩ := sync_leaves_host sound discovery advanced
    refine fresh.keeps host (syncs ▸ Subset.refl _) (fun other task present announces _ => ?_) fun none task member => ?_
    · refine others present ?_
      rintro rfl
      simp [discovery] at announces
    · obtain earlier | rfl := mem_or_eq_of_mem_set member
      · exact none task earlier
      · exact discovery
  | true =>
    unfold Handler.advance at advanced
    split at advanced <;> rename_i stands <;> cases advanced
    · exact .reading index _ placed discovery rfl
    · exact .reading index _ placed discovery rfl
    · exact .reading index _ placed discovery (by simp [discovery, Phase.rereads])
    · refine .sending index _ _ placed discovery rfl ?_
      have host : handler.delivery.node = .host := by
        cases delivered : handler.delivery with
        | discovery => rfl
        | sync => simp [delivered, Delivery.isDiscovery] at discovery
      rw [host]
      exact Subset.refl _
    next updated =>
      cases fresh with
      | untouched none => simp [none handler (mem_of_getElem? found)] at discovery
      | reading other task present announces rereads =>
        refine .reading other task (others present ?_) announces rereads
        rintro rfl
        simp [stands, Phase.rereads] at rereads
      | sending other task list present announces sends covers =>
        by_cases same : task = handler
        · subst same
          obtain rfl := Phase.send.inj (stands.symm.trans sends)
          exact .sent updated (mem_append_right _ (mem_singleton_self _)) covers
        · exact .sending other task list (others present same) announces sends covers
      | sent list member covers => exact .sent list (mem_append_left _ member) covers

def Announced (state : State) (topic : String) : Prop :=
  ∃ worker list, state.announced worker = some list ∧ topic ∈ list

structure Coherent (declared : List String) (state : State) : Prop where
  unique : ∀ node, (state.topics node).Nodup
  own : declared ⊆ state.topics .host
  known : ∀ topic ∈ state.topics .host, topic ∈ declared ∨ Announced state topic
  senders : ∀ worker, state.announced worker ≠ none → worker < state.workers
  sound : ∀ handler ∈ state.handlers, Sound state handler
  fresh : Fresh state

theorem start_coherent (workers : Nat) (declared : Node → List String) :
    Coherent (declared .host) (start workers declared) where
  unique node := declared_nodup (declared node)
  own topic member := (mem_declared _).mpr (.inr member)
  known topic member := .inl (((mem_declared _).mp member).resolve_left not_mem_nil)
  senders _ announced := absurd rfl announced
  sound _ member := by cases member
  fresh := .untouched fun _ member => by cases member

section
variable {declared : List String} {state next : State}

theorem Coherent.announce (coherent : Coherent declared state) {worker} (inside : worker < state.workers)
    (silent : state.announced worker = none) (list : List String) :
    Coherent declared { state with announced := update state.announced worker (some list) } := by
  have later := announce_extends silent list
  refine ⟨coherent.unique, coherent.own, fun topic member => ?_, fun other announced => ?_, fun handler member => ?_, ?_⟩
  · refine (coherent.known topic member).imp_right fun ⟨sender, sent, announced, contains⟩ => ⟨sender, sent, ?_, contains⟩
    exact later.payload (.discovery sender) sent announced
  · by_cases same : other = worker
    · exact same ▸ inside
    · have before : update state.announced worker (some list) other = state.announced other :=
        update_of_ne same _ _
      exact coherent.senders other (before ▸ announced)
  · exact (coherent.sound handler member).later later
  · exact coherent.fresh.keeps rfl (Subset.refl _) (fun _ _ found _ _ => found) fun none => none

theorem Coherent.deliver (coherent : Coherent declared state) {delivery items}
    (sent : state.payload delivery = some items) :
    Coherent declared
      { state with
        handlers := state.handlers ++ [{ delivery, items, phase := if delivery.isIgnored then .finished else .list }] } := by
  refine ⟨coherent.unique, coherent.own, coherent.known, coherent.senders, fun handler member => ?_, ?_⟩
  · obtain before | new := mem_append.mp member
    · have sound := coherent.sound handler before
      exact ⟨by cases delivered : handler.delivery <;> exact delivered ▸ sound.sent, sound.ignored, sound.answers, sound.served⟩
    · obtain rfl := mem_singleton.mp new
      refine ⟨by cases delivery <;> exact sent, fun ignored => if_pos ignored, ?_, ?_⟩
      · cases delivery.isIgnored <;> exact Bool.noConfusion
      · cases ignored : delivery.isIgnored with
        | true => exact .inl ignored
        | false => trivial
  · cases discovery : delivery.isDiscovery with
    | true =>
      have listens : delivery.isIgnored = false := by cases delivery <;> first | rfl | cases discovery
      refine .reading state.handlers.length _ getElem?_concat_length discovery ?_
      simp [listens, Phase.rereads]
    | false =>
      refine coherent.fresh.keeps rfl (Subset.refl _) (fun _ _ found _ _ => getElem?_append_kept found _) ?_
      intro none handler member
      obtain before | new := mem_append.mp member
      · exact none handler before
      · exact mem_singleton.mp new ▸ discovery

theorem register_unique (unique : ∀ node, (state.topics node).Nodup) (place : Node) (topic : String) (node : Node) :
    ((state.register place topic).topics node).Nodup := by
  simp only [State.register, update_apply]
  split
  · exact registerTopic_nodup (unique place)
  · exact unique node

theorem advance_unique {handler : Handler} {phase} (unique : ∀ node, (state.topics node).Nodup)
    (advanced : handler.advance state = some (next, phase)) (node : Node) : (next.topics node).Nodup := by
  unfold Handler.advance at advanced
  split at advanced <;> cases advanced
  · exact unique node
  · split
    · exact unique node
    · exact register_unique unique _ _ node
  · exact unique node
  · exact unique node
  · exact unique node

theorem discovery_registers {handler phase} (sound : Sound state handler)
    (discovery : handler.delivery.isDiscovery = true) (advanced : handler.advance state = some (next, phase)) {topic}
    (member : topic ∈ next.topics .host) : topic ∈ state.topics .host ∨ Announced state topic := by
  have announced {item : String} (mentioned : item ∈ handler.items) : Announced state item := by
    have sent := sound.sent
    cases delivered : handler.delivery with
    | discovery worker =>
      rw [delivered] at sent
      exact ⟨worker, handler.items, sent, mentioned⟩
    | sync => simp [delivered, Delivery.isDiscovery] at discovery
  have served := sound.served
  unfold Handler.advance at advanced
  split at advanced <;> rename_i stands <;> cases advanced
  · exact .inl member
  next item rest =>
    simp only [Served, stands] at served
    split at member
    · exact .inl member
    · simp only [State.register, update_apply] at member
      split at member
      next host =>
        rw [← host] at member
        refine (mem_registerTopic.mp member).imp_right ?_
        rintro rfl
        exact announced (served.2.1 mem_cons_self)
      next => exact .inl member
  · exact .inl member
  · exact .inl member
  · exact .inl member

theorem Coherent.advance (coherent : Coherent declared state) {index} {handler : Handler} {phase}
    (found : state.handlers[index]? = some handler) (advanced : handler.advance state = some (next, phase)) :
    Coherent declared { next with handlers := state.handlers.set index { handler with phase } } := by
  have later := advance_extends advanced
  have sound := coherent.sound handler (mem_of_getElem? found)
  have announced := (advance_frame advanced).2
  have lifted {task : Handler} (sound : Sound next task) :
      Sound { next with handlers := state.handlers.set index { handler with phase } } task :=
    ⟨by cases delivered : task.delivery <;> exact delivered ▸ sound.sent, sound.ignored, sound.answers, sound.served⟩
  have unique : ∀ node, (next.topics node).Nodup := advance_unique coherent.unique advanced
  refine ⟨unique, Subset.trans coherent.own (later.topics _), fun topic member => ?_,
    fun worker sent => ?_, fun task member => ?_, coherent.fresh.advance sound found advanced⟩
  · have before : topic ∈ state.topics .host ∨ Announced state topic := by
      cases discovery : handler.delivery.isDiscovery with
      | true => exact discovery_registers sound discovery advanced member
      | false => exact .inl ((sync_leaves_host sound discovery advanced).1 ▸ member)
    have known : topic ∈ declared ∨ Announced state topic := before.elim (coherent.known topic) .inr
    refine known.imp_right fun ⟨worker, list, sent, contains⟩ => ⟨worker, list, ?_, contains⟩
    exact (congrFun announced worker).trans sent
  · have before : state.announced worker ≠ none := congrFun announced worker ▸ sent
    exact later.workers ▸ coherent.senders worker before
  · obtain before | rfl := mem_or_eq_of_mem_set member
    · exact lifted ((coherent.sound task before).later later)
    · exact lifted (sound.advance advanced)

theorem Coherent.step {event} (coherent : Coherent declared state) (stepped : TopicSync.step state event = some next) :
    Coherent declared next := by
  obtain ⟨worker, inside, silent, rfl⟩ | ⟨delivery, items, sent, rfl⟩ | ⟨index, handler, after, phase, found, advanced, rfl⟩ :=
    step_cases stepped
  · exact coherent.announce inside silent _
  · exact coherent.deliver sent
  · exact coherent.advance found advanced

theorem Coherent.sent (coherent : Coherent declared state) (settled : Settled state) (some : 0 < state.workers) :
    ∃ list ∈ state.syncs, state.topics .host ⊆ list := by
  cases coherent.fresh with
  | untouched none =>
    obtain ⟨handler, member, discovery⟩ := settled.discovered 0 some
    have silent := none handler member
    rw [discovery] at silent
    cases silent
  | reading index handler found _ rereads =>
    rw [settled.finished handler (mem_of_getElem? found)] at rereads
    cases rereads
  | sending index handler updated found _ sends _ =>
    rw [settled.finished handler (mem_of_getElem? found)] at sends
    cases sends
  | sent list member covers => exact ⟨list, member, covers⟩

theorem Coherent.worker (coherent : Coherent declared state) (settled : Settled state) {worker}
    (inside : worker < state.workers) : state.topics .host ⊆ state.topics (.worker worker) := by
  obtain ⟨list, member, covers⟩ := coherent.sent settled (Nat.zero_lt_of_lt inside)
  obtain ⟨index, bound, rfl⟩ := mem_iff_getElem.mp member
  obtain ⟨handler, present, delivered⟩ := settled.synced index bound worker inside
  have sound := coherent.sound handler present
  have items : some state.syncs[index] = some handler.items := by
    rw [← sound.sent, delivered, State.payload, getElem?_eq_getElem bound]
  have served := sound.served
  simp only [Served, settled.finished handler present, delivered, Delivery.isIgnored, Delivery.node, Bool.false_eq_true,
    false_or] at served
  exact Subset.trans covers (Option.some.inj items ▸ served)

theorem Coherent.host (coherent : Coherent declared state) (settled : Settled state) (topic : String) :
    topic ∈ state.topics .host ↔ topic ∈ declared ∨
      ∃ worker < state.workers, ∃ list, state.announced worker = some list ∧ topic ∈ list := by
  constructor
  · intro member
    refine (coherent.known topic member).imp_right fun ⟨worker, list, sent, contains⟩ => ⟨worker, ?_, list, sent, contains⟩
    exact coherent.senders worker (by rw [sent]; exact Option.some_ne_none _)
  · rintro (own | ⟨worker, inside, list, sent, contains⟩)
    · exact coherent.own own
    · obtain ⟨handler, present, delivered⟩ := settled.discovered worker inside
      have sound := coherent.sound handler present
      have items : some list = some handler.items := by rw [← sound.sent, delivered, State.payload, sent]
      have served := sound.served
      simp only [Served, settled.finished handler present, delivered, Delivery.isIgnored, Delivery.node, Bool.false_eq_true,
        false_or] at served
      exact served (Option.some.inj items ▸ contains)

end

/-- Whatever the interleaving, the order of deliveries and their repetitions: when all is handled
the Host knows its own topics and what was announced, every Worker knows as much as the Host,
and no list repeats itself. -/
theorem topics_converge (workers : Nat) (declared : Node → List String) {events : List Event} {state : State}
    (ran : run step (start workers declared) events = some state) (settled : Settled state) :
    (∀ topic, topic ∈ state.topics .host ↔ topic ∈ declared .host ∨
      ∃ worker < workers, ∃ list, state.announced worker = some list ∧ topic ∈ list) ∧
    (∀ worker < workers, state.topics .host ⊆ state.topics (.worker worker)) ∧
    ∀ node, (state.topics node).Nodup := by
  have coherent : Coherent (declared .host) state :=
    run_preserves (Coherent (declared .host)) (fun coherent stepped => coherent.step stepped)
      (start_coherent workers declared) ran
  obtain rfl : state.workers = workers :=
    run_preserves (fun current => current.workers = workers)
      (fun same stepped => (step_extends stepped).workers.trans same) rfl ran
  exact ⟨coherent.host settled, fun _ inside => coherent.worker settled inside, coherent.unique⟩

private def declaring : Node → List String
  | .host => ["orders"]
  | .worker 0 => ["mail"]
  | .worker _ => ["orders", "bills"]

/-- Two discoveries that overlap: the first handler reads the list again before the second registers. -/
private def overlapping : List Event :=
  [.announce 0, .announce 1, .deliver (.discovery 0), .deliver (.discovery 1)] ++
    ([0, 1, 0, 0, 0, 1, 1, 1, 1, 0, 1].map .advance) ++
    ([(1, 0), (0, 0), (0, 1), (1, 1)].map fun (index, worker) => .deliver (.sync index (.worker worker))) ++
    ([2, 3, 2, 2, 3, 3, 2, 3, 2, 4, 5, 5, 4, 4, 5, 5, 5, 4].map .advance)

private theorem overlapping_settles :
    ∃ state, run step (start 2 declaring) overlapping = some state ∧ Settled state ∧ state.announced 1 = some ["orders", "bills"] := by
  refine ⟨_, Option.some_get (by decide : (run step (start 2 declaring) overlapping).isSome) |>.symm, ⟨?_, ?_, ?_, ?_⟩, ?_⟩ <;>
    decide +kernel

/-- What the second Worker announced late is known to the first in the end. -/
theorem overlapping_discoveries_converge :
    ∃ state, run step (start 2 declaring) overlapping = some state ∧ Settled state ∧ "bills" ∈ state.topics (.worker 0) := by
  obtain ⟨state, ran, settled, announced⟩ := overlapping_settles
  obtain ⟨host, workers, -⟩ := topics_converge 2 declaring ran settled
  refine ⟨state, ran, settled, workers 0 (by decide) ((host "bills").mpr (.inr ?_))⟩
  exact ⟨1, by decide, _, announced, by decide⟩

end EventBase.Proofs.TopicConvergence
