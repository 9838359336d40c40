import EventBase.Cluster
import EventBase.Foundations.Descent
import EventBase.Proofs.RouterMaps
import EventBase.RecvLoop

/-! The recv loop looks for the target of a message among all workers of the node, the
dispatcher of a topic among the topic's. -/

namespace EventBase.Proofs.TargetAgreement
open Foundations RouterMaps ConsumerRouter Dispatcher List Option AList

/-- The last characters of a name, where `Worker::new` puts the UUID. -/
def mark (name : String) : List Char := name.toList.drop (name.toList.length - uuidLength)

/-- Workers are named by `Worker::new`, with a UUID that no worker of the node has. -/
def Named (router : ConsumerRouter) : RouterCall → Prop
  | .createWorker worker => ∃ node uuid, worker.name = workerName node worker.topic uuid ∧ uuid.length = uuidLength ∧
      ∀ other ∈ router.workerIndex, mark other ≠ uuid.toList
  | _ => True

theorem mark_append {front back} (long : uuidLength ≤ back.toList.length) :
    mark (front ++ back) = mark back ∧ uuidLength ≤ (front ++ back).toList.length := by
  have length : (front ++ back).toList.length = front.toList.length + back.toList.length := by
    rw [String.toList_append, length_append]
  have skipped : front.toList.length + back.toList.length - uuidLength =
      front.toList.length + (back.toList.length - uuidLength) := by omega
  refine ⟨?_, by omega⟩
  rw [mark, length, skipped, String.toList_append, drop_length_add_append, mark]

theorem mark_workerName (node : Option String) (topic : String) {uuid} (length : uuid.length = uuidLength) :
    mark (workerName node topic uuid) = uuid.toList ∧ uuidLength ≤ (workerName node topic uuid).toList.length := by
  have long : uuid.toList.length = uuidLength := by rw [String.length_toList, length]
  have whole : mark uuid = uuid.toList := by rw [mark, long, Nat.sub_self, drop_zero]
  obtain ⟨base, longer⟩ : mark (("worker-" ++ topic ++ "-") ++ uuid) = mark uuid ∧ _ := mark_append (Nat.le_of_eq long.symm)
  cases node with
  | none => exact ⟨base.trans whole, longer⟩
  | some node =>
    obtain ⟨same, longest⟩ : mark ((node ++ "@") ++ (("worker-" ++ topic ++ "-") ++ uuid)) = _ ∧ _ := mark_append longer
    exact ⟨same.trans (base.trans whole), longest⟩

/-- The names in the index can be told apart by their UUIDs. -/
structure Marked (router : ConsumerRouter) : Prop where
  long : ∀ name ∈ router.workerIndex, uuidLength ≤ name.toList.length
  apart : ∀ name ∈ router.workerIndex, ∀ other ∈ router.workerIndex, mark name = mark other → name = other

theorem marked_init : Marked {} := ⟨by simp, by simp⟩

theorem Marked.call {router next request} (marked : Marked router) (named : Named router request)
    (called : router.call request = some next) : Marked next := by
  have created {name : String} (member : name ∈ next.workerIndex) : name ∈ router.workerIndex ∨
      uuidLength ≤ name.toList.length ∧ (∀ other ∈ router.workerIndex, mark other ≠ mark name) ∧
        ∃ worker, request = .createWorker worker ∧ worker.name = name := by
    rcases mem_workerIndex_call called member with old | ⟨worker, rfl, rfl⟩
    · exact .inl old
    · obtain ⟨node, uuid, named, length, fresh⟩ := named
      obtain ⟨marks, long⟩ := mark_workerName node worker.topic length
      rw [named]
      exact .inr ⟨long, fun other known => marks ▸ fresh other known, worker, rfl, named⟩
  refine ⟨fun name member => ?_, fun name member other known same => ?_⟩
  · rcases created member with old | ⟨long, -⟩
    · exact marked.long name old
    · exact long
  · rcases created member with old | ⟨-, fresh, worker, asked, rfl⟩ <;> rcases created known with older | ⟨-, freshly, again, asking, rfl⟩
    · exact marked.apart name old other older same
    · exact absurd same (freshly name old)
    · exact absurd same.symm (fresh other older)
    · cases asked.symm.trans asking
      rfl

section
variable {router : ConsumerRouter} {node : Option String} {target : String}

theorem resolves_iff {name} :
    resolves node target name = true ↔ name = target ∨ ∃ prefixed ∈ node, name = prefixed ++ "@" ++ target := by
  cases node <;> simp [resolves]

theorem Marked.unique (marked : Marked router) {name other} (member : name ∈ router.workerIndex)
    (known : other ∈ router.workerIndex) (meant : resolves node target name = true)
    (also : resolves node target other = true) :
    name = other := by
  have same {name : String} (member : name ∈ router.workerIndex) (target : String) (shorter : target ∈ router.workerIndex)
      (prefixed : String) (qualified : name = prefixed ++ "@" ++ target) : name = target := by
    refine marked.apart name member target shorter ?_
    rw [qualified]
    exact (mark_append (marked.long target shorter)).1
  rcases resolves_iff.mp meant with rfl | ⟨prefixed, found, qualified⟩ <;>
    rcases resolves_iff.mp also with rfl | ⟨again, refound, requalified⟩
  · rfl
  · exact (same known name member again requalified).symm
  · exact same member other known prefixed qualified
  · cases found
    cases refound
    rw [qualified, requalified]

theorem resolveTarget_some {worker} (resolved : router.resolveTarget node target = some worker) :
    ∃ name, resolves node target name = true ∧ router.workerIndex.lookup name = some worker := by
  rcases or_eq_some_iff.mp resolved with exact_ | ⟨-, qualified⟩
  · exact ⟨target, resolves_iff.mpr (.inl rfl), exact_⟩
  · obtain ⟨prefixed, known, found⟩ := bind_eq_some_iff.mp qualified
    exact ⟨_, resolves_iff.mpr (.inr ⟨prefixed, known, rfl⟩), found⟩

theorem resolveTarget_none (resolved : router.resolveTarget node target = none) {name}
    (meant : resolves node target name = true) : router.workerIndex.lookup name = none := by
  obtain ⟨exact_, qualified⟩ := or_eq_none_iff.mp resolved
  rcases resolves_iff.mp meant with rfl | ⟨prefixed, known, rfl⟩
  · exact exact_
  · cases known
    exact qualified

end

/-- The worker the dispatcher of the topic finds with a cache of what the maps hold now. -/
def dispatched (router : ConsumerRouter) (node : Option String) (topic target : String) : Option CachedWorker :=
  localMatch node (cacheOf (router.published topic) router.localInboxes) (some target)

/-- Both find nobody, or both find one worker of the topic. -/
inductive Agree (router : ConsumerRouter) (node : Option String) (topic target : String) : Prop where
  | nobody (resolved : router.resolveTarget node target = none) (unmatched : dispatched router node topic target = none)
  | same (worker : Worker) (channel : Nat) (resolved : router.resolveTarget node target = some worker)
      (matched : dispatched router node topic target = some ⟨worker.name, channel⟩)
      (inbox : router.localInboxes.lookup worker.name = some channel) (own : worker.topic = topic)

section
variable {router : ConsumerRouter} {node : Option String} {topic target : String}

theorem dispatched_some (consistent : Consistent router) {cached}
    (matched : dispatched router node topic target = some cached) :
    resolves node target cached.name = true ∧ router.localInboxes.lookup cached.name = some cached.channel ∧
      ∃ worker, router.workerIndex.lookup cached.name = some worker ∧ worker.topic = topic := by
  rw [dispatched, localMatch, bind_some] at matched
  have meant := find?_some matched
  obtain ⟨name, published, found⟩ := mem_filterMap.mp (mem_of_find?_eq_some matched)
  obtain ⟨channel, inbox, rfl⟩ := map_eq_some_iff.mp found
  rw [← consistent.agreed] at published
  exact ⟨meant, inbox, (consistent.members topic name).mp published⟩

theorem dispatched_of_worker (consistent : Consistent router) {worker name}
    (found : router.workerIndex.lookup name = some worker) (own : worker.topic = topic)
    (meant : resolves node target name = true) :
    ∃ cached, dispatched router node topic target = some cached := by
  have published : name ∈ router.published topic := by
    rw [← consistent.agreed]
    exact (consistent.members topic name).mpr ⟨worker, found, own⟩
  have indexed : name ∈ router.workerIndex := lookup_isSome.mp (by rw [found]; rfl)
  obtain ⟨channel, inbox⟩ := isSome_iff_exists.mp (lookup_isSome.mpr ((consistent.inboxes name).mpr indexed))
  rw [← isSome_iff_exists, dispatched, localMatch, bind_some, find?_isSome]
  exact ⟨⟨name, channel⟩, mem_filterMap.mpr ⟨name, published, by rw [inbox]; rfl⟩, meant⟩

theorem agree_of_own (consistent : Consistent router) (marked : Marked router)
    (own : ∀ worker, router.workerIndex.lookup worker.name = some worker → resolves node target worker.name = true →
      worker.topic = topic) : Agree router node topic target := by
  cases resolved : router.resolveTarget node target with
  | none =>
    refine .nobody resolved (eq_none_iff_forall_ne_some.mpr fun cached matched => ?_)
    obtain ⟨meant, -, worker, found, -⟩ := dispatched_some consistent matched
    cases (resolveTarget_none resolved meant).symm.trans found
  | some worker =>
    obtain ⟨name, meant, found⟩ := resolveTarget_some resolved
    obtain rfl := consistent.named found
    have mine := own worker found meant
    obtain ⟨⟨other, channel⟩, matched⟩ := dispatched_of_worker consistent found mine meant
    obtain ⟨also, inbox, again, refound, -⟩ := dispatched_some consistent matched
    have same : other = worker.name :=
      marked.unique (lookup_isSome.mp (by rw [refound]; rfl)) (lookup_isSome.mp (by rw [found]; rfl)) also meant
    subst same
    exact .same worker channel resolved matched inbox mine

theorem Agree.own (marked : Marked router) (agree : Agree router node topic target) {worker}
    (found : router.workerIndex.lookup worker.name = some worker) (meant : resolves node target worker.name = true) :
    worker.topic = topic := by
  cases agree with
  | nobody resolved => cases (resolveTarget_none resolved meant).symm.trans found
  | same other channel resolved _ _ own =>
    obtain ⟨name, also, refound⟩ := resolveTarget_some resolved
    have same : name = worker.name :=
      marked.unique (lookup_isSome.mp (by rw [refound]; rfl)) (lookup_isSome.mp (by rw [found]; rfl)) also meant
    rw [same] at refound
    cases found.symm.trans refound
    exact own

end

private def courier : Worker :=
  { topic := "parcels", name := "n@worker-parcels-00000000-0000-4000-8000-000000000001" }

private def calls : List RouterCall := [.register "orders" (.ok 0), .register "parcels" (.ok 1), .createWorker courier]

private theorem calls_named : Along ConsumerRouter.call Named {} calls := by
  refine along_cons trivial rfl (along_cons trivial rfl ⟨?_, fun _ _ => trivial⟩)
  refine ⟨some "n", "00000000-0000-4000-8000-000000000001", by decide +kernel, by decide +kernel, fun other member => ?_⟩
  exact absurd member (notMem_empty other)

private def served : ConsumerRouter :=
  ((({} : ConsumerRouter).register "orders" (.ok 0)).2.register "parcels" (.ok 1)).2.createWorker courier |>.2

end EventBase.Proofs.TargetAgreement
