import EventBase.Proofs.StaleCleanup

/-! Heartbeats in time keep a worker in the registry, and a re-announcement brings a
missing one back. -/

namespace EventBase.Proofs.WorkerLeases
open Foundations WorkerRegistry StaleCleanup List AList

variable {workers : Table WorkerInfo} {workerId : String}

abbrev Change := SnapshotSave.Applied RegistryCall SystemTime

/-- While the worker is listed, with `last` as its last sign of life, no call takes it out
and every sweep comes no later than its timeout after that. -/
def Beating (workerId : String) (last : Option SystemTime) : List Change → Prop
  | [] => True
  | ⟨_, .register info, _⟩ :: rest =>
    Beating workerId (if info.workerName = workerId then some info.lastHeartbeat else last) rest
  | ⟨_, .unregister other, _⟩ :: rest => (other = workerId → last = none) ∧ Beating workerId last rest
  | ⟨_, .heartbeat other, now⟩ :: rest => Beating workerId (if other = workerId then last.map fun _ => now else last) rest
  | ⟨_, .cleanupStale now timeout, _⟩ :: rest =>
    (∀ time ∈ last, time ≤ now ∧ now ≤ time + timeout) ∧ Beating workerId last rest

theorem Beating.step {change rest info} (listed : workers.lookup workerId = some info)
    (beating : Beating workerId (some info.lastHeartbeat) (change :: rest)) :
    ∃ next, (apply change.call change.input workers).1.lookup workerId = some next ∧
      Beating workerId (some next.lastHeartbeat) rest := by
  obtain ⟨_, call, input⟩ := change
  cases call with
  | register other =>
    rw [Beating] at beating
    split at beating
    · next same => exact ⟨other, same ▸ lookup_insert workers, beating⟩
    · next different => exact ⟨info, (lookup_insert_ne (Ne.symm different)).trans listed, beating⟩
  | unregister other =>
    have different : workerId ≠ other := fun same => nomatch beating.1 same.symm
    exact ⟨info, (lookup_erase_ne different).trans listed, beating.2⟩
  | heartbeat other =>
    rw [Beating] at beating
    simp only [apply, heartbeat]
    split at beating
    · next same =>
      subst same
      rw [listed]
      exact ⟨{ info with lastHeartbeat := input }, lookup_insert workers, beating⟩
    · next different =>
      split
      · exact ⟨info, (lookup_insert_ne (Ne.symm different)).trans listed, beating⟩
      · exact ⟨info, listed, beating⟩
  | cleanupStale now timeout =>
    obtain ⟨past, inTime⟩ := beating.1 info.lastHeartbeat rfl
    have fresh : ¬ timeout < elapsed now info := by
      rw [elapsed_past past, Overdue]
      exact Int.not_lt.mpr inTime
    have spared : workerId ∉ stale workers now timeout := by simpa [mem_stale, listed] using fresh
    exact ⟨info, (lookup_cleanupStale workerId).trans ((if_neg spared).trans listed), beating.2⟩

theorem Beating.kept {changes info} (listed : workers.lookup workerId = some info)
    (beating : Beating workerId (some info.lastHeartbeat) changes) : workerId ∈ applyAll workers changes := by
  induction changes generalizing workers info with
  | nil => exact lookup_isSome.mp (Option.isSome_of_eq_some listed)
  | cons change rest ih =>
    obtain ⟨next, kept, continued⟩ := beating.step listed
    exact ih kept continued

theorem Beating.later {before rest last} (beating : Beating workerId last (before ++ rest)) :
    ∃ later, Beating workerId later rest := by
  induction before generalizing last with
  | nil => exact ⟨last, beating⟩
  | cons change before ih =>
    obtain ⟨_, call, _⟩ := change
    cases call with
    | register | heartbeat => exact ih beating
    | unregister | cleanupStale => exact ih beating.2

theorem discovery_announced {workers registered name topic}
    (own : (name, topic) ∈ workers) (business : isSystemTopic topic = false) (missing : name ∉ registered) :
    .discovery name topic ∈ heartbeatOnce true workers registered := by
  have listed : (name, topic) ∈ workers.filter fun worker => !isSystemTopic worker.2 := by simp [own, business]
  refine mem_flatMap.mpr ⟨(name, topic), listed, mem_append_left _ ?_⟩
  have absent : ∃ topic, (name, topic) ∈ workers ∧ isSystemTopic topic = false := ⟨topic, own, business⟩
  simp [absent, missing]

/-- After a pass of `heartbeat_once` that re-announces, every business worker of the node
is in the host's registry, in whatever order the messages are handled and whatever other
changes come in between, unless one of them takes it out. -/
theorem announced_worker_listed {host : Table WorkerInfo} {changes : List Change} {workers : List (String × String)}
    {registered : List String} {name topic : String} (known : name ∈ registered → name ∈ host)
    (handled : ∀ announcement ∈ heartbeatOnce true workers registered, ∃ change ∈ changes, ∃ now,
      change.call = announcement.call now)
    (beating : Beating name ((host.lookup name).map WorkerInfo.lastHeartbeat) changes)
    (own : (name, topic) ∈ workers) (business : isSystemTopic topic = false) : name ∈ applyAll host changes := by
  cases listed : host.lookup name with
  | some info =>
    rw [listed] at beating
    exact beating.kept listed
  | none =>
    have missing : name ∉ registered := fun member => lookup_eq_none.mp listed (known member)
    obtain ⟨⟨_, _, _⟩, member, now, rfl⟩ := handled _ (discovery_announced own business missing)
    obtain ⟨before, after, split⟩ := append_of_mem member
    obtain ⟨_, continued⟩ := (split ▸ beating).later
    rw [Announcement.call, Beating, if_pos rfl] at continued
    rw [split, applyAll, foldl_append, foldl_cons]
    exact continued.kept (lookup_insert _)

/-- The heartbeat is handled before the announcement, and a sweep after it. -/
theorem cook_listed : "cook" ∈ applyAll ∅ [⟨0, .heartbeat "cook", 4⟩, ⟨1, .register ⟨"cook", "orders", 5⟩, 5⟩,
    ⟨2, .cleanupStale 90 90, 90⟩] := by
  refine @announced_worker_listed ∅ _ [("cook", "orders")] [] "cook" "orders" (by simp) ?_ ?_ mem_cons_self (by decide)
  · simp [heartbeatOnce, show isSystemTopic "orders" = false by decide, Announcement.call]
  · simp [Beating]

end EventBase.Proofs.WorkerLeases
