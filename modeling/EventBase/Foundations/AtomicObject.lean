import Mathlib.Data.List.Nodup
import Mathlib.Logic.Relation
import EventBase.Foundations.Run

/-! Linearizability. A history lists invocations and responses in the order they
happened; it is linearizable if its calls can be put in a sequence that the
sequential specification allows and that keeps the order of calls which did not
overlap. An object whose calls each take effect in a single step between
invocation and response has only linearizable histories. -/

namespace EventBase.Foundations
open List

/-- An entry of a history; a call is known by a number of its own. -/
inductive CallEvent (κ ρ : Type) where
  | invoke (call : Nat) (op : κ)
  | respond (call : Nat) (reply : ρ)

structure Completed (κ ρ : Type) where
  call : Nat
  op : κ
  reply : ρ

section
variable {σ κ ρ : Type} (spec : σ → κ → ρ → σ → Prop)

/-- The calls in turn, each with a reply the specification allows. -/
def Legal (value : σ) : List (Completed κ ρ) → σ → Prop
  | [], final => final = value
  | done :: rest, final => ∃ next, spec value done.op done.reply next ∧ Legal next rest final

/-- `order` is a sequential order of the history's calls. A call without a response
may be in it or not. -/
structure Linearization (initial : σ) (history : List (CallEvent κ ρ)) (order : List (Completed κ ρ)) (final : σ) :
    Prop where
  legal : Legal spec initial order final
  distinct : (order.map Completed.call).Nodup
  invoked : ∀ done ∈ order, .invoke done.call done.op ∈ history
  responded : ∀ call reply, .respond call reply ∈ history → ∃ done ∈ order, done.call = call ∧ done.reply = reply
  realTime : ∀ first ∈ order, ∀ second ∈ order,
    [.respond first.call first.reply, .invoke second.call second.op].Sublist history → [first, second].Sublist order

def Linearizable (initial : σ) (history : List (CallEvent κ ρ)) : Prop :=
  ∃ order final, Linearization spec initial history order final

variable {spec}

theorem legal_append {value final : σ} {before after} :
    Legal spec value (before ++ after) final ↔ ∃ middle, Legal spec value before middle ∧ Legal spec middle after final := by
  induction before generalizing value with
  | nil => simp [Legal]
  | cons done rest ih =>
    simp only [cons_append, Legal, ih]
    constructor
    · rintro ⟨next, allowed, middle, first, last⟩
      exact ⟨middle, ⟨next, allowed, first⟩, last⟩
    · rintro ⟨middle, ⟨next, allowed, first⟩, last⟩
      exact ⟨next, allowed, middle, first, last⟩

private theorem pair_concat {α : Type} {events : List α} {first second event : α}
    (ordered : [first, second].Sublist (events ++ [event])) :
    [first, second].Sublist events ∨ (first ∈ events ∧ second = event) := by
  obtain ⟨left, right, split, inEvents, inLast⟩ := sublist_append_iff.mp ordered
  obtain rfl | rfl := sublist_singleton.mp inLast
  · rw [append_nil] at split
    exact .inl (split ▸ inEvents)
  · change [first] ++ [second] = left ++ [event] at split
    obtain ⟨rfl, last⟩ := append_inj' split rfl
    exact .inr ⟨inEvents.mem mem_cons_self, (List.cons.inj last).1⟩

namespace Linearization
variable {initial final : σ} {history : List (CallEvent κ ρ)} {order : List (Completed κ ρ)}

theorem empty (initial : σ) : Linearization spec initial [] [] initial :=
  ⟨rfl, nodup_nil, by simp, by simp, by simp⟩

theorem invoke (linear : Linearization spec initial history order final) {call : Nat} {op}
    (fresh : call ∉ order.map Completed.call) : Linearization spec initial (history ++ [.invoke call op]) order final where
  legal := linear.legal
  distinct := linear.distinct
  invoked done member := mem_append_left _ (linear.invoked done member)
  responded call reply member := by
    obtain earlier | new := mem_concat_cases member
    · exact linear.responded call reply earlier
    · cases new
  realTime first firstIn second secondIn ordered := by
    obtain earlier | ⟨_, last⟩ := pair_concat ordered
    · exact linear.realTime first firstIn second secondIn earlier
    · cases last
      exact absurd (mem_map_of_mem secondIn) fresh

theorem commit (linear : Linearization spec initial history order final) {done} {next : σ}
    (running : .invoke done.call done.op ∈ history) (fresh : done.call ∉ order.map Completed.call)
    (allowed : spec final done.op done.reply next) :
    Linearization spec initial history (order ++ [done]) next where
  legal := legal_append.mpr ⟨final, linear.legal, next, allowed, rfl⟩
  distinct := by
    rw [map_append]
    exact linear.distinct.append (nodup_singleton _) (disjoint_singleton.mpr fresh)
  invoked other member := by
    obtain earlier | rfl := mem_concat_cases member
    · exact linear.invoked other earlier
    · exact running
  responded call reply member := by
    obtain ⟨other, earlier, same⟩ := linear.responded call reply member
    exact ⟨other, mem_append_left _ earlier, same⟩
  realTime first firstIn second secondIn ordered := by
    have answered : first ∈ order := by
      obtain ⟨other, earlier, same, _⟩ := linear.responded _ _ (ordered.subset mem_cons_self)
      obtain member | rfl := mem_concat_cases firstIn
      · exact member
      · exact absurd (same ▸ mem_map_of_mem earlier) fresh
    obtain earlier | rfl := mem_concat_cases secondIn
    · exact (linear.realTime first answered second earlier ordered).trans (sublist_append_left _ _)
    · exact (singleton_sublist.mpr answered).append (List.Sublist.refl [second])

theorem respond (linear : Linearization spec initial history order final) {done} (effective : done ∈ order) :
    Linearization spec initial (history ++ [.respond done.call done.reply]) order final where
  legal := linear.legal
  distinct := linear.distinct
  invoked other member := mem_append_left _ (linear.invoked other member)
  responded call reply member := by
    obtain earlier | new := mem_concat_cases member
    · exact linear.responded call reply earlier
    · cases new
      exact ⟨done, effective, rfl, rfl⟩
  realTime first firstIn second secondIn ordered := by
    obtain earlier | ⟨_, last⟩ := pair_concat ordered
    · exact linear.realTime first firstIn second secondIn earlier
    · cases last

theorem between (linear : Linearization spec initial history order final) {first second third} (firstIn : first ∈ order)
    (secondIn : second ∈ order) (thirdIn : third ∈ order)
    (earlier : [.respond first.call first.reply, .invoke second.call second.op].Sublist history)
    (later : [.respond second.call second.reply, .invoke third.call third.op].Sublist history) :
    ∃ before middle after, order = before ++ second :: (middle ++ third :: after) ∧
      ∀ done ∈ middle, done.call ≠ first.call ∧ done.call ≠ second.call := by
  have single (done other : Completed κ ρ) (inOrder : done ∈ order) (otherIn : other ∈ order)
      (same : done.call = other.call) : done = other := inj_on_of_nodup_map linear.distinct inOrder otherIn same
  obtain ⟨before, rest, split, firstBefore, secondRest⟩ :=
    cons_sublist_iff.mp (linear.realTime first firstIn second secondIn earlier)
  obtain ⟨gap, tail, rfl⟩ := append_of_mem (singleton_sublist.mp secondRest)
  have nodup : order.Nodup := List.Nodup.of_map _ linear.distinct
  have thirdTail : third ∈ tail := by
    have ordered := linear.realTime second secondIn third thirdIn later
    rw [split, ← append_assoc] at ordered
    rw [split, ← append_assoc] at nodup
    obtain ⟨left, right, halves, inLeft, inRight⟩ := sublist_append_iff.mp ordered
    cases left with
    | nil =>
      rw [nil_append] at halves
      subst halves
      exact singleton_sublist.mp (cons_sublist_cons.mp inRight)
    | cons head more =>
      obtain ⟨rfl, _⟩ := List.cons.inj halves
      exact absurd mem_cons_self (disjoint_of_nodup_append nodup (inLeft.subset mem_cons_self))
  obtain ⟨middle, after, rfl⟩ := append_of_mem thirdTail
  refine ⟨before ++ gap, middle, after, by rw [split, append_assoc], fun done member => ⟨?_, ?_⟩⟩
  · intro same
    have inOrder : done ∈ order := by rw [split]; simp [member]
    cases single done first inOrder firstIn same
    rw [split] at nodup
    exact disjoint_of_nodup_append nodup firstBefore (by simp [member])
  · intro same
    have inOrder : done ∈ order := by rw [split]; simp [member]
    cases single done second inOrder secondIn same
    rw [split, ← append_assoc] at nodup
    exact absurd (mem_append_left _ member) (nodup_cons.mp nodup.of_append_right).1

end Linearization

/-- A client of an atomic object. -/
inductive Slot (κ ρ : Type) where
  | idle
  | invoked (call : Nat) (op : κ)
  | committed (done : Completed κ ρ)

structure AtomicObject (σ κ ρ : Type) where
  value : σ
  slots : List (Slot κ ρ)
  history : List (CallEvent κ ρ)

namespace AtomicObject

def start (value : σ) (clients : Nat) : AtomicObject σ κ ρ := ⟨value, List.replicate clients .idle, []⟩

/-- A call gets the length of the history as its number. -/
inductive Step (spec : σ → κ → ρ → σ → Prop) (object : AtomicObject σ κ ρ) : AtomicObject σ κ ρ → Prop where
  | invoke (client : Nat) (op : κ) (idle : object.slots[client]? = some .idle) :
    Step spec object ⟨object.value, object.slots.set client (.invoked object.history.length op),
      object.history ++ [.invoke object.history.length op]⟩
  | commit (client : Nat) (done : Completed κ ρ) (next : σ) (running : object.slots[client]? = some (.invoked done.call done.op))
      (allowed : spec object.value done.op done.reply next) :
    Step spec object ⟨next, object.slots.set client (.committed done), object.history⟩
  | respond (client : Nat) (done : Completed κ ρ) (effective : object.slots[client]? = some (.committed done)) :
    Step spec object ⟨object.value, object.slots.set client .idle, object.history ++ [.respond done.call done.reply]⟩

/-- What a linearization knows about the clients. -/
structure Tracked (spec : σ → κ → ρ → σ → Prop) (initial : σ) (object : AtomicObject σ κ ρ)
    (order : List (Completed κ ρ)) : Prop where
  linear : Linearization spec initial object.history order object.value
  numbered : ∀ call op, .invoke call op ∈ object.history → call < object.history.length
  running : ∀ (client call : Nat) (op : κ), object.slots[client]? = some (.invoked call op) →
    .invoke call op ∈ object.history ∧ call ∉ order.map Completed.call
  separate : ∀ (client other call : Nat) (op op' : κ), object.slots[client]? = some (.invoked call op) →
    object.slots[other]? = some (.invoked call op') → client = other
  effective : ∀ (client : Nat) (done : Completed κ ρ), object.slots[client]? = some (.committed done) → done ∈ order

variable {initial : σ} {object next : AtomicObject σ κ ρ} {order : List (Completed κ ρ)}

theorem tracked_start (initial : σ) (clients : Nat) : Tracked spec initial (start initial clients) [] := by
  have idle {client : Nat} {slot : Slot κ ρ} (found : (start initial clients).slots[client]? = some slot) : slot = .idle :=
    (mem_replicate.mp (mem_of_getElem? found)).2
  refine ⟨.empty initial, by simp [start], ?_, ?_, ?_⟩
  · intro client call op found
    cases idle found
  · intro client other call op op' found
    cases idle found
  · intro client done found
    cases idle found

private theorem running_of_set {slots : List (Slot κ ρ)} {slot} (closed : ∀ call op, slot ≠ .invoked call op)
    {client other call : Nat} {op} (found : (slots.set client slot)[other]? = some (.invoked call op)) :
    other ≠ client ∧ slots[other]? = some (.invoked call op) := by
  obtain ⟨_, same⟩ | kept := getElem?_set_cases found
  · exact absurd same.symm (closed call op)
  · exact kept

private theorem numbered_concat {history : List (CallEvent κ ρ)} {event}
    (numbered : ∀ call op, .invoke call op ∈ history → call < history.length)
    (last : ∀ call op, event = .invoke call op → call = history.length) (call : Nat) (op : κ)
    (member : .invoke call op ∈ history ++ [event]) : call < (history ++ [event]).length := by
  rw [length_append, length_singleton]
  obtain earlier | new := mem_concat_cases member
  · exact Nat.lt_succ_of_lt (numbered call op earlier)
  · rw [last call op new.symm]
    exact Nat.lt_succ_self _

theorem Tracked.invoke (tracked : Tracked spec initial object order) {client : Nat} {op} :
    Tracked spec initial
      { object with
        slots := object.slots.set client (.invoked object.history.length op)
        history := object.history ++ [.invoke object.history.length op] } order := by
  have fresh : object.history.length ∉ order.map Completed.call := by
    intro member
    obtain ⟨done, ordered, same⟩ := mem_map.mp member
    exact absurd (tracked.numbered _ _ (tracked.linear.invoked done ordered)) (by omega)
  have older {other call : Nat} {op : κ} (found : object.slots[other]? = some (.invoked call op)) :
      call < object.history.length := tracked.numbered _ _ (tracked.running other call op found).1
  refine ⟨tracked.linear.invoke fresh, numbered_concat tracked.numbered ?_, ?_, ?_, ?_⟩
  · intro call op new
    cases new
    rfl
  · intro other call op found
    obtain ⟨_, same⟩ | ⟨_, kept⟩ := getElem?_set_cases found
    · cases same
      exact ⟨mem_append_right _ mem_cons_self, fresh⟩
    · exact (tracked.running other call op kept).imp_left (mem_append_left _)
  · intro left right call op op' leftFound rightFound
    obtain ⟨rfl, leftNew⟩ | ⟨_, leftKept⟩ := getElem?_set_cases leftFound
    · obtain ⟨rfl, _⟩ | ⟨_, rightKept⟩ := getElem?_set_cases rightFound
      · rfl
      · cases leftNew
        exact absurd (older rightKept) (Nat.lt_irrefl _)
    · obtain ⟨rfl, rightNew⟩ | ⟨_, rightKept⟩ := getElem?_set_cases rightFound
      · cases rightNew
        exact absurd (older leftKept) (Nat.lt_irrefl _)
      · exact tracked.separate left right call op op' leftKept rightKept
  · intro other done found
    obtain ⟨_, same⟩ | ⟨_, kept⟩ := getElem?_set_cases found
    · cases same
    · exact tracked.effective other done kept

private theorem Tracked.separate_set (tracked : Tracked spec initial object order) {slot}
    (closed : ∀ call op, slot ≠ .invoked call op) {client left right call : Nat} {op op'}
    (leftFound : (object.slots.set client slot)[left]? = some (.invoked call op))
    (rightFound : (object.slots.set client slot)[right]? = some (.invoked call op')) : left = right :=
  tracked.separate left right call op op' (running_of_set closed leftFound).2 (running_of_set closed rightFound).2

theorem Tracked.commit (tracked : Tracked spec initial object order) {client : Nat} {done : Completed κ ρ} {value : σ}
    (running : object.slots[client]? = some (.invoked done.call done.op))
    (allowed : spec object.value done.op done.reply value) :
    Tracked spec initial { object with value := value, slots := object.slots.set client (.committed done) } (order ++ [done]) := by
  obtain ⟨begun, fresh⟩ := tracked.running client _ _ running
  refine ⟨tracked.linear.commit begun fresh allowed, tracked.numbered, ?_, ?_, ?_⟩
  · intro other call op found
    obtain ⟨apart, kept⟩ := running_of_set (by simp) found
    obtain ⟨invoked, absent⟩ := tracked.running other call op kept
    refine ⟨invoked, fun member => ?_⟩
    rw [map_append] at member
    obtain earlier | new := mem_concat_cases member
    · exact absent earlier
    · subst new
      exact apart (tracked.separate other client _ _ _ kept running)
  · intro left right call op op' leftFound rightFound
    exact tracked.separate_set (by simp) leftFound rightFound
  · intro other found earlier
    obtain ⟨_, same⟩ | ⟨_, kept⟩ := getElem?_set_cases earlier
    · cases same
      exact mem_append_right _ mem_cons_self
    · exact mem_append_left _ (tracked.effective other found kept)

theorem Tracked.respond (tracked : Tracked spec initial object order) {client : Nat} {done}
    (effective : object.slots[client]? = some (.committed done)) :
    Tracked spec initial
      { object with
        slots := object.slots.set client .idle
        history := object.history ++ [.respond done.call done.reply] } order := by
  refine ⟨tracked.linear.respond (tracked.effective client done effective), numbered_concat tracked.numbered nofun, ?_, ?_, ?_⟩
  · intro other call op found
    obtain ⟨_, kept⟩ := running_of_set (by simp) found
    exact (tracked.running other call op kept).imp_left (mem_append_left _)
  · intro left right call op op' leftFound rightFound
    exact tracked.separate_set (by simp) leftFound rightFound
  · intro other found earlier
    obtain ⟨_, same⟩ | ⟨_, kept⟩ := getElem?_set_cases earlier
    · cases same
    · exact tracked.effective other found kept

theorem Tracked.step (tracked : Tracked spec initial object order) (stepped : Step spec object next) :
    ∃ more, Tracked spec initial next (order ++ more) := by
  cases stepped with
  | invoke client op idle => exact ⟨[], (append_nil order).symm ▸ tracked.invoke⟩
  | commit client done value running allowed => exact ⟨[done], tracked.commit running allowed⟩
  | respond client done effective => exact ⟨[], (append_nil order).symm ▸ tracked.respond effective⟩

theorem linearizable {clients : Nat} (steps : Relation.ReflTransGen (Step spec) (start initial clients) object) :
    Linearizable spec initial object.history := by
  have tracked : ∃ order, Tracked spec initial object order := by
    induction steps with
    | refl => exact ⟨[], tracked_start initial clients⟩
    | tail _ stepped ih =>
      obtain ⟨order, tracked⟩ := ih
      obtain ⟨more, kept⟩ := tracked.step stepped
      exact ⟨order ++ more, kept⟩
  obtain ⟨order, tracked⟩ := tracked
  exact ⟨order, object.value, tracked.linear⟩

end AtomicObject

end

end EventBase.Foundations
