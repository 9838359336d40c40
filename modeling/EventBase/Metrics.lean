import EventBase.Worker

/-! The counters an operator reads: `MetricsAggregator` folds audit records by topic. -/

namespace EventBase

/-- `latencySum` holds how many completed messages were timed and their total time. -/
structure MetricsAggregator where
  enqueued : Table Nat := ∅
  completed : Table Nat := ∅
  failed : Table Nat := ∅
  retried : Table Nat := ∅
  latencySum : Table (Nat × Duration) := ∅

/-- `*map.entry(topic).or_default() += 1` -/
def Table.increment (counts : Table Nat) (topic : String) : Table Nat :=
  counts.insert topic ((counts.lookup topic).getD 0 + 1)

namespace MetricsAggregator

def addLatency (sums : Table (Nat × Duration)) (topic : String) (duration : Duration) : Table (Nat × Duration) :=
  let entry := (sums.lookup topic).getD (0, 0)
  sums.insert topic (entry.1 + 1, entry.2 + duration)

def feed (aggregator : MetricsAggregator) (record : AuditRecord) : MetricsAggregator :=
  match record.eventType with
  | .enqueued => { aggregator with enqueued := Table.increment aggregator.enqueued record.topic }
  | .deadLettered => { aggregator with failed := Table.increment aggregator.failed record.topic }
  | .retry => { aggregator with retried := Table.increment aggregator.retried record.topic }
  | .processingCompleted =>
    { aggregator with
      completed := Table.increment aggregator.completed record.topic
      latencySum := match record.duration with
        | some duration => addLatency aggregator.latencySum record.topic duration
        | none => aggregator.latencySum }
  | .processingStarted => aggregator

end MetricsAggregator

end EventBase
