import InterBit.Core.Bytes
import InterBit.Lib.BatchQueue
import InterBit.Lib.Run

/-!
# The batch processor

`optimization/batch_processor.rs`. Any number of tasks submit items, one loop takes batches from
the queue, and a spawned task runs each batch when there is a permit. Each access to the queue, to
the semaphore, to a channel and to a counter is a step, and an action names whose step comes next.
What the clock shows and what the processor returns come with the action. Sizes are `usize` of 64
bits; durations of the configuration are in nanoseconds.

A submission is the number of its item, which stands for its channel. The state also has what has
happened: the submissions, the batches taken with the `max_batch_size` in force, and the calls.
-/

namespace InterBit.Optimization

open InterBit.Lib

/-- `struct BatchItem`; the number names the channel of the response. -/
abbrev BatchItem (T : Type) := Entry T

/-- `struct BatchConfig`. -/
structure BatchConfig where
  maxBatchSize : U64
  maxWaitTime : Nat
  minBatchSize : U64
  parallelBatches : Nat
  adaptive : Bool
  deriving DecidableEq

/-- `BatchConfig::default`. -/
def BatchConfig.default : BatchConfig where
  maxBatchSize := 100
  maxWaitTime := 10000000
  minBatchSize := 10
  parallelBatches := 4
  adaptive := true

/-- `struct BatchMetrics`. -/
structure BatchMetrics where
  totalBatches : U64
  totalItems : U64
  avgBatchSize : U64
  avgWaitTimeMs : U64
  deriving DecidableEq

namespace BatchProcessor

/-- Where `processing_loop` is. -/
inductive Loop (T : Type) where
  /-- At the sleep. -/
  | sleeping
  /-- `should_process` is true. -/
  | processing
  /-- At the semaphore, with a batch and its waiting time. -/
  | acquiring (batch : List (BatchItem T)) (waitTime : U64)
  /-- The task is spawned; at `adapt_config`. -/
  | adapting
  /-- In `adapt_config`, with the average batch size. -/
  | adaptingWith (avgBatchSize : U64)
  /-- A panic has stopped the loop, and has dropped a batch if it had one. -/
  | panicked (dropped : Option (List (BatchItem T)))

/-- Where a spawned task is. -/
inductive Task (T R : Type) where
  /-- Before the call of the processor. -/
  | spawned (batch : List (BatchItem T)) (waitTime : U64)
  /-- With the responses that are left. -/
  | sending (responses : List (Nat × R)) (batchSize : Nat) (waitTime : U64)
  /-- `total_batches` is updated. -/
  | counted (batchSize : Nat) (waitTime : U64)
  /-- `total_items` is updated. -/
  | summed (batchSize : Nat) (waitTime : U64)
  /-- `avg_batch_size` is loaded. -/
  | averagingSize (batchSize : Nat) (waitTime currentAvg : U64)
  /-- `avg_batch_size` is stored. -/
  | averagedSize (waitTime : U64)
  /-- `avg_wait_time_ms` is loaded. -/
  | averagingWait (waitTime currentWait : U64)
  /-- At the end, or after a panic, with the permit. -/
  | dropping
  | ended

/-- The shared state, the loop with its configuration, the tasks, and what has happened. -/
structure State (T R : Type) where
  queue : List (BatchItem T)
  permits : Nat
  metrics : BatchMetrics
  config : BatchConfig
  loop : Loop T
  tasks : List (Task T R)
  submissions : List T
  taken : List (Taken T)
  calls : List (Call T R)
  answers : List (Nat × R)

/-- The next step. -/
inductive Action (T R : Type) where
  /-- `push_back` in `submit`. -/
  | submit (item : T)
  /-- The loop decides, with the time since `last_process` and that since the oldest item came. -/
  | check (sinceLast sinceOldest : Nat)
  /-- The loop takes a batch; each item has waited some milliseconds. -/
  | take (elapsed : Nat → U64)
  /-- The loop gets a permit. -/
  | acquire
  /-- The loop goes on in `adapt_config`. -/
  | adapt
  /-- A task calls the processor, which returns these results. -/
  | call (task : Nat) (results : List R)
  /-- A task goes on. -/
  | go (task : Nat)

section Code

variable {T R : Type} (env : Env)

/-- `new`. -/
def new (config : BatchConfig) : State T R where
  queue := []
  permits := config.parallelBatches
  metrics := ⟨0, 0, 0, 0⟩
  config := config
  loop := .sleeping
  tasks := []
  submissions := []
  taken := []
  calls := []
  answers := []

/-- `should_process`. -/
def shouldProcess (config : BatchConfig) (queueSize sinceLast sinceOldest : Nat) : Bool :=
  if queueSize = 0 then false
  else if config.maxBatchSize.toNat ≤ queueSize then true
  else if config.maxWaitTime ≤ sinceLast ∧ config.minBatchSize.toNat ≤ queueSize then true
  else config.maxWaitTime ≤ sinceOldest

/-- `wait_time`: the average of the waiting times. -/
def waitTime (elapsed : Nat → U64) (batch : List (BatchItem T)) : Option U64 := do
  let sum ← batch.foldlM (fun sum item => env.add64 sum (elapsed item.id)) 0
  return BitVec.ofNat 64 (sum.toNat / batch.length)

/-- `max_batch_size` in `adapt_config`. -/
def adaptBatchSize (config : BatchConfig) (avgBatchSize : U64) : Option BatchConfig := do
  if avgBatchSize > (← env.mul64 config.maxBatchSize 9) / 10 then
    let enlarged := (← env.mul64 config.maxBatchSize 3) / 2
    return { config with maxBatchSize := if enlarged ≤ 1000 then enlarged else 1000 }
  else return config

/-- `max_wait_time` in `adapt_config`. -/
def adaptWaitTime (config : BatchConfig) (avgWaitTime : U64) : Option BatchConfig := do
  let millis : U64 := BitVec.ofNat 64 (config.maxWaitTime / 1000000)
  if avgWaitTime > (← env.mul64 millis 2) then
    let reduced := (← env.mul64 millis 3) / 4
    return { config with
      maxWaitTime := 1000000 * (if reduced ≤ 1 then (1 : U64) else reduced).toNat }
  else return config

/-- `adapt_config`. -/
def adaptConfig (config : BatchConfig) (avgBatchSize avgWaitTime : U64) : Option BatchConfig := do
  adaptWaitTime env (← adaptBatchSize env config avgBatchSize) avgWaitTime

/-- The new value of an average. -/
def newAvg (current value : U64) : Option U64 := do
  return (← env.add64 (← env.mul64 current 9) value) / 10

/-- The loop takes a batch. -/
def takeBatch (elapsed : Nat → U64) (s : State T R) : State T R :=
  let batchSize := min s.queue.length s.config.maxBatchSize.toNat
  let batch := s.queue.take batchSize
  if batch = [] then { s with loop := .sleeping }
  else { s with
    queue := s.queue.drop batchSize
    taken := s.taken ++ [⟨batch, s.config.maxBatchSize.toNat⟩]
    loop := match waitTime env elapsed batch with
      | some waitTime => .acquiring batch waitTime
      | none => .panicked (some batch) }

/-- A step of a spawned task after the call of the processor. -/
def goTask (s : State T R) (k : Nat) : Task T R → Option (State T R)
  | .spawned _ _ => none
  | .sending ((id, result) :: responses) batchSize waitTime =>
    some { s with
      answers := s.answers ++ [(id, result)]
      tasks := s.tasks.set k (.sending responses batchSize waitTime) }
  | .sending [] batchSize waitTime =>
    some { s with
      metrics := { s.metrics with totalBatches := s.metrics.totalBatches + 1 }
      tasks := s.tasks.set k (.counted batchSize waitTime) }
  | .counted batchSize waitTime =>
    some { s with
      metrics := { s.metrics with
        totalItems := s.metrics.totalItems + BitVec.ofNat 64 batchSize }
      tasks := s.tasks.set k (.summed batchSize waitTime) }
  | .summed batchSize waitTime =>
    some { s with
      tasks := s.tasks.set k (.averagingSize batchSize waitTime s.metrics.avgBatchSize) }
  | .averagingSize batchSize waitTime currentAvg =>
    match newAvg env currentAvg (BitVec.ofNat 64 batchSize) with
    | some newAvg => some { s with
        metrics := { s.metrics with avgBatchSize := newAvg }
        tasks := s.tasks.set k (.averagedSize waitTime) }
    | none => some { s with tasks := s.tasks.set k .dropping }
  | .averagedSize waitTime =>
    some { s with tasks := s.tasks.set k (.averagingWait waitTime s.metrics.avgWaitTimeMs) }
  | .averagingWait waitTime currentWait =>
    match newAvg env currentWait waitTime with
    | some newWait => some { s with
        metrics := { s.metrics with avgWaitTimeMs := newWait }
        tasks := s.tasks.set k .dropping }
    | none => some { s with tasks := s.tasks.set k .dropping }
  | .dropping => some { s with permits := s.permits + 1, tasks := s.tasks.set k .ended }
  | .ended => none

/-- The state after an action; `none` if it is not enabled. -/
def stepState (s : State T R) : Action T R → Option (State T R)
  | .submit item => some { s with
      queue := s.queue ++ [⟨s.submissions.length, item⟩]
      submissions := s.submissions ++ [item] }
  | .check sinceLast sinceOldest =>
    match s.loop with
    | .sleeping =>
      if shouldProcess s.config s.queue.length sinceLast sinceOldest then
        some { s with loop := .processing }
      else some s
    | _ => none
  | .take elapsed =>
    match s.loop with
    | .processing => some (takeBatch env elapsed s)
    | _ => none
  | .acquire =>
    match s.loop with
    | .acquiring batch waitTime =>
      if 0 < s.permits then
        some { s with
          permits := s.permits - 1
          tasks := s.tasks ++ [.spawned batch waitTime]
          loop := if s.config.adaptive then .adapting else .sleeping }
      else none
    | _ => none
  | .adapt =>
    match s.loop with
    | .adapting => some { s with loop := .adaptingWith s.metrics.avgBatchSize }
    | .adaptingWith avgBatchSize =>
      match adaptConfig env s.config avgBatchSize s.metrics.avgWaitTimeMs with
      | some config => some { s with config, loop := .sleeping }
      | none => some { s with loop := .panicked none }
    | _ => none
  | .call k results =>
    match s.tasks[k]? with
    | some (.spawned batch waitTime) =>
      let call : Call T R := ⟨batch, results⟩
      some { s with
        calls := s.calls ++ [call]
        tasks := s.tasks.set k (.sending call.answers batch.length waitTime) }
    | _ => none
  | .go k => (s.tasks[k]?).bind (goTask env s k)

/-- The same as a step of a component that returns nothing. -/
def step (s : State T R) (a : Action T R) : Option (State T R × Unit) :=
  (stepState env s a).map fun s' => (s', ())

/-- What a call of `submit` has got in its channel. -/
def response (s : State T R) (id : Nat) : Option R := s.answers.lookup id

/-- What a call of `submit_batch` returns, which has made these submissions. -/
def submitBatch (s : State T R) (ids : List Nat) : Option (List R) := ids.mapM (response s)

/-- The processor returns what it may return. -/
def Admissible (processes : List T → List R → Prop) (s : State T R) : Action T R → Prop
  | .call k results => ∀ batch waitTime, s.tasks[k]? = some (.spawned batch waitTime) →
      processes (batch.map Entry.item) results
  | _ => True

end Code

end BatchProcessor

end InterBit.Optimization
