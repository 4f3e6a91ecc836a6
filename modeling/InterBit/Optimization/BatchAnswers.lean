import InterBit.Optimization.BatchProcessor

/-!
# What a batch processor answers

The batch processor is a queue that is served in batches (`ledger_step`), whatever its tasks, its
counters and its configuration do meanwhile. So in every run the batches are taken in the order of
submission, no item is passed to the processor twice, and each submission is answered with the
result for its own item (`run_answersCorrectly`).
-/

namespace InterBit.Optimization.BatchProcessor

open InterBit.Lib Relation

variable {T R : Type}

/-- The batch that the loop has and has not passed on. -/
def Loop.waiting : Loop T → Multiset (List (BatchItem T))
  | .acquiring batch _ => {batch}
  | _ => 0

/-- The batch that was dropped with the loop. -/
def Loop.discarded : Loop T → Multiset (List (BatchItem T))
  | .panicked (some batch) => {batch}
  | _ => 0

/-- The loop has no batch, and has dropped none. -/
def Loop.Idle (loop : Loop T) : Prop := loop.waiting = 0 ∧ loop.discarded = 0

/-- The batch of a task before the call of the processor. -/
def Task.waiting : Task T R → Multiset (List (BatchItem T))
  | .spawned batch _ => {batch}
  | _ => 0

/-- The responses that a task has not sent. -/
def Task.unsent : Task T R → Multiset (Nat × R)
  | .sending responses _ _ => ↑responses
  | _ => 0

/-- The batches that were taken and are not passed to the processor yet. -/
def waiting (s : State T R) : Multiset (List (BatchItem T)) :=
  s.loop.waiting + (s.tasks.map Task.waiting).sum

/-- The batch that was dropped with the loop. -/
def discarded (s : State T R) : Multiset (List (BatchItem T)) := s.loop.discarded

/-- The responses that are not sent yet. -/
def unsent (s : State T R) : Multiset (Nat × R) := (s.tasks.map Task.unsent).sum

/-- The processor as a queue that is served in batches. -/
def ledger (s : State T R) : Ledger T R where
  submissions := s.submissions
  queue := s.queue
  taken := s.taken
  waiting := waiting s
  discarded := discarded s
  calls := s.calls
  unsent := unsent s
  answers := ↑s.answers

/-- What a step may do: a batch is discarded only where sums are checked. -/
def Serves (env : Env) (processes : List T → List R → Prop) : Ledger T R → Ledger T R → Prop :=
  Ledger.Step (env.overflowChecks = true) processes

/-! ## One step -/

variable {env : Env} {processes : List T → List R → Prop}

/-- A task after the call of the processor sends one response, or keeps what it has to send. -/
theorem goTask_cases {s s' : State T R} {k : Nat} {task : Task T R}
    (h : goTask env s k task = some s') :
    (∃ answer responses batchSize waitTime,
      task = .sending (answer :: responses) batchSize waitTime ∧ s' = { s with
        answers := s.answers ++ [answer]
        tasks := s.tasks.set k (.sending responses batchSize waitTime) }) ∨
    ∃ permits metrics task', s' = { s with permits, metrics, tasks := s.tasks.set k task' } ∧
      task'.waiting = task.waiting ∧ task'.unsent = task.unsent := by
  cases task with
  | spawned batch waitTime => cases h
  | sending responses batchSize waitTime =>
    cases responses with
    | nil => exact .inr ⟨_, _, _, (Option.some.inj h).symm, rfl, rfl⟩
    | cons answer responses => exact .inl ⟨_, _, _, _, rfl, (Option.some.inj h).symm⟩
  | counted batchSize waitTime => exact .inr ⟨_, _, _, (Option.some.inj h).symm, rfl, rfl⟩
  | summed batchSize waitTime => exact .inr ⟨_, _, _, (Option.some.inj h).symm, rfl, rfl⟩
  | averagingSize batchSize waitTime currentAvg =>
    simp only [goTask] at h
    split at h
    next => exact .inr ⟨_, _, _, (Option.some.inj h).symm, rfl, rfl⟩
    next => exact .inr ⟨_, _, _, (Option.some.inj h).symm, rfl, rfl⟩
  | averagedSize waitTime => exact .inr ⟨_, _, _, (Option.some.inj h).symm, rfl, rfl⟩
  | averagingWait waitTime currentWait =>
    simp only [goTask] at h
    split at h
    next => exact .inr ⟨_, _, _, (Option.some.inj h).symm, rfl, rfl⟩
    next => exact .inr ⟨_, _, _, (Option.some.inj h).symm, rfl, rfl⟩
  | dropping => exact .inr ⟨_, _, _, (Option.some.inj h).symm, rfl, rfl⟩
  | ended => cases h

/-- A step of a task after the call of the processor. -/
theorem ledger_goTask {s s' : State T R} {k : Nat} {task : Task T R}
    (h : s.tasks[k]? = some task) (hs' : goTask env s k task = some s') :
    ReflTransGen (Serves env processes) (ledger s) (ledger s') := by
  rcases goTask_cases hs' with ⟨answer, responses, batchSize, waitTime, rfl, rfl⟩ |
    ⟨permits, metrics, task', rfl, hwaiting, hunsent⟩
  · have hwaiting := sum_map_set_of_eq Task.waiting h
      (y := .sending responses batchSize waitTime) rfl
    obtain ⟨others, hold, hnew⟩ := sum_map_set Task.unsent h (.sending responses batchSize waitTime)
    have hunsent : (ledger s).unsent = answer ::ₘ (↑responses + others) :=
      hold.trans (Multiset.cons_add answer ↑responses others)
    have hanswers : (↑(s.answers ++ [answer]) : Multiset (Nat × R)) = answer ::ₘ ↑s.answers :=
      Multiset.coe_eq_coe.mpr (List.perm_append_singleton ..)
    have hledger : ledger { s with
          answers := s.answers ++ [answer]
          tasks := s.tasks.set k (.sending responses batchSize waitTime) }
        = { ledger s with
          unsent := ↑responses + others
          answers := answer ::ₘ (ledger s).answers } :=
      Ledger.ext rfl rfl rfl (congrArg (s.loop.waiting + ·) hwaiting) rfl rfl hnew hanswers
    rw [hledger]
    exact .single (.send _ hunsent)
  · have hsame : ledger { s with permits, metrics, tasks := s.tasks.set k task' } = ledger s :=
      Ledger.ext rfl rfl rfl (congrArg (s.loop.waiting + ·) (sum_map_set_of_eq _ h hwaiting)) rfl
        rfl (sum_map_set_of_eq _ h hunsent) rfl
    rw [hsame]

variable {s : State T R} {batch : List (BatchItem T)} {computes : T → R → Prop}

/-- The processor gets a batch. -/
theorem ledger_call {k : Nat} {waitTime : U64} {results : List R}
    (h : s.tasks[k]? = some (.spawned batch waitTime))
    (hresults : processes (batch.map Entry.item) results) :
    Serves env processes (ledger s) (ledger { s with
      calls := s.calls ++ [⟨batch, results⟩]
      tasks := s.tasks.set k
        (.sending (Call.answers ⟨batch, results⟩) batch.length waitTime) }) := by
  let task : Task T R := .sending (Call.answers ⟨batch, results⟩) batch.length waitTime
  obtain ⟨others, hold, hnew⟩ := sum_map_set Task.waiting h task
  obtain ⟨others', hold', hnew'⟩ := sum_map_set Task.unsent h task
  have hwaiting : (ledger s).waiting = batch ::ₘ (s.loop.waiting + others) := by
    show s.loop.waiting + (s.tasks.map Task.waiting).sum = _
    rw [hold, ← Multiset.singleton_add, add_left_comm]
    rfl
  have hwaiting' : s.loop.waiting + ((s.tasks.set k task).map Task.waiting).sum
      = s.loop.waiting + others := congrArg (s.loop.waiting + ·) (hnew.trans (zero_add others))
  have hunsent' : ((s.tasks.set k task).map Task.unsent).sum
      = ↑(Call.answers ⟨batch, results⟩) + unsent s := by
    rw [hnew', unsent, hold']
    exact congrArg (_ + ·) (zero_add others').symm
  have hledger : ledger { s with
        calls := s.calls ++ [⟨batch, results⟩]
        tasks := s.tasks.set k task }
      = { ledger s with
        waiting := s.loop.waiting + others
        calls := s.calls ++ [⟨batch, results⟩]
        unsent := ↑(Call.answers ⟨batch, results⟩) + unsent s } :=
    Ledger.ext rfl rfl rfl hwaiting' rfl rfl hunsent' rfl
  rw [hledger]
  exact .call _ hwaiting hresults

/-- A loop without a batch goes on. -/
theorem ledger_loop {loop : Loop T} (h : s.loop.Idle) (h' : loop.Idle) (config : BatchConfig) :
    ReflTransGen (Serves env processes) (ledger s) (ledger { s with loop, config }) := by
  have hsame : ledger { s with loop, config } = ledger s :=
    Ledger.ext rfl rfl rfl (congrArg (· + (s.tasks.map Task.waiting).sum) (h'.1.trans h.1.symm))
      (h'.2.trans h.2.symm) rfl rfl rfl
  rw [hsame]

/-- A sum of waiting times panics only where sums are checked. -/
theorem checked_of_waitTime {elapsed : Nat → U64} (h : waitTime env elapsed batch = none) :
    env.overflowChecks = true := by
  by_contra hchecks
  have hadd (a b : U64) : env.add64 a b = some (a + b) := if_neg fun h => hchecks h.1
  have hsum (sum : U64) : ∃ total,
      batch.foldlM (fun sum item => env.add64 sum (elapsed item.id)) sum = some total := by
    clear h
    induction batch generalizing sum with
    | nil => exact ⟨sum, rfl⟩
    | cons item batch ih =>
      rw [List.foldlM_cons, hadd]
      exact ih _
  obtain ⟨total, htotal⟩ := hsum 0
  rw [waitTime, htotal] at h
  cases h

/-- The loop takes a batch, and drops it if the sum of the waiting times overflows. -/
theorem ledger_takeBatch (elapsed : Nat → U64) (h : s.loop = .processing) :
    ReflTransGen (Serves env processes) (ledger s) (ledger (takeBatch env elapsed s)) := by
  have hloop : s.loop.Idle := by
    rw [h]
    exact ⟨rfl, rfl⟩
  let batchSize := min s.queue.length s.config.maxBatchSize.toNat
  let batch := s.queue.take batchSize
  let taken : Ledger T R := { ledger s with
    queue := s.queue.drop batchSize
    taken := s.taken ++ [⟨batch, s.config.maxBatchSize.toNat⟩]
    waiting := batch ::ₘ waiting s }
  -- the step of the ledger that both branches begin with
  have htake : Serves env processes (ledger s) taken := .take (ledger s) (Nat.min_le_right ..)
  rw [takeBatch]
  split
  next => exact ledger_loop hloop ⟨rfl, rfl⟩ s.config
  next =>
    have hwaiting : waiting s = (s.tasks.map Task.waiting).sum := by
      rw [waiting, hloop.1, zero_add]
    cases hwait : waitTime env elapsed
        (s.queue.take (min s.queue.length s.config.maxBatchSize.toNat)) with
    | some waitTime =>
      have hledger : ledger { s with
            queue := s.queue.drop batchSize
            taken := s.taken ++ [⟨batch, s.config.maxBatchSize.toNat⟩]
            loop := .acquiring batch waitTime } = taken := by
        refine Ledger.ext rfl rfl rfl ?_ hloop.2.symm rfl rfl rfl
        show {batch} + (s.tasks.map Task.waiting).sum = batch ::ₘ waiting s
        rw [hwaiting, Multiset.singleton_add]
      exact .single (hledger ▸ htake)
    | none =>
      have hledger : ledger { s with
            queue := s.queue.drop batchSize
            taken := s.taken ++ [⟨batch, s.config.maxBatchSize.toNat⟩]
            loop := .panicked (some batch) }
          = { taken with waiting := waiting s, discarded := batch ::ₘ taken.discarded } := by
        refine Ledger.ext rfl rfl rfl ?_ ?_ rfl rfl rfl
        · exact (zero_add _).trans hwaiting.symm
        · show {batch} = batch ::ₘ s.loop.discarded
          rw [hloop.2]
          rfl
      -- the sum of the waiting times panics, and the batch that was taken is lost
      exact .head htake (.single (hledger ▸ .discard taken rfl (checked_of_waitTime hwait)))

/-- The batch goes from the loop to a task. -/
theorem ledger_acquire {waitTime : U64} (h : s.loop = .acquiring batch waitTime) :
    ledger { s with
      permits := s.permits - 1
      tasks := s.tasks ++ [.spawned batch waitTime]
      loop := if s.config.adaptive then .adapting else .sleeping } = ledger s := by
  have hwaiting : ((s.tasks ++ [Task.spawned batch waitTime]).map Task.waiting).sum
      = (s.tasks.map Task.waiting).sum + {batch} := by
    rw [List.map_append, List.sum_append, List.map_singleton, List.sum_singleton]
    rfl
  have hunsent : ((s.tasks ++ [Task.spawned batch waitTime]).map Task.unsent).sum
      = (s.tasks.map Task.unsent).sum := by
    rw [List.map_append, List.sum_append, List.map_singleton, List.sum_singleton]
    exact add_zero _
  have hloop : (if s.config.adaptive then Loop.adapting else Loop.sleeping : Loop T).Idle := by
    split
    next => exact ⟨rfl, rfl⟩
    next => exact ⟨rfl, rfl⟩
  refine Ledger.ext rfl rfl rfl ?_ ?_ rfl hunsent rfl
  · show Loop.waiting _ + _ = s.loop.waiting + _
    rw [hloop.1, hwaiting, h, zero_add, add_comm]
    rfl
  · show Loop.discarded _ = s.loop.discarded
    rw [hloop.2, h]
    rfl

/-- Each step is none, one or two of the queue that is served in batches. -/
theorem ledger_step {s s' : State T R} {a : Action T R} (hok : Admissible processes s a)
    (h : stepState env s a = some s') :
    ReflTransGen (Serves env processes) (ledger s) (ledger s') := by
  cases a with
  | submit item =>
    obtain rfl := Option.some.inj h
    exact .single (.submit (ledger s) item)
  | check sinceLast sinceOldest =>
    simp only [stepState] at h
    split at h
    next hloop =>
      -- the loop holds no batch, before and after
      have hidle : s.loop.Idle := by rw [hloop]; exact ⟨rfl, rfl⟩
      split at h
      next =>
        obtain rfl := Option.some.inj h
        exact ledger_loop hidle ⟨rfl, rfl⟩ s.config
      next =>
        obtain rfl := Option.some.inj h
        exact .refl
    next => cases h
  | take elapsed =>
    simp only [stepState] at h
    split at h
    next hloop =>
      obtain rfl := Option.some.inj h
      exact ledger_takeBatch elapsed hloop
    next => cases h
  | acquire =>
    simp only [stepState] at h
    split at h
    next batch waitTime hloop =>
      split at h
      next =>
        obtain rfl := Option.some.inj h
        rw [ledger_acquire hloop]
      next => cases h
    next => cases h
  | adapt =>
    simp only [stepState] at h
    split at h
    next hloop =>
      have hidle : s.loop.Idle := by rw [hloop]; exact ⟨rfl, rfl⟩
      obtain rfl := Option.some.inj h
      exact ledger_loop hidle ⟨rfl, rfl⟩ s.config
    next avgBatchSize hloop =>
      have hidle : s.loop.Idle := by rw [hloop]; exact ⟨rfl, rfl⟩
      split at h
      next config _ =>
        obtain rfl := Option.some.inj h
        exact ledger_loop hidle ⟨rfl, rfl⟩ config
      next =>
        obtain rfl := Option.some.inj h
        exact ledger_loop hidle ⟨rfl, rfl⟩ s.config
    next => cases h
  | call k results =>
    simp only [stepState] at h
    split at h
    next batch waitTime hk =>
      obtain rfl := Option.some.inj h
      exact .single (ledger_call hk (hok batch waitTime hk))
    next => cases h
  | go k =>
    obtain ⟨task, hk, hgo⟩ := Option.bind_eq_some_iff.mp h
    -- a task that goes on without a call serves the step of its stage
    exact ledger_goTask hk hgo

/-! ## Runs -/

/-- The batches are the queue cut into pieces of a size allowed when they were taken. Each batch
waits, was dropped with the loop or was passed to the processor once, so each item is in one of
these batches or in the queue. Each answer is the result for the item of the submission that gets
it, no submission gets two, and each whose item was passed on has one or is about to get one. -/
structure AnswersCorrectly (env : Env) (computes : T → R → Prop) (s : State T R) : Prop where
  inOrder : s.taken.flatMap Taken.batch ++ s.queue = entries s.submissions
  bounded : ∀ taken ∈ s.taken, taken.batch.length ≤ taken.limit
  passedOnce : waiting s + discarded s + ↑(s.calls.map Call.batch) = ↑(s.taken.map Taken.batch)
  places : ↑s.queue + Ledger.itemsOf (waiting s + discarded s) + ↑(s.calls.flatMap Call.batch)
    = (↑(entries s.submissions) : Multiset (BatchItem T))
  dropped : discarded s ≠ 0 → env.overflowChecks = true
  own : ∀ id result, (id, result) ∈ s.answers →
    ∃ call ∈ s.calls, ∃ (k : Nat) (entry : BatchItem T), call.batch[k]? = some entry ∧
      entry.id = id ∧ call.results[k]? = some result ∧ s.submissions[id]? = some entry.item ∧
      computes entry.item result
  once : (s.answers.map Prod.fst).Nodup
  all : ∀ call ∈ s.calls, ∀ entry ∈ call.batch,
    ∃ result, (entry.id, result) ∈ s.answers ∨ (entry.id, result) ∈ unsent s

/-- The queue that is served in batches answers correctly. -/
theorem answersCorrectly_of_sound
    (hprocessor : ∀ items results, processes items results → List.Forall₂ computes items results)
    (hsound : Ledger.Sound (env.overflowChecks = true) processes (ledger s)) :
    AnswersCorrectly env computes s := by
  have hlength (items : List T) (results : List R) (h : processes items results) :
      results.length = items.length := (hprocessor items results h).length_eq.symm
  refine ⟨hsound.order, hsound.limits, hsound.batches, hsound.places,
    hsound.discarded, ?_, ?_, ?_⟩
  · intro id result hmem
    obtain ⟨call, hcall, k, entry, hentry, hid, hresult, hitem⟩ :=
      hsound.mem_answers (Multiset.mem_add.mpr (.inr (Multiset.mem_coe.mpr hmem)))
    have hpair := hprocessor _ _ (hsound.processed call hcall)
    obtain ⟨hk, rfl⟩ := List.getElem?_eq_some_iff.mp hentry
    obtain ⟨hk', rfl⟩ := List.getElem?_eq_some_iff.mp hresult
    refine ⟨call, hcall, k, call.batch[k], hentry, hid, hresult, hitem, ?_⟩
    have hcomputes := hpair.get ((List.length_map ..).symm ▸ hk) hk'
    rw [List.get_eq_getElem, List.get_eq_getElem, List.getElem_map] at hcomputes
    exact hcomputes
  · have hnodup := hsound.nodup_answers hlength
    rw [Multiset.map_add, Multiset.nodup_add] at hnodup
    exact Multiset.coe_nodup.mp hnodup.2.1
  · intro call hcall entry hentry
    have hmem : entry.id ∈ ((ledger s).unsent + (ledger s).answers).map Prod.fst := by
      rw [hsound.answered_ids hlength, Multiset.mem_coe]
      exact List.mem_map_of_mem (List.mem_flatMap.mpr ⟨call, hcall, hentry⟩)
    obtain ⟨⟨id, result⟩, hanswer, rfl⟩ := Multiset.mem_map.mp hmem
    exact ⟨result, (Multiset.mem_add.mp hanswer).symm⟩

/-- What `submit` returns is the result for its item. -/
theorem AnswersCorrectly.response (h : AnswersCorrectly env computes s) {id : Nat} {result : R}
    (hresponse : response s id = some result) :
    ∃ item, s.submissions[id]? = some item ∧ computes item result := by
  obtain ⟨before, after, hanswers, -⟩ := List.lookup_eq_some_iff.mp hresponse
  have hmem : (id, result) ∈ s.answers := by
    rw [hanswers]
    exact List.mem_append_right _ List.mem_cons_self
  obtain ⟨-, -, -, entry, -, -, -, hitem, hcomputes⟩ := h.own id result hmem
  exact ⟨entry.item, hitem, hcomputes⟩

/-- What `submit_batch` returns are the results for its items, in order. -/
theorem AnswersCorrectly.submitBatch (h : AnswersCorrectly env computes s) {ids : List Nat} :
    ∀ {results : List R}, submitBatch s ids = some results →
      List.Forall₂ (fun id result => ∃ item, s.submissions[id]? = some item ∧ computes item result)
        ids results := by
  induction ids with
  | nil =>
    intro results hresults
    obtain rfl := Option.some.inj hresults
    exact .nil
  | cons id ids ih =>
    intro results hresults
    rw [BatchProcessor.submitBatch, List.mapM_cons] at hresults
    obtain ⟨result, hresult, hrest⟩ := Option.bind_eq_some_iff.mp hresults
    obtain ⟨rest, hids, hcons⟩ := Option.bind_eq_some_iff.mp hrest
    obtain rfl := Option.some.inj hcons
    exact .cons (h.response hresult) (ih hids)

/-- Every run answers correctly. -/
theorem run_answersCorrectly {env : Env} {processes : List T → List R → Prop}
    {computes : T → R → Prop}
    (hprocessor : ∀ items results, processes items results → List.Forall₂ computes items results)
    (config : BatchConfig) {actions : List (Action T R)} {s : State T R}
    (hrun : Run (step env) (Admissible processes) (new config) actions s) :
    AnswersCorrectly env computes s := by
  have hsound : Ledger.Sound (env.overflowChecks = true) processes (ledger s) := by
    refine hrun.invariant (I := fun s => Ledger.Sound _ processes (ledger s))
      (fun s a s' _ _ hok hstep hs => ?_) Ledger.sound_empty
    obtain ⟨next, hnext, hpair⟩ := Option.map_eq_some_iff.mp hstep
    obtain ⟨rfl, -⟩ := Prod.mk.inj hpair
    exact hs.steps (ledger_step hok hnext)
  exact answersCorrectly_of_sound hprocessor hsound

/-- An environment with overflow checks. -/
def sampleBatchEnv : Env where
  overflowChecks := true
  sha256 _ := .replicate 32 0

/-- Batches of one item. -/
def sampleBatchConfig : BatchConfig :=
  { BatchConfig.default with maxBatchSize := 1, adaptive := false }

/-- A processor that adds one to each item. -/
def sampleProcesses (items results : List Nat) : Prop := results = items.map (· + 1)

theorem run_answersCorrectly_sample : ∃ s : State Nat Nat, s.answers = [(1, 7), (0, 6)] ∧
    AnswersCorrectly sampleBatchEnv (fun item result => result = item + 1) s := by
  have hprocessor (items results : List Nat) (h : sampleProcesses items results) :
      List.Forall₂ (fun item result => result = item + 1) items results := by
    rw [h]
    exact List.forall₂_map_right_iff.mpr (List.forall₂_same.mpr fun _ _ => rfl)
  have hrun : ∃ s : State Nat Nat, s.answers = [(1, 7), (0, 6)] ∧
      Run (step sampleBatchEnv) (Admissible sampleProcesses) (new sampleBatchConfig)
        [.submit 5, .submit 6, .check 0 0, .take fun _ => 10, .acquire, .check 0 0,
          .take fun _ => 20, .acquire, .call 1 [7], .call 0 [6], .go 1, .go 0] s := by
    refine ⟨_, ?_, .cons trivial rfl <| .cons trivial rfl <| .cons trivial rfl <|
      .cons trivial rfl <| .cons trivial rfl <| .cons trivial rfl <| .cons trivial rfl <|
      .cons trivial rfl <| .cons ?_ rfl <| .cons ?_ rfl <| .cons trivial rfl <|
      .cons trivial rfl .nil⟩
    · rfl
    · intro batch waitTime h
      obtain ⟨rfl, -⟩ := Task.spawned.inj (Option.some.inj h)
      rfl
    · intro batch waitTime h
      obtain ⟨rfl, -⟩ := Task.spawned.inj (Option.some.inj h)
      rfl
  obtain ⟨s, hanswers, hrun⟩ := hrun
  exact ⟨s, hanswers, run_answersCorrectly hprocessor sampleBatchConfig hrun⟩

/-- An item in a batch that waits for a permit is in no call and not in the queue. -/
theorem sample_not_queued :
    ¬ ∀ (actions : List (Action Nat Nat)) s,
      Run (step sampleBatchEnv) (Admissible sampleProcesses) (new BatchConfig.default) actions s →
      ∀ id < s.submissions.length,
        (∃ call ∈ s.calls, ∃ entry ∈ call.batch, entry.id = id) ∨
          ∃ entry ∈ s.queue, entry.id = id := by
  intro h
  have hrun : Run (step sampleBatchEnv) (Admissible sampleProcesses) (new BatchConfig.default)
      [.submit 5, .check 0 10000000, .take fun _ => 10]
      { new BatchConfig.default with
        loop := .acquiring [⟨0, 5⟩] 10
        submissions := [5]
        taken := [⟨[⟨0, 5⟩], 100⟩] } :=
    .cons trivial rfl <| .cons trivial rfl <| .cons trivial rfl .nil
  rcases h _ _ hrun 0 Nat.one_pos with ⟨call, hcall, -⟩ | ⟨entry, hentry, -⟩
  · exact absurd hcall List.not_mem_nil
  · exact absurd hentry List.not_mem_nil

end InterBit.Optimization.BatchProcessor
