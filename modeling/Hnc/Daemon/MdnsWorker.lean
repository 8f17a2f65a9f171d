import Hnc.Lib.Posix
import Hnc.Lib.RingBuffer
import Hnc.Lib.Runs

/-!
# The mDNS worker

`daemon/hotspotd/mdns_worker.c` runs mDNS queries in a thread of its own.  Tasks
and results go through two ring buffers, each under its own mutex.  An event is
what one thread does while it holds a mutex, or between two of them.  The calls
of `hnc_mdns_worker_enqueue` look at `g_started` without a mutex, so they may be
anywhere between that look and the queue.
-/

namespace Hnc.MdnsWorker

open Posix

/-- `HNC_MDNS_QUEUE_SIZE`. -/
def queueSize : Nat := 16

/-- `hnc_mdns_task_t`. -/
structure Task where
  mac : Text
  ip : Text
deriving DecidableEq, Repr

/-- `hnc_mdns_result_t`. -/
structure Result where
  mac : Text
  hostname : Text
  hostnameSrc : Text
  success : Bool
deriving DecidableEq, Repr

/-- `strncpy` into a cleared array of `size` bytes, all but the last. -/
def copyInto (size : Nat) (s : Text) : Text :=
  s.take (size - 1)

/-- The entry that `hnc_mdns_worker_enqueue` makes. -/
def newTask (mac ip : Text) : Task :=
  ⟨copyInto 18 mac, copyInto 40 ip⟩

/-- The entry that `worker_push_result` makes. -/
def newResult (mac hostname src : Text) (success : Bool) : Result :=
  ⟨copyInto 18 mac, copyInto 64 hostname, copyInto 16 src, success⟩

/-- The result of a task: what `g_resolve_fn` found, if it found something. -/
def resultOf (task : Task) : Option Text → Result
  | some hostname => newResult task.mac hostname "mdns".toList true
  | none => newResult task.mac [] "mac".toList false

/-- Where `worker_fn` is: at its first mutex or waiting for a task, in
`g_resolve_fn`, before `worker_push_result`, or behind its loop. -/
inductive Phase where
  | idle
  | resolving (task : Task)
  | pushing (task : Task) (result : Result)
  | exited
deriving DecidableEq, Repr

/-- A result that reached `worker_push_result`, and how many results the queue
held then. -/
structure Push where
  task : Task
  result : Result
  held : Nat
deriving DecidableEq, Repr

/-- What has happened so far.  No function reads it. -/
structure History where
  accepted : List Task
  taken : List Task
  discarded : List Task
  pushes : List Push
  drained : List Result

structure State where
  tasks : RingBuffer Task
  results : RingBuffer Result
  started : Bool
  stop : Bool
  worker : Phase
  /-- Calls of `hnc_mdns_worker_enqueue` that have seen `g_started`. -/
  enqueues : List (Text × Text)
  /-- Calls of `hnc_mdns_worker_stop` that have cleared `g_started`. -/
  stops : Nat
  history : History

inductive Event where
  | callEnqueue (mac ip : Text)
  | enqueue (call : Nat)
  | drain (outMax : Nat)
  | dequeue
  | resolve (answer : Option Text)
  | push
  | callStop
  | setStop
deriving DecidableEq, Repr

/-- `hnc_mdns_worker_start`, after which the thread runs. -/
def start (tasks : RingBuffer Task) (results : RingBuffer Result) : State where
  tasks := tasks.reset
  results := results.reset
  started := true
  stop := false
  worker := .idle
  enqueues := []
  stops := 0
  history := ⟨[], [], [], [], []⟩

/-- The part of `hnc_mdns_worker_enqueue` under the mutex. -/
def enqueue (s : State) (mac ip : Text) : State :=
  if queueSize ≤ s.tasks.count then s
  else
    { s with
      tasks := s.tasks.push queueSize (newTask mac ip)
      history := { s.history with
        accepted := s.history.accepted ++ [newTask mac ip] } }

/-- The loop of `hnc_mdns_worker_drain_results` for `left` more results. -/
def drainLoop : Nat → State → State
  | 0, s => s
  | left + 1, s =>
      if 0 < s.results.count then
        drainLoop left
          { s with
            results := s.results.pop queueSize
            history := { s.history with
              drained := s.history.drained ++
                [s.results.cells s.results.head] } }
      else s

/-- The part of `worker_fn` under the mutex: it leaves, or waits, or takes the
first task. -/
def dequeue (s : State) : State :=
  if s.stop then
    { s with
      tasks := s.tasks.reset
      worker := .exited
      history := { s.history with
        discarded := s.tasks.contents queueSize } }
  else if s.tasks.count = 0 then s
  else
    let task := s.tasks.cells s.tasks.head
    { s with
      tasks := s.tasks.pop queueSize
      worker := .resolving task
      history := { s.history with taken := s.history.taken ++ [task] } }

/-- `worker_push_result`. -/
def pushResult (s : State) (task : Task) (result : Result) : State :=
  let history := { s.history with
    pushes := s.history.pushes ++ [⟨task, result, s.results.count⟩] }
  if queueSize ≤ s.results.count then
    { s with worker := .idle, history := history }
  else
    { s with
      results := s.results.push queueSize result
      worker := .idle
      history := history }

/-- An event that cannot happen leaves the state alone. -/
def step (s : State) : Event → State
  | .callEnqueue mac ip =>
      if s.started then { s with enqueues := s.enqueues ++ [(mac, ip)] } else s
  | .enqueue call =>
      match s.enqueues[call]? with
      | none => s
      | some (mac, ip) =>
          enqueue { s with enqueues := s.enqueues.eraseIdx call } mac ip
  | .drain outMax => drainLoop outMax s
  | .dequeue =>
      match s.worker with
      | .idle => dequeue s
      | _ => s
  | .resolve answer =>
      match s.worker with
      | .resolving task =>
          { s with worker := .pushing task (resultOf task answer) }
      | _ => s
  | .push =>
      match s.worker with
      | .pushing task result => pushResult s task result
      | _ => s
  | .callStop =>
      if s.started then { s with started := false, stops := s.stops + 1 } else s
  | .setStop =>
      if 0 < s.stops then { s with stop := true, stops := s.stops - 1 } else s

/-! ## Two queues -/

/-- The task the worker has in hand. -/
def Phase.inHand : Phase → List Task
  | .resolving task => [task]
  | .pushing task _ => [task]
  | _ => []

/-- The results that found room. -/
def stored (pushes : List Push) : List Result :=
  (pushes.filter fun p => p.held < queueSize).map Push.result

/-- Nothing is lost or doubled on the way through the two queues: the accepted
tasks were taken, or discarded by a stop, or are in the ring; each task that was
taken made one result, which was stored if the ring had room; the stored results
were drained or are in the ring. -/
structure Queues (s : State) : Prop where
  tasks : s.tasks.Valid queueSize
  results : s.results.Valid queueSize
  accepted : s.history.accepted =
    s.history.taken ++ s.history.discarded ++ s.tasks.contents queueSize
  discarded : s.history.discarded ≠ [] → s.worker = .exited ∧ s.stop = true
  pushed : s.history.taken =
    s.history.pushes.map Push.task ++ s.worker.inHand
  answers : ∀ p ∈ s.history.pushes, p.held ≤ queueSize ∧
    ∃ answer, p.result = resultOf p.task answer
  inHand : ∀ task result, s.worker = .pushing task result →
    ∃ answer, result = resultOf task answer
  drained : s.history.drained ++ s.results.contents queueSize =
    stored s.history.pushes

theorem queues_start (tasks : RingBuffer Task) (results : RingBuffer Result) :
    Queues (start tasks results) where
  tasks := RingBuffer.valid_reset (by decide)
  results := RingBuffer.valid_reset (by decide)
  accepted := rfl
  discarded := fun solid => absurd rfl solid
  pushed := rfl
  answers := nofun
  inHand := nofun
  drained := rfl

namespace Queues

variable {s : State}

theorem enqueue (q : Queues s) (mac ip : Text) :
    Queues (MdnsWorker.enqueue s mac ip) := by
  rw [MdnsWorker.enqueue]
  split
  · exact q
  · rename_i room
    have room := Nat.lt_of_not_le room
    exact
      { q with
        tasks := q.tasks.push _ room
        accepted := by
          change s.history.accepted ++ [newTask mac ip] =
            s.history.taken ++ s.history.discarded ++
              (s.tasks.push queueSize (newTask mac ip)).contents queueSize
          rw [q.tasks.contents_push _ room, q.accepted]
          simp only [List.append_assoc] }

theorem drainLoop (q : Queues s) (left : Nat) :
    Queues (MdnsWorker.drainLoop left s) := by
  induction left generalizing s with
  | zero => exact q
  | succ left induction =>
      rw [MdnsWorker.drainLoop]
      split
      · rename_i solid
        apply induction
        exact
          { q with
            results := q.results.pop solid
            drained := by
              change (s.history.drained ++ [s.results.cells s.results.head]) ++
                (s.results.pop queueSize).contents queueSize =
                  stored s.history.pushes
              rw [← q.drained, RingBuffer.contents_pop solid q.results]
              simp }
      · exact q

theorem discarded_nil (q : Queues s) (alive : s.worker ≠ .exited) :
    s.history.discarded = [] := by
  by_contra solid
  exact alive (q.discarded solid).1

theorem dequeue (q : Queues s) (idle : s.worker = .idle) :
    Queues (MdnsWorker.dequeue s) := by
  have none := q.discarded_nil (by rw [idle]; exact nofun)
  have empty : s.worker.inHand = [] := by rw [idle]; rfl
  have accepted := q.accepted
  have pushed := q.pushed
  rw [none, List.append_nil] at accepted
  rw [empty, List.append_nil] at pushed
  rw [MdnsWorker.dequeue]
  split
  · rename_i stopped
    exact
      { q with
        tasks := RingBuffer.valid_reset (by decide)
        accepted := by
          change s.history.accepted = s.history.taken ++
            s.tasks.contents queueSize ++ []
          rw [List.append_nil, accepted]
        discarded := fun _ => ⟨rfl, stopped⟩
        pushed := pushed.trans (List.append_nil _).symm
        inHand := nofun }
  · split
    · exact q
    · rename_i _ solid
      have solid := Nat.pos_of_ne_zero solid
      exact
        { q with
          tasks := q.tasks.pop solid
          accepted := by
            change s.history.accepted =
              (s.history.taken ++ [s.tasks.cells s.tasks.head]) ++
                s.history.discarded ++
                  (s.tasks.pop queueSize).contents queueSize
            rw [none, accepted, RingBuffer.contents_pop solid q.tasks]
            simp
          discarded := fun solid => absurd none solid
          pushed := congrArg (· ++ [s.tasks.cells s.tasks.head]) pushed
          inHand := nofun }

theorem resolve (q : Queues s) {task : Task}
    (resolving : s.worker = .resolving task) (answer : Option Text) :
    Queues { s with worker := .pushing task (resultOf task answer) } :=
  { q with
    discarded := fun solid => by
      have exited := (q.discarded solid).1
      rw [resolving] at exited
      cases exited
    pushed := by
      have pushed := q.pushed
      rw [resolving] at pushed
      exact pushed
    inHand := by
      intro other result same
      cases same
      exact ⟨answer, rfl⟩ }

theorem stored_append (pushes : List Push) (p : Push) :
    stored (pushes ++ [p]) =
      stored pushes ++ if p.held < queueSize then [p.result] else [] := by
  rw [stored, List.filter_append, stored]
  by_cases room : p.held < queueSize
  · simp [room]
  · simp [room]

theorem pushResult (q : Queues s) {task : Task} {result : Result}
    (pushing : s.worker = .pushing task result) :
    Queues (MdnsWorker.pushResult s task result) := by
  have none := q.discarded_nil (by rw [pushing]; exact nofun)
  have pushed := q.pushed
  rw [pushing] at pushed
  have taken : s.history.taken =
      (s.history.pushes ++ [Push.mk task result s.results.count]).map
        Push.task ++ Phase.idle.inHand := by
    rw [pushed]
    simp [Phase.inHand]
  have answers : ∀ p ∈ s.history.pushes ++ [⟨task, result, s.results.count⟩],
      p.held ≤ queueSize ∧ ∃ answer, p.result = resultOf p.task answer := by
    intro p member
    rcases List.mem_append.mp member with early | last
    · exact q.answers p early
    · rw [List.mem_singleton.mp last]
      exact ⟨q.results.count_le, q.inHand task result pushing⟩
  rw [MdnsWorker.pushResult]
  split
  · rename_i full
    exact
      { q with
        discarded := fun solid => absurd none solid
        pushed := taken
        answers := answers
        inHand := nofun
        drained := by
          change s.history.drained ++ s.results.contents queueSize =
            stored (s.history.pushes ++ [⟨task, result, s.results.count⟩])
          rw [stored_append, if_neg (Nat.not_lt_of_le full), List.append_nil,
            q.drained] }
  · rename_i room
    have room := Nat.lt_of_not_le room
    exact
      { q with
        results := q.results.push result room
        discarded := fun solid => absurd none solid
        pushed := taken
        answers := answers
        inHand := nofun
        drained := by
          change s.history.drained ++
            (s.results.push queueSize result).contents queueSize =
              stored (s.history.pushes ++ [⟨task, result, s.results.count⟩])
          rw [stored_append, if_pos room, q.results.contents_push _ room,
            ← List.append_assoc, q.drained] }

end Queues

/-- Every event keeps the queues. -/
theorem queues_step {s : State} (q : Queues s) (event : Event) :
    Queues (step s event) := by
  cases event with
  | callEnqueue mac ip =>
      rw [step]
      split
      · exact { q with }
      · exact q
  | enqueue call =>
      rw [step]
      cases s.enqueues[call]? with
      | none => exact q
      | some pair =>
          have waiting : Queues { s with enqueues := s.enqueues.eraseIdx call } :=
            { q with }
          exact waiting.enqueue pair.1 pair.2
  | drain outMax => exact q.drainLoop outMax
  | dequeue =>
      rw [step]
      split
      · rename_i idle
        exact q.dequeue idle
      · exact q
  | resolve answer =>
      rw [step]
      split
      · rename_i resolving
        exact q.resolve resolving answer
      · exact q
  | push =>
      rw [step]
      split
      · rename_i pushing
        exact q.pushResult pushing
      · exact q
  | callStop =>
      rw [step]
      split
      · exact { q with }
      · exact q
  | setStop =>
      rw [step]
      split
      · exact { q with discarded := fun solid => ⟨(q.discarded solid).1, rfl⟩ }
      · exact q

def lonelyTask : Task :=
  ⟨"aa:bb:cc:dd:ee:01".toList, "192.168.43.7".toList⟩

def lonelyStart : State :=
  start ⟨fun _ => lonelyTask, 3, 5, 2⟩
    ⟨fun _ => resultOf lonelyTask none, 0, 0, 0⟩

def lonelyEvents : List Event :=
  [.callEnqueue lonelyTask.mac lonelyTask.ip, .enqueue 0, .dequeue,
    .resolve (some "Mi-10".toList), .push, .drain 4]

end Hnc.MdnsWorker
