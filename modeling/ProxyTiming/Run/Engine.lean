import ProxyTiming.Binary64.Decimal
import ProxyTiming.Run.Aggregator
import ProxyTiming.Run.Strategy

/-!
# The engine of a run

Three parties take part in a run.  The *dispatcher* admits trials, one for each
permit of the gate.  A *worker* carries one trial out, hands its outcome in, and may
rest before it gives its permit back.  The *aggregator* takes outcomes out of the
queue.  They run at the same time, and only some of what they do is ordered by what
they wait for.

The engine is therefore given as a state and a set of labelled steps, each of which
is enabled in some states.  A run is any sequence of enabled steps: whatever holds
after all of them holds no matter how the parties are interleaved, how long a trial
takes, what it results in and when somebody cancels.  Whatever the parties share is
read or written by a step of its own.

In particular the dispatcher needs two steps to admit a trial: it *looks* whether
somebody has cancelled, and if not it reaches for a permit.  Somebody may cancel
between the two.  A dispatcher that finds no permit waits, and looks again before it
takes the permit that has woken it.

A permit is held from admission to the end of the worker, whatever that end is.  So
the permits that are free and the workers that live always add up to the width of
the gate.
-/

namespace ProxyTiming.Run

open ProxyTiming.Time

/-- What a run is to do. -/
structure Plan where
  id : Uuid
  testName : String
  clientName : String
  targetUrl : String
  strategy : Strategy
  count : Nat

inductive Stage where
  /-- It has got its permit and has not started its trial. -/
  | admitted
  | executing
  /-- Its trial is over; the outcome has not been handed in. -/
  | returned (result : Except TrialFailure Timings)
  /-- It rests, and keeps its permit. -/
  | pacing
  /-- It is about to give its permit back. -/
  | leaving

/-- The work left to a worker, until it has been seen to. -/
def Stage.work : Stage → Nat
  | .admitted => 7
  | .executing => 6
  | .returned _ => 5
  | .pacing => 3
  | .leaving => 2

/-- A worker that lives.  Its number is that of its trial. -/
structure Worker where
  index : Nat
  stage : Stage

inductive Ending where
  | regular
  | panicked
deriving DecidableEq

inductive Dispatcher where
  /-- It is about to look whether somebody has cancelled, if trials are left to admit. -/
  | looking
  /-- It has looked, nobody had cancelled, and it is about to reach for a permit. -/
  | reaching
  /-- It has found no permit, and waits for one or to be cancelled. -/
  | waiting
  /-- It admits nothing more. -/
  | through
deriving DecidableEq

def workOf : List Worker → Nat
  | [] => 0
  | w :: ws => w.stage.work + workOf ws

/-- The work left to the dispatcher, until it has admitted a trial or stopped.  With a permit at
hand it need not wait any more. -/
def Dispatcher.work (permits : Nat) : Dispatcher → Nat
  | .looking => 4
  | .reaching => if permits = 0 then 3 else 1
  | .waiting => 2
  | .through => 0

def queueCapacity : Nat := 1024

structure Engine where
  count : Nat
  /-- Whether workers rest after their trials. -/
  paced : Bool
  /-- Free permits. -/
  permits : Nat
  cancelled : Bool
  dispatcher : Dispatcher
  /-- How many trials have been admitted; also the number of the next one. -/
  dispatched : Nat
  /-- Workers that live, in the order of their admission. -/
  workers : List Worker
  /-- Workers that have ended and have not been seen to. -/
  ended : List Ending
  queue : List Outcome
  aggregator : Aggregator
  /-- Whether everything is over. -/
  closed : Bool

/-- The steps of a run. -/
inductive Label where
  /-- The dispatcher looks, and nobody has cancelled. -/
  | look
  /-- The dispatcher gets a permit, and admits a trial. -/
  | grant
  /-- The dispatcher finds no permit. -/
  | park
  /-- The dispatcher stops admitting, because somebody has cancelled or because nothing is
  left. -/
  | stop
  /-- A worker starts its trial. -/
  | call (index : Nat)
  /-- A trial returns. -/
  | complete (index : Nat) (result : Except TrialFailure Timings)
  /-- A trial ends its worker. -/
  | panic (index : Nat)
  /-- A worker hands in its outcome. -/
  | handIn (index : Nat)
  /-- A worker has rested, or its rest is cut short. -/
  | wake (index : Nat)
  /-- A worker gives its permit back and ends. -/
  | retire (index : Nat)
  /-- The aggregator takes an outcome in. -/
  | deliver
  /-- The dispatcher sees to a worker that has ended. -/
  | reap
  /-- Somebody cancels. -/
  | cancel
  /-- The observer takes an event out of the box. -/
  | observe
  /-- The observer leaves. -/
  | leave
  /-- The run ends. -/
  | close (now : Instant)

namespace Engine

/-! ### Workers -/

def stage? (e : Engine) (index : Nat) : Option Stage :=
  (e.workers.find? fun w => w.index == index).map Worker.stage

def setStage (e : Engine) (index : Nat) (stage : Stage) : Engine :=
  { e with workers := e.workers.map fun w => if w.index = index then Worker.mk index stage else w }

def endWorker (e : Engine) (index : Nat) (ending : Ending) : Engine :=
  { e with
    workers := e.workers.filter fun w => w.index ≠ index
    ended := e.ended ++ [ending]
    permits := e.permits + 1 }

def inFlight (e : Engine) : Nat :=
  e.workers.countP fun w =>
    match w.stage with
    | .executing => true
    | _ => false

/-! ### Journal -/

def note (e : Engine) (level : Level) (message : String) : Engine :=
  { e with aggregator := e.aggregator.note level message [] }

def withJournal (e : Engine) (j : Journal) : Engine :=
  { e with aggregator := { e.aggregator with journal := j } }

def journal (e : Engine) : Journal := e.aggregator.journal

def run (e : Engine) : Run := e.aggregator.run

/-- The observer does something, if there is one and it can. -/
def byObserver (e : Engine) (act : Observer → Option Observer) : Option Engine :=
  match e.journal.observer.bind act with
  | some o => some (e.withJournal { e.journal with observer := some o })
  | none => none

/-! ### The start and the end -/

def startMessage (p : Plan) : String :=
  "Starting " ++ p.strategy.label ++ " run '" ++ p.testName ++ "' via " ++ p.clientName ++ ": " ++
    toString p.count ++ " trials against " ++ p.targetUrl ++ ", width " ++ toString p.strategy.width

def start (p : Plan) (now : Instant) (cancelled : Bool) (journal : Journal) : Engine :=
  let journal := journal.note .info (startMessage p) []
  let run := (Run.fresh p.id now p.testName p.clientName p.targetUrl p.count).start now
  { count := p.count
    paced := !p.strategy.interval.isZero
    permits := p.strategy.width
    cancelled := cancelled
    dispatcher := .looking
    dispatched := 0
    workers := []
    ended := []
    queue := []
    aggregator := .start run (journal.offer (.statusChange .running))
    closed := false }

def finalStatus (e : Engine) : Status :=
  if e.dispatched < e.count then .cancelled else .completed

/-- The last line of a run, up to the figures that come from the clock: the trials in a second, and
how long the run has taken. -/
def endMessage (r : Run) : String :=
  "Run '" ++ r.testName ++ "' via " ++ r.proxyName ++ " " ++ r.status.name ++ ": " ++
    toString r.successCount ++ "/" ++ toString r.totalCount ++ " succeeded (" ++
    r.successRate.oneDecimal ++ "%)"

def cancelMessage (e : Engine) : String :=
  "Run '" ++ e.run.testName ++ "' cancelled after dispatching " ++ toString e.dispatched ++
    " of " ++ toString e.count ++ " trials"

def endJournal (e : Engine) (r : Run) : Journal :=
  let j := e.journal.note .info (endMessage r) []
  let j := if r.isCancelled then j.note .warn e.cancelMessage [] else j
  j.offer (.statusChange r.status)

def finish (e : Engine) (now : Instant) : Engine :=
  let run := e.run.finish e.finalStatus now
  { e with
    aggregator := { e.aggregator with run := run, journal := e.endJournal run }
    closed := true }

def isDispatching (e : Engine) : Bool := e.dispatcher != .through

/-- Whether all parties have done what they had to do. -/
def isSettled (e : Engine) : Bool :=
  !e.isDispatching && e.workers.isEmpty && e.ended.isEmpty && e.queue.isEmpty

/-! ### Steps -/

/-- The line about a worker that was ended by its trial, up to what is said there of the trial. -/
def panicMessage : String := "Trial worker panicked"

/-- A worker hands in its outcome, and rests if workers rest. -/
def afterHandIn (e : Engine) (index : Nat) (result : Except TrialFailure Timings) : Engine :=
  { e with queue := e.queue ++ [Outcome.mk index result] }.setStage index
    (if e.paced then .pacing else .leaving)

/-- Whether the dispatcher has a reason to look: it goes on to the next trial, or there is a
permit for which it has waited. -/
def mayLook (e : Engine) : Bool :=
  e.dispatcher == .looking || (e.dispatcher == .waiting && decide (0 < e.permits))

def step (e : Engine) : Label → Option Engine
  | .look =>
    if e.mayLook ∧ e.cancelled = false ∧ e.dispatched < e.count then
      some { e with dispatcher := .reaching }
    else none
  | .grant =>
    if e.dispatcher = .reaching ∧ 0 < e.permits then
      some { e with
        permits := e.permits - 1
        dispatcher := .looking
        dispatched := e.dispatched + 1
        workers := e.workers ++ [Worker.mk e.dispatched .admitted] }
    else none
  | .park =>
    if e.dispatcher = .reaching ∧ e.permits = 0 then some { e with dispatcher := .waiting }
    else none
  | .stop =>
    if (e.dispatcher = .looking ∨ e.dispatcher = .waiting) ∧
        (e.cancelled ∨ e.count ≤ e.dispatched) then
      some { e with dispatcher := .through }
    else none
  | .call index =>
    match e.stage? index with
    | some .admitted => some (e.setStage index .executing)
    | _ => none
  | .complete index result =>
    match e.stage? index with
    | some .executing => some (e.setStage index (.returned result))
    | _ => none
  | .panic index =>
    match e.stage? index with
    | some .executing => some (e.endWorker index .panicked)
    | _ => none
  | .handIn index =>
    match e.stage? index with
    | some (.returned result) =>
      if e.queue.length < queueCapacity then some (e.afterHandIn index result) else none
    | _ => none
  | .wake index =>
    match e.stage? index with
    | some .pacing => some (e.setStage index .leaving)
    | _ => none
  | .retire index =>
    match e.stage? index with
    | some .leaving => some (e.endWorker index .regular)
    | _ => none
  | .deliver =>
    match e.queue with
    | [] => none
    | o :: rest => some { e with queue := rest, aggregator := e.aggregator.record o }
  | .reap =>
    if e.isDispatching then none
    else
      match e.ended with
      | [] => none
      | .regular :: rest => some { e with ended := rest }
      | .panicked :: rest => some ({ e with ended := rest }.note .error panicMessage)
  | .cancel => if e.cancelled then none else some { e with cancelled := true }
  | .observe => e.byObserver Observer.take?
  | .leave => e.byObserver Observer.leave?
  | .close now => if e.isSettled ∧ e.closed = false then some (e.finish now) else none

/-- A step if it is enabled, and nothing otherwise. -/
def advance (e : Engine) (l : Label) : Engine := (e.step l).getD e

/-- A step as long as it is enabled, but not more often than `n` times. -/
def advanceUpTo (l : Label) : Nat → Engine → Engine
  | 0, e => e
  | n + 1, e =>
    match e.step l with
    | some e => advanceUpTo l n e
    | none => e

/-! ### The work that is left

Every step of a party gets some work done, and neither cancelling nor the observer makes
any.  So the work that is left at the start bounds the steps of a run. -/

def work (e : Engine) : Nat :=
  11 * (e.count - e.dispatched) + e.dispatcher.work e.permits +
    workOf e.workers + e.queue.length + e.ended.length + (!e.closed).toNat

/-! ### Several steps -/

/-- What comes of some steps, if each of them is enabled when its turn comes. -/
def follow (e : Engine) (ls : List Label) : Option Engine := ls.foldlM step e

theorem follow_append (e : Engine) (ls ls' : List Label) :
    e.follow (ls ++ ls') = (e.follow ls).bind (·.follow ls') := List.foldlM_append

@[simp] theorem follow_singleton (e : Engine) (l : Label) : e.follow [l] = e.step l := by
  cases h : e.step l <;> simp [follow, h]

end Engine

end ProxyTiming.Run
