import ProxyTiming.Run.Engine

/-!
# Runs on a clock

On a clock of its own a run takes exactly the time that its trials and its workers'
rests take; nothing else takes any.  A trial takes as long as it takes; a worker that
rests is woken by a timer, and no timer runs for longer than thirty years.

A *timeline* is a run together with such a clock.  It chooses, of all the steps that
are enabled, the ones that happen next: at each instant everything is done that can be
done without waiting, and then the clock moves on to the next instant at which
something is due.

At an instant the workers go first, in the order of their admission.  Then dispatcher
and aggregator get a turn, if something has happened that concerns them; within a
turn each does all it can, and they take turns at being the first.  A turn may admit
new workers, who get their chance at the same instant.

Every step of a timeline is a step of its engine, so whatever holds of all runs holds
of this one.
-/

namespace ProxyTiming.Run

open ProxyTiming.Time

/-- The nanoseconds for which a timer runs at most: thirty years of 365 days. -/
def longestWait : Nat := 30 * 365 * 86400 * nanosPerSec

def waitOf (d : Duration) : Nat := min d.toNanos longestWait

structure Trial where
  delay : Duration
  /-- Without a result the trial ends its worker. -/
  result : Option (Except TrialFailure Timings)

/-- Everything about a run that comes from the outside. -/
structure Script where
  trial : Nat → Trial
  /-- How long workers rest. -/
  interval : Duration
  /-- The number, from one on, of the trial that cancels as it starts. -/
  cancelOnCall : Option Nat

structure Due where
  index : Nat
  instant : Nat
deriving DecidableEq

/-- A run on a clock that counts nanoseconds. -/
structure Timeline where
  engine : Engine
  now : Nat
  /-- When each of the living workers goes on, in the order of their admission. -/
  dues : List Due
  /-- When somebody is going to cancel. -/
  cancelAt : Option Nat
  /-- When each trial has started. -/
  calls : List Nat
  /-- The most trials that have been in flight at once. -/
  peak : Nat
  /-- Whether something concerns dispatcher and aggregator. -/
  woken : Bool
  /-- Whether the aggregator is the first of the two. -/
  aggregatorFirst : Bool

namespace Timeline

def start (e : Engine) (now : Nat) (cancelAt : Option Nat) : Timeline where
  engine := e
  now := now
  dues := []
  cancelAt := cancelAt
  calls := []
  peak := 0
  woken := true
  aggregatorFirst := false

/-! ### Turns -/

/-- The dispatcher admits up to `n` trials, and waits if a permit is missing. -/
def admitUpTo : Nat → Engine → Engine
  | 0, e => e
  | n + 1, e =>
    match e.step .look with
    | none => e
    | some e =>
      match e.step .grant with
      | none => e.advance .park
      | some e => admitUpTo n e

/-- The dispatcher admits what it can.  When nothing is left to admit it sees to the workers
that have ended. -/
def dispatch (e : Engine) : Engine :=
  let e := admitUpTo (e.count - e.dispatched) e
  let e := e.advance .stop
  Engine.advanceUpTo .reap e.ended.length e

def aggregate (e : Engine) : Engine := Engine.advanceUpTo .deliver e.queue.length e

/-- The workers admitted since `before` trials had been; they can go on at once. -/
def newDues (before : Nat) (t : Timeline) : List Due :=
  (t.engine.workers.filter fun w => before ≤ w.index).map fun w => ⟨w.index, t.now⟩

def turn (t : Timeline) : Timeline :=
  let before := t.engine.dispatched
  let e :=
    if t.aggregatorFirst then dispatch (aggregate t.engine)
    else aggregate (dispatch t.engine)
  let t := { t with engine := e, woken := false, aggregatorFirst := !t.aggregatorFirst }
  { t with dues := t.dues ++ newDues before t }

/-! ### Workers -/

def due? (t : Timeline) (index : Nat) : Option Nat :=
  (t.dues.find? fun d => d.index == index).map Due.instant

def setDue (t : Timeline) (index instant : Nat) : Timeline :=
  { t with dues := t.dues.map fun d => if d.index = index then ⟨index, instant⟩ else d }

def dropDue (t : Timeline) (index : Nat) : Timeline :=
  { t with dues := t.dues.filter fun d => d.index ≠ index }

def isDue (t : Timeline) (index : Nat) : Bool :=
  match t.due? index with
  | some instant => decide (instant ≤ t.now)
  | none => false

/-- Somebody cancels: no worker rests any longer, and a dispatcher that still waits for a permit
takes notice. -/
def cancel (t : Timeline) : Timeline :=
  match t.engine.step .cancel with
  | none => t
  | some e =>
    { t with
      engine := e
      woken := t.woken || e.isDispatching
      dues := t.dues.map fun d =>
        match e.stage? d.index with
        | some .pacing => ⟨d.index, t.now⟩
        | _ => d }

def beginTrial (s : Script) (index : Nat) (t : Timeline) : Timeline :=
  match t.engine.step (.call index) with
  | none => t
  | some e =>
    let t := { t with engine := e, calls := t.calls ++ [t.now], peak := max t.peak e.inFlight }
    let t := t.setDue index (t.now + (s.trial index).delay.toNanos)
    if s.cancelOnCall = some (index + 1) then t.cancel else t

def endTrial (s : Script) (index : Nat) (t : Timeline) : Timeline :=
  if t.isDue index then
    match (s.trial index).result with
    | some result => { t with engine := t.engine.advance (.complete index result) }
    | none =>
      match t.engine.step (.panic index) with
      | none => t
      | some e => { t.dropDue index with engine := e, woken := true }
  else t

/-- A worker whose trial is over hands in its outcome, if the queue has room.  If it rests then,
its rest ends at once in a run that has been cancelled. -/
def handIn (s : Script) (index : Nat) (t : Timeline) : Timeline :=
  match t.engine.step (.handIn index) with
  | none => t
  | some e =>
    let t := { t with engine := e, woken := true }
    if e.paced then t.setDue index (if e.cancelled then t.now else t.now + waitOf s.interval)
    else t

/-- A worker that rests does so until it is due. -/
def wake (index : Nat) (t : Timeline) : Timeline :=
  if t.isDue index then { t with engine := t.engine.advance (.wake index) } else t

def retire (index : Nat) (t : Timeline) : Timeline :=
  match t.engine.step (.retire index) with
  | none => t
  | some e => { t.dropDue index with engine := e, woken := true }

def goOn (s : Script) (t : Timeline) (index : Nat) : Timeline :=
  retire index (wake index (handIn s index (endTrial s index (beginTrial s index t))))

def work (s : Script) (t : Timeline) : Timeline :=
  ((t.dues.filter fun d => d.instant ≤ t.now).map Due.index).foldl (goOn s) t

/-! ### Time -/

def earliest : List Nat → Option Nat
  | [] => none
  | n :: rest =>
    match earliest rest with
    | some m => some (min n m)
    | none => some n

def next? (t : Timeline) : Option Nat :=
  earliest (t.cancelAt.toList ++ t.dues.map Due.instant)

def tick (t : Timeline) : Timeline :=
  match t.next? with
  | none => t
  | some instant =>
    let t := { t with now := max t.now instant }
    match t.cancelAt with
    | some cancelAt => if cancelAt ≤ t.now then { t with cancelAt := none }.cancel else t
    | none => t

/-- The workers go on; then there is a turn, or the clock moves on. -/
def round (s : Script) (t : Timeline) : Timeline :=
  let t := work s t
  if t.woken then turn t else tick t

/-- Rounds until everything is done. -/
def rounds (s : Script) : Nat → Timeline → Timeline
  | 0, t => t
  | n + 1, t => if t.engine.isSettled then t else rounds s n (round s t)

/-- Enough rounds for any run: a round gets some work done, or has a turn, or moves the clock on
to an instant at which some work can be done or somebody cancels. -/
def roundsFor (t : Timeline) : Nat := 3 * t.engine.work + 4

def complete (s : Script) (now : Instant) (t : Timeline) : Timeline :=
  let t := rounds s t.roundsFor t
  { t with engine := t.engine.advance (.close now) }

end Timeline

/-! ### Whole runs -/

/-- Why a run cannot even start. -/
inductive Refused where
  /-- The gate would be too wide. -/
  | tooWide
deriving DecidableEq

def Refused.message : Refused → String
  | tooWide => tooWideMessage

/-- What somebody who waits for runs sees: the clock, whether and when it is cancelled, and the
journal. -/
structure Scene where
  now : Nat
  cancelled : Bool
  cancelAt : Option Nat
  journal : Journal

/-- A scene at instant zero, to be cancelled before anything else or after a while. -/
def Scene.start (cancelled : Bool) (cancelAfter : Option Duration) (journal : Journal) : Scene :=
  ⟨0, cancelled, cancelAfter.map waitOf, journal⟩

def Plan.script (p : Plan) (trial : Nat → Trial) (cancelOnCall : Option Nat) : Script :=
  ⟨trial, p.strategy.interval, cancelOnCall⟩

def Plan.execute (p : Plan) (trial : Nat → Trial) (cancelOnCall : Option Nat) (scene : Scene) :
    Except Refused Timeline :=
  if maxWidth < p.strategy.width then .error .tooWide
  else
    let engine := Engine.start p .epoch scene.cancelled scene.journal
    .ok ((Timeline.start engine scene.now scene.cancelAt).complete (p.script trial cancelOnCall)
      .epoch)

def Timeline.scene (t : Timeline) : Scene :=
  ⟨t.now, t.engine.cancelled, t.cancelAt, t.engine.journal⟩

end ProxyTiming.Run
