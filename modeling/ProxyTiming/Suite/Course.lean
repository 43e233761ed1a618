import ProxyTiming.Suite

/-!
# The course of a suite

On a clock a suite is worked through as the clock has it.  Here it is left open when things
happen: a suite goes from one item of its agenda to the next, the parties of a run take
their steps in any order, a pause lasts as long as it may, and somebody cancels at any
moment.

While a run is under way, whoever cancels cancels the run, and the suite learns of it from
there; there is one token for all of them.
-/

namespace ProxyTiming.Suite

open ProxyTiming.Run ProxyTiming.Config ProxyTiming.Time

inductive Activity where
  /-- It goes on to the next item. -/
  | choosing
  | running (client : Client) (e : Engine)
  /-- A run is over, and the suite looks whether it is to stop. -/
  | checking (runCancelled : Bool)
  | pausing
  | finished

structure Course where
  /-- The items that are left. -/
  agenda : List Item
  entries : List Entry
  activity : Activity
  /-- Whether somebody has cancelled. -/
  cancelled : Bool
  journal : Journal

inductive Move where
  /-- The suite leaves a client out, starts to pause, or ends. -/
  | next
  /-- A run starts. -/
  | begin (now : Instant)
  /-- A step of the run that is under way. -/
  | inside (l : Label)
  /-- A run that is over is added to the others. -/
  | conclude
  /-- The suite looks whether it is to stop. -/
  | look
  /-- A pause is over, or has been cut short. -/
  | resume
  /-- Somebody cancels while no run is under way. -/
  | cancel

namespace Course

def note (c : Course) (level : Level) (message : String) : Course :=
  { c with journal := c.journal.note level message [] }

/-- The state after a step of the run of a client. -/
def within (c : Course) (client : Client) (e : Engine) : Course :=
  { c with activity := .running client e, cancelled := e.cancelled, journal := e.journal }

def start (agenda : List Item) (cancelled : Bool) (journal : Journal) : Course :=
  ⟨agenda, [], .choosing, cancelled, journal⟩

/-- What becomes of the agenda without a run. -/
def next? (c : Course) : Option Course :=
  match c.activity, c.agenda with
  | .choosing, [] => some { c.note .info (finishMessage c.entries.length) with activity := .finished }
  | .choosing, .skip key reason :: rest =>
    some { c.note .warn (skipMessage key reason) with agenda := rest }
  | .choosing, .pause _ :: rest => some { c with agenda := rest, activity := .pausing }
  | _, _ => none

variable (plan : Client → Scenario → Plan)

/-- The start of a run, unless its gate would be too wide. -/
def begin? (c : Course) (now : Instant) : Option Course :=
  match c.activity, c.agenda with
  | .choosing, .run client sc :: rest =>
    if (plan client sc).strategy.width ≤ maxWidth then
      some ({ c with agenda := rest }.within client
        (.start (plan client sc) now c.cancelled c.journal))
    else none
  | _, _ => none

def step (c : Course) : Move → Option Course
  | .next => c.next?
  | .begin now => c.begin? plan now
  | .inside l =>
    match c.activity with
    | .running client e => (e.step l).map (c.within client)
    | _ => none
  | .conclude =>
    match c.activity with
    | .running client e =>
      if e.closed then
        some { c with
          entries := c.entries ++ [⟨client, e.run, e.dispatched⟩]
          activity := .checking e.run.isCancelled }
      else none
    | _ => none
  | .look =>
    match c.activity with
    | .checking runCancelled =>
      if runCancelled ∨ c.cancelled then
        some { c.note .warn (cancelMessage c.entries.length) with activity := .finished }
      else some { c with activity := .choosing }
    | _ => none
  | .resume =>
    match c.activity with
    | .pausing => some { c with activity := .choosing }
    | _ => none
  | .cancel =>
    match c.activity with
    | .running _ _ => none
    | _ => if c.cancelled then none else some { c with cancelled := true }

/-- What comes of some moves, if each of them can be made when its turn comes. -/
def follow (c : Course) (ms : List Move) : Option Course := ms.foldlM (step plan) c

end Course

/-- The suite that is asked for, if it can be prepared, before its first move. -/
def course (c : Config) (r : Request) (cancelled : Bool) (journal : Journal) :
    Except SetupError Course :=
  match prepare c r with
  | .error e => .error e
  | .ok (url, clients) =>
    let scenarios := r.scenarios c
    .ok (.start (agenda r scenarios clients) cancelled
      (journal.note .info (startMessage url clients.length scenarios.length) []))

end ProxyTiming.Suite
