import Paperboat.Lib.Transition
import Paperboat.Session.Lifecycle
import Paperboat.Store.Output

/-!
# Persisting the output of one session across its generations

The model of the goroutines in `internal/session/manager.go` that move a session's output to the
store. Every generation has a capture goroutine, which appends what the process writes to the history,
and a persistence worker, which copies the history to the store. The capture calls
`stopOutputPersistence` without the session lock, and `Restart` writes the same fields under it. So the
model has one step for every read or write of a field by either of them. Channels, workers and captures
are named by the generation they are made for.

What a run records besides: who closed which stop channel (`closes`), how long the history was at a
capture's last append (`lastAppend`), and the store's `latest_sequence` when `stopOutputPersistence`
returned to it (the number in `returned` and `finished`).
-/

namespace Paperboat.Session.Persistence

open Store (OutputLog)

/-- The errors a flush returns. -/
inductive FlushError where
  /-- The store call failed without effect. -/
  | unavailable
  | store (e : Store.Error)
  | history (e : History.Error)
  deriving DecidableEq

/-! ### The worker -/

/-- Where the closure `flush` of a worker stands: what it is about to do, with the values it has
read. -/
inductive Flush where
  | bounds
  | outputBounds (earliest latest : ℕ)
  | advance (earliest latest persistedLatest : ℕ)
  | replay (latest persistedLatest : ℕ)
  | append (latest toSequence : ℕ) (events : List History.Event)
  deriving DecidableEq

/-- How a step of `flush` ends. -/
inductive FlushNext where
  | goto (f : Flush)
  | returns (err : Option FlushError)
  deriving DecidableEq

/-- One step of `flush`; `fails` says that the store call of the step fails. -/
def Flush.step (historyBytes : ℕ) (history : History) (log : OutputLog) (fails : Bool) :
    Flush → FlushNext × OutputLog
  | .bounds => (.goto (.outputBounds history.earliest history.latest), log)
  | .outputBounds earliest latest =>
    if fails then (.returns (some .unavailable), log)
    else
      let persistedLatest := log.outputBounds.2
      if persistedLatest < earliest then (.goto (.advance earliest latest persistedLatest), log)
      else if latest ≤ persistedLatest then (.returns none, log)
      else (.goto (.replay latest persistedLatest), log)
  | .advance earliest latest persistedLatest =>
    if fails then (.returns (some .unavailable), log)
    else
      match log.advanceOutput persistedLatest earliest with
      | .error e => (.returns (some (.store e)), log)
      | .ok log =>
        if latest ≤ earliest then (.returns none, log) else (.goto (.replay latest earliest), log)
  | .replay latest persistedLatest =>
    match history.replayOwned persistedLatest historyBytes with
    | .error (.gap _ _ _) => (.goto .bounds, log)
    | .error e => (.returns (some (.history e)), log)
    | .ok result => (.goto (.append latest result.toSequence result.events), log)
  | .append latest toSequence [] =>
    if latest ≤ toSequence then (.returns none, log) else (.goto .bounds, log)
  | .append latest toSequence (event :: events) =>
    if fails then (.returns (some .unavailable), log)
    else
      match log.appendOutput event.channel event.startSequence event.data historyBytes with
      | .error e => (.returns (some (.store e)), log)
      | .ok log => (.goto (.append latest toSequence events), log)

/-- Where a worker stands; `stopping` says that the flush answers the stop channel. -/
inductive WorkerPC where
  | select
  | flushing (stopping : Bool) (f : Flush)
  | sending (err : Option FlushError)
  | exited
  deriving DecidableEq

/-- The three channels of a worker. -/
structure Channels where
  persistNotify : Option ℕ
  persistStop : Option ℕ
  persistDone : Option ℕ
  deriving DecidableEq

/-- No channel. -/
def Channels.nil : Channels := ⟨none, none, none⟩

/-- The channels made for the generation `g`. -/
def Channels.of (g : ℕ) : Channels := ⟨some g, some g, some g⟩

/-- A goroutine `runOutputPersistence` with the channels it was given. -/
structure Worker where
  channels : Channels
  /-- The timer is armed exactly while `dirty` is set. -/
  dirty : Bool
  pc : WorkerPC
  deriving DecidableEq

/-- The cases of the worker's `select`. -/
inductive Wake where
  | notify
  | timer
  | stop
  deriving DecidableEq

/-! ### The capture -/

/-- Where a capture goroutine stands. From `checkStop` to `clearDone` it is inside
`stopOutputPersistence`; `returned` and `finished` have the error it returned and the store's
`latest_sequence` at that moment. -/
inductive CapturePC where
  | reading
  | checkStop
  | closeStop
  | readDone
  | awaitDone (channel : Option ℕ)
  | clearNotify (err : Option FlushError)
  | clearStop (err : Option FlushError)
  | clearDone (err : Option FlushError)
  | returned (err : Option FlushError) (stored : ℕ)
  | finished (err : Option FlushError) (stored : ℕ)
  deriving DecidableEq

/-- A goroutine `capture`. -/
structure Capture where
  /-- The history's `latest` as of the last append of this capture, or as of its start. -/
  lastAppend : ℕ
  pc : CapturePC
  deriving DecidableEq

/-- Where a call of `Restart` stands once its process is launched. -/
inductive RestartPC where
  | writeNotify
  | writeStop
  | writeDone
  | spawn
  | persist
  deriving DecidableEq

/-! ### The session -/

/-- A managed session with its goroutines. -/
structure Managed where
  historyBytes : ℕ
  history : History
  log : OutputLog
  lifecycle : Lifecycle
  /-- The process, named by its generation. -/
  process : Option ℕ
  channels : Channels
  workers : ℕ → Option Worker
  captures : ℕ → Option Capture
  /-- The notify channels with a value in their buffer. -/
  notified : ℕ → Bool
  /-- The buffers of the done channels. -/
  done : ℕ → Option (Option FlushError)
  /-- The stop channels that were closed, each with the capture that closed it. -/
  closes : List (ℕ × ℕ)
  /-- The goroutines `finishClosing`, by the process they were given. -/
  finishing : List ℕ
  /-- A running `Restart`, which holds the session lock. -/
  restart : Option RestartPC
  /-- A nil or closed channel was closed, which ends the program. -/
  panicked : Bool

namespace Managed

/-- A session right after `Create`: generation 1 is running. -/
def created (historyBytes : ℕ) : Managed where
  historyBytes := historyBytes
  history := ⟨historyBytes, 0, 0, 0, [], 0⟩
  log := OutputLog.empty
  lifecycle := ⟨.running, 1⟩
  process := some 1
  channels := Channels.of 1
  workers := Function.update (fun _ => none) 1 (some ⟨Channels.of 1, false, .select⟩)
  captures := Function.update (fun _ => none) 1 (some ⟨0, .reading⟩)
  notified := fun _ => false
  done := fun _ => none
  closes := []
  finishing := []
  restart := none
  panicked := false

/-- A session right after the helper's start: its history is restored from the store and nothing
runs. -/
def recovered (historyBytes : ℕ) (history : History) (log : OutputLog) (lifecycle : Lifecycle) :
    Managed where
  historyBytes := historyBytes
  history := history
  log := log
  lifecycle := lifecycle
  process := none
  channels := Channels.nil
  workers := fun _ => none
  captures := fun _ => none
  notified := fun _ => false
  done := fun _ => none
  closes := []
  finishing := []
  restart := none
  panicked := false

/-- Replace the capture of the generation `g`. -/
def setCapture (s : Managed) (g : ℕ) (c : Capture) : Managed :=
  { s with captures := Function.update s.captures g (some c) }

/-- Replace the worker of the generation `g`. -/
def setWorker (s : Managed) (g : ℕ) (w : Worker) : Managed :=
  { s with workers := Function.update s.workers g (some w) }

/-- `queueOutputPersistence`. -/
def queueOutputPersistence (s : Managed) : Managed :=
  match s.channels.persistNotify with
  | none => s
  | some k => { s with notified := Function.update s.notified k true }

/-- The part of `capture` under the session lock that stores what was read. -/
def append (s : Managed) (c : Capture) (data : List UInt8) : Managed × Capture :=
  match s.history.appendBuffer 1 data with
  | .error _ => (s, c)
  | .ok (history, _) =>
    ({ s with history := history }.queueOutputPersistence, { c with lastAppend := history.latest })

/-- One iteration of the loop of `capture`: `process.Read` returns `data`, and an error if `eof`. -/
def read (s : Managed) (g : ℕ) (c : Capture) (data : List UInt8) (eof : Bool) : Option Managed :=
  if c.pc ≠ .reading then none
  else if data = [] then
    some (s.setCapture g { c with pc := if eof then .checkStop else .reading })
  else if s.restart.isSome then none
  else
    let (s, c) := s.append c data
    some (s.setCapture g { c with pc := if eof then .checkStop else .reading })

/-- The next step of the capture `g` inside `stopOutputPersistence`. -/
def stopOutputPersistence (s : Managed) (g : ℕ) (c : Capture) : Option Managed :=
  match c.pc with
  | .checkStop =>
    match s.channels.persistStop with
    | none => some (s.setCapture g { c with pc := .returned none s.log.latest })
    | some _ => some (s.setCapture g { c with pc := .closeStop })
  | .closeStop =>
    -- the field is read again
    match s.channels.persistStop with
    | none => some { s with panicked := true }
    | some k =>
      if k ∈ s.closes.map Prod.fst then some { s with panicked := true }
      else some ({ s with closes := (k, g) :: s.closes }.setCapture g { c with pc := .readDone })
  | .readDone => some (s.setCapture g { c with pc := .awaitDone s.channels.persistDone })
  | .awaitDone channel =>
    -- a receive from the nil channel blocks forever
    match channel with
    | none => none
    | some k =>
      match s.done k with
      | none => none
      | some err =>
        some ({ s with done := Function.update s.done k none }.setCapture g
          { c with pc := .clearNotify err })
  | .clearNotify err =>
    some ({ s with channels := { s.channels with persistNotify := none } }.setCapture g
      { c with pc := .clearStop err })
  | .clearStop err =>
    some ({ s with channels := { s.channels with persistStop := none } }.setCapture g
      { c with pc := .clearDone err })
  | .clearDone err =>
    some ({ s with channels := { s.channels with persistDone := none } }.setCapture g
      { c with pc := .returned err s.log.latest })
  | _ => none

/-- The end of `capture`, under the session lock. -/
def exit (s : Managed) (g : ℕ) (c : Capture) : Option Managed :=
  match c.pc with
  | .returned err stored =>
    if s.restart.isSome then none
    else
      let s := s.setCapture g { c with pc := .finished err stored }
      if s.process ≠ some g then some s
      else if s.lifecycle.state = .running then
        some { s with lifecycle := s.lifecycle.transitionOrStay .exited, process := none }
      else some s
  | _ => none

/-- The `select` of the worker `g`. -/
def select (s : Managed) (g : ℕ) (w : Worker) (wake : Wake) : Option Managed :=
  if w.pc ≠ .select then none
  else
    match wake with
    | .notify =>
      match w.channels.persistNotify with
      | none => none
      | some k =>
        if s.notified k then
          some ({ s with notified := Function.update s.notified k false }.setWorker g
            { w with dirty := true })
        else none
    | .timer => if w.dirty then some (s.setWorker g { w with pc := .flushing false .bounds }) else none
    | .stop =>
      match w.channels.persistStop with
      | none => none
      | some k =>
        if k ∈ s.closes.map Prod.fst then some (s.setWorker g { w with pc := .flushing true .bounds })
        else none

/-- A step of `flush` in the worker `g`. -/
def flush (s : Managed) (g : ℕ) (w : Worker) (fails : Bool) : Option Managed :=
  match w.pc with
  | .flushing stopping f =>
    let (next, log) := f.step s.historyBytes s.history s.log fails
    let s := { s with log := log }
    match next with
    | .goto f => some (s.setWorker g { w with pc := .flushing stopping f })
    | .returns err =>
      if stopping ∨ err ≠ none then some (s.setWorker g { w with pc := .sending err })
      else some (s.setWorker g { w with dirty := false, pc := .select })
  | _ => none

/-- The worker `g` answers on its done channel, which has room for one value, and returns. -/
def send (s : Managed) (g : ℕ) (w : Worker) : Option Managed :=
  match w.pc, w.channels.persistDone with
  | .sending err, some k =>
    match s.done k with
    | none =>
      some ({ s with done := Function.update s.done k (some err) }.setWorker g
        { w with pc := .exited })
    | some _ => none
  | _, _ => none

/-- How the environment answers during `Close`. -/
structure CloseOutcome where
  /-- The first update of the stored state succeeds. -/
  persisted : Bool
  /-- `Terminate` ends with a context error. -/
  timeout : Bool
  deriving DecidableEq

/-- `Close`. It holds the session lock throughout and does not touch the channels. -/
def close (s : Managed) (o : CloseOutcome) : Option Managed :=
  if s.restart.isSome then none
  else
    match s.lifecycle.state, s.process with
    | .exited, _ =>
      some { s with
        lifecycle := (s.lifecycle.transitionOrStay .closing).transitionOrStay .closed }
    | .running, some p =>
      let s := { s with lifecycle := s.lifecycle.transitionOrStay .closing }
      if o.persisted && o.timeout then some { s with finishing := p :: s.finishing }
      else some { s with lifecycle := s.lifecycle.transitionOrStay .closed, process := none }
    | .closing, some p =>
      if o.timeout then some { s with finishing := p :: s.finishing }
      else some { s with lifecycle := s.lifecycle.transitionOrStay .closed, process := none }
    | _, _ => some s

/-- `finishClosing`, started by a `Close` that ran into its timeout. -/
def finishClosing (s : Managed) (p : ℕ) (terminated : Bool) : Option Managed :=
  if s.restart.isSome ∨ p ∉ s.finishing then none
  else
    let s := { s with finishing := s.finishing.erase p }
    if s.lifecycle.state ≠ .closing ∨ s.process ≠ some p ∨ ¬ terminated then some s
    else some { s with lifecycle := s.lifecycle.transitionOrStay .closed, process := none }

/-- `Restart` up to the start of the worker: the state is updated in the store and a process is
launched. -/
def beginRestart (s : Managed) (persisted launched : Bool) : Option Managed :=
  if s.restart.isSome then none
  else if s.lifecycle.state ≠ .exited ∧ s.lifecycle.state ≠ .closed then some s
  else
    let lifecycle := s.lifecycle.transitionOrStay .restarting
    if ¬ persisted ∨ ¬ launched then
      some { s with lifecycle := lifecycle.transitionOrStay .closed }
    else
      let lifecycle := lifecycle.transitionOrStay .running
      some { s with
        lifecycle := lifecycle
        process := some lifecycle.generation
        restart := some .writeNotify }

/-- The next step of a running `Restart`: `startOutputPersistence` field by field, then the last
update of the stored state. -/
def continueRestart (s : Managed) (persisted : Bool) : Option Managed :=
  let g := s.lifecycle.generation
  match s.restart with
  | none => none
  | some .writeNotify =>
    some { s with
      channels := { s.channels with persistNotify := some g }
      restart := some .writeStop }
  | some .writeStop =>
    some { s with channels := { s.channels with persistStop := some g }, restart := some .writeDone }
  | some .writeDone =>
    some { s with channels := { s.channels with persistDone := some g }, restart := some .spawn }
  | some .spawn =>
    -- the arguments of the `go` statement are read from the fields
    some ({ s with restart := some .persist }.setWorker g ⟨s.channels, false, .select⟩)
  | some .persist =>
    if persisted then some ({ s with restart := none }.setCapture g ⟨s.history.latest, .reading⟩)
    else
      some { s with
        process := none
        lifecycle := s.lifecycle.transitionOrStay .exited
        restart := none }

end Managed

/-- A step of one goroutine, with the answers of the environment. -/
inductive Action where
  | read (g : ℕ) (data : List UInt8) (eof : Bool)
  | stop (g : ℕ)
  | exit (g : ℕ)
  | select (g : ℕ) (wake : Wake)
  | flush (g : ℕ) (fails : Bool)
  | send (g : ℕ)
  | close (o : Managed.CloseOutcome)
  | finishClosing (p : ℕ) (terminated : Bool)
  | beginRestart (persisted launched : Bool)
  | continueRestart (persisted : Bool)
  deriving DecidableEq

/-- One step of the program. -/
def Managed.step (s : Managed) (a : Action) : Option Managed :=
  if s.panicked then none
  else
    match a with
    | .read g data eof => (s.captures g).bind fun c => s.read g c data eof
    | .stop g => (s.captures g).bind fun c => s.stopOutputPersistence g c
    | .exit g => (s.captures g).bind fun c => s.exit g c
    | .select g wake => (s.workers g).bind fun w => s.select g w wake
    | .flush g fails => (s.workers g).bind fun w => s.flush g w fails
    | .send g => (s.workers g).bind fun w => s.send g w
    | .close o => s.close o
    | .finishClosing p terminated => s.finishClosing p terminated
    | .beginRestart persisted launched => s.beginRestart persisted launched
    | .continueRestart persisted => s.continueRestart persisted

end Paperboat.Session.Persistence
