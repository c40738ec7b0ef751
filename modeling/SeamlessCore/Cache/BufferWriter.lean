/-
  SeamlessCore.Cache.BufferWriter — the background buffer writer.

  Registered buffers, and metadata records, become entries of the writer.
  A worker thread with its own event loop and queue processes them; it can be
  stopped and restarted, and a flush writes what is left by itself.

  The steps are the parts of the source that run under its lock, on the event
  loop of a worker between two suspensions, or as one write; any number of
  threads call the writer.  A write is an input: it returns whether it
  succeeded (a buffer that the remote has counts as written), or raises.
  Of the buffer of an entry nothing is kept but its checksum, the key.

  Source: `seamless/caching/buffer_writer.py`, `seamless/buffer_class.py`.
-/
import SeamlessCore.Lib.Dict
import SeamlessCore.Lib.Run

namespace SeamlessCore.BufferWriter

/-! ## §1. State. -/

/-- `concurrent.futures.Future` of an entry -/
inductive Future where
  | pending
  | result (ok : Bool)
  | exception
  | cancelled
  deriving DecidableEq

/-- `future.done()` -/
def Future.done : Future → Bool
  | .pending => false
  | _ => true

/-- `_QueueEntry`; `metadata` tells the two kinds of entries apart.  `reported`
and `purged` are not in the source: a write of the entry has reported success,
and the entry was purged. -/
structure QueueEntry (K : Type) where
  key : K
  metadata : Bool
  future : Future
  queued : Bool
  reported : Bool
  purged : Bool

/-- What is scheduled on the event loop of a worker: `_put`, or a stop. -/
inductive Callback where
  | put (e : Nat)
  | stop
  deriving DecidableEq

/-- The life of a worker thread: made, started, in its loop, waiting for what
is in flight after a stop, and over. -/
inductive Status where
  | created
  | started
  | running
  | stopping
  | closed
  deriving DecidableEq

/-- A worker thread with its event loop.  `promising` is the entry that
`_worker_loop` has taken from the queue and not yet made a task of; the tasks
are in `inflight`.  A `none` in the queue asks the loop to end. -/
structure Worker where
  status : Status
  queue : List (Option Nat)
  callbacks : List Callback
  promising : Option Nat
  inflight : List Nat

/-- The module state of the writer, with all entries and workers made so far;
`loop` is the worker that owns `_loop` and `_queue`. -/
structure Writer (K : Type) where
  /-- `_entries` -/
  entries : Dict K Nat
  objects : List (QueueEntry K)
  workers : List Worker
  /-- `_thread` -/
  thread : Option Nat
  loop : Option Nat

/-- How an attempt to write ends -/
inductive Outcome where
  | returned (ok : Bool)
  | raised
  deriving DecidableEq

/-- The event loop of the worker runs callbacks. -/
def Worker.loops (w : Worker) : Bool := w.status = .running || w.status = .stopping

/-- A worker whose thread is over -/
def Worker.over : Worker := ⟨.closed, [], [], none, []⟩

variable {K : Type} [DecidableEq K]

namespace Writer

/-- The module state before its first call -/
def initial : Writer K := ⟨∅, [], [], none, none⟩

/-- A mutation of an entry -/
def updateObject (s : Writer K) (e : Nat) (f : QueueEntry K → QueueEntry K) : Writer K :=
  { s with objects := s.objects.modify e f }

/-- A mutation of a worker -/
def setWorker (s : Writer K) (g : Nat) (w : Worker) : Writer K :=
  { s with workers := s.workers.set g w }

/-- `thread.is_alive()` -/
def alive (s : Writer K) (g : Nat) : Bool :=
  match s.workers[g]? with
  | none => false
  | some w => w.status = .started || w.status = .running || w.status = .stopping

/-! ## §2. The callers' side. -/

/-- The locked part of `register` and of `_register_metadata` -/
def register (s : Writer K) (key : K) (metadata : Bool) : Writer K :=
  match s.entries.lookup key with
  | some _ => s
  | none =>
    { s with
      entries := s.entries.set key s.objects.length
      objects := s.objects ++ [{ key := key, metadata := metadata, future := .pending,
                                 queued := false, reported := false, purged := false }] }

/-- The locked part of `_ensure_worker` -/
def ensureWorker (s : Writer K) : Writer K :=
  if s.thread.any s.alive then s
  else
    { s with
      workers := s.workers ++ [⟨.created, [], [], none, []⟩]
      thread := some s.workers.length }

/-- `loop.call_soon_threadsafe(…)` on the loop of a worker -/
def callSoon (s : Writer K) (g : Nat) (c : Callback) : Writer K :=
  match s.workers[g]? with
  | none => s
  | some w => if w.loops then s.setWorker g { w with callbacks := w.callbacks ++ [c] } else s

/-- The loop on which `_enqueue_entry(entry)` schedules its `_put`, if any -/
def enqueueTarget (s : Writer K) (e : Nat) : Option Nat :=
  match s.objects[e]? with
  | none => none
  | some o => if o.queued || o.future.done then none else s.loop

/-- `_enqueue_entry(entry)` after `_ensure_worker` -/
def enqueue (s : Writer K) (e : Nat) : Writer K :=
  match s.enqueueTarget e with
  | none => s
  | some g => s.callSoon g (.put e)

/-- `entry.queued = False` for all entries, at the end of a stop -/
def reset (s : Writer K) : Writer K :=
  { s with objects := s.objects.map fun o => { o with queued := false } }

/-- The entries dropped and their futures cancelled, in `purge` after the stop -/
def clear (s : Writer K) : Writer K :=
  { s with
    entries := ∅
    objects := s.objects.mapIdx fun e o =>
      if s.entries.lookup o.key = some e then
        { o with purged := true, future := if o.future.done then o.future else .cancelled }
      else o }

/-- One buffer written by `flush` itself; what is not written stays. -/
def flushed (s : Writer K) (key : K) (ok : Bool) : Writer K :=
  match s.entries.lookup key with
  | none => s
  | some e =>
    if ok && !(s.objects[e]?.any QueueEntry.metadata) then
      let s := s.updateObject e fun o =>
        { o with reported := true, future := if o.future.done then o.future else .result true }
      { s with entries := s.entries.erase key }
    else s

/-! ## §3. The worker's side. -/

/-- `worker.start()` -/
def start (s : Writer K) (g : Nat) : Writer K :=
  match s.workers[g]? with
  | none => s
  | some w => if w.status = .created then s.setWorker g { w with status := .started } else s

/-- The entries that a new worker takes over -/
def pendingEntries (s : Writer K) : List Nat :=
  (s.entries.items.map Prod.snd).filter fun e =>
    s.objects[e]?.any fun o => !o.future.done && !o.queued

/-- The first locked part of `_thread_main`, and the entries put in the queue -/
def scan (s : Writer K) (g : Nat) : Writer K :=
  match s.workers[g]? with
  | none => s
  | some w =>
    if w.status = .started then
      let pending := s.pendingEntries
      let s := s.setWorker g { w with status := .running, queue := pending.map some }
      { s with
        loop := some g
        objects := s.objects.mapIdx fun e o => if e ∈ pending then { o with queued := true } else o }
    else s

/-- One callback of the event loop -/
def callback (s : Writer K) (g : Nat) : Writer K :=
  match s.workers[g]? with
  | none => s
  | some w =>
    if w.loops then
      match w.callbacks with
      | [] => s
      | .stop :: rest =>
        s.setWorker g { w with callbacks := rest, queue := w.queue ++ [none] }
      | .put e :: rest =>
        -- `_put` looks again at the future and at the flag
        if s.objects[e]?.any fun o => !o.future.done && !o.queued then
          (s.updateObject e fun o => { o with queued := true }).setWorker g
            { w with callbacks := rest, queue := w.queue ++ [some e] }
        else s.setWorker g { w with callbacks := rest }
    else s

/-- `_worker_loop` takes the next entry: it stops, passes over what is done, or
awaits the promise of the entry. -/
def take (s : Writer K) (g : Nat) : Writer K :=
  match s.workers[g]? with
  | none => s
  | some w =>
    if w.status = .running && w.promising.isNone then
      match w.queue with
      | [] => s
      | none :: rest =>
        s.setWorker g { w with queue := rest, status := .stopping }
      | some e :: rest =>
        if s.objects[e]?.any fun o => !o.future.done then
          s.setWorker g { w with queue := rest, promising := some e }
        else s.setWorker g { w with queue := rest }
    else s

/-- The promise is made, or has failed: the task of the entry begins its
attempt to write. -/
def promised (s : Writer K) (g : Nat) : Writer K :=
  match s.workers[g]? with
  | none => s
  | some w =>
    match w.promising with
    | none => s
    | some e =>
      s.setWorker g { w with promising := none, inflight := w.inflight ++ [e] }

/-- What `_process_entry` makes of its entry after the last attempt -/
def settle (o : QueueEntry K) (outcome : Outcome) : QueueEntry K :=
  { o with
    reported := o.reported || outcome = .returned true
    future :=
      if o.future.done then o.future
      else match outcome with
        | .returned ok => .result ok
        | .raised => .exception }

/-- The end of `_process_entry` -/
def finish (s : Writer K) (g e : Nat) (outcome : Outcome) : Writer K :=
  match s.workers[g]?, s.objects[e]? with
  | some w, some o =>
    if e ∈ w.inflight then
      let s := (s.updateObject e fun o => settle o outcome).setWorker g
        { w with inflight := w.inflight.erase e }
      if (outcome ≠ .raised ∨ o.metadata) ∧ s.entries.lookup o.key = some e then
        { s with entries := s.entries.erase o.key }
      else s
    else s
  | _, _ => s

/-- The end of `_thread_main`, once nothing is in flight -/
def close (s : Writer K) (g : Nat) : Writer K :=
  match s.workers[g]? with
  | none => s
  | some w =>
    if w.status = .stopping && w.inflight.isEmpty then
      { s.reset.setWorker g .over with thread := none, loop := none }
    else s

end Writer

/-! ## §4. The writer as a machine. -/

/-- The steps.  `callSoon` is a call that was decided on before: `_enqueue_entry`
and `_stop_worker` read the loop under the lock, and schedule without it. -/
inductive Step (K : Type) where
  | register (key : K) (metadata : Bool)
  | ensureWorker
  | start (g : Nat)
  | scan (g : Nat)
  | enqueue (e : Nat)
  | callSoon (g : Nat) (c : Callback)
  | callback (g : Nat)
  | take (g : Nat)
  | promised (g : Nat)
  | finish (g e : Nat) (outcome : Outcome)
  | close (g : Nat)
  | reset
  | clear
  | flushed (key : K) (ok : Bool)

open Writer in
/-- One step; one that cannot happen changes nothing. -/
def step (s : Writer K) : Step K → Writer K × Unit
  | .register key metadata => (s.register key metadata, ())
  | .ensureWorker => (s.ensureWorker, ())
  | .start g => (s.start g, ())
  | .scan g => (s.scan g, ())
  | .enqueue e => (s.enqueue e, ())
  | .callSoon g c => (s.callSoon g c, ())
  | .callback g => (s.callback g, ())
  | .take g => (s.take g, ())
  | .promised g => (s.promised g, ())
  | .finish g e outcome => (s.finish g e outcome, ())
  | .close g => (s.close g, ())
  | .reset => (s.reset, ())
  | .clear => (s.clear, ())
  | .flushed key ok => (s.flushed key ok, ())

/-- The state after some steps -/
def after (steps : List (Step K)) : Writer K := Run.exec step Writer.initial steps

/-- How `Buffer.write` goes on from what it finds of a background task: it
attempts a write itself, awaits the entry, or ends as the entry ended. -/
inductive WriteCourse where
  | attempts
  | awaits (e : Nat)
  | returns (ok : Bool)
  | raises
  deriving DecidableEq

/-- `await_existing_task(checksum)` within `Buffer.write`; while it awaits an
entry it has enqueued it. -/
def Writer.write (s : Writer K) (key : K) : WriteCourse :=
  match s.entries.lookup key with
  | none => .attempts
  | some e =>
    match s.objects[e]? with
    | none => .attempts
    | some o =>
      match o.future with
      | .cancelled => .attempts
      | .pending => .awaits e
      | .result ok => .returns ok
      | .exception => .raises

end SeamlessCore.BufferWriter
