import Mathlib.Data.List.AList
import ForwardingRelayer.Lib.Machine

/-!
# The forward dispatcher

`run_dispatcher` with the channel it consumes and the tasks it spawns. What `forward_address`
does is a parameter `σ`, the state of a call. A step is what one party does between two awaits or
lock sections, so a trigger may arrive at any point of the loop and of a task.
-/

namespace ForwardingRelayer

def forwardQueueCapacity : ℕ := 10000

inductive Loop
  | recv
  /-- The trigger is out of the channel; the lock section is next. -/
  | received (addr : String)
  | acquiring (addr : String)
  /-- The permit is granted. -/
  | spawning (addr : String)

inductive Stage (σ : Type)
  | spawned
  | running (call : σ)
  | returned
  /-- The entry is removed; the permit is dropped next. -/
  | removed (requeue : Bool)
  | sending

structure Task (σ : Type) where
  addr : String
  stage : Stage σ

structure Dispatcher (σ : Type) where
  queue : List String
  /-- The forwards in flight, with their dirty flags. -/
  inFlight : AList fun _ : String => Bool
  permits : ℕ
  loop : Loop
  tasks : List (Task σ)

namespace Dispatcher

variable {σ : Type}

def start (forwardConcurrency : ℕ) : Dispatcher σ where
  queue := []
  inFlight := ∅
  permits := max forwardConcurrency 1
  loop := .recv
  tasks := []

inductive Act (σ : Type)
  | send (addr : String)
  | recv
  | lock
  | acquire
  | spawn
  | start (i : ℕ) (call : σ)
  | advance (i : ℕ) (call : σ)
  | finish (i : ℕ)
  | remove (i : ℕ)
  | release (i : ℕ)
  | resend (i : ℕ)

/-- A send waits while the channel is full. -/
def send (capacity : ℕ) (d : Dispatcher σ) (addr : String) : Option (Dispatcher σ) :=
  if d.queue.length < capacity then some { d with queue := d.queue ++ [addr] } else none

def setStage (d : Dispatcher σ) (i : ℕ) (addr : String) (stage : Stage σ) : Dispatcher σ :=
  { d with tasks := d.tasks.set i ⟨addr, stage⟩ }

def step (capacity : ℕ) (d : Dispatcher σ) : Act σ → Option (Dispatcher σ)
  | .send addr => d.send capacity addr
  | .recv =>
    match d.loop, d.queue with
    | .recv, addr :: queue => some { d with queue := queue, loop := .received addr }
    | _, _ => none
  | .lock =>
    match d.loop with
    | .received addr =>
      match d.inFlight.lookup addr with
      | some _ => some { d with inFlight := d.inFlight.insert addr true, loop := .recv }
      | none => some { d with inFlight := d.inFlight.insert addr false, loop := .acquiring addr }
    | _ => none
  | .acquire =>
    match d.loop, d.permits with
    | .acquiring addr, permits + 1 => some { d with permits := permits, loop := .spawning addr }
    | _, _ => none
  | .spawn =>
    match d.loop with
    | .spawning addr => some { d with loop := .recv, tasks := d.tasks ++ [⟨addr, .spawned⟩] }
    | _ => none
  | .start i call =>
    match d.tasks[i]? with
    | some ⟨addr, .spawned⟩ => some (d.setStage i addr (.running call))
    | _ => none
  | .advance i call =>
    match d.tasks[i]? with
    | some ⟨addr, .running _⟩ => some (d.setStage i addr (.running call))
    | _ => none
  | .finish i =>
    match d.tasks[i]? with
    | some ⟨addr, .running _⟩ => some (d.setStage i addr .returned)
    | _ => none
  | .remove i =>
    match d.tasks[i]? with
    | some ⟨addr, .returned⟩ =>
      some { d with
        inFlight := d.inFlight.erase addr
        tasks := d.tasks.set i ⟨addr, .removed (d.inFlight.lookup addr == some true)⟩ }
    | _ => none
  | .release i =>
    match d.tasks[i]? with
    | some ⟨addr, .removed true⟩ =>
      some { d with permits := d.permits + 1, tasks := d.tasks.set i ⟨addr, .sending⟩ }
    | some ⟨_, .removed false⟩ =>
      some { d with permits := d.permits + 1, tasks := d.tasks.eraseIdx i }
    | _ => none
  | .resend i =>
    match d.tasks[i]? with
    | some ⟨addr, .sending⟩ =>
      ({ d with tasks := d.tasks.eraseIdx i } : Dispatcher σ).send capacity addr
    | _ => none

end Dispatcher

def dispatcher (σ : Type) (capacity forwardConcurrency : ℕ) :
    Machine (Dispatcher σ) (Dispatcher.Act σ) where
  init d := d = .start forwardConcurrency
  step := Dispatcher.step capacity

end ForwardingRelayer
