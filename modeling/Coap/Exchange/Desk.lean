import Coap.Exchange.Table

/-!
Waiting for outstanding exchanges: waits with a time limit and a named cancellation, under a clock that moves
only when it is told to.
-/
namespace Coap

/-- A waiter that somebody is waiting with. -/
structure Wait where
  waiter : Waiter
  deadline : Nat
  /-- The cancellation that ends the wait, if it has one that anybody else knows. -/
  token : Option String := none

structure Desk where
  exchanges : Exchanges := {}
  timer : Timer := .exact
  /-- The time that has passed, in nanoseconds. -/
  clock : Nat := 0
  /-- Cancellations that have been fired; they stay so. -/
  fired : List String := []
  /-- Registered waiters that nobody is waiting with yet. -/
  idle : List Waiter := []
  waits : List Wait := []

namespace Desk

def register (d : Desk) (id : UInt16) : Except DuplicateId (Waiter × Desk) :=
  (d.exchanges.register id).map fun (w, x) => (w, { d with exchanges := x, idle := d.idle ++ [w] })

def complete (d : Desk) (m : Message) : Bool × Desk :=
  let (found, x) := d.exchanges.complete m
  (found, { d with exchanges := x })

def cancel (d : Desk) (id : UInt16) : Bool × Desk :=
  let (found, x) := d.exchanges.cancel id
  (found, { d with exchanges := x })

def failAll (d : Desk) (e : ClientError) : Desk :=
  { d with exchanges := d.exchanges.failAll e }

/-- Begins to wait with an idle waiter. -/
def wait (d : Desk) (ticket limit : Nat) (token : Option String) : Desk :=
  match d.idle.find? fun w => w.ticket == ticket with
  | none => d
  | some w => { d with
      idle := d.idle.erase w
      waits := d.waits ++ [{ waiter := w, deadline := d.timer.wake d.clock limit, token }] }

def fire (d : Desk) (token : String) : Desk := { d with fired := token :: d.fired }

/-- Drops an idle waiter. -/
def drop (d : Desk) (ticket : Nat) : Desk :=
  match d.idle.find? fun w => w.ticket == ticket with
  | none => d
  | some w => { d with idle := d.idle.erase w, exchanges := d.exchanges.release w }

/-- Drops a waiter while somebody is waiting with it. -/
def abort (d : Desk) (ticket : Nat) : Desk :=
  match d.waits.find? fun v => v.waiter.ticket == ticket with
  | none => d
  | some v => { d with
      waits := d.waits.filter fun v => v.waiter.ticket != ticket
      exchanges := d.exchanges.release v.waiter }

def advance (d : Desk) (span : Nat) : Desk := { d with clock := d.clock + span }

def isCancelled (d : Desk) (v : Wait) : Bool :=
  match v.token with
  | some t => d.fired.contains t
  | none => false

/-- Asks the wait with the given ticket whether it is over; the outcome if it is. -/
def ask (d : Desk) (ticket : Nat) : Option (Waiter × Outcome) × Desk :=
  match d.waits.find? fun v => v.waiter.ticket == ticket with
  | none => (none, d)
  | some v =>
    match d.exchanges.fetch v.waiter (d.isCancelled v) (v.deadline ≤ d.clock) with
    | none => (none, d)
    | some (outcome, exchanges) =>
      (some (v.waiter, outcome),
        { d with exchanges, waits := d.waits.filter fun v => v.waiter.ticket != ticket })

/-- Asks waits one after the other; the ended ones with their outcomes. -/
def askEach (d : Desk) : List Nat → List (Waiter × Outcome) × Desk
  | [] => ([], d)
  | ticket :: rest =>
    let (ended, d) := d.ask ticket
    let (others, d) := d.askEach rest
    (ended.toList ++ others, d)

/-- Ends all waits that are over. -/
def settle (d : Desk) : List (Waiter × Outcome) × Desk :=
  d.askEach (d.waits.map fun v => v.waiter.ticket)

end Desk

end Coap
