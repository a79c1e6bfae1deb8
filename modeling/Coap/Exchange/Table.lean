import Coap.Error

/-!
The table of outstanding exchanges. An exchange is registered under a message id and has a ticket of its own, so
that one which is over never touches a later one under the same id. Whatever takes an entry out of the table
decides the exchange: the result is then kept until the waiting side fetches it.
-/
namespace Coap

/-- How an exchange ends: with the message that answers it, or with an error. -/
abbrev Outcome := Except ClientError Message

/-- The id is already used by an outstanding exchange. -/
structure DuplicateId where
  id : UInt16
  deriving DecidableEq, Repr

def DuplicateId.message (e : DuplicateId) : String :=
  s!"CoAP exchange dispatcher error: message id {e.id} is already pending"

/-- The claim to the result of one exchange. -/
structure Waiter where
  id : UInt16
  ticket : Nat
  deriving DecidableEq, Repr

structure Exchanges where
  /-- The undecided exchanges, no two of the same id. -/
  pending : List Waiter := []
  /-- Results by ticket that have not been fetched yet. -/
  decided : List (Nat × Outcome) := []
  nextTicket : Nat := 0

namespace Exchanges

def isPending (x : Exchanges) (id : UInt16) : Bool := x.pending.any fun w => w.id == id

def ids (x : Exchanges) : List UInt16 := x.pending.map Waiter.id

def size (x : Exchanges) : Nat := x.pending.length

def register (x : Exchanges) (id : UInt16) : Except DuplicateId (Waiter × Exchanges) :=
  if x.isPending id then .error { id }
  else
    let w : Waiter := { id, ticket := x.nextTicket }
    .ok (w, { x with pending := x.pending ++ [w], nextTicket := x.nextTicket + 1 })

/-- Takes the exchange with the given id out of the table and keeps its result. -/
def resolve (x : Exchanges) (id : UInt16) (result : Outcome) : Bool × Exchanges :=
  match x.pending.find? fun w => w.id == id with
  | none => (false, x)
  | some w => (true, { x with
      pending := x.pending.erase w
      decided := x.decided ++ [(w.ticket, result)] })

/-- Delivers a message to the exchange with its id; the flag tells whether there was one. -/
def complete (x : Exchanges) (m : Message) : Bool × Exchanges := x.resolve m.id (.ok m)

def cancel (x : Exchanges) (id : UInt16) : Bool × Exchanges := x.resolve id (.error .cancelled)

/-- Ends every outstanding exchange with the same error. -/
def failAll (x : Exchanges) (e : ClientError) : Exchanges :=
  x.ids.foldl (fun x id => (x.resolve id (.error e)).2) x

/-- Removes the waiter's own entry and a result that it has not fetched; later entries stay. -/
def release (x : Exchanges) (w : Waiter) : Exchanges :=
  { x with
    pending := x.pending.filter fun v => v != w
    decided := x.decided.filter fun d => d.1 != w.ticket }

/-- The result of a waiter's exchange, if it has been decided. -/
def result? (x : Exchanges) (w : Waiter) : Option Outcome :=
  (x.decided.find? fun d => d.1 == w.ticket).map Prod.snd

/-- What a waiter gets now, if anything. A result that is there comes first, whatever else has happened. A waiter
whose entry is gone without a result would never get one, and takes the connection for closed. After that come a
cancellation and the end of the time allowed; whoever gives up leaves no entry behind. -/
def fetch (x : Exchanges) (w : Waiter) (cancelled expired : Bool) : Option (Outcome × Exchanges) :=
  match x.result? w with
  | some result => some (result, x.release w)
  | none =>
    if !x.pending.contains w then some (.error .connectionClosed, x.release w)
    else if cancelled then some (.error .cancelled, x.release w)
    else if expired then some (.error .timedOut, x.release w)
    else none

end Exchanges

/-- The number of ids that are tried before giving up. -/
def maxIdAttempts : Nat := 64

/-- The sleeps of the program: the time at which one is over that begins at `now` and is to last for `span`. -/
structure Timer where
  wake : (now span : Nat) → Nat

namespace Timer

/-- No sleep is over before its span has passed. -/
def Sleeps (t : Timer) : Prop := ∀ now span, now + span ≤ t.wake now span

/-- Sleeps that last exactly as long as they are to. -/
def exact : Timer where
  wake now span := now + span

theorem exact_sleeps : exact.Sleeps := fun _ _ => Nat.le_refl _

end Timer

end Coap
