import Coap.Proofs.NotificationOrder
import Coap.Proofs.SessionMessages

/-! Tokens in every run of a client. Each call takes a token of its own, and whatever goes with a token,
be it a notification that comes in or a message that is sent, belongs to the operation that has taken it:
to the operation itself, to the subscription that it has made, or to the end of its observation. -/
namespace Coap

namespace Session

/-- The call that a move makes, by the operation that it begins. -/
def calls (s : Session) : Move → List (Nat × Call)
  | .input (.call c _) => [(s.nextSerial, c)]
  | _ => []

/-- The calls that have been made along a run. -/
def callsMade (first : Session) (past : List Move) : List (Nat × Call) := along calls first past

/-- The task is an operation by which the observation is stopped. -/
def StoppedBy (first : Session) (past : List Move) (o : Observation) (t : Task) : Prop :=
  ∃ k, t = .operation k ∧ (k, .stop o) ∈ callsMade first past

variable {options : ConnectOptions} {pipe : Pipe} {messageIds : MessageIds} {tokens : Tokens}
  {timer : Timer}
  {first s : Session} {past : List Move} {n : Nat} {t : Task} {m : Message}

/-! Tokens of messages. -/

/-- The tokens of all messages, by the operations that have taken them. -/
def owned (first : Session) (past : List Move) : Provenance where
  call := fun n c => (n, c) ∈ callsMade first past
  message := fun t m => match t with
    | .receiver => True
    | .operation n => (n, m.token) ∈ grantsOf first past ∨
      ∃ o, (n, .stop o) ∈ callsMade first past ∧ m.token = o.template.token
    | .worker k => ∃ w ∈ enlistments first past, w.serial = k ∧ (w.owner, m.token) ∈ grantsOf first past
  template := fun n m => (n, m.token) ∈ grantsOf first past

theorem mem_returned {c : Completion} : (n, c) ∈ s.returned ↔ .finished n c ∈ s.log.toList := by
  unfold returned
  rw [List.mem_filterMap]
  constructor
  · rintro ⟨e, he, hend⟩
    cases e with
    | finished k d =>
      cases hend
      exact he
    | _ => cases hend
  · intro h
    exact ⟨_, h, rfl⟩

/-- A call to stop an observation has come from outside. -/
theorem stop_mem_of_callsMade {k : Nat} {o : Observation} (h : (k, .stop o) ∈ callsMade first past) :
    ∃ cancelled, .input (.call (.stop o) cancelled) ∈ past := by
  obtain ⟨before, m, after, s₁, rfl, -, hcall⟩ := exists_of_mem_along h
  have hmem : m ∈ before ++ m :: after := List.mem_append_right _ List.mem_cons_self
  cases m with
  | step t => cases hcall
  | input i =>
    cases i with
    | call c cancelled =>
      obtain rfl : Call.stop o = c := (Prod.mk.inj (List.mem_singleton.mp hcall)).2
      exact ⟨cancelled, hmem⟩
    | _ => cases hcall

theorem StoppedBy.called {o : Observation} (h : StoppedBy first past o t) :
    ∃ cancelled, .input (.call (.stop o) cancelled) ∈ past := by
  obtain ⟨k, -, hcall⟩ := h
  exact stop_mem_of_callsMade hcall

end Session

end Coap
