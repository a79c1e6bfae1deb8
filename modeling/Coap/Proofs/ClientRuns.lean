import Coap.Client.Run
import Coap.Proofs.ExchangeLedger
import Coap.Proofs.SessionLog

/-! A client at work goes through a run of its session. The order in which its tasks take turns decides
which run it is, so that all that holds of every run of a session holds of the client. -/
namespace Coap

/-- The input that a move takes in. -/
def Move.input? : Move → Option Input
  | .input i => some i
  | .step _ => none

/-- What has happened stays in the log. -/
theorem Session.log_of_run {s s' : Session} {moves : List Move} (hs : s.run moves = some s') :
    s.log.toList <+: s'.log.toList := by
  refine run_induction (P := fun _ s' => s.log.toList <+: s'.log.toList) (List.prefix_refl _) ?_ hs
  intro past s₁ m s₂ _ h hmove
  obtain ⟨added, hadded, -⟩ := grown_of_move hmove
  rw [hadded]
  exact h.trans (List.prefix_append _ _)

namespace Client

variable {first c c' : Client} {inputs : List Input} {shown : List Event}

/-- What becomes of a client that takes in some inputs and whose events are looked at now and then. -/
inductive Reaches (first : Client) : List Input → List Event → Client → Prop
  | start : Reaches first [] [] first
  | take {inputs : List Input} {shown : List Event} {c : Client} (i : Input)
      (h : Reaches first inputs shown c) : Reaches first (inputs ++ [i]) shown (c.take i)
  | takeLog {inputs : List Input} {shown : List Event} {c : Client}
      (h : Reaches first inputs shown c) :
      Reaches first inputs (shown ++ c.takeLog.1.toList) c.takeLog.2

/-- A message that is not refused is taken in as an input. -/
theorem Reaches.receive {m : Message} (h : Reaches first inputs shown c) (hm : c.receive m = .ok c') :
    Reaches first (inputs ++ [.message m]) shown c' := by
  unfold Client.receive at hm
  cases harrive : c.session.arrive m with
  | error e =>
    rw [harrive] at hm
    cases hm
  | ok s =>
    rw [harrive] at hm
    cases hm
    exact h.take (.message m)

/-- A turn that is within the share of its task is a step of the session; nothing else changes the
session, and no event is shown. -/
theorem run_of_runFor (n : Nat) (c : Client) :
    (∃ tasks : List Task, c.session.run (tasks.map .step) = some (runFor n c).session) ∧
      (runFor n c).seen = c.seen := by
  induction n generalizing c with
  | zero => exact ⟨⟨[], rfl⟩, rfl⟩
  | succ n ih =>
    unfold runFor
    split
    · exact ⟨⟨[], rfl⟩, rfl⟩
    · exact ih { c with ready := c.later, later := [] }
    · rename_i t _ _
      split
      · -- The task cannot go on, and rests.
        have hsame : (c.endTurn.rest t).session = c.session ∧ (c.endTurn.rest t).seen = c.seen := by
          unfold rest
          split <;> exact ⟨rfl, rfl⟩
        rw [← hsame.1, ← hsame.2]
        exact ih (c.endTurn.rest t)
      · rename_i s hs
        dsimp only
        split
        · obtain ⟨⟨tasks, htasks⟩, hseen⟩ :=
            ih (wake { c with session := s, share := c.share - c.session.cost t })
          exact ⟨⟨t :: tasks, Option.bind_eq_some_iff.mpr ⟨s, hs, htasks⟩⟩, hseen⟩
        · -- The step is more than what is left of the share, and is not taken yet.
          exact ih { c.endTurn with later := c.later ++ [t] }

/-- A client that takes in an input runs on from the session that has taken it. -/
theorem take_eq_run (c : Client) (i : Input) : ∃ queued : List Task, c.take i =
    run { c with session := c.session.accept i, ready := c.ready ++ c.turns i, queued } :=
  ⟨_, rfl⟩

/-- An input is taken in, and then the tasks take some steps. -/
theorem run_of_take (c : Client) (i : Input) :
    (∃ tasks : List Task, c.session.run (.input i :: tasks.map .step) = some (c.take i).session) ∧
      (c.take i).seen = c.seen := by
  obtain ⟨queued, htake⟩ := take_eq_run c i
  rw [htake]
  obtain ⟨⟨tasks, htasks⟩, hseen⟩ := run_of_runFor _ (wake { c with
    session := c.session.accept i, ready := c.ready ++ c.turns i, queued })
  exact ⟨⟨tasks, Option.bind_eq_some_iff.mpr ⟨_, rfl, htasks⟩⟩, hseen⟩

/-- A client goes through a run of its session, with just the inputs that it has taken in. It shows each
event once, in the order in which they have happened. -/
theorem run_of_reaches {options : ConnectOptions} {pipe : Pipe} {messageIds : MessageIds}
    {tokens : Tokens} {timer : Timer}
    (h : Reaches (start options pipe messageIds tokens timer) inputs shown c) :
    (∃ moves : List Move,
      (Session.start options pipe messageIds tokens timer).run moves = some c.session ∧
        moves.filterMap Move.input? = inputs) ∧
    shown = c.session.log.toList.take c.seen ∧ c.seen ≤ c.session.log.toList.length := by
  -- What has been shown is the beginning of the log, and the log only grows.
  induction h with
  | start => exact ⟨⟨[], rfl, rfl⟩, rfl, Nat.zero_le _⟩
  | @take inputs shown c i _ ih =>
    obtain ⟨⟨moves, hrun, hinputs⟩, hshown, hseen⟩ := ih
    obtain ⟨⟨tasks, htasks⟩, hsame⟩ := run_of_take c i
    have hsteps : (tasks.map Move.step).filterMap Move.input? = [] := by
      rw [List.filterMap_map]
      exact List.filterMap_eq_nil_iff.mpr fun _ _ => rfl
    obtain ⟨added, hadded⟩ := Session.log_of_run htasks
    refine ⟨⟨_, Session.run_append hrun htasks, ?_⟩, ?_, ?_⟩
    · rw [List.filterMap_append, hinputs]
      exact congrArg (fun rest => inputs ++ i :: rest) hsteps
    · rw [hsame, ← hadded, List.take_append_of_le_length hseen]
      exact hshown
    · rw [hsame, ← hadded, List.length_append]
      exact Nat.le_add_right_of_le hseen
  | @takeLog inputs shown c _ ih =>
    obtain ⟨hrun, hshown, hseen⟩ := ih
    refine ⟨hrun, ?_, Nat.le_of_eq Array.length_toList.symm⟩
    have hnew : c.takeLog.1.toList = c.session.log.toList.drop c.seen := by
      have hlength : (c.session.log.toList.drop c.seen).length = c.session.log.size - c.seen := by
        rw [List.length_drop, Array.length_toList]
      unfold takeLog
      rw [Array.toList_extract, List.extract_eq_take_drop,
        List.take_of_length_le (Nat.le_of_eq hlength)]
    rw [hnew, hshown, List.take_append_drop]
    exact (List.take_of_length_le (Nat.le_of_eq Array.length_toList)).symm

end Client

end Coap
