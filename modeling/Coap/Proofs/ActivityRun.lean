import Coap.Transfer.Turn

/-! How an activity runs on a list of answers, one answer at a time. -/
namespace Coap

/-- The same turn of an activity that has its own states and its own results. -/
def Turn.map {σ ρ τ υ : Type} (f : σ → τ) (g : ρ → υ) : Turn σ ρ → Turn τ υ
  | .ask request state => .ask request (f state)
  | .finish result => .finish (g result)

/-- The request that a turn asks for. -/
def Turn.request? {σ ρ : Type} : Turn σ ρ → Option Message
  | .ask request _ => some request
  | .finish _ => none

namespace Stride

variable {σ ρ : Type} {resume : σ → Outcome → Stride σ ρ} {s : Stride σ ρ}

theorem run_of_finish {result : ρ} (h : s.turn = .finish result) (answers : List Outcome) :
    s.run resume answers = { reports := s.reports, result := some result } := by
  cases answers <;> simp [run, h]

theorem run_of_ask_nil {request : Message} {state : σ} (h : s.turn = .ask request state) :
    s.run resume [] = { requests := [request], reports := s.reports } := by
  simp [run, h]

theorem run_of_ask_cons {request : Message} {state : σ} (h : s.turn = .ask request state)
    (answer : Outcome) (rest : List Outcome) :
    s.run resume (answer :: rest) =
      { (resume state answer).run resume rest with
        requests := request :: ((resume state answer).run resume rest).requests
        reports := s.reports ++ ((resume state answer).run resume rest).reports } := by
  simp [run, h]

/-- The turn that an activity has come to after some answers. -/
def turnAfter (resume : σ → Outcome → Stride σ ρ) (s : Stride σ ρ) : List Outcome → Turn σ ρ
  | [] => s.turn
  | answer :: rest =>
    match s.turn with
    | .ask _ state => (resume state answer).turnAfter resume rest
    | .finish result => .finish result

theorem turnAfter_of_ask_cons {request : Message} {state : σ} (h : s.turn = .ask request state)
    (answer : Outcome) (rest : List Outcome) :
    s.turnAfter resume (answer :: rest) = (resume state answer).turnAfter resume rest := by
  simp [turnAfter, h]

theorem turnAfter_of_finish {result : ρ} (h : s.turn = .finish result) (answers : List Outcome) :
    s.turnAfter resume answers = .finish result := by
  cases answers <;> simp [turnAfter, h]

/-- One more answer leads to the next turn. -/
theorem turnAfter_concat {request : Message} {state : σ} {answers : List Outcome}
    (h : s.turnAfter resume answers = .ask request state) (answer : Outcome) :
    s.turnAfter resume (answers ++ [answer]) = (resume state answer).turn := by
  induction answers generalizing s with
  | nil => exact turnAfter_of_ask_cons h answer []
  | cons a rest ih =>
    cases hturn : s.turn with
    | ask r t =>
      rw [turnAfter_of_ask_cons hturn] at h
      rw [List.cons_append, turnAfter_of_ask_cons hturn]
      exact ih h
    | finish result =>
      rw [turnAfter_of_finish hturn] at h
      cases h

/-- The result of a run is that of its last turn. -/
theorem result_run (resume : σ → Outcome → Stride σ ρ) (s : Stride σ ρ) (answers : List Outcome) :
    (s.run resume answers).result = match s.turnAfter resume answers with
      | .ask _ _ => none
      | .finish result => some result := by
  induction answers generalizing s with
  | nil => cases hturn : s.turn <;> simp [run, turnAfter, hturn]
  | cons a rest ih =>
    cases hturn : s.turn with
    | ask r t =>
      rw [run_of_ask_cons hturn, turnAfter_of_ask_cons hturn]
      exact ih (resume t a)
    | finish result => rw [run_of_finish hturn, turnAfter_of_finish hturn]

/-- As long as an activity asks, it has one request more than it has answers. -/
theorem length_requests_of_ask {request : Message} {state : σ} {answers : List Outcome}
    (h : s.turnAfter resume answers = .ask request state) :
    (s.run resume answers).requests.length = answers.length + 1 := by
  induction answers generalizing s with
  | nil =>
    rw [run_of_ask_nil h]
    rfl
  | cons a rest ih =>
    cases hturn : s.turn with
    | ask r t =>
      rw [turnAfter_of_ask_cons hturn] at h
      rw [run_of_ask_cons hturn, List.length_cons, List.length_cons, ih h]
    | finish result =>
      rw [turnAfter_of_finish hturn] at h
      cases h

/-- One more answer leads to the request of the next turn, if there is one. -/
theorem requests_concat {request : Message} {state : σ} {answers : List Outcome}
    (h : s.turnAfter resume answers = .ask request state) (answer : Outcome) :
    (s.run resume (answers ++ [answer])).requests =
      (s.run resume answers).requests ++ (resume state answer).turn.request?.toList := by
  induction answers generalizing s with
  | nil =>
    rw [List.nil_append, run_of_ask_cons h, run_of_ask_nil h]
    cases hturn : (resume state answer).turn with
    | ask r t => rw [run_of_ask_nil hturn]; rfl
    | finish result => rw [run_of_finish hturn]; rfl
  | cons a rest ih =>
    cases hturn : s.turn with
    | ask r t =>
      rw [turnAfter_of_ask_cons hturn] at h
      rw [List.cons_append, run_of_ask_cons hturn, run_of_ask_cons hturn, ih h, List.cons_append]
    | finish result =>
      rw [turnAfter_of_finish hturn] at h
      cases h

/-- Without an answer there are the reports of the first turn. -/
theorem reports_nil (resume : σ → Outcome → Stride σ ρ) (s : Stride σ ρ) :
    (s.run resume []).reports = s.reports := by
  cases hturn : s.turn with
  | ask r t => rw [run_of_ask_nil hturn]
  | finish result => rw [run_of_finish hturn]

/-- One more answer leads to the reports of the next turn. -/
theorem reports_concat {request : Message} {state : σ} {answers : List Outcome}
    (h : s.turnAfter resume answers = .ask request state) (answer : Outcome) :
    (s.run resume (answers ++ [answer])).reports =
      (s.run resume answers).reports ++ (resume state answer).reports := by
  induction answers generalizing s with
  | nil =>
    rw [List.nil_append, run_of_ask_cons h, run_of_ask_nil h]
    exact congrArg (s.reports ++ ·) (reports_nil resume (resume state answer))
  | cons a rest ih =>
    cases hturn : s.turn with
    | ask r t =>
      rw [turnAfter_of_ask_cons hturn] at h
      rw [List.cons_append, run_of_ask_cons hturn, run_of_ask_cons hturn]
      exact (congrArg (s.reports ++ ·) (ih h)).trans (List.append_assoc ..).symm
    | finish result =>
      rw [turnAfter_of_finish hturn] at h
      cases h

/-- An activity that finishes with its last answer has asked for just these answers. -/
theorem length_requests_of_finish {request : Message} {state : σ} {answers : List Outcome}
    {answer : Outcome} {result : ρ} (h : s.turnAfter resume answers = .ask request state)
    (hfinish : (resume state answer).turn = .finish result) :
    (s.run resume (answers ++ [answer])).requests.length = answers.length + 1 := by
  rw [requests_concat h, hfinish, ← length_requests_of_ask h]
  exact congrArg List.length (List.append_nil _)

/-! Activities that follow another one -/

section Map

variable {τ υ : Type} {f : σ → τ} {g : ρ → υ} {resume' : τ → Outcome → Stride τ υ}

def map (f : σ → τ) (g : ρ → υ) (s : Stride σ ρ) : Stride τ υ :=
  { reports := s.reports, turn := s.turn.map f g }

theorem map_of_ask {request : Message} {state : σ} (h : s.turn = .ask request state) :
    (s.map f g).turn = .ask request (f state) :=
  congrArg (Turn.map f g) h

theorem map_of_finish {result : ρ} (h : s.turn = .finish result) :
    (s.map f g).turn = .finish (g result) :=
  congrArg (Turn.map f g) h

/-- An activity that goes on as another one does sends and reports the same, and its result is made
of the other one's. -/
theorem run_map (h : ∀ state answer, resume' (f state) answer = (resume state answer).map f g)
    (s : Stride σ ρ) (answers : List Outcome) :
    (s.map f g).run resume' answers =
      { requests := (s.run resume answers).requests
        reports := (s.run resume answers).reports
        result := (s.run resume answers).result.map g } := by
  induction answers generalizing s with
  | nil =>
    cases hturn : s.turn with
    | ask request state =>
      rw [run_of_ask_nil hturn, run_of_ask_nil (map_of_ask hturn)]
      rfl
    | finish result =>
      rw [run_of_finish hturn, run_of_finish (map_of_finish hturn)]
      rfl
  | cons answer rest ih =>
    cases hturn : s.turn with
    | ask request state =>
      rw [run_of_ask_cons hturn, run_of_ask_cons (map_of_ask hturn), h, ih]
      rfl
    | finish result =>
      rw [run_of_finish hturn, run_of_finish (map_of_finish hturn)]
      rfl

theorem turnAfter_map (h : ∀ state answer, resume' (f state) answer = (resume state answer).map f g)
    (s : Stride σ ρ) (answers : List Outcome) :
    (s.map f g).turnAfter resume' answers = (s.turnAfter resume answers).map f g := by
  induction answers generalizing s with
  | nil => rfl
  | cons answer rest ih =>
    cases hturn : s.turn with
    | ask request state =>
      rw [turnAfter_of_ask_cons hturn, turnAfter_of_ask_cons (map_of_ask hturn), h]
      exact ih (resume state answer)
    | finish result =>
      rw [turnAfter_of_finish hturn, turnAfter_of_finish (map_of_finish hturn)]
      rfl

end Map

end Stride

end Coap
