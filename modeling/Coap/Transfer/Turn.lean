import Coap.Exchange.Table
import Coap.Progress

/-!
Activities that proceed by exchanges, one at a time: each either asks for an exchange and goes on from a state,
or is finished. Whoever runs one provides the answers, so that the same activity serves a connection and a plain
list of answers.
-/
namespace Coap

/-- What an activity does next. -/
inductive Turn (σ ρ : Type)
  | ask (request : Message) (state : σ)
  | finish (result : ρ)

/-- A turn together with the progress reported on the way to it. -/
structure Stride (σ ρ : Type) where
  reports : List Progress := []
  turn : Turn σ ρ

/-- The trace of an activity under given answers: what it asked and reported, and its result if it got so far. -/
structure Trace (ρ : Type) where
  requests : List Message := []
  reports : List Progress := []
  result : Option ρ := none

/-- Runs an activity on answers that are already known, until it finishes or they run out. -/
def Stride.run {σ ρ : Type} (resume : σ → Outcome → Stride σ ρ) (s : Stride σ ρ) :
    List Outcome → Trace ρ
  | [] =>
    match s.turn with
    | .ask request _ => { requests := [request], reports := s.reports }
    | .finish result => { reports := s.reports, result := some result }
  | answer :: rest =>
    match s.turn with
    | .ask request state =>
      let t := (resume state answer).run resume rest
      { t with requests := request :: t.requests, reports := s.reports ++ t.reports }
    | .finish result => { reports := s.reports, result := some result }

end Coap
