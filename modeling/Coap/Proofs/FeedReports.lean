import Coap.Proofs.ClosingExchanges
import Coap.Proofs.SubscriptionMoves

/-! The feed of a client. It only grows, by the reports of the turns that operations and workers take,
and each of its receivers gets the newest reports that it has not seen. -/
namespace Coap

theorem Feed.toList_publish (reports : List Progress) (f : Feed) :
    (reports.foldl publish f).reports.toList = f.reports.toList ++ reports := by
  induction reports generalizing f with
  | nil => exact (List.append_nil _).symm
  | cons p rest ih =>
    have hone : (f.publish p).reports.toList = f.reports.toList ++ [p] := Array.toList_push
    rw [List.foldl_cons, ih, hone, List.append_assoc]
    rfl

/-- A receiver gets the reports since it looked last, but for the oldest of them if there are more than
it can fall behind, and has then seen all there are. -/
theorem Feed.drain_eq (f : Feed) (r : FeedReceiver) :
    f.drain r = ((f.reports.toList.drop r.position).length - capacity,
      (f.reports.toList.drop r.position).drop ((f.reports.toList.drop r.position).length - capacity),
      f.subscribe) := by
  have hlength (n : Nat) : (f.reports.toList.drop n).length = f.reports.size - n := by
    rw [List.length_drop, Array.length_toList]
  have hstart : max r.position (f.reports.size - capacity) =
      r.position + (f.reports.size - r.position - capacity) := by omega
  unfold drain
  dsimp only
  rw [hlength, hstart, Nat.add_sub_cancel_left, List.drop_drop, Array.toList_extract,
    List.extract_eq_take_drop, List.take_of_length_le (Nat.le_of_eq (hlength _))]
  rfl

namespace Session

/-- The reports that have been published so far. -/
def reports (s : Session) : List Progress := s.feed.reports.toList

/-- The reports that a move publishes, each with the task that publishes it. -/
def publications (s : Session) : Move → List (Task × Progress)
  | .step t =>
    match s.step t with
    | some s' => (s'.reports.drop s.reports.length).map fun p => (t, p)
    | none => []
  | .input _ => []

/-- The reports of a task among those that a move publishes. -/
def publishes (t : Task) (s : Session) (m : Move) : List Progress :=
  ((s.publications m).filter fun x => x.1 == t).map Prod.snd

/-- The reports that a task has published along a run. -/
def publishedBy (first : Session) (t : Task) (past : List Move) : List Progress :=
  ((along publications first past).filter fun x => x.1 == t).map Prod.snd

/-- The outcome of its exchange with which a task goes on. -/
def hears (t : Task) (s : Session) (m : Move) : List Outcome :=
  if m.isStepOf t then
    match s.exchangeOf t with
    | some (.ended outcome) => [outcome]
    | _ => []
  else []

/-- The outcomes of its exchanges with which a task has gone on along a run. -/
def heardBy (first : Session) (t : Task) (past : List Move) : List Outcome := along (hears t) first past

variable {first s s' : Session} {past : List Move} {m : Move} {t : Task} {o : Operation} {w : Worker}
  {more : List Progress}

/-! What a turn publishes. -/

theorem reports_publish (s : Session) (reports : List Progress) :
    (s.publish reports).reports = s.reports ++ reports :=
  Feed.toList_publish reports s.feed

/-- An operation publishes the reports of its turn. -/
theorem reports_proceed (s : Session) (o : Operation) (purpose : Purpose)
    (next : Stride Transfer (Except ClientError Response)) :
    (s.proceed o purpose next).reports = s.reports ++ next.reports := by
  have hpublish := reports_publish s next.reports
  unfold proceed
  cases next.turn <;> exact hpublish

/-- A worker publishes the reports of its turn. -/
theorem reports_deliver (s : Session) (w : Worker) (next : Stride Delivery (Option Notification)) :
    (s.deliver w next).reports = s.reports ++ next.reports := by
  have hpublish := reports_publish s next.reports
  unfold deliver
  cases next.turn with
  | ask request delivery => exact hpublish
  | finish result => cases result <;> exact hpublish

theorem reports_absorb (s : Session) (t : Task) (c : Connection.Stepped) :
    (s.absorb t c).reports = s.reports := by
  unfold absorb
  cases c.sent <;> rfl

/-- The receiver publishes nothing. -/
theorem reports_stepReceiver (hs : s.stepReceiver = some s') : s'.reports = s.reports := by
  have hroute (s : Session) (a : Message) : (s.route a).reports = s.reports := by
    unfold route
    split <;> rfl
  unfold stepReceiver at hs
  cases hphase : s.receiver with
  | listening =>
    simp only [hphase, listen] at hs
    repeat' split at hs
    all_goals cases hs
    any_goals rfl
    exact hroute _ _
  | replying reply =>
    simp only [hphase] at hs
    split at hs <;> cases hs <;> rfl
  | ending e ids =>
    rw [hphase] at hs
    cases ids <;> cases hs <;> rfl
  | _ =>
    rw [hphase] at hs
    cases hs <;> rfl

theorem reports_accept (s : Session) (i : Input) : (s.accept i).reports = s.reports := by
  cases i with
  | abort n =>
    change (s.abort n).reports = s.reports
    unfold abort
    split <;> rfl
  | message a =>
    change ((s.arrive a).toOption.getD s).reports = s.reports
    unfold arrive Pipe.peerSend
    repeat' split
    all_goals rfl
  | _ => rfl

/-! What a task hears with a move. -/

theorem hears_of_other (hm : m ≠ .step t) : s.hears t m = [] := by
  have hstep : ¬ m.isStepOf t = true := fun h => hm (Move.eq_of_isStepOf h)
  exact if_neg hstep

theorem hears_of_ended {outcome : Outcome} (he : s.exchangeOf t = some (.ended outcome)) :
    s.hears t (.step t) = [outcome] := by
  unfold hears
  rw [he, Move.isStepOf_step]
  rfl

theorem hears_of_going (he : ∀ outcome, s.exchangeOf t ≠ some (.ended outcome)) : s.hears t m = [] := by
  unfold hears
  split
  · split
    · rename_i outcome h
      exact absurd h (he outcome)
    · rfl
  · rfl

/-! What has been published stays so. -/

theorem grows_of_reports (h : s'.reports = s.reports ++ more) : s.reports <+: s'.reports :=
  ⟨more, h.symm⟩

theorem grows_of_same (h : s'.reports = s.reports) : s.reports <+: s'.reports := h ▸ List.prefix_refl _

theorem grows_begin (s : Session) (o : Operation) (call : Call) :
    s.reports <+: (s.begin o call).reports := by
  cases call with
  | request r =>
    cases ha : r.toMessage with
    | error e =>
      rw [begin_request_error ha]
      exact List.prefix_refl _
    | ok a =>
      rw [begin_request_ok ha]
      exact grows_of_reports (reports_proceed _ o _ _)
  | observe r handler =>
    unfold begin
    dsimp only
    split <;> exact List.prefix_refl _
  | stop x => exact grows_of_reports (reports_proceed s o _ _)
  | shutdown =>
    unfold begin
    dsimp only
    split <;> exact List.prefix_refl _

theorem grows_stepOperation (hs : s.stepOperation o = some s') : s.reports <+: s'.reports := by
  cases hstage : o.stage with
  | called call =>
    unfold stepOperation at hs
    rw [hstage] at hs
    cases hs
    exact grows_begin s o call
  | enrolling request template handler =>
    unfold stepOperation enroll at hs
    rw [hstage] at hs
    cases hs
    split
    · exact List.prefix_refl _
    · exact grows_of_reports (reports_proceed _ o _ _)
  | running purpose transfer e =>
    by_cases hended : ∃ outcome, e = .ended outcome
    · obtain ⟨outcome, rfl⟩ := hended
      unfold stepOperation at hs
      rw [hstage] at hs
      cases hs
      exact grows_of_reports (reports_proceed s o _ _)
    · rw [stepOperation_running hstage fun outcome he => hended ⟨outcome, he⟩] at hs
      obtain ⟨c, -, rfl⟩ := Option.map_eq_some_iff.mp hs
      exact grows_of_same (reports_absorb s (.operation o.serial) c)
  | concluding purpose result =>
    obtain ⟨subscriptions, c, hconclude, -⟩ := conclude_eq_finish s o purpose result
    unfold stepOperation at hs
    rw [hstage] at hs
    cases hs
    rw [hconclude]
    exact List.prefix_refl _
  | joining =>
    unfold stepOperation at hs
    rw [hstage] at hs
    dsimp only at hs
    split at hs
    · cases hs
      exact List.prefix_refl _
    · cases hs

theorem Shift.grows (h : Shift s s' w) : s.reports <+: s'.reports := by
  cases h with
  | dismissed rest stopped next =>
    rw [next]
    exact List.prefix_refl _
  | started a subscriptions rest going take next =>
    rw [next]
    exact grows_of_reports (reports_deliver { s with subscriptions } w _)
  | resumed delivery answer busy next =>
    rw [next]
    exact grows_of_reports (reports_deliver s w _)
  | exchanged delivery e c busy going step next =>
    rw [next]
    exact grows_of_same (reports_absorb s (.worker w.serial) c)

theorem grows_of_step (hs : s.step t = some s') : s.reports <+: s'.reports := by
  cases t with
  | receiver => exact grows_of_same (reports_stepReceiver hs)
  | operation n =>
    obtain ⟨o, -, hstep⟩ := operation_of_step hs
    exact grows_stepOperation hstep
  | worker k =>
    obtain ⟨w, -, hstep⟩ := worker_of_step hs
    exact (shift_of_stepWorker hstep).grows

/-! What is published along a run. -/

theorem publications_of_step (hs : s.step t = some s') (h : s'.reports = s.reports ++ more) :
    s.publications (.step t) = more.map fun p => (t, p) := by
  simp only [publications, hs, h, List.drop_left]

theorem publishes_of_step (hs : s.step t = some s') (h : s'.reports = s.reports ++ more) :
    s.publishes t (.step t) = more := by
  unfold publishes
  rw [publications_of_step hs h, List.filter_map, List.map_map]
  simp [Function.comp_def]

/-- A move publishes reports of its own task only. -/
theorem mover_of_publications {x : Task × Progress} (hx : x ∈ s.publications m) : m = .step x.1 := by
  cases m with
  | input i => cases hx
  | step u =>
    unfold publications at hx
    dsimp only at hx
    split at hx
    · obtain ⟨p, -, rfl⟩ := List.mem_map.mp hx
      rfl
    · cases hx

theorem publishes_of_other (hm : m ≠ .step t) : s.publishes t m = [] := by
  unfold publishes
  refine List.map_eq_nil_iff.mpr (List.filter_eq_nil_iff.mpr ?_)
  intro x hx ht
  rw [mover_of_publications hx, beq_iff_eq.mp ht] at hm
  exact hm rfl

theorem publishedBy_concat (hpast : first.run past = some s) (t : Task) (m : Move) :
    publishedBy first t (past ++ [m]) = publishedBy first t past ++ s.publishes t m := by
  unfold publishedBy publishes
  rw [along_concat publications hpast, List.filter_append, List.map_append]

/-- The feed consists of what the tasks have published, in the order of their moves. -/
theorem feed_of_run (hfirst : first.reports = []) (hrun : first.run past = some s) :
    s.reports = (along publications first past).map Prod.snd := by
  refine run_induction (P := fun past s => s.reports = (along publications first past).map Prod.snd)
    hfirst ?_ hrun
  intro past s m s' hpast h hs
  rw [along_concat publications hpast, List.map_append, ← h]
  cases m with
  | input i =>
    cases hs
    rw [reports_accept]
    exact (List.append_nil _).symm
  | step t =>
    have hstep : s.step t = some s' := hs
    obtain ⟨more, hmore⟩ := grows_of_step hstep
    rw [publications_of_step hstep hmore.symm, List.map_map, ← hmore]
    simp [Function.comp_def]

/-- The receiver publishes nothing along a run. -/
theorem publishedBy_receiver (hrun : first.run past = some s) :
    publishedBy first .receiver past = [] := by
  refine run_induction (P := fun past _ => publishedBy first .receiver past = []) rfl ?_ hrun
  intro past s m s' hpast h hs
  rw [publishedBy_concat hpast, h, List.nil_append]
  by_cases hm : m = .step .receiver
  · subst hm
    have hsame : s'.reports = s.reports ++ [] := by
      rw [List.append_nil]
      exact reports_stepReceiver hs
    exact publishes_of_step hs hsame
  · exact publishes_of_other hm

end Session

end Coap
