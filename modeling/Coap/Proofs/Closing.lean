import Coap.Proofs.ClosingSubscriptions

/-! The end of a connection strands neither an exchange nor a subscription, in whatever order the
receiver's last steps come among those of the operations and workers. -/
namespace Coap.Session

/-- No task is in an exchange, and no operation has a result that it has yet to return. -/
def AtRest (s : Session) : Prop :=
  (∀ t, s.exchangeOf t = none) ∧
    ∀ n o, s.operation? n = some o → ∀ purpose result, o.stage ≠ .concluding purpose result

/-- The tokens of observe operations that have been dropped midway after the subscriptions were
cleared, while there was one under the token. -/
def orphansOf (first : Session) (past : List Move) : List ByteArray := along orphans first past

/-- What holds of a client whose receiver has come to its end, after the run `past`. -/
structure Closed (first : Session) (past : List Move) (s : Session) : Prop where
  /-- There is one error with which the connection has ended. -/
  failed : ∃ e, failuresOf first past = [e]
  /-- An exchange that had passed its check has lost its entry. -/
  lost : ∀ t w, s.passedOf t = some w → w ∉ s.connection.exchanges.pending
  /-- An exchange that has not ended has a step to take, whatever arrives and however late it is,
  except where the network keeps its message waiting. -/
  progress : ∀ t e, s.exchangeOf t = some e → (∀ o, e ≠ .ended o) →
    ((∃ s', s.step t = some s') ↔ ¬ s.HeldBack t e)
  /-- An operation whose message is kept waiting stays there, whatever goes on, until it is stopped
  or messages are let go. -/
  held : ∀ n e moves s', s.exchangeOf (.operation n) = some e → s.HeldBack (.operation n) e →
    (∀ i, .input i ∈ moves → stops n i = false ∧ ∀ held, i ≠ .holdSends held) →
    s.run moves = some s' →
    s'.exchangeOf (.operation n) = some e ∧ s'.HeldBack (.operation n) e
  /-- Whatever goes on, an exchange that has not ended does so within a few steps of its own, unless
  its operation is dropped: a wait with the failure or with what the first answer to its id means,
  any other exchange with an error. -/
  ends : ∀ t e moves s', s.exchangeOf t = some e → (∀ o, e ≠ .ended o) →
    (∀ n, t = .operation n → .input (.abort n) ∉ moves) → s.run moves = some s' →
    (along (endings t) s moves = [] ∧ moves.countP (Move.isStepOf t) < e.bound) ∨
      ∃ o, (along (endings t) s moves).head? = some o ∧
        e.Allows (fun w => answersTo first w past) (failuresOf first past) o
  /-- Entries are only those of exchanges that have yet to look whether the connection is closed. -/
  entries : ∀ w ∈ s.connection.exchanges.pending, ∃ t r, s.exchangeOf t = some (.registered r w)
  /-- With every task at rest, both tables are empty, unless an observe operation was dropped midway
  and left its subscription behind. -/
  empty : s.AtRest → s.connection.exchanges.pending = [] ∧
    (orphansOf first past = [] → s.subscriptions.entries = [])

variable {first s s' : Session} {past moves : List Move}

/-- The end lasts along every run, and nothing is sent. -/
theorem Ended.later (h : Ended first past s) (hs : s.run moves = some s') :
    Ended first (past ++ moves) s' ∧
      s'.connection.wire.pipe.toPeer = s.connection.wire.pipe.toPeer := by
  induction moves generalizing past s with
  | nil =>
    cases hs
    rw [List.append_nil]
    exact ⟨h, rfl⟩
  | cons m rest ih =>
    obtain ⟨s₁, hs₁, hrest⟩ := Option.bind_eq_some_iff.mp hs
    obtain ⟨hended, hsent⟩ := ih (h.move hs₁) hrest
    rw [List.append_assoc] at hended
    exact ⟨hended, hsent.trans (h.toPeer_eq hs₁)⟩

theorem Ended.closed_of_tended (h : Ended first past s)
    (htended : Tended (orphansOf first past) s)
    (hfresh : ∀ n, s.nextSerial ≤ n → s.Fresh n) : Closed first past s where
  failed := by
    have hphase := h.kept.phase
    unfold Phase at hphase
    rw [h.receiver] at hphase
    exact hphase.2
  lost := h.drained
  progress := fun _ _ he hgoing => h.progress he hgoing
  held := by
    intro n e moves s' he hback hmoves hs
    have hn : n < s.nextSerial := by
      apply Nat.lt_of_not_le
      intro hle
      obtain ⟨o, purpose, transfer, ho, -⟩ := operation_of_exchangeOf he
      rw [(hfresh n hle).operation] at ho
      cases ho
    exact h.heldBack_of_run hn he hback hmoves hs
  ends := fun _ _ _ _ he hgoing hkeep hs => h.ends he hgoing hkeep hs
  entries := by
    intro w hw
    obtain ⟨⟨live, hlive, hmem⟩, -⟩ := h.kept.seated
    obtain ⟨t, ht⟩ := (hmem w).mp (hlive.pending_live w hw)
    obtain ⟨e, he, hwaiter⟩ := Option.bind_eq_some_iff.mp ht
    have hlost (hpassed : e.passed? = some w) : False := by
      refine h.drained t w ?_ hw
      unfold passedOf
      rw [he, Option.bind_some, hpassed]
    -- Of the exchanges with a waiter, only those before their check are left.
    cases e with
    | registered r v =>
      cases hwaiter
      exact ⟨t, r, he⟩
    | sending r v => exact (hlost hwaiter).elim
    | waiting v deadline => exact (hlost hwaiter).elim
    | _ => cases hwaiter
  empty := by
    rintro ⟨hidle, hreturned⟩
    constructor
    · obtain ⟨⟨live, hlive, hmem⟩, -⟩ := h.kept.seated
      apply List.eq_nil_iff_forall_not_mem.mpr
      intro w hw
      obtain ⟨t, ht⟩ := (hmem w).mp (hlive.pending_live w hw)
      unfold waiterOf at ht
      rw [hidle t] at ht
      cases ht
    · intro hnone
      apply List.eq_nil_iff_forall_not_mem.mpr
      intro e he
      unfold Tended at htended
      rw [h.receiver, hnone] at htended
      -- A subscription that is left would have an operation that is not at rest.
      rcases htended e.token (Subscriptions.isActive_of_mem he) with horphan | ⟨n, o, ho, hu⟩
      · cases horphan
      · rcases hu.busy with hbusy | ⟨purpose, result, hstage⟩
        · rw [← exchangeOf_operation ho, hidle] at hbusy
          cases hbusy
        · exact hreturned n o ho purpose result hstage

/-- What holds of every run of a client with its end of the connection. -/
theorem ended_of_run {options : ConnectOptions} {pipe : Pipe} {messageIds : MessageIds}
    {tokens : Tokens} {timer : Timer}
    (hrun : (start options pipe messageIds tokens timer).run past = some s)
    (hended : s.receiver = .ended) : Ended (start options pipe messageIds tokens timer) past s ∧
      Tended (orphansOf (start options pipe messageIds tokens timer) past) s := by
  let first := start options pipe messageIds tokens timer
  have hdrained : s.Drained := by
    have hall : ∀ past s, first.run past = some s → Kept first past s ∧ s.Drained := by
      intro past s hs
      have hstart : Kept first [] first ∧ first.Drained := ⟨kept_run rfl, trivial⟩
      refine run_induction (P := fun past s => Kept first past s ∧ s.Drained) hstart ?_ hs
      intro past s m s' hpast h hmove
      exact ⟨h.1.move hpast hmove, h.2.move h.1.seated h.1.phase hmove⟩
    exact (hall past s hrun).2
  unfold Drained at hdrained
  rw [hended] at hdrained
  refine ⟨⟨hrun, kept_run hrun, hended, hdrained.1, hdrained.2⟩, ?_⟩
  have hfirst : Tended (orphansOf first []) first := trivial
  refine run_induction (P := fun past s => Tended (orphansOf first past) s) hfirst ?_ hrun
  intro past s m s' hpast h hmove
  unfold orphansOf
  rw [along_concat orphans hpast m]
  exact h.move (kept_run hpast).phase hmove

/-- Once the receiver has come to its end, and in every later state, all exchanges come to an end of
their own, except those whose message the network keeps waiting, no subscription is stranded, and
nothing is sent any more. -/
theorem closing_strands_nothing {options : ConnectOptions} {pipe : Pipe} {messageIds : MessageIds}
    {tokens : Tokens} {timer : Timer} {past : List Move} {s : Session}
    (hrun : (start options pipe messageIds tokens timer).run past = some s)
    (hended : s.receiver = .ended) :
    Closed (start options pipe messageIds tokens timer) past s ∧
    ∀ moves s', s.run moves = some s' → s'.receiver = .ended ∧
      s'.connection.wire.pipe.toPeer = s.connection.wire.pipe.toPeer ∧
      Closed (start options pipe messageIds tokens timer) (past ++ moves) s' := by
  have hclosed {past : List Move} {s : Session}
      (hrun : (start options pipe messageIds tokens timer).run past = some s)
      (hended : s.receiver = .ended) :
      Closed (start options pipe messageIds tokens timer) past s := by
    obtain ⟨h, htended⟩ := ended_of_run hrun hended
    have hfresh := (fresh_run (fun n _ => fresh_start options pipe messageIds tokens timer n) hrun).1
    exact h.closed_of_tended htended hfresh
  refine ⟨hclosed hrun hended, ?_⟩
  intro moves s' hs
  obtain ⟨hlater, hsent⟩ := (ended_of_run hrun hended).1.later hs
  exact ⟨hlater.receiver, hsent, hclosed hlater.run hlater.receiver⟩

/-- The client of the run below. -/
def closingClient : Session :=
  let options : ConnectOptions :=
    { host := "", port := 0, timeout := 1, blockSize := .s16, blockTransfer := false
      credentials := none }
  start options {} { next := 0 } { base := 0 }

/-- The server goes while one request waits for its response and another one has been registered;
an observation is enrolled after the subscriptions have been cleared. -/
def closingMoves : List Move :=
  let request : Request := { message := { type := .confirmable, code := .request .get } }
  let steps (n k : Nat) : List Move := List.replicate k (.step (.operation n))
  [.input (.call (.request request) false), .input (.call (.request request) false),
    .input (.call (.observe request fun _ => .handled) false)] ++
    steps 0 5 ++ steps 1 3 ++ steps 2 1 ++ [.input .dropPeer] ++ List.replicate 7 (.step .receiver) ++
    steps 2 1 ++ [.step .receiver]

/-- What is left of the three operations after the receiver's end. -/
def leftMoves : List Move :=
  let steps (n k : Nat) : List Move := List.replicate k (.step (.operation n))
  steps 0 3 ++ steps 1 3 ++ steps 2 5 ++ [.step (.worker 3)]

/-- Whether no operation and no worker is left. -/
def isIdle (s : Session) : Bool := s.operations.isEmpty && s.workers.isEmpty

theorem atRest_of_isIdle {s : Session} (h : s.isIdle = true) : s.AtRest := by
  unfold isIdle at h
  rw [Bool.and_eq_true, List.isEmpty_iff, List.isEmpty_iff] at h
  obtain ⟨ho, hw⟩ := h
  have hoperation (n : Nat) : s.operation? n = none := by
    unfold operation?
    rw [ho]
    rfl
  have hworker (n : Nat) : s.worker? n = none := by
    unfold worker?
    rw [hw]
    rfl
  refine ⟨?_, ?_⟩
  · intro t
    cases t with
    | receiver => rfl
    | operation n =>
      change (s.operation? n).bind Operation.exchange? = none
      rw [hoperation, Option.bind_none]
    | worker n =>
      change (s.worker? n).bind Worker.exchange? = none
      rw [hworker, Option.bind_none]
  · intro n o ho
    rw [hoperation] at ho
    cases ho

def Receiver.isEnded : Receiver → Bool
  | .ended => true
  | _ => false

theorem Receiver.eq_ended {r : Receiver} (h : Receiver.isEnded r = true) : r = .ended := by
  cases r with
  | ended => rfl
  | _ => cases h

/-- At the receiver's end a subscription is left, and nothing after the last steps of the
operations. -/
theorem closing_leaves_nothing : ∃ s s', closingClient.run closingMoves = some s ∧
    s.subscriptions.size = 1 ∧ Closed closingClient closingMoves s ∧ s.run leftMoves = some s' ∧
    s'.connection.exchanges.pending = [] ∧ s'.subscriptions.entries = [] := by
  have hend : (closingClient.run closingMoves).map (fun s =>
      (Receiver.isEnded s.receiver, s.subscriptions.size)) = some (true, 1) := rfl
  obtain ⟨s, hs, hfacts⟩ := Option.map_eq_some_iff.mp hend
  have hended : s.receiver = .ended := Receiver.eq_ended (congrArg Prod.fst hfacts)
  have hrest : ((closingClient.run closingMoves).bind fun s => s.run leftMoves).map isIdle =
      some true := rfl
  rw [hs, Option.bind_some] at hrest
  obtain ⟨s', hs', hidle⟩ := Option.map_eq_some_iff.mp hrest
  obtain ⟨hclosed, hlater⟩ := closing_strands_nothing hs hended
  obtain ⟨-, -, hclosed'⟩ := hlater leftMoves s' hs'
  obtain ⟨hpending, hentries⟩ := hclosed'.empty (atRest_of_isIdle hidle)
  exact ⟨s, s', hs, congrArg Prod.snd hfacts, hclosed, hs', hpending, hentries rfl⟩

/-- The client is shut down while the network keeps the message of a request waiting. -/
def strandingMoves : List Move :=
  let request : Request := { message := { type := .confirmable, code := .request .get } }
  [.input (.holdSends true), .input (.call (.request request) false)] ++
    List.replicate 4 (.step (.operation 0)) ++
    [.input (.call .shutdown false), .step (.operation 1)] ++ List.replicate 7 (.step .receiver)

/-- An exchange that has found the connection open, and whose message the network keeps waiting, does
not end by itself after the receiver's end. -/
theorem held_exchange_is_stranded :
    ¬ ∀ (options : ConnectOptions) (pipe : Pipe) (messageIds : MessageIds) (tokens : Tokens)
      (past : List Move) (s : Session) (t : Task) (w : Waiter),
      (start options pipe messageIds tokens).run past = some s → s.receiver = .ended →
      s.passedOf t = some w → (∀ o, s.exchangeOf t ≠ some (.ended o)) →
      ∃ later s' o, (∀ i, .input i ∉ later) ∧ s.run later = some s' ∧
        s'.exchangeOf t = some (.ended o) := by
  intro h
  have hend : (closingClient.run strandingMoves).map (fun s => (Receiver.isEnded s.receiver,
      s.passedOf (.operation 0), s.nextSerial, (s.step (.operation 0)).isSome)) =
      some (true, some ⟨0, 0⟩, 2, false) := rfl
  obtain ⟨s, hs, hfacts⟩ := Option.map_eq_some_iff.mp hend
  simp only [Prod.mk.injEq] at hfacts
  obtain ⟨hflag, hpassed, hserial, hstuck⟩ := hfacts
  have hended := Receiver.eq_ended hflag
  have hlasting := (ended_of_run hs hended).1
  obtain ⟨e, he, hwaiter⟩ := Option.bind_eq_some_iff.mp hpassed
  have hgoing : ∀ o, e ≠ .ended o := by
    rintro o rfl
    cases hwaiter
  -- It has no step, so its message is kept waiting, and nothing but an input changes that.
  have hback : s.HeldBack (.operation 0) e := by
    apply Classical.not_not.mp
    intro hfree
    have hstep := Option.isSome_iff_exists.mpr ((hlasting.progress he hgoing).mpr hfree)
    rw [hstuck] at hstep
    cases hstep
  have hunended : ∀ o, s.exchangeOf (.operation 0) ≠ some (.ended o) := by
    intro o ho
    rw [he] at ho
    exact hgoing o (Option.some.inj ho)
  obtain ⟨later, s', o, hquiet, hlater, ho⟩ := h _ _ _ _ strandingMoves s _ _ hs hended hpassed hunended
  have hlate := hlasting.heldBack_of_run (by omega) he hback (fun i hi => absurd hi (hquiet i)) hlater
  rw [hlate.1] at ho
  exact hgoing o (Option.some.inj ho)

end Coap.Session
