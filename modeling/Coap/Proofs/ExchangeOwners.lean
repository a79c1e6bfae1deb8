import Coap.Proofs.ClosingSubscriptions
import Coap.Proofs.ResponseCorrelation
import Coap.Proofs.SessionLog

/-! No entry of the table of exchanges is left behind: in every run each entry is that of the exchange
that its task is in, and where nothing can go on every exchange under way has its entry, unless it
has its result already and the network still holds its request back. -/
namespace Coap

/-- The message that an event says a task has sent. -/
def Event.sentBy? (t : Task) : Event → Option Message
  | .sent t' m => if t' = t then some m else none
  | _ => none

namespace Session

/-- The messages that a task has sent so far. -/
def sentBy (s : Session) (t : Task) : List Message := s.log.toList.filterMap (Event.sentBy? t)

/-- The request of the exchange that a task is in, once the exchange has been registered: it is about
to be sent, or it is the latest message that the task has sent. -/
def requestOf (s : Session) (t : Task) : Option Message :=
  match s.exchangeOf t with
  | some (.registered r _) | some (.sending r _) => some r
  | some (.waiting _ _) => (s.sentBy t).getLast?
  | _ => none

/-- The waiters that a move registers for a task. -/
def creates (t : Task) (s : Session) (m : Move) : List Waiter :=
  if m.isStepOf t then s.registers m else []

/-- The waiters that a task has registered along a run. -/
def createdBy (first : Session) (t : Task) (past : List Move) : List Waiter :=
  along (creates t) first past

/-- After the run `past`: the table holds what the exchanges under way need, and nothing else. -/
structure Tidy (first : Session) (past : List Move) (s : Session) : Prop where
  /-- The ids of the entries are pairwise different. -/
  ids : s.connection.exchanges.ids.Nodup
  /-- Every entry has been made by one task, and is that of the exchange which this task is in. -/
  owned : ∀ w ∈ s.connection.exchanges.pending, ∃ t, s.waiterOf t = some w ∧
    w ∈ createdBy first t past ∧ ∀ t', w ∈ createdBy first t' past → t' = t
  /-- Of all entries that a task has ever made at most one is there. -/
  single : ∀ t, ∀ v ∈ createdBy first t past, ∀ w ∈ createdBy first t past,
    v ∈ s.connection.exchanges.pending → w ∈ s.connection.exchanges.pending → v = w
  /-- An exchange is registered under the id of its request. -/
  numbered : ∀ t w, s.waiterOf t = some w → ∃ r, s.requestOf t = some r ∧ r.id = w.id
  /-- Where no task can go on, every exchange under way has its entry; or its request is held back,
  and its result is there: the first answer to its id, or the failure of the connection. -/
  quiescent : (∀ t, s.step t = none) → ∀ t e, s.exchangeOf t = some e →
    ∃ w, e.waiter? = some w ∧ (w ∈ s.connection.exchanges.pending ∨ ∃ r result,
      e = .sending r w ∧ s.connection.wire.held = true ∧
      s.connection.exchanges.Decided w result ∧
      ((∃ a, (answersTo first w past).head? = some a ∧ result = .ok a) ∨
        ∃ err, failuresOf first past = [err] ∧ result = .error err))
  /-- Once an operation or a worker is in no exchange, as after its end, nothing it made is left. -/
  left : ∀ t, s.exchangeOf t = none → ∀ w ∈ createdBy first t past,
    w ∉ s.connection.exchanges.pending
  /-- The move with which an operation ends, in whatever way, leaves none of its entries, and all
  others as they are. -/
  ends : ∀ n m s', s.move m = some s' → (s.operation? n).isSome = true → s'.operation? n = none →
    (∀ w ∈ createdBy first (.operation n) past, w ∉ s'.connection.exchanges.pending) ∧
    ∀ t, t ≠ .operation n → s'.exchangeOf t = s.exchangeOf t ∧ ∀ w, s.waiterOf t = some w →
      Exchanges.Alike w s.connection.exchanges s'.connection.exchanges

variable {first s s' : Session} {past : List Move} {m : Move} {t : Task} {e : Exchange} {w : Waiter}

/-! The id of a request. -/

theorem sentBy_of_other (hs : s.move m = some s') (hm : m ≠ .step t) : s'.sentBy t = s.sentBy t := by
  refine filterMap_log_eq hs ?_
  intro event hby
  cases event with
  | sent t' a =>
    have hne : t' ≠ t := by
      rintro rfl
      exact hm hby
    exact if_neg hne
  | _ => rfl

theorem requestOf_of_exchangeOf (he : s'.exchangeOf t = s.exchangeOf t)
    (hsent : s'.sentBy t = s.sentBy t) : s'.requestOf t = s.requestOf t := by
  unfold requestOf
  rw [he, hsent]

/-- Every exchange is registered under the id of its request. -/
def Numbered (s : Session) : Prop :=
  ∀ t w, s.waiterOf t = some w → ∃ r, s.requestOf t = some r ∧ r.id = w.id

/-- A step of an exchange gives its request an id, or sends the request with the id it has. -/
theorem numbered_step (h : s.Numbered) (he : s.exchangeOf t = some e) (hgoing : ∀ o, e ≠ .ended o)
    (hs : s.step t = some s') (hw : s'.waiterOf t = some w) :
    ∃ r, s'.requestOf t = some r ∧ r.id = w.id := by
  obtain ⟨c, hstep, hafter, hlog⟩ := log_of_exchange he hgoing hs
  rw [waiterOf_eq hafter] at hw
  have hbefore := h t
  rw [waiterOf_eq he] at hbefore
  unfold requestOf at hbefore ⊢
  rw [hafter]
  rw [he] at hbefore
  cases Connection.advance_of_step hstep with
  | registered register =>
    cases hw
    exact ⟨_, rfl, rfl⟩
  | passed hopen => exact hbefore w hw
  | @sent r v wire send =>
    obtain ⟨r', hr', hid⟩ := hbefore w hw
    cases hr'
    have hlast : s'.sentBy t = s.sentBy t ++ [r] := by
      unfold sentBy
      rw [hlog, Array.toList_push, List.filterMap_append]
      simp [Event.sentBy?]
    refine ⟨r, ?_, hid⟩
    rw [hlast]
    exact List.getLast?_concat
  | refused | checked | exhausted | shut _ | stopped _ | unsent _ | fetched _ => cases hw

theorem Numbered.move (h : s.Numbered) (hs : s.move m = some s') : s'.Numbered := by
  intro t w hw
  obtain ⟨e', he', hwaiter⟩ := Option.bind_eq_some_iff.mp hw
  have hgone (hnew : ∃ r, e' = .begun r) : ∃ r, s'.requestOf t = some r ∧ r.id = w.id := by
    obtain ⟨r, rfl⟩ := hnew
    cases hwaiter
  by_cases hm : m = .step t
  · subst hm
    have hstep : s.step t = some s' := hs
    cases effect_of_move hs with
    | received => cases he'
    | turned own only before connection after => exact hgone (after e' he')
    | @exchanged _ e c only before step connection after =>
      by_cases hended : ∃ o, e = .ended o
      · obtain ⟨o, rfl⟩ := hended
        cases step
      · exact numbered_step h before (fun o ho => hended ⟨o, ho⟩) hstep hw
  · cases passage_of_move hs t with
    | kept same =>
      rw [waiterOf_of_exchangeOf same] at hw
      rw [requestOf_of_exchangeOf same (sentBy_of_other hs hm)]
      exact h t w hw
    | advanced mover _ _ _ _ => exact absurd mover hm
    | turned mover _ _ => exact absurd mover hm
    | dropped _ _ _ gone =>
      rw [gone] at he'
      cases he'

/-! The entries that a task has made. -/

/-- Waiters are put down to the tasks that have registered them: those that still have an entry are
the present ones of their tasks. -/
structure Credited (created : Task → List Waiter) (s : Session) : Prop where
  ticket_lt : ∀ t, ∀ w ∈ created t, w.ticket < s.connection.exchanges.nextTicket
  present : ∀ t, ∀ w ∈ created t, w ∈ s.connection.exchanges.pending → s.waiterOf t = some w
  current : ∀ t w, s.waiterOf t = some w → w ∈ created t

variable {created : Task → List Waiter}

/-- Only a step of its own gives a task a waiter. -/
theorem mover_of_register (hs : s.move m = some s') (hfree : s.waiterOf t = none)
    (hown : s'.waiterOf t = some w) : m = .step t := by
  cases passage_of_move hs t with
  | kept same =>
    rw [waiterOf_of_exchangeOf same, hfree] at hown
    cases hown
  | advanced mover _ _ _ _ => exact mover
  | turned mover _ _ => exact mover
  | dropped _ _ _ gone =>
    unfold waiterOf at hown
    rw [gone] at hown
    cases hown

/-- A move that registers nothing leaves some entries, each with its task. -/
theorem Credited.of_subset (h : Credited created s) (hs : s.move m = some s')
    (hpending : ∀ v ∈ s'.connection.exchanges.pending, v ∈ s.connection.exchanges.pending)
    (hstays : ∀ t, ∀ v ∈ s'.connection.exchanges.pending, s.waiterOf t = some v →
      s'.waiterOf t = some v)
    (hold : ∀ t v, s'.waiterOf t = some v → s.waiterOf t = some v) :
    Credited (fun t => created t ++ creates t s m) s' := by
  have hnone (t : Task) : created t ++ creates t s m = created t := by
    unfold creates
    rw [registers_eq_nil hs hpending, ite_self, List.append_nil]
  have hticket := nextTicket_le (tableMove_of_move hs)
  constructor
  · intro t w hw
    rw [hnone] at hw
    exact Nat.lt_of_lt_of_le (h.ticket_lt t w hw) hticket
  · intro t w hw hp
    rw [hnone] at hw
    exact hstays t w hp (h.present t w hw (hpending w hp))
  · intro t w hw
    rw [hnone]
    exact h.current t w (hold t w hw)

theorem Credited.register (h : Credited created s) (hs : s.move m = some s')
    (hfree : s.waiterOf t = none)
    (hregister : s.connection.exchanges.register w.id = .ok (w, s'.connection.exchanges))
    (hown : s'.waiterOf t = some w) (hothers : ∀ t', t' ≠ t → s'.waiterOf t' = s.waiterOf t') :
    Credited (fun t => created t ++ creates t s m) s' := by
  obtain rfl := mover_of_register hs hfree hown
  obtain ⟨hticket, hnext, -⟩ := Exchanges.register_eq_ok hregister
  obtain ⟨-, hpending⟩ := Exchanges.pending_register hregister
  have hself : creates t s (.step t) = [w] := by
    unfold creates
    rw [if_pos (Move.isStepOf_step t), registers_of_register hs hregister]
  have hother (t' : Task) (ht : t' ≠ t) : creates t' s (.step t) = [] := by
    unfold creates
    exact if_neg fun hstep => ht (Move.step.inj (Move.eq_of_isStepOf hstep)).symm
  -- What a task has made is old, or it is the new waiter and the task is the one that moves.
  have hcase (t' : Task) (v : Waiter) (hv : v ∈ created t' ++ creates t' s (.step t)) :
      v ∈ created t' ∨ v = w ∧ t' = t := by
    rcases List.mem_append.mp hv with hv | hv
    · exact .inl hv
    · by_cases ht : t' = t
      · subst ht
        rw [hself] at hv
        exact .inr ⟨List.mem_singleton.mp hv, rfl⟩
      · rw [hother t' ht] at hv
        cases hv
  constructor
  · intro t' v hv
    rcases hcase t' v hv with hv | ⟨rfl, -⟩
    · have hlt := h.ticket_lt t' v hv
      omega
    · omega
  · intro t' v hv hp
    rcases hcase t' v hv with hold | ⟨rfl, rfl⟩
    · have hlt := h.ticket_lt t' v hold
      have hne : v ≠ w := by
        rintro rfl
        omega
      rw [hpending] at hp
      have hp' : v ∈ s.connection.exchanges.pending :=
        (List.mem_append.mp hp).resolve_right fun hv => hne (List.mem_singleton.mp hv)
      have hbefore := h.present t' v hold hp'
      have ht : t' ≠ t := by
        rintro rfl
        rw [hfree] at hbefore
        cases hbefore
      exact (hothers t' ht).trans hbefore
    · exact hown
  · intro t' v hv
    by_cases ht : t' = t
    · subst ht
      rw [hown] at hv
      cases hv
      rw [hself]
      exact List.mem_append_right _ (List.mem_singleton_self _)
    · exact List.mem_append_left _ (h.current t' v ((hothers t' ht).symm.trans hv))

theorem Credited.move (h : Credited created s) (hs : s.move m = some s') :
    Credited (fun t => created t ++ creates t s m) s' := by
  have hsame {w : Waiter} {t : Task} (hw : ∀ t, s'.waiterOf t = s.waiterOf t) :
      (s.waiterOf t = some w → s'.waiterOf t = some w) ∧
        (s'.waiterOf t = some w → s.waiterOf t = some w) :=
    ⟨fun h => (hw t).trans h, fun h => (hw t).symm.trans h⟩
  cases tableMove_of_move hs with
  | kept _ exchanges waiters =>
    refine h.of_subset hs ?_ (fun t v _ => (hsame waiters).1) fun t v => (hsame waiters).2
    intro v hv
    rwa [exchanges] at hv
  | answered a _ _ _ exchanges waiters =>
    refine h.of_subset hs ?_ (fun t v _ => (hsame waiters).1) fun t v => (hsame waiters).2
    intro v hv
    rw [exchanges] at hv
    exact pending_resolve _ _ _ hv
  | failed e id ids _ _ _ exchanges waiters =>
    refine h.of_subset hs ?_ (fun t v _ => (hsame waiters).1) fun t v => (hsame waiters).2
    intro v hv
    rw [exchanges] at hv
    exact pending_resolve _ _ _ hv
  | registered t w _ free register own others => exact h.register hs free register own others
  | released task w _ own exchanges gone others =>
    have hrelease (v : Waiter) (hv : v ∈ s'.connection.exchanges.pending) :
        v ∈ s.connection.exchanges.pending ∧ v ≠ w := by
      rw [exchanges] at hv
      exact (Exchanges.pending_release _ w v).mp hv
    refine h.of_subset hs (fun v hv => (hrelease v hv).1) ?_ ?_
    · intro t v hv hbefore
      -- The one entry that its task has given up is no longer there.
      have ht : t ≠ task := by
        rintro rfl
        rw [own] at hbefore
        cases hbefore
        exact (hrelease _ hv).2 rfl
      exact (others t ht).trans hbefore
    · intro t v hv
      have ht : t ≠ task := by
        rintro rfl
        rw [gone] at hv
        cases hv
      exact (others t ht).symm.trans hv

/-! Where nothing can go on. -/

theorem step_of_ended {o : Outcome} (he : s.exchangeOf t = some (.ended o)) :
    ∃ s', s.step t = some s' := by
  cases t with
  | receiver => cases he
  | operation n =>
    obtain ⟨p, purpose, transfer, hp, hstage⟩ := operation_of_exchangeOf he
    rw [step_of_operation? hp]
    unfold stepOperation
    rw [hstage]
    exact ⟨_, rfl⟩
  | worker n =>
    obtain ⟨v, delivery, hv, hcurrent⟩ := worker_of_exchangeOf he
    rw [step_of_worker? hv]
    unfold stepWorker
    rw [hcurrent]
    exact ⟨_, rfl⟩

/-- An exchange that cannot go on waits for its result, or for the network to take its request. -/
theorem blocked_cases (he : s.exchangeOf t = some e) (hblocked : s.step t = none) :
    (∃ w deadline, e = .waiting w deadline ∧ ∀ r, ¬ s.connection.exchanges.Decided w r) ∨
    ∃ r w, e = .sending r w ∧ s.connection.wire.held = true := by
  have hgoing : ∀ o, e ≠ .ended o := by
    rintro o rfl
    obtain ⟨s', hs'⟩ := step_of_ended he
    rw [hblocked] at hs'
    cases hs'
  have hc : s.connection.step (s.isCancelled t) e = none := by
    cases hc : s.connection.step (s.isCancelled t) e with
    | none => rfl
    | some c =>
      obtain ⟨s', hs'⟩ := step_of_exchangeOf he hgoing hc
      rw [hblocked] at hs'
      cases hs'
  unfold Connection.step at hc
  cases e with
  | begun r =>
    dsimp only at hc
    split at hc
    · cases hc
    · split at hc <;> cases hc
  | checked r =>
    dsimp only at hc
    split at hc <;> cases hc
  | registered r w =>
    dsimp only at hc
    split at hc <;> cases hc
  | ended o => exact absurd rfl (hgoing o)
  | sending r w =>
    dsimp only at hc
    split at hc
    · cases hc
    · split at hc
      · rename_i hsend
        refine .inr ⟨r, w, rfl, ?_⟩
        unfold Wire.send at hsend
        split at hsend
        · assumption
        · split at hsend <;> cases hsend
      · cases hc
      · cases hc
  | waiting w deadline =>
    refine .inl ⟨w, deadline, rfl, ?_⟩
    intro r hd
    dsimp only at hc
    rw [Exchanges.fetch_of_decided hd] at hc
    cases hc

theorem quiescent_of_kept (hkept : Kept first past s) (he : s.exchangeOf t = some e)
    (hblocked : s.step t = none) : ∃ w, e.waiter? = some w ∧
      (w ∈ s.connection.exchanges.pending ∨ ∃ r result, e = .sending r w ∧
        s.connection.wire.held = true ∧ s.connection.exchanges.Decided w result ∧
        ((∃ a, (answersTo first w past).head? = some a ∧ result = .ok a) ∨
          ∃ err, failuresOf first past = [err] ∧ result = .error err)) := by
  rcases blocked_cases he hblocked with ⟨w, deadline, rfl, hnot⟩ | ⟨r, w, rfl, hheld⟩
  · refine ⟨w, rfl, .inl ?_⟩
    rcases hkept.ledger.accounted t w (waiterOf_eq he) with ⟨hu, -⟩ | ⟨a, hd, -⟩ | ⟨err, hd, -⟩
    · exact hu.1
    · exact absurd hd (hnot _)
    · exact absurd hd (hnot _)
  · refine ⟨w, rfl, ?_⟩
    rcases hkept.ledger.accounted t w (waiterOf_eq he) with
      ⟨hu, -⟩ | ⟨a, hd, hfirst⟩ | ⟨err, hd, -, hfailed⟩
    · exact .inl hu.1
    · exact .inr ⟨r, _, rfl, hheld, hd, .inl ⟨a, hfirst, rfl⟩⟩
    · exact .inr ⟨r, _, rfl, hheld, hd, .inr ⟨err, hfailed, rfl⟩⟩

/-! The end of an operation. -/

/-- An operation ends by a step of its own, or it is dropped. -/
theorem mover_of_end {n : Nat} (hs : s.move m = some s') (hthere : (s.operation? n).isSome = true)
    (hgone : s'.operation? n = none) : m = .step (.operation n) ∨ m = .input (.abort n) := by
  obtain ⟨o, ho⟩ := Option.isSome_iff_exists.mp hthere
  by_contra hm
  rw [not_or] at hm
  obtain ⟨q, hq, -⟩ := operation?_of_other ho hm.1 hm.2 hs
  rw [hgone] at hq
  cases hq

theorem exchangeOf_of_gone {n : Nat} (h : s.operation? n = none) :
    s.exchangeOf (.operation n) = none := by
  change (s.operation? n).bind Operation.exchange? = none
  rw [h, Option.bind_none]

/-- A task that is in no exchange has no entry left of those it has made. -/
theorem Credited.left (h : Credited created s) (ht : s.exchangeOf t = none) (hw : w ∈ created t) :
    w ∉ s.connection.exchanges.pending := by
  intro hp
  have hwaiter := h.present t w hw hp
  unfold waiterOf at hwaiter
  rw [ht] at hwaiter
  cases hwaiter

theorem credited_run {options : ConnectOptions} {pipe : Pipe} {messageIds : MessageIds}
    {tokens : Tokens} {timer : Timer}
    (hrun : (start options pipe messageIds tokens timer).run past = some s) :
    s.Numbered ∧
      Credited (fun t => createdBy (start options pipe messageIds tokens timer) t past) s := by
  let first := start options pipe messageIds tokens timer
  have hnone (t : Task) (w : Waiter) : first.waiterOf t ≠ some w := by
    intro hw
    cases t <;> cases hw
  have hstart : first.Numbered ∧ Credited (fun t => createdBy first t []) first := by
    refine ⟨fun t w hw => absurd hw (hnone t w), ?_, ?_, fun t w hw => absurd hw (hnone t w)⟩
    · intro t w hw
      cases hw
    · intro t w hw
      cases hw
  refine run_induction (P := fun past s => s.Numbered ∧
    Credited (fun t => createdBy first t past) s) hstart ?_ hrun
  intro past s m s' hpast h hs
  refine ⟨h.1.move hs, ?_⟩
  have halong (t : Task) :
      createdBy first t (past ++ [m]) = createdBy first t past ++ creates t s m :=
    along_concat (creates t) hpast m
  simp only [halong]
  exact h.2.move hs

/-- In every run of a client no exchange is leaked. -/
theorem table_is_tidy {options : ConnectOptions} {pipe : Pipe} {messageIds : MessageIds}
    {tokens : Tokens} {timer : Timer} {past : List Move} {s : Session}
    (hrun : (start options pipe messageIds tokens timer).run past = some s) :
    Tidy (start options pipe messageIds tokens timer) past s := by
  let first := start options pipe messageIds tokens timer
  have hkept : Kept first past s := kept_run hrun
  obtain ⟨hnumbered, hcredited⟩ := credited_run hrun
  obtain ⟨⟨live, hlive, hmem⟩, hsingle⟩ := hkept.seated
  refine ⟨hlive.ids, ?_, ?_, hnumbered, ?_, fun t ht w hw => hcredited.left ht hw, ?_⟩
  · intro w hw
    obtain ⟨t, ht⟩ := (hmem w).mp (hlive.pending_live w hw)
    refine ⟨t, ht, hcredited.current t w ht, ?_⟩
    intro t' ht'
    exact hsingle t' t w (hcredited.present t' w ht' hw) ht
  · intro t v hv w hw hvp hwp
    have hboth := (hcredited.present t v hv hvp).symm.trans (hcredited.present t w hw hwp)
    exact Option.some.inj hboth
  · intro hquiet t e he
    exact quiescent_of_kept hkept he (hquiet t)
  · intro n m s' hs hthere hgone
    have hrun' : first.run (past ++ [m]) = some s' := by
      rw [run_concat, hrun]
      exact hs
    constructor
    · intro w hw
      have hw' : w ∈ createdBy first (.operation n) (past ++ [m]) := by
        unfold createdBy
        rw [along_concat _ hrun m]
        exact List.mem_append_left _ hw
      exact (credited_run hrun').2.left (exchangeOf_of_gone hgone) hw'
    · intro t ht
      -- Neither way of ending is a move of another task.
      have hm : m ≠ .step t ∧ m ≠ .step .receiver ∧ ∀ k, t = .operation k → m ≠ .input (.abort k) := by
        rcases mover_of_end hs hthere hgone with rfl | rfl
        · exact ⟨fun h => ht (Move.step.inj h).symm, nofun, fun _ _ => nofun⟩
        · refine ⟨nofun, nofun, ?_⟩
          rintro k rfl h
          cases h
          exact ht rfl
      obtain ⟨hsame, halike⟩ := apart_of_move hkept hs hm.1 hm.2.2
      exact ⟨hsame, halike hm.2.1⟩

/-- The client of the runs below. -/
def tidyClient : Session :=
  let options : ConnectOptions :=
    { host := "", port := 0, timeout := 1, blockSize := .s16, blockTransfer := false
      credentials := none }
  start options {} { next := 0 } { base := 0 }

/-- A plain request is called. -/
def tidyCall : Move :=
  .input (.call (.request { message := { type := .confirmable, code := .request .get } }) false)

/-- Three requests side by side: one is answered, one is dropped while it waits, and one waits on. -/
def tidyMoves : List Move :=
  let steps (n k : Nat) : List Move := List.replicate k (.step (.operation n))
  [tidyCall, tidyCall, tidyCall] ++ steps 0 5 ++ steps 1 5 ++ steps 2 5 ++
    [.input (.message { type := .acknowledgement, code := .response .content, id := 0 }),
      .step .receiver] ++ steps 0 3 ++ [.input (.abort 1)]

/-- Of the three exchanges the one that is still under way has its entry. -/
theorem tidy_keeps_one_entry : ∃ s, tidyClient.run tidyMoves = some s ∧ Tidy tidyClient tidyMoves s ∧
    (createdBy tidyClient (.operation 1) tidyMoves).map Waiter.id = [1] ∧
    s.connection.exchanges.ids = [2] := by
  have hends : (tidyClient.run tidyMoves).map (fun s => s.connection.exchanges.ids) = some [2] := rfl
  obtain ⟨s, hs, hids⟩ := Option.map_eq_some_iff.mp hends
  exact ⟨s, hs, table_is_tidy hs, rfl, hids⟩

/-- Whether no task can take a step. -/
def isQuiescent (s : Session) : Bool :=
  s.stepReceiver.isNone && s.operations.all (fun o => (s.stepOperation o).isNone) &&
    s.workers.all fun w => (s.stepWorker w).isNone

theorem step_of_isQuiescent (h : s.isQuiescent = true) (t : Task) : s.step t = none := by
  unfold isQuiescent at h
  rw [Bool.and_eq_true, Bool.and_eq_true, List.all_eq_true, List.all_eq_true] at h
  obtain ⟨⟨hreceiver, hoperations⟩, hworkers⟩ := h
  cases t with
  | receiver => exact Option.isNone_iff_eq_none.mp hreceiver
  | operation n =>
    cases ho : s.operation? n with
    | none => exact step_of_operation?_none ho
    | some o =>
      rw [step_of_operation? ho]
      exact Option.isNone_iff_eq_none.mp (hoperations o (List.mem_of_find?_eq_some ho))
  | worker n =>
    cases hw : s.worker? n with
    | none => exact step_of_worker?_none hw
    | some w =>
      rw [step_of_worker? hw]
      exact Option.isNone_iff_eq_none.mp (hworkers w (List.mem_of_find?_eq_some hw))

/-- A request that the network holds back is answered before it has gone out. -/
def heldMoves : List Move :=
  [.input (.holdSends true), tidyCall] ++ List.replicate 4 (.step (.operation 0)) ++
    [.input (.message { type := .acknowledgement, code := .response .content, id := 0 }),
      .step .receiver]

/-- An exchange under way can be without an entry where nothing can go on: one whose request is held
back has lost it to an answer that came early. -/
theorem held_request_loses_its_entry :
    ¬ ∀ (options : ConnectOptions) (pipe : Pipe) (messageIds : MessageIds) (tokens : Tokens)
      (past : List Move) (s : Session),
      (start options pipe messageIds tokens).run past = some s → (∀ t, s.step t = none) →
      ∀ t e, s.exchangeOf t = some e →
        ∃ w ∈ s.connection.exchanges.pending, s.waiterOf t = some w := by
  intro h
  have hends : (tidyClient.run heldMoves).map (fun s => (s.isQuiescent,
      (s.exchangeOf (.operation 0)).isSome, s.connection.exchanges.pending)) =
      some (true, true, []) := rfl
  obtain ⟨s, hs, hfacts⟩ := Option.map_eq_some_iff.mp hends
  obtain ⟨hquiet, hbusy, hpending⟩ : s.isQuiescent = true ∧
      (s.exchangeOf (.operation 0)).isSome = true ∧ s.connection.exchanges.pending = [] := by
    simpa only [Prod.mk.injEq] using hfacts
  obtain ⟨e, he⟩ := Option.isSome_iff_exists.mp hbusy
  obtain ⟨w, hw, -⟩ := h _ _ _ _ heldMoves s hs (step_of_isQuiescent hquiet) (.operation 0) e he
  rw [hpending] at hw
  cases hw

end Session

end Coap
