import Coap.Proofs.OperationScripts

/-! What the workers of subscriptions send: requests for further blocks of a notification, and all of
them in the terms of the registration. -/
namespace Coap

/-- What the exchange sends asks for a block in the terms of the template. -/
def Exchange.Fetches (template : Message) (e : Exchange) : Prop :=
  ∃ r sent, template.Fetches r ∧ e.Brings r sent

/-- What the worker is waiting for is a block of a notification. -/
def Worker.Fetches (w : Worker) : Prop :=
  ∀ delivery e, w.current = some (delivery, e) →
    delivery.Carries (· = w.template) ∧ e.Fetches w.template

theorem Worker.fetches_of_pending {w : Worker} {next : Stride Delivery (Option Notification)}
    (h : next.turn.Carries w.template.Fetches (Delivery.Carries (· = w.template))) :
    Worker.Fetches { w with current := next.pending } := by
  intro delivery e hcurrent
  change next.pending = some (delivery, e) at hcurrent
  unfold Stride.pending at hcurrent
  split at hcurrent
  · rename_i request d hturn
    rw [hturn] at h
    cases hcurrent
    exact ⟨h.2, request, [], h.1, .begun⟩
  · cases hcurrent

theorem Exchange.Fetches.step {template : Message} {e : Exchange} {c : Connection} {cancelled : Bool}
    {c' : Connection.Stepped} (h : e.Fetches template) (hs : c.step cancelled e = some c') :
    c'.exchange.Fetches template := by
  obtain ⟨r, sent, hr, hbrings⟩ := h
  obtain ⟨sent', hbrings', -⟩ := hbrings.step hs
  exact ⟨r, sent', hr, hbrings'⟩

/-- The message that a step sends is the one that the exchange is for. -/
theorem Exchange.Fetches.sent {template : Message} {e : Exchange} {c : Connection} {cancelled : Bool}
    {c' : Connection.Stepped} {m : Message} (h : e.Fetches template)
    (hs : c.step cancelled e = some c') (hm : c'.sent = some m) :
    ∃ r, template.Fetches r ∧ m.unnumbered = r.unnumbered := by
  obtain ⟨r, sent, hr, hbrings⟩ := h
  obtain ⟨sent', hbrings', hsame⟩ := hbrings.step hs
  have hmem : m.unnumbered ∈ sent'.map Message.unnumbered := by
    rw [hsame, hm]
    simp
  obtain ⟨q, hq, hunnumbered⟩ := List.mem_map.mp hmem
  rw [List.mem_singleton.mp (hbrings'.isPrefix_sent.subset hq)] at hunnumbered
  exact ⟨r, hr, hunnumbered.symm⟩

namespace Session

/-- All workers fetch blocks, and have sent requests for blocks only. -/
structure Fetching (made : List Worker) (s : Session) : Prop where
  workers : ∀ w ∈ s.workers, w.Fetches
  sent : ∀ k, ∀ m ∈ s.sentBy (.worker k), ∃ w ∈ made, w.serial = k ∧
    ∃ r, w.template.Fetches r ∧ m.unnumbered = r.unnumbered

variable {made : List Worker} {s s' : Session} {m : Move} {w : Worker} {past : List Move}

theorem mem_putWorker {v : Worker} (h : v ∈ (s.putWorker w).workers) : v = w ∨ v ∈ s.workers := by
  obtain ⟨u, hu, rfl⟩ := List.mem_map.mp h
  split
  · exact .inl rfl
  · exact .inr hu

/-- What a step of an exchange adds to the messages of a task. -/
theorem mem_sentBy_absorb {t u : Task} {c : Connection.Stepped} {a : Message}
    (h : a ∈ (s.absorb t c).sentBy u) : a ∈ s.sentBy u ∨ t = u ∧ c.sent = some a := by
  unfold sentBy at h
  rw [log_absorb] at h
  cases hsent : c.sent with
  | none =>
    rw [hsent] at h
    exact .inl h
  | some r =>
    rw [hsent, Array.toList_push, List.filterMap_append, List.mem_append] at h
    rcases h with h | h
    · exact .inl h
    · obtain ⟨e, he, hnew⟩ := List.mem_filterMap.mp h
      rw [List.mem_singleton.mp he] at hnew
      obtain ⟨htask, hr⟩ := Option.ite_none_right_eq_some.mp hnew
      exact .inr ⟨htask, hr⟩

theorem Fetching.of_turn {x : Session} {next : Stride Delivery (Option Notification)}
    (h : Fetching made s) (hworkers : x.workers = s.workers) (hlog : x.log = s.log)
    (hnext : next.turn.Carries w.template.Fetches (Delivery.Carries (· = w.template))) :
    Fetching made (x.deliver w next) where
  workers := by
    intro v hv
    rw [workers_deliver] at hv
    rcases mem_putWorker hv with rfl | hv
    · exact Worker.fetches_of_pending hnext
    · exact h.workers v (hworkers ▸ hv)
  sent := by
    intro k
    rw [sentBy_deliver]
    unfold sentBy
    rw [hlog]
    exact h.sent k

/-- A step of a worker sends nothing, or what the worker has begun to fetch. -/
theorem Fetching.shift (h : Fetching made s) (hroll : Roll made s) (hw : s.worker? w.serial = some w)
    (hshift : Shift s s' w) : Fetching made s' := by
  have hmem : w ∈ s.workers := List.mem_of_find?_eq_some hw
  cases hshift with
  | dismissed rest stopped next =>
    rw [next]
    -- What a worker has sent stays in the log when it goes.
    refine ⟨fun v hv => h.workers v (List.mem_filter.mp hv).1, fun k => ?_⟩
    have hsent : (s.dismiss w).sentBy (.worker k) = s.sentBy (.worker k) := by
      unfold dismiss sentBy note
      rw [Array.toList_push, List.filterMap_append]
      exact List.append_nil _
    rw [hsent]
    exact h.sent k
  | started a subscriptions rest going take next =>
    rw [next]
    exact h.of_turn (x := { s with subscriptions }) rfl rfl
      (Delivery.start_carries (Q := (· = w.template)) Download.fetches_of_request rfl _ a)
  | resumed delivery answer busy next =>
    rw [next]
    exact h.of_turn rfl rfl
      (Delivery.resume_carries (Q := (· = w.template)) Download.fetches_of_request
        (h.workers w hmem delivery _ busy).1 answer)
  | exchanged delivery e c busy going step next =>
    obtain ⟨hdelivery, hexchange⟩ := h.workers w hmem delivery e busy
    rw [next]
    refine ⟨?_, ?_⟩
    · intro v hv
      rcases mem_putWorker hv with rfl | hv
      · intro delivery' e' hcurrent
        cases hcurrent
        exact ⟨hdelivery, hexchange.step step⟩
      · rw [(beside_absorb s (.worker w.serial) c).workers] at hv
        exact h.workers v hv
    · -- A message that is new in the log is that of the exchange.
      intro k a ha
      rcases mem_sentBy_absorb ha with ha | ⟨hk, hsent⟩
      · exact h.sent k a ha
      · obtain ⟨v, hv, hsame⟩ := hroll.present w.serial w hw
        obtain ⟨r, hr, hunnumbered⟩ := hexchange.sent step hsent
        refine ⟨v, hv, ?_, r, ?_, hunnumbered⟩
        · rw [← Task.worker.inj hk, hsame]
        · rw [hsame] at hr
          exact hr

theorem Fetching.move (h : Fetching made s) (hroll : Roll made s) (hs : s.move m = some s') :
    Fetching (made ++ s.enlists m) s' := by
  have hmore {s'' : Session} (h : Fetching made s'') : Fetching (made ++ s.enlists m) s'' :=
    ⟨h.workers, fun k a ha => by
      obtain ⟨w, hw, hrest⟩ := h.sent k a ha
      exact ⟨w, List.mem_append_left _ hw, hrest⟩⟩
  -- Only a step of a worker sends under its name.
  have hquiet (hm : m.isWorkers = false) (k : Nat) : s'.sentBy (.worker k) = s.sentBy (.worker k) := by
    refine sentBy_of_other hs ?_
    rintro rfl
    cases hm
  apply hmore
  -- A worker takes its step, or one is made that has nothing to do yet, or all are as they were.
  cases upkeep_of_move hs with
  | worked w mover there shift => exact h.shift hroll there shift
  | made w token mover role after serial rest registered workers next =>
    refine ⟨?_, fun k => ?_⟩
    · intro v hv
      rw [workers] at hv
      rcases List.mem_append.mp hv with hv | hv
      · exact h.workers v hv
      · rw [List.mem_singleton.mp hv]
        intro delivery e hcurrent
        rw [rest] at hcurrent
        cases hcurrent
    · rw [hquiet (by rw [mover]; rfl) k]
      exact h.sent k
  | aside mover table workers =>
    refine ⟨?_, fun k => ?_⟩
    · rw [workers]
      exact h.workers
    · rw [hquiet mover k]
      exact h.sent k

variable {options : ConnectOptions} {pipe : Pipe} {messageIds : MessageIds} {tokens : Tokens}
  {timer : Timer}

theorem fetching_run (hs : (start options pipe messageIds tokens timer).run past = some s) :
    Fetching (enlistments (start options pipe messageIds tokens timer) past) s := by
  let first := start options pipe messageIds tokens timer
  have hfirst : Fetching (enlistments first []) first := by
    refine ⟨?_, ?_⟩
    · intro w hw
      cases hw
    · intro k a ha
      cases ha
  refine run_induction (P := fun past s => Fetching (enlistments first past) s) hfirst ?_ hs
  intro past s m s' hpast h hmove
  unfold enlistments
  rw [along_concat enlists hpast m]
  exact h.move (roll_run hpast).2 hmove

/-- The requests that a worker has sent are all for blocks, in the terms of its template. -/
theorem fetches_of_sentBy (hs : (start options pipe messageIds tokens timer).run past = some s)
    (hw : w ∈ enlistments (start options pipe messageIds tokens timer) past) {a : Message}
    (ha : a ∈ s.sentBy (.worker w.serial)) :
    ∃ r, w.template.Fetches r ∧ a.unnumbered = r.unnumbered := by
  obtain ⟨v, hv, hserial, hrest⟩ := (fetching_run hs).sent w.serial a ha
  rwa [(roll_run hs).2.single v hv w hw (.inl hserial)] at hrest

/-! The template of a worker is that of the registration. -/

/-- Templates are those of the registrations that operations have been called for. -/
def registered (calls : List (Nat × Call)) (grants : List (Nat × ByteArray)) : Provenance where
  call := fun n call => (n, call) ∈ calls
  message := fun _ _ => True
  template := fun n template => ∃ (r : Request) (handler : Handler) (a : Message) (token : ByteArray),
    (n, .observe r handler) ∈ calls ∧ (n, token) ∈ grants ∧ r.registration.toMessage = .ok a ∧
      template = a.observationTemplate token

theorem registered_run (hs : (start options pipe messageIds tokens timer).run past = some s) :
    s.Carries (registered (callsMade (start options pipe messageIds tokens timer) past)
      (grantsOf (start options pipe messageIds tokens timer) past)) := by
  refine carries_run ⟨fun _ => hereditary_true.toInherited, fun _ => trivial,
    fun _ => ⟨trivial, trivial⟩⟩ hs ?_
  rintro before m after s₁ rfl hbefore
  refine ⟨?_, fun _ _ _ => trivial, ?_, fun _ _ _ => trivial⟩
  · rintro call cancelled rfl
    exact mem_along hbefore (List.mem_singleton_self _) after
  · intro n token r handler a hgrant hcall ha
    exact ⟨r, handler, a, token, hcall, mem_along hbefore hgrant after, ha, rfl⟩

/-- A worker asks for blocks in the terms of its owner's registration. -/
theorem template_of_enlisted (hs : (start options pipe messageIds tokens timer).run past = some s)
    (hw : w ∈ enlistments (start options pipe messageIds tokens timer) past) :
    ∃ (r : Request) (handler : Handler) (a : Message) (token : ByteArray),
      (w.owner, .observe r handler) ∈ callsMade (start options pipe messageIds tokens timer) past ∧
      (w.owner, token) ∈ grantsOf (start options pipe messageIds tokens timer) past ∧
      r.registration.toMessage = .ok a ∧
      w.template = a.observationTemplate token := by
  let first := start options pipe messageIds tokens timer
  refine run_induction (P := fun past s => ∀ w ∈ enlistments first past,
    ∃ (r : Request) (handler : Handler) (a : Message) (token : ByteArray),
      (w.owner, .observe r handler) ∈ callsMade first past ∧ (w.owner, token) ∈ grantsOf first past ∧
      r.registration.toMessage = .ok a ∧
      w.template = a.observationTemplate token)
    ?_ ?_ hs w hw
  · intro w hw
    cases hw
  intro past s m s' hpast ih hmove w hw
  unfold enlistments at hw
  rw [along_concat enlists hpast m] at hw
  rcases List.mem_append.mp hw with hw | hw
  · obtain ⟨r, handler, a, token, hcall, hgrant, hrest⟩ := ih w hw
    refine ⟨r, handler, a, token, ?_, ?_, hrest⟩
    · unfold callsMade
      rw [along_concat calls hpast m]
      exact List.mem_append_left _ hcall
    · unfold grantsOf
      rw [along_concat grants hpast m]
      exact List.mem_append_left _ hgrant
  · -- The worker is there after the move that makes it.
    obtain ⟨-, -, hthere, -⟩ := made_of_enlists (roll_run hpast).1 hmove hw
    have hnext : first.run (past ++ [m]) = some s' :=
      (run_concat first past m).trans (by rw [hpast]; exact hmove)
    exact ((registered_run hnext).workers w (List.mem_of_find?_eq_some hthere)).template

end Session

end Coap
