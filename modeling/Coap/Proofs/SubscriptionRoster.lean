import Coap.Proofs.SubscriptionMoves

/-! Subscriptions and their workers in every run. Each worker that is made has a serial number and an
owner of its own, keeps them as long as it is there, and is there as long as its subscription is. -/
namespace Coap

/-- Whether a part comes before the making of a subscription. -/
def Role.isEarly : Role → Bool
  | .asking | .granted _ => true
  | .apart | .registering _ | .stopping _ => false

/-- What a worker is waiting for after a turn of its delivery. -/
def Stride.pending (next : Stride Delivery (Option Notification)) : Option (Delivery × Exchange) :=
  match next.turn with
  | .ask request delivery => some (delivery, .begun request)
  | .finish _ => none

namespace Subscriptions

/-- The oldest waiting notification is taken from the entry with the serial number. -/
theorem take_cases {s s' : Subscriptions} {serial : Nat} {a : Message}
    (h : s.take serial = some (a, s')) : ∃ e rest, s.lookup? serial = some e ∧ e.queue = a :: rest ∧
      s' = { entries := s.entries.map fun e =>
        if e.serial == serial then { e with queue := rest } else e } := by
  unfold take at h
  split at h
  · cases h
  · rename_i e he
    split at h
    · cases h
    · rename_i first rest hqueue
      cases h
      exact ⟨e, rest, he, hqueue, rfl⟩

end Subscriptions

namespace Session

/-- What is true of subscriptions and workers in every run of a client. -/
structure Rostered (s : Session) : Prop where
  distinct : s.subscriptions.Distinct
  entries_lt : ∀ e ∈ s.subscriptions.entries, e.serial < s.nextSerial
  workers_lt : ∀ w ∈ s.workers, w.serial < s.nextSerial
  /-- A worker goes only when its subscription has gone, or when the client stops. -/
  employed : s.shutdown = false → ∀ e ∈ s.subscriptions.entries, ∃ w, s.worker? e.serial = some w

/-- The worker that a move makes. -/
def enlists (s : Session) (m : Move) : List Worker :=
  ((s.move m).bind fun s' => s'.worker? s.nextSerial).toList

/-- The workers that have been made along a run, as they were then. -/
def enlistments (first : Session) (past : List Move) : List Worker := along enlists first past

/-- The workers that have been made so far, and those of them that are there. -/
structure Roll (made : List Worker) (s : Session) : Prop where
  below : ∀ w ∈ made, w.serial < s.nextSerial ∧ w.owner < s.nextSerial
  /-- The operation that has made a worker makes no other one. -/
  late : ∀ w ∈ made, (s.roleOf w.owner).isEarly = false
  single : ∀ v ∈ made, ∀ w ∈ made, v.serial = w.serial ∨ v.owner = w.owner → v = w
  present : ∀ k v, s.worker? k = some v → ∃ w ∈ made, v = { w with current := v.current }

variable {s s' : Session} {m : Move} {w v : Worker} {made : List Worker} {k : Nat}

/-! What a step of a worker leaves. -/

theorem workers_deliver (s : Session) (w : Worker) (next : Stride Delivery (Option Notification)) :
    (s.deliver w next).workers = (s.putWorker { w with current := next.pending }).workers := by
  unfold deliver Stride.pending
  cases next.turn with
  | ask request delivery => rfl
  | finish result => cases result <;> rfl

/-- A worker that steps is replaced, or let go when it has to stop. -/
theorem Shift.workers_cases (h : Shift s s' w) :
    (∃ current, s'.workers = (s.putWorker { w with current }).workers) ∨
      s'.workers = (s.dismiss w).workers ∧ s.isStopped w.serial = true := by
  cases h with
  | dismissed _ stopped next => exact .inr ⟨by rw [next], stopped⟩
  | started a subscriptions _ _ _ next =>
    refine .inl ⟨(Delivery.start s.transfers.blockTransfer w.template a).pending, ?_⟩
    rw [next, workers_deliver]
    rfl
  | resumed delivery answer _ next =>
    refine .inl ⟨(delivery.resume answer).pending, ?_⟩
    rw [next, workers_deliver]
  | exchanged delivery e c _ _ _ next =>
    refine .inl ⟨some (delivery, c.exchange), ?_⟩
    have hbeside := beside_absorb s (.worker w.serial) c
    rw [next]
    unfold putWorker
    rw [hbeside.workers]

theorem worker?_of_workers (h : s'.workers = s.workers) (k : Nat) : s'.worker? k = s.worker? k := by
  unfold worker?
  rw [h]

theorem worker?_putWorker_ne (h : w.serial ≠ k) (s : Session) :
    (s.putWorker w).worker? k = s.worker? k :=
  find?_replace_ne Worker.serial h s.workers

theorem Shift.worker?_ne (h : Shift s s' w) (hk : w.serial ≠ k) : s'.worker? k = s.worker? k := by
  rcases h.workers_cases with ⟨current, hworkers⟩ | ⟨hworkers, -⟩
  · rw [worker?_of_workers hworkers]
    exact @worker?_putWorker_ne { w with current } k hk s
  · rw [worker?_of_workers hworkers]
    exact find?_filter_ne Worker.serial hk s.workers

/-- The worker that steps is the same one afterwards, if it is still there. -/
theorem Shift.worker?_self (h : Shift s s' w) (hw : s.worker? w.serial = some w) :
    (∃ current, s'.worker? w.serial = some { w with current }) ∨
      s'.worker? w.serial = none ∧ s.isStopped w.serial = true := by
  rcases h.workers_cases with ⟨current, hworkers⟩ | ⟨hworkers, hstopped⟩
  · refine .inl ⟨current, ?_⟩
    rw [worker?_of_workers hworkers]
    exact @worker?_putWorker s { w with current } _ hw
  · refine .inr ⟨?_, hstopped⟩
    rw [worker?_of_workers hworkers]
    exact find?_filter_self Worker.serial s.workers

theorem Shift.mem_workers (h : Shift s s' w) (hv : v ∈ s'.workers) :
    ∃ u ∈ s.workers, u.serial = v.serial := by
  rcases h.workers_cases with ⟨current, hworkers⟩ | ⟨hworkers, -⟩
  · rw [hworkers] at hv
    obtain ⟨u, hu, rfl⟩ := List.mem_map.mp hv
    refine ⟨u, hu, ?_⟩
    split
    · rename_i hserial
      exact beq_iff_eq.mp hserial
    · rfl
  · rw [hworkers] at hv
    exact ⟨v, (List.mem_filter.mp hv).1, rfl⟩

/-- A step of a worker changes queues at most. -/
theorem Shift.subscriptions_cases (h : Shift s s' w) : ∃ f, Subscriptions.KeepsKeys f ∧
    s'.subscriptions = { entries := s.subscriptions.entries.map f } := by
  have hsame (h : s'.subscriptions = s.subscriptions) : ∃ f, Subscriptions.KeepsKeys f ∧
      s'.subscriptions = { entries := s.subscriptions.entries.map f } := by
    refine ⟨id, ⟨fun _ => rfl, fun _ => rfl⟩, ?_⟩
    rw [h, List.map_id]
  cases h with
  | dismissed _ _ next => exact hsame (by rw [next]; rfl)
  | started a subscriptions _ _ take next =>
    obtain ⟨rest, rfl⟩ := Subscriptions.take_eq_some take
    refine ⟨_, (Subscriptions.keepsKeys_queue rest).ite fun e => e.serial == w.serial, ?_⟩
    rw [next, subscriptions_deliver]
  | resumed delivery answer _ next => exact hsame (by rw [next, subscriptions_deliver])
  | exchanged delivery e c _ _ _ next =>
    refine hsame ?_
    rw [next]
    exact (beside_absorb s (.worker w.serial) c).subscriptions

/-! What a move leaves of the table. -/

theorem Reshaped.distinct {t : Subscriptions} (h : Reshaped s m t) (hs : s.subscriptions.Distinct) :
    t.Distinct := by
  cases h with
  | same => exact hs
  | seeded _ token sequence => exact hs.map ((Subscriptions.keepsKeys_seed sequence).ite _)
  | removed _ token => exact hs.deregister token
  | handled a _ => exact hs.map ((Subscriptions.keepsKeys_accept a).ite _)
  | cleared => exact ⟨List.nodup_nil, List.nodup_nil⟩

/-- An entry that is there afterwards was there before, under the same keys. -/
theorem Reshaped.mem {t : Subscriptions} (h : Reshaped s m t) {e : Subscription}
    (he : e ∈ t.entries) :
    ∃ p ∈ s.subscriptions.entries, p.serial = e.serial ∧ p.token = e.token := by
  have hmap {f : Subscription → Subscription} (hf : Subscriptions.KeepsKeys f)
      (he : e ∈ s.subscriptions.entries.map f) :
      ∃ p ∈ s.subscriptions.entries, p.serial = e.serial ∧ p.token = e.token := by
    obtain ⟨p, hp, rfl⟩ := List.mem_map.mp he
    exact ⟨p, hp, (hf.serial p).symm, (hf.token p).symm⟩
  cases h with
  | same => exact ⟨e, he, rfl, rfl⟩
  | seeded _ token sequence => exact hmap ((Subscriptions.keepsKeys_seed sequence).ite _) he
  | removed _ token => exact ⟨e, (List.mem_filter.mp he).1, rfl, rfl⟩
  | handled a _ => exact hmap ((Subscriptions.keepsKeys_accept a).ite _) he
  | cleared => cases he

theorem going_of_move (hs : s.move m = some s') (h : s'.shutdown = false) : s.shutdown = false := by
  cases hgoing : s.shutdown with
  | false => rfl
  | true =>
    rw [(onward_of_move hs).shutdown hgoing] at h
    cases h

theorem worker?_of_workers_lt (h : ∀ w ∈ s.workers, w.serial < s.nextSerial) (hk : s.nextSerial ≤ k) :
    s.worker? k = none := by
  apply List.find?_eq_none.mpr
  intro w hw
  have hlt := h w hw
  simp only [beq_iff_eq]
  omega

/-- A worker that has just been made is found under its number. -/
theorem worker?_of_made (hworkers : s'.workers = s.workers ++ [w])
    (hnone : s.worker? w.serial = none) : s'.worker? w.serial = some w := by
  unfold worker? at hnone ⊢
  rw [hworkers, List.find?_append, hnone]
  simp

theorem worker?_of_made_ne (hworkers : s'.workers = s.workers ++ [w]) (hk : w.serial ≠ k) :
    s'.worker? k = s.worker? k := by
  unfold worker?
  rw [hworkers, List.find?_append]
  simp [hk]

theorem Rostered.move (h : s.Rostered) (hs : s.move m = some s') : s'.Rostered := by
  have hle := (kept_move hs).2
  cases upkeep_of_move hs with
  | worked w mover there shift =>
    obtain ⟨f, hf, hsubscriptions⟩ := shift.subscriptions_cases
    have hback : ∀ e ∈ s'.subscriptions.entries, ∃ p ∈ s.subscriptions.entries, e = f p := by
      intro e he
      rw [hsubscriptions] at he
      obtain ⟨p, hp, rfl⟩ := List.mem_map.mp he
      exact ⟨p, hp, rfl⟩
    refine ⟨?_, ?_, ?_, ?_⟩
    · rw [hsubscriptions]
      exact h.distinct.map hf
    · intro e he
      obtain ⟨p, hp, rfl⟩ := hback e he
      rw [hf.serial]
      exact Nat.lt_of_lt_of_le (h.entries_lt p hp) hle
    · intro v hv
      obtain ⟨u, hu, hserial⟩ := shift.mem_workers hv
      have hlt := h.workers_lt u hu
      omega
    · intro hgoing e he
      obtain ⟨p, hp, rfl⟩ := hback e he
      rw [hf.serial]
      have hgoing' : s.shutdown = false := going_of_move hs hgoing
      by_cases hk : w.serial = p.serial
      · rcases shift.worker?_self there with ⟨current, hself⟩ | ⟨-, hstopped⟩
        · exact ⟨_, hk ▸ hself⟩
        · -- The worker of a subscription that is there does not have to stop.
          have hholds : s.subscriptions.holds w.serial = true := by
            rw [hk, Subscriptions.holds_eq, h.distinct.lookup?_eq hp]
            rfl
          unfold isStopped at hstopped
          rw [hgoing', hholds] at hstopped
          cases hstopped
      · rw [shift.worker?_ne hk]
        exact h.employed hgoing' p hp
  | made w token mover role after serial rest registered workers next =>
    obtain ⟨-, hsubscriptions⟩ := Subscriptions.register_eq_ok registered
    have hnone : s.worker? w.serial = none :=
      worker?_of_workers_lt h.workers_lt (Nat.le_of_eq serial.symm)
    have hcase : ∀ e ∈ s'.subscriptions.entries, e ∈ s.subscriptions.entries ∨ e.serial = w.serial := by
      intro e he
      rw [hsubscriptions] at he
      rcases List.mem_append.mp he with he | he
      · exact .inl he
      · rw [List.mem_singleton.mp he]
        exact .inr serial.symm
    refine ⟨?_, ?_, ?_, ?_⟩
    · refine h.distinct.register ?_ registered
      intro e he
      exact Nat.ne_of_lt (h.entries_lt e he)
    · intro e he
      rcases hcase e he with hold | hnew
      · exact Nat.lt_of_lt_of_le (h.entries_lt e hold) hle
      · omega
    · intro v hv
      rw [workers] at hv
      rcases List.mem_append.mp hv with hv | hv
      · exact Nat.lt_of_lt_of_le (h.workers_lt v hv) hle
      · rw [List.mem_singleton.mp hv]
        omega
    · intro hgoing e he
      rcases hcase e he with hold | hnew
      · have hk : w.serial ≠ e.serial := by
          have hlt := h.entries_lt e hold
          omega
        rw [worker?_of_made_ne workers hk]
        exact h.employed (going_of_move hs hgoing) e hold
      · exact ⟨w, hnew ▸ worker?_of_made workers hnone⟩
  | aside mover table workers =>
    refine ⟨table.distinct h.distinct, ?_, ?_, ?_⟩
    · intro e he
      obtain ⟨p, hp, hserial, -⟩ := table.mem he
      rw [← hserial]
      exact Nat.lt_of_lt_of_le (h.entries_lt p hp) hle
    · intro v hv
      rw [workers] at hv
      exact Nat.lt_of_lt_of_le (h.workers_lt v hv) hle
    · intro hgoing e he
      obtain ⟨p, hp, hserial, -⟩ := table.mem he
      rw [← hserial, worker?_of_workers workers]
      exact h.employed (going_of_move hs hgoing) p hp

/-! The workers that have been made. -/

/-- A part that is late stays so. -/
theorem late_of_move {n : Nat} (hnew : s.operation? s.nextSerial = none) (hn : n < s.nextSerial)
    (h : (s.roleOf n).isEarly = false) (hs : s.move m = some s') : (s'.roleOf n).isEarly = false := by
  have hsame (hrole : s'.roleOf n = s.roleOf n) : (s'.roleOf n).isEarly = false := hrole ▸ h
  cases booking_of_move hnew hs with
  | kept _ roles => exact hsame (roles n)
  | called call cancelled _ _ _ others => exact hsame (others n (Nat.ne_of_lt hn))
  | granted k _ before after others =>
    by_cases hk : n = k
    · rw [hk, before] at h
      cases h
    · exact hsame (others n hk)
  | subscribed k token _ before after others =>
    by_cases hk : n = k
    · rw [hk, after]
      rfl
    · exact hsame (others n hk)
  | ended k c _ _ gone others =>
    by_cases hk : n = k
    · rw [hk, roleOf_gone gone]
      rfl
    · exact hsame (others n hk)
  | dropped k _ gone others =>
    by_cases hk : n = k
    · rw [hk, roleOf_gone gone]
      rfl
    · exact hsame (others n hk)
  | cleared _ _ roles => exact hsame (roles n)

theorem enlists_eq (hs : s.move m = some s') :
    s.enlists m = (s'.worker? s.nextSerial).toList := by
  unfold enlists
  rw [hs, Option.bind_some]

/-- An operation that makes a subscription makes a worker for it. -/
theorem enlists_of_enroll {o : Operation} {request template : Message} {handler : Handler}
    {subscriptions : Subscriptions} (ho : s.operation? o.serial = some o)
    (hstage : o.stage = .enrolling request template handler)
    (hregister : s.subscriptions.register request.token s.nextSerial = .ok subscriptions)
    (hfree : s.worker? s.nextSerial = none) :
    { serial := s.nextSerial, owner := o.serial, template, handler } ∈
      s.enlists (.step (.operation o.serial)) := by
  let worker : Worker := { serial := s.nextSerial, owner := o.serial, template, handler }
  have hs : s.move (.step (.operation o.serial)) = some (s.enroll o request template handler) := by
    refine (step_of_operation? ho).trans ?_
    unfold stepOperation
    rw [hstage]
  have hworkers : (s.enroll o request template handler).workers = s.workers ++ [worker] := by
    unfold enroll
    rw [hregister]
    exact (beside_proceed _ o _ _).workers
  rw [enlists_eq hs, @worker?_of_made s _ worker hworkers hfree]
  exact List.mem_singleton_self worker

theorem Roll.of_none (h : Roll made s) (hnew : s.operation? s.nextSerial = none)
    (hs : s.move m = some s') (hnone : s'.worker? s.nextSerial = none)
    (hpresent : ∀ k v, s'.worker? k = some v →
      ∃ u, s.worker? k = some u ∧ v = { u with current := v.current }) :
    Roll (made ++ s.enlists m) s' := by
  have hle := (kept_move hs).2
  rw [enlists_eq hs, hnone, Option.toList_none, List.append_nil]
  refine ⟨?_, ?_, h.single, ?_⟩
  · intro w hw
    obtain ⟨hserial, howner⟩ := h.below w hw
    exact ⟨Nat.lt_of_lt_of_le hserial hle, Nat.lt_of_lt_of_le howner hle⟩
  · intro w hw
    exact late_of_move hnew (h.below w hw).2 (h.late w hw) hs
  · intro k v hv
    obtain ⟨u, hu, hsame⟩ := hpresent k v hv
    obtain ⟨w, hw, hfirst⟩ := h.present k u hu
    refine ⟨w, hw, ?_⟩
    rw [hsame, hfirst]

theorem Roll.move (h : Roll made s) (hrostered : s.Rostered)
    (hfresh : ∀ n, s.nextSerial ≤ n → s.operation? n = none) (hs : s.move m = some s') :
    Roll (made ++ s.enlists m) s' := by
  have hnew := hfresh s.nextSerial (Nat.le_refl _)
  have hle := (kept_move hs).2
  have hfree : s.worker? s.nextSerial = none :=
    worker?_of_workers_lt hrostered.workers_lt (Nat.le_refl _)
  cases upkeep_of_move hs with
  | worked w mover there shift =>
    have hk : w.serial ≠ s.nextSerial :=
      Nat.ne_of_lt (hrostered.workers_lt w (List.mem_of_find?_eq_some there))
    refine h.of_none hnew hs ((shift.worker?_ne hk).trans hfree) ?_
    intro k v hv
    by_cases hk : w.serial = k
    · subst hk
      rcases shift.worker?_self there with ⟨current, hself⟩ | ⟨hgone, -⟩
      · rw [hself] at hv
        cases hv
        exact ⟨w, there, rfl⟩
      · rw [hgone] at hv
        cases hv
    · rw [shift.worker?_ne hk] at hv
      exact ⟨v, hv, rfl⟩
  | aside mover table workers =>
    refine h.of_none hnew hs ((worker?_of_workers workers _).trans hfree) ?_
    intro k v hv
    rw [worker?_of_workers workers] at hv
    exact ⟨v, hv, rfl⟩
  | made w token mover role after serial rest registered workers next =>
    have hself : s'.worker? w.serial = some w := worker?_of_made workers (serial ▸ hfree)
    have howner : w.owner < s.nextSerial := by
      by_contra hge
      rw [roleOf_gone (hfresh w.owner (Nat.le_of_not_lt hge))] at role
      cases role
    -- No worker that is already there has the number or the owner of the new one.
    have hapart : ∀ v ∈ made, v.serial ≠ w.serial ∧ v.owner ≠ w.owner := by
      intro v hv
      refine ⟨?_, ?_⟩
      · have hlt := (h.below v hv).1
        omega
      · intro heq
        have hlate := h.late v hv
        rw [heq, role] at hlate
        cases hlate
    rw [enlists_eq hs, ← serial, hself]
    refine ⟨?_, ?_, ?_, ?_⟩
    · intro v hv
      rcases List.mem_append.mp hv with hv | hv
      · obtain ⟨hserial, hown⟩ := h.below v hv
        exact ⟨Nat.lt_of_lt_of_le hserial hle, Nat.lt_of_lt_of_le hown hle⟩
      · rw [List.mem_singleton.mp hv]
        omega
    · intro v hv
      rcases List.mem_append.mp hv with hv | hv
      · exact late_of_move hnew (h.below v hv).2 (h.late v hv) hs
      · rw [List.mem_singleton.mp hv, after]
        rfl
    · intro u hu v hv heq
      rcases List.mem_append.mp hu with hu | hu
      · rcases List.mem_append.mp hv with hv | hv
        · exact h.single u hu v hv heq
        · rw [List.mem_singleton.mp hv] at heq
          exact absurd heq (not_or.mpr (hapart u hu))
      · rw [List.mem_singleton.mp hu] at heq ⊢
        rcases List.mem_append.mp hv with hv | hv
        · have hne := hapart v hv
          exact absurd heq (not_or.mpr ⟨Ne.symm hne.1, Ne.symm hne.2⟩)
        · exact (List.mem_singleton.mp hv).symm
    · intro k v hv
      by_cases hk : w.serial = k
      · subst hk
        rw [hself] at hv
        cases hv
        exact ⟨w, List.mem_append_right _ (List.mem_singleton_self w), rfl⟩
      · rw [worker?_of_made_ne workers hk] at hv
        obtain ⟨u, hu, hsame⟩ := h.present k v hv
        exact ⟨u, List.mem_append_left _ hu, hsame⟩

/-- Operations to come are not known yet, in every run. -/
theorem unknown_run {options : ConnectOptions} {pipe : Pipe} {messageIds : MessageIds}
    {tokens : Tokens} {timer : Timer} {past : List Move}
    (hrun : (start options pipe messageIds tokens timer).run past = some s) :
    ∀ n, s.nextSerial ≤ n → s.Fresh n :=
  (fresh_run (fun n _ => fresh_start options pipe messageIds tokens timer n) hrun).1

theorem roll_run {options : ConnectOptions} {pipe : Pipe} {messageIds : MessageIds}
    {tokens : Tokens} {timer : Timer} {past : List Move}
    (hrun : (start options pipe messageIds tokens timer).run past = some s) :
    s.Rostered ∧ Roll (enlistments (start options pipe messageIds tokens timer) past) s := by
  let first := start options pipe messageIds tokens timer
  have hstart : first.Rostered ∧ Roll (enlistments first []) first := by
    refine ⟨⟨⟨List.nodup_nil, List.nodup_nil⟩, ?_, ?_, ?_⟩, ?_, ?_, ?_, ?_⟩
    · intro e he
      cases he
    · intro w hw
      cases hw
    · intro _ e he
      cases he
    · intro w hw
      cases hw
    · intro w hw
      cases hw
    · intro v hv
      cases hv
    · intro k v hv
      cases hv
  refine run_induction (P := fun past s => s.Rostered ∧ Roll (enlistments first past) s) hstart ?_ hrun
  intro past s m s' hpast h hs
  refine ⟨h.1.move hs, ?_⟩
  unfold enlistments
  rw [along_concat enlists hpast m]
  exact h.2.move h.1 (fun n hn => (unknown_run hpast n hn).operation) hs

end Session

end Coap
