import Coap.Proofs.ExchangeSteps
import Mathlib.Data.List.Induction

/-! The table of exchanges along a run of a session: every waiter belongs to one task, and its result
is the first answer to its id that was routed after its registration, or the failure with which the
connection came to its end. -/
namespace Coap

namespace Exchanges

variable {x y : Exchanges} {live : List Waiter} {v w : Waiter} {r : Outcome}

/-- Two tables hold the same of a waiter. -/
def Alike (v : Waiter) (x y : Exchanges) : Prop :=
  (v ∈ y.pending ↔ v ∈ x.pending) ∧ y.slot v.ticket = x.slot v.ticket

theorem Alike.undecided (h : Alike v x y) (hv : x.Undecided v) : y.Undecided v :=
  ⟨h.1.mpr hv.1, h.2.trans hv.2⟩

theorem Alike.decided (h : Alike v x y) (hv : x.Decided v r) : y.Decided v r :=
  ⟨fun hp => hv.1 (h.1.mp hp), h.2.trans hv.2⟩

theorem alike_register {id : UInt16} (h : x.Serves live) (hv : v ∈ live)
    (hr : x.register id = .ok (w, y)) : Alike v x y := by
  obtain ⟨-, rfl, rfl⟩ := register_inv hr
  -- The new waiter has a larger ticket than the old ones.
  have hne : v ≠ ⟨id, x.nextTicket⟩ := by
    rintro rfl
    exact Nat.lt_irrefl _ (h.ticket_lt _ hv)
  refine ⟨?_, rfl⟩
  simp [hne]

theorem undecided_register {id : UInt16} (h : x.Serves live) (hr : x.register id = .ok (w, y)) :
    y.Undecided w := by
  obtain ⟨-, rfl, rfl⟩ := register_inv hr
  exact ⟨List.mem_append_right _ (List.mem_singleton_self _), h.slot_of_fresh (Nat.le_refl _)⟩

theorem alike_release (h : x.Serves live) (hv : v ∈ live) (hw : w ∈ live) (hne : v ≠ w) :
    Alike v x (x.release w) := by
  have hticket : v.ticket ≠ w.ticket := fun ht => hne (h.eq_of_ticket hv hw ht)
  exact ⟨by simp [pending_release, hne], slot_release hticket⟩

theorem alike_resolve {id : UInt16} (h : x.Serves live) (hv : v ∈ live)
    (hother : ¬ (v ∈ x.pending ∧ v.id = id)) (r : Outcome) : Alike v x (x.resolve id r).2 := by
  have hd := h.decides_resolve id r
  refine ⟨?_, hd.slot_other v hv hother⟩
  rw [hd.pending]
  exact ⟨And.left, fun hp => ⟨hp, fun hid => hother ⟨hp, hid⟩⟩⟩

theorem decided_resolve {id : UInt16} (h : x.Serves live) (hv : x.Undecided v) (hid : v.id = id)
    (r : Outcome) : (x.resolve id r).2.Decided v r := by
  have hd := h.decides_resolve id r
  refine ⟨fun hp => ((hd.pending v).mp hp).2 hid, ?_⟩
  rw [hd.slot_hit v hv.1 hid, hv.2, List.nil_append]

end Exchanges

namespace Session

variable {s s' s'' : Session} {task : Task} {m : Move}

/-! What has happened along a run. -/

/-- What a run brings about, move by move. -/
def along {α : Type} (f : Session → Move → List α) (s : Session) : List Move → List α
  | [] => []
  | m :: rest => f s m ++ match s.move m with
    | some s' => along f s' rest
    | none => []

theorem run_concat (s : Session) (moves : List Move) (m : Move) :
    s.run (moves ++ [m]) = (s.run moves).bind fun s' => s'.move m := by
  induction moves generalizing s with
  | nil =>
    change (s.move m).bind some = s.move m
    cases s.move m <;> rfl
  | cons a rest ih =>
    change (s.move a).bind _ = ((s.move a).bind _).bind _
    rw [Option.bind_assoc]
    exact Option.bind_congr fun s' _ => ih s'

theorem along_concat {α : Type} (f : Session → Move → List α) {moves : List Move}
    (hs : s.run moves = some s') (m : Move) :
    along f s (moves ++ [m]) = along f s moves ++ f s' m := by
  induction moves generalizing s with
  | nil =>
    cases hs
    rw [List.nil_append, along, along, List.nil_append]
    cases s'.move m <;> simp [along]
  | cons a rest ih =>
    obtain ⟨s₁, hs₁, hrest⟩ := Option.bind_eq_some_iff.mp hs
    rw [List.cons_append, along, along, hs₁, List.append_assoc]
    exact congrArg (f s a ++ ·) (ih hrest)

theorem run_append {moves later : List Move} (hs : s.run moves = some s')
    (hlater : s'.run later = some s'') : s.run (moves ++ later) = some s'' := by
  induction moves generalizing s with
  | nil =>
    cases hs
    exact hlater
  | cons m rest ih =>
    obtain ⟨s₁, hs₁, hrest⟩ := Option.bind_eq_some_iff.mp hs
    exact Option.bind_eq_some_iff.mpr ⟨s₁, hs₁, ih hrest⟩

theorem along_append {α : Type} (f : Session → Move → List α) {moves : List Move}
    (hs : s.run moves = some s') (later : List Move) :
    along f s (moves ++ later) = along f s moves ++ along f s' later := by
  induction moves generalizing s with
  | nil =>
    cases hs
    rfl
  | cons m rest ih =>
    obtain ⟨s₁, hs₁, hrest⟩ := Option.bind_eq_some_iff.mp hs
    rw [List.cons_append, along, along, hs₁, List.append_assoc]
    exact congrArg (f s m ++ ·) (ih hrest)

/-- What one move of a run contributes is part of the whole. -/
theorem mem_along {α : Type} {f : Session → Move → List α} {before : List Move}
    (hs : s.run before = some s') {m : Move} {x : α} (hx : x ∈ f s' m) (after : List Move) :
    x ∈ along f s (before ++ m :: after) := by
  rw [along_append f hs]
  exact List.mem_append_right _ (List.mem_append_left _ hx)

/-- What a run brings about is the contribution of one of its moves. -/
theorem exists_of_mem_along {α : Type} {f : Session → Move → List α} {moves : List Move} {x : α}
    (hx : x ∈ along f s moves) : ∃ before m after s', moves = before ++ m :: after ∧
      s.run before = some s' ∧ x ∈ f s' m := by
  induction moves generalizing s with
  | nil => cases hx
  | cons m rest ih =>
    rcases List.mem_append.mp hx with hx | hx
    · exact ⟨[], m, rest, s, rfl, rfl, hx⟩
    · cases hs : s.move m with
      | none =>
        rw [hs] at hx
        cases hx
      | some s₁ =>
        rw [hs] at hx
        obtain ⟨before, m', after, s', rfl, hbefore, hx⟩ := ih hx
        exact ⟨m :: before, m', after, s', rfl, Option.bind_eq_some_iff.mpr ⟨s₁, hs, hbefore⟩, hx⟩

/-- What holds at first, and is kept by every move, holds at the end of every run. -/
theorem run_induction {P : List Move → Session → Prop} (hfirst : P [] s)
    (hmove : ∀ past s' m s'', s.run past = some s' → P past s' → s'.move m = some s'' →
      P (past ++ [m]) s'') {moves : List Move} (hs : s.run moves = some s') : P moves s' := by
  -- From the end, so that each move comes with all that has been before it.
  induction moves using List.reverseRecOn generalizing s' with
  | nil =>
    cases hs
    exact hfirst
  | append_singleton past m ih =>
    rw [run_concat] at hs
    obtain ⟨s₁, hs₁, hlast⟩ := Option.bind_eq_some_iff.mp hs
    exact hmove past s₁ m s' hs₁ (ih hs₁) hlast

/-- How far the receiver has come with the end of the connection: whether the connection is closed
yet, and the error that ends it. -/
def Phase (failed : List ClientError) (s : Session) : Prop :=
  match s.receiver with
  | .listening | .replying _ | .failing _ => s.connection.closed = false ∧ failed = []
  | .collecting e | .ending e _ => s.connection.closed = true ∧ failed = [e]
  | .clearing | .closing | .ended => s.connection.closed = true ∧ ∃ e, failed = [e]

variable {failed : List ClientError}

theorem Phase.of_same (h : Phase failed s) (hr : s'.receiver = s.receiver)
    (hc : s'.connection.closed = s.connection.closed) : Phase failed s' := by
  unfold Phase
  rw [hr, hc]
  exact h

/-- After a message has been routed the receiver listens again, or answers it first. -/
theorem receiver_of_route {a : Message} {wire : Wire} (phase : s.receiver = .listening)
    (next : s' = (s.setWire wire).route a) :
    s'.receiver = .listening ∨ ∃ reply, s'.receiver = .replying reply := by
  rw [next]
  unfold route
  split
  · exact .inl phase
  · exact .inl phase
  · exact .inr ⟨_, rfl⟩
  · exact .inl phase

/-- A move keeps the phase, or brings the receiver to the next one. -/
theorem Phase.move (h : Phase failed s) (hs : s.move m = some s') :
    Phase (failed ++ s.failures m) s' := by
  have hquiet (task : Task) (ht : task ≠ .receiver) : s.failures (.step task) = [] := by
    cases task with
    | receiver => exact absurd rfl ht
    | _ => rfl
  have hinput (i : Input) : s.failures (.input i) = [] := rfl
  cases effect_of_move hs with
  | @exchanged task e c only before step connection after =>
    rw [hquiet task (exchangeOf_ne_receiver before), List.append_nil]
    refine h.of_same only.receiver ?_
    rw [connection, (Connection.advance_of_step step).closed_eq]
  | @turned task own only before connection after =>
    rw [hquiet task own, List.append_nil]
    exact h.of_same only.receiver (by rw [connection])
  | dropped only exchanges closed wire after =>
    rw [hinput, List.append_nil]
    exact h.of_same only.receiver closed
  | disturbed kept receiver exchanges closed shut toPeer =>
    rw [hinput, List.append_nil]
    exact h.of_same receiver closed
  | received step kept =>
    unfold Phase at h
    unfold failures
    cases reception_of_step step with
    | routed a wire phase going arrival next =>
      rw [phase] at h ⊢
      obtain ⟨hopen, hfailed⟩ := h
      have hopen' : s'.connection.closed = false := by
        rw [next]
        unfold route
        split <;> exact hopen
      have hphase := receiver_of_route phase next
      unfold Phase
      rcases hphase with hphase | ⟨reply, hphase⟩
      · rw [hphase]
        exact ⟨hopen', by rw [hfailed]; rfl⟩
      · rw [hphase]
        exact ⟨hopen', by rw [hfailed]; rfl⟩
    | stopped e wire phase quiet next =>
      rw [phase] at h ⊢
      rw [next, h.2]
      exact ⟨h.1, rfl⟩
    | replied reply wire log phase next =>
      rw [phase] at h ⊢
      rw [next, h.2]
      exact ⟨h.1, rfl⟩
    | shut e phase next =>
      rw [phase] at h ⊢
      rw [next, h.2]
      exact ⟨rfl, rfl⟩
    | collected e phase next =>
      rw [phase] at h ⊢
      rw [next, h.2]
      exact ⟨h.1, rfl⟩
    | failed e id ids phase next =>
      rw [phase] at h ⊢
      rw [next, h.2]
      exact ⟨h.1, rfl⟩
    | drained e phase next =>
      rw [phase] at h ⊢
      rw [next, h.2]
      exact ⟨h.1, e, rfl⟩
    | cleared phase next =>
      rw [phase] at h ⊢
      rw [next, List.append_nil]
      exact h
    | closed phase next =>
      rw [phase] at h ⊢
      rw [next, List.append_nil]
      exact h

/-! What is known of the waiters after a run. -/

/-- The answers to a waiter's id that a move routes, once the waiter has been registered. -/
def answersFor (w : Waiter) (s : Session) (m : Move) : List Message :=
  if w.ticket < s.connection.exchanges.nextTicket then (s.answers m).filter fun a => a.id == w.id
  else []

/-- Every live waiter belongs to one task, and the table serves them all. -/
structure Seated (s : Session) : Prop where
  live : ∃ live, s.connection.exchanges.Serves live ∧ ∀ w, w ∈ live ↔ ∃ t, s.waiterOf t = some w
  single : ∀ t t' w, s.waiterOf t = some w → s.waiterOf t' = some w → t = t'

theorem seated_start (options : ConnectOptions) (pipe : Pipe) (messageIds : MessageIds)
    (tokens : Tokens) (timer : Timer) : (start options pipe messageIds tokens timer).Seated where
  live := by
    refine ⟨[], Exchanges.serves_empty, ?_⟩
    intro w
    refine ⟨nofun, ?_⟩
    rintro ⟨t, ht⟩
    cases t <;> cases ht
  single := by
    intro t t' w ht
    cases t <;> cases ht

/-- Seats that do not change. -/
theorem Seated.of_waiters (h : s.Seated) (hw : ∀ t, s'.waiterOf t = s.waiterOf t)
    (hserves : ∀ live, s.connection.exchanges.Serves live → s'.connection.exchanges.Serves live) :
    s'.Seated where
  live := by
    obtain ⟨live, hlive, hmem⟩ := h.live
    refine ⟨live, hserves live hlive, ?_⟩
    intro w
    simp only [hw]
    exact hmem w
  single := by
    intro t t' w
    rw [hw, hw]
    exact h.single t t' w

/-- A task that had no waiter gets a new one. -/
theorem Seated.register {w : Waiter} (h : s.Seated) (hfree : s.waiterOf task = none)
    (hregister : s.connection.exchanges.register w.id = .ok (w, s'.connection.exchanges))
    (hown : s'.waiterOf task = some w) (hothers : ∀ t, t ≠ task → s'.waiterOf t = s.waiterOf t) :
    s'.Seated := by
  obtain ⟨⟨live, hlive, hmem⟩, hsingle⟩ := h
  have hticket := (Exchanges.register_eq_ok hregister).1
  -- The new waiter is none of the live ones.
  have hnew : ∀ t, s.waiterOf t ≠ some w := by
    intro t ht
    have hlt := hlive.ticket_lt w ((hmem w).mpr ⟨t, ht⟩)
    omega
  refine ⟨⟨live ++ [w], hlive.register hregister, ?_⟩, ?_⟩
  · intro v
    rw [List.mem_append, List.mem_singleton, hmem]
    constructor
    · rintro (⟨t, ht⟩ | rfl)
      · have hne : t ≠ task := by
          rintro rfl
          rw [hfree] at ht
          cases ht
        exact ⟨t, (hothers t hne).trans ht⟩
      · exact ⟨task, hown⟩
    · rintro ⟨t, ht⟩
      by_cases hne : t = task
      · rw [hne, hown] at ht
        cases ht
        exact .inr rfl
      · exact .inl ⟨t, (hothers t hne).symm.trans ht⟩
  · intro t t' v ht ht'
    by_cases hv : v = w
    · -- The new waiter is that of the one task.
      subst hv
      have honly (u : Task) (hu : s'.waiterOf u = some v) : u = task := by
        by_contra hne
        exact hnew u ((hothers u hne).symm.trans hu)
      rw [honly t ht, honly t' ht']
    · have hold (u : Task) (hu : s'.waiterOf u = some v) : s.waiterOf u = some v := by
        by_cases hne : u = task
        · rw [hne, hown] at hu
          cases hu
          exact absurd rfl hv
        · exact (hothers u hne).symm.trans hu
      exact hsingle t t' v (hold t ht) (hold t' ht')

/-- A task gives its waiter up. -/
theorem Seated.release {w : Waiter} (h : s.Seated) (hown : s.waiterOf task = some w)
    (hexchanges : s'.connection.exchanges = s.connection.exchanges.release w)
    (hgone : s'.waiterOf task = none) (hothers : ∀ t, t ≠ task → s'.waiterOf t = s.waiterOf t) :
    s'.Seated := by
  obtain ⟨⟨live, hlive, hmem⟩, hsingle⟩ := h
  have hold (u : Task) (v : Waiter) (hu : s'.waiterOf u = some v) :
      u ≠ task ∧ s.waiterOf u = some v := by
    have hne : u ≠ task := by
      rintro rfl
      rw [hgone] at hu
      cases hu
    exact ⟨hne, (hothers u hne).symm.trans hu⟩
  have hfilter (v : Waiter) : v ∈ live.filter (fun v => v != w) ↔ v ∈ live ∧ v ≠ w := by
    simp
  refine ⟨⟨live.filter fun v => v != w, ?_, ?_⟩, ?_⟩
  · rw [hexchanges]
    exact hlive.release ((hmem w).mpr ⟨task, hown⟩) List.filter_sublist hfilter
  · intro v
    rw [hfilter, hmem]
    constructor
    · rintro ⟨⟨t, ht⟩, hne⟩
      have htask : t ≠ task := by
        rintro rfl
        rw [hown] at ht
        cases ht
        exact hne rfl
      exact ⟨t, (hothers t htask).trans ht⟩
    · rintro ⟨t, ht⟩
      obtain ⟨htask, ht⟩ := hold t v ht
      refine ⟨⟨t, ht⟩, ?_⟩
      -- No other task had the waiter that is given up.
      rintro rfl
      exact htask (hsingle t task v ht hown)
  · intro t t' v ht ht'
    exact hsingle t t' v (hold t v ht).2 (hold t' v ht').2

theorem Seated.move (h : s.Seated) (htable : TableMove s s' m) : s'.Seated := by
  cases htable with
  | kept quiet exchanges waiters =>
    exact h.of_waiters waiters fun live hlive => by rw [exchanges]; exact hlive
  | answered a mover answer phase exchanges waiters =>
    refine h.of_waiters waiters fun live hlive => ?_
    rw [exchanges]
    exact hlive.of_decides (hlive.decides_resolve a.id _)
  | failed e id ids mover quiet phase exchanges waiters =>
    refine h.of_waiters waiters fun live hlive => ?_
    rw [exchanges]
    exact hlive.of_decides (hlive.decides_resolve id _)
  | registered task w quiet free register own others => exact h.register free register own others
  | released task w quiet own exchanges gone others => exact h.release own exchanges gone others

/-- What is known of a waiter: it has no result, and no answer to its id has been routed; or its
result is the first such answer; or it is the failure, and no answer came before it. -/
def Accounted (answered : List Message) (failed : List ClientError) (x : Exchanges) (w : Waiter) :
    Prop :=
  (x.Undecided w ∧ answered = []) ∨
  (∃ a, x.Decided w (.ok a) ∧ answered.head? = some a) ∨
  ∃ e, x.Decided w (.error e) ∧ answered = [] ∧ failed = [e]

/-- All live waiters are accounted for, and none has been answered before it was registered. -/
structure Ledger (answered : Waiter → List Message) (failed : List ClientError) (s : Session) :
    Prop where
  unasked : ∀ w, s.connection.exchanges.nextTicket ≤ w.ticket → answered w = []
  accounted : ∀ t w, s.waiterOf t = some w →
    Accounted (answered w) failed s.connection.exchanges w

variable {answered : Waiter → List Message} {x y : Exchanges} {w : Waiter} {received : List Message}

theorem Accounted.of_alike (h : Accounted received failed x w) (halike : Exchanges.Alike w x y) :
    Accounted received failed y w := by
  rcases h with ⟨hu, hnone⟩ | ⟨a, hd, hfirst⟩ | ⟨e, hd, hnone, he⟩
  · exact .inl ⟨halike.undecided hu, hnone⟩
  · exact .inr (.inl ⟨a, halike.decided hd, hfirst⟩)
  · exact .inr (.inr ⟨e, halike.decided hd, hnone, he⟩)

theorem failures_of_phase (h : ∀ e, s.receiver ≠ .failing e) : s.failures m = [] := by
  unfold failures
  split
  · split
    · rename_i hphase
      exact absurd hphase (h _)
    · rfl
  · rfl

/-- Once the connection has failed it does not fail again. -/
theorem Phase.failures_eq_nil {e : ClientError} (h : Phase [e] s) (m : Move) :
    s.failures m = [] := by
  apply failures_of_phase
  intro e' hphase
  unfold Phase at h
  rw [hphase] at h
  cases h.2

theorem Accounted.of_failures (h : Accounted received failed x w) (hphase : Phase failed s)
    (m : Move) : Accounted received (failed ++ s.failures m) x w := by
  rcases h with hu | hd | ⟨e, hd, hnone, rfl⟩
  · exact .inl hu
  · exact .inr (.inl hd)
  · refine .inr (.inr ⟨e, hd, hnone, ?_⟩)
    rw [hphase.failures_eq_nil, List.append_nil]

/-- The end of the exchange with some id decides a waiter that has this id and no result; others
keep what they have. -/
theorem Accounted.failure {live : List Waiter} {e : ClientError} (h : Accounted received [e] x w)
    (hlive : x.Serves live) (hw : w ∈ live) (id : UInt16) :
    Accounted received [e] (x.resolve id (.error e)).2 w := by
  by_cases hhit : w ∈ x.pending ∧ w.id = id
  · rcases h with ⟨hu, hnone⟩ | ⟨b, hd, -⟩ | ⟨_, hd, -⟩
    · exact .inr (.inr ⟨e, Exchanges.decided_resolve hlive hu hhit.2 _, hnone, rfl⟩)
    · exact absurd hhit.1 hd.1
    · exact absurd hhit.1 hd.1
  · exact h.of_alike (Exchanges.alike_resolve hlive hw hhit _)

/-- An answer decides a waiter that has its id and no result. -/
theorem Accounted.answer {live : List Waiter} (h : Accounted received [] x w)
    (hlive : x.Serves live) (hw : w ∈ live) (a : Message) :
    Accounted (received ++ if a.id == w.id then [a] else []) [] (x.complete a).2 w := by
  rcases h with ⟨hu, hnone⟩ | ⟨b, hd, hfirst⟩ | ⟨e, hd, hnone, he⟩
  · rw [hnone, List.nil_append]
    by_cases hid : w.id = a.id
    · have hhit : (a.id == w.id) = true := beq_iff_eq.mpr hid.symm
      rw [if_pos hhit]
      exact .inr (.inl ⟨a, Exchanges.decided_resolve hlive hu hid _, rfl⟩)
    · have hmiss : ¬ (a.id == w.id) = true := fun he => hid (eq_of_beq he).symm
      have halike := Exchanges.alike_resolve hlive hw (fun hp => hid hp.2) (.ok a)
      rw [if_neg hmiss]
      exact .inl ⟨halike.undecided hu, rfl⟩
  · -- A later answer changes neither the result nor what came first.
    have hother : ¬ (w ∈ x.pending ∧ w.id = a.id) := fun hp => hd.1 hp.1
    have halike := Exchanges.alike_resolve hlive hw hother (.ok a)
    refine .inr (.inl ⟨b, halike.decided hd, ?_⟩)
    rw [List.head?_append, hfirst]
    rfl
  · cases he

theorem answersFor_of_quiet (h : s.answers m = []) (w : Waiter) : answersFor w s m = [] := by
  unfold answersFor
  rw [h]
  exact ite_self []

theorem nextTicket_le (h : TableMove s s' m) :
    s.connection.exchanges.nextTicket ≤ s'.connection.exchanges.nextTicket := by
  have hresolve (x : Exchanges) (id : UInt16) (r : Outcome) :
      (x.resolve id r).2.nextTicket = x.nextTicket := by
    unfold Exchanges.resolve
    split <;> rfl
  cases h with
  | kept _ exchanges _ => exact Nat.le_of_eq (by rw [exchanges])
  | registered _ _ _ _ register _ _ =>
    rw [(Exchanges.register_eq_ok register).2.1]
    exact Nat.le_succ _
  | released _ _ _ _ exchanges _ _ => exact Nat.le_of_eq (by rw [exchanges]; rfl)
  | answered a _ _ _ exchanges _ =>
    exact Nat.le_of_eq (by rw [exchanges, Exchanges.complete, hresolve])
  | failed _ _ _ _ _ _ exchanges _ => exact Nat.le_of_eq (by rw [exchanges, hresolve])

/-- A move keeps all waiters accounted for. -/
theorem Ledger.move (h : Ledger answered failed s) (hseated : s.Seated) (hphase : Phase failed s)
    (htable : TableMove s s' m) :
    Ledger (fun w => answered w ++ answersFor w s m) (failed ++ s.failures m) s' where
  unasked := by
    intro w hw
    have hle := nextTicket_le htable
    have hguard : ¬ w.ticket < s.connection.exchanges.nextTicket := by omega
    rw [h.unasked w (Nat.le_trans hle hw), List.nil_append]
    exact if_neg hguard
  accounted := by
    obtain ⟨⟨live, hlive, hmem⟩, hsingle⟩ := hseated
    have hbefore (t : Task) (w : Waiter) (hw : s.waiterOf t = some w) :=
      (h.accounted t w hw).of_failures hphase m
    have hseat {t : Task} {w : Waiter} (hw : s.waiterOf t = some w) : w ∈ live :=
      (hmem w).mpr ⟨t, hw⟩
    -- Where no answer is routed, it is enough that the table holds the same of the waiter.
    have hstays (hquiet : s.answers m = []) {t : Task} {w : Waiter} (hw : s.waiterOf t = some w)
        (halike : Exchanges.Alike w s.connection.exchanges s'.connection.exchanges) :
        Accounted (answered w ++ answersFor w s m) (failed ++ s.failures m)
          s'.connection.exchanges w := by
      rw [answersFor_of_quiet hquiet, List.append_nil]
      exact (hbefore t w hw).of_alike halike
    intro t w hw
    cases htable with
    | kept quiet exchanges waiters =>
      rw [waiters] at hw
      refine hstays quiet hw ?_
      rw [exchanges]
      exact ⟨Iff.rfl, rfl⟩
    | registered task v quiet free register own others =>
      by_cases ht : t = task
      · -- A new waiter has its entry, and its ticket has not been answered to.
        rw [ht, own] at hw
        cases hw
        have hticket := (Exchanges.register_eq_ok register).1
        have hnone := h.unasked w (Nat.le_of_eq hticket.symm)
        refine .inl ⟨?_, ?_⟩
        · exact Exchanges.undecided_register hlive register
        · rw [hnone, answersFor_of_quiet quiet]
          rfl
      · have hold := (others t ht).symm.trans hw
        exact hstays quiet hold (Exchanges.alike_register hlive (hseat hold) register)
    | released task v quiet own exchanges gone others =>
      have ht : t ≠ task := by
        rintro rfl
        rw [gone] at hw
        cases hw
      have hold := (others t ht).symm.trans hw
      have hne : w ≠ v := by
        rintro rfl
        exact ht (hsingle t task w hold own)
      refine hstays quiet hold ?_
      rw [exchanges]
      exact Exchanges.alike_release hlive (hseat hold) (hseat own) hne
    | answered a mover answer phase exchanges waiters =>
      rw [waiters] at hw
      -- The connection has not failed while answers are routed.
      have hnot : failed ++ s.failures m = [] := by
        unfold Phase at hphase
        rw [phase] at hphase
        rw [hphase.2, failures_of_phase (fun _ h => nomatch phase.symm.trans h), List.append_nil]
      have hlt := hlive.ticket_lt w (hseat hw)
      have hfor : answersFor w s m = if a.id == w.id then [a] else [] := by
        unfold answersFor
        rw [if_pos hlt, answer, List.filter_cons, List.filter_nil]
      have hcase := hbefore t w hw
      rw [hnot] at hcase
      rw [hfor, exchanges, hnot]
      exact hcase.answer hlive (hseat hw) a
    | failed e id ids mover quiet phase exchanges waiters =>
      rw [waiters] at hw
      -- This is the one failure, and what it ends has not been answered.
      have hthis : failed ++ s.failures m = [e] := by
        unfold Phase at hphase
        rw [phase] at hphase
        rw [hphase.2, failures_of_phase (fun _ h => nomatch phase.symm.trans h)]
        rfl
      have hcase := hbefore t w hw
      rw [hthis] at hcase
      rw [answersFor_of_quiet quiet, List.append_nil, exchanges, hthis]
      exact hcase.failure hlive (hseat hw) id

/-- The answers to a waiter's id that have been routed since it was registered. -/
def answersTo (first : Session) (w : Waiter) (past : List Move) : List Message :=
  along (answersFor w) first past

/-- The errors with which the connection has come to its end. -/
def failuresOf (first : Session) (past : List Move) : List ClientError := along failures first past

/-- What holds after every run of a client from its start. -/
structure Kept (first : Session) (past : List Move) (s : Session) : Prop where
  seated : s.Seated
  phase : Phase (failuresOf first past) s
  ledger : Ledger (fun w => answersTo first w past) (failuresOf first past) s

theorem Kept.move {first : Session} {past : List Move} (h : Kept first past s)
    (hrun : first.run past = some s) (hs : s.move m = some s') : Kept first (past ++ [m]) s' := by
  have htable := tableMove_of_move hs
  have hanswers (w : Waiter) := along_concat (answersFor w) hrun m
  have hfailures := along_concat failures hrun m
  refine ⟨h.seated.move htable, ?_, ?_⟩
  · unfold failuresOf
    rw [hfailures]
    exact h.phase.move hs
  · unfold answersTo failuresOf
    simp only [hanswers, hfailures]
    exact h.ledger.move h.seated h.phase htable

theorem kept_run {options : ConnectOptions} {pipe : Pipe} {messageIds : MessageIds}
    {tokens : Tokens} {timer : Timer}
    {past : List Move} (hs : (start options pipe messageIds tokens timer).run past = some s) :
    Kept (start options pipe messageIds tokens timer) past s := by
  let first := start options pipe messageIds tokens timer
  have hfirst : Kept first [] first := by
    refine ⟨seated_start _ _ _ _ _, ⟨rfl, rfl⟩, ⟨fun _ _ => rfl, ?_⟩⟩
    intro t w ht
    cases t <;> cases ht
  exact run_induction (P := Kept first) hfirst (fun _ _ _ _ hrun h hs => h.move hrun hs) hs

end Session

end Coap
