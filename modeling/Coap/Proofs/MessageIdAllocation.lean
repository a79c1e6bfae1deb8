import Coap.Proofs.ResponseCorrelation
import Mathlib.Algebra.GroupWithZero.Nat
import Mathlib.Data.List.Perm.Subperm

/-! How message ids are handed out: the first free one of those that follow the cursor, so that no two
outstanding exchanges share an id, however often the ids have wrapped. -/
namespace Coap

/-- The id that is tried after `k` others, counted on from the cursor, and from 0 after 65535. -/
def MessageIds.ahead (ids : MessageIds) (k : Nat) : UInt16 := UInt16.ofNat (ids.next.toNat + k)

namespace MessageIds

variable {ids : MessageIds} {j k : Nat}

theorem ahead_zero (ids : MessageIds) : ids.ahead 0 = ids.next := by
  unfold ahead
  rw [Nat.add_zero, UInt16.ofNat_toNat]

/-- What is ahead of the cursor once it has moved on. -/
theorem ahead_take (ids : MessageIds) (k : Nat) : ids.take.2.ahead k = ids.ahead (k + 1) := by
  unfold ahead take
  apply UInt16.toNat_inj.mp
  simp only [UInt16.toNat_ofNat', UInt16.toNat_add, UInt16.toNat_one]
  omega

theorem ahead_sub_next (ids : MessageIds) (k : Nat) : ids.ahead k - ids.next = UInt16.ofNat k := by
  unfold ahead
  rw [UInt16.ofNat_add, UInt16.ofNat_toNat, UInt16.add_comm, UInt16.add_sub_cancel]

theorem ahead_succ (ids : MessageIds) (k : Nat) : ids.ahead (k + 1) = ids.ahead k + 1 := by
  unfold ahead
  rw [← Nat.add_assoc, UInt16.ofNat_add]
  rfl

/-- Ids repeat only after all of them have been tried. -/
theorem ahead_injective (hj : j < 2 ^ 16) (hk : k < 2 ^ 16) (h : ids.ahead j = ids.ahead k) : j = k := by
  have hnat := congrArg UInt16.toNat h
  unfold ahead at hnat
  simp only [UInt16.toNat_ofNat'] at hnat
  omega

/-- Fewer entries than ids to try leave one of these free. -/
theorem exists_free {x : Exchanges} {n : Nat} (hn : n ≤ 2 ^ 16) (h : x.size < n) (ids : MessageIds) :
    ∃ k < n, ids.ahead k ∉ x.ids := by
  -- Otherwise `n` distinct ids would all be in a table of fewer entries.
  by_contra hall
  push Not at hall
  have hdistinct : ((List.range n).map ids.ahead).Nodup := by
    refine List.Nodup.map_on ?_ List.nodup_range
    intro j hj k hk
    rw [List.mem_range] at hj hk
    exact ahead_injective (by omega) (by omega)
  have hsubset : (List.range n).map ids.ahead ⊆ x.ids := by
    intro id hid
    obtain ⟨k, hk, rfl⟩ := List.mem_map.mp hid
    exact hall k (List.mem_range.mp hk)
  have hlength := (List.subperm_of_subset hdistinct hsubset).length_le
  rw [List.length_map, List.length_range] at hlength
  have hsize : x.ids.length = x.size := List.length_map ..
  omega

end MessageIds

/-- What comes of trying `n` ids: the first free one is registered, or all of them are taken. -/
inductive Allocation (n : Nat) (ids : MessageIds) (x : Exchanges) :
    Option Waiter × MessageIds × Exchanges → Prop
  | found (k : Nat) (within : k < n) (free : ids.ahead k ∉ x.ids)
      (taken : ∀ j < k, ids.ahead j ∈ x.ids) :
      Allocation n ids x (some ⟨ids.ahead k, x.nextTicket⟩, { next := ids.ahead (k + 1) },
        { x with pending := x.pending ++ [⟨ids.ahead k, x.nextTicket⟩], nextTicket := x.nextTicket + 1 })
  | exhausted (taken : ∀ j < n, ids.ahead j ∈ x.ids) :
      Allocation n ids x (none, { next := ids.ahead n }, x)

theorem allocation (n : Nat) (ids : MessageIds) (x : Exchanges) :
    Allocation n ids x (allocate n ids x) := by
  -- The first id decides, or all others count from the next one.
  induction n generalizing ids with
  | zero =>
    have hnone : Allocation 0 ids x (none, { next := ids.ahead 0 }, x) :=
      .exhausted fun j hj => absurd hj (Nat.not_lt_zero j)
    rw [MessageIds.ahead_zero] at hnone
    exact hnone
  | succ n ih =>
    unfold allocate
    have hfirst : ids.take.1 = ids.ahead 0 := (MessageIds.ahead_zero ids).symm
    have hrest (j : Nat) : ids.take.2.ahead j = ids.ahead (j + 1) := MessageIds.ahead_take ids j
    by_cases hid : ids.take.1 ∈ x.ids
    · have htaken {k : Nat} (h : ∀ j < k, ids.take.2.ahead j ∈ x.ids) :
          ∀ j < k + 1, ids.ahead j ∈ x.ids := by
        intro j hj
        cases j with
        | zero => rwa [← hfirst]
        | succ j =>
          rw [← hrest]
          exact h j (by omega)
      dsimp only
      rw [Exchanges.register_of_mem_ids hid]
      dsimp only
      generalize hresult : allocate n ids.take.2 x = result
      have hnext := ih ids.take.2
      rw [hresult] at hnext
      cases hnext with
      | found k within free taken =>
        rw [hrest] at free
        rw [hrest, hrest]
        exact .found (k + 1) (by omega) free (htaken taken)
      | exhausted taken =>
        rw [hrest]
        exact .exhausted (htaken taken)
    · dsimp only
      rw [Exchanges.register_of_ids hid]
      have hsecond : ids.take.2 = { next := ids.ahead 1 } := by
        rw [← hrest, MessageIds.ahead_zero]
      dsimp only
      rw [hsecond, hfirst]
      exact .found 0 (Nat.succ_pos n) (by rwa [← hfirst]) fun j hj => absurd hj (Nat.not_lt_zero j)

namespace Allocation

variable {n : Nat} {ids ids' : MessageIds} {x y : Exchanges} {result : Option Waiter}

/-- The first free id is handed out, and the cursor goes on to the one after it. -/
theorem of_free (h : Allocation n ids x (result, ids', y)) {k : Nat} (hk : k < n)
    (hfree : ids.ahead k ∉ x.ids) (htaken : ∀ j < k, ids.ahead j ∈ x.ids) :
    ∃ w, result = some w ∧ w.id = ids.ahead k ∧ ids'.next = ids.ahead (k + 1) ∧
      y.ids = x.ids ++ [ids.ahead k] := by
  cases h with
  | found j within free taken =>
    have hle : j ≤ k := Nat.le_of_not_lt fun hlt => hfree (taken k hlt)
    have hge : k ≤ j := Nat.le_of_not_lt fun hlt => free (htaken j hlt)
    obtain rfl : j = k := Nat.le_antisymm hle hge
    exact ⟨_, rfl, rfl, rfl, by simp [Exchanges.ids]⟩
  | exhausted taken => exact absurd (taken k hk) hfree

theorem eq_none_iff (h : Allocation n ids x (result, ids', y)) :
    result = none ↔ ∀ k < n, ids.ahead k ∈ x.ids := by
  cases h with
  | found k within free taken => exact iff_of_false nofun fun hall => free (hall k within)
  | exhausted taken => exact iff_of_true rfl taken

theorem of_none (h : Allocation n ids x (none, ids', y)) : y = x := by
  cases h
  rfl

/-- What is handed out is free, and the cursor is just behind it. -/
theorem of_some {w : Waiter} (h : Allocation n ids x (some w, ids', y)) :
    x.register w.id = .ok (w, y) ∧ ids'.next = w.id + 1 := by
  cases h with
  | found k within free taken =>
    exact ⟨Exchanges.register_of_ids free, MessageIds.ahead_succ ids k⟩

/-- The cursor moves on by the number of ids that have been tried. -/
theorem advance (h : Allocation n ids x (result, ids', y)) :
    ∃ k ≤ n, ids'.next - ids.next = UInt16.ofNat k ∧ (result ≠ none → 0 < k) := by
  cases h with
  | found k within free taken =>
    exact ⟨k + 1, within, MessageIds.ahead_sub_next ids (k + 1), fun _ => Nat.succ_pos k⟩
  | exhausted taken =>
    exact ⟨n, Nat.le_refl n, MessageIds.ahead_sub_next ids n, fun h => absurd rfl h⟩

end Allocation

/-- Registering tries ids, and the exchange goes on with what comes of it. -/
theorem Connection.step_checked (c : Connection) (cancelled : Bool) (r : Message) :
    let a := allocate maxIdAttempts c.messageIds c.exchanges
    c.step cancelled (.checked r) = some {
      connection := { c with messageIds := a.2.1, exchanges := a.2.2 }
      exchange := match a.1 with
        | some w => .registered { r with id := w.id } w
        | none => .ended (.error .noMessageIdAvailable) } := by
  unfold step
  dsimp only
  generalize allocate maxIdAttempts c.messageIds c.exchanges = a
  obtain ⟨result, ids, x⟩ := a
  cases result <;> rfl

/-- No other step of an exchange moves the cursor or adds an entry. -/
theorem Connection.Advance.cursor_kept {c : Connection} {cancelled : Bool} {e : Exchange}
    {c' : Connection.Stepped} (h : c.Advance cancelled e c') (he : ∀ r, e ≠ .checked r) :
    c'.connection.messageIds = c.messageIds ∧
      ∀ v ∈ c'.connection.exchanges.pending, v ∈ c.exchanges.pending := by
  have hrelease (w : Waiter) : ∀ v ∈ (c.exchanges.release w).pending, v ∈ c.exchanges.pending :=
    fun v hv => ((Exchanges.pending_release _ w v).mp hv).1
  cases h with
  | exhausted => exact absurd rfl (he _)
  | registered _ => exact absurd rfl (he _)
  | shut _ => exact ⟨rfl, hrelease _⟩
  | stopped _ => exact ⟨rfl, hrelease _⟩
  | unsent _ => exact ⟨rfl, hrelease _⟩
  | fetched hfetch =>
    rw [Exchanges.fetch_releases hfetch]
    exact ⟨rfl, hrelease _⟩
  | _ => exact ⟨rfl, fun _ hv => hv⟩

namespace Session

variable {first s s' : Session} {m : Move} {w : Waiter} {moves : List Move}

theorem messageIds_accept (s : Session) (i : Input) :
    (s.accept i).connection.messageIds = s.connection.messageIds := by
  cases i with
  | message m =>
    change ((s.arrive m).toOption.getD s).connection.messageIds = _
    unfold arrive Pipe.peerSend
    repeat' split
    all_goals rfl
  | abort k =>
    change (s.abort k).connection.messageIds = _
    unfold abort
    split
    · rfl
    · dsimp only
      split
      · unfold Connection.abandon
        split <;> rfl
      · rfl
  | _ => rfl

theorem messageIds_stepReceiver (hs : s.stepReceiver = some s') :
    s'.connection.messageIds = s.connection.messageIds := by
  cases reception_of_step hs with
  | routed a wire phase going arrival next =>
    rw [next]
    unfold route
    split <;> rfl
  | stopped _ _ _ _ next => rw [next]; rfl
  | replied _ _ _ _ next => rw [next]; rfl
  | shut _ _ next => rw [next]
  | collected _ _ next => rw [next]
  | failed _ _ _ _ next => rw [next]; rfl
  | drained _ _ next => rw [next]
  | cleared _ next => rw [next]
  | closed _ next => rw [next]; rfl

/-- A move after which no task has a new waiter hands out no id. -/
theorem registers_of_waiters (hs : s.move m = some s')
    (h : ∀ t w, s'.waiterOf t = some w → s.waiterOf t = some w) : s.registers m = [] := by
  rcases (tableMove_of_move hs).registers_or_fewer with ⟨t, w, hfree, hown, -⟩ | hfewer
  · have hold := h t w hown
    rw [hfree] at hold
    cases hold
  · exact registers_eq_nil hs hfewer

/-- What a move does to the cursor: nothing, and then no id is handed out; or a task tries ids. -/
inductive CursorMove (s s' : Session) (m : Move) : Prop
  | kept (cursor : s'.connection.messageIds = s.connection.messageIds) (quiet : s.registers m = [])
  | tried (t : Task) (r : Message) (result : Option Waiter) (mover : m = .step t)
      (before : s.exchangeOf t = some (.checked r))
      (allocated : Allocation maxIdAttempts s.connection.messageIds s.connection.exchanges
        (result, s'.connection.messageIds, s'.connection.exchanges))

theorem cursorMove_of_move (hs : s.move m = some s') : CursorMove s s' m := by
  cases effect_of_move hs with
  | @exchanged t e c only before step connection after =>
    -- Of all steps of an exchange only one looks for an id.
    by_cases hchecked : ∃ r, e = .checked r
    · obtain ⟨r, rfl⟩ := hchecked
      rw [Connection.step_checked] at step
      cases step
      refine .tried t r (allocate maxIdAttempts s.connection.messageIds s.connection.exchanges).1 rfl
        before ?_
      rw [connection]
      exact allocation ..
    · obtain ⟨hcursor, hpending⟩ := (Connection.advance_of_step step).cursor_kept fun r he =>
        hchecked ⟨r, he⟩
      rw [← connection] at hcursor hpending
      exact .kept hcursor (registers_eq_nil hs hpending)
  | turned own only before connection after =>
    exact .kept (by rw [connection]) (registers_eq_nil hs fun v hv => by rwa [connection] at hv)
  | received step kept =>
    refine .kept (messageIds_stepReceiver step) (registers_of_waiters hs fun t w hw => ?_)
    rwa [waiterOf_of_exchangeOf (kept t)] at hw
  | @dropped n only exchanges closed wire after =>
    cases hs
    refine .kept (messageIds_accept s _) (registers_of_waiters (m := .input (.abort n)) rfl ?_)
    intro t w hw
    by_cases ht : t = .operation n
    · unfold waiterOf at hw
      rw [ht, after] at hw
      cases hw
    · rwa [waiterOf_of_exchangeOf (only.others t ht)] at hw
  | @disturbed i kept receiver exchanges closed shut toPeer =>
    cases hs
    refine .kept (messageIds_accept s i) (registers_of_waiters (m := .input i) rfl fun t w hw => ?_)
    rwa [waiterOf_of_exchangeOf (kept t)] at hw

/-- How far a move takes the cursor. -/
def advances (s : Session) (m : Move) : List Nat :=
  match s.move m with
  | some s' => [(s'.connection.messageIds.next - s.connection.messageIds.next).toNat]
  | none => []

/-- How far a run takes the cursor, all its rounds included. -/
def travelled (first : Session) (moves : List Move) : Nat := (along advances first moves).sum

theorem advances_eq (hs : s.move m = some s') : s.advances m =
    [(s'.connection.messageIds.next - s.connection.messageIds.next).toNat] := by
  unfold advances
  rw [hs]

/-- A move tries at most `maxIdAttempts` ids, so that it never takes the cursor once around. -/
theorem advance_le (hs : s.move m = some s') :
    (s'.connection.messageIds.next - s.connection.messageIds.next).toNat ≤ maxIdAttempts := by
  cases cursorMove_of_move hs with
  | kept cursor quiet =>
    rw [cursor, UInt16.sub_self]
    exact Nat.zero_le _
  | tried _ _ result _ _ allocated =>
    obtain ⟨k, hk, hcursor, -⟩ := allocated.advance
    rw [hcursor, UInt16.toNat_ofNat']
    exact Nat.le_trans (Nat.mod_le _ _) hk

/-- Where the cursor stands is known from how far it has gone, but for the rounds. -/
theorem travelled_run (hs : first.run moves = some s) : UInt16.ofNat (travelled first moves) =
    s.connection.messageIds.next - first.connection.messageIds.next := by
  refine run_induction (P := fun past s => UInt16.ofNat (travelled first past) =
    s.connection.messageIds.next - first.connection.messageIds.next) ?_ ?_ hs
  · exact (UInt16.sub_self _).symm
  · intro past s m s' hpast h hs
    let origin := first.connection.messageIds.next
    let before := s.connection.messageIds.next
    let after := s'.connection.messageIds.next
    have hsum : travelled first (past ++ [m]) = travelled first past + (after - before).toNat := by
      unfold travelled
      rw [along_concat advances hpast, advances_eq hs, List.sum_append, List.sum_singleton]
    calc
      UInt16.ofNat (travelled first (past ++ [m])) = (before - origin) + (after - before) := by
        rw [hsum, UInt16.ofNat_add, h, UInt16.ofNat_toNat]
      _ = after - origin := by grind

/-- A move that hands out an id leaves the cursor just behind it. -/
theorem cursor_of_registers (hs : s.move m = some s') (hw : w ∈ s.registers m) :
    s'.connection.messageIds.next = w.id + 1 ∧
      0 < (s'.connection.messageIds.next - s.connection.messageIds.next).toNat := by
  cases cursorMove_of_move hs with
  | kept cursor quiet =>
    rw [quiet] at hw
    cases hw
  | tried _ _ result _ _ allocated =>
    cases result with
    | none =>
      have hsame := allocated.of_none
      rw [registers_eq_nil hs fun v hv => by rwa [hsame] at hv] at hw
      cases hw
    | some v =>
      obtain ⟨hregister, hcursor⟩ := allocated.of_some
      rw [registers_of_register hs hregister] at hw
      obtain rfl := List.mem_singleton.mp hw
      obtain ⟨k, hk, hgone, hpos⟩ := allocated.advance
      have hsmall : k < 2 ^ 16 := Nat.lt_of_le_of_lt hk (by decide)
      refine ⟨hcursor, ?_⟩
      rw [hgone, UInt16.toNat_ofNat', Nat.mod_eq_of_lt hsmall]
      exact hpos nofun

/-- An id is handed out again only once the cursor has been all the way around. -/
theorem round_of_reuse {s₁ s₂ s₃ : Session} {m m' : Move} {between : List Move} {w w' : Waiter}
    (hm : s.move m = some s₁) (hw : w ∈ s.registers m) (hbetween : s₁.run between = some s₂)
    (hm' : s₂.move m' = some s₃) (hw' : w' ∈ s₂.registers m') (hid : w'.id = w.id) :
    2 ^ 16 ≤ travelled s₁ (between ++ [m']) := by
  obtain ⟨hcursor, -⟩ := cursor_of_registers hm hw
  obtain ⟨hcursor', hpos⟩ := cursor_of_registers hm' hw'
  have hrun : s₁.run (between ++ [m']) = some s₃ := by
    rw [run_concat, hbetween]
    exact hm'
  -- Both times the cursor stands behind the same id, so it has come round, or has not moved at all.
  have hround := travelled_run hrun
  rw [hcursor, hcursor', hid, UInt16.sub_self] at hround
  have hmultiple : travelled s₁ (between ++ [m']) % 2 ^ 16 = 0 := by
    have hnat := congrArg UInt16.toNat hround
    rwa [UInt16.toNat_ofNat'] at hnat
  have hmoved : 0 < travelled s₁ (between ++ [m']) := by
    unfold travelled
    rw [along_concat advances hbetween, advances_eq hm', List.sum_append, List.sum_singleton]
    omega
  omega

/-- How a session hands out ids, where `c` is the cursor and `x` the table. -/
structure Allocates (s : Session) (c : MessageIds) (x : Exchanges)
    (a : Option Waiter × MessageIds × Exchanges) : Prop where
  /-- No two outstanding exchanges have the same id. -/
  distinct : x.ids.Nodup
  /-- The first free id is handed out. It is added to the table, and the cursor goes on behind it. -/
  found : ∀ k < maxIdAttempts, c.ahead k ∉ x.ids → (∀ j < k, c.ahead j ∈ x.ids) →
    ∃ w, a.1 = some w ∧ w.id = c.ahead k ∧ a.2.1.next = c.ahead (k + 1) ∧
      a.2.2.ids = x.ids ++ [c.ahead k]
  /-- There is none if all that are tried are outstanding. -/
  exhausted : a.1 = none ↔ ∀ k < maxIdAttempts, c.ahead k ∈ x.ids
  unchanged : a.1 = none → a.2.2 = x
  /-- So there is one while less is outstanding than tried. -/
  succeeds : x.size < maxIdAttempts → a.1.isSome = true
  fresh : ∀ w, a.1 = some w → w.id ∉ x.ids
  /-- Every task that is about to register does so in its next step, which it has. -/
  registers : ∀ t r, s.exchangeOf t = some (.checked r) → ∃ s', s.move (.step t) = some s' ∧
    s'.connection.messageIds = a.2.1 ∧ s'.connection.exchanges = a.2.2 ∧
    s'.exchangeOf t = some (match a.1 with
      | some w => .registered { r with id := w.id } w
      | none => .ended (.error .noMessageIdAvailable))
  /-- No other move hands out an id or moves the cursor. -/
  others : ∀ m s', s.move m = some s' → (∀ t r, m = .step t → s.exchangeOf t ≠ some (.checked r)) →
    s'.connection.messageIds = c ∧ s.registers m = []
  /-- An id that a move hands out is handed out again only once the cursor has moved on by all of
  them, in moves of which each takes it at most as far as ids are tried. -/
  reused : ∀ m s₁ w between s₂ m' s₃ w', s.move m = some s₁ → w ∈ s.registers m →
    s₁.run between = some s₂ → s₂.move m' = some s₃ → w' ∈ s₂.registers m' → w'.id = w.id →
      2 ^ 16 ≤ travelled s₁ (between ++ [m']) ∧
        ∀ n ∈ along advances s₁ (between ++ [m']), n ≤ maxIdAttempts

/-- A task that is about to register takes its step, by which it gets an id or ends without one. -/
theorem registration_step {t : Task} {r : Message} (he : s.exchangeOf t = some (.checked r)) :
    let a := allocate maxIdAttempts s.connection.messageIds s.connection.exchanges
    ∃ s', s.move (.step t) = some s' ∧ s'.connection.messageIds = a.2.1 ∧
      s'.connection.exchanges = a.2.2 ∧
      s'.exchangeOf t = some (match a.1 with
        | some w => .registered { r with id := w.id } w
        | none => .ended (.error .noMessageIdAvailable)) := by
  intro a
  have hgoing (outcome : Outcome) : Exchange.checked r ≠ .ended outcome := nofun
  obtain ⟨s', hs⟩ := step_of_exchangeOf he hgoing (Connection.step_checked s.connection _ r)
  refine ⟨s', hs, ?_⟩
  have heffect : Effect s s' (.step t) := effect_of_move hs
  cases heffect with
  | exchanged only before step connection after =>
    rw [he] at before
    cases before
    rw [Connection.step_checked] at step
    cases step
    exact ⟨congrArg Connection.messageIds connection, congrArg Connection.exchanges connection, after⟩
  | turned own only before connection after =>
    obtain ⟨o, ho⟩ := before _ he
    cases ho
  | received step kept => cases he

/-- In every run of a client the ids that follow the cursor are handed out, the first free one at a
time. -/
theorem message_ids_are_allocated {options : ConnectOptions} {pipe : Pipe} {messageIds : MessageIds}
    {tokens : Tokens} {timer : Timer} {past : List Move} {s : Session}
    (hs : (start options pipe messageIds tokens timer).run past = some s) :
    Allocates s s.connection.messageIds s.connection.exchanges
      (allocate maxIdAttempts s.connection.messageIds s.connection.exchanges) := by
  obtain ⟨⟨live, hlive, -⟩, -⟩ := (kept_run hs).seated
  have hallocation :=
    allocation maxIdAttempts s.connection.messageIds s.connection.exchanges
  refine ⟨hlive.ids, fun k => hallocation.of_free, hallocation.eq_none_iff, ?_, ?_, ?_,
    fun t r => registration_step, ?_, ?_⟩
  · intro hnone
    generalize allocate maxIdAttempts s.connection.messageIds s.connection.exchanges = a at *
    obtain ⟨result, ids, y⟩ := a
    cases hnone
    exact hallocation.of_none
  · intro hsize
    obtain ⟨k, hk, hfree⟩ :=
      MessageIds.exists_free (by decide) hsize s.connection.messageIds
    cases hresult : (allocate maxIdAttempts s.connection.messageIds s.connection.exchanges).1 with
    | some w => rfl
    | none => exact absurd (hallocation.eq_none_iff.mp hresult k hk) hfree
  · intro w hw
    generalize allocate maxIdAttempts s.connection.messageIds s.connection.exchanges = a at *
    obtain ⟨result, ids, y⟩ := a
    cases hw
    exact (Exchanges.register_inv hallocation.of_some.1).1
  · intro m s' hmove hnone
    cases cursorMove_of_move hmove with
    | kept cursor quiet => exact ⟨cursor, quiet⟩
    | tried t r _ mover before _ => exact absurd before (hnone t r mover)
  · intro m s₁ w between s₂ m' s₃ w' hm hw hbetween hm' hw' hid
    refine ⟨round_of_reuse hm hw hbetween hm' hw' hid, ?_⟩
    intro n hn
    obtain ⟨_, m, _, s', -, -, hn⟩ := exists_of_mem_along hn
    cases hmove : s'.move m with
    | none =>
      unfold advances at hn
      rw [hmove] at hn
      cases hn
    | some s'' =>
      rw [advances_eq hmove] at hn
      rw [List.mem_singleton.mp hn]
      exact advance_le hmove

/-- The client of the run below, whose cursor stands at the last id. -/
def wrappingClient : Session :=
  let options : ConnectOptions :=
    { host := "", port := 0, timeout := 1, blockSize := .s16, blockTransfer := false
      credentials := none }
  start options {} { next := 65535 } { base := 0 }

/-- Two requests, up to their registration. -/
def wrappingMoves : List Move :=
  let request : Request := { message := { type := .confirmable, code := .request .get } }
  let call : Move := .input (.call (.request request) false)
  [call, call] ++
    (List.replicate 3 [Move.step (.operation 0), Move.step (.operation 1)]).flatten

/-- The second request gets the id after the last one. -/
theorem ids_wrap_around : ∃ s, wrappingClient.run wrappingMoves = some s ∧
    Allocates s s.connection.messageIds s.connection.exchanges
      (allocate maxIdAttempts s.connection.messageIds s.connection.exchanges) ∧
    s.connection.exchanges.ids = [65535, 0] ∧ s.connection.messageIds.next = 1 := by
  have hends : (wrappingClient.run wrappingMoves).map (fun s =>
      (s.connection.exchanges.ids, s.connection.messageIds.next)) = some ([65535, 0], 1) := rfl
  obtain ⟨s, hs, hids⟩ := Option.map_eq_some_iff.mp hends
  have hallocates := message_ids_are_allocated hs
  exact ⟨s, hs, hallocates, congrArg Prod.fst hids, congrArg Prod.snd hids⟩

end Session

end Coap
