import Coap.Proofs.SubscriptionBooks

/-! Tokens and the operations that are given them. Tokens stay apart until so many have been given that
the count has come round, and what has a token is the operation that was given it, or the subscription
that this operation has made. -/
namespace Coap

/-- Tokens are counted on from any number as they are from 0. -/
theorem Tokens.token_add (ts : Tokens) (c i : Nat) :
    ts.token (c + i) = Tokens.token { base := ts.base + UInt64.ofNat c } i := by
  unfold token
  rw [UInt64.ofNat_add, UInt64.add_assoc]

/-- Successive tokens differ, wherever the count stands, and whether or not they wrap. -/
theorem Tokens.nodup_tokens (ts : Tokens) (c : Nat) {k : Nat} (hk : k ≤ UInt64.size) :
    ((List.range' c k).map ts.token).Nodup := by
  refine List.Nodup.map_on ?_ List.nodup_range'
  intro i hi j hj hsame
  obtain ⟨a, ha, rfl⟩ := List.mem_range'.mp hi
  obtain ⟨b, hb, rfl⟩ := List.mem_range'.mp hj
  -- Counted from 0 over the base that they start at, both numbers are below the bound.
  rw [Nat.one_mul, Nat.one_mul, token_add, token_add] at hsame
  rw [token_injective _ (Nat.lt_of_lt_of_le ha hk) (Nat.lt_of_lt_of_le hb hk) hsame]

namespace Session

/-- The tokens that operations have been given along a run. -/
def grantsOf (first : Session) (past : List Move) : List (Nat × ByteArray) := along grants first past

variable {first s s' : Session} {m : Move} {n : Nat} {t : ByteArray} {past : List Move}
  {given : List (Nat × ByteArray)} {made : List Worker}

/-- A move gives one token at most, the next one. -/
theorem grants_cases (s : Session) (m : Move) :
    s.grants m = [] ∨ ∃ n, m = .step (.operation n) ∧ s.grants m = [(n, s.tokens.take.1)] := by
  unfold grants
  split
  · rename_i n
    split
    · rename_i call _
      cases call.request? with
      | none => exact .inl rfl
      | some a => exact .inr ⟨n, rfl, rfl⟩
    · exact .inl rfl
  · exact .inl rfl

/-- A token that a move gives is the next one. -/
theorem token_of_grants (h : (n, t) ∈ s.grants m) : t = s.tokens.take.1 := by
  rcases grants_cases s m with hnone | ⟨k, -, hone⟩
  · rw [hnone] at h
    cases h
  · rw [hone, List.mem_singleton] at h
    exact (Prod.mk.inj h).2

/-- The tokens that have been given are successive ones. -/
theorem grants_run (hs : first.run past = some s) :
    s.tokens = ⟨first.tokens.base, first.tokens.count + (grantsOf first past).length⟩ ∧
    (grantsOf first past).map Prod.snd =
      (List.range' first.tokens.count (grantsOf first past).length).map first.tokens.token := by
  refine run_induction (P := fun past s =>
    s.tokens = ⟨first.tokens.base, first.tokens.count + (grantsOf first past).length⟩ ∧
    (grantsOf first past).map Prod.snd =
      (List.range' first.tokens.count (grantsOf first past).length).map first.tokens.token)
    ⟨rfl, rfl⟩ ?_ hs
  intro past s m s' hpast ⟨htokens, hsnd⟩ hmove
  have hlast : grantsOf first (past ++ [m]) = grantsOf first past ++ s.grants m :=
    along_concat grants hpast m
  have hnext := (onward_of_move hmove).tokens
  rw [hlast]
  -- Either nothing is given, or the range grows by the token at its end.
  rcases grants_cases s m with hnone | ⟨n, -, hone⟩
  · rw [hnone] at hnext ⊢
    rw [List.append_nil]
    exact ⟨hnext.trans htokens, hsnd⟩
  · have htoken : s.tokens.take.1 =
        first.tokens.token (first.tokens.count + (grantsOf first past).length) := by
      rw [htokens]
      rfl
    rw [hone, htokens] at hnext
    rw [hone, List.map_append, hsnd, List.length_append, List.length_singleton, List.range'_concat,
      List.map_append, htoken, Nat.one_mul]
    exact ⟨hnext, rfl⟩

theorem nodup_grants (hs : first.run past = some s) (hbound : (grantsOf first past).length ≤ UInt64.size) :
    ((grantsOf first past).map Prod.snd).Nodup := by
  rw [(grants_run hs).2]
  exact first.tokens.nodup_tokens first.tokens.count hbound

/-- A token has been given to one operation. -/
theorem owner_eq {j k : Nat} (h : (given.map Prod.snd).Nodup) (hj : (j, t) ∈ given)
    (hk : (k, t) ∈ given) : j = k :=
  (Prod.mk.inj (List.inj_on_of_nodup_map h hj hk rfl)).1

/-! Each operation takes one token at most. -/

/-- An operation has begun with its first step. -/
theorem begun_of_step {o p : Operation} (ho : s.operation? o.serial = some o)
    (hs : s.stepOperation o = some s') (hp : s'.operation? o.serial = some p) :
    p.stage.isCalled = false := by
  have hproceed (s₁ : Session) {purpose : Purpose} {next : Stride Transfer (Except ClientError Response)}
      (hthere : s₁.operation? o.serial = some o)
      (hp : (s₁.proceed o purpose next).operation? o.serial = some p) : p.stage.isCalled = false := by
    obtain ⟨stage, hnext, hstage⟩ := @operation?_proceed o o s₁ purpose next hthere
    cases hnext.symm.trans hp
    rw [hstage]
    cases next.turn <;> rfl
  have hput (s₁ : Session) {stage : Operation.Stage} (hthere : s₁.operation? o.serial = some o)
      (hstage : stage.isCalled = false)
      (hp : (s₁.putOperation { o with stage }).operation? o.serial = some p) :
      p.stage.isCalled = false := by
    cases (@operation?_putOperation s₁ { o with stage } o hthere).symm.trans hp
    exact hstage
  have hover {s₁ : Session} (hgone : s₁.operation? o.serial = none)
      (hp : s₁.operation? o.serial = some p) : p.stage.isCalled = false := by
    cases hgone.symm.trans hp
  unfold stepOperation at hs
  cases hstage : o.stage with
  | called call =>
    rw [hstage] at hs
    cases hs
    cases call with
    | request request =>
      cases ha : request.toMessage with
      | error e =>
        rw [begin_request_error ha] at hp
        exact hover (operation?_finish s o _) hp
      | ok a =>
        rw [begin_request_ok ha] at hp
        exact hproceed { s with tokens := s.tokens.take.2 } ho hp
    | observe request handler =>
      unfold begin at hp
      dsimp only at hp
      split at hp
      · rename_i e _
        exact hover (operation?_finish s o (.failure (.ofMessage e))) hp
      · exact hput { s with tokens := s.tokens.take.2 } ho rfl hp
    | stop observation => exact hproceed s ho hp
    | shutdown =>
      unfold begin at hp
      dsimp only at hp
      split at hp
      · exact hover (operation?_finish _ o _) hp
      · exact hput { s with shutdown := true, joined := true } ho rfl hp
  | enrolling request template handler =>
    rw [hstage] at hs
    cases hs
    unfold enroll at hp
    split at hp
    · rename_i e _
      exact hover (operation?_finish s o (.failure e)) hp
    · rename_i subscriptions _
      exact hproceed { s with
        subscriptions
        workers := s.workers ++ [{ serial := s.nextSerial, owner := o.serial, template, handler }]
        nextSerial := s.nextSerial + 1 } ho hp
  | running purpose transfer exchange =>
    rw [hstage] at hs
    cases exchange with
    | ended outcome =>
      cases hs
      exact hproceed s ho hp
    | _ =>
      obtain ⟨c, -, rfl⟩ := Option.map_eq_some_iff.mp hs
      exact hput _ ((operation?_absorb s _ c o.serial).trans ho) rfl hp
  | concluding purpose result =>
    rw [hstage] at hs
    cases hs
    obtain ⟨subscriptions, c, hconclude, -⟩ := conclude_eq_finish s o purpose result
    rw [hconclude] at hp
    exact hover (operation?_finish _ o c) hp
  | joining =>
    rw [hstage] at hs
    dsimp only at hs
    split at hs
    · cases hs
      exact hover (operation?_finish s o _) hp
    · cases hs

/-- What has begun stays so. -/
theorem begun_of_move (hn : n < s.nextSerial)
    (h : ∀ o, s.operation? n = some o → o.stage.isCalled = false) (hs : s.move m = some s') :
    ∀ o, s'.operation? n = some o → o.stage.isCalled = false := by
  intro p hp
  -- Only its own steps, a cancellation and a drop concern an operation that is there.
  cases hconcerns : concerns n m with
  | false =>
    rw [(same_move hconcerns (Nat.ne_of_gt hn) hs).operation] at hp
    exact h p hp
  | true =>
    cases m with
    | step task =>
      obtain rfl : task = .operation n := beq_iff_eq.mp hconcerns
      obtain ⟨o, ho, hstep⟩ := operation_of_step hs
      obtain rfl := operation?_serial ho
      exact begun_of_step ho hstep hp
    | input i =>
      cases hs
      cases i with
      | cancel k =>
        change (s.cancel k).operation? n = some p at hp
        rw [operation?_cancel] at hp
        obtain ⟨o, ho, rfl⟩ := Option.map_eq_some_iff.mp hp
        have hbegun := h o ho
        split <;> exact hbegun
      | abort k =>
        obtain rfl : k = n := beq_iff_eq.mp hconcerns
        have hgone := operation?_abort_self s k
        cases hgone.symm.trans hp
      | _ => cases hconcerns

/-- An operation that is given a token has not begun before, and has begun thereafter. -/
theorem called_of_grants (h : s.grants m = [(n, t)]) (hs : s.move m = some s') :
    (∃ o, s.operation? n = some o ∧ o.stage.isCalled = true) ∧
      ∀ p, s'.operation? n = some p → p.stage.isCalled = false := by
  unfold grants at h
  split at h
  · rename_i k
    split at h
    · rename_i serial cancelled call ho
      obtain ⟨a, -, hgrant⟩ := Option.map_eq_some_iff.mp (Option.toList_eq_singleton_iff.mp h)
      cases hgrant
      refine ⟨⟨_, ho, rfl⟩, ?_⟩
      obtain ⟨o, ho, hstep⟩ := operation_of_step hs
      obtain rfl := operation?_serial ho
      intro p hp
      exact begun_of_step ho hstep hp
    · cases h
  · cases h

/-- Whoever has been given a token has begun, and has been given no other one. -/
structure Takers (given : List (Nat × ByteArray)) (s : Session) : Prop where
  begun : ∀ g ∈ given, g.1 < s.nextSerial ∧ ∀ o, s.operation? g.1 = some o → o.stage.isCalled = false
  single : (given.map Prod.fst).Nodup

theorem Takers.move (h : Takers given s) (hfresh : ∀ k, s.nextSerial ≤ k → s.Fresh k)
    (hs : s.move m = some s') : Takers (given ++ s.grants m) s' := by
  have hle := (kept_move hs).2
  have hold : ∀ g ∈ given, g.1 < s'.nextSerial ∧
      ∀ o, s'.operation? g.1 = some o → o.stage.isCalled = false := by
    intro g hg
    obtain ⟨hlt, hstage⟩ := h.begun g hg
    exact ⟨Nat.lt_of_lt_of_le hlt hle, begun_of_move hlt hstage hs⟩
  rcases grants_cases s m with hnone | ⟨k, -, hone⟩
  · rw [hnone, List.append_nil]
    exact ⟨hold, h.single⟩
  · obtain ⟨⟨o, ho, hcalled⟩, hafter⟩ := called_of_grants hone hs
    have hlt : k < s.nextSerial := by
      by_contra hge
      cases (hfresh k (Nat.le_of_not_lt hge)).operation.symm.trans ho
    rw [hone]
    constructor
    · intro g hg
      rcases List.mem_append.mp hg with hg | hg
      · exact hold g hg
      · rw [List.mem_singleton.mp hg]
        exact ⟨Nat.lt_of_lt_of_le hlt hle, hafter⟩
    · rw [List.map_append]
      refine List.nodup_append.mpr ⟨h.single, List.nodup_singleton k, ?_⟩
      intro n hn j hj heq
      obtain ⟨g, hg, rfl⟩ := List.mem_map.mp hn
      rw [List.mem_singleton.mp hj] at heq
      -- It would have begun, but it has yet to do so.
      have hbefore := (h.begun g hg).2 o (heq ▸ ho)
      rw [hcalled] at hbefore
      cases hbefore

theorem takers_run {options : ConnectOptions} {pipe : Pipe} {messageIds : MessageIds}
    {tokens : Tokens} {timer : Timer}
    (hrun : (start options pipe messageIds tokens timer).run past = some s) :
    Takers (grantsOf (start options pipe messageIds tokens timer) past) s := by
  let first := start options pipe messageIds tokens timer
  refine run_induction (P := fun past s => Takers (grantsOf first past) s) ⟨nofun, List.nodup_nil⟩ ?_ hrun
  intro past s m s' hpast h hs
  unfold grantsOf
  rw [along_concat grants hpast m]
  exact h.move (unknown_run hpast) hs

/-! What has a token. -/

/-- Operations have the tokens that they have been given, and so have the subscriptions that they have
made. -/
structure Granted (given : List (Nat × ByteArray)) (made : List Worker) (s : Session) : Prop where
  own : ∀ n t, (s.roleOf n).own? = some t → (n, t) ∈ given
  entries : ∀ e ∈ s.subscriptions.entries,
    ∃ w ∈ made, w.serial = e.serial ∧ (w.owner, e.token) ∈ given

/-- An observe operation that gets a token is given it. -/
theorem Booking.own (h : Booking s s' m) (hs : s.move m = some s')
    (hgiven : ∀ n t, (s.roleOf n).own? = some t → (n, t) ∈ given) :
    ∀ n t, (s'.roleOf n).own? = some t → (n, t) ∈ given ++ s.grants m := by
  have hold {n : Nat} {t : ByteArray} (ht : (s.roleOf n).own? = some t) : (n, t) ∈ given ++ s.grants m :=
    List.mem_append_left _ (hgiven n t ht)
  intro n t ht
  cases h with
  | kept _ roles =>
    rw [roles] at ht
    exact hold ht
  | cleared _ _ roles =>
    rw [roles] at ht
    exact hold ht
  | called call _ _ _ role others =>
    by_cases hn : n = s.nextSerial
    · rw [hn, role] at ht
      cases call <;> cases ht
    · rw [others n hn] at ht
      exact hold ht
  | granted k mover before after others tokens =>
    by_cases hn : n = k
    · subst hn
      rw [after] at ht
      cases ht
      -- The count of tokens tells that one has been given.
      have hcount := (onward_of_move hs).tokens
      rw [tokens] at hcount
      rcases grants_cases s m with hnone | ⟨j, hmover, hone⟩
      · rw [hnone] at hcount
        have hne : s.tokens.count + 1 = s.tokens.count := congrArg Tokens.count hcount
        omega
      · obtain rfl : n = j := Task.operation.inj (Move.step.inj (mover.symm.trans hmover))
        rw [hone]
        exact List.mem_append_right _ (List.mem_singleton_self _)
    · rw [others n hn] at ht
      exact hold ht
  | subscribed k token _ before after others =>
    by_cases hn : n = k
    · subst hn
      rw [after] at ht
      refine hold ?_
      rw [before]
      exact ht
    · rw [others n hn] at ht
      exact hold ht
  | ended k _ _ _ gone others =>
    by_cases hn : n = k
    · rw [hn, roleOf_gone gone] at ht
      cases ht
    · rw [others n hn] at ht
      exact hold ht
  | dropped k _ gone others =>
    by_cases hn : n = k
    · rw [hn, roleOf_gone gone] at ht
      cases ht
    · rw [others n hn] at ht
      exact hold ht

theorem Granted.move (h : Granted given made s) (hrostered : s.Rostered)
    (hnew : s.operation? s.nextSerial = none) (hs : s.move m = some s') :
    Granted (given ++ s.grants m) (made ++ s.enlists m) s' := by
  refine ⟨(booking_of_move hnew hs).own hs h.own, ?_⟩
  -- An entry that was there before, under the same keys.
  have hold {e p : Subscription} (hp : p ∈ s.subscriptions.entries) (hserial : p.serial = e.serial)
      (htoken : p.token = e.token) : ∃ w ∈ made ++ s.enlists m, w.serial = e.serial ∧
        (w.owner, e.token) ∈ given ++ s.grants m := by
    obtain ⟨w, hw, hkey, hgiven⟩ := h.entries p hp
    rw [htoken] at hgiven
    exact ⟨w, List.mem_append_left _ hw, hkey.trans hserial, List.mem_append_left _ hgiven⟩
  intro e he
  cases upkeep_of_move hs with
  | worked w mover there shift =>
    obtain ⟨f, hf, hsubscriptions⟩ := shift.subscriptions_cases
    rw [hsubscriptions] at he
    obtain ⟨p, hp, rfl⟩ := List.mem_map.mp he
    exact hold hp (hf.serial p).symm (hf.token p).symm
  | aside mover table workers =>
    obtain ⟨p, hp, hserial, htoken⟩ := table.mem he
    exact hold hp hserial htoken
  | made w token mover role after serial rest registered workers next =>
    obtain ⟨-, hsubscriptions⟩ := Subscriptions.register_eq_ok registered
    rw [hsubscriptions] at he
    rcases List.mem_append.mp he with he | he
    · exact hold he rfl rfl
    · rw [List.mem_singleton.mp he]
      have hfree : s.worker? w.serial = none :=
        worker?_of_workers_lt hrostered.workers_lt (Nat.le_of_eq serial.symm)
      have hmade : s.enlists m = [w] := by
        rw [enlists_eq hs, ← serial, worker?_of_made workers hfree]
        rfl
      have htoken : (w.owner, token) ∈ given := h.own w.owner token (by rw [role]; rfl)
      rw [hmade]
      exact ⟨w, List.mem_append_right _ (List.mem_singleton_self w), serial,
        List.mem_append_left _ htoken⟩

theorem granted_run {options : ConnectOptions} {pipe : Pipe} {messageIds : MessageIds}
    {tokens : Tokens} {timer : Timer}
    (hrun : (start options pipe messageIds tokens timer).run past = some s) :
    Granted (grantsOf (start options pipe messageIds tokens timer) past)
      (enlistments (start options pipe messageIds tokens timer) past) s := by
  let first := start options pipe messageIds tokens timer
  have hstart : Granted (grantsOf first []) (enlistments first []) first := by
    refine ⟨?_, ?_⟩
    · intro n t ht
      cases ht
    · intro e he
      cases he
  refine run_induction (P := fun past s => Granted (grantsOf first past) (enlistments first past) s)
    hstart ?_ hrun
  intro past s m s' hpast h hs
  unfold grantsOf enlistments
  rw [along_concat grants hpast m, along_concat enlists hpast m]
  exact h.move (roll_run hpast).1 (unknown_run hpast s.nextSerial (Nat.le_refl _)).operation hs

end Session

end Coap
