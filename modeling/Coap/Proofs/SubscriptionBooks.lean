import Coap.Proofs.SubscriptionRoster

/-! The books of subscriptions: while the connection is open, the subscriptions that are there are those
that callers have been told of and have not stopped since, those whose registration is under way, and
those whose caller has gone away before it was told. The last ones stay for as long as the connection is
open. -/
namespace Coap

/-! Tokens are told apart by their numbers. -/

/-- Eight bytes are read back as the number that they stand for. -/
theorem Wire.value_eightBytes (n : UInt64) : value (eightBytes n) = n.toNat := by
  have hbyte (k : UInt64) : (n >>> k).toUInt8.toNat = n.toNat / 2 ^ (k.toNat % 64) % 256 := by
    rw [UInt64.toNat_toUInt8, UInt64.toNat_shiftRight, Nat.shiftRight_eq_div_pow]
  have h7 : (n >>> 56).toUInt8.toNat = n.toNat / 2 ^ 56 % 256 := hbyte 56
  have h6 : (n >>> 48).toUInt8.toNat = n.toNat / 2 ^ 48 % 256 := hbyte 48
  have h5 : (n >>> 40).toUInt8.toNat = n.toNat / 2 ^ 40 % 256 := hbyte 40
  have h4 : (n >>> 32).toUInt8.toNat = n.toNat / 2 ^ 32 % 256 := hbyte 32
  have h3 : (n >>> 24).toUInt8.toNat = n.toNat / 2 ^ 24 % 256 := hbyte 24
  have h2 : (n >>> 16).toUInt8.toNat = n.toNat / 2 ^ 16 % 256 := hbyte 16
  have h1 : (n >>> 8).toUInt8.toNat = n.toNat / 2 ^ 8 % 256 := hbyte 8
  have h0 : n.toUInt8.toNat = n.toNat % 256 := UInt64.toNat_toUInt8 n
  have hn := n.toNat_lt
  simp only [value, eightBytes, List.foldl_cons, List.foldl_nil, h7, h6, h5, h4, h3, h2, h1, h0]
  omega

theorem Wire.eightBytes_injective {a b : UInt64} (h : eightBytes a = eightBytes b) : a = b := by
  apply UInt64.toNat_inj.mp
  rw [← value_eightBytes a, ← value_eightBytes b, h]

/-- Tokens repeat only once their numbers do. -/
theorem Tokens.token_injective (ts : Tokens) {j k : Nat} (hj : j < UInt64.size)
    (hk : k < UInt64.size) (h : ts.token j = ts.token k) : j = k := by
  have hsum := Wire.eightBytes_injective h
  have hsame : UInt64.ofNat j = UInt64.ofNat k := UInt64.add_right_inj ts.base |>.mp hsum
  have hnat := congrArg UInt64.toNat hsame
  rw [UInt64.toNat_ofNat_of_lt' hj, UInt64.toNat_ofNat_of_lt' hk] at hnat
  exact hnat

theorem Tokens.token_of_base {ts ts' : Tokens} (h : ts'.base = ts.base) (k : Nat) :
    ts'.token k = ts.token k := by
  unfold token
  rw [h]

/-- The token that an observe operation has taken and not given away yet. -/
def Role.own? : Role → Option ByteArray
  | .granted token | .registering token => some token
  | .apart | .asking | .stopping _ => none

/-- The token of a subscription that waits for the server to accept it. -/
def Role.registering? : Role → Option ByteArray
  | .registering token => some token
  | .apart | .asking | .granted _ | .stopping _ => none

theorem Role.registering?_eq_some {role : Role} {t : ByteArray} :
    role.registering? = some t ↔ role = .registering t := by
  cases role <;> simp [registering?, eq_comm]

theorem Role.own?_of_registering? {role : Role} {t : ByteArray} (h : role.registering? = some t) :
    role.own? = some t := by
  cases role with
  | registering token => exact h
  | _ => cases h

/-- The token of the observation that an operation has come to. -/
def Completion.token? (c : Completion) : Option ByteArray := c.observation?.map Observation.token

namespace Session

/-- The call to stop an observation that a move makes: its serial number, and the token. -/
def stopCalls (s : Session) : Move → List (Nat × ByteArray)
  | .input (.call (.stop o) _) => [(s.nextSerial, o.token)]
  | _ => []

/-- The calls to stop an observation along a run. -/
def stopsOf (first : Session) (past : List Move) : List (Nat × ByteArray) := along stopCalls first past

/-- The token of an observe operation that a move drops while the server has yet to accept it. -/
def abandons (s : Session) : Move → List ByteArray
  | .input (.abort n) => (s.roleOf n).registering?.toList
  | _ => []

/-- The tokens of observe operations that have been dropped midway. -/
def abandonedOf (first : Session) (past : List Move) : List ByteArray := along abandons first past

/-- The tokens of the observations that operations have returned. -/
def returnedTokens (s : Session) : List ByteArray := s.returned.filterMap fun r => r.2.token?

/-- The token of a call that stops an observation which no operation of the session has returned. -/
def forges (s : Session) (m : Move) : List ByteArray :=
  ((s.stopCalls m).map Prod.snd).filter fun t => !s.returnedTokens.contains t

def forgedOf (first : Session) (past : List Move) : List ByteArray := along forges first past

/-- An operation has returned a registered observation with a token, and no call to stop one with this
token has returned since. -/
def Standing (stops : List (Nat × ByteArray)) (returned : List (Nat × Completion)) (t : ByteArray) :
    Prop :=
  ∃ before n o after, returned = before ++ (n, .observation o) :: after ∧ o.registered = true ∧
    o.token = t ∧ ∀ r ∈ after, (r.1, t) ∉ stops

variable {first s s' : Session} {m : Move} {n : Nat} {t : ByteArray} {past : List Move}
  {stops : List (Nat × ByteArray)} {returned : List (Nat × Completion)} {abandoned : List ByteArray}

theorem standing_concat {c : Completion} : Standing stops (returned ++ [(n, c)]) t ↔
    (Standing stops returned t ∧ (n, t) ∉ stops) ∨
      ∃ o, c = .observation o ∧ o.registered = true ∧ o.token = t := by
  constructor
  · rintro ⟨before, k, o, after, heq, hregistered, htoken, hafter⟩
    -- The observation is the last return, or it is followed by it.
    rcases List.eq_nil_or_concat' after with rfl | ⟨rest, last, rfl⟩
    · obtain ⟨-, hlast⟩ := List.append_inj' heq rfl
      cases hlast
      exact .inr ⟨o, rfl, hregistered, htoken⟩
    · rw [← List.cons_append, ← List.append_assoc] at heq
      obtain ⟨hrest, hlast⟩ := List.append_inj' heq rfl
      cases hlast
      refine .inl ⟨⟨before, k, o, rest, hrest, hregistered, htoken, ?_⟩, ?_⟩
      · intro r hr
        exact hafter r (List.mem_append_left _ hr)
      · exact hafter (n, c) (List.mem_append_right _ (List.mem_singleton_self _))
  · rintro (⟨⟨before, k, o, after, rfl, hregistered, htoken, hafter⟩, hn⟩ |
      ⟨o, rfl, hregistered, htoken⟩)
    · refine ⟨before, k, o, after ++ [(n, c)], by simp, hregistered, htoken, ?_⟩
      intro r hr
      rcases List.mem_append.mp hr with hr | hr
      · exact hafter r hr
      · rw [List.mem_singleton.mp hr]
        exact hn
    · refine ⟨returned, n, o, [], rfl, hregistered, htoken, ?_⟩
      intro r hr
      cases hr

/-- A new call to stop an observation has not returned yet. -/
theorem standing_of_call {call : Nat × ByteArray} (h : ∀ r ∈ returned, r.1 < call.1) :
    Standing (stops ++ [call]) returned t ↔ Standing stops returned t := by
  have hiff {r : Nat × Completion} (hr : r ∈ returned) :
      (r.1, t) ∈ stops ++ [call] ↔ (r.1, t) ∈ stops := by
    rw [List.mem_append, List.mem_singleton]
    refine or_iff_left ?_
    intro heq
    have hlt := h r hr
    rw [← heq] at hlt
    exact Nat.lt_irrefl _ hlt
  constructor
  · rintro ⟨before, k, o, after, rfl, hregistered, htoken, hafter⟩
    refine ⟨before, k, o, after, rfl, hregistered, htoken, ?_⟩
    intro r hr
    rw [← hiff (List.mem_append_right _ (List.mem_cons_of_mem _ hr))]
    exact hafter r hr
  · rintro ⟨before, k, o, after, rfl, hregistered, htoken, hafter⟩
    refine ⟨before, k, o, after, rfl, hregistered, htoken, ?_⟩
    intro r hr
    rw [hiff (List.mem_append_right _ (List.mem_cons_of_mem _ hr))]
    exact hafter r hr

/-- A standing observation has been returned. -/
theorem Standing.mem_returned (h : Standing stops s.returned t) : t ∈ s.returnedTokens := by
  obtain ⟨before, k, o, after, heq, -, htoken, -⟩ := h
  refine List.mem_filterMap.mpr ⟨(k, .observation o), ?_, congrArg some htoken⟩
  rw [heq]
  exact List.mem_append_right _ List.mem_cons_self

/-! Where tokens are. -/

/-- Each token that has been handed out is in one place: with one operation, with the callers, or
nowhere any more because its operation has been dropped. -/
structure Circulation (abandoned : List ByteArray) (s : Session) : Prop where
  issued : ∀ t, ((∃ n, (s.roleOf n).own? = some t) ∨ t ∈ abandoned ∨ t ∈ s.returnedTokens) →
    ∃ k < s.tokens.count, t = s.tokens.token k
  single : ∀ j k t, (s.roleOf j).own? = some t → (s.roleOf k).own? = some t → j = k
  held : ∀ n t, (s.roleOf n).own? = some t → t ∉ abandoned ∧ t ∉ s.returnedTokens
  lost : ∀ t ∈ abandoned, t ∉ s.returnedTokens

/-- No token is handed out, and at most one operation gives its own away: to the callers, or for
good. -/
theorem Circulation.pass {abandoned' : List ByteArray} {taken : Nat} (h : Circulation abandoned s)
    (honward : Onward taken s s')
    (hown : ∀ n t, (s'.roleOf n).own? = some t → (s.roleOf n).own? = some t)
    (habandoned : ∀ t ∈ abandoned', t ∈ abandoned ∨
      ∃ n, (s.roleOf n).own? = some t ∧ (s'.roleOf n).own? = none)
    (hreturned : ∀ t ∈ s'.returnedTokens, t ∈ s.returnedTokens ∨
      ∃ n, (s.roleOf n).own? = some t ∧ (s'.roleOf n).own? = none)
    (hone : abandoned' = abandoned ∨ s'.returnedTokens = s.returnedTokens) :
    Circulation abandoned' s' := by
  have hgiven {n : Nat} {t : ByteArray} (hn : (s'.roleOf n).own? = some t)
      (hgone : ∃ k, (s.roleOf k).own? = some t ∧ (s'.roleOf k).own? = none) : False := by
    obtain ⟨k, hk, hnone⟩ := hgone
    rw [h.single k n t hk (hown n t hn), hn] at hnone
    cases hnone
  constructor
  · intro t ht
    have hold : (∃ n, (s.roleOf n).own? = some t) ∨ t ∈ abandoned ∨ t ∈ s.returnedTokens := by
      rcases ht with ⟨n, hn⟩ | hlost | hback
      · exact .inl ⟨n, hown n t hn⟩
      · rcases habandoned t hlost with hold | ⟨n, hn, -⟩
        · exact .inr (.inl hold)
        · exact .inl ⟨n, hn⟩
      · rcases hreturned t hback with hold | ⟨n, hn, -⟩
        · exact .inr (.inr hold)
        · exact .inl ⟨n, hn⟩
    obtain ⟨k, hk, rfl⟩ := h.issued t hold
    exact ⟨k, Nat.lt_of_lt_of_le hk honward.count, (Tokens.token_of_base honward.base k).symm⟩
  · intro j k t hj hk
    exact h.single j k t (hown j t hj) (hown k t hk)
  · intro n t hn
    obtain ⟨hlost, hback⟩ := h.held n t (hown n t hn)
    refine ⟨?_, ?_⟩
    · intro ht
      exact (habandoned t ht).elim hlost (hgiven hn)
    · intro ht
      exact (hreturned t ht).elim hback (hgiven hn)
  · intro t ht hback
    rcases hone with hsame | hsame
    · rw [hsame] at ht
      rcases hreturned t hback with hold | ⟨n, hn, -⟩
      · exact h.lost t ht hold
      · exact (h.held n t hn).1 ht
    · rw [hsame] at hback
      rcases habandoned t ht with hold | ⟨n, hn, -⟩
      · exact h.lost t hold hback
      · exact (h.held n t hn).2 hback

/-- A token that is handed out has not been in use yet. -/
theorem Circulation.grant (h : Circulation abandoned s) (hbound : s.tokens.count < UInt64.size)
    (hafter : s'.roleOf n = .granted s.tokens.take.1)
    (hothers : ∀ k, k ≠ n → s'.roleOf k = s.roleOf k) (htokens : s'.tokens = s.tokens.take.2)
    (hreturned : s'.returnedTokens = s.returnedTokens) : Circulation abandoned s' := by
  have hnew (t : ByteArray) (ht : (∃ n, (s.roleOf n).own? = some t) ∨ t ∈ abandoned ∨
      t ∈ s.returnedTokens) : t ≠ s.tokens.take.1 := by
    rintro rfl
    obtain ⟨k, hk, hsame⟩ := h.issued _ ht
    have heq := s.tokens.token_injective hbound (Nat.lt_trans hk hbound) hsame
    omega
  have hcase (k : Nat) (t : ByteArray) (hk : (s'.roleOf k).own? = some t) :
      (k = n ∧ t = s.tokens.take.1) ∨ (k ≠ n ∧ (s.roleOf k).own? = some t) := by
    by_cases hn : k = n
    · rw [hn, hafter] at hk
      exact .inl ⟨hn, (Option.some.inj hk).symm⟩
    · rw [hothers k hn] at hk
      exact .inr ⟨hn, hk⟩
  constructor
  · intro t ht
    rw [htokens]
    by_cases hfresh : t = s.tokens.take.1
    · exact ⟨s.tokens.count, Nat.lt_succ_self _, hfresh⟩
    · have hold : (∃ n, (s.roleOf n).own? = some t) ∨ t ∈ abandoned ∨ t ∈ s.returnedTokens := by
        rcases ht with ⟨k, hk⟩ | ht
        · rcases hcase k t hk with ⟨-, heq⟩ | ⟨-, hk⟩
          · exact absurd heq hfresh
          · exact .inl ⟨k, hk⟩
        · rw [hreturned] at ht
          exact .inr ht
      obtain ⟨k, hk, rfl⟩ := h.issued t hold
      exact ⟨k, Nat.lt_succ_of_lt hk, rfl⟩
  · intro j k t hj hk
    rcases hcase j t hj with ⟨rfl, rfl⟩ | ⟨-, hj'⟩
    · rcases hcase k _ hk with ⟨rfl, -⟩ | ⟨-, hk'⟩
      · rfl
      · exact absurd rfl (hnew _ (.inl ⟨k, hk'⟩))
    · rcases hcase k t hk with ⟨rfl, rfl⟩ | ⟨-, hk'⟩
      · exact absurd rfl (hnew _ (.inl ⟨j, hj'⟩))
      · exact h.single j k t hj' hk'
  · intro k t hk
    rw [hreturned]
    rcases hcase k t hk with ⟨-, rfl⟩ | ⟨-, hk'⟩
    · exact ⟨fun ht => hnew _ (.inr (.inl ht)) rfl, fun ht => hnew _ (.inr (.inr ht)) rfl⟩
    · exact h.held k t hk'
  · rw [hreturned]
    exact h.lost

theorem returnedTokens_of_returned (h : s'.returned = s.returned) :
    s'.returnedTokens = s.returnedTokens := by
  unfold returnedTokens
  rw [h]

theorem returnedTokens_concat {c : Completion} (h : s'.returned = s.returned ++ [(n, c)]) :
    s'.returnedTokens = s.returnedTokens ++ c.token?.toList := by
  unfold returnedTokens
  rw [h, List.filterMap_append]
  cases hc : c.token? <;> simp [hc]

/-- Only an observe operation returns an observation, and it returns its own. -/
theorem Conclusion.own {role : Role} {c : Completion} (h : Conclusion s s' role c)
    (hc : c.token? = some t) : role.own? = some t := by
  obtain ⟨o, ho, rfl⟩ := Option.map_eq_some_iff.mp hc
  cases h with
  | aside result | stopped result =>
    rw [result] at ho
    cases ho
  | confirmed own =>
    cases ho
    exact congrArg some own.symm
  | withdrawn result => exact congrArg some (result o ho).1.symm

theorem abandons_of_mover (h : m.callsOrDrops = false) : s.abandons m = [] := by
  cases m with
  | step task => rfl
  | input i =>
    cases i with
    | abort n => cases h
    | _ => rfl

theorem Circulation.move (h : Circulation abandoned s) (hnew : s.operation? s.nextSerial = none)
    (hbound : s'.tokens.count ≤ UInt64.size) (hs : s.move m = some s') :
    Circulation (abandoned ++ s.abandons m) s' := by
  have honward := onward_of_move hs
  -- All operations keep what they have, and nothing is returned.
  have hquiet (hroles : ∀ k, (s'.roleOf k).own? = (s.roleOf k).own?)
      (hreturned : s'.returned = s.returned) (hnone : s.abandons m = []) :
      Circulation (abandoned ++ s.abandons m) s' := by
    rw [hnone, List.append_nil]
    have hsame := returnedTokens_of_returned hreturned
    refine h.pass honward ?_ (fun t ht => .inl ht) (fun t ht => .inl (hsame ▸ ht)) (.inl rfl)
    intro k t hk
    rwa [hroles] at hk
  have hmoved {n : Nat} (hrole : (s'.roleOf n).own? = (s.roleOf n).own?)
      (hothers : ∀ k, k ≠ n → s'.roleOf k = s.roleOf k) (k : Nat) :
      (s'.roleOf k).own? = (s.roleOf k).own? := by
    by_cases hk : k = n
    · rw [hk, hrole]
    · rw [hothers k hk]
  cases booking_of_move hnew hs with
  | kept mover roles _ returned =>
    exact hquiet (fun k => by rw [roles k]) returned (abandons_of_mover mover)
  | called call cancelled mover _ role others _ returned =>
    refine hquiet (hmoved ?_ others) returned ?_
    · rw [role, roleOf_gone hnew]
      cases call <;> rfl
    · rw [mover]
      rfl
  | granted k mover _ after others tokens _ returned =>
    have hnone : s.abandons m = [] := by
      rw [mover]
      rfl
    rw [hnone, List.append_nil]
    refine h.grant ?_ after others tokens (returnedTokens_of_returned returned)
    rw [tokens] at hbound
    exact hbound
  | subscribed k token mover before after others _ returned =>
    refine hquiet (hmoved ?_ others) returned ?_
    · rw [before, after]
      rfl
    · rw [mover]
      rfl
  | cleared mover _ roles returned =>
    refine hquiet (fun k => by rw [roles k]) returned ?_
    rw [mover]
    rfl
  | ended k c mover _ gone others conclusion returned =>
    have hnone : s.abandons m = [] := by
      rw [mover]
      rfl
    have hgone : (s'.roleOf k).own? = none := by
      rw [roleOf_gone gone]
      rfl
    rw [hnone, List.append_nil]
    refine h.pass honward ?_ (fun t ht => .inl ht) ?_ (.inl rfl)
    · intro j t hj
      by_cases hk : j = k
      · rw [hk, hgone] at hj
        cases hj
      · rwa [others j hk] at hj
    · intro t ht
      rw [returnedTokens_concat returned] at ht
      rcases List.mem_append.mp ht with ht | ht
      · exact .inl ht
      · exact .inr ⟨k, conclusion.own (Option.mem_toList.mp ht), hgone⟩
  | dropped k mover gone others _ returned =>
    have hgone : (s'.roleOf k).own? = none := by
      rw [roleOf_gone gone]
      rfl
    have hsame := returnedTokens_of_returned returned
    refine h.pass honward ?_ ?_ (fun t ht => .inl (hsame ▸ ht)) (.inr hsame)
    · intro j t hj
      by_cases hk : j = k
      · rw [hk, hgone] at hj
        cases hj
      · rwa [others j hk] at hj
    · intro t ht
      rcases List.mem_append.mp ht with ht | ht
      · exact .inl ht
      · refine .inr ⟨k, ?_, hgone⟩
        rw [mover] at ht
        exact Role.own?_of_registering? (Option.mem_toList.mp ht)

/-! Calls to stop an observation. -/

/-- An operation that stops an observation is one that has been called for it, until it is over. -/
structure Stopping (stops : List (Nat × ByteArray)) (s : Session) : Prop where
  known : ∀ r ∈ stops, r.1 < s.nextSerial ∧ r.2 ∈ s.returnedTokens ∧
    (s.operation? r.1 = none ∨ s.roleOf r.1 = .stopping r.2)
  listed : ∀ n t, s.roleOf n = .stopping t → (n, t) ∈ stops

/-- An operation that is over stays so. -/
theorem gone_of_move (h : s.operation? n = none) (hn : n ≠ s.nextSerial) (hs : s.move m = some s') :
    s'.operation? n = none := by
  cases hconcerns : concerns n m with
  | false => exact (same_move hconcerns hn.symm hs).operation.trans h
  | true =>
    cases m with
    | step task =>
      obtain rfl : task = .operation n := beq_iff_eq.mp hconcerns
      change s.step (.operation n) = some s' at hs
      rw [step_of_operation?_none h] at hs
      cases hs
    | input i =>
      cases hs
      cases i with
      | cancel k =>
        change (s.cancel k).operation? n = none
        rw [operation?_cancel, h, Option.map_none]
      | abort k =>
        obtain rfl : k = n := beq_iff_eq.mp hconcerns
        exact operation?_abort_self s k
      | _ => cases hconcerns

theorem returnedTokens_of_move (hs : s.move m = some s') (hnew : s.operation? s.nextSerial = none)
    (ht : t ∈ s.returnedTokens) : t ∈ s'.returnedTokens := by
  have hsame (h : s'.returned = s.returned) : t ∈ s'.returnedTokens := by
    rw [returnedTokens_of_returned h]
    exact ht
  cases booking_of_move hnew hs with
  | ended k c _ _ _ _ _ returned =>
    rw [returnedTokens_concat returned]
    exact List.mem_append_left _ ht
  | kept _ _ _ returned => exact hsame returned
  | called _ _ _ _ _ _ _ returned => exact hsame returned
  | granted _ _ _ _ _ _ _ returned => exact hsame returned
  | subscribed _ _ _ _ _ _ _ returned => exact hsame returned
  | dropped _ _ _ _ _ returned => exact hsame returned
  | cleared _ _ _ returned => exact hsame returned

/-- Only calls are calls to stop an observation. -/
theorem stopCalls_eq (h : ∀ call cancelled, m ≠ .input (.call call cancelled)) : s.stopCalls m = [] := by
  unfold stopCalls
  split
  · exact absurd rfl (h _ _)
  · rfl

/-- An operation that stops an observation goes on with that, or comes to its end. -/
theorem stopping_of_move (hnew : s.operation? s.nextSerial = none) (hs : s.move m = some s')
    (hn : n ≠ s.nextSerial) (h : s.roleOf n = .stopping t) :
    s'.operation? n = none ∨ s'.roleOf n = .stopping t := by
  have hsame (hrole : s'.roleOf n = s.roleOf n) :
      s'.operation? n = none ∨ s'.roleOf n = .stopping t := .inr (hrole.trans h)
  cases booking_of_move hnew hs with
  | kept _ roles => exact hsame (roles n)
  | called _ _ _ _ _ others => exact hsame (others n hn)
  | granted k _ before _ others =>
    by_cases hk : n = k
    · rw [← hk, h] at before
      cases before
    · exact hsame (others n hk)
  | subscribed k token _ before _ others =>
    by_cases hk : n = k
    · rw [← hk, h] at before
      cases before
    · exact hsame (others n hk)
  | ended k c _ _ gone others =>
    by_cases hk : n = k
    · exact .inl (hk ▸ gone)
    · exact hsame (others n hk)
  | dropped k _ gone others =>
    by_cases hk : n = k
    · exact .inl (hk ▸ gone)
    · exact hsame (others n hk)
  | cleared _ _ roles => exact hsame (roles n)

theorem Stopping.move (h : Stopping stops s) (hnew : s.operation? s.nextSerial = none)
    (hgenuine : s.forges m = []) (hs : s.move m = some s') : Stopping (stops ++ s.stopCalls m) s' := by
  have hle := (kept_move hs).2
  -- What has been known stays so, whether or not another call comes in.
  have hknown : ∀ r ∈ stops, r.1 < s'.nextSerial ∧ r.2 ∈ s'.returnedTokens ∧
      (s'.operation? r.1 = none ∨ s'.roleOf r.1 = .stopping r.2) := by
    intro r hr
    obtain ⟨hlt, hback, hrole⟩ := h.known r hr
    have hne := Nat.ne_of_lt hlt
    refine ⟨Nat.lt_of_lt_of_le hlt hle, returnedTokens_of_move hs hnew hback, ?_⟩
    rcases hrole with hgone | hrole
    · exact .inl (gone_of_move hgone hne hs)
    · exact stopping_of_move hnew hs hne hrole
  have hquiet (hcalls : s.stopCalls m = [])
      (hlisted : ∀ n t, s'.roleOf n = .stopping t → s.roleOf n = .stopping t) :
      Stopping (stops ++ s.stopCalls m) s' := by
    rw [hcalls, List.append_nil]
    exact ⟨hknown, fun n t hn => h.listed n t (hlisted n t hn)⟩
  have hmoved {k : Nat} (hrole : ∀ t, s'.roleOf k ≠ .stopping t)
      (hothers : ∀ j, j ≠ k → s'.roleOf j = s.roleOf j) (j : Nat) (t : ByteArray)
      (hj : s'.roleOf j = .stopping t) : s.roleOf j = .stopping t := by
    by_cases hk : j = k
    · exact absurd (hk ▸ hj) (hrole t)
    · rwa [hothers j hk] at hj
  cases booking_of_move hnew hs with
  | kept mover roles =>
    refine hquiet (stopCalls_eq ?_) ?_
    · rintro call cancelled rfl
      cases mover
    · intro j t hj
      rwa [roles j] at hj
  | granted k mover _ after others =>
    exact hquiet (by rw [mover]; rfl) (hmoved (by rw [after]; nofun) others)
  | subscribed k token mover _ after others =>
    exact hquiet (by rw [mover]; rfl) (hmoved (by rw [after]; nofun) others)
  | ended k c mover _ gone others =>
    exact hquiet (by rw [mover]; rfl) (hmoved (by rw [roleOf_gone gone]; nofun) others)
  | dropped k mover gone others =>
    exact hquiet (by rw [mover]; rfl) (hmoved (by rw [roleOf_gone gone]; nofun) others)
  | cleared mover _ roles =>
    refine hquiet (by rw [mover]; rfl) ?_
    intro j t hj
    rwa [roles j] at hj
  | called call cancelled mover serial role others =>
    subst mover
    cases call with
    | stop o =>
      have hback : o.token ∈ s.returnedTokens := by
        have hall := List.filter_eq_nil_iff.mp hgenuine o.token (List.mem_singleton_self _)
        simpa using hall
      constructor
      · intro r hr
        rcases List.mem_append.mp hr with hr | hr
        · exact hknown r hr
        · rw [List.mem_singleton.mp hr]
          refine ⟨?_, returnedTokens_of_move hs hnew hback, .inr role⟩
          dsimp only
          omega
      · intro j t hj
        by_cases hk : j = s.nextSerial
        · rw [hk, role] at hj
          cases hj
          rw [hk]
          exact List.mem_append_right _ (List.mem_singleton_self _)
        · rw [others j hk] at hj
          exact List.mem_append_left _ (h.listed j t hj)
    | _ => exact hquiet rfl (hmoved (by rw [role]; nofun) others)

/-! The subscriptions that are there. -/

/-- The connection is not opened again. -/
theorem open_of_move (hs : s.move m = some s') (h : s'.connection.closed = false) :
    s.connection.closed = false := by
  cases effect_of_move hs with
  | exchanged _ _ step connection _ =>
    rw [connection, (Connection.advance_of_step step).closed_eq] at h
    exact h
  | turned _ _ _ connection _ => rwa [connection] at h
  | dropped _ _ closed _ _ => rwa [closed] at h
  | disturbed _ _ _ closed _ _ => rwa [closed] at h
  | received step _ =>
    cases reception_of_step step with
    | routed a wire _ _ _ next =>
      cases ha : a.isAnswer with
      | true =>
        rw [next, route_answer ha] at h
        exact h
      | false =>
        rw [next, route_other ha] at h
        exact h
    | stopped _ _ _ _ next | replied _ _ _ _ next | failed _ _ _ _ next =>
      rw [next] at h
      exact h
    | collected _ _ next | drained _ _ next =>
      rw [next] at h
      exact h
    | cleared _ next | closed _ next =>
      rw [next] at h
      exact h
    | shut _ _ next =>
      rw [next] at h
      cases h

/-- An operation has made the subscription of a token, and waits for the server to accept it. -/
def Enrolled (s : Session) (t : ByteArray) : Prop := ∃ n, s.roleOf n = .registering t

/-- The books are right: a subscription is there exactly if it is being made, if callers have been told
of it and have not stopped it since, or if its operation has been dropped midway. -/
def Balanced (stops : List (Nat × ByteArray)) (abandoned : List ByteArray) (s : Session) : Prop :=
  ∀ t, s.subscriptions.isActive t = true ↔
    s.Enrolled t ∨ Standing stops s.returned t ∨ t ∈ abandoned

theorem enrolled_of_roles (h : ∀ k, s'.roleOf k = s.roleOf k) : s'.Enrolled t ↔ s.Enrolled t :=
  exists_congr fun k => by rw [h k]

/-- Only the operation whose part changes can make a difference. -/
theorem enrolled_of_others (hothers : ∀ k, k ≠ n → s'.roleOf k = s.roleOf k)
    (hbefore : s.roleOf n ≠ .registering t) (hafter : s'.roleOf n ≠ .registering t) :
    s'.Enrolled t ↔ s.Enrolled t := by
  constructor
  · rintro ⟨k, hk⟩
    by_cases hn : k = n
    · exact absurd (hn ▸ hk) hafter
    · exact ⟨k, (hothers k hn).symm.trans hk⟩
  · rintro ⟨k, hk⟩
    by_cases hn : k = n
    · exact absurd (hn ▸ hk) hbefore
    · exact ⟨k, (hothers k hn).trans hk⟩

theorem roleOf_of_gone (hgone : s'.operation? n = none) : s'.roleOf n ≠ .registering t := by
  rw [roleOf_gone hgone]
  nofun

/-- A token is in the hands of one operation only. -/
theorem Circulation.not_enrolled (h : Circulation abandoned s) (hrole : s.roleOf n = .registering t)
    (hgone : s'.operation? n = none) (hothers : ∀ k, k ≠ n → s'.roleOf k = s.roleOf k) :
    ¬ s'.Enrolled t := by
  rintro ⟨k, hk⟩
  by_cases hn : k = n
  · exact roleOf_of_gone hgone (hn ▸ hk)
  · rw [hothers k hn] at hk
    exact hn (h.single k n t (by rw [hk]; rfl) (by rw [hrole]; rfl))

/-- A call to stop an observation is in the hands of the operation that has been called for it. -/
theorem Stopping.free (h : Stopping stops s) (hthere : (s.operation? n).isSome = true)
    (hrole : s.roleOf n ≠ .stopping t) : (n, t) ∉ stops := by
  intro hmem
  rcases (h.known _ hmem).2.2 with hnone | hstopping
  · rw [hnone] at hthere
    cases hthere
  · exact hrole hstopping

/-- The end of an operation that has nothing to do with a token. -/
theorem Balanced.apart {c : Completion} (h : Balanced stops abandoned s)
    (hactive : s'.subscriptions.isActive t = true ↔ s.subscriptions.isActive t = true)
    (henrolled : s'.Enrolled t ↔ s.Enrolled t) (hfree : (n, t) ∉ stops)
    (hresult : ∀ o, c = .observation o → o.registered = true → o.token ≠ t)
    (hreturned : s'.returned = s.returned ++ [(n, c)]) :
    s'.subscriptions.isActive t = true ↔
      s'.Enrolled t ∨ Standing stops s'.returned t ∨ t ∈ abandoned := by
  have hnone : ¬ ∃ o, c = .observation o ∧ o.registered = true ∧ o.token = t := by
    rintro ⟨o, hc, hregistered, htoken⟩
    exact hresult o hc hregistered htoken
  rw [hactive, henrolled, hreturned, standing_concat, or_iff_left hnone, and_iff_left hfree]
  exact h t

/-- What an operation comes to changes the books of its own token only, and rightly so. -/
theorem Balanced.ended {c : Completion} (h : Balanced stops abandoned s)
    (hcirculation : Circulation abandoned s) (hstopping : Stopping stops s)
    (hthere : (s.operation? n).isSome = true) (hgone : s'.operation? n = none)
    (hothers : ∀ k, k ≠ n → s'.roleOf k = s.roleOf k)
    (hconclusion : Conclusion s s' (s.roleOf n) c) (hreturned : s'.returned = s.returned ++ [(n, c)]) :
    Balanced stops abandoned s' := by
  intro t
  -- An operation that takes part neither in making nor in ending the subscription.
  have hother (hregistering : s.roleOf n ≠ .registering t) (hrole : s.roleOf n ≠ .stopping t)
      (hactive : s'.subscriptions.isActive t = true ↔ s.subscriptions.isActive t = true)
      (hresult : ∀ o, c = .observation o → o.registered = true → o.token ≠ t) :=
    h.apart hactive (enrolled_of_others hothers hregistering (roleOf_of_gone hgone))
      (hstopping.free hthere hrole) hresult hreturned
  generalize hrole : s.roleOf n = role at hconclusion
  cases hconclusion with
  | aside result part active =>
    refine hother ?_ ?_ (by rw [active t]) ?_
    · intro heq
      rw [← hrole, heq] at part
      cases part
    · intro heq
      rw [← hrole, heq] at part
      cases part
    · rintro o rfl
      cases result
  | @stopped token c result active =>
    have hlisted := hstopping.listed n token hrole
    have hback := (hstopping.known _ hlisted).2.1
    by_cases ht : t = token
    · -- The callers have had this token, so that nobody else has it.
      subst ht
      refine iff_of_false (fun hactive => ((active t).mp hactive).2 rfl) ?_
      rintro (⟨k, hk⟩ | hstanding | hlost)
      · have hne : k ≠ n := by
          rintro rfl
          exact roleOf_of_gone hgone hk
        rw [hothers k hne] at hk
        exact (hcirculation.held k t (by rw [hk]; rfl)).2 hback
      · rw [hreturned, standing_concat] at hstanding
        rcases hstanding with ⟨-, hfree⟩ | ⟨o, rfl, -⟩
        · exact hfree hlisted
        · cases result
      · exact hcirculation.lost t hlost hback
    · refine hother (by rw [hrole]; nofun) ?_ ?_ ?_
      · rw [hrole]
        exact fun heq => ht (Role.stopping.inj heq).symm
      · rw [active t, and_iff_left ht]
      · rintro o rfl
        cases result
  | @confirmed token o own registered active =>
    by_cases ht : t = token
    · subst ht
      refine iff_of_true ?_ (.inr (.inl ?_))
      · rw [active t]
        exact (h t).mpr (.inl ⟨n, hrole⟩)
      · rw [hreturned]
        exact standing_concat.mpr (.inr ⟨o, rfl, registered, own⟩)
    · refine hother ?_ (by rw [hrole]; nofun) (by rw [active t]) ?_
      · rw [hrole]
        exact fun heq => ht (Role.registering.inj heq).symm
      · rintro o' heq - htoken
        cases heq
        exact ht (htoken.symm.trans own)
  | @withdrawn token c result active =>
    by_cases ht : t = token
    · -- The token has been with this operation, so that nobody else has it.
      subst ht
      obtain ⟨hlost, hback⟩ := hcirculation.held n t (by rw [hrole]; rfl)
      refine iff_of_false (fun hactive => ((active t).mp hactive).2 rfl) ?_
      rintro (henrolled | hstanding | habandoned)
      · exact hcirculation.not_enrolled hrole hgone hothers henrolled
      · rw [hreturned, standing_concat] at hstanding
        rcases hstanding with ⟨hstanding, -⟩ | ⟨o, rfl, hregistered, -⟩
        · exact hback hstanding.mem_returned
        · rw [(result o rfl).2] at hregistered
          cases hregistered
      · exact hlost habandoned
    · refine hother ?_ (by rw [hrole]; nofun) ?_ ?_
      · rw [hrole]
        exact fun heq => ht (Role.registering.inj heq).symm
      · rw [active t, and_iff_left ht]
      · rintro o rfl hregistered
        rw [(result o rfl).2] at hregistered
        cases hregistered

/-- A subscription whose operation is dropped midway stays, and is written down as abandoned. -/
theorem Balanced.dropped (h : Balanced stops abandoned s) (hgone : s'.operation? n = none)
    (hothers : ∀ k, k ≠ n → s'.roleOf k = s.roleOf k) (hactive : SameActive s s')
    (hreturned : s'.returned = s.returned) :
    Balanced stops (abandoned ++ (s.roleOf n).registering?.toList) s' := by
  intro t
  rw [hactive t, hreturned, List.mem_append, Option.mem_toList, Role.registering?_eq_some]
  by_cases hrole : s.roleOf n = .registering t
  · exact iff_of_true ((h t).mpr (.inl ⟨n, hrole⟩)) (.inr (.inr (.inr hrole)))
  · rw [or_iff_left hrole, enrolled_of_others hothers hrole (roleOf_of_gone hgone)]
    exact h t

/-- The other moves keep the books right as well, as long as the connection is open. -/
theorem Balanced.move {failed : List ClientError} (h : Balanced stops abandoned s)
    (hcirculation : Circulation abandoned s) (hstopping : Stopping stops s)
    (hnew : s.operation? s.nextSerial = none) (hlt : ∀ r ∈ s.returned, r.1 < s.nextSerial)
    (hphase : Phase failed s) (hopen : s.connection.closed = false) (hs : s.move m = some s') :
    Balanced (stops ++ s.stopCalls m) (abandoned ++ s.abandons m) s' := by
  -- A move that changes no subscription, and neither calls nor drops.
  have hquiet (hstops : s.stopCalls m = []) (habandons : s.abandons m = []) (hactive : SameActive s s')
      (henrolled : ∀ t, s'.Enrolled t ↔ s.Enrolled t) (hreturned : s'.returned = s.returned) :
      Balanced (stops ++ s.stopCalls m) (abandoned ++ s.abandons m) s' := by
    rw [hstops, habandons, List.append_nil, List.append_nil]
    intro t
    rw [hactive t, henrolled t, hreturned]
    exact h t
  cases booking_of_move hnew hs with
  | kept mover roles active returned =>
    refine hquiet (stopCalls_eq ?_) (abandons_of_mover mover) active
      (fun t => enrolled_of_roles roles) returned
    rintro call cancelled rfl
    cases mover
  | granted k mover before after others _ active returned =>
    exact hquiet (by rw [mover]; rfl) (by rw [mover]; rfl) active
      (fun t => enrolled_of_others others (by rw [before]; nofun) (by rw [after]; nofun)) returned
  | called call cancelled mover _ role others active returned =>
    have henrolled (t : ByteArray) : s'.Enrolled t ↔ s.Enrolled t := by
      refine enrolled_of_others others (roleOf_of_gone hnew) ?_
      rw [role]
      cases call <;> nofun
    subst mover
    cases call with
    | stop o =>
      intro t
      change s'.subscriptions.isActive t = true ↔
        s'.Enrolled t ∨ Standing (stops ++ [(s.nextSerial, o.token)]) s'.returned t ∨ t ∈ abandoned ++ []
      rw [active t, henrolled t, returned, standing_of_call hlt, List.append_nil]
      exact h t
    | _ => exact hquiet rfl rfl active henrolled returned
  | subscribed k token mover before after others active returned =>
    have hstops : s.stopCalls m = [] := by rw [mover]; rfl
    have habandons : s.abandons m = [] := by rw [mover]; rfl
    rw [hstops, habandons, List.append_nil, List.append_nil]
    intro t
    rw [active t, returned]
    by_cases ht : t = token
    · subst ht
      exact iff_of_true (.inr rfl) (.inl ⟨k, after⟩)
    · have hafter : s'.roleOf k ≠ .registering t := by
        rw [after]
        exact fun heq => ht (Role.registering.inj heq).symm
      rw [or_iff_left ht, enrolled_of_others others (by rw [before]; nofun) hafter]
      exact h t
  | ended k c mover there gone others conclusion returned =>
    have hstops : s.stopCalls m = [] := by rw [mover]; rfl
    have habandons : s.abandons m = [] := by rw [mover]; rfl
    rw [hstops, habandons, List.append_nil, List.append_nil]
    exact h.ended hcirculation hstopping there gone others conclusion returned
  | dropped k mover gone others active returned =>
    have hstops : s.stopCalls m = [] := by rw [mover]; rfl
    have habandons : s.abandons m = (s.roleOf k).registering?.toList := by rw [mover]; rfl
    rw [hstops, habandons, List.append_nil]
    exact h.dropped gone others active returned
  | cleared mover phase roles returned =>
    -- The receiver clears the table only after it has closed the connection.
    unfold Phase at hphase
    rw [phase] at hphase
    rw [hphase.1] at hopen
    cases hopen

/-! All moves together. -/

theorem returned_lt (hfresh : ∀ k, s.nextSerial ≤ k → s.Fresh k) :
    ∀ r ∈ s.returned, r.1 < s.nextSerial := by
  intro r hr
  by_contra hge
  have hnone := (hfresh r.1 (Nat.le_of_not_lt hge)).completions
  obtain ⟨e, he, hend⟩ := List.mem_filterMap.mp hr
  have hmem : r.2 ∈ s.completionsOf r.1 := by
    refine List.mem_filterMap.mpr ⟨e, he, ?_⟩
    cases e with
    | finished k c =>
      cases hend
      exact if_pos rfl
    | _ => cases hend
  rw [hnone] at hmem
  cases hmem

/-- What is true of every run in which each call to stop an observation is about one that has been
returned. -/
structure Books (stops : List (Nat × ByteArray)) (abandoned : List ByteArray) (s : Session) : Prop where
  circulation : Circulation abandoned s
  stopping : Stopping stops s
  balanced : s.connection.closed = false → Balanced stops abandoned s

theorem books_start (options : ConnectOptions) (pipe : Pipe) (messageIds : MessageIds)
    (tokens : Tokens) (timer : Timer) : Books [] [] (start options pipe messageIds tokens timer) := by
  have hrole (n : Nat) : (start options pipe messageIds tokens timer).roleOf n = .apart := rfl
  refine ⟨⟨?_, ?_, ?_, ?_⟩, ⟨?_, ?_⟩, ?_⟩
  · rintro t (⟨n, hn⟩ | ht | ht)
    · rw [hrole] at hn
      cases hn
    · cases ht
    · cases ht
  · intro j k t hj
    rw [hrole] at hj
    cases hj
  · intro n t hn
    rw [hrole] at hn
    cases hn
  · intro t ht
    cases ht
  · intro r hr
    cases hr
  · intro n t hn
    rw [hrole] at hn
    cases hn
  · intro _ t
    refine iff_of_false nofun ?_
    rintro (⟨n, hn⟩ | ⟨before, n, o, after, heq, -⟩ | ht)
    · rw [hrole] at hn
      cases hn
    · have hnone : (start options pipe messageIds tokens timer).returned = [] := rfl
      rw [hnone] at heq
      simp at heq
    · cases ht

theorem Books.move {failed : List ClientError} (h : Books stops abandoned s)
    (hfresh : ∀ k, s.nextSerial ≤ k → s.Fresh k) (hphase : Phase failed s)
    (hbound : s'.tokens.count ≤ UInt64.size) (hgenuine : s.forges m = []) (hs : s.move m = some s') :
    Books (stops ++ s.stopCalls m) (abandoned ++ s.abandons m) s' := by
  have hnew := (hfresh s.nextSerial (Nat.le_refl _)).operation
  refine ⟨h.circulation.move hnew hbound hs, h.stopping.move hnew hgenuine hs, ?_⟩
  intro hopen
  have hopen' := open_of_move hs hopen
  exact (h.balanced hopen').move h.circulation h.stopping hnew (returned_lt hfresh) hphase hopen' hs

theorem books_run {options : ConnectOptions} {pipe : Pipe} {messageIds : MessageIds}
    {tokens : Tokens} {timer : Timer}
    (hrun : (start options pipe messageIds tokens timer).run past = some s)
    (hbound : s.tokens.count ≤ UInt64.size)
    (hgenuine : forgedOf (start options pipe messageIds tokens timer) past = []) :
    Books (stopsOf (start options pipe messageIds tokens timer) past)
      (abandonedOf (start options pipe messageIds tokens timer) past) s := by
  let first := start options pipe messageIds tokens timer
  refine run_induction (P := fun past s => s.tokens.count ≤ UInt64.size → forgedOf first past = [] →
    Books (stopsOf first past) (abandonedOf first past) s) ?_ ?_ hrun hbound hgenuine
  · intro _ _
    exact books_start options pipe messageIds tokens timer
  · intro past s m s' hpast h hs hbound hgenuine
    have hforged := along_concat forges hpast m
    rw [forgedOf, hforged, List.append_eq_nil_iff] at hgenuine
    have hbooks := h (Nat.le_trans (onward_of_move hs).count hbound) hgenuine.1
    unfold stopsOf abandonedOf
    rw [along_concat stopCalls hpast m, along_concat abandons hpast m]
    exact hbooks.move (unknown_run hpast) (kept_run hpast).phase hbound hgenuine.2 hs

/-- While the connection is open and nobody observes or stops an observation any more, the
subscriptions are those that callers have been told of and have not stopped since, and those of observe
operations that were dropped while the server had yet to accept them; each token has one subscription,
and each subscription has a worker, which goes only when the client stops. -/
theorem subscriptions_left {options : ConnectOptions} {pipe : Pipe} {messageIds : MessageIds}
    {tokens : Tokens} {timer : Timer} {past : List Move} {s : Session}
    (hrun : (start options pipe messageIds tokens timer).run past = some s)
    (hopen : s.connection.closed = false) (hidle : ∀ n, s.roleOf n = .apart)
    (hbound : s.tokens.count ≤ UInt64.size)
    (hgenuine : forgedOf (start options pipe messageIds tokens timer) past = []) :
    (∀ t, s.subscriptions.isActive t = true ↔
      Standing (stopsOf (start options pipe messageIds tokens timer) past) s.returned t ∨
        t ∈ abandonedOf (start options pipe messageIds tokens timer) past) ∧
    (s.subscriptions.entries.map Subscription.token).Nodup ∧
    (s.shutdown = false → ∀ e ∈ s.subscriptions.entries, ∃ w, s.worker? e.serial = some w) := by
  have hbooks := books_run hrun hbound hgenuine
  have hrostered := (roll_run hrun).1
  refine ⟨?_, hrostered.distinct.tokens, hrostered.employed⟩
  intro t
  have hnone : ¬ s.Enrolled t := by
    rintro ⟨n, hn⟩
    rw [hidle] at hn
    cases hn
  exact (hbooks.balanced hopen t).trans (or_iff_right hnone)

/-- The client of the runs below. -/
def observingClient : Session :=
  let options : ConnectOptions :=
    { host := "", port := 0, timeout := 1, blockSize := .s16, blockTransfer := false
      credentials := none }
  start options {} { next := 0 } { base := 0 }

/-- An observation is called for. -/
def observeCall : Move :=
  .input (.call (.observe { message := { type := .confirmable, code := .request .get } }
    fun _ => .handled) false)

/-- Of two observations one is accepted by the server, and the other one dropped while it waits. -/
def observingMoves : List Move :=
  let steps (n k : Nat) : List Move := List.replicate k (.step (.operation n))
  let answer : Message :=
    { type := .acknowledgement, code := .response .content, id := 0, options := [.observe 5] }
  [observeCall, observeCall] ++ steps 0 6 ++ steps 1 6 ++
    [.input (.message answer), .step .receiver] ++ steps 0 3 ++ [.input (.abort 1)]

theorem roleOf_of_isEmpty (h : s.operations.isEmpty = true) (n : Nat) : s.roleOf n = .apart := by
  apply roleOf_gone
  unfold operation?
  rw [List.isEmpty_iff.mp h]
  rfl

/-- Both subscriptions are left: the one that its caller has been told of, and the other one. -/
theorem observing_leaves_both : ∃ s, observingClient.run observingMoves = some s ∧
    (∀ t, s.subscriptions.isActive t = true ↔
      Standing (stopsOf observingClient observingMoves) s.returned t ∨
        t ∈ abandonedOf observingClient observingMoves) ∧
    s.returnedTokens = [Wire.eightBytes 0] ∧
    abandonedOf observingClient observingMoves = [Wire.eightBytes 1] ∧
    s.subscriptions.size = 2 := by
  have hends : (observingClient.run observingMoves).map (fun s => (s.connection.closed,
      s.operations.isEmpty, s.tokens.count, s.returnedTokens, s.subscriptions.size)) =
      some (false, true, 2, [Wire.eightBytes 0], 2) := rfl
  obtain ⟨s, hs, hfacts⟩ := Option.map_eq_some_iff.mp hends
  simp only [Prod.mk.injEq] at hfacts
  obtain ⟨hopen, hempty, hcount, hreturned, hsize⟩ := hfacts
  have hbound : s.tokens.count ≤ UInt64.size := by
    rw [hcount]
    decide
  exact ⟨s, hs, (subscriptions_left hs hopen (roleOf_of_isEmpty hempty) hbound rfl).1, hreturned, rfl,
    hsize⟩

/-- An observation is dropped after its subscription has been made. -/
def droppedMoves : List Move :=
  [observeCall, .step (.operation 0), .step (.operation 0), .input (.abort 0)]

/-- An observe operation that is dropped leaves a subscription that nobody has been told of. -/
theorem dropped_observe_leaves_its_subscription :
    ¬ ∀ (options : ConnectOptions) (pipe : Pipe) (messageIds : MessageIds) (tokens : Tokens)
      (past : List Move) (s : Session), (start options pipe messageIds tokens).run past = some s →
      s.connection.closed = false → (∀ n, s.roleOf n = .apart) → s.tokens.count ≤ UInt64.size →
      forgedOf (start options pipe messageIds tokens) past = [] →
      ∀ t, s.subscriptions.isActive t = true ↔
        Standing (stopsOf (start options pipe messageIds tokens) past) s.returned t := by
  intro h
  have hends : (observingClient.run droppedMoves).map (fun s => (s.connection.closed,
      s.operations.isEmpty, s.tokens.count, s.returnedTokens,
      s.subscriptions.isActive (Wire.eightBytes 0))) = some (false, true, 1, [], true) := rfl
  obtain ⟨s, hs, hfacts⟩ := Option.map_eq_some_iff.mp hends
  simp only [Prod.mk.injEq] at hfacts
  obtain ⟨hopen, hempty, hcount, hreturned, hactive⟩ := hfacts
  have hbound : s.tokens.count ≤ UInt64.size := by
    rw [hcount]
    decide
  have hstanding := (h _ _ _ _ droppedMoves s hs hopen (roleOf_of_isEmpty hempty) hbound rfl _).mp hactive
  have hmem := hstanding.mem_returned
  rw [hreturned] at hmem
  cases hmem

end Session

end Coap
