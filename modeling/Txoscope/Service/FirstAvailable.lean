import Txoscope.Lib.Greedy
import Txoscope.Memory.Usable
import Txoscope.Service.Cleanup
import Txoscope.Service.Failing

/-!
# The first available candidate

`reserve_first_available_manual_utxo` expires the candidates in the order of the caller, sorts them
by their text, and reserves the first that can be used. All leases that have run out are released
before the first candidate is looked at, so the order of the caller makes no difference: the answer
is the candidate with the least text that is available then (`reserveFirstAvailable_least`).
-/

namespace Txoscope

instance : Std.Total fun a b : OutPoint => a.display ≤ b.display where
  total a b := le_total a.display b.display

instance : IsTrans OutPoint fun a b => a.display ≤ b.display where
  trans _ _ _ := le_trans

namespace InMemoryStateStore

open TxoscopeService

variable {s s' : InMemoryStateStore} {accountId : AccountId} {required : CapabilitySet}
  {account : Account}

/-! ## Available candidates -/

/-- A usable output is recorded under the outpoint. -/
def Available (s : InMemoryStateStore) (accountId : AccountId) (required : CapabilitySet)
    (o : OutPoint) : Prop :=
  ∃ u, u.outpoint = o ∧ s.Usable accountId required u

/-- The test a candidate has to pass. -/
def isAvailable (s : InMemoryStateStore) (accountId : AccountId) (required : CapabilitySet)
    (account : Account) (o : OutPoint) : Bool :=
  (s.getUtxo o).any fun u => (u.accountId = accountId ∧
    u.scopeId ∈ s.eligibleScopeIds accountId required account) ∧
      (u.isPolicySpendable && (s.getLock o).isNone)

theorem isAvailable_iff (hk : s.WellKeyed) (haccount : s.getAccount accountId = some account)
    (hcapable : required ⊆ account.capabilities) {o : OutPoint} :
    s.isAvailable accountId required account o = true ↔ s.Available accountId required o := by
  unfold isAvailable
  rw [Option.any_eq_true]
  simp only [decide_eq_true_eq, Bool.and_eq_true, Option.isNone_iff_eq_none,
    mem_eligibleScopeIds_iff haccount hcapable]
  constructor
  · rintro ⟨u, hu, ⟨howner, hscope⟩, hspendable, hlock⟩
    obtain rfl : u.outpoint = o := hk.toLedger.utxo o u hu
    exact ⟨u, rfl, hu, howner, hscope, hspendable, hlock⟩
  · rintro ⟨u, rfl, hu, howner, hscope, hspendable, hlock⟩
    exact ⟨u, hu, ⟨howner, hscope⟩, hspendable, hlock⟩

theorem eval_isSelectableCandidate (hk : s.WellKeyed) (o : OutPoint) :
    Program.eval exec ((s.selectionContext accountId required account).isSelectableCandidate o) s =
      .ok (s.isAvailable accountId required account o) := by
  unfold SelectionContext.isSelectableCandidate isAvailable
  rw [eval_getUtxo_bind]
  cases hu : s.getUtxo o with
  | none => rfl
  | some u =>
    obtain rfl : u.outpoint = o := hk.toLedger.utxo o u hu
    rw [Option.any_some]
    change Program.eval exec (if u.accountId = accountId ∧
      u.scopeId ∈ s.eligibleScopeIds accountId required account then
        SelectionContext.isPolicySpendable u else pure false) s = _
    by_cases hscope : u.accountId = accountId ∧
        u.scopeId ∈ s.eligibleScopeIds accountId required account
    · rw [if_pos hscope, eval_isPolicySpendable]
      exact congrArg Except.ok (by simp only [hscope, true_and, Bool.decide_eq_true])
    · rw [if_neg hscope, Program.eval_pure]
      exact congrArg Except.ok (by simp only [hscope, false_and, decide_false])

theorem eval_firstSelectable (hk : s.WellKeyed) (candidates : List OutPoint) :
    Program.eval exec (firstSelectable (s.selectionContext accountId required account) candidates)
      s = .ok (candidates.find? (s.isAvailable accountId required account)) := by
  induction candidates with
  | nil => rfl
  | cons o candidates ih =>
    unfold firstSelectable
    rw [(SelectionContext.isSelectableCandidate_onlyReads _ o).eval_bind reads_snd,
      eval_isSelectableCandidate hk, List.find?_cons]
    dsimp only [bind, Except.bind]
    cases s.isAvailable accountId required account o with
    | true => rfl
    | false => exact ih

/-! ## The proposal -/

/-- What a manual reservation requires of scopes and accounts. -/
abbrev manualCapabilities : CapabilitySet := LockPurpose.manualReservation.requiredCapabilities

variable (id : OperationId) (candidates : List OutPoint) (expiresAt : ℕ)

theorem eval_proposeFirstAvailable (hk : s.WellKeyed)
    (haccount : s.getAccount accountId = some account)
    (hcapable : manualCapabilities ⊆ account.capabilities)
    (hscopes : s.eligibleScopeIds accountId manualCapabilities account ≠ []) :
    Program.eval exec (Orchestrator.proposeOperation
      (.manualReservationFirstAvailable id accountId candidates expiresAt)) s =
      match (sortByText candidates).find? (s.isAvailable accountId manualCapabilities account) with
      | none => .error .noCandidateAvailable
      | some o => (Program.eval exec (withChangeScope [o]) s).map (OperationSelection.fromRequest
          (SelectionRequest.manualReservationFirstAvailable id accountId candidates
            expiresAt).intoOperationRequest) := by
  have hpropose : Program.eval exec (Orchestrator.proposeOperation
      (.manualReservationFirstAvailable id accountId candidates expiresAt)) s =
        (Program.eval exec (selectInputs (s.selectionContext accountId manualCapabilities account)
          (.firstSelectable (sortByText candidates))) s).map (OperationSelection.fromRequest
            (SelectionRequest.manualReservationFirstAvailable id accountId candidates
              expiresAt).intoOperationRequest) :=
    eval_proposeOperation_of_account rfl rfl rfl haccount hcapable hscopes
  rw [hpropose]
  change (Program.eval exec (firstSelectable (s.selectionContext accountId manualCapabilities
    account) (sortByText candidates) >>= _) s).map _ = _
  rw [(firstSelectable_onlyReads _ _).eval_bind reads_snd, eval_firstSelectable hk]
  dsimp only [bind, Except.bind]
  cases (sortByText candidates).find? (s.isAvailable accountId manualCapabilities account) <;> rfl

/-- Where a scope grants manual reservations, the proposal selects the available candidate with the
least text, if there is one. -/
theorem proposeFirstAvailable_least (hk : s.WellKeyed)
    (hgrants : ∃ scopeId, OperationSelection.Grants s.getAccount s.getScope accountId scopeId
      manualCapabilities) :
    ((∀ o ∈ candidates, ¬ s.Available accountId manualCapabilities o) ∧
      Program.eval exec (Orchestrator.proposeOperation
        (.manualReservationFirstAvailable id accountId candidates expiresAt)) s =
          .error .noCandidateAvailable) ∨
    ∃ o ∈ candidates, s.Available accountId manualCapabilities o ∧
      (∀ o' ∈ candidates, s.Available accountId manualCapabilities o' → o.display ≤ o'.display) ∧
      ∃ selection, Program.eval exec (Orchestrator.proposeOperation
          (.manualReservationFirstAvailable id accountId candidates expiresAt)) s = .ok selection ∧
        selection.operationId = id ∧ selection.selectedOutpoints = [o] ∧
        selection.effects = [⟨o, .manualReservation⟩] ∧ selection.expiresAt = some expiresAt := by
  obtain ⟨scopeId, account, scope, haccount, hget, howner, hlisted, hcapable, hscope⟩ := hgrants
  have hne : s.eligibleScopeIds accountId manualCapabilities account ≠ [] :=
    List.ne_nil_of_mem ((mem_eligibleScopeIds_iff haccount hcapable).mpr
      ⟨account, scope, haccount, hget, howner, hlisted, hcapable, hscope⟩)
  have heval := eval_proposeFirstAvailable id candidates expiresAt hk haccount hcapable hne
  have havailable : ∀ o, s.isAvailable accountId manualCapabilities account o = true ↔
      s.Available accountId manualCapabilities o := fun o => isAvailable_iff hk haccount hcapable
  cases hfind : (sortByText candidates).find?
      (s.isAvailable accountId manualCapabilities account) with
  | none =>
    rw [hfind] at heval
    refine .inl ⟨fun o ho hav => ?_, heval⟩
    have hfails := Greedy.find?_insertionSort_eq_none_iff.mp hfind o ho
    rw [(havailable o).mpr hav] at hfails
    cases hfails
  | some o =>
    obtain ⟨ho, hpasses, hleast⟩ := Greedy.find?_insertionSort_least hfind
    obtain ⟨u, rfl, hu⟩ := (havailable o).mp hpasses
    rw [hfind] at heval
    dsimp only at heval
    unfold withChangeScope at heval
    dsimp only at heval
    rw [eval_getUtxo_bind, hu.managed] at heval
    exact .inr ⟨_, ho, ⟨u, rfl, hu⟩, fun o' ho' hav' => hleast o' ho' ((havailable o').mpr hav'), _,
      heval, rfl, rfl, rfl, rfl⟩

/-! ## The call -/

/-- What the caller is told to have reserved, and what the store says about it. -/
structure Reserves (t : InMemoryStateStore) (r : ManualReservation) (s' : InMemoryStateStore) :
    Prop where
  utxo : ∃ u, s'.getUtxo r.outpoint = some u ∧
    u.operationBinding = some ⟨r.reservationId, .selected⟩
  lock : ∃ k, s'.getLock r.outpoint = some k ∧ k.operationId = r.reservationId ∧
    k.purpose = .manualReservation ∧ k.expiresAt = some r.expiresAt
  others : ∀ o ≠ r.outpoint, s'.getUtxo o = t.getUtxo o ∧ s'.getLock o = t.getLock o

/-- The call in terms of the state after the expired leases were released. -/
theorem reserveFirstAvailable_run (h : s.Sound) (owner : String) (generate : ℕ → OperationId)
    (now : ℕ → ℕ) (req : ReserveFirstAvailableManualUtxoRequest)
    (hi : s.getIntent (generate (now req.candidateOutpoints.length)) = none)
    (hop : s.getOperation (generate (now req.candidateOutpoints.length)) = none)
    (hgrants : ∃ scopeId, OperationSelection.Grants s.getAccount s.getScope req.targetAccountId
      scopeId manualCapabilities) {t : InMemoryStateStore}
    (ht : s.afterExpiry now req.candidateOutpoints = t) :
    ((∀ o ∈ req.candidateOutpoints, ¬ t.Available req.targetAccountId manualCapabilities o) ∧
      Program.run exec (reserveFirstAvailableManualUtxo owner generate now req) s = (.ok none, t)) ∨
    ∃ r s', Program.run exec (reserveFirstAvailableManualUtxo owner generate now req) s =
        (.ok (some r), s') ∧
      r.reservationId = generate (now req.candidateOutpoints.length) ∧
      r.outpoint ∈ req.candidateOutpoints ∧
      t.Available req.targetAccountId manualCapabilities r.outpoint ∧
      (∀ o ∈ req.candidateOutpoints, t.Available req.targetAccountId manualCapabilities o →
        r.outpoint.display ≤ o.display) ∧ t.Reserves r s' := by
  have hsound : t.Sound := ht ▸ h.releasing _
  obtain ⟨hintents, haccounts, hscopes⟩ := releasing_frame
    (expiring now req.candidateOutpoints s) s
  have hi' : t.getIntent (generate (now req.candidateOutpoints.length)) = none :=
    ht ▸ (congrFun hintents _).trans hi
  have hop' : t.getOperation (generate (now req.candidateOutpoints.length)) = none :=
    ht ▸ getOperation_afterExpiry_of_none hop now _
  have hgrants' : ∃ scopeId, OperationSelection.Grants t.getAccount t.getScope req.targetAccountId
      scopeId manualCapabilities := by
    rw [← ht]
    unfold afterExpiry
    rw [haccounts, hscopes]
    exact hgrants
  have hrun : Program.run exec (reserveFirstAvailableManualUtxo owner generate now req) s = _ :=
    Program.run_bind_ok _ (run_expireStaleCandidateReservations h now req.candidateOutpoints)
  rw [ht] at hrun
  dsimp only at hrun
  rw [Program.run_bind_ok _ (Program.run_attempt exec _ t)] at hrun
  rcases proposeFirstAvailable_least (generate (now req.candidateOutpoints.length))
      req.candidateOutpoints (reservationExpiry (now req.candidateOutpoints.length) req.ttlSecs)
      hsound.keyed hgrants' with
    ⟨hnone, herror⟩ | ⟨o, ho, hav, hleast, selection, hok, hid, houtpoints, heffects, hexpires⟩
  · rw [prepareOperation_error owner herror] at hrun
    exact .inl ⟨hnone, hrun⟩
  · obtain ⟨s', hprepare, -, hprepared, hlocks⟩ :=
      prepareOperation_ok hsound.keyed owner (by exact hi') (by exact hop') hok
    have hmade : manualReservationFromSelection selection = .ok
        ⟨selection.operationId, o,
          reservationExpiry (now req.candidateOutpoints.length) req.ttlSecs⟩ := by
      unfold manualReservationFromSelection
      rw [houtpoints, hexpires]
      rfl
    rw [hprepare] at hrun
    dsimp only at hrun
    rw [hmade] at hrun
    obtain ⟨-, u, k, -, -, hu, hk, howner⟩ := hprepared.reserved o (by rw [houtpoints]; simp)
    obtain ⟨k', hk', hpurpose, hexpiry⟩ :=
      hlocks ⟨o, .manualReservation⟩ (by rw [heffects]; simp)
    obtain rfl : k = k' := Option.some.inj (hk.symm.trans hk')
    refine .inr ⟨_, s', hrun, hid, ho, hav, hleast, ⟨_, hu, rfl⟩,
      ⟨k, hk, howner, hpurpose, hexpiry.trans hexpires⟩, fun o' hne => ?_⟩
    exact hprepared.others o' (by rw [houtpoints]; simpa using hne)

/-- The first available candidate is the least one: with a fresh reservation identity and a scope
that grants manual reservations, the call fails for no candidate list. It answers `none` exactly
when no candidate is available once the expired leases on the candidates are released, and otherwise
reserves the available candidate with the least text. -/
theorem reserveFirstAvailable_least {snapshots : ObservationSnapshot → Prop}
    (h : ServiceRun snapshots empty s) (owner : String) (generate : ℕ → OperationId)
    (now : ℕ → ℕ) (req : ReserveFirstAvailableManualUtxoRequest)
    (hi : s.getIntent (generate (now req.candidateOutpoints.length)) = none)
    (hop : s.getOperation (generate (now req.candidateOutpoints.length)) = none)
    (hgrants : ∃ scopeId, OperationSelection.Grants s.getAccount s.getScope req.targetAccountId
      scopeId manualCapabilities) :
    ∃ ids t result s', ids.Nodup ∧ (∀ id, id ∈ ids ↔ s.RunsOut now req.candidateOutpoints id) ∧
      s.releasing ids = t ∧ (∀ o, (∀ id ∈ ids, ¬ (s.cell o).BoundTo id) → t.cell o = s.cell o) ∧
      Program.run exec (reserveFirstAvailableManualUtxo owner generate now req) s =
        (.ok result, s') ∧
      (result = none ↔
        ∀ o ∈ req.candidateOutpoints, ¬ t.Available req.targetAccountId manualCapabilities o) ∧
      (result = none → s'.cell = t.cell) ∧
      ∀ r, result = some r → r.reservationId = generate (now req.candidateOutpoints.length) ∧
        r.outpoint ∈ req.candidateOutpoints ∧
        t.Available req.targetAccountId manualCapabilities r.outpoint ∧
        (∀ o ∈ req.candidateOutpoints, t.Available req.targetAccountId manualCapabilities o →
          r.outpoint.display ≤ o.display) ∧ t.Reserves r s' := by
  obtain ⟨t, ht⟩ : ∃ t, s.afterExpiry now req.candidateOutpoints = t := ⟨_, rfl⟩
  have hkept : ∀ o, (∀ id ∈ expiring now req.candidateOutpoints s, ¬ (s.cell o).BoundTo id) →
      t.cell o = s.cell o := fun o hnone => by
    rw [← ht]
    exact (cell_releasing s _ o).trans ((h.sound.owned.agrees o).releaseAll_of_not_bound hnone)
  rcases reserveFirstAvailable_run h.sound owner generate now req hi hop hgrants ht with
    ⟨hnone, hrun⟩ | ⟨r, s', hrun, hid, ho, hav, hleast, hreserves⟩
  · exact ⟨_, t, none, t, nodup_expiring now _ s, fun _ => mem_expiring_iff, ht, hkept, hrun,
      iff_of_true rfl hnone, fun _ => rfl, fun r hr => (by cases hr)⟩
  · refine ⟨_, t, some r, s', nodup_expiring now _ s, fun _ => mem_expiring_iff, ht, hkept, hrun,
      iff_of_false (by simp) fun hnone => hnone _ ho hav, fun hnone => (by cases hnone),
      fun r' hr' => ?_⟩
    obtain rfl := Option.some.inj hr'
    exact ⟨hid, ho, hav, hleast, hreserves⟩

/-- The only candidate is under a lease that has run out. -/
theorem reserveFirstAvailable_least_sample : ∃ (t : InMemoryStateStore) (result : _) (s' : _),
    Program.run exec (reserveFirstAvailableManualUtxo "owner" (fun _ => ⟨"later"⟩) (fun _ => 10)
      ⟨Sample.accountId, [Sample.outpoint, Sample.outpoint], 5⟩) Sample.underLease =
        (.ok result, s') ∧
    (result = none ↔ ∀ o ∈ [Sample.outpoint, Sample.outpoint],
      ¬ t.Available Sample.accountId manualCapabilities o) := by
  obtain ⟨-, t, result, s', -, -, -, -, hrun, hnone, -⟩ := reserveFirstAvailable_least
    Sample.underLease_run "owner" (fun _ => ⟨"later"⟩) (fun _ => 10)
    ⟨Sample.accountId, [Sample.outpoint, Sample.outpoint], 5⟩ rfl rfl
    ⟨Sample.scopeId, _, _, rfl, rfl, rfl, by decide, by decide, by decide⟩
  exact ⟨t, result, s', hrun, hnone⟩

end InMemoryStateStore

end Txoscope
