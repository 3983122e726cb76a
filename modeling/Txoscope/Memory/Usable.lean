import Txoscope.Memory.Proposals

/-!
# What the selectors read

The reads of a proposal in closed form: which scopes are eligible, which outputs can be used in
them, and what a proposal answers in terms of these (`eval_proposeOperation`).
-/

namespace Txoscope

namespace InMemoryStateStore

variable {s s' : InMemoryStateStore} {accountId : AccountId} {required : CapabilitySet}
  {account : Account}

/-! ## Scopes -/

/-- The scopes an account lists and owns that grant `required`. -/
def eligibleScopeIds (s : InMemoryStateStore) (accountId : AccountId) (required : CapabilitySet)
    (account : Account) : List WalletScopeId :=
  account.scopes.filter fun id =>
    (s.getScope id).any fun sc => sc.accountId = accountId ∧ sc.capabilities.containsAll required

theorem mem_eligibleScopeIds_iff (haccount : s.getAccount accountId = some account)
    (hcapable : required ⊆ account.capabilities) {id : WalletScopeId} :
    id ∈ s.eligibleScopeIds accountId required account ↔
      OperationSelection.Grants s.getAccount s.getScope accountId id required := by
  unfold eligibleScopeIds OperationSelection.Grants
  simp only [List.mem_filter, Option.any_eq_true, decide_eq_true_eq,
    CapabilitySet.containsAll_iff, haccount, Option.some.injEq]
  constructor
  · rintro ⟨hmem, scope, hget, howner, hgrants⟩
    exact ⟨account, scope, rfl, hget, howner, hmem, hcapable, hgrants⟩
  · rintro ⟨account', scope, rfl, hget, howner, hmem, -, hgrants⟩
    exact ⟨hmem, scope, hget, howner, hgrants⟩

theorem eval_preferredScope (ctx : SelectionContext) :
    Program.eval exec ctx.preferredScope s =
      match preferScope (ctx.eligibleScopeIds.filterMap s.getScope) with
      | some scope => .ok scope
      | none => .error (.noEligibleScope ctx.accountId) := by
  unfold SelectionContext.preferredScope
  rw [(SelectionContext.readScopes_onlyReads _).eval_bind reads_snd, eval_readScopes]
  dsimp only [bind, Except.bind]
  cases preferScope (ctx.eligibleScopeIds.filterMap s.getScope) <;> rfl

/-- The preferred scope has the least priority. -/
theorem preferScope_le {scopes : List WalletScope} {best : WalletScope}
    (h : preferScope scopes = some best) : ∀ scope ∈ scopes, best.priority ≤ scope.priority := by
  have hfold : ∀ (rest : List WalletScope) (first : WalletScope), ∀ scope ∈ first :: rest,
      (rest.foldl (fun best s => if s.priority < best.priority then s else best) first).priority ≤
        scope.priority := by
    intro rest
    induction rest with
    | nil =>
      intro first scope hscope
      rw [List.mem_singleton.mp hscope]
      exact UInt32.le_refl _
    | cons sc rest ih =>
      intro first
      have hnext := ih (if sc.priority < first.priority then sc else first)
      rw [List.forall_mem_cons] at hnext ⊢
      have hhead := hnext.1
      refine ⟨UInt32.le_trans hhead ?_, List.forall_mem_cons.mpr
        ⟨UInt32.le_trans hhead ?_, hnext.2⟩⟩
      · split_ifs with hlt
        · exact UInt32.le_of_lt hlt
        · exact UInt32.le_refl _
      · split_ifs with hlt
        · exact UInt32.le_refl _
        · exact UInt32.not_lt.mp hlt
  cases scopes with
  | nil => cases h
  | cons first rest =>
    obtain rfl := Option.some.inj h
    exact hfold rest first

/-! ## Outputs -/

/-- An output the account may use: its own, in an eligible scope, spendable and unlocked. -/
structure Usable (s : InMemoryStateStore) (accountId : AccountId) (required : CapabilitySet)
    (u : ManagedUtxo) : Prop where
  managed : s.getUtxo u.outpoint = some u
  owner : u.accountId = accountId
  scope : OperationSelection.Grants s.getAccount s.getScope accountId u.scopeId required
  spendable : u.isPolicySpendable = true
  unlocked : s.getLock u.outpoint = none

/-- The usable outputs, as the store lists them. -/
def usable (s : InMemoryStateStore) (accountId : AccountId) (required : CapabilitySet) :
    List ManagedUtxo :=
  match s.getAccount accountId with
  | none => []
  | some account =>
    if required ⊆ account.capabilities then
      s.listUtxos.filter fun u => u.accountId = accountId ∧
        u.scopeId ∈ s.eligibleScopeIds accountId required account ∧
          (u.isPolicySpendable && (s.getLock u.outpoint).isNone)
    else []

theorem getUtxo_of_mem_listUtxos (hk : s.WellKeyed) {u : ManagedUtxo} (h : u ∈ s.listUtxos) :
    s.getUtxo u.outpoint = some u := by
  obtain ⟨o, ho⟩ := ((enumerates_listUtxos hk).2 u).mp h
  rw [hk.toLedger.utxo o u ho]
  exact ho

theorem mem_usable_iff (hk : s.WellKeyed) {u : ManagedUtxo} :
    u ∈ s.usable accountId required ↔ s.Usable accountId required u := by
  unfold usable
  cases haccount : s.getAccount accountId with
  | none =>
    refine iff_of_false List.not_mem_nil fun h => ?_
    obtain ⟨account, -, ha, -⟩ := h.scope
    rw [haccount] at ha
    cases ha
  | some account =>
    dsimp only
    split_ifs with hcapable
    · simp only [List.mem_filter, decide_eq_true_eq, Bool.and_eq_true, Option.isNone_iff_eq_none,
        mem_eligibleScopeIds_iff haccount hcapable]
      constructor
      · rintro ⟨hmem, howner, hscope, hspendable, hlock⟩
        exact ⟨getUtxo_of_mem_listUtxos hk hmem, howner, hscope, hspendable, hlock⟩
      · rintro ⟨hget, howner, hscope, hspendable, hlock⟩
        exact ⟨((enumerates_listUtxos hk).2 u).mpr ⟨_, hget⟩, howner, hscope, hspendable, hlock⟩
    · refine iff_of_false List.not_mem_nil fun h => ?_
      obtain ⟨account', -, ha, -, -, -, hcapable', -⟩ := h.scope
      rw [haccount, Option.some.injEq] at ha
      exact hcapable (ha ▸ hcapable')

theorem usable_nodup (hk : s.WellKeyed) : (s.usable accountId required).Nodup := by
  unfold usable
  cases s.getAccount accountId with
  | none => exact List.nodup_nil
  | some account =>
    dsimp only
    split_ifs
    · exact (enumerates_listUtxos hk).1.filter _
    · exact List.nodup_nil

/-- Usable outputs are told apart by their outpoints. -/
theorem usable_outpoint_inj (hk : s.WellKeyed) {u v : ManagedUtxo}
    (hu : u ∈ s.usable accountId required) (hv : v ∈ s.usable accountId required)
    (h : u.outpoint = v.outpoint) : u = v := by
  have hget := ((mem_usable_iff hk).mp hu).managed
  rw [h, ((mem_usable_iff hk).mp hv).managed] at hget
  exact (Option.some.inj hget).symm

/-- What a selector is asked to select from. -/
def selectionContext (s : InMemoryStateStore) (accountId : AccountId) (required : CapabilitySet)
    (account : Account) : SelectionContext :=
  ⟨accountId, account.scopes, s.eligibleScopeIds accountId required account⟩

theorem eval_selectableUtxos (haccount : s.getAccount accountId = some account)
    (hcapable : required ⊆ account.capabilities) :
    Program.eval exec (s.selectionContext accountId required account).selectableUtxos s =
      .ok ((s.usable accountId required).map (·.outpoint)) := by
  unfold usable
  rw [haccount]
  dsimp only
  rw [if_pos hcapable]
  exact eval_selectableAmong s.listUtxos

/-! ## Proposals -/

/-- The answer to a request without exact outpoints. -/
theorem eval_proposeOperation {request : SelectionRequest} {req : OperationRequest}
    (hreq : request.intoOperationRequest = req)
    (hspec : Orchestrator.checkSpec req.selection.spec = .ok ())
    (hexact : req.selection.spec.isExact = false) :
    Program.eval exec (Orchestrator.proposeOperation request) s =
      match s.getAccount req.selection.accountId with
      | none => .error (.accountNotFound req.selection.accountId)
      | some account =>
        if ¬ req.selection.requiredCapabilities ⊆ account.capabilities then
          .error (.missingAccountCapabilities req.selection.accountId)
        else if s.eligibleScopeIds req.selection.accountId req.selection.requiredCapabilities
            account = [] then
          .error (.noEligibleScope req.selection.accountId)
        else
          (Program.eval exec (selectInputs (s.selectionContext req.selection.accountId
            req.selection.requiredCapabilities account) req.selection.spec) s).map
              (OperationSelection.fromRequest req) := by
  subst hreq
  unfold Orchestrator.proposeOperation
  dsimp only
  rw [hspec]
  change Program.eval exec ((StoreCall.getAccount _).invoke >>= _) s = _
  rw [eval_getAccount_bind]
  cases s.getAccount request.intoOperationRequest.selection.accountId with
  | none => rfl
  | some account =>
    dsimp only
    by_cases hcapable : request.intoOperationRequest.selection.requiredCapabilities ⊆
        account.capabilities
    · rw [if_neg (not_not.mpr hcapable), if_neg (by
        rw [Bool.not_eq_true', Bool.not_eq_false, CapabilitySet.containsAll_iff]
        exact hcapable), (Orchestrator.eligibleScopes_onlyReads _ _ _).eval_bind reads_snd,
        eval_eligibleScopes]
      change Program.eval exec (if (s.eligibleScopeIds _ _ account).isEmpty && _ then _ else _) s = _
      rw [hexact, Bool.not_false, Bool.and_true]
      by_cases hnil : s.eligibleScopeIds request.intoOperationRequest.selection.accountId
          request.intoOperationRequest.selection.requiredCapabilities account = []
      · rw [if_pos hnil, if_pos (by rw [hnil]; rfl)]
        rfl
      · rw [if_neg hnil, if_neg (by rwa [List.isEmpty_iff]),
          (selectInputs_onlyReads _ _).eval_bind reads_snd]
        unfold selectionContext eligibleScopeIds
        cases Program.eval exec (selectInputs _ _) s <;> rfl
    · rw [if_pos hcapable, if_pos (by
        rw [Bool.not_eq_true', ← Bool.not_eq_true, CapabilitySet.containsAll_iff]
        exact hcapable)]
      rfl

theorem eval_proposeOperation_of_account {request : SelectionRequest} {req : OperationRequest}
    (hreq : request.intoOperationRequest = req)
    (hspec : Orchestrator.checkSpec req.selection.spec = .ok ())
    (hexact : req.selection.spec.isExact = false)
    (haccount : s.getAccount req.selection.accountId = some account)
    (hcapable : req.selection.requiredCapabilities ⊆ account.capabilities)
    (hscopes : s.eligibleScopeIds req.selection.accountId req.selection.requiredCapabilities
      account ≠ []) :
    Program.eval exec (Orchestrator.proposeOperation request) s =
      (Program.eval exec (selectInputs (s.selectionContext req.selection.accountId
        req.selection.requiredCapabilities account) req.selection.spec) s).map
          (OperationSelection.fromRequest req) := by
  rw [eval_proposeOperation hreq hspec hexact, haccount]
  dsimp only
  rw [if_neg (not_not.mpr hcapable), if_neg hscopes]

end InMemoryStateStore

end Txoscope
