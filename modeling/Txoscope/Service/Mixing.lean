import Txoscope.Memory.Usable
import Txoscope.Service.Overlap

/-!
# Proposals over a change of the store

A proposal reads the store call by call, so a reconciliation may come between any two of its reads.
The reads before it are answered by the store as it was, and the later ones by the reconciled store.
A proposal takes no notice of the change where it asks for accounts, scopes, values and locks, so a
selection for a value is the one of one of the two stores. `Picked` says which inputs come out of the
mixture otherwise, and `meets_proposeOperation` that a proposal returns no others.
-/

namespace Txoscope

/-- The output is still there, and it is not locked if it was not. -/
structure Cell.Remains (c d : Cell) : Prop where
  utxo : ∀ u, c.utxo = some u → ∃ v, d.utxo = some v ∧ u.SameIdentity v ∧ v.role = u.role
  unlocked : c.lock = none → d.lock = none

theorem Cell.Remains.refl (c : Cell) : c.Remains c :=
  ⟨fun u hu => ⟨u, hu, .refl u, rfl⟩, id⟩

theorem Cell.remains_act (c : Cell) (a : ReconciliationAction) : c.Remains (c.act a) := by
  have hmap : ∀ {f : ManagedUtxo → ManagedUtxo} {k : Option OperationLock},
      (∀ u, u.SameIdentity (f u) ∧ (f u).role = u.role) → (c.lock = none → k = none) →
        c.Remains ⟨c.utxo.map f, k⟩ :=
    fun hf hk => ⟨fun u hu => ⟨_, congrArg (Option.map _) hu, hf u⟩, hk⟩
  cases a with
  | discoverNew observed =>
    unfold act
    split_ifs with hsome
    · exact .refl c
    · refine ⟨fun u hu => ?_, id⟩
      rw [hu] at hsome
      exact (hsome rfl).elim
  | refreshObserved observed => exact .refl c
  | markSpent outpoint txid => exact hmap (fun _ => ⟨⟨rfl, rfl, rfl⟩, rfl⟩) fun _ => rfl
  | updateOnchainState outpoint newState =>
    refine hmap (fun u => ?_) id
    split_ifs <;> exact ⟨⟨rfl, rfl, rfl⟩, rfl⟩
  | reportConflict | clearConflict | updateAvailability | markMissing =>
    exact hmap (fun _ => ⟨⟨rfl, rfl, rfl⟩, rfl⟩) id

theorem Cell.remains_foldl_act (c : Cell) (as : List ReconciliationAction) :
    c.Remains (as.foldl act c) := by
  induction as generalizing c with
  | nil => exact .refl c
  | cons a as ih =>
    have hact := c.remains_act a
    refine ⟨fun u hu => ?_, fun hk => (ih _).unlocked (hact.unlocked hk)⟩
    obtain ⟨v, hv, hidentity, hrole⟩ := hact.utxo u hu
    obtain ⟨w, hw, hidentity', hrole'⟩ := (ih _).utxo v hv
    exact ⟨w, hw, hidentity.trans hidentity', hrole'.trans hrole⟩

namespace InMemoryStateStore

/-! ## Stores with the same tables -/

/-- The stores differ by intents and tick at most. -/
structure SameTables (s y : InMemoryStateStore) : Prop where
  accounts : y.accounts = s.accounts
  scopes : y.scopes = s.scopes
  utxos : y.utxos = s.utxos
  locks : y.locks = s.locks
  operations : y.operations = s.operations

section SameTables

variable {s s' y y' listed : InMemoryStateStore}

theorem SameTables.refl (s : InMemoryStateStore) : s.SameTables s := ⟨rfl, rfl, rfl, rfl, rfl⟩

theorem SameTables.trans (h : s.SameTables y) (h' : y.SameTables y') : s.SameTables y' :=
  ⟨h'.accounts.trans h.accounts, h'.scopes.trans h.scopes, h'.utxos.trans h.utxos,
    h'.locks.trans h.locks, h'.operations.trans h.operations⟩

theorem SameTables.cell_eq (h : s.SameTables y) (o : OutPoint) : y.cell o = s.cell o := by
  unfold cell getUtxo getLock
  rw [h.utxos, h.locks]

theorem SameTables.getOperation_eq (h : s.SameTables y) (id : OperationId) :
    y.getOperation id = s.getOperation id :=
  congrArg (fun operations : Dict _ _ => operations.get id) h.operations

theorem sameTables_persistIntent (s : InMemoryStateStore) (selection : OperationSelection) :
    s.SameTables (s.persistIntent selection).2 := by
  unfold persistIntent
  split
  · split_ifs <;> exact .refl s
  · exact ⟨rfl, rfl, rfl, rfl, rfl⟩

theorem sameTables_markIntentCommitted (s : InMemoryStateStore) (id : OperationId) :
    s.SameTables (s.markIntentCommitted id).2 := by
  unfold markIntentCommitted
  split
  · exact .refl s
  · split_ifs
    · exact .refl s
    · exact ⟨rfl, rfl, rfl, rfl, rfl⟩

/-- A failure of an intent releases nothing unless its operation is still selected. -/
theorem sameTables_markIntentFailed {id : OperationId}
    (h : ∀ op, s.getOperation id = some op → op.phase ≠ .selected) :
    s.SameTables (s.markIntentFailed id).2 := by
  have hfailed : ∀ intent, s.SameTables (s.setIntentFailed id intent) :=
    fun _ => ⟨rfl, rfl, rfl, rfl, rfl⟩
  unfold markIntentFailed
  split
  · exact .refl s
  · split
    · exact .refl s
    · exact .refl s
    · split
      · exact hfailed _
      · rename_i op hop
        split
        · exact (h op hop (by assumption)).elim
        · exact hfailed _
        · exact .refl s

/-- A plan acts on the outputs and locks alone, by what they are. -/
theorem SameTables.applyPlan {snapshot : ObservationSnapshot} (hlisted : s.SameTables listed)
    (h : s.SameTables y) : (s.reconciled snapshot).SameTables (applyPlan snapshot listed y) := by
  have hlist : listed.listUtxos = s.listUtxos := congrArg Dict.values hlisted.utxos
  rw [reconciled_eq]
  unfold InMemoryStateStore.applyPlan applyReconciliation
  rw [hlist]
  generalize (ReconciliationPlanner.planFor s.listUtxos snapshot).actions = actions
  suffices hfold : (actions.foldl applyAction s).SameTables (actions.foldl applyAction y) from
    ⟨hfold.accounts, hfold.scopes, hfold.utxos, hfold.locks, hfold.operations⟩
  clear hlist hlisted
  induction actions generalizing s y with
  | nil => exact h
  | cons action actions ih =>
    refine ih ?_
    obtain ⟨accounts, scopes, utxos, locks, operations, intents, tick⟩ := s
    obtain ⟨accounts', scopes', utxos', locks', operations', intents', tick'⟩ := y
    obtain ⟨rfl, rfl, rfl, rfl, rfl⟩ := h
    cases action with
    | discoverNew observed =>
      unfold applyAction
      dsimp only
      split_ifs <;> exact ⟨rfl, rfl, rfl, rfl, rfl⟩
    | refreshObserved | markSpent | updateOnchainState | reportConflict | clearConflict
      | updateAvailability | markMissing => exact ⟨rfl, rfl, rfl, rfl, rfl⟩

end SameTables

/-! ## Reading before and after a reconciliation -/

/-- What a reconciliation leaves of `s` for the reads of a proposal: no output is gone, and no
output is locked that was not. -/
structure LeadsTo (s r : InMemoryStateStore) : Prop where
  accounts : r.accounts = s.accounts
  scopes : r.scopes = s.scopes
  operations : r.operations = s.operations
  intents : r.intents = s.intents
  cell : ∀ o, (s.cell o).Remains (r.cell o)

theorem LeadsTo.refl (s : InMemoryStateStore) : s.LeadsTo s :=
  ⟨rfl, rfl, rfl, rfl, fun _ => .refl _⟩

theorem leadsTo_reconciled (snapshot : ObservationSnapshot) (s : InMemoryStateStore) :
    s.LeadsTo (s.reconciled snapshot) := by
  obtain ⟨haccounts, hscopes, hoperations, hintents⟩ := applyPlan_tables snapshot s s
  refine ⟨haccounts, hscopes, hoperations, hintents, fun o => ?_⟩
  rw [cell_reconciled]
  exact Cell.remains_foldl_act _ _

/-- The store answers as `s` or as `r`, and has the intents of `s`. -/
structure Between (s r y : InMemoryStateStore) : Prop where
  tables : s.SameTables y ∨ r.SameTables y
  intents : y.intents = s.intents

section Between

variable {s r y : InMemoryStateStore} {ctx : SelectionContext}

theorem Between.start (s r : InMemoryStateStore) : s.Between r s := ⟨.inl (.refl s), rfl⟩

theorem Between.getUtxo_eq (hy : s.Between r y) (o : OutPoint) :
    s.getUtxo o = y.getUtxo o ∨ r.getUtxo o = y.getUtxo o :=
  hy.tables.imp (fun h => (congrArg Cell.utxo (h.cell_eq o)).symm)
    fun h => (congrArg Cell.utxo (h.cell_eq o)).symm

namespace LeadsTo

theorem exec_getAccount (h : s.LeadsTo r) (hy : s.Between r y) (id : AccountId) :
    exec (.getAccount id) y = (.ok (s.getAccount id), y) := by
  have haccounts : y.accounts = s.accounts :=
    hy.tables.elim (·.accounts) fun hr => hr.accounts.trans h.accounts
  exact Prod.ext (congrArg (fun t : Dict _ _ => Except.ok (t.get id)) haccounts) rfl

theorem exec_getScope (h : s.LeadsTo r) (hy : s.Between r y) (id : WalletScopeId) :
    exec (.getScope id) y = (.ok (s.getScope id), y) := by
  have hscopes : y.scopes = s.scopes :=
    hy.tables.elim (·.scopes) fun hr => hr.scopes.trans h.scopes
  exact Prod.ext (congrArg (fun t : Dict _ _ => Except.ok (t.get id)) hscopes) rfl

theorem exec_getLock (h : s.LeadsTo r) (hy : s.Between r y) {o : OutPoint}
    (ho : s.getLock o = none) : exec (.getLock o) y = (.ok none, y) := by
  have hnone : y.getLock o = none := by
    rcases hy.tables with htables | htables
    · exact (congrArg Cell.lock (htables.cell_eq o)).trans ho
    · exact (congrArg Cell.lock (htables.cell_eq o)).trans ((h.cell o).unlocked ho)
  exact Prod.ext (congrArg Except.ok hnone) rfl

theorem exec_getUtxo (h : s.LeadsTo r) (hy : s.Between r y) {o : OutPoint} {u : ManagedUtxo}
    (hu : s.getUtxo o = some u) : ∃ v, exec (.getUtxo o) y = (.ok (some v), y) ∧
      v.valueSats = u.valueSats ∧ v.role = u.role := by
  rcases hy.tables with htables | htables
  · have hget : y.getUtxo o = some u := (congrArg Cell.utxo (htables.cell_eq o)).trans hu
    exact ⟨u, Prod.ext (congrArg Except.ok hget) rfl, rfl, rfl⟩
  · obtain ⟨v, hv, ⟨hvalue, -, -⟩, hrole⟩ := (h.cell o).utxo u hu
    have hget : y.getUtxo o = some v := (congrArg Cell.utxo (htables.cell_eq o)).trans hv
    exact ⟨v, Prod.ext (congrArg Except.ok hget) rfl, hvalue, hrole⟩

/-! ### Reads that come out the same -/

theorem steady_eligibleScopes (h : s.LeadsTo r) (accountId : AccountId) (required : CapabilitySet)
    (ids : List WalletScopeId) :
    (Orchestrator.eligibleScopes accountId required ids).Steady exec (s.Between r) s := by
  induction ids with
  | nil => exact .pure _
  | cons id ids ih =>
    unfold Orchestrator.eligibleScopes
    refine .bind_invoke rfl (fun y hy => ⟨_, h.exec_getScope hy id, rfl⟩) ?_
    refine .bind (.start s r) ih fun eligible _ => ?_
    split_ifs <;> exact .pure _

theorem steady_proposalContext (h : s.LeadsTo r) (request : SelectionRequest) :
    (Orchestrator.proposalContext request).Steady exec (s.Between r) s := by
  unfold Orchestrator.proposalContext
  refine .bind (.start s r) (.ofExcept _) fun _ _ => ?_
  refine .bind_invoke rfl (fun y hy => ⟨_, h.exec_getAccount hy _, rfl⟩) ?_
  cases s.getAccount request.intoOperationRequest.selection.accountId with
  | none => exact .throw _
  | some account =>
    dsimp only
    split_ifs
    · exact .throw _
    · refine .bind (.start s r) (h.steady_eligibleScopes _ _ _) fun eligible _ => ?_
      split_ifs
      · exact .throw _
      · exact .pure _

theorem steady_preferredScope (h : s.LeadsTo r) (ctx : SelectionContext) :
    ctx.preferredScope.Steady exec (s.Between r) s := by
  have hread : ∀ ids, (SelectionContext.readScopes ids).Steady exec (s.Between r) s := by
    intro ids
    induction ids with
    | nil => exact .pure _
    | cons id ids ih =>
      unfold SelectionContext.readScopes
      refine .bind_invoke rfl (fun y hy => ⟨_, h.exec_getScope hy id, rfl⟩) ?_
      exact .bind (.start s r) ih fun _ _ => .pure _
  unfold SelectionContext.preferredScope
  refine .bind (.start s r) (hread _) fun scopes _ => ?_
  cases preferScope scopes with
  | none => exact .throw _
  | some scope => exact .pure _

/-- The outputs listed in `s` are looked at one by one, and the spendable ones were not locked. -/
theorem steady_selectableAmong (h : s.LeadsTo r) (ctx : SelectionContext) {utxos : List ManagedUtxo}
    (hfree : ∀ u ∈ utxos, u.isPolicySpendable = true → s.getLock u.outpoint = none) :
    (ctx.selectableAmong utxos).Steady exec (s.Between r) s := by
  induction utxos with
  | nil => exact .pure _
  | cons u utxos ih =>
    rw [List.forall_mem_cons] at hfree
    have ih := ih hfree.2
    unfold SelectionContext.selectableAmong
    split_ifs
    · exact ih
    · refine .bind (.start s r) ?_ fun spendable _ => ?_
      · unfold SelectionContext.isPolicySpendable
        split_ifs with hspendable
        · refine .bind_invoke (congrArg Except.ok (hfree.1 hspendable))
            (fun y hy => ⟨_, h.exec_getLock hy (hfree.1 hspendable), rfl⟩) (.pure _)
        · exact .pure _
      · cases spendable with
        | false => exact ih
        | true => exact .bind (.start s r) ih fun _ _ => .pure _
    · exact ih

theorem steady_sortCandidateIds (h : s.LeadsTo r) {candidates : List OutPoint}
    (hmanaged : ∀ o ∈ candidates, ∃ u, s.getUtxo o = some u) :
    (SelectionSortPolicy.sortCandidateIds candidates).Steady exec (s.Between r) s := by
  unfold SelectionSortPolicy.sortCandidateIds
  refine .bind (.start s r) ?_ fun _ _ => .pure _
  induction candidates with
  | nil => exact .pure _
  | cons o candidates ih =>
    rw [List.forall_mem_cons] at hmanaged
    obtain ⟨u, hu⟩ := hmanaged.1
    unfold SelectionSortPolicy.readKeyed
    refine .bind_invoke (congrArg Except.ok hu) (fun y hy => ?_) ?_
    · obtain ⟨v, hv, hvalue, hrole⟩ := h.exec_getUtxo hy hu
      refine ⟨some v, hv, ?_⟩
      dsimp only
      unfold SelectionSortPolicy.selectionSortKey
      rw [hvalue, hrole]
    · exact .bind (.start s r) (ih hmanaged.2) fun _ _ => .pure _

theorem steady_accumulateByValue (h : s.LeadsTo r) (target acc : ℕ) {candidates : List OutPoint}
    (hmanaged : ∀ o ∈ candidates, ∃ u, s.getUtxo o = some u) :
    (SelectionSortPolicy.accumulateByValue target candidates acc).Steady exec (s.Between r) s := by
  induction candidates generalizing acc with
  | nil => exact .pure _
  | cons o candidates ih =>
    rw [List.forall_mem_cons] at hmanaged
    obtain ⟨u, hu⟩ := hmanaged.1
    unfold SelectionSortPolicy.accumulateByValue
    refine .bind_invoke (congrArg Except.ok hu) (fun y hy => ?_) ?_
    · obtain ⟨v, hv, hvalue, -⟩ := h.exec_getUtxo hy hu
      refine ⟨some v, hv, ?_⟩
      dsimp only
      rw [hvalue]
    · dsimp only
      split_ifs
      · exact .pure _
      · exact .bind (.start s r) (ih _ hmanaged.2) fun _ _ => .pure _

end LeadsTo

/-! ### Inputs for a value -/

/-- What may happen to the store under a preparation: no operation and no intent changes, and a
store that is still as it was may be reconciled. -/
structure Meddles (s r y y' : InMemoryStateStore) : Prop where
  operations : y'.operations = y.operations
  intents : y'.intents = y.intents
  before : s.SameTables y → s.SameTables y' ∨ r.SameTables y'
  after : r.SameTables y → r.SameTables y'

theorem Meddles.refl (y : InMemoryStateStore) : s.Meddles r y y := ⟨rfl, rfl, .inl, id⟩

theorem Meddles.trans {y' y'' : InMemoryStateStore} (h : s.Meddles r y y')
    (h' : s.Meddles r y' y'') : s.Meddles r y y'' where
  operations := h'.operations.trans h.operations
  intents := h'.intents.trans h.intents
  before hs := (h.before hs).elim h'.before fun hr => .inr (h'.after hr)
  after hr := h'.after (h.after hr)

theorem Between.meddled {y' : InMemoryStateStore} (hy : s.Between r y) (h : s.Meddles r y y') :
    s.Between r y' :=
  ⟨hy.tables.elim h.before fun hr => .inr (h.after hr), h.intents.trans hy.intents⟩

/-- What is selected for a value once the outputs are listed. -/
def chooseByValue (ctx : SelectionContext) (amountSats : ℕ) (changeScopeId : WalletScopeId)
    (utxos : List ManagedUtxo) : Client SelectedInputs := do
  let candidates ← ctx.selectableAmong utxos
  let candidates ← SelectionSortPolicy.sortCandidateIds candidates
  match ← SelectionSortPolicy.accumulateByValue amountSats candidates 0 with
  | none => throw .insufficientFunds
  | some selected => return ⟨selected, changeScopeId⟩

theorem targetValueSelect_eq (ctx : SelectionContext) (amountSats : ℕ) :
    targetValueSelect ctx amountSats = (do
      let changeScope ← ctx.preferredScope
      let utxos ← StoreCall.listUtxos.invoke
      chooseByValue ctx amountSats changeScope.id utxos) := by
  unfold targetValueSelect chooseByValue SelectionContext.selectableUtxos
  refine congrArg (ctx.preferredScope >>= ·) (funext fun changeScope => ?_)
  exact bind_assoc _ _ _

theorem chooseByValue_onlyReads (ctx : SelectionContext) (amountSats : ℕ)
    (changeScopeId : WalletScopeId) (utxos : List ManagedUtxo) :
    OnlyReads (chooseByValue ctx amountSats changeScopeId utxos) := by
  unfold chooseByValue
  refine .bind (ctx.selectableAmong_onlyReads utxos) fun candidates => ?_
  refine .bind (SelectionSortPolicy.sortCandidateIds_onlyReads candidates) fun sorted => ?_
  refine .bind (SelectionSortPolicy.accumulateByValue_onlyReads _ _ _) fun selected => ?_
  cases selected with
  | none => exact .throw _
  | some selected => exact .pure _

theorem LeadsTo.steady_chooseByValue (h : s.LeadsTo r) (hk : s.WellKeyed)
    (ho : s.toLedger.Owned) (ctx : SelectionContext) (amountSats : ℕ)
    (changeScopeId : WalletScopeId) :
    (chooseByValue ctx amountSats changeScopeId s.listUtxos).Steady exec (s.Between r) s := by
  unfold chooseByValue
  refine .bind (.start s r) (h.steady_selectableAmong ctx fun u hu hspendable => ?_)
    fun candidates hcandidates => ?_
  · have hbinding : (s.cell u.outpoint).binding = none := by
      have hget : (s.cell u.outpoint).utxo = some u := getUtxo_of_mem_listUtxos hk hu
      unfold Cell.binding
      rw [hget]
      exact (ManagedUtxo.isPolicySpendable_iff.mp hspendable).2.2.1
    exact (ho.agrees u.outpoint).unlocked hbinding
  · have hmanaged : ∀ o ∈ candidates, ∃ u, s.getUtxo o = some u := by
      rw [eval_selectableAmong] at hcandidates
      obtain rfl := Except.ok.inj hcandidates
      intro o ho
      obtain ⟨u, hu, rfl⟩ := List.mem_map.mp ho
      exact ⟨u, getUtxo_of_mem_listUtxos hk (List.mem_of_mem_filter hu)⟩
    refine .bind (.start s r) (h.steady_sortCandidateIds hmanaged) fun sorted hsorted => ?_
    refine .bind (.start s r) (h.steady_accumulateByValue _ _ fun o ho =>
      hmanaged o ((sortCandidateIds_perm hsorted).subset ho)) fun selected _ => ?_
    cases selected with
    | none => exact .throw _
    | some selected => exact .pure _

/-! ### Picked inputs -/

/-- In one of the stores the output is of the account, in an eligible scope, and spendable. -/
def SeenIn (s r : InMemoryStateStore) (ctx : SelectionContext) (o : OutPoint) : Prop :=
  ∃ u, (s.getUtxo o = some u ∨ r.getUtxo o = some u) ∧ u.accountId = ctx.accountId ∧
    u.scopeId ∈ ctx.eligibleScopeIds ∧ u.isPolicySpendable = true

/-- Inputs that were seen in one of the stores each, with the scope of the first one. -/
structure Mixed (s r : InMemoryStateStore) (ctx : SelectionContext) (inputs : SelectedInputs) :
    Prop where
  seen : ∀ o ∈ inputs.outpoints, s.SeenIn r ctx o
  change : ∃ first rest u, inputs.outpoints = first :: rest ∧
    (s.getUtxo first = some u ∨ r.getUtxo first = some u) ∧ inputs.changeScopeId = u.scopeId

/-- The inputs a selection returns if some of its reads are answered by `s` and the later ones by
`r`. -/
inductive Picked (s r : InMemoryStateStore) (ctx : SelectionContext) (inputs : SelectedInputs) :
    InputSelectionSpec → Prop where
  | early {spec : InputSelectionSpec}
      (eval : Program.eval exec (selectInputs ctx spec) s = .ok inputs) : Picked s r ctx inputs spec
  | late {spec : InputSelectionSpec}
      (eval : Program.eval exec (selectInputs ctx spec) r = .ok inputs) : Picked s r ctx inputs spec
  | exactOutpoints (mixed : s.Mixed r ctx inputs) :
      Picked s r ctx inputs (.exactOutpoints inputs.outpoints)
  | firstSelectable {candidates : List OutPoint} (c : OutPoint) (mem : c ∈ candidates)
      (outpoints : inputs.outpoints = [c]) (mixed : s.Mixed r ctx inputs) :
      Picked s r ctx inputs (.firstSelectable candidates)

/-- What a proposal returns if some of its reads are answered by `s` and the later ones by `r`. -/
structure Drawn (s r : InMemoryStateStore) (request : SelectionRequest)
    (selection : OperationSelection) : Prop where
  drawn : ∃ ctx inputs, Program.eval exec (Orchestrator.proposalContext request) s = .ok ctx ∧
    selection = .fromRequest request.intoOperationRequest inputs ∧
    s.Picked r ctx inputs request.intoOperationRequest.selection.spec

section Meets

variable {adm : InMemoryStateStore → StoreCall → Prop} (hadm : ∀ y c, StoreCall.IsRead c → adm y c)

include hadm

theorem meets_reads {α : Type} {p : Client α} (hp : OnlyReads p)
    {I : InMemoryStateStore → Prop} (hI : ∀ y y', I y → s.Meddles r y y' → I y') (hy : I y) :
    p.Meets exec (s.Meddles r) adm (fun _ => I) y :=
  Program.Keeps.of_onlyCalls hI
    (fun c y hc hy => ⟨hadm y c hc, (exec_read_snd hc y).symm ▸ hy⟩) hp y hy

/-- A read, and what is done with its answer. -/
theorem meets_bind_read {α : Type} {c : StoreCall} {f : c.Out → Client α}
    {Q : DomainResult α → InMemoryStateStore → Prop} (hc : c.IsRead)
    (h : ∀ y', s.Meddles r y y' → ∃ a, (exec c y').1 = .ok a ∧
      (f a).Meets exec (s.Meddles r) adm Q y') :
    (c.invoke >>= f).Meets exec (s.Meddles r) adm Q y := by
  refine .bind_invoke fun y' hm => ⟨hadm _ _ hc, ?_⟩
  obtain ⟨a, ha, hnext⟩ := h y' hm
  rw [ha, exec_read_snd hc]
  exact hnext

theorem meets_isPolicySpendable (u : ManagedUtxo) (hy : s.Between r y) :
    (SelectionContext.isPolicySpendable u).Meets exec (s.Meddles r) adm (fun res y' =>
      s.Between r y' ∧ (res = .ok true → u.isPolicySpendable = true)) y := by
  unfold SelectionContext.isPolicySpendable
  split_ifs with h
  · exact meets_bind_read hadm trivial fun y' hm => ⟨_, rfl, .pure ⟨hy.meddled hm, fun _ => h⟩⟩
  · exact .pure ⟨hy, fun h => by cases h⟩

theorem meets_requireSelectableCandidate (o : OutPoint) (hy : s.Between r y) :
    (ctx.requireSelectableCandidate o).Meets exec (s.Meddles r) adm (fun res y' =>
      s.Between r y' ∧ (res = .ok () → s.SeenIn r ctx o)) y := by
  unfold SelectionContext.requireSelectableCandidate
  refine meets_bind_read hadm trivial fun y' hm => ⟨_, rfl, ?_⟩
  have hy' := hy.meddled hm
  have hseen := hy'.getUtxo_eq o
  have hthrow : ∀ e : DomainError, (throw e : Client Unit).Meets exec (s.Meddles r) adm
      (fun res y' => s.Between r y' ∧ (res = .ok () → s.SeenIn r ctx o)) y' :=
    fun e => .throw ⟨hy', fun h => by cases h⟩
  cases hu : y'.getUtxo o with
  | none => exact hthrow _
  | some u =>
    rw [hu] at hseen
    dsimp only
    split_ifs with haccount hscope hlisted havailability
    · exact hthrow _
    · exact hthrow _
    · refine .bind ((meets_isPolicySpendable hadm u hy').conseq fun res y'' h => ?_)
      cases res with
      | error e => exact ⟨h.1, fun h => by cases h⟩
      | ok spendable =>
        cases spendable with
        | true => exact .pure ⟨h.1, fun _ => ⟨u, hseen, not_not.mp haccount, hscope, h.2 rfl⟩⟩
        | false =>
          exact meets_bind_read hadm trivial fun y₃ hm' => ⟨_, rfl,
            .throw ⟨h.1.meddled hm', fun h => by cases h⟩⟩
    · refine meets_bind_read hadm trivial fun y'' hm' => ⟨_, rfl, ?_⟩
      split_ifs <;> exact .throw ⟨hy'.meddled hm', fun h => by cases h⟩
    · exact hthrow _

theorem meets_forEach_requireSelectable (outpoints : List OutPoint) (hy : s.Between r y) :
    (Program.forEach ctx.requireSelectableCandidate outpoints).Meets exec (s.Meddles r) adm
      (fun res y' => s.Between r y' ∧ (res = .ok () → ∀ o ∈ outpoints, s.SeenIn r ctx o)) y := by
  induction outpoints generalizing y with
  | nil => exact .pure ⟨hy, fun _ _ hm => (List.not_mem_nil hm).elim⟩
  | cons o outpoints ih =>
    refine .bind ((meets_requireSelectableCandidate hadm o hy).conseq fun res y' h => ?_)
    cases res with
    | error e => exact ⟨h.1, fun h => by cases h⟩
    | ok _ =>
      exact (ih h.1).conseq fun res y'' h' =>
        ⟨h'.1, fun hok => List.forall_mem_cons.mpr ⟨h.2 rfl, h'.2 hok⟩⟩

theorem meets_isSelectableCandidate (o : OutPoint) (hy : s.Between r y) :
    (ctx.isSelectableCandidate o).Meets exec (s.Meddles r) adm (fun res y' =>
      s.Between r y' ∧ (res = .ok true → s.SeenIn r ctx o)) y := by
  unfold SelectionContext.isSelectableCandidate
  refine meets_bind_read hadm trivial fun y' hm => ⟨_, rfl, ?_⟩
  have hy' := hy.meddled hm
  have hseen := hy'.getUtxo_eq o
  cases hu : y'.getUtxo o with
  | none => exact .pure ⟨hy', fun h => by cases h⟩
  | some u =>
    rw [hu] at hseen
    dsimp only
    split_ifs with hctx
    · exact (meets_isPolicySpendable hadm u hy').conseq fun res y'' h =>
        ⟨h.1, fun hok => ⟨u, hseen, hctx.1, hctx.2, h.2 hok⟩⟩
    · exact .pure ⟨hy', fun h => by cases h⟩

theorem meets_firstSelectable (candidates : List OutPoint) (hy : s.Between r y) :
    (Txoscope.firstSelectable ctx candidates).Meets exec (s.Meddles r) adm (fun res y' =>
      s.Between r y' ∧ ∀ c, res = .ok (some c) → c ∈ candidates ∧ s.SeenIn r ctx c) y := by
  induction candidates generalizing y with
  | nil => exact .pure ⟨hy, fun _ h => by cases h⟩
  | cons o candidates ih =>
    unfold Txoscope.firstSelectable
    refine .bind ((meets_isSelectableCandidate hadm o hy).conseq fun res y' h => ?_)
    cases res with
    | error e => exact ⟨h.1, fun _ h => by cases h⟩
    | ok selectable =>
      cases selectable with
      | true =>
        refine .pure ⟨h.1, fun c hc => ?_⟩
        cases hc
        exact ⟨List.mem_cons_self, h.2 rfl⟩
      | false =>
        exact (ih h.1).conseq fun res y'' h' =>
          ⟨h'.1, fun c hc => ⟨List.mem_cons_of_mem _ (h'.2 c hc).1, (h'.2 c hc).2⟩⟩

theorem meets_withChangeScope {outpoints : List OutPoint} (hy : s.Between r y)
    (hseen : ∀ o ∈ outpoints, s.SeenIn r ctx o) :
    (withChangeScope outpoints).Meets exec (s.Meddles r) adm (fun res y' => s.Between r y' ∧
      ∀ inputs, res = .ok inputs → inputs.outpoints = outpoints ∧ s.Mixed r ctx inputs) y := by
  unfold withChangeScope
  cases outpoints with
  | nil => exact .throw ⟨hy, fun _ h => by cases h⟩
  | cons first rest =>
    refine meets_bind_read hadm trivial fun y' hm => ⟨_, rfl, ?_⟩
    have hy' := hy.meddled hm
    have hget := hy'.getUtxo_eq first
    cases hu : y'.getUtxo first with
    | none => exact .throw ⟨hy', fun _ h => by cases h⟩
    | some u =>
      rw [hu] at hget
      refine .pure ⟨hy', fun inputs h => ?_⟩
      cases h
      exact ⟨rfl, hseen, first, rest, u, rfl, hget, rfl⟩

/-- What the remaining reads of a steady program come to. -/
theorem meets_steady {α : Type} {p : Client α} (hp : OnlyReads p)
    (hsteady : p.Steady exec (s.Between r) s) (hy : s.Between r y) :
    p.Meets exec (s.Meddles r) adm (fun res y' => res = Program.eval exec p s ∧ s.Between r y') y :=
  hsteady.meets (.start s r) (fun _ _ hy hm => hy.meddled hm) hp hadm hy

/-- A selection for a value sees one of the two stores. -/
theorem meets_targetValueSelect (h : s.LeadsTo r) (hs : s.WellKeyed) (hos : s.toLedger.Owned)
    (hr : r.WellKeyed) (hor : r.toLedger.Owned) (amountSats : ℕ) (hy : s.Between r y) :
    (targetValueSelect ctx amountSats).Meets exec (s.Meddles r) adm (fun res y' =>
      s.Between r y' ∧ (res = Program.eval exec (targetValueSelect ctx amountSats) s ∨
        res = Program.eval exec (targetValueSelect ctx amountSats) r)) y := by
  have heval : ∀ x, Program.eval exec (targetValueSelect ctx amountSats) x =
      Program.eval exec ctx.preferredScope x >>= fun scope =>
        Program.eval exec (chooseByValue ctx amountSats scope.id x.listUtxos) x := by
    intro x
    rw [targetValueSelect_eq, ctx.preferredScope_onlyReads.eval_bind reads_snd]
    exact bind_congr fun scope => eval_read_bind (c := .listUtxos) trivial _
  have hscope : Program.eval exec ctx.preferredScope r = Program.eval exec ctx.preferredScope s := by
    have hget : r.getScope = s.getScope :=
      funext fun id => congrArg (fun scopes : Dict _ _ => scopes.get id) h.scopes
    rw [eval_preferredScope, eval_preferredScope, hget]
  rw [targetValueSelect_eq]
  refine .bind ((meets_steady hadm ctx.preferredScope_onlyReads (h.steady_preferredScope ctx)
    hy).conseq fun res y' hres => ?_)
  obtain ⟨rfl, hy'⟩ := hres
  cases hp : Program.eval exec ctx.preferredScope s with
  | error e =>
    refine ⟨hy', .inl ?_⟩
    rw [← targetValueSelect_eq, heval, hp]
    rfl
  | ok scope =>
    refine meets_bind_read hadm trivial fun y'' hm => ⟨_, rfl, ?_⟩
    have hy'' := hy'.meddled hm
    rw [← targetValueSelect_eq, heval, heval, hscope, hp]
    have hreads := chooseByValue_onlyReads ctx amountSats scope.id
    rcases hy''.tables with htables | htables
    · rw [show y''.listUtxos = s.listUtxos from congrArg Dict.values htables.utxos]
      exact (meets_steady hadm (hreads _) (h.steady_chooseByValue hs hos ctx amountSats scope.id)
        hy'').conseq fun res y₃ hres => ⟨hres.2, .inl hres.1⟩
    · -- the reconciled store stays as it is
      rw [show y''.listUtxos = r.listUtxos from congrArg Dict.values htables.utxos]
      have hr' : r.Between r y'' := ⟨.inl htables, hy''.intents.trans h.intents.symm⟩
      refine (((LeadsTo.refl r).steady_chooseByValue hr hor ctx amountSats scope.id).meets
        (.start r r) (fun y y' hy hm => ?_) (hreads _) hadm hr').conseq fun res y₃ hres => ?_
      · exact ⟨.inl (hm.after (hy.tables.elim id id)), hm.intents.trans hy.intents⟩
      · exact ⟨⟨.inr (hres.2.tables.elim id id), hres.2.intents.trans h.intents⟩, .inr hres.1⟩

theorem meets_selectInputs (h : s.LeadsTo r) (hs : s.WellKeyed) (hos : s.toLedger.Owned)
    (hr : r.WellKeyed) (hor : r.toLedger.Owned) (spec : InputSelectionSpec) (hy : s.Between r y) :
    (selectInputs ctx spec).Meets exec (s.Meddles r) adm (fun res y' =>
      s.Between r y' ∧ ∀ inputs, res = .ok inputs → s.Picked r ctx inputs spec) y := by
  cases spec with
  | targetValue amountSats =>
    exact (meets_targetValueSelect hadm h hs hos hr hor amountSats hy).conseq fun res y' hres =>
      ⟨hres.1, fun inputs hok => hres.2.elim (fun heq => .early (heq.symm.trans hok))
        fun heq => .late (heq.symm.trans hok)⟩
  | exactOutpoints outpoints =>
    refine .bind ((meets_forEach_requireSelectable hadm outpoints hy).conseq fun res y' hres => ?_)
    cases res with
    | error e => exact ⟨hres.1, fun _ h => by cases h⟩
    | ok _ =>
      refine (meets_withChangeScope hadm hres.1 (hres.2 rfl)).conseq fun res y'' hres' => ?_
      refine ⟨hres'.1, fun inputs hok => ?_⟩
      obtain ⟨houtpoints, hmixed⟩ := hres'.2 inputs hok
      rw [← houtpoints]
      exact .exactOutpoints hmixed
  | firstSelectable candidates =>
    refine .bind ((meets_firstSelectable hadm candidates hy).conseq fun res y' hres => ?_)
    cases res with
    | error e => exact ⟨hres.1, fun _ h => by cases h⟩
    | ok selected =>
      cases selected with
      | none => exact .throw ⟨hres.1, fun _ h => by cases h⟩
      | some c =>
        obtain ⟨hmem, hseen⟩ := hres.2 c rfl
        have hall : ∀ o ∈ [c], s.SeenIn r ctx o := fun o ho => List.mem_singleton.mp ho ▸ hseen
        refine (meets_withChangeScope hadm hres.1 hall).conseq fun res y'' hres' => ?_
        refine ⟨hres'.1, fun inputs hok => ?_⟩
        obtain ⟨houtpoints, hmixed⟩ := hres'.2 inputs hok
        exact .firstSelectable c hmem houtpoints hmixed

theorem meets_proposeOperation (h : s.LeadsTo r) (hs : s.WellKeyed) (hos : s.toLedger.Owned)
    (hr : r.WellKeyed) (hor : r.toLedger.Owned) (request : SelectionRequest)
    (hy : s.Between r y) :
    (Orchestrator.proposeOperation request).Meets exec (s.Meddles r) adm (fun res y' =>
      s.Between r y' ∧ ∀ selection, res = .ok selection → s.Drawn r request selection) y := by
  rw [Orchestrator.proposeOperation_eq]
  refine .bind ((meets_steady hadm (Orchestrator.proposalContext_onlyReads request)
    (h.steady_proposalContext request) hy).conseq fun res y' hres => ?_)
  obtain ⟨rfl, hy'⟩ := hres
  cases hctx : Program.eval exec (Orchestrator.proposalContext request) s with
  | error e => exact ⟨hy', fun _ h => by cases h⟩
  | ok ctx =>
    refine .bind ((meets_selectInputs hadm h hs hos hr hor _ hy').conseq fun res y'' hres => ?_)
    cases res with
    | error e => exact ⟨hres.1, fun _ h => by cases h⟩
    | ok inputs =>
      refine .pure ⟨hres.1, fun selection hok => ?_⟩
      cases hok
      exact ⟨ctx, inputs, hctx, rfl, hres.2 inputs rfl⟩

end Meets

/-! ### What was drawn -/

variable {request : SelectionRequest} {selection : OperationSelection}

theorem LeadsTo.eval_proposalContext (h : s.LeadsTo r) (request : SelectionRequest) :
    Program.eval exec (Orchestrator.proposalContext request) r =
      Program.eval exec (Orchestrator.proposalContext request) s :=
  (h.steady_proposalContext request).eval_eq (.start s r) ⟨.inr (.refl r), h.intents⟩

/-- A mixture that neither store gives alone is of exact outpoints or a first candidate. -/
theorem Drawn.cases (h : s.LeadsTo r) (hd : s.Drawn r request selection) :
    Program.eval exec (Orchestrator.proposeOperation request) s = .ok selection ∨
      Program.eval exec (Orchestrator.proposeOperation request) r = .ok selection ∨
      ∃ ctx inputs, Program.eval exec (Orchestrator.proposalContext request) s = .ok ctx ∧
        selection = .fromRequest request.intoOperationRequest inputs ∧ s.Mixed r ctx inputs ∧
        (request.intoOperationRequest.selection.spec = .exactOutpoints inputs.outpoints ∨
          ∃ candidates, ∃ c ∈ candidates, inputs.outpoints = [c] ∧
            request.intoOperationRequest.selection.spec = .firstSelectable candidates) := by
  obtain ⟨ctx, inputs, hctx, rfl, hpicked⟩ := hd.drawn
  have hctx' := (h.eval_proposalContext request).trans hctx
  have hs := eval_proposeOperation_of_inputs inputs hctx
  have hr := eval_proposeOperation_of_inputs inputs hctx'
  generalize request.intoOperationRequest.selection.spec = spec at hpicked hs hr
  cases hpicked with
  | early heval => exact .inl (hs heval)
  | late heval => exact .inr (.inl (hr heval))
  | exactOutpoints mixed => exact .inr (.inr ⟨ctx, inputs, hctx, rfl, mixed, .inl rfl⟩)
  | firstSelectable c mem outpoints mixed =>
    exact .inr (.inr ⟨ctx, inputs, hctx, rfl, mixed, .inr ⟨_, c, mem, outpoints, rfl⟩⟩)

/-- Some input could be spent in one of the stores. -/
theorem Drawn.spendable (h : s.LeadsTo r) (hs : s.WellKeyed) (hr : r.WellKeyed)
    (hd : s.Drawn r request selection) : ∃ o ∈ selection.selectedOutpoints, ∃ u,
      (s.getUtxo o = some u ∨ r.getUtxo o = some u) ∧ u.isPolicySpendable = true := by
  have hready : ∀ {x : InMemoryStateStore}, x.WellKeyed →
      Program.eval exec (Orchestrator.proposeOperation request) x = .ok selection →
        ∃ o ∈ selection.selectedOutpoints, ∃ u, x.getUtxo o = some u ∧
          u.isPolicySpendable = true := by
    intro x hk heval
    have hready := (proposeOperation_proposed hk heval).ready hk
    obtain ⟨o, ho⟩ := List.exists_mem_of_ne_nil _ hready.authorised.wellFormed.nonempty
    exact ⟨o, ho, (hready.free o ho).1⟩
  rcases hd.cases h with heval | heval | ⟨ctx, inputs, -, rfl, hmixed, -⟩
  · obtain ⟨o, ho, u, hu, hspendable⟩ := hready hs heval
    exact ⟨o, ho, u, .inl hu, hspendable⟩
  · obtain ⟨o, ho, u, hu, hspendable⟩ := hready hr heval
    exact ⟨o, ho, u, .inr hu, hspendable⟩
  · obtain ⟨first, rest, -, houtpoints, -⟩ := hmixed.change
    have hmem : first ∈ inputs.outpoints := houtpoints ▸ List.mem_cons_self
    obtain ⟨u, hu, -, -, hspendable⟩ := hmixed.seen first hmem
    exact ⟨first, hmem, u, hu, hspendable⟩

theorem Drawn.operationId (hd : s.Drawn r request selection) :
    selection.operationId = request.operationId := by
  obtain ⟨ctx, inputs, -, rfl, -⟩ := hd.drawn
  rfl

/-! ### Drawn inputs that are free -/

/-- A selection of some candidate of the request, which may not be the first one that is on offer. -/
structure Candidate (s : InMemoryStateStore) (request : SelectionRequest)
    (selection : OperationSelection) : Prop where
  candidate : ∃ candidates, ∃ c ∈ candidates, selection.selectedOutpoints = [c] ∧
    request.intoOperationRequest.selection.spec = .firstSelectable candidates
  proposed : s.Proposed request.intoOperationRequest selection

/-- An output that was seen and is free by now is on offer. -/
theorem SeenIn.offers (h : s.LeadsTo r) {o : OutPoint} (hseen : s.SeenIn r ctx o)
    (hfree : (∃ u, r.getUtxo o = some u ∧ u.isPolicySpendable = true) ∧ r.getLock o = none) :
    r.Offers ctx o := by
  obtain ⟨u, hu, haccount, hscope, -⟩ := hseen
  obtain ⟨⟨v, hv, hspendable⟩, hlock⟩ := hfree
  have hsame : v.accountId = u.accountId ∧ v.scopeId = u.scopeId := by
    rcases hu with hu | hu
    · obtain ⟨w, hw, ⟨-, haccount', hscope'⟩, -⟩ := (h.cell o).utxo u hu
      cases hv.symm.trans hw
      exact ⟨haccount', hscope'⟩
    · cases hv.symm.trans hu
      exact ⟨rfl, rfl⟩
  exact ⟨⟨v, hv, hsame.1.trans haccount, hsame.2 ▸ hscope, hspendable⟩, hlock⟩

theorem Mixed.eval_withChangeScope (h : s.LeadsTo r) {inputs : SelectedInputs}
    (hmixed : s.Mixed r ctx inputs) :
    Program.eval exec (withChangeScope inputs.outpoints) r = .ok inputs := by
  obtain ⟨first, rest, u, houtpoints, hu, hchange⟩ := hmixed.change
  have hget : ∃ v, r.getUtxo first = some v ∧ v.scopeId = u.scopeId := by
    rcases hu with hu | hu
    · obtain ⟨v, hv, ⟨-, -, hscope⟩, -⟩ := (h.cell first).utxo u hu
      exact ⟨v, hv, hscope⟩
    · exact ⟨u, hu, rfl⟩
  obtain ⟨v, hv, hscope⟩ := hget
  obtain ⟨outpoints, changeScopeId⟩ := inputs
  obtain rfl : outpoints = first :: rest := houtpoints
  obtain rfl : changeScopeId = u.scopeId := hchange
  unfold withChangeScope
  dsimp only
  rw [eval_getUtxo_bind, hv, ← hscope]
  rfl

/-- What was drawn and is free in `r` could be proposed in one of the stores, up to the choice of
the candidate. -/
theorem Drawn.proposable (h : s.LeadsTo r) (hr : r.WellKeyed) (hd : s.Drawn r request selection)
    (hfree : ∀ o ∈ selection.selectedOutpoints,
      (∃ u, r.getUtxo o = some u ∧ u.isPolicySpendable = true) ∧ r.getLock o = none) :
    Program.eval exec (Orchestrator.proposeOperation request) s = .ok selection ∨
      Program.eval exec (Orchestrator.proposeOperation request) r = .ok selection ∨
      r.Candidate request selection := by
  rcases hd.cases h with heval | heval | ⟨ctx, inputs, hctx, rfl, hmixed, hspec⟩
  · exact .inl heval
  · exact .inr (.inl heval)
  have hoffers : ∀ o ∈ inputs.outpoints, r.Offers ctx o :=
    fun o ho => (hmixed.seen o ho).offers h (hfree o ho)
  have hctx' := (h.eval_proposalContext request).trans hctx
  rcases hspec with hspec | ⟨candidates, c, hc, hone, hspec⟩
  · refine .inr (.inl (eval_proposeOperation_of_inputs _ hctx' ?_))
    have hreads : OnlyReads (Program.forEach ctx.requireSelectableCandidate inputs.outpoints) :=
      .forEach (fun o => SelectionContext.requireSelectableCandidate_onlyReads ctx o) _
    rw [hspec]
    change Program.eval exec (Program.forEach ctx.requireSelectableCandidate inputs.outpoints >>=
      fun _ => withChangeScope inputs.outpoints) r = _
    rw [hreads.eval_bind reads_snd, eval_forEach_requireSelectable hr hoffers]
    exact hmixed.eval_withChangeScope h
  · refine .inr (.inr ⟨⟨candidates, c, hc, hone, hspec⟩, ⟨ctx, inputs, rfl, ?_, ?_⟩⟩)
    · refine withChangeScope_selectable ?_ hoffers (hmixed.eval_withChangeScope h)
      rw [hone]
      exact List.nodup_singleton c
    · exact (proposalContext_grants hctx').2

end Between

end InMemoryStateStore

end Txoscope
