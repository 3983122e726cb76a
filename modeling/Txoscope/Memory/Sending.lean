import Txoscope.Lib.Cover
import Txoscope.Memory.Usable

/-!
# What a bitcoin send selects

A bitcoin send covers its amount from the usable outputs of the account, the smallest ones first
(`btcSend_selects`). Outputs of equal value and role are taken in the order in which the store
lists them, so the answer is independent of that order exactly when no such tie is reached
(`btcSend_text_order_iff`).
-/

namespace Txoscope

/-! ## The order of candidates -/

namespace SelectionSortPolicy

/-- The order in which candidates of a target value are taken. -/
def sendLe (u v : ManagedUtxo) : Prop := keyLe (selectionSortKey u) (selectionSortKey v) = true

instance : DecidableRel sendLe := fun _ _ => inferInstanceAs (Decidable (_ = true))

theorem sendLe_iff {u v : ManagedUtxo} : sendLe u v ↔ u.valueSats < v.valueSats ∨
    (u.valueSats = v.valueSats ∧ roleWeight u.role ≤ roleWeight v.role) := by
  unfold sendLe keyLe
  rw [decide_eq_true_eq]
  rfl

theorem sendLe.valueSats_le {u v : ManagedUtxo} (h : sendLe u v) : u.valueSats ≤ v.valueSats := by
  rw [sendLe_iff] at h
  omega

instance : Std.Total sendLe where
  total u v := by
    rw [sendLe_iff, sendLe_iff]
    omega

instance : IsTrans ManagedUtxo sendLe where
  trans u v w huv hvw := by
    rw [sendLe_iff] at huv hvw ⊢
    omega

end SelectionSortPolicy

namespace InMemoryStateStore

open SelectionSortPolicy

variable {s s' : InMemoryStateStore} {utxos : List ManagedUtxo}

/-! ## Sorting and accumulating -/

theorem eval_readKeyed (h : ∀ u ∈ utxos, s.getUtxo u.outpoint = some u) :
    Program.eval exec (readKeyed (utxos.map (·.outpoint))) s =
      .ok (utxos.map fun u => (selectionSortKey u, u.outpoint)) := by
  induction utxos with
  | nil => rfl
  | cons u utxos ih =>
    rw [List.forall_mem_cons] at h
    unfold readKeyed
    rw [List.map_cons]
    dsimp only
    rw [eval_getUtxo_bind, h.1]
    dsimp only
    rw [(readKeyed_onlyReads _).eval_bind reads_snd, ih h.2]
    rfl

theorem eval_sortCandidateIds (h : ∀ u ∈ utxos, s.getUtxo u.outpoint = some u) :
    Program.eval exec (sortCandidateIds (utxos.map (·.outpoint))) s =
      .ok ((utxos.insertionSort sendLe).map (·.outpoint)) := by
  unfold sortCandidateIds
  rw [(readKeyed_onlyReads _).eval_bind reads_snd, eval_readKeyed h]
  dsimp only [bind, Except.bind]
  have hsort : (utxos.insertionSort sendLe).map (fun u => (selectionSortKey u, u.outpoint)) =
      (utxos.map fun u => (selectionSortKey u, u.outpoint)).insertionSort fun a b =>
        keyLe a.1 b.1 = true :=
    List.map_insertionSort _ _ _ _ fun u _ v _ => Iff.rfl
  rw [Program.eval_pure, ← hsort, List.map_map]
  rfl

/-- The saturating sum meets a target that fits in 64 bits exactly when the exact sum does. -/
theorem eval_accumulateByValue {target : ℕ} (htarget : target ≤ u64Max)
    (h : ∀ u ∈ utxos, s.getUtxo u.outpoint = some u) (acc : ℕ) :
    Program.eval exec (accumulateByValue target (utxos.map (·.outpoint)) (min acc u64Max)) s =
      .ok ((Cover.take (·.valueSats) target utxos acc).map fun chosen =>
        chosen.map (·.outpoint)) := by
  induction utxos generalizing acc with
  | nil => rfl
  | cons u utxos ih =>
    rw [List.forall_mem_cons] at h
    have hsum : saturatingAdd (min acc u64Max) u.valueSats = min (acc + u.valueSats) u64Max := by
      unfold saturatingAdd
      omega
    unfold accumulateByValue Cover.take
    rw [List.map_cons]
    dsimp only
    rw [eval_getUtxo_bind, h.1]
    dsimp only
    rw [hsum]
    by_cases hreached : target ≤ acc + u.valueSats
    · rw [if_pos hreached, if_pos (by omega)]
      rfl
    · rw [if_neg hreached, if_neg (by omega), (accumulateByValue_onlyReads _ _ _).eval_bind reads_snd,
        ih h.2]
      dsimp only [bind, Except.bind]
      rw [Program.eval_pure, Option.map_map, Option.map_map]
      rfl

/-! ## The answer to a send -/

/-- What a send requires of scopes and accounts. -/
abbrev sendCapabilities : CapabilitySet := LockPurpose.btcSend.requiredCapabilities

/-- The outputs a send takes. -/
def sendChoice (s : InMemoryStateStore) (accountId : AccountId) (amountSats : ℕ) :
    Option (List ManagedUtxo) :=
  Cover.take (·.valueSats) amountSats ((s.usable accountId sendCapabilities).insertionSort sendLe) 0

/-- The answer to a send that has inputs, or none, and a change scope. -/
def sendAnswer (request : SelectionRequest) (change : WalletScope) :
    Option (List ManagedUtxo) → DomainResult OperationSelection
  | none => .error .insufficientFunds
  | some chosen => .ok (.fromRequest request.intoOperationRequest
      ⟨chosen.map (·.outpoint), change.id⟩)

theorem eval_btcSend (hk : s.WellKeyed) {operationId : OperationId} {accountId : AccountId}
    {amountSats : ℕ} (hamount : amountSats ≤ u64Max) {account : Account}
    (haccount : s.getAccount accountId = some account)
    (hcapable : sendCapabilities ⊆ account.capabilities)
    {change : WalletScope} (hchange : preferScope ((s.eligibleScopeIds accountId sendCapabilities
      account).filterMap s.getScope) = some change) :
    Program.eval exec
        (Orchestrator.proposeOperation (.btcSend operationId accountId amountSats)) s =
      sendAnswer (.btcSend operationId accountId amountSats) change
        (s.sendChoice accountId amountSats) := by
  have hmanaged : ∀ u ∈ s.usable accountId sendCapabilities, s.getUtxo u.outpoint = some u :=
    fun u hu => ((mem_usable_iff hk).mp hu).managed
  have hsorted : ∀ u ∈ (s.usable accountId sendCapabilities).insertionSort sendLe,
      s.getUtxo u.outpoint = some u := fun u hu => hmanaged u ((List.mem_insertionSort _).mp hu)
  have hne : s.eligibleScopeIds accountId sendCapabilities account ≠ [] := by
    intro hnil
    rw [hnil] at hchange
    cases hchange
  have hpropose : Program.eval exec
      (Orchestrator.proposeOperation (.btcSend operationId accountId amountSats)) s =
        (Program.eval exec (targetValueSelect (s.selectionContext accountId sendCapabilities account)
          amountSats) s).map (OperationSelection.fromRequest
            (SelectionRequest.btcSend operationId accountId amountSats).intoOperationRequest) :=
    eval_proposeOperation_of_account rfl rfl rfl haccount hcapable hne
  have haccumulate := eval_accumulateByValue hamount hsorted 0
  rw [Nat.zero_min] at haccumulate
  rw [hpropose]
  unfold targetValueSelect
  rw [(SelectionContext.preferredScope_onlyReads _).eval_bind reads_snd, eval_preferredScope,
    show preferScope ((s.selectionContext accountId sendCapabilities
      account).eligibleScopeIds.filterMap s.getScope) = some change from hchange]
  change (Program.eval exec ((s.selectionContext accountId sendCapabilities
    account).selectableUtxos >>= _) s).map _ = _
  rw [(SelectionContext.selectableUtxos_onlyReads _).eval_bind reads_snd,
    eval_selectableUtxos haccount hcapable]
  change (Program.eval exec (sortCandidateIds _ >>= _) s).map _ = _
  rw [(sortCandidateIds_onlyReads _).eval_bind reads_snd, eval_sortCandidateIds hmanaged]
  change (Program.eval exec (accumulateByValue amountSats _ 0 >>= _) s).map _ = _
  rw [(accumulateByValue_onlyReads _ _ _).eval_bind reads_snd, haccumulate]
  unfold sendAnswer sendChoice
  cases Cover.take (·.valueSats) amountSats
    ((s.usable accountId sendCapabilities).insertionSort sendLe) 0 <;> rfl

/-- Where a scope grants a send, the account and a change scope are found. -/
theorem exists_change {accountId : AccountId} {required : CapabilitySet} (hk : s.WellKeyed)
    (hgrants : ∃ id, OperationSelection.Grants s.getAccount s.getScope accountId id required) :
    ∃ account change, s.getAccount accountId = some account ∧ required ⊆ account.capabilities ∧
      preferScope ((s.eligibleScopeIds accountId required account).filterMap s.getScope) =
        some change ∧
      OperationSelection.Grants s.getAccount s.getScope accountId change.id required ∧
      s.getScope change.id = some change ∧
      ∀ id scope, OperationSelection.Grants s.getAccount s.getScope accountId id required →
        s.getScope id = some scope → change.priority ≤ scope.priority := by
  obtain ⟨id, account, scope, haccount, hget, howner, hlisted, hcapable, hscope⟩ := hgrants
  have hmem : scope ∈ (s.eligibleScopeIds accountId required account).filterMap s.getScope := by
    refine List.mem_filterMap.mpr ⟨id, ?_, hget⟩
    exact (mem_eligibleScopeIds_iff haccount hcapable).mpr
      ⟨account, scope, haccount, hget, howner, hlisted, hcapable, hscope⟩
  cases hprefer : preferScope ((s.eligibleScopeIds accountId required account).filterMap
      s.getScope) with
  | none =>
    cases hscopes : (s.eligibleScopeIds accountId required account).filterMap s.getScope with
    | nil =>
      rw [hscopes] at hmem
      cases hmem
    | cons first rest =>
      rw [hscopes] at hprefer
      cases hprefer
  | some change =>
    obtain ⟨changeId, hchangeId, hchange⟩ := List.mem_filterMap.mp (preferScope_mem hprefer)
    have hid : change.id = changeId := hk.scope _ change hchange
    refine ⟨account, change, haccount, hcapable, hprefer, ?_, hid ▸ hchange, ?_⟩
    · rw [hid]
      exact (mem_eligibleScopeIds_iff haccount hcapable).mp hchangeId
    · intro id' scope' hgrants' hget'
      refine preferScope_le hprefer scope' (List.mem_filterMap.mpr ⟨id', ?_, hget'⟩)
      exact (mem_eligibleScopeIds_iff haccount hcapable).mpr hgrants'

/-- The exact sum of values. -/
abbrev totalSats : List ManagedUtxo → ℕ := Cover.total (·.valueSats)

/-- What a send owes the caller for the inputs it takes. -/
structure Sends (s : InMemoryStateStore) (accountId : AccountId) (amountSats : ℕ)
    (chosen : List ManagedUtxo) : Prop where
  nonempty : chosen ≠ []
  nodup : (chosen.map (·.outpoint)).Nodup
  usable : ∀ u ∈ chosen, s.Usable accountId sendCapabilities u
  sorted : chosen.Pairwise fun u v => u.valueSats ≤ v.valueSats
  enough : amountSats ≤ totalSats chosen
  /-- There is no surplus last input. -/
  minimal : 1 < chosen.length → totalSats chosen.dropLast < amountSats
  /-- Whatever else is usable is no smaller than what was taken. -/
  least : ∀ u, s.Usable accountId sendCapabilities u → u ∉ chosen →
    ∀ c ∈ chosen, c.valueSats ≤ u.valueSats

theorem sendChoice_sends (hk : s.WellKeyed) {accountId : AccountId} {amountSats : ℕ}
    {chosen : List ManagedUtxo} (h : s.sendChoice accountId amountSats = some chosen) :
    s.Sends accountId amountSats chosen := by
  have hcovers := Cover.take_covers (usable_nodup hk) h
  refine ⟨hcovers.nonempty, ?_, fun u hu => (mem_usable_iff hk).mp (hcovers.mem u hu), ?_,
    hcovers.enough, hcovers.minimal, fun u hu hnot c hc => ?_⟩
  · exact hcovers.nodup.map_on fun u hu v hv =>
      usable_outpoint_inj hk (hcovers.mem u hu) (hcovers.mem v hv)
  · exact hcovers.sorted.imp sendLe.valueSats_le
  · exact (hcovers.least u ((mem_usable_iff hk).mpr hu) hnot c hc).valueSats_le

theorem sendChoice_eq_none_iff {accountId : AccountId} {amountSats : ℕ} :
    s.sendChoice accountId amountSats = none ↔
      ¬ (s.usable accountId sendCapabilities ≠ [] ∧
        amountSats ≤ totalSats (s.usable accountId sendCapabilities)) := by
  have hperm := List.perm_insertionSort sendLe (s.usable accountId sendCapabilities)
  unfold sendChoice
  rw [Cover.take_eq_none_iff, Cover.total_perm hperm, Nat.zero_add, not_and_or, not_not,
    Nat.not_le]
  refine or_congr_left ⟨fun hnil => ?_, fun hnil => ?_⟩
  · rw [hnil] at hperm
    exact List.nil_perm.mp hperm
  · rw [hnil]
    rfl

/-- A bitcoin send for an account with a scope that grants it succeeds exactly when the usable
outputs cover the amount. It takes the smallest of them, no more than are needed, and returns the
change to a scope of least priority. -/
theorem btcSend_selects {rules : Ledger.Rules} (h : Run rules empty s) {accountId : AccountId}
    (hgrants : ∃ id, OperationSelection.Grants s.getAccount s.getScope accountId id
      sendCapabilities) (operationId : OperationId) {amountSats : ℕ}
    (hamount : amountSats ≤ u64Max) :
    let answer := Program.eval exec
      (Orchestrator.proposeOperation (.btcSend operationId accountId amountSats)) s
    let usable := s.usable accountId sendCapabilities
    (usable.Nodup ∧ ∀ u, u ∈ usable ↔ s.Usable accountId sendCapabilities u) ∧
    ((∃ selection, answer = .ok selection) ↔ usable ≠ [] ∧ amountSats ≤ totalSats usable) ∧
    (¬ (usable ≠ [] ∧ amountSats ≤ totalSats usable) → answer = .error .insufficientFunds) ∧
    ∀ selection, answer = .ok selection → ∃ chosen change,
      selection.selectedOutpoints = chosen.map (·.outpoint) ∧
      s.Sends accountId amountSats chosen ∧
      selection.changeScopeId = change.id ∧ s.getScope change.id = some change ∧
      OperationSelection.Grants s.getAccount s.getScope accountId change.id sendCapabilities ∧
      ∀ id scope, OperationSelection.Grants s.getAccount s.getScope accountId id sendCapabilities →
        s.getScope id = some scope → change.priority ≤ scope.priority := by
  have hk := h.wellKeyed
  obtain ⟨account, change, haccount, hcapable, hprefer, hchange, hget, hleast⟩ :=
    exists_change hk hgrants
  intro answer usable
  have hanswer : answer = sendAnswer (.btcSend operationId accountId amountSats) change
      (s.sendChoice accountId amountSats) := eval_btcSend hk hamount haccount hcapable hprefer
  refine ⟨⟨usable_nodup hk, fun u => mem_usable_iff hk⟩, ?_, fun hnot => ?_, fun selection hok => ?_⟩
  · cases hchoice : s.sendChoice accountId amountSats with
    | none =>
      rw [hanswer, hchoice]
      exact iff_of_false (fun ⟨_, h⟩ => by cases h) (sendChoice_eq_none_iff.mp hchoice)
    | some chosen =>
      rw [hanswer, hchoice]
      refine iff_of_true ⟨_, rfl⟩ (by_contra fun hnot => ?_)
      rw [sendChoice_eq_none_iff.mpr hnot] at hchoice
      cases hchoice
  · rw [hanswer, sendChoice_eq_none_iff.mpr hnot]
    rfl
  · rw [hanswer] at hok
    cases hchoice : s.sendChoice accountId amountSats with
    | none =>
      rw [hchoice] at hok
      cases hok
    | some chosen =>
      rw [hchoice] at hok
      obtain rfl := Except.ok.inj hok
      exact ⟨chosen, change, rfl, sendChoice_sends hk hchoice, rfl, hget, hchange, hleast⟩

namespace Sample

/-- Two outputs of the same value and a smaller one. -/
def stocked : InMemoryStateStore :=
  Program.after exec (calls.take 3 ++ [.putUtxo (ManagedUtxo.new ⟨"bb", 0⟩ accountId scopeId 1000),
    .putUtxo (ManagedUtxo.new ⟨"cc", 0⟩ accountId scopeId 300)]) empty

theorem stocked_run : Run freeRules empty stocked := Program.steps_after (by decide)

end Sample

/-- The smallest output is not enough, so another one is sent with it. -/
theorem btcSend_selects_sample : ∃ selection chosen, Program.eval exec
      (Orchestrator.proposeOperation (.btcSend Sample.operationId Sample.accountId 1100))
        Sample.stocked = .ok selection ∧
    selection.selectedOutpoints = chosen.map (·.outpoint) ∧ chosen.length = 2 ∧
    Sample.stocked.Sends Sample.accountId 1100 chosen := by
  obtain ⟨-, hiff, -, hsends⟩ := btcSend_selects Sample.stocked_run
    ⟨Sample.scopeId, _, _, rfl, rfl, rfl, by decide, by decide, by decide⟩ Sample.operationId
    (show 1100 ≤ u64Max by decide)
  obtain ⟨selection, hok⟩ := hiff.mpr ⟨by decide, by decide⟩
  obtain ⟨chosen, -, houtpoints, hchosen, -⟩ := hsends selection hok
  refine ⟨selection, chosen, hok, houtpoints, ?_, hchosen⟩
  have hcount : (Program.eval exec (Orchestrator.proposeOperation
      (.btcSend Sample.operationId Sample.accountId 1100)) Sample.stocked).toOption.map
        (·.selectedOutpoints.length) = some 2 := by decide
  rw [hok, Except.toOption, Option.map_some, houtpoints, List.length_map] at hcount
  exact Option.some.inj hcount

/-! ## The order of the listing -/

/-- The same store, listing its outputs in the order of their text. -/
def textOrdered (s : InMemoryStateStore) : InMemoryStateStore :=
  { s with utxos := s.utxos.sortKeys (· ≤ ·) }

/-- The same store, listing its outputs from the end. -/
def reversed (s : InMemoryStateStore) : InMemoryStateStore := { s with utxos := s.utxos.reversed }

theorem sameContents_textOrdered (s : InMemoryStateStore) : s.SameContents s.textOrdered :=
  { SameContents.refl s with utxos := .of_perm (List.perm_insertionSort _ _).symm }

theorem sameContents_reversed (s : InMemoryStateStore) : s.SameContents s.reversed :=
  { SameContents.refl s with utxos := .of_perm (List.reverse_perm _).symm }

/-- The usable outputs are the same, in the order of the listing. -/
theorem SameContents.usable_perm (h : s.SameContents s') (accountId : AccountId)
    (required : CapabilitySet) :
    (s.usable accountId required).Perm (s'.usable accountId required) := by
  have hscope : s'.getScope = s.getScope := funext fun id => (h.scopes id).symm
  have haccount : s'.getAccount = s.getAccount := funext fun id => (h.accounts id).symm
  have hlock : s'.getLock = s.getLock := funext fun o => (h.locks _).symm
  unfold usable eligibleScopeIds
  rw [hscope, haccount, hlock]
  cases s.getAccount accountId with
  | none => exact .refl _
  | some account =>
    dsimp only
    split_ifs
    · exact h.utxos.perm_values.filter _
    · exact .refl _

theorem usable_reversed (s : InMemoryStateStore) (accountId : AccountId)
    (required : CapabilitySet) :
    s.reversed.usable accountId required = (s.usable accountId required).reverse := by
  have hlist : s.reversed.listUtxos = s.listUtxos.reverse := Dict.values_reversed s.utxos
  have haccount : s.reversed.getAccount accountId = s.getAccount accountId := rfl
  unfold usable
  rw [hlist, haccount]
  cases s.getAccount accountId with
  | none => rfl
  | some account =>
    dsimp only
    split_ifs
    · exact List.filter_reverse
    · rfl

/-- Nothing but the choice of inputs depends on the order of the listing. -/
theorem SameContents.eval_btcSend_congr (h : s.SameContents s') (hk : s.WellKeyed)
    {operationId : OperationId} {accountId : AccountId} {amountSats : ℕ}
    (hamount : amountSats ≤ u64Max)
    (hchoice : s'.sendChoice accountId amountSats = s.sendChoice accountId amountSats) :
    Program.eval exec
        (Orchestrator.proposeOperation (.btcSend operationId accountId amountSats)) s' =
      Program.eval exec
        (Orchestrator.proposeOperation (.btcSend operationId accountId amountSats)) s := by
  have hk' := hk.sameContents h
  have hscope : s'.getScope = s.getScope := funext fun id => (h.scopes id).symm
  have haccounts : s'.getAccount = s.getAccount := funext fun id => (h.accounts id).symm
  have hids : ∀ account, s'.eligibleScopeIds accountId sendCapabilities account =
      s.eligibleScopeIds accountId sendCapabilities account := by
    intro account
    unfold eligibleScopeIds
    rw [hscope]
  by_cases hgrants : ∃ id, OperationSelection.Grants s.getAccount s.getScope accountId id
      sendCapabilities
  · obtain ⟨account, change, haccount, hcapable, hprefer, -⟩ := exists_change hk hgrants
    rw [eval_btcSend hk hamount haccount hcapable hprefer, ← hchoice]
    exact eval_btcSend hk' hamount (haccounts ▸ haccount) hcapable (by rw [hids, hscope, hprefer])
  · -- without an eligible scope the account alone decides
    refine (eval_proposeOperation rfl rfl rfl).trans
      (Eq.trans ?_ (eval_proposeOperation rfl rfl rfl).symm)
    dsimp only [SelectionRequest.intoOperationRequest]
    rw [haccounts]
    cases haccount : s.getAccount accountId with
    | none => rfl
    | some account =>
      by_cases hcapable : sendCapabilities ⊆ account.capabilities
      · have hnil : s.eligibleScopeIds accountId sendCapabilities account = [] := by
          by_contra hne
          obtain ⟨id, hid⟩ := List.exists_mem_of_ne_nil _ hne
          exact hgrants ⟨id, (mem_eligibleScopeIds_iff haccount hcapable).mp hid⟩
        have hnil' := (hids account).trans hnil
        have hcapable' := not_not.mpr hcapable
        exact ((if_neg hcapable').trans (if_pos hnil')).trans
          ((if_neg hcapable').trans (if_pos hnil)).symm
      · exact (if_pos hcapable).trans (if_pos hcapable).symm

theorem filterMap_getUtxo (h : ∀ u ∈ utxos, s.getUtxo u.outpoint = some u) :
    (utxos.map (·.outpoint)).filterMap s.getUtxo = utxos := by
  rw [List.filterMap_map]
  exact (List.filterMap_congr h).trans List.filterMap_some

/-- A proposal tells the choices of inputs apart. -/
theorem sendAnswer_inj (hk : s.WellKeyed) (accountId : AccountId) {request : SelectionRequest}
    {change : WalletScope} {choice choice' : Option (List ManagedUtxo)}
    (hchoice : ∀ chosen, choice = some chosen →
      ∀ u ∈ chosen, u ∈ s.usable accountId sendCapabilities)
    (hchoice' : ∀ chosen, choice' = some chosen →
      ∀ u ∈ chosen, u ∈ s.usable accountId sendCapabilities)
    (h : sendAnswer request change choice = sendAnswer request change choice') :
    choice = choice' := by
  have hmanaged : ∀ {chosen : List ManagedUtxo},
      (∀ u ∈ chosen, u ∈ s.usable accountId sendCapabilities) →
        (chosen.map (·.outpoint)).filterMap s.getUtxo = chosen := fun hchosen =>
    filterMap_getUtxo fun u hu => ((mem_usable_iff hk).mp (hchosen u hu)).managed
  cases choice with
  | none =>
    cases choice' with
    | none => rfl
    | some chosen' => cases h
  | some chosen =>
    cases choice' with
    | none => cases h
    | some chosen' =>
      have houtpoints := congrArg OperationSelection.selectedOutpoints (Except.ok.inj h)
      have heq := congrArg (List.filterMap s.getUtxo) houtpoints
      rw [← hmanaged (hchoice chosen rfl), ← hmanaged (hchoice' chosen' rfl)]
      exact congrArg some heq

/-- The answer to a send is the one that breaks ties by the text of outpoints, whatever the order
in which the store lists its outputs, exactly when no tie is reached. -/
theorem btcSend_text_order_iff (hk : s.WellKeyed) (operationId : OperationId)
    (accountId : AccountId) {amountSats : ℕ} (hamount : amountSats ≤ u64Max) :
    (∀ s', s.SameContents s' → Program.eval exec
        (Orchestrator.proposeOperation (.btcSend operationId accountId amountSats)) s' =
      Program.eval exec
        (Orchestrator.proposeOperation (.btcSend operationId accountId amountSats))
          s.textOrdered) ↔
    ¬ Cover.TieReached (·.valueSats) sendLe (s.usable accountId sendCapabilities) amountSats := by
  constructor
  · intro hsame hties
    have ht := s.sameContents_textOrdered
    have hr := s.textOrdered.sameContents_reversed
    have hkt := hk.sameContents ht
    have hkr := hkt.sameContents hr
    have hties := Cover.tieReached_perm (ht.usable_perm _ _) hties
    have hne := Cover.take_reverse_ne (usable_nodup hkt) hties
    rw [← usable_reversed] at hne
    obtain ⟨-, u, hu, -⟩ := hties
    obtain ⟨account, change, haccount, hcapable, hprefer, -⟩ := exists_change hkt
      ⟨u.scopeId, ((mem_usable_iff hkt).mp hu).scope⟩
    have heval := hsame _ (ht.trans hr)
    rw [eval_btcSend hkt hamount haccount hcapable hprefer] at heval
    refine hne (sendAnswer_inj hkt accountId (fun chosen hchosen u hu => ?_)
      (fun chosen hchosen u hu => ?_)
      (heval.symm.trans (eval_btcSend hkr hamount haccount hcapable hprefer)))
    · exact (Cover.take_covers (usable_nodup hkt) hchosen).mem u hu
    · exact (hr.usable_perm _ _).symm.subset
        ((Cover.take_covers (usable_nodup hkr) hchosen).mem u hu)
  · intro hties s' hs
    have hsame : ∀ t, s.SameContents t →
        t.sendChoice accountId amountSats = s.sendChoice accountId amountSats := fun t ht =>
      (Cover.take_perm (usable_nodup hk) (ht.usable_perm _ _) hties).symm
    rw [hs.eval_btcSend_congr hk hamount (hsame s' hs),
      s.sameContents_textOrdered.eval_btcSend_congr hk hamount
        (hsame _ s.sameContents_textOrdered)]

/-- Where the smallest output is enough, the tie between the others is not reached. -/
theorem btcSend_text_order_sample : Program.eval exec
      (Orchestrator.proposeOperation (.btcSend Sample.operationId Sample.accountId 300))
        Sample.stocked.reversed =
    Program.eval exec
      (Orchestrator.proposeOperation (.btcSend Sample.operationId Sample.accountId 300))
        Sample.stocked.textOrdered :=
  (btcSend_text_order_iff Sample.stocked_run.wellKeyed Sample.operationId Sample.accountId
    (by decide)).mpr (by decide) _ Sample.stocked.sameContents_reversed

namespace Sample

/-- Two outputs of the same value, either of which is enough. -/
def tied : InMemoryStateStore :=
  Program.after exec (calls.take 3 ++ [.putUtxo (ManagedUtxo.new ⟨"bb", 0⟩ accountId scopeId 1000)])
    empty

theorem tied_run : Run freeRules empty tied := Program.steps_after (by decide)

end Sample

/-- Which of two equal outputs is sent depends on the order in which they are listed. -/
theorem btcSend_tie : ¬ ∀ s', Sample.tied.SameContents s' → Program.eval exec
      (Orchestrator.proposeOperation (.btcSend Sample.operationId Sample.accountId 500)) s' =
    Program.eval exec
      (Orchestrator.proposeOperation (.btcSend Sample.operationId Sample.accountId 500))
        Sample.tied.textOrdered := by
  intro h
  have heq := h _ (Sample.tied.sameContents_textOrdered.trans
    Sample.tied.textOrdered.sameContents_reversed)
  have hinputs := congrArg (fun r => r.toOption.map OperationSelection.selectedOutpoints) heq
  revert hinputs
  decide

end InMemoryStateStore

end Txoscope
