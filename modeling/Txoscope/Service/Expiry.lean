import Txoscope.Lib.Histories
import Txoscope.Service.Runs

/-!
# Automatic expiry

Some calls of the service release reservations nobody asked them to release: leases that have run
out and selections that have grown old. What they release was decided from earlier reads, between
which other clients may have done anything. Every release step is examined where it is executed,
together with what its client has read before.
-/

namespace Txoscope

namespace TxoscopeService

/-- The methods that release reservations on their own account. -/
def Method.Expires : Method → Prop
  | getActiveManualReservation _ | reserveFirstAvailableManualUtxo _ | previewAssetSelection _
  | planAssetSelection _ | cleanupStaleReservations _ => True
  | _ => False

/-- The operation a method that expires leases plans itself, if it plans one. -/
def Method.Plans (generate : ℕ → OperationId) (now : ℕ → ℕ) : Method → OperationId → Prop
  | planAssetSelection req, id => id = req.operationId
  | reserveFirstAvailableManualUtxo req, id => id = generate (now req.candidateOutpoints.length)
  | _, _ => False

end TxoscopeService

open TxoscopeService

/-- The call releases the operation, if it does anything to outputs and locks. -/
def StoreCall.Releases : StoreCall → OperationId → Prop
  | releaseSelectedOperation id', id | releaseOperation id' _, id | markIntentFailed id', id =>
    id' = id
  | _, _ => False

namespace InMemoryStateStore

variable {s s' : InMemoryStateStore} {id id' : OperationId}

/-! ## What a release step does -/

/-- The stored phase of the operation is `Selected`. -/
def InSelected (s : InMemoryStateStore) (id : OperationId) : Prop :=
  ∃ op, s.getOperation id = some op ∧ op.phase = .selected

/-- The record, the outputs and the locks of the operation are left as they are. -/
structure Spares (s : InMemoryStateStore) (id : OperationId) (s' : InMemoryStateStore) : Prop where
  operation : s'.getOperation id = s.getOperation id
  utxo : ∀ o u, u.boundTo id = true → (s'.getUtxo o = some u ↔ s.getUtxo o = some u)
  lock : ∀ o k, k.operationId = id → (s'.getLock o = some k ↔ s.getLock o = some k)

/-- The operation is rolled back and owns nothing. -/
structure Unwound (s : InMemoryStateStore) (id : OperationId) : Prop where
  operation : ∃ op, s.getOperation id = some op ∧ op.phase = .rollingBack
  utxo : ∀ o u, s.getUtxo o = some u → u.boundTo id = false
  lock : ∀ o k, s.getLock o = some k → k.operationId ≠ id

theorem Spares.of_same (hoperation : s'.getOperation = s.getOperation)
    (hcell : ∀ o, s'.cell o = s.cell o) (id : OperationId) : s.Spares id s' where
  operation := congrFun hoperation id
  utxo o u _ := by rw [show s'.getUtxo o = s.getUtxo o from congrArg Cell.utxo (hcell o)]
  lock o k _ := by rw [show s'.getLock o = s.getLock o from congrArg Cell.lock (hcell o)]

/-- An operation that is spared stays in `Selected`. -/
theorem Spares.inSelected (h : s.Spares id s') (hs : s.InSelected id) : s'.InSelected id := by
  obtain ⟨op, hop, hphase⟩ := hs
  exact ⟨op, h.operation.trans hop, hphase⟩

/-- A release of one operation, whatever is recorded of its intent and its tick. -/
theorem released (hcell : ∀ o, s'.cell o = (s.cell o).release id)
    {op : PersistedOperation} (hphase : op.phase = .rollingBack)
    (hoperation : s'.getOperation = Function.update s.getOperation id (some op)) :
    (∀ id' ≠ id, s.Spares id' s') ∧ s'.Unwound id := by
  have hutxo : ∀ o, s'.getUtxo o = (s.getUtxo o).map (·.releaseIfBound id) :=
    fun o => congrArg Cell.utxo (hcell o)
  have hlock : ∀ o, s'.getLock o = (s.getLock o).filter (·.operationId ≠ id) :=
    fun o => congrArg Cell.lock (hcell o)
  refine ⟨fun id' hne => ⟨?_, fun o u hbound => ?_, fun o k hk => ?_⟩, ?_, fun o u hu => ?_,
    fun o k hk => ?_⟩
  · rw [hoperation, Function.update_of_ne hne]
  · rw [hutxo, Option.map_eq_some_iff]
    constructor
    · rintro ⟨v, hv, rfl⟩
      obtain ⟨b, hb, rfl⟩ := ManagedUtxo.boundTo_iff.mp hbound
      rw [ManagedUtxo.releaseIfBound_operationBinding, Option.filter_eq_some_iff] at hb
      have hfree : v.boundTo id = false :=
        ManagedUtxo.not_boundTo_of_binding hb.1 (by simpa using hb.2)
      rw [hv, ManagedUtxo.releaseIfBound, hfree]
      rfl
    · intro hu
      obtain ⟨b, hb, rfl⟩ := ManagedUtxo.boundTo_iff.mp hbound
      refine ⟨u, hu, ?_⟩
      rw [ManagedUtxo.releaseIfBound, ManagedUtxo.not_boundTo_of_binding hb hne]
      rfl
  · rw [hlock, Option.filter_eq_some_iff]
    exact ⟨fun h => h.1, fun h => ⟨h, by simpa [hk] using hne⟩⟩
  · exact ⟨op, by rw [hoperation, Function.update_self], hphase⟩
  · rw [hutxo, Option.map_eq_some_iff] at hu
    obtain ⟨v, hv, rfl⟩ := hu
    rw [← Bool.not_eq_true, ManagedUtxo.boundTo_iff]
    rintro ⟨b, hb, hid⟩
    rw [ManagedUtxo.releaseIfBound_operationBinding, Option.filter_eq_some_iff] at hb
    simp [hid] at hb
  · rw [hlock, Option.filter_eq_some_iff] at hk
    simpa using hk.2

/-- A release by `release_operation`, and whatever is marked on an intent afterwards. -/
theorem released_releaseOperation
    (hcell : ∀ o, s'.cell o = (s.releaseOperation id .rollingBack).2.cell o)
    (hoperation : s'.getOperation = (s.releaseOperation id .rollingBack).2.getOperation) :
    (∀ id' ≠ id, s.Spares id' s') ∧ s'.Unwound id := by
  refine released (fun o => ?_) rfl (hoperation.trans (getOperation_releaseOperation s id _))
  exact (hcell o).trans (cell_releaseOperation s id _ o)

/-- A step that releases an operation, other than a `release_operation` asked for by a caller,
touches that operation only, and only while it is in `Selected`. -/
theorem releases_cases {c : StoreCall} (hc : c.Releases id)
    (hnot : ∀ phase, c ≠ .releaseOperation id phase) :
    (∀ id', s.Spares id' (exec c s).2) ∨
      s.InSelected id ∧ (∀ id' ≠ id, s.Spares id' (exec c s).2) ∧ (exec c s).2.Unwound id := by
  have hspares : ∀ {s' : InMemoryStateStore}, s'.getOperation = s.getOperation →
      (∀ o, s'.cell o = s.cell o) → ∀ id', s.Spares id' s' := fun h h' => .of_same h h'
  cases c with
  | releaseSelectedOperation id₁ =>
    obtain rfl : id₁ = id := hc
    change (∀ id', s.Spares id' (s.releaseSelectedOperation id₁).2) ∨
      _ ∧ (∀ id' ≠ id₁, s.Spares id' (s.releaseSelectedOperation id₁).2) ∧
        (s.releaseSelectedOperation id₁).2.Unwound id₁
    unfold releaseSelectedOperation
    split_ifs with hselected
    · exact .inl (hspares rfl fun _ => rfl)
    · rw [Bool.not_eq_true', Bool.not_eq_false, Option.any_eq_true] at hselected
      obtain ⟨op, hop, hphase⟩ := hselected
      exact .inr ⟨⟨op, hop, by simpa using hphase⟩, released_releaseOperation (fun _ => rfl) rfl⟩
  | markIntentFailed id₁ =>
    obtain rfl : id₁ = id := hc
    change (∀ id', s.Spares id' (s.markIntentFailed id₁).2) ∨
      _ ∧ (∀ id' ≠ id₁, s.Spares id' (s.markIntentFailed id₁).2) ∧
        (s.markIntentFailed id₁).2.Unwound id₁
    unfold markIntentFailed
    cases s.getIntent id₁ with
    | none => exact .inl (hspares rfl fun _ => rfl)
    | some intent =>
      dsimp only
      split
      · exact .inl (hspares rfl fun _ => rfl)
      · exact .inl (hspares rfl fun _ => rfl)
      · cases hop : s.getOperation id₁ with
        | none => exact .inl (hspares rfl fun _ => rfl)
        | some op =>
          dsimp only
          split
          · exact .inr ⟨⟨op, hop, ‹_›⟩, released_releaseOperation (fun _ => rfl) rfl⟩
          · exact .inl (hspares rfl fun _ => rfl)
          · exact .inl (hspares rfl fun _ => rfl)
  | releaseOperation id₁ phase =>
    obtain rfl : id₁ = id := hc
    exact (hnot phase rfl).elim
  | _ => exact hc.elim

/-! ## What a client has read -/

/-- The calls a client has made, each with the state it was executed in. -/
abbrev Seen := Program.History InMemoryStateStore StoreCall

/-- When it was read, the outpoint was locked and bound by a manual reservation in `Selected`. -/
def FoundReservation (h : Seen) (o : OutPoint) (r : ManualReservation) : Prop :=
  (∃ s k, (s, .getLock o) ∈ h ∧ s.getLock o = some k ∧ k.purpose = .manualReservation ∧
    k.operationId = r.reservationId ∧ k.expiresAt = some r.expiresAt) ∧
  (∃ s, (s, .getOperation r.reservationId) ∈ h ∧ s.InSelected r.reservationId) ∧
  ∃ s u, (s, .getUtxo o) ∈ h ∧ s.getUtxo o = some u ∧
    u.operationBinding = some ⟨r.reservationId, .selected⟩

/-- The operation was found to hold a manual reservation that had run out by the clock. -/
def Lapsed (now : ℕ → ℕ) (h : Seen) (id : OperationId) : Prop :=
  ∃ o r i, FoundReservation h o r ∧ r.reservationId = id ∧ r.expiresAt ≤ now i

/-- The operation was listed as a selection of at least `maxAge` ticks. -/
def GrownOld (maxAge : ℕ) (h : Seen) (id : OperationId) : Prop :=
  ∃ s s' op, (s, .currentTick) ∈ h ∧ (s', .listOperations) ∈ h ∧ op ∈ s'.listOperations ∧
    op.operationId = id ∧ op.phase = .selected ∧ maxAge ≤ saturatingSub s.tick op.updatedAt

/-- The call releases only what `expired` allows, or rolls back what the client plans itself. -/
def ReleasesOnly (expired : Seen → OperationId → Prop) (plans : OperationId → Prop)
    (x : InMemoryStateStore × Seen) : StoreCall → Prop
  | .releaseSelectedOperation id => expired x.2 id
  | .markIntentFailed id => plans id
  | .releaseOperation _ _ => False
  | _ => True

/-- Other clients may do anything between two calls. -/
abbrev Anything : InMemoryStateStore × Seen → InMemoryStateStore × Seen → Prop :=
  Program.Apart fun _ _ => True

section Reads

variable {expired : Seen → OperationId → Prop} {plans : OperationId → Prop}

theorem releasesOnly_of_commitsFor {x : InMemoryStateStore × Seen} {c : StoreCall}
    (h : c.CommitsFor plans) : ReleasesOnly expired plans x c := by
  cases c <;> trivial

/-- Recording and committing what the client plans. -/
theorem meets_onlyCommits {α : Type} {p : Client α} (hp : OnlyCommits plans p)
    (x : InMemoryStateStore × Seen) :
    p.Meets (Program.recording exec) Anything (ReleasesOnly expired plans) (fun _ _ => True) x := by
  have hkeeps : p.Keeps (Program.recording exec) Anything (ReleasesOnly expired plans)
      fun _ => True := by
    refine .of_onlyCalls (fun _ _ _ _ => trivial) (fun c y hc _ => ⟨?_, trivial⟩) hp
    exact releasesOnly_of_commitsFor hc
  exact hkeeps x trivial

theorem binding_of_any {utxo : Option ManagedUtxo}
    (h : (utxo.bind (·.operationBinding)).any
      (fun b => b.operationId = id ∧ b.phase = .selected) = true) :
    ∃ u, utxo = some u ∧ u.operationBinding = some ⟨id, .selected⟩ := by
  obtain ⟨⟨id₁, phase⟩, hb, hbound⟩ := (Option.any_eq_true _ _).mp h
  obtain ⟨u, hu, hub⟩ := Option.bind_eq_some_iff.mp hb
  obtain ⟨hid, hphase⟩ : id₁ = id ∧ phase = .selected := by simpa using hbound
  exact ⟨u, hu, by rw [hub, hid, hphase]⟩

theorem meets_getManualReservation (o : OutPoint) (x : InMemoryStateStore × Seen) :
    (getManualReservation o).Meets (Program.recording exec) Anything
      (ReleasesOnly expired plans)
      (fun r y => ∀ found, r = .ok (some found) → FoundReservation y.2 o found) x := by
  have hnone : ∀ y : InMemoryStateStore × Seen, ∀ found : ManualReservation,
      (.ok none : DomainResult (Option ManualReservation)) = .ok (some found) →
        FoundReservation y.2 o found := fun _ _ h => (nomatch h)
  unfold getManualReservation
  -- the lock is read in `y₁`, the operation in `y₂` and the output in `y₃`
  refine .bind_invoke fun y₁ h₁ => ⟨trivial, (show Program.Meets _ _ _ _ _ _ from ?_)⟩
  cases hlock : y₁.1.getLock o with
  | none => exact hnone _
  | some k =>
    dsimp only
    split_ifs with hpurpose
    · exact hnone _
    · refine .bind_invoke fun y₂ h₂ => ⟨trivial, (show Program.Meets _ _ _ _ _ _ from ?_)⟩
      refine .bind_invoke fun y₃ h₃ => ⟨trivial, (show Program.Meets _ _ _ _ _ _ from ?_)⟩
      split_ifs with hselected
      · exact hnone _
      · cases he : k.expiresAt with
        | none => exact fun _ h => (nomatch h)
        | some expiresAt =>
          intro found hfound
          cases hfound
          have hy₂ : y₂.2 = y₁.2 ++ [(y₁.1, .getLock o)] := h₂.2
          have hy₃ : y₃.2 = y₂.2 ++ [(y₂.1, .getOperation k.operationId)] := h₃.2
          rw [Bool.or_eq_true, not_or, Bool.not_eq_true', Bool.not_eq_false, Bool.not_eq_true',
            Bool.not_eq_false] at hselected
          obtain ⟨hoperation, hbinding⟩ := hselected
          refine ⟨⟨y₁.1, k, ?_, hlock, not_not.mp hpurpose, rfl, he⟩, ⟨y₂.1, ?_, ?_⟩, y₃.1, ?_⟩
          · change (y₁.1, StoreCall.getLock o) ∈ y₃.2 ++ [(y₃.1, .getUtxo o)]
            rw [hy₃, hy₂]
            simp
          · change (y₂.1, StoreCall.getOperation k.operationId) ∈ y₃.2 ++ [(y₃.1, .getUtxo o)]
            rw [hy₃]
            simp
          · obtain ⟨op, hop, hphase⟩ := (Option.any_eq_true _ _).mp hoperation
            exact ⟨op, hop, by simpa using hphase⟩
          · obtain ⟨u, hu, hub⟩ := binding_of_any hbinding
            refine ⟨u, ?_, hu, hub⟩
            change (y₃.1, StoreCall.getUtxo o) ∈ y₃.2 ++ [(y₃.1, .getUtxo o)]
            simp

end Reads

/-! ## Methods -/

section Methods

variable {plans : OperationId → Prop} {now : ℕ → ℕ}

theorem meets_getActiveManualReservation (i : ℕ) (o : OutPoint) (x : InMemoryStateStore × Seen) :
    (getActiveManualReservation (now i) o).Meets (Program.recording exec) Anything
      (ReleasesOnly (Lapsed now) plans) (fun _ _ => True) x := by
  unfold getActiveManualReservation
  refine .bind ((meets_getManualReservation o x).conseq fun r y hfound => ?_)
  cases r with
  | error e => trivial
  | ok found =>
    cases found with
    | none => trivial
    | some r =>
      dsimp only
      split_ifs with hexpired
      · refine .bind_invoke fun y' hy => ⟨?_, trivial⟩
        exact ⟨o, r, i, hy.2 ▸ hfound r rfl, rfl, hexpired⟩
      · trivial

theorem meets_expireStaleCandidateReservations (i : ℕ) (outpoints : List OutPoint)
    (x : InMemoryStateStore × Seen) :
    (expireStaleCandidateReservations (fun j => now (i + j)) outpoints).Meets
      (Program.recording exec) Anything (ReleasesOnly (Lapsed now) plans) (fun _ _ => True) x := by
  induction outpoints generalizing i x with
  | nil => trivial
  | cons o outpoints ih =>
    unfold expireStaleCandidateReservations
    refine .bind ((meets_getActiveManualReservation (i + 0) o x).conseq fun r y _ => ?_)
    cases r with
    | error e => trivial
    | ok found =>
      have hnext := ih (i + 1) y
      simp only [Nat.add_assoc, Nat.add_comm 1] at hnext
      exact hnext

theorem meets_previewAssetSelection (req : AssetSelectionRequest)
    (x : InMemoryStateStore × Seen) :
    (previewAssetSelection now req).Meets (Program.recording exec) Anything
      (ReleasesOnly (Lapsed now) plans) (fun _ _ => True) x := by
  unfold previewAssetSelection
  cases checkAssetRequest req with
  | error e => trivial
  | ok u =>
    have hexpire : (expireStaleCandidateReservations (fun j => now (0 + j))
        (sortByText (req.candidates.map (·.outpoint)))).Meets (Program.recording exec) Anything
          (ReleasesOnly (Lapsed now) plans) (fun _ _ => True) x :=
      meets_expireStaleCandidateReservations 0 _ x
    simp only [Nat.zero_add] at hexpire
    refine .bind (Program.Meets.pure (a := u) ?_)
    refine .bind (hexpire.conseq fun r y _ => ?_)
    cases r with
    | error e => trivial
    | ok u => exact meets_onlyCommits (OnlyReads.commits (selectAssets_onlyReads req)) y

theorem GrownOld.append {maxAge : ℕ} {h : Seen} (hs : GrownOld maxAge h id) (h' : Seen) :
    GrownOld maxAge (h ++ h') id := by
  obtain ⟨s, s', op, htick, hlist, hop⟩ := hs
  exact ⟨s, s', op, List.mem_append_left _ htick, List.mem_append_left _ hlist, hop⟩

theorem meets_releaseStale {maxAge : ℕ} {ids : List OperationId} (report : CleanupReport)
    (x : InMemoryStateStore × Seen) (h : ∀ id ∈ ids, GrownOld maxAge x.2 id) :
    (Orchestrator.releaseStale ids report).Meets (Program.recording exec) Anything
      (ReleasesOnly (GrownOld maxAge) plans) (fun _ _ => True) x := by
  induction ids generalizing report x with
  | nil => trivial
  | cons id ids ih =>
    rw [List.forall_mem_cons] at h
    unfold Orchestrator.releaseStale
    refine .bind_invoke fun y hy => ?_
    have hseen : y.2 = x.2 := hy.2
    rw [← hseen] at h
    have hrest : ∀ id' ∈ ids, GrownOld maxAge
        (Program.recording exec (.releaseSelectedOperation id) y).2.2 id' :=
      fun id' hid => (h.2 id' hid).append _
    refine ⟨h.1, (show Program.Meets _ _ _ _ _ _ from ?_)⟩
    cases (y.1.releaseSelectedOperation id).1 with
    | none => exact ih _ _ hrest
    | some released => exact ih _ _ hrest

theorem meets_cleanupStaleReservations (maxAge : ℕ) (x : InMemoryStateStore × Seen) :
    (Orchestrator.cleanupStaleReservations maxAge).Meets (Program.recording exec) Anything
      (ReleasesOnly (GrownOld maxAge) plans) (fun _ _ => True) x := by
  unfold Orchestrator.cleanupStaleReservations
  -- the tick is read in `y₁` and the operations in `y₂`
  refine .bind_invoke fun y₁ h₁ => ⟨trivial, (show Program.Meets _ _ _ _ _ _ from ?_)⟩
  refine .bind_invoke fun y₂ h₂ => ⟨trivial, (show Program.Meets _ _ _ _ _ _ from ?_)⟩
  refine meets_releaseStale _ _ fun id hid => ?_
  obtain ⟨op, hop, rfl⟩ := List.mem_map.mp hid
  obtain ⟨hlisted, hstale⟩ := List.mem_filter.mp hop
  unfold Orchestrator.isStale at hstale
  obtain ⟨hphase, hage⟩ := of_decide_eq_true hstale
  have hy₂ : y₂.2 = y₁.2 ++ [(y₁.1, .currentTick)] := h₂.2
  refine ⟨y₁.1, y₂.1, op, ?_, ?_, hlisted, rfl, hphase, hage⟩
  · change (y₁.1, StoreCall.currentTick) ∈ y₂.2 ++ [(y₂.1, .listOperations)]
    rw [hy₂]
    simp
  · change (y₂.1, StoreCall.listOperations) ∈ y₂.2 ++ [(y₂.1, .listOperations)]
    simp

/-- What an expiring method releases is what its own condition allows. -/
def MayExpire (now : ℕ → ℕ) : TxoscopeService.Method → Seen → OperationId → Prop
  | .cleanupStaleReservations maxAge => GrownOld maxAge
  | _ => Lapsed now

/-- Every release step of an expiring method was decided from what the method had read. -/
theorem meets_expires (owner : String) (generate : ℕ → OperationId)
    {m : TxoscopeService.Method} (hm : m.Expires) (x : InMemoryStateStore × Seen) :
    (m.program owner generate now).Meets (Program.recording exec) Anything
      (ReleasesOnly (MayExpire now m) (m.Plans generate now)) (fun _ _ => True) x := by
  have hdrop : ∀ {α : Type} {p : Client α} {adm : InMemoryStateStore × Seen → StoreCall → Prop},
      p.Meets (Program.recording exec) Anything adm (fun _ _ => True) x →
      (do let _ ← p : Client Unit).Meets (Program.recording exec) Anything adm
        (fun _ _ => True) x := by
    intro α p adm h
    refine .bind (h.conseq fun r y _ => ?_)
    cases r <;> trivial
  cases m with
  | getActiveManualReservation o => exact hdrop (meets_getActiveManualReservation 0 o x)
  | previewAssetSelection req => exact hdrop (meets_previewAssetSelection req x)
  | cleanupStaleReservations maxAge => exact hdrop (meets_cleanupStaleReservations maxAge x)
  | reserveFirstAvailableManualUtxo req =>
    refine hdrop (.bind ?_)
    have hexpire : (expireStaleCandidateReservations (fun j => now (0 + j))
        req.candidateOutpoints).Meets (Program.recording exec) Anything
          (ReleasesOnly (Lapsed now) (TxoscopeService.Method.Plans generate now
            (.reserveFirstAvailableManualUtxo req))) (fun _ _ => True) x :=
      meets_expireStaleCandidateReservations 0 _ x
    simp only [Nat.zero_add] at hexpire
    refine hexpire.conseq fun r y _ => ?_
    cases r with
    | error e => trivial
    | ok u =>
      refine meets_onlyCommits ?_ y
      refine .bind (.attempt (Orchestrator.prepareOperation_onlyCommits owner rfl)) fun result => ?_
      split
      · exact .bind (.ofExcept _) fun _ => .pure _
      · exact .pure _
      · exact .throw _
  | planAssetSelection req =>
    refine hdrop (.bind ?_)
    refine (meets_previewAssetSelection req.selection x).conseq fun r y _ => ?_
    cases r with
    | error e => trivial
    | ok selected =>
      refine meets_onlyCommits ?_ y
      cases selected.head? with
      | none => exact .throw _
      | some first =>
        refine .bind (.invoke trivial) fun utxo => ?_
        cases utxo with
        | none => exact .throw _
        | some utxo =>
          exact .bind (Orchestrator.applySelection_onlyCommits owner rfl) fun _ => .pure _
  | _ => exact hm.elim

end Methods

/-! ## Interleavings -/

/-- A client: a call of the service with its generator and its clock, or any other client. -/
abbrev Party := Option ((ℕ → OperationId) × (ℕ → ℕ) × TxoscopeService.Method)

def IsParty : Party → Client Unit → Prop
  | some (generate, now, m), p => ∃ owner, p = m.program owner generate now
  | none, _ => True

/-- A store and the clients in flight on it. -/
abbrev Parties := InMemoryStateStore × List (Program.Participant Party StoreCall StoreCall.Out
  DomainError InMemoryStateStore)

/-- Any number of clients on one store, in any interleaving and stopped anywhere; the tables may
be iterated over in another order at any time. -/
abbrev PartyRun : Parties → Parties → Prop :=
  Relation.ReflTransGen (Program.Together exec IsParty SameContents)

/-- What a client may call: a service call that expires reservations releases only those. -/
def MayRelease : Party → InMemoryStateStore × Seen → StoreCall → Prop
  | some (generate, now, m), x, c =>
    m.Expires → ReleasesOnly (MayExpire now m) (m.Plans generate now) x c
  | none, _, _ => True

theorem meets_isParty {party : Party} {p : Client Unit} (hp : IsParty party p)
    (x : InMemoryStateStore × Seen) :
    p.Meets (Program.recording exec) Anything (MayRelease party) (fun _ _ => True) x := by
  have hfree : ∀ {adm : InMemoryStateStore × Seen → StoreCall → Prop}, (∀ y c, adm y c) →
      p.Meets (Program.recording exec) Anything adm (fun _ _ => True) x := by
    intro adm hadm
    clear hp
    induction p generalizing x with
    | done r => trivial
    | call c k ih => exact fun y _ => ⟨hadm y c, ih _ _⟩
  cases party with
  | none => exact hfree fun _ _ => trivial
  | some party =>
    obtain ⟨generate, now, m⟩ := party
    by_cases hm : m.Expires
    · obtain ⟨owner, rfl⟩ := hp
      exact (meets_expires owner generate hm x).mono (fun _ _ h => h) fun _ _ h _ => h
    · exact hfree fun _ _ h => (hm h).elim

/-- Automatic expiry touches only expired leases and stale selections: a release step of a call
that expires reservations leaves every operation alone but one, and that one too unless it is in
`Selected`, when it ends rolled back and owning nothing. What is released was read by the call as
lapsed or stale, or is the selection the call itself was planning, which was rejected. -/
theorem expiry_spares {s₀ : InMemoryStateStore} {x y : Parties} (h : PartyRun (s₀, []) x)
    {generate : ℕ → OperationId} {now : ℕ → ℕ} {m : TxoscopeService.Method} {seen : Seen}
    {c : StoreCall} (hexec : Program.Executes exec (some (generate, now, m)) seen c x y)
    (hm : m.Expires) (hc : c.Releases id) :
    ((∀ id', x.1.Spares id' y.1) ∨
      x.1.InSelected id ∧ (∀ id' ≠ id, x.1.Spares id' y.1) ∧ y.1.Unwound id) ∧
    (c = .releaseSelectedOperation id ∧ MayExpire now m seen id ∨
      c = .markIntentFailed id ∧ m.Plans generate now id) := by
  obtain ⟨-, hall⟩ := Program.meets_together (fun _ _ => True) (fun _ => True) MayRelease
    (fun _ => trivial) (fun _ _ _ _ _ => trivial) (fun _ _ _ _ _ _ => ⟨trivial, trivial⟩)
    (fun _ _ _ _ => ⟨trivial, trivial⟩) (fun _ _ hp s _ => meets_isParty hp (s, [])) h trivial
    fun q hq => (List.not_mem_nil hq).elim
  have hadm := Program.admitted_together MayRelease (fun _ => trivial) hexec hall hm
  have hcause : c = .releaseSelectedOperation id ∧ MayExpire now m seen id ∨
      c = .markIntentFailed id ∧ m.Plans generate now id := by
    cases c with
    | releaseSelectedOperation id₁ =>
      obtain rfl : id₁ = id := hc
      exact .inl ⟨rfl, hadm⟩
    | markIntentFailed id₁ =>
      obtain rfl : id₁ = id := hc
      exact .inr ⟨rfl, hadm⟩
    | releaseOperation => exact hadm.elim
    | _ => exact hc.elim
  refine ⟨?_, hcause⟩
  rw [hexec.state]
  refine releases_cases hc fun phase heq => ?_
  rcases hcause with ⟨rfl, -⟩ | ⟨rfl, -⟩ <;> cases heq

namespace Sample

def reservationId : OperationId := ⟨"reservation"⟩

/-- A call of the service at time `time`. -/
def call (time : ℕ) (m : TxoscopeService.Method) : Party :=
  some (fun _ => reservationId, fun _ => time, m)

/-- Calls of the service, each with its time, and other clients. -/
def crowd (calls : List (ℕ × TxoscopeService.Method)) (others : List (Client Unit)) :
    List (Party × Client Unit) :=
  calls.map (fun c => (call c.1 c.2, c.2.program "owner" (fun _ => reservationId) fun _ => c.1)) ++
    others.map fun p => (none, p)

/-- The clients, all started on the empty store, after the given turns. -/
def parties (clients : List (Party × Client Unit)) (turns : List (ℕ × ℕ)) : Parties :=
  Program.play exec turns (empty, clients.map fun c => ⟨c.1, [], c.2⟩)

theorem parties_run (calls : List (ℕ × TxoscopeService.Method)) (others : List (Client Unit))
    (turns : List (ℕ × ℕ)) : PartyRun (empty, []) (parties (crowd calls others) turns) := by
  refine Relation.ReflTransGen.trans (Program.together_starts _ (fun c hc => ?_) empty)
    (Program.together_play _ _)
  rcases List.mem_append.mp hc with hc | hc
  · obtain ⟨c, -, rfl⟩ := List.mem_map.mp hc
    exact ⟨"owner", rfl⟩
  · obtain ⟨p, -, rfl⟩ := List.mem_map.mp hc
    trivial

/-- An output is reserved for five seconds. After ten seconds the lease has been looked at, and it
is about to be released. -/
def leased : Parties :=
  parties (crowd (setup.map (fun m => (0, m)) ++ [(0, .reserveManualUtxo ⟨accountId, outpoint, 5⟩),
    (10, .getActiveManualReservation outpoint)]) []) [(0, 2), (1, 4), (2, 40), (3, 3)]

/-- One unit of an asset is planned, with the value that comes with it. -/
def assetRequest : PlanAssetSelectionRequest :=
  ⟨operationId, accountId, [⟨outpoint, 1⟩], 1, 0, ⟨none, true, false⟩⟩

/-- A service plans assets; another client recovers its intent and applies it, and a third one
takes the capabilities of the account away. The planner is about to reject its own selection. -/
def crowded : Parties :=
  parties (crowd (setup.map (fun m => (0, m)) ++ [(10, .planAssetSelection assetRequest)])
    [do let _ ← Orchestrator.recoverPendingIntents "owner",
      Orchestrator.addAccount ⟨accountId, "account", [], ∅⟩])
    [(0, 2), (1, 4), (2, 7), (3, 11), (4, 1), (2, 4)]

/-- What the participant at a position has read so far. -/
def seenBy (x : Parties) (i : ℕ) : Seen := ((x.2[i]?).map (·.history)).getD []

end Sample

theorem expiry_spares_sample : ∃ (x y : Parties) (seen : Seen),
    x.1.InSelected Sample.reservationId ∧ y.1.Unwound Sample.reservationId ∧
      Lapsed (fun _ => 10) seen Sample.reservationId := by
  have hexec : Program.Together exec IsParty SameContents Sample.leased
        (Program.turn exec 3 1 Sample.leased) ∧
      Program.Executes exec (Sample.call 10 (.getActiveManualReservation Sample.outpoint))
        (Sample.seenBy Sample.leased 3) (.releaseSelectedOperation Sample.reservationId)
        Sample.leased (Program.turn exec 3 1 Sample.leased) :=
    Program.together_next rfl
  have hselected : Sample.leased.1.InSelected Sample.reservationId := ⟨_, rfl, by decide⟩
  have hreleased : ¬ (Program.turn exec 3 1 Sample.leased).1.InSelected Sample.reservationId := by
    rintro ⟨op, hop, hphase⟩
    cases hop
    cases hphase
  obtain ⟨hsteps, hcause⟩ := expiry_spares (Sample.parties_run _ _ _) hexec.2 trivial
    (rfl : StoreCall.Releases (.releaseSelectedOperation Sample.reservationId)
      Sample.reservationId)
  refine ⟨Sample.leased, Program.turn exec 3 1 Sample.leased, Sample.seenBy Sample.leased 3,
    hselected, ?_, ?_⟩
  · rcases hsteps with hspares | ⟨-, -, hrolled⟩
    · exact (hreleased ((hspares _).inSelected hselected)).elim
    · exact hrolled
  · rcases hcause with ⟨-, hlapsed⟩ | ⟨heq, -⟩
    · exact hlapsed
    · cases heq

/-- A call that expires leases may release an operation that never held one: the selection it
plans itself was applied by a recovery before its own attempt to commit it was rejected. -/
theorem rollback_without_lease : ∃ (x y : Parties) (seen : Seen), PartyRun (empty, []) x ∧
    Program.Executes exec (Sample.call 10 (.planAssetSelection Sample.assetRequest)) seen
      (.markIntentFailed Sample.operationId) x y ∧
    x.1.InSelected Sample.operationId ∧ y.1.Unwound Sample.operationId ∧
      ¬ Lapsed (fun _ => 10) seen Sample.operationId := by
  have hexec : Program.Together exec IsParty SameContents Sample.crowded
        (Program.turn exec 2 1 Sample.crowded) ∧
      Program.Executes exec (Sample.call 10 (.planAssetSelection Sample.assetRequest))
        (Sample.seenBy Sample.crowded 2) (.markIntentFailed Sample.operationId)
        Sample.crowded (Program.turn exec 2 1 Sample.crowded) :=
    Program.together_next rfl
  have hselected : Sample.crowded.1.InSelected Sample.operationId := ⟨_, rfl, by decide⟩
  have hrolling : ¬ (Program.turn exec 2 1 Sample.crowded).1.InSelected Sample.operationId := by
    rintro ⟨op, hop, hphase⟩
    cases hop
    cases hphase
  have hunlocked : ∀ e ∈ Sample.seenBy Sample.crowded 2, ∀ k ∈ e.1.locks.values,
      k.purpose ≠ .manualReservation := by decide
  refine ⟨_, _, _, Sample.parties_run _ _ _, hexec.2, hselected, ?_, ?_⟩
  · have hcall : (Program.turn exec 2 1 Sample.crowded).1 =
        (exec (.markIntentFailed Sample.operationId) Sample.crowded.1).2 := hexec.2.state
    rw [hcall] at hrolling ⊢
    have hreleases : StoreCall.Releases (.markIntentFailed Sample.operationId)
      Sample.operationId := rfl
    rcases releases_cases (s := Sample.crowded.1) hreleases (fun _ h => by cases h) with
      hspares | ⟨-, -, hrolled⟩
    · exact (hrolling ((hspares _).inSelected hselected)).elim
    · exact hrolled
  · rintro ⟨o, r, i, ⟨⟨s, k, hmem, hlock, hpurpose, -⟩, -⟩, -⟩
    exact hunlocked _ hmem k (Dict.mem_values.mpr ⟨_, hlock⟩) hpurpose

end InMemoryStateStore

end Txoscope
