import Txoscope.Core.Operation
import Txoscope.Lib.Program

/-!
# The store interface

`StoreCall` lists the calls of the `StateRead` and `StateStore` traits with their arguments;
`StoreCall.Out` is what each returns on success. A client of a store is a program over these
calls, so one definition of a client serves a run alone, a crash between two calls and an
interleaving with other clients.
-/

namespace Txoscope

/-! ## Observations and reconciliation actions -/

inductive ObservationScope where
  | full
  | incremental
  deriving DecidableEq, Repr

inductive ObservedSpendStatus where
  | unknown
  | unspent
  | spent (spendingTxid : String)
  | missing
  deriving DecidableEq, Repr

structure ObservedUtxo where
  outpoint : OutPoint
  accountId : AccountId
  scopeId : WalletScopeId
  valueSats : ℕ
  confirmation : ObservedConfirmation
  spendStatus : ObservedSpendStatus
  deriving DecidableEq, Repr

structure ObservationSnapshot where
  timestamp : ℕ
  scope : ObservationScope
  utxos : List ObservedUtxo
  deriving DecidableEq, Repr

inductive ReconciliationAction where
  | discoverNew (observed : ObservedUtxo)
  | refreshObserved (observed : ObservedUtxo)
  | updateOnchainState (outpoint : OutPoint) (newState : OnchainState)
  | markSpent (outpoint : OutPoint) (spendingTxid : String)
  | reportConflict (outpoint : OutPoint) (message : String) (recordedAt : ℕ)
  | clearConflict (outpoint : OutPoint)
  | updateAvailability (outpoint : OutPoint) (availability : Availability)
  | markMissing (outpoint : OutPoint)
  deriving DecidableEq, Repr

structure ReconcilePlan where
  actions : List ReconciliationAction
  deriving DecidableEq, Repr

/-! ## Batches and calls -/

structure StateBatch where
  selection : OperationSelection
  phase : OperationPhase
  owner : String
  deriving DecidableEq, Repr

/-! ### The rules of a batch, which every backend writes out -/

/-- The output is bound in `phase` and locked by `operationId` already. -/
def alreadyApplied (operationId : OperationId) (phase : OperationPhase) (utxo : ManagedUtxo)
    (lock : Option OperationLock) : Bool :=
  utxo.operationBinding.any (fun b => b.operationId = operationId ∧ b.phase = phase) &&
    lock.any (fun l => l.operationId = operationId)

/-- The error of an output that cannot be locked. -/
def lockRefusal (utxo : ManagedUtxo) (lockPresent : Bool) (outpoint : OutPoint) : DomainError :=
  if utxo.availability ≠ .selectable then .utxoUnavailable outpoint utxo.availability
  else if utxo.observationConflict.isSome then .observationConflict outpoint utxo.onchainState
  else .utxoPolicyBlocked outpoint
    ("utxo is not safely spendable: onchain_state=" ++ utxo.onchainState.debug ++
      ", lock_present=" ++ toString lockPresent)

/-- The lock a batch takes on `utxo`. -/
def newLock (batch : StateBatch) (tick : ℕ) (utxo : ManagedUtxo) (purpose : LockPurpose) :
    OperationLock where
  operationId := batch.selection.operationId
  accountId := utxo.accountId
  scopeId := utxo.scopeId
  purpose
  owner := batch.owner
  createdAt := saturatingAdd tick 1
  expiresAt := batch.selection.expiresAt

/-- A lock that a replayed batch would have taken differently. -/
def lockDiffers (batch : StateBatch) (utxo : ManagedUtxo) (purpose : LockPurpose)
    (lock : OperationLock) : Bool :=
  lock.purpose ≠ purpose ∨ lock.expiresAt ≠ batch.selection.expiresAt ∨
    lock.accountId ≠ utxo.accountId ∨ lock.scopeId ≠ utxo.scopeId

/-! ### The calls -/

/-- The calls of `StateRead` and `StateStore`. -/
inductive StoreCall where
  | getAccount (accountId : AccountId)
  | getScope (scopeId : WalletScopeId)
  | getUtxo (outpoint : OutPoint)
  | getLock (outpoint : OutPoint)
  | getOperation (operationId : OperationId)
  | getIntent (operationId : OperationId)
  | listUtxos
  | listOperations
  | listPendingIntents
  | currentTick
  | putAccount (account : Account)
  | putScope (scope : WalletScope)
  | putUtxo (utxo : ManagedUtxo)
  | advanceTick (delta : ℕ)
  | persistIntent (selection : OperationSelection)
  | markIntentCommitted (operationId : OperationId)
  | markIntentFailed (operationId : OperationId)
  | applyBatch (batch : StateBatch)
  | applyReconciliation (plan : ReconcilePlan)
  | releaseSelectedOperation (operationId : OperationId)
  | releaseOperation (operationId : OperationId) (releasedPhase : OperationPhase)
  | completeOperation (operationId : OperationId) (completedPhase : OperationPhase)

namespace StoreCall

/-- What a call returns on success. -/
abbrev Out : StoreCall → Type
  | getAccount _ => Option Account
  | getScope _ => Option WalletScope
  | getUtxo _ => Option ManagedUtxo
  | getLock _ => Option OperationLock
  | getOperation _ => Option PersistedOperation
  | getIntent _ => Option OperationIntent
  | listUtxos => List ManagedUtxo
  | listOperations => List PersistedOperation
  | listPendingIntents => List OperationIntent
  | currentTick => ℕ
  | persistIntent _ => OperationIntent
  | releaseSelectedOperation _ => Option (List OutPoint)
  | releaseOperation _ _ | completeOperation _ _ => List OutPoint
  | putAccount _ | putScope _ | putUtxo _ | advanceTick _ | markIntentCommitted _
  | markIntentFailed _ | applyBatch _ | applyReconciliation _ => Unit

/-- The calls of `StateRead`. -/
def IsRead : StoreCall → Prop
  | getAccount _ | getScope _ | getUtxo _ | getLock _ | getOperation _ | getIntent _ | listUtxos
  | listOperations | listPendingIntents | currentTick => True
  | _ => False

instance : DecidablePred IsRead := fun c => by cases c <;> unfold IsRead <;> infer_instance

end StoreCall

/-- A client of a store. -/
abbrev Client (α : Type) := Program StoreCall StoreCall.Out DomainError α

/-- One store call. -/
abbrev StoreCall.invoke (c : StoreCall) : Client c.Out := Program.invoke c

/-- An atomic implementation of the calls on the states `σ`. -/
abbrev StoreExec (σ : Type) := (c : StoreCall) → σ → DomainResult c.Out × σ

end Txoscope
