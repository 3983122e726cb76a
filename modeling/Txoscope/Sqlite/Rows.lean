import Txoscope.Sqlite.Codec

/-!
# Rows of the SQLite store

The rows of the tables, how a record is written to a row and how it is read from one. A record
whose numbers fit the integer columns is read back as it was written (`ofUtxo_of_fits` and its
like), and what is read from a row says what its key columns hold (`toUtxo_eq_ok` and its like).
-/

namespace Txoscope

/-! ## Rows -/

structure AccountRow where
  accountId : String
  name : String
  capabilities : String
  deriving DecidableEq

structure ScopeRow where
  scopeId : String
  accountId : String
  descriptorRef : String
  derivationScope : String
  capabilities : String
  priority : SqlInteger
  deriving DecidableEq

structure UtxoRow where
  outpoint : String
  txid : String
  vout : SqlInteger
  accountId : String
  scopeId : String
  valueSats : SqlInteger
  onchainState : String
  availability : String
  role : String
  bindingOperationId : Option String
  bindingPhase : Option String
  conflictMessage : Option String
  conflictRecordedAt : Option SqlInteger
  deriving DecidableEq

structure LockRow where
  outpoint : String
  operationId : String
  accountId : String
  scopeId : String
  purpose : String
  owner : String
  createdAt : SqlInteger
  expiresAt : Option SqlInteger
  deriving DecidableEq

structure OperationRow where
  operationId : String
  phase : String
  updatedAt : SqlInteger
  expiresAt : Option SqlInteger
  deriving DecidableEq

structure IntentRow where
  operationId : String
  changeScopeId : String
  status : String
  recordedAt : SqlInteger
  expiresAt : Option SqlInteger
  deriving DecidableEq

/-- A position is an index into a list, so it always fits an `i64`. -/
structure IntentInputRow where
  operationId : String
  position : ℕ
  outpoint : String
  deriving DecidableEq

structure IntentEffectRow where
  operationId : String
  position : ℕ
  effectKind : String
  outpoint : String
  purpose : String
  deriving DecidableEq

def IntentInputRow.key (row : IntentInputRow) : String × ℕ := (row.operationId, row.position)

def IntentEffectRow.key (row : IntentEffectRow) : String × ℕ := (row.operationId, row.position)

/-! ## Records and rows -/

open SqliteCodec

/-- A condition on a row; the message of the corruption otherwise. -/
def ensure (p : Prop) [Decidable p] (message : String) : DomainResult Unit :=
  if p then .ok () else .error (.corruptedState message)

/-- A number that fits an integer column, in each column a managed output has. -/
def ManagedUtxo.Fits (u : ManagedUtxo) : Prop :=
  u.valueSats ≤ i64Max ∧ SqlInteger.Fits (u.observationConflict.map (·.recordedAt))

instance (u : ManagedUtxo) : Decidable u.Fits := instDecidableAnd

def OperationLock.Fits (lock : OperationLock) : Prop :=
  lock.createdAt ≤ i64Max ∧ SqlInteger.Fits lock.expiresAt

def PersistedOperation.Fits (operation : PersistedOperation) : Prop :=
  operation.updatedAt ≤ i64Max ∧ SqlInteger.Fits operation.expiresAt

namespace UtxoRow

/-- The columns `write_utxo_tx` writes. -/
def ofUtxo (utxo : ManagedUtxo) : DomainResult UtxoRow := do
  let valueSats ← SqlInteger.bind utxo.valueSats
  let vout ← SqlInteger.bind utxo.outpoint.vout.toNat
  let conflictRecordedAt ← SqlInteger.bindOption (utxo.observationConflict.map (·.recordedAt))
  return {
    outpoint := utxo.outpoint.display
    txid := utxo.outpoint.txid
    vout
    accountId := utxo.accountId.value
    scopeId := utxo.scopeId.value
    valueSats
    onchainState := encode utxo.onchainState
    availability := encode utxo.availability
    role := encode utxo.role
    bindingOperationId := utxo.operationBinding.map (·.operationId.value)
    bindingPhase := utxo.operationBinding.map fun binding => encode binding.phase
    conflictMessage := utxo.observationConflict.map (·.message)
    conflictRecordedAt }

/-- The binding columns are both null or both set. -/
def binding (row : UtxoRow) : DomainResult (Option OperationBinding) :=
  match row.bindingOperationId, row.bindingPhase with
  | some operationId, some phase => do
    let phase ← decode phase
    return some ⟨⟨operationId⟩, phase⟩
  | _, _ => .ok none

def conflict : Option String → Option ℕ → Option ObservationConflict
  | some message, some recordedAt => some ⟨message, recordedAt⟩
  | _, _ => none

/-- `get_utxo_from_row`. -/
def toUtxo (row : UtxoRow) : DomainResult ManagedUtxo := do
  let conflictRecordedAt ← SqlInteger.getOption u64Max 12 row.conflictRecordedAt
  ensure (row.bindingOperationId.isSome = row.bindingPhase.isSome)
    "sqlite utxos row has mismatched binding_operation_id and binding_phase columns"
  ensure (row.conflictMessage.isSome = conflictRecordedAt.isSome)
    "sqlite utxos row has mismatched conflict_message and conflict_recorded_at columns"
  let outpoint ← decodeOutpoint row.outpoint
  let vout ← SqlInteger.get u32Max 2 row.vout
  ensure (outpoint = ⟨row.txid, UInt32.ofNat vout⟩)
    "sqlite utxos outpoint disagrees with txid/vout columns"
  let valueSats ← SqlInteger.get u64Max 5 row.valueSats
  let onchainState ← decode row.onchainState
  let availability ← decode row.availability
  let role ← decode row.role
  let operationBinding ← row.binding
  return {
    outpoint
    accountId := ⟨row.accountId⟩
    scopeId := ⟨row.scopeId⟩
    valueSats
    onchainState
    availability
    role
    operationBinding
    observationConflict := conflict row.conflictMessage conflictRecordedAt }

end UtxoRow

namespace LockRow

/-- The columns of a lock taken on `outpoint`. -/
def ofLock (outpoint : OutPoint) (lock : OperationLock) : DomainResult LockRow := do
  let createdAt ← SqlInteger.bind lock.createdAt
  let expiresAt ← SqlInteger.bindOption lock.expiresAt
  return {
    outpoint := outpoint.display
    operationId := lock.operationId.value
    accountId := lock.accountId.value
    scopeId := lock.scopeId.value
    purpose := encode lock.purpose
    owner := lock.owner
    createdAt
    expiresAt }

/-- `get_lock_row`. -/
def toLock (row : LockRow) : DomainResult OperationLock := do
  let purpose ← decode row.purpose
  let createdAt ← SqlInteger.get u64Max 5 row.createdAt
  let expiresAt ← SqlInteger.getOption u64Max 6 row.expiresAt
  return {
    operationId := ⟨row.operationId⟩
    accountId := ⟨row.accountId⟩
    scopeId := ⟨row.scopeId⟩
    purpose
    owner := row.owner
    createdAt
    expiresAt }

end LockRow

namespace OperationRow

def ofOperation (operation : PersistedOperation) : DomainResult OperationRow := do
  let updatedAt ← SqlInteger.bind operation.updatedAt
  let expiresAt ← SqlInteger.bindOption operation.expiresAt
  return {
    operationId := operation.operationId.value
    phase := encode operation.phase
    updatedAt
    expiresAt }

/-- The closure of `read_operation`. -/
def toOperation (row : OperationRow) : DomainResult PersistedOperation := do
  let phase ← decode row.phase
  let updatedAt ← SqlInteger.get u64Max 2 row.updatedAt
  let expiresAt ← SqlInteger.getOption u64Max 3 row.expiresAt
  return { operationId := ⟨row.operationId⟩, phase, updatedAt, expiresAt }

end OperationRow

/-- `IntentHeader`. -/
structure IntentHeader where
  changeScopeId : WalletScopeId
  status : IntentStatus
  recordedAt : ℕ
  expiresAt : Option ℕ
  deriving DecidableEq

/-- The header columns; `recorded_at` is number `column` of the statement. -/
def IntentRow.header (column : ℕ) (row : IntentRow) : DomainResult IntentHeader := do
  let status ← decode row.status
  let recordedAt ← SqlInteger.get u64Max column row.recordedAt
  let expiresAt ← SqlInteger.getOption u64Max (column + 1) row.expiresAt
  return { changeScopeId := ⟨row.changeScopeId⟩, status, recordedAt, expiresAt }

def IntentEffectRow.effect (row : IntentEffectRow) : DomainResult SelectionEffect := do
  if row.effectKind = "lock_utxo" then
    let outpoint ← decodeOutpoint row.outpoint
    let purpose ← decode row.purpose
    return { outpoint, purpose }
  else
    throw (.corruptedState ("unknown intent effect kind '" ++ row.effectKind ++
      "' for operation " ++ row.operationId))

/-! ## Round trips -/

theorem ensure_eq_ok {p : Prop} [Decidable p] {message : String} :
    ensure p message = .ok () ↔ p := by
  unfold ensure
  split_ifs with h <;> simp [h]

namespace UtxoRow

/-- The two binding columns, both null or both set, say what the binding is. -/
theorem binding_eq_ok_iff {row : UtxoRow} {binding : Option OperationBinding}
    (hboth : row.bindingOperationId.isSome = row.bindingPhase.isSome) :
    row.binding = .ok binding ↔
      row.bindingOperationId = binding.map (·.operationId.value) ∧
        row.bindingPhase = binding.map fun b => encode b.phase := by
  unfold UtxoRow.binding
  cases hid : row.bindingOperationId with
  | none =>
    rw [hid, Option.isSome_none, eq_comm, Option.isSome_eq_false_iff, Option.isNone_iff_eq_none]
      at hboth
    rw [hboth]
    cases binding with
    | none => simp
    | some b => simp
  | some id =>
    rw [hid, Option.isSome_some, eq_comm] at hboth
    obtain ⟨phase, hphase⟩ := Option.isSome_iff_exists.mp hboth
    rw [hphase]
    constructor
    · intro h
      obtain ⟨p, hp, h⟩ := bind_eq_ok.mp h
      cases h
      exact ⟨rfl, congrArg some (decode_eq_ok_iff.mp hp)⟩
    · rintro ⟨hid', hphase'⟩
      cases binding with
      | none => cases hid'
      | some b =>
        cases hid'
        cases hphase'
        exact bind_eq_ok.mpr ⟨b.phase, decode_encode b.phase, rfl⟩

/-- The two conflict columns, both null or both set, say what the conflict is. -/
theorem conflict_eq_iff {message : Option String} {recordedAt : Option ℕ}
    {c : Option ObservationConflict} (hboth : message.isSome = recordedAt.isSome) :
    conflict message recordedAt = c ↔
      message = c.map (·.message) ∧ recordedAt = c.map (·.recordedAt) := by
  cases message with
  | none =>
    rw [Option.isSome_none, eq_comm, Option.isSome_eq_false_iff, Option.isNone_iff_eq_none]
      at hboth
    subst hboth
    cases c with
    | none => simp [conflict]
    | some c => simp [conflict]
  | some message =>
    obtain ⟨recordedAt, rfl⟩ := Option.isSome_iff_exists.mp hboth.symm
    cases c with
    | none => simp [conflict]
    | some c =>
      obtain ⟨message', recordedAt'⟩ := c
      simp [conflict]

/-- The row holds an output, column by column. -/
structure Records (row : UtxoRow) (u : ManagedUtxo) : Prop where
  outpoint : row.outpoint = u.outpoint.display
  txid : row.txid = u.outpoint.txid
  vout : row.vout.val = u.outpoint.vout.toNat
  accountId : row.accountId = u.accountId.value
  scopeId : row.scopeId = u.scopeId.value
  valueSats : row.valueSats.val = u.valueSats
  onchainState : row.onchainState = encode u.onchainState
  availability : row.availability = encode u.availability
  role : row.role = encode u.role
  bindingOperationId : row.bindingOperationId = u.operationBinding.map (·.operationId.value)
  bindingPhase : row.bindingPhase = u.operationBinding.map fun b => encode b.phase
  conflictMessage : row.conflictMessage = u.observationConflict.map (·.message)
  conflictRecordedAt :
    SqlInteger.Holds row.conflictRecordedAt (u.observationConflict.map (·.recordedAt))

/-- The row that is written holds the output, and it is the only one that does. -/
theorem ofUtxo_eq_ok_iff {u : ManagedUtxo} {row : UtxoRow} :
    ofUtxo u = .ok row ↔ row.Records u := by
  unfold ofUtxo
  constructor
  · intro h
    obtain ⟨valueSats, hvalue, h⟩ := bind_eq_ok.mp h
    obtain ⟨vout, hvout, h⟩ := bind_eq_ok.mp h
    obtain ⟨recordedAt, hrecorded, h⟩ := bind_eq_ok.mp h
    cases h
    exact ⟨rfl, rfl, SqlInteger.bind_eq_ok_iff.mp hvout, rfl, rfl,
      SqlInteger.bind_eq_ok_iff.mp hvalue, rfl, rfl, rfl, rfl, rfl, rfl,
      SqlInteger.bindOption_eq_ok_iff.mp hrecorded⟩
  · intro h
    refine bind_eq_ok.mpr ⟨_, SqlInteger.bind_eq_ok_iff.mpr h.valueSats,
      bind_eq_ok.mpr ⟨_, SqlInteger.bind_eq_ok_iff.mpr h.vout,
        bind_eq_ok.mpr ⟨_, SqlInteger.bindOption_eq_ok_iff.mpr h.conflictRecordedAt, ?_⟩⟩⟩
    rw [← h.outpoint, ← h.txid, ← h.accountId, ← h.scopeId, ← h.onchainState, ← h.availability,
      ← h.role, ← h.bindingOperationId, ← h.bindingPhase, ← h.conflictMessage]
    rfl

/-- A row is read as the output it holds, and no other row is accepted. -/
theorem toUtxo_eq_ok_iff {row : UtxoRow} {u : ManagedUtxo} :
    row.toUtxo = .ok u ↔ row.Records u := by
  unfold toUtxo
  constructor
  · intro h
    obtain ⟨recordedAt, hrecorded, h⟩ := bind_eq_ok.mp h
    obtain ⟨_, hbound, h⟩ := bind_eq_ok.mp h
    obtain ⟨_, hconflict, h⟩ := bind_eq_ok.mp h
    obtain ⟨outpoint, houtpoint, h⟩ := bind_eq_ok.mp h
    obtain ⟨vout, hvout, h⟩ := bind_eq_ok.mp h
    obtain ⟨_, hsame, h⟩ := bind_eq_ok.mp h
    obtain ⟨valueSats, hvalue, h⟩ := bind_eq_ok.mp h
    obtain ⟨onchainState, honchain, h⟩ := bind_eq_ok.mp h
    obtain ⟨availability, havailability, h⟩ := bind_eq_ok.mp h
    obtain ⟨role, hrole, h⟩ := bind_eq_ok.mp h
    obtain ⟨binding, hbinding, h⟩ := bind_eq_ok.mp h
    cases h
    obtain ⟨hid, hphase⟩ := (binding_eq_ok_iff (ensure_eq_ok.mp hbound)).mp hbinding
    obtain ⟨hmessage, hat⟩ := (conflict_eq_iff (ensure_eq_ok.mp hconflict)).mp rfl
    obtain ⟨hindex, hle⟩ := SqlInteger.get_eq_ok_iff.mp hvout
    cases ensure_eq_ok.mp hsame
    refine ⟨decodeOutpoint_eq_ok_iff.mp houtpoint, rfl, ?_, rfl, rfl,
      (SqlInteger.get_eq_ok_iff.mp hvalue).1, decode_eq_ok_iff.mp honchain,
      decode_eq_ok_iff.mp havailability, decode_eq_ok_iff.mp hrole, hid, hphase, hmessage, ?_⟩
    · rw [hindex]
      exact congrArg Nat.cast (toNat_ofNat_of_le hle).symm
    · change SqlInteger.Holds _ (Option.map _ (conflict _ _))
      rw [← hat]
      exact (SqlInteger.getOption_eq_ok_iff.mp hrecorded).1
  · intro h
    have hvout := toNat_le_u32Max u.outpoint.vout
    have hbound : row.bindingOperationId.isSome = row.bindingPhase.isSome := by
      rw [h.bindingOperationId, h.bindingPhase, Option.isSome_map, Option.isSome_map]
    have hconflict : row.conflictMessage.isSome =
        (u.observationConflict.map (·.recordedAt)).isSome := by
      rw [h.conflictMessage, Option.isSome_map, Option.isSome_map]
    refine bind_eq_ok.mpr ⟨_, SqlInteger.getOption_eq_ok_iff.mpr
      ⟨h.conflictRecordedAt, fun m hm => (h.conflictRecordedAt.fits m hm).trans i64Max_le_u64Max⟩, ?_⟩
    refine bind_eq_ok.mpr ⟨(), ensure_eq_ok.mpr hbound, ?_⟩
    refine bind_eq_ok.mpr ⟨(), ensure_eq_ok.mpr hconflict, ?_⟩
    refine bind_eq_ok.mpr ⟨_, decodeOutpoint_eq_ok_iff.mpr h.outpoint, ?_⟩
    refine bind_eq_ok.mpr ⟨_, SqlInteger.get_eq_ok_iff.mpr ⟨h.vout, hvout⟩, ?_⟩
    refine bind_eq_ok.mpr ⟨(), ensure_eq_ok.mpr (by rw [h.txid, UInt32.ofNat_toNat]), ?_⟩
    refine bind_eq_ok.mpr ⟨_, SqlInteger.get_eq_ok_iff.mpr
      ⟨h.valueSats, (SqlInteger.le_i64Max h.valueSats).trans i64Max_le_u64Max⟩, ?_⟩
    refine bind_eq_ok.mpr ⟨_, decode_eq_ok_iff.mpr h.onchainState, ?_⟩
    refine bind_eq_ok.mpr ⟨_, decode_eq_ok_iff.mpr h.availability, ?_⟩
    refine bind_eq_ok.mpr ⟨_, decode_eq_ok_iff.mpr h.role, ?_⟩
    refine bind_eq_ok.mpr ⟨_, (binding_eq_ok_iff hbound).mpr
      ⟨h.bindingOperationId, h.bindingPhase⟩, ?_⟩
    rw [(conflict_eq_iff hconflict).mpr ⟨h.conflictMessage, rfl⟩, h.accountId, h.scopeId]
    rfl

theorem Records.fits {row : UtxoRow} {u : ManagedUtxo} (h : row.Records u) : u.Fits :=
  ⟨SqlInteger.le_i64Max h.valueSats, h.conflictRecordedAt.fits⟩

theorem exists_records {u : ManagedUtxo} (h : u.Fits) : ∃ row : UtxoRow, row.Records u := by
  obtain ⟨recordedAt, hrecorded⟩ := SqlInteger.exists_holds_of_fits h.2
  have hwritten : ∃ row, ofUtxo u = .ok row := by
    unfold ofUtxo
    rw [SqlInteger.bind_of_le h.1, SqlInteger.bind_of_le (toNat_le_i64Max _),
      SqlInteger.bindOption_eq_ok_iff.mpr hrecorded]
    exact ⟨_, rfl⟩
  obtain ⟨row, hrow⟩ := hwritten
  exact ⟨row, ofUtxo_eq_ok_iff.mp hrow⟩

theorem ofUtxo_of_fits {u : ManagedUtxo} (h : u.Fits) :
    ∃ row, ofUtxo u = .ok row ∧ row.toUtxo = .ok u := by
  obtain ⟨row, hrow⟩ := exists_records h
  exact ⟨row, ofUtxo_eq_ok_iff.mpr hrow, toUtxo_eq_ok_iff.mpr hrow⟩

/-! ### Valid rows -/

/-- What the columns of a row must be for it to be accepted. -/
structure Valid (row : UtxoRow) : Prop where
  vout : 0 ≤ row.vout.val ∧ row.vout.val ≤ u32Max
  outpoint : row.outpoint = row.txid ++ ":" ++ Nat.repr row.vout.val.toNat
  valueSats : 0 ≤ row.valueSats.val
  onchainState : ∃ state : OnchainState, row.onchainState = encode state
  availability : ∃ availability : Availability, row.availability = encode availability
  role : ∃ role : UtxoRole, row.role = encode role
  binding : row.bindingOperationId.isSome = row.bindingPhase.isSome
  bindingPhase : ∀ name ∈ row.bindingPhase, ∃ phase : OperationPhase, name = encode phase
  conflict : row.conflictMessage.isSome = row.conflictRecordedAt.isSome
  conflictRecordedAt : ∀ n ∈ row.conflictRecordedAt, 0 ≤ n.val

variable {row : UtxoRow} {u : ManagedUtxo}

theorem Records.valid (h : row.Records u) : row.Valid where
  vout := by
    rw [h.vout]
    exact ⟨Int.natCast_nonneg _, Int.ofNat_le.mpr (toNat_le_u32Max u.outpoint.vout)⟩
  outpoint := by
    rw [h.outpoint, h.txid, h.vout, Int.toNat_natCast]
    rfl
  valueSats := by
    rw [h.valueSats]
    exact Int.natCast_nonneg _
  onchainState := ⟨_, h.onchainState⟩
  availability := ⟨_, h.availability⟩
  role := ⟨_, h.role⟩
  binding := by rw [h.bindingOperationId, h.bindingPhase, Option.isSome_map, Option.isSome_map]
  bindingPhase name hname := by
    rw [h.bindingPhase] at hname
    obtain ⟨b, -, rfl⟩ := Option.map_eq_some_iff.mp hname
    exact ⟨b.phase, rfl⟩
  conflict := by
    have hsome := congrArg Option.isSome h.conflictRecordedAt
    rw [Option.isSome_map, Option.isSome_map, Option.isSome_map] at hsome
    rw [h.conflictMessage, Option.isSome_map, hsome]
  conflictRecordedAt n hn := by
    have hheld := h.conflictRecordedAt
    unfold SqlInteger.Holds at hheld
    rw [hn] at hheld
    obtain ⟨m, -, hm⟩ := Option.map_eq_some_iff.mp hheld.symm
    rw [← hm]
    exact Int.natCast_nonneg _

theorem Valid.exists_binding (h : row.Valid) : ∃ binding : Option OperationBinding,
    row.bindingOperationId = binding.map (·.operationId.value) ∧
      row.bindingPhase = binding.map fun b => encode b.phase := by
  have hboth := h.binding
  cases hid : row.bindingOperationId with
  | none =>
    rw [hid] at hboth
    exact ⟨none, rfl, Option.isNone_iff_eq_none.mp (Option.isSome_eq_false_iff.mp hboth.symm)⟩
  | some id =>
    rw [hid] at hboth
    obtain ⟨name, hname⟩ := Option.isSome_iff_exists.mp hboth.symm
    obtain ⟨phase, rfl⟩ := h.bindingPhase name hname
    exact ⟨some ⟨⟨id⟩, phase⟩, rfl, hname⟩

theorem Valid.exists_conflict (h : row.Valid) : ∃ c : Option ObservationConflict,
    row.conflictMessage = c.map (·.message) ∧
      SqlInteger.Holds row.conflictRecordedAt (c.map (·.recordedAt)) := by
  have hboth := h.conflict
  cases hat : row.conflictRecordedAt with
  | none =>
    rw [hat] at hboth
    exact ⟨none, Option.isNone_iff_eq_none.mp (Option.isSome_eq_false_iff.mp hboth), rfl⟩
  | some n =>
    rw [hat] at hboth
    obtain ⟨message, hmessage⟩ := Option.isSome_iff_exists.mp hboth
    refine ⟨some ⟨message, n.val.toNat⟩, hmessage, congrArg some ?_⟩
    exact (Int.toNat_of_nonneg (h.conflictRecordedAt n hat)).symm

/-- A valid row holds an output. -/
theorem Valid.exists_records (h : row.Valid) : ∃ u : ManagedUtxo, row.Records u := by
  obtain ⟨state, hstate⟩ := h.onchainState
  obtain ⟨availability, havailability⟩ := h.availability
  obtain ⟨role, hrole⟩ := h.role
  obtain ⟨binding, hid, hphase⟩ := h.exists_binding
  obtain ⟨c, hmessage, hat⟩ := h.exists_conflict
  obtain ⟨hnonneg, hle⟩ := h.vout
  have hvout : (UInt32.ofNat row.vout.val.toNat).toNat = row.vout.val.toNat :=
    toNat_ofNat_of_le (Int.toNat_le.mpr hle)
  refine ⟨⟨⟨row.txid, UInt32.ofNat row.vout.val.toNat⟩, ⟨row.accountId⟩, ⟨row.scopeId⟩,
    row.valueSats.val.toNat, state, availability, role, binding, c⟩, ?_, rfl, ?_, rfl, rfl, ?_,
    hstate, havailability, hrole, hid, hphase, hmessage, hat⟩
  · rw [h.outpoint]
    unfold OutPoint.display
    rw [hvout]
  · rw [hvout, Int.toNat_of_nonneg hnonneg]
  · exact (Int.toNat_of_nonneg h.valueSats).symm

/-- Writing an output and reading a row are inverse to each other, between the outputs whose
numbers fit and the valid rows. -/
theorem utxo_codec_exact :
    (∀ u : ManagedUtxo, u.Fits → ∃ row, ofUtxo u = .ok row ∧ row.toUtxo = .ok u) ∧
      (∀ (row : UtxoRow) (u : ManagedUtxo), row.toUtxo = .ok u → u.Fits ∧ ofUtxo u = .ok row) ∧
        ∀ row : UtxoRow, (∃ u, row.toUtxo = .ok u) ↔ row.Valid := by
  refine ⟨fun u hu => ofUtxo_of_fits hu, fun row u h => ?_, fun row => ⟨?_, fun h => ?_⟩⟩
  · have hrecords := toUtxo_eq_ok_iff.mp h
    exact ⟨hrecords.fits, ofUtxo_eq_ok_iff.mpr hrecords⟩
  · rintro ⟨u, h⟩
    exact (toUtxo_eq_ok_iff.mp h).valid
  · obtain ⟨u, hu⟩ := h.exists_records
    exact ⟨u, toUtxo_eq_ok_iff.mpr hu⟩

/-- A reserved output whose transaction ID has a colon in it. -/
theorem utxo_codec_sample :
    ∃ row : UtxoRow,
      ofUtxo ((ManagedUtxo.new ⟨"a:b", 7⟩ ⟨"acct"⟩ ⟨"scope"⟩ 1000).reserve ⟨"op"⟩ .selected) =
        .ok row ∧ row.Valid := by
  obtain ⟨row, -, hread⟩ := utxo_codec_exact.1
    ((ManagedUtxo.new ⟨"a:b", 7⟩ ⟨"acct"⟩ ⟨"scope"⟩ 1000).reserve ⟨"op"⟩ .selected) (by decide)
  exact ⟨row, (utxo_codec_exact.2.1 row _ hread).2, (utxo_codec_exact.2.2 row).mp ⟨_, hread⟩⟩

end UtxoRow

namespace LockRow

theorem ofLock_of_fits {lock : OperationLock} (h : lock.Fits) (o : OutPoint) :
    ∃ row, ofLock o lock = .ok row ∧ row.outpoint = o.display ∧ row.toLock = .ok lock := by
  obtain ⟨hcreated, hexpires⟩ := h
  obtain ⟨expiresAt, hbind, hget⟩ := SqlInteger.bindOption_of_fits hexpires
  have hexpiresAt := hget u64Max 6 fun m hm => (hexpires m hm).trans i64Max_le_u64Max
  unfold ofLock
  rw [SqlInteger.bind_of_le hcreated, hbind]
  refine ⟨_, rfl, rfl, ?_⟩
  unfold toLock
  simp only [decode_encode, SqlInteger.get_ofNat hcreated (hcreated.trans i64Max_le_u64Max), hexpiresAt, bind,
    Except.bind]
  rfl

theorem toLock_eq_ok {row : LockRow} {lock : OperationLock} (h : row.toLock = .ok lock) :
    row.operationId = lock.operationId.value ∧
      ({ row with expiresAt := none } : LockRow).toLock = .ok { lock with expiresAt := none } := by
  unfold toLock at h
  obtain ⟨purpose, hpurpose, h⟩ := bind_eq_ok.mp h
  obtain ⟨createdAt, hcreated, h⟩ := bind_eq_ok.mp h
  obtain ⟨expiresAt, -, h⟩ := bind_eq_ok.mp h
  cases h
  refine ⟨rfl, ?_⟩
  unfold toLock
  simp only [hpurpose, hcreated, bind, Except.bind]
  rfl

end LockRow

namespace OperationRow

theorem ofOperation_of_fits {operation : PersistedOperation} (h : operation.Fits) :
    ∃ row, ofOperation operation = .ok row ∧ row.operationId = operation.operationId.value ∧
      row.toOperation = .ok operation := by
  obtain ⟨hupdated, hexpires⟩ := h
  obtain ⟨expiresAt, hbind, hget⟩ := SqlInteger.bindOption_of_fits hexpires
  have hexpiresAt := hget u64Max 3 fun m hm => (hexpires m hm).trans i64Max_le_u64Max
  unfold ofOperation
  rw [SqlInteger.bind_of_le hupdated, hbind]
  refine ⟨_, rfl, rfl, ?_⟩
  unfold toOperation
  simp only [decode_encode, SqlInteger.get_ofNat hupdated (hupdated.trans i64Max_le_u64Max), hexpiresAt, bind,
    Except.bind]
  rfl

theorem toOperation_eq_ok {row : OperationRow} {operation : PersistedOperation}
    (h : row.toOperation = .ok operation) :
    row.operationId = operation.operationId.value ∧ decode row.phase = .ok operation.phase := by
  unfold toOperation at h
  obtain ⟨phase, hphase, h⟩ := bind_eq_ok.mp h
  obtain ⟨updatedAt, -, h⟩ := bind_eq_ok.mp h
  obtain ⟨expiresAt, -, h⟩ := bind_eq_ok.mp h
  cases h
  exact ⟨rfl, hphase⟩

end OperationRow

namespace IntentRow

/-- The header is the same whichever columns of the statement it is in. -/
theorem header_column {column : ℕ} {row : IntentRow} {header : IntentHeader}
    (h : row.header column = .ok header) (column' : ℕ) : row.header column' = .ok header := by
  unfold IntentRow.header at h ⊢
  obtain ⟨status, hstatus, h⟩ := bind_eq_ok.mp h
  obtain ⟨recordedAt, hrecorded, h⟩ := bind_eq_ok.mp h
  obtain ⟨expiresAt, hexpires, h⟩ := bind_eq_ok.mp h
  rw [hstatus]
  refine bind_eq_ok.mpr ⟨status, rfl, bind_eq_ok.mpr ⟨recordedAt, ?_,
    bind_eq_ok.mpr ⟨expiresAt, ?_, h⟩⟩⟩
  · exact SqlInteger.get_column hrecorded column'
  · exact SqlInteger.getOption_column hexpires (column' + 1)

/-- The status column holds the name of the status. -/
theorem status_of_header {column : ℕ} {row : IntentRow} {header : IntentHeader}
    (h : row.header column = .ok header) : row.status = encode header.status := by
  obtain ⟨status, hstatus, h⟩ := bind_eq_ok.mp h
  obtain ⟨recordedAt, -, h⟩ := bind_eq_ok.mp h
  obtain ⟨expiresAt, -, h⟩ := bind_eq_ok.mp h
  cases h
  exact decode_eq_ok_iff.mp hstatus

/-- Only the status of a header depends on the status column. -/
theorem header_setStatus {column : ℕ} {row : IntentRow} {header : IntentHeader}
    (h : row.header column = .ok header) (status : IntentStatus) :
    ({ row with status := encode status } : IntentRow).header column =
      .ok { header with status } := by
  unfold IntentRow.header at h
  obtain ⟨_, -, h⟩ := bind_eq_ok.mp h
  obtain ⟨recordedAt, hrecorded, h⟩ := bind_eq_ok.mp h
  obtain ⟨expiresAt, hexpires, h⟩ := bind_eq_ok.mp h
  cases h
  unfold IntentRow.header
  simp only [decode_encode, hrecorded, hexpires, bind, Except.bind]
  rfl

end IntentRow

end Txoscope
