import Mathlib.Algebra.Group.Int.Defs
import Txoscope.Core.Operation

/-!
# Columns of the SQLite store

`SqliteCodec`: how names, outpoints, capabilities and integers are written as text and integer
columns, and how a column is read back. A column that holds what the store never writes is
reported as corrupted state.
-/

namespace Txoscope

/-! ## Integer columns -/

def i64Max : ℕ := 2 ^ 63 - 1

theorem i64Max_le_u64Max : i64Max ≤ u64Max := by decide

theorem toNat_le_i64Max (n : UInt32) : n.toNat ≤ i64Max :=
  (toNat_le_u32Max n).trans (by decide)

/-- An SQLite integer: 64 bits, signed. -/
abbrev SqlInteger := {n : ℤ // -2 ^ 63 ≤ n ∧ n < 2 ^ 63}

namespace SqlInteger

def ofNat (n : ℕ) (h : n ≤ i64Max) : SqlInteger :=
  ⟨n, by unfold i64Max at h; omega, by unfold i64Max at h; omega⟩

/-- Binds an unsigned integer to a parameter, which `rusqlite` refuses above `i64::MAX`. -/
def bind (n : ℕ) : DomainResult SqlInteger :=
  if h : n ≤ i64Max then .ok (ofNat n h)
  else .error (.storage "out of range integral type conversion attempted")

/-- Reads column number `column` as an unsigned integer of at most `max`. -/
def get (max column : ℕ) (n : SqlInteger) : DomainResult ℕ :=
  if 0 ≤ n.val ∧ n.val ≤ max then .ok n.val.toNat
  else .error (.corruptedState
    ("Integer " ++ toString n.val ++ " out of range at index " ++ toString column))

/-- A nullable integer parameter. -/
def bindOption : Option ℕ → DomainResult (Option SqlInteger)
  | none => .ok none
  | some n => (bind n).map some

/-- A nullable integer column. -/
def getOption (max column : ℕ) : Option SqlInteger → DomainResult (Option ℕ)
  | none => .ok none
  | some n => (get max column n).map some

theorem bind_of_le {n : ℕ} (h : n ≤ i64Max) : bind n = .ok (ofNat n h) := dif_pos h

theorem bind_of_lt {n : ℕ} (h : i64Max < n) :
    bind n = .error (.storage "out of range integral type conversion attempted") :=
  dif_neg (not_le.mpr h)

theorem le_i64Max {c : SqlInteger} {n : ℕ} (h : c.val = n) : n ≤ i64Max := by
  have := c.property
  unfold i64Max
  omega

/-- The integer bound for a number is that number. -/
theorem bind_eq_ok_iff {n : ℕ} {c : SqlInteger} : bind n = .ok c ↔ c.val = n := by
  constructor
  · intro h
    unfold bind at h
    split_ifs at h
    cases h
    rfl
  · intro h
    rw [bind_of_le (le_i64Max h)]
    exact congrArg _ (Subtype.ext h.symm)

/-- The number read from an integer is that integer, if it is in range. -/
theorem get_eq_ok_iff {max column n : ℕ} {c : SqlInteger} :
    get max column c = .ok n ↔ c.val = n ∧ n ≤ max := by
  unfold get
  constructor
  · intro h
    split_ifs at h with hrange
    cases h
    omega
  · rintro ⟨hval, hle⟩
    rw [if_pos (by omega), hval]
    rfl

theorem bind_le {n : ℕ} {c : SqlInteger} (h : bind n = .ok c) : n ≤ i64Max :=
  le_i64Max (bind_eq_ok_iff.mp h)

/-- What was bound is read back. -/
theorem get_ofNat {max column n : ℕ} (h : n ≤ i64Max) (hmax : n ≤ max) :
    get max column (ofNat n h) = .ok n :=
  get_eq_ok_iff.mpr ⟨rfl, hmax⟩

/-- An integer that could be bound is read back. -/
theorem get_of_bind {max column n : ℕ} {c : SqlInteger} (h : bind n = .ok c) (hmax : n ≤ max) :
    get max column c = .ok n :=
  get_eq_ok_iff.mpr ⟨bind_eq_ok_iff.mp h, hmax⟩

/-- Which column it is matters to the message of an error only. -/
theorem get_column {max column m : ℕ} {n : SqlInteger} (h : get max column n = .ok m)
    (column' : ℕ) : get max column' n = .ok m :=
  get_eq_ok_iff.mpr (get_eq_ok_iff.mp h)

/-! ### Nullable columns -/

/-- The column holds the number, or both are absent. -/
def Holds (c : Option SqlInteger) (n : Option ℕ) : Prop :=
  Option.map Subtype.val c = Option.map Nat.cast n

theorem holds_some_iff {c : Option SqlInteger} {n : ℕ} :
    Holds c (some n) ↔ ∃ i : SqlInteger, c = some i ∧ i.val = n := Option.map_eq_some_iff

theorem holds_none_iff {c : Option SqlInteger} : Holds c none ↔ c = none := Option.map_eq_none_iff

/-- A number that a nullable column can hold. -/
def Fits (n : Option ℕ) : Prop := ∀ m ∈ n, m ≤ i64Max

instance (n : Option ℕ) : Decidable (Fits n) :=
  match n with
  | none => isTrue fun _ h => nomatch h
  | some m => decidable_of_iff (m ≤ i64Max) (by simp [Fits])

theorem Holds.fits {c : Option SqlInteger} {n : Option ℕ} (h : Holds c n) : Fits n := by
  rintro m rfl
  obtain ⟨i, -, hi⟩ := holds_some_iff.mp h
  exact le_i64Max hi

/-- The column bound for a number holds it. -/
theorem bindOption_eq_ok_iff {n : Option ℕ} {c : Option SqlInteger} :
    bindOption n = .ok c ↔ Holds c n := by
  cases n with
  | none =>
    rw [holds_none_iff]
    exact ⟨fun h => (Except.ok.inj h).symm, fun h => h ▸ rfl⟩
  | some m =>
    rw [holds_some_iff]
    constructor
    · intro h
      change (bind m).map some = _ at h
      cases hbind : bind m with
      | error e =>
        rw [hbind] at h
        cases h
      | ok i =>
        rw [hbind] at h
        cases h
        exact ⟨i, rfl, bind_eq_ok_iff.mp hbind⟩
    · rintro ⟨i, rfl, hi⟩
      change (bind m).map some = _
      rw [bind_eq_ok_iff.mpr hi]
      rfl

/-- The number read from a column is what it holds, if it is in range. -/
theorem getOption_eq_ok_iff {max column : ℕ} {n : Option ℕ} {c : Option SqlInteger} :
    getOption max column c = .ok n ↔ Holds c n ∧ ∀ m ∈ n, m ≤ max := by
  cases c with
  | none =>
    constructor
    · intro h
      cases h
      exact ⟨rfl, fun m hm => nomatch hm⟩
    · rintro ⟨h, -⟩
      cases n with
      | none => rfl
      | some m => cases h
  | some i =>
    change (get max column i).map some = _ ↔ _
    constructor
    · intro h
      cases hget : get max column i with
      | error e =>
        rw [hget] at h
        cases h
      | ok m =>
        rw [hget] at h
        cases h
        obtain ⟨hval, hle⟩ := get_eq_ok_iff.mp hget
        refine ⟨holds_some_iff.mpr ⟨i, rfl, hval⟩, fun k hk => ?_⟩
        cases hk
        exact hle
    · rintro ⟨h, hle⟩
      cases n with
      | none => cases h
      | some m =>
        rw [get_eq_ok_iff.mpr ⟨Option.some.inj h, hle m rfl⟩]
        rfl

theorem getOption_column {max column : ℕ} {n : Option SqlInteger} {m : Option ℕ}
    (h : getOption max column n = .ok m) (column' : ℕ) : getOption max column' n = .ok m :=
  getOption_eq_ok_iff.mpr (getOption_eq_ok_iff.mp h)

theorem exists_holds_of_fits {n : Option ℕ} (h : Fits n) : ∃ c, Holds c n := by
  cases n with
  | none => exact ⟨none, rfl⟩
  | some m => exact ⟨some (ofNat m (h m rfl)), rfl⟩

theorem bindOption_of_fits {n : Option ℕ} (h : Fits n) :
    ∃ c, bindOption n = .ok c ∧
      ∀ max column, (∀ m ∈ n, m ≤ max) → getOption max column c = .ok n := by
  obtain ⟨c, hc⟩ := exists_holds_of_fits h
  exact ⟨c, bindOption_eq_ok_iff.mpr hc, fun _ _ hmax => getOption_eq_ok_iff.mpr ⟨hc, hmax⟩⟩

theorem getOption_of_bindOption {max column : ℕ} {n : Option ℕ} {c : Option SqlInteger}
    (h : bindOption n = .ok c) (hmax : i64Max ≤ max) : getOption max column c = .ok n := by
  have hc := bindOption_eq_ok_iff.mp h
  exact getOption_eq_ok_iff.mpr ⟨hc, fun m hm => (hc.fits m hm).trans hmax⟩

end SqlInteger

/-! ## Names -/

/-- The names `strum` derives for an enumeration, and the type's name in messages. -/
class StrumEnum (α : Type) where
  asStr : α → String
  fromStr : String → Option α
  typeName : String
  fromStr_asStr : ∀ a, fromStr (asStr a) = some a

/-- No name has a second spelling. -/
class StrumEnum.Canonical (α : Type) [StrumEnum α] : Prop where
  eq_asStr : ∀ {name : String} {a : α}, fromStr name = some a → name = asStr a

instance : StrumEnum OnchainState where
  asStr
    | .unknown => "unknown"
    | .unconfirmedIncoming => "unconfirmed_incoming"
    | .confirmed => "confirmed"
    | .spendingInFlight => "spending_in_flight"
    | .spent => "spent"
  fromStr
    | "unknown" => some .unknown
    | "unconfirmed_incoming" => some .unconfirmedIncoming
    | "confirmed" => some .confirmed
    | "spending_in_flight" => some .spendingInFlight
    | "spent" => some .spent
    | _ => none
  typeName := "txoscope_core::state::OnchainState"
  fromStr_asStr a := by cases a <;> rfl

instance : StrumEnum.Canonical OnchainState where
  eq_asStr h := by
    unfold StrumEnum.fromStr instStrumEnumOnchainState at h
    dsimp only at h
    split at h <;> first | (cases h; rfl) | cases h

instance : StrumEnum Availability where
  asStr
    | .unknown => "unknown"
    | .selectable => "selectable"
    | .reserved => "reserved"
    | .locked => "locked"
    | .blockedByPolicy => "blocked_by_policy"
    | .blockedByL2 => "blocked_by_l2"
    | .recovering => "recovering"
  fromStr
    | "unknown" => some .unknown
    | "selectable" => some .selectable
    | "reserved" => some .reserved
    | "locked" => some .locked
    | "blocked_by_policy" => some .blockedByPolicy
    | "blocked_by_l2" => some .blockedByL2
    | "recovering" => some .recovering
    | _ => none
  typeName := "txoscope_core::state::Availability"
  fromStr_asStr a := by cases a <;> rfl

instance : StrumEnum.Canonical Availability where
  eq_asStr h := by
    unfold StrumEnum.fromStr instStrumEnumAvailability at h
    dsimp only at h
    split at h <;> first | (cases h; rfl) | cases h

instance : StrumEnum UtxoRole where
  asStr
    | .unknown => "unknown"
    | .general => "general"
    | .spendPreferred => "spend_preferred"
    | .reserve => "reserve"
    | .recoveryOutput => "recovery_output"
    | .consolidationCandidate => "consolidation_candidate"
  fromStr
    | "unknown" => some .unknown
    | "general" => some .general
    | "spend_preferred" => some .spendPreferred
    | "reserve" => some .reserve
    | "recovery_output" => some .recoveryOutput
    | "consolidation_candidate" => some .consolidationCandidate
    | _ => none
  typeName := "txoscope_core::state::UtxoRole"
  fromStr_asStr a := by cases a <;> rfl

instance : StrumEnum.Canonical UtxoRole where
  eq_asStr h := by
    unfold StrumEnum.fromStr instStrumEnumUtxoRole at h
    dsimp only at h
    split at h <;> first | (cases h; rfl) | cases h

instance : StrumEnum OperationPhase where
  asStr
    | .selected => "selected"
    | .constructing => "constructing"
    | .signed => "signed"
    | .broadcast => "broadcast"
    | .awaitingConfirmation => "awaiting_confirmation"
    | .awaitingL2Finality => "awaiting_l2_finality"
    | .rollingBack => "rolling_back"
  fromStr
    | "selected" => some .selected
    | "constructing" => some .constructing
    | "signed" => some .signed
    | "broadcast" => some .broadcast
    | "awaiting_confirmation" => some .awaitingConfirmation
    | "awaiting_l2_finality" => some .awaitingL2Finality
    | "rolling_back" => some .rollingBack
    | _ => none
  typeName := "txoscope_core::operation::OperationPhase"
  fromStr_asStr a := by cases a <;> rfl

instance : StrumEnum.Canonical OperationPhase where
  eq_asStr h := by
    unfold StrumEnum.fromStr instStrumEnumOperationPhase at h
    dsimp only at h
    split at h <;> first | (cases h; rfl) | cases h

instance : StrumEnum IntentStatus where
  asStr
    | .pending => "pending"
    | .committed => "committed"
    | .failed => "failed"
  fromStr
    | "pending" => some .pending
    | "committed" => some .committed
    | "failed" => some .failed
    | _ => none
  typeName := "txoscope_core::operation::IntentStatus"
  fromStr_asStr a := by cases a <;> rfl

instance : StrumEnum.Canonical IntentStatus where
  eq_asStr h := by
    unfold StrumEnum.fromStr instStrumEnumIntentStatus at h
    dsimp only at h
    split at h <;> first | (cases h; rfl) | cases h

/-- Earlier releases wrote planned selections under other names. -/
instance : StrumEnum LockPurpose where
  asStr
    | .manualReservation => "manual_reservation"
    | .btcSend => "btc_send"
    | .feeSupport => "fee_support"
    | .plannedSelection => "planned_selection"
  fromStr
    | "manual_reservation" => some .manualReservation
    | "btc_send" => some .btcSend
    | "fee_support" => some .feeSupport
    | "planned_selection" | "single_target_reserve" | "anchor_with_fee_support"
    | "rgb_receive_preparation" | "rgb_l1_send" | "channel_funding" => some .plannedSelection
    | _ => none
  typeName := "txoscope_core::lock::LockPurpose"
  fromStr_asStr a := by cases a <;> rfl

instance : StrumEnum Capability where
  asStr
    | .btcSpend => "btc_spend"
    | .btcReceive => "btc_receive"
    | .feeSupport => "fee_support"
    | .reserveSupport => "reserve_support"
    | .singleTargetReserve => "single_target_reserve"
    | .l2Settlement => "l2_settlement"
    | .consolidationSource => "consolidation_source"
    | .consolidationTarget => "consolidation_target"
  fromStr
    | "btc_spend" => some .btcSpend
    | "btc_receive" => some .btcReceive
    | "fee_support" => some .feeSupport
    | "reserve_support" => some .reserveSupport
    | "single_target_reserve" | "rgb_receive" => some .singleTargetReserve
    | "l2_settlement" => some .l2Settlement
    | "consolidation_source" => some .consolidationSource
    | "consolidation_target" => some .consolidationTarget
    | _ => none
  typeName := "txoscope_core::capability::Capability"
  fromStr_asStr a := by cases a <;> rfl

namespace SqliteCodec

def encode {α : Type} [StrumEnum α] (value : α) : String := StrumEnum.asStr value

def decode {α : Type} [StrumEnum α] (encoded : String) : DomainResult α :=
  match StrumEnum.fromStr encoded with
  | some value => .ok value
  | none => .error (.corruptedState
      ("invalid " ++ StrumEnum.typeName α ++ " value in sqlite row: " ++ encoded))

@[simp] theorem decode_encode {α : Type} [StrumEnum α] (value : α) :
    decode (encode value) = .ok value := by
  unfold decode encode
  rw [StrumEnum.fromStr_asStr]

theorem encode_injective {α : Type} [StrumEnum α] : Function.Injective (encode (α := α)) := by
  intro a b h
  have hb := decode_encode b
  rw [← h, decode_encode] at hb
  exact Except.ok.inj hb

/-- A name without aliases is decoded from its own spelling only. -/
theorem decode_eq_ok_iff {α : Type} [StrumEnum α] [StrumEnum.Canonical α] {encoded : String}
    {value : α} : decode encoded = .ok value ↔ encoded = encode value := by
  constructor
  · intro h
    unfold decode at h
    split at h
    · rename_i value' hvalue
      cases h
      exact StrumEnum.Canonical.eq_asStr hvalue
    · cases h
  · rintro rfl
    exact decode_encode value

/-! ## Outpoints -/

/-- A character in the `Debug` text of a string. Unprintable characters are escaped by their number;
beyond Latin-1 every character counts as printable here. -/
def escapeDebug (c : Char) : String :=
  match c.toNat with
  | 0x00 => "\\0"
  | 0x09 => "\\t"
  | 0x0a => "\\n"
  | 0x0d => "\\r"
  | 0x22 => "\\\""
  | 0x5c => "\\\\"
  | n =>
    if n < 0x20 ∨ (0x7f ≤ n ∧ n ≤ 0xa0) ∨ n = 0xad then
      "\\u\x7b" ++ String.ofList (Nat.toDigits 16 n) ++ "\x7d"
    else c.toString

/-- The `Debug` text of a string. -/
def debugText (value : String) : String :=
  "\"" ++ String.join (value.toList.map escapeDebug) ++ "\""

/-- The reason `OutPoint::from_str` gives. -/
def invalidOutpoint (value : String) : String :=
  "invalid request: invalid outpoint " ++ debugText value ++
    ": expected a transaction ID followed by ':' and a u32 output index"

def decodeOutpoint (encoded : String) : DomainResult OutPoint :=
  match OutPoint.parse encoded with
  | none => .error (.corruptedState
      ("invalid outpoint in sqlite row: " ++ encoded ++ ": " ++ invalidOutpoint encoded))
  | some outpoint =>
    if outpoint.display ≠ encoded then
      .error (.corruptedState ("noncanonical outpoint in sqlite row: " ++ encoded))
    else .ok outpoint

@[simp] theorem decodeOutpoint_display (o : OutPoint) : decodeOutpoint o.display = .ok o := by
  unfold decodeOutpoint
  rw [OutPoint.parse_display]
  exact if_neg fun h => h rfl

/-- Only the text form of an outpoint is accepted. -/
theorem decodeOutpoint_eq_ok_iff {encoded : String} {o : OutPoint} :
    decodeOutpoint encoded = .ok o ↔ encoded = o.display := by
  constructor
  · intro h
    unfold decodeOutpoint at h
    split at h
    · cases h
    · rename_i outpoint hparse
      split_ifs at h with hcanonical
      cases h
      exact (not_not.mp hcanonical).symm
  · rintro rfl
    exact decodeOutpoint_display o

/-- The text form is read back, and so tells outpoints apart. `OutPoint::from_str` also accepts a
plus sign and leading zeros in the index; a persisted outpoint is the text form itself. -/
theorem outpoint_text_exact :
    (∀ o : OutPoint, OutPoint.parse o.display = some o) ∧
      (∀ o o' : OutPoint, o.display = o'.display ↔ o = o') ∧
        (∀ (value : String) (o : OutPoint), OutPoint.parse value = some o ↔
          ∃ index n, value = o.txid ++ ":" ++ index ∧ ':' ∉ index.toList ∧
            Text.Numeral index n ∧ n ≤ u32Max ∧ o.vout.toNat = n) ∧
          ∀ (encoded : String) (o : OutPoint),
            decodeOutpoint encoded = .ok o ↔ encoded = o.display := by
  refine ⟨OutPoint.parse_display, fun o o' => OutPoint.display_inj, fun value o => ?_,
    fun encoded o => decodeOutpoint_eq_ok_iff⟩
  exact OutPoint.parse_eq_some_iff

example : OutPoint.parse "x:y:+07" = some ⟨"x:y", 7⟩ := by decide

example : (decodeOutpoint "x:y:+07").isOk = false := by decide

/-! ## Capabilities -/

/-- The order a capability set is iterated in. -/
def allCapabilities : List Capability :=
  [.btcSpend, .btcReceive, .feeSupport, .reserveSupport, .singleTargetReserve, .l2Settlement,
    .consolidationSource, .consolidationTarget]

def encodeCapabilities (capabilities : CapabilitySet) : String :=
  String.intercalate "," ((allCapabilities.filter (· ∈ capabilities)).map encode)

def decodeCapabilities (encoded : String) : DomainResult CapabilitySet :=
  if encoded = "" then .ok ∅
  else do
    let names := (encoded.toList.splitOn ',').map String.ofList
    let capabilities ← names.mapM decode
    return capabilities.toFinset

theorem mem_allCapabilities (capability : Capability) : capability ∈ allCapabilities := by
  cases capability <;> decide

theorem comma_not_mem_encode (capability : Capability) :
    ',' ∉ (encode capability).toList := by
  cases capability <;> decide

theorem mapM_decode_encode (capabilities : List Capability) :
    (capabilities.map encode).mapM decode = (.ok capabilities : DomainResult (List Capability)) := by
  induction capabilities with
  | nil => rfl
  | cons capability capabilities ih =>
    rw [List.map_cons, List.mapM_cons, decode_encode, ih]
    rfl

/-- A set of capabilities is read back as it was written. -/
@[simp] theorem decodeCapabilities_encodeCapabilities (capabilities : CapabilitySet) :
    decodeCapabilities (encodeCapabilities capabilities) = .ok capabilities := by
  have hset : (allCapabilities.filter (· ∈ capabilities)).toFinset = capabilities := by
    ext capability
    simp [mem_allCapabilities]
  unfold encodeCapabilities decodeCapabilities
  generalize allCapabilities.filter (· ∈ capabilities) = listed at hset
  cases listed with
  | nil =>
    rw [← hset]
    rfl
  | cons first rest =>
    have hnames : ∀ name ∈ (first :: rest).map encode, ',' ∉ name.toList := by
      intro name hname
      obtain ⟨capability, -, rfl⟩ := List.mem_map.mp hname
      exact comma_not_mem_encode capability
    have hfirst : encode first ≠ "" := by cases first <;> decide
    have hnonempty : String.intercalate "," ((first :: rest).map encode) ≠ "" :=
      Text.intercalate_ne_empty hfirst hnames
    have hsplit : ((String.intercalate "," ((first :: rest).map encode)).toList.splitOn ',').map
        String.ofList = (first :: rest).map encode :=
      Text.splitOn_intercalate (List.cons_ne_nil _ _) hnames
    rw [if_neg hnonempty, hsplit]
    dsimp only
    rw [mapM_decode_encode]
    exact congrArg Except.ok hset

end SqliteCodec

end Txoscope
