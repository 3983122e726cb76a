import Mathlib.Data.List.Sort
import Txoscope.Core.Basic

/-!
# The asset selection policy

Pure selection over eligible candidates: automatic selection prefers larger bitcoin carriers and
then lexical outpoints, exact selection keeps the order of the caller. Sums are exact: a `u128`
holds any sum of `u64` amounts of a candidate list that fits in memory.
-/

namespace Txoscope

/-- An input whose ownership, capabilities and availability were checked by the caller. An amount
of zero denotes an allocation-free fee-support input. -/
structure AssetCandidate where
  outpoint : OutPoint
  assetAmount : ℕ
  valueSats : ℕ
  deriving DecidableEq, Repr

structure AssetSelectionConstraints where
  exactOutpoints : Option (List OutPoint)
  allowAssetMerge : Bool
  allowFeeSupport : Bool
  deriving DecidableEq, Repr

namespace AssetSelectionPolicy

/-- The check of exact outpoints, if there are any. -/
def validateExact : Option (List OutPoint) → DomainResult Unit
  | none => .ok ()
  | some outpoints =>
    if outpoints.isEmpty then
      .error (.invalidRequest "exact asset selection requires at least one outpoint")
    else if ¬ outpoints.Nodup then .error (.invalidRequest "duplicate exact input")
    else .ok ()

/-- Validates caller inputs before anything is queried. -/
def validateInputs (outpoints : List OutPoint) (targetAsset : ℕ)
    (constraints : AssetSelectionConstraints) : DomainResult Unit :=
  if targetAsset = 0 then .error .insufficientFunds
  else if ¬ outpoints.Nodup then .error (.invalidRequest "duplicate asset candidate")
  else validateExact constraints.exactOutpoints

/-- The order of automatic selection: large carriers first, with a stable tie-break. -/
def carrierLe (a b : AssetCandidate) : Bool :=
  b.valueSats < a.valueSats ∨
    (a.valueSats = b.valueSats ∧ a.outpoint.display ≤ b.outpoint.display)

/-- Takes asset inputs, with the sums of their assets and values. -/
def takeAssets (merge : Bool) (targetAsset targetValue : ℕ) :
    List AssetCandidate → ℕ → ℕ → List OutPoint × ℕ × ℕ
  | [], assets, sats => ([], assets, sats)
  | candidate :: candidates, assets, sats =>
    if !merge && candidate.assetAmount < targetAsset then
      takeAssets merge targetAsset targetValue candidates assets sats
    else
      let assets := assets + candidate.assetAmount
      let sats := sats + candidate.valueSats
      if !merge || (assets ≥ targetAsset && sats ≥ targetValue) then
        ([candidate.outpoint], assets, sats)
      else
        let (selected, sums) := takeAssets merge targetAsset targetValue candidates assets sats
        (candidate.outpoint :: selected, sums)

/-- Takes fee-support inputs until the value is reached. -/
def takeFees (targetValue : ℕ) : List AssetCandidate → ℕ → List OutPoint
  | [], _ => []
  | candidate :: candidates, sats =>
    if sats ≥ targetValue then []
    else candidate.outpoint :: takeFees targetValue candidates (sats + candidate.valueSats)

/-- Automatic selection over sorted candidates. -/
def selectAutomatic (eligible : List AssetCandidate) (targetAsset targetValue : ℕ)
    (constraints : AssetSelectionConstraints) : List OutPoint :=
  let (selected, assets, sats) := takeAssets constraints.allowAssetMerge targetAsset targetValue
    (eligible.filter (·.assetAmount > 0)) 0 0
  if assets ≥ targetAsset && constraints.allowFeeSupport then
    selected ++ takeFees targetValue (eligible.filter (·.assetAmount = 0)) sats
  else selected

/-- Every exact outpoint is a candidate. -/
def checkAvailable (eligible : List AssetCandidate) : List OutPoint → DomainResult Unit
  | [] => .ok ()
  | outpoint :: outpoints =>
    if !eligible.any (·.outpoint = outpoint) then
      .error (.utxoPolicyBlocked outpoint
        "input is not an available asset or fee-support candidate")
    else checkAvailable eligible outpoints

/-- No exact outpoint is a fee-support input where these are disabled. -/
def checkFeeSupport (outpoints : List OutPoint) (allowFeeSupport : Bool) :
    List AssetCandidate → DomainResult Unit
  | [] => .ok ()
  | candidate :: candidates =>
    if candidate.outpoint ∈ outpoints ∧ candidate.assetAmount = 0 ∧ !allowFeeSupport then
      .error (.utxoPolicyBlocked candidate.outpoint "fee-support inputs are disabled")
    else checkFeeSupport outpoints allowFeeSupport candidates

/-- The sums over the selected inputs. -/
def sumSelected (eligible : List AssetCandidate) : List OutPoint → ℕ → ℕ → DomainResult (ℕ × ℕ)
  | [], assets, sats => .ok (assets, sats)
  | outpoint :: outpoints, assets, sats =>
    match eligible.find? (·.outpoint = outpoint) with
    | none =>
      .error (.corruptedState ("selected asset candidate disappeared: " ++ outpoint.display))
    | some candidate =>
      sumSelected eligible outpoints (assets + candidate.assetAmount) (sats + candidate.valueSats)

/-- The check of the sums, and the selection. -/
def checkSums (eligible : List AssetCandidate) (selected : List OutPoint)
    (targetAsset targetValue : ℕ) : DomainResult (List OutPoint) := do
  let (assets, sats) ← sumSelected eligible selected 0 0
  if assets < targetAsset then throw (.insufficientAsset targetAsset assets)
  else if sats < targetValue then throw (.insufficientValue targetValue sats)
  else return selected

/-- Selects eligible inputs, enforcing exact-input and automatic-selection constraints. -/
def select (candidates : List AssetCandidate) (targetAsset targetValue : ℕ)
    (constraints : AssetSelectionConstraints) : DomainResult (List OutPoint) := do
  validateInputs (candidates.map (·.outpoint)) targetAsset constraints
  match constraints.exactOutpoints with
  | some outpoints =>
    checkAvailable candidates outpoints
    checkFeeSupport outpoints constraints.allowFeeSupport candidates
    checkSums candidates outpoints targetAsset targetValue
  | none =>
    let eligible := candidates.insertionSort fun a b => carrierLe a b = true
    checkSums eligible (selectAutomatic eligible targetAsset targetValue constraints) targetAsset
      targetValue

/-! ## What is selected -/

variable {merge : Bool} {targetAsset targetValue : ℕ} {candidates : List AssetCandidate}
  {constraints : AssetSelectionConstraints}

/-- Whatever the request fails for, the checks on it pass or fail before anything is read. -/
theorem validateInputs_eq_ok_iff {outpoints : List OutPoint} :
    validateInputs outpoints targetAsset constraints = .ok () ↔
      targetAsset ≠ 0 ∧ outpoints.Nodup ∧
        ∀ exact, constraints.exactOutpoints = some exact → exact ≠ [] ∧ exact.Nodup := by
  unfold validateInputs validateExact
  by_cases ht : targetAsset = 0
  · simp [ht]
  · by_cases hnd : outpoints.Nodup
    · cases constraints.exactOutpoints with
      | none => simp [ht, hnd]
      | some exact =>
        by_cases he : exact = [] <;> by_cases hne : exact.Nodup <;> simp [ht, hnd, he, hne]
    · simp [ht, hnd]

theorem takeAssets_sublist (assets sats : ℕ) :
    (takeAssets merge targetAsset targetValue candidates assets sats).1.Sublist
      (candidates.map (·.outpoint)) := by
  induction candidates generalizing assets sats with
  | nil => exact List.Sublist.slnil
  | cons candidate candidates ih =>
    unfold takeAssets
    by_cases hskip : (!merge && decide (candidate.assetAmount < targetAsset)) = true
    · rw [if_pos hskip]
      exact (ih _ _).cons _
    · rw [if_neg hskip]
      dsimp only
      split_ifs
      · exact List.Sublist.cons_cons _ (List.nil_sublist _)
      · exact (ih _ _).cons_cons _

theorem takeFees_sublist (sats : ℕ) :
    (takeFees targetValue candidates sats).Sublist (candidates.map (·.outpoint)) := by
  induction candidates generalizing sats with
  | nil => exact List.Sublist.slnil
  | cons candidate candidates ih =>
    unfold takeFees
    split_ifs
    · exact List.nil_sublist _
    · exact (ih _).cons_cons _

variable (targetAsset targetValue constraints) in
/-- Automatic selection takes every candidate at most once, asset inputs first. -/
theorem selectAutomatic_subperm (candidates : List AssetCandidate) :
    ∃ taken : List OutPoint, (selectAutomatic candidates targetAsset targetValue
      constraints).Sublist taken ∧ taken.Perm (candidates.map (·.outpoint)) := by
  refine ⟨(candidates.filter (·.assetAmount > 0)).map (·.outpoint) ++
    (candidates.filter (·.assetAmount = 0)).map (·.outpoint), ?_, ?_⟩
  · unfold selectAutomatic
    dsimp only
    split_ifs
    · exact (takeAssets_sublist _ _).append (takeFees_sublist _)
    · exact (takeAssets_sublist _ _).trans (List.sublist_append_left _ _)
  · rw [← List.map_append]
    refine List.Perm.map _ ?_
    have hfees : candidates.filter (·.assetAmount = 0) =
        candidates.filter fun candidate => !decide (candidate.assetAmount > 0) := by
      refine List.filter_congr fun candidate _ => ?_
      by_cases h : candidate.assetAmount = 0 <;> simp [h, Nat.pos_iff_ne_zero]
    rw [hfees]
    exact List.filter_append_perm _ _

theorem checkAvailable_mem {outpoints : List OutPoint} {r : Unit}
    (h : checkAvailable candidates outpoints = .ok r) :
    ∀ o ∈ outpoints, o ∈ candidates.map (·.outpoint) := by
  induction outpoints with
  | nil => exact fun _ hm => (List.not_mem_nil hm).elim
  | cons o outpoints ih =>
    unfold checkAvailable at h
    split_ifs at h with hany
    · rw [Bool.not_eq_true', Bool.not_eq_false, List.any_eq_true] at hany
      obtain ⟨candidate, hmem, ho⟩ := hany
      refine List.forall_mem_cons.mpr ⟨List.mem_map.mpr ⟨candidate, hmem, ?_⟩, ih h⟩
      simpa using ho

/-- The sums are checked, and the selection is returned as it is. -/
theorem checkSums_ok {selected result : List OutPoint}
    (h : checkSums candidates selected targetAsset targetValue = .ok result)
    (ht : targetAsset ≠ 0) : result = selected ∧ selected ≠ [] := by
  unfold checkSums at h
  cases hs : sumSelected candidates selected 0 0 with
  | error e =>
    rw [hs] at h
    cases h
  | ok sums =>
    rw [hs] at h
    change (if sums.1 < targetAsset then _ else _) = _ at h
    by_cases hassets : sums.1 < targetAsset
    · rw [if_pos hassets] at h
      cases h
    · rw [if_neg hassets] at h
      split_ifs at h
      obtain rfl := Except.ok.inj h
      refine ⟨rfl, ?_⟩
      rintro rfl
      cases hs
      exact hassets (Nat.pos_of_ne_zero ht)

/-- What the policy selects are distinct candidates, and at least one. -/
theorem select_ok {selected : List OutPoint}
    (h : select candidates targetAsset targetValue constraints = .ok selected) :
    selected ≠ [] ∧ selected.Nodup ∧ ∀ o ∈ selected, o ∈ candidates.map (·.outpoint) := by
  unfold select at h
  cases hv : validateInputs (candidates.map (·.outpoint)) targetAsset constraints with
  | error e =>
    rw [hv] at h
    cases h
  | ok u =>
    rw [hv] at h
    obtain ⟨ht, hnd, hexact⟩ := validateInputs_eq_ok_iff.mp hv
    cases he : constraints.exactOutpoints with
    | none =>
      simp only [he] at h
      obtain ⟨rfl, hne⟩ := checkSums_ok h ht
      obtain ⟨taken, hsub, hperm⟩ := selectAutomatic_subperm targetAsset targetValue
        constraints (candidates.insertionSort fun a b => carrierLe a b = true)
      have hperm' := hperm.trans ((List.perm_insertionSort _ candidates).map _)
      exact ⟨hne, (hperm'.nodup_iff.mpr hnd).sublist hsub, fun o ho =>
        hperm'.subset (hsub.subset ho)⟩
    | some outpoints =>
      simp only [he] at h
      cases ha : checkAvailable candidates outpoints with
      | error e =>
        rw [ha] at h
        cases h
      | ok u =>
        rw [ha] at h
        cases hf : checkFeeSupport outpoints constraints.allowFeeSupport candidates with
        | error e =>
          rw [hf] at h
          cases h
        | ok u =>
          rw [hf] at h
          obtain ⟨rfl, hne⟩ := checkSums_ok h ht
          exact ⟨hne, (hexact _ he).2, checkAvailable_mem ha⟩

end AssetSelectionPolicy

end Txoscope
