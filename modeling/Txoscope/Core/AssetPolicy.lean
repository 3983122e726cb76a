import Mathlib.Algebra.GroupWithZero.Nat
import Txoscope.Core.AssetSelection
import Txoscope.Lib.Greedy

/-!
# What the asset policy selects

Automatic selection is two greedy passes over the sorted candidates, one over the asset inputs and
one over the fee-support inputs. It succeeds exactly when some selection of its kind could
(`select_sound_complete`), it never takes more than it needs, and nothing depends on the order in
which the candidates are supplied (`select_perm`).
-/

namespace Txoscope

namespace AssetSelectionPolicy

/-! ## Sums -/

def assets (candidates : List AssetCandidate) : ℕ := (candidates.map (·.assetAmount)).sum

def sats (candidates : List AssetCandidate) : ℕ := (candidates.map (·.valueSats)).sum

@[simp] theorem assets_nil : assets [] = 0 := rfl

@[simp] theorem sats_nil : sats [] = 0 := rfl

@[simp] theorem assets_cons (c : AssetCandidate) (cs : List AssetCandidate) :
    assets (c :: cs) = c.assetAmount + assets cs := List.sum_cons

@[simp] theorem sats_cons (c : AssetCandidate) (cs : List AssetCandidate) :
    sats (c :: cs) = c.valueSats + sats cs := List.sum_cons

@[simp] theorem assets_append (cs cs' : List AssetCandidate) :
    assets (cs ++ cs') = assets cs + assets cs' := by
  unfold assets
  rw [List.map_append, List.sum_append]

@[simp] theorem sats_append (cs cs' : List AssetCandidate) :
    sats (cs ++ cs') = sats cs + sats cs' := by
  unfold sats
  rw [List.map_append, List.sum_append]

/-- The candidates that carry the asset. -/
def carriers (candidates : List AssetCandidate) : List AssetCandidate :=
  candidates.filter (·.assetAmount > 0)

/-- The fee-support candidates. -/
def supports (candidates : List AssetCandidate) : List AssetCandidate :=
  candidates.filter (·.assetAmount = 0)

/-- The value that fee support may add. -/
def supportSats (constraints : AssetSelectionConstraints) (candidates : List AssetCandidate) : ℕ :=
  if constraints.allowFeeSupport then sats (supports candidates) else 0

theorem assets_supports (candidates : List AssetCandidate) : assets (supports candidates) = 0 := by
  induction candidates with
  | nil => rfl
  | cons c cs ih =>
    unfold supports at ih ⊢
    rw [List.filter_cons]
    by_cases h : c.assetAmount = 0
    · simp [h, ih]
    · simp [h, ih]

theorem assets_carriers (candidates : List AssetCandidate) :
    assets (carriers candidates) = assets candidates := by
  induction candidates with
  | nil => rfl
  | cons c cs ih =>
    unfold carriers at ih ⊢
    rw [List.filter_cons]
    by_cases h : c.assetAmount > 0
    · simp [h, ih]
    · simp [ih, Nat.eq_zero_of_not_pos h]

/-! ## The two passes -/

variable {merge : Bool} {targetAsset targetValue : ℕ} {candidates : List AssetCandidate}
  {constraints : AssetSelectionConstraints}

/-- Both targets are met. -/
def enough (targetAsset targetValue : ℕ) (sums : ℕ × ℕ) : Bool :=
  sums.1 ≥ targetAsset && sums.2 ≥ targetValue

/-- The sums with one more candidate. -/
def gather (sums : ℕ × ℕ) (c : AssetCandidate) : ℕ × ℕ :=
  (sums.1 + c.assetAmount, sums.2 + c.valueSats)

theorem foldl_gather (cs : List AssetCandidate) (sums : ℕ × ℕ) :
    cs.foldl gather sums = (sums.1 + assets cs, sums.2 + sats cs) := by
  induction cs generalizing sums with
  | nil => rfl
  | cons c cs ih =>
    rw [List.foldl_cons, ih, assets_cons, sats_cons]
    unfold gather
    simp only [Nat.add_assoc]

theorem foldl_sats (cs : List AssetCandidate) (n : ℕ) :
    cs.foldl (fun n c => n + c.valueSats) n = n + sats cs := by
  induction cs generalizing n with
  | nil => rfl
  | cons c cs ih =>
    rw [List.foldl_cons, ih, sats_cons]
    omega

/-- The asset inputs that are taken. -/
def chooseAssets (merge : Bool) (targetAsset targetValue : ℕ) (cs : List AssetCandidate) :
    List AssetCandidate :=
  if merge then Greedy.fill (enough targetAsset targetValue) gather cs (0, 0)
  else (cs.find? fun c => targetAsset ≤ c.assetAmount).toList

/-- The fee-support inputs that are taken. -/
def chooseFees (targetValue : ℕ) (cs : List AssetCandidate) (gathered : ℕ) :
    List AssetCandidate :=
  Greedy.fill (fun n => decide (n ≥ targetValue)) (fun n c => n + c.valueSats) cs gathered

/-- All inputs that are taken. -/
def choose (targetAsset targetValue : ℕ) (constraints : AssetSelectionConstraints)
    (eligible : List AssetCandidate) : List AssetCandidate :=
  let first := chooseAssets constraints.allowAssetMerge targetAsset targetValue (carriers eligible)
  if assets first ≥ targetAsset && constraints.allowFeeSupport then
    first ++ chooseFees targetValue (supports eligible) (sats first)
  else first

theorem takeFees_eq (cs : List AssetCandidate) (gathered : ℕ) :
    takeFees targetValue cs gathered = (chooseFees targetValue cs gathered).map (·.outpoint) := by
  unfold chooseFees
  induction cs generalizing gathered with
  | nil => rfl
  | cons c cs ih =>
    unfold takeFees Greedy.fill
    by_cases h : gathered ≥ targetValue
    · simp [h]
    · simp [h, ih]

/-- With merging, candidates are taken until both targets are met. -/
theorem takeAssets_merge (cs : List AssetCandidate) {sums : ℕ × ℕ}
    (h : enough targetAsset targetValue sums = false) :
    takeAssets true targetAsset targetValue cs sums.1 sums.2 =
      ((Greedy.fill (enough targetAsset targetValue) gather cs sums).map (·.outpoint),
        (Greedy.fill (enough targetAsset targetValue) gather cs sums).foldl gather sums) := by
  induction cs generalizing sums with
  | nil => rfl
  | cons c cs ih =>
    rw [Greedy.fill_cons_of_not_stop h]
    unfold takeAssets
    rw [if_neg (by simp)]
    by_cases hnext : enough targetAsset targetValue (gather sums c) = true
    · rw [Greedy.fill_of_stop hnext]
      exact if_pos (by simpa [enough, gather] using hnext)
    · rw [Bool.not_eq_true] at hnext
      have hstop : ¬ ((!true || (decide (sums.1 + c.assetAmount ≥ targetAsset) &&
          decide (sums.2 + c.valueSats ≥ targetValue))) = true) := by
        simpa [enough, gather] using hnext
      dsimp only
      rw [if_neg hstop, show takeAssets true targetAsset targetValue cs (sums.1 + c.assetAmount)
        (sums.2 + c.valueSats) = _ from ih hnext]
      rfl

/-- Without merging, the first candidate that covers the amount alone is taken. -/
theorem takeAssets_single (cs : List AssetCandidate) (n m : ℕ) :
    takeAssets false targetAsset targetValue cs n m =
      let taken := (cs.find? fun c => targetAsset ≤ c.assetAmount).toList
      (taken.map (·.outpoint), n + assets taken, m + sats taken) := by
  induction cs with
  | nil => rfl
  | cons c cs ih =>
    unfold takeAssets
    by_cases h : targetAsset ≤ c.assetAmount
    · have hskip : ¬ ((!false && decide (c.assetAmount < targetAsset)) = true) := by
        simpa using h
      rw [if_neg hskip, List.find?_cons_of_pos (by simpa using h)]
      simp
    · have hskip : (!false && decide (c.assetAmount < targetAsset)) = true := by
        simpa using h
      rw [if_pos hskip, List.find?_cons_of_neg (by simpa using h), ih]

theorem takeAssets_eq (hpos : 0 < targetAsset) (cs : List AssetCandidate) :
    takeAssets merge targetAsset targetValue cs 0 0 =
      let taken := chooseAssets merge targetAsset targetValue cs
      (taken.map (·.outpoint), assets taken, sats taken) := by
  unfold chooseAssets
  cases merge with
  | true =>
    have hstart : enough targetAsset targetValue (0, 0) = false := by
      have hzero : ¬ targetAsset ≤ 0 := Nat.not_le.mpr hpos
      simp [enough, hzero]
    rw [show takeAssets true targetAsset targetValue cs 0 0 = _ from takeAssets_merge cs hstart]
    dsimp only
    rw [foldl_gather]
    simp
  | false =>
    rw [takeAssets_single]
    simp

theorem selectAutomatic_eq (hpos : 0 < targetAsset) (eligible : List AssetCandidate) :
    selectAutomatic eligible targetAsset targetValue constraints =
      (choose targetAsset targetValue constraints eligible).map (·.outpoint) := by
  unfold selectAutomatic choose
  rw [show eligible.filter (·.assetAmount > 0) = carriers eligible from rfl, takeAssets_eq hpos]
  dsimp only
  split_ifs
  · rw [takeFees_eq, List.map_append]
    rfl
  · rfl

/-! ## What is chosen -/

theorem sums_le_of_sublist {cs cs' : List AssetCandidate} (h : cs.Sublist cs') :
    assets cs ≤ assets cs' ∧ sats cs ≤ sats cs' := by
  induction h with
  | slnil => exact ⟨le_rfl, le_rfl⟩
  | cons c h ih =>
    rw [assets_cons, sats_cons]
    omega
  | cons_cons c h ih =>
    rw [assets_cons, sats_cons, assets_cons, sats_cons]
    omega

variable (merge targetAsset targetValue) in
theorem chooseAssets_sublist (cs : List AssetCandidate) :
    (chooseAssets merge targetAsset targetValue cs).Sublist cs := by
  unfold chooseAssets
  split_ifs
  · exact (Greedy.fill_isPrefix _ _ _ _).sublist
  · cases h : cs.find? fun c => targetAsset ≤ c.assetAmount with
    | none => exact List.nil_sublist _
    | some c => exact List.singleton_sublist.mpr (List.mem_of_find?_eq_some h)

variable (targetValue) in
theorem chooseFees_sublist (cs : List AssetCandidate) (gathered : ℕ) :
    (chooseFees targetValue cs gathered).Sublist cs := (Greedy.fill_isPrefix _ _ _ _).sublist

theorem assets_chooseFees (cs : List AssetCandidate) (gathered : ℕ) :
    assets (chooseFees targetValue (supports cs) gathered) = 0 := by
  have h := (sums_le_of_sublist (chooseFees_sublist targetValue (supports cs) gathered)).1
  rw [assets_supports] at h
  exact Nat.le_zero.mp h

/-- Only asset inputs count towards the amount. -/
theorem assets_choose (eligible : List AssetCandidate) :
    assets (choose targetAsset targetValue constraints eligible) =
      assets (chooseAssets constraints.allowAssetMerge targetAsset targetValue
        (carriers eligible)) := by
  unfold choose
  dsimp only
  split_ifs
  · rw [assets_append, assets_chooseFees, Nat.add_zero]
  · rfl

theorem choose_mem {eligible : List AssetCandidate} {c : AssetCandidate}
    (h : c ∈ choose targetAsset targetValue constraints eligible) : c ∈ eligible := by
  have hasset : ∀ c ∈ chooseAssets constraints.allowAssetMerge targetAsset targetValue
      (carriers eligible), c ∈ eligible := fun c hc =>
    (List.mem_filter.mp ((chooseAssets_sublist _ _ _ _).subset hc)).1
  unfold choose at h
  dsimp only at h
  split_ifs at h
  · rcases List.mem_append.mp h with h | h
    · exact hasset c h
    · exact (List.mem_filter.mp ((chooseFees_sublist _ _ _).subset h)).1
  · exact hasset c h

/-- Once the amount is covered, the value is covered whenever fee support can cover the rest. -/
theorem sats_choose_iff {eligible : List AssetCandidate}
    (h : targetAsset ≤ assets (chooseAssets constraints.allowAssetMerge targetAsset targetValue
      (carriers eligible))) :
    targetValue ≤ sats (choose targetAsset targetValue constraints eligible) ↔
      targetValue ≤ sats (chooseAssets constraints.allowAssetMerge targetAsset targetValue
        (carriers eligible)) + supportSats constraints eligible := by
  unfold choose supportSats
  generalize chooseAssets constraints.allowAssetMerge targetAsset targetValue (carriers eligible) =
    first at *
  dsimp only
  by_cases hfee : constraints.allowFeeSupport = true
  · rw [if_pos (by simp [h, hfee]), if_pos hfee, sats_append]
    have hle := (sums_le_of_sublist (chooseFees_sublist targetValue (supports eligible) (sats first))).2
    rcases Greedy.stop_or_fill_eq (fun n => decide (n ≥ targetValue))
      (fun n (c : AssetCandidate) => n + c.valueSats) (supports eligible) (sats first)
      with hstop | hall
    · rw [foldl_sats, decide_eq_true_eq] at hstop
      have hfees : targetValue ≤ sats first +
        sats (chooseFees targetValue (supports eligible) (sats first)) := hstop
      omega
    · rw [show chooseFees targetValue (supports eligible) (sats first) = supports eligible from hall]
  · rw [if_neg (by simp [hfee]), if_neg hfee, Nat.add_zero]

/-! ### With merging -/

variable (targetAsset targetValue) in
/-- Merging stops early only once both targets are met. -/
theorem chooseAssets_merge (cs : List AssetCandidate) :
    (targetAsset ≤ assets (chooseAssets true targetAsset targetValue cs) ∧
      targetValue ≤ sats (chooseAssets true targetAsset targetValue cs)) ∨
      chooseAssets true targetAsset targetValue cs = cs := by
  rcases Greedy.stop_or_fill_eq (enough targetAsset targetValue) gather cs (0, 0) with henough | hall
  · rw [foldl_gather] at henough
    left
    unfold chooseAssets
    simpa [enough] using henough
  · exact .inr hall

variable (targetValue) in
/-- With merging, the amount is covered as soon as all candidates together cover it. -/
theorem merge_covers_iff (hmerge : constraints.allowAssetMerge = true)
    (eligible : List AssetCandidate) :
    targetAsset ≤ assets (chooseAssets constraints.allowAssetMerge targetAsset targetValue
      (carriers eligible)) ↔ targetAsset ≤ assets eligible := by
  have hle := (sums_le_of_sublist
    (chooseAssets_sublist true targetAsset targetValue (carriers eligible))).1
  rw [assets_carriers] at hle
  rw [hmerge]
  rcases chooseAssets_merge targetAsset targetValue (carriers eligible) with henough | hall
  · omega
  · rw [hall, assets_carriers]

theorem merge_funds_iff (hmerge : constraints.allowAssetMerge = true) (n : ℕ)
    (eligible : List AssetCandidate) :
    targetValue ≤ sats (chooseAssets constraints.allowAssetMerge targetAsset targetValue
      (carriers eligible)) + n ↔ targetValue ≤ sats (carriers eligible) + n := by
  have hle := (sums_le_of_sublist
    (chooseAssets_sublist true targetAsset targetValue (carriers eligible))).2
  rw [hmerge]
  rcases chooseAssets_merge targetAsset targetValue (carriers eligible) with henough | hall
  · omega
  · rw [hall]

/-! ### Without merging -/

/-- Of the candidates that cover the amount alone, the first one has the greatest value. -/
theorem valueSats_le_of_find? {cs : List AssetCandidate} {c d : AssetCandidate}
    (hsorted : cs.Pairwise fun a b => carrierLe a b = true)
    (hfind : cs.find? (fun c => targetAsset ≤ c.assetAmount) = some c) (hd : d ∈ cs)
    (hcovers : targetAsset ≤ d.assetAmount) : d.valueSats ≤ c.valueSats := by
  obtain ⟨-, before, after, rfl, hbefore⟩ := List.find?_eq_some_iff_append.mp hfind
  rcases List.mem_append.mp hd with hd | hd
  · have h := hbefore d hd
    simp [hcovers] at h
  · rcases List.mem_cons.mp hd with rfl | hd
    · exact le_rfl
    · have hle := List.rel_of_pairwise_cons (List.pairwise_append.mp hsorted).2.1 hd
      simp only [carrierLe, decide_eq_true_eq] at hle
      omega

theorem chooseAssets_single (cs : List AssetCandidate) :
    chooseAssets false targetAsset targetValue cs =
      (cs.find? fun c => targetAsset ≤ c.assetAmount).toList := if_neg Bool.false_ne_true

theorem mem_carriers (hpos : 0 < targetAsset) {eligible : List AssetCandidate} {c : AssetCandidate}
    (hcovers : targetAsset ≤ c.assetAmount) : c ∈ carriers eligible ↔ c ∈ eligible := by
  unfold carriers
  rw [List.mem_filter, decide_eq_true_eq]
  exact ⟨And.left, fun h => ⟨h, hpos.trans_le hcovers⟩⟩

/-! ## When the targets are met -/

/-- The asset amount can be covered. -/
def CoversAsset (targetAsset : ℕ) (constraints : AssetSelectionConstraints)
    (candidates : List AssetCandidate) : Prop :=
  if constraints.allowAssetMerge then targetAsset ≤ assets candidates
  else ∃ c ∈ candidates, targetAsset ≤ c.assetAmount

/-- The asset amount and the bitcoin value can be covered together. -/
def CoversBoth (targetAsset targetValue : ℕ) (constraints : AssetSelectionConstraints)
    (candidates : List AssetCandidate) : Prop :=
  if constraints.allowAssetMerge then
    targetAsset ≤ assets candidates ∧
      targetValue ≤ sats (carriers candidates) + supportSats constraints candidates
  else
    ∃ c ∈ candidates, targetAsset ≤ c.assetAmount ∧
      targetValue ≤ c.valueSats + supportSats constraints candidates

instance (targetAsset : ℕ) (constraints : AssetSelectionConstraints)
    (candidates : List AssetCandidate) :
    Decidable (CoversAsset targetAsset constraints candidates) :=
  inferInstanceAs (Decidable (if constraints.allowAssetMerge then _ else _))

instance (targetAsset targetValue : ℕ) (constraints : AssetSelectionConstraints)
    (candidates : List AssetCandidate) :
    Decidable (CoversBoth targetAsset targetValue constraints candidates) :=
  inferInstanceAs (Decidable (if constraints.allowAssetMerge then _ else _))

variable (targetValue constraints) in
theorem choose_covers_iff (hpos : 0 < targetAsset) (eligible : List AssetCandidate) :
    targetAsset ≤ assets (choose targetAsset targetValue constraints eligible) ↔
      CoversAsset targetAsset constraints eligible := by
  unfold CoversAsset
  rw [assets_choose]
  by_cases hmerge : constraints.allowAssetMerge = true
  · rw [if_pos hmerge]
    exact merge_covers_iff targetValue hmerge eligible
  · rw [if_neg hmerge]
    rw [Bool.not_eq_true] at hmerge
    rw [hmerge, chooseAssets_single]
    cases hfind : (carriers eligible).find? fun c => targetAsset ≤ c.assetAmount with
    | none =>
      rw [List.find?_eq_none] at hfind
      refine iff_of_false (Nat.not_le.mpr hpos) ?_
      rintro ⟨c, hc, hcovers⟩
      exact hfind c ((mem_carriers hpos hcovers).mpr hc) (decide_eq_true hcovers)
    | some c =>
      have hcovers : targetAsset ≤ c.assetAmount := by simpa using List.find?_some hfind
      refine iff_of_true hcovers ⟨c, ?_, hcovers⟩
      exact (mem_carriers hpos hcovers).mp (List.mem_of_find?_eq_some hfind)

variable (targetValue constraints) in
/-- No other choice could cover more: with merging all carriers are at hand, without merging the
carrier that is taken has the greatest value. -/
theorem choose_both_iff (hpos : 0 < targetAsset) {eligible : List AssetCandidate}
    (hsorted : eligible.Pairwise fun a b => carrierLe a b = true) :
    (targetAsset ≤ assets (choose targetAsset targetValue constraints eligible) ∧
      targetValue ≤ sats (choose targetAsset targetValue constraints eligible)) ↔
      CoversBoth targetAsset targetValue constraints eligible := by
  rw [assets_choose, and_congr_right sats_choose_iff]
  unfold CoversBoth
  by_cases hmerge : constraints.allowAssetMerge = true
  · rw [if_pos hmerge, merge_covers_iff targetValue hmerge, merge_funds_iff hmerge]
  · rw [if_neg hmerge]
    rw [Bool.not_eq_true] at hmerge
    rw [hmerge, chooseAssets_single]
    cases hfind : (carriers eligible).find? fun c => targetAsset ≤ c.assetAmount with
    | none =>
      rw [List.find?_eq_none] at hfind
      refine iff_of_false (fun h => Nat.not_le.mpr hpos h.1) ?_
      rintro ⟨c, hc, hcovers, -⟩
      exact hfind c ((mem_carriers hpos hcovers).mpr hc) (decide_eq_true hcovers)
    | some c =>
      have hcovers : targetAsset ≤ c.assetAmount := by simpa using List.find?_some hfind
      have hc : c ∈ eligible :=
        (mem_carriers hpos hcovers).mp (List.mem_of_find?_eq_some hfind)
      constructor
      · rintro ⟨-, hvalue⟩
        exact ⟨c, hc, hcovers, hvalue⟩
      · rintro ⟨d, hd, hd', hvalue⟩
        have hle := valueSats_le_of_find? (hsorted.filter _) hfind
          ((mem_carriers hpos hd').mpr hd) hd'
        refine ⟨hcovers, ?_⟩
        show targetValue ≤ c.valueSats + 0 + supportSats constraints eligible
        omega

/-! ## Nothing is taken for nothing -/

theorem chooseAssets_minimal (hpos : 0 < targetAsset) {cs taken : List AssetCandidate}
    (h : taken <+: chooseAssets merge targetAsset targetValue cs)
    (hne : taken ≠ chooseAssets merge targetAsset targetValue cs) :
    ¬ (targetAsset ≤ assets taken ∧ targetValue ≤ sats taken) := by
  cases merge with
  | true =>
    rw [show chooseAssets true targetAsset targetValue cs =
      Greedy.fill (enough targetAsset targetValue) gather cs (0, 0) from rfl] at h hne
    have hstop := Greedy.not_stop_of_prefix h hne
    rw [foldl_gather] at hstop
    simpa [enough] using hstop
  | false =>
    rw [chooseAssets_single] at h hne
    cases hfind : cs.find? fun c => targetAsset ≤ c.assetAmount with
    | none =>
      rw [hfind] at h hne
      exact (hne (List.prefix_nil.mp h)).elim
    | some c =>
      rw [hfind] at h hne
      cases taken with
      | nil => exact fun henough => Nat.not_le.mpr hpos henough.1
      | cons d taken =>
        obtain ⟨rfl, htaken⟩ := List.cons_prefix_cons.mp h
        obtain rfl := List.prefix_nil.mp htaken
        exact (hne rfl).elim

theorem chooseFees_minimal {cs taken : List AssetCandidate} {gathered : ℕ}
    (h : taken <+: chooseFees targetValue cs gathered)
    (hne : taken ≠ chooseFees targetValue cs gathered) :
    ¬ targetValue ≤ gathered + sats taken := by
  have hstop := Greedy.not_stop_of_prefix h hne
  rw [foldl_sats] at hstop
  simpa using hstop

/-- No proper prefix of the choice meets both targets. -/
theorem choose_minimal (hpos : 0 < targetAsset) {eligible taken : List AssetCandidate}
    (h : taken <+: choose targetAsset targetValue constraints eligible)
    (hne : taken ≠ choose targetAsset targetValue constraints eligible) :
    ¬ (targetAsset ≤ assets taken ∧ targetValue ≤ sats taken) := by
  unfold choose at h hne
  dsimp only at h hne
  split_ifs at h hne
  · by_cases hfirst : chooseAssets constraints.allowAssetMerge targetAsset targetValue
        (carriers eligible) <+: taken
    · obtain ⟨fees, rfl⟩ := hfirst
      rw [List.prefix_append_right_inj] at h
      rw [sats_append]
      exact fun henough => chooseFees_minimal h (fun heq => hne (congrArg _ heq)) henough.2
    · refine chooseAssets_minimal hpos ?_ fun heq => hfirst (heq ▸ List.prefix_refl _)
      exact (List.prefix_or_prefix_of_prefix h (List.prefix_append _ _)).resolve_right hfirst
  · exact chooseAssets_minimal hpos h hne

theorem carriers_supports (cs : List AssetCandidate) : carriers (supports cs) = [] := by
  unfold carriers supports
  rw [List.filter_filter, List.filter_eq_nil_iff]
  intro c _
  simp only [Bool.and_eq_true, decide_eq_true_eq]
  omega

theorem supports_carriers (cs : List AssetCandidate) : supports (carriers cs) = [] := by
  unfold carriers supports
  rw [List.filter_filter, List.filter_eq_nil_iff]
  intro c _
  simp only [Bool.and_eq_true, decide_eq_true_eq]
  omega

theorem carriers_chooseFees (cs : List AssetCandidate) (gathered : ℕ) :
    carriers (chooseFees targetValue (supports cs) gathered) = [] := by
  have h := (chooseFees_sublist targetValue (supports cs) gathered).filter (·.assetAmount > 0)
  rw [show (supports cs).filter (·.assetAmount > 0) = [] from carriers_supports cs] at h
  exact List.sublist_nil.mp h

/-- Without merging, one asset input is taken. -/
theorem carriers_choose (hpos : 0 < targetAsset) (hmerge : constraints.allowAssetMerge = false)
    {eligible : List AssetCandidate}
    (hcovers : targetAsset ≤ assets (choose targetAsset targetValue constraints eligible)) :
    ∃ c, carriers (choose targetAsset targetValue constraints eligible) = [c] := by
  have hone : ∃ c, carriers (chooseAssets constraints.allowAssetMerge targetAsset targetValue
      (carriers eligible)) = [c] := by
    rw [assets_choose, hmerge, chooseAssets_single] at hcovers
    rw [hmerge, chooseAssets_single]
    cases hfind : (carriers eligible).find? fun c => targetAsset ≤ c.assetAmount with
    | none =>
      rw [hfind] at hcovers
      exact (Nat.not_le.mpr hpos hcovers).elim
    | some c =>
      have hc := (List.mem_filter.mp (List.mem_of_find?_eq_some hfind)).2
      exact ⟨c, List.filter_cons_of_pos hc⟩
  unfold choose
  dsimp only
  split_ifs
  · obtain ⟨c, hc⟩ := hone
    refine ⟨c, ?_⟩
    unfold carriers at hc ⊢
    rw [List.filter_append, hc]
    exact congrArg (c :: ·) (carriers_chooseFees eligible _)
  · exact hone

/-- Without fee support, none is taken. -/
theorem supports_choose (hfee : constraints.allowFeeSupport = false)
    (eligible : List AssetCandidate) :
    supports (choose targetAsset targetValue constraints eligible) = [] := by
  unfold choose
  dsimp only
  rw [if_neg (by simp [hfee])]
  have h := (chooseAssets_sublist constraints.allowAssetMerge targetAsset targetValue
    (carriers eligible)).filter (·.assetAmount = 0)
  rw [show (carriers eligible).filter (·.assetAmount = 0) = [] from supports_carriers eligible] at h
  exact List.sublist_nil.mp h

/-! ## The result -/

theorem find?_outpoint {eligible : List AssetCandidate} {c : AssetCandidate}
    (hnd : (eligible.map (·.outpoint)).Nodup) (hc : c ∈ eligible) :
    eligible.find? (·.outpoint = c.outpoint) = some c := by
  cases hfind : eligible.find? (·.outpoint = c.outpoint) with
  | none => simpa using List.find?_eq_none.mp hfind c hc
  | some d =>
    have hd : d.outpoint = c.outpoint := by simpa using List.find?_some hfind
    exact congrArg some (List.inj_on_of_nodup_map hnd (List.mem_of_find?_eq_some hfind) hc hd)

/-- The inputs that were chosen are found again, and summed up exactly. -/
theorem sumSelected_eq {eligible chosen : List AssetCandidate}
    (hnd : (eligible.map (·.outpoint)).Nodup) (hchosen : ∀ c ∈ chosen, c ∈ eligible) (n m : ℕ) :
    sumSelected eligible (chosen.map (·.outpoint)) n m =
      .ok (n + assets chosen, m + sats chosen) := by
  induction chosen generalizing n m with
  | nil => rfl
  | cons c chosen ih =>
    rw [List.forall_mem_cons] at hchosen
    rw [List.map_cons]
    unfold sumSelected
    rw [find?_outpoint hnd hchosen.1]
    dsimp only
    rw [ih hchosen.2, assets_cons, sats_cons]
    simp only [Nat.add_assoc]

/-- The answer for inputs that were chosen among the candidates. -/
def answer (targetAsset targetValue : ℕ) (chosen : List AssetCandidate) :
    DomainResult (List OutPoint) :=
  if assets chosen < targetAsset then .error (.insufficientAsset targetAsset (assets chosen))
  else if sats chosen < targetValue then .error (.insufficientValue targetValue (sats chosen))
  else .ok (chosen.map (·.outpoint))

theorem checkSums_eq {eligible chosen : List AssetCandidate}
    (hnd : (eligible.map (·.outpoint)).Nodup) (hchosen : ∀ c ∈ chosen, c ∈ eligible) :
    checkSums eligible (chosen.map (·.outpoint)) targetAsset targetValue =
      answer targetAsset targetValue chosen := by
  unfold checkSums answer
  rw [sumSelected_eq hnd hchosen, Nat.zero_add, Nat.zero_add]
  rfl

theorem validateInputs_ok (hpos : 0 < targetAsset)
    (hnd : (candidates.map (·.outpoint)).Nodup) (hexact : constraints.exactOutpoints = none) :
    validateInputs (candidates.map (·.outpoint)) targetAsset constraints = .ok () := by
  refine validateInputs_eq_ok_iff.mpr ⟨hpos.ne', hnd, fun exact h => ?_⟩
  rw [hexact] at h
  cases h

/-- The candidates in the order of automatic selection. -/
def ranked (candidates : List AssetCandidate) : List AssetCandidate :=
  candidates.insertionSort fun a b => carrierLe a b = true

theorem ranked_perm (candidates : List AssetCandidate) : (ranked candidates).Perm candidates :=
  List.perm_insertionSort _ _

theorem ranked_pairwise (candidates : List AssetCandidate) :
    (ranked candidates).Pairwise fun a b => carrierLe a b = true := by
  have htotal : Std.Total fun a b : AssetCandidate => carrierLe a b = true := by
    refine ⟨fun a b => ?_⟩
    simp only [carrierLe, decide_eq_true_eq]
    rcases Nat.lt_trichotomy a.valueSats b.valueSats with hlt | heq | hlt
    · exact .inr (.inl hlt)
    · exact (le_total a.outpoint.display b.outpoint.display).imp (fun h => .inr ⟨heq, h⟩)
        fun h => .inr ⟨heq.symm, h⟩
    · exact .inl (.inl hlt)
  have htrans : IsTrans AssetCandidate fun a b => carrierLe a b = true := by
    refine ⟨fun a b c hab hbc => ?_⟩
    simp only [carrierLe, decide_eq_true_eq] at hab hbc ⊢
    rcases hab with hab | ⟨hab, hab'⟩
    · omega
    · rcases hbc with hbc | ⟨hbc, hbc'⟩
      · omega
      · exact .inr ⟨hab.trans hbc, hab'.trans hbc'⟩
  exact List.pairwise_insertionSort _ _

variable (targetValue) in
theorem select_automatic_eq (hpos : 0 < targetAsset) (hexact : constraints.exactOutpoints = none)
    (hnd : (candidates.map (·.outpoint)).Nodup) :
    select candidates targetAsset targetValue constraints =
      answer targetAsset targetValue
        (choose targetAsset targetValue constraints (ranked candidates)) := by
  have hnd' : ((ranked candidates).map (·.outpoint)).Nodup :=
    ((ranked_perm candidates).map _).nodup_iff.mpr hnd
  rw [← checkSums_eq hnd' fun c hc => choose_mem hc, ← selectAutomatic_eq hpos]
  unfold select
  rw [validateInputs_ok hpos hnd hexact, hexact]
  rfl

/-! ### Independence of the order -/

theorem assets_perm {cs cs' : List AssetCandidate} (h : cs.Perm cs') : assets cs = assets cs' :=
  (h.map _).sum_nat

theorem sats_perm {cs cs' : List AssetCandidate} (h : cs.Perm cs') : sats cs = sats cs' :=
  (h.map _).sum_nat

theorem carriers_perm {cs cs' : List AssetCandidate} (h : cs.Perm cs') :
    (carriers cs).Perm (carriers cs') := h.filter _

theorem supports_perm {cs cs' : List AssetCandidate} (h : cs.Perm cs') :
    (supports cs).Perm (supports cs') := h.filter _

theorem supportSats_perm {cs cs' : List AssetCandidate} (h : cs.Perm cs') :
    supportSats constraints cs = supportSats constraints cs' := by
  unfold supportSats
  rw [sats_perm (supports_perm h)]

variable (targetAsset constraints) in
theorem coversAsset_perm {cs cs' : List AssetCandidate} (h : cs.Perm cs') :
    CoversAsset targetAsset constraints cs ↔ CoversAsset targetAsset constraints cs' := by
  unfold CoversAsset
  rw [assets_perm h]
  simp only [h.mem_iff]

variable (targetAsset targetValue constraints) in
theorem coversBoth_perm {cs cs' : List AssetCandidate} (h : cs.Perm cs') :
    CoversBoth targetAsset targetValue constraints cs ↔
      CoversBoth targetAsset targetValue constraints cs' := by
  unfold CoversBoth
  rw [assets_perm h, supportSats_perm h, sats_perm (carriers_perm h)]
  simp only [h.mem_iff]

/-- The text of the outpoints breaks every tie. -/
theorem ranked_eq_of_perm {candidates' : List AssetCandidate}
    (hnd : (candidates.map (·.outpoint)).Nodup) (h : candidates.Perm candidates') :
    ranked candidates = ranked candidates' := by
  have hperm := (ranked_perm candidates).trans (h.trans (ranked_perm candidates').symm)
  refine List.Perm.eq_of_pairwise (fun a b ha hb hab hba => ?_) (ranked_pairwise _)
    (ranked_pairwise _) hperm
  simp only [carrierLe, decide_eq_true_eq] at hab hba
  have hdisplay : a.outpoint.display = b.outpoint.display := by
    rcases hab with hab | ⟨heq, hab⟩
    · rcases hba with hba | ⟨heq, -⟩ <;> omega
    · rcases hba with hba | ⟨-, hba⟩
      · omega
      · exact le_antisymm hab hba
  have hb' := h.symm.subset ((ranked_perm candidates').subset hb)
  exact List.inj_on_of_nodup_map hnd ((ranked_perm candidates).subset ha) hb'
    (OutPoint.display_injective hdisplay)

/-! ### Exact selection -/

theorem checkAvailable_eq_ok_iff {outpoints : List OutPoint} :
    checkAvailable candidates outpoints = .ok () ↔
      ∀ o ∈ outpoints, o ∈ candidates.map (·.outpoint) := by
  refine ⟨checkAvailable_mem, fun h => ?_⟩
  induction outpoints with
  | nil => rfl
  | cons o outpoints ih =>
    rw [List.forall_mem_cons] at h
    obtain ⟨c, hc, ho⟩ := List.mem_map.mp h.1
    have hany : candidates.any (·.outpoint = o) = true :=
      List.any_eq_true.mpr ⟨c, hc, decide_eq_true ho⟩
    unfold checkAvailable
    rw [hany]
    exact ih h.2

theorem checkFeeSupport_eq_ok_iff {outpoints : List OutPoint} {allowFeeSupport : Bool} :
    checkFeeSupport outpoints allowFeeSupport candidates = .ok () ↔
      ∀ c ∈ candidates, c.outpoint ∈ outpoints → allowFeeSupport = false → 0 < c.assetAmount := by
  induction candidates with
  | nil => exact iff_of_true rfl fun _ h => (List.not_mem_nil h).elim
  | cons c candidates ih =>
    rw [List.forall_mem_cons, ← ih, show checkFeeSupport outpoints allowFeeSupport (c :: candidates)
      = if c.outpoint ∈ outpoints ∧ c.assetAmount = 0 ∧ (!allowFeeSupport) = true then _
        else checkFeeSupport outpoints allowFeeSupport candidates from rfl]
    split_ifs with hblocked
    · obtain ⟨hmem, hzero, hfee⟩ := hblocked
      refine iff_of_false (fun h => by cases h) fun h => ?_
      have := h.1 hmem (by simpa using hfee)
      omega
    · refine (and_iff_right fun hmem hfee => ?_).symm
      refine Nat.pos_of_ne_zero fun hzero => hblocked ⟨hmem, hzero, ?_⟩
      rw [hfee]
      rfl

theorem answer_eq_insufficientAsset_iff {chosen : List AssetCandidate} :
    (∃ n, answer targetAsset targetValue chosen = .error (.insufficientAsset targetAsset n)) ↔
      ¬ targetAsset ≤ assets chosen := by
  unfold answer
  split_ifs with hassets hsats
  · exact iff_of_true ⟨_, rfl⟩ (by omega)
  · refine iff_of_false (fun ⟨n, h⟩ => by cases h) ?_
    omega
  · refine iff_of_false (fun ⟨n, h⟩ => by cases h) ?_
    omega

theorem answer_eq_insufficientValue_iff {chosen : List AssetCandidate} :
    (∃ n, answer targetAsset targetValue chosen = .error (.insufficientValue targetValue n)) ↔
      targetAsset ≤ assets chosen ∧
        ¬ (targetAsset ≤ assets chosen ∧ targetValue ≤ sats chosen) := by
  unfold answer
  split_ifs with hassets hsats
  · refine iff_of_false (fun ⟨n, h⟩ => by cases h) ?_
    omega
  · exact iff_of_true ⟨_, rfl⟩ (by omega)
  · refine iff_of_false (fun ⟨n, h⟩ => by cases h) ?_
    omega

theorem answer_eq_ok_iff {chosen : List AssetCandidate} {selected : List OutPoint} :
    answer targetAsset targetValue chosen = .ok selected ↔
      selected = chosen.map (·.outpoint) ∧ targetAsset ≤ assets chosen ∧
        targetValue ≤ sats chosen := by
  unfold answer
  split_ifs with hassets hsats
  · refine iff_of_false (fun h => by cases h) fun h => ?_
    omega
  · refine iff_of_false (fun h => by cases h) fun h => ?_
    omega
  · rw [Except.ok.injEq, eq_comm]
    exact (and_iff_left ⟨by omega, by omega⟩).symm

/-- Inputs found among the candidates. -/
theorem exists_chosen {outpoints : List OutPoint}
    (h : ∀ o ∈ outpoints, o ∈ candidates.map (·.outpoint)) :
    ∃ chosen : List AssetCandidate, chosen.map (·.outpoint) = outpoints ∧
      ∀ c ∈ chosen, c ∈ candidates := by
  induction outpoints with
  | nil => exact ⟨[], rfl, fun _ h => (List.not_mem_nil h).elim⟩
  | cons o outpoints ih =>
    rw [List.forall_mem_cons] at h
    obtain ⟨c, hc, rfl⟩ := List.mem_map.mp h.1
    obtain ⟨chosen, rfl, hchosen⟩ := ih h.2
    exact ⟨c :: chosen, rfl, List.forall_mem_cons.mpr ⟨hc, hchosen⟩⟩

/-- The inputs that exact selection asks for can be selected. -/
structure Admits (candidates : List AssetCandidate) (targetAsset targetValue : ℕ)
    (constraints : AssetSelectionConstraints) (exact : List OutPoint)
    (chosen : List AssetCandidate) : Prop where
  outpoints : chosen.map (·.outpoint) = exact
  mem : ∀ c ∈ chosen, c ∈ candidates
  fees : constraints.allowFeeSupport = false → ∀ c ∈ chosen, 0 < c.assetAmount
  asset : targetAsset ≤ assets chosen
  value : targetValue ≤ sats chosen

theorem select_exact_iff {exact selected : List OutPoint}
    (hexact : constraints.exactOutpoints = some exact)
    (hnd : (candidates.map (·.outpoint)).Nodup) :
    select candidates targetAsset targetValue constraints = .ok selected ↔
      targetAsset ≠ 0 ∧ selected = exact ∧ exact ≠ [] ∧ exact.Nodup ∧
        ∃ chosen, Admits candidates targetAsset targetValue constraints exact chosen := by
  have hselect : select candidates targetAsset targetValue constraints = .ok selected ↔
      validateInputs (candidates.map (·.outpoint)) targetAsset constraints = .ok () ∧
        checkAvailable candidates exact = .ok () ∧
        checkFeeSupport exact constraints.allowFeeSupport candidates = .ok () ∧
        checkSums candidates exact targetAsset targetValue = .ok selected := by
    unfold select
    rw [hexact]
    simp only [bind_eq_ok]
    constructor
    · rintro ⟨_, hvalid, _, havailable, _, hfees, hsums⟩
      exact ⟨hvalid, havailable, hfees, hsums⟩
    · rintro ⟨hvalid, havailable, hfees, hsums⟩
      exact ⟨(), hvalid, (), havailable, (), hfees, hsums⟩
  rw [hselect, validateInputs_eq_ok_iff, checkAvailable_eq_ok_iff, checkFeeSupport_eq_ok_iff]
  constructor
  · rintro ⟨⟨ht, -, hvalid⟩, havailable, hfees, hsums⟩
    obtain ⟨chosen, rfl, hchosen⟩ := exists_chosen havailable
    obtain ⟨hne, hexactnd⟩ := hvalid _ hexact
    rw [checkSums_eq hnd hchosen, answer_eq_ok_iff] at hsums
    obtain ⟨rfl, hasset, hvalue⟩ := hsums
    refine ⟨ht, rfl, hne, hexactnd, chosen, rfl, hchosen, fun hfee c hc => ?_, hasset, hvalue⟩
    exact hfees c (hchosen c hc) (List.mem_map_of_mem hc) hfee
  · rintro ⟨ht, rfl, hne, hexactnd, chosen, rfl, hchosen, hfees, hasset, hvalue⟩
    refine ⟨⟨ht, hnd, fun exact h => ?_⟩, fun o ho => ?_, fun c hc ho hfee => ?_, ?_⟩
    · rw [hexact, Option.some.injEq] at h
      exact h ▸ ⟨hne, hexactnd⟩
    · obtain ⟨c, hc, rfl⟩ := List.mem_map.mp ho
      exact List.mem_map_of_mem (hchosen c hc)
    · obtain ⟨d, hd, heq⟩ := List.mem_map.mp ho
      rw [← List.inj_on_of_nodup_map hnd (hchosen d hd) hc heq]
      exact hfees hfee d hd
    · rw [checkSums_eq hnd hchosen, answer_eq_ok_iff]
      exact ⟨rfl, hasset, hvalue⟩

/-! ## What is selected, without the passes -/

/-- The asset inputs taken from candidates in their rank: with merging the fewest that meet both
targets, or all of them, and otherwise the first that covers the amount alone. -/
def PicksAssets (targetAsset targetValue : ℕ) (constraints : AssetSelectionConstraints)
    (ranked first : List AssetCandidate) : Prop :=
  if constraints.allowAssetMerge then
    Greedy.Fills (enough targetAsset targetValue) gather (0, 0) ranked first
  else ∃ c before after, ranked = before ++ c :: after ∧ first = [c] ∧
    targetAsset ≤ c.assetAmount ∧ ∀ b ∈ before, b.assetAmount < targetAsset

/-- The fee-support inputs taken after `first`: the fewest that reach the value, or all of them, if
they are allowed. -/
def PicksFees (targetValue : ℕ) (constraints : AssetSelectionConstraints)
    (ranked first fees : List AssetCandidate) : Prop :=
  if constraints.allowFeeSupport then
    Greedy.Fills (fun n => decide (n ≥ targetValue)) (fun n c => n + c.valueSats) (sats first)
      ranked fees
  else fees = []

/-- The inputs that automatic selection takes from the candidates. -/
structure Picks (candidates : List AssetCandidate) (targetAsset targetValue : ℕ)
    (constraints : AssetSelectionConstraints) (chosen : List AssetCandidate) : Prop where
  asset : targetAsset ≤ assets chosen
  value : targetValue ≤ sats chosen
  parts : ∃ first fees, chosen = first ++ fees ∧
    PicksAssets targetAsset targetValue constraints (carriers (ranked candidates)) first ∧
    PicksFees targetValue constraints (supports (ranked candidates)) first fees

theorem picksAssets_iff {cs first : List AssetCandidate} (hcovers : targetAsset ≤ assets first)
    (hpos : 0 < targetAsset) :
    PicksAssets targetAsset targetValue constraints cs first ↔
      first = chooseAssets constraints.allowAssetMerge targetAsset targetValue cs := by
  unfold PicksAssets chooseAssets
  split_ifs
  · exact Greedy.fills_iff
  · constructor
    · rintro ⟨c, before, after, rfl, rfl, hc, hbefore⟩
      have hfind : (before ++ c :: after).find? (fun c => targetAsset ≤ c.assetAmount) = some c :=
        List.find?_eq_some_iff_append.mpr ⟨decide_eq_true hc, before, after, rfl, fun b hb => by
          simpa using hbefore b hb⟩
      rw [hfind]
      rfl
    · intro hfirst
      cases hfind : cs.find? fun c => targetAsset ≤ c.assetAmount with
      | none =>
        rw [hfirst, hfind] at hcovers
        exact absurd hcovers (Nat.not_le.mpr hpos)
      | some c =>
        rw [hfind] at hfirst
        obtain ⟨hc, before, after, hcs, hbefore⟩ := List.find?_eq_some_iff_append.mp hfind
        exact ⟨c, before, after, hcs, hfirst, of_decide_eq_true hc, fun b hb => by
          simpa using hbefore b hb⟩

theorem picksFees_iff {cs first fees : List AssetCandidate} :
    PicksFees targetValue constraints cs first fees ↔
      fees = if constraints.allowFeeSupport then chooseFees targetValue cs (sats first) else [] := by
  unfold PicksFees chooseFees
  split_ifs
  · exact Greedy.fills_iff
  · exact .rfl

/-- What is picked is what the passes choose, if that meets the targets. -/
theorem picks_iff (hpos : 0 < targetAsset) {chosen : List AssetCandidate} :
    Picks candidates targetAsset targetValue constraints chosen ↔
      chosen = choose targetAsset targetValue constraints (ranked candidates) ∧
        targetAsset ≤ assets chosen ∧ targetValue ≤ sats chosen := by
  have hchoose : ∀ {first : List AssetCandidate}, first = chooseAssets constraints.allowAssetMerge
      targetAsset targetValue (carriers (ranked candidates)) → targetAsset ≤ assets first →
        choose targetAsset targetValue constraints (ranked candidates) = first ++
          if constraints.allowFeeSupport then
            chooseFees targetValue (supports (ranked candidates)) (sats first) else [] := by
    rintro _ rfl hcovers
    unfold choose
    dsimp only
    by_cases hfee : constraints.allowFeeSupport = true
    · rw [if_pos (by simp [hcovers, hfee]), if_pos hfee]
    · rw [if_neg (by simp [hfee]), if_neg hfee, List.append_nil]
  have hfees : ∀ first : List AssetCandidate, assets (if constraints.allowFeeSupport then
      chooseFees targetValue (supports (ranked candidates)) (sats first) else []) = 0 := by
    intro first
    split_ifs
    · exact assets_chooseFees _ _
    · rfl
  constructor
  · rintro ⟨hasset, hvalue, first, fees, rfl, hfirst, hrest⟩
    rw [picksFees_iff] at hrest
    have hcovers : targetAsset ≤ assets first := by
      rwa [assets_append, hrest, hfees, Nat.add_zero] at hasset
    refine ⟨?_, hasset, hvalue⟩
    rw [hchoose ((picksAssets_iff hcovers hpos).mp hfirst) hcovers, hrest]
  · rintro ⟨rfl, hasset, hvalue⟩
    have hcovers := hasset
    rw [assets_choose] at hcovers
    exact ⟨hasset, hvalue, _, _, hchoose rfl hcovers, (picksAssets_iff hcovers hpos).mpr rfl,
      picksFees_iff.mpr rfl⟩

/-- The inputs taken from the candidates: those that are asked for, if they are enough, or those
that are picked. -/
def Takes (candidates : List AssetCandidate) (targetAsset targetValue : ℕ)
    (constraints : AssetSelectionConstraints) (selected : List OutPoint) : Prop :=
  ∃ chosen : List AssetCandidate, selected = chosen.map (·.outpoint) ∧
    match constraints.exactOutpoints with
    | some exact => exact ≠ [] ∧ exact.Nodup ∧
      Admits candidates targetAsset targetValue constraints exact chosen
    | none => Picks candidates targetAsset targetValue constraints chosen

theorem select_iff_takes (hpos : 0 < targetAsset) (hnd : (candidates.map (·.outpoint)).Nodup)
    {selected : List OutPoint} :
    select candidates targetAsset targetValue constraints = .ok selected ↔
      Takes candidates targetAsset targetValue constraints selected := by
  unfold Takes
  cases hexact : constraints.exactOutpoints with
  | some exact =>
    rw [select_exact_iff hexact hnd]
    constructor
    · rintro ⟨-, rfl, hne, hdistinct, chosen, hchosen⟩
      exact ⟨chosen, hchosen.outpoints.symm, hne, hdistinct, hchosen⟩
    · rintro ⟨chosen, rfl, hne, hdistinct, hchosen⟩
      exact ⟨hpos.ne', hchosen.outpoints, hne, hdistinct, chosen, hchosen⟩
  | none =>
    rw [select_automatic_eq targetValue hpos hexact hnd, answer_eq_ok_iff]
    simp only [picks_iff hpos]
    constructor
    · rintro ⟨rfl, hasset, hvalue⟩
      exact ⟨_, rfl, rfl, hasset, hvalue⟩
    · rintro ⟨chosen, rfl, rfl, hasset, hvalue⟩
      exact ⟨rfl, hasset, hvalue⟩

/-- In which order the candidates are listed makes no difference. -/
theorem Takes.perm {candidates' : List AssetCandidate} {selected : List OutPoint}
    (hnd : (candidates.map (·.outpoint)).Nodup) (hperm : candidates.Perm candidates')
    (h : Takes candidates targetAsset targetValue constraints selected) :
    Takes candidates' targetAsset targetValue constraints selected := by
  obtain ⟨chosen, rfl, h⟩ := h
  refine ⟨chosen, rfl, ?_⟩
  cases hexact : constraints.exactOutpoints with
  | some exact =>
    rw [hexact] at h
    obtain ⟨hne, hdistinct, hchosen⟩ := h
    exact ⟨hne, hdistinct, { hchosen with mem := fun c hc => hperm.subset (hchosen.mem c hc) }⟩
  | none =>
    rw [hexact] at h
    obtain ⟨hasset, hvalue, hparts⟩ := h
    exact ⟨hasset, hvalue, ranked_eq_of_perm hnd hperm ▸ hparts⟩

/-! ## Main results -/

/-- What automatic selection owes the caller for the inputs it returns. -/
structure Selects (candidates : List AssetCandidate) (targetAsset targetValue : ℕ)
    (constraints : AssetSelectionConstraints) (chosen : List AssetCandidate) : Prop where
  nodup : (chosen.map (·.outpoint)).Nodup
  mem : ∀ c ∈ chosen, c ∈ candidates
  asset : targetAsset ≤ assets chosen
  value : targetValue ≤ sats chosen
  single : constraints.allowAssetMerge = false → ∃ c, carriers chosen = [c]
  fees : constraints.allowFeeSupport = false → supports chosen = []
  /-- No proper prefix meets both targets. -/
  minimal : ∀ taken, taken <+: chosen → taken ≠ chosen →
    ¬ (targetAsset ≤ assets taken ∧ targetValue ≤ sats taken)

theorem choose_selects (hpos : 0 < targetAsset) (hnd : (candidates.map (·.outpoint)).Nodup)
    (hsel : select candidates targetAsset targetValue constraints =
      .ok ((choose targetAsset targetValue constraints (ranked candidates)).map (·.outpoint)))
    (hexact : constraints.exactOutpoints = none) :
    Selects candidates targetAsset targetValue constraints
      (choose targetAsset targetValue constraints (ranked candidates)) := by
  have hmeets := hsel
  rw [select_automatic_eq targetValue hpos hexact hnd, answer_eq_ok_iff] at hmeets
  obtain ⟨-, hasset, hvalue⟩ := hmeets
  exact {
    nodup := (select_ok hsel).2.1
    mem := fun c hc => (ranked_perm candidates).subset (choose_mem hc)
    asset := hasset
    value := hvalue
    single := fun hmerge => carriers_choose hpos hmerge hasset
    fees := fun hfee => supports_choose hfee _
    minimal := fun _ h hne => choose_minimal hpos h hne }

/-- Selection is sound and complete. Automatic selection succeeds whenever a selection of its kind
can, and takes no input too many; exact selection takes what it is told whenever that is enough. -/
theorem select_sound_complete (hpos : 0 < targetAsset)
    (hnd : (candidates.map (·.outpoint)).Nodup) :
    (constraints.exactOutpoints = none →
      ((∃ selected, select candidates targetAsset targetValue constraints = .ok selected) ↔
        CoversBoth targetAsset targetValue constraints candidates) ∧
      ((∃ n, select candidates targetAsset targetValue constraints =
          .error (.insufficientAsset targetAsset n)) ↔
        ¬ CoversAsset targetAsset constraints candidates) ∧
      ((∃ n, select candidates targetAsset targetValue constraints =
          .error (.insufficientValue targetValue n)) ↔
        CoversAsset targetAsset constraints candidates ∧
          ¬ CoversBoth targetAsset targetValue constraints candidates) ∧
      ∀ selected, select candidates targetAsset targetValue constraints = .ok selected →
        ∃ chosen, selected = chosen.map (·.outpoint) ∧
          Selects candidates targetAsset targetValue constraints chosen) ∧
    ∀ exact, constraints.exactOutpoints = some exact →
      ∀ selected, select candidates targetAsset targetValue constraints = .ok selected ↔
        selected = exact ∧ exact ≠ [] ∧ exact.Nodup ∧
          ∃ chosen, Admits candidates targetAsset targetValue constraints exact chosen := by
  refine ⟨fun hexact => ?_, fun exact hexact selected => ?_⟩
  · have hasset := (choose_covers_iff targetValue constraints hpos (ranked candidates)).trans
      (coversAsset_perm targetAsset constraints (ranked_perm candidates))
    have hboth := (choose_both_iff targetValue constraints hpos (ranked_pairwise candidates)).trans
      (coversBoth_perm targetAsset targetValue constraints (ranked_perm candidates))
    have hselect := select_automatic_eq targetValue hpos hexact hnd
    have hok : ∀ selected, select candidates targetAsset targetValue constraints = .ok selected ↔
        selected = (choose targetAsset targetValue constraints (ranked candidates)).map (·.outpoint)
          ∧ CoversBoth targetAsset targetValue constraints candidates := by
      intro selected
      rw [hselect, answer_eq_ok_iff, hboth]
    refine ⟨?_, ?_, ?_, fun selected h => ?_⟩
    · simp only [hok, exists_eq_left]
    · rw [hselect, answer_eq_insufficientAsset_iff, hasset]
    · rw [hselect, answer_eq_insufficientValue_iff, hboth, hasset]
    · obtain ⟨rfl, -⟩ := (hok selected).mp h
      exact ⟨_, rfl, choose_selects hpos hnd h hexact⟩
  · rw [select_exact_iff hexact hnd]
    exact and_iff_right hpos.ne'

namespace Sample

/-- Two carriers, of which none covers the amount alone, and a fee-support input. -/
def offered : List AssetCandidate := [⟨⟨"a", 0⟩, 3, 5⟩, ⟨⟨"b", 0⟩, 4, 5⟩, ⟨⟨"c", 0⟩, 0, 9⟩]

end Sample

/-- Merging finds a selection where a single input is not enough. -/
theorem select_merges : (∃ selected,
    select Sample.offered 5 12 ⟨none, true, true⟩ = .ok selected) ∧
    ∃ n, select Sample.offered 5 12 ⟨none, false, true⟩ = .error (.insufficientAsset 5 n) := by
  have hmerge := (@select_sound_complete 5 12 Sample.offered ⟨none, true, true⟩ (by decide)
    (by decide)).1 rfl
  have hsingle := (@select_sound_complete 5 12 Sample.offered ⟨none, false, true⟩ (by decide)
    (by decide)).1 rfl
  exact ⟨hmerge.1.mpr (by decide), hsingle.2.1.mpr (by decide)⟩

/-- The order in which the candidates are supplied makes no difference. -/
theorem select_perm {candidates' : List AssetCandidate}
    (hnd : (candidates.map (·.outpoint)).Nodup) (hperm : candidates.Perm candidates') :
    (constraints.exactOutpoints = none →
      select candidates targetAsset targetValue constraints =
        select candidates' targetAsset targetValue constraints) ∧
    (constraints.exactOutpoints ≠ none →
      ∀ selected, select candidates targetAsset targetValue constraints = .ok selected ↔
        select candidates' targetAsset targetValue constraints = .ok selected) := by
  have hnd' : (candidates'.map (·.outpoint)).Nodup := (hperm.map _).nodup_iff.mp hnd
  refine ⟨fun hexact => ?_, fun hexact selected => ?_⟩
  · have hvalid : validateInputs (candidates.map (·.outpoint)) targetAsset constraints =
        validateInputs (candidates'.map (·.outpoint)) targetAsset constraints := by
      unfold validateInputs
      rw [if_neg (not_not.mpr hnd), if_neg (not_not.mpr hnd')]
    have hranked : candidates.insertionSort (fun a b => carrierLe a b = true) =
        candidates'.insertionSort fun a b => carrierLe a b = true := ranked_eq_of_perm hnd hperm
    unfold select
    rw [hvalid, hexact]
    dsimp only
    rw [hranked]
  · obtain ⟨exact, hexact⟩ := Option.ne_none_iff_exists'.mp hexact
    rw [select_exact_iff hexact hnd, select_exact_iff hexact hnd']
    have hadmits : ∀ chosen, Admits candidates targetAsset targetValue constraints exact chosen ↔
        Admits candidates' targetAsset targetValue constraints exact chosen := fun chosen =>
      ⟨fun h => { h with mem := fun c hc => hperm.subset (h.mem c hc) },
        fun h => { h with mem := fun c hc => hperm.symm.subset (h.mem c hc) }⟩
    simp only [hadmits]

/-- The two carriers of equal value are told apart by their text, whoever comes first. -/
theorem select_reversed : select Sample.offered 5 12 ⟨none, true, true⟩ =
    select Sample.offered.reverse 5 12 ⟨none, true, true⟩ :=
  (select_perm (by decide) (List.reverse_perm _).symm).1 rfl

end AssetSelectionPolicy

end Txoscope
