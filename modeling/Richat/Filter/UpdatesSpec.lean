import Richat.Filter.Updates
import Richat.Lib.Fallible

/-!
# A filter that was accepted

What the checks of a configuration leave for the threads that run it (`ClientFilter.new`, `getUpdatesRef`). The arrays
of a fixed size have room for every accepted filter, but the bounds of a slice are only added if another slice comes
after it, and the offset of a comparison is never added to its length before an account is compared. `Serves` is
what is promised, `Fits` when it is kept.
-/

namespace Richat.Filter

open Lib

theorem checkedAdd_eq_ok {a b c : ℕ} : checkedAdd a b = .ok c ↔ a + b < 2 ^ 64 ∧ a + b = c := by
  unfold checkedAdd
  split
  · rename_i hfits
    rw [Except.ok.injEq, and_iff_right hfits]
  · rename_i hfits
    simp only [hfits, false_and, reduceCtorEq]

/-! ### What an accounts filter is for -/

def ConfigFilterAccountsFilterLamports.Holds (lamports : UInt64) : ConfigFilterAccountsFilterLamports → Prop
  | eq value => lamports = value
  | ne value => lamports ≠ value
  | lt value => lamports < value
  | gt value => value < lamports

/-- The bytes stand in the data at the offset. -/
def MemcmpMatches (data : Bytes) (memcmp : UInt64 × Bytes) : Prop :=
  memcmp.1.toNat + memcmp.2.length ≤ data.length ∧
    slice data ⟨memcmp.1.toNat, memcmp.1.toNat + memcmp.2.length⟩ = memcmp.2

namespace ConfigFilterAccountsFilter

/-- The filter matches an account. -/
def Matches (validAccountData : Bytes → Bool) (lamports : UInt64) (data : Bytes) :
    ConfigFilterAccountsFilter → Prop
  | memcmp offset bytes => MemcmpMatches data (offset, bytes)
  | dataSize size => data.length = size.toNat
  | tokenAccountState => validAccountData data = true
  | .lamports cmp => cmp.Holds lamports

def memcmp? : ConfigFilterAccountsFilter → Option (UInt64 × Bytes)
  | memcmp offset bytes => some (offset, bytes)
  | _ => none

def dataSize? : ConfigFilterAccountsFilter → Option UInt64
  | dataSize size => some size
  | _ => none

def lamports? : ConfigFilterAccountsFilter → Option FilterAccountsLamports
  | lamports cmp => some (.ofConfig cmp)
  | _ => none

def isTokenAccountState : ConfigFilterAccountsFilter → Bool
  | tokenAccountState => true
  | _ => false

/-- It fits into the arrays. -/
def Sized : ConfigFilterAccountsFilter → Prop
  | memcmp _ bytes => bytes.length ≤ maxDataSize
  | _ => True

end ConfigFilterAccountsFilter

open ConfigFilterAccountsFilter

/-! ### The state of an accounts filter -/

/-- The state holds the filters. -/
structure FilterAccountsState.Holds (state : FilterAccountsState) (filters : List ConfigFilterAccountsFilter) :
    Prop where
  memcmp : state.memcmp.val.map (fun p => (p.1, p.2.val)) = filters.filterMap memcmp?
  datasize : state.datasize = (filters.filterMap dataSize?).getLast?
  tokenAccountState : state.tokenAccountState = filters.any isTokenAccountState
  lamports : state.lamports.val = filters.filterMap lamports?

namespace FilterAccountsState

theorem holds_default : default.Holds [] := ⟨rfl, rfl, rfl, rfl⟩

theorem length_memcmp {state : FilterAccountsState} {filters : List ConfigFilterAccountsFilter}
    (h : state.Holds filters) : state.memcmp.val.length ≤ filters.length := by
  have hlen := congrArg List.length h.memcmp
  rw [List.length_map] at hlen
  exact hlen ▸ List.length_filterMap_le memcmp? filters

theorem length_lamports {state : FilterAccountsState} {filters : List ConfigFilterAccountsFilter}
    (h : state.Holds filters) : state.lamports.val.length ≤ filters.length :=
  h.lamports ▸ List.length_filterMap_le lamports? filters

/-- There is room for one more. -/
theorem add_holds {state : FilterAccountsState} {filters : List ConfigFilterAccountsFilter}
    {filter : ConfigFilterAccountsFilter} (h : state.Holds filters) (hroom : filters.length < maxFilters)
    (hsized : filter.Sized) : ∃ state', state.add filter = .ok state' ∧ state'.Holds (filters ++ [filter]) := by
  cases filter with
  | memcmp offset bytes =>
    have hbytes : bytes.length ≤ maxDataSize := hsized
    have hfree : state.memcmp.val.length < maxFilters := (length_memcmp h).trans_lt hroom
    refine ⟨_, by simp only [add, ArrayVec.collect, dif_pos hbytes, ArrayVec.push, dif_pos hfree]; rfl, ?_⟩
    constructor
    · simp [h.memcmp, memcmp?]
    · simp [h.datasize, dataSize?]
    · simp [h.tokenAccountState, isTokenAccountState]
    · simp [h.lamports, lamports?]
  | dataSize size =>
    refine ⟨_, rfl, ?_⟩
    constructor
    · simp [h.memcmp, memcmp?]
    · simp [dataSize?]
    · simp [h.tokenAccountState, isTokenAccountState]
    · simp [h.lamports, lamports?]
  | tokenAccountState =>
    refine ⟨_, rfl, ?_⟩
    constructor
    · simp [h.memcmp, memcmp?]
    · simp [h.datasize, dataSize?]
    · simp [isTokenAccountState]
    · simp [h.lamports, lamports?]
  | lamports cmp =>
    have hfree : state.lamports.val.length < maxFilters := (length_lamports h).trans_lt hroom
    refine ⟨_, by simp only [add, ArrayVec.push, dif_pos hfree]; rfl, ?_⟩
    constructor
    · simp [h.memcmp, memcmp?]
    · simp [h.datasize, dataSize?]
    · simp [h.tokenAccountState, isTokenAccountState]
    · simp [h.lamports, lamports?]

/-- Every accepted list of filters fits into the arrays. -/
theorem new_holds {filters : List ConfigFilterAccountsFilter} (hmax : filters.length ≤ maxFilters)
    (hsized : ∀ filter ∈ filters, filter.Sized) : ∃ state, new filters = .ok state ∧ state.Holds filters := by
  induction filters using List.reverseRecOn with
  | nil => exact ⟨default, rfl, holds_default⟩
  | append_singleton filters filter ih =>
    rw [List.length_append, List.length_singleton] at hmax
    obtain ⟨state, hnew, hholds⟩ := ih (by omega) fun f hf => hsized f (List.mem_append_left _ hf)
    obtain ⟨state', hadd, hholds'⟩ := add_holds hholds (by omega) (hsized filter (by simp))
    refine ⟨state', ?_, hholds'⟩
    rw [new, List.foldlM_append, show filters.foldlM add default = .ok state from hnew]
    simp [bind, Except.bind, hadd, pure, Except.pure]

end FilterAccountsState

/-! ### Matching -/

/-- No sum of offset and length overflows, of those that are reached. -/
def MemcmpFits (data : Bytes) : List (UInt64 × Bytes) → Prop
  | [] => True
  | p :: rest => p.1.toNat + p.2.length < 2 ^ 64 ∧ (MemcmpMatches data p → MemcmpFits data rest)

/-- The comparisons fit, or another filter does not match before they are made. -/
def FiltersFit (validAccountData : Bytes → Bool) (lamports : UInt64) (data : Bytes)
    (filters : List ConfigFilterAccountsFilter) : Prop :=
  (∀ f ∈ filters, f.memcmp? = none → f.Matches validAccountData lamports data) →
    MemcmpFits data (filters.filterMap memcmp?)

namespace FilterAccountsState

theorem memcmpMatch_eq_ok {data : Bytes} {list : List (UInt64 × ArrayVec UInt8 maxDataSize)} {found : Bool} :
    memcmpMatch data list = .ok found ↔
      MemcmpFits data (list.map fun p => (p.1, p.2.val)) ∧
        (found = true ↔ ∀ p ∈ list.map fun p => (p.1, p.2.val), MemcmpMatches data p) := by
  induction list with
  | nil => simp [memcmpMatch, MemcmpFits, eq_comm]
  | cons p list ih =>
    obtain ⟨offset, bytes⟩ := p
    rw [memcmpMatch, List.map_cons, MemcmpFits, List.forall_mem_cons]
    by_cases hsum : offset.toNat + bytes.val.length < 2 ^ 64
    · simp only [checkedAdd, bind, Except.bind, hsum, if_true, true_and]
      by_cases hlen : data.length < offset.toNat + bytes.val.length
      · have hno : ¬ MemcmpMatches data (offset, bytes.val) := fun h => absurd h.1 (by simpa using hlen)
        simp [if_pos hlen, hno, pure, Except.pure, eq_comm]
      · have hle : offset.toNat + bytes.val.length ≤ data.length := Nat.le_of_not_lt hlen
        simp only [if_neg hlen, indexRange, hle, Nat.le_add_right, and_self, if_true]
        by_cases heq : slice data ⟨offset.toNat, offset.toNat + bytes.val.length⟩ = bytes.val
        · have hyes : MemcmpMatches data (offset, bytes.val) := ⟨hle, heq⟩
          simp only [heq, ne_eq, not_true, if_false, hyes, true_and, forall_const]
          exact ih
        · have hno : ¬ MemcmpMatches data (offset, bytes.val) := fun h => heq h.2
          simp [heq, hno, pure, Except.pure, eq_comm]
    · rw [checkedAdd, if_neg hsum]
      simp only [bind, Except.bind, hsum, false_and, reduceCtorEq]

theorem isMatch_ofConfig {lamports : UInt64} {cmp : ConfigFilterAccountsFilterLamports} :
    (FilterAccountsLamports.ofConfig cmp).isMatch lamports = true ↔ cmp.Holds lamports := by
  cases cmp with
  | eq value => exact decide_eq_true_iff.trans eq_comm
  | ne value => exact decide_eq_true_iff.trans ne_comm
  | lt value => exact decide_eq_true_iff
  | gt value => exact decide_eq_true_iff

section

variable {validAccountData : Bytes → Bool} {lamports : UInt64} {data : Bytes} {state : FilterAccountsState}
  {filters : List ConfigFilterAccountsFilter}

/-- The comparisons apart from the other filters. -/
theorem matches_iff : (∀ f ∈ filters, f.Matches validAccountData lamports data) ↔
    (∀ f ∈ filters, f.memcmp? = none → f.Matches validAccountData lamports data) ∧
      ∀ p ∈ filters.filterMap memcmp?, MemcmpMatches data p := by
  simp only [List.mem_filterMap]
  constructor
  · intro h
    refine ⟨fun f hf _ => h f hf, ?_⟩
    rintro p ⟨f, hf, hp⟩
    have hmatch := h f hf
    cases f with
    | memcmp offset bytes =>
      obtain rfl := Option.some.inj hp
      exact hmatch
    | dataSize | tokenAccountState | lamports => cases hp
  · rintro ⟨hothers, hmemcmp⟩ f hf
    cases f with
    | memcmp offset bytes => exact hmemcmp (offset, bytes) ⟨_, hf, rfl⟩
    | dataSize | tokenAccountState | lamports => exact hothers _ hf rfl

/-- What is looked at before the comparisons. -/
def OthersMatch (validAccountData : Bytes → Bool) (lamports : UInt64) (data : Bytes) (state : FilterAccountsState) :
    Prop :=
  (∀ size, state.datasize = some size → data.length = size.toNat) ∧
    (state.tokenAccountState = true → validAccountData data = true) ∧
    ∀ cmp ∈ state.lamports.val, cmp.isMatch lamports = true

/-- What the state knows of the filters that are not comparisons. -/
theorem others_iff (h : state.Holds filters) (hsize : (filters.filterMap dataSize?).length ≤ 1) :
    (∀ f ∈ filters, f.memcmp? = none → f.Matches validAccountData lamports data) ↔
      OthersMatch validAccountData lamports data state := by
  rw [OthersMatch, h.datasize, h.tokenAccountState, h.lamports]
  constructor
  · intro hall
    refine ⟨fun size hlast => ?_, fun hany => ?_, fun cmp hmem => ?_⟩
    · obtain ⟨f, hf, hfsize⟩ := List.mem_filterMap.mp (List.mem_of_getLast? hlast)
      cases f with
      | dataSize =>
        obtain rfl := Option.some.inj hfsize
        exact hall _ hf rfl
      | memcmp | tokenAccountState | lamports => cases hfsize
    · obtain ⟨f, hf, htoken⟩ := List.any_eq_true.mp hany
      cases f with
      | tokenAccountState => exact hall _ hf rfl
      | memcmp | dataSize | lamports => cases htoken
    · obtain ⟨f, hf, hcmp⟩ := List.mem_filterMap.mp hmem
      cases f with
      | lamports cmp' =>
        obtain rfl := Option.some.inj hcmp
        exact isMatch_ofConfig.mpr (hall _ hf rfl)
      | memcmp | dataSize | tokenAccountState => cases hcmp
  · rintro ⟨hdatasize, htoken, hlamports⟩ f hf hnone
    cases f with
    | memcmp => cases hnone
    | dataSize size =>
      have hmem : size ∈ filters.filterMap dataSize? := List.mem_filterMap.mpr ⟨_, hf, rfl⟩
      -- a size is the only one
      obtain ⟨only, honly⟩ := List.length_eq_one_iff.mp (le_antisymm hsize (List.length_pos_of_mem hmem))
      rw [honly, List.mem_singleton] at hmem
      refine hdatasize size ?_
      rw [honly, hmem, List.getLast?_singleton]
    | tokenAccountState => exact htoken (List.any_eq_true.mpr ⟨_, hf, rfl⟩)
    | lamports cmp => exact isMatch_ofConfig.mp (hlamports _ (List.mem_filterMap.mpr ⟨_, hf, rfl⟩))

/-- The comparisons are made if the other filters match. -/
theorem isMatch_cases : (OthersMatch validAccountData lamports data state ∧
      state.isMatch validAccountData lamports data = memcmpMatch data state.memcmp.val) ∨
    (¬ OthersMatch validAccountData lamports data state ∧
      state.isMatch validAccountData lamports data = .ok false) := by
  have hsize : state.datasize.any (fun datasize => data.length ≠ datasize.toNat) = true ↔
      ¬ ∀ size, state.datasize = some size → data.length = size.toNat := by
    simp [Option.any_eq_true]
  have htoken : (state.tokenAccountState && !validAccountData data) = true ↔
      ¬ (state.tokenAccountState = true → validAccountData data = true) := by
    simp
  have hlamports : state.lamports.val.any (fun cmp => !cmp.isMatch lamports) = true ↔
      ¬ ∀ cmp ∈ state.lamports.val, cmp.isMatch lamports = true := by
    simp
  unfold isMatch
  by_cases hall : OthersMatch validAccountData lamports data state
  · obtain ⟨h₁, h₂, h₃⟩ := hall
    refine .inl ⟨⟨h₁, h₂, h₃⟩, ?_⟩
    rw [if_neg fun h => hsize.mp h h₁, if_neg fun h => htoken.mp h h₂, if_neg fun h => hlamports.mp h h₃]
  · refine .inr ⟨hall, ?_⟩
    split
    · rfl
    · rename_i h₁
      split
      · rfl
      · rename_i h₂
        refine if_pos (hlamports.mpr fun h₃ => hall ⟨?_, ?_, h₃⟩)
        · exact not_not.mp fun h => h₁ (hsize.mpr h)
        · exact not_not.mp fun h => h₂ (htoken.mpr h)

theorem isMatch_eq_ok (h : state.Holds filters) (hsize : (filters.filterMap dataSize?).length ≤ 1) {found : Bool} :
    state.isMatch validAccountData lamports data = .ok found ↔
      FiltersFit validAccountData lamports data filters ∧
        (found = true ↔ ∀ f ∈ filters, f.Matches validAccountData lamports data) := by
  rw [matches_iff, FiltersFit, others_iff h hsize]
  rcases @isMatch_cases validAccountData lamports data state with ⟨hothers, heq⟩ | ⟨hothers, heq⟩
  · rw [heq, memcmpMatch_eq_ok, h.memcmp, imp_iff_right hothers, and_iff_right hothers]
  · rw [heq]
    constructor
    · intro heq
      obtain rfl := Except.ok.inj heq
      exact ⟨fun h => absurd h hothers, fun h => absurd h Bool.false_ne_true, fun h => absurd h.1 hothers⟩
    · rintro ⟨-, hfound⟩
      cases found with
      | false => rfl
      | true => exact absurd (hfound.mp rfl).1 hothers

end

end FilterAccountsState

/-! ### What the checks leave -/

theorem tryFrom_sized {lib : TextDecoders} {value : SubscribeRequestFilterAccountsFilter}
    {filter : ConfigFilterAccountsFilter} (h : ConfigFilterAccountsFilter.tryFrom lib value = .ok filter) :
    filter.Sized := by
  unfold ConfigFilterAccountsFilter.tryFrom at h
  split at h
  · cases h
  · rename_i memcmp hmemcmp
    cases hdata : memcmp.data with
    | none => simp [hdata, throw, throwThe, MonadExceptOf.throw] at h
    | some value =>
      simp only [hdata] at h
      obtain ⟨data, -, h⟩ := bind_eq_ok.mp h
      split at h
      · cases h
      · rename_i hmax
        obtain rfl := Except.ok.inj h
        exact Nat.le_of_not_lt hmax
  · obtain rfl := Except.ok.inj h
    trivial
  · split at h
    · obtain rfl := Except.ok.inj h
      trivial
    · cases h
  · obtain ⟨cmp, -, h⟩ := bind_eq_ok.mp h
    obtain rfl := Except.ok.inj h
    trivial

/-- The conversion keeps to the sizes of the arrays. -/
theorem tryFrom_filters {lib : TextDecoders} {value : SubscribeRequestFilterAccounts} {filter : ConfigFilterAccounts}
    (h : ConfigFilterAccounts.tryFrom lib value = .ok filter) :
    filter.filters.length ≤ maxFilters ∧ ∀ f ∈ filter.filters, f.Sized := by
  unfold ConfigFilterAccounts.tryFrom at h
  dsimp only at h
  split at h
  · cases h
  · obtain ⟨account, -, h⟩ := bind_eq_ok.mp h
    obtain ⟨owner, -, h⟩ := bind_eq_ok.mp h
    split at h
    · cases h
    · rename_i hmax
      obtain ⟨filters, hfilters, h⟩ := bind_eq_ok.mp h
      obtain rfl := Except.ok.inj h
      refine ⟨?_, fun f hf => ?_⟩
      · rw [← (mapM_eq_ok.mp hfilters).length_eq]
        exact Nat.le_of_not_lt hmax
      · obtain ⟨value, -, hvalue⟩ := mem_of_mapM hfilters hf
        exact tryFrom_sized hvalue

theorem tryFrom_accounts {lib : TextDecoders} {request : SubscribeRequest} {config : ConfigFilter}
    (h : ConfigFilter.tryFrom lib request = .ok config) :
    ∀ entry ∈ config.accounts, entry.2.filters.length ≤ maxFilters ∧ ∀ f ∈ entry.2.filters, f.Sized := by
  unfold ConfigFilter.tryFrom at h
  obtain ⟨slots, -, h⟩ := bind_eq_ok.mp h
  obtain ⟨accounts, haccounts, h⟩ := bind_eq_ok.mp h
  obtain ⟨slices, -, h⟩ := bind_eq_ok.mp h
  obtain ⟨transactions, -, h⟩ := bind_eq_ok.mp h
  obtain ⟨statuses, -, h⟩ := bind_eq_ok.mp h
  obtain ⟨blocks, -, h⟩ := bind_eq_ok.mp h
  obtain ⟨footer, -, h⟩ := bind_eq_ok.mp h
  obtain ⟨commitment, -, h⟩ := bind_eq_ok.mp h
  obtain rfl := Except.ok.inj h
  intro entry hentry
  obtain ⟨value, -, hvalue⟩ := mem_of_mapM haccounts hentry
  obtain ⟨filter, hfilter, hpair⟩ := bind_eq_ok.mp hvalue
  obtain rfl := Except.ok.inj hpair
  exact tryFrom_filters hfilter

/-- A size is defined once. -/
theorem checkAccountsFilters_dataSize {filters : List ConfigFilterAccountsFilter} {defined : Bool}
    (h : checkAccountsFilters defined filters = .ok ()) :
    (filters.filterMap dataSize?).length + defined.toNat ≤ 1 := by
  induction filters generalizing defined with
  | nil => cases defined <;> simp
  | cons filter filters ih =>
    cases filter with
    | memcmp offset data =>
      rw [checkAccountsFilters] at h
      split at h
      · cases h
      · exact ih h
    | dataSize size =>
      rw [checkAccountsFilters] at h
      split at h
      · cases h
      · rename_i hfirst
        have hrest := ih h
        obtain rfl := Bool.eq_false_of_not_eq_true hfirst
        simpa [dataSize?] using hrest
    | tokenAccountState => exact ih h
    | lamports cmp => exact ih h

theorem checkFilter_accounts {limits : ConfigLimits} {config : ConfigFilter}
    (h : limits.checkFilter config = .ok (.ok ())) :
    ∀ entry ∈ config.accounts, (entry.2.filters.filterMap dataSize?).length ≤ 1 := by
  unfold ConfigLimits.checkFilter at h
  obtain ⟨_, -, h⟩ := bind_eq_ok_ok.mp h
  obtain ⟨_, h, -⟩ := bind_eq_ok_ok.mp h
  unfold ConfigLimitsAccounts.checkFilter at h
  obtain ⟨_, -, h⟩ := bind_eq_ok_ok.mp h
  obtain ⟨_, h, -⟩ := bind_eq_ok_ok.mp h
  intro entry hentry
  have hentry := forM_eq_ok.mp (liftExcept_eq_ok_ok.mp h) entry hentry
  obtain ⟨_, -, hentry⟩ := bind_eq_ok.mp hentry
  obtain ⟨_, -, hentry⟩ := bind_eq_ok.mp hentry
  obtain ⟨_, -, hentry⟩ := bind_eq_ok.mp hentry
  obtain ⟨_, -, hentry⟩ := bind_eq_ok.mp hentry
  obtain ⟨_, -, hentry⟩ := bind_eq_ok.mp hentry
  split at hentry
  · cases hentry
  · exact checkAccountsFilters_dataSize hentry

/-! ### Data slices -/

namespace ConfigFilterAccountsDataSlice

/-- The end of the slice is a number of 64 bits. -/
def Fits (ds : ConfigFilterAccountsDataSlice) : Prop := ds.offset.toNat + ds.length.toNat < 2 ^ 64

def range (ds : ConfigFilterAccountsDataSlice) : Range := ⟨ds.offset.toNat, ds.offset.toNat + ds.length.toNat⟩

end ConfigFilterAccountsDataSlice

variable {slices : List ConfigFilterAccountsDataSlice}

theorem newDataSlices_eq_ok {ranges : FilterAccountDataSlices} :
    newDataSlices slices = .ok ranges ↔ (∀ ds ∈ slices, ds.Fits) ∧ ranges = slices.map (·.range) := by
  unfold newDataSlices
  induction slices generalizing ranges with
  | nil => simp [pure, Except.pure, eq_comm]
  | cons ds slices ih =>
    rw [List.mapM_cons, List.forall_mem_cons, List.map_cons]
    constructor
    · intro h
      obtain ⟨range, hrange, h⟩ := bind_eq_ok.mp h
      obtain ⟨stop, hstop, hrange⟩ := bind_eq_ok.mp hrange
      obtain ⟨rest, hrest, h⟩ := bind_eq_ok.mp h
      obtain ⟨hds, rfl⟩ := checkedAdd_eq_ok.mp hstop
      obtain ⟨hall, rfl⟩ := ih.mp hrest
      obtain rfl := Except.ok.inj hrange
      exact ⟨⟨hds, hall⟩, (Except.ok.inj h).symm⟩
    · rintro ⟨⟨hds, hall⟩, rfl⟩
      refine bind_eq_ok.mpr ⟨ds.range, ?_, bind_eq_ok.mpr ⟨_, ih.mpr ⟨hall, rfl⟩, rfl⟩⟩
      exact bind_eq_ok.mpr ⟨_, checkedAdd_eq_ok.mpr ⟨hds, rfl⟩, rfl⟩

theorem checkOverlap_runs {slice : ConfigFilterAccountsDataSlice} (h : ∀ ds ∈ slices, ds.Fits) :
    Succeeds (checkOverlap slice slices).run := by
  induction slices with
  | nil => exact succeeds_ok _
  | cons ds slices ih =>
    obtain ⟨hds, hslices⟩ := List.forall_mem_cons.mp h
    rw [checkOverlap]
    refine succeeds_bind_run ?_ fun stop => ?_
    · rw [checkedAdd_eq_ok.mpr ⟨hds, rfl⟩]
      exact succeeds_ok _
    · dsimp only
      split
      · exact succeeds_ok _
      · exact ih hslices

theorem checkDataSlices_runs {before : List ConfigFilterAccountsDataSlice} (hbefore : ∀ ds ∈ before, ds.Fits)
    (h : ∀ ds ∈ slices, ds.Fits) : Succeeds (checkDataSlices before slices).run := by
  induction slices generalizing before with
  | nil => exact succeeds_ok _
  | cons ds slices ih =>
    obtain ⟨hds, hslices⟩ := List.forall_mem_cons.mp h
    rw [checkDataSlices]
    dsimp only
    split
    · exact succeeds_ok _
    · refine succeeds_bind_run (checkOverlap_runs hbefore) fun _ => ih ?_ hslices
      intro ds' hmem
      rcases List.mem_append.mp hmem with hmem | hmem
      · exact hbefore ds' hmem
      · rwa [List.mem_singleton.mp hmem]

theorem checkFilter_runs {limits : ConfigLimits} {config : ConfigFilter}
    (h : ∀ ds ∈ config.accountsDataSlice, ds.Fits) : Succeeds (limits.checkFilter config).run := by
  have haccounts : Succeeds (limits.accounts.checkFilter limits.nameMax config.accounts
      config.accountsDataSlice).run := by
    refine succeeds_bind_run (succeeds_liftExcept _) fun _ => ?_
    refine succeeds_bind_run (succeeds_liftExcept _) fun _ => ?_
    refine succeeds_bind_run (succeeds_liftExcept _) fun _ => ?_
    exact checkDataSlices_runs (by simp) h
  refine succeeds_bind_run (succeeds_liftExcept _) fun _ => ?_
  refine succeeds_bind_run haccounts fun _ => ?_
  refine succeeds_bind_run (succeeds_liftExcept _) fun _ => ?_
  refine succeeds_bind_run (succeeds_liftExcept _) fun _ => ?_
  refine succeeds_bind_run (succeeds_liftExcept _) fun _ => ?_
  refine succeeds_bind_run (succeeds_liftExcept _) fun _ => ?_
  refine succeeds_bind_run (succeeds_liftExcept _) fun _ => ?_
  exact succeeds_liftExcept _

/-- The capacity is the sum of the lengths, if it is a number of 64 bits. -/
theorem foldlM_capacity {sum capacity : ℕ} (hsum : sum < 2 ^ 64) :
    (slices.map (·.range)).foldlM (fun sum ds => do checkedAdd sum (← checkedSub ds.stop ds.start)) sum =
        .ok capacity ↔
      sum + (slices.map (·.length.toNat)).sum < 2 ^ 64 ∧ capacity = sum + (slices.map (·.length.toNat)).sum := by
  induction slices generalizing sum with
  | nil =>
    simp [pure, Except.pure, eq_comm]
    omega
  | cons ds slices ih =>
    rw [List.map_cons, List.foldlM_cons, List.map_cons, List.sum_cons, ← Nat.add_assoc]
    have hsub : checkedSub ds.range.stop ds.range.start = .ok ds.length.toNat := by
      simp [checkedSub, ConfigFilterAccountsDataSlice.range]
    rw [hsub]
    constructor
    · intro h
      obtain ⟨next, hnext, h⟩ := bind_eq_ok.mp h
      obtain ⟨hlt, rfl⟩ := checkedAdd_eq_ok.mp hnext
      exact (ih hlt).mp h
    · intro h
      have hlt : sum + ds.length.toNat < 2 ^ 64 := by omega
      exact bind_eq_ok.mpr ⟨_, checkedAdd_eq_ok.mpr ⟨hlt, rfl⟩, (ih hlt).mpr h⟩

theorem getSlice_succeeds {data : Bytes} : Succeeds (FilterAccountDataSlices.getSlice (slices.map (·.range)) data) ↔
    (2 ≤ slices.length → (slices.map (·.length.toNat)).sum ≤ isizeMax) := by
  have hextend : Succeeds (FilterAccountDataSlices.extend (slices.map (·.range)) data) := by
    refine succeeds_foldlM fun part range hrange => ?_
    obtain ⟨ds, -, rfl⟩ := List.mem_map.mp hrange
    split
    · rename_i hstop
      rw [indexRange, if_pos ⟨Nat.le_add_right _ _, hstop⟩]
      exact succeeds_ok _
    · exact succeeds_ok _
  match slices, hextend with
  | [], _ => simp [FilterAccountDataSlices.getSlice]
  | [ds], _ =>
    simp only [List.map_cons, List.map_nil, FilterAccountDataSlices.getSlice]
    refine iff_of_true ?_ (by simp)
    split
    · rename_i hstop
      rw [indexRange, if_pos ⟨Nat.le_add_right _ _, hstop⟩]
      exact succeeds_ok _
    · exact succeeds_ok _
  | ds :: ds' :: rest, hextend =>
    rw [imp_iff_right (by simp)]
    change Succeeds (FilterAccountDataSlices.capacity _ >>= fun capacity => _) ↔ _
    rw [succeeds_bind]
    constructor
    · rintro ⟨capacity, hcapacity, h⟩
      obtain ⟨-, rfl⟩ := (foldlM_capacity (by decide)).mp hcapacity
      rw [Nat.zero_add] at h
      by_contra hlarge
      simp only [if_pos (Nat.lt_of_not_le hlarge)] at h
      exact not_succeeds_error _ h
    · intro h
      refine ⟨_, (foldlM_capacity (by decide)).mpr ⟨?_, rfl⟩, ?_⟩
      · unfold isizeMax at h
        omega
      · rw [Nat.zero_add]
        simp only [if_neg (Nat.not_lt_of_le h)]
        exact hextend

/-! ### The updates of a message -/

/-- The parts that are asked of the buffer of a message are in it. -/
def Message.InBuffer : Message → Prop
  | .account (.limited msg) => msg.data.start ≤ msg.data.stop ∧ msg.data.stop ≤ msg.buffer.length
  | .transaction (.limited msg) => ∀ offset ∈ msg.signatureOffset, offset + signatureBytes ≤ msg.buffer.length
  | _ => True

theorem indexData_eq {message : MessageAccount} (h : (Message.account message).InBuffer) :
    indexData message = .ok message.data := by
  cases message with
  | limited msg => exact if_pos h
  | prost msg => rfl

theorem indexSignature_succeeds {message : MessageTransaction} (h : (Message.transaction message).InBuffer) :
    Succeeds (indexSignature message) ↔ message.signatureRef ≠ none := by
  cases message with
  | limited msg =>
    cases hoffset : msg.signatureOffset with
    | none => simp [indexSignature, MessageTransaction.signatureRef, hoffset]
    | some offset =>
      have hin : offset + signatureBytes ≤ msg.buffer.length := h offset hoffset
      simp [indexSignature, MessageTransaction.signatureRef, hoffset, indexRange, hin]
  | prost msg => simp [indexSignature, MessageTransaction.signatureRef]

section

variable {validAccountData : Bytes → Bool} {filter : ConfigFilterAccounts} {inner : FilterAccountsInner}

/-- The filters of the account are looked at. -/
def ConfigFilterAccounts.Asks (filter : ConfigFilterAccounts) (message : MessageAccount) : Prop :=
  (filter.account = [] ∨ message.pubkey ∈ filter.account) ∧ (filter.owner = [] ∨ message.owner ∈ filter.owner)

/-- What the conversion and the checks leave of an accounts filter. -/
structure ConfigFilterAccounts.Accepted (filter : ConfigFilterAccounts) : Prop where
  max : filter.filters.length ≤ maxFilters
  sized : ∀ f ∈ filter.filters, f.Sized
  dataSize : (filter.filters.filterMap dataSize?).length ≤ 1

namespace FilterAccountsInner

/-- The sets of a filter, and its state if it has filters. -/
theorem new_eq_ok (h : FilterAccountsInner.new filter = .ok inner) :
    inner.account = filter.account.toFinset ∧ inner.owner = filter.owner.toFinset ∧
      ((filter.filters = [] ∧ inner.filters = none) ∨
        ∃ state, FilterAccountsState.new filter.filters = .ok state ∧ inner.filters = some state) := by
  unfold FilterAccountsInner.new at h
  dsimp only at h
  split at h
  · rename_i hempty
    obtain rfl := Except.ok.inj h
    exact ⟨rfl, rfl, .inl ⟨List.isEmpty_iff.mp hempty, rfl⟩⟩
  · obtain ⟨filters, hfilters, h⟩ := bind_eq_ok.mp h
    obtain ⟨state, hstate, rfl⟩ := map_eq_ok.mp hfilters
    obtain rfl := Except.ok.inj h
    exact ⟨rfl, rfl, .inr ⟨state, hstate, rfl⟩⟩

theorem new_succeeds (h : filter.Accepted) : Succeeds (FilterAccountsInner.new filter) := by
  unfold FilterAccountsInner.new
  obtain ⟨state, hstate, -⟩ := FilterAccountsState.new_holds h.max h.sized
  dsimp only
  split
  · exact succeeds_ok _
  · rw [hstate]
    exact succeeds_ok _

/-- An account that is in the sets has its data compared. -/
theorem takes_succeeds (h : filter.Accepted) (hnew : FilterAccountsInner.new filter = .ok inner)
    {message : MessageAccount} {data : Bytes} : Succeeds (inner.takes validAccountData message data) ↔
      (filter.Asks message → FiltersFit validAccountData message.lamports data filter.filters) := by
  obtain ⟨haccount, howner, hfilters⟩ := new_eq_ok hnew
  have hin : (inner.account ≠ ∅ ∧ message.pubkey ∉ inner.account) ↔
      ¬ (filter.account = [] ∨ message.pubkey ∈ filter.account) := by
    rw [haccount, List.mem_toFinset, ne_eq, List.toFinset_eq_empty_iff, not_or]
  have hin' : (inner.owner ≠ ∅ ∧ message.owner ∉ inner.owner) ↔
      ¬ (filter.owner = [] ∨ message.owner ∈ filter.owner) := by
    rw [howner, List.mem_toFinset, ne_eq, List.toFinset_eq_empty_iff, not_or]
  unfold takes
  split
  · rename_i hout
    exact iff_of_true (succeeds_ok _) fun hasks => absurd hasks.1 (hin.mp hout)
  · rename_i haccount
    split
    · rename_i hout
      exact iff_of_true (succeeds_ok _) fun hasks => absurd hasks.2 (hin'.mp hout)
    · rename_i howner
      have hasks : filter.Asks message := ⟨not_not.mp (mt hin.mpr haccount), not_not.mp (mt hin'.mpr howner)⟩
      rw [imp_iff_right hasks]
      rcases hfilters with ⟨hnil, hnone⟩ | ⟨state, hstate, hsome⟩
      · rw [hnone, hnil]
        exact iff_of_true (succeeds_ok _) fun _ => trivial
      · obtain ⟨state', hnew', hholds⟩ := FilterAccountsState.new_holds h.max h.sized
        obtain rfl := Except.ok.inj (hstate.symm.trans hnew')
        rw [hsome]
        dsimp only
        rw [succeeds_bind]
        constructor
        · rintro ⟨found, hfound, -⟩
          exact ((FilterAccountsState.isMatch_eq_ok hholds h.dataSize).mp hfound).1
        · intro hfit
          classical
          refine ⟨decide (∀ f ∈ filter.filters, f.Matches validAccountData message.lamports data),
            (FilterAccountsState.isMatch_eq_ok hholds h.dataSize).mpr ⟨hfit, decide_eq_true_iff⟩, ?_⟩
          split <;> exact succeeds_ok _

end FilterAccountsInner

theorem names_succeeds {message : MessageAccount} {data : Bytes} {filters : FilterAccounts} :
    Succeeds (filters.names validAccountData message data) ↔
      ∀ p ∈ filters, Succeeds (p.2.takes validAccountData message data) := by
  induction filters with
  | nil => simp [FilterAccounts.names]
  | cons p filters ih =>
    rw [List.forall_mem_cons, ← ih, FilterAccounts.names, succeeds_bind]
    constructor
    · rintro ⟨found, hfound, h⟩
      obtain ⟨rest, hrest, -⟩ := succeeds_bind.mp h
      exact ⟨⟨found, hfound⟩, rest, hrest⟩
    · rintro ⟨⟨found, hfound⟩, rest, hrest⟩
      exact ⟨found, hfound, succeeds_bind.mpr ⟨rest, hrest, succeeds_pure _⟩⟩

/-- A message is taken if an account can be compared and a transaction has its signature. -/
theorem getUpdatesRef_succeeds {me : ClientFilter} {message : Message} {commitment : CommitmentLevel}
    (hmessage : message.InBuffer) : Succeeds (me.getUpdatesRef validAccountData message commitment) ↔
      (∀ msg, message = .account msg → ∀ p ∈ me.accounts, Succeeds (p.2.takes validAccountData msg msg.data)) ∧
        ∀ msg, message = .transaction msg → msg.signatureRef ≠ none := by
  cases message with
  | account msg =>
    simp only [Message.account.injEq, forall_eq', reduceCtorEq, false_implies, implies_true, and_true]
    rw [← names_succeeds, ClientFilter.getUpdatesRef, FilterAccounts.getUpdate, indexData_eq hmessage, succeeds_bind]
    constructor
    · rintro ⟨update, hupdate, -⟩
      obtain ⟨_, hdata, hupdate⟩ := bind_eq_ok.mp hupdate
      obtain rfl := Except.ok.inj hdata
      obtain ⟨names, hnames, -⟩ := bind_eq_ok.mp hupdate
      exact ⟨names, hnames⟩
    · rintro ⟨names, hnames⟩
      exact ⟨_, bind_eq_ok.mpr ⟨_, rfl, bind_eq_ok.mpr ⟨names, hnames, rfl⟩⟩, succeeds_ok _⟩
  | transaction msg =>
    simp only [Message.transaction.injEq, forall_eq', reduceCtorEq, false_implies, implies_true, true_and]
    rw [← indexSignature_succeeds hmessage, ClientFilter.getUpdatesRef, FilterTransactions.getUpdate, succeeds_bind]
    constructor
    · rintro ⟨update, hupdate, -⟩
      obtain ⟨signature, hsignature, -⟩ := bind_eq_ok.mp hupdate
      exact ⟨signature, hsignature⟩
    · rintro ⟨signature, hsignature⟩
      refine ⟨_, bind_eq_ok.mpr ⟨signature, hsignature, rfl⟩, ?_⟩
      rw [FilterTransactions.getUpdate, hsignature]
      exact succeeds_ok _
  | slot msg | entry msg | blockMeta msg | block msg | blockFooter msg | entryUpdateParent msg =>
    simp [ClientFilter.getUpdatesRef]

end

/-! ### What is promised -/

section

variable (validAccountData : Bytes → Bool) (limits : ConfigLimits) (config : ConfigFilter) (message : Message)
  (commitment : CommitmentLevel) (lamports : UInt64) (data : Bytes)

/-- Nothing panics, and every filter of accounts matches exactly what it says. -/
structure Serves : Prop where
  checkFilter : limits.checkFilter config = .ok (.ok ())
  getUpdates : ∃ filter, ClientFilter.new config = .ok filter ∧
    Succeeds (filter.getUpdatesRef validAccountData message commitment)
  getSlice : ∃ filter, ClientFilter.new config = .ok filter ∧ Succeeds (filter.accountsDataSlices.getSlice data)
  isMatch : ∀ entry ∈ config.accounts, ∃ state found, FilterAccountsState.new entry.2.filters = .ok state ∧
    state.isMatch validAccountData lamports data = .ok found ∧
    (found = true ↔ ∀ f ∈ entry.2.filters, f.Matches validAccountData lamports data)

/-- The sums of 64 bits do not overflow where they are made. -/
structure Fits : Prop where
  slices : ∀ ds ∈ config.accountsDataSlice, ds.Fits
  /-- of several slices the data is collected in a vector -/
  capacity : 2 ≤ config.accountsDataSlice.length →
    (config.accountsDataSlice.map (·.length.toNat)).sum ≤ isizeMax
  filters : ∀ entry ∈ config.accounts, FiltersFit validAccountData lamports data entry.2.filters
  account : ∀ msg, message = .account msg → ∀ entry ∈ config.accounts, entry.2.Asks msg →
    FiltersFit validAccountData msg.lamports msg.data entry.2.filters
  signature : ∀ msg, message = .transaction msg → msg.signatureRef ≠ none

end

section

variable {lib : TextDecoders} {request : SubscribeRequest} {config : ConfigFilter} {limits : ConfigLimits}
  {validAccountData : Bytes → Bool} {message : Message} {commitment : CommitmentLevel} {lamports : UInt64}
  {data : Bytes}

theorem accepted_of_checks (hconfig : ConfigFilter.tryFrom lib request = .ok config)
    (hlimits : limits.checkFilter config = .ok (.ok ())) : ∀ entry ∈ config.accounts, entry.2.Accepted := by
  intro entry hentry
  obtain ⟨hmax, hsized⟩ := tryFrom_accounts hconfig entry hentry
  exact ⟨hmax, hsized, checkFilter_accounts hlimits entry hentry⟩

theorem clientFilter_new_eq_ok {filter : ClientFilter} (h : ClientFilter.new config = .ok filter) :
    FilterAccounts.new config.accounts = .ok filter.accounts ∧
      newDataSlices config.accountsDataSlice = .ok filter.accountsDataSlices := by
  unfold ClientFilter.new at h
  obtain ⟨accounts, haccounts, h⟩ := bind_eq_ok.mp h
  obtain ⟨slices, hslices, h⟩ := bind_eq_ok.mp h
  obtain rfl := Except.ok.inj h
  exact ⟨haccounts, hslices⟩

theorem clientFilter_new_succeeds (haccepted : ∀ entry ∈ config.accounts, entry.2.Accepted)
    (hslices : ∀ ds ∈ config.accountsDataSlice, ds.Fits) : Succeeds (ClientFilter.new config) := by
  have haccounts : Succeeds (FilterAccounts.new config.accounts) := by
    refine succeeds_mapM.mpr fun entry hentry => ?_
    obtain ⟨inner, hinner⟩ := FilterAccountsInner.new_succeeds (haccepted entry hentry)
    exact succeeds_bind.mpr ⟨inner, hinner, succeeds_pure _⟩
  obtain ⟨accounts, haccounts⟩ := haccounts
  unfold ClientFilter.new
  exact succeeds_bind.mpr ⟨accounts, haccounts, succeeds_bind.mpr
    ⟨_, newDataSlices_eq_ok.mpr ⟨hslices, rfl⟩, succeeds_pure _⟩⟩

/-- The accounts filters of a client compare what the configuration asks for. -/
theorem forall_takes (haccepted : ∀ entry ∈ config.accounts, entry.2.Accepted) {accounts : FilterAccounts}
    (h : FilterAccounts.new config.accounts = .ok accounts) {msg : MessageAccount} :
    (∀ entry ∈ config.accounts, entry.2.Asks msg →
        FiltersFit validAccountData msg.lamports msg.data entry.2.filters) ↔
      ∀ p ∈ accounts, Succeeds (p.2.takes validAccountData msg msg.data) := by
  refine forall_mem_mapM h fun entry p hentry hp => ?_
  obtain ⟨inner, hinner, hp⟩ := bind_eq_ok.mp hp
  obtain rfl := Except.ok.inj hp
  exact (FilterAccountsInner.takes_succeeds (haccepted entry hentry) hinner).symm

/-- A filter that was accepted serves a message and the data of an account if the sums fit. -/
theorem serves_iff_fits (hconfig : ConfigFilter.tryFrom lib request = .ok config)
    (hlimits : ∀ error, limits.checkFilter config ≠ .ok (.error error)) (hmessage : message.InBuffer) :
    Serves validAccountData limits config message commitment lamports data ↔
      Fits validAccountData config message lamports data := by
  constructor
  · rintro ⟨hcheck, ⟨filter, hnew, hupdates⟩, ⟨filter', hnew', hslice⟩, hmatch⟩
    have haccepted := accepted_of_checks hconfig hcheck
    obtain rfl := Except.ok.inj (hnew.symm.trans hnew')
    obtain ⟨haccounts, hslices⟩ := clientFilter_new_eq_ok hnew
    obtain ⟨hfits, hranges⟩ := newDataSlices_eq_ok.mp hslices
    rw [hranges] at hslice
    obtain ⟨haccount, hsignature⟩ := (getUpdatesRef_succeeds hmessage).mp hupdates
    refine ⟨hfits, getSlice_succeeds.mp hslice, fun entry hentry => ?_, fun msg hmsg => ?_, hsignature⟩
    · obtain ⟨state, found, hstate, hfound, -⟩ := hmatch entry hentry
      obtain ⟨hmax, hsized, hsize⟩ := haccepted entry hentry
      obtain ⟨state', hstate', hholds⟩ := FilterAccountsState.new_holds hmax hsized
      obtain rfl := Except.ok.inj (hstate.symm.trans hstate')
      exact ((FilterAccountsState.isMatch_eq_ok hholds hsize).mp hfound).1
    · exact (forall_takes haccepted haccounts).mpr (haccount msg hmsg)
  · rintro ⟨hfits, hcapacity, hfilters, haccount, hsignature⟩
    have hcheck : limits.checkFilter config = .ok (.ok ()) := by
      have hruns : Succeeds (limits.checkFilter config).run := checkFilter_runs hfits
      obtain ⟨r, hr⟩ := hruns
      cases r with
      | error error => exact absurd hr (hlimits error)
      | ok _ => exact hr
    have haccepted := accepted_of_checks hconfig hcheck
    obtain ⟨filter, hnew⟩ := clientFilter_new_succeeds haccepted hfits
    obtain ⟨haccounts, hslices⟩ := clientFilter_new_eq_ok hnew
    obtain ⟨-, hranges⟩ := newDataSlices_eq_ok.mp hslices
    refine ⟨hcheck, ⟨filter, hnew, ?_⟩, ⟨filter, hnew, ?_⟩, fun entry hentry => ?_⟩
    · refine (getUpdatesRef_succeeds hmessage).mpr ⟨fun msg hmsg => ?_, hsignature⟩
      exact (forall_takes haccepted haccounts).mp (haccount msg hmsg)
    · rw [hranges]
      exact getSlice_succeeds.mpr hcapacity
    · obtain ⟨hmax, hsized, hsize⟩ := haccepted entry hentry
      obtain ⟨state, hstate, hholds⟩ := FilterAccountsState.new_holds hmax hsized
      classical
      exact ⟨state, decide (∀ f ∈ entry.2.filters, f.Matches validAccountData lamports data), hstate,
        (FilterAccountsState.isMatch_eq_ok hholds hsize).mpr ⟨hfilters entry hentry, decide_eq_true_iff⟩,
        decide_eq_true_iff⟩

end

/-! ### Offsets that no account has -/

/-- The last offset of 64 bits. -/
def lastOffset : UInt64 := 18446744073709551615

/-- Without texts to decode. -/
def noDecoders : TextDecoders := ⟨fun _ => .error .tooShort, fun _ => .error .tooShort, fun _ => none, fun _ => none⟩

/-- One accounts filter without a name, that compares bytes, and data slices. -/
def memcmpRequest (offset : UInt64) (bytes : Bytes) (slices : List SubscribeRequestAccountsDataSlice) :
    SubscribeRequest where
  slots := []
  accounts := [("", ⟨[], [], [⟨some (.memcmp ⟨offset, some (.bytes bytes)⟩)⟩], none, none⟩)]
  accountsDataSlice := slices
  transactions := []
  transactionsStatus := []
  entry := []
  blocksMeta := []
  blocks := []
  blockFooter := []
  commitment := none

def memcmpConfig (offset : UInt64) (bytes : Bytes) (slices : List ConfigFilterAccountsDataSlice) : ConfigFilter where
  slots := []
  accounts := [("", ⟨[], [], [.memcmp offset bytes], none⟩)]
  accountsDataSlice := slices
  transactions := []
  transactionsStatus := []
  entries := []
  entriesUpdateParent := []
  blocksMeta := []
  blocks := []
  blockFooter := []
  commitment := none

/-- An account with the data `5, 7`. -/
def smallAccount : LimitedAccount where
  pubkey := Pubkey.instInhabited.default
  owner := Pubkey.instInhabited.default
  lamports := 1
  executable := false
  rentEpoch := 0
  data := ⟨0, 2⟩
  txnSignatureOffset := none
  writeVersion := 0
  slot := 1
  isStartup := false
  bankId := none
  createdAt := ⟨0, 0⟩
  buffer := [5, 7]
  accountOffset := 0
  range := ⟨0, 2⟩

/-- The second byte of the account is compared. -/
theorem serves_memcmp : Serves (fun _ => false) {} (memcmpConfig 1 [7] [⟨0, 1⟩, ⟨1, 1⟩])
    (.account (.limited smallAccount)) .processed 1 [5, 7] := by
  have hfit : FiltersFit (fun _ => false) 1 [5, 7] [.memcmp 1 [7]] := fun _ => ⟨by decide, fun _ => trivial⟩
  have hconfig : ConfigFilter.tryFrom noDecoders (memcmpRequest 1 [7] [⟨0, 1⟩, ⟨1, 1⟩]) =
      .ok (memcmpConfig 1 [7] [⟨0, 1⟩, ⟨1, 1⟩]) := rfl
  have hmessage : (Message.account (.limited smallAccount)).InBuffer := ⟨by decide, by decide⟩
  refine (serves_iff_fits hconfig (fun error h => ?_) hmessage).mpr ?_
  · cases h
  · refine ⟨?_, fun _ => by decide, ?_, ?_, ?_⟩
    · simp [memcmpConfig, ConfigFilterAccountsDataSlice.Fits]
    · intro entry hentry
      obtain rfl := List.mem_singleton.mp hentry
      exact hfit
    · intro msg hmsg entry hentry _
      obtain rfl := List.mem_singleton.mp hentry
      obtain rfl := Message.account.inj hmsg
      exact hfit
    · intro msg hmsg
      cases hmsg

/-- A comparison at the last offset is accepted, and the first account that is compared panics. A slice from the
last offset is accepted too, and its filter cannot be made. -/
theorem accepted_overflows :
    (ConfigFilter.tryFrom noDecoders (memcmpRequest lastOffset [7] []) = .ok (memcmpConfig lastOffset [7] []) ∧
      ConfigLimits.checkFilter {} (memcmpConfig lastOffset [7] []) = .ok (.ok ()) ∧
      (∃ filter, ClientFilter.new (memcmpConfig lastOffset [7] []) = .ok filter ∧
        filter.getUpdatesRef (fun _ => false) (.account (.limited smallAccount)) .processed = .error .overflow) ∧
      ¬ Serves (fun _ => false) {} (memcmpConfig lastOffset [7] []) (.account (.limited smallAccount)) .processed
        1 [5, 7]) ∧
    ConfigFilter.tryFrom noDecoders (memcmpRequest 0 [] [⟨lastOffset, 2⟩]) =
        .ok (memcmpConfig 0 [] [⟨lastOffset, 2⟩]) ∧
      ConfigLimits.checkFilter {} (memcmpConfig 0 [] [⟨lastOffset, 2⟩]) = .ok (.ok ()) ∧
      ClientFilter.new (memcmpConfig 0 [] [⟨lastOffset, 2⟩]) = .error .overflow := by
  have hrun : ∃ filter, ClientFilter.new (memcmpConfig lastOffset [7] []) = .ok filter ∧
      filter.getUpdatesRef (fun _ => false) (.account (.limited smallAccount)) .processed = .error .overflow :=
    ⟨_, rfl, rfl⟩
  refine ⟨⟨rfl, rfl, hrun, fun hserves => ?_⟩, rfl, rfl, rfl⟩
  obtain ⟨filter, hnew, hpanics⟩ := hrun
  obtain ⟨filter', hnew', updates, hupdates⟩ := hserves.getUpdates
  obtain rfl := Except.ok.inj (hnew.symm.trans hnew')
  cases hpanics.symm.trans hupdates

end Richat.Filter
