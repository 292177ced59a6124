import Richat.Filter.UpdatesSpec

/-!
# Data slices

The slices of a request are checked, stored and cut out of the data in three places, each with sums of 64 bits. What
they give is stated over the numbers themselves (`Sliced`), for a build with overflow checks and for one without
(`Arithmetic`). It holds of the lists that are accepted exactly if no slice ends beyond 64 bits and, for two slices or
more, their lengths together are the capacity of a vector.
-/

namespace Richat.Filter

open Lib

/-- The arithmetic of a build: with overflow checks it panics, without them it wraps around. -/
inductive Arithmetic where
  | checked | wrapping

namespace Arithmetic

def add : Arithmetic → ℕ → ℕ → Except FilterPanic ℕ
  | checked, a, b => checkedAdd a b
  | wrapping, a, b => .ok ((a + b) % 2 ^ 64)

def sub : Arithmetic → ℕ → ℕ → Except FilterPanic ℕ
  | checked, a, b => checkedSub a b
  | wrapping, a, b => .ok ((a + 2 ^ 64 - b) % 2 ^ 64)

variable (arith : Arithmetic)

def checkOverlap (slice : ConfigFilterAccountsDataSlice) : List ConfigFilterAccountsDataSlice → Checked Unit
  | [] => pure ()
  | before :: slices => do
    let stop ← (arith.add before.offset.toNat before.length.toNat : Except FilterPanic ℕ)
    if slice.offset.toNat < stop then throw .dataSliceOverlap
    checkOverlap slice slices

def checkDataSlices (before : List ConfigFilterAccountsDataSlice) :
    List ConfigFilterAccountsDataSlice → Checked Unit
  | [] => pure ()
  | slice :: after => do
    if after.any fun ds => ds.offset < slice.offset then throw .dataSliceOutOfOrder
    arith.checkOverlap slice before
    checkDataSlices (before ++ [slice]) after

/-- The slices of `ConfigLimitsAccounts::check_filter`. -/
def checkSlices (limits : ConfigLimitsAccounts) (slices : List ConfigFilterAccountsDataSlice) : Checked Unit := do
  liftExcept (ConfigLimits.checkMax slices.length limits.dataSliceMax)
  arith.checkDataSlices [] slices

def newDataSlices (slices : List ConfigFilterAccountsDataSlice) : Except FilterPanic FilterAccountDataSlices :=
  slices.mapM fun ds => return ⟨ds.offset.toNat, ← arith.add ds.offset.toNat ds.length.toNat⟩

def capacity (ranges : FilterAccountDataSlices) : Except FilterPanic ℕ :=
  ranges.foldlM (fun sum ds => do arith.add sum (← arith.sub ds.stop ds.start)) 0

def getSlice (ranges : FilterAccountDataSlices) (source : Bytes) : Except FilterPanic Bytes :=
  match ranges with
  | [] => .ok source
  | [ds] => if ds.stop ≤ source.length then indexRange source ds else .ok []
  | _ => do
    let capacity ← arith.capacity ranges
    if isizeMax < capacity then throw .capacityOverflow
    ranges.extend source

end Arithmetic

/-! ### What the slices are for -/

section

variable (slices : List ConfigFilterAccountsDataSlice) (data : Bytes)

/-- The slices that lie entirely in the data. -/
def insideSlices : List ConfigFilterAccountsDataSlice := slices.filter fun ds => ds.range.stop ≤ data.length

/-- The positions of a slice. -/
def ConfigFilterAccountsDataSlice.positions (ds : ConfigFilterAccountsDataSlice) : List ℕ :=
  List.range' ds.offset.toNat ds.length.toNat

/-- What a client gets of the data. -/
def slicedData : Bytes :=
  if slices = [] then data else (insideSlices slices data).flatMap fun ds => slice data ds.range

end

/-- The slices are in order and apart, and are cut out of every data. -/
structure Sliced (arith : Arithmetic) (slices : List ConfigFilterAccountsDataSlice) : Prop where
  ordered : slices.Pairwise fun a b => a.offset.toNat ≤ b.offset.toNat
  disjoint : slices.Pairwise fun a b => a.positions.Disjoint b.positions
  getSlice : ∀ data, ∃ ranges, arith.newDataSlices slices = .ok ranges ∧
    arith.getSlice ranges data = .ok (slicedData slices data)
  /-- no byte is taken twice -/
  once : slices ≠ [] → ∀ data, ∃ positions : List ℕ, positions.Nodup ∧
    (slicedData slices data).map some = positions.map (data[·]?)
  /-- the loop gives the same for one slice -/
  single : ∀ ds data, slices = [ds] → ∃ ranges, arith.newDataSlices slices = .ok ranges ∧
    arith.getSlice ranges data = ranges.extend data

/-! ### The checks -/

section

variable {slices before : List ConfigFilterAccountsDataSlice} {slice : ConfigFilterAccountsDataSlice}
  {arith : Arithmetic}

theorem Arithmetic.add_eq_ok (ds : ConfigFilterAccountsDataSlice) (h : ds.Fits) :
    arith.add ds.offset.toNat ds.length.toNat = .ok ds.range.stop := by
  cases arith with
  | checked => exact if_pos h
  | wrapping => exact congrArg Except.ok (Nat.mod_eq_of_lt h)

theorem Arithmetic.checkOverlap_ok (hbefore : ∀ ds ∈ before, ds.Fits)
    (h : arith.checkOverlap slice before = .ok (.ok ())) : ∀ ds ∈ before, ds.range.stop ≤ slice.offset.toNat := by
  induction before with
  | nil => simp
  | cons ds before ih =>
    obtain ⟨hds, hrest⟩ := List.forall_mem_cons.mp hbefore
    rw [checkOverlap, add_eq_ok ds hds] at h
    obtain ⟨stop, hstop, h⟩ := bind_eq_ok_ok.mp h
    obtain rfl := Except.ok.inj (Except.ok.inj hstop)
    dsimp only at h
    split at h
    · cases h
    · rename_i hle
      exact List.forall_mem_cons.mpr ⟨Nat.le_of_not_lt hle, ih hrest h⟩

/-- One slice ends before the other starts. -/
def ConfigFilterAccountsDataSlice.Precedes (a b : ConfigFilterAccountsDataSlice) : Prop :=
  a.offset.toNat ≤ b.offset.toNat ∧ a.range.stop ≤ b.offset.toNat

theorem Arithmetic.checkDataSlices_ok (hbefore : ∀ ds ∈ before, ds.Fits) (hfits : ∀ ds ∈ slices, ds.Fits)
    (h : arith.checkDataSlices before slices = .ok (.ok ())) :
    slices.Pairwise (·.Precedes ·) ∧ ∀ b ∈ before, ∀ ds ∈ slices, b.range.stop ≤ ds.offset.toNat := by
  induction slices generalizing before with
  | nil => simp
  | cons slice after ih =>
    obtain ⟨hslice, hafter⟩ := List.forall_mem_cons.mp hfits
    rw [checkDataSlices] at h
    dsimp only at h
    split at h
    · cases h
    · rename_i horder
      obtain ⟨_, hoverlap, h⟩ := bind_eq_ok_ok.mp h
      have hstops := checkOverlap_ok hbefore hoverlap
      have hbefore' : ∀ ds ∈ before ++ [slice], ds.Fits := by
        simpa [or_imp, forall_and] using ⟨hbefore, hslice⟩
      obtain ⟨hpairs, hlater⟩ := ih hbefore' hafter h
      refine ⟨List.pairwise_cons.mpr ⟨fun ds hds => ⟨?_, ?_⟩, hpairs⟩, fun b hb ds hds => ?_⟩
      · have hle : ¬ ds.offset < slice.offset := fun hlt => horder (List.any_eq_true.mpr ⟨ds, hds, by simpa using hlt⟩)
        exact UInt64.not_lt.mp hle
      · exact hlater slice (by simp) ds hds
      · rcases List.mem_cons.mp hds with rfl | hds
        · exact hstops b hb
        · exact hlater b (List.mem_append_left _ hb) ds hds

/-- The lengths of slices that follow each other. -/
theorem sum_length_lt {lo : ℕ} (hlo : lo < 2 ^ 64) (hall : ∀ ds ∈ slices, lo ≤ ds.offset.toNat)
    (hfits : ∀ ds ∈ slices, ds.Fits) (hpairs : slices.Pairwise (·.Precedes ·)) :
    lo + (slices.map (·.length.toNat)).sum < 2 ^ 64 := by
  induction slices generalizing lo with
  | nil => simpa using hlo
  | cons ds slices ih =>
    obtain ⟨hle, -⟩ := List.forall_mem_cons.mp hall
    obtain ⟨hds, hrest⟩ := List.forall_mem_cons.mp hfits
    obtain ⟨hnext, hpairs⟩ := List.pairwise_cons.mp hpairs
    have hsum := ih hds (fun ds' hmem => (hnext ds' hmem).2) hrest hpairs
    rw [List.map_cons, List.sum_cons]
    omega

/-! ### What is cut out -/

theorem Arithmetic.newDataSlices_ok (hfits : ∀ ds ∈ slices, ds.Fits) :
    arith.newDataSlices slices = .ok (slices.map (·.range)) := by
  refine mapM_eq_ok.mpr (List.forall₂_map_right_iff.mpr (List.forall₂_same.mpr fun ds hds => ?_))
  exact bind_eq_ok.mpr ⟨_, add_eq_ok ds (hfits ds hds), rfl⟩

theorem Arithmetic.foldlM_capacity (arith : Arithmetic) {sum : ℕ}
    (hsum : sum + (slices.map (·.length.toNat)).sum < 2 ^ 64) :
    (slices.map (·.range)).foldlM (fun sum ds => do arith.add sum (← arith.sub ds.stop ds.start)) sum =
      .ok (sum + (slices.map (·.length.toNat)).sum) := by
  induction slices generalizing sum with
  | nil => rfl
  | cons ds slices ih =>
    rw [List.map_cons, List.sum_cons, ← Nat.add_assoc] at hsum
    have hlen : ds.length.toNat < 2 ^ 64 := ds.length.toNat_lt
    have hsub : arith.sub ds.range.stop ds.range.start = .ok ds.length.toNat := by
      cases arith with
      | checked => simp [sub, checkedSub, ConfigFilterAccountsDataSlice.range]
      | wrapping =>
        simp only [sub, ConfigFilterAccountsDataSlice.range, Except.ok.injEq]
        omega
    have hadd : arith.add sum ds.length.toNat = .ok (sum + ds.length.toNat) := by
      cases arith with
      | checked => exact if_pos (by omega)
      | wrapping => exact congrArg Except.ok (Nat.mod_eq_of_lt (by omega))
    rw [List.map_cons, List.foldlM_cons, List.map_cons, List.sum_cons, ← Nat.add_assoc, ← ih hsum]
    have hstep : (arith.sub ds.range.stop ds.range.start >>= fun len => arith.add sum len) =
        .ok (sum + ds.length.toNat) := bind_eq_ok.mpr ⟨_, hsub, hadd⟩
    rw [hstep]
    rfl

theorem extend_foldlM (data acc : Bytes) :
    (slices.map (·.range)).foldlM (fun data' ds => do
      if ds.stop ≤ data.length then return data' ++ (← indexRange data ds) else return data') acc =
      (.ok (acc ++ (insideSlices slices data).flatMap fun ds => Filter.slice data ds.range) :
        Except FilterPanic Bytes) := by
  induction slices generalizing acc with
  | nil => simp [insideSlices, pure, Except.pure]
  | cons ds slices ih =>
    rw [List.map_cons, List.foldlM_cons, insideSlices, List.filter_cons]
    by_cases hstop : ds.range.stop ≤ data.length
    · have hindex : indexRange data ds.range = .ok (Filter.slice data ds.range) :=
        if_pos ⟨Nat.le_add_right _ _, hstop⟩
      rw [if_pos hstop, hindex, if_pos (by simpa using hstop), List.flatMap_cons, ← List.append_assoc]
      exact ih _
    · rw [if_neg hstop, if_neg (by simpa using hstop)]
      exact ih acc

theorem extend_eq (data : Bytes) : FilterAccountDataSlices.extend (slices.map (·.range)) data =
    .ok ((insideSlices slices data).flatMap fun ds => Filter.slice data ds.range) := extend_foldlM data []

theorem Arithmetic.getSlice_eq (arith : Arithmetic) (data : Bytes)
    (hsum : (slices.map (·.length.toNat)).sum < 2 ^ 64)
    (hcapacity : 2 ≤ slices.length → (slices.map (·.length.toNat)).sum ≤ isizeMax) :
    arith.getSlice (slices.map (·.range)) data = .ok (slicedData slices data) := by
  match slices, hsum, hcapacity with
  | [], _, _ => rfl
  | [ds], _, _ =>
    have hextend : FilterAccountDataSlices.extend ([ds].map (·.range)) data =
        .ok ((insideSlices [ds] data).flatMap fun ds => Filter.slice data ds.range) := extend_eq data
    rw [slicedData, if_neg (by simp), ← hextend]
    simp only [List.map_cons, List.map_nil, getSlice, FilterAccountDataSlices.extend, List.foldlM_cons, List.foldlM_nil]
    by_cases hstop : ds.range.stop ≤ data.length
    · have hindex : indexRange data ds.range = .ok (Filter.slice data ds.range) :=
        if_pos ⟨Nat.le_add_right _ _, hstop⟩
      rw [if_pos hstop, if_pos hstop, hindex]
      rfl
    · rw [if_neg hstop, if_neg hstop]
      rfl
  | ds :: ds' :: rest, hsum, hcapacity =>
    have hfold : arith.capacity ((ds :: ds' :: rest).map (·.range)) =
        .ok (0 + ((ds :: ds' :: rest).map (·.length.toNat)).sum) := arith.foldlM_capacity (by rwa [Nat.zero_add])
    have hle := hcapacity (by simp)
    rw [slicedData, if_neg (by simp), ← extend_eq]
    change (arith.capacity ((ds :: ds' :: rest).map (·.range)) >>= fun capacity => _) = _
    rw [hfold, Nat.zero_add]
    exact if_neg (Nat.not_lt_of_le hle)

/-! ### The positions that are taken -/

theorem disjoint_positions {a b : ConfigFilterAccountsDataSlice} (h : a.Precedes b) :
    a.positions.Disjoint b.positions := by
  have hle : a.offset.toNat + a.length.toNat ≤ b.offset.toNat := h.2
  intro i ha hb
  simp only [ConfigFilterAccountsDataSlice.positions, List.mem_range'_1] at ha hb
  omega

theorem map_positions {ds : ConfigFilterAccountsDataSlice} {data : Bytes} (h : ds.range.stop ≤ data.length) :
    ds.positions.map (data[·]?) = (Filter.slice data ds.range).map some := by
  have hle : ds.offset.toNat + ds.length.toNat ≤ data.length := h
  have hlen : (Filter.slice data ds.range).length = ds.length.toNat := by
    simp only [Filter.slice, ConfigFilterAccountsDataSlice.range, List.length_take, List.length_drop]
    omega
  refine List.ext_getElem (by simp [ConfigFilterAccountsDataSlice.positions, hlen]) fun i hi hi' => ?_
  rw [List.length_map, hlen] at hi'
  have hlt : ds.offset.toNat + i < data.length := by omega
  simp [ConfigFilterAccountsDataSlice.positions, Filter.slice, ConfigFilterAccountsDataSlice.range, hlt]

/-- No byte is taken twice. -/
theorem slicedData_once (hpairs : slices.Pairwise (·.Precedes ·)) (hne : slices ≠ []) (data : Bytes) :
    ∃ positions : List ℕ, positions.Nodup ∧ (slicedData slices data).map some = positions.map (data[·]?) := by
  refine ⟨(insideSlices slices data).flatMap (·.positions), List.nodup_flatMap.mpr ⟨fun ds _ => ?_, ?_⟩, ?_⟩
  · exact List.nodup_range'
  · exact (hpairs.sublist List.filter_sublist).imp disjoint_positions
  · rw [slicedData, if_neg hne, List.map_flatMap, List.map_flatMap]
    refine List.flatMap_congr fun ds hds => (map_positions ?_).symm
    simpa using (List.mem_filter.mp hds).2

/-! ### When it holds -/

theorem sliced_of_fits (hpairs : slices.Pairwise (·.Precedes ·)) (hfits : ∀ ds ∈ slices, ds.Fits)
    (hcapacity : 2 ≤ slices.length → (slices.map (·.length.toNat)).sum ≤ isizeMax) : Sliced arith slices where
  ordered := hpairs.imp fun h => h.1
  disjoint := hpairs.imp disjoint_positions
  getSlice data := by
    have hsum := sum_length_lt (Nat.two_pow_pos 64) (fun ds _ => Nat.zero_le _) hfits hpairs
    rw [Nat.zero_add] at hsum
    exact ⟨_, Arithmetic.newDataSlices_ok hfits, arith.getSlice_eq data hsum hcapacity⟩
  once hne data := slicedData_once hpairs hne data
  single ds data heq := by
    subst heq
    refine ⟨_, Arithmetic.newDataSlices_ok hfits, ?_⟩
    have hlt := ds.length.toNat_lt
    rw [arith.getSlice_eq data (by simpa using hlt) hcapacity, extend_eq, slicedData, if_neg (by simp)]

/-- Without overflow checks a slice that ends beyond 64 bits is cut out of data that is long enough. -/
theorem not_extend {ranges : FilterAccountDataSlices} {range : Range} {data bytes : Bytes} (hmem : range ∈ ranges)
    (hstop : range.stop ≤ data.length) (hstart : range.stop < range.start) : ranges.extend data ≠ .ok bytes := by
  unfold FilterAccountDataSlices.extend
  generalize ([] : Bytes) = acc
  induction ranges generalizing acc with
  | nil => cases hmem
  | cons first ranges ih =>
    rw [List.foldlM_cons]
    intro h
    obtain ⟨acc', hacc, h⟩ := bind_eq_ok.mp h
    rcases List.mem_cons.mp hmem with rfl | hmem
    · rw [if_pos hstop, indexRange, if_neg (by omega)] at hacc
      cases hacc
    · exact ih hmem acc' h

theorem Arithmetic.newDataSlices_wrapping :
    newDataSlices .wrapping slices = .ok (slices.map fun ds =>
      ⟨ds.offset.toNat, (ds.offset.toNat + ds.length.toNat) % 2 ^ 64⟩) :=
  mapM_eq_ok.mpr (List.forall₂_map_right_iff.mpr (List.forall₂_same.mpr fun _ _ => rfl))

theorem Sliced.fits (h : Sliced arith slices) : ∀ ds ∈ slices, ds.Fits := by
  cases arith with
  | checked =>
    obtain ⟨ranges, hnew, -⟩ := h.getSlice []
    exact (newDataSlices_eq_ok.mp hnew).1
  | wrapping =>
    intro ds hds
    by_contra hno
    have hoffset := ds.offset.toNat_lt
    have hlength := ds.length.toNat_lt
    have hover : 2 ^ 64 ≤ ds.offset.toNat + ds.length.toNat := Nat.le_of_not_lt hno
    -- data that is as long as the wrapped end
    obtain ⟨ranges, hnew, hget⟩ := h.getSlice
      (List.replicate ((ds.offset.toNat + ds.length.toNat) % 2 ^ 64) 0)
    rw [Arithmetic.newDataSlices_wrapping] at hnew
    obtain rfl := Except.ok.inj hnew
    have hmem := List.mem_map_of_mem
      (f := fun ds : ConfigFilterAccountsDataSlice =>
        (⟨ds.offset.toNat, (ds.offset.toNat + ds.length.toNat) % 2 ^ 64⟩ : Range)) hds
    match slices, hds, hmem, hget with
    | [only], hds, _, hget =>
      obtain rfl := List.mem_singleton.mp hds
      simp only [List.map_cons, List.map_nil, Arithmetic.getSlice, List.length_replicate, le_refl, if_true,
        indexRange] at hget
      rw [if_neg (by omega)] at hget
      cases hget
    | a :: b :: rest, _, hmem, hget =>
      obtain ⟨capacity, -, hget⟩ := bind_eq_ok.mp hget
      split at hget
      · cases hget
      · exact not_extend hmem (by rw [List.length_replicate]) (by dsimp only; omega) hget

theorem Sliced.capacity (h : Sliced arith slices) (hpairs : slices.Pairwise (·.Precedes ·))
    (hlen : 2 ≤ slices.length) : (slices.map (·.length.toNat)).sum ≤ isizeMax := by
  have hsum := sum_length_lt (Nat.two_pow_pos 64) (fun ds _ => Nat.zero_le _) h.fits hpairs
  have hfold := arith.foldlM_capacity hsum
  obtain ⟨ranges, hnew, hget⟩ := h.getSlice []
  obtain rfl := Except.ok.inj ((Arithmetic.newDataSlices_ok h.fits).symm.trans hnew)
  rw [Nat.zero_add] at hfold
  match slices, hlen, hfold, hget with
  | a :: b :: rest, _, hfold, hget =>
    obtain ⟨capacity, hcapacity, hget⟩ := bind_eq_ok.mp hget
    obtain rfl := Except.ok.inj (hfold.symm.trans hcapacity)
    by_contra hlarge
    rw [if_pos (Nat.lt_of_not_le hlarge)] at hget
    cases hget

/-- The slices that are accepted give what they should exactly if none of them ends beyond 64 bits, and if there are
two or more, all of them together have the capacity of a vector. -/
theorem sliced_iff {limits : ConfigLimitsAccounts} (h : arith.checkSlices limits slices = .ok (.ok ())) :
    Sliced arith slices ↔ (∀ ds ∈ slices, ds.Fits) ∧
      (2 ≤ slices.length → (slices.map (·.length.toNat)).sum ≤ isizeMax) := by
  obtain ⟨_, -, hcheck⟩ := bind_eq_ok_ok.mp h
  constructor
  · intro hsliced
    have hpairs := (Arithmetic.checkDataSlices_ok (by simp) hsliced.fits hcheck).1
    exact ⟨hsliced.fits, hsliced.capacity hpairs⟩
  · rintro ⟨hfits, hcapacity⟩
    exact sliced_of_fits (Arithmetic.checkDataSlices_ok (by simp) hfits hcheck).1 hfits hcapacity

theorem sliced_pair : Sliced .wrapping [⟨0, 2⟩, ⟨2, 3⟩] := by
  have hcheck : Arithmetic.wrapping.checkSlices {} [⟨0, 2⟩, ⟨2, 3⟩] = .ok (.ok ()) := rfl
  exact (sliced_iff hcheck).mpr ⟨by simp [ConfigFilterAccountsDataSlice.Fits], by decide⟩

/-- Of one slice that is accepted no filter can be made with overflow checks. Without them two slices are accepted that
overlap. -/
theorem accepted_not_sliced :
    (Arithmetic.checked.checkSlices {} [⟨lastOffset, 2⟩] = .ok (.ok ()) ∧ ¬ Sliced .checked [⟨lastOffset, 2⟩]) ∧
      Arithmetic.wrapping.checkSlices {} [⟨10, lastOffset⟩, ⟨12, 1⟩] = .ok (.ok ()) ∧
        ¬ Sliced .wrapping [⟨10, lastOffset⟩, ⟨12, 1⟩] := by
  refine ⟨⟨rfl, fun h => ?_⟩, rfl, fun h => ?_⟩
  · have hfits : lastOffset.toNat + UInt64.toNat 2 < 2 ^ 64 := h.fits ⟨lastOffset, 2⟩ (by simp)
    revert hfits
    decide
  · have hfits : UInt64.toNat 10 + lastOffset.toNat < 2 ^ 64 := h.fits ⟨10, lastOffset⟩ (by simp)
    revert hfits
    decide

theorem Arithmetic.checkOverlap_checked : checkOverlap .checked slice before = Filter.checkOverlap slice before := by
  induction before with
  | nil => rfl
  | cons ds before ih =>
    rw [checkOverlap, Filter.checkOverlap, ih]
    rfl

theorem Arithmetic.checkDataSlices_checked :
    checkDataSlices .checked before slices = Filter.checkDataSlices before slices := by
  induction slices generalizing before with
  | nil => rfl
  | cons slice after ih =>
    rw [checkDataSlices, Filter.checkDataSlices, checkOverlap_checked]
    simp only [ih]

end

/-! ### The check of a filter, and the filter -/

namespace Arithmetic

variable (arith : Arithmetic)

/-- `ConfigLimits::check_filter`, with the slices after the rest. -/
def checkFilter (limits : ConfigLimits) (config : ConfigFilter) : Checked Unit := do
  limits.checkFilter { config with accountsDataSlice := [] }
  arith.checkSlices limits.accounts config.accountsDataSlice

/-- `Filter::new` -/
def newFilter (config : ConfigFilter) : Except FilterPanic ClientFilter := do
  let filter ← ClientFilter.new { config with accountsDataSlice := [] }
  return { filter with accountsDataSlices := ← arith.newDataSlices config.accountsDataSlice }

variable {limits : ConfigLimits} {config : ConfigFilter} {filter : ClientFilter}

/-- With overflow checks the same filters are accepted. -/
theorem checkFilter_checked :
    checkFilter .checked limits config = .ok (.ok ()) ↔ limits.checkFilter config = .ok (.ok ()) := by
  have hmax : ConfigLimits.checkMax 0 limits.accounts.dataSliceMax = .ok () := if_pos (Nat.zero_le _)
  have hnil : Filter.checkDataSlices [] [] = .ok (.ok ()) := rfl
  simp only [checkFilter, checkSlices, checkDataSlices_checked, ConfigLimits.checkFilter,
    ConfigLimitsAccounts.checkFilter, bind_eq_ok_ok, liftExcept_eq_ok_ok, List.length_nil, hmax, hnil]
  constructor
  · rintro ⟨_, ⟨_, hslots, _, ⟨_, hnamed, _, haccounts, -⟩, hrest⟩, hslices⟩
    exact ⟨(), hslots, (), ⟨(), hnamed, (), haccounts, hslices⟩, hrest⟩
  · rintro ⟨_, hslots, _, ⟨_, hnamed, _, haccounts, hslices⟩, hrest⟩
    exact ⟨(), ⟨(), hslots, (), ⟨(), hnamed, (), haccounts, (), trivial, trivial⟩, hrest⟩, hslices⟩

theorem newFilter_checked : newFilter .checked config = .ok filter ↔ ClientFilter.new config = .ok filter := by
  simp only [newFilter, ClientFilter.new, bind_eq_ok, newDataSlices, Filter.newDataSlices, add]
  constructor
  · rintro ⟨_, ⟨accounts, haccounts, _, hnil, hfilter⟩, slices, hslices, hpure⟩
    obtain rfl := Except.ok.inj hfilter
    exact ⟨accounts, haccounts, slices, hslices, hpure⟩
  · rintro ⟨accounts, haccounts, slices, hslices, hpure⟩
    exact ⟨_, ⟨accounts, haccounts, [], rfl, rfl⟩, slices, hslices, hpure⟩

end Arithmetic

end Richat.Filter
