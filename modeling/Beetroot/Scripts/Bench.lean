/-
Does the speed of the runner cancel out of the performance gate?

`aggregate` takes the mean of the samples of each backend and metric, `compute_ratios` divides it by the mean of the host backend,
and `detect_regressions` reports where such a ratio has grown by more than a factor over that of a baseline. The times are
positive rationals here, and arithmetic is exact.

The metrics are iterated in the order of a Python set; every such order is admitted, in each call another one.

Results:
- `get?_aggregate`, `ratio_computeRatios`, `mem_reported`: what each of the three functions computes, for every key;
- `ratioOf_rescaled`: a ratio does not change with the speed, the order or the number of copies of the samples;
- `speed_cancels`: nor does what is reported; it is where both runs have the samples and the ratio has grown by more than the
  factor, which is never so for the host.
-/
import Beetroot.Lib.Mean
import Mathlib.Algebra.Order.Field.Rat
import Mathlib.Data.List.Dedup

namespace Beetroot.Bench

open Lib Lib.Mean

/-! ## Samples and ratios -/

/-- a positive time -/
abbrev Seconds := { q : ℚ // 0 < q }

structure Sample where
  backend : String
  metric : String
  seconds : Seconds
deriving DecidableEq

structure Regression where
  backend : String
  metric : String
  current : ℚ
  baseline : ℚ
  factor : ℚ
deriving DecidableEq

/-- `RATIO_BASELINE_BACKEND` -/
def ratioBaselineBackend : String := "host"

/-- an order in which the elements of a set are iterated -/
structure SetOrder where
  list : List String → List String
  nodup : ∀ l, (list l).Nodup
  mem : ∀ l x, x ∈ list l ↔ x ∈ l

/-- the order of the first occurrences -/
def SetOrder.inserted : SetOrder where
  list := List.dedup
  nodup := List.nodup_dedup
  mem _ _ := List.mem_dedup

/-- `aggregate` -/
def aggregate (samples : List Sample) : Dict (String × String) ℚ :=
  (group (samples.map fun s => ((s.backend, s.metric), s.seconds.1))).mapVals mean

/-- the ratios of a metric -/
def perBackend (aggregated : Dict (String × String) ℚ) (metric : String) (base : ℚ) : Dict String ℚ :=
  Dict.ofList ((aggregated.entries.filter fun e => e.1.2 = metric).map fun e => (e.1.1, e.2 / base))

/-- the loop body of `compute_ratios` -/
def addMetric (aggregated : Dict (String × String) ℚ) (ratios : Dict String (Dict String ℚ)) (metric : String) :
    Dict String (Dict String ℚ) :=
  match aggregated.get? (ratioBaselineBackend, metric) with
  | none => ratios
  | some base => if base = 0 then ratios else ratios.set metric (perBackend aggregated metric base)

/-- `compute_ratios` -/
def computeRatios (order : SetOrder) (aggregated : Dict (String × String) ℚ) : Dict String (Dict String ℚ) :=
  (order.list (aggregated.keys.map Prod.snd)).foldl (addMetric aggregated) ∅

/-- one backend of a metric, in the inner loop of `detect_regressions` -/
def regression (factor : ℚ) (baselineBackends : Dict String ℚ) (metric : String) (e : String × ℚ) : Option Regression :=
  match baselineBackends.get? e.1 with
  | none => none
  | some before =>
    if before = 0 then none
    else if factor < e.2 / before then some ⟨e.1, metric, e.2, before, e.2 / before⟩ else none

/-- one metric, in the outer loop -/
def regressionsOf (factor : ℚ) (baseline : Dict String (Dict String ℚ)) (e : String × Dict String ℚ) : List Regression :=
  match baseline.get? e.1 with
  | none => []
  | some baselineBackends => e.2.entries.filterMap (regression factor baselineBackends e.1)

/-- `detect_regressions`; the sort is stable, and the largest growth comes first -/
def detectRegressions (current baseline : Dict String (Dict String ℚ)) (factor : ℚ) : List Regression :=
  (current.entries.flatMap (regressionsOf factor baseline)).mergeSort fun r r' => decide (r'.factor ≤ r.factor)

/-! ## What they compute -/

/-- the times of a backend and a metric -/
def times (samples : List Sample) (backend metric : String) : List ℚ :=
  (samples.filter fun s => s.backend = backend ∧ s.metric = metric).map fun s => s.seconds.1

/-- there is a sample of the backend and the metric -/
def Has (samples : List Sample) (backend metric : String) : Prop := ∃ s ∈ samples, s.backend = backend ∧ s.metric = metric

/-- the mean of a backend over that of the host -/
def ratioOf (samples : List Sample) (backend metric : String) : ℚ :=
  mean (times samples backend metric) / mean (times samples ratioBaselineBackend metric)

section Functions

variable {samples : List Sample} {backend metric : String}

theorem times_ne_nil : times samples backend metric ≠ [] ↔ Has samples backend metric := by
  rw [times, Ne, List.map_eq_nil_iff, List.filter_eq_nil_iff]
  simp [Has]

theorem times_pos {x : ℚ} (hx : x ∈ times samples backend metric) : 0 < x := by
  obtain ⟨s, -, rfl⟩ := List.mem_map.1 hx
  exact s.seconds.2

theorem mean_times_pos (h : Has samples backend metric) : 0 < mean (times samples backend metric) :=
  mean_pos (times_ne_nil.2 h) fun _ => times_pos

theorem ratioOf_pos (hhost : Has samples ratioBaselineBackend metric) (h : Has samples backend metric) :
    0 < ratioOf samples backend metric := div_pos (mean_times_pos h) (mean_times_pos hhost)

theorem valuesOf_samples (samples : List Sample) (backend metric : String) :
    valuesOf (backend, metric) (samples.map fun s => ((s.backend, s.metric), s.seconds.1)) = times samples backend metric := by
  rw [valuesOf, times, List.filter_map, List.map_map]
  congr 1
  apply List.filter_congr
  intro s _
  simp [Prod.ext_iff]

theorem get?_aggregate (samples : List Sample) (backend metric : String) : (aggregate samples).get? (backend, metric) =
    (nonempty (times samples backend metric)).map mean := by
  rw [aggregate, Dict.get?_mapVals, get?_group, valuesOf_samples]

theorem aggregate_some {v : ℚ} : (aggregate samples).get? (backend, metric) = some v ↔
    Has samples backend metric ∧ mean (times samples backend metric) = v := by
  rw [get?_aggregate, nonempty, ← times_ne_nil]
  by_cases h : times samples backend metric = [] <;> simp [h]

/-- a backend has one entry for a metric -/
theorem nodup_backends (aggregated : Dict (String × String) ℚ) (metric : String) (base : ℚ) :
    (((aggregated.entries.filter fun e => e.1.2 = metric).map fun e => (e.1.1, e.2 / base)).map Prod.fst).Nodup := by
  have hkeys : ((aggregated.entries.filter fun e => e.1.2 = metric).map Prod.fst).Nodup :=
    aggregated.nodup.sublist (List.filter_sublist.map Prod.fst)
  have hsplit : ((aggregated.entries.filter fun e => e.1.2 = metric).map fun e => (e.1.1, e.2 / base)).map Prod.fst =
      ((aggregated.entries.filter fun e => e.1.2 = metric).map Prod.fst).map Prod.fst := by
    rw [List.map_map, List.map_map]
    rfl
  rw [hsplit]
  refine List.Nodup.map_on ?_ hkeys
  intro k hk k' hk' hname
  obtain ⟨e, he, rfl⟩ := List.mem_map.1 hk
  obtain ⟨e', he', rfl⟩ := List.mem_map.1 hk'
  have hmetric : e.1.2 = metric := by simpa using (List.mem_filter.1 he).2
  have hmetric' : e'.1.2 = metric := by simpa using (List.mem_filter.1 he').2
  exact Prod.ext hname (hmetric.trans hmetric'.symm)

theorem perBackend_some {aggregated : Dict (String × String) ℚ} {base v : ℚ} :
    (perBackend aggregated metric base).get? backend = some v ↔
      ∃ t, aggregated.get? (backend, metric) = some t ∧ t / base = v := by
  rw [Dict.get?_eq_some, perBackend, Dict.ofList_entries _ (nodup_backends aggregated metric base), List.mem_map]
  constructor
  · intro h
    obtain ⟨⟨⟨b, m⟩, t⟩, he, heq⟩ := h
    obtain ⟨hmem, hmetric⟩ := List.mem_filter.1 he
    rw [decide_eq_true_eq] at hmetric
    simp only [Prod.mk.injEq] at heq hmetric
    obtain ⟨rfl, rfl⟩ := heq
    subst hmetric
    exact ⟨t, Dict.get?_eq_some.2 hmem, rfl⟩
  · intro h
    obtain ⟨t, hget, rfl⟩ := h
    exact ⟨((backend, metric), t), List.mem_filter.2 ⟨Dict.get?_eq_some.1 hget, by simp⟩, rfl⟩

/-- the ratios of a metric, if the host has a time for it -/
def ratiosOf (aggregated : Dict (String × String) ℚ) (metric : String) : Option (Dict String ℚ) :=
  (aggregated.get? (ratioBaselineBackend, metric)).bind fun base =>
    if base = 0 then none else some (perBackend aggregated metric base)

theorem get?_addMetric (aggregated : Dict (String × String) ℚ) (ratios : Dict String (Dict String ℚ)) (metric other : String) :
    (addMetric aggregated ratios metric).get? other =
      if other = metric then (ratiosOf aggregated metric).or (ratios.get? other) else ratios.get? other := by
  unfold addMetric ratiosOf
  cases aggregated.get? (ratioBaselineBackend, metric) with
  | none => simp
  | some base =>
    by_cases hbase : base = 0
    · simp [hbase]
    · simp only [hbase, if_false, Option.bind_some, Option.some_or]
      rw [Dict.get?_set]

theorem get?_foldl_addMetric (aggregated : Dict (String × String) ℚ) (metrics : List String)
    (ratios : Dict String (Dict String ℚ)) (metric : String) : (metrics.foldl (addMetric aggregated) ratios).get? metric =
      if metric ∈ metrics then (ratiosOf aggregated metric).or (ratios.get? metric) else ratios.get? metric := by
  induction metrics generalizing ratios with
  | nil => simp
  | cons other metrics ih =>
    rw [List.foldl_cons, ih, get?_addMetric]
    by_cases heq : metric = other
    · subst heq
      cases ratiosOf aggregated metric <;> simp
    · by_cases hmem : metric ∈ metrics <;> simp [heq, hmem]

theorem get?_computeRatios (order : SetOrder) (aggregated : Dict (String × String) ℚ) (metric : String) :
    (computeRatios order aggregated).get? metric = ratiosOf aggregated metric := by
  have hempty : (∅ : Dict String (Dict String ℚ)).get? metric = none := rfl
  rw [computeRatios, get?_foldl_addMetric, hempty, Option.or_none]
  by_cases hmem : metric ∈ aggregated.keys.map Prod.snd
  · rw [if_pos ((order.mem _ _).2 hmem)]
  · have hnone : aggregated.get? (ratioBaselineBackend, metric) = none :=
      Dict.get?_eq_none.2 fun h => hmem (List.mem_map.2 ⟨_, h, rfl⟩)
    rw [if_neg fun h => hmem ((order.mem _ _).1 h), ratiosOf, hnone]
    rfl

/-- a ratio is there if the host and the backend have samples -/
theorem ratio_computeRatios (order : SetOrder) (samples : List Sample) {backend metric : String} {v : ℚ} :
    (∃ per, (computeRatios order (aggregate samples)).get? metric = some per ∧ per.get? backend = some v) ↔
      Has samples ratioBaselineBackend metric ∧ Has samples backend metric ∧ ratioOf samples backend metric = v := by
  rw [get?_computeRatios, ratiosOf]
  constructor
  · intro h
    obtain ⟨per, hper, hv⟩ := h
    obtain ⟨base, hbase, hper⟩ := Option.bind_eq_some_iff.1 hper
    split_ifs at hper
    cases hper
    obtain ⟨t, ht, rfl⟩ := perBackend_some.1 hv
    obtain ⟨hhost, rfl⟩ := aggregate_some.1 hbase
    obtain ⟨hbackend, rfl⟩ := aggregate_some.1 ht
    exact ⟨hhost, hbackend, rfl⟩
  · intro h
    obtain ⟨hhost, hbackend, rfl⟩ := h
    have hbase := aggregate_some.2 ⟨hhost, rfl⟩
    have hne : mean (times samples ratioBaselineBackend metric) ≠ 0 := ne_of_gt (mean_times_pos hhost)
    refine ⟨_, Option.bind_eq_some_iff.2 ⟨_, hbase, if_neg hne⟩, ?_⟩
    exact perBackend_some.2 ⟨_, aggregate_some.2 ⟨hbackend, rfl⟩, rfl⟩

theorem regression_some {factor : ℚ} {baselineBackends : Dict String ℚ} {e : String × ℚ} {r : Regression} :
    regression factor baselineBackends metric e = some r ↔ ∃ before, baselineBackends.get? e.1 = some before ∧ before ≠ 0 ∧
      factor < e.2 / before ∧ r = ⟨e.1, metric, e.2, before, e.2 / before⟩ := by
  unfold regression
  cases baselineBackends.get? e.1 with
  | none => simp
  | some before =>
    by_cases hzero : before = 0
    · simp [hzero]
    · by_cases hgrown : factor < e.2 / before
      · simp [hzero, hgrown, eq_comm]
      · simp [hzero, hgrown]

theorem mem_detectRegressions {current baseline : Dict String (Dict String ℚ)} {factor : ℚ} {r : Regression} :
    r ∈ detectRegressions current baseline factor ↔ ∃ per before, current.get? r.metric = some per ∧
      per.get? r.backend = some r.current ∧ baseline.get? r.metric = some before ∧ before.get? r.backend = some r.baseline ∧
      r.baseline ≠ 0 ∧ r.factor = r.current / r.baseline ∧ factor < r.factor := by
  rw [detectRegressions, List.mem_mergeSort, List.mem_flatMap]
  constructor
  · intro h
    obtain ⟨⟨metric, per⟩, he, hr⟩ := h
    unfold regressionsOf at hr
    cases hbaseline : baseline.get? metric with
    | none =>
      rw [hbaseline] at hr
      exact absurd hr List.not_mem_nil
    | some baselineBackends =>
      rw [hbaseline] at hr
      obtain ⟨⟨backend, now⟩, hnow, hreg⟩ := List.mem_filterMap.1 hr
      obtain ⟨before, hbefore, hzero, hgrown, rfl⟩ := regression_some.1 hreg
      exact ⟨per, baselineBackends, Dict.get?_eq_some.2 he, Dict.get?_eq_some.2 hnow, hbaseline, hbefore, hzero, rfl, hgrown⟩
  · intro h
    obtain ⟨per, baselineBackends, hper, hnow, hbaseline, hbefore, hzero, hfactor, hgrown⟩ := h
    refine ⟨(r.metric, per), Dict.get?_eq_some.1 hper, ?_⟩
    unfold regressionsOf
    rw [hbaseline]
    refine List.mem_filterMap.2 ⟨(r.backend, r.current), Dict.get?_eq_some.1 hnow, ?_⟩
    rw [hfactor] at hgrown
    refine regression_some.2 ⟨r.baseline, hbefore, hzero, hgrown, ?_⟩
    cases r
    simp only at hfactor
    rw [hfactor]

end Functions

/-! ## What is reported -/

/-- backend, metric and growth of the regressions of a run against a baseline -/
def reported (order order' : SetOrder) (current baseline : List Sample) (factor : ℚ) : Set (String × String × ℚ) :=
  { t | ∃ r ∈ detectRegressions (computeRatios order (aggregate current)) (computeRatios order' (aggregate baseline)) factor,
    t = (r.backend, r.metric, r.factor) }

def Sample.scaled (k : Seconds) (s : Sample) : Sample := { s with seconds := ⟨k.1 * s.seconds.1, mul_pos k.2 s.seconds.2⟩ }

/-- the same samples, each as many times, on a runner that is slower by a factor, in any order -/
def Rescaled (k : Seconds) (n : ℕ) (samples samples' : List Sample) : Prop :=
  samples'.Perm ((samples.flatMap fun s => List.replicate n s).map (Sample.scaled k))

section Reports

variable {samples samples' : List Sample} {backend metric : String} {k : Seconds} {n : ℕ}

theorem times_perm (h : samples.Perm samples') (backend metric : String) :
    (times samples backend metric).Perm (times samples' backend metric) := (h.filter _).map _

theorem has_perm (h : samples.Perm samples') : Has samples backend metric ↔ Has samples' backend metric := by
  simp only [Has, h.mem_iff]

theorem times_scaled (k : Seconds) (samples : List Sample) (backend metric : String) :
    times (samples.map (Sample.scaled k)) backend metric = (times samples backend metric).map fun x => k.1 * x := by
  rw [times, times, List.filter_map, List.map_map, List.map_map]
  rfl

theorem times_append (xs ys : List Sample) (backend metric : String) :
    times (xs ++ ys) backend metric = times xs backend metric ++ times ys backend metric := by
  rw [times, List.filter_append, List.map_append]
  rfl

theorem times_copies (n : ℕ) (samples : List Sample) (backend metric : String) :
    times (samples.flatMap fun s => List.replicate n s) backend metric =
      (times samples backend metric).flatMap fun x => List.replicate n x := by
  induction samples with
  | nil => rfl
  | cons s samples ih =>
    have hcons : times (s :: samples) backend metric = times [s] backend metric ++ times samples backend metric :=
      times_append [s] samples backend metric
    rw [List.flatMap_cons, times_append, ih, hcons, List.flatMap_append]
    congr 1
    by_cases h : s.backend = backend ∧ s.metric = metric
    · simp [times, h]
    · simp [times, h]

theorem mean_rescaled (hn : 0 < n) (h : Rescaled k n samples samples') (backend metric : String) :
    mean (times samples' backend metric) = k.1 * mean (times samples backend metric) := by
  rw [mean_perm (times_perm h backend metric), times_scaled, times_copies, mean_scale, mean_copies hn]

theorem has_rescaled (hn : 0 < n) (h : Rescaled k n samples samples') :
    Has samples' backend metric ↔ Has samples backend metric := by
  have hnil : ∀ xs : List ℚ, (∀ x ∈ xs, List.replicate n x = []) ↔ xs = [] := by
    intro xs
    simp [Nat.pos_iff_ne_zero.1 hn, List.eq_nil_iff_forall_not_mem]
  rw [has_perm h, ← times_ne_nil, ← times_ne_nil, times_scaled, times_copies, Ne, Ne, List.map_eq_nil_iff,
    List.flatMap_eq_nil_iff, hnil]

/-- the speed of the runner cancels out of a ratio -/
theorem ratioOf_rescaled (hn : 0 < n) (h : Rescaled k n samples samples') (backend metric : String) :
    ratioOf samples' backend metric = ratioOf samples backend metric := by
  rw [ratioOf, ratioOf, mean_rescaled hn h, mean_rescaled hn h, mul_div_mul_left _ _ (ne_of_gt k.2)]

/-- where both runs have the samples and the ratio has grown by more than the factor -/
theorem mem_reported {order order' : SetOrder} {current baseline : List Sample} {factor g : ℚ} :
    (backend, metric, g) ∈ reported order order' current baseline factor ↔
      (Has current ratioBaselineBackend metric ∧ Has current backend metric) ∧
      (Has baseline ratioBaselineBackend metric ∧ Has baseline backend metric) ∧
      g = ratioOf current backend metric / ratioOf baseline backend metric ∧ factor < g := by
  constructor
  · intro h
    obtain ⟨r, hr, ht⟩ := h
    obtain ⟨per, before, hper, hnow, hbaseline, hbefore, -, hfactor, hgrown⟩ := mem_detectRegressions.1 hr
    simp only [Prod.mk.injEq] at ht
    obtain ⟨rfl, rfl, rfl⟩ := ht
    obtain ⟨hhost, hbackend, hcurrent⟩ := (ratio_computeRatios order current).1 ⟨per, hper, hnow⟩
    obtain ⟨hhost', hbackend', hbase⟩ := (ratio_computeRatios order' baseline).1 ⟨before, hbaseline, hbefore⟩
    exact ⟨⟨hhost, hbackend⟩, ⟨hhost', hbackend'⟩, by rw [hfactor, hcurrent, hbase], hgrown⟩
  · intro h
    obtain ⟨⟨hhost, hbackend⟩, ⟨hhost', hbackend'⟩, hg, hgrown⟩ := h
    obtain ⟨per, hper, hnow⟩ := (ratio_computeRatios order current).2 ⟨hhost, hbackend, rfl⟩
    obtain ⟨before, hbaseline, hbefore⟩ := (ratio_computeRatios order' baseline).2 ⟨hhost', hbackend', rfl⟩
    have hzero : ratioOf baseline backend metric ≠ 0 := ne_of_gt (ratioOf_pos hhost' hbackend')
    refine ⟨⟨backend, metric, ratioOf current backend metric, ratioOf baseline backend metric, g⟩, ?_, rfl⟩
    exact mem_detectRegressions.2 ⟨per, before, hper, hnow, hbaseline, hbefore, hzero, hg, hgrown⟩

/-- What is reported does not depend on the speed of the current runner, on the order of either list, on how often each current
sample was taken, or on the order of a set; the host is never reported, and another backend is where both runs have samples of it
and of the host and its ratio has grown by more than the factor. -/
theorem speed_cancels (order order' : SetOrder) (current baseline : List Sample) {factor : ℚ} (hfactor : 1 ≤ factor) :
    (∀ (o o' : SetOrder) (k : Seconds) (n : ℕ) (current' baseline' : List Sample), 0 < n → Rescaled k n current current' →
      baseline'.Perm baseline →
      reported o o' current' baseline' factor = reported order order' current baseline factor) ∧
    (∀ metric g, (ratioBaselineBackend, metric, g) ∉ reported order order' current baseline factor) ∧
    ∀ backend metric g, (backend, metric, g) ∈ reported order order' current baseline factor ↔
      (Has current ratioBaselineBackend metric ∧ Has current backend metric) ∧
      (Has baseline ratioBaselineBackend metric ∧ Has baseline backend metric) ∧
      g = ratioOf current backend metric / ratioOf baseline backend metric ∧ factor < g := by
  refine ⟨fun o o' k n current' baseline' hn hcurrent hbaseline => ?_, fun metric g h => ?_, fun _ _ _ => mem_reported⟩
  · ext ⟨backend, metric, g⟩
    have hratio : ratioOf baseline' backend metric = ratioOf baseline backend metric := by
      rw [ratioOf, ratioOf, mean_perm (times_perm hbaseline backend metric), mean_perm (times_perm hbaseline _ metric)]
    rw [mem_reported, mem_reported, has_rescaled hn hcurrent, has_rescaled hn hcurrent, has_perm hbaseline, has_perm hbaseline,
      ratioOf_rescaled hn hcurrent, hratio]
  · obtain ⟨⟨hhost, -⟩, ⟨hhost', -⟩, hg, hgrown⟩ := mem_reported.1 h
    have hone : ∀ {samples}, Has samples ratioBaselineBackend metric → ratioOf samples ratioBaselineBackend metric = 1 :=
      fun h => div_self (ne_of_gt (mean_times_pos h))
    rw [hone hhost, hone hhost', div_one] at hg
    rw [hg] at hgrown
    exact absurd hfactor (not_le_of_gt hgrown)

end Reports

/-! ## A slower vm -/

def sample (backend : String) (seconds : Seconds) : Sample := ⟨backend, "boot_seconds", seconds⟩

def baselineRun : List Sample := [sample "host" ⟨10, by decide⟩, sample "vm-kvm" ⟨12, by decide⟩]

/-- the vm boots in four times the time -/
def currentRun : List Sample := [sample "host" ⟨10, by decide⟩, sample "vm-kvm" ⟨40, by decide⟩, sample "vm-kvm" ⟨56, by decide⟩]

/-- every sample twice, on a runner with a third of the speed -/
def slowRun : List Sample := (currentRun.flatMap fun s => List.replicate 2 s).map (Sample.scaled ⟨3, by decide⟩)

theorem speed_cancels_slow :
    reported .inserted .inserted slowRun baselineRun.reverse 2 = reported .inserted .inserted currentRun baselineRun 2 ∧
    ("vm-kvm", "boot_seconds", 4) ∈ reported .inserted .inserted currentRun baselineRun 2 := by
  obtain ⟨hsame, -, hmem⟩ := speed_cancels .inserted .inserted currentRun baselineRun (show (1 : ℚ) ≤ 2 by decide)
  refine ⟨hsame .inserted .inserted ⟨3, by decide⟩ 2 slowRun _ (by decide) (List.Perm.refl _) (List.reverse_perm _), ?_⟩
  apply (hmem "vm-kvm" "boot_seconds" 4).2
  refine ⟨⟨⟨_, List.mem_cons_self, rfl, rfl⟩, ?_⟩, ⟨⟨_, List.mem_cons_self, rfl, rfl⟩, ?_⟩, by decide +kernel, by decide⟩
  · exact ⟨sample "vm-kvm" ⟨40, by decide⟩, by decide, rfl, rfl⟩
  · exact ⟨sample "vm-kvm" ⟨12, by decide⟩, by decide, rfl, rfl⟩

end Beetroot.Bench
