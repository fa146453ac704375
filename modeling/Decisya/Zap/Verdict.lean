import Decisya.Zap.Policy

/-!
# What a verdict says of the report

Every instance of an alert that is not a false positive is judged once, and the exit code is 0
only where nothing is left to judge against the scan.
-/

namespace Decisya.Zap

open Calendar Python

set_option autoImplicit false

section Verdict
variable (python : PythonText) (tables : UrlTables) (today : Date) (exceptions : List Entry)

/-! ## The judgements -/

/-- What becomes of one instance of an alert. -/
inductive Judged where
  | foreign
  | low (key : ReportedKey)
  | excepted (row : Row) (hit : Entry)
  | finding (row : Row)

def Judged.finding? : Judged → Option Row
  | finding row => some row
  | _ => none

def Judged.excepted? : Judged → Option (Row × Str)
  | excepted row hit => some (row, hit.issue)
  | _ => none

def Judged.used? : Judged → Option (Str × Str)
  | excepted _ hit => some (hit.pluginId, hit.path)
  | _ => none

def Judged.low? : Judged → Option ReportedKey
  | low key => some key
  | _ => none

def Judged.isForeign : Judged → Bool
  | foreign => true
  | _ => false

/-- The judgement on an instance at a URL. -/
def judgeUrl (a : Alert) (uri : Str) : Judged :=
  if isBffOrigin tables uri = true then
    if a.risk < medium then .low (a.plugin, a.name, a.risk)
    else match hitOf today exceptions a.plugin (pathOf tables uri) with
      | some hit => .excepted ⟨a.plugin, a.name, a.risk, pathOf tables uri⟩ hit
      | none => .finding ⟨a.plugin, a.name, a.risk, pathOf tables uri⟩
  else .foreign

def judge (a : Alert) (inst : Json) : Judged :=
  match uriOf inst with
  | some (.str uri) => judgeUrl tables today exceptions a uri
  | _ => .foreign

def foreignProblem (a : Alert) : Str :=
  "an alert instance of plugin ".toList ++ (if a.plugin = [] then ['?'] else a.plugin) ++
    " is not on https://localhost:7200".toList

/-- An alert of the report is looked into unless it is no object or a false positive. -/
def isKept (alert : Json) : Bool :=
  isObject alert && !isFalsePositive python (Json.lookup (fieldsOf alert) "confidence".toList)

def alertJudgements (alert : Json) : List Judged :=
  if isKept python alert = true then
    (instancesOf alert).map (judge tables today exceptions (alertOf python alert))
  else []

/-- The alerts of a site, where there is a list of them. -/
def alertsOf (site : Json) : Option (List Json) :=
  match Json.lookup (fieldsOf site) "alerts".toList with
  | some (.arr alerts) => some alerts
  | _ => none

def siteJudgements (site : Json) : List Judged :=
  ((alertsOf site).getD []).flatMap (alertJudgements python tables today exceptions)

/-- All instances of the report, in its order. -/
def judgements (report : Json) : List Judged :=
  (sitesOf report).1.flatMap (siteJudgements python tables today exceptions)

/-- The problem that the site is another one. -/
def nameProblems (site : Json) : List Str :=
  when (!isBffOriginValue tables (Json.lookup (fieldsOf site) "@name".toList))
    "a report site is not https://localhost:7200".toList

def alertProblems (alert : Json) : List Str :=
  when (!isObject alert) "a report alert is not an object".toList ++
    (alertJudgements python tables today exceptions alert).flatMap fun j =>
      when j.isForeign (foreignProblem (alertOf python alert))

def siteProblems (site : Json) : List Str :=
  if isObject site = false then ["a report site entry is not an object".toList]
  else
    nameProblems tables site ++
    match alertsOf site with
    | some alerts => alerts.flatMap (alertProblems python tables today exceptions)
    | none => ["a report site has no 'alerts' list".toList]

/-! ## The loops compute them -/

section Loops
variable {tables today exceptions}

/-- What the loop does with a judgement. -/
def Verdict.record (a : Alert) (v : Verdict) : Judged → Verdict
  | .foreign => { v with problems := v.problems ++ [foreignProblem a] }
  | .low key => { v with reported := Folds.bump v.reported key }
  | .excepted row hit =>
    { v with
      used := v.used ++ [(hit.pluginId, hit.path)]
      excepted := v.excepted ++ [(row, hit.issue)] }
  | .finding row => { v with findings := v.findings ++ [row] }

theorem judge_text {inst : Json} {uri : Str} (a : Alert) (h : uriOf inst = some (.str uri)) :
    judge tables today exceptions a inst = judgeUrl tables today exceptions a uri := by
  simp only [judge, h]

theorem judge_other {inst : Json} (a : Alert) (h : ∀ uri, uriOf inst ≠ some (.str uri)) :
    judge tables today exceptions a inst = .foreign := by
  unfold judge
  split
  · rename_i uri huri
    exact absurd huri (h uri)
  · rfl

theorem addInstance_text {inst : Json} {uri : Str} (a : Alert) (v : Verdict)
    (h : uriOf inst = some (.str uri)) :
    addInstance tables today exceptions a v inst =
      v.record a (judgeUrl tables today exceptions a uri) := by
  unfold addInstance judgeUrl
  rw [h]
  dsimp only
  by_cases horigin : isBffOrigin tables uri = true
  · rw [if_pos horigin, if_pos horigin]
    by_cases hrisk : a.risk < medium
    · rw [if_pos hrisk, if_pos hrisk]
      rfl
    · rw [if_neg hrisk, if_neg hrisk]
      cases hitOf today exceptions a.plugin (pathOf tables uri) <;> rfl
  · rw [if_neg horigin, if_neg horigin]
    rfl

theorem addInstance_other {inst : Json} (a : Alert) (v : Verdict)
    (h : ∀ uri, uriOf inst ≠ some (.str uri)) :
    addInstance tables today exceptions a v inst = v.record a .foreign := by
  unfold addInstance
  split
  · rename_i uri huri
    exact absurd huri (h uri)
  · rfl

theorem addInstance_eq (a : Alert) (v : Verdict) (inst : Json) :
    addInstance tables today exceptions a v inst = v.record a (judge tables today exceptions a inst) := by
  by_cases htext : ∃ uri, uriOf inst = some (.str uri)
  · obtain ⟨uri, huri⟩ := htext
    rw [addInstance_text a v huri, judge_text a huri]
  · push Not at htext
    rw [addInstance_other a v htext, judge_other a htext]

theorem record_findings (a : Alert) (v : Verdict) (j : Judged) :
    (v.record a j).findings = v.findings ++ j.finding?.toList := by
  cases j <;> simp [Verdict.record, Judged.finding?]

theorem record_excepted (a : Alert) (v : Verdict) (j : Judged) :
    (v.record a j).excepted = v.excepted ++ j.excepted?.toList := by
  cases j <;> simp [Verdict.record, Judged.excepted?]

theorem record_used (a : Alert) (v : Verdict) (j : Judged) :
    (v.record a j).used = v.used ++ j.used?.toList := by
  cases j <;> simp [Verdict.record, Judged.used?]

theorem record_reported (a : Alert) (v : Verdict) (j : Judged) :
    (v.record a j).reported = j.low?.toList.foldl Folds.bump v.reported := by
  cases j <;> simp [Verdict.record, Judged.low?]

theorem record_problems (a : Alert) (v : Verdict) (j : Judged) :
    (v.record a j).problems = v.problems ++ when j.isForeign (foreignProblem a) := by
  cases j <;> simp [Verdict.record, Judged.isForeign, when]

end Loops

/-- A part of a verdict, with what a judgement adds to it. -/
structure Part (β : Type) where
  of : Verdict → List β
  added : Judged → List β
  record : ∀ a (v : Verdict) j, of (v.record a j) = of v ++ added j
  problems : ∀ (v : Verdict) problems, of { v with problems := problems } = of v

def findingsPart : Part Row := ⟨Verdict.findings, fun j => j.finding?.toList, record_findings, fun _ _ => rfl⟩

def exceptedPart : Part (Row × Str) :=
  ⟨Verdict.excepted, fun j => j.excepted?.toList, record_excepted, fun _ _ => rfl⟩

def usedPart : Part (Str × Str) := ⟨Verdict.used, fun j => j.used?.toList, record_used, fun _ _ => rfl⟩

/-- The loop over the instances, where there is one. -/
def instanceLoop (v : Verdict) (alert : Json) : Verdict :=
  (instancesOf alert).foldl (addInstance tables today exceptions (alertOf python alert)) v

theorem addAlert_kept {alert : Json} (v : Verdict) (h : isKept python alert = true) :
    addAlert python tables today exceptions v alert =
      instanceLoop python tables today exceptions v alert := by
  unfold isKept at h
  rw [Bool.and_eq_true, Bool.not_eq_true'] at h
  unfold addAlert
  rw [h.1, h.2, if_neg Bool.noConfusion, if_neg Bool.false_ne_true]
  rfl

theorem addAlert_dropped {alert : Json} (v : Verdict) (h : isKept python alert = false) :
    addAlert python tables today exceptions v alert =
      { v with problems := v.problems ++ when (!isObject alert) "a report alert is not an object".toList } := by
  unfold isKept at h
  unfold addAlert
  cases hobject : isObject alert with
  | false =>
    rw [if_pos rfl]
    rfl
  | true =>
    rw [hobject, Bool.true_and, Bool.not_eq_false'] at h
    rw [if_neg Bool.noConfusion, if_pos h]
    simp only [Bool.not_true, when, Bool.false_eq_true, if_false, List.append_nil]

theorem alertsOf_eq_some (site : Json) (alerts : List Json) :
    alertsOf site = some alerts ↔
      Json.lookup (fieldsOf site) "alerts".toList = some (.arr alerts) := by
  unfold alertsOf
  constructor
  · intro h
    split at h
    · rename_i found hfound
      cases h
      exact hfound
    · cases h
  · intro h
    rw [h]

theorem addSite_alerts {site : Json} {alerts : List Json} (v : Verdict)
    (hobject : isObject site = true) (h : alertsOf site = some alerts) :
    addSite python tables today exceptions v site =
      alerts.foldl (addAlert python tables today exceptions)
        { v with problems := v.problems ++ nameProblems tables site } := by
  have hfound := (alertsOf_eq_some site alerts).mp h
  unfold addSite
  rw [hobject, if_neg Bool.noConfusion]
  dsimp only
  rw [hfound]
  rfl

theorem addSite_none {site : Json} (v : Verdict) (hobject : isObject site = true)
    (h : alertsOf site = none) :
    addSite python tables today exceptions v site =
      { v with problems := (v.problems ++ nameProblems tables site) ++
        ["a report site has no 'alerts' list".toList] } := by
  have hother : ∀ alerts, Json.lookup (fieldsOf site) "alerts".toList ≠ some (.arr alerts) := by
    intro alerts hfound
    rw [(alertsOf_eq_some site alerts).mpr hfound] at h
    cases h
  unfold addSite
  rw [hobject, if_neg Bool.noConfusion]
  dsimp only
  split
  · rename_i found hfound
    exact absurd hfound (hother found)
  · rfl

section Parts
variable {β : Type} (part : Part β)

theorem Part.addAlert (v : Verdict) (alert : Json) :
    part.of (addAlert python tables today exceptions v alert) =
      part.of v ++ (alertJudgements python tables today exceptions alert).flatMap part.added := by
  unfold alertJudgements
  cases hkept : isKept python alert with
  | true =>
    rw [addAlert_kept _ _ _ _ v hkept, if_pos rfl, List.flatMap_map]
    apply Folds.foldl_collects
    intro w inst
    rw [addInstance_eq, part.record]
  | false =>
    rw [addAlert_dropped _ _ _ _ v hkept, part.problems, if_neg Bool.false_ne_true, List.flatMap_nil,
      List.append_nil]

theorem Part.addSite (v : Verdict) (site : Json) :
    part.of (addSite python tables today exceptions v site) =
      part.of v ++ (siteJudgements python tables today exceptions site).flatMap part.added := by
  unfold siteJudgements
  cases hobject : isObject site with
  | false =>
    have hnone : alertsOf site = none := by
      cases site <;> first | rfl | cases hobject
    have hsite : Zap.addSite python tables today exceptions v site =
        { v with problems := v.problems ++ ["a report site entry is not an object".toList] } := by
      unfold Zap.addSite
      rw [if_pos hobject]
    rw [hsite, part.problems, hnone, Option.getD_none, List.flatMap_nil, List.flatMap_nil,
      List.append_nil]
  | true =>
    cases halerts : alertsOf site with
    | none =>
      rw [addSite_none _ _ _ _ v hobject halerts, part.problems, Option.getD_none, List.flatMap_nil,
        List.flatMap_nil, List.append_nil]
    | some alerts =>
      rw [addSite_alerts _ _ _ _ v hobject halerts,
        Folds.foldl_collects _ part.of _ (part.addAlert python tables today exceptions), part.problems,
        Option.getD_some, List.flatMap_assoc]

/-- What the report adds to the part, instance after instance. -/
theorem Part.sites (sites : List Json) (v : Verdict) :
    part.of (sites.foldl (Zap.addSite python tables today exceptions) v) =
      part.of v ++ (sites.flatMap (siteJudgements python tables today exceptions)).flatMap part.added := by
  rw [Folds.foldl_collects _ part.of _ (part.addSite python tables today exceptions),
    List.flatMap_assoc]

end Parts

theorem addAlert_problems (v : Verdict) (alert : Json) :
    (addAlert python tables today exceptions v alert).problems =
      v.problems ++ alertProblems python tables today exceptions alert := by
  unfold alertProblems alertJudgements
  cases hkept : isKept python alert with
  | true =>
    have hobject : isObject alert = true := by
      unfold isKept at hkept
      exact (Bool.and_eq_true _ _ ▸ hkept).1
    rw [addAlert_kept _ _ _ _ v hkept, if_pos rfl, List.flatMap_map, hobject]
    apply Folds.foldl_collects
    intro w inst
    rw [addInstance_eq, record_problems]
  | false =>
    rw [addAlert_dropped _ _ _ _ v hkept, if_neg Bool.false_ne_true, List.flatMap_nil, List.append_nil]

theorem addSite_problems (v : Verdict) (site : Json) :
    (addSite python tables today exceptions v site).problems =
      v.problems ++ siteProblems python tables today exceptions site := by
  unfold siteProblems
  cases hobject : isObject site with
  | false =>
    rw [if_pos rfl, addSite, if_pos hobject]
  | true =>
    rw [if_neg Bool.noConfusion]
    cases halerts : alertsOf site with
    | none => rw [addSite_none _ _ _ _ v hobject halerts, List.append_assoc]
    | some alerts =>
      rw [addSite_alerts _ _ _ _ v hobject halerts,
        Folds.foldl_collects _ Verdict.problems _ (addAlert_problems python tables today exceptions),
        List.append_assoc]

theorem addAlert_reported (v : Verdict) (alert : Json) :
    (addAlert python tables today exceptions v alert).reported =
      ((alertJudgements python tables today exceptions alert).flatMap fun j => j.low?.toList).foldl
        Folds.bump v.reported := by
  unfold alertJudgements
  cases hkept : isKept python alert with
  | true =>
    rw [addAlert_kept _ _ _ _ v hkept, if_pos rfl, List.flatMap_map, Folds.foldl_flatMap]
    apply Folds.foldl_part
    intro w inst
    rw [addInstance_eq, record_reported]
  | false =>
    rw [addAlert_dropped _ _ _ _ v hkept, if_neg Bool.false_ne_true, List.flatMap_nil, List.foldl_nil]

theorem addSite_reported (v : Verdict) (site : Json) :
    (addSite python tables today exceptions v site).reported =
      ((siteJudgements python tables today exceptions site).flatMap fun j => j.low?.toList).foldl
        Folds.bump v.reported := by
  unfold siteJudgements
  cases hobject : isObject site with
  | false =>
    have hnone : alertsOf site = none := by
      cases site <;> first | rfl | cases hobject
    rw [addSite, if_pos hobject, hnone, Option.getD_none, List.flatMap_nil, List.flatMap_nil,
      List.foldl_nil]
  | true =>
    cases halerts : alertsOf site with
    | none =>
      rw [addSite_none _ _ _ _ v hobject halerts, Option.getD_none, List.flatMap_nil, List.flatMap_nil,
        List.foldl_nil]
    | some alerts =>
      rw [addSite_alerts _ _ _ _ v hobject halerts, Option.getD_some, List.flatMap_assoc,
        Folds.foldl_flatMap]
      apply Folds.foldl_part
      exact addAlert_reported python tables today exceptions

/-! ## The verdict as a whole -/

section Whole
variable (report : Json) (urls : Option (List Str)) (zapExit : ℤ)

theorem flatMap_toList {α β : Type} (f : α → Option β) (items : List α) :
    (items.flatMap fun a => (f a).toList) = items.filterMap f := by
  rw [List.filterMap_eq_flatMap_toList]

theorem evaluate_findings :
    (evaluate python tables today report urls zapExit exceptions).findings =
      (judgements python tables today exceptions report).filterMap Judged.finding? := by
  have hsites := findingsPart.sites python tables today exceptions (sitesOf report).1
    ⟨exitProblems python zapExit ++ urlProblems tables urls ++ (sitesOf report).2, [], [], [], []⟩
  rw [← flatMap_toList]
  exact hsites

theorem evaluate_excepted :
    (evaluate python tables today report urls zapExit exceptions).excepted =
      (judgements python tables today exceptions report).filterMap Judged.excepted? := by
  have hsites := exceptedPart.sites python tables today exceptions (sitesOf report).1
    ⟨exitProblems python zapExit ++ urlProblems tables urls ++ (sitesOf report).2, [], [], [], []⟩
  rw [← flatMap_toList]
  exact hsites

theorem evaluate_used :
    (evaluate python tables today report urls zapExit exceptions).used =
      (judgements python tables today exceptions report).filterMap Judged.used? := by
  have hsites := usedPart.sites python tables today exceptions (sitesOf report).1
    ⟨exitProblems python zapExit ++ urlProblems tables urls ++ (sitesOf report).2, [], [], [], []⟩
  rw [← flatMap_toList]
  exact hsites

theorem evaluate_problems :
    (evaluate python tables today report urls zapExit exceptions).problems =
      exitProblems python zapExit ++ urlProblems tables urls ++ (sitesOf report).2 ++
        (sitesOf report).1.flatMap (siteProblems python tables today exceptions) :=
  Folds.foldl_collects _ Verdict.problems _ (addSite_problems python tables today exceptions) _ _

theorem evaluate_reported :
    (evaluate python tables today report urls zapExit exceptions).reported =
      (((judgements python tables today exceptions report).filterMap Judged.low?).foldl
        Folds.bump []).mergeSort reportedLe := by
  have hsites := Folds.foldl_part _ Verdict.reported
    (fun counts site => ((siteJudgements python tables today exceptions site).flatMap fun j =>
      j.low?.toList).foldl Folds.bump counts)
    (addSite_reported python tables today exceptions) (sitesOf report).1
    ⟨exitProblems python zapExit ++ urlProblems tables urls ++ (sitesOf report).2, [], [], [], []⟩
  rw [← flatMap_toList, judgements, List.flatMap_assoc, Folds.foldl_flatMap]
  exact congrArg (fun counts => List.mergeSort counts reportedLe) hsites

end Whole

end Verdict

theorem length_judged (judged : List Judged) :
    (judged.filterMap Judged.finding?).length + (judged.filterMap Judged.excepted?).length +
      (judged.filterMap Judged.low?).length + judged.countP Judged.isForeign = judged.length := by
  induction judged with
  | nil => rfl
  | cons j judged ih =>
    cases j <;>
      simp [List.filterMap_cons, List.countP_cons, Judged.finding?, Judged.excepted?, Judged.low?,
        Judged.isForeign] <;>
      omega

/-- The verdict's rows are the judgements on the instances, each in one of them: the findings and
the excepted ones in the order of the report, the others counted by their alert, and those of
another origin as problems. -/
theorem evaluate_classifies (python : PythonText) (tables : UrlTables) (today : Date)
    (exceptions : List Entry) (report : Json) (urls : Option (List Str)) (zapExit : ℤ) :
    let v := evaluate python tables today report urls zapExit exceptions
    let judged := judgements python tables today exceptions report
    v.findings = judged.filterMap Judged.finding? ∧
      v.excepted = judged.filterMap Judged.excepted? ∧
      v.used = judged.filterMap Judged.used? ∧
      (∀ key n, (key, n) ∈ v.reported ↔ 0 < n ∧ (judged.filterMap Judged.low?).count key = n) ∧
      v.findings.length + v.excepted.length + (v.reported.map Prod.snd).sum +
        judged.countP Judged.isForeign = judged.length := by
  have hfindings := evaluate_findings python tables today exceptions report urls zapExit
  have hexcepted := evaluate_excepted python tables today exceptions report urls zapExit
  have hused := evaluate_used python tables today exceptions report urls zapExit
  have hreported := evaluate_reported python tables today exceptions report urls zapExit
  intro v judged
  refine ⟨hfindings, hexcepted, hused, fun key n => ?_, ?_⟩
  · have hperm := List.mergeSort_perm ((judged.filterMap Judged.low?).foldl Folds.bump []) reportedLe
    rw [show v.reported = _ from hreported, hperm.mem_iff]
    exact Folds.mem_foldl_bump_iff _ key n
  · have hsum : (v.reported.map Prod.snd).sum = (judged.filterMap Judged.low?).length := by
      have hperm := List.mergeSort_perm ((judged.filterMap Judged.low?).foldl Folds.bump []) reportedLe
      rw [show v.reported = _ from hreported, (hperm.map Prod.snd).sum_eq, Folds.sum_foldl_bump]
      simp
    rw [show v.findings = _ from hfindings, show v.excepted = _ from hexcepted, hsum]
    exact length_judged judged

/-! ## Exit code 0 -/

section Exit
variable (python : PythonText) (tables : UrlTables) (today : Date) (entries : List Entry)

/-- The instance is the scan's own and of low risk, or an active entry covers it. -/
def InstanceSettled (a : Alert) (inst : Json) : Prop :=
  ∃ uri, uriOf inst = some (.str uri) ∧ isBffOrigin tables uri = true ∧
    (a.risk < medium ∨ ∃ e ∈ entries, today ≤ e.expiresDate ∧ e.pluginId = a.plugin ∧
      pathCovered e.path (pathOf tables uri) = true)

def AlertSettled (alert : Json) : Prop :=
  isObject alert = true ∧
    (isFalsePositive python (Json.lookup (fieldsOf alert) "confidence".toList) = true ∨
      ∀ inst ∈ instancesOf alert, InstanceSettled tables today entries (alertOf python alert) inst)

def SiteSettled (site : Json) : Prop :=
  (∃ name, Json.lookup (fieldsOf site) "@name".toList = some (.str name) ∧
      isBffOrigin tables name = true) ∧
    ∃ alerts, Json.lookup (fieldsOf site) "alerts".toList = some (.arr alerts) ∧
      ∀ alert ∈ alerts, AlertSettled python tables today entries alert

def ReportSettled (report : Json) : Prop :=
  ∃ sites, Json.lookup (fieldsOf report) "site".toList = some (.arr sites) ∧
    ∀ site ∈ sites, SiteSettled python tables today entries site

/-- The scan reached the pages it has to, and nothing but the scan's origin. -/
def Covers (urls : List Str) : Prop :=
  urls ≠ [] ∧ (∀ url ∈ urls, isBffOrigin tables url = true) ∧
    ∀ path ∈ requiredPaths, ∃ url ∈ urls, pathOf tables url = path

theorem when_eq_nil {bad : Bool} {message : Str} : when bad message = [] ↔ bad = false := by
  cases bad <;> simp [when]

theorem exitProblems_eq_nil (zapExit : ℤ) :
    exitProblems python zapExit = [] ↔ zapExit ∈ okZapExitCodes := by
  rw [exitProblems, when_eq_nil]
  simp

theorem urlProblems_eq_nil (urls : Option (List Str)) :
    urlProblems tables urls = [] ↔ ∃ us, urls = some us ∧ Covers tables us := by
  cases urls with
  | none => simp [urlProblems]
  | some us =>
    cases us with
    | nil => simp [urlProblems, Covers]
    | cons u us =>
      unfold urlProblems
      dsimp only
      rw [List.append_eq_nil_iff, when_eq_nil, List.flatMap_eq_nil_iff]
      simp only [decide_eq_false_iff_not, not_not, when_eq_nil, Bool.not_eq_false',
        List.contains_iff_mem, List.filter_eq_nil_iff, Bool.not_eq_true', Bool.not_eq_false]
      constructor
      · rintro ⟨horigin, hpaths⟩
        refine ⟨u :: us, rfl, List.cons_ne_nil _ _, horigin, fun path hpath => ?_⟩
        obtain ⟨url, hurl, heq⟩ := List.mem_map.mp (hpaths path hpath)
        exact ⟨url, (List.mem_filter.mp hurl).1, heq⟩
      · rintro ⟨us', heq, -, horigin, hpaths⟩
        cases heq
        refine ⟨horigin, fun path hpath => ?_⟩
        obtain ⟨url, hurl, heq⟩ := hpaths path hpath
        exact List.mem_map.mpr ⟨url, List.mem_filter.mpr ⟨hurl, horigin url hurl⟩, heq⟩

theorem hitOf_eq_none (plugin path : Str) :
    hitOf today entries plugin path = none ↔
      ∀ e ∈ entries, today ≤ e.expiresDate → e.pluginId = plugin → pathCovered e.path path = false := by
  rw [hitOf, List.find?_eq_none]
  constructor
  · intro h e he hactive hplugin
    have hnot := h e (List.mem_filter.mpr ⟨he, decide_eq_true hactive⟩)
    simpa [hplugin] using hnot
  · intro h e he hhit
    obtain ⟨hmem, hactive⟩ := List.mem_filter.mp he
    rw [Bool.and_eq_true, decide_eq_true_iff] at hhit
    rw [h e hmem (of_decide_eq_true hactive) hhit.1] at hhit
    exact absurd hhit.2 Bool.false_ne_true

/-- An instance is settled if its judgement is neither a problem nor a finding. -/
theorem instanceSettled_iff (a : Alert) (inst : Json) :
    InstanceSettled tables today entries a inst ↔
      (judge tables today entries a inst).isForeign = false ∧
        (judge tables today entries a inst).finding? = none := by
  by_cases htext : ∃ uri, uriOf inst = some (.str uri)
  · obtain ⟨uri, huri⟩ := htext
    have hsettled : InstanceSettled tables today entries a inst ↔ isBffOrigin tables uri = true ∧
        (a.risk < medium ∨ ∃ e ∈ entries, today ≤ e.expiresDate ∧ e.pluginId = a.plugin ∧
          pathCovered e.path (pathOf tables uri) = true) := by
      constructor
      · rintro ⟨other, hother, h⟩
        rw [huri] at hother
        cases hother
        exact h
      · exact fun h => ⟨uri, huri, h⟩
    rw [hsettled, judge_text a huri]
    unfold judgeUrl
    by_cases horigin : isBffOrigin tables uri = true
    · rw [if_pos horigin]
      by_cases hrisk : a.risk < medium
      · rw [if_pos hrisk]
        simp [horigin, hrisk, Judged.isForeign, Judged.finding?]
      · rw [if_neg hrisk]
        cases hhit : hitOf today entries a.plugin (pathOf tables uri) with
        | some hit =>
          have hfound := List.find?_some hhit
          have hmem := List.mem_filter.mp (List.mem_of_find?_eq_some hhit)
          rw [Bool.and_eq_true, decide_eq_true_iff] at hfound
          simp only [Judged.isForeign, Judged.finding?, and_self, iff_true]
          exact ⟨horigin, .inr ⟨hit, hmem.1, of_decide_eq_true hmem.2, hfound.1, hfound.2⟩⟩
        | none =>
          have hnone := (hitOf_eq_none today entries a.plugin (pathOf tables uri)).mp hhit
          refine iff_of_false ?_ (by simp [Judged.finding?])
          rintro ⟨-, hlow | ⟨e, he, hactive, hplugin, hcovered⟩⟩
          · exact hrisk hlow
          · rw [hnone e he hactive hplugin] at hcovered
            cases hcovered
    · rw [if_neg horigin]
      simp [horigin, Judged.isForeign]
  · push Not at htext
    rw [judge_other a htext]
    refine iff_of_false ?_ (by simp [Judged.isForeign])
    rintro ⟨uri, huri, -⟩
    exact htext uri huri

theorem alertSettled_iff (alert : Json) :
    AlertSettled python tables today entries alert ↔
      alertProblems python tables today entries alert = [] ∧
        (alertJudgements python tables today entries alert).filterMap Judged.finding? = [] := by
  unfold AlertSettled alertProblems alertJudgements isKept
  rw [List.append_eq_nil_iff, when_eq_nil, Bool.not_eq_false']
  cases hobject : isObject alert with
  | false => simp
  | true =>
    cases hpositive : isFalsePositive python (Json.lookup (fieldsOf alert) "confidence".toList) with
    | true => simp
    | false =>
      rw [Bool.not_false, Bool.and_true, if_pos rfl, List.flatMap_eq_nil_iff,
        List.filterMap_eq_nil_iff]
      simp only [true_and, Bool.false_eq_true, false_or, List.mem_map, forall_exists_index, and_imp,
        forall_apply_eq_imp_iff₂, when_eq_nil, instanceSettled_iff]
      constructor
      · intro h
        exact ⟨fun inst hinst => (h inst hinst).1, fun inst hinst => (h inst hinst).2⟩
      · intro h inst hinst
        exact ⟨h.1 inst hinst, h.2 inst hinst⟩

theorem nameProblems_eq_nil (site : Json) :
    nameProblems tables site = [] ↔
      ∃ name, Json.lookup (fieldsOf site) "@name".toList = some (.str name) ∧
        isBffOrigin tables name = true := by
  unfold nameProblems
  rw [when_eq_nil, Bool.not_eq_false']
  constructor
  · intro h
    unfold isBffOriginValue at h
    split at h
    · rename_i name hname
      exact ⟨name, hname, h⟩
    · cases h
  · rintro ⟨name, hname, horigin⟩
    rw [hname]
    exact horigin

theorem siteSettled_iff (site : Json) :
    SiteSettled python tables today entries site ↔
      siteProblems python tables today entries site = [] ∧
        (siteJudgements python tables today entries site).filterMap Judged.finding? = [] := by
  unfold SiteSettled siteProblems siteJudgements
  simp only [← alertsOf_eq_some, ← nameProblems_eq_nil]
  cases hobject : isObject site with
  | false =>
    have hnone : alertsOf site = none := by
      cases site <;> first | rfl | cases hobject
    simp [hnone]
  | true =>
    rw [if_neg Bool.noConfusion, List.append_eq_nil_iff]
    cases halerts : alertsOf site with
    | none => simp
    | some alerts =>
      simp only [Option.some.injEq, exists_eq_left', Option.getD_some, List.flatMap_eq_nil_iff,
        List.filterMap_flatMap, alertSettled_iff]
      constructor
      · rintro ⟨hname, h⟩
        exact ⟨⟨hname, fun alert halert => (h alert halert).1⟩, fun alert halert => (h alert halert).2⟩
      · rintro ⟨⟨hname, hproblems⟩, hfindings⟩
        exact ⟨hname, fun alert halert => ⟨hproblems alert halert, hfindings alert halert⟩⟩

theorem reportSettled_iff (report : Json) :
    ReportSettled python tables today entries report ↔
      (sitesOf report).2 = [] ∧
        (sitesOf report).1.flatMap (siteProblems python tables today entries) = [] ∧
        (judgements python tables today entries report).filterMap Judged.finding? = [] := by
  unfold ReportSettled judgements sitesOf
  split
  · rename_i sites hsites
    rw [hsites]
    simp only [Option.some.injEq, Json.arr.injEq, exists_eq_left', List.flatMap_eq_nil_iff,
      List.filterMap_flatMap, siteSettled_iff, true_and]
    constructor
    · intro h
      exact ⟨fun site hsite => (h site hsite).1, fun site hsite => (h site hsite).2⟩
    · intro h site hsite
      exact ⟨h.1 site hsite, h.2 site hsite⟩
  · rename_i hother
    refine iff_of_false ?_ (by simp)
    rintro ⟨sites, hsites, -⟩
    exact hother sites hsites

theorem not_reportSettled_null : ¬ReportSettled python tables today entries .null := by
  rintro ⟨sites, hsites, -⟩
  cases hsites

end Exit

end Decisya.Zap
