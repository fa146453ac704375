import Decisya.ImageScan.Record

/-!
# A start the gate allows would pass the policy again

The gate sees the earliest `expires` behind each excepted finding, never the documents. An
entry that comes before the one the policy took was expired on the day of the scan and stays
so, hence the policy takes the same entry as long as that one has not expired.
-/

namespace Decisya.ImageScan

open Calendar Python

set_option autoImplicit false

/-! ## The texts of instants -/

theorem isDigit_digitChar {n : ℕ} (h : n < 10) : isDigit (Nat.digitChar n) = true := by
  interval_cases n <;> rfl

theorem isDay_isoformat (d : Date) : isDay d.isoformat = true := by
  have hyear := d.year_valid.2
  have hmonth := d.month_valid.2
  have hday := d.day_lt
  have h1 := isDigit_digitChar (n := d.year / 100 / 10) (by omega)
  have h2 := isDigit_digitChar (n := d.year / 100 % 10) (by omega)
  have h3 := isDigit_digitChar (n := d.year % 100 / 10) (by omega)
  have h4 := isDigit_digitChar (n := d.year % 100 % 10) (by omega)
  have h5 := isDigit_digitChar (n := d.month / 10) (by omega)
  have h6 := isDigit_digitChar (n := d.month % 10) (by omega)
  have h7 := isDigit_digitChar (n := d.day / 10) (by omega)
  have h8 := isDigit_digitChar (n := d.day % 10) (by omega)
  change [_, _, _, _, _, _, _, _].all isDigit = true
  simp only [List.all_cons, List.all_nil, Bool.and_true, Bool.and_eq_true]
  exact ⟨h1, h2, h3, h4, h5, h6, h7, h8⟩

theorem isClock_clock (t : Instant) : isClock t.clock = true := by
  have hhour := t.hour_lt
  have hminute := t.minute_lt
  have hsecond := t.second_lt
  have h1 := isDigit_digitChar (n := t.hour / 10) (by omega)
  have h2 := isDigit_digitChar (n := t.hour % 10) (by omega)
  have h3 := isDigit_digitChar (n := t.minute / 10) (by omega)
  have h4 := isDigit_digitChar (n := t.minute % 10) (by omega)
  have h5 := isDigit_digitChar (n := t.second / 10) (by omega)
  have h6 := isDigit_digitChar (n := t.second % 10) (by omega)
  change [_, _, _, _, _, _].all isDigit = true
  simp only [List.all_cons, List.all_nil, Bool.and_true, Bool.and_eq_true]
  exact ⟨h1, h2, h3, h4, h5, h6⟩

theorem strftime_day (t : Instant) : (strftime t).take 10 = t.date.isoformat := rfl

theorem strftime_clock (t : Instant) : ((strftime t).drop 11).take 8 = t.clock := rfl

theorem isScannedAt_strftime (t : Instant) : isScannedAt (strftime t) = true := by
  unfold isScannedAt
  rw [strftime_day, strftime_clock, isDay_isoformat, isClock_clock]
  rfl

theorem isoRe_strftime (t : Instant) : isoRe (strftime t) = some (['0'], ['Z']) := by
  have hsep : ((strftime t).drop 10).take 1 ∈ [['T'], [' ']] := List.mem_cons_self
  unfold isoRe
  rw [strftime_day, strftime_clock, isDay_isoformat, isClock_clock, if_pos ⟨rfl, hsep, rfl⟩]
  rfl

theorem readStamp_strftime (t : Instant) :
    readStamp (strftime t) ['0'] ['Z'] = some (t.floor, 0) := by
  have hhour := number_twoDigits (n := t.hour) (by have h := t.hour_lt; omega)
  have hminute := number_twoDigits (n := t.minute) (by have h := t.minute_lt; omega)
  have hsecond := number_twoDigits (n := t.second) (by have h := t.second_lt; omega)
  have hmicro : number ((['0'] ++ "000000".toList).take 6) = some 0 := rfl
  have h1 : t.clock.take 2 = twoDigits t.hour := rfl
  have h2 : (t.clock.drop 3).take 2 = twoDigits t.minute := rfl
  have h3 : (t.clock.drop 6).take 2 = twoDigits t.second := rfl
  unfold readStamp
  dsimp only
  rw [strftime_day, strftime_clock, Date.fromisoformat?_isoformat, h1, h2, h3, hhour, hminute,
    hsecond, hmicro]
  simp only [Option.bind_eq_bind, Option.bind_some, Instant.of?_clock]
  rfl

/-- What `scan` writes is read back as the instant without its fraction of a second. -/
theorem parseUtc_strftime (t : Instant) : parseUtc (strftime t) = some (some t.floor) := by
  unfold parseUtc
  rw [isoRe_strftime]
  dsimp only
  rw [readStamp_strftime]
  dsimp only
  rw [show -((0 : ℤ) * 1000000) = 0 by decide, Instant.shift?_zero]
  rfl

/-! ## The policy on a later day -/

theorem hitOf_mem {exceptions : List Entry} {today : Date} {name : Str} {b : Blocking}
    {hit : Entry} (h : hitOf exceptions today name b = some hit) :
    hit ∈ exceptions ∧ hit.covers name b = true := by
  have hmem := List.mem_of_find?_eq_some h
  have hcovers := List.find?_some h
  exact ⟨List.mem_of_mem_filter hmem, hcovers⟩

/-- An entry before the one taken covers nothing or has expired, and then it stays so. -/
theorem hitOf_later {exceptions : List Entry} {today later : Date} {name : Str} {b : Blocking}
    {hit : Entry} (h : hitOf exceptions today name b = some hit) (hlater : today ≤ later)
    (hactive : later ≤ hit.expires) : hitOf exceptions later name b = some hit := by
  unfold hitOf at h ⊢
  rw [List.find?_filter] at h ⊢
  obtain ⟨htaken, before, after, rfl, hbefore⟩ := List.find?_eq_some_iff_append.mp h
  apply List.find?_eq_some_iff_append.mpr
  refine ⟨?_, before, after, rfl, ?_⟩
  · simp only [decide_eq_true_eq] at htaken ⊢
    exact ⟨hactive, htaken.2⟩
  · intro e he
    have hno := hbefore e he
    simp only [Bool.not_eq_true', decide_eq_false_iff_not, decide_eq_true_eq, not_and] at hno ⊢
    intro hle
    exact hno (le_trans hlater hle)

theorem settle_excepted {name : Str} {tagState : Option TagState} {tagLabel : Str} {b : Blocking}
    {found : Option Entry} {item : Item} {hit : Entry}
    (h : settle name tagState tagLabel b found = some (.excepted item hit)) :
    found = some hit ∧ item.image = b.item.image ∧ item.package = b.item.package := by
  cases found with
  | none => cases h
  | some e =>
    unfold settle at h
    dsimp only at h
    split at h
    · cases hkeeps : keepsFixedException e name b.artifact tagState with
      | none => rw [hkeeps] at h; cases h
      | some keeps =>
        rw [hkeeps] at h
        simp only [Option.bind_eq_bind, Option.bind_some] at h
        split at h
        · cases h
          exact ⟨rfl, rfl, rfl⟩
        · split at h
          · obtain ⟨eligible, -, hjudged⟩ := Option.bind_eq_some_iff.mp h
            cases hjudged
          · cases h
    · cases h
      exact ⟨rfl, rfl, rfl⟩

theorem mapM_congr_of_some {α β : Type} {f g : α → Option β} {xs : List α} {ys : List β}
    (h : xs.mapM f = some ys) (hfg : ∀ x, ∀ y ∈ ys, f x = some y → g x = some y) :
    xs.mapM g = some ys := by
  induction xs generalizing ys with
  | nil => simpa using h
  | cons x xs ih =>
    simp only [List.mapM_cons, Option.bind_eq_bind, Option.bind_eq_some_iff, Option.pure_def,
      Option.some.injEq] at h ⊢
    obtain ⟨first, hfirst, rest, hrest, rfl⟩ := h
    have hx := hfg x first List.mem_cons_self hfirst
    have hxs := ih hrest fun z y hy => hfg z y (List.mem_cons_of_mem first hy)
    exact ⟨first, hx, rest, hxs, rfl⟩

theorem mem_of_mapM {α β : Type} {f : α → Option β} {xs : List α} {ys : List β}
    (h : xs.mapM f = some ys) {y : β} (hy : y ∈ ys) : ∃ x ∈ xs, f x = some y := by
  induction xs generalizing ys with
  | nil =>
    have hnil : ys = [] := by simpa using h.symm
    rw [hnil] at hy
    cases hy
  | cons x xs ih =>
    simp only [List.mapM_cons, Option.bind_eq_bind, Option.bind_eq_some_iff, Option.pure_def,
      Option.some.injEq] at h
    obtain ⟨first, hfirst, rest, hrest, rfl⟩ := h
    rcases List.mem_cons.mp hy with rfl | hmem
    · exact ⟨x, List.mem_cons_self, hfirst⟩
    · obtain ⟨z, hz, hzy⟩ := ih hrest hmem
      exact ⟨z, List.mem_cons_of_mem x hz, hzy⟩

section Judge
variable {elevates : Json → Option Bool} {name : Str} {exceptions : List Entry}
  {today later : Date} {tagState : Option TagState} {tagLabel : Str}

theorem blocking_image {m : Json} {b : Blocking}
    (h : blocking elevates name m = some (some b)) : b.item.image = name := by
  unfold blocking at h
  simp only [Option.bind_eq_bind, Option.bind_eq_some_iff] at h
  obtain ⟨vuln, -, related, -, artifact, -, severity, -, h⟩ := h
  cases severity with
  | none => cases h
  | some severity =>
    simp only [Option.bind_eq_some_iff, Option.some.injEq] at h
    obtain ⟨ids, -, fix, -, package, -, version, -, id, -, type, -, state, -, text, -, rfl⟩ := h
    rfl

/-- An excepted finding names an entry of the list, for this image and package. -/
theorem judge_excepted {m : Json} {item : Item} {hit : Entry}
    (h : judge elevates name exceptions today tagState tagLabel m
      = some (some (.excepted item hit))) :
    hit ∈ exceptions ∧ hit.image = item.image ∧ item.package.isStr hit.package = true := by
  rcases judge_cases h with ⟨-, hnone⟩ | ⟨b, judged, hblocking, hfound, hsettle⟩
  · cases hnone
  · cases hfound
    obtain ⟨hhit, himage, hpackage⟩ := settle_excepted hsettle
    obtain ⟨hmem, hcovers⟩ := hitOf_mem hhit
    simp only [Entry.covers, Bool.and_eq_true, decide_eq_true_eq] at hcovers
    refine ⟨hmem, ?_, ?_⟩
    · rw [himage, blocking_image hblocking]
      exact hcovers.1.1
    · rw [hpackage]
      exact hcovers.1.2

/-- What the policy said without a finding it says again while the entry it took is active. -/
theorem judge_later {m : Json} {found : Option Judged} (hlater : today ≤ later)
    (h : judge elevates name exceptions today tagState tagLabel m = some found)
    (hactive : ∀ judged, found = some judged → ∃ item hit,
      judged = .excepted item hit ∧ later ≤ hit.expires) :
    judge elevates name exceptions later tagState tagLabel m = some found := by
  rcases judge_cases h with ⟨hblocking, rfl⟩ | ⟨b, judged, hblocking, rfl, hsettle⟩
  · unfold judge
    rw [hblocking]
    rfl
  · obtain ⟨item, hit, rfl, hexpires⟩ := hactive judged rfl
    have hhit := (settle_excepted hsettle).1
    have hhit' := hitOf_later hhit hlater hexpires
    unfold judge
    rw [hblocking]
    simp only [Option.bind_eq_bind, Option.bind_some]
    rw [hhit', ← hhit, hsettle]
    rfl

theorem judgements_excepted {doc : Json} {judged : List Judged} {item : Item} {hit : Entry}
    (h : judgements elevates doc name exceptions today tagState tagLabel = some judged)
    (hmem : .excepted item hit ∈ judged) :
    hit ∈ exceptions ∧ hit.image = item.image ∧ item.package.isStr hit.package = true := by
  unfold judgements at h
  simp only [Option.bind_eq_bind, Option.bind_eq_some_iff, Option.some.injEq] at h
  obtain ⟨field, -, value, -, ms, -, found, hfound, rfl⟩ := h
  obtain ⟨some', hsome, hid⟩ := List.mem_filterMap.mp hmem
  cases hid
  obtain ⟨m, -, hjudge⟩ := mem_of_mapM hfound hsome
  exact judge_excepted hjudge

/-- No finding on the day of the scan, and every entry relied on still active: the same
judgements on the later day. -/
theorem judgements_later {doc : Json} {judged : List Judged} (hlater : today ≤ later)
    (h : judgements elevates doc name exceptions today tagState tagLabel = some judged)
    (hfindings : judged.filterMap Judged.finding? = [])
    (hactive : ∀ item hit, .excepted item hit ∈ judged → later ≤ hit.expires) :
    judgements elevates doc name exceptions later tagState tagLabel = some judged := by
  unfold judgements at h ⊢
  simp only [Option.bind_eq_bind, Option.bind_eq_some_iff, Option.some.injEq] at h ⊢
  obtain ⟨field, hfield, value, hvalue, ms, hms, found, hfound, rfl⟩ := h
  refine ⟨field, hfield, value, hvalue, ms, hms, found, ?_, rfl⟩
  apply mapM_congr_of_some hfound
  intro m one hone hjudge
  apply judge_later hlater hjudge
  intro judged hjudged
  cases hjudged
  have hmem : judged ∈ found.filterMap id := List.mem_filterMap.mpr ⟨some judged, hone, rfl⟩
  cases judged with
  | finding item =>
    have hin : item ∈ (found.filterMap id).filterMap Judged.finding? :=
      List.mem_filterMap.mpr ⟨_, hmem, rfl⟩
    rw [hfindings] at hin
    cases hin
  | excepted item hit => exact ⟨item, hit, rfl, hactive item hit hmem⟩

end Judge

/-! ## The record of a green scan -/

section Record
variable {elevates : Json → Option Bool} {pyStr : Json → Str} {isOther : Char → Bool}
  {run : Run} {entries : List Entry} {today : Date} {bindings deployed : Bindings}
  {record : Record} {now : Instant}

theorem evaluateTarget_eq (name ref : Str) (doc : Json) :
    evaluateTarget elevates run entries today name ref doc =
      (judgeTarget elevates run entries today name ref doc).map fun judged =>
        ⟨judged.filterMap Judged.finding?, judged.filterMap Judged.excepted?,
          judged.filterMap Judged.used?⟩ := by
  unfold evaluateTarget judgeTarget
  cases tagOf run name ref with
  | none => rfl
  | some tag =>
    simp only [Option.bind_eq_bind, Option.bind_some]
    unfold evaluate
    cases judgements elevates doc name entries today tag.1 tag.2 <;> rfl

/-- What the result of a scan holds of one image whose document is trusted. -/
structure Covered (elevates : Json → Option Bool) (run : Run) (entries : List Entry) (today : Date)
    (r : ScanResult) (name ref : Str) (doc : Json) : Prop where
  judged : ∃ judged, judgeTarget elevates run entries today name ref doc = some judged ∧
    judged.filterMap Judged.finding? ⊆ r.findings ∧
    judged.filterMap Judged.excepted? ⊆ r.excepted ∧ judged.filterMap Judged.used? ⊆ r.used

theorem Covered.grow {r r' : ScanResult} {name ref : Str} {doc : Json}
    (h : Covered elevates run entries today r name ref doc) (hfindings : r.findings ⊆ r'.findings)
    (hexcepted : r.excepted ⊆ r'.excepted) (hused : r.used ⊆ r'.used) :
    Covered elevates run entries today r' name ref doc := by
  obtain ⟨judged, hjudged, h1, h2, h3⟩ := h.judged
  exact ⟨judged, hjudged, List.Subset.trans h1 hfindings, List.Subset.trans h2 hexcepted,
    List.Subset.trans h3 hused⟩

theorem scanTargets_cons {name ref : Str} {rest : Refs} {r : ScanResult}
    (h : scanTargets elevates run entries today ((name, ref) :: rest) = some r) :
    ∃ r', scanTargets elevates run entries today rest = some r' ∧
      ((∃ problems, run.attempt name ref = .failed problems ∧
          r = { r' with failed := problems.map (fun p => name ++ ": ".toList ++ p) ++ r'.failed }) ∨
        ∃ doc e, run.attempt name ref = .trusted doc ∧
          evaluateTarget elevates run entries today name ref doc = some e ∧
          r = ⟨(name, doc) :: r'.docs, e.findings ++ r'.findings, e.excepted ++ r'.excepted,
            r'.failed, e.used ++ r'.used⟩) := by
  unfold scanTargets at h
  cases hattempt : run.attempt name ref with
  | failed problems =>
    rw [hattempt] at h
    simp only [Option.bind_eq_bind, Option.bind_eq_some_iff, Option.some.injEq] at h
    obtain ⟨r', hr', rfl⟩ := h
    exact ⟨r', hr', Or.inl ⟨problems, rfl, rfl⟩⟩
  | trusted doc =>
    rw [hattempt] at h
    simp only [Option.bind_eq_bind, Option.bind_eq_some_iff, Option.some.injEq] at h
    obtain ⟨e, he, r', hr', rfl⟩ := h
    exact ⟨r', hr', Or.inr ⟨doc, e, rfl, he, rfl⟩⟩

theorem scanTargets_covered {refs : Refs} {r : ScanResult}
    (h : scanTargets elevates run entries today refs = some r) {name ref : Str} {doc : Json}
    (hmem : (name, ref) ∈ refs) (htrusted : run.attempt name ref = .trusted doc) :
    Covered elevates run entries today r name ref doc := by
  induction refs generalizing r with
  | nil => cases hmem
  | cons first rest ih =>
    obtain ⟨r', hr', hfailed | ⟨doc', e, hdoc', he, rfl⟩⟩ := scanTargets_cons h
    · obtain ⟨problems, hattempt, rfl⟩ := hfailed
      rcases List.mem_cons.mp hmem with rfl | hmem
      · rw [hattempt] at htrusted
        cases htrusted
      · apply (ih hr' hmem).grow <;> exact List.Subset.refl _
    · rcases List.mem_cons.mp hmem with rfl | hmem
      · rw [hdoc'] at htrusted
        cases htrusted
        rw [evaluateTarget_eq] at he
        obtain ⟨judged, hjudged, rfl⟩ := Option.map_eq_some_iff.mp he
        exact ⟨judged, hjudged, List.subset_append_left _ _, List.subset_append_left _ _,
          List.subset_append_left _ _⟩
      · apply (ih hr' hmem).grow <;> exact List.subset_append_right _ _

/-- A document of the result was trusted, for a reference of that name. -/
theorem scanTargets_docs {refs : Refs} {r : ScanResult}
    (h : scanTargets elevates run entries today refs = some r) {name : Str}
    (hmem : name ∈ r.docs.map Prod.fst) :
    ∃ ref doc, (name, ref) ∈ refs ∧ run.attempt name ref = .trusted doc := by
  induction refs generalizing r with
  | nil =>
    cases h
    cases hmem
  | cons first rest ih =>
    obtain ⟨r', hr', hfailed | ⟨doc', e, hdoc', he, rfl⟩⟩ := scanTargets_cons h
    · obtain ⟨problems, hattempt, rfl⟩ := hfailed
      obtain ⟨ref, doc, href, hdoc⟩ := ih hr' hmem
      exact ⟨ref, doc, List.mem_cons_of_mem first href, hdoc⟩
    · rcases List.mem_cons.mp hmem with rfl | hmem
      · exact ⟨first.2, doc', List.mem_cons_self, hdoc'⟩
      · obtain ⟨ref, doc, href, hdoc⟩ := ih hr' hmem
        exact ⟨ref, doc, List.mem_cons_of_mem first href, hdoc⟩

theorem notScanned_eq_nil {docs : List (Str × Json)} {refs : Refs} {untrusted : List Str}
    (h : notScanned docs refs untrusted = []) :
    untrusted = [] ∧ ∀ name ∈ refs.map Prod.fst, name ∈ docs.map Prod.fst := by
  induction refs generalizing untrusted with
  | nil => exact ⟨h, fun name hname => absurd hname List.not_mem_nil⟩
  | cons first rest ih =>
    unfold notScanned at h
    split at h
    · have hgrown := (ih h).1
      simp at hgrown
    · rename_i hseen
      obtain ⟨rfl, hrest⟩ := ih h
      refine ⟨rfl, ?_⟩
      intro name hname
      rcases List.mem_cons.mp hname with rfl | hmem
      · by_contra hnot
        exact hseen ⟨hnot, rfl⟩
      · exact hrest name hmem

/-- What a record with nothing untrusted and no finding was written from. -/
theorem cmdScan_clean (h : cmdScan elevates pyStr bindings entries run = some record)
    (huntrusted : record.untrusted = []) (hfindings : record.findings = []) :
    record.scannedAt = strftime run.updated ∧ record.refs = bindings.refs ∧
      ∃ r, scanTargets elevates run entries run.evaluated.date bindings.refs = some r ∧
        r.findings = [] ∧ (∀ name ∈ bindings.refs.map Prod.fst, name ∈ r.docs.map Prod.fst) ∧
        ∀ item ∈ r.excepted, ∃ through, validThrough item entries r.used = some through ∧
          exceptedRow item through ∈ record.excepted := by
  unfold cmdScan at h
  split at h
  · cases h
    cases huntrusted
  · simp only [Option.bind_eq_bind, Option.bind_eq_some_iff, Option.some.injEq] at h
    obtain ⟨r, hr, ⟨built, docs, mixed⟩, hstamped, rfl⟩ := h
    change notScanned docs bindings.refs (r.failed ++ mixed) ++
      r.excepted.filterMap (unbacked entries r.used) = [] at huntrusted
    obtain ⟨hscanned, hbacked⟩ := List.append_eq_nil_iff.mp huntrusted
    obtain ⟨hmixed, hnames⟩ := notScanned_eq_nil hscanned
    have hnomix : mixed = [] := (List.append_eq_nil_iff.mp hmixed).2
    have hdocs : docs = r.docs := by
      unfold stamped at hstamped
      obtain ⟨stamps, -, hstamps⟩ := Option.bind_eq_some_iff.mp hstamped
      dsimp only at hstamps
      split at hstamps
      · cases hstamps
        rfl
      · cases hstamps
        rfl
      · cases hstamps
        cases hnomix
    subst hdocs
    refine ⟨rfl, rfl, r, hr, List.map_eq_nil_iff.mp hfindings, hnames, ?_⟩
    intro item hitem
    have hthrough := List.filterMap_eq_nil_iff.mp hbacked item hitem
    unfold unbacked at hthrough
    split at hthrough
    · cases hthrough
    · rename_i through hvalid
      exact ⟨through, hvalid, List.mem_filterMap.mpr ⟨item, hitem, by rw [hvalid]; rfl⟩⟩

theorem validThrough_le {item : Item} {used : List (Str × Str × Str)} {through : Str}
    (h : validThrough item entries used = some through) {hit : Entry} (hmem : hit ∈ entries)
    (himage : hit.image = item.image) (hpackage : item.package.isStr hit.package = true)
    (hused : hit.key ∈ used) :
    ∃ d, Date.fromisoformat? through = some d ∧ d ≤ hit.expires := by
  unfold validThrough at h
  obtain ⟨d, hd, rfl⟩ := Option.map_eq_some_iff.mp h
  refine ⟨d, Date.fromisoformat?_isoformat d, ?_⟩
  apply Date.earliest_le hd
  apply List.mem_map.mpr
  refine ⟨hit, List.mem_filter.mpr ⟨hmem, ?_⟩, rfl⟩
  simp only [decide_eq_true_eq]
  exact ⟨himage, hpackage, hused⟩

/-! ## What the gate looked at -/

theorem refProblems_eq_nil {recorded refs : Refs} (h : refProblems isOther recorded refs = [])
    (name : Str) : recorded.lookup name = refs.lookup name := by
  have hnamed : ∀ n ∈ refs.map Prod.fst ++ recorded.map Prod.fst,
      recorded.lookup n = refs.lookup n := by
    intro n hn
    unfold refProblems at h
    split at h
    · rename_i hsame
      exact beq_iff_eq.mp (List.all_eq_true.mp hsame n hn)
    · have hmem : n ∈ ((refs.map Prod.fst ++ recorded.map Prod.fst).dedup).insertionSort (· ≤ ·) :=
        (List.mem_insertionSort _).mpr (List.mem_dedup.mpr hn)
      have hnone := List.filterMap_eq_nil_iff.mp h n hmem
      unfold refProblem at hnone
      split at hnone
      · cases hnone
      · cases hnone
      · rename_i r s hr hs
        split at hnone
        · cases hnone
        · rename_i heq
          rw [hr, hs, not_not.mp heq]
  by_cases hin : name ∈ refs.map Prod.fst ++ recorded.map Prod.fst
  · exact hnamed name hin
  · have hout : ∀ l : Refs, name ∉ l.map Prod.fst → l.lookup name = none := by
      intro l hl
      apply List.lookup_eq_none_iff.mpr
      intro pair hpair
      apply bne_iff_ne.mpr
      rintro rfl
      exact hl (List.mem_map.mpr ⟨pair, hpair, rfl⟩)
    rw [List.mem_append, not_or] at hin
    rw [hout recorded hin.2, hout refs hin.1]

/-- The checks behind a gate that names no problem. -/
structure Passed (isOther : Char → Bool) (record : Record) (deployed : Bindings) (now : Instant)
    (scannedAt : Option Instant) : Prop where
  refs : refProblems isOther record.refs deployed.refs = []
  young : ∀ s, scannedAt = some s → now.since s ≤ maxScanAge
  untrusted : record.untrusted = []
  findings : record.findings = []
  excepted : ∀ item ∈ record.excepted, ∀ through,
    Date.fromisoformat? item.validThrough = some through → now.date ≤ through

theorem timeProblems_young {scannedAt built : Option Instant} {s : Instant}
    (h : timeProblems scannedAt built now = []) (hs : scannedAt = some s) :
    now.since s ≤ maxScanAge := by
  subst hs
  unfold timeProblems at h
  simp only [List.append_eq_nil_iff] at h
  have hage := h.1.2
  split at hage
  · cases hage
  · split at hage
    · cases hage
    · omega

theorem exceptedProblem_eq_none {today : Date} {item : ExceptedRow} {through : Date}
    (h : exceptedProblem isOther pyStr today item = none)
    (hthrough : Date.fromisoformat? item.validThrough = some through) : today ≤ through := by
  unfold exceptedProblem at h
  rw [hthrough] at h
  dsimp only at h
  split at h
  · cases h
  · rename_i hexpired
    exact Date.le_of_not_lt hexpired

theorem scanResultProblems_passed
    (h : scanResultProblems isOther pyStr record deployed now = some []) :
    ∃ scannedAt, readScannedAt record.scannedAt = some scannedAt ∧
      Passed isOther record deployed now scannedAt := by
  unfold scanResultProblems at h
  simp only [Option.bind_eq_bind, Option.bind_eq_some_iff, Option.some.injEq,
    List.append_eq_nil_iff] at h
  obtain ⟨scannedAt, hscanned, built, -, ⟨⟨⟨⟨⟨⟨⟨-, hrefs⟩, htime⟩, huntrusted⟩, hfindings⟩,
    hexcepted⟩, -⟩, -⟩, -⟩ := h
  refine ⟨scannedAt, hscanned, hrefs, fun s hs => timeProblems_young htime hs, ?_, ?_, ?_⟩
  · by_contra hne
    rw [if_pos hne] at huntrusted
    cases huntrusted
  · by_contra hne
    rw [if_pos (by simpa using hne)] at hfindings
    cases hfindings
  · intro item hitem through hthrough
    exact exceptedProblem_eq_none (List.filterMap_eq_nil_iff.mp hexcepted item hitem) hthrough

theorem Passed.young_since_update {scannedAt : Option Instant}
    (h : Passed isOther record deployed now scannedAt)
    (hwritten : record.scannedAt = strftime run.updated)
    (hscanned : readScannedAt record.scannedAt = some scannedAt) :
    now.since run.updated ≤ maxScanAge := by
  rw [hwritten, readScannedAt, if_pos (isScannedAt_strftime _), parseUtc_strftime] at hscanned
  have hyoung := h.young run.updated.floor (Option.some.inj hscanned).symm
  have hfloor := Instant.le_iff.mp run.updated.floor_le
  unfold Instant.since at hyoung ⊢
  omega

/-- A start that the gate allows is one that the policy, asked again on that day about the
same documents, would allow. -/
theorem gate_passes_only_what_reevaluation_passes
    (hrecord : cmdScan elevates pyStr bindings entries run = some record)
    (hlater : run.evaluated ≤ now)
    (hgate : scanResultProblems isOther pyStr record deployed now = some []) :
    now.since run.updated ≤ maxScanAge ∧
    (∀ name, record.refs.lookup name = deployed.refs.lookup name) ∧
    ∀ name ref, deployed.refs.lookup name = some ref → ∃ doc judged,
      run.attempt name ref = .trusted doc ∧
      judgeTarget elevates run entries run.evaluated.date name ref doc = some judged ∧
      (∀ item hit, .excepted item hit ∈ judged → now.date ≤ hit.expires) ∧
      ∃ e, evaluateTarget elevates run entries now.date name ref doc = some e ∧
        e.findings = [] := by
  obtain ⟨scannedAt, hscanned, hpassed⟩ := scanResultProblems_passed hgate
  obtain ⟨hwritten, hrefs, r, hr, hfindings, hdocs, hexcepted⟩ :=
    cmdScan_clean hrecord hpassed.untrusted hpassed.findings
  have hsame := refProblems_eq_nil hpassed.refs
  refine ⟨hpassed.young_since_update hwritten hscanned, hsame, ?_⟩
  intro name ref hname
  have hlookup : bindings.refs.lookup name = some ref := by
    rw [← hrefs, hsame, hname]
  have hmem : (name, ref) ∈ bindings.refs := by
    obtain ⟨l₁, l₂, hsplit, -⟩ := List.lookup_eq_some_iff.mp hlookup
    rw [hsplit]
    exact List.mem_append_right l₁ List.mem_cons_self
  obtain ⟨ref', doc, hmem', htrusted⟩ :=
    scanTargets_docs hr (hdocs name (List.mem_map.mpr ⟨_, hmem, rfl⟩))
  have hpair : (name, ref') = (name, ref) :=
    List.inj_on_of_nodup_map bindings.refs_nodup hmem' hmem rfl
  cases hpair
  obtain ⟨judged, hjudged, hin, hrows, hused⟩ := (scanTargets_covered hr hmem htrusted).judged
  have hnone : judged.filterMap Judged.finding? = [] := by
    rw [hfindings] at hin
    exact List.subset_nil.mp hin
  have htag : ∃ tag, tagOf run name ref = some tag ∧
      judgements elevates doc name entries run.evaluated.date tag.1 tag.2 = some judged :=
    Option.bind_eq_some_iff.mp hjudged
  obtain ⟨tag, htag, hjudgements⟩ := htag
  have hactive : ∀ item hit, .excepted item hit ∈ judged → now.date ≤ hit.expires := by
    intro item hit hhit
    obtain ⟨hentry, himage, hpackage⟩ := judgements_excepted hjudgements hhit
    obtain ⟨through, hthrough, hrow⟩ :=
      hexcepted item (hrows (List.mem_filterMap.mpr ⟨_, hhit, rfl⟩))
    obtain ⟨d, hd, hle⟩ := validThrough_le hthrough hentry himage hpackage
      (hused (List.mem_filterMap.mpr ⟨_, hhit, rfl⟩))
    exact le_trans (hpassed.excepted _ hrow d hd) hle
  have hagain : judgeTarget elevates run entries now.date name ref doc = some judged := by
    unfold judgeTarget
    rw [htag]
    exact judgements_later (Instant.date_le_date hlater) hjudgements hnone hactive
  refine ⟨doc, judged, htrusted, hjudged, hactive,
    ⟨judged.filterMap Judged.finding?, judged.filterMap Judged.excepted?,
      judged.filterMap Judged.used?⟩, ?_, hnone⟩
  rw [evaluateTarget_eq, hagain]
  rfl

end Record

/-! ## A scan with one excepted finding -/

def sampleDay (day : ℕ) (h : 1 ≤ day ∧ day ≤ 31) : Date :=
  ⟨2026, 10, day, by decide, by decide, h⟩

def sampleEntry : Entry :=
  ⟨"CVE-2026-0001".toList, "api".toList, "zlib".toList, sampleDay 1 (by decide),
    sampleDay 3 (by decide)⟩

def sampleDoc : Json :=
  .obj [
    ("matches".toList, .arr [.obj [
      ("vulnerability".toList, .obj [
        ("id".toList, .str "CVE-2026-0001".toList), ("severity".toList, .str "High".toList)]),
      ("artifact".toList, .obj [("name".toList, .str "zlib".toList)])]]),
    ("descriptor".toList, .obj [("db".toList, .obj [
      ("built".toList, .str "2026-10-02T00:00:00Z".toList)])])]

def sampleBindings : Bindings where
  refs := [("api".toList, "api@sha256".toList)]
  refs_nodup := by decide
  scanner := "grype".toList
  exceptionsSha256 := List.replicate 64 'a'
  imageScanSha256 := List.replicate 64 'b'

def sampleRun : Run where
  updateExit := 0
  updated := ⟨sampleDay 2 (by decide), 43200000000, by decide⟩
  evaluated := ⟨sampleDay 2 (by decide), 43201000000, by decide⟩
  attempt _ _ := .trusted sampleDoc
  resolveTagState _ _ _ _ := .unknown
  movedDigest _ _ _ := none

def sampleRecord : Record where
  scannedAt := "2026-10-02T12:00:00Z".toList
  scanner := "grype".toList
  dbBuilt := "2026-10-02T00:00:00Z".toList
  exceptionsSha256 := List.replicate 64 'a'
  imageScanSha256 := List.replicate 64 'b'
  refs := sampleBindings.refs
  untrusted := []
  findings := []
  excepted := [⟨"api".toList, .str "zlib".toList, .str [], .str "CVE-2026-0001".toList,
    "2026-10-03".toList⟩]
  verdict := .green

def sampleNow : Instant := ⟨sampleDay 3 (by decide), 36000000000, by decide⟩

def sampleStr (x : Json) : Str := x.asStr.getD []

theorem gate_passes_only_what_reevaluation_passes_sample :
    sampleNow.since sampleRun.updated ≤ maxScanAge ∧
    (∀ name, sampleRecord.refs.lookup name = sampleBindings.refs.lookup name) ∧
    ∀ name ref, sampleBindings.refs.lookup name = some ref → ∃ doc judged,
      sampleRun.attempt name ref = .trusted doc ∧
      judgeTarget (fun _ => some false) sampleRun [sampleEntry] sampleRun.evaluated.date name ref
        doc = some judged ∧
      (∀ item hit, .excepted item hit ∈ judged → sampleNow.date ≤ hit.expires) ∧
      ∃ e, evaluateTarget (fun _ => some false) sampleRun [sampleEntry] sampleNow.date name ref
        doc = some e ∧ e.findings = [] :=
  gate_passes_only_what_reevaluation_passes
    (show cmdScan (fun _ => some false) sampleStr sampleBindings [sampleEntry] sampleRun
      = some sampleRecord from rfl)
    (show sampleRun.evaluated ≤ sampleNow by decide)
    (show scanResultProblems (fun _ => false) sampleStr sampleRecord sampleBindings sampleNow
      = some [] from rfl)

end Decisya.ImageScan
