import Decisya.Zap.Verdict

/-!
# The file of exceptions

The check passes a file exactly when every item of it is in order and no two items are about the
same plugin and path: the entry that a scan is excused by has a justification and an issue, and it was
added at most ninety days before it expires.
-/

namespace Decisya.Zap

open Calendar Python

set_option autoImplicit false

section Exceptions
variable (python : PythonText) (today : Date)

/-- What an entry is told apart by. -/
def Entry.ident (entry : Entry) : Str × Str := (entry.pluginId, entry.path)

/-- The item says of itself what the entry does, in texts and under these keys only. -/
structure Reads (item : Json) (entry : Entry) : Prop where
  object : isObject item = true
  keys : ∀ key, key ∈ keysOf item ↔ key ∈ entryKeys
  texts : ∀ key ∈ entryKeys, isText item key = true
  pluginId : entry.pluginId = fieldText item "pluginId"
  path : entry.path = fieldText item "path"
  justification : entry.justification = fieldText item "justification"
  issue : entry.issue = fieldText item "issue"
  added : entry.added = fieldText item "added"
  expires : entry.expires = fieldText item "expires"

/-- The rules an entry keeps, whatever the other entries are. -/
structure InOrder (entry : Entry) : Prop where
  pluginId : pluginRe python entry.pluginId = true
  path : badPath entry.path = false
  justification : 20 ≤ (strip entry.justification).length
  issue : issueRe python entry.issue = true
  addedText : dateRe python entry.added = true
  expiresText : dateRe python entry.expires = true
  addedDate : Date.fromisoformat? entry.added = some entry.addedDate
  expiresDate : Date.fromisoformat? entry.expires = some entry.expiresDate
  added_le_today : entry.addedDate ≤ today
  added_le_expires : entry.addedDate ≤ entry.expiresDate
  expires_le : entry.expiresDate.toordinal ≤ entry.addedDate.toordinal + maxExceptionDays

/-! ## One item -/

theorem sortedDiff_eq_nil (xs ys : List Str) : sortedDiff xs ys = [] ↔ ∀ x ∈ xs, x ∈ ys := by
  have hlength : sortedDiff xs ys = [] ↔ (xs.filter fun x => !ys.contains x).dedup = [] := by
    rw [← List.length_eq_zero_iff, ← List.length_eq_zero_iff, sortedDiff, List.length_mergeSort]
  rw [hlength, List.dedup_eq_nil, List.filter_eq_nil_iff]
  simp

theorem dateField_eq_ok (place : Str) (name : String) (text : Str) (d : Date) :
    dateField python place name text = .ok d ↔
      dateRe python text = true ∧ Date.fromisoformat? text = some d := by
  unfold dateField
  by_cases hre : dateRe python text = true
  · rw [if_pos hre]
    cases hiso : Date.fromisoformat? text with
    | none => simp
    | some d' => simp [hre]
  · rw [if_neg hre]
    simp [hre]

theorem errorOf_eq_nil (field : Except Str Date) : errorOf field = [] ↔ ∃ d, field = .ok d := by
  cases field <;> simp [errorOf]

theorem windowErrors_eq_nil (place : Str) (added expires : Date) :
    windowErrors today place (some added) (some expires) = [] ↔
      added ≤ today ∧ added ≤ expires ∧ expires.toordinal ≤ added.toordinal + maxExceptionDays := by
  unfold windowErrors
  dsimp only
  rw [List.append_eq_nil_iff, when_eq_nil, decide_eq_false_iff_not, Date.lt_iff, Nat.not_lt, ← Date.le_iff]
  by_cases horder : expires < added
  · rw [if_pos horder]
    rw [Date.lt_iff] at horder
    simp only [List.cons_ne_nil, and_false, false_iff, not_and, Date.le_iff]
    omega
  · rw [if_neg horder, when_eq_nil, decide_eq_false_iff_not, Nat.not_lt]
    have hle := Date.le_of_not_lt horder
    simp [hle]

/-- An item without errors is the entry of its texts and days. -/
theorem entryErrors_eq_nil {place : Str} {item : Json} {seen : List (Str × Str)} :
    entryErrors python today place item seen = [] ↔
      ∃ added expires,
        dateField python place "added" (fieldText item "added") = .ok added ∧
          dateField python place "expires" (fieldText item "expires") = .ok expires ∧
          InOrder python today (entryOf item added expires) ∧
          (entryOf item added expires).ident ∉ seen := by
  unfold entryErrors
  dsimp only
  simp only [List.append_eq_nil_iff, when_eq_nil, errorOf_eq_nil, Bool.not_eq_false',
    decide_eq_false_iff_not, Nat.not_lt]
  constructor
  · rintro ⟨⟨⟨⟨⟨⟨⟨hplugin, hpath⟩, hjust⟩, hissue⟩, added, hadded⟩, expires, hexpires⟩, hwindow⟩, hseen⟩
    rw [hadded, hexpires] at hwindow
    obtain ⟨htoday, horder, hdays⟩ := (windowErrors_eq_nil today place added expires).mp hwindow
    have ha := (dateField_eq_ok python place "added" _ added).mp hadded
    have he := (dateField_eq_ok python place "expires" _ expires).mp hexpires
    exact ⟨added, expires, hadded, hexpires,
      ⟨hplugin, hpath, hjust, hissue, ha.1, he.1, ha.2, he.2, htoday, horder, hdays⟩, hseen⟩
  · rintro ⟨added, expires, hadded, hexpires, horder, hseen⟩
    rw [hadded, hexpires]
    exact ⟨⟨⟨⟨⟨⟨⟨horder.pluginId, horder.path⟩, horder.justification⟩, horder.issue⟩, added, rfl⟩,
      expires, rfl⟩, (windowErrors_eq_nil today place added expires).mpr
        ⟨horder.added_le_today, horder.added_le_expires, horder.expires_le⟩⟩, hseen⟩

theorem Reads.entryOf {item : Json} {entry : Entry} (h : Reads item entry) :
    entry = entryOf item entry.addedDate entry.expiresDate := by
  cases entry
  simp only [Zap.entryOf, Entry.mk.injEq, and_true]
  exact ⟨h.pluginId, h.path, h.justification, h.issue, h.added, h.expires⟩

theorem reads_entryOf {item : Json} (added expires : Date) (hobject : isObject item = true)
    (hkeys : ∀ key, key ∈ keysOf item ↔ key ∈ entryKeys)
    (htexts : ∀ key ∈ entryKeys, isText item key = true) :
    Reads item (entryOf item added expires) :=
  ⟨hobject, hkeys, htexts, rfl, rfl, rfl, rfl, rfl, rfl⟩

/-- The state after an item that is in order. -/
def Checked.accept (s : Checked) (entry : Entry) : Checked where
  errors := s.errors
  entries := s.entries ++ [entry]
  seen := entry.ident :: s.seen
  index := s.index + 1

theorem checkEntry_accepted {s : Checked} {item : Json} {entry : Entry} (hreads : Reads item entry)
    (horder : InOrder python today entry) (hseen : entry.ident ∉ s.seen) :
    checkEntry python today s item = s.accept entry := by
  have hentry := hreads.entryOf
  have hmissing : ¬(sortedDiff (keysOf item) entryKeys ≠ [] ∨ sortedDiff entryKeys (keysOf item) ≠ []) := by
    rw [not_or, not_not, not_not, sortedDiff_eq_nil, sortedDiff_eq_nil]
    exact ⟨fun key => (hreads.keys key).mp, fun key => (hreads.keys key).mpr⟩
  have htexts : ¬entryKeys.all (isText item) = false := by
    rw [Bool.not_eq_false, List.all_eq_true]
    exact hreads.texts
  unfold checkEntry
  dsimp only
  rw [if_neg (by rw [hreads.object]; exact Bool.noConfusion), if_neg hmissing, if_neg htexts]
  have hadded : ∀ place, dateField python place "added" (fieldText item "added") = .ok entry.addedDate := by
    intro place
    rw [dateField_eq_ok, ← hreads.added]
    exact ⟨horder.addedText, horder.addedDate⟩
  have hexpires : ∀ place,
      dateField python place "expires" (fieldText item "expires") = .ok entry.expiresDate := by
    intro place
    rw [dateField_eq_ok, ← hreads.expires]
    exact ⟨horder.expiresText, horder.expiresDate⟩
  rw [entryErrors_eq_nil python today |>.mpr ⟨entry.addedDate, entry.expiresDate, hadded _, hexpires _,
    hentry ▸ horder, hentry ▸ hseen⟩, hadded, hexpires]
  simp only [dateOf, Checked.accept, Entry.ident, ← hentry, hreads.pluginId, hreads.path]

theorem checkEntry_errors (s : Checked) (item : Json) :
    ((checkEntry python today s item).errors ≠ []) ∨
      ∃ entry, Reads item entry ∧ InOrder python today entry ∧ entry.ident ∉ s.seen := by
  unfold checkEntry
  dsimp only
  by_cases hobject : isObject item = false
  · rw [if_pos hobject]
    exact .inl (List.append_ne_nil_of_right_ne_nil _ (List.cons_ne_nil _ _))
  rw [if_neg hobject]
  by_cases hkeys : sortedDiff (keysOf item) entryKeys ≠ [] ∨ sortedDiff entryKeys (keysOf item) ≠ []
  · rw [if_pos hkeys]
    exact .inl (List.append_ne_nil_of_right_ne_nil _ (List.cons_ne_nil _ _))
  rw [if_neg hkeys]
  by_cases htexts : entryKeys.all (isText item) = false
  · rw [if_pos htexts]
    exact .inl (List.append_ne_nil_of_right_ne_nil _ (List.cons_ne_nil _ _))
  rw [if_neg htexts]
  rw [not_or, not_not, not_not, sortedDiff_eq_nil, sortedDiff_eq_nil] at hkeys
  rw [Bool.not_eq_false, List.all_eq_true] at htexts
  cases hfound : entryErrors python today
      ("exceptions[".toList ++ Nat.toDigits 10 s.index ++ [']']) item s.seen with
  | nil =>
    obtain ⟨added, expires, hadded, hexpires, horder, hseen⟩ := (entryErrors_eq_nil python today).mp hfound
    exact .inr ⟨entryOf item added expires, reads_entryOf added expires (by simpa using hobject)
      (fun key => ⟨hkeys.1 key, hkeys.2 key⟩) htexts, horder, hseen⟩
  | cons message rest => exact .inl (List.append_ne_nil_of_right_ne_nil _ (List.cons_ne_nil _ _))

/-! ## The whole file -/

theorem errors_subset_checkEntry (s : Checked) (item : Json) :
    s.errors <+: (checkEntry python today s item).errors := by
  unfold checkEntry
  dsimp only
  repeat' split
  all_goals first | exact List.prefix_append _ _ | exact List.prefix_rfl

theorem errors_prefix_foldl (items : List Json) (s : Checked) :
    s.errors <+: (items.foldl (checkEntry python today) s).errors := by
  induction items generalizing s with
  | nil => exact List.prefix_rfl
  | cons item items ih => exact (errors_subset_checkEntry python today s item).trans (ih _)

theorem foldl_checkEntry (items : List Json) (s : Checked) (entries : List Entry) :
    ((items.foldl (checkEntry python today) s).errors = [] ∧
        (items.foldl (checkEntry python today) s).entries = entries) ↔
      s.errors = [] ∧ ∃ new, entries = s.entries ++ new ∧ List.Forall₂ Reads items new ∧
        (∀ entry ∈ new, InOrder python today entry ∧ entry.ident ∉ s.seen) ∧
        (new.map Entry.ident).Nodup := by
  induction items generalizing s with
  | nil =>
    rw [List.foldl_nil]
    constructor
    · rintro ⟨herrors, rfl⟩
      exact ⟨herrors, [], by simp⟩
    · rintro ⟨herrors, new, rfl, hreads, -⟩
      cases hreads
      exact ⟨herrors, (List.append_nil _).symm⟩
  | cons item items ih =>
    rw [List.foldl_cons]
    by_cases haccepted : ∃ entry, Reads item entry ∧ InOrder python today entry ∧ entry.ident ∉ s.seen
    · obtain ⟨entry, hreads, horder, hseen⟩ := haccepted
      rw [checkEntry_accepted python today hreads horder hseen, ih]
      constructor
      · rintro ⟨herrors, new, rfl, hnew, hall, hnodup⟩
        refine ⟨herrors, entry :: new, by simp [Checked.accept], .cons hreads hnew, ?_, ?_⟩
        · intro other hother
          rcases List.mem_cons.mp hother with rfl | hother
          · exact ⟨horder, hseen⟩
          · have h := hall other hother
            exact ⟨h.1, fun hmem => h.2 (List.mem_cons_of_mem _ hmem)⟩
        · rw [List.map_cons, List.nodup_cons]
          refine ⟨fun hmem => ?_, hnodup⟩
          obtain ⟨other, hother, heq⟩ := List.mem_map.mp hmem
          exact (hall other hother).2 (heq ▸ List.mem_cons_self)
      · rintro ⟨herrors, new, rfl, hforall, hall, hnodup⟩
        cases hforall with
        | @cons _ first _ new hfirst hrest =>
          have hsame : first = entry := by
            have hfirstOrder := (hall first List.mem_cons_self).1
            have hadded : first.addedDate = entry.addedDate := by
              have h := hfirstOrder.addedDate
              rw [hfirst.added, ← hreads.added, horder.addedDate] at h
              exact (Option.some.inj h).symm
            have hexpires : first.expiresDate = entry.expiresDate := by
              have h := hfirstOrder.expiresDate
              rw [hfirst.expires, ← hreads.expires, horder.expiresDate] at h
              exact (Option.some.inj h).symm
            rw [hfirst.entryOf, hreads.entryOf, hadded, hexpires]
          subst hsame
          rw [List.map_cons, List.nodup_cons] at hnodup
          refine ⟨herrors, new, by simp [Checked.accept], hrest, fun other hother => ?_, hnodup.2⟩
          have h := hall other (List.mem_cons_of_mem _ hother)
          refine ⟨h.1, fun hmem => ?_⟩
          rcases List.mem_cons.mp hmem with heq | hmem
          · exact hnodup.1 (List.mem_map.mpr ⟨other, hother, heq⟩)
          · exact h.2 hmem
    · have herrors := (checkEntry_errors python today s item).resolve_right haccepted
      refine iff_of_false ?_ ?_
      · rintro ⟨hnil, -⟩
        have hprefix := errors_prefix_foldl python today items (checkEntry python today s item)
        rw [hnil] at hprefix
        exact herrors (List.prefix_nil.mp hprefix)
      · rintro ⟨-, new, -, hforall, hall, -⟩
        cases hforall with
        | @cons _ first _ new hfirst hrest =>
          have h := hall first List.mem_cons_self
          exact haccepted ⟨first, hfirst, h.1, h.2⟩

theorem exceptionErrors_eq_nil_iff (data : Json) (entries : List Entry) :
    exceptionErrors python today data = ([], entries) ↔
      topLevelErrors python data = [] ∧ ∃ items, exceptionList data = some items ∧
        List.Forall₂ Reads items entries ∧ (∀ entry ∈ entries, InOrder python today entry) ∧
        (entries.map Entry.ident).Nodup := by
  unfold exceptionErrors
  cases hitems : exceptionList data with
  | none => simp
  | some items =>
    have hfold := foldl_checkEntry python today items ⟨topLevelErrors python data, [], [], 0⟩ entries
    simp only [List.nil_append, exists_eq_left', List.not_mem_nil, not_false_eq_true, and_true] at hfold
    simp only [Prod.mk.injEq, Option.some.injEq, exists_eq_left', hfold]

end Exceptions

end Decisya.Zap
