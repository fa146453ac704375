import Decisya.Logging.MaskString

/-!
# What `MaskString` lets through

JWTs are replaced before bearer tokens, and both are looked for in a window of the value. Where
the two kinds of match lie apart, and the window cuts no JWT short in what is printed, only what
is not secret is printed.
-/

namespace Decisya.Logging

open Text Text.Scan Text.Overlap

set_option autoImplicit false

/-! ## Cells -/

theorem getElem?_cells (value : Utf16) (i : ℕ) :
    (cells value)[i]? = value[i]?.map fun u => (u, some i) := by
  unfold cells
  rw [List.getElem?_map, List.getElem?_zipIdx, Option.map_map]
  cases value[i]? with
  | none => rfl
  | some u => simp

@[simp] theorem length_cells (value : Utf16) : (cells value).length = value.length := by
  unfold cells
  rw [List.length_map, List.length_zipIdx]

theorem positions_cells (value : Utf16) : positions (cells value) = List.range value.length := by
  unfold positions cells
  rw [List.filterMap_map]
  have hsome : (Prod.snd ∘ fun p : UInt16 × ℕ => ((p.1, some p.2) : Cell)) = some ∘ Prod.snd := rfl
  rw [hsome, List.filterMap_eq_map, List.zipIdx_map_snd, List.range'_eq_map_range]
  simp

/-! ## Marks of the window and of the value -/

section Marks
variable {L : Type} {parts : Utf16 → Option (List L)} {loose : L → Bool} {value : Utf16} {n i : ℕ}

theorem loses_at (h : Windowed parts loose) {m : Mark L}
    (hm : (scan parts [] (value.take n))[i]? = some m) :
    ∃ m', (scan parts [] value)[i]? = some m' ∧ Loses loose m m' := by
  have hforall := scan_window h (value.take n) (value.drop n) []
  rw [List.take_nil, List.take_append_drop, List.forall₂_iff_get] at hforall
  obtain ⟨hlen, hloses⟩ := hforall
  obtain ⟨hi, hget⟩ := List.getElem?_eq_some_iff.mp hm
  have hat := hloses i hi (by omega)
  rw [List.length_take] at hlen
  simp only [List.get_eq_getElem, hget, List.getElem_take] at hat
  exact ⟨_, List.getElem?_eq_getElem _, hat⟩

theorem inMatch_of_window (h : Windowed parts loose) {m : Mark L}
    (hm : (scan parts [] (value.take n))[i]? = some m) (hne : m ≠ .free) :
    (scan parts [] value)[i]? = some m := by
  obtain ⟨m', hm', hloses⟩ := loses_at h hm
  rcases hloses with rfl | ⟨rfl, -⟩
  · exact hm'
  · exact absurd rfl hne

end Marks

theorem tight_false_of_window {value : Utf16} {n i : ℕ} {m : Mark BearerPart}
    (hm : (scan bearerAt [] (value.take n))[i]? = some m) (htight : tight isLoose m = false) :
    (scan bearerAt [] value)[i]?.any (tight isLoose) = false := by
  obtain ⟨m', hm', hloses⟩ := loses_at windowed_bearerAt hm
  rw [hm', Option.any_some]
  rcases hloses with rfl | ⟨-, hloose⟩
  · exact htight
  · cases m' with
    | free => rfl
    | first l => rw [tight, hloose l rfl, Bool.not_true]
    | later l => rw [tight, hloose l rfl, Bool.not_true]

/-- What lies in a match of the window is secret, or of the word before a token. -/
theorem secret_or_word {value : Utf16} {n i : ℕ} (hi : i < value.length) (hin : i < n)
    (h : (scan jwtAt [] (value.take n))[i]? ≠ some .free ∨
      (scan bearerAt [] (value.take n))[i]? ≠ some .free) :
    secret value i = true ∨ bearerWord value i = true := by
  have hmark : ∀ {L : Type} (parts : Utf16 → Option (List L)),
      ∃ m, (scan parts [] (value.take n))[i]? = some m := by
    intro L parts
    refine ⟨_, List.getElem?_eq_getElem ?_⟩
    rw [length_scan, List.length_take]
    omega
  rcases h with h | h
  · obtain ⟨m, hm⟩ := hmark jwtAt
    have hne : m ≠ .free := fun heq => h (by rw [hm, heq])
    left
    rw [secret, inMatch_of_window windowed_jwtAt hm hne, Option.any_some]
    cases m with
    | free => exact absurd rfl hne
    | first l => rfl
    | later l => rfl
  · obtain ⟨m, hm⟩ := hmark bearerAt
    have hne : m ≠ .free := fun heq => h (by rw [hm, heq])
    have hwhole := inMatch_of_window windowed_bearerAt hm hne
    have hin : m.inMatch = true := by
      cases m with
      | free => exact absurd rfl hne
      | first l => rfl
      | later l => rfl
    cases htight : tight isLoose m with
    | true =>
      left
      rw [secret, hwhole, Option.any_some, htight, Bool.or_true]
    | false =>
      right
      rw [bearerWord, hwhole, Option.any_some, htight, hin]
      rfl

/-! ## Changes -/

theorem jwtAt_long (s : Utf16) (labels : List JwtPart) (h : jwtAt s = some labels) :
    20 < labels.length ∧ labels.length ≤ s.length := by
  refine ⟨?_, windowed_jwtAt.length_le h⟩
  rw [jwtAt, Pattern.matchAt_eq_greedy determinate_jwtShape] at h
  exact Pattern.least_le_of_greedy h

theorem bearerAt_long (s : Utf16) (labels : List BearerPart) (h : bearerAt s = some labels) :
    7 < labels.length ∧ labels.length ≤ s.length := by
  refine ⟨?_, windowed_bearerAt.length_le h⟩
  rw [bearerAt, Pattern.matchAt_eq_greedy determinate_bearerShape] at h
  exact Pattern.least_le_of_greedy h

theorem length_mask : (mask.map (id : UInt16 → UInt16)).length = 3 := by
  rw [List.length_map, mask_eq, List.length_replicate]

/-- The result is shorter exactly when something was replaced. -/
theorem maskShapes_shorter (text : Utf16) :
    (((replaceShape id id jwtAt text).2 ||
        (replaceShape id id bearerAt (replaceShape id id jwtAt text).1).2) = true →
      (maskShapes id id text).length < text.length) ∧
    (((replaceShape id id jwtAt text).2 ||
        (replaceShape id id bearerAt (replaceShape id id jwtAt text).1).2) = false →
      maskShapes id id text = text) := by
  have hjwt : ∀ s labels, jwtAt s = some labels →
      (mask.map (id : UInt16 → UInt16)).length < labels.length ∧ labels.length ≤ s.length := by
    intro s labels h
    obtain ⟨hlong, hlen⟩ := jwtAt_long s labels h
    rw [length_mask]
    exact ⟨by omega, hlen⟩
  have hbearer : ∀ s labels, bearerAt s = some labels →
      (mask.map (id : UInt16 → UInt16)).length < labels.length ∧ labels.length ≤ s.length := by
    intro s labels h
    obtain ⟨hlong, hlen⟩ := bearerAt_long s labels h
    rw [length_mask]
    exact ⟨by omega, hlen⟩
  have hle := length_substitute_le id hjwt text [] (Nat.zero_le _)
  have hle' := length_substitute_le id hbearer (replaceShape id id jwtAt text).1 []
    (Nat.zero_le _)
  constructor
  · intro hany
    rcases Bool.or_eq_true _ _ ▸ hany with h | h
    · have hlt := length_substitute_lt id hjwt text h
      exact lt_of_le_of_lt hle' hlt
    · have hlt := length_substitute_lt id hbearer (replaceShape id id jwtAt text).1 h
      exact lt_of_lt_of_le hlt hle
  · intro hnone
    rw [Bool.or_eq_false_iff] at hnone
    have hfirst : (replaceShape id id jwtAt text).1 = text :=
      substitute_eq_self id hnone.1
    have hsecond : maskShapes id id text = (replaceShape id id jwtAt text).1 :=
      substitute_eq_self id hnone.2
    rw [hsecond, hfirst]

theorem truncationMarker_eq : truncationMarker =
    [0x2026, 0x5B, 0x74, 0x72, 0x75, 0x6E, 0x63, 0x61, 0x74, 0x65, 0x64, 0x5D] := by decide

theorem length_truncationMarker : truncationMarker.length = 12 := by
  rw [truncationMarker_eq]
  rfl

/-- No match lies in the marker. -/
theorem no_match_in_marker {y : Utf16} (hy : y <:+ truncationMarker) :
    jwtAt y = none ∧ ∀ n, bearerAt (y.take n) = none := by
  have hlen := length_truncationMarker
  constructor
  · cases h : jwtAt y with
    | none => rfl
    | some labels =>
      obtain ⟨hlong, hle⟩ := jwtAt_long y labels h
      have hle' := hy.length_le
      omega
  · intro n
    have hletters : truncationMarker.all (fun c => !isLetter 0x62 c) = true := by
      rw [truncationMarker_eq]
      decide
    cases htake : y.take n with
    | nil => rfl
    | cons c rest =>
      have hmem : c ∈ truncationMarker := by
        apply hy.subset
        apply List.mem_of_mem_take (i := n)
        rw [htake]
        exact List.mem_cons_self
      apply bearerAt_eq_none
      exact Bool.not_eq_true' _ ▸ List.all_eq_true.mp hletters c hmem

/-- A star starts no match. -/
theorem no_match_at_star (s : Utf16) :
    jwtAt (0x2A :: s) = none ∧ ∀ n, bearerAt ((0x2A :: s).take n) = none := by
  constructor
  · rfl
  · intro n
    cases n with
    | zero => rfl
    | succ n => exact bearerAt_eq_none (by decide) _

/-- What is cut at the limit is not the value it came from, unless nothing was masked. -/
theorem cut_ne_value {value : Utf16} {kept : ℕ}
    (hcut : kept < (maskShapes id id value).length)
    (heq : (maskShapes id id value).take kept ++ truncationMarker = value) :
    maskShapes id id value = value := by
  have hassemble := maskShapes_eq_assemble id id value fun _ => rfl
  rcases assemble_first jwtAt bearerAt id (mask.map id) value with
    hself | ⟨k, rest, hk, hfirst, hstart⟩
  · rw [hassemble, hself]
  · rw [List.map_id] at hstart
    rw [← hassemble] at hfirst
    rcases Nat.lt_or_ge k kept with hlt | hge
    · -- the first mask is kept, and it is no part of the value
      have hstar : (maskShapes id id value)[k]? = some 0x2A := by
        rw [hfirst, List.getElem?_append_right (by rw [List.length_take]; omega), List.length_take,
          Nat.min_eq_left hk.le, Nat.sub_self, mask_eq]
        rfl
      have hvalue : value[k]? = some 0x2A := by
        rw [← heq, List.getElem?_append_left (by rw [List.length_take]; omega),
          List.getElem?_take_of_lt hlt, hstar]
      have hdrop : value.drop k = 0x2A :: value.drop (k + 1) := by
        rw [List.drop_eq_getElem?_toList_append, hvalue, Option.toList_some, List.singleton_append]
      obtain ⟨hjwt, hbearer⟩ := no_match_at_star (value.drop (k + 1))
      rw [hdrop] at hstart
      rcases hstart with hstart | ⟨n, hstart⟩
      · exact absurd hjwt hstart
      · exact absurd (hbearer n) hstart
    · -- the first match would lie in the marker
      have hsuffix : value.drop k <:+ truncationMarker := by
        have hdrop : value.drop kept = truncationMarker := by
          rw [← heq]
          apply List.drop_left'
          rw [List.length_take]
          omega
        rw [← hdrop, show k = kept + (k - kept) by omega, ← List.drop_drop]
        exact List.drop_suffix _ _
      obtain ⟨hjwt, hbearer⟩ := no_match_in_marker hsuffix
      rcases hstart with hstart | ⟨n, hstart⟩
      · exact absurd hjwt hstart
      · exact absurd (hbearer n) hstart

/-- A change is reported exactly when there is one, but for a value that ends where the limit
is with the text of the marker. -/
theorem changed_iff {value output : Utf16} {limit : Int32} {changed : Bool}
    (h : maskString value limit = some (output, changed))
    (hmarker : ¬ (value.length = limit.toInt.toNat + 12 ∧ truncationMarker <:+ value ∧
      maskShapes id id value = value)) :
    changed = true ↔ output ≠ value := by
  obtain ⟨kept, hkept, hout, rfl⟩ := maskOver_eq_some h
  rw [hkept, Int.toNat_natCast] at hmarker
  rw [List.map_id] at hout
  have hlen := length_truncationMarker
  obtain ⟨hshorter, hsame⟩ := maskShapes_shorter (value.take (kept + 4096))
  have htake := List.length_take (i := kept + 4096) (l := value)
  constructor
  · intro hchanged heq
    rw [heq] at hout
    by_cases hcut : kept < (maskShapes id id (value.take (kept + 4096))).length
    · rw [if_pos hcut] at hout
      have hsize := congrArg List.length hout
      rw [List.length_append, List.length_take, hlen] at hsize
      have hlength : value.length = kept + 12 := by omega
      have hwindow : value.take (kept + 4096) = value := List.take_of_length_le (by omega)
      rw [hwindow] at hcut hout
      exact hmarker ⟨hlength, ⟨_, hout.symm⟩, cut_ne_value hcut hout.symm⟩
    · rw [if_neg hcut] at hout
      rw [decide_eq_false hcut, Bool.or_false, Bool.or_assoc, Bool.or_eq_true,
        decide_eq_true_eq] at hchanged
      have hsize := congrArg List.length hout
      rcases hchanged with hlong | hany
      · omega
      · have hlt := hshorter hany
        omega
  · intro hne
    by_contra hfalse
    rw [Bool.not_eq_true, Bool.or_assoc, Bool.or_eq_false_iff, Bool.or_eq_false_iff,
      decide_eq_false_iff_not, decide_eq_false_iff_not] at hfalse
    obtain ⟨⟨hlong, hcut⟩, hnone⟩ := hfalse
    have hwindow : value.take (kept + 4096) = value := List.take_of_length_le (by omega)
    rw [if_neg hcut, hsame hnone, hwindow] at hout
    exact hne hout

/-! ## What is printed -/

/-- Up to the limit, counting a match as three characters, no JWT match of the window meets a
bearer match and leaves anything of its token after it, and no part of a JWT of the value is in
no match of the window; a value that ends at the limit with the text of the marker has something
to mask; and where the masked window fits the limit nothing but secrets was outside it. -/
def Untangled (value : Utf16) (limit : Int32) : Prop :=
  clear isLoose jwtLead bearerLead limit.toInt.toNat false 0
      (((scan jwtAt [] value).take (limit.toInt.toNat + 4096)).map Mark.inMatch)
      (scan jwtAt [] (value.take (limit.toInt.toNat + 4096)))
      (scan bearerAt [] (value.take (limit.toInt.toNat + 4096))) = true ∧
    ¬ (value.length = limit.toInt.toNat + 12 ∧ truncationMarker <:+ value ∧
      maskShapes id id value = value) ∧
    (limit.toInt.toNat < (maskShapes id id (value.take (limit.toInt.toNat + 4096))).length ∨
      ∀ i < value.length, limit.toInt.toNat + 4096 ≤ i →
        secret value i = true ∨ bearerWord value i = true)

theorem track_start (u : Utf16) :
    Track jwtAt bearerAt isLoose jwtLead bearerLead u [] [] [] false 0 0 := by
  refine ⟨fun _ => rfl, fun _ => rfl, fun _ _ => rfl, fun _ _ => Or.inl List.take_nil.symm, ?_, ?_⟩
  · intro k l hl
    cases hl
  · exact Nat.le_refl 0

section Window
variable {value : Utf16} {kept : ℕ}
variable (hclear : clear isLoose jwtLead bearerLead kept false 0
  (((scan jwtAt [] value).take (kept + 4096)).map Mark.inMatch)
  (scan jwtAt [] (value.take (kept + 4096))) (scan bearerAt [] (value.take (kept + 4096))) = true)
include hclear

/-- Up to the limit nothing secret is written. -/
theorem window_shown :
    ∀ cell ∈ (maskShapes Prod.fst (fun u => ((u, none) : Cell))
        ((cells value).take (kept + 4096))).take kept,
      ∀ i, cell.2 = some i → value[i]? = some cell.1 ∧ secret value i = false := by
  have hunits : ((cells value).take (kept + 4096)).map Prod.fst = value.take (kept + 4096) := by
    rw [List.map_take, map_fst_cells]
  rw [maskShapes_eq_assemble _ _ _ fun _ => rfl]
  refine Track.shown kept interplay ?_ (((scan jwtAt [] value).take (kept + 4096)).map Mark.inMatch)
    (track_start _) ?_ ?_ ?_
  · intro cell hcell i hi
    obtain ⟨u, -, rfl⟩ := List.mem_map.mp hcell
    cases hi
  · simp
  · rw [hunits]
    exact hclear
  · intro i cell hcell hflag hjwt hbearer j hj
    rw [hunits] at hjwt hbearer
    rw [List.getElem?_take] at hcell
    split at hcell
    · rename_i hin
      rw [getElem?_cells] at hcell
      obtain ⟨u, hu, rfl⟩ := Option.map_eq_some_iff.mp hcell
      cases hj
      refine ⟨hu, ?_⟩
      have hi := (List.getElem?_eq_some_iff.mp hu).1
      rw [List.getElem?_map, List.getElem?_take_of_lt hin] at hflag
      obtain ⟨m, hm, hmatch⟩ := Option.map_eq_some_iff.mp hflag
      obtain ⟨mb, hmb⟩ : ∃ mb, (scan bearerAt [] (value.take (kept + 4096)))[i]? = some mb := by
        refine ⟨_, List.getElem?_eq_getElem ?_⟩
        rw [length_scan, List.length_take]
        omega
      rw [secret, hm, Option.any_some, hmatch, Bool.false_or]
      exact tight_false_of_window hmb (hbearer mb hmb)
    · cases hcell

/-- Where the limit is not reached, what is missing of the window lies in a match. -/
theorem window_missing
    (hfits : (maskShapes id id (value.take (kept + 4096))).length ≤ kept) {i : ℕ}
    (hi : i < value.length) (hin : i < kept + 4096)
    (hmissing : i ∉ positions (maskShapes Prod.fst (fun u => ((u, none) : Cell))
      ((cells value).take (kept + 4096)))) :
    secret value i = true ∨ bearerWord value i = true := by
  have hunits : ((cells value).take (kept + 4096)).map Prod.fst = value.take (kept + 4096) := by
    rw [List.map_take, map_fst_cells]
  obtain ⟨u, hu⟩ : ∃ u, value[i]? = some u := ⟨_, List.getElem?_eq_getElem hi⟩
  have hcell : ((cells value).take (kept + 4096))[i]? = some (u, some i) := by
    rw [List.getElem?_take_of_lt hin, getElem?_cells, hu, Option.map_some]
  have hlength : (maskShapes Prod.fst (fun u => ((u, none) : Cell))
      ((cells value).take (kept + 4096))).length ≤ kept := by
    rw [← hunits, ← map_fst_maskShapes, List.length_map] at hfits
    exact hfits
  rw [maskShapes_eq_assemble _ _ _ fun _ => rfl] at hlength hmissing
  have hmem := Track.missing kept interplay (mask_map_ne_nil _)
    (fun cell : Cell => ∀ j, cell.2 = some j → secret value j = true ∨ bearerWord value j = true)
    (((scan jwtAt [] value).take (kept + 4096)).map Mark.inMatch) (track_start _) (by simp)
    (by rw [hunits]; exact hclear) ?_ (by rw [Nat.zero_add]; exact hlength) (u, some i) (List.mem_of_getElem? hcell)
  · rcases hmem with hmem | hmatch
    · exact absurd (List.mem_filterMap.mpr ⟨(u, some i), hmem, rfl⟩ : i ∈ positions _) hmissing
    · exact hmatch i rfl
  · intro k cell hk hmatch j hj
    rw [hunits] at hmatch
    rw [List.getElem?_take] at hk
    split at hk
    · rename_i hkin
      rw [getElem?_cells] at hk
      obtain ⟨u', hu', rfl⟩ := Option.map_eq_some_iff.mp hk
      cases hj
      exact secret_or_word (List.getElem?_eq_some_iff.mp hu').1 hkin hmatch
    · cases hk

end Window

end Decisya.Logging
