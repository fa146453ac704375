import Decisya.Logging.RecordUniverse

/-!
# What is hidden in a record

The walk over the declared types finds whatever a record of exactly these types may hide. What
remains are members whose value has a type derived from the declared one.
-/

namespace Decisya.Logging.Rendering

open Text

set_option autoImplicit false

variable {Name : Type}

/-! ## The walk over the declared types -/

/-- After a path has been at its start for the last time it never comes back. -/
theorem last_leave {α : Type} {r : α → α → Prop} {a b : α} (h : Relation.ReflTransGen r a b) :
    b = a ∨ ∃ c, (r a c ∧ c ≠ a) ∧ Relation.ReflTransGen (fun x y => r x y ∧ y ≠ a) c b := by
  induction h with
  | refl => exact Or.inl rfl
  | @tail b c _ hstep ih =>
    by_cases hc : c = a
    · exact Or.inl hc
    · right
      rcases ih with rfl | ⟨d, hd, hpath⟩
      · exact ⟨c, ⟨hstep, hc⟩, Relation.ReflTransGen.refl⟩
      · exact ⟨d, hd, hpath.tail ⟨hstep, hc⟩⟩

namespace RecordTypes

variable (types : RecordTypes Name)

/-- Nothing is hidden in the members, and none is of a kind that has to be rendered. -/
def Clean (name : Name) : Prop :=
  ∀ member ∈ types.members name, ¬ types.Hides member ∧ member.type ≠ .text ∧
    ∀ declared, member.type = .record declared →
      types.isAbstract declared = false ∧ types.isMarked declared = false

variable {types}

theorem renderableProperties_named (name : Name) :
    types.reflection.renderableProperties (.named name) =
      (types.members name).map Member.property := by
  change ((types.members name).map Member.property).filter _ = _
  apply List.filter_eq_self.mpr
  intro property hproperty
  obtain ⟨member, _, rfl⟩ := List.mem_map.mp hproperty
  rfl

theorem memberNeedsRendering_named (analyze : Ty Name → Option Bool) (declared : Name) :
    types.reflection.memberNeedsRendering analyze (.named declared) =
      if types.isAbstract declared = true then some true
      else if types.isMarked declared = true then some true
      else analyze (.named declared) := by
  change (if (false || types.isAbstract declared) = true then _ else _) = _
  rw [Bool.false_or]
  rfl

theorem isProcessorRenderable_named (name : Name) :
    types.reflection.isProcessorRenderable (.named name) = true := by
  change (_ || (ascii "Decisya.").isPrefixOf (ascii "Decisya.Records")) = true
  rw [show (ascii "Decisya.").isPrefixOf (ascii "Decisya.Records") = true by decide, Bool.or_true]

variable [DecidableEq Name]

/-- An answer of no for a type is one for each type that its members declare. -/
theorem clean_of_analyzeGraph {fuel depth : ℕ} {name : Name} {visiting : List (Ty Name)}
    (h : types.reflection.analyzeGraph fuel (.named name) depth visiting = some false)
    (hnew : Ty.named name ∉ visiting) :
    types.Clean name ∧ ∀ declared, types.Declares name declared → ∃ rest,
      fuel = rest + 1 ∧ types.reflection.analyzeGraph rest (.named declared) (depth + 1)
        (.named name :: visiting) = some false := by
  cases fuel with
  | zero => cases h
  | succ rest =>
    rw [Reflection.analyzeGraph] at h
    by_cases hdepth : maxGraphDepth < depth
    · rw [if_pos hdepth] at h
      cases h
    · rw [if_neg hdepth, if_neg hnew] at h
      dsimp only at h
      rw [renderableProperties_named] at h
      obtain ⟨found, hfound, hfields⟩ := Option.bind_eq_some_iff.mp h
      cases found with
      | true => cases hfields
      | false =>
        rw [Fuel.search_eq_false] at hfound
        have hmember : ∀ member ∈ types.members name, ¬ types.Hides member ∧
            types.reflection.memberNeedsRendering
              (fun t => types.reflection.analyzeGraph rest t (depth + 1) (.named name :: visiting))
              member.type.ty.unwrap = some false := by
          intro member hmember
          have htest := hfound member.property (List.mem_map_of_mem hmember)
          split at htest
          · cases htest
          · rename_i hhides
            rw [Bool.or_eq_true, or_comm] at hhides
            exact ⟨hhides, htest⟩
        have hdeclared : ∀ member ∈ types.members name, ∀ declared,
            member.type = .record declared → types.isAbstract declared = false ∧
              types.isMarked declared = false ∧ types.reflection.analyzeGraph rest
                (.named declared) (depth + 1) (.named name :: visiting) = some false := by
          intro member hin declared htype
          have hneeds := (hmember member hin).2
          rw [htype] at hneeds
          change types.reflection.memberNeedsRendering _ (.named declared) = _ at hneeds
          rw [memberNeedsRendering_named] at hneeds
          split at hneeds
          · cases hneeds
          · rename_i habstract
            split at hneeds
            · cases hneeds
            · rename_i hmarked
              rw [Bool.not_eq_true] at habstract hmarked
              exact ⟨habstract, hmarked, hneeds⟩
        constructor
        · intro member hin
          refine ⟨(hmember member hin).1, ?_, fun declared htype => ?_⟩
          · intro htext
            have hneeds := (hmember member hin).2
            rw [htext] at hneeds
            cases hneeds
          · obtain ⟨habstract, hmarked, _⟩ := hdeclared member hin declared htype
            exact ⟨habstract, hmarked⟩
        · rintro declared ⟨member, hin, htype⟩
          exact ⟨rest, rfl, (hdeclared member hin declared htype).2.2⟩

theorem clean_of_path {fuel depth : ℕ} {name reached : Name} {visiting : List (Ty Name)}
    (h : types.reflection.analyzeGraph fuel (.named name) depth visiting = some false)
    (hnew : Ty.named name ∉ visiting)
    (hpath : Relation.ReflTransGen
      (fun a b => types.Declares a b ∧ Ty.named b ∉ visiting) name reached) :
    types.Clean reached := by
  induction fuel generalizing depth name visiting with
  | zero => cases h
  | succ rest ih =>
    obtain ⟨hclean, hdeclared⟩ := clean_of_analyzeGraph h hnew
    rcases last_leave hpath with rfl | ⟨first, ⟨⟨hfirst, hfresh⟩, hne⟩, hafter⟩
    · exact hclean
    · obtain ⟨_, hrest, hanswer⟩ := hdeclared first hfirst
      cases hrest
      have hout : ∀ {other : Name}, Ty.named other ∉ visiting → other ≠ name →
          Ty.named other ∉ Ty.named name :: visiting := by
        intro other hother hdiffers hin
        rcases List.mem_cons.mp hin with heq | hin
        · cases heq
          exact hdiffers rfl
        · exact hother hin
      apply ih hanswer (hout hfresh hne)
      apply Relation.ReflTransGen.mono _ _ _ hafter
      intro a b hstep
      exact ⟨hstep.1.1, hout hstep.1.2 hstep.2⟩

/-- Nothing is hidden in any type that a passing type declares, through however many members. -/
theorem clean_of_passes {name reached : Name} (h : types.Passes name)
    (hpath : Relation.ReflTransGen types.Declares name reached) : types.Clean reached := by
  apply clean_of_path (h.2.2 enoughFuel (Nat.le_refl _)) List.not_mem_nil
  apply Relation.ReflTransGen.mono _ _ _ hpath
  intro a b hstep
  exact ⟨hstep, List.not_mem_nil⟩

theorem passes_of_needs {fuel : ℕ} {name : Name} (hinstance : types.isAbstract name = false)
    (hmarked : types.isMarked name = false) (hfuel : maxGraphDepth + 2 ≤ fuel)
    (h : types.reflection.needsProcessorRendering fuel (.named name) = some false) :
    types.Passes name := by
  obtain ⟨needed, hneeded⟩ := types.reflection.settles_needsProcessorRendering (.named name)
  refine ⟨hinstance, hmarked, fun more hmore => ?_⟩
  unfold enoughFuel at hmore
  exact (hneeded more (by omega)).trans ((hneeded fuel hfuel).symm.trans h)

/-! ## Members of a derived type -/

theorem not_exposes_of_safe (hsafe : types.DerivedTypesAreSafe) {name reached : Name}
    (hpass : types.Passes name) (hpath : Relation.ReflTransGen types.Declares name reached) :
    ¬ types.Exposes reached := by
  intro hexposes
  induction hexposes with
  | member hmember hhides _ => exact (clean_of_passes hpass hpath _ hmember).1 hhides
  | @type reached declared held member hmember htype hderives hinstance hhidden =>
    by_cases heq : held = declared
    · have hclean := (clean_of_passes hpass hpath _ hmember).2.2 _ htype
      rw [← heq, hhidden.1] at hclean
      cases hclean.2
    · exact (hsafe name hpass reached hpath declared ⟨member, hmember, htype⟩ held hderives heq
        hinstance).1 hhidden
  | @deeper reached declared held member hmember htype hderives hinstance hexposes ih =>
    have hstep : types.Declares reached declared := ⟨member, hmember, htype⟩
    by_cases heq : held = declared
    · apply ih
      rw [heq]
      exact hpath.tail hstep
    · exact (hsafe name hpass reached hpath declared hstep held hderives heq hinstance).2 hexposes

theorem exposes_of_not_safe (h : ¬ types.DerivedTypesAreSafe) :
    ∃ name, types.Passes name ∧ types.Exposes name := by
  unfold DerivedTypesAreSafe at h
  simp only [not_forall, exists_prop] at h
  obtain ⟨name, hpass, reached, hpath, declared, ⟨member, hmember, htype⟩, held, hderives, _,
    hinstance, hunsafe⟩ := h
  refine ⟨name, hpass, ?_⟩
  have hreached : types.Exposes reached := by
    rw [not_and_or, not_not, not_not] at hunsafe
    rcases hunsafe with hhidden | hexposes
    · exact .type hmember htype hderives hinstance hhidden
    · exact .deeper hmember htype hderives hinstance hexposes
  have hback : ∀ {other : Name}, Relation.ReflTransGen types.Declares name other →
      types.Exposes other → types.Exposes name := by
    intro other hother
    induction hother with
    | refl => exact fun hexposes => hexposes
    | @tail b c hbefore hstep ih =>
      intro hexposes
      apply ih
      obtain ⟨member, hmember, htype⟩ := hstep
      have hclean := (clean_of_passes hpass hbefore member hmember).2.2 c htype
      exact .deeper hmember htype (types.derives_self c) hclean.1 hexposes
  exact hback hpath hreached

theorem safe_iff : types.DerivedTypesAreSafe ↔ ∀ name, types.Passes name → ¬ types.Exposes name := by
  constructor
  · intro hsafe name hpass
    exact not_exposes_of_safe hsafe hpass Relation.ReflTransGen.refl
  · intro hnone
    by_contra hunsafe
    obtain ⟨name, hpass, hexposes⟩ := exposes_of_not_safe hunsafe
    exact hnone name hpass hexposes

end RecordTypes

/-! ## Two records that differ in what is hidden -/

section Secrecy
variable {types : RecordTypes Name} {Obj : Type} {heap : Heap types Obj}
variable {related : Obj → Obj → Prop}

theorem value_of_not_canHold {o : Obj} {member : Member Name}
    (hmember : member ∈ types.members (heap.typeOf o)) (h : ¬ types.CanHold member) :
    heap.value o member.property = .null := by
  unfold RecordTypes.CanHold at h
  simp only [not_forall, exists_prop] at h
  obtain ⟨declared, htype, hnone⟩ := h
  have hfits := heap.fits o member hmember
  generalize heap.value o member.property = content at hfits ⊢
  rw [htype] at hfits
  cases hfits with
  | noRecord => rfl
  | @record _ held hderives hinstance => exact absurd ⟨heap.typeOf held, hderives, hinstance⟩ hnone

theorem membersText_congr {text : Obj → Option Utf16} {o o' : Obj} {members : List (Member Name)}
    (h : ∀ member ∈ members, contentText text (heap.value o member.property) =
      contentText text (heap.value o' member.property)) :
    membersText heap text o members = membersText heap text o' members := by
  induction members with
  | nil => rfl
  | cons member members ih =>
    have hrest := ih fun other hother => h other (List.mem_cons_of_mem member hother)
    rw [membersText, membersText, h member List.mem_cons_self, hrest]

theorem fits_record {o held : Obj} {member : Member Name}
    (hmember : member ∈ types.members (heap.typeOf o))
    (hvalue : heap.value o member.property = .record held) :
    ∃ declared, member.type = .record declared ∧ types.derives (heap.typeOf held) declared ∧
      types.isAbstract (heap.typeOf held) = false := by
  have hfits := heap.fits o member hmember
  rw [hvalue] at hfits
  generalize member.type = type at hfits
  cases hfits with
  | @record declared _ hderives hinstance => exact ⟨declared, rfl, hderives, hinstance⟩

/-- Values as the processor is given them. -/
inductive Alike (heap : Heap types Obj) (related : Obj → Obj → Prop) :
    Boxed (Node Obj) → Boxed (Node Obj) → Prop where
  | null : Alike heap related .null .null
  | text (s : Utf16) : Alike heap related (.text s) (.text s)
  | scalar (type : ScalarType) (s : Utf16) :
      Alike heap related (.object (.scalar type s)) (.object (.scalar type s))
  | record {o o' : Obj} (h : related o o') (hinstance : types.isAbstract (heap.typeOf o) = false) :
      Alike heap related (.object (.record o)) (.object (.record o'))

/-- What is seen of a result: what the sinks get, its text inside another record, and whether
it counts as masked. -/
def view {Name Obj : Type} (objects : Objects Name Obj) (outcome : Outcome (MaskResult Obj)) :
    Outcome (LogValue × Utf16 × Bool) :=
  (outcome.1.map fun result =>
    (asLogValue objects result.value, format objects result.value, result.masked), outcome.2)

theorem andThen_format {a b : Option (Outcome (MaskResult (Node Obj)))}
    (h : a.map (view heap.objects) = b.map (view heap.objects)) :
    andThen a (fun result run => some (some (format heap.objects result.value), run)) =
      andThen b fun result run => some (some (format heap.objects result.value), run) := by
  have hview : ∀ c : Option (Outcome (MaskResult (Node Obj))),
      andThen c (fun result run => some (some (format heap.objects result.value), run)) =
        (c.map (view heap.objects)).map fun outcome =>
          (outcome.1.map fun seen => seen.2.1, outcome.2) := by
    intro c
    cases c with
    | none => rfl
    | some outcome =>
      obtain ⟨result, run⟩ := outcome
      cases result with
      | none => rfl
      | some r => rfl
  rw [hview a, hview b, h]

variable (hdiffer : DifferInHidden heap related)
include hdiffer

theorem recordText_eq {stack : ℕ} {o o' : Obj} (hrelated : related o o')
    (hexposes : ¬ types.Exposes (heap.typeOf o)) (hholds : ¬ types.HoldsHidden (heap.typeOf o)) :
    recordText heap stack o = recordText heap stack o' := by
  induction stack generalizing o o' with
  | zero => rfl
  | succ stack ih =>
    obtain ⟨htype, hsame⟩ := hdiffer o o' hrelated
    have hempty : ∀ member ∈ types.members (heap.typeOf o), ¬ types.CanHold member →
        contentText (recordText heap stack) (heap.value o member.property) =
          contentText (recordText heap stack) (heap.value o' member.property) := by
      intro member hmember hnone
      have hmember' : member ∈ types.members (heap.typeOf o') := htype ▸ hmember
      rw [value_of_not_canHold hmember hnone, value_of_not_canHold hmember' hnone]
    have hmembers : membersText heap (recordText heap stack) o (types.members (heap.typeOf o)) =
        membersText heap (recordText heap stack) o' (types.members (heap.typeOf o)) := by
      apply membersText_congr
      intro member hmember
      rcases hsame with hmarked | hsame
      · exact hempty member hmember fun hcan => hholds ⟨hmarked, member, hmember, hcan⟩
      · rcases hsame member hmember with hhides | hcontent
        · exact hempty member hmember fun hcan => hexposes (.member hmember hhides hcan)
        · generalize hvalue : heap.value o member.property = content at hcontent ⊢
          generalize heap.value o' member.property = content' at hcontent ⊢
          cases hcontent with
          | null => rfl
          | text s => rfl
          | scalar type s => rfl
          | record hheld =>
            obtain ⟨declared, hdeclared, hderives, hinstance⟩ := fits_record hmember hvalue
            apply ih hheld
            · exact fun h => hexposes (.deeper hmember hdeclared hderives hinstance h)
            · exact fun h => hexposes (.type hmember hdeclared hderives hinstance h)
    unfold recordText
    rw [← htype, hmembers]

section Rendered
variable {next : Boxed (Node Obj) → Run → Option (Outcome (MaskResult (Node Obj)))}
variable (hnext : ∀ value value' run, Alike heap related value value' →
  (next value run).map (view heap.objects) = (next value' run).map (view heap.objects))
include hnext

theorem renderMember_eq {o o' : Obj} (hrelated : related o o')
    (hmarked : types.isMarked (heap.typeOf o) = false) {member : Member Name}
    (hmember : member ∈ types.members (heap.typeOf o)) (run : Run) :
    renderMember types.reflection heap.objects next (.record o) member.property run =
      renderMember types.reflection heap.objects next (.record o') member.property run := by
  obtain ⟨_, hsame⟩ := hdiffer o o' hrelated
  rw [hmarked] at hsame
  unfold renderMember
  split
  · rfl
  · rename_i hhides
    rw [Bool.or_eq_true] at hhides
    have hcontent := ((hsame.resolve_left Bool.false_ne_true) member hmember).resolve_left hhides
    change andThen (next (heap.value o member.property).box _) _ =
      andThen (next (heap.value o' member.property).box _) _
    apply andThen_format
    apply hnext
    generalize hvalue : heap.value o member.property = content at hcontent ⊢
    generalize heap.value o' member.property = content' at hcontent ⊢
    cases hcontent with
    | null => exact .null
    | text s => exact .text s
    | scalar type s => exact .scalar type s
    | record hheld =>
      obtain ⟨_, _, _, hinstance⟩ := fits_record hmember hvalue
      exact .record hheld hinstance

theorem renderProperties_eq {o o' : Obj} (hrelated : related o o')
    (hmarked : types.isMarked (heap.typeOf o) = false) {members : List (Member Name)}
    (hmembers : members ⊆ types.members (heap.typeOf o)) (written : ℕ) (builder : Utf16)
    (run : Run) :
    renderProperties types.reflection heap.objects next (.record o)
        (members.map Member.property) written builder run =
      renderProperties types.reflection heap.objects next (.record o')
        (members.map Member.property) written builder run := by
  induction members generalizing written builder run with
  | nil => rfl
  | cons member members ih =>
    rw [List.cons_subset] at hmembers
    rw [List.map_cons]
    unfold renderProperties
    split
    · rfl
    · split
      · rfl
      · rw [renderMember_eq hdiffer hnext hrelated hmarked hmembers.1]
        congr 1
        funext text run'
        exact ih hmembers.2 _ _ run'

theorem renderObject_eq {o o' : Obj} (hrelated : related o o')
    (hmarked : types.isMarked (heap.typeOf o) = false) (run : Run) :
    renderObject types.reflection heap.objects next (.record o) (.named (heap.typeOf o)) run =
      renderObject types.reflection heap.objects next (.record o') (.named (heap.typeOf o)) run := by
  unfold renderObject
  rw [RecordTypes.renderableProperties_named, renderProperties_eq hdiffer hnext hrelated hmarked
    (List.Subset.refl _)]

end Rendered

variable [DecidableEq Name] (hsafe : ∀ name, types.Passes name → ¬ types.Exposes name)
include hsafe

omit hdiffer hsafe in
theorem processObject_record (fuel depth : ℕ)
    (next : Boxed (Node Obj) → Run → Option (Outcome (MaskResult (Node Obj)))) (o : Obj)
    (run : Run) :
    processObject types.reflection heap.objects fuel next depth (.record o) run =
      if types.isMarked (heap.typeOf o) = true then some (some maskWhole, run)
      else
        (types.reflection.needsProcessorRendering fuel (.named (heap.typeOf o))).bind fun needed =>
          if needed = false then some (some (unchanged (.object (.record o))), run)
          else if maxRenderDepth < depth then some (some maskWhole, run)
          else if run.tryConsume.1 = false then some (some maskWhole, run.tryConsume.2)
          else
            andThen (renderObject types.reflection heap.objects next (.record o)
                (.named (heap.typeOf o)) run.tryConsume.2) fun text run =>
              some (some ⟨.value (.text text), true⟩, run) := by
  have hrenderable := types.isProcessorRenderable_named (heap.typeOf o)
  change (if types.isMarked (heap.typeOf o) = true then _ else
    (types.reflection.needsProcessorRendering fuel (.named (heap.typeOf o))).bind _) = _
  congr 2
  funext needed
  change (if needed = false then _ else if types.reflection.isProcessorRenderable
    (.named (heap.typeOf o)) = false ∨ maxRenderDepth < depth then _ else _) = _
  rw [hrenderable]
  simp only [Bool.true_eq_false, false_or]
  obtain ⟨consumed, run'⟩ := run.tryConsume
  cases consumed with
  | false => rfl
  | true => rfl

theorem view_processObject {fuel depth : ℕ} (hfuel : maxGraphDepth + 2 ≤ fuel)
    {next : Boxed (Node Obj) → Run → Option (Outcome (MaskResult (Node Obj)))}
    (hnext : depth ≤ maxRenderDepth → ∀ value value' run, Alike heap related value value' →
      (next value run).map (view heap.objects) = (next value' run).map (view heap.objects))
    {o o' : Obj} (hrelated : related o o') (hinstance : types.isAbstract (heap.typeOf o) = false)
    (run : Run) :
    (processObject types.reflection heap.objects fuel next depth (.record o) run).map
        (view heap.objects) =
      (processObject types.reflection heap.objects fuel next depth (.record o') run).map
        (view heap.objects) := by
  rw [processObject_record, processObject_record, ← (hdiffer o o' hrelated).1]
  split
  · rfl
  · rename_i hmarked
    rw [Bool.not_eq_true] at hmarked
    cases hneeded : types.reflection.needsProcessorRendering fuel (.named (heap.typeOf o)) with
    | none => rfl
    | some needed =>
      rw [Option.bind_some, Option.bind_some]
      split
      · rename_i hno
        rw [hno] at hneeded
        have hpass := RecordTypes.passes_of_needs hinstance hmarked hfuel hneeded
        have htext : recordText heap heap.stack o = recordText heap heap.stack o' := by
          apply recordText_eq hdiffer hrelated (hsafe _ hpass)
          intro hholds
          rw [hholds.1] at hmarked
          cases hmarked
        have htoText : heap.objects.toText (.record o) = heap.objects.toText (.record o') := by
          change (recordText heap heap.stack o).map some = (recordText heap heap.stack o').map some
          rw [htext]
        have hview : ∀ node : Node Obj, view heap.objects (some (unchanged (.object node)), run) =
            (some ((heap.objects.json node).getD (.other (heap.objects.toText node)),
              (heap.objects.toText node).join.getD mask, false), run) := fun _ => rfl
        rw [Option.map_some, Option.map_some, hview, hview, htoText]
        rfl
      · split
        · rfl
        · rename_i hdepth
          split
          · rfl
          · rw [renderObject_eq hdiffer (hnext (Nat.not_lt.mp hdepth)) hrelated hmarked]

theorem view_processAny {fuel depth : ℕ} (hfuel : enoughFuel ≤ fuel + depth)
    (hdepth : depth ≤ maxRenderDepth + 1) {value value' : Boxed (Node Obj)}
    (halike : Alike heap related value value') (run : Run) :
    (processAny types.reflection heap.objects fuel depth value run).map (view heap.objects) =
      (processAny types.reflection heap.objects fuel depth value' run).map (view heap.objects) := by
  unfold enoughFuel at hfuel
  induction fuel generalizing depth value value' run with
  | zero => rfl
  | succ fuel ih =>
    cases halike with
    | null => rfl
    | text s => rfl
    | scalar type s => rfl
    | record hrelated hinstance =>
      apply view_processObject hdiffer hsafe (by omega) _ hrelated hinstance
      intro hle value value' run hvalues
      exact ih (by omega) (by omega) hvalues run

theorem keepsSecrets_of_safe {fuel budget : ℕ} (hfuel : enoughFuel ≤ fuel) {key : Utf16}
    {o o' : Obj} (hrelated : related o o')
    (hinstance : types.isAbstract (heap.typeOf o) = false) :
    (valueMasking types.reflection heap.objects fuel).processKeyed key
        (.object (.record o)) budget =
      (valueMasking types.reflection heap.objects fuel).processKeyed key
        (.object (.record o')) budget := by
  have hviews : (processKeyed types.reflection heap.objects fuel key (.object (.record o))
        ⟨budget, []⟩).map (view heap.objects) =
      (processKeyed types.reflection heap.objects fuel key (.object (.record o'))
        ⟨budget, []⟩).map (view heap.objects) := by
    unfold processKeyed
    split
    · exact view_processAny hdiffer hsafe (Nat.le_add_right_of_le hfuel) (Nat.zero_le _)
        (.record hrelated hinstance) _
    · rfl
  have hshown : ∀ node : Node Obj, (valueMasking types.reflection heap.objects fuel).processKeyed
      key (.object node) budget =
      (((processKeyed types.reflection heap.objects fuel key (.object node) ⟨budget, []⟩).map
        (view heap.objects)).elim (none, budget) fun outcome =>
          (outcome.1.map fun seen => (seen.1, seen.2.2), outcome.2.budget)) := by
    intro node
    unfold valueMasking
    dsimp only
    cases processKeyed types.reflection heap.objects fuel key (.object node) ⟨budget, []⟩ with
    | none => rfl
    | some outcome =>
      obtain ⟨result, run⟩ := outcome
      cases result with
      | none => rfl
      | some r => rfl
  rw [hshown, hshown, hviews]

end Secrecy

/-! ## Longer texts -/

def NotShorter (t t' : Option Utf16) : Prop :=
  ∃ s s', t = some s ∧ t' = some s' ∧ s.length ≤ s'.length

def Longer (t t' : Option Utf16) : Prop :=
  ∃ s s', t = some s ∧ t' = some s' ∧ s.length < s'.length

theorem Longer.notShorter {t t' : Option Utf16} (h : Longer t t') : NotShorter t t' := by
  obtain ⟨s, s', hs, hs', hlt⟩ := h
  exact ⟨s, s', hs, hs', hlt.le⟩

section Texts
variable {types : RecordTypes Name} {Obj : Type} {heap : Heap types Obj}
variable {text : Obj → Option Utf16} {o o' : Obj} {members : List (Member Name)}

/-- The text of a member, with what stands before and after it. -/
theorem membersText_cons {member : Member Name} {s rest : Utf16}
    (hs : contentText text (heap.value o member.property) = some s)
    (hrest : membersText heap text o members = some rest) :
    membersText heap text o (member :: members) = some (member.name ++ ascii " = " ++ s ++
      (if members.isEmpty then [] else ascii ", ") ++ rest) := by
  rw [membersText, hs, Option.bind_some, hrest]
  rfl

theorem membersText_notShorter
    (h : ∀ member ∈ members, NotShorter (contentText text (heap.value o member.property))
      (contentText text (heap.value o' member.property))) :
    NotShorter (membersText heap text o members) (membersText heap text o' members) := by
  induction members with
  | nil => exact ⟨[], [], rfl, rfl, Nat.le_refl _⟩
  | cons member members ih =>
    obtain ⟨s, s', hs, hs', hle⟩ := h member List.mem_cons_self
    obtain ⟨rest, rest', hrest, hrest', hrests⟩ := ih fun other hother =>
      h other (List.mem_cons_of_mem member hother)
    refine ⟨_, _, membersText_cons hs hrest, membersText_cons hs' hrest', ?_⟩
    simp only [List.length_append]
    omega

theorem membersText_longer
    (h : ∀ member ∈ members, NotShorter (contentText text (heap.value o member.property))
      (contentText text (heap.value o' member.property)))
    (hlonger : ∃ member ∈ members, Longer (contentText text (heap.value o member.property))
      (contentText text (heap.value o' member.property))) :
    Longer (membersText heap text o members) (membersText heap text o' members) := by
  induction members with
  | nil =>
    obtain ⟨_, hnil, _⟩ := hlonger
    cases hnil
  | cons member members ih =>
    have hothers := fun other hother => h other (List.mem_cons_of_mem member hother)
    obtain ⟨longer, hin, hlonger⟩ := hlonger
    rcases List.mem_cons.mp hin with rfl | hin
    · obtain ⟨s, s', hs, hs', hlt⟩ := hlonger
      obtain ⟨rest, rest', hrest, hrest', hrests⟩ := membersText_notShorter hothers
      refine ⟨_, _, membersText_cons hs hrest, membersText_cons hs' hrest', ?_⟩
      simp only [List.length_append]
      omega
    · obtain ⟨s, s', hs, hs', hle⟩ := h member List.mem_cons_self
      obtain ⟨rest, rest', hrest, hrest', hrests⟩ := ih hothers ⟨longer, hin, hlonger⟩
      refine ⟨_, _, membersText_cons hs hrest, membersText_cons hs' hrest', ?_⟩
      simp only [List.length_append]
      omega

theorem recordText_succ {stack : ℕ} {body : Utf16}
    (h : membersText heap (recordText heap stack) o (types.members (heap.typeOf o)) = some body) :
    recordText heap (stack + 1) o = some (types.typeName (heap.typeOf o) ++ ascii " \x7b " ++ body ++
      (if (types.members (heap.typeOf o)).isEmpty then [] else ascii " ") ++ ascii "\x7d") := by
  rw [recordText, h]
  rfl

theorem recordText_longer {stack : ℕ} (htype : heap.typeOf o = heap.typeOf o')
    (h : Longer (membersText heap (recordText heap stack) o (types.members (heap.typeOf o)))
      (membersText heap (recordText heap stack) o' (types.members (heap.typeOf o)))) :
    Longer (recordText heap (stack + 1) o) (recordText heap (stack + 1) o') := by
  obtain ⟨body, body', hbody, hbody', hlt⟩ := h
  refine ⟨_, _, recordText_succ hbody, recordText_succ (htype ▸ hbody'), ?_⟩
  rw [htype]
  simp only [List.length_append]
  omega

end Texts

/-! ## A record that shows what is hidden -/

/-- Records of which one member at most is not as it is by default. -/
inductive Chain (Name : Type) where
  | plain (name : Name)
  | changed (name : Name) (property : Property Name) (content : Content (Chain Name))

namespace Chain

def typeOf : Chain Name → Name
  | plain name => name
  | changed name _ _ => name

def default (property : Property Name) : Content (Chain Name) :=
  match property.type with
  | .scalar type => .scalar type (ascii "0")
  | _ => .null

variable (types : RecordTypes Name)

def FitsAt (property : Property Name) (content : Content (Chain Name)) : Prop :=
  ∀ member : Member Name, member.property = property → Fits types typeOf member.type content

open Classical in
noncomputable def value (o : Chain Name) (property : Property Name) : Content (Chain Name) :=
  match o with
  | plain _ => default property
  | changed _ other content =>
    if property = other ∧ FitsAt types property content then content else default property

theorem fits_default (member : Member Name) :
    Fits types typeOf member.type (default member.property) := by
  obtain ⟨name, type, isMarked⟩ := member
  cases type with
  | text => exact .noText
  | scalar type => exact .scalar type _
  | record declared => exact .noRecord declared

theorem value_of_fits {name : Name} {property : Property Name} {content : Content (Chain Name)}
    (h : FitsAt types property content) :
    value types (changed name property content) property = content := if_pos ⟨rfl, h⟩

theorem value_of_not_fits {name : Name} {property other : Property Name}
    {content : Content (Chain Name)} (h : ¬ (property = other ∧ FitsAt types property content)) :
    value types (changed name other content) property = default property := if_neg h

noncomputable def heap (stack : ℕ) : Heap types (Chain Name) where
  typeOf := typeOf
  value := value types
  stack := stack
  fits o member _ := by
    cases o with
    | plain name => exact fits_default types member
    | changed name other content =>
      by_cases h : member.property = other ∧ FitsAt types member.property content
      · rw [← h.1, value_of_fits types h.2]
        exact h.2 member rfl
      · rw [value_of_not_fits types h]
        exact fits_default types member

theorem heap_value (stack : ℕ) : (heap types stack).value = value types := rfl

/-- Two records that differ in one thing that is hidden, at whatever depth. -/
inductive Differs : Chain Name → Chain Name → Prop where
  | same (o : Chain Name) : Differs o o
  | member (name : Name) {member : Member Name} (hhides : types.Hides member)
      (content content' : Content (Chain Name)) :
      Differs (changed name member.property content) (changed name member.property content')
  | type {o o' : Chain Name} (htype : o.typeOf = o'.typeOf)
      (hmarked : types.isMarked o.typeOf = true) : Differs o o'
  | deeper (name : Name) (property : Property Name) {o o' : Chain Name} (h : Differs o o') :
      Differs (changed name property (.record o)) (changed name property (.record o'))

variable {types}

theorem Differs.typeOf_eq {o o' : Chain Name} (h : Differs types o o') : o.typeOf = o'.typeOf := by
  cases h with
  | same => rfl
  | member => rfl
  | type htype => exact htype
  | deeper => rfl

theorem sameContent_refl (content : Content (Chain Name)) :
    SameContent (Differs types) content content := by
  cases content with
  | null => exact .null
  | text s => exact .text s
  | scalar type s => exact .scalar type s
  | record o => exact .record (.same o)

theorem fitsAt_record {property : Property Name} {o o' : Chain Name} (h : o.typeOf = o'.typeOf)
    (hfits : FitsAt types property (.record o)) : FitsAt types property (.record o') := by
  intro member hmember
  have hmember := hfits member hmember
  generalize member.type = type at hmember ⊢
  cases hmember with
  | record hderives hinstance =>
    rw [h] at hderives hinstance
    exact .record hderives hinstance

theorem differInHidden (stack : ℕ) : DifferInHidden (heap types stack) (Differs types) := by
  intro o o' h
  refine ⟨h.typeOf_eq, ?_⟩
  cases h with
  | same => exact Or.inr fun member _ => Or.inr (sameContent_refl _)
  | @member name hidden hhides content content' =>
    right
    intro member _
    by_cases heq : member.property = hidden.property
    · left
      have hname : member.name = hidden.name := congrArg Property.name heq
      unfold RecordTypes.Hides at hhides ⊢
      rw [hname, heq]
      exact hhides
    · right
      rw [heap_value, value_of_not_fits types fun h => heq h.1, value_of_not_fits types fun h => heq h.1]
      exact sameContent_refl _
  | type _ hmarked => exact Or.inl hmarked
  | @deeper name property held held' h =>
    right
    intro member _
    right
    rw [heap_value]
    by_cases hfits : member.property = property ∧ FitsAt types member.property (.record held)
    · rw [← hfits.1, value_of_fits types hfits.2,
        value_of_fits types (fitsAt_record h.typeOf_eq hfits.2)]
      exact .record h
    · rw [value_of_not_fits types hfits, value_of_not_fits types fun hother =>
        hfits ⟨hother.1, fitsAt_record h.typeOf_eq.symm hother.2⟩]
      exact sameContent_refl _

theorem contentText_default (text : Chain Name → Option Utf16) (property : Property Name) :
    ∃ s, contentText text (default property) = some s := by
  unfold default
  split
  · exact ⟨_, rfl⟩
  · exact ⟨_, rfl⟩

/-- A record of default members has a text, and it is not empty. -/
theorem recordText_plain (name : Name) (size stack : ℕ) :
    Longer (some []) (recordText (heap types size) (stack + 1) (plain name)) := by
  have hmembers : NotShorter
      (membersText (heap types size) (recordText (heap types size) stack) (plain name)
        (types.members name))
      (membersText (heap types size) (recordText (heap types size) stack) (plain name)
        (types.members name)) := by
    apply membersText_notShorter
    intro member _
    obtain ⟨s, hs⟩ := contentText_default (recordText (heap types size) stack) member.property
    exact ⟨s, s, hs, hs, Nat.le_refl _⟩
  obtain ⟨body, _, hbody, _, _⟩ := hmembers
  have htext : recordText (heap types size) (stack + 1) (plain name) = some _ := recordText_succ hbody
  refine ⟨[], _, rfl, htext, ?_⟩
  simp only [List.length_append, List.length_nil]
  have hbrace : (ascii "\x7d").length = 1 := rfl
  omega

/-- Two records that differ in one member, whose text is longer in one of them. -/
theorem longer_changed {name : Name} {member : Member Name} {size stack : ℕ}
    {content content' : Content (Chain Name)} (hmember : member ∈ types.members name)
    (hfits : FitsAt types member.property content) (hfits' : FitsAt types member.property content')
    (hlonger : Longer (contentText (recordText (heap types size) stack) content)
      (contentText (recordText (heap types size) stack) content')) :
    Longer (recordText (heap types size) (stack + 1) (changed name member.property content))
      (recordText (heap types size) (stack + 1) (changed name member.property content')) := by
  have htype : (heap types size).typeOf (changed name member.property content) =
      (heap types size).typeOf (changed name member.property content') := rfl
  apply recordText_longer htype
  apply membersText_longer
  · intro other _
    rw [heap_value]
    by_cases heq : other.property = member.property
    · rw [heq, value_of_fits types hfits, value_of_fits types hfits']
      exact hlonger.notShorter
    · rw [value_of_not_fits types fun h => heq h.1, value_of_not_fits types fun h => heq h.1]
      obtain ⟨s, hs⟩ := contentText_default (recordText (heap types size) stack) other.property
      exact ⟨s, s, hs, hs, Nat.le_refl _⟩
  · refine ⟨member, hmember, ?_⟩
    rw [heap_value, value_of_fits types hfits, value_of_fits types hfits']
    exact hlonger

theorem ty_injective {type type' : MemberType Name} (h : type.ty = type'.ty) : type = type' := by
  cases type with
  | text =>
    cases type' with
    | text => rfl
    | scalar => cases h
    | record => cases h
  | scalar s =>
    cases type' with
    | text => cases h
    | scalar s' =>
      cases h
      rfl
    | record => cases h
  | record n =>
    cases type' with
    | text => cases h
    | scalar => cases h
    | record n' =>
      cases h
      rfl

theorem fitsAt_property {member : Member Name} {content : Content (Chain Name)}
    (h : Fits types typeOf member.type content) : FitsAt types member.property content := by
  intro other hother
  rw [ty_injective (congrArg Property.type hother)]
  exact h

/-- A member that can hold something has two values of which one has the longer text. -/
theorem exists_longer {member : Member Name} (h : types.CanHold member) :
    ∃ content content', FitsAt types member.property content ∧
      FitsAt types member.property content' ∧ ∀ size stack, 0 < stack →
        Longer (contentText (recordText (heap types size) stack) content)
          (contentText (recordText (heap types size) stack) content') := by
  cases htype : member.type with
  | text =>
    refine ⟨.null, .text (ascii "x"), fitsAt_property ?_, fitsAt_property ?_, fun _ _ _ => ?_⟩
    · rw [htype]
      exact .noText
    · rw [htype]
      exact .text _
    · exact ⟨_, _, rfl, rfl, Nat.zero_lt_one⟩
  | scalar type =>
    refine ⟨.scalar type (ascii "1"), .scalar type (ascii "10"), fitsAt_property ?_,
      fitsAt_property ?_, fun _ _ _ => ?_⟩
    · rw [htype]
      exact .scalar type _
    · rw [htype]
      exact .scalar type _
    · exact ⟨_, _, rfl, rfl, Nat.one_lt_two⟩
  | record declared =>
    obtain ⟨name, hderives, hinstance⟩ := h declared htype
    refine ⟨.null, .record (plain name), fitsAt_property ?_, fitsAt_property ?_, ?_⟩
    · rw [htype]
      exact .noRecord declared
    · rw [htype]
      exact .record hderives hinstance
    · intro size stack hstack
      obtain ⟨less, rfl⟩ := Nat.exists_eq_add_of_lt hstack
      rw [Nat.zero_add]
      exact recordText_plain name size less

/-- The path to what is hidden, followed from its end. -/
theorem exists_differs {name : Name} (h : types.Exposes name) :
    ∃ o o' : Chain Name, o.typeOf = name ∧ Differs types o o' ∧ ∃ enough, ∀ size stack,
      enough ≤ stack →
        Longer (recordText (heap types size) stack o) (recordText (heap types size) stack o') := by
  have hsucc : ∀ {enough : ℕ} {o o' : Chain Name}, (∀ size stack, enough ≤ stack →
      Longer (recordText (heap types size) (stack + 1) o)
        (recordText (heap types size) (stack + 1) o')) → ∀ size stack, enough + 1 ≤ stack →
      Longer (recordText (heap types size) stack o) (recordText (heap types size) stack o') := by
    intro enough o o' h size stack hstack
    obtain ⟨less, rfl⟩ := Nat.exists_eq_add_of_le' hstack
    exact h size (less + enough) (Nat.le_add_left _ _)
  have hdeeper : ∀ {name declared : Name} {member : Member Name} {held held' : Chain Name},
      member ∈ types.members name → member.type = .record declared →
      types.derives held.typeOf declared → types.isAbstract held.typeOf = false →
      Differs types held held' → (∃ enough, ∀ size stack, enough ≤ stack →
        Longer (recordText (heap types size) stack held)
          (recordText (heap types size) stack held')) →
      ∃ o o' : Chain Name, o.typeOf = name ∧ Differs types o o' ∧ ∃ enough, ∀ size stack,
        enough ≤ stack →
          Longer (recordText (heap types size) stack o) (recordText (heap types size) stack o') := by
    intro name declared member held held' hmember htype hderives hinstance hdiffers hlonger
    obtain ⟨enough, hlonger⟩ := hlonger
    have hfits : FitsAt types member.property (.record held) := by
      apply fitsAt_property
      rw [htype]
      exact .record hderives hinstance
    refine ⟨changed name member.property (.record held), changed name member.property (.record held'),
      rfl, .deeper name member.property hdiffers, enough + 1, hsucc fun size stack hstack => ?_⟩
    exact longer_changed hmember hfits (fitsAt_record hdiffers.typeOf_eq hfits)
      (hlonger size stack hstack)
  induction h with
  | @member name member hmember hhides hholds =>
    obtain ⟨content, content', hfits, hfits', hlonger⟩ := exists_longer hholds
    refine ⟨changed name member.property content, changed name member.property content', rfl,
      .member name hhides content content', 1 + 1, hsucc fun size stack hstack => ?_⟩
    exact longer_changed hmember hfits hfits' (hlonger size stack hstack)
  | @type name declared held member hmember htype hderives hinstance hhidden =>
    obtain ⟨hmarked, inner, hinner, hholds⟩ := hhidden
    obtain ⟨content, content', hfits, hfits', hlonger⟩ := exists_longer hholds
    have hdiffers : Differs types (changed held inner.property content)
        (changed held inner.property content') := .type rfl hmarked
    have htexts : ∃ enough, ∀ size stack, enough ≤ stack →
        Longer (recordText (heap types size) stack (changed held inner.property content))
          (recordText (heap types size) stack (changed held inner.property content')) := by
      refine ⟨1 + 1, hsucc fun size stack hstack => ?_⟩
      exact longer_changed hinner hfits hfits' (hlonger size stack hstack)
    have hheld : (changed held inner.property content).typeOf = held := rfl
    rw [← hheld] at hderives hinstance
    exact hdeeper hmember htype hderives hinstance hdiffers htexts
  | @deeper name declared held member hmember htype hderives hinstance _ ih =>
    obtain ⟨o, o', rfl, hdiffers, hlonger⟩ := ih
    exact hdeeper hmember htype hderives hinstance hdiffers hlonger

end Chain

theorem isDenied_nil (types : Reflection Name) : types.isDenied [] = false := by
  change (deniedKeyFragments.any fun fragment => decide (fragment <:+: [])) = false
  decide

/-- A record of a passing type is handed on, to be printed by its own `ToString`. -/
theorem processKeyed_of_passes [DecidableEq Name] {types : RecordTypes Name} {Obj : Type}
    {heap : Heap types Obj} {o : Obj} (hpass : types.Passes (heap.typeOf o)) (budget : ℕ) :
    (valueMasking types.reflection heap.objects enoughFuel).processKeyed [] (.object (.record o))
      budget = (some (.other (heap.objects.toText (.record o)), false), budget) := by
  have hobject : processObject types.reflection heap.objects enoughFuel
      (processAny types.reflection heap.objects 8 1) 0 (.record o) ⟨budget, []⟩ =
        some (some (unchanged (.object (.record o))), ⟨budget, []⟩) := by
    have hneeded := hpass.2.2 enoughFuel (Nat.le_refl _)
    rw [processObject_record, hpass.2.1, hneeded]
    rfl
  have hkeyed : processKeyed types.reflection heap.objects enoughFuel [] (.object (.record o))
      ⟨budget, []⟩ = some (some (unchanged (.object (.record o))), ⟨budget, []⟩) := by
    unfold processKeyed
    rw [if_pos (isDenied_nil _)]
    exact hobject
  rw [valueMasking_processKeyed hkeyed]
  rfl

/-- The processor keeps what is hidden from the sinks exactly where derived types are safe. -/
theorem keepsSecrets_iff [DecidableEq Name] (types : RecordTypes Name) :
    KeepsSecrets types ↔ types.DerivedTypesAreSafe := by
  rw [RecordTypes.safe_iff]
  constructor
  · intro hkeeps name hpass hexposes
    obtain ⟨o, o', rfl, hdiffers, enough, hlonger⟩ := Chain.exists_differs hexposes
    have hsame := hkeeps (Chain Name) (Chain.heap types enough) (Chain.Differs types)
      (Chain.differInHidden enough) o o' hdiffers hpass.1 enoughFuel [] 0 (Nat.le_refl _)
    have hpass' : types.Passes o'.typeOf := by
      rw [← hdiffers.typeOf_eq]
      exact hpass
    rw [processKeyed_of_passes (show types.Passes ((Chain.heap types enough).typeOf o) from hpass),
      processKeyed_of_passes (show types.Passes ((Chain.heap types enough).typeOf o') from hpass')]
      at hsame
    obtain ⟨s, s', hs, hs', hlt⟩ := hlonger enough enough (Nat.le_refl _)
    have htext : (Chain.heap types enough).objects.toText (.record o) = some (some s) :=
      congrArg (Option.map some) hs
    have htext' : (Chain.heap types enough).objects.toText (.record o') = some (some s') :=
      congrArg (Option.map some) hs'
    rw [htext, htext'] at hsame
    cases hsame
    omega
  · intro hsafe Obj heap related hdiffer o o' hrelated hinstance fuel key budget hfuel
    exact keepsSecrets_of_safe hdiffer hsafe hfuel hrelated hinstance

/-! ## A member that holds a derived type -/

inductive Staff where
  | team
  | person
  | employee
  deriving DecidableEq

def lead : Member Staff := ⟨ascii "Lead", .record .person, false⟩

def level : Member Staff := ⟨ascii "Level", .scalar .primitive, false⟩

def salary : Member Staff := ⟨ascii "Salary", .scalar .primitive, true⟩

/-- An employee is a person with a salary, which is marked. -/
def staffTypes : RecordTypes Staff where
  lowerTable c := c
  typeName
    | .team => ascii "Team"
    | .person => ascii "Person"
    | .employee => ascii "Employee"
  members
    | .team => [lead]
    | .person => [level]
    | .employee => [level, salary]
  isMarked _ := false
  isAbstract _ := false
  derives name base := name = base ∨ name = .employee ∧ base = .person
  derives_self _ := Or.inl rfl

/-- Two teams, each led by an employee. -/
inductive StaffRecord where
  | team (isFirst : Bool)
  | employee (isFirst : Bool)

def staffTypeOf : StaffRecord → Staff
  | .team _ => .team
  | .employee _ => .employee

def staffValue (o : StaffRecord) (property : Property Staff) : Content StaffRecord :=
  match o with
  | .team isFirst => .record (.employee isFirst)
  | .employee isFirst =>
    if property.name = ascii "Salary" then
      .scalar .primitive (if isFirst then ascii "4000" else ascii "5000")
    else .scalar .primitive (ascii "3")

theorem staff_fits (o : StaffRecord) : ∀ member ∈ staffTypes.members (staffTypeOf o),
    Fits staffTypes staffTypeOf member.type (staffValue o member.property) := by
  cases o with
  | team isFirst =>
    intro member hmember
    rw [List.mem_singleton.mp hmember]
    exact .record (Or.inr ⟨rfl, rfl⟩) rfl
  | employee isFirst =>
    intro member hmember
    rcases List.mem_pair.mp hmember with rfl | rfl
    · exact .scalar .primitive _
    · exact .scalar .primitive _

def staffHeap : Heap staffTypes StaffRecord where
  typeOf := staffTypeOf
  value := staffValue
  stack := 9
  fits := staff_fits

def sameStaffType (o o' : StaffRecord) : Prop := staffTypeOf o = staffTypeOf o'

theorem staff_differ : DifferInHidden staffHeap sameStaffType := by
  intro o o' htype
  refine ⟨htype, Or.inr fun member hmember => ?_⟩
  cases o with
  | team isFirst =>
    cases o' with
    | team isFirst' => exact Or.inr (.record rfl)
    | employee isFirst' => cases htype
  | employee isFirst =>
    cases o' with
    | team isFirst' => cases htype
    | employee isFirst' =>
      rcases List.mem_pair.mp hmember with rfl | rfl
      · exact Or.inr (.scalar .primitive (ascii "3"))
      · exact Or.inl (Or.inr rfl)

theorem staff_passes : staffTypes.Passes .team :=
  RecordTypes.passes_of_needs rfl rfl (Nat.le_refl _) rfl

/-- The walk looks at persons, and the team prints the salary of the employee who leads it. -/
theorem staff_not_kept : ¬ KeepsSecrets staffTypes := by
  intro hkeeps
  have hsame := hkeeps StaffRecord staffHeap sameStaffType staff_differ (.team true) (.team false)
    rfl rfl enoughFuel [] 0 (Nat.le_refl _)
  rw [processKeyed_of_passes (show staffTypes.Passes (staffHeap.typeOf (.team true)) from
      staff_passes), processKeyed_of_passes (show staffTypes.Passes
      (staffHeap.typeOf (.team false)) from staff_passes)] at hsame
  injection hsame with hshown
  injection hshown with hshown
  injection hshown with hshown
  injection hshown with htext
  exact absurd htext (by decide)

end Decisya.Logging.Rendering
