import Mathlib
import IconForge.Proofs.Xml.Written

set_option autoImplicit false

/-! # Passing the check of a tag

A tag is checked in three parts, and each part says once here what passes it: an attribute with a
new name whose declaration is allowed (`checkAttributes_cons_eq_ok_iff`), names whose prefixes are
bound and whose expanded names differ (`checkPrefixes_eq_ok_iff`), and a tag that passes both with
its own prefix bound (`Tag.check_eq_ok_iff`). -/

namespace IconForge.Xml

/-! ## Declarations -/

theorem Scope.declare_of_allowed {scope : Scope} {qualifier : Option (List Char)}
    {uri : List Char} (h : AllowedDeclaration qualifier uri) :
    scope.declare qualifier uri =
      .ok (match qualifier with
        | some q => (q, uri) :: scope
        | none => scope) := by
  have hempty : ¬ (uri.isEmpty && qualifier.isSome) = true := by
    rw [Bool.and_eq_true, List.isEmpty_iff, Option.isSome_iff_ne_none]
    rintro ⟨hnil, hsome⟩
    exact h.nonempty hsome hnil
  have hseparator : ¬ uri.contains expandedNameSeparator = true := by
    rw [List.contains_eq_mem, decide_eq_true_eq]
    exact h.separator
  have hxml : ¬ (decide (qualifier = some xmlPrefix) && decide (uri ≠ xmlNamespace)) = true := by
    rw [Bool.and_eq_true, decide_eq_true_eq, decide_eq_true_eq]
    rintro ⟨hqualifier, huri⟩
    exact huri (h.xml.1 hqualifier)
  have hnamespace :
      ¬ (decide (qualifier ≠ some xmlPrefix) && decide (uri = xmlNamespace)) = true := by
    rw [Bool.and_eq_true, decide_eq_true_eq, decide_eq_true_eq]
    rintro ⟨hqualifier, huri⟩
    exact hqualifier (h.xml.2 huri)
  rw [Scope.declare.eq_def, if_neg hempty, if_neg h.not_xmlns, if_neg hseparator, if_neg hxml,
    if_neg hnamespace, if_neg h.not_xmlnsNamespace]
  cases qualifier with
  | some q => rfl
  | none => rfl

theorem Scope.allowed_of_declare {scope inner : Scope} {qualifier : Option (List Char)}
    {uri : List Char} (h : scope.declare qualifier uri = .ok inner) :
    AllowedDeclaration qualifier uri := by
  rw [Scope.declare.eq_def] at h
  split_ifs at h with hempty hxmlns hseparator hxml hnamespace hxmlnsNamespace
  simp only [Bool.and_eq_true, decide_eq_true_eq, not_and, not_not] at hempty hxml hnamespace
  exact {
    nonempty := fun hsome hnil =>
      hempty (List.isEmpty_iff.2 hnil) (Option.isSome_iff_ne_none.2 hsome)
    not_xmlns := hxmlns
    separator := by rwa [List.contains_eq_mem, decide_eq_true_eq] at hseparator
    xml := ⟨hxml, fun huri => by_contra fun hne => hnamespace hne huri⟩
    not_xmlnsNamespace := hxmlnsNamespace }

/-! ## Attributes -/

/-- The scope behind an attribute with a name and a value. -/
def Scope.behind (scope : Scope) (name : Name) (value : List Char) : Scope :=
  match name.declared? with
  | some (some q) => (q, value) :: scope
  | _ => scope

theorem Scope.declaring_cons (scope : Scope) (a : WrittenAttribute)
    (attributes : List WrittenAttribute) :
    scope.declaring (a :: attributes) = (scope.behind a.name a.content).declaring attributes := by
  cases hdeclared : a.name.declared? with
  | none => simp only [Scope.declaring, Scope.behind, hdeclared]
  | some qualifier =>
      cases qualifier with
      | none => simp only [Scope.declaring, Scope.behind, hdeclared]
      | some q => simp only [Scope.declaring, Scope.behind, hdeclared]

/-- **One attribute passes** when its name is new, its value is known and what it declares is
allowed. -/
theorem checkAttributes_cons_eq_ok_iff {source : List Char} {seen : List Name}
    {scope inner : Scope} {item : Attribute} {items : List Attribute} :
    checkAttributes source seen scope (item :: items) = .ok inner ↔
      item.name ∉ seen ∧ ∃ value, resolveValue source item.value = .ok value ∧
        (∀ q ∈ item.name.declared?, AllowedDeclaration q value) ∧
        checkAttributes source (item.name :: seen) (scope.behind item.name value) items =
          .ok inner := by
  rw [checkAttributes, List.contains_eq_mem]
  by_cases hseen : item.name ∈ seen
  · simp [hseen]
  cases hvalue : resolveValue source item.value with
  | error fault => simp [hseen]
  | ok value =>
      cases hdeclared : item.name.declared? with
      | none => simp [hseen, Scope.behind, hdeclared]
      | some qualifier =>
          by_cases hallowed : AllowedDeclaration qualifier value
          · cases qualifier with
            | none => simp [hseen, Scope.behind, hdeclared, hallowed, Scope.declare_of_allowed]
            | some q => simp [hseen, Scope.behind, hdeclared, hallowed, Scope.declare_of_allowed]
          · cases hdeclare : scope.declare qualifier value with
            | error problem => simp [hseen, hdeclare, hallowed]
            | ok declared => exact absurd (Scope.allowed_of_declare hdeclare) hallowed

/-! ## Prefixes -/

theorem Scope.expandedNames_cons_none {scope : Scope} {name : Name} (names : List Name)
    (h : name.qualifier = none) :
    scope.expandedNames (name :: names) = scope.expandedNames names := by
  rw [Scope.expandedNames, List.filterMap_cons_none]
  · rfl
  · rw [h]
    rfl

theorem Scope.expandedNames_cons_some {scope : Scope} {name : Name} {q uri : List Char}
    (names : List Name) (h : name.qualifier = some q) (huri : scope.lookup? q = some uri) :
    scope.expandedNames (name :: names) = (uri, name.localPart) :: scope.expandedNames names := by
  rw [Scope.expandedNames, List.filterMap_cons_some]
  · rfl
  · rw [h, Option.bind_some, huri, Option.map_some]

/-- **Names pass** when their prefixes are bound and their expanded names differ, from each other
and from those seen before. -/
theorem checkPrefixes_eq_ok_iff {scope : Scope} {names : List Name}
    {seen : List (List Char × List Char)} :
    checkPrefixes scope seen names = .ok () ↔
      (∀ name ∈ names, ∀ q ∈ name.qualifier, (scope.lookup? q).isSome) ∧
        (scope.expandedNames names).Nodup ∧
        ∀ expanded ∈ scope.expandedNames names, expanded ∉ seen := by
  induction names generalizing seen with
  | nil => simp [checkPrefixes, Scope.expandedNames]
  | cons name names ih =>
      rw [checkPrefixes, List.forall_mem_cons]
      cases hq : name.qualifier with
      | none =>
          rw [Scope.expandedNames_cons_none names hq]
          simpa using ih
      | some q =>
          cases huri : scope.lookup? q with
          | none => simp [huri]
          | some uri =>
              rw [Scope.expandedNames_cons_some names hq huri, List.nodup_cons,
                List.forall_mem_cons]
              by_cases hseen : (uri, name.localPart) ∈ seen
              · simp [huri, hseen]
              · simp only [huri, hseen, List.contains_eq_mem, decide_false, Bool.false_eq_true, if_false, ih,
                  List.mem_cons, not_or, Option.mem_def, Option.some.injEq, forall_eq',
                  Option.isSome_some, true_and, not_false_eq_true]
                constructor
                · rintro ⟨hbound, hnodup, hunseen⟩
                  exact ⟨hbound, ⟨fun hmem => (hunseen _ hmem).1 rfl, hnodup⟩,
                    fun expanded hmem => (hunseen expanded hmem).2⟩
                · rintro ⟨hbound, ⟨hnew, hnodup⟩, hunseen⟩
                  refine ⟨hbound, hnodup, fun expanded hmem => ⟨?_, hunseen expanded hmem⟩⟩
                  rintro rfl
                  exact hnew hmem

/-! ## Tags -/

/-- **A tag passes** when its attributes do and its own prefix is bound inside of it. -/
theorem Tag.check_eq_ok_iff {tag : Tag} {source : List Char} {scope inner : Scope} :
    tag.check source scope = .ok inner ↔
      checkAttributes source [] scope tag.attributes = .ok inner ∧
        checkPrefixes inner [] tag.plainNames = .ok () ∧
        ∀ q ∈ tag.name.qualifier, (inner.lookup? q).isSome := by
  constructor
  · intro h
    rw [Tag.check] at h
    split at h
    · cases h
    · next hattributes =>
      split at h
      · cases h
      · next hprefixes =>
        split at h
        · next hqualifier =>
          cases h
          refine ⟨hattributes, hprefixes, fun q hq => ?_⟩
          rw [hqualifier] at hq
          cases hq
        · next q hqualifier =>
          split at h
          · next hbound =>
            cases h
            refine ⟨hattributes, hprefixes, fun p hp => ?_⟩
            rw [hqualifier] at hp
            cases hp
            exact hbound
          · cases h
  · rintro ⟨hattributes, hprefixes, hbound⟩
    rw [Tag.check, hattributes]
    simp only [hprefixes]
    cases hqualifier : tag.name.qualifier with
    | none => rfl
    | some q => simp only [hbound q hqualifier, if_true]

end IconForge.Xml
